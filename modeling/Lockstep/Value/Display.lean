import Lockstep.Text.Quoted
import Lockstep.Value.Basic

/-!
# Values as text

`Value.repr` writes a value so that its kind can be told; `Value.display` does the same but writes
a text as it is.
-/

namespace Lockstep.Value

mutual

/-- A value with its texts in quotes. -/
def repr : Value → Text
  | .none => "None".toList
  | .bool b => (if b then "True" else "False").toList
  | .int i => intText i
  | .float x => x.text
  | .text s => Text.quoted s
  | .bytes b => Text.quotedBytes b
  | .list xs => '[' :: reprList xs ++ [']']
  | .dict es => '\x7b' :: reprEntries es ++ ['\x7d']
  | .set [] => "set()".toList
  | .set xs => '\x7b' :: reprList xs ++ ['\x7d']
  | .date m => m.dateText
  | .dateTime m => m.dateText ++ ' ' :: m.timeText
  | .endMark => "END".toList

/-- Items with a comma and a blank between them. -/
def reprList : List Value → Text
  | [] => []
  | [x] => repr x
  | x :: xs => repr x ++ ',' :: ' ' :: reprList xs

/-- Entries with a comma and a blank between them, key and value parted by a colon. -/
def reprEntries : List (Value × Value) → Text
  | [] => []
  | [(k, v)] => repr k ++ ':' :: ' ' :: repr v
  | (k, v) :: es => repr k ++ ':' :: ' ' :: repr v ++ ',' :: ' ' :: reprEntries es

end

/-- A value as text; a text stands for itself. -/
def display : Value → Text
  | .text s => s
  | v => repr v

@[simp] theorem display_text (s : Text) : display (.text s) = s := rfl

end Lockstep.Value
