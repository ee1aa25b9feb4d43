import Lockstep.Value.Basic

/-!
# The short form of a key

A key may be written as items `field` or `field:width` with commas between them; blanks around a
name, a width or an item do not count, and blank items are passed over.  `Shorthand.fields`
gives the long form, in which the width is still a text.
-/

namespace Lockstep.Config

/-- An item of a key in short form. -/
structure Shorthand where
  field : Text
  width : Option Text
  deriving DecidableEq, Repr

namespace Shorthand

/-- Read one item: the width, if any, stands after the first colon. -/
def ofText (item : Text) : Shorthand :=
  let p := Text.cutAt ':' (Text.strip item)
  let width := Text.strip p.2
  ⟨Text.strip p.1, if width.isEmpty then none else some width⟩

/-- The items of a key. -/
def itemsOf (key : Text) : List Shorthand :=
  ((Text.splitOn (· == ',') key).filter fun item => !(Text.strip item).isEmpty).map ofText

/-- The long form of an item. -/
def entry (i : Shorthand) : Value :=
  let field := (.text "field".toList, .text i.field)
  match i.width with
  | none => .dict [field]
  | some w => .dict [field, (.text "width".toList, .text w)]

end Shorthand

end Lockstep.Config
