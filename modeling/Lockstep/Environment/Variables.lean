import Lockstep.Environment.Binding

/-!
# Environment variables

`Variables.load` adds the bindings of a text to the variables of a process.  A variable that is
set keeps its value, also an empty one; of several bindings of one name the last one counts; a
reference in a value sees the variables of the process first and then the bindings before it.
-/

namespace Lockstep.Environment

/-- Names with their values. -/
abbrev Variables := List (Text × Text)

namespace Variables

/-- The value of a variable. -/
def get? (vs : Variables) (name : Text) : Option Text :=
  (vs.find? fun v => v.1 == name).map (·.2)

/-- Set a variable. -/
def set (vs : Variables) (name value : Text) : Variables :=
  (name, value) :: vs.filter fun v => v.1 != name

/-- Remove a variable. -/
def unset (vs : Variables) (name : Text) : Variables := vs.filter fun v => v.1 != name

/-- Put a binding among the expanded ones: the last one of a name counts. -/
def bind (bs : List Binding) (b : Binding) : List Binding :=
  if bs.any fun x => x.name == b.name then
    bs.map fun x => if x.name == b.name then b else x
  else bs ++ [b]

/-- The value bound to a name; a name that is bound to nothing gives an empty text. -/
def bound? (bs : List Binding) (name : Text) : Option Text :=
  (bs.find? fun b => b.name == name).map fun b => b.value.getD []

/-- Expand the values of bindings in order. -/
def expandAll (vs : Variables) (bs : List Binding) : List Binding :=
  bs.foldl (fun done b =>
    let look (name : Text) : Option Text :=
      match vs.get? name with
      | some v => some v
      | none => bound? done name
    bind done ⟨b.name, b.value.map (Binding.expand look)⟩) []

/-- Add the bindings of a text. -/
def load (vs : Variables) (text : Text) : Variables :=
  (expandAll vs (Binding.ofText text)).foldl (fun vs b =>
    match b.value with
    | none => vs
    | some v => if (vs.get? b.name).isSome then vs else vs.set b.name v) vs

/-- The names that a text of bindings binds or refers to. -/
def mentioned (text : Text) : List Text :=
  (Binding.ofText text).flatMap fun b => b.name :: (b.value.map Binding.references).getD []

end Variables

end Lockstep.Environment
