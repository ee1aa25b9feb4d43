import Lockstep.Config.Entry
import Lockstep.Config.Shorthand
import Lockstep.Key.Field

/-!
# Jobs

A job lists sources, each a file of records with the key fields by which it is sorted, and
ruptures, each a number of leading characters of the key that make a group.  A source may be
bound to a rupture by name.

`JobEntry.check` accepts a value as a job or lists all its issues.  An accepted job has distinct
source names, distinct rupture names, and no source that is bound to a rupture that is not
declared; every key field but the last of a source has a width.
-/

namespace Lockstep.Config

/-- A rupture; without a width the whole key makes a group. -/
structure RuptureEntry where
  name : Text
  width : Option Nat
  deriving DecidableEq, Repr

/-- The formats of files of records. -/
inductive RecordFormat
  | delimited
  | jsonLines
  deriving DecidableEq, Repr

/-- The word for a format. -/
def RecordFormat.word : RecordFormat → String
  | .delimited => "csv"
  | .jsonLines => "jsonl"

/-- A source of records. -/
structure SourceEntry where
  name : Text
  path : Path
  format : RecordFormat
  key : List KeyField
  rupture : Option Text
  delimiter : Text
  deriving DecidableEq, Repr

/-- A job. -/
structure JobEntry where
  name : Text
  checkOrder : Bool
  ruptures : List RuptureEntry
  sources : List SourceEntry
  deriving DecidableEq, Repr

namespace RuptureEntry

/-- The name of the model in messages. -/
def model : String := "RuptureConfig"

/-- Read a rupture. -/
def check (v : Value) : Checked RuptureEntry := do
  let es ← Entry.members model v
  ((Checked.ap (.ok RuptureEntry.mk) (Entry.required "name" Entry.text es)).ap
    (Entry.defaulted "width" none (Entry.optional (Entry.integerFrom 0)) es))

end RuptureEntry

/-- The name of the model of key fields in messages. -/
def keyFieldModel : String := "KeyFieldConfig"

/-- The form of a key field; an integer needs a width. -/
def formOf (field : Text) (width : Option Nat) (isInt : Bool) : Checked FieldForm :=
  match width, isInt with
  | none, false => .ok .whole
  | some w, false => .ok (.text w)
  | some w, true => .ok (.int w)
  | none, true =>
    .fail (.rule ("Integer key field '".toList ++ field ++ "' requires a width".toList))

/-- Read a key field. -/
def checkKeyField (v : Value) : Checked KeyField := do
  let es ← Entry.members keyFieldModel v
  let parts ← (((Checked.ap (.ok fun field width isInt => (field, width, isInt))
    (Entry.required "field" Entry.text es)).ap
    (Entry.defaulted "width" none (Entry.optional (Entry.integerFrom 1)) es)).ap
    (Entry.defaulted "kind" false (Entry.choice ("text", false) ("int", true)) es))
  let form ← formOf parts.1 parts.2.1 parts.2.2
  .ok ⟨parts.1, form⟩

namespace SourceEntry

/-- The name of the model in messages. -/
def model : String := "SourceConfig"

/-- There is a key field, and every one but the last has a width. -/
def checkWidths (key : List KeyField) : Checked (List KeyField) :=
  if key.isEmpty then .fail (.rule "At least one key field is required".toList)
  else
    match key.dropLast.find? fun f => f.form.width?.isNone with
    | none => .ok key
    | some f =>
      .fail (.rule ("Key field '".toList ++ f.field ++
        "' needs a width; only the last field may be unbounded".toList))

/-- Read the key of a source, in short form or as a list. -/
def checkKey (v : Value) : Checked (List KeyField) := do
  let key ← Entry.list checkKeyField (match v with
    | .text s => .list ((Shorthand.itemsOf s).map Shorthand.entry)
    | v => v)
  checkWidths key

/-- Read a source. -/
def check (v : Value) : Checked SourceEntry := do
  let es ← Entry.members model v
  let named := Checked.ap (.ok SourceEntry.mk) (Entry.required "name" Entry.text es)
  let placed := named.ap (Entry.required "path" Entry.path es)
  let formed := placed.ap (Entry.defaulted "format" .jsonLines
    (Entry.choice ("csv", .delimited) ("jsonl", .jsonLines)) es)
  let keyed := formed.ap (Entry.required "key" checkKey es)
  let bound := keyed.ap (Entry.defaulted "rupture" none (Entry.optional Entry.text) es)
  bound.ap (Entry.defaulted "delimiter" [','] Entry.text es)

/-- The rupture to which a source is bound; an empty name binds it to none. -/
def binding? (s : SourceEntry) : Option Text := s.rupture.filter fun name => !name.isEmpty

end SourceEntry

namespace JobEntry

/-- The name of the model in messages. -/
def model : String := "JobConfig"

/-- The name of a job that has none. -/
def defaultName : Text := "breaksync".toList

/-- The names that occur more than once, each once, in code-point order. -/
def repeated (names : List Text) : List Text :=
  (names.eraseDups.filter fun n => 1 < names.count n).mergeSort fun a b => !Text.before b a

/-- The first source that is bound to a rupture which is not declared, and its binding. -/
def unbound? (j : JobEntry) : Option (Text × Text) :=
  j.sources.findSome? fun s =>
    match s.binding? with
    | none => none
    | some r => if (j.ruptures.map (·.name)).contains r then none else some (s.name, r)

/-- The rules over a whole job: distinct names, and no binding that leads nowhere. -/
def checkNames (j : JobEntry) : Checked JobEntry :=
  let twice := repeated (j.sources.map (·.name))
  let declared := j.ruptures.map (·.name)
  if !twice.isEmpty then
    .fail (.rule ("Duplicate source names: ".toList ++ Text.joinWith ", ".toList twice))
  else if declared.eraseDups.length != declared.length then
    .fail (.rule "Rupture names must be unique".toList)
  else
    match j.unbound? with
    | none => .ok j
    | some (source, rupture) =>
      .fail (.rule ("Source '".toList ++ source ++ "' references unknown rupture '".toList ++
        rupture ++ "'".toList))

/-- Read a job. -/
def check (v : Value) : Checked JobEntry := do
  let es ← Entry.members model v
  let named := Checked.ap (.ok JobEntry.mk) (Entry.defaulted "name" defaultName Entry.text es)
  let ordered := named.ap (Entry.defaulted "check_order" false Entry.truth es)
  let grouped := ordered.ap
    (Entry.defaulted "ruptures" [] (Entry.list RuptureEntry.check) es)
  let job ← grouped.ap (Entry.required "sources" (Entry.list SourceEntry.check) es)
  checkNames job

/-- The job with the paths of its sources seen from `base`. -/
def resolve (base : Path) (j : JobEntry) : JobEntry :=
  { j with sources := j.sources.map fun s => { s with path := base.join s.path } }

/-- The source with the given name. -/
def source (name : Text) (j : JobEntry) : Except Fault SourceEntry :=
  match j.sources.find? fun s => s.name == name with
  | some s => .ok s
  | none => .error (.unknownSource name)

end JobEntry

end Lockstep.Config
