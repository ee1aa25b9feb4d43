import Lockstep.Engine.Step
import Lockstep.Numeral.Layout

/-!
# Reports

A report counts over the steps of a run: how many there were, at how many all sources took part,
at how many each source did, and at how many each rupture closed a group.  If asked to, it keeps
a record of every step.
-/

namespace Lockstep

/-- Counts by name, each name once, in the order of their first mention. -/
abbrev Tally := List (Text × Int)

namespace Tally

/-- Set the count of a name. -/
def set (name : Text) (n : Int) : Tally → Tally
  | [] => [(name, n)]
  | e :: t => if e.1 == name then (name, n) :: t else e :: set name n t

/-- The tally of some entries; of several entries of one name the last one counts. -/
def ofList (es : List (Text × Int)) : Tally := es.foldl (fun t e => set e.1 e.2 t) []

/-- Every name with a count of zero. -/
def zero (names : List Text) : Tally := ofList (names.map fun n => (n, 0))

/-- The count of a name. -/
def count (name : Text) : Tally → Int
  | [] => 0
  | e :: t => if e.1 == name then e.2 else count name t

/-- Count a name once more. -/
def bump (name : Text) (t : Tally) : Tally := set name (count name t + 1) t

@[simp] theorem count_set_self (name : Text) (n : Int) (t : Tally) :
    count name (set name n t) = n := by
  induction t with
  | nil => simp [set, count]
  | cons e t ih =>
    by_cases h : e.1 = name <;> simp [set, count, h, ih]

theorem count_set_of_ne {a b : Text} (h : a ≠ b) (n : Int) (t : Tally) :
    count a (set b n t) = count a t := by
  induction t with
  | nil => simp [set, count, Ne.symm h]
  | cons e t ih =>
    by_cases hb : e.1 = b
    · have : e.1 ≠ a := fun ha => h (ha ▸ hb)
      simp [set, count, hb, Ne.symm h]
    · by_cases ha : e.1 = a <;> simp [set, count, hb, ha, ih, h]

end Tally

/-- What is kept of a step: its number and key, the sources that took part, and the ruptures
that closed a group. -/
structure StepRecord where
  number : Int
  key : Text
  synchronized : List Text
  breaks : List Text
  deriving DecidableEq, Repr

/-- What is counted over a run. -/
structure Report where
  jobName : Text
  runId : Text
  sourceNames : List Text
  ruptureNames : List Text
  steps : Int
  matched : Int
  elapsed : Binary64
  synchronized : Tally
  breaks : Tally
  records : List StepRecord
  deriving DecidableEq, Repr

namespace Report

/-- The report of a run before its first step. -/
def start (jobName runId : Text) (sources ruptures : List Text) : Report :=
  ⟨jobName, runId, sources, ruptures, 0, 0, .zero false, .zero sources, .zero ruptures, []⟩

/-- The names of the sources that take part in a step. -/
def takingPart {ρ κ : Type} (names : List Text) (s : Step ρ κ) : List Text :=
  (names.zipIdx.filter fun n => s.isSynchronized n.2).map (·.1)

/-- The names of the ruptures that close a group at a step. -/
def breaking {ρ κ : Type} (names : List Text) (s : Step ρ κ) : List Text :=
  ((names.zip s.edges).filter fun n => n.2.2).map (·.1)

/-- Count a step, and keep a record of it if asked to. -/
def record {ρ κ : Type} (keep : Bool) (showKey : Frontier κ → Text) (r : Report)
    (s : Step ρ κ) : Report :=
  let taking := takingPart r.sourceNames s
  let breaking := breaking r.ruptureNames s
  { r with
    steps := r.steps + 1
    matched := if s.allSynchronized then r.matched + 1 else r.matched
    synchronized := taking.foldl (fun t n => t.bump n) r.synchronized
    breaks := breaking.foldl (fun t n => t.bump n) r.breaks
    records :=
      if keep then r.records ++ [⟨Int.ofNat s.number, showKey s.key, taking, breaking⟩]
      else r.records }

end Report

end Lockstep
