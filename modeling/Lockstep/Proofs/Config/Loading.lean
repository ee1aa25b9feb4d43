import Lockstep.Command.Answer
import Lockstep.Proofs.Config.Acceptance
import Lockstep.Proofs.Config.Depth
import Lockstep.Proofs.Yaml.Faults

/-!
# What becomes of a job file

The text of a job file may be a job, or have a fault of which the user is told, or have one that
escapes.  `Unloadable` lists the faults that escape: the reader of YAML documents fails with one
that is not reported, the document is no mapping, or a member of it is named by something else than
a text.

`Command.answerRequest_jobFile` says that these are all, whatever reader there is: any other text
of a job file is an accepted job or has a fault in one of its values, and then the user is told.  Of
the reader it only asks that a fault of it that is reported is one in a value
(`Config.Reader.Plain`).  A value that contains itself may be given unrolled: how it goes on below
its sixth level does not matter (`Config.jobOfValue_congr`).
-/

namespace Lockstep

/-- There is a sentence about every fault in a value. -/
theorem Fault.isSome_message {f : Fault} (h : f.family = .value) : f.message.isSome = true := by
  cases f with
  | tooManyDigits count => cases count <;> rfl
  | _ => first | rfl | cases h

namespace Config

variable {read : Reader} {t : Text} {f : Fault}

/-- Those faults of a reader that are reported are faults in values, such as a number that is too
long. -/
def Reader.Plain (read : Reader) : Prop :=
  ∀ t f, read t = .error f → Command.isLoadFault f = true → f.family = .value

/-- The faults of a text that keep it from being checked as a job. -/
inductive Unloadable (read : Reader) (t : Text) : Fault → Prop
  /-- The text cannot be read, as one that is not YAML, and this is not reported. -/
  | unread {f : Fault} (h : read t = .error f) (hf : Command.isLoadFault f = false) :
    Unloadable read t f
  /-- The document is neither a mapping nor empty. -/
  | notMapping {v : Value} (h : read t = .ok v) (hempty : v.isEmpty = false)
    (hkind : v.kind ≠ .dict) : Unloadable read t (.notMapping v.kind)
  /-- A member of the document is not named by a text. -/
  | memberNotText {es : List (Value × Value)} {e : Value × Value}
    (h : read t = .ok (.dict es)) (he : e ∈ es) (hkind : e.1.kind ≠ .text) :
    Unloadable read t .memberNotText

/-- The user is told of none of them. -/
theorem Unloadable.isLoadFault (h : Unloadable read t f) : Command.isLoadFault f = false := by
  cases h with
  | unread _ hf => exact hf
  | _ => rfl

/-! ### The value of a document -/

/-- Members that are named by texts are checked. -/
theorem jobOfValue_of_members {v : Value} {es : List (Value × Value)}
    (hv : (if v.isEmpty then .dict [] else v) = .dict es) (hkind : ∀ e ∈ es, e.1.kind = .text) :
    (∃ j, jobOfValue v = .ok j ∧ j.Accepted) ∨
      ∃ f, jobOfValue v = .error f ∧ f.family = .value := by
  have hall : (es.all fun e => e.1.kind == .text) = true :=
    List.all_eq_true.2 fun e he => beq_iff_eq.2 (hkind e he)
  rw [jobOfValue, hv]
  simp only [hall, if_true]
  cases hc : JobEntry.check (.dict es) with
  | ok j => exact Or.inl ⟨j, rfl, .check hc⟩
  | error issues => exact Or.inr ⟨_, rfl, rfl⟩

theorem jobOfValue_notMapping {v : Value} (hempty : v.isEmpty = false) (hkind : v.kind ≠ .dict) :
    jobOfValue v = .error (.notMapping v.kind) := by
  rw [jobOfValue, hempty]
  cases v with
  | dict es => exact absurd rfl hkind
  | _ => rfl

theorem jobOfValue_memberNotText {es : List (Value × Value)} {e : Value × Value} (he : e ∈ es)
    (hkind : e.1.kind ≠ .text) : jobOfValue (.dict es) = .error .memberNotText := by
  have hempty : (Value.dict es).isEmpty = false :=
    Bool.eq_false_iff.2 fun h => List.ne_nil_of_mem he (List.isEmpty_iff.1 h)
  have hall : ¬ (es.all fun e => e.1.kind == .text) = true :=
    fun h => hkind (beq_iff_eq.1 (List.all_eq_true.1 h e he))
  rw [jobOfValue, hempty]
  simp only [hall, if_false, Bool.false_eq_true]

/-- A value is an accepted job, or has a fault in a member, or cannot be checked as a job. -/
theorem jobOfValue_cases {v : Value} (ht : read t = .ok v) :
    (∃ j, jobOfValue v = .ok j ∧ j.Accepted) ∨
      ∃ f, jobOfValue v = .error f ∧ (f.family = .value ∨ Unloadable read t f) := by
  have hchecked {es : List (Value × Value)} (hv : (if v.isEmpty then .dict [] else v) = .dict es)
      (hkind : ∀ e ∈ es, e.1.kind = .text) : (∃ j, jobOfValue v = .ok j ∧ j.Accepted) ∨
      ∃ f, jobOfValue v = .error f ∧ (f.family = .value ∨ Unloadable read t f) :=
    (jobOfValue_of_members hv hkind).imp_right fun ⟨f, h, hf⟩ => ⟨f, h, Or.inl hf⟩
  by_cases hempty : v.isEmpty = true
  · exact hchecked (if_pos hempty) nofun
  · have hmembers : (if v.isEmpty then .dict [] else v) = v := if_neg hempty
    rw [Bool.not_eq_true] at hempty
    by_cases hdict : v.kind = .dict
    · obtain ⟨es, rfl⟩ : ∃ es, v = .dict es := by
        cases v with
        | dict es => exact ⟨es, rfl⟩
        | _ => cases hdict
      by_cases hkind : ∀ e ∈ es, e.1.kind = .text
      · exact hchecked hmembers hkind
      · push Not at hkind
        obtain ⟨e, he, hne⟩ := hkind
        exact Or.inr ⟨_, jobOfValue_memberNotText he hne, Or.inr (.memberNotText ht he hne)⟩
    · exact Or.inr ⟨_, jobOfValue_notMapping hempty hdict, Or.inr (.notMapping ht hempty hdict)⟩

/-! ### The text of a job file -/

theorem jobOfText_of_ok {v : Value} (h : read t = .ok v) : jobOfText read t = jobOfValue v := by
  rw [jobOfText, h]
  rfl

theorem jobOfText_of_error (h : read t = .error f) : jobOfText read t = .error f := by
  rw [jobOfText, h]
  rfl

/-- A text is an accepted job, or has a fault in a value, or cannot be checked as a job. -/
theorem jobOfText_cases (hread : read.Plain) (t : Text) :
    (∃ j, jobOfText read t = .ok j ∧ j.Accepted) ∨
      ∃ f, jobOfText read t = .error f ∧ (f.family = .value ∨ Unloadable read t f) := by
  cases ht : read t with
  | error f =>
    refine Or.inr ⟨f, jobOfText_of_error ht, ?_⟩
    cases hf : Command.isLoadFault f with
    | true => exact Or.inl (hread t f ht hf)
    | false => exact Or.inr (.unread ht hf)
  | ok v =>
    rw [jobOfText_of_ok ht]
    exact jobOfValue_cases ht

/-- The fault of a text that cannot be checked as a job. -/
theorem Unloadable.jobOfText (h : Unloadable read t f) : Config.jobOfText read t = .error f := by
  cases h with
  | unread h _ => exact jobOfText_of_error h
  | notMapping h hempty hkind => rw [jobOfText_of_ok h, jobOfValue_notMapping hempty hkind]
  | memberNotText h he hkind => rw [jobOfText_of_ok h, jobOfValue_memberNotText he hkind]

/-- What is found in a file of which the bytes are a text. -/
theorem loadBy_of_file {given : Option Text} {s s' : Surroundings} {p : Path} {bytes : List UInt8}
    (hl : s.locate given = .ok (p, s')) (hf : s'.workspace.node? p = some (.file bytes))
    (ht : Utf8.decode bytes = .ok t) :
    loadBy read given s =
      ((jobOfText read (Text.unifyEnds t)).map (JobEntry.resolve p.parent)).map fun j => (p, j) := by
  have hfrom : loadFrom read s'.workspace p =
      (jobOfText read (Text.unifyEnds t)).map (JobEntry.resolve p.parent) := by
    rw [loadFrom, hf]
    simp only [jobOfBytes, ht]
  rw [loadBy, hl, ← hfrom]
  show (loadFrom read s'.workspace p >>= fun j => .ok (p, j)) = _
  cases loadFrom read s'.workspace p <;> rfl

end Config

/-- Of the faults of YAML texts those in values are reported. -/
theorem Yaml.plain_value : Config.Reader.Plain Yaml.value := by
  intro t f h hf
  have hsafe := safe_value t
  rw [h] at hsafe
  cases hsafe with
  | value hv => exact hv
  | _ => cases hf

namespace Command

open Config

/-- The user is told of a fault, and nothing else happens. -/
structure Answer.Tells (a : Answer) (f : Fault) : Prop where
  code : a.code = 1
  output : a.output = []
  errors : ∃ m, f.message = some m ∧ a.errors = m.toList ++ ['\n']
  escaped : a.escaped = none

/-- A fault escapes, and the user is told nothing. -/
structure Answer.Escapes (a : Answer) (f : Fault) : Prop where
  code : a.code = 1
  output : a.output = []
  errors : a.errors = []
  escaped : a.escaped = some f

/-- The request is to check or to run the job in the given place. -/
inductive Request.Loads (given : Option Text) : Request → Prop
  | check : Loads given (.check given)
  | run (format : ReportFormat) (steps verbose : Bool) :
    Loads given (.run given format steps verbose)

variable {read : Reader} {given : Option Text} {s s' : Surroundings} {r : Request} {f : Fault}

theorem tells_of_loadBy (clock : Clock) (hr : r.Loads given) (h : loadBy read given s = .error f)
    (hv : f.family = .value) : (answerRequest read s clock r).Tells f := by
  obtain ⟨m, hm⟩ := Option.isSome_iff_exists.1 (Fault.isSome_message hv)
  have hanswer : answerLoadFault f = .reported f := by
    rw [answerLoadFault, isLoadFault, hv]
    rfl
  have herrors : (Answer.reported f).errors = m.toList ++ ['\n'] := by
    simp [Answer.reported, Answer.linesOf, hm]
  cases hr <;> simp only [answerRequest, h, hanswer] <;> exact ⟨rfl, rfl, ⟨m, hm, herrors⟩, rfl⟩

theorem escapes_of_loadBy (clock : Clock) (hr : r.Loads given)
    (h : loadBy read given s = .error f) (hf : isLoadFault f = false) :
    (answerRequest read s clock r).Escapes f := by
  have hanswer : answerLoadFault f = .escape f := by
    rw [answerLoadFault, hf]
    rfl
  cases hr <;> simp only [answerRequest, h, hanswer] <;> exact ⟨rfl, rfl, rfl, rfl⟩

/-- **What becomes of a job file.**  Whatever text it holds and however this is read, it is an
accepted job, or it has a fault in a value and the user is told, or the text cannot be checked as a
job and its fault escapes; and every text that cannot be checked has that fault. -/
theorem answerRequest_jobFile (hread : read.Plain) {p : Path} {bytes : List UInt8} {t : Text}
    (hl : s.locate given = .ok (p, s')) (hf : s'.workspace.node? p = some (.file bytes))
    (ht : Utf8.decode bytes = .ok t) (clock : Clock) :
    ((∃ j, loadBy read given s = .ok (p, j) ∧ j.Accepted) ∨
      (∃ f, loadBy read given s = .error f ∧ f.family = .value ∧
        ∀ r, r.Loads given → (answerRequest read s clock r).Tells f) ∨
      ∃ f, loadBy read given s = .error f ∧ Unloadable read (Text.unifyEnds t) f ∧
        ∀ r, r.Loads given → (answerRequest read s clock r).Escapes f) ∧
      ∀ f, Unloadable read (Text.unifyEnds t) f → loadBy read given s = .error f := by
  have hload : loadBy read given s = _ := loadBy_of_file hl hf ht
  have herror {f : Fault} (h : jobOfText read (Text.unifyEnds t) = .error f) :
      loadBy read given s = .error f := by
    rw [hload, h]
    rfl
  refine ⟨?_, fun f hu => herror hu.jobOfText⟩
  rcases jobOfText_cases hread (Text.unifyEnds t) with ⟨j, hj, hacc⟩ | ⟨f, hj, hv | hu⟩
  · exact Or.inl ⟨_, by rw [hload, hj]; rfl, hacc.resolve p.parent⟩
  · exact Or.inr (Or.inl ⟨f, herror hj, hv, fun r hr => tells_of_loadBy clock hr (herror hj) hv⟩)
  · exact Or.inr (Or.inr ⟨f, herror hj, hu, fun r hr =>
      escapes_of_loadBy clock hr (herror hj) hu.isLoadFault⟩)

/-- A truth value with another word: the fault is not one in a value, and it escapes. -/
theorem answerRequest_jobFile_truthWord :
    let name : Text := "job.yaml".toList
    let text : Text := "check_order: !!bool maybe\n".toList
    let s : Surroundings := ⟨.ofFiles [(name, Utf8.encode text)], [], true⟩
    Reader.Plain Yaml.value ∧ s.locate (some name) = .ok (Path.ofText name, s) ∧
      s.workspace.node? (Path.ofText name) = some (.file (Utf8.encode text)) ∧
      Utf8.decode (Utf8.encode text) = .ok text ∧
      Unloadable Yaml.value (Text.unifyEnds text) (.notTruthWord "maybe".toList) ∧
      (answerRequest Yaml.value s ⟨0, 0⟩ (.check (some name))).Escapes
        (.notTruthWord "maybe".toList) := by
  intro name text s
  have hl : s.locate (some name) = .ok (Path.ofText name, s) := rfl
  have hf : s.workspace.node? (Path.ofText name) = some (.file (Utf8.encode text)) := by
    decide +kernel
  have ht : Utf8.decode (Utf8.encode text) = .ok text := by decide +kernel
  have hu : Unloadable Yaml.value (Text.unifyEnds text) (.notTruthWord "maybe".toList) := by
    have hfault : (match Yaml.value (Text.unifyEnds text) with
        | .error f => f == .notTruthWord "maybe".toList
        | .ok _ => false) = true := by decide +kernel
    split at hfault
    · rename_i f hv
      obtain rfl := beq_iff_eq.1 hfault
      exact .unread hv rfl
    · cases hfault
  obtain ⟨hcases, hexact⟩ := answerRequest_jobFile Yaml.plain_value hl hf ht ⟨0, 0⟩
  have hload := hexact _ hu
  refine ⟨Yaml.plain_value, hl, hf, ht, hu, ?_⟩
  rcases hcases with ⟨j, hj, -⟩ | ⟨f, hj, hv, -⟩ | ⟨f, hj, -, hescapes⟩
  · cases hj.symm.trans hload
  · cases hj.symm.trans hload
    cases hv
  · cases hj.symm.trans hload
    exact hescapes _ .check

/-- A sequence is no job, and the user is not told so: the fault escapes. -/
theorem not_tells_sequence :
    let name : Text := "job.yaml".toList
    let s : Surroundings := ⟨.ofFiles [(name, Utf8.encode "- a\n".toList)], [], true⟩
    loadBy Yaml.value (some name) s = .error (.notMapping .list) ∧
      isLoadFault (.notMapping .list) = false ∧
      (answerRequest Yaml.value s ⟨0, 0⟩ (.check (some name))).Escapes (.notMapping .list) := by
  intro name s
  have hload : loadBy Yaml.value (some name) s = .error (.notMapping .list) := by decide +kernel
  exact ⟨hload, rfl, escapes_of_loadBy ⟨0, 0⟩ .check hload rfl⟩

end Command

end Lockstep
