import Mathlib.Data.List.Basic
import Mathlib.Data.List.Count
import Mathlib.Data.List.Forall2
import Mathlib.Data.List.Nodup
import Mathlib.Data.List.Perm.Subperm
import Lockstep.Config.Job

/-!
# Accepted jobs

A job is accepted if some value is read as it; it stays so when its paths are seen from another
place (`JobEntry.Accepted`).  The rules over a whole job hold of it: its sources have distinct
names, and so have its ruptures, and a source is bound to a declared rupture only.  The key fields
of every source obey the rules for key fields (`SourceEntry.KeyRules`).
-/

namespace Lockstep

/-- Where only first occurrences are kept nothing is repeated. -/
theorem nodup_eraseDups {α : Type} [BEq α] [LawfulBEq α] : ∀ l : List α, l.eraseDups.Nodup
  | [] => by simp
  | a :: l => by
    rw [List.eraseDups_cons, List.nodup_cons]
    refine ⟨?_, nodup_eraseDups (l.filter fun b => !b == a)⟩
    simp
termination_by l => l.length
decreasing_by exact Nat.lt_succ_of_le (List.length_filter_le _ _)

theorem nodup_of_length_eraseDups {α : Type} [BEq α] [LawfulBEq α] {l : List α}
    (h : l.eraseDups.length = l.length) : l.Nodup := by
  have hsub := List.subperm_of_subset (nodup_eraseDups l) fun a ha => List.mem_eraseDups.1 ha
  exact (hsub.perm_of_length_le (Nat.le_of_eq h.symm)).nodup_iff.1 (nodup_eraseDups l)

namespace Config

variable {α β : Type}

/-- What follows a check is only reached if the check succeeds. -/
theorem Checked.bind_eq_ok {a : Checked α} {f : α → Checked β} {b : β} :
    (a >>= f) = .ok b ↔ ∃ x, a = .ok x ∧ f x = .ok b := by
  cases a with
  | ok x => simp [bind, Except.bind]
  | error is => simp [bind, Except.bind]

/-- What every accepted item has, the items of an accepted list have. -/
theorem Checked.forall_of_itemsFrom {check : β → Checked α} {p : α → Prop}
    (hp : ∀ b a, check b = .ok a → p a) {bs : List β} {n : Nat} {as : List α}
    (h : itemsFrom check n bs = .ok as) : ∀ a ∈ as, p a := by
  induction bs generalizing n as with
  | nil =>
    obtain rfl : [] = as := Except.ok.inj h
    simp
  | cons b bs ih =>
    obtain ⟨g, rest, hg, hrest, rfl⟩ := Checked.ap_eq_ok.1 h
    cases hb : check b with
    | error is =>
      rw [hb] at hg
      cases hg
    | ok a =>
      rw [hb] at hg
      obtain rfl : List.cons a = g := Except.ok.inj hg
      exact List.forall_mem_cons.2 ⟨hp b a hb, ih hrest⟩

/-- If every item is accepted, the list of what they are read as is. -/
theorem Checked.itemsFrom_of_forall₂ {check : β → Checked α} {as : List α} {bs : List β}
    (h : List.Forall₂ (fun a b => check b = .ok a) as bs) (n : Nat) :
    itemsFrom check n bs = .ok as := by
  induction h generalizing n with
  | nil => rfl
  | cons hab _ ih =>
    rw [itemsFrom, hab, ih (n + 1)]
    rfl

theorem Checked.within_eq_ok {p : Place} {a : Checked α} {x : α} :
    within p a = .ok x ↔ a = .ok x := by
  cases a <;> simp [within]

theorem Entry.members_eq_ok {model : String} {v : Value} {es : List (Value × Value)} :
    members model v = .ok es ↔ v = .dict es := by
  cases v <;> simp [members, Checked.fail]

/-- A member with a default is the default or was read. -/
theorem Entry.defaulted_eq_ok {name : String} {d x : α} {entry : Value → Checked α}
    {es : List (Value × Value)} : defaulted name d entry es = .ok x ↔
      Value.find? name.toList es = none ∧ x = d ∨
        ∃ v, Value.find? name.toList es = some v ∧ entry v = .ok x := by
  unfold defaulted
  cases Value.find? name.toList es with
  | none => simp [eq_comm]
  | some v => simp [Checked.within_eq_ok]

theorem Entry.required_eq_ok {name : String} {x : α} {entry : Value → Checked α}
    {es : List (Value × Value)} : required name entry es = .ok x ↔
      ∃ v, Value.find? name.toList es = some v ∧ entry v = .ok x := by
  unfold required
  cases Value.find? name.toList es with
  | none => simp
  | some v => simp [Checked.within_eq_ok]

/-- What every accepted item has, the items of an accepted list have. -/
theorem Entry.forall_of_list {item : Value → Checked α} {p : α → Prop}
    (hp : ∀ v a, item v = .ok a → p a) {v : Value} {as : List α} (h : list item v = .ok as) :
    ∀ a ∈ as, p a := by
  unfold list at h
  split at h
  · exact Checked.forall_of_itemsFrom hp h
  · exact Checked.forall_of_itemsFrom hp h
  · cases h

theorem Entry.optional_eq_ok {entry : Value → Checked α} {v : Value} {x : α}
    (h : optional entry v = .ok (some x)) : ∃ u, entry u = .ok x := by
  unfold optional at h
  split at h
  · cases h
  · refine ⟨v, ?_⟩
    cases hv : entry v with
    | error is =>
      rw [hv] at h
      cases h
    | ok y =>
      rw [hv] at h
      exact congrArg Except.ok (Option.some.inj (Except.ok.inj h))

theorem Entry.optional_of_ne_none {entry : Value → Checked α} {v : Value} (h : v ≠ .none) :
    optional entry v = (entry v).map some := by
  unfold optional
  split
  · exact absurd rfl h
  · rfl

theorem Entry.integerFrom_of_integer {v : Value} {least n : Nat} (hv : integer v = .ok n)
    (hle : least ≤ n) : integerFrom least v = .ok n := by
  refine Checked.bind_eq_ok.2 ⟨n, hv, ?_⟩
  have hnot : ¬ (n : Int) < Int.ofNat least := by
    show ¬ (n : Int) < least
    omega
  rw [if_neg hnot, Int.toNat_natCast]

theorem Entry.le_of_integerFrom {least n : Nat} {v : Value} (h : integerFrom least v = .ok n) :
    least ≤ n := by
  obtain ⟨i, -, h⟩ := Checked.bind_eq_ok.1 h
  by_cases hi : i < Int.ofNat least
  · rw [if_pos hi] at h
    cases h
  · rw [if_neg hi] at h
    obtain rfl : i.toNat = n := Except.ok.inj h
    have hle : ¬ i < (least : Int) := hi
    omega

/-! ### Key fields -/

/-- The width of a form is the one that was given. -/
theorem formOf_width {field : Text} {width : Option Nat} {isInt : Bool} {form : FieldForm}
    (h : formOf field width isInt = .ok form) : form.width? = width := by
  unfold formOf at h
  split at h
  · obtain rfl : FieldForm.whole = form := Except.ok.inj h
    rfl
  · rename_i w
    obtain rfl : FieldForm.text w = form := Except.ok.inj h
    rfl
  · rename_i w
    obtain rfl : FieldForm.int w = form := Except.ok.inj h
    rfl
  · cases h

/-- A key field is read from the members of an entry. -/
theorem checkKeyField_eq_ok {v : Value} {f : KeyField} : checkKeyField v = .ok f ↔
    ∃ es width isInt, v = .dict es ∧ Entry.required "field" Entry.text es = .ok f.field ∧
      Entry.defaulted "width" none (Entry.optional (Entry.integerFrom 1)) es = .ok width ∧
      Entry.defaulted "kind" false (Entry.choice ("text", false) ("int", true)) es = .ok isInt ∧
      formOf f.field width isInt = .ok f.form := by
  constructor
  · intro h
    obtain ⟨es, hes, h⟩ := Checked.bind_eq_ok.1 h
    obtain ⟨parts, hparts, h⟩ := Checked.bind_eq_ok.1 h
    obtain ⟨form, hform, h⟩ := Checked.bind_eq_ok.1 h
    obtain rfl : (⟨parts.1, form⟩ : KeyField) = f := Except.ok.inj h
    obtain ⟨g, isInt, hg, hkind, rfl⟩ := Checked.ap_eq_ok.1 hparts
    obtain ⟨g', width, hg', hwidth, rfl⟩ := Checked.ap_eq_ok.1 hg
    obtain ⟨g'', name, hg'', hname, rfl⟩ := Checked.ap_eq_ok.1 hg'
    obtain rfl := Except.ok.inj hg''
    exact ⟨es, width, isInt, Entry.members_eq_ok.1 hes, hname, hwidth, hkind, hform⟩
  · rintro ⟨es, width, isInt, rfl, hname, hwidth, hkind, hform⟩
    refine Checked.bind_eq_ok.2 ⟨es, rfl, Checked.bind_eq_ok.2 ⟨(f.field, width, isInt), ?_, ?_⟩⟩
    · rw [hname, hwidth, hkind]
      rfl
    · exact Checked.bind_eq_ok.2 ⟨f.form, hform, rfl⟩

theorem width_pos_of_checkKeyField {v : Value} {f : KeyField} (h : checkKeyField v = .ok f) :
    ∀ w, f.form.width? = some w → 1 ≤ w := by
  intro w hw
  obtain ⟨es, width, isInt, -, -, hwidth, -, hform⟩ := checkKeyField_eq_ok.1 h
  obtain rfl : width = some w := (formOf_width hform).symm.trans hw
  rcases Entry.defaulted_eq_ok.1 hwidth with ⟨-, hd⟩ | ⟨u, -, hu⟩
  · cases hd
  · obtain ⟨u, hu⟩ := Entry.optional_eq_ok hu
    exact Entry.le_of_integerFrom hu

namespace SourceEntry

/-- The rules for the key fields of a source. -/
structure KeyRules (fs : List KeyField) : Prop where
  ne_nil : fs ≠ []
  /-- Every field but the last has a width. -/
  fixed : ∀ f ∈ fs.dropLast, f.form.width?.isSome = true
  width_pos : ∀ f ∈ fs, ∀ w, f.form.width? = some w → 1 ≤ w

/-- If the last field has a width, all have one. -/
theorem KeyRules.forall_width {fs : List KeyField} (h : KeyRules fs)
    (hlast : ∀ f, fs.getLast? = some f → f.form.width?.isSome = true) :
    ∀ f ∈ fs, f.form.width?.isSome = true := by
  intro f hf
  rw [← List.dropLast_append_getLast h.ne_nil, List.mem_append, List.mem_singleton] at hf
  rcases hf with hf | rfl
  · exact h.fixed f hf
  · exact hlast _ (List.getLast?_eq_some_getLast h.ne_nil)

theorem checkWidths_eq_ok {fs gs : List KeyField} : checkWidths fs = .ok gs ↔
    gs = fs ∧ fs ≠ [] ∧ ∀ f ∈ fs.dropLast, f.form.width?.isSome = true := by
  unfold checkWidths
  by_cases hnil : fs = []
  · simp [hnil, Checked.fail]
  · cases hf : fs.dropLast.find? fun f => f.form.width?.isNone with
    | none =>
      have hfixed : ∀ f ∈ fs.dropLast, f.form.width?.isSome = true := by
        intro f hmem
        have hnone := List.find?_eq_none.1 hf f hmem
        rw [Option.isNone_iff_eq_none] at hnone
        exact Option.ne_none_iff_isSome.1 hnone
      simp only [List.isEmpty_iff, hnil, if_false]
      exact ⟨fun h => ⟨(Except.ok.inj h).symm, hnil, hfixed⟩, fun h => congrArg Except.ok h.1.symm⟩
    | some f =>
      have hmem := List.mem_of_find?_eq_some hf
      have hnone := List.find?_some hf
      simp only [List.isEmpty_iff, hnil, if_false, Checked.fail]
      refine iff_of_false (by simp) fun h => ?_
      have hsome := h.2.2 f hmem
      simp only [Option.isNone_iff_eq_none] at hnone
      rw [hnone] at hsome
      cases hsome

/-- An accepted list of key fields obeys the rules. -/
theorem keyRules_of_checkKey {v : Value} {fs : List KeyField} (h : checkKey v = .ok fs) :
    KeyRules fs := by
  obtain ⟨gs, hgs, h⟩ := Checked.bind_eq_ok.1 h
  obtain ⟨rfl, hne, hfixed⟩ := checkWidths_eq_ok.1 h
  exact ⟨hne, hfixed, Entry.forall_of_list (fun _ _ => width_pos_of_checkKeyField) hgs⟩

/-- The key of an accepted source is what its member is read as. -/
theorem checkKey_of_check {es : List (Value × Value)} {s : SourceEntry}
    (h : check (.dict es) = .ok s) :
    ∃ u, Value.find? "key".toList es = some u ∧ checkKey u = .ok s.key := by
  obtain ⟨es', hes, h⟩ := Checked.bind_eq_ok.1 h
  obtain rfl : es = es' := Except.ok.inj hes
  obtain ⟨bound, delimiter, hbound, -, rfl⟩ := Checked.ap_eq_ok.1 h
  obtain ⟨keyed, rupture, hkeyed, -, rfl⟩ := Checked.ap_eq_ok.1 hbound
  obtain ⟨formed, key, hformed, hkey, rfl⟩ := Checked.ap_eq_ok.1 hkeyed
  obtain ⟨placed, format, hplaced, -, rfl⟩ := Checked.ap_eq_ok.1 hformed
  obtain ⟨named, path, hnamed, -, rfl⟩ := Checked.ap_eq_ok.1 hplaced
  obtain ⟨make, name, hmake, -, rfl⟩ := Checked.ap_eq_ok.1 hnamed
  obtain rfl := Except.ok.inj hmake
  exact Entry.required_eq_ok.1 hkey

end SourceEntry

namespace JobEntry

variable {j k : JobEntry}

/-- A value is read as the job, whose paths may be seen from another place. -/
inductive Accepted : JobEntry → Prop
  | check {v : Value} {j : JobEntry} (h : check v = .ok j) : Accepted j
  | resolve (base : Path) {j : JobEntry} (h : Accepted j) : Accepted (j.resolve base)

/-- Nothing is repeated if no name is listed as repeated. -/
theorem nodup_of_repeated {names : List Text} (h : (repeated names).isEmpty = true) :
    names.Nodup := by
  have hnil : (names.eraseDups.filter fun n => 1 < names.count n) = [] := by
    have hperm : (repeated names).Perm (names.eraseDups.filter fun n => 1 < names.count n) :=
      List.mergeSort_perm _ _
    rw [List.isEmpty_iff.1 h] at hperm
    exact hperm.nil_eq.symm
  rw [List.nodup_iff_count_le_one]
  intro n
  by_cases hn : n ∈ names
  · have hnot := List.filter_eq_nil_iff.1 hnil n (List.mem_eraseDups.2 hn)
    simpa using hnot
  · rw [List.count_eq_zero.2 hn]
    exact Nat.zero_le 1

theorem checkNames_eq_ok : j.checkNames = .ok k ↔
    k = j ∧ (repeated (j.sources.map (·.name))).isEmpty = true ∧
      (j.ruptures.map (·.name)).eraseDups.length = (j.ruptures.map (·.name)).length ∧
      j.unbound? = none := by
  simp only [checkNames, bne_iff_ne, ite_not, Checked.fail]
  by_cases hs : (repeated (j.sources.map (·.name))).isEmpty = true
  · by_cases hr : (j.ruptures.map (·.name)).eraseDups.length = (j.ruptures.map (·.name)).length
    · rw [hs, if_pos hr]
      cases j.unbound? <;> simp [hr, eq_comm]
    · rw [hs, if_neg hr]
      exact iff_of_false (by simp) fun h => hr h.2.2.1
  · exact iff_of_false (by simp [hs]) fun h => hs h.2.1

theorem checkNames_of_check {v : Value} (h : check v = .ok j) : j.checkNames = .ok j := by
  obtain ⟨es, -, h⟩ := Checked.bind_eq_ok.1 h
  obtain ⟨k, -, h⟩ := Checked.bind_eq_ok.1 h
  obtain ⟨rfl, -⟩ := checkNames_eq_ok.1 h
  exact h

/-- The rules over a whole job do not look at the paths. -/
theorem checkNames_resolve (base : Path) (h : j.checkNames = .ok j) :
    (j.resolve base).checkNames = .ok (j.resolve base) := by
  obtain ⟨-, hs, hr, hu⟩ := checkNames_eq_ok.1 h
  refine checkNames_eq_ok.2 ⟨rfl, ?_, hr, ?_⟩
  · simpa [resolve, Function.comp_def] using hs
  · simpa [unbound?, resolve, List.findSome?_map, Function.comp_def, SourceEntry.binding?] using hu

namespace Accepted

theorem of_toOption {v : Value} (h : (JobEntry.check v).toOption = some j) : j.Accepted := by
  cases hv : JobEntry.check v with
  | ok k =>
    rw [hv] at h
    exact .check (hv.trans (congrArg Except.ok (Option.some.inj h)))
  | error is =>
    rw [hv] at h
    cases h

theorem checkNames (h : j.Accepted) : j.checkNames = .ok j := by
  induction h with
  | check h => exact checkNames_of_check h
  | resolve base _ ih => exact checkNames_resolve base ih

/-- A source is bound to a declared rupture only. -/
theorem declared (h : j.Accepted) {s : SourceEntry} (hs : s ∈ j.sources) {name : Text}
    (hb : s.binding? = some name) : name ∈ j.ruptures.map (·.name) := by
  have hnone := List.findSome?_eq_none_iff.1 (checkNames_eq_ok.1 h.checkNames).2.2.2 s hs
  simpa [hb] using hnone

theorem sources_nodup (h : j.Accepted) : (j.sources.map (·.name)).Nodup :=
  nodup_of_repeated (checkNames_eq_ok.1 h.checkNames).2.1

theorem ruptures_nodup (h : j.Accepted) : (j.ruptures.map (·.name)).Nodup :=
  nodup_of_length_eraseDups (checkNames_eq_ok.1 h.checkNames).2.2.1

end Accepted

end JobEntry

end Config

end Lockstep
