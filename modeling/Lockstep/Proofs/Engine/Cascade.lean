import Mathlib.Data.List.Basic
import Lockstep.Engine.Pool

/-!
# The cascade of ruptures

`Pool.cascade` moves ruptures on one after the other.  Whatever it is given, it leaves the sources
alone (`cascade_sources`) and does not look at them (`cascade_withSources`), every rupture keeps its
extractor (`cascade_extract`), the ruptures that it is not given stay as they are
(`cascade_of_notMem`), and it fails only with a fault of an extractor (`cascade_error`).

If it succeeds, every rupture that it is given has been moved on once, and was forced exactly if the
cascade is or a rupture in front of it breaks (`cascade_compute`).  So its last edge has become the
first one, and the new last edge is set exactly if the cascade is forced or one of the ruptures so
far breaks (`cascade_get`).
-/

namespace Lockstep

namespace Rupture

variable {κ : Type} [SyncKey κ] (r : Rupture κ) (current next : Frontier κ) (force : Bool)

@[simp] theorem compute_extract : (r.compute current next force).1.extract = r.extract := by
  unfold compute
  dsimp only
  split
  · rfl
  · split <;> rfl

variable {r current next force}

theorem breaks_error {f : Fault} (h : r.breaks current next = .error f) :
    ∃ k, r.extract k = .error f := by
  unfold breaks changes at h
  split at h
  · split at h
    · rename_i he
      cases h
      exact ⟨_, he⟩
    · split at h
      · rename_i he
        cases h
        exact ⟨_, he⟩
      · cases h
  · cases h
  · cases h

theorem compute_error {f : Fault} (h : (r.compute current next force).2 = .error f) :
    ∃ k, r.extract k = .error f := by
  unfold compute at h
  dsimp only at h
  split at h
  · cases h
  · split at h
    · cases h
    · rename_i he
      cases h
      exact breaks_error he

/-- An unforced rupture whose extractor does not fail finds its last edge. -/
theorem compute_unforced {b : Bool} (h : r.breaks current next = .ok b) :
    r.compute current next false = ({ r with first := r.last, last := b }, .ok b) := by
  have h' : ({ r with first := r.last } : Rupture κ).breaks current next = .ok b := h
  simp [compute, h']

/-- Unless it is forced a rupture finds its last edge by itself. -/
theorem compute_outcome : (r.compute current next force).2 =
    if force then .ok true else r.breaks current next := by
  cases force with
  | true => rfl
  | false =>
    have h : ({ r with first := r.last } : Rupture κ).breaks current next =
        r.breaks current next := rfl
    simp only [compute, h, Bool.false_eq_true, if_false]
    cases r.breaks current next <;> rfl

/-- The rupture one step later, with this last edge. -/
def moved (r : Rupture κ) (b : Bool) : Rupture κ := { r with first := r.last, last := b }

/-- A rupture that finds its last edge has moved on to it. -/
theorem compute_eq_moved {b : Bool} (h : (r.compute current next force).2 = .ok b) :
    (r.compute current next force).1 = r.moved b ∧
      (b = true ↔ force = true ∨ r.breaks current next = .ok true) := by
  cases force with
  | true =>
    obtain rfl : true = b := Except.ok.inj h
    exact ⟨rfl, by simp⟩
  | false =>
    cases hb : r.breaks current next with
    | ok c =>
      rw [compute_unforced hb] at h ⊢
      obtain rfl : c = b := Except.ok.inj h
      exact ⟨rfl, by simp⟩
    | error f =>
      have hb' : ({ r with first := r.last } : Rupture κ).breaks current next = .error f := hb
      simp [compute, hb'] at h

end Rupture

namespace Pool

variable {ρ κ : Type}

theorem getElem?_setRupture_self {p : Pool ρ κ} {j : ℕ} {r s : Rupture κ}
    (h : p.ruptures[j]? = some s) : (p.setRupture j r).ruptures[j]? = some r := by
  have hj : j < p.ruptures.length := (List.getElem?_eq_some_iff.1 h).1
  simp [setRupture, hj]

theorem getElem?_setRupture_ne {p : Pool ρ κ} {i j : ℕ} (r : Rupture κ) (h : j ≠ i) :
    (p.setRupture j r).ruptures[i]? = p.ruptures[i]? := by
  simp [setRupture, List.getElem?_set_ne h]

theorem getElem?_setRupture_extract {p : Pool ρ κ} {j : ℕ} {r s : Rupture κ}
    (h : p.ruptures[j]? = some s) (hr : r.extract = s.extract) (i : ℕ) :
    ((p.setRupture j r).ruptures[i]?).map (·.extract) = (p.ruptures[i]?).map (·.extract) := by
  by_cases hij : j = i
  · subst hij
    rw [getElem?_setRupture_self h, h, Option.map_some, Option.map_some, hr]
  · rw [getElem?_setRupture_ne _ hij]

/-- The edges of ruptures that are in the pool. -/
theorem edges_eq_map {p : Pool ρ κ} {js : List ℕ} (h : ∀ j ∈ js, j < p.ruptures.length) :
    p.edges js = js.map fun j => (p.ruptures[j]?).elim (false, false) (·.edges) := by
  rw [← List.filterMap_eq_map]
  refine List.filterMap_congr fun j hj => ?_
  simp [h j hj]

variable [SyncKey κ] {current next : Frontier κ} {force : Bool} {j : ℕ} {js : List ℕ}
  {p : Pool ρ κ}

theorem cascade_cons_none (h : p.ruptures[j]? = none) :
    cascade current next force (j :: js) p = cascade current next force js p := by
  simp [cascade, h]

theorem cascade_cons_ok {r : Rupture κ} {b : Bool} (h : p.ruptures[j]? = some r)
    (hb : (r.compute current next force).2 = .ok b) :
    cascade current next force (j :: js) p =
      cascade current next b js (p.setRupture j (r.compute current next force).1) := by
  simp only [cascade, h]
  generalize r.compute current next force = t at hb ⊢
  obtain ⟨s, o⟩ := t
  cases hb
  rfl

theorem cascade_cons_error {r : Rupture κ} {f : Fault} (h : p.ruptures[j]? = some r)
    (hf : (r.compute current next force).2 = .error f) :
    cascade current next force (j :: js) p =
      (p.setRupture j (r.compute current next force).1, .error f) := by
  simp only [cascade, h]
  generalize r.compute current next force = t at hf ⊢
  obtain ⟨s, o⟩ := t
  cases hf
  rfl

/-- What holds of a pool and of every pool with one rupture moved on holds after a cascade. -/
theorem cascade_induction {motive : Pool ρ κ → Prop}
    (hset : ∀ q i r force, i ∈ js → q.ruptures[i]? = some r → motive q →
      motive (q.setRupture i (r.compute current next force).1))
    (h : motive p) : motive (cascade current next force js p).1 := by
  induction js generalizing force p with
  | nil => exact h
  | cons j js ih =>
    have ih' := fun b q hq =>
      @ih b q (fun q i r b hi => hset q i r b (List.mem_cons_of_mem j hi)) hq
    cases hr : p.ruptures[j]? with
    | none =>
      rw [cascade_cons_none hr]
      exact ih' force p h
    | some r =>
      have hp := hset p j r force List.mem_cons_self hr h
      cases hc : (r.compute current next force).2 with
      | ok b =>
        rw [cascade_cons_ok hr hc]
        exact ih' b _ hp
      | error f =>
        rw [cascade_cons_error hr hc]
        exact hp

theorem cascade_sources : (cascade current next force js p).1.sources = p.sources :=
  cascade_induction (motive := fun q => q.sources = p.sources) (fun _ _ _ _ _ _ h => h) rfl

/-- The cascade does not see the sources. -/
theorem cascade_withSources (ss : List (Source ρ κ)) :
    cascade current next force js { p with sources := ss } =
      ({ (cascade current next force js p).1 with sources := ss },
        (cascade current next force js p).2) := by
  induction js generalizing force p with
  | nil => rfl
  | cons j js ih =>
    cases hr : p.ruptures[j]? with
    | none =>
      rw [cascade_cons_none hr, cascade_cons_none (p := { p with sources := ss }) hr]
      exact ih
    | some r =>
      cases hc : (r.compute current next force).2 with
      | error f =>
        rw [cascade_cons_error hr hc, cascade_cons_error (p := { p with sources := ss }) hr hc]
        rfl
      | ok b =>
        rw [cascade_cons_ok hr hc, cascade_cons_ok (p := { p with sources := ss }) hr hc]
        exact @ih b (p.setRupture j (r.compute current next force).1)

theorem cascade_of_notMem {i : ℕ} (hi : i ∉ js) :
    (cascade current next force js p).1.ruptures[i]? = p.ruptures[i]? := by
  refine cascade_induction (motive := fun q => q.ruptures[i]? = p.ruptures[i]?) ?_ rfl
  intro q j r b hj _ h
  have hji : j ≠ i := by
    rintro rfl
    exact hi hj
  rw [getElem?_setRupture_ne _ hji, h]

theorem cascade_extract (i : ℕ) :
    ((cascade current next force js p).1.ruptures[i]?).map (·.extract) =
      (p.ruptures[i]?).map (·.extract) := by
  refine cascade_induction
    (motive := fun q => (q.ruptures[i]?).map (·.extract) = (p.ruptures[i]?).map (·.extract)) ?_ rfl
  intro q j r b _ hr h
  rw [getElem?_setRupture_extract hr (Rupture.compute_extract r current next b), h]

theorem cascade_error {f : Fault} (h : (cascade current next force js p).2 = .error f) :
    ∃ j ∈ js, ∃ r, p.ruptures[j]? = some r ∧ ∃ k, r.extract k = .error f := by
  induction js generalizing force p with
  | nil => cases h
  | cons j js ih =>
    cases hr : p.ruptures[j]? with
    | none =>
      rw [cascade_cons_none hr] at h
      obtain ⟨i, hi, h⟩ := ih h
      exact ⟨i, List.mem_cons_of_mem j hi, h⟩
    | some r =>
      cases hc : (r.compute current next force).2 with
      | ok b =>
        rw [cascade_cons_ok hr hc] at h
        obtain ⟨i, hi, t, ht, hf⟩ := ih h
        -- the failing rupture had its extractor before rupture `j` moved on
        have he := getElem?_setRupture_extract hr (Rupture.compute_extract r current next force) i
        rw [ht, Option.map_some] at he
        obtain ⟨u, hu, hut⟩ := Option.map_eq_some_iff.1 he.symm
        exact ⟨i, List.mem_cons_of_mem j hi, u, hu, hut ▸ hf⟩
      | error g =>
        rw [cascade_cons_error hr hc] at h
        cases h
        exact ⟨j, List.mem_cons_self, r, hr, Rupture.compute_error hc⟩

/-- Before the mark no extractor is asked. -/
theorem cascade_done {k : κ} : (cascade (.key k) .done force js p).2 = .ok () := by
  induction js generalizing force p with
  | nil => rfl
  | cons j js ih =>
    cases hr : p.ruptures[j]? with
    | none =>
      rw [cascade_cons_none hr]
      exact ih
    | some r =>
      have hc : (r.compute (.key k) .done force).2 = .ok true := by
        cases force <;> rfl
      rw [cascade_cons_ok hr hc]
      exact ih

/-- The first rupture of a cascade is not forced, and the others do not change it. -/
theorem cascade_head {r : Rupture κ} {b : Bool} (hj : j ∉ js) (hr : p.ruptures[j]? = some r)
    (hb : r.breaks current next = .ok b) :
    (cascade current next false (j :: js) p).1.ruptures[j]? =
      some { r with first := r.last, last := b } := by
  have hc := Rupture.compute_unforced hb
  rw [cascade_cons_ok hr (congrArg Prod.snd hc), cascade_of_notMem hj,
    getElem?_setRupture_self hr, hc]

/-- One of the ruptures with the numbers `js` breaks. -/
def Breaks (p : Pool ρ κ) (current next : Frontier κ) (js : List ℕ) : Prop :=
  ∃ j ∈ js, ∃ r, p.ruptures[j]? = some r ∧ r.breaks current next = .ok true

theorem breaks_cons_none (h : p.ruptures[j]? = none) :
    p.Breaks current next (j :: js) ↔ p.Breaks current next js := by
  simp [Breaks, h]

theorem breaks_cons_some {r : Rupture κ} (h : p.ruptures[j]? = some r) :
    p.Breaks current next (j :: js) ↔
      r.breaks current next = .ok true ∨ p.Breaks current next js := by
  simp [Breaks, h]

theorem breaks_congr {q : Pool ρ κ} (h : ∀ j ∈ js, q.ruptures[j]? = p.ruptures[j]?) :
    q.Breaks current next js ↔ p.Breaks current next js :=
  exists_congr fun j => and_congr_right fun hj => by rw [h j hj]

/-- One more rupture breaks if the ruptures in front of it do, or if it does. -/
theorem breaks_take_succ {i : ℕ} {r : Rupture κ} (hj : js[i]? = some j)
    (hr : p.ruptures[j]? = some r) : p.Breaks current next (js.take (i + 1)) ↔
      p.Breaks current next (js.take i) ∨ r.breaks current next = .ok true := by
  simp [Breaks, List.take_add_one, hj, hr, or_and_right, exists_or]

/-- Each rupture of a cascade that succeeds is moved on once, from where it was before the cascade.
It is forced exactly if the cascade is or a rupture in front of it breaks. -/
theorem cascade_compute (hn : js.Nodup) (h : (cascade current next force js p).2 = .ok ()) {i : ℕ}
    {r : Rupture κ} (hj : js[i]? = some j) (hr : p.ruptures[j]? = some r) :
    ∃ forced b, (r.compute current next forced).2 = .ok b ∧
      (cascade current next force js p).1.ruptures[j]? =
        some (r.compute current next forced).1 ∧
      (forced = true ↔ force = true ∨ p.Breaks current next (js.take i)) := by
  induction js generalizing force p i with
  | nil => simp at hj
  | cons l js ih =>
    obtain ⟨hl, hn⟩ := List.nodup_cons.1 hn
    cases hp : p.ruptures[l]? with
    | none =>
      cases i with
      | zero =>
        obtain rfl : l = j := by simpa using hj
        cases hp.symm.trans hr
      | succ i =>
        rw [cascade_cons_none hp] at h ⊢
        rw [List.take_succ_cons, breaks_cons_none hp]
        exact ih hn h (by simpa using hj) hr
    | some s =>
      cases hc : (s.compute current next force).2 with
      | error f =>
        rw [cascade_cons_error hp hc] at h
        cases h
      | ok b =>
        rw [cascade_cons_ok hp hc] at h ⊢
        cases i with
        | zero =>
          -- the rupture at the head moves on first, and the others leave it alone
          obtain rfl : l = j := by simpa using hj
          obtain rfl : s = r := Option.some.inj (hp.symm.trans hr)
          refine ⟨force, b, hc, ?_, by simp [Breaks]⟩
          rw [cascade_of_notMem hl, getElem?_setRupture_self hp]
        | succ i =>
          have hj : js[i]? = some j := by simpa using hj
          have hne : ∀ m ∈ js, (p.setRupture l (s.compute current next force).1).ruptures[m]? =
              p.ruptures[m]? := by
            intro m hm
            refine getElem?_setRupture_ne _ ?_
            rintro rfl
            exact hl hm
          obtain ⟨forced, c, hcomp, hget, hiff⟩ :=
            ih hn h hj ((hne j (List.mem_of_getElem? hj)).trans hr)
          refine ⟨forced, c, hcomp, hget, hiff.trans ?_⟩
          rw [List.take_succ_cons, breaks_cons_some hp, ← or_assoc,
            ← (Rupture.compute_eq_moved hc).2]
          exact or_congr_right (breaks_congr fun m hm => hne m (List.mem_of_mem_take hm))

/-- The ruptures of a cascade that succeeds have moved on, and the last edge of each is set exactly
if the cascade is forced or a rupture up to it breaks. -/
theorem cascade_get (hn : js.Nodup) (h : (cascade current next force js p).2 = .ok ()) {i : ℕ}
    {r : Rupture κ} (hj : js[i]? = some j) (hr : p.ruptures[j]? = some r) :
    ∃ b, (cascade current next force js p).1.ruptures[j]? = some (r.moved b) ∧
      (b = true ↔ force = true ∨ p.Breaks current next (js.take (i + 1))) := by
  obtain ⟨forced, b, hcomp, hget, hforced⟩ := cascade_compute hn h hj hr
  obtain ⟨hmoved, hb⟩ := Rupture.compute_eq_moved hcomp
  refine ⟨b, hget.trans (congrArg some hmoved), ?_⟩
  rw [hb, hforced, or_assoc, breaks_take_succ hj hr]

end Pool

end Lockstep
