import Mathlib.Data.List.Perm.Basic
import Mathlib.Data.List.Nodup
import Lockstep.Engine.Synchronization
import Lockstep.Proofs.Engine.Turn

/-!
# Actions on single sources

Reading from a source and comparing it with a key are actions on one source of the pool, which may
look at the ruptures and at nothing else (`Pool.onSource`).  Two such actions on different sources
do not meet: performed for each of several distinct sources, an action leaves the same pool
whatever their order is, as long as it does not fail (`forEach_onSource_perm`).

The first source on which the action fails is the last one that is changed.  The sources in front
of it have been changed once each, and those behind it are as they were: this is
`forEach_onSource_of_error`, and by `exists_of_forEach_onSource_error` there is no other way to
fail.
-/

namespace Lockstep

namespace Action

variable {σ ι : Type} {a : ι → Action σ} {s t : σ}

theorem forEach_cons_eq_ok {i : ι} {is : List ι} :
    forEach a (i :: is) s = (t, .ok ()) ↔
      ∃ u, a i s = (u, .ok ()) ∧ forEach a is u = (t, .ok ()) := andThen_eq_ok

/-- Where the actions for two different items do not depend on their order, those for several
distinct items do not either. -/
theorem forEach_perm {is js : List ι} (hij : is.Perm js) (hn : is.Nodup)
    (comm : ∀ i j s t u, i ≠ j → a i s = (t, .ok ()) → a j t = (u, .ok ()) →
      ∃ v, a j s = (v, .ok ()) ∧ a i v = (u, .ok ()))
    (h : forEach a is s = (t, .ok ())) : forEach a js s = (t, .ok ()) := by
  induction hij generalizing s with
  | nil => exact h
  | cons i _ ih =>
    obtain ⟨u, hu, h⟩ := forEach_cons_eq_ok.1 h
    exact forEach_cons_eq_ok.2 ⟨u, hu, ih hn.of_cons h⟩
  | swap i j is =>
    obtain ⟨u, hu, h⟩ := forEach_cons_eq_ok.1 h
    obtain ⟨v, hv, h⟩ := forEach_cons_eq_ok.1 h
    have hji : j ≠ i := by
      rintro rfl
      simp at hn
    obtain ⟨w, hw, hwv⟩ := comm j i s u v hji hu hv
    exact forEach_cons_eq_ok.2 ⟨w, hw, forEach_cons_eq_ok.2 ⟨v, hwv, h⟩⟩
  | trans hij _ ih₁ ih₂ => exact ih₂ (hij.nodup hn) (ih₁ hn h)

end Action

namespace Pool

variable {ρ κ : Type}

/-- Change one source, given the ruptures. -/
def onSource (f : List (Rupture κ) → Source ρ κ → Source ρ κ × Except Fault Unit) (i : ℕ) :
    Action (Pool ρ κ) := fun p =>
  match p.sources[i]? with
  | none => (p, .ok ())
  | some s => (p.setSource i (f p.ruptures s).1, (f p.ruptures s).2)

theorem read_eq_onSource :
    (read : ℕ → Action (Pool ρ κ)) = onSource fun rs s => s.read (opens rs s.gate) := by
  funext i p
  unfold read onSource
  cases p.sources[i]? with
  | none => rfl
  | some s => simp only [gateOpen_eq]

theorem synchronize_eq_onSource [SyncKey κ] (key : Frontier κ) :
    (synchronize key : ℕ → Action (Pool ρ κ)) = onSource fun _ s => s.synchronize key := rfl

section OnSource

variable {f : List (Rupture κ) → Source ρ κ → Source ρ κ × Except Fault Unit} {i : ℕ}
  {p q : Pool ρ κ}

theorem onSource_of_none (h : p.sources[i]? = none) : onSource f i p = (p, .ok ()) := by
  simp [onSource, h]

theorem onSource_of_some {s : Source ρ κ} (h : p.sources[i]? = some s) :
    onSource f i p = (p.setSource i (f p.ruptures s).1, (f p.ruptures s).2) := by
  simp [onSource, h]

@[simp] theorem onSource_ruptures : (onSource f i p).1.ruptures = p.ruptures := by
  unfold onSource
  split <;> rfl

theorem onSource_of_ne {j : ℕ} (h : i ≠ j) :
    (onSource f i p).1.sources[j]? = p.sources[j]? := by
  unfold onSource
  split
  · rfl
  · exact List.getElem?_set_ne h

theorem onSource_self :
    (onSource f i p).1.sources[i]? = (p.sources[i]?).map fun s => (f p.ruptures s).1 := by
  cases h : p.sources[i]? with
  | none => rw [onSource_of_none h, h, Option.map_none]
  | some s =>
    rw [onSource_of_some h, Option.map_some]
    exact List.getElem?_set_self (List.getElem?_eq_some_iff.1 h).1

theorem getElem?_onSource (j : ℕ) : (onSource f i p).1.sources[j]? =
    if j = i then (p.sources[j]?).map fun s => (f p.ruptures s).1 else p.sources[j]? := by
  split
  · next h => rw [h, onSource_self]
  · next h => exact onSource_of_ne (Ne.symm h)

theorem onSource_outcome : (onSource f i p).2 =
    (p.sources[i]?).elim (.ok ()) fun s => (f p.ruptures s).2 := by
  unfold onSource
  split <;> simp [*]

/-- Actions on two different sources do not depend on their order. -/
theorem onSource_comm {j : ℕ} {r : Pool ρ κ} (h : i ≠ j) (hp : onSource f i p = (q, .ok ()))
    (hq : onSource f j q = (r, .ok ())) :
    ∃ u, onSource f j p = (u, .ok ()) ∧ onSource f i u = (r, .ok ()) := by
  have hqj : q.sources[j]? = p.sources[j]? := by
    rw [← onSource_of_ne (f := f) (p := p) h, hp]
  have hqr : q.ruptures = p.ruptures := by
    rw [← onSource_ruptures (f := f) (i := i) (p := p), hp]
  cases hj : p.sources[j]? with
  | none =>
    rw [onSource_of_none (hqj.trans hj)] at hq
    obtain rfl := (Prod.mk.inj hq).1
    exact ⟨p, onSource_of_none hj, hp⟩
  | some t =>
    rw [onSource_of_some (hqj.trans hj), hqr] at hq
    obtain ⟨hr, ho⟩ := Prod.mk.inj hq
    refine ⟨_, (onSource_of_some hj).trans (Prod.ext rfl ho), ?_⟩
    have hi : (p.setSource j (f p.ruptures t).1).sources[i]? = p.sources[i]? :=
      List.getElem?_set_ne h.symm
    cases hs : p.sources[i]? with
    | none =>
      rw [onSource_of_none hs] at hp
      obtain rfl := (Prod.mk.inj hp).1
      rw [onSource_of_none (hi.trans hs), hr]
    | some s =>
      rw [onSource_of_some hs] at hp
      obtain ⟨rfl, hos⟩ := Prod.mk.inj hp
      rw [onSource_of_some (hi.trans hs), ← hr]
      refine Prod.ext ?_ hos
      simp only [setSource, List.set_comm _ _ h]

/-- What an action leaves of distinct sources does not depend on their order. -/
theorem forEach_onSource_perm {is js : List ℕ} (h : is.Perm js) (hn : is.Nodup)
    (hp : Action.forEach (onSource f) is p = (q, .ok ())) :
    Action.forEach (onSource f) js p = (q, .ok ()) :=
  Action.forEach_perm h hn (fun _ _ _ _ _ hij => onSource_comm hij) hp

/-- An action that fails on none of several distinct sources changes each of them once. -/
theorem forEach_onSource_of_ok {is : List ℕ} (hn : is.Nodup)
    (hok : ∀ i ∈ is, ∀ s, p.sources[i]? = some s → (f p.ruptures s).2 = .ok ()) :
    ∃ q, Action.forEach (onSource f) is p = (q, .ok ()) ∧ q.ruptures = p.ruptures ∧
      ∀ j, q.sources[j]? =
        if j ∈ is then (p.sources[j]?).map fun s => (f p.ruptures s).1 else p.sources[j]? := by
  induction is generalizing p with
  | nil => exact ⟨p, rfl, rfl, by simp⟩
  | cons i is ih =>
    obtain ⟨hi, hn⟩ := List.nodup_cons.1 hn
    have hout : (onSource f i p).2 = .ok () := by
      rw [onSource_outcome]
      cases hs : p.sources[i]? with
      | none => rfl
      | some s => exact hok i List.mem_cons_self s hs
    have hr : (onSource f i p).1.ruptures = p.ruptures := onSource_ruptures
    -- the sources that are left are as they were
    have hrest : ∀ j ∈ is, (onSource f i p).1.sources[j]? = p.sources[j]? := by
      intro j hj
      exact onSource_of_ne fun hij => hi (hij ▸ hj)
    obtain ⟨q, hq, hqr, hqs⟩ := ih hn (p := (onSource f i p).1) fun j hj s hs => by
      rw [hr]
      exact hok j (List.mem_cons_of_mem i hj) s (hrest j hj ▸ hs)
    have hfirst : onSource f i p = ((onSource f i p).1, .ok ()) := Prod.ext rfl hout
    refine ⟨q, ?_, hqr.trans hr, fun j => ?_⟩
    · rw [Action.forEach, Action.andThen_of_ok hfirst, hq]
    · rw [hqs j, hr]
      by_cases hj : j ∈ is
      · rw [if_pos hj, if_pos (List.mem_cons_of_mem i hj), hrest j hj]
      · rw [if_neg hj, getElem?_onSource]
        simp only [List.mem_cons, hj, or_false]

/-- The first source on which an action fails is the last one that it changes. -/
theorem forEach_onSource_of_error {is js : List ℕ} {x : Fault} {s : Source ρ κ} (hn : is.Nodup)
    (hi : i ∉ is) (hok : ∀ j ∈ is, ∀ t, p.sources[j]? = some t → (f p.ruptures t).2 = .ok ())
    (hs : p.sources[i]? = some s) (hx : (f p.ruptures s).2 = .error x) :
    ∃ q, Action.forEach (onSource f) (is ++ i :: js) p = (q, .error x) ∧
      q.ruptures = p.ruptures ∧ ∀ j, q.sources[j]? =
        if j ∈ is ∨ j = i then (p.sources[j]?).map fun t => (f p.ruptures t).1
        else p.sources[j]? := by
  obtain ⟨q, hq, hqr, hqs⟩ := forEach_onSource_of_ok hn hok
  have hqi : q.sources[i]? = some s := by rw [hqs, if_neg hi, hs]
  have hout : (onSource f i q).2 = .error x := by
    rw [onSource_outcome, hqi, hqr]
    exact hx
  have hlast : onSource f i q = ((onSource f i q).1, .error x) := Prod.ext rfl hout
  refine ⟨(onSource f i q).1, ?_, onSource_ruptures.trans hqr, fun j => ?_⟩
  · rw [Action.forEach_append, Action.andThen_of_ok hq, Action.forEach,
      Action.andThen_of_error hlast]
  · rw [getElem?_onSource, hqr]
    by_cases hji : j = i
    · subst hji
      simp [hqi, hs]
    · simp [hji, hqs j]

/-- Where an action for each of several distinct sources fails, it does so on a first one. -/
theorem exists_of_forEach_onSource_error {is : List ℕ} {x : Fault} (hn : is.Nodup)
    (h : Action.forEach (onSource f) is p = (q, .error x)) :
    ∃ as i bs s, is = as ++ i :: bs ∧
      (∀ j ∈ as, ∀ t, p.sources[j]? = some t → (f p.ruptures t).2 = .ok ()) ∧
      p.sources[i]? = some s ∧ (f p.ruptures s).2 = .error x := by
  induction is generalizing p with
  | nil => cases h
  | cons i is ih =>
    obtain ⟨hi, hn⟩ := List.nodup_cons.1 hn
    rcases hr : onSource f i p with ⟨u, y | _⟩
    · -- the action fails on the first source already
      rw [Action.forEach, Action.andThen_of_error hr] at h
      obtain rfl : y = x := Except.error.inj (Prod.mk.inj h).2
      have hout : (onSource f i p).2 = .error y := congrArg Prod.snd hr
      rw [onSource_outcome] at hout
      cases hs : p.sources[i]? with
      | none => simp [hs] at hout
      | some s => exact ⟨[], i, is, s, rfl, by simp, hs, by simpa [hs] using hout⟩
    · rw [Action.forEach, Action.andThen_of_ok hr] at h
      obtain ⟨as, j, bs, s, rfl, hok, hs, hx⟩ := ih hn h
      have hur : u.ruptures = p.ruptures := by
        rw [← onSource_ruptures (f := f) (i := i) (p := p), hr]
      have hus : ∀ n ∈ as ++ j :: bs, u.sources[n]? = p.sources[n]? := by
        intro n hmem
        rw [← onSource_of_ne (f := f) (p := p) (i := i) fun hin => hi (hin ▸ hmem), hr]
      have hout : (onSource f i p).2 = .ok () := congrArg Prod.snd hr
      rw [onSource_outcome] at hout
      refine ⟨i :: as, j, bs, s, rfl, ?_, ?_, by rwa [← hur]⟩
      · intro n hmem t ht
        rcases List.mem_cons.1 hmem with rfl | hmem
        · rw [ht] at hout
          exact hout
        · rw [← hur]
          exact hok n hmem t (by rw [hus n (List.mem_append_left _ hmem), ht])
      · rw [← hus j (by simp), hs]

end OnSource

end Pool

end Lockstep
