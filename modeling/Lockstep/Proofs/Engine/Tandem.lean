import Lockstep.Proofs.Engine.Course

/-!
# Runs in tandem

Two runs are in tandem when one of them is at every step what a function makes of the other.  Then
draining them comes to the same end with the same outcome (`Tandem.drain_end`), and what is
collected of the one is what a function makes of the steps that are collected of the other
(`Tandem.drain_result`).
-/

namespace Lockstep

namespace Engine

variable {ρ κ : Type} [SyncKey κ] {e e' d d' : Engine ρ κ} {m n : ℕ} {o o' : Except Fault Unit}

theorem Stops.after_of_lt (h : e.Stops n d o) (hm : m < n) : ∃ c, e.after (m + 1) = some c := by
  cases h with
  | unprimed => exact absurd hm (Nat.not_lt_zero m)
  | finished ha => exact after_isSome_of_le ha hm
  | failed ha => exact after_isSome_of_le ha hm

theorem Stops.number_le (h : e.Stops m d o) (h' : e.Stops n d' o') : n ≤ m := by
  by_contra hlt
  obtain ⟨c, hc⟩ := h'.after_of_lt (not_le.1 hlt)
  rw [h.after_succ] at hc
  cases hc

/-- A run stops in one way only. -/
theorem Stops.unique (h : e.Stops m d o) (h' : e.Stops n d' o') : m = n ∧ d = d' ∧ o = o' := by
  obtain rfl : m = n := le_antisymm (h'.number_le h) (h.number_le h')
  refine ⟨rfl, ?_⟩
  cases h with
  | unprimed hp =>
    cases h' with
    | unprimed hp' => simpa [hp] using hp'
    | finished ha => simp [after, hp] at ha
    | failed ha => simp [after, hp] at ha
  | finished ha he =>
    cases h' with
    | unprimed hp => simp [after, hp] at ha
    | finished ha' => simpa [ha] using ha'
    | failed ha' he' =>
      obtain rfl := Option.some.inj (ha.symm.trans ha')
      simp [he] at he'
  | failed ha he ht =>
    cases h' with
    | unprimed hp => simp [after, hp] at ha
    | finished ha' he' =>
      obtain rfl := Option.some.inj (ha.symm.trans ha')
      simp [he] at he'
    | failed ha' _ ht' =>
      obtain rfl := Option.some.inj (ha.symm.trans ha')
      simpa [ht] using ht'

/-- A run that stops after `n` steps gives them once it is asked for one more. -/
theorem Stops.drained (hs : e.Stops n d o) (hu : e.sync.started = false) {budget : ℕ}
    (hb : n < budget) :
    (e.drain budget .fresh).result.length = n ∧ (e.drain budget .fresh).ended = true ∧
      (e.drain budget .fresh).engine = d ∧ (e.drain budget .fresh).outcome = o := by
  have hlen : (e.drain budget .fresh).result.length = n := by
    rw [drain_of_stops hu hs hb.le]
    cases hs with
    | unprimed => rfl
    | finished ha => exact drain_length hu ha
    | failed ha => exact drain_length hu ha
  rcases (drain_spec hu budget).2 with ⟨-, -, rfl | ha⟩ | ⟨hended, m, -, hs'⟩
  · exact absurd hb (Nat.not_lt_zero n)
  · rw [after_eq_none_of_le hs.after_succ hb] at ha
    cases ha
  · obtain ⟨-, hd, ho⟩ := hs'.unique hs
    exact ⟨hlen, hended, hd, ho⟩

/-- The run of `e'` is at every step what `φ` makes of the run of `e`, and shows what `ψ` makes of
its steps. -/
structure Tandem (e e' : Engine ρ κ) (φ : Engine ρ κ → Engine ρ κ) (ψ : Step ρ κ → Step ρ κ) :
    Prop where
  unstarted : e.sync.started = false
  unstarted' : e'.sync.started = false
  after : ∀ n, e'.after n = (e.after n).map φ
  stops : ∀ n d o, e.Stops n d o → e'.Stops n (φ d) o
  snapshot : ∀ n d, e.after n = some d → (φ d).snapshot n = ψ (d.snapshot n)

section Tandem

variable {φ : Engine ρ κ → Engine ρ κ} {ψ : Step ρ κ → Step ρ κ} (h : e.Tandem e' φ ψ)
  (budget : ℕ)

include h

theorem Tandem.drain_result :
    (e'.drain budget .fresh).result = (e.drain budget .fresh).result.map ψ := by
  apply List.ext_getElem?
  intro k
  rw [List.getElem?_map, drain_getElem? h.unstarted, drain_getElem? h.unstarted', h.after]
  by_cases hk : k < budget
  · cases hd : e.after (k + 1) with
    | none => simp
    | some d => simp [hk, h.snapshot (k + 1) d hd]
  · simp [hk]

theorem Tandem.drain_end : (e'.drain budget .fresh).ended = (e.drain budget .fresh).ended ∧
    (e'.drain budget .fresh).outcome = (e.drain budget .fresh).outcome := by
  rcases (drain_spec h.unstarted budget).2 with ⟨he, ho, ha⟩ | ⟨he, m, hm, hs⟩
  · rcases (drain_spec h.unstarted' budget).2 with ⟨he', ho', -⟩ | ⟨-, m, hm, hs'⟩
    · exact ⟨by rw [he, he'], by rw [ho, ho']⟩
    · -- the other run makes as many steps as the budget allows
      rcases ha with rfl | ha
      · exact absurd hm (Nat.not_lt_zero m)
      · have hnone := after_eq_none_of_le hs'.after_succ hm
        rw [h.after, ha] at hnone
        cases hnone
  · obtain ⟨-, he', -, ho'⟩ := (h.stops m _ _ hs).drained h.unstarted' hm
    exact ⟨by rw [he, he'], ho'⟩

end Tandem

end Engine

end Lockstep
