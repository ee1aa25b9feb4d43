import Mathlib.Data.List.Forall2
import Lockstep.Proofs.Engine.Abreast
import Lockstep.Proofs.Engine.Tandem

/-!
# Paired runs

Two engines are paired by a relation that priming brings about and that every turn keeps, and the
step that the one shows stands in another relation to the step of the other (`Engine.Paired`).  As
for runs abreast, the second run may besides fail with a fault that is excused.

`Paired.drain` says what this makes of collected steps: those of the second run go together with the
first steps of the first run, and unless the second one fails with an excused fault, both runs make
as many steps and end alike.  Where nothing is excused this is `Paired.drain_alike`.
-/

namespace Lockstep

namespace Engine

variable {ρ κ : Type} [SyncKey κ]

/-- Priming puts the engines into a relation, every turn keeps it, and related steps are shown. -/
structure Paired (R : Engine ρ κ → Engine ρ κ → Prop) (U : Fault → Prop)
    (V : Step ρ κ → Step ρ κ → Prop) (e e' : Engine ρ κ) : Prop where
  unstarted : e.sync.started = false
  unstarted' : e'.sync.started = false
  prime : Action.Abreast R U e.begun.prime e'.begun.prime
  ended : ∀ d d', R d d' → d'.sync.ended = d.sync.ended
  turn : ∀ d d', R d d' → d.sync.ended = false →
    Action.Abreast (fun c c' => R c c' ∧ ∀ n, V (c.snapshot n) (c'.snapshot n)) U d.turn d'.turn

variable {R : Engine ρ κ → Engine ρ κ → Prop} {U : Fault → Prop}
  {V : Step ρ κ → Step ρ κ → Prop} {e e' d' : Engine ρ κ}

namespace Paired

section

variable (h : Paired R U V e e')

include h

/-- After as many steps the engines are related, and so are the steps they show. -/
theorem exists_after {n : ℕ} (hd : e'.after n = some d') :
    ∃ d, e.after n = some d ∧ R d d' ∧ (0 < n → ∀ m, V (d.snapshot m) (d'.snapshot m)) := by
  induction n generalizing d' with
  | zero =>
    have hp := h.prime
    rw [after_zero_eq_some.1 hd] at hp
    generalize hq : e.begun.prime = q at hp
    cases hp with
    | done hR => exact ⟨_, after_zero_eq_some.2 hq, hR, fun h0 => absurd h0 (lt_irrefl 0)⟩
  | succ n ih =>
    obtain ⟨c', hc', he', ht'⟩ := after_succ_eq_some.1 hd
    obtain ⟨c, hc, hR, -⟩ := ih hc'
    have he : c.sync.ended = false := (h.ended c c' hR).symm.trans he'
    have ht := h.turn c c' hR he
    rw [ht'] at ht
    generalize hq : c.turn = q at ht
    cases ht with
    | done hRV => exact ⟨_, after_succ_eq_some.2 ⟨c, hc, he, hq⟩, hRV.1, fun _ => hRV.2⟩

/-- Where the second run stops the first one does, unless the fault is excused. -/
theorem exists_stops {n : ℕ} {o : Except Fault Unit} (hs : e'.Stops n d' o) :
    (∃ f, U f ∧ o = .error f) ∨ ∃ d, e.Stops n d o := by
  cases hs with
  | @unprimed _ f hp' =>
    have hp := h.prime
    rw [hp'] at hp
    generalize hq : e.begun.prime = q at hp
    cases hp with
    | excused hu => exact .inl ⟨f, hu, rfl⟩
    | failed => exact .inr ⟨_, .unprimed hq⟩
  | finished ha' he' =>
    obtain ⟨d, hd, hR, -⟩ := h.exists_after ha'
    exact .inr ⟨d, .finished hd ((h.ended d _ hR).symm.trans he')⟩
  | @failed _ c' _ f ha' he' ht' =>
    obtain ⟨c, hc, hR, -⟩ := h.exists_after ha'
    have he : c.sync.ended = false := (h.ended c c' hR).symm.trans he'
    have ht := h.turn c c' hR he
    rw [ht'] at ht
    generalize hq : c.turn = q at ht
    cases ht with
    | excused hu => exact .inl ⟨f, hu, rfl⟩
    | failed => exact .inr ⟨_, .failed hc he hq⟩

theorem drain_getElem? {budget k : ℕ} {t' : Step ρ κ}
    (ht : (e'.drain budget .fresh).result[k]? = some t') :
    ∃ t, (e.drain budget .fresh).result[k]? = some t ∧ V t t' := by
  obtain ⟨hk, c', hc', rfl⟩ := exists_after_of_getElem? h.unstarted' ht
  obtain ⟨c, hc, -, hV⟩ := h.exists_after hc'
  refine ⟨c.snapshot (k + 1), ?_, hV (Nat.succ_pos k) _⟩
  rw [Engine.drain_getElem? h.unstarted, if_pos hk, hc, Option.map_some]

/-- The steps of the second run go together with the first steps of the first run. -/
theorem forall₂_take (budget : ℕ) :
    let r := e.drain budget .fresh
    let r' := e'.drain budget .fresh
    List.Forall₂ V (r.result.take r'.result.length) r'.result := by
  intro r r'
  have hle : r'.result.length ≤ r.result.length := by
    by_contra hlt
    obtain ⟨t, ht, -⟩ := h.drain_getElem? (List.getElem?_eq_getElem (not_le.1 hlt))
    exact absurd (List.getElem?_eq_some_iff.1 ht).1 (lt_irrefl _)
  refine List.forall₂_iff_get.2 ⟨by simp [hle], fun k hk hk' => ?_⟩
  obtain ⟨t, ht, hV⟩ := h.drain_getElem? (List.getElem?_eq_getElem hk')
  obtain ⟨hlt, rfl⟩ := List.getElem?_eq_some_iff.1 ht
  simpa using hV

/-- **Paired runs.**  Unless the second run fails with an excused fault, both make as many steps,
which go together, and end alike. -/
theorem drain (budget : ℕ) :
    let r := e.drain budget .fresh
    let r' := e'.drain budget .fresh
    (∃ f, U f ∧ r'.outcome = .error f) ∨
      (List.Forall₂ V r.result r'.result ∧ r'.ended = r.ended ∧ r'.outcome = r.outcome) := by
  intro r r'
  have hV := h.forall₂_take budget
  -- it is enough that both come as far and end alike
  have same : r.result.length = r'.result.length → r'.ended = r.ended → r'.outcome = r.outcome →
      List.Forall₂ V r.result r'.result ∧ r'.ended = r.ended ∧ r'.outcome = r.outcome := by
    intro hlen hended hok
    dsimp only at hV
    rw [← hlen, List.take_length] at hV
    exact ⟨hV, hended, hok⟩
  rcases (drain_spec h.unstarted' budget).2 with ⟨he', ho', rfl | ha'⟩ | ⟨he', n, hn, hs'⟩
  · exact .inr (same rfl rfl rfl)
  · obtain ⟨d, hd, -⟩ := h.exists_after ha'
    have hlen := drain_length h.unstarted hd
    have hlen' := drain_length h.unstarted' ha'
    refine .inr (same (hlen.trans hlen'.symm) ?_ (ho'.trans (drain_ok h.unstarted hd).symm))
    rcases (drain_spec h.unstarted budget).2 with ⟨he, -, -⟩ | ⟨-, n, hn, hs⟩
    · exact he'.trans he.symm
    · rw [after_eq_none_of_le hs.after_succ hn] at hd
      cases hd
  · refine (h.exists_stops hs').imp_right fun ⟨d, hs⟩ => ?_
    obtain ⟨hlen, he, -, ho⟩ := hs.drained h.unstarted hn
    obtain ⟨hlen', -⟩ := hs'.drained h.unstarted' hn
    exact same (hlen.trans hlen'.symm) (he'.trans he.symm) ho.symm

/-- Where nothing is excused the two runs make as many steps and end alike. -/
theorem drain_alike (hU : ∀ f, ¬ U f) (budget : ℕ) :
    let r := e.drain budget .fresh
    let r' := e'.drain budget .fresh
    List.Forall₂ V r.result r'.result ∧ r'.ended = r.ended ∧ r'.outcome = r.outcome ∧
      (e'.Completes ↔ e.Completes) := by
  intro r r'
  have hall : ∀ b, List.Forall₂ V (e.drain b .fresh).result (e'.drain b .fresh).result ∧
      (e'.drain b .fresh).ended = (e.drain b .fresh).ended ∧
      (e'.drain b .fresh).outcome = (e.drain b .fresh).outcome := by
    intro b
    rcases h.drain b with ⟨f, hf, -⟩ | hb
    · exact absurd hf (hU f)
    · exact hb
  obtain ⟨hV, he, ho⟩ := hall budget
  refine ⟨hV, he, ho, exists_congr fun b => ?_⟩
  rw [(hall b).2.1, (hall b).2.2]

end

end Paired

end Engine

end Lockstep
