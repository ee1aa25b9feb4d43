import Lockstep.Engine.Run
import Lockstep.Proofs.Engine.Turn

/-!
# The course of a run

`Engine.after e n` is the engine between step `n` and step `n + 1` of a fresh run of `e`, if the
run makes `n` steps; number 0 is the primed engine.  `Engine.Stops` says how a run that makes `n`
steps and no more comes to its end.  Draining a run is read off these two:

* `drain_getElem?`: the steps that are collected are the snapshots of the engines after them;
* `drain_spec`: either the budget is spent, or the run stops within it;
* `drain_key_succ`: the next key that a step has found is the key of the next step.

For a run of a prepared engine `Prepared.after_induction` proves a statement about the engine
after every step and its lanes, from priming and from one turn, and `Prepared.drain_cases` says
where such a run can have come to.
-/

namespace Lockstep

namespace Engine

section Generic

variable {ρ κ : Type} [SyncKey κ]

/-- The engine after one more step, unless none is left or the turn fails. -/
def stepped (d : Engine ρ κ) : Option (Engine ρ κ) :=
  if d.sync.ended then none
  else match d.turn with
    | (d', .ok ()) => some d'
    | (_, .error _) => none

/-- The engine after `n` steps of a fresh run. -/
def after (e : Engine ρ κ) : ℕ → Option (Engine ρ κ)
  | 0 => match e.begun.prime with
    | (d, .ok ()) => some d
    | (_, .error _) => none
  | n + 1 => (e.after n).bind stepped

/-- The run makes `n` steps and stops, leaving this engine and this outcome. -/
inductive Stops (e : Engine ρ κ) : ℕ → Engine ρ κ → Except Fault Unit → Prop
  | unprimed {d f} : e.begun.prime = (d, .error f) → Stops e 0 d (.error f)
  | finished {n d} : e.after n = some d → d.sync.ended = true → Stops e n d (.ok ())
  | failed {n d d' f} : e.after n = some d → d.sync.ended = false → d.turn = (d', .error f) →
      Stops e n d' (.error f)

variable {e d d' : Engine ρ κ} {n : ℕ}

theorem stepped_eq_some :
    d.stepped = some d' ↔ d.sync.ended = false ∧ d.turn = (d', .ok ()) := by
  unfold stepped
  cases d.sync.ended with
  | true => simp
  | false => rcases d.turn with ⟨t, _ | _⟩ <;> simp

theorem after_zero_eq_some : e.after 0 = some d ↔ e.begun.prime = (d, .ok ()) := by
  unfold after
  rcases e.begun.prime with ⟨t, _ | _⟩ <;> simp

theorem after_succ_eq_some : e.after (n + 1) = some d' ↔
    ∃ d, e.after n = some d ∧ d.sync.ended = false ∧ d.turn = (d', .ok ()) := by
  simp only [after, Option.bind_eq_some_iff, stepped_eq_some]

theorem after_eq_none_of_le {m : ℕ} (h : e.after n = none) (hm : n ≤ m) : e.after m = none := by
  induction hm with
  | refl => exact h
  | step _ ih => rw [after, ih, Option.bind_none]

/-- A run that makes `n` steps makes every number of steps below. -/
theorem after_isSome_of_le {m : ℕ} (h : e.after n = some d) (hm : m ≤ n) :
    ∃ d', e.after m = some d' := by
  cases hd : e.after m with
  | some d' => exact ⟨d', rfl⟩
  | none => rw [after_eq_none_of_le hd hm] at h; cases h

/-- A run changes nothing of a synchronization but its keys, and that it counts as started. -/
theorem after_registered (h : e.after n = some d) : d.sync.sources = e.sync.sources ∧
    d.sync.ruptures = e.sync.ruptures ∧ d.sync.started = true := by
  induction n generalizing d with
  | zero =>
    obtain ⟨-, f, hs⟩ := prime_eq_ok (after_zero_eq_some.1 h)
    simp [hs, begun]
  | succ n ih =>
    obtain ⟨c, hc, -, ht⟩ := after_succ_eq_some.1 h
    obtain ⟨-, f, -, hs, -⟩ := turn_eq_ok ht
    simp [hs, ih hc]

theorem Stops.after_succ {o : Except Fault Unit} (h : e.Stops n d o) : e.after (n + 1) = none := by
  cases h with
  | unprimed hp =>
    have h0 : e.after 0 = none := by simp [after, hp]
    exact after_eq_none_of_le h0 (Nat.zero_le 1)
  | finished ha he => simp [after, ha, stepped, he]
  | failed ha he ht => simp [after, ha, stepped, he, ht]

/-! ### Draining -/

theorem resumeAt_of_ended (h : d.sync.ended = true) (n : ℕ) :
    d.resumeAt n = ⟨d, .finished, .ok none, [endNote n]⟩ := by
  simp [resumeAt, h]

theorem resumeAt_of_turn (h : d.sync.ended = false) (ht : d.turn = (d', .ok ())) (n : ℕ) :
    d.resumeAt n = ⟨d', .paused (n + 1), .ok (some (d'.snapshot (n + 1))),
      [d'.stepNote (d'.snapshot (n + 1))]⟩ := by
  simp [resumeAt, h, ht]

theorem resumeAt_of_fault {f : Fault} (h : d.sync.ended = false) (ht : d.turn = (d', .error f))
    (n : ℕ) : d.resumeAt n = ⟨d', .finished, .error f, []⟩ := by
  simp [resumeAt, h, ht]

/-- Put a step in front of the steps collected so far, as draining does. -/
def collect (b : List (Step ρ κ)) (s : Step ρ κ) : Except Fault (List (Step ρ κ)) := .ok (s :: b)

/-- What draining collects from a run that has made `n` steps. -/
theorem fold_paused {budget : ℕ} {b : List (Step ρ κ)} (h : e.after n = some d)
    {r : Folded ρ κ (List (Step ρ κ))} (hr : fold collect budget b d (.paused n) = r) :
    (∃ ss : List (Step ρ κ), r.result = ss.reverse ++ b ∧ ∀ k, ss[k]? =
      if k < budget then (e.after (n + k + 1)).map (·.snapshot (n + k + 1)) else none) ∧
    ((r.ended = false ∧ r.outcome = .ok () ∧ e.after (n + budget) = some r.engine) ∨
      (r.ended = true ∧ ∃ m < n + budget, e.Stops m r.engine r.outcome)) := by
  induction budget generalizing n d b r with
  | zero =>
    subst hr
    exact ⟨⟨[], rfl, by simp⟩, Or.inl ⟨rfl, rfl, h⟩⟩
  | succ budget ih =>
    -- a run that stops here collects nothing more
    have stop : ∀ {d' o}, e.Stops n d' o → ∃ ss : List (Step ρ κ), b = ss.reverse ++ b ∧
        ∀ k, ss[k]? = if k < budget + 1 then
          (e.after (n + k + 1)).map (·.snapshot (n + k + 1)) else none := by
      intro d' o hs
      refine ⟨[], rfl, fun k => ?_⟩
      rw [after_eq_none_of_le hs.after_succ (by omega)]
      simp
    cases he : d.sync.ended with
    | true =>
      have hs := Stops.finished h he
      simp only [fold, resume, resumeAt_of_ended he] at hr
      subst hr
      exact ⟨stop hs, Or.inr ⟨rfl, n, by omega, hs⟩⟩
    | false =>
      rcases ht : d.turn with ⟨d', f | u⟩
      · have hs := Stops.failed h he ht
        simp only [fold, resume, resumeAt_of_fault he ht] at hr
        subst hr
        exact ⟨stop hs, Or.inr ⟨rfl, n, by omega, hs⟩⟩
      · have h' : e.after (n + 1) = some d' := after_succ_eq_some.2 ⟨d, h, he, ht⟩
        obtain ⟨⟨ss, hss, hget⟩, hend⟩ := ih (b := d'.snapshot (n + 1) :: b) h' rfl
        simp only [fold, resume, resumeAt_of_turn he ht, collect] at hr
        subst hr
        refine ⟨⟨d'.snapshot (n + 1) :: ss, hss.trans (by simp), fun k => ?_⟩, ?_⟩
        · cases k with
          | zero => simp [h']
          | succ k =>
            rw [List.getElem?_cons_succ, hget, show n + 1 + k + 1 = n + (k + 1) + 1 by omega]
            simp only [Nat.add_lt_add_iff_right]
        · rw [show n + (budget + 1) = n + 1 + budget by omega]
          exact hend

theorem drain_eq (budget : ℕ) (g : Progress) : e.drain budget g =
    let r := fold collect budget [] e g
    { r with result := r.result.reverse } := rfl

/-- A fresh run that cannot be primed gives no step. -/
theorem drain_unprimed (h : e.sync.started = false) {f : Fault}
    (hp : e.begun.prime = (d, .error f)) (budget : ℕ) :
    e.drain (budget + 1) .fresh = ⟨d, .finished, [], true, .error f, [e.begun.startNote]⟩ := by
  have hr : e.resumeFresh = ⟨d, .finished, .error f, [e.begun.startNote]⟩ := by
    simp only [resumeFresh, h, Bool.false_eq_true, if_false]
    rw [show ({ e with sync := { e.sync with started := true } } : Engine ρ κ).prime = _ from hp]
    rfl
  simp only [drain_eq, fold, resume, hr, List.reverse_nil]

/-- Once primed, a fresh run is one that has made no step yet, up to what is noted. -/
theorem fold_fresh {β : Type} (visit : β → Step ρ κ → Except Fault β) (b : β)
    (h : e.sync.started = false) (h0 : e.after 0 = some d) (budget : ℕ) :
    ∃ notes, fold visit (budget + 1) b e .fresh =
      { fold visit (budget + 1) b d (.paused 0) with notes := notes } := by
  have hr : e.resumeFresh =
      { d.resumeAt 0 with notes := e.begun.startNote :: (d.resumeAt 0).notes } := by
    simp only [resumeFresh, h, Bool.false_eq_true, if_false]
    rw [show ({ e with sync := { e.sync with started := true } } : Engine ρ κ).prime = _ from
      after_zero_eq_some.1 h0]
    rfl
  simp only [fold, resume, hr]
  rcases (d.resumeAt 0).outcome with f | _ | s
  · exact ⟨_, rfl⟩
  · exact ⟨_, rfl⟩
  · dsimp only
    rcases visit b s with f | b'
    · exact ⟨_, rfl⟩
    · exact ⟨_, rfl⟩

/-- The steps that are collected, and how the collecting ends. -/
theorem drain_spec (h : e.sync.started = false) (budget : ℕ) :
    (∀ k, (e.drain budget .fresh).result[k]? =
      if k < budget then (e.after (k + 1)).map (·.snapshot (k + 1)) else none) ∧
    (((e.drain budget .fresh).ended = false ∧ (e.drain budget .fresh).outcome = .ok () ∧
        (budget = 0 ∨ e.after budget = some (e.drain budget .fresh).engine)) ∨
      ((e.drain budget .fresh).ended = true ∧ ∃ m < budget,
        e.Stops m (e.drain budget .fresh).engine (e.drain budget .fresh).outcome)) := by
  cases budget with
  | zero => exact ⟨by simp [drain], Or.inl ⟨rfl, rfl, Or.inl rfl⟩⟩
  | succ budget =>
    rcases hp : e.begun.prime with ⟨d, f | u⟩
    · have hs : e.Stops 0 d (.error f) := .unprimed hp
      rw [drain_unprimed h hp]
      refine ⟨fun k => ?_, Or.inr ⟨rfl, 0, by omega, hs⟩⟩
      rw [after_eq_none_of_le hs.after_succ (by omega)]
      simp
    · have h0 : e.after 0 = some d := after_zero_eq_some.2 hp
      obtain ⟨notes, hf⟩ := fold_fresh collect [] h h0 budget
      obtain ⟨⟨ss, hss, hget⟩, hend⟩ :=
        fold_paused h0 (rfl : fold collect (budget + 1) [] d (.paused 0) = _)
      rw [drain_eq, hf]
      refine ⟨fun k => ?_, ?_⟩
      · simp only [hss, List.append_nil, List.reverse_reverse, hget, Nat.zero_add]
      · simp only [Nat.zero_add] at hend
        exact hend.imp (fun ⟨h1, h2, h3⟩ => ⟨h1, h2, Or.inr h3⟩) id

theorem drain_getElem? (h : e.sync.started = false) (budget k : ℕ) :
    (e.drain budget .fresh).result[k]? =
      if k < budget then (e.after (k + 1)).map (·.snapshot (k + 1)) else none :=
  (drain_spec h budget).1 k

theorem drain_take (h : e.sync.started = false) {m budget : ℕ} (hm : m ≤ budget) :
    (e.drain budget .fresh).result.take m = (e.drain m .fresh).result := by
  apply List.ext_getElem?
  intro k
  rw [List.getElem?_take, drain_getElem? h, drain_getElem? h]
  by_cases hk : k < m
  · simp [hk, show k < budget by omega]
  · simp [hk]

/-- The engine after a collected step. -/
theorem exists_after_of_getElem? (h : e.sync.started = false) {budget k : ℕ} {s : Step ρ κ}
    (hs : (e.drain budget .fresh).result[k]? = some s) :
    k < budget ∧ ∃ d, e.after (k + 1) = some d ∧ s = d.snapshot (k + 1) := by
  rw [drain_getElem? h] at hs
  split at hs
  · rename_i hk
    obtain ⟨d, hd, rfl⟩ := Option.map_eq_some_iff.1 hs
    exact ⟨hk, d, hd, rfl⟩
  · cases hs

/-- The steps of a run are numbered from one on. -/
theorem drain_number (h : e.sync.started = false) {budget : ℕ} {t : Step ρ κ}
    (ht : (e.drain budget .fresh).result[n]? = some t) : t.number = n + 1 := by
  obtain ⟨-, d, -, rfl⟩ := exists_after_of_getElem? h ht
  rfl

/-- The mask of a step is over the registered sources. -/
theorem drain_desync (h : e.sync.started = false) {budget : ℕ} {t : Step ρ κ}
    (ht : t ∈ (e.drain budget .fresh).result) :
    ∃ bs, bs.length = e.sync.sources.length ∧ t.desync = maskOf bs := by
  obtain ⟨n, hn⟩ := List.mem_iff_getElem?.1 ht
  obtain ⟨-, d, hd, rfl⟩ := exists_after_of_getElem? h hn
  refine ⟨d.pool.held d.sync.sources, ?_, rfl⟩
  rw [Pool.held, List.length_map, (after_registered hd).1]

theorem drain_length (h : e.sync.started = false) (hd : e.after n = some d) :
    (e.drain n .fresh).result.length = n := by
  apply le_antisymm
  · rw [← List.getElem?_eq_none_iff, drain_getElem? h, if_neg (lt_irrefl n)]
  · refine Nat.le_of_not_lt fun hl => ?_
    obtain ⟨d', hd'⟩ := after_isSome_of_le hd hl
    have hnone : (e.drain n .fresh).result[(e.drain n .fresh).result.length]? = none :=
      List.getElem?_eq_none_iff.2 le_rfl
    rw [drain_getElem? h, if_pos hl, hd'] at hnone
    cases hnone

theorem drain_succ (h : e.sync.started = false) (hd : e.after (n + 1) = some d) :
    (e.drain (n + 1) .fresh).result = (e.drain n .fresh).result ++ [d.snapshot (n + 1)] := by
  obtain ⟨d', hd'⟩ := after_isSome_of_le hd (Nat.le_succ n)
  have hget : (e.drain (n + 1) .fresh).result[n]? = some (d.snapshot (n + 1)) := by
    rw [drain_getElem? h, if_pos (Nat.lt_succ_self n), hd, Option.map_some]
  rw [← drain_take h (Nat.le_succ n), ← List.take_length (l := (e.drain (n + 1) .fresh).result),
    drain_length h hd, List.take_take, min_eq_left (Nat.le_succ n), List.take_add_one, hget]
  rfl

theorem drain_engine (h : e.sync.started = false) (hd : e.after (n + 1) = some d) :
    (e.drain (n + 1) .fresh).engine = d := by
  rcases (drain_spec h (n + 1)).2 with ⟨-, -, h' | hd'⟩ | ⟨-, m, hm, hs⟩
  · cases h'
  · exact Option.some.inj (hd'.symm.trans hd)
  · rw [after_eq_none_of_le hs.after_succ (by omega)] at hd
    cases hd

/-- A run that stops after `m` steps has given these steps once it is asked for more. -/
theorem drain_of_stops (h : e.sync.started = false) {m budget : ℕ} {o : Except Fault Unit}
    (hs : e.Stops m d o) (hm : m ≤ budget) :
    (e.drain budget .fresh).result = (e.drain m .fresh).result := by
  apply List.ext_getElem?
  intro k
  rw [drain_getElem? h, drain_getElem? h]
  by_cases hk : k < m
  · simp [hk, show k < budget by omega]
  · rw [after_eq_none_of_le hs.after_succ (by omega)]
    simp

theorem drain_ended (h : e.sync.started = false) {budget : ℕ}
    (he : (e.drain budget .fresh).ended = true) :
    ∃ m < budget, e.Stops m (e.drain budget .fresh).engine (e.drain budget .fresh).outcome := by
  rcases (drain_spec h budget).2 with ⟨h', -⟩ | ⟨-, hs⟩
  · rw [h'] at he; cases he
  · exact hs

/-- A run has not failed before the steps that it makes. -/
theorem drain_ok (h : e.sync.started = false) (hd : e.after n = some d) :
    (e.drain n .fresh).outcome = .ok () := by
  rcases (drain_spec h n).2 with ⟨-, hok, -⟩ | ⟨-, m, hm, hs⟩
  · exact hok
  · rw [after_eq_none_of_le hs.after_succ hm] at hd
    cases hd

theorem Stops.started {o : Except Fault Unit} (hs : e.Stops n d o) : d.sync.started = true := by
  cases hs with
  | unprimed hp =>
    have h := prime_alike e.begun
    rw [hp] at h
    exact h.started
  | finished ha => exact (after_registered ha).2.2
  | @failed _ c _ _ ha _ ht =>
    have h := turn_alike c
    rw [ht] at h
    exact h.started.trans (after_registered ha).2.2

/-- A run that was asked for a step has started its synchronization. -/
theorem drain_started (h : e.sync.started = false) {budget : ℕ} (hb : 0 < budget) :
    (e.drain budget .fresh).engine.sync.started = true := by
  rcases (drain_spec h budget).2 with ⟨-, -, rfl | hd⟩ | ⟨-, n, -, hs⟩
  · exact absurd hb (lt_irrefl 0)
  · exact (after_registered hd).2.2
  · exact hs.started

/-- Another run of a synchronization that is started gives no step. -/
theorem drain_of_started (h : e.sync.started = true) (budget : ℕ) :
    (e.drain budget .fresh).result = [] := by
  cases budget with
  | zero => rfl
  | succ budget => simp [drain, fold, resume, resumeFresh, h]

/-! ### The next key -/

/-- The next key that the run has found after `n` steps. -/
def frontierAfter (e : Engine ρ κ) (n : ℕ) : Frontier κ :=
  ((e.drain n .fresh).engine.sync.nextKey).getD .done

theorem frontierAfter_eq (h : e.sync.started = false) (hd : e.after (n + 1) = some d) :
    e.frontierAfter (n + 1) = d.sync.nextKey.getD .done := by
  rw [frontierAfter, drain_engine h hd]

/-- The next key that a step has found is the key of the next step. -/
theorem drain_key_succ (h : e.sync.started = false) {budget : ℕ} {t : Step ρ κ}
    (ht : (e.drain budget .fresh).result[n + 1]? = some t) : t.key = e.frontierAfter (n + 1) := by
  obtain ⟨-, d', hd', rfl⟩ := exists_after_of_getElem? h ht
  obtain ⟨d, hd, -, hturn⟩ := after_succ_eq_some.1 hd'
  obtain ⟨p, f, -, hs, -⟩ := turn_eq_ok hturn
  rw [frontierAfter_eq h hd, snapshot, hs]

/-- A run that has come to its end has made some number of steps and found the mark. -/
theorem drain_finished (h : e.sync.started = false) {budget : ℕ}
    (hended : (e.drain budget .fresh).ended = true)
    (hok : (e.drain budget .fresh).outcome = .ok ()) :
    e.after (e.drain budget .fresh).result.length = some (e.drain budget .fresh).engine ∧
      (e.drain budget .fresh).engine.sync.nextKey = some .done := by
  obtain ⟨m, hm, hs⟩ := drain_ended h hended
  have hres := drain_of_stops h hs hm.le
  rw [hok] at hs
  cases hs with
  | finished hd he =>
    rw [hres, drain_length h hd]
    exact ⟨hd, Synchronization.ended_eq_true.1 he⟩

/-- After the last step the mark is the next key. -/
theorem frontierAfter_length (h : e.sync.started = false) {budget : ℕ}
    (hended : (e.drain budget .fresh).ended = true)
    (hok : (e.drain budget .fresh).outcome = .ok ())
    (hne : (e.drain budget .fresh).result ≠ []) :
    e.frontierAfter (e.drain budget .fresh).result.length = .done := by
  obtain ⟨hd, hdone⟩ := drain_finished h hended hok
  obtain ⟨n, hn⟩ := Nat.exists_eq_succ_of_ne_zero (mt List.length_eq_zero_iff.1 hne)
  rw [hn] at hd ⊢
  rw [frontierAfter_eq h hd, hdone, Option.getD_some]

/-! ### Coming to the end -/

/-- The run comes to its end. -/
def Completes (e : Engine ρ κ) : Prop :=
  ∃ budget, (e.drain budget .fresh).ended = true ∧ (e.drain budget .fresh).outcome = .ok ()

/-- Nothing fails in the run, however many steps it is asked for. -/
def Unfailing (e : Engine ρ κ) : Prop := ∀ budget, (e.drain budget .fresh).outcome = .ok ()

/-- A run that has come to its end stops there and nowhere else. -/
theorem Stops.eq_of_ended {m : ℕ} {c : Engine ρ κ} {o : Except Fault Unit} (hs : e.Stops m c o)
    (hd : e.after n = some d) (he : d.sync.ended = true) : m = n ∧ o = .ok () := by
  have hmn : m = n := by
    rcases lt_trichotomy m n with hlt | heq | hlt
    · rw [after_eq_none_of_le hs.after_succ hlt] at hd
      cases hd
    · exact heq
    · have hnone := after_eq_none_of_le (Stops.finished hd he).after_succ hlt
      cases hs with
      | unprimed => exact absurd hlt (Nat.not_lt_zero n)
      | finished ha => rw [ha] at hnone; cases hnone
      | failed ha => rw [ha] at hnone; cases hnone
  subst hmn
  cases hs with
  | unprimed hp =>
    rw [after_zero_eq_some, hp] at hd
    cases hd
  | finished => exact ⟨rfl, rfl⟩
  | failed ha hc =>
    obtain rfl := Option.some.inj (ha.symm.trans hd)
    rw [he] at hc
    cases hc

theorem completes_iff (h : e.sync.started = false) :
    e.Completes ↔ ∃ n d, e.after n = some d ∧ d.sync.ended = true := by
  constructor
  · rintro ⟨budget, hended, hok⟩
    obtain ⟨n, -, hs⟩ := drain_ended h hended
    rw [hok] at hs
    cases hs with
    | finished ha he => exact ⟨n, _, ha, he⟩
  · rintro ⟨n, d, hd, he⟩
    refine ⟨n + 1, ?_⟩
    rcases (drain_spec h (n + 1)).2 with ⟨-, -, h' | hd'⟩ | ⟨hended, m, -, hs⟩
    · cases h'
    · rw [(Stops.finished hd he).after_succ] at hd'
      cases hd'
    · exact ⟨hended, (hs.eq_of_ended hd he).2⟩

theorem Completes.unfailing (h : e.sync.started = false) (hc : e.Completes) : e.Unfailing := by
  intro budget
  obtain ⟨n, d, hd, he⟩ := (completes_iff h).1 hc
  rcases (drain_spec h budget).2 with ⟨-, hok, -⟩ | ⟨-, m, -, hs⟩
  · exact hok
  · exact (hs.eq_of_ended hd he).2

end Generic

section Text

variable {ρ : Type} {e d : Engine ρ Text} {ss : List (Supply ρ)}

/-- A turn leaves every rupture with its extractor. -/
theorem turn_extract {d' : Engine ρ Text} {ls : List (Lane ρ)} {k : Text}
    (h : d.Stages ls) (hk : Lane.frontier ls = .key k) (ht : d.turn = (d', .ok ())) (j : ℕ) :
    (d'.pool.ruptures[j]?).map (·.extract) = (d.pool.ruptures[j]?).map (·.extract) := by
  obtain ⟨p, hp, hd'⟩ := turn_ruptures h hk ht
  rw [hd', ← hp, Pool.cascade_extract]

/-- What holds of a primed engine and its lanes, and after a turn whenever it does before, holds
after every step. -/
theorem Prepared.after_induction (h : e.Prepared ss)
    (ho : ∀ s ∈ ss, e.opens s.gate = true)
    {motive : ℕ → Engine ρ Text → List (Lane ρ) → Prop}
    (primed : ∀ d, e.after 0 = some d → d.pool.ruptures = e.pool.ruptures →
      motive 0 d (ss.map Lane.primed))
    (turned : ∀ n d d' ls k, e.after n = some d → e.after (n + 1) = some d' → d.Stages ls →
      d.sync.ruptures = e.sync.ruptures → ls.map Lane.toSupply = ss →
      Lane.frontier ls = .key k → d.turn = (d', .ok ()) → motive n d ls →
      motive (n + 1) d' (Lane.turnAll d.opens k ls))
    {n : ℕ} (hd : e.after n = some d) :
    ∃ ls, d.Stages ls ∧ d.sync.ruptures = e.sync.ruptures ∧ ls.map Lane.toSupply = ss ∧
      motive n d ls := by
  induction n generalizing d with
  | zero =>
    obtain ⟨d', hp, hs, hr, hj⟩ := prime_stages h ho
    obtain rfl : d' = d := (Prod.mk.inj (hp.symm.trans (after_zero_eq_some.1 hd))).1
    refine ⟨_, hs, hj, ?_, primed d' hd hr⟩
    rw [List.map_map]
    exact List.map_id ss
  | succ n ih =>
    obtain ⟨c, hc, he, ht⟩ := after_succ_eq_some.1 hd
    obtain ⟨ls, hs, hj, hss, hm⟩ := ih hc
    obtain ⟨k, hk⟩ := hs.exists_key he
    obtain ⟨hs', -, hj'⟩ := turn_stages hs hk ht
    exact ⟨_, hs', hj'.trans hj, Lane.toSupply_turnAll.trans hss,
      turned n c d ls k hc hd hs hj hss hk ht hm⟩

/-- A step is what a turn of staged lanes shows. -/
theorem Prepared.exists_turn (h : e.Prepared ss) (ho : ∀ s ∈ ss, e.opens s.gate = true)
    {budget n : ℕ} {t : Step ρ Text} (ht : (e.drain budget .fresh).result[n]? = some t) :
    ∃ d d' ls k, e.after n = some d ∧ e.after (n + 1) = some d' ∧ d.Stages ls ∧
      ls.map Lane.toSupply = ss ∧ Lane.frontier ls = .key k ∧ d.turn = (d', .ok ()) ∧
      t = d'.snapshot (n + 1) := by
  obtain ⟨-, d', hd', rfl⟩ := exists_after_of_getElem? h.unstarted ht
  obtain ⟨d, hd, he, hturn⟩ := after_succ_eq_some.1 hd'
  obtain ⟨ls, hs, -, hss, -⟩ := h.after_induction ho (motive := fun _ _ _ => True)
    (fun _ _ _ => trivial) (fun _ _ _ _ _ _ _ _ _ _ _ _ _ => trivial) hd
  obtain ⟨k, hk⟩ := hs.exists_key he
  exact ⟨d, d', ls, k, hd, hd', hs, hss, hk, hturn, rfl⟩

theorem Prepared.after_extract (h : e.Prepared ss)
    (ho : ∀ s ∈ ss, e.opens s.gate = true) {n : ℕ} (hd : e.after n = some d)
    (j : ℕ) : (d.pool.ruptures[j]?).map (·.extract) = (e.pool.ruptures[j]?).map (·.extract) := by
  obtain ⟨-, -, -, -, hm⟩ := h.after_induction ho (motive := fun _ d _ =>
      (d.pool.ruptures[j]?).map (·.extract) = (e.pool.ruptures[j]?).map (·.extract))
    (fun d _ hr => by rw [hr])
    (fun n d d' ls k _ _ hs _ _ hk ht hm => (turn_extract hs hk ht j).trans hm) hd
  exact hm

/-- The ruptures that are registered stay in the pool. -/
theorem Prepared.after_ruptures_lt (h : e.Prepared ss)
    (ho : ∀ s ∈ ss, e.opens s.gate = true) {n : ℕ} (hd : e.after n = some d) :
    ∀ j ∈ e.sync.ruptures, j < d.pool.ruptures.length := by
  intro j hj
  have hx := h.after_extract ho hd j
  rw [List.getElem?_eq_getElem (h.ruptures_lt j hj), Option.map_some] at hx
  obtain ⟨r, hr, -⟩ := Option.map_eq_some_iff.1 hx
  exact (List.getElem?_eq_some_iff.1 hr).1

/-- A run of a prepared engine stops at its end or with a fault of an extractor. -/
theorem Prepared.stops_cases (h : e.Prepared ss)
    (ho : ∀ s ∈ ss, e.opens s.gate = true) {n : ℕ} {o : Except Fault Unit}
    (hs : e.Stops n d o) :
    (o = .ok () ∧ e.after n = some d ∧ d.sync.ended = true) ∨ ∃ f, o = .error f ∧ e.MayFault f ∧
      d.sync.ended = false ∧ ∃ c, e.after n = some c := by
  cases hs with
  | unprimed hp =>
    obtain ⟨d', hd', -⟩ := prime_stages h ho
    rw [hd'] at hp
    cases hp
  | finished ha he => exact Or.inl ⟨rfl, ha, he⟩
  | failed ha he ht =>
    obtain ⟨ls, hls, hj, -⟩ := h.after_induction ho (motive := fun _ _ _ => True)
      (fun _ _ _ => trivial) (fun _ _ _ _ _ _ _ _ _ _ _ _ _ => trivial) ha
    obtain ⟨⟨j, hjm, r, hr, hf⟩, hd⟩ := turn_error hls he ht
    have hx := h.after_extract ho ha j
    rw [hr, Option.map_some] at hx
    obtain ⟨r', hr', hxr⟩ := Option.map_eq_some_iff.1 hx.symm
    exact Or.inr ⟨_, rfl, ⟨j, hj ▸ hjm, r', hr', hxr ▸ hf⟩, hd, _, ha⟩

/-- A collected run of a prepared engine has made some number of steps, and it has spent its budget
with them, has come to its end or has met a fault of an extractor. -/
theorem Prepared.drain_cases (h : e.Prepared ss)
    (ho : ∀ s ∈ ss, e.opens s.gate = true) (budget : ℕ) :
    let r := e.drain budget .fresh
    ∃ n d, e.after n = some d ∧ r.result = (e.drain n .fresh).result ∧
      ((r.ended = false ∧ r.outcome = .ok () ∧ n = budget ∧ (0 < budget → r.engine = d)) ∨
        (r.ended = true ∧ r.outcome = .ok () ∧ n < budget ∧ r.engine = d ∧ d.sync.ended = true) ∨
        (r.ended = true ∧ n < budget ∧ r.engine.sync.ended = false ∧
          ∃ f, r.outcome = .error f ∧ e.MayFault f)) := by
  intro r
  rcases (drain_spec h.unstarted budget).2 with ⟨hended, hok, hafter⟩ | ⟨hended, n, hn, hstop⟩
  · rcases hafter with rfl | hd
    · obtain ⟨d, hd, -⟩ := prime_stages h ho
      exact ⟨0, d, after_zero_eq_some.2 hd, rfl, Or.inl ⟨hended, hok, rfl, by simp⟩⟩
    · exact ⟨budget, _, hd, rfl, Or.inl ⟨hended, hok, rfl, fun _ => rfl⟩⟩
  · have hres : r.result = (e.drain n .fresh).result := drain_of_stops h.unstarted hstop hn.le
    rcases h.stops_cases ho hstop with ⟨hok, hd, he⟩ | ⟨f, hf, hmay, he, d, hd⟩
    · exact ⟨n, _, hd, hres, Or.inr (Or.inl ⟨hended, hok, hn, rfl, he⟩)⟩
    · exact ⟨n, d, hd, hres, Or.inr (Or.inr ⟨hended, hn, he, f, hf, hmay⟩)⟩

/-- Where no extractor fails, nothing does. -/
theorem Prepared.unfailing (h : e.Prepared ss)
    (ho : ∀ s ∈ ss, e.opens s.gate = true) (hx : ∀ f, ¬ e.MayFault f) :
    e.Unfailing := by
  intro budget
  obtain ⟨n, d, -, -, hcase⟩ := h.drain_cases ho budget
  rcases hcase with ⟨-, hok, -⟩ | ⟨-, hok, -⟩ | ⟨-, -, -, f, -, hf⟩
  · exact hok
  · exact hok
  · exact absurd hf (hx f)

/-- A run that does not come to its end never has the mark as the next key. -/
theorem Prepared.ended_eq_false (h : e.Prepared ss)
    (ho : ∀ s ∈ ss, e.opens s.gate = true) (hc : ¬ e.Completes) (budget : ℕ) :
    (e.drain budget .fresh).engine.sync.ended = false := by
  obtain ⟨n, d, hd, -, hcase⟩ := h.drain_cases ho budget
  have he : d.sync.ended = false := by
    by_contra hn
    exact hc ((completes_iff h.unstarted).2 ⟨n, d, hd, by simpa using hn⟩)
  rcases hcase with ⟨-, -, rfl, heng⟩ | ⟨-, -, -, heng, -⟩ | ⟨-, -, he', -⟩
  · rcases Nat.eq_zero_or_pos n with rfl | hn
    · show e.sync.ended = false
      simp [Synchronization.ended, h.nextKey]
    · rw [heng hn, he]
  · rw [heng, he]
  · exact he'

end Text

end Engine

end Lockstep
