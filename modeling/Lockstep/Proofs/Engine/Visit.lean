import Lockstep.Proofs.Engine.Course

/-!
# Visitors

A visitor is handed the steps of a run one after the other and may refuse one.  It is handed the
steps that draining the run collects, in their order (`fold_eq_drain`); with the first one that it
refuses the run is over (`fold_eq_refused`).  Both hold of every run, also of one that is resumed.
A run that was asked for more steps than it gave is finished (`progress_of_ended`).

In whatever state a run is resumed, a step that it gives was made by a turn (`Engine.Makes`,
`makes_drain`), and neither the registered sources and ruptures nor the number of sources are ever
changed (`fold_registered`, `fold_sources_length`).
-/

namespace Lockstep

variable {ρ κ β : Type}

/-- The step that was given, if there is one. -/
def Resumed.steps (r : Resumed ρ κ) : List (Step ρ κ) :=
  match r.outcome with
  | .ok (some s) => [s]
  | _ => []

namespace Engine

variable [SyncKey κ]

/-- Collecting puts the steps in front of those that are there, the last one first. -/
theorem fold_collect (budget : ℕ) (b : List (Step ρ κ)) (e : Engine ρ κ) (g : Progress) :
    fold collect budget b e g =
      { e.drain budget g with result := (e.drain budget g).result.reverse ++ b } := by
  induction budget generalizing b e g with
  | zero => simp [drain]
  | succ budget ih =>
    rw [drain_eq]
    simp only [fold, collect]
    rcases (e.resume g).outcome with f | _ | s
    · simp
    · simp
    · simp only [ih (s :: b), ih [s]]
      simp

section Resume

variable {e d : Engine ρ κ} {g g' : Progress} {notes : List Journal.Entry}

/-- The steps of a run that makes one are this step and those that are left. -/
theorem drain_of_step {s : Step ρ κ} (h : e.resume g = ⟨d, g', .ok (some s), notes⟩) (budget : ℕ) :
    e.drain (budget + 1) g = { d.drain budget g' with
      result := s :: (d.drain budget g').result
      notes := notes ++ (d.drain budget g').notes } := by
  rw [drain_eq]
  simp only [fold, h, collect, fold_collect]
  simp

theorem drain_of_none (h : e.resume g = ⟨d, g', .ok none, notes⟩) (budget : ℕ) :
    e.drain (budget + 1) g = ⟨d, g', [], true, .ok (), notes⟩ := by
  rw [drain_eq]
  simp only [fold, h, List.reverse_nil]

theorem drain_of_fault {f : Fault} (h : e.resume g = ⟨d, g', .error f, notes⟩) (budget : ℕ) :
    e.drain (budget + 1) g = ⟨d, g', [], true, .error f, notes⟩ := by
  rw [drain_eq]
  simp only [fold, h, List.reverse_nil]

end Resume

variable (visit : β → Step ρ κ → Except Fault β)

/-- A visitor that refuses no step is handed all that draining collects. -/
theorem fold_eq_drain {budget : ℕ} {b b' : β} {e : Engine ρ κ} {g : Progress}
    (h : (e.drain budget g).result.foldlM visit b = .ok b') :
    fold visit budget b e g = { e.drain budget g with result := b' } := by
  induction budget generalizing b e g with
  | zero =>
    obtain rfl : b = b' := Except.ok.inj h
    rfl
  | succ budget ih =>
    rcases hr : e.resume g with ⟨d, g', o, notes⟩
    rcases o with f | _ | s
    · rw [drain_of_fault hr] at h ⊢
      obtain rfl : b = b' := Except.ok.inj h
      simp [fold, hr]
    · rw [drain_of_none hr] at h ⊢
      obtain rfl : b = b' := Except.ok.inj h
      simp [fold, hr]
    · rw [drain_of_step hr] at h ⊢
      cases hv : visit b s with
      | error f =>
        rw [List.foldlM_cons, hv] at h
        cases h
      | ok c =>
        rw [List.foldlM_cons, hv] at h
        simp only [fold, hr, hv, ih h]

/-- The first step that a visitor refuses is the last one that it is handed, and with it the run is
over. -/
theorem fold_eq_refused {budget m : ℕ} {b b' : β} {e : Engine ρ κ} {g : Progress} {t : Step ρ κ}
    {f : Fault} (h : ((e.drain budget g).result.take m).foldlM visit b = .ok b')
    (ht : (e.drain budget g).result[m]? = some t) (hf : visit b' t = .error f) :
    ∃ notes, fold visit budget b e g =
      ⟨(e.drain (m + 1) g).engine, .finished, b', true, .error f, notes⟩ := by
  induction budget generalizing m b e g with
  | zero => simp [drain] at ht
  | succ budget ih =>
    rcases hr : e.resume g with ⟨d, g', o, notes⟩
    rcases o with x | _ | s
    · rw [drain_of_fault hr] at ht
      cases ht
    · rw [drain_of_none hr] at ht
      cases ht
    · rw [drain_of_step hr] at h ht
      cases m with
      | zero =>
        obtain rfl : s = t := by simpa using ht
        obtain rfl : b = b' := Except.ok.inj h
        simp [fold, hr, hf, drain]
      | succ m =>
        rw [List.take_succ_cons, List.foldlM_cons] at h
        cases hv : visit b s with
        | error x =>
          rw [hv] at h
          cases h
        | ok c =>
          rw [hv] at h
          obtain ⟨ns, hfold⟩ := ih h (by simpa using ht)
          simp [fold, hr, hv, hfold, drain_of_step hr]

/-! ### The end -/

theorem resume_of_no_step {e : Engine ρ κ} {g : Progress}
    (h : ∀ s, (e.resume g).outcome ≠ .ok (some s)) : (e.resume g).progress = .finished := by
  have hat : ∀ (d : Engine ρ κ) n, (∀ s, (d.resumeAt n).outcome ≠ .ok (some s)) →
      (d.resumeAt n).progress = .finished := by
    intro d n h
    cases he : d.sync.ended with
    | true => rw [resumeAt_of_ended he]
    | false =>
      rcases ht : d.turn with ⟨c, f | u⟩
      · rw [resumeAt_of_fault he ht]
      · rw [resumeAt_of_turn he ht] at h
        exact absurd rfl (h _)
  cases g with
  | finished => rfl
  | paused n => exact hat e n h
  | fresh =>
    unfold resume resumeFresh at h ⊢
    cases hs : e.sync.started with
    | true => simp
    | false =>
      simp only [hs, Bool.false_eq_true, if_false] at h ⊢
      rcases hp : ({ e with sync := { e.sync with started := true } } : Engine ρ κ).prime with
        ⟨c, f | u⟩
      · rfl
      · simp only [hp] at h
        exact hat c 0 h

/-- A run that has been asked to its end, or has failed, is finished. -/
theorem progress_of_ended {budget : ℕ} {b : β} {e : Engine ρ κ} {g : Progress}
    (h : (fold visit budget b e g).ended = true) :
    (fold visit budget b e g).progress = .finished := by
  induction budget generalizing b e g with
  | zero => cases h
  | succ budget ih =>
    unfold fold at h ⊢
    dsimp only at h ⊢
    rcases ho : (e.resume g).outcome with f | _ | s
    · exact resume_of_no_step fun s => by simp [ho]
    · exact resume_of_no_step fun s => by simp [ho]
    · rw [ho] at h
      cases hv : visit b s with
      | error f => simp [hv]
      | ok c =>
        simp only [hv] at h ⊢
        exact ih h

theorem ended_of_fault {budget : ℕ} {b : β} {e : Engine ρ κ} {g : Progress} {f : Fault}
    (h : (fold visit budget b e g).outcome = .error f) :
    (fold visit budget b e g).ended = true := by
  induction budget generalizing b e g with
  | zero => cases h
  | succ budget ih =>
    unfold fold at h ⊢
    dsimp only at h ⊢
    rcases ho : (e.resume g).outcome with x | _ | s
    · rfl
    · rfl
    · rw [ho] at h
      cases hv : visit b s with
      | error x => simp [hv]
      | ok c =>
        simp only [hv] at h ⊢
        exact ih h

/-! ### One more step -/

/-- Asking for one step more is asking once more. -/
theorem drain_resume (n : ℕ) (e : Engine ρ κ) (g : Progress) :
    let r := e.drain n g
    let a := r.engine.resume r.progress
    (e.drain (n + 1) g).engine = a.engine ∧ (e.drain (n + 1) g).progress = a.progress ∧
      (e.drain (n + 1) g).result = r.result ++ a.steps := by
  induction n generalizing e g with
  | zero =>
    have h0 : e.drain 0 g = ⟨e, g, [], false, .ok (), []⟩ := rfl
    rw [h0]
    rcases hr : e.resume g with ⟨d, g', f | _ | s, notes⟩
    · simp [drain_of_fault hr, hr, Resumed.steps]
    · simp [drain_of_none hr, hr, Resumed.steps]
    · have hd : d.drain 0 g' = ⟨d, g', [], false, .ok (), []⟩ := rfl
      simp [drain_of_step hr, hr, Resumed.steps, hd]
  | succ n ih =>
    -- a run that gives no step is finished and gives none again
    have hfin := resume_of_no_step (e := e) (g := g)
    rcases hr : e.resume g with ⟨d, g', f | _ | s, notes⟩
    · obtain rfl : g' = .finished := by simpa [hr] using hfin
      simp [drain_of_fault hr, Resumed.steps]
    · obtain rfl : g' = .finished := by simpa [hr] using hfin
      simp [drain_of_none hr, Resumed.steps]
    · obtain ⟨he, hp, hres⟩ := ih d g'
      simp only [drain_of_step hr]
      refine ⟨he, hp, ?_⟩
      rw [hres, List.cons_append]

/-! ### What a run leaves alone -/

theorem resumeAt_alike (e : Engine ρ κ) (n : ℕ) : Alike (e.resumeAt n).engine e := by
  have ht := turn_alike e
  unfold resumeAt
  split
  · exact ⟨rfl, rfl, rfl, rfl⟩
  · split
    · rename_i hr
      rwa [hr] at ht
    · rename_i hr
      rwa [hr] at ht

/-- Being asked for a step leaves an engine alike, but that a fresh run starts it. -/
theorem resume_alike (e : Engine ρ κ) (g : Progress) :
    Alike (e.resume g).engine (if g = .fresh then e.begun else e) := by
  cases g with
  | finished => exact ⟨rfl, rfl, rfl, rfl⟩
  | paused n => exact resumeAt_alike e n
  | fresh =>
    show Alike e.resumeFresh.engine e.begun
    unfold resumeFresh
    cases hs : e.sync.started with
    | true => exact ⟨rfl, rfl, hs, rfl⟩
    | false =>
      have hp := prime_alike e.begun
      simp only [Bool.false_eq_true, if_false]
      rw [show ({ e with sync := { e.sync with started := true } } : Engine ρ κ) = e.begun from rfl]
      rcases hr : e.begun.prime with ⟨d, f | u⟩ <;> rw [hr] at hp
      · exact hp
      · exact (resumeAt_alike d 0).trans hp

/-- Being asked for a step leaves what is registered, and a synchronization that is started or that
a fresh run is asked for is started afterwards. -/
theorem resume_registered (e : Engine ρ κ) (g : Progress) :
    (e.resume g).engine.sync.sources = e.sync.sources ∧
      (e.resume g).engine.sync.ruptures = e.sync.ruptures ∧
      (e.sync.started = true ∨ g = .fresh → (e.resume g).engine.sync.started = true) := by
  have h := resume_alike e g
  split at h
  · exact ⟨h.sources, h.ruptures, fun _ => h.started⟩
  · next hg => exact ⟨h.sources, h.ruptures, fun hs => h.started.trans (hs.resolve_right hg)⟩

theorem resume_sources_length (e : Engine ρ κ) (g : Progress) :
    (e.resume g).engine.pool.sources.length = e.pool.sources.length := by
  have h := resume_alike e g
  split at h <;> exact h.length

theorem fold_registered (budget : ℕ) (b : β) (e : Engine ρ κ) (g : Progress) :
    (fold visit budget b e g).engine.sync.sources = e.sync.sources ∧
      (fold visit budget b e g).engine.sync.ruptures = e.sync.ruptures ∧
      (e.sync.started = true ∨ 0 < budget ∧ g = .fresh →
        (fold visit budget b e g).engine.sync.started = true) := by
  induction budget generalizing b e g with
  | zero => simp
  | succ budget ih =>
    obtain ⟨hs, hr, hstart⟩ := resume_registered e g
    have hstart' : e.sync.started = true ∨ 0 < budget + 1 ∧ g = .fresh →
        (e.resume g).engine.sync.started = true := fun h => hstart (h.imp_right And.right)
    unfold fold
    dsimp only
    split
    · exact ⟨hs, hr, hstart'⟩
    · exact ⟨hs, hr, hstart'⟩
    · split
      · exact ⟨hs, hr, hstart'⟩
      · rename_i c _
        obtain ⟨hs', hr', hstart''⟩ := ih c (e.resume g).engine (e.resume g).progress
        exact ⟨hs'.trans hs, hr'.trans hr, fun h => hstart'' (Or.inl (hstart' h))⟩

/-- What every request for a step keeps is kept by a visitor's run. -/
theorem fold_induction {motive : Engine ρ κ → Prop}
    (hresume : ∀ e g, motive e → motive (e.resume g).engine) (budget : ℕ) (b : β)
    {e : Engine ρ κ} (g : Progress) (h : motive e) :
    motive (fold visit budget b e g).engine := by
  induction budget generalizing b e g with
  | zero => exact h
  | succ budget ih =>
    have hr := hresume e g h
    unfold fold
    dsimp only
    split
    · exact hr
    · exact hr
    · split
      · exact hr
      · exact ih _ _ hr

theorem fold_sources_length (budget : ℕ) (b : β) (e : Engine ρ κ) (g : Progress) :
    (fold visit budget b e g).engine.pool.sources.length = e.pool.sources.length :=
  fold_induction visit (motive := fun d => d.pool.sources.length = e.pool.sources.length)
    (fun d g h => (resume_sources_length d g).trans h) budget b g rfl

/-! ### The turn behind a step -/

/-- A turn that found the registered sources and ruptures, and all ruptures, as they are in `d` has
made the step `t`, which `d'` shows. -/
def Makes (d : Engine ρ κ) (t : Step ρ κ) (d' : Engine ρ κ) : Prop :=
  ∃ c : Engine ρ κ, c.turn = (d', .ok ()) ∧ c.sync.sources = d.sync.sources ∧
    c.sync.ruptures = d.sync.ruptures ∧ c.pool.ruptures = d.pool.ruptures ∧
    t = d'.snapshot t.number

section Makes

variable {e : Engine ρ κ} {g : Progress} {t : Step ρ κ}

theorem makes_resumeAt {n : ℕ} (h : (e.resumeAt n).outcome = .ok (some t)) :
    e.Makes t (e.resumeAt n).engine := by
  cases he : e.sync.ended with
  | true =>
    rw [resumeAt_of_ended he] at h
    cases h
  | false =>
    rcases ht : e.turn with ⟨d, f | u⟩
    · rw [resumeAt_of_fault he ht] at h
      cases h
    · rw [resumeAt_of_turn he ht] at h ⊢
      cases h
      exact ⟨e, ht, rfl, rfl, rfl, rfl⟩

/-- A step that is given was made by a turn, in whatever state the run is resumed. -/
theorem makes_resume (h : (e.resume g).outcome = .ok (some t)) :
    e.Makes t (e.resume g).engine := by
  cases g with
  | finished => cases h
  | paused n => exact makes_resumeAt h
  | fresh =>
    unfold resume resumeFresh at h ⊢
    cases hs : e.sync.started with
    | true => simp [hs] at h
    | false =>
      simp only [hs, Bool.false_eq_true, if_false] at h ⊢
      rw [show ({ e with sync := { e.sync with started := true } } : Engine ρ κ) = e.begun from rfl]
        at h ⊢
      rcases hp : e.begun.prime with ⟨d, f | u⟩
      · simp [hp] at h
      · -- priming comes before the turn and leaves the ruptures and what is registered
        simp only [hp] at h ⊢
        obtain ⟨c, hc, hsources, hruptures, hpool, ht⟩ := makes_resumeAt h
        obtain ⟨hr, f, hd⟩ := prime_eq_ok hp
        exact ⟨c, hc, hsources.trans (by rw [hd]; rfl), hruptures.trans (by rw [hd]; rfl),
          hpool.trans hr, ht⟩

/-- Each step of a run was made by a turn between the request before it and the request for it. -/
theorem makes_drain {budget n : ℕ} (h : (e.drain budget g).result[n]? = some t) :
    (e.drain n g).engine.Makes t (e.drain (n + 1) g).engine := by
  induction budget generalizing n e g with
  | zero => simp [drain] at h
  | succ budget ih =>
    rcases hr : e.resume g with ⟨d, g', f | _ | s, notes⟩
    · rw [drain_of_fault hr] at h
      cases h
    · rw [drain_of_none hr] at h
      cases h
    · rw [drain_of_step hr] at h ⊢
      cases n with
      | zero =>
        obtain rfl : s = t := by simpa using h
        have hmakes := makes_resume (e := e) (g := g) (t := s) (by rw [hr])
        rwa [hr] at hmakes
      | succ n =>
        rw [drain_of_step hr]
        exact ih (by simpa using h)

end Makes

end Engine

end Lockstep
