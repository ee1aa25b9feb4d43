import Mathlib.Data.List.Induction
import Lockstep.Engine.Session
import Lockstep.Proofs.Engine.Visit

/-!
# Requests to a session

A session is asked to begin runs of its synchronization, to advance or close one of them, to run to
the end at once, and to register sources and ruptures (`Request`).  `Session.serve` answers one
request and `Session.serveAll` a sequence of them.

What a request leaves depends on whether the synchronization is started.  If it is not, a request
that does not start it at most registers something (`Sole.serve_waiting`).  If it is, only a run
that rests between two steps can change anything: every other request is refused or without effect
(`Sole.serve_started`).
-/

namespace Lockstep

variable {ρ κ : Type}

namespace Synchronization

variable {y : Synchronization κ}

theorem foldl_registerRupture {js : List ℕ} (h : (y.ruptures ++ js).Nodup) :
    js.foldl registerRupture y = { y with ruptures := y.ruptures ++ js } := by
  induction js generalizing y with
  | nil => simp
  | cons j js ih =>
    have hj : j ∉ y.ruptures := fun hmem =>
      (List.nodup_append.1 h).2.2 j hmem j List.mem_cons_self rfl
    have hreg : y.registerRupture j = { y with ruptures := y.ruptures ++ [j] } := by
      simp [registerRupture, hj]
    rw [List.foldl_cons, hreg, ih (by simpa using h)]
    simp

/-- Sources whose ruptures are registered bring no further ones. -/
theorem foldl_registerSource {gate : ℕ → Option ℕ} {is : List ℕ}
    (h : ∀ i ∈ is, ∀ j, gate i = some j → j ∈ y.ruptures) :
    is.foldl (registerSource gate) y = { y with sources := y.sources ++ is } := by
  induction is generalizing y with
  | nil => simp
  | cons i is ih =>
    obtain ⟨hi, his⟩ := List.forall_mem_cons.1 h
    have hreg : y.registerSource gate i = { y with sources := y.sources ++ [i] } := by
      unfold registerSource
      cases hg : gate i with
      | none => rfl
      | some j => simp [registerRupture, hi j hg]
    rw [List.foldl_cons, hreg, ih (y := { y with sources := y.sources ++ [i] }) his]
    simp

end Synchronization

/-- What a synchronization can be asked for. -/
inductive Request (ρ κ : Type)
  /-- Begin a run. -/
  | begin
  /-- Advance a run by one step. -/
  | next (g : ℕ)
  /-- Close a run. -/
  | close (g : ℕ)
  /-- Run to the end; the business is told all steps so far and may refuse the last one. -/
  | run (business : List (Step ρ κ) → Except Fault Unit)
  | addSources (is : List ℕ)
  | addRuptures (js : List ℕ)

/-- What a request brings: the steps that were given, and how it ended. -/
structure Reply (ρ κ : Type) where
  steps : List (Step ρ κ)
  outcome : Except Fault Unit

namespace Request

/-- Whether it asks to advance run number `g`. -/
def advances (g : ℕ) : Request ρ κ → Bool
  | .next h => h == g
  | _ => false

theorem advances_iff {g : ℕ} {p : Request ρ κ} : p.advances g = true ↔ p = .next g := by
  cases p <;> simp [advances]

/-- Whether it asks to close run number `g`. -/
def closes (g : ℕ) : Request ρ κ → Bool
  | .close h => h == g
  | _ => false

/-- Whether it asks for a registration. -/
def registers : Request ρ κ → Bool
  | .addSources _ | .addRuptures _ => true
  | _ => false

/-- How often run number `g` is advanced before it is closed. -/
def asked (g : ℕ) : List (Request ρ κ) → ℕ
  | [] => 0
  | q :: qs => if q.closes g then 0 else (if q.advances g then 1 else 0) + asked g qs

theorem asked_concat (g : ℕ) (qs : List (Request ρ κ)) (q : Request ρ κ) :
    asked g (qs ++ [q]) = if !qs.any (closes g) && q.advances g then asked g qs + 1
      else asked g qs := by
  induction qs with
  | nil => cases q <;> simp [asked, closes, advances]
  | cons p qs ih =>
    rw [List.cons_append, asked, asked, List.any_cons, ih]
    cases p.closes g with
    | true => simp
    | false =>
      simp only [Bool.false_or, Bool.false_eq_true, if_false]
      by_cases hc : (!qs.any (closes g) && q.advances g) = true
      · rw [if_pos hc, if_pos hc]
        omega
      · rw [if_neg hc, if_neg hc]

/-- What is registered with a synchronization after the request, if it is accepted. -/
def registered (sources : List (Source ρ κ)) (y : Synchronization κ) :
    Request ρ κ → Synchronization κ
  | .addSources is => is.foldl (Synchronization.registerSource fun i =>
      (sources[i]?).bind (·.gate)) y
  | .addRuptures js => js.foldl Synchronization.registerRupture y
  | _ => y

/-- What is registered after some requests. -/
def registrations (sources : List (Source ρ κ)) (qs : List (Request ρ κ)) : Synchronization κ :=
  qs.foldl (registered sources) .empty

theorem registrations_concat (sources : List (Source ρ κ)) (qs : List (Request ρ κ))
    (q : Request ρ κ) :
    registrations sources (qs ++ [q]) = registered sources (registrations sources qs) q := by
  rw [registrations, List.foldl_concat]
  rfl

theorem registerRupture_started (y : Synchronization κ) (j : ℕ) :
    (y.registerRupture j).started = y.started := by
  unfold Synchronization.registerRupture
  split <;> rfl

theorem registerSource_started (gate : ℕ → Option ℕ) (y : Synchronization κ) (i : ℕ) :
    (y.registerSource gate i).started = y.started := by
  unfold Synchronization.registerSource
  dsimp only
  split
  · rfl
  · rw [registerRupture_started]

theorem registered_started (sources : List (Source ρ κ)) (y : Synchronization κ)
    (q : Request ρ κ) : (registered sources y q).started = y.started := by
  cases q with
  | addSources is =>
    induction is generalizing y with
    | nil => rfl
    | cons i is ih => exact (ih _).trans (registerSource_started _ y i)
  | addRuptures js =>
    induction js generalizing y with
    | nil => rfl
    | cons j js ih => exact (ih _).trans (registerRupture_started y j)
  | _ => rfl

/-- Registering does not start. -/
theorem registrations_started (sources : List (Source ρ κ)) (qs : List (Request ρ κ)) :
    (registrations sources qs).started = false := by
  induction qs using List.reverseRecOn with
  | nil => rfl
  | append_singleton qs q ih => rw [registrations_concat, registered_started, ih]

end Request

/-- A run of a synchronization that is started, unless it rests between two steps, gives nothing. -/
theorem Engine.resume_started [SyncKey κ] {e : Engine ρ κ} (h : e.sync.started = true)
    {g : Progress} (hg : g = .fresh ∨ g = .finished) : e.resume g =
      ⟨e, .finished, if g = .fresh then .error .alreadyRun else .ok none, []⟩ := by
  rcases hg with rfl | rfl
  · simp [resume, resumeFresh, h]
  · rfl

/-- What the steps of a run are handed to: the business is told all of them so far. -/
def handing (business : List (Step ρ κ) → Except Fault Unit) (b : List (Step ρ κ))
    (t : Step ρ κ) : Except Fault (List (Step ρ κ)) :=
  (business (b ++ [t])).map fun _ => b ++ [t]

namespace Session

/-- The session has one synchronization, and all runs are runs of it. -/
structure Sole (s : Session ρ κ) : Prop where
  syncs : s.syncs.length = 1
  runs : ∀ r ∈ s.runs, r.sync = 0

/-- How far run number `g` has come. -/
def progress (s : Session ρ κ) (g : ℕ) : Progress := (s.begun g).progress

section Sole

variable {s : Session ρ κ} (h : s.Sole)

include h

theorem Sole.sync_begun (g : ℕ) : (s.begun g).sync = 0 := by
  unfold begun
  rw [List.getD_eq_getElem?_getD]
  cases hr : s.runs[g]? with
  | none => rfl
  | some r => exact h.runs r (List.mem_of_getElem? hr)

theorem Sole.engine_setEngine (e : Engine ρ κ) : (s.setEngine 0 e).engine 0 = e := by
  have hlt : 0 < s.syncs.length := by
    rw [h.syncs]
    exact Nat.one_pos
  simp [engine, setEngine, sync, hlt]

theorem Sole.of_runs {t : Session ρ κ} (hs : t.syncs.length = s.syncs.length)
    (hr : ∀ r ∈ t.runs, r ∈ s.runs ∨ r.sync = 0) : t.Sole where
  syncs := hs.trans h.syncs
  runs := by
    intro r hmem
    rcases hr r hmem with hin | h0
    · exact h.runs r hin
    · exact h0

end Sole

theorem progress_set (s : Session ρ κ) (g i : ℕ) (r : BegunRun ρ κ)
    (hg : s.runs.length ≤ g → r.progress = .finished) :
    ({ s with runs := s.runs.set g r } : Session ρ κ).progress i =
      if i = g then r.progress else s.progress i := by
  simp only [progress, begun, List.getD_eq_getElem?_getD, List.getElem?_set]
  by_cases hi : i = g
  · subst hi
    by_cases hlt : i < s.runs.length
    · simp [hlt]
    · simp [hlt, hg (not_lt.1 hlt)]
  · simp [hi, Ne.symm hi]

theorem progress_of_le {s : Session ρ κ} {g : ℕ} (hg : s.runs.length ≤ g) :
    s.progress g = .finished := by
  simp [progress, begun, List.getElem?_eq_none hg]

/-- The run has not been advanced, or it gives nothing any more. -/
def Still (s : Session ρ κ) (g : ℕ) : Prop := s.progress g = .fresh ∨ s.progress g = .finished

theorem Still.of_eq {s t : Session ρ κ} {g : ℕ} (h : s.Still g) (hp : t.progress g = s.progress g) :
    t.Still g := by
  unfold Still
  rwa [hp]

theorem Still.of_ite {s t : Session ρ κ} {g : ℕ} {b : Prop} [Decidable b] {x : Progress}
    (h : s.Still g) (hp : t.progress g = if b then x else s.progress g)
    (hx : x = .fresh ∨ x = .finished) : t.Still g := by
  unfold Still
  rw [hp]
  split
  · exact hx
  · exact h

variable [SyncKey κ]

/-- Answer a request. -/
def serve (s : Session ρ κ) : Request ρ κ → Session ρ κ × Reply ρ κ
  | .begin => ((s.begin 0).1, ⟨[], .ok ()⟩)
  | .next g =>
    let r := s.next g
    (r.1, match r.2 with
      | .ok t => ⟨t.toList, .ok ()⟩
      | .error f => ⟨[], .error f⟩)
  | .close g => (s.close g, ⟨[], .ok ()⟩)
  | .run business =>
    let r := s.runAll (handing business) [] 0
    (r.1, ⟨r.2.1, r.2.2⟩)
  | .addSources is =>
    let r := s.addSources 0 is
    (r.1, ⟨[], r.2⟩)
  | .addRuptures js =>
    let r := s.addRuptures 0 js
    (r.1, ⟨[], r.2⟩)

/-- Answer requests in order. -/
def serveAll (s : Session ρ κ) (qs : List (Request ρ κ)) : Session ρ κ × List (Reply ρ κ) :=
  qs.foldl (fun t q => ((t.1.serve q).1, t.2 ++ [(t.1.serve q).2])) (s, [])

theorem serveAll_concat (s : Session ρ κ) (qs : List (Request ρ κ)) (q : Request ρ κ) :
    s.serveAll (qs ++ [q]) = (((s.serveAll qs).1.serve q).1,
      (s.serveAll qs).2 ++ [((s.serveAll qs).1.serve q).2]) := by
  rw [serveAll, List.foldl_concat]
  rfl

/-! ### What a single request does -/

section Serve

variable {s : Session ρ κ} (h : s.Sole)

include h

theorem Sole.serve_begin : (s.serve .begin).1.Sole ∧
    (s.serve .begin).1.engine 0 = s.engine 0 ∧
    ∀ i, (s.serve .begin).1.progress i = if i = s.runs.length then .fresh else s.progress i := by
  refine ⟨h.of_runs rfl ?_, rfl, fun i => ?_⟩
  · intro r hr
    rcases List.mem_append.1 hr with hr | hr
    · exact Or.inl hr
    · obtain rfl := List.mem_singleton.1 hr
      exact Or.inr rfl
  · simp only [serve, Session.begin, progress, begun, List.getD_eq_getElem?_getD]
    rcases lt_trichotomy i s.runs.length with hi | rfl | hi
    · rw [List.getElem?_append_left hi, if_neg hi.ne]
    · simp
    · rw [List.getElem?_eq_none (by simp; omega), List.getElem?_eq_none hi.le, if_neg hi.ne']

theorem Sole.serve_close (g : ℕ) : (s.serve (.close g)).1.Sole ∧
    (s.serve (.close g)).1.engine 0 = s.engine 0 ∧
    ∀ i, (s.serve (.close g)).1.progress i = if i = g then .finished else s.progress i := by
  refine ⟨h.of_runs rfl ?_, rfl, fun i => ?_⟩
  · intro r hr
    obtain ⟨i, hi⟩ := List.getElem?_of_mem hr
    simp only [serve, close, List.getElem?_modify] at hi
    obtain ⟨u, hu, rfl⟩ := Option.map_eq_some_iff.1 hi
    right
    have hu := h.runs u (List.mem_of_getElem? hu)
    split
    · exact hu
    · exact hu
  · simp only [serve, close, progress, begun, List.getD_eq_getElem?_getD, List.getElem?_modify]
    by_cases hi : i = g
    · subst hi
      cases s.runs[i]? <;> simp
    · cases s.runs[i]? <;> simp [hi, Ne.symm hi]

/-- Advancing a run asks it for its next step. -/
theorem Sole.serve_next (g : ℕ) :
    let a := (s.engine 0).resume (s.progress g)
    (s.serve (.next g)).1.Sole ∧ (s.serve (.next g)).1.engine 0 = a.engine ∧
      (∀ i, (s.serve (.next g)).1.progress i = if i = g then a.progress else s.progress i) ∧
      (s.serve (.next g)).2 = ⟨a.steps, a.outcome.map fun _ => ()⟩ := by
  intro a
  have hnext : ∃ last notes, s.serve (.next g) =
      ({ s.setEngine 0 a.engine with
          runs := s.runs.set g ⟨0, a.progress, last⟩
          journal := s.journal ++ notes }, ⟨a.steps, a.outcome.map fun _ => ()⟩) := by
    simp only [serve, next, foldRun, Engine.fold, h.sync_begun g]
    rw [show (s.engine 0).resume (s.begun g).progress = a from rfl]
    simp only [Resumed.steps]
    rcases a.outcome with f | _ | t <;> exact ⟨_, _, rfl⟩
  obtain ⟨last, notes, hnext⟩ := hnext
  rw [hnext]
  refine ⟨h.of_runs (by simp [setEngine]) ?_, h.engine_setEngine a.engine, fun i => ?_, rfl⟩
  · intro r hr
    rcases List.mem_or_eq_of_mem_set hr with hr | rfl
    · exact Or.inl hr
    · exact Or.inr rfl
  · refine progress_set s g i ⟨0, a.progress, last⟩ fun hg => ?_
    simp [a, progress_of_le hg]

theorem Sole.serve_run (business : List (Step ρ κ) → Except Fault Unit) :
    let r := Engine.fold (handing business) budget [] (s.engine 0) .fresh
    (s.serve (.run business)).1.Sole ∧ (s.serve (.run business)).1.engine 0 = r.engine ∧
      (∀ i, (s.serve (.run business)).1.progress i = s.progress i) ∧
      (s.serve (.run business)).2 = ⟨r.result, r.conclusion⟩ :=
  ⟨h.of_runs (by simp [serve, runAll, setEngine]) fun _ hr => Or.inl hr,
    h.engine_setEngine _, fun _ => rfl, rfl⟩

/-- A registration is refused once the synchronization is started, and accepted before. -/
theorem Sole.serve_registers {q : Request ρ κ} (hq : q.registers = true) :
    (s.serve q).1.Sole ∧ (∀ i, (s.serve q).1.progress i = s.progress i) ∧
      if (s.sync 0).started then (s.serve q).1.engine 0 = s.engine 0 ∧
        (s.serve q).2 = ⟨[], .error .alreadyRun⟩
      else (s.serve q).1.engine 0 = ⟨s.pool, q.registered s.pool.sources (s.sync 0)⟩ ∧
        (s.serve q).2 = ⟨[], .ok ()⟩ := by
  have hlt : 0 < s.syncs.length := by
    rw [h.syncs]
    exact Nat.one_pos
  cases q with
  | addSources is =>
    simp only [serve, addSources, register, Synchronization.addSources]
    cases (s.sync 0).started with
    | true => exact ⟨h, fun _ => rfl, rfl, rfl⟩
    | false =>
      refine ⟨h.of_runs (by simp) fun _ hr => Or.inl hr, fun _ => rfl, ?_, rfl⟩
      simp [engine, sync, hlt, Request.registered]
  | addRuptures js =>
    simp only [serve, addRuptures, register, Synchronization.addRuptures]
    cases (s.sync 0).started with
    | true => exact ⟨h, fun _ => rfl, rfl, rfl⟩
    | false =>
      refine ⟨h.of_runs (by simp) fun _ hr => Or.inl hr, fun _ => rfl, ?_, rfl⟩
      simp [engine, sync, hlt, Request.registered]
  | _ => cases hq

end Serve

/-- No run is forgotten. -/
theorem runs_length_le_serve (s : Session ρ κ) (q : Request ρ κ) :
    s.runs.length ≤ (s.serve q).1.runs.length := by
  cases q with
  | begin => simp [serve, Session.begin]
  | next g => simp [serve, next, foldRun, setEngine]
  | close g => simp [serve, close]
  | run business => simp [serve, runAll, setEngine]
  | addSources is => simp only [serve, addSources, register]; split <;> simp
  | addRuptures js => simp only [serve, addRuptures, register]; split <;> simp

/-- Whether the request would start the synchronization: it advances an open run for the first time,
or asks for a run to the end. -/
def starts (s : Session ρ κ) : Request ρ κ → Prop
  | .next g => s.progress g = .fresh
  | .run _ => True
  | _ => False

/-- What a request does that does not advance a paused run: nothing, where it would start a
synchronization that is started. -/
theorem Sole.serve_started {s : Session ρ κ} (h : s.Sole) (hs : (s.sync 0).started = true)
    {q : Request ρ κ} (hq : ∀ g, q.advances g = true → s.Still g) :
    (s.serve q).1.Sole ∧ (s.serve q).1.engine 0 = s.engine 0 ∧ (s.serve q).2.steps = [] ∧
      (q.registers = true ∨ s.starts q → (s.serve q).2.outcome = .error .alreadyRun) ∧
      (∀ g, s.Still g → (s.serve q).1.Still g) ∧
      ∀ g < s.runs.length, q.advances g = false →
        (s.serve q).1.progress g = if q.closes g then .finished else s.progress g := by
  have hstarted : (s.engine 0).sync.started = true := hs
  cases q with
  | begin =>
    obtain ⟨hsole, he, hp⟩ := h.serve_begin
    refine ⟨hsole, he, rfl, by simp [Request.registers, starts],
      fun g hg => hg.of_ite (hp g) (Or.inl rfl), fun g hlt _ => ?_⟩
    · rw [hp, if_neg hlt.ne]
      rfl
  | close i =>
    obtain ⟨hsole, he, hp⟩ := h.serve_close i
    refine ⟨hsole, he, rfl, by simp [Request.registers, starts],
      fun g hg => hg.of_ite (hp g) (Or.inr rfl), fun g _ _ => ?_⟩
    · rw [hp]
      by_cases hi : g = i
      · simp [Request.closes, hi]
      · simp [Request.closes, hi, Ne.symm hi]
  | next i =>
    obtain ⟨hsole, he, hp, hreply⟩ := h.serve_next i
    have ha := Engine.resume_started hstarted (hq i (by simp [Request.advances]))
    rw [ha] at he hp hreply
    refine ⟨hsole, he, ?_, ?_, fun g hg => hg.of_ite (hp g) (Or.inr rfl), fun g _ hadv => ?_⟩
    · rw [hreply]
      by_cases hi : s.progress i = .fresh <;> simp [Resumed.steps, hi]
    · intro hstart
      have hi : s.progress i = .fresh := by simpa [Request.registers, starts] using hstart
      rw [hreply, if_pos hi]
      rfl
    · have hne : g ≠ i := by
        rintro rfl
        simp [Request.advances] at hadv
      rw [hp, if_neg hne]
      rfl
  | run business =>
    obtain ⟨hsole, he, hp, hreply⟩ := h.serve_run business
    have hr : Engine.fold (handing business) budget [] (s.engine 0) .fresh =
        ⟨s.engine 0, .finished, [], true, .error .alreadyRun, []⟩ := by
      simp [budget, Engine.fold, Engine.resume, Engine.resumeFresh, hstarted]
    rw [hr] at he hreply
    exact ⟨hsole, he, by rw [hreply], fun _ => by rw [hreply]; rfl, fun g hg => hg.of_eq (hp g),
      fun g _ _ => hp g⟩
  | addSources is =>
    obtain ⟨hsole, hp, hr⟩ := h.serve_registers (q := .addSources is) rfl
    rw [if_pos hs] at hr
    exact ⟨hsole, hr.1, by rw [hr.2], fun _ => by rw [hr.2], fun g hg => hg.of_eq (hp g),
      fun g _ _ => hp g⟩
  | addRuptures js =>
    obtain ⟨hsole, hp, hr⟩ := h.serve_registers (q := .addRuptures js) rfl
    rw [if_pos hs] at hr
    exact ⟨hsole, hr.1, by rw [hr.2], fun _ => by rw [hr.2], fun g hg => hg.of_eq (hp g),
      fun g _ _ => hp g⟩

/-- What a request does to a synchronization that is not started, if it does not start it: at most
it registers something. -/
theorem Sole.serve_waiting {s : Session ρ κ} (h : s.Sole) (hs : (s.sync 0).started = false)
    (hstill : ∀ g, s.Still g) {q : Request ρ κ} (hq : ¬ s.starts q) :
    (s.serve q).1.Sole ∧ (s.serve q).2 = ⟨[], .ok ()⟩ ∧ (∀ g, (s.serve q).1.Still g) ∧
      (s.serve q).1.engine 0 = ⟨s.pool, q.registered s.pool.sources (s.sync 0)⟩ := by
  cases q with
  | begin =>
    obtain ⟨hsole, he, hp⟩ := h.serve_begin
    exact ⟨hsole, rfl, fun g => (hstill g).of_ite (hp g) (Or.inl rfl), he⟩
  | close i =>
    obtain ⟨hsole, he, hp⟩ := h.serve_close i
    exact ⟨hsole, rfl, fun g => (hstill g).of_ite (hp g) (Or.inr rfl), he⟩
  | next i =>
    obtain ⟨hsole, he, hp, hreply⟩ := h.serve_next i
    have hi : s.progress i = .finished := (hstill i).resolve_left hq
    rw [hi, Engine.resume_finished] at he hp hreply
    exact ⟨hsole, hreply, fun g => (hstill g).of_ite (hp g) (Or.inr rfl), he⟩
  | run business => exact absurd trivial hq
  | addSources is =>
    obtain ⟨hsole, hp, hr⟩ := h.serve_registers (q := .addSources is) rfl
    rw [hs] at hr
    exact ⟨hsole, hr.2, fun g => (hstill g).of_eq (hp g), hr.1⟩
  | addRuptures js =>
    obtain ⟨hsole, hp, hr⟩ := h.serve_registers (q := .addRuptures js) rfl
    rw [hs] at hr
    exact ⟨hsole, hr.2, fun g => (hstill g).of_eq (hp g), hr.1⟩

end Session

end Lockstep
