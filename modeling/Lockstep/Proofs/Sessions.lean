import Lockstep.Proofs.Engine.Requests

/-!
# A synchronization runs at most once

A session is asked to begin runs of its synchronization, to advance or close one of them, to run to
the end at once, and to register sources and ruptures, in any order.  Until an open run is advanced
for the first time, or a run to the end is asked for, nothing is started and every registration is
accepted (`Waits`).  This first run is the only one that gives steps, and it gives those of a run
that nothing interrupts; every later registration and every later start is refused, and nothing but
an advance of this run changes the synchronization, its sources or its ruptures (`Started`).

`serveAll_waits_or_started` says this of every sequence of requests, by induction on it.  What a
business does to the synchronization between two of its steps comes between two advances of a run
that was begun.
-/

namespace Lockstep

variable {ρ κ : Type} [SyncKey κ]

/-- Nothing is started: the sources and ruptures are as they were, and the synchronization has the
registrations and nothing else.  All requests have been accepted, and no step was given. -/
structure Waits (sources : List (Source ρ κ)) (ruptures : List (Rupture κ))
    (qs : List (Request ρ κ)) (t : Session ρ κ × List (Reply ρ κ)) : Prop where
  unstarted : (t.1.sync 0).started = false
  engine : t.1.engine 0 = ⟨⟨sources, ruptures⟩, Request.registrations sources qs⟩
  silent : ∀ a ∈ t.2, a = ⟨[], .ok ()⟩

/-- Whether a request goes on with the run that another one has started. -/
def Request.continues (q p : Request ρ κ) : Bool :=
  match q with
  | .next g => p.advances g
  | _ => false

/-- What the run that a request starts leaves and gives, without interruption: asked for as many
steps as it is advanced for before it is closed, or to the end. -/
def Engine.given (e : Engine ρ κ) (q : Request ρ κ) (after : List (Request ρ κ)) :
    Engine ρ κ × List (Step ρ κ) :=
  match q with
  | .next g =>
    let r := e.drain (Request.asked g after + 1) .fresh
    (r.engine, r.result)
  | .run business =>
    let r := Engine.fold (handing business) Session.budget [] e .fresh
    (r.engine, r.result)
  | _ => (e, [])

/-- The synchronization `e` was started by request `q`, which came behind the requests `before`;
since then the requests `after` have been served. -/
structure Started (e : Engine ρ κ) (q : Request ρ κ) (before after : List (Request ρ κ))
    (t : Session ρ κ × List (Reply ρ κ)) : Prop where
  started : (t.1.sync 0).started = true
  /-- The sources and ruptures that are registered are those of the start. -/
  registered : (t.1.sync 0).sources = e.sync.sources ∧ (t.1.sync 0).ruptures = e.sync.ruptures
  /-- The synchronization, its sources and its ruptures are as one run leaves them. -/
  engine : t.1.engine 0 = (e.given q after).1
  /-- The steps that were given are those of this run. -/
  steps : t.2.flatMap (·.steps) = (e.given q after).2
  /-- No request but those of this run gave a step. -/
  yields : ∀ n p a, (before ++ q :: after)[n]? = some p → t.2[n]? = some a → a.steps ≠ [] →
    n = before.length ∨ before.length < n ∧ q.continues p = true
  /-- No other request changes anything or gives a step. -/
  others : ∀ p, q.continues p = false →
    (t.1.serve p).1.engine 0 = t.1.engine 0 ∧ (t.1.serve p).2.steps = []
  /-- Registrations and starts are refused. -/
  refused : ∀ p, p.registers = true ∨ t.1.starts p →
    (t.1.serve p).1.engine 0 = t.1.engine 0 ∧ (t.1.serve p).2 = ⟨[], .error .alreadyRun⟩

/-- What is kept while nothing is started. -/
structure Waiting (sources : List (Source ρ κ)) (ruptures : List (Rupture κ))
    (qs : List (Request ρ κ)) (t : Session ρ κ × List (Reply ρ κ)) : Prop extends
    Waits sources ruptures qs t where
  sole : t.1.Sole
  still : ∀ g, t.1.Still g
  length : t.2.length = qs.length

/-- What is kept once the synchronization `e` was started by request `q`. -/
structure Underway (e : Engine ρ κ) (q : Request ρ κ) (before after : List (Request ρ κ))
    (t : Session ρ κ × List (Reply ρ κ)) : Prop where
  sole : t.1.Sole
  started : (t.1.sync 0).started = true
  engine : t.1.engine 0 = (e.given q after).1
  steps : t.2.flatMap (·.steps) = (e.given q after).2
  yields : ∀ n p a, (before ++ q :: after)[n]? = some p → t.2[n]? = some a → a.steps ≠ [] →
    n = before.length ∨ before.length < n ∧ q.continues p = true
  length : t.2.length = (before ++ q :: after).length
  still : ∀ g, q.continues (.next g) = false → t.1.Still g
  active : ∀ g, q = .next g → g < t.1.runs.length ∧ t.1.progress g =
    if after.any (Request.closes g) then .finished
      else (e.drain (Request.asked g after + 1) .fresh).progress

theorem Engine.given_concat {e : Engine ρ κ} {q p : Request ρ κ} (h : q.continues p = false)
    (after : List (Request ρ κ)) : e.given q (after ++ [p]) = e.given q after := by
  cases q with
  | next g =>
    have hp : p.advances g = false := h
    simp [Engine.given, Request.asked_concat, hp]
  | _ => rfl

/-- Advancing a run once more goes on with what it gives without interruption, unless it is
closed. -/
theorem Engine.given_next (e : Engine ρ κ) (g : ℕ) (after : List (Request ρ κ)) :
    let a := (e.given (.next g) after).1.resume (if after.any (Request.closes g) then .finished
      else (e.drain (Request.asked g after + 1) .fresh).progress)
    a.engine = (e.given (.next g) (after ++ [.next g])).1 ∧
      (e.given (.next g) after).2 ++ a.steps = (e.given (.next g) (after ++ [.next g])).2 ∧
      a.progress = if after.any (Request.closes g) then .finished
        else (e.drain (Request.asked g (after ++ [.next g]) + 1) .fresh).progress := by
  cases hcl : after.any (Request.closes g) with
  | true => simp [Engine.given, Request.asked_concat, hcl, Resumed.steps]
  | false =>
    obtain ⟨hd, hp, hres⟩ := Engine.drain_resume (Request.asked g after + 1) e .fresh
    simp only [Engine.given, Request.asked_concat, hcl, Request.advances]
    simp [hd, hp, hres]

section Underway

variable {e : Engine ρ κ} {q : Request ρ κ} {before after : List (Request ρ κ)}
  {t : Session ρ κ × List (Reply ρ κ)} (h : Underway e q before after t)

include h

/-- A request that does not go on with the run advances no paused one. -/
theorem Underway.still_of_advances {p : Request ρ κ} (hp : q.continues p = false) :
    ∀ g, p.advances g = true → t.1.Still g := by
  intro g hg
  rw [Request.advances_iff] at hg
  exact h.still g (hg ▸ hp)

theorem Underway.yields_concat {p : Request ρ κ} {a : Reply ρ κ}
    (ha : q.continues p = false → a.steps = []) : ∀ n p' b,
      (before ++ q :: (after ++ [p]))[n]? = some p' → (t.2 ++ [a])[n]? = some b → b.steps ≠ [] →
        n = before.length ∨ before.length < n ∧ q.continues p' = true := by
  intro n p' b hp' hb hne
  rw [← List.cons_append, ← List.append_assoc] at hp'
  rcases lt_trichotomy n t.2.length with hn | rfl | hn
  · rw [List.getElem?_append_left (h.length ▸ hn)] at hp'
    rw [List.getElem?_append_left hn] at hb
    exact h.yields n p' b hp' hb hne
  · rw [h.length, List.getElem?_concat_length] at hp'
    rw [List.getElem?_concat_length] at hb
    obtain rfl := Option.some.inj hp'
    obtain rfl := Option.some.inj hb
    refine Or.inr ⟨?_, ?_⟩
    · rw [h.length, List.length_append, List.length_cons]
      omega
    · by_contra hc
      exact hne (ha (by simpa using hc))
  · rw [List.getElem?_eq_none (by simp; omega)] at hb
    cases hb

theorem Underway.length_concat (p : Request ρ κ) (a : Reply ρ κ) :
    (t.2 ++ [a]).length = (before ++ q :: (after ++ [p])).length := by
  simp [h.length]
  omega

/-- A request that does not go on with the run that was started leaves everything as it is. -/
theorem Underway.serve_other {p : Request ρ κ} (hc : q.continues p = false) :
    Underway e q before (after ++ [p]) ((t.1.serve p).1, t.2 ++ [(t.1.serve p).2]) := by
  obtain ⟨hsole, he, hsteps, -, hstill, hprogress⟩ :=
    h.sole.serve_started h.started (h.still_of_advances hc)
  have hgiven := Engine.given_concat (e := e) hc after
  refine ⟨hsole, ?_, ?_, ?_, h.yields_concat fun _ => hsteps, h.length_concat p _,
    fun g hg => hstill g (h.still g hg), ?_⟩
  · rw [show ((t.1.serve p).1.sync 0) = (t.1.sync 0) from congrArg Engine.sync he]
    exact h.started
  · rw [hgiven, ← h.engine]
    exact he
  · rw [hgiven, List.flatMap_append, h.steps]
    simp [hsteps]
  · rintro g rfl
    obtain ⟨hlt, hg⟩ := h.active g rfl
    refine ⟨lt_of_lt_of_le hlt (Session.runs_length_le_serve t.1 p), ?_⟩
    have hadv : p.advances g = false := hc
    rw [hprogress g hlt hadv, hg, Request.asked_concat, hadv, List.any_append, List.any_cons,
      List.any_nil]
    cases after.any (Request.closes g) <;> cases p.closes g <;> simp

omit h in
/-- The run that was started is advanced, or was closed and gives nothing. -/
theorem Underway.serve_next {g : ℕ} (h : Underway e (.next g) before after t) :
    Underway e (.next g) before (after ++ [.next g])
      ((t.1.serve (.next g)).1, t.2 ++ [(t.1.serve (.next g)).2]) := by
  obtain ⟨hsole, he, hprogress, hreply⟩ := h.sole.serve_next g
  obtain ⟨hlt, hg⟩ := h.active g rfl
  have hstarted := (Engine.resume_registered (t.1.engine 0) (t.1.progress g)).2.2
    (Or.inl h.started)
  rw [← he] at hstarted
  obtain ⟨hengine, hsteps, hpaused⟩ := Engine.given_next e g after
  rw [← h.engine, ← hg] at hengine hsteps hpaused
  refine ⟨hsole, hstarted, he.trans hengine, ?_, h.yields_concat fun hc => ?_,
    h.length_concat _ _, fun i hi => ?_, fun i hi => ?_⟩
  · rw [List.flatMap_append, h.steps, ← hsteps]
    simp [hreply]
  · simp [Request.continues, Request.advances] at hc
  · have hne : i ≠ g := by simpa [Request.continues, Request.advances] using hi
    exact (h.still i hi).of_eq (by rw [hprogress, if_neg hne])
  · obtain rfl : g = i := by simpa using hi
    have hany : (after ++ [Request.next g]).any (Request.closes g) =
        after.any (Request.closes g) := by simp [Request.closes]
    refine ⟨lt_of_lt_of_le hlt (Session.runs_length_le_serve t.1 _), ?_⟩
    rw [hprogress, if_pos rfl, hpaused, hany]

/-- One more request keeps what is kept. -/
theorem Underway.serve (p : Request ρ κ) :
    Underway e q before (after ++ [p]) ((t.1.serve p).1, t.2 ++ [(t.1.serve p).2]) := by
  cases hc : q.continues p with
  | false => exact h.serve_other hc
  | true =>
    cases q with
    | next g =>
      obtain rfl : p = .next g := Request.advances_iff.1 hc
      exact h.serve_next
    | _ => cases hc

/-- Everything but the run that was started is refused or without effect. -/
theorem Underway.toStarted : Started e q before after t where
  started := h.started
  registered := by
    have hgiven : (e.given q after).1.sync.sources = e.sync.sources ∧
        (e.given q after).1.sync.ruptures = e.sync.ruptures := by
      cases q with
      | next g =>
        have hr := Engine.fold_registered Engine.collect (Request.asked g after + 1) [] e .fresh
        exact ⟨hr.1, hr.2.1⟩
      | run business =>
        have hr := Engine.fold_registered (handing business) Session.budget [] e .fresh
        exact ⟨hr.1, hr.2.1⟩
      | _ => exact ⟨rfl, rfl⟩
    rw [← h.engine] at hgiven
    exact hgiven
  engine := h.engine
  steps := h.steps
  yields := h.yields
  others := by
    intro p hp
    obtain ⟨-, he, hsteps, -⟩ := h.sole.serve_started h.started (h.still_of_advances hp)
    exact ⟨he, hsteps⟩
  refused := by
    intro p hp
    have hstill : ∀ g, p.advances g = true → t.1.Still g := by
      intro g hg
      obtain rfl := Request.advances_iff.1 hg
      exact Or.inl (hp.resolve_left (by simp [Request.registers]))
    obtain ⟨-, he, hsteps, hout, -⟩ := h.sole.serve_started h.started hstill
    refine ⟨he, ?_⟩
    have ho := hout hp
    rcases hr : (t.1.serve p).2 with ⟨steps, outcome⟩
    rw [hr] at hsteps ho
    rw [show steps = [] from hsteps, show outcome = _ from ho]

end Underway

section Waiting

variable {sources : List (Source ρ κ)} {ruptures : List (Rupture κ)} {qs : List (Request ρ κ)}
  {t : Session ρ κ × List (Reply ρ κ)} (h : Waiting sources ruptures qs t)

include h

/-- A request that does not start the synchronization at most registers something. -/
theorem Waiting.serve {q : Request ρ κ} (hq : ¬ t.1.starts q) :
    Waiting sources ruptures (qs ++ [q]) ((t.1.serve q).1, t.2 ++ [(t.1.serve q).2]) := by
  obtain ⟨hsole, hreply, hstill, he⟩ := h.sole.serve_waiting h.unstarted h.still hq
  have hpool : t.1.pool = ⟨sources, ruptures⟩ := congrArg Engine.pool h.engine
  have hsync : t.1.sync 0 = Request.registrations sources qs := congrArg Engine.sync h.engine
  have hregistered : (t.1.serve q).1.engine 0 =
      ⟨⟨sources, ruptures⟩, Request.registrations sources (qs ++ [q])⟩ := by
    rw [he, hpool, hsync, Request.registrations_concat]
  refine ⟨⟨?_, hregistered, fun a ha => ?_⟩, hsole, hstill, by simp [h.length]⟩
  · rw [show (t.1.serve q).1.sync 0 = _ from congrArg Engine.sync hregistered]
    exact Request.registrations_started sources (qs ++ [q])
  · rcases List.mem_append.1 ha with ha | ha
    · exact h.silent a ha
    · rw [List.mem_singleton.1 ha, hreply]

omit [SyncKey κ] in
/-- No reply so far has given a step. -/
theorem Waiting.flatMap_steps : t.2.flatMap (·.steps) = [] := by
  rw [List.flatMap_eq_nil_iff]
  intro a ha
  rw [h.silent a ha]

omit [SyncKey κ] in
theorem Waiting.yields {q : Request ρ κ} (b : Reply ρ κ) : ∀ n p a,
    (qs ++ [q])[n]? = some p → (t.2 ++ [b])[n]? = some a → a.steps ≠ [] →
      n = qs.length ∨ qs.length < n ∧ q.continues p = true := by
  intro n p a _ ha hne
  rcases lt_trichotomy n t.2.length with hn | hn | hn
  · rw [List.getElem?_append_left hn] at ha
    rw [h.silent a (List.mem_of_getElem? ha)] at hne
    exact absurd rfl hne
  · exact Or.inl (hn.trans h.length)
  · rw [List.getElem?_eq_none (by simp; omega)] at ha
    cases ha

/-- The first advance of a run, or a run to the end, starts the synchronization. -/
theorem Waiting.start {q : Request ρ κ} (hq : t.1.starts q) :
    Underway (t.1.engine 0) q qs [] ((t.1.serve q).1, t.2 ++ [(t.1.serve q).2]) := by
  have hlen : (t.2 ++ [(t.1.serve q).2]).length = (qs ++ [q]).length := by simp [h.length]
  cases q with
  | next g =>
    obtain ⟨hsole, he, hprogress, hreply⟩ := h.sole.serve_next g
    have hfresh : t.1.progress g = .fresh := hq
    obtain ⟨hd, hp, hres⟩ := Engine.drain_resume 0 (t.1.engine 0) .fresh
    have hstarted := (Engine.resume_registered (t.1.engine 0) .fresh).2.2 (Or.inr rfl)
    rw [hfresh] at he hprogress hreply
    have hlt : g < t.1.runs.length := by
      by_contra hge
      rw [Session.progress_of_le (not_lt.1 hge)] at hfresh
      cases hfresh
    refine ⟨hsole, ?_, he.trans hd.symm, ?_, h.yields _, hlen, fun i hi => ?_, fun i hi => ?_⟩
    · rw [← he] at hstarted
      exact hstarted
    · rw [List.flatMap_append, h.flatMap_steps, hreply]
      exact (List.append_nil _).trans hres.symm
    · have hne : i ≠ g := by simpa [Request.continues, Request.advances] using hi
      exact (h.still i).of_eq (by rw [hprogress, if_neg hne])
    · obtain rfl : g = i := by simpa using hi
      refine ⟨lt_of_lt_of_le hlt (Session.runs_length_le_serve t.1 _), ?_⟩
      rw [hprogress, if_pos rfl]
      exact hp.symm
  | run business =>
    obtain ⟨hsole, he, hprogress, hreply⟩ := h.sole.serve_run business
    have hstarted := (Engine.fold_registered (handing business) Session.budget []
      (t.1.engine 0) .fresh).2.2 (Or.inr ⟨by decide, rfl⟩)
    refine ⟨hsole, ?_, he, ?_, h.yields _, hlen, fun i _ => (h.still i).of_eq (hprogress i),
      fun i hi => by cases hi⟩
    · rw [← he] at hstarted
      exact hstarted
    · rw [List.flatMap_append, h.flatMap_steps, hreply]
      exact List.append_nil _
  | begin => cases hq
  | close g => cases hq
  | addSources is => cases hq
  | addRuptures js => cases hq

end Waiting

theorem waiting_start (sources : List (Source ρ κ)) (ruptures : List (Rupture κ)) :
    Waiting sources ruptures [] ((Session.start sources ruptures 1).serveAll []) where
  unstarted := rfl
  engine := rfl
  silent := by simp [Session.serveAll]
  sole := ⟨rfl, by simp [Session.serveAll, Session.start]⟩
  still := fun g => Or.inr (Session.progress_of_le (Nat.zero_le g))
  length := rfl

/-- A sequence of requests leaves the synchronization waiting, or underway since one of them. -/
theorem waiting_or_underway (sources : List (Source ρ κ)) (ruptures : List (Rupture κ))
    (qs : List (Request ρ κ)) :
    let serve := (Session.start sources ruptures 1).serveAll
    Waiting sources ruptures qs (serve qs) ∨ ∃ before q after, qs = before ++ q :: after ∧
      Waiting sources ruptures before (serve before) ∧ (serve before).1.starts q ∧
      Underway ((serve before).1.engine 0) q before after (serve qs) := by
  intro serve
  induction qs using List.reverseRecOn with
  | nil => exact Or.inl (waiting_start sources ruptures)
  | append_singleton qs p ih =>
    have hserve : serve (qs ++ [p]) = (((serve qs).1.serve p).1,
      (serve qs).2 ++ [((serve qs).1.serve p).2]) := Session.serveAll_concat _ qs p
    rcases ih with hw | ⟨before, q, after, rfl, hw, hq, hu⟩
    · by_cases hp : (serve qs).1.starts p
      · exact Or.inr ⟨qs, p, [], rfl, hw, hp, hserve ▸ hw.start hp⟩
      · exact Or.inl (hserve ▸ hw.serve hp)
    · exact Or.inr ⟨before, q, after ++ [p], by simp, hw, hq, hserve ▸ hu.serve p⟩

/-- **A synchronization runs at most once, whatever it is asked for and in which order.**  Until a
run is started every registration is accepted, and nothing else has any effect; from then on this
run alone gives steps, as if nothing interrupted it, and every other request is refused or without
effect. -/
theorem serveAll_waits_or_started (sources : List (Source ρ κ)) (ruptures : List (Rupture κ))
    (qs : List (Request ρ κ)) :
    let serve := (Session.start sources ruptures 1).serveAll
    (Waits sources ruptures qs (serve qs) ∧ ∀ q,
      (¬ (serve qs).1.starts q → Waits sources ruptures (qs ++ [q]) (serve (qs ++ [q]))) ∧
      ((serve qs).1.starts q →
        Started ((serve qs).1.engine 0) q qs [] (serve (qs ++ [q])))) ∨
    ∃ before q after, qs = before ++ q :: after ∧
      Waits sources ruptures before (serve before) ∧ (serve before).1.starts q ∧
      Started ((serve before).1.engine 0) q before after (serve qs) := by
  intro serve
  have hserve : ∀ q, serve (qs ++ [q]) = (((serve qs).1.serve q).1,
    (serve qs).2 ++ [((serve qs).1.serve q).2]) := fun q => Session.serveAll_concat _ qs q
  rcases waiting_or_underway sources ruptures qs with hw | ⟨before, q, after, hqs, hw, hq, hu⟩
  · refine Or.inl ⟨hw.toWaits, fun q => ⟨fun hq => ?_, fun hq => ?_⟩⟩
    · rw [hserve]
      exact (hw.serve hq).toWaits
    · rw [hserve]
      exact (hw.start hq).toStarted
  · exact Or.inr ⟨before, q, after, hqs, hw.toWaits, hq, hu.toStarted⟩

end Lockstep
