import Mathlib.Data.List.Basic
import Lockstep.Engine.Run
import Lockstep.Proofs.Engine.Cascade
import Lockstep.Proofs.Engine.Each

/-!
# Runs abreast

Two engines that differ only in what their sources are read from show the same.  They go on to do so
if reading two corresponding sources brings the same, or fails in the same way.  If the reading of
the second source may besides fail with a fault that is excused, then the second run does what the
first one does, or it fails with such a fault (`fold_abreast`).

`Source.Twins` is what has to be known of single sources: a relation that reading and comparing
keep.  An action that keeps a relation up to excused faults is `Action.Keeps`.
-/

namespace Lockstep

variable {ρ κ σ ι β : Type}

namespace Action

/-- How the same action ends in two states: the second time it fails with an excused fault, or both
times it fails in the same way, or both times it succeeds and leaves related states. -/
inductive Abreast (R : σ → σ → Prop) (U : Fault → Prop) :
    σ × Except Fault Unit → σ × Except Fault Unit → Prop
  | excused {p : σ × Except Fault Unit} {t : σ} {f : Fault} (h : U f) : Abreast R U p (t, .error f)
  | failed (s t : σ) (f : Fault) : Abreast R U (s, .error f) (t, .error f)
  | done {s t : σ} (h : R s t) : Abreast R U (s, .ok ()) (t, .ok ())

/-- In related states the action ends abreast. -/
def Keeps (R : σ → σ → Prop) (U : Fault → Prop) (a : Action σ) : Prop :=
  ∀ s t, R s t → Abreast R U (a s) (a t)

variable {R : σ → σ → Prop} {U : Fault → Prop}

theorem Abreast.mono {R' : σ → σ → Prop} {U' : Fault → Prop} {p q : σ × Except Fault Unit}
    (h : Abreast R U p q) (hR : ∀ s t, R s t → R' s t) (hU : ∀ f, U f → U' f) :
    Abreast R' U' p q := by
  cases h with
  | excused h => exact .excused (hU _ h)
  | failed s t f => exact .failed s t f
  | done h => exact .done (hR _ _ h)

/-- What is known of the second state besides is part of the relation. -/
theorem Abreast.and_right {P : σ → Prop} {p q : σ × Except Fault Unit} (h : Abreast R U p q)
    (hP : ∀ t, q = (t, .ok ()) → P t) : Abreast (fun s t => R s t ∧ P t) U p q := by
  cases h with
  | excused h => exact .excused h
  | failed s t f => exact .failed s t f
  | done h => exact .done ⟨h, hP _ rfl⟩

/-- Sequences end abreast if their first actions do and, where these succeed, their second ones. -/
theorem Abreast.andThen {R' : σ → σ → Prop} {a a' b b' : Action σ} {s t : σ}
    (ha : Abreast R U (a s) (a' t))
    (hb : ∀ u v, a s = (u, .ok ()) → a' t = (v, .ok ()) → R u v → Abreast R' U (b u) (b' v)) :
    Abreast R' U (andThen a b s) (andThen a' b' t) := by
  unfold Action.andThen
  generalize a s = p at ha hb ⊢
  generalize a' t = q at ha hb ⊢
  cases ha with
  | excused h => exact .excused h
  | failed s t f => exact .failed s t f
  | done h => exact hb _ _ rfl rfl h

theorem Keeps.andThen {a b : Action σ} (ha : Keeps R U a) (hb : Keeps R U b) :
    Keeps R U (andThen a b) := fun s t hst => (ha s t hst).andThen fun u v _ _ huv => hb u v huv

theorem Keeps.forEach_mem {a : ι → Action σ} {is : List ι} (h : ∀ i ∈ is, Keeps R U (a i)) :
    Keeps R U (Action.forEach a is) := by
  induction is with
  | nil => exact fun _ _ hst => .done hst
  | cons i is ih =>
    obtain ⟨hi, his⟩ := List.forall_mem_cons.1 h
    exact hi.andThen (ih his)

theorem Keeps.forEach {a : ι → Action σ} (h : ∀ i, Keeps R U (a i)) (is : List ι) :
    Keeps R U (Action.forEach a is) := .forEach_mem fun i _ => h i

end Action

/-- The sources differ at most in what they are read from. -/
def Source.ShowsAs (s t : Source ρ κ) : Prop :=
  t = { s with feed := t.feed, keyer := t.keyer, pulls := t.pulls }

/-- Sources that correspond to each other show the same, and reading and comparing keep them so. -/
structure Source.Twins [SyncKey κ] (S : ℕ → Source ρ κ → Source ρ κ → Prop) (U : Fault → Prop) :
    Prop where
  shows : ∀ i s t, S i s t → s.ShowsAs t
  read : ∀ i (isOpen : Option ℕ → Bool), Action.Keeps (S i) U fun s => s.read (isOpen s.gate)
  synchronize : ∀ i (key : Frontier κ), Action.Keeps (S i) U fun s => s.synchronize key

namespace Pool

variable {p q : Pool ρ κ} {S : ℕ → Source ρ κ → Source ρ κ → Prop} {U : Fault → Prop}

/-- The pools have the same ruptures, and sources that correspond to each other. -/
structure Beside (S : ℕ → Source ρ κ → Source ρ κ → Prop) (p q : Pool ρ κ) : Prop where
  ruptures : q.ruptures = p.ruptures
  sources : ∀ i : ℕ, Option.Rel (S i) p.sources[i]? q.sources[i]?

/-- What sources show where others correspond to them, the others show as well. -/
theorem Beside.view_eq (h : Beside S p q) {α : Type} (view : Option (Source ρ κ) → α)
    (hview : ∀ i s t, S i s t → view (some t) = view (some s)) (i : ℕ) :
    view q.sources[i]? = view p.sources[i]? := by
  have hi := h.sources i
  generalize p.sources[i]? = a at hi ⊢
  generalize q.sources[i]? = b at hi ⊢
  cases hi with
  | none => rfl
  | some hst => exact hview i _ _ hst

section Shows

variable (h : Beside S p q) (hS : ∀ i s t, S i s t → s.ShowsAs t) (is : List ℕ)

include h hS

theorem Beside.candidates_eq : q.candidates is = p.candidates is := by
  refine List.filterMap_congr fun i _ => ?_
  refine h.view_eq (fun o => o.map (·.candidate)) (fun i s t hst => ?_) i
  rw [hS i s t hst]
  rfl

theorem Beside.row_eq : q.row is = p.row is := by
  refine List.map_congr_left fun i _ => ?_
  refine h.view_eq (fun o => o.bind (·.current)) (fun i s t hst => ?_) i
  rw [hS i s t hst]
  rfl

theorem Beside.held_eq : q.held is = p.held is := by
  refine List.map_congr_left fun i _ => ?_
  have hi := h.sources i
  generalize p.sources[i]? = a at hi ⊢
  generalize q.sources[i]? = b at hi ⊢
  cases hi with
  | none => rfl
  | some hst => rw [hS i _ _ hst]

end Shows

theorem Beside.setSource (h : Beside S p q) {i : ℕ} {s t : Source ρ κ} (hst : S i s t) :
    Beside S (p.setSource i s) (q.setSource i t) where
  ruptures := h.ruptures
  sources := by
    intro j
    have hj := h.sources j
    unfold Pool.setSource
    by_cases hij : i = j
    · subst hij
      rw [List.getElem?_set_self', List.getElem?_set_self']
      generalize p.sources[i]? = a at hj ⊢
      generalize q.sources[i]? = b at hj ⊢
      cases hj with
      | none => exact .none
      | some _ => exact .some hst
    · rwa [List.getElem?_set_ne hij, List.getElem?_set_ne hij]

theorem keeps_onSource {f : List (Rupture κ) → Source ρ κ → Source ρ κ × Except Fault Unit} (i : ℕ)
    (hf : ∀ rs, Action.Keeps (S i) U (f rs)) : Action.Keeps (Beside S) U (onSource f i) := by
  intro p q h
  have hi := h.sources i
  unfold onSource
  rw [h.ruptures]
  generalize p.sources[i]? = a at hi ⊢
  generalize q.sources[i]? = b at hi ⊢
  cases hi with
  | none => exact .done h
  | @some s t hst =>
    have ha := hf p.ruptures s t hst
    dsimp only
    generalize f p.ruptures s = a at ha ⊢
    generalize f p.ruptures t = b at ha ⊢
    cases ha with
    | excused hu => exact .excused hu
    | failed s t g => exact .failed _ _ g
    | done hst => exact .done (h.setSource hst)

variable [SyncKey κ] (hS : Source.Twins S U)

include hS

theorem keeps_readAll (is : List ℕ) :
    Action.Keeps (Beside S) U (readAll is : Action (Pool ρ κ)) := by
  rw [readAll, read_eq_onSource]
  exact .forEach (fun i => keeps_onSource i fun rs => hS.read i (opens rs)) is

theorem keeps_synchronizeAll (key : Frontier κ) (is : List ℕ) :
    Action.Keeps (Beside S) U (synchronizeAll key is : Action (Pool ρ κ)) := by
  rw [synchronizeAll, synchronize_eq_onSource]
  exact .forEach (fun i => keeps_onSource i fun _ => hS.synchronize i key) is

omit hS in
/-- The cascade does the same to the same ruptures, whatever the sources are. -/
theorem cascade_abreast {current next : Frontier κ} {force : Bool} {js : List ℕ}
    (h : q.ruptures = p.ruptures) :
    Action.Abreast (fun c c' => c.sources = p.sources ∧ c'.sources = q.sources ∧
      c'.ruptures = c.ruptures) U (cascade current next force js p)
      (cascade current next force js q) := by
  have hs : (cascade current next force js p).1.sources = p.sources := cascade_sources
  have hq : cascade current next force js { p with sources := q.sources } = _ :=
    cascade_withSources q.sources
  rw [← h] at hq
  rw [hq]
  rcases hp : cascade current next force js p with ⟨d, f | u⟩
  · exact .failed _ _ f
  · rw [hp] at hs
    exact .done ⟨hs, rfl, rfl⟩

omit hS in
theorem keeps_cascade (current next : Frontier κ) (js : List ℕ) :
    Action.Keeps (Beside S) U (cascade current next false js : Action (Pool ρ κ)) := by
  intro p q h
  refine (cascade_abreast h.ruptures).mono (fun c c' ⟨hc, hc', hr⟩ => ⟨hr, fun i => ?_⟩)
    fun _ hf => hf
  rw [hc, hc']
  exact h.sources i

end Pool

namespace Engine

variable {e d : Engine ρ κ} {S : ℕ → Source ρ κ → Source ρ κ → Prop} {U : Fault → Prop}

/-- The engines have got as far, and have the same ruptures and sources that correspond to each
other. -/
structure Beside (S : ℕ → Source ρ κ → Source ρ κ → Prop) (e d : Engine ρ κ) : Prop where
  sync : d.sync = e.sync
  pool : e.pool.Beside S d.pool

theorem Beside.candidates_eq (h : Beside S e d) (hS : ∀ i s t, S i s t → s.ShowsAs t) :
    d.candidates = e.candidates := by
  unfold candidates
  rw [h.sync, h.pool.candidates_eq hS]

theorem Beside.snapshot_eq (h : Beside S e d) (hS : ∀ i s t, S i s t → s.ShowsAs t) (n : ℕ) :
    d.snapshot n = e.snapshot n := by
  unfold snapshot
  rw [h.sync, h.pool.held_eq hS, h.pool.row_eq hS, Pool.edges, Pool.edges, h.pool.ruptures]

/-- Actions on the pools leave the rest of the engines as it is. -/
theorem onPool_abreast {R : Pool ρ κ → Pool ρ κ → Prop} {a a' : Action (Pool ρ κ)}
    (h : Action.Abreast R U (a e.pool) (a' d.pool)) :
    Action.Abreast (fun c c' => c.sync = e.sync ∧ c'.sync = d.sync ∧ R c.pool c'.pool) U
      (onPool a e) (onPool a' d) := by
  unfold onPool
  dsimp only
  generalize a e.pool = r at h ⊢
  generalize a' d.pool = q at h ⊢
  cases h with
  | excused hu => exact .excused hu
  | failed s t f => exact .failed _ _ f
  | done hst => exact .done ⟨rfl, rfl, hst⟩

/-- Engines whose candidates have the same least one find the same next key. -/
theorem keyPhase_abreast [SyncKey κ]
    (h : Frontier.leastOf d.candidates = Frontier.leastOf e.candidates) :
    Action.Abreast (fun c c' => c.pool = e.pool ∧ c'.pool = d.pool ∧ ∃ k,
      c.sync = { e.sync with currentKey := e.sync.nextKey, nextKey := some k } ∧
      c'.sync = { d.sync with currentKey := d.sync.nextKey, nextKey := some k }) U
      (keyPhase e) (keyPhase d) := by
  unfold keyPhase
  rw [h]
  dsimp only
  cases Frontier.leastOf e.candidates with
  | error f => exact .failed _ _ f
  | ok k => exact .done ⟨rfl, rfl, k, rfl, rfl⟩

theorem keeps_onPool {a : Synchronization κ → Action (Pool ρ κ)}
    (ha : ∀ y, Action.Keeps (Pool.Beside S) U (a y)) :
    Action.Keeps (Beside S) U fun e => onPool (a e.sync) e := by
  intro e d h
  have hp := ha e.sync e.pool d.pool h.pool
  dsimp only
  rw [h.sync]
  exact (onPool_abreast hp).mono
    (fun c c' ⟨hc, hc', hcc⟩ => ⟨by rw [hc', h.sync, hc], hcc⟩) fun _ hf => hf

variable [SyncKey κ] (hS : Source.Twins S U)

include hS

theorem keeps_readPhase : Action.Keeps (Beside S) U readPhase :=
  keeps_onPool fun y => Pool.keeps_readAll hS y.sources

theorem keeps_keyPhase : Action.Keeps (Beside S) U keyPhase := by
  intro e d h
  refine (keyPhase_abreast (by rw [h.candidates_eq hS.shows])).mono
    (fun c c' ⟨hc, hc', k, hs, hs'⟩ => ⟨?_, ?_⟩) fun _ hf => hf
  · rw [hs', hs, h.sync]
  · rw [hc, hc']
    exact h.pool

theorem keeps_prime : Action.Keeps (Beside S) U prime :=
  (keeps_readPhase hS).andThen (keeps_keyPhase hS)

theorem keeps_turn : Action.Keeps (Beside S) U turn := by
  have hsync : Action.Keeps (Beside S) U synchronizePhase :=
    keeps_onPool fun y => Pool.keeps_synchronizeAll hS (y.nextKey.getD .done) y.sources
  have hrup : Action.Keeps (Beside S) U rupturePhase := keeps_onPool fun y =>
    Pool.keeps_cascade (y.currentKey.getD .done) (y.nextKey.getD .done) y.ruptures
  exact (keeps_readPhase hS).andThen (hsync.andThen ((keeps_keyPhase hS).andThen hrup))

/-! ### Runs -/

/-- How two requests for a step are answered: the second one by an excused fault, or both in the
same way, and if there is a step the engines stay beside each other. -/
inductive Answered (S : ℕ → Source ρ κ → Source ρ κ → Prop) (U : Fault → Prop) :
    Resumed ρ κ → Resumed ρ κ → Prop
  | excused {r q : Resumed ρ κ} {f : Fault} (h : U f) (hq : q.outcome = .error f) : Answered S U r q
  | same {e d : Engine ρ κ} (g : Progress) {o : Except Fault (Option (Step ρ κ))}
      (ns : List Journal.Entry) (h : ∀ s, o = .ok (some s) → Beside S e d) :
      Answered S U ⟨e, g, o, ns⟩ ⟨d, g, o, ns⟩

theorem answered_resumeAt (h : Beside S e d) (n : ℕ) :
    Answered S U (e.resumeAt n) (d.resumeAt n) := by
  have ht := keeps_turn hS e d h
  unfold resumeAt
  rw [h.sync]
  cases e.sync.ended with
  | true => exact .same _ _ fun s hs => by cases hs
  | false =>
    simp only [Bool.false_eq_true, if_false]
    generalize e.turn = p at ht ⊢
    generalize d.turn = q at ht ⊢
    cases ht with
    | excused hu => exact .excused hu rfl
    | failed s t f => exact .same _ _ fun s hs => by cases hs
    | @done e d hed =>
      dsimp only
      have hnote : d.stepNote (d.snapshot (n + 1)) = e.stepNote (e.snapshot (n + 1)) := by
        rw [hed.snapshot_eq hS.shows, stepNote, stepNote, hed.sync]
      rw [hnote, hed.snapshot_eq hS.shows]
      exact .same _ _ fun _ _ => hed

theorem answered_resume (h : Beside S e d) (g : Progress) :
    Answered S U (e.resume g) (d.resume g) := by
  cases g with
  | finished => exact .same _ _ fun s hs => by cases hs
  | paused n => exact answered_resumeAt hS h n
  | fresh =>
    unfold resume resumeFresh
    rw [h.sync]
    cases e.sync.started with
    | true => exact .same _ _ fun s hs => by cases hs
    | false =>
      simp only [Bool.false_eq_true, if_false]
      have hb : Beside S { e with sync := { e.sync with started := true } }
          { d with sync := { e.sync with started := true } } := ⟨rfl, h.pool⟩
      have hp := keeps_prime hS _ _ hb
      have hnote : startNote { d with sync := { e.sync with started := true } } =
          startNote { e with sync := { e.sync with started := true } } := rfl
      rw [hnote]
      generalize prime { e with sync := { e.sync with started := true } } = p at hp ⊢
      generalize prime { d with sync := { e.sync with started := true } } = q at hp ⊢
      cases hp with
      | excused hu => exact .excused hu rfl
      | failed s t f => exact .same _ _ fun s hs => by cases hs
      | @done e d hed =>
        dsimp only
        have ha := answered_resumeAt hS hed 0
        generalize e.resumeAt 0 = r at ha ⊢
        generalize d.resumeAt 0 = q at ha ⊢
        cases ha with
        | excused hu hq => exact .excused hu hq
        | same g ns hs => exact .same _ _ hs

/-- **Runs abreast.**  A run of an engine beside another one does what the run of the other one
does, in every respect, or it fails with an excused fault. -/
theorem fold_abreast (visit : β → Step ρ κ → Except Fault β) (h : Beside S e d) (budget : ℕ) (b : β)
    (g : Progress) :
    (∃ f, U f ∧ (fold visit budget b d g).outcome = .error f) ∨
      fold visit budget b d g = { fold visit budget b e g with
        engine := (fold visit budget b d g).engine } := by
  induction budget generalizing b e d g with
  | zero => exact Or.inr rfl
  | succ budget ih =>
    have ha := answered_resume hS h g
    simp only [fold]
    generalize e.resume g = r at ha ⊢
    generalize d.resume g = q at ha ⊢
    cases ha with
    | @excused _ _ f hu hq =>
      left
      refine ⟨f, hu, ?_⟩
      rw [hq]
    | @same e d g o ns hs =>
      rcases o with f | _ | s
      · exact Or.inr rfl
      · exact Or.inr rfl
      · dsimp only
        cases visit b s with
        | error f => exact Or.inr rfl
        | ok c =>
          dsimp only
          rcases ih (hs s rfl) c g with hf | heq
          · exact Or.inl hf
          · right
            rw [heq]

end Engine

end Lockstep
