import Mathlib.Data.List.Basic
import Lockstep.Engine.Run
import Lockstep.Proofs.Engine.Abreast
import Lockstep.Proofs.Engine.Each
import Lockstep.Proofs.Engine.Phase

/-!
# Sources that are read from elsewhere

A run sees of the feed and the keyer of a source only what its pulls have brought, and the keys of
these records.  `Engine.refit` reads every source from another feed, which has been pulled as often,
and with another keyer; `Engine.Agree` says that the pulls made so far would have brought the same.
As long as they would have, the refitted engine does the same: it goes through the same states and
shows the same steps, also where something fails (`fold_refit`).

What every action of the engine does about this is `Action.Follows`: it keeps an engine fitted, it
unmakes no pull, and it does the same to the refitted engine if the pulls agree afterwards.
-/

namespace Lockstep

variable {ρ κ σ ι : Type}

/-- What pull number `n` brings, counted from zero. -/
def Feed.outcome (f : Feed ρ) (n : ℕ) : Delivery ρ := (f.pulled n).pull.1

/-- What a source is read from: a feed, and the key of each record. -/
structure Fitting (ρ κ : Type) where
  feed : Feed ρ
  keyer : ρ → Except Fault (Frontier κ)

/-- The first `n` pulls bring the same, records with the same keys. -/
def Fitting.Agree (n : ℕ) (x y : Fitting ρ κ) : Prop :=
  ∀ k < n, x.feed.outcome k = y.feed.outcome k ∧
    ∀ r, x.feed.outcome k = .record r → x.keyer r = y.keyer r

theorem Fitting.Agree.mono {m n : ℕ} {x y : Fitting ρ κ} (h : x.Agree n y) (hm : m ≤ n) :
    x.Agree m y := fun k hk => h k (lt_of_lt_of_le hk hm)

namespace Action

/-- The action keeps `P`, has `A` after it only if it has it before, and does the same to what `φ`
makes of a state as long as it has `A` after it. -/
structure Follows (P A : σ → Prop) (φ : σ → σ) (a : Action σ) : Prop where
  keeps : ∀ s, P s → P (a s).1
  before : ∀ s, P s → A (a s).1 → A s
  same : ∀ s, P s → A (a s).1 → a (φ s) = (φ (a s).1, (a s).2)

variable {P A : σ → Prop} {φ : σ → σ}

theorem Follows.andThen {a b : Action σ} (ha : Follows P A φ a) (hb : Follows P A φ b) :
    Follows P A φ (andThen a b) where
  keeps := by
    intro s hs
    have h := ha.keeps s hs
    rcases hr : a s with ⟨t, f | u⟩
    · rw [hr] at h
      rwa [andThen_of_error hr]
    · rw [hr] at h
      rw [andThen_of_ok hr]
      exact hb.keeps t h
  before := by
    intro s hs hA
    have h := ha.keeps s hs
    refine ha.before s hs ?_
    rcases hr : a s with ⟨t, f | u⟩
    · rwa [andThen_of_error hr] at hA
    · rw [hr] at h
      rw [andThen_of_ok hr] at hA
      exact hb.before t h hA
  same := by
    intro s hs hA
    have h := ha.keeps s hs
    have hsame := ha.same s hs
    rcases hr : a s with ⟨t, f | u⟩
    · rw [hr] at hsame
      rw [andThen_of_error hr] at hA ⊢
      exact andThen_of_error (hsame hA)
    · rw [hr] at h hsame
      rw [andThen_of_ok hr] at hA ⊢
      rw [andThen_of_ok (hsame (hb.before t h hA))]
      exact hb.same t h hA

theorem Follows.forEach {a : ι → Action σ} (h : ∀ i, Follows P A φ (a i)) (is : List ι) :
    Follows P A φ (forEach a is) := by
  induction is with
  | nil => exact ⟨fun _ hs => hs, fun _ _ hA => hA, fun _ _ _ => rfl⟩
  | cons i is ih => exact (h i).andThen ih

end Action

namespace Source

variable {s : Source ρ κ} {x y : Fitting ρ κ}

/-- The source, read from elsewhere after the same number of pulls. -/
def refit (s : Source ρ κ) (x : Fitting ρ κ) : Source ρ κ :=
  { s with feed := x.feed.pulled s.pulls, keyer := x.keyer }

theorem fill_pulls (s : Source ρ κ) : s.fill.1.pulls = s.pulls + 1 := by
  unfold fill
  dsimp only
  split
  · rfl
  · rfl
  · split <;> rfl

theorem refit_fill_self (s : Source ρ κ) (x : Fitting ρ κ) :
    (s.refit x).fill.1.refit x = (s.refit x).fill.1 := by
  unfold fill
  dsimp only
  split
  · rfl
  · rfl
  · split <;> rfl

theorem fill_refit (h : x.Agree (s.pulls + 1) y) :
    (s.refit y).fill = ((s.refit x).fill.1.refit y, (s.refit x).fill.2) := by
  obtain ⟨ho, hk⟩ := h s.pulls (Nat.lt_succ_self _)
  have hx : (s.refit x).feed.pull.1 = x.feed.outcome s.pulls := rfl
  have hy : (s.refit y).feed.pull.1 = x.feed.outcome s.pulls := ho.symm
  unfold fill
  dsimp only
  rw [hx, hy]
  cases hd : x.feed.outcome s.pulls with
  | failure f => rfl
  | exhausted => rfl
  | record r =>
    have hr : y.keyer r = x.keyer r := (hk r hd).symm
    simp only [refit, hr]
    cases x.keyer r with
    | ok k => rfl
    | error f => rfl

/-- What reading and comparing keep up with: the source is read from `x`, and what its pulls have
brought, those of `y` would have brought too. -/
abbrev Follows (x y : Fitting ρ κ) (a : Action (Source ρ κ)) : Prop :=
  Action.Follows (fun s => s.refit x = s) (fun s => x.Agree s.pulls y) (·.refit y) a

theorem follows_read (x y : Fitting ρ κ) (isOpen : Option ℕ → Bool) :
    Follows x y fun s => s.read (isOpen s.gate) where
  keeps := by
    intro s hs
    unfold read
    split
    · split
      · rw [← hs]
        rfl
      · have h := refit_fill_self s.shift x
        rwa [show s.shift.refit x = (s.refit x).shift from rfl, hs] at h
    · exact hs
  before := by
    intro s hs hA
    unfold read at hA
    split at hA
    · split at hA
      · exact hA
      · rw [fill_pulls] at hA
        exact hA.mono (Nat.le_succ _)
    · exact hA
  same := by
    intro s hs hA
    unfold read at hA ⊢
    rw [show (s.refit y).due (isOpen (s.refit y).gate) = s.due (isOpen s.gate) from rfl,
      show (s.refit y).exhausted = s.exhausted from rfl]
    by_cases hd : s.due (isOpen s.gate) = true
    · by_cases he : s.exhausted = true
      · simp only [hd, he, if_true]
        rfl
      · simp only [hd, he, if_true] at hA ⊢
        have h := fill_refit (s := s.shift) (y := y) (x := x) (by simpa [fill_pulls] using hA)
        rwa [show s.shift.refit x = (s.refit x).shift from rfl, hs] at h
    · simp only [hd]
      rfl

theorem follows_synchronize [SyncKey κ] (x y : Fitting ρ κ) (key : Frontier κ) :
    Follows x y fun s => s.synchronize key := by
  have h : ∀ s : Source ρ κ, (∀ z, (s.refit z).synchronize key =
      ((s.synchronize key).1.refit z, (s.synchronize key).2)) ∧
      (s.synchronize key).1.pulls = s.pulls := by
    intro s
    unfold synchronize
    refine ⟨fun z => ?_, ?_⟩
    · rw [show (s.refit z).currentKey = s.currentKey from rfl]
      cases s.currentKey.agree key <;> rfl
    · cases s.currentKey.agree key <;> rfl
  refine ⟨fun s hs => ?_, fun s _ hA => ?_, fun s _ _ => (h s).1 y⟩
  · have hx := congrArg Prod.fst ((h s).1 x)
    rw [hs] at hx
    exact hx.symm
  · rwa [(h s).2] at hA

end Source

namespace Pool

variable {p : Pool ρ κ} {x y : ℕ → Fitting ρ κ}

/-- The pool with every source read from elsewhere. -/
def refit (p : Pool ρ κ) (x : ℕ → Fitting ρ κ) : Pool ρ κ :=
  { p with sources := p.sources.mapIdx fun i s => s.refit (x i) }

/-- Every source is read from where `x` says. -/
def Fitted (x : ℕ → Fitting ρ κ) (p : Pool ρ κ) : Prop :=
  ∀ (i : ℕ) (s : Source ρ κ), p.sources[i]? = some s → s.refit (x i) = s

/-- What the pulls of every source have brought, those of `y` would have brought too. -/
def Agree (x y : ℕ → Fitting ρ κ) (p : Pool ρ κ) : Prop :=
  ∀ (i : ℕ) (s : Source ρ κ), p.sources[i]? = some s → (x i).Agree s.pulls (y i)

theorem getElem?_refit (i : ℕ) :
    (p.refit x).sources[i]? = (p.sources[i]?).map (·.refit (x i)) :=
  List.getElem?_mapIdx

theorem refit_setSource (p : Pool ρ κ) (i : ℕ) (s : Source ρ κ) :
    (p.setSource i s).refit y = (p.refit y).setSource i (s.refit (y i)) := by
  have h : (p.sources.set i s).mapIdx (fun i s => s.refit (y i)) =
      (p.refit y).sources.set i (s.refit (y i)) := by
    apply List.ext_getElem?
    intro j
    by_cases hij : i = j
    · subst hij
      by_cases hi : i < p.sources.length <;> simp [refit, hi]
    · simp [refit, List.getElem?_set_ne hij]
  simp only [refit, setSource] at h ⊢
  rw [h]

/-- An action on one source follows what all of them are read from. -/
theorem follows_onSource {f : List (Rupture κ) → Source ρ κ → Source ρ κ × Except Fault Unit}
    (i : ℕ) (h : ∀ rs, Source.Follows (x i) (y i) (f rs)) :
    Action.Follows (Fitted x) (Agree x y) (·.refit y) (onSource f i) where
  keeps := by
    intro p hp
    cases hs : p.sources[i]? with
    | none => rwa [onSource_of_none hs]
    | some s =>
      rw [onSource_of_some hs]
      intro j t ht
      by_cases hij : i = j
      · subst hij
        have hlt := (List.getElem?_eq_some_iff.1 hs).1
        obtain rfl : _ = t := by simpa [setSource, hlt] using ht
        exact (h p.ruptures).keeps s (hp i s hs)
      · exact hp j t (by simpa [setSource, List.getElem?_set_ne hij] using ht)
  before := by
    intro p hp hA
    cases hs : p.sources[i]? with
    | none => rwa [onSource_of_none hs] at hA
    | some s =>
      rw [onSource_of_some hs] at hA
      intro j t ht
      by_cases hij : i = j
      · subst hij
        have hlt := (List.getElem?_eq_some_iff.1 hs).1
        obtain rfl : s = t := Option.some.inj (hs.symm.trans ht)
        exact (h p.ruptures).before s (hp i s hs) (hA i _ (by simp [setSource, hlt]))
      · exact hA j t (by simpa [setSource, List.getElem?_set_ne hij] using ht)
  same := by
    intro p hp hA
    cases hs : p.sources[i]? with
    | none =>
      have hy : (p.refit y).sources[i]? = none := by simp [getElem?_refit, hs]
      rw [onSource_of_none hs, onSource_of_none hy]
    | some s =>
      have hy : (p.refit y).sources[i]? = some (s.refit (y i)) := by simp [getElem?_refit, hs]
      have hlt := (List.getElem?_eq_some_iff.1 hs).1
      rw [onSource_of_some hs] at hA ⊢
      have hsame := (h p.ruptures).same s (hp i s hs) (hA i _ (by simp [setSource, hlt]))
      rw [onSource_of_some hy, show (p.refit y).ruptures = p.ruptures from rfl, hsame,
        refit_setSource]

theorem follows_readAll (is : List ℕ) :
    Action.Follows (Fitted x) (Agree x y) (·.refit y) (readAll is : Action (Pool ρ κ)) := by
  rw [readAll, read_eq_onSource]
  exact .forEach (fun i => follows_onSource i fun rs => Source.follows_read _ _ (opens rs)) is

variable [SyncKey κ]

theorem follows_synchronizeAll (key : Frontier κ) (is : List ℕ) :
    Action.Follows (Fitted x) (Agree x y) (·.refit y)
      (synchronizeAll key is : Action (Pool ρ κ)) := by
  rw [synchronizeAll, synchronize_eq_onSource]
  exact .forEach (fun i => follows_onSource i fun _ => Source.follows_synchronize _ _ key) is

/-- The cascade does not see the sources. -/
theorem cascade_refit (current next : Frontier κ) (force : Bool) (js : List ℕ) (p : Pool ρ κ) :
    cascade current next force js (p.refit y) =
      ((cascade current next force js p).1.refit y, (cascade current next force js p).2) := by
  refine (cascade_withSources _).trans ?_
  rw [refit, cascade_sources]

theorem follows_cascade (current next : Frontier κ) (js : List ℕ) :
    Action.Follows (Fitted x) (Agree x y) (·.refit y)
      (cascade current next false js : Action (Pool ρ κ)) where
  keeps := by
    intro p hp
    unfold Fitted
    rwa [cascade_sources]
  before := by
    intro p _ hA
    unfold Agree at hA
    rwa [cascade_sources] at hA
  same := fun p _ _ => cascade_refit current next false js p

end Pool

namespace Engine

variable {e d : Engine ρ κ} {x y : ℕ → Fitting ρ κ}

/-- The engine with every source read from elsewhere. -/
def refit (e : Engine ρ κ) (x : ℕ → Fitting ρ κ) : Engine ρ κ := { e with pool := e.pool.refit x }

/-- Every source is read from where `x` says. -/
def Fitted (x : ℕ → Fitting ρ κ) (e : Engine ρ κ) : Prop := e.pool.Fitted x

/-- What the pulls of every source have brought, those of `y` would have brought too. -/
def Agree (x y : ℕ → Fitting ρ κ) (e : Engine ρ κ) : Prop := e.pool.Agree x y

/-- What the phases of a turn keep up with. -/
abbrev Follows (x y : ℕ → Fitting ρ κ) (a : Action (Engine ρ κ)) : Prop :=
  Action.Follows (Fitted x) (Agree x y) (·.refit y) a

theorem beside_refit (e : Engine ρ κ) (y : ℕ → Fitting ρ κ) :
    e.Beside (fun i s t => t = s.refit (y i)) (e.refit y) where
  sync := rfl
  pool := by
    refine ⟨rfl, fun i => ?_⟩
    rw [refit, Pool.getElem?_refit]
    cases e.pool.sources[i]? with
    | none => exact .none
    | some s => exact .some rfl

theorem candidates_refit (e : Engine ρ κ) (y : ℕ → Fitting ρ κ) :
    (e.refit y).candidates = e.candidates :=
  (beside_refit e y).candidates_eq fun _ _ _ h => h ▸ rfl

theorem snapshot_refit (e : Engine ρ κ) (y : ℕ → Fitting ρ κ) (n : ℕ) :
    (e.refit y).snapshot n = e.snapshot n :=
  (beside_refit e y).snapshot_eq (fun _ _ _ h => h ▸ rfl) n

theorem follows_onPool {a : Synchronization κ → Action (Pool ρ κ)}
    (h : ∀ u, Action.Follows (Pool.Fitted x) (Pool.Agree x y) (·.refit y) (a u)) :
    Follows x y fun e => onPool (a e.sync) e where
  keeps := fun e hf => (h e.sync).keeps e.pool hf
  before := fun e hf hA => (h e.sync).before e.pool hf hA
  same := by
    intro e hf hA
    have hs := (h e.sync).same e.pool hf hA
    simp only [onPool, refit, hs]

theorem follows_readPhase (x y : ℕ → Fitting ρ κ) : Follows x y readPhase :=
  follows_onPool fun u => Pool.follows_readAll u.sources

variable [SyncKey κ]

/-- The next key is chosen from keys that are known. -/
theorem follows_keyPhase (x y : ℕ → Fitting ρ κ) : Follows x y keyPhase := by
  have hpool : ∀ e : Engine ρ κ, (keyPhase e).1.pool = e.pool := by
    intro e
    unfold keyPhase
    dsimp only
    split <;> rfl
  refine ⟨fun e hf => ?_, fun e _ hA => ?_, fun e _ _ => ?_⟩
  · rwa [Fitted, hpool]
  · rwa [Agree, hpool] at hA
  · unfold keyPhase
    rw [candidates_refit]
    dsimp only
    cases Frontier.leastOf e.candidates <;> rfl

theorem follows_prime (x y : ℕ → Fitting ρ κ) : Follows x y prime :=
  (follows_readPhase x y).andThen (follows_keyPhase x y)

theorem follows_turn (x y : ℕ → Fitting ρ κ) : Follows x y turn := by
  have hsync : Follows x y synchronizePhase :=
    follows_onPool fun u => Pool.follows_synchronizeAll (u.nextKey.getD .done) u.sources
  have hrup : Follows x y rupturePhase := follows_onPool fun u =>
    Pool.follows_cascade (u.currentKey.getD .done) (u.nextKey.getD .done) u.ruptures
  exact (follows_readPhase x y).andThen (hsync.andThen ((follows_keyPhase x y).andThen hrup))

/-! ### Runs -/

/-- What `Action.Follows` says of an action, of an answer to a request for a step. -/
structure Keeps (x y : ℕ → Fitting ρ κ) (e : Engine ρ κ) (again : Resumed ρ κ)
    (r : Resumed ρ κ) : Prop where
  fitted : r.engine.Fitted x
  before : r.engine.Agree x y → e.Agree x y
  same : r.engine.Agree x y → again = { r with engine := r.engine.refit y }

theorem keeps_resumeAt (hf : e.Fitted x) (n : ℕ) :
    Keeps x y e ((e.refit y).resumeAt n) (e.resumeAt n) := by
  have h := follows_turn x y
  have hk := h.keeps e hf
  have hb := h.before e hf
  have hs := h.same e hf
  unfold resumeAt
  rw [show (e.refit y).sync.ended = e.sync.ended from rfl]
  cases e.sync.ended with
  | true => exact ⟨hf, id, fun _ => rfl⟩
  | false =>
    simp only [Bool.false_eq_true, if_false]
    rcases ht : e.turn with ⟨d, f | u⟩
    · rw [ht] at hk hb hs
      refine ⟨hk, hb, fun hA => ?_⟩
      rw [hs hA]
    · rw [ht] at hk hb hs
      refine ⟨hk, hb, fun hA => ?_⟩
      rw [hs hA]
      simp only [snapshot_refit]
      rfl

theorem keeps_resume (hf : e.Fitted x) (g : Progress) :
    Keeps x y e ((e.refit y).resume g) (e.resume g) := by
  cases g with
  | finished => exact ⟨hf, id, fun _ => rfl⟩
  | paused n => exact keeps_resumeAt hf n
  | fresh =>
    have h := follows_prime x y
    have hk := h.keeps e.begun hf
    have hb := h.before e.begun hf
    have hs := h.same e.begun hf
    unfold resume resumeFresh
    rw [show (e.refit y).sync.started = e.sync.started from rfl]
    cases e.sync.started with
    | true => exact ⟨hf, id, fun _ => rfl⟩
    | false =>
      simp only [Bool.false_eq_true, if_false]
      rw [show ({ e with sync := { e.sync with started := true } } : Engine ρ κ) = e.begun from rfl,
        show ({ e.refit y with sync := { (e.refit y).sync with started := true } } : Engine ρ κ) =
          e.begun.refit y from rfl]
      rcases ht : e.begun.prime with ⟨d, f | u⟩
      · rw [ht] at hk hb hs
        refine ⟨hk, hb, fun hA => ?_⟩
        rw [hs hA]
        rfl
      · rw [ht] at hk hb hs
        have ha := keeps_resumeAt (y := y) hk 0
        refine ⟨ha.fitted, fun hA => hb (ha.before hA), fun hA => ?_⟩
        rw [hs (ha.before hA)]
        dsimp only
        rw [ha.same hA]
        rfl

/-- **A run depends on what its pulls have brought and on nothing else.**  As long as the pulls
that it has made would have brought the same, the refitted engine goes through the same states and
hands the same steps to a visitor, and it fails in the same way. -/
theorem fold_refit {β : Type} (visit : β → Step ρ κ → Except Fault β) (hf : e.Fitted x)
    (budget : ℕ) (b : β) (g : Progress) :
    (fold visit budget b e g).engine.Fitted x ∧
      ((fold visit budget b e g).engine.Agree x y → e.Agree x y ∧
        fold visit budget b (e.refit y) g = { fold visit budget b e g with
          engine := (fold visit budget b e g).engine.refit y }) := by
  induction budget generalizing b e g with
  | zero => exact ⟨hf, fun hA => ⟨hA, rfl⟩⟩
  | succ budget ih =>
    have hr := keeps_resume (y := y) hf g
    simp only [fold]
    rcases ho : (e.resume g).outcome with f | _ | s
    · refine ⟨hr.fitted, fun hA => ⟨hr.before hA, ?_⟩⟩
      rw [hr.same hA, ho]
    · refine ⟨hr.fitted, fun hA => ⟨hr.before hA, ?_⟩⟩
      rw [hr.same hA, ho]
    · cases hv : visit b s with
      | error f =>
        simp only [hv]
        refine ⟨hr.fitted, fun hA => ⟨hr.before hA, ?_⟩⟩
        rw [hr.same hA, ho]
        simp only [hv]
      | ok c =>
        simp only [hv]
        obtain ⟨hfit, hsame⟩ := ih (b := c) hr.fitted (e.resume g).progress
        refine ⟨hfit, fun hA => ?_⟩
        obtain ⟨hA', heq⟩ := hsame hA
        refine ⟨hr.before hA', ?_⟩
        rw [hr.same hA', ho]
        simp only [hv, heq]

theorem drain_refit {budget : ℕ} {g : Progress} (hf : e.Fitted x)
    (hA : (e.drain budget g).engine.Agree x y) : (e.refit y).drain budget g =
      { e.drain budget g with engine := (e.drain budget g).engine.refit y } := by
  simp only [drain, ((fold_refit _ hf budget [] g).2 hA).2]

end Engine

end Lockstep
