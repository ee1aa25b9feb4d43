import Lockstep.Engine.Synchronization
import Lockstep.Proofs.Engine.Cascade

/-!
# The phases of a turn

Whatever the keys, the feeds and the gates are, reading and comparing leave the ruptures alone
(`readAll_ruptures`, `synchronizeAll_ruptures`).  So all that a turn does to the ruptures is the
cascade between the key of the step and the next one: this is `turn_eq_ok`, and `prime_eq_ok` says
that priming does nothing to them.

Whether they succeed or fail, priming and turning leave alone what is registered, that the
synchronization is started, and which sources there are (`prime_alike`, `turn_alike`).
-/

namespace Lockstep

variable {ρ κ : Type}

theorem Synchronization.ended_eq_true {y : Synchronization κ} :
    y.ended = true ↔ y.nextKey = some .done := by
  unfold ended
  split <;> simp_all

namespace Pool

theorem read_ruptures (i : ℕ) (p : Pool ρ κ) : (read i p).1.ruptures = p.ruptures := by
  unfold read
  split <;> rfl

theorem readAll_ruptures (is : List ℕ) (p : Pool ρ κ) : (readAll is p).1.ruptures = p.ruptures :=
  Action.forEach_induction (a := read) (motive := fun q => q.ruptures = p.ruptures)
    (fun i q h => (read_ruptures i q).trans h) rfl

variable [SyncKey κ]

theorem synchronize_ruptures (key : Frontier κ) (i : ℕ) (p : Pool ρ κ) :
    (synchronize key i p).1.ruptures = p.ruptures := by
  unfold synchronize
  split <;> rfl

theorem synchronizeAll_ruptures (key : Frontier κ) (is : List ℕ) (p : Pool ρ κ) :
    (synchronizeAll key is p).1.ruptures = p.ruptures :=
  Action.forEach_induction (a := synchronize key) (motive := fun q => q.ruptures = p.ruptures)
    (fun i q h => (synchronize_ruptures key i q).trans h) rfl

end Pool

namespace Engine

variable {e d : Engine ρ κ}

/-- An action on the pool that succeeds leaves the synchronization as it is. -/
theorem onPool_eq_ok {a : Action (Pool ρ κ)} (h : onPool a e = (d, .ok ())) :
    a e.pool = (d.pool, .ok ()) ∧ d.sync = e.sync := by
  obtain ⟨rfl, ho⟩ := Prod.mk.inj h
  exact ⟨Prod.ext rfl ho, rfl⟩

theorem readPhase_eq_ok (h : readPhase e = (d, .ok ())) :
    d.pool.ruptures = e.pool.ruptures ∧ d.sync = e.sync := by
  obtain ⟨hp, hs⟩ := onPool_eq_ok h
  refine ⟨?_, hs⟩
  rw [← Pool.readAll_ruptures e.sync.sources e.pool, hp]

variable [SyncKey κ]

/-- The next key has become current, and another one is the next key. -/
theorem keyPhase_eq_ok (h : keyPhase e = (d, .ok ())) : d.pool = e.pool ∧
    ∃ f, d.sync = { e.sync with currentKey := e.sync.nextKey, nextKey := some f } := by
  unfold keyPhase at h
  dsimp only at h
  split at h
  · rename_i f _
    cases h
    exact ⟨rfl, f, rfl⟩
  · cases h

theorem synchronizePhase_eq_ok (h : synchronizePhase e = (d, .ok ())) :
    d.pool.ruptures = e.pool.ruptures ∧ d.sync = e.sync := by
  obtain ⟨hp, hs⟩ := onPool_eq_ok h
  refine ⟨?_, hs⟩
  rw [← Pool.synchronizeAll_ruptures (e.sync.nextKey.getD .done) e.sync.sources e.pool, hp]

/-- Priming finds a first key and leaves the ruptures as they are. -/
theorem prime_eq_ok (h : e.prime = (d, .ok ())) : d.pool.ruptures = e.pool.ruptures ∧
    ∃ f, d.sync = { e.sync with currentKey := e.sync.nextKey, nextKey := some f } := by
  obtain ⟨a, hread, hkey⟩ := Action.andThen_eq_ok.1 h
  obtain ⟨hr, hs⟩ := readPhase_eq_ok hread
  obtain ⟨hp, f, hf⟩ := keyPhase_eq_ok hkey
  exact ⟨by rw [hp, hr], f, by rw [hf, hs]⟩

/-- A turn finds a next key and moves the ruptures on between the key of the step and this one. -/
theorem turn_eq_ok (h : e.turn = (d, .ok ())) : ∃ (p : Pool ρ κ) (f : Frontier κ),
    p.ruptures = e.pool.ruptures ∧
    d.sync = { e.sync with currentKey := e.sync.nextKey, nextKey := some f } ∧
    Pool.cascade (e.sync.nextKey.getD .done) f false e.sync.ruptures p = (d.pool, .ok ()) := by
  obtain ⟨a, hread, h⟩ := Action.andThen_eq_ok.1 h
  obtain ⟨b, hsync, h⟩ := Action.andThen_eq_ok.1 h
  obtain ⟨c, hkey, hrup⟩ := Action.andThen_eq_ok.1 h
  obtain ⟨hra, hsa⟩ := readPhase_eq_ok hread
  obtain ⟨hrb, hsb⟩ := synchronizePhase_eq_ok hsync
  obtain ⟨hpc, f, hf⟩ := keyPhase_eq_ok hkey
  obtain ⟨hcas, hsd⟩ := onPool_eq_ok hrup
  rw [hsb, hsa] at hf
  refine ⟨c.pool, f, by rw [hpc, hrb, hra], hsd.trans hf, ?_⟩
  rw [hf] at hcas
  exact hcas

/-! ### What no action changes -/

/-- The engines have the same sources and ruptures registered, are both started or both not, and
have as many sources. -/
structure Alike (d e : Engine ρ κ) : Prop where
  sources : d.sync.sources = e.sync.sources
  ruptures : d.sync.ruptures = e.sync.ruptures
  started : d.sync.started = e.sync.started
  length : d.pool.sources.length = e.pool.sources.length

omit [SyncKey κ] in
theorem Alike.trans {c : Engine ρ κ} (h : Alike c d) (h' : Alike d e) : Alike c e :=
  ⟨h.sources.trans h'.sources, h.ruptures.trans h'.ruptures, h.started.trans h'.started,
    h.length.trans h'.length⟩

omit [SyncKey κ] in
theorem andThen_alike {a b : Action (Engine ρ κ)} (ha : ∀ e, Alike (a e).1 e)
    (hb : ∀ e, Alike (b e).1 e) (e : Engine ρ κ) : Alike (Action.andThen a b e).1 e := by
  have h := ha e
  rcases hr : a e with ⟨d, f | u⟩
  · rw [hr] at h
    rwa [Action.andThen_of_error hr]
  · rw [hr] at h
    rw [Action.andThen_of_ok hr]
    exact (hb d).trans h

omit [SyncKey κ] in
theorem onPool_alike {a : Action (Pool ρ κ)}
    (ha : ∀ p, (a p).1.sources.length = p.sources.length) (e : Engine ρ κ) :
    Alike (onPool a e).1 e := ⟨rfl, rfl, rfl, ha e.pool⟩

omit [SyncKey κ] in
theorem readPhase_alike (e : Engine ρ κ) : Alike (readPhase e).1 e := by
  refine onPool_alike (fun p => ?_) e
  refine Action.forEach_induction (a := Pool.read)
    (motive := fun q => q.sources.length = p.sources.length) (fun i q h => ?_) rfl
  rw [← h]
  unfold Pool.read
  split <;> simp [Pool.setSource]

theorem synchronizePhase_alike (e : Engine ρ κ) : Alike (synchronizePhase e).1 e := by
  refine onPool_alike (fun p => ?_) e
  refine Action.forEach_induction (a := Pool.synchronize _)
    (motive := fun q => q.sources.length = p.sources.length) (fun i q h => ?_) rfl
  rw [← h]
  unfold Pool.synchronize
  split <;> simp [Pool.setSource]

theorem keyPhase_alike (e : Engine ρ κ) : Alike (keyPhase e).1 e := by
  unfold keyPhase
  dsimp only
  split <;> exact ⟨rfl, rfl, rfl, rfl⟩

theorem rupturePhase_alike (e : Engine ρ κ) : Alike (rupturePhase e).1 e :=
  onPool_alike (fun _ => by rw [Pool.cascade_sources]) e

theorem prime_alike (e : Engine ρ κ) : Alike e.prime.1 e :=
  andThen_alike readPhase_alike keyPhase_alike e

theorem turn_alike (e : Engine ρ κ) : Alike e.turn.1 e :=
  andThen_alike readPhase_alike
    (andThen_alike synchronizePhase_alike (andThen_alike keyPhase_alike rupturePhase_alike)) e

end Engine

end Lockstep
