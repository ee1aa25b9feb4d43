import Mathlib.Data.Nat.Bitwise
import Lockstep.Proofs.Engine.Each
import Lockstep.Proofs.Engine.Visit

/-!
# The mask of a step

A step remembers in one number which sources are held back.  The number is gathered bit by bit from
as many flags as there are registered sources (`gather_eq_maskOf`), so it has no bits beyond them,
and a bit is clear exactly if the number has nothing in common with the power of two at its place
(`Step.isSynchronized_iff`).

The flags are those of the comparison with the key of the step: after a turn the flag of a
registered source tells whether its current key agrees with this key (`Engine.turn_told`), also if
it is registered more than once.  So the mask of a step is what the sources are at this step
(`Step.Mirrors`), in whatever state the run was resumed.  This is `drain_mirrors`.
-/

namespace Lockstep

/-! ### Gathering bits -/

/-- The number with the bit of every flag that is set besides the bits of `mask`, the first flag
being bit `n`. -/
def gather (mask n : ℕ) : List Bool → ℕ
  | [] => mask
  | b :: bs => gather (if b then mask ||| 1 <<< n else mask) (n + 1) bs

theorem testBit_gather (mask n : ℕ) (bs : List Bool) (i : ℕ) :
    (gather mask n bs).testBit i =
      (mask.testBit i || (decide (n ≤ i) && bs.getD (i - n) false)) := by
  induction bs generalizing mask n with
  | nil => simp [gather]
  | cons b bs ih =>
    have hbit : (if b then mask ||| 1 <<< n else mask).testBit i =
        (mask.testBit i || (decide (n = i) && b)) := by
      cases b <;> simp [Nat.testBit_or, Nat.one_shiftLeft, Nat.testBit_two_pow]
    rw [gather, ih, hbit, Bool.or_assoc]
    congr 1
    -- the flag in front is at its place, and the others are one place further
    rcases lt_trichotomy n i with hn | rfl | hn
    · obtain ⟨m, rfl⟩ := Nat.exists_eq_add_of_lt hn
      simp [show n + m + 1 - n = m + 1 by omega, show n + m + 1 - (n + 1) = m by omega,
        show n ≤ n + m + 1 by omega, show n ≠ n + m + 1 by omega]
    · simp
    · simp [hn.ne', show ¬ n ≤ i by omega, show ¬ n + 1 ≤ i by omega]

/-- Gathering flags one after the other gives their mask. -/
theorem gather_eq_maskOf (bs : List Bool) : gather 0 0 bs = maskOf bs :=
  Nat.eq_of_testBit_eq fun i => by simp [testBit_gather, testBit_maskOf]

/-- A mask has no bits beyond the flags. -/
theorem maskOf_lt (bs : List Bool) : maskOf bs < 2 ^ bs.length :=
  Nat.lt_pow_two_of_testBit _ fun i hi => by simp [testBit_maskOf, hi]

theorem Step.isSynchronized_iff {ρ κ : Type} {t : Step ρ κ} {i : ℕ} :
    t.isSynchronized i = true ↔ t.desync &&& 1 <<< i = 0 := by
  rw [Nat.one_shiftLeft, Nat.and_two_pow]
  cases h : t.desync.testBit i <;> simp [Step.isSynchronized, h]

/-! ### What the flags tell -/

variable {ρ κ : Type} [SyncKey κ]

namespace Source

variable {s : Source ρ κ} {key : Frontier κ}

/-- A comparison that succeeds leaves the flag that it has found. -/
theorem agree_synchronize (h : (s.synchronize key).2 = .ok ()) :
    (s.synchronize key).1.currentKey.agree key = .ok (s.synchronize key).1.synchronized := by
  unfold synchronize at h ⊢
  split
  · next b hb => exact hb
  · next f hf => simp [hf] at h

theorem synchronize_of_agree (h : s.currentKey.agree key = .ok s.synchronized) :
    s.synchronize key = (s, .ok ()) := by
  simp [synchronize, h]

end Source

namespace Pool

variable {key : Frontier κ} {i j : ℕ} {is : List ℕ} {p q : Pool ρ κ}

/-- The flag of the source with this number tells whether its current key agrees with `key`. -/
def Told (p : Pool ρ κ) (key : Frontier κ) (i : ℕ) : Prop :=
  ∀ s, p.sources[i]? = some s → s.currentKey.agree key = .ok s.synchronized

theorem told_synchronize_self (h : (synchronize key i p).2 = .ok ()) :
    (synchronize key i p).1.Told key i := by
  rw [synchronize_eq_onSource] at h ⊢
  intro t ht
  rw [onSource_self] at ht
  obtain ⟨s, hs, rfl⟩ := Option.map_eq_some_iff.1 ht
  rw [onSource_outcome, hs] at h
  exact Source.agree_synchronize h

/-- Comparing any source once more leaves a flag that has been told. -/
theorem Told.synchronize (h : p.Told key j) : (synchronize key i p).1.Told key j := by
  rw [synchronize_eq_onSource]
  intro t ht
  rw [getElem?_onSource] at ht
  split at ht
  · obtain ⟨s, hs, rfl⟩ := Option.map_eq_some_iff.1 ht
    rw [Source.synchronize_of_agree (h s hs)]
    exact h s hs
  · exact h t ht

theorem synchronizeAll_told (h : synchronizeAll key is p = (q, .ok ())) :
    ∀ i ∈ is, q.Told key i := by
  induction is generalizing p with
  | nil => simp
  | cons i is ih =>
    obtain ⟨u, hu, hq⟩ := Action.forEach_cons_eq_ok.1 h
    refine List.forall_mem_cons.2 ⟨?_, ih hq⟩
    have hi : u.Told key i := by
      have hself : (Pool.synchronize key i p).1.Told key i := told_synchronize_self (by rw [hu])
      rwa [hu] at hself
    have hkept : (Action.forEach (Pool.synchronize key) is u).1.Told key i :=
      Action.forEach_induction (motive := fun p : Pool ρ κ => p.Told key i)
        (fun _ _ h => h.synchronize) hi
    rwa [hq] at hkept

end Pool

/-- The mask of the step mirrors the `n` sources of the engine: bit `i` is gathered from the flag of
source `i`, there are no bits beyond, and the flag tells whether the current key of the source
agrees with the key of the step. -/
structure Step.Mirrors (t : Step ρ κ) (d : Engine ρ κ) (n : ℕ) : Prop where
  gathered : t.desync = gather 0 0 (d.pool.held d.sync.sources)
  desync_lt : t.desync < 2 ^ n
  reads : ∀ i, t.isSynchronized i = true ↔ t.desync &&& 1 <<< i = 0
  agrees : ∀ i < n, ∃ s, d.source i = some s ∧ s.currentKey.agree t.key = .ok (t.isSynchronized i)
  beyond : ∀ i ≥ n, t.isSynchronized i = true
  all_iff : t.allSynchronized = true ↔ ∀ i < n, t.isSynchronized i = true

namespace Engine

variable {e d : Engine ρ κ} {g : Progress} {t : Step ρ κ}

/-- After a turn the flags of the registered sources tell whether their keys agree with its key. -/
theorem turn_told (h : e.turn = (d, .ok ())) :
    ∀ i ∈ e.sync.sources, d.pool.Told (d.sync.currentKey.getD .done) i := by
  obtain ⟨a, hread, h⟩ := Action.andThen_eq_ok.1 h
  obtain ⟨b, hsync, h⟩ := Action.andThen_eq_ok.1 h
  obtain ⟨c, hkey, hrup⟩ := Action.andThen_eq_ok.1 h
  obtain ⟨-, hsa⟩ := readPhase_eq_ok hread
  obtain ⟨hpb, hsb⟩ := onPool_eq_ok hsync
  obtain ⟨hpc, f, hsc⟩ := keyPhase_eq_ok hkey
  obtain ⟨hpd, hsd⟩ := onPool_eq_ok hrup
  have hpool : d.pool.sources = b.pool.sources := by
    rw [← hpc, show d.pool = _ from (congrArg Prod.fst hpd).symm, Pool.cascade_sources]
  have hcur : d.sync.currentKey = a.sync.nextKey := by rw [hsd, hsc, hsb]
  intro i hi s hs
  rw [hcur]
  exact Pool.synchronizeAll_told hpb i (hsa ▸ hi) s (hpool ▸ hs)

/-- A step that was made by a turn mirrors the registered sources. -/
theorem Makes.mirrors (h : e.Makes t d) (hlt : ∀ i ∈ e.sync.sources, i < d.pool.sources.length) :
    t.Mirrors d e.sync.sources.length := by
  obtain ⟨c, hturn, hsources, -, -, ht⟩ := h
  have hd : d.sync.sources = e.sync.sources := by
    have hsame := (turn_alike c).sources
    rw [hturn] at hsame
    exact hsame.trans hsources
  have hmask : t.desync = maskOf (d.pool.held d.sync.sources) := by rw [ht]; rfl
  have hlen : (d.pool.held d.sync.sources).length = e.sync.sources.length := by
    rw [Pool.held, List.length_map, hd]
  have hbit : ∀ i, t.isSynchronized i = !(d.pool.held d.sync.sources).getD i false := by
    intro i
    rw [Step.isSynchronized, hmask, testBit_maskOf]
  refine ⟨hmask.trans (gather_eq_maskOf _).symm, ?_, fun i => Step.isSynchronized_iff, ?_, ?_, ?_⟩
  · rw [hmask, ← hlen]
    exact maskOf_lt _
  · intro i hi
    obtain ⟨k, hk⟩ : ∃ k, e.sync.sources[i]? = some k := ⟨_, List.getElem?_eq_getElem hi⟩
    have hmem := List.mem_of_getElem? hk
    obtain ⟨s, hs⟩ : ∃ s, d.pool.sources[k]? = some s := ⟨_, List.getElem?_eq_getElem (hlt k hmem)⟩
    have hflag : t.isSynchronized i = s.synchronized := by
      rw [hbit, hd, Pool.held, List.getD_eq_getElem?_getD, List.getElem?_map, hk]
      simp [hs]
    refine ⟨s, by rw [source, hd, hk, Option.bind_some, hs], ?_⟩
    rw [hflag, ht]
    exact turn_told hturn k (by rwa [hsources]) s hs
  · intro i hi
    rw [hbit, List.getD_eq_getElem?_getD, List.getElem?_eq_none (hlen.trans_le hi)]
    rfl
  · rw [Step.allSynchronized_iff hmask, hlen]

/-- **The mask of a step mirrors the sources.**  Let a run be resumed in whatever state, over any
registered sources, also repeated ones.  Then the mask of each step that it gives has a bit for each
registered source and none beyond, and the bit is clear exactly if the current key that the source
has at this step agrees with the key of the step; so all sources are synchronized exactly if each
is. -/
theorem drain_mirrors (hlt : ∀ i ∈ e.sync.sources, i < e.pool.sources.length) (g : Progress)
    (budget : ℕ) : ∀ (n : ℕ) (t : Step ρ κ), (e.drain budget g).result[n]? = some t →
      t.Mirrors (e.drain (n + 1) g).engine e.sync.sources.length := by
  intro n t ht
  have hsources : (e.drain n g).engine.sync.sources = e.sync.sources :=
    (fold_registered collect n [] e g).1
  have hlen : (e.drain (n + 1) g).engine.pool.sources.length = e.pool.sources.length :=
    fold_sources_length collect (n + 1) [] e g
  rw [← hsources]
  refine (makes_drain ht).mirrors fun i hi => ?_
  rw [hlen]
  exact hlt i (hsources ▸ hi)

/-- A list out of order that is registered twice, behind one that is gated: at the third step the
gated list is exhausted, and at the fourth one no source has the key of the step. -/
theorem drain_mirrors_repeated :
    let ss : List (Supply Text) := [.ofList [['b'], ['a'], ['c'], ['d']] id none,
      .ofList [['a'], ['b']] id (some 0), .ofList [['b'], ['e']] id none]
    let l := ofLists ss [.fresh ['g'] (Rupture.leading 1)]
    let e : Engine Text Text := { l with sync := { l.sync with sources := [1, 0, 2, 0] } }
    (∀ i ∈ e.sync.sources, i < e.pool.sources.length) ∧
      (e.drain 12 .fresh).result.map (·.desync) = [14, 10, 5, 15, 11] ∧
      ∃ t, (e.drain 12 .fresh).result[2]? = some t ∧ t.desync = 5 ∧
        t.Mirrors (e.drain 3 .fresh).engine 4 := by
  intro ss l e
  have hlt : ∀ i ∈ e.sync.sources, i < e.pool.sources.length := by decide
  have hmask : (e.drain 12 .fresh).result.map (·.desync) = [14, 10, 5, 15, 11] := by
    decide +kernel
  have hthird : ((e.drain 12 .fresh).result.map (·.desync))[2]? = some 5 := by rw [hmask]; rfl
  rw [List.getElem?_map] at hthird
  obtain ⟨t, ht, hdesync⟩ := Option.map_eq_some_iff.1 hthird
  exact ⟨hlt, hmask, t, ht, hdesync, drain_mirrors hlt .fresh 12 2 t ht⟩

end Engine

end Lockstep
