import Mathlib.Data.List.FinRange
import Lockstep.Proofs.Engine.Each
import Lockstep.Proofs.Engine.Tandem

/-!
# The order of the sources does not matter

Registering the same sources in another order, with the ruptures in the order they had, makes the
same run: as many steps, with the same keys and edges, and with their rows and masks rearranged as
the sources are (`drain_permuted`).

Between two steps the two engines differ in nothing but the order of registration
(`after_inOrder`).  Reading and comparing do the same to the pool in every order, because the
sources are distinct; the least candidate is that of the rearranged candidates; and the ruptures do
not see the sources at all.
-/

namespace Lockstep

variable {ρ κ : Type}

theorem Frontier.lowest_perm [LinearOrder κ] {fs gs : List (Frontier κ)} (h : fs.Perm gs) :
    lowest fs = lowest gs := by
  have hle : ∀ a, a ≤ lowest fs ↔ a ≤ lowest gs := by
    intro a
    rw [le_lowest_iff, le_lowest_iff]
    exact forall_congr' fun f => by rw [h.mem_iff]
  exact le_antisymm ((hle _).1 le_rfl) ((hle _).2 le_rfl)

/-- Where no single action fails, all of them together do not. -/
theorem Action.forEach_ok {σ ι : Type} {a : ι → Action σ} (h : ∀ i s, (a i s).2 = .ok ())
    (is : List ι) (s : σ) : (forEach a is s).2 = .ok () := by
  induction is generalizing s with
  | nil => rfl
  | cons i is ih =>
    have hi : a i s = ((a i s).1, .ok ()) := Prod.ext rfl (h i s)
    rw [forEach, andThen_of_ok hi]
    exact ih _

/-- Comparing texts does not fail. -/
theorem Pool.synchronizeAll_ok (key : Frontier Text) (is : List ℕ) (p : Pool ρ Text) :
    (synchronizeAll key is p).2 = .ok () := by
  refine Action.forEach_ok (fun i q => ?_) is p
  unfold synchronize
  split
  · rfl
  · simp [Source.synchronize, Frontier.agree_eq]

/-- The step with its sources in another order: source `i` is the one that was number `p i`. -/
def Step.permuted {n : ℕ} (p : Equiv.Perm (Fin n)) (t : Step ρ κ) : Step ρ κ :=
  { t with
    desync := maskOf (List.ofFn fun i => !t.isSynchronized (p i))
    row := List.ofFn fun i => (t.row[(p i).val]?).getD none }

namespace Engine

/-- The engine with its sources registered in this order. -/
def inOrder (e : Engine ρ κ) (is : List ℕ) : Engine ρ κ :=
  { e with sync := { e.sync with sources := is } }

/-- The engine with its sources registered in another order: source `i` is the one that was
number `p i`. -/
def permuted (e : Engine ρ κ) (p : Equiv.Perm (Fin e.sync.sources.length)) : Engine ρ κ :=
  e.inOrder (List.ofFn fun i => e.sync.sources.get (p i))

section Phases

variable {e d : Engine ρ κ} {is : List ℕ} (hp : e.sync.sources.Perm is)

include hp

theorem candidates_inOrder : e.candidates.Perm (e.inOrder is).candidates :=
  hp.filterMap fun i => (e.pool.sources[i]?).map Source.candidate

variable (hn : e.sync.sources.Nodup)

include hn

theorem readPhase_inOrder (h : readPhase e = (d, .ok ())) :
    readPhase (e.inOrder is) = (d.inOrder is, .ok ()) := by
  obtain ⟨hr, hs⟩ := onPool_eq_ok h
  rw [Pool.readAll, Pool.read_eq_onSource] at hr
  have hr' := Pool.forEach_onSource_perm hp hn hr
  rw [← Pool.read_eq_onSource] at hr'
  simp [readPhase, onPool, inOrder, Pool.readAll, hr', hs]

theorem synchronizePhase_inOrder [SyncKey κ] (h : synchronizePhase e = (d, .ok ())) :
    synchronizePhase (e.inOrder is) = (d.inOrder is, .ok ()) := by
  obtain ⟨hr, hs⟩ := onPool_eq_ok h
  rw [Pool.synchronizeAll, Pool.synchronize_eq_onSource] at hr
  have hr' := Pool.forEach_onSource_perm hp hn hr
  rw [← Pool.synchronize_eq_onSource] at hr'
  simp [synchronizePhase, onPool, inOrder, Pool.synchronizeAll, hr', hs]

end Phases

section Text

variable {e d : Engine ρ Text} {is : List ℕ}

theorem keyPhase_inOrder (hp : e.sync.sources.Perm is) :
    keyPhase (e.inOrder is) = ((keyPhase e).1.inOrder is, (keyPhase e).2) := by
  have hl := Frontier.lowest_perm (candidates_inOrder hp)
  simp only [keyPhase, Frontier.leastOf_eq, hl]
  rfl

/-- Comparing the sources with the key of a step leaves which they are. -/
theorem exists_synchronizePhase (e : Engine ρ Text) :
    ∃ d, synchronizePhase e = (d, .ok ()) ∧ d.sync = e.sync :=
  ⟨_, Prod.ext rfl (Pool.synchronizeAll_ok _ _ _), rfl⟩

section Turn

variable (hp : e.sync.sources.Perm is) (hn : e.sync.sources.Nodup)
  (hr : readPhase e = (d, .ok ()))

include hp hn hr

theorem prime_inOrder : (e.inOrder is).prime = (e.prime.1.inOrder is, e.prime.2) := by
  have hs := (readPhase_eq_ok hr).2
  rw [prime, Action.andThen_of_ok (readPhase_inOrder hp hn hr), Action.andThen_of_ok hr]
  exact keyPhase_inOrder (hs ▸ hp)

/-- A turn that can read its sources does the same in every order. -/
theorem turn_inOrder : (e.inOrder is).turn = (e.turn.1.inOrder is, e.turn.2) := by
  have hs := (readPhase_eq_ok hr).2
  obtain ⟨c, hc, hsc⟩ := exists_synchronizePhase d
  have hc' := synchronizePhase_inOrder (hs ▸ hp) (hs ▸ hn) hc
  have hkey : keyPhase (c.inOrder is) = ((keyPhase c).1.inOrder is, (keyPhase c).2) :=
    keyPhase_inOrder (hsc.symm ▸ hs.symm ▸ hp)
  rw [turn, Action.andThen_of_ok hr, Action.andThen_of_ok hc,
    Action.andThen_of_ok (readPhase_inOrder hp hn hr), Action.andThen_of_ok hc']
  unfold Action.andThen
  rw [hkey]
  rcases keyPhase c with ⟨b, f | u⟩
  · rfl
  · rfl

end Turn

variable {ss : List (Supply ρ)} {ls : List (Lane ρ)}

theorem Prepared.exists_readPhase (h : e.Prepared ss) (ho : ∀ s ∈ ss, e.opens s.gate = true) :
    ∃ d, readPhase e.begun = (d, .ok ()) := by
  obtain ⟨p, hp, -, -⟩ := Pool.readAll_supplies h.sources_nodup h.sources ho
  exact ⟨{ e.begun with pool := p }, by simp [readPhase, onPool, begun, hp]⟩

theorem Stages.exists_readPhase (h : e.Stages ls) : ∃ d, readPhase e = (d, .ok ()) := by
  obtain ⟨p, hp, -, -⟩ := Pool.readAll_lanes h.sources_nodup h.sources
  exact ⟨{ e with pool := p }, by simp [readPhase, onPool, hp]⟩

section Run

variable (h : e.Prepared ss) (ho : ∀ s ∈ ss, e.opens s.gate = true)
  (hp : e.sync.sources.Perm is)

include h ho hp

theorem Prepared.prime_inOrder :
    (e.inOrder is).begun.prime = (e.begun.prime.1.inOrder is, e.begun.prime.2) := by
  obtain ⟨d, hd⟩ := h.exists_readPhase ho
  exact Engine.prime_inOrder (e := e.begun) hp h.sources_nodup hd

theorem Prepared.turn_inOrder {n : ℕ} (hd : e.after n = some d) :
    (d.inOrder is).turn = (d.turn.1.inOrder is, d.turn.2) := by
  obtain ⟨ls, hs, -⟩ := h.after_induction ho (motive := fun _ _ _ => True)
    (fun _ _ _ => trivial) (fun _ _ _ _ _ _ _ _ _ _ _ _ _ => trivial) hd
  obtain ⟨c, hc⟩ := hs.exists_readPhase
  exact Engine.turn_inOrder ((after_registered hd).1 ▸ hp) hs.sources_nodup hc

/-- After every step the two engines differ in nothing but the order of their sources. -/
theorem Prepared.after_inOrder (n : ℕ) :
    (e.inOrder is).after n = (e.after n).map (·.inOrder is) := by
  induction n with
  | zero =>
    simp only [after, h.prime_inOrder ho hp]
    rcases e.begun.prime with ⟨d, f | u⟩
    · rfl
    · rfl
  | succ n ih =>
    rw [after, ih, after]
    cases hd : e.after n with
    | none => rfl
    | some d =>
      have ht := h.turn_inOrder ho hp hd
      show (d.inOrder is).stepped = d.stepped.map (·.inOrder is)
      unfold stepped
      rw [ht, show (d.inOrder is).sync.ended = d.sync.ended from rfl]
      cases d.sync.ended with
      | true => rfl
      | false => rcases d.turn with ⟨c, f | u⟩ <;> rfl

theorem Prepared.stops_inOrder {n : ℕ} {o : Except Fault Unit} (hs : e.Stops n d o) :
    (e.inOrder is).Stops n (d.inOrder is) o := by
  have hafter := h.after_inOrder ho hp
  cases hs with
  | unprimed he =>
    refine .unprimed ?_
    rw [h.prime_inOrder ho hp, he]
  | finished hd he =>
    refine .finished ?_ he
    rw [hafter, hd, Option.map_some]
  | @failed _ c _ f hd he ht =>
    refine .failed (d := c.inOrder is) ?_ he ?_
    · rw [hafter, hd, Option.map_some]
    · rw [h.turn_inOrder ho hp hd, ht]

end Run

end Text

/-! ### Permutations -/

theorem perm_permuted (e : Engine ρ κ) (p : Equiv.Perm (Fin e.sync.sources.length)) :
    e.sync.sources.Perm (e.permuted p).sync.sources := by
  have h := p.ofFn_comp_perm e.sync.sources.get
  rw [List.ofFn_get] at h
  exact h.symm

theorem snapshot_permuted {e d : Engine ρ κ} (p : Equiv.Perm (Fin e.sync.sources.length))
    (hd : d.sync.sources = e.sync.sources) (n : ℕ) :
    (d.inOrder (e.permuted p).sync.sources).snapshot n = (d.snapshot n).permuted p := by
  -- what is shown of source `i` is what was shown of number `p i`
  have hget : ∀ {α : Type} (f : ℕ → α) (i : Fin e.sync.sources.length),
      (d.sync.sources.map f)[(p i).val]? = some (f (e.sync.sources.get (p i))) := by
    intro α f i
    simp [hd]
  have hrow : d.pool.row (e.permuted p).sync.sources =
      List.ofFn fun i => ((d.snapshot n).row[(p i).val]?).getD none := by
    simp only [snapshot, Pool.row, hget, permuted, inOrder, List.map_ofFn, Option.getD_some]
    rfl
  have hheld : d.pool.held (e.permuted p).sync.sources =
      List.ofFn fun i => !(d.snapshot n).isSynchronized (p i) := by
    simp only [snapshot, Step.isSynchronized, testBit_maskOf, List.getD_eq_getElem?_getD, Pool.held,
      hget, permuted, inOrder, List.map_ofFn, Option.getD_some, Bool.not_not]
    rfl
  simp only [snapshot, inOrder, hrow, hheld, Step.permuted]

section Text

variable {e : Engine ρ Text} {ss : List (Supply ρ)}

theorem Prepared.tandem_permuted (h : e.Prepared ss) (ho : ∀ s ∈ ss, e.opens s.gate = true)
    (p : Equiv.Perm (Fin e.sync.sources.length)) :
    e.Tandem (e.permuted p) (·.inOrder (e.permuted p).sync.sources) (·.permuted p) where
  unstarted := h.unstarted
  unstarted' := h.unstarted
  after := h.after_inOrder ho (e.perm_permuted p)
  stops := fun _ _ _ hs => h.stops_inOrder ho (e.perm_permuted p) hs
  snapshot := fun n _ hd => snapshot_permuted p (after_registered hd).1 n

/-- **The order of registration of the sources does not matter.**  The run over the same sources in
another order, with the same ruptures, makes the same steps with their rows and masks rearranged,
and it comes to the same end. -/
theorem drain_permuted (h : e.Prepared ss) (hg : e.Gated ss)
    (p : Equiv.Perm (Fin e.sync.sources.length)) (budget : ℕ) :
    let r := e.drain budget .fresh
    let r' := (e.permuted p).drain budget .fresh
    r'.result = r.result.map (Step.permuted p) ∧ r'.ended = r.ended ∧ r'.outcome = r.outcome ∧
      ((e.permuted p).Completes ↔ e.Completes) := by
  intro r r'
  have ht := h.tandem_permuted hg.opens p
  obtain ⟨hended, hok⟩ := ht.drain_end budget
  refine ⟨ht.drain_result budget, hended, hok, exists_congr fun b => ?_⟩
  rw [(ht.drain_end b).1, (ht.drain_end b).2]

/-- Two lists and a master list, one of them out of order, registered the other way round. -/
theorem drain_permuted_reversed :
    let ss : List (Supply Text) := [.ofList [['b', '1'], ['a', '2']] id none,
      .ofList [['a', '2'], ['b', '3']] id none, .ofList [['a'], ['b']] id (some 0)]
    let e := ofLists ss [.fresh ['g'] (Rupture.leading 1)]
    let p : Equiv.Perm (Fin e.sync.sources.length) := Fin.revPerm
    e.Prepared ss ∧ e.Gated ss ∧ ((e.permuted p).drain 10 .fresh).result =
      (e.drain 10 .fresh).result.map (Step.permuted p) ∧
      ((e.permuted p).drain 10 .fresh).ended = true ∧ (e.drain 10 .fresh).result.length = 3 := by
  intro ss e p
  have hp : e.Prepared ss := prepared_ofLists ss _
  have hg : e.Gated ss := by
    refine gated_ofLists ?_ ?_
    · simp [ss, Supply.ofList]
    · simp
  obtain ⟨hres, hended, -, -⟩ := drain_permuted hp hg p 10
  exact ⟨hp, hg, hres, hended.trans (by decide +kernel), by decide +kernel⟩

end Text

end Engine

end Lockstep
