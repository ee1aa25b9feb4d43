import Lockstep.Engine.Synchronization
import Lockstep.Proofs.Engine.Lane
import Lockstep.Proofs.Engine.Phase

/-!
# What a turn does

`Engine.Prepared` says of an engine that nothing has happened to it: what is registered are
distinct sources and ruptures, and the sources are fresh.  `Engine.Stages` says that its registered
sources are lanes, and that the key of the next step is their `frontier`, the least of their
candidates.

* `prime_stages`: priming a prepared engine with open gates stages the primed lanes.
* `turn_stages`: a turn with key `k` stages the lanes turned by `k`, makes `k` the current key, and
  leaves the ruptures to the cascade; it fails only with a fault of an extractor
  (`turn_error`).
-/

namespace Lockstep

namespace Pool

variable {ρ κ : Type}

/-- Whether a gate is open: the last step of its rupture closed a group. -/
def opens (rs : List (Rupture κ)) : Option ℕ → Bool
  | none => true
  | some j => (rs[j]?).elim true (·.last)

theorem gateOpen_eq (p : Pool ρ κ) (s : Source ρ κ) : p.gateOpen s = opens p.ruptures s.gate := by
  unfold gateOpen opens
  cases s.gate with
  | none => rfl
  | some j => cases h : p.ruptures[j]? <;> simp [h]

/-- The sources with the numbers `is` are `xs`. -/
def Holds (p : Pool ρ κ) (is : List ℕ) (xs : List (Source ρ κ)) : Prop :=
  is.map (p.sources[·]?) = xs.map some

theorem Holds.get {p : Pool ρ κ} {is : List ℕ} {xs : List (Source ρ κ)} (h : p.Holds is xs)
    (n : ℕ) : (is[n]?).bind (p.sources[·]?) = xs[n]? := by
  have hn := congrArg (·[n]?) h
  simp only [List.getElem?_map] at hn
  cases hi : is[n]? <;> cases hx : xs[n]? <;> simp_all

/-- An action for each of several distinct sources changes each of them once. -/
theorem forEach_sources {α : Type} {before : α → Source ρ κ} (after : α → Source ρ κ)
    (act : ℕ → Action (Pool ρ κ)) {is : List ℕ} {as : List α} {p : Pool ρ κ} (hn : is.Nodup)
    (hp : p.Holds is (as.map before))
    (hact : ∀ q i, ∀ a ∈ as, q.ruptures = p.ruptures → q.sources[i]? = some (before a) →
      act i q = (q.setSource i (after a), .ok ())) :
    ∃ q, Action.forEach act is p = (q, .ok ()) ∧ q.ruptures = p.ruptures ∧
      q.Holds is (as.map after) ∧ ∀ i ∉ is, q.sources[i]? = p.sources[i]? := by
  induction is generalizing p as with
  | nil =>
    obtain rfl : as = [] := by simpa [Holds] using hp.symm
    exact ⟨p, rfl, rfl, rfl, fun _ _ => rfl⟩
  | cons i is ih =>
    obtain ⟨hi, hn⟩ := List.nodup_cons.1 hn
    cases as with
    | nil => simp [Holds] at hp
    | cons a as =>
      obtain ⟨ha, has⟩ := List.cons.inj hp
      have hlt : i < p.sources.length := (List.getElem?_eq_some_iff.1 ha).1
      have hother : ∀ n, n ≠ i → (p.setSource i (after a)).sources[n]? = p.sources[n]? :=
        fun n h => List.getElem?_set_ne h.symm
      have hp' : (p.setSource i (after a)).Holds is (as.map before) := by
        refine Eq.trans (List.map_congr_left fun n hmem => hother n ?_) has
        rintro rfl
        exact hi hmem
      obtain ⟨q, hq, hr, hh, hf⟩ :=
        ih hn hp' fun q n b hb => hact q n b (List.mem_cons_of_mem a hb)
      refine ⟨q, ?_, hr, ?_, ?_⟩
      · rw [Action.forEach, Action.andThen_of_ok (hact p i a List.mem_cons_self rfl ha), hq]
      · have hqi : q.sources[i]? = some (after a) := by
          rw [hf i hi]
          exact List.getElem?_set_self hlt
        exact congrArg₂ List.cons hqi hh
      · intro n hmem
        obtain ⟨hne, hmem⟩ := not_or.1 (mt List.mem_cons.2 hmem)
        rw [hf n hmem, hother n hne]

section Text

variable {is : List ℕ} {p : Pool ρ Text}

theorem readAll_supplies {ss : List (Supply ρ)} (hn : is.Nodup)
    (hp : p.Holds is (ss.map Supply.fresh)) (ho : ∀ s ∈ ss, opens p.ruptures s.gate = true) :
    ∃ q, readAll is p = (q, .ok ()) ∧ q.ruptures = p.ruptures ∧
      q.Holds is (ss.map fun s => s.source 0 true) := by
  obtain ⟨q, hq, hr, hh, -⟩ := forEach_sources (fun s => s.source 0 true) read hn hp (by
      intro q i s hs hqr hqi
      have hgate : q.gateOpen s.fresh = true := by
        rw [gateOpen_eq, hqr]
        exact ho s hs
      simp only [read, hqi, hgate, s.read_fresh])
  exact ⟨q, hq, hr, hh⟩

variable {ls : List (Lane ρ)}

theorem readAll_lanes (hn : is.Nodup) (hp : p.Holds is (ls.map Lane.source)) :
    ∃ q, readAll is p = (q, .ok ()) ∧ q.ruptures = p.ruptures ∧
      q.Holds is (ls.map fun l =>
        l.toSupply.source (l.advance (opens p.ruptures)) l.synchronized) := by
  obtain ⟨q, hq, hr, hh, -⟩ := forEach_sources
    (fun l => l.toSupply.source (l.advance (opens p.ruptures)) l.synchronized) read hn hp (by
      intro q i l _ hqr hqi
      have hgate : q.gateOpen l.source = opens p.ruptures l.gate := by
        rw [gateOpen_eq, hqr]
        rfl
      simp only [read, hqi, hgate, l.read_source])
  exact ⟨q, hq, hr, hh⟩

theorem synchronizeAll_lanes {k : Text} {isOpen : Option ℕ → Bool} (hn : is.Nodup)
    (hp : p.Holds is (ls.map fun l => l.toSupply.source (l.advance isOpen) l.synchronized)) :
    ∃ q, synchronizeAll (.key k) is p = (q, .ok ()) ∧ q.ruptures = p.ruptures ∧
      q.Holds is ((Lane.turnAll isOpen k ls).map Lane.source) := by
  obtain ⟨q, hq, hr, hh, -⟩ := forEach_sources
    (fun l => (l.turn isOpen k).source) (synchronize (.key k)) hn hp (by
      intro q i l _ _ hqi
      simp only [synchronize, hqi, Supply.synchronize_source]
      rfl)
  refine ⟨q, hq, hr, ?_⟩
  rwa [Lane.map_turnAll]

theorem candidates_lanes (hp : p.Holds is (ls.map Lane.source)) :
    p.candidates is = ls.map Lane.candidate := by
  have h : p.candidates is = (is.map (p.sources[·]?)).filterMap fun o => o.map (·.candidate) := by
    rw [List.filterMap_map]
    rfl
  rw [h, hp, List.map_map, List.filterMap_map, ← List.filterMap_eq_map]
  congr 1
  funext l
  exact congrArg some l.candidate_source

end Text

end Pool

namespace Engine

variable {ρ : Type}

/-- The source that is registered as number `i`. -/
def source {κ : Type} (e : Engine ρ κ) (i : ℕ) : Option (Source ρ κ) :=
  (e.sync.sources[i]?).bind (e.pool.sources[·]?)

/-- Which gates are open. -/
def opens {κ : Type} (e : Engine ρ κ) : Option ℕ → Bool := Pool.opens e.pool.ruptures

theorem opens_congr {κ : Type} {d e : Engine ρ κ} (h : d.pool.ruptures = e.pool.ruptures) :
    d.opens = e.opens := by
  rw [opens, h, opens]

/-- An engine before its start: the registered sources are distinct and fresh, in the order of
`ss`, and the registered ruptures are distinct. -/
structure Prepared (e : Engine ρ Text) (ss : List (Supply ρ)) : Prop where
  unstarted : e.sync.started = false
  nextKey : e.sync.nextKey = none
  sources_nodup : e.sync.sources.Nodup
  ruptures_nodup : e.sync.ruptures.Nodup
  ruptures_lt : ∀ j ∈ e.sync.ruptures, j < e.pool.ruptures.length
  sources : e.pool.Holds e.sync.sources (ss.map Supply.fresh)

/-- The engine in which all of these are registered, in this order. -/
def ofLists (ss : List (Supply ρ)) (rs : List (Rupture Text)) : Engine ρ Text where
  pool := ⟨ss.map Supply.fresh, rs⟩
  sync := ⟨List.range ss.length, List.range rs.length, false, none, none⟩

theorem prepared_ofLists (ss : List (Supply ρ)) (rs : List (Rupture Text)) :
    (ofLists ss rs).Prepared ss where
  unstarted := rfl
  nextKey := rfl
  sources_nodup := List.nodup_range
  ruptures_nodup := List.nodup_range
  ruptures_lt := fun _ hj => List.mem_range.1 hj
  sources := by
    apply List.ext_getElem?
    intro n
    by_cases hn : n < ss.length
    · simp [ofLists, hn]
    · simp [ofLists, hn]

/-- Every gate is a registered rupture that is fresh. -/
def Gated (e : Engine ρ Text) (ss : List (Supply ρ)) : Prop :=
  ∀ s ∈ ss, ∀ j, s.gate = some j → j ∈ e.sync.ruptures ∧
    ∃ name extract, e.pool.ruptures[j]? = some (.fresh name extract)

/-- Before its start an engine has every gate open. -/
theorem Gated.opens {e : Engine ρ Text} {ss : List (Supply ρ)} (h : e.Gated ss) :
    ∀ s ∈ ss, e.opens s.gate = true := by
  intro s hs
  cases hj : s.gate with
  | none => rfl
  | some j =>
    obtain ⟨-, name, extract, hr⟩ := h s hs j hj
    simp [Engine.opens, Pool.opens, hr]

/-- Nothing is in front of a source without a gate. -/
theorem opens_of_ungated {κ : Type} (e : Engine ρ κ) {ss : List (Supply ρ)}
    (hg : ∀ s ∈ ss, s.gate = none) : ∀ s ∈ ss, e.opens s.gate = true := by
  intro s hs
  rw [hg s hs]
  rfl

theorem gated_ofLists {ss : List (Supply ρ)} {rs : List (Rupture Text)}
    (hg : ∀ s ∈ ss, ∀ j, s.gate = some j → j < rs.length)
    (hr : ∀ r ∈ rs, ∃ name extract, r = .fresh name extract) : (ofLists ss rs).Gated ss := by
  intro s hs j hj
  have hlt := hg s hs j hj
  obtain ⟨name, extract, he⟩ := hr rs[j] (List.getElem_mem hlt)
  exact ⟨List.mem_range.2 hlt, name, extract, he ▸ List.getElem?_eq_getElem hlt⟩

/-- The engine once it counts as started. -/
def begun {κ : Type} (e : Engine ρ κ) : Engine ρ κ :=
  { e with sync := { e.sync with started := true } }

/-- A registered rupture has an extractor that fails with `f` on some key. -/
def MayFault {κ : Type} (e : Engine ρ κ) (f : Fault) : Prop :=
  ∃ j ∈ e.sync.ruptures, ∃ r, e.pool.ruptures[j]? = some r ∧ ∃ k, r.extract k = .error f

/-- The registered sources are the lanes `ls`, and the key of the next step is their frontier. -/
structure Stages (e : Engine ρ Text) (ls : List (Lane ρ)) : Prop where
  sources_nodup : e.sync.sources.Nodup
  sources : e.pool.Holds e.sync.sources (ls.map Lane.source)
  nextKey : e.sync.nextKey = some (Lane.frontier ls)

theorem Stages.source {e : Engine ρ Text} {ls : List (Lane ρ)} (h : e.Stages ls) (i : ℕ) :
    e.source i = (ls[i]?).map Lane.source := by
  rw [Engine.source, h.sources.get, List.getElem?_map]

theorem Stages.ended_iff {e : Engine ρ Text} {ls : List (Lane ρ)} (h : e.Stages ls) :
    e.sync.ended = true ↔ Lane.frontier ls = .done := by
  rw [Synchronization.ended_eq_true, h.nextKey, Option.some.injEq]

theorem ended_eq_false {e : Engine ρ Text} {f : Frontier Text} (h : e.sync.nextKey = some f)
    (hf : f ≠ .done) : e.sync.ended = false := by
  cases f with
  | key k => simp [Synchronization.ended, h]
  | done => exact absurd rfl hf

theorem Stages.exists_key {e : Engine ρ Text} {ls : List (Lane ρ)} (h : e.Stages ls)
    (he : e.sync.ended = false) : ∃ k, Lane.frontier ls = .key k := by
  cases hf : Lane.frontier ls with
  | key k => exact ⟨k, rfl⟩
  | done => rw [h.ended_iff.2 hf] at he; cases he

theorem keyPhase_lanes {e : Engine ρ Text} {ls : List (Lane ρ)}
    (hp : e.pool.Holds e.sync.sources (ls.map Lane.source)) :
    keyPhase e = ({ e with sync := { e.sync with
      currentKey := e.sync.nextKey
      nextKey := some (Lane.frontier ls) } }, .ok ()) := by
  have hc : e.candidates = ls.map Lane.candidate := Pool.candidates_lanes hp
  simp only [keyPhase, hc, Frontier.leastOf_eq]
  rfl

/-- Priming stages every supply at its first record. -/
theorem prime_stages {e : Engine ρ Text} {ss : List (Supply ρ)} (h : e.Prepared ss)
    (ho : ∀ s ∈ ss, e.opens s.gate = true) :
    ∃ d, e.begun.prime = (d, .ok ()) ∧ d.Stages (ss.map Lane.primed) ∧
      d.pool.ruptures = e.pool.ruptures ∧ d.sync.ruptures = e.sync.ruptures := by
  obtain ⟨p, hp, hr, hh⟩ := Pool.readAll_supplies h.sources_nodup h.sources ho
  have hread : readPhase e.begun = ({ e.begun with pool := p }, .ok ()) := by
    simp [readPhase, onPool, begun, hp]
  have hh' : p.Holds e.sync.sources ((ss.map Lane.primed).map Lane.source) := by
    rw [List.map_map]
    exact hh
  have hkey := keyPhase_lanes (e := { e.begun with pool := p }) hh'
  exact ⟨_, (Action.andThen_of_ok hread).trans hkey, ⟨h.sources_nodup, hh', rfl⟩, hr, rfl⟩

section Turn

variable {e d : Engine ρ Text} {ls : List (Lane ρ)} {k : Text}

/-- A turn turns the lanes by the key of the step, finds the next key and moves the ruptures on. -/
theorem turn_eq (h : e.Stages ls) (hk : Lane.frontier ls = .key k) :
    ∃ p : Pool ρ Text, p.ruptures = e.pool.ruptures ∧
      let ls' := Lane.turnAll e.opens k ls
      let r := Pool.cascade (.key k) (Lane.frontier ls') false e.sync.ruptures p
      p.Holds e.sync.sources (ls'.map Lane.source) ∧
      e.turn = (⟨r.1, { e.sync with
        currentKey := some (.key k)
        nextKey := some (Lane.frontier ls') }⟩, r.2) := by
  obtain ⟨p, hp, hpr, hph⟩ := Pool.readAll_lanes h.sources_nodup h.sources
  obtain ⟨q, hq, hqr, hqh⟩ := Pool.synchronizeAll_lanes (k := k) h.sources_nodup hph
  have hread : readPhase e = ({ e with pool := p }, .ok ()) := by simp [readPhase, onPool, hp]
  have hsync : synchronizePhase { e with pool := p } = ({ e with pool := q }, .ok ()) := by
    simp [synchronizePhase, onPool, h.nextKey, hk, hq]
  have hkey := keyPhase_lanes (e := { e with pool := q }) hqh
  refine ⟨q, hqr.trans hpr, hqh, ?_⟩
  rw [turn, Action.andThen_of_ok hread, Action.andThen_of_ok hsync, Action.andThen_of_ok hkey]
  simp [rupturePhase, onPool, opens, h.nextKey, hk]

theorem turn_stages (h : e.Stages ls) (hk : Lane.frontier ls = .key k)
    (ht : e.turn = (d, .ok ())) :
    d.Stages (Lane.turnAll e.opens k ls) ∧
      d.sync.currentKey = some (.key k) ∧ d.sync.ruptures = e.sync.ruptures := by
  obtain ⟨p, -, hh, he⟩ := turn_eq h hk
  obtain ⟨rfl, -⟩ := Prod.mk.inj (he.symm.trans ht)
  refine ⟨⟨h.sources_nodup, ?_, rfl⟩, rfl, rfl⟩
  rw [Pool.Holds] at hh ⊢
  rw [← hh]
  exact congrArg (fun xs => e.sync.sources.map (xs[·]?)) Pool.cascade_sources

/-- The pool after a turn is one after the cascade. -/
theorem turn_ruptures (h : e.Stages ls) (hk : Lane.frontier ls = .key k)
    (ht : e.turn = (d, .ok ())) :
    ∃ p : Pool ρ Text, p.ruptures = e.pool.ruptures ∧ d.pool = (Pool.cascade (.key k)
      (Lane.frontier (Lane.turnAll e.opens k ls)) false
      e.sync.ruptures p).1 := by
  obtain ⟨p, hp, -, he⟩ := turn_eq h hk
  obtain ⟨rfl, -⟩ := Prod.mk.inj (he.symm.trans ht)
  exact ⟨p, hp, rfl⟩

/-- A turn fails only where an extractor does, and never with the mark as the next key. -/
theorem turn_error {f : Fault} (h : e.Stages ls) (he : e.sync.ended = false)
    (ht : e.turn = (d, .error f)) : e.MayFault f ∧ d.sync.ended = false := by
  obtain ⟨k, hk⟩ := h.exists_key he
  obtain ⟨p, hp, -, he⟩ := turn_eq h hk
  obtain ⟨rfl, hr⟩ := Prod.mk.inj (he.symm.trans ht)
  constructor
  · rw [MayFault, ← hp]
    exact Pool.cascade_error hr
  · refine ended_eq_false (f := Lane.frontier _) rfl fun hf => ?_
    rw [hf, Pool.cascade_done] at hr
    cases hr

end Turn

/-! ### What a step shows -/

section Snapshot

variable {e : Engine ρ Text} {ls : List (Lane ρ)} (h : e.Stages ls) (n : ℕ)

include h

theorem snapshot_row : (e.snapshot n).row = ls.map Lane.current := by
  have hr : (e.snapshot n).row =
      (e.sync.sources.map (e.pool.sources[·]?)).map (·.bind Source.current) := by
    rw [List.map_map]
    rfl
  rw [hr, h.sources, List.map_map, List.map_map]
  rfl

theorem snapshot_desync : (e.snapshot n).desync = maskOf (ls.map (!·.synchronized)) := by
  have hr : e.pool.held e.sync.sources =
      (e.sync.sources.map (e.pool.sources[·]?)).map (·.elim false (!·.synchronized)) := by
    rw [List.map_map]
    refine List.map_congr_left fun i _ => ?_
    cases hi : e.pool.sources[i]? <;> simp [hi]
  rw [snapshot, hr, h.sources, List.map_map, List.map_map]
  rfl

theorem snapshot_isSynchronized (i : ℕ) :
    (e.snapshot n).isSynchronized i = (ls[i]?).elim true (·.synchronized) := by
  rw [Step.isSynchronized, snapshot_desync h, testBit_maskOf, List.getD_eq_getElem?_getD,
    List.getElem?_map]
  cases ls[i]? <;> simp

end Snapshot

section Shown

variable {e d : Engine ρ Text} {ls : List (Lane ρ)} {k : Text} (h : e.Stages ls)
  (hk : Lane.frontier ls = .key k) (ht : e.turn = (d, .ok ())) (n : ℕ)

include h hk ht

theorem turn_key : (d.snapshot n).key = .key k := by
  rw [snapshot, (turn_stages h hk ht).2.1]
  rfl

variable {i : ℕ} {l : Lane ρ} (hl : ls[i]? = some l)

include hl

theorem turn_row :
    (d.snapshot n).row[i]? = some (l.turn e.opens k).current := by
  rw [snapshot_row (turn_stages h hk ht).1, List.getElem?_map, Lane.getElem?_turnAll, hl]
  rfl

theorem turn_isSynchronized :
    (d.snapshot n).isSynchronized i = (l.turn e.opens k).synchronized := by
  rw [snapshot_isSynchronized (turn_stages h hk ht).1, Lane.getElem?_turnAll, hl]
  rfl

end Shown

end Engine

end Lockstep
