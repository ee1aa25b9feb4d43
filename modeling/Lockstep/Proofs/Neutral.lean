import Mathlib.Data.List.InsertIdx
import Lockstep.Proofs.Engine.Paired
import Lockstep.Proofs.Engine.Requests
import Lockstep.Proofs.Rearrangement

/-!
# An empty source is neutral

One more source whose feed is at its end from the start changes nothing of a run but that every row
has one more entry, which is empty, and every mask one more bit, which is set (`drain_neutral`).

The source passes through three states.  Before priming it is fresh, with the start as its keys.
Priming finds the end, but the source is still synchronized, and what is current has the start as
its key.  The first turn reads it once more, and only then is it behind its end (`Source.Parked`)
and held back for good.  In the first two states a read brings it there (`Source.Spent`), and in all
of them it takes part in the choice of a key with the mark, which is neutral (`leastOf_done`).
-/

namespace Lockstep

variable {ρ κ : Type}

/-- An item is inserted between those in front and those behind. -/
theorem exists_insertIdx {α : Type} {l : List α} {i : ℕ} (h : i ≤ l.length) (a : α) :
    ∃ as bs, l = as ++ bs ∧ l.insertIdx i a = as ++ a :: bs := by
  induction l generalizing i with
  | nil =>
    obtain rfl : i = 0 := by simpa using h
    exact ⟨[], [], rfl, rfl⟩
  | cons b l ih =>
    cases i with
    | zero => exact ⟨[], b :: l, rfl, rfl⟩
    | succ i =>
      obtain ⟨as, bs, rfl, hins⟩ := ih (by simpa using h)
      exact ⟨b :: as, bs, rfl, by rw [List.insertIdx_succ_cons, hins, List.cons_append]⟩

namespace Frontier

variable [SyncKey κ]

theorem least_done (b : Frontier κ) (fs gs : List (Frontier κ)) :
    least b (fs ++ .done :: gs) = least b (fs ++ gs) := by
  induction fs generalizing b with
  | nil => simp [least]
  | cons f fs ih =>
    simp only [List.cons_append, least]
    rcases less f b with x | c
    · rfl
    · cases c with
      | true => exact ih f
      | false => exact ih b

/-- The mark does not count where it stands beside others. -/
theorem leastOf_done (fs gs : List (Frontier κ)) :
    leastOf (fs ++ .done :: gs) = leastOf (fs ++ gs) := by
  cases fs with
  | cons f fs => exact least_done f fs gs
  | nil =>
    cases gs with
    | nil => rfl
    | cons g gs => cases g <;> simp [leastOf, least]

end Frontier

/-! ### Steps -/

/-- The step shows of one more source, as number `i`, that it is held back and has no record, and
else the same as the other step. -/
structure Step.Widens (i : ℕ) (s t : Step ρ κ) : Prop where
  number : t.number = s.number
  key : t.key = s.key
  edges : t.edges = s.edges
  row : t.row = s.row.insertIdx i none
  row_self : t.row[i]? = some none
  held : t.isSynchronized i = false
  before : ∀ j < i, t.isSynchronized j = s.isSynchronized j
  behind : ∀ j ≥ i, t.isSynchronized (j + 1) = s.isSynchronized j

/-! ### The source -/

namespace Source

/-- The source is behind its end, and it is held back. -/
structure Parked (s : Source ρ κ) : Prop where
  synchronized : s.synchronized = false
  current : s.current = none
  currentKey : s.currentKey = .done

/-- A read leaves nothing current but the mark. -/
def Spent (rs : List (Rupture κ)) (s : Source ρ κ) : Prop :=
  ∃ t, s.read (Pool.opens rs s.gate) = (t, .ok ()) ∧ t.current = none ∧ t.currentKey = .done

variable {rs : List (Rupture κ)} {s : Source ρ κ}

theorem Parked.spent (h : s.Parked) : s.Spent rs :=
  ⟨s, read_of_not_due (by simp [due, h.synchronized]), h.current, h.currentKey⟩

theorem Parked.candidate (h : s.Parked) : s.candidate = .done := by
  simp [Source.candidate, h.synchronized, h.currentKey]

variable [SyncKey κ]

/-- A source behind its end is held back by every key. -/
theorem parked_synchronize (hc : s.current = none) (hk : s.currentKey = .done) (k : κ) :
    (s.synchronize (.key k)).1.Parked ∧ (s.synchronize (.key k)).2 = .ok () := by
  have hs : s.synchronize (.key k) = ({ s with synchronized := false }, .ok ()) := by
    simp [synchronize, hk]
  rw [hs]
  exact ⟨⟨rfl, hc, hk⟩, rfl⟩

/-- Priming finds the end of an empty source, and leaves it as it is for the first turn to read. -/
theorem spent_read_fresh {feed : Feed ρ} (keyer : ρ → Except Fault (Frontier κ)) {gate : Option ℕ}
    (hf : feed.pull.1 = .exhausted) (hg : Pool.opens rs gate = true) :
    let s := Source.fresh feed keyer gate
    ∃ t, s.read (Pool.opens rs s.gate) = (t, .ok ()) ∧ t.candidate = .done ∧ t.Spent rs := by
  intro s
  have hd : s.due (Pool.opens rs s.gate) = true := by
    rw [due, show s.gate = gate from rfl, hg]
    rfl
  refine ⟨_, read_of_end hd rfl hf, rfl, ?_⟩
  exact ⟨_, read_of_exhausted hd rfl, rfl, rfl⟩

end Source

/-! ### Pools -/

namespace Pool

variable {m : ℕ} {rs : List (Rupture κ)} {s : Source ρ κ} {p q : Pool ρ κ} {U : Fault → Prop}

theorem held_eq_map (p : Pool ρ κ) (is : List ℕ) :
    p.held is = is.map fun i => p.sources[i]?.elim false (!·.synchronized) :=
  List.map_congr_left fun i _ => by cases p.sources[i]? <;> rfl

/-- The pools have the ruptures `rs`, and the second one has besides the source `s` as number
`m`. -/
structure Beyond (m : ℕ) (rs : List (Rupture κ)) (s : Source ρ κ) (p q : Pool ρ κ) : Prop where
  left : p.ruptures = rs
  right : q.ruptures = rs
  others : ∀ j, j ≠ m → q.sources[j]? = p.sources[j]?
  source : q.sources[m]? = some s

section OnSource

variable {f : List (Rupture κ) → Source ρ κ → Source ρ κ × Except Fault Unit}

theorem keeps_onSource_beyond {j : ℕ} (hj : j ≠ m) :
    Action.Keeps (Beyond m rs s) U (onSource f j) := by
  intro p q h
  unfold onSource
  rw [h.others j hj, h.left, h.right]
  cases hp : p.sources[j]? with
  | none => exact .done h
  | some t =>
    dsimp only
    cases (f rs t).2 with
    | error g => exact .failed _ _ g
    | ok _ =>
      refine .done ⟨h.left, h.right, fun i hi => ?_, ?_⟩
      · by_cases hji : j = i
        · subst hji
          have hq := (h.others j hj).trans hp
          simp [setSource, (List.getElem?_eq_some_iff.1 hp).1, (List.getElem?_eq_some_iff.1 hq).1]
        · rw [setSource, setSource, List.getElem?_set_ne hji, List.getElem?_set_ne hji]
          exact h.others i hi
      · rw [setSource, List.getElem?_set_ne hj]
        exact h.source

theorem Beyond.onSource (h : Beyond m rs s p q) (hf : (f rs s).2 = .ok ()) :
    ∃ q', onSource f m q = (q', .ok ()) ∧ Beyond m rs (f rs s).1 p q' := by
  refine ⟨_, (onSource_of_some h.source).trans (Prod.ext rfl (h.right ▸ hf)), h.left, h.right,
    fun j hj => ?_, ?_⟩
  · rw [setSource, List.getElem?_set_ne hj.symm]
    exact h.others j hj
  · rw [h.right, setSource]
    exact List.getElem?_set_self (List.getElem?_eq_some_iff.1 h.source).1

/-- What is done to each source is done to the further one as well. -/
theorem Beyond.forEach (h : Beyond m rs s p q) (hf : (f rs s).2 = .ok ()) {is : List ℕ} {i : ℕ}
    (hi : i ≤ is.length) (hm : m ∉ is) :
    Action.Abreast (Beyond m rs (f rs s).1) U (Action.forEach (Pool.onSource f) is p)
      (Action.forEach (Pool.onSource f) (is.insertIdx i m) q) := by
  obtain ⟨as, bs, rfl, hins⟩ := exists_insertIdx hi m
  rw [hins, Action.forEach_append, Action.forEach_append]
  have hne : ∀ {js : List ℕ}, js ⊆ as ++ bs → ∀ j ∈ js, j ≠ m := by
    intro js hjs j hj
    rintro rfl
    exact hm (hjs hj)
  have has := Action.Keeps.forEach_mem (R := Beyond m rs s) (U := U) fun j hj =>
    keeps_onSource_beyond (f := f) (hne (List.subset_append_left as bs) j hj)
  have hbs := Action.Keeps.forEach_mem (R := Beyond m rs (f rs s).1) (U := U) fun j hj =>
    keeps_onSource_beyond (f := f) (hne (List.subset_append_right as bs) j hj)
  refine (has p q h).andThen fun u v _ _ huv => ?_
  obtain ⟨w, hw, huw⟩ := huv.onSource hf
  rw [Action.forEach, Action.andThen_of_ok hw]
  exact hbs u w huw

end OnSource

theorem Beyond.candidates [SyncKey κ] (h : Beyond m rs s p q) (hs : s.candidate = .done)
    {is : List ℕ} {i : ℕ} (hi : i ≤ is.length) (hm : m ∉ is) :
    Frontier.leastOf (q.candidates (is.insertIdx i m)) = Frontier.leastOf (p.candidates is) := by
  have hothers : q.candidates is = p.candidates is := List.filterMap_congr fun j hj => by
    rw [h.others j fun hjm => hm (hjm ▸ hj)]
  obtain ⟨as, bs, rfl, hins⟩ := exists_insertIdx hi m
  rw [← hothers, hins]
  simp only [Pool.candidates, List.filterMap_append, List.filterMap_cons, h.source, Option.map_some,
    hs]
  exact Frontier.leastOf_done _ _

theorem Beyond.map_insertIdx {α : Type} (h : Beyond m rs s p q) {is : List ℕ} (hm : m ∉ is)
    (view : Option (Source ρ κ) → α) (i : ℕ) :
    (is.insertIdx i m).map (fun j => view q.sources[j]?) =
      (is.map fun j => view p.sources[j]?).insertIdx i (view (some s)) := by
  rw [List.map_insertIdx, h.source]
  congr 1
  exact List.map_congr_left fun j hj => by rw [h.others j fun hjm => hm (hjm ▸ hj)]

theorem Beyond.cascade [SyncKey κ] (h : Beyond m rs s p q) (current next : Frontier κ)
    (js : List ℕ) :
    Action.Abreast (fun p q => ∃ rs, Beyond m rs s p q) U (cascade current next false js p)
      (cascade current next false js q) := by
  refine (cascade_abreast (h.right.trans h.left.symm)).mono
    (fun c c' ⟨hc, hc', hr⟩ => ⟨c.ruptures, rfl, hr, ?_, ?_⟩) fun _ hf => hf
  · rw [hc, hc']
    exact h.others
  · rw [hc']
    exact h.source

end Pool

/-! ### Engines -/

namespace Engine

variable {m i : ℕ} {rs : List (Rupture κ)} {s : Source ρ κ} {d d' : Engine ρ κ} {U : Fault → Prop}

/-- The engines have got as far, and the second one has the source `s` registered besides, as number
`i`. -/
structure Beyond (m i : ℕ) (rs : List (Rupture κ)) (s : Source ρ κ) (d d' : Engine ρ κ) : Prop where
  le : i ≤ d.sync.sources.length
  notMem : m ∉ d.sync.sources
  sync : d'.sync = { d.sync with sources := d.sync.sources.insertIdx i m }
  pool : d.pool.Beyond m rs s d'.pool

/-- Nothing but the pools has changed. -/
theorem Beyond.congr {c c' : Engine ρ κ} {rs' : List (Rupture κ)} {t : Source ρ κ}
    (h : Beyond m i rs s d d') (hc : c.sync = d.sync) (hc' : c'.sync = d'.sync)
    (hp : c.pool.Beyond m rs' t c'.pool) : Beyond m i rs' t c c' :=
  ⟨hc ▸ h.le, hc ▸ h.notMem, by rw [hc', h.sync, hc], hp⟩

theorem Beyond.readPhase (h : Beyond m i rs s d d')
    (hs : (s.read (Pool.opens rs s.gate)).2 = .ok ()) :
    Action.Abreast (Beyond m i rs (s.read (Pool.opens rs s.gate)).1) U (readPhase d)
      (readPhase d') := by
  have hp := h.pool.forEach (U := U) (f := fun rs s => s.read (Pool.opens rs s.gate)) hs h.le
    h.notMem
  rw [← Pool.read_eq_onSource] at hp
  unfold Engine.readPhase
  rw [h.sync]
  exact (onPool_abreast hp).mono (fun c c' hc => h.congr hc.1 hc.2.1 hc.2.2) fun _ hf => hf

theorem Beyond.synchronizePhase [SyncKey κ] (h : Beyond m i rs s d d')
    (hs : (s.synchronize (d.sync.nextKey.getD .done)).2 = .ok ()) :
    Action.Abreast (Beyond m i rs (s.synchronize (d.sync.nextKey.getD .done)).1) U
      (synchronizePhase d) (synchronizePhase d') := by
  have hp := h.pool.forEach (U := U)
    (f := fun _ s => s.synchronize (d.sync.nextKey.getD .done)) hs h.le h.notMem
  rw [← Pool.synchronize_eq_onSource] at hp
  unfold Engine.synchronizePhase
  rw [h.sync]
  exact (onPool_abreast hp).mono (fun c c' hc => h.congr hc.1 hc.2.1 hc.2.2) fun _ hf => hf

theorem Beyond.keyPhase [SyncKey κ] (h : Beyond m i rs s d d') (hs : s.candidate = .done) :
    Action.Abreast (Beyond m i rs s) U (keyPhase d) (keyPhase d') := by
  have hc : Frontier.leastOf d'.candidates = Frontier.leastOf d.candidates := by
    unfold candidates
    rw [h.sync]
    exact h.pool.candidates hs h.le h.notMem
  refine (keyPhase_abreast hc).mono (fun c c' ⟨hp, hp', k, hk, hk'⟩ => ?_) fun _ hf => hf
  refine ⟨by rw [hk]; exact h.le, by rw [hk]; exact h.notMem, by rw [hk', hk, h.sync], ?_⟩
  rw [hp, hp']
  exact h.pool

theorem Beyond.rupturePhase [SyncKey κ] (h : Beyond m i rs s d d') :
    Action.Abreast (fun c c' => ∃ rs, Beyond m i rs s c c') U (rupturePhase d)
      (rupturePhase d') := by
  unfold Engine.rupturePhase
  rw [h.sync]
  refine (onPool_abreast (h.pool.cascade _ _ _)).mono (fun c c' hc => ?_) fun _ hf => hf
  obtain ⟨hs, hs', rs', hp⟩ := hc
  exact ⟨rs', h.congr hs hs' hp⟩

theorem Beyond.snapshot (h : Beyond m i rs s d d') (hs : s.Parked) (n : ℕ) :
    (d.snapshot n).Widens i (d'.snapshot n) := by
  have hrow : d'.pool.row d'.sync.sources = (d.pool.row d.sync.sources).insertIdx i none := by
    rw [h.sync, Pool.row, h.pool.map_insertIdx h.notMem fun o => o.bind (·.current)]
    exact congrArg _ hs.current
  have hheld : d'.pool.held d'.sync.sources = (d.pool.held d.sync.sources).insertIdx i true := by
    rw [h.sync, Pool.held_eq_map, Pool.held_eq_map,
      h.pool.map_insertIdx h.notMem (·.elim false (!·.synchronized)), Option.elim_some,
      hs.synchronized, Bool.not_false]
  have hlen : i ≤ (d.pool.row d.sync.sources).length := by
    rw [Pool.row, List.length_map]
    exact h.le
  have hlen' : i ≤ (d.pool.held d.sync.sources).length := by
    rw [Pool.held, List.length_map]
    exact h.le
  refine ⟨rfl, ?_, ?_, hrow, ?_, ?_, ?_, ?_⟩
  · simp only [Engine.snapshot, h.sync]
  · simp only [Engine.snapshot, h.sync, Pool.edges, h.pool.left, h.pool.right]
  · simp [Engine.snapshot, hrow, List.getElem?_insertIdx, hlen]
  · simp [Engine.snapshot, Step.isSynchronized, testBit_maskOf, hheld, List.getElem?_insertIdx,
      hlen']
  · intro j hj
    simp [Engine.snapshot, Step.isSynchronized, testBit_maskOf, hheld, List.getElem?_insertIdx, hj]
  · intro j hj
    have hlt : ¬ j + 1 < i := by omega
    have hne : j + 1 ≠ i := by omega
    simp [Engine.snapshot, Step.isSynchronized, testBit_maskOf, hheld, List.getElem?_insertIdx,
      hlt, hne]

variable [SyncKey κ]

/-- A turn leaves the source parked. -/
theorem Beyond.turn (h : Beyond m i rs s d d') (hs : s.Spent rs) {k : κ}
    (hk : d.sync.nextKey = some (.key k)) :
    Action.Abreast (fun c c' => ∃ rs s, Beyond m i rs s c c' ∧ s.Parked) U d.turn d'.turn := by
  obtain ⟨t, ht, hcur, hkey⟩ := hs
  have hread := h.readPhase (U := U) (congrArg Prod.snd ht)
  rw [ht] at hread
  refine hread.andThen fun a a' ha _ haa => ?_
  have hak : a.sync.nextKey.getD .done = .key k := by
    rw [(readPhase_eq_ok ha).2, hk]
    rfl
  obtain ⟨hparked, hok⟩ := t.parked_synchronize hcur hkey k
  have hsync := haa.synchronizePhase (U := U) (hak.symm ▸ hok)
  rw [hak] at hsync
  refine hsync.andThen fun b b' _ _ hbb => ?_
  refine (hbb.keyPhase hparked.candidate).andThen fun c c' _ _ hcc => ?_
  exact hcc.rupturePhase.mono (fun v v' ⟨rs', hv⟩ => ⟨rs', _, hv, hparked⟩) fun _ hf => hf

/-! ### Runs -/

section Neutral

variable {e : Engine ρ κ} {feed : Feed ρ} {keyer : ρ → Except Fault (Frontier κ)} {gate : Option ℕ}
  (hu : e.sync.started = false) (hi : i ≤ e.sync.sources.length) (hm : m ∉ e.sync.sources)
  (hs : e.pool.sources[m]? = some (.fresh feed keyer gate)) (hf : feed.pull.1 = .exhausted)

include hu hi hm hs hf

/-- The run without the empty source and the run with it are paired. -/
theorem paired_neutral (hg : e.opens gate = true) :
    Paired (fun d d' => (∃ rs s, Beyond m i rs s d d' ∧ s.Spent rs) ∧
        ∃ f, d'.sync.nextKey = some f) (fun _ => False) (Step.Widens i) e
      (e.inOrder (e.sync.sources.insertIdx i m)) where
  unstarted := hu
  unstarted' := hu
  prime := by
    have h : Beyond m i e.pool.ruptures (.fresh feed keyer gate) e.begun
        (e.inOrder (e.sync.sources.insertIdx i m)).begun :=
      ⟨hi, hm, rfl, rfl, rfl, fun _ _ => rfl, hs⟩
    obtain ⟨t, ht, hcand, hspent⟩ := Source.spent_read_fresh keyer hf hg
    have hread := h.readPhase (U := fun _ => False) (congrArg Prod.snd ht)
    rw [ht] at hread
    have hprime := hread.andThen fun a a' _ _ haa => haa.keyPhase hcand
    refine (hprime.and_right (P := fun d' => ∃ f, d'.sync.nextKey = some f) fun d' hd' => ?_).mono
      (fun d d' hd => ⟨⟨_, t, hd.1, hspent⟩, hd.2⟩) fun _ hf => hf
    obtain ⟨-, f, hf⟩ := prime_eq_ok hd'
    exact ⟨f, by rw [hf]⟩
  ended := by
    rintro d d' ⟨⟨rs, s, h, -⟩, -⟩
    rw [h.sync]
    rfl
  turn := by
    rintro d d' ⟨⟨rs, s, h, hspent⟩, f, hf⟩ he
    have hk : ∃ k, d.sync.nextKey = some (.key k) := by
      replace hf : d.sync.nextKey = some f := by rw [← hf, h.sync]
      cases f with
      | key k => exact ⟨k, hf⟩
      | done =>
        rw [Synchronization.ended_eq_true.2 hf] at he
        cases he
    obtain ⟨k, hk⟩ := hk
    refine ((h.turn hspent hk).and_right (P := fun c' => ∃ f, c'.sync.nextKey = some f)
      fun c' hc' => ?_).mono (fun c c' hc => ?_) fun _ hf => hf
    · obtain ⟨-, f, -, hf, -⟩ := turn_eq_ok hc'
      exact ⟨f, by rw [hf]⟩
    · obtain ⟨⟨rs', t, hcc, ht⟩, hnext⟩ := hc
      exact ⟨⟨⟨rs', t, hcc, ht.spent⟩, hnext⟩, hcc.snapshot ht⟩

/-- **An empty source is neutral.**  The source is fresh, its feed is at its end, and the rupture
that gates it, if there is one, is registered and fresh as well.  With this source as number `i` the
run makes the same steps, with one more entry in each row, which is empty, and one more bit in each
mask, which is set; and it ends as it does without the source. -/
theorem drain_neutral (hg : ∀ j, gate = some j → j ∈ e.sync.ruptures ∧
      ∃ name extract, e.pool.ruptures[j]? = some (.fresh name extract)) (budget : ℕ) :
    let e' := e.inOrder (e.sync.sources.insertIdx i m)
    let r := e.drain budget .fresh
    let r' := e'.drain budget .fresh
    List.Forall₂ (Step.Widens i) r.result r'.result ∧ r'.ended = r.ended ∧
      r'.outcome = r.outcome ∧ (e'.Completes ↔ e.Completes) ∧
      (i = e.sync.sources.length →
        e.sync.addSources (fun n => (e.pool.sources[n]?).bind (·.gate)) [m] = .ok e'.sync) := by
  intro e' r r'
  have hopen : e.opens gate = true := by
    cases gate with
    | none => rfl
    | some j =>
      obtain ⟨-, name, extract, hr⟩ := hg j rfl
      simp [Engine.opens, Pool.opens, hr]
  obtain ⟨hV, he, ho, hc⟩ := (paired_neutral hu hi hm hs hf hopen).drain_alike (fun _ h => h) budget
  refine ⟨hV, he, ho, hc, fun hlast => ?_⟩
  have hreg : [m].foldl (Synchronization.registerSource fun n =>
      (e.pool.sources[n]?).bind (·.gate)) e.sync =
      { e.sync with sources := e.sync.sources ++ [m] } := by
    refine Synchronization.foldl_registerSource fun n hn j hj => ?_
    obtain rfl : n = m := List.mem_singleton.1 hn
    rw [hs] at hj
    exact (hg j hj).1
  have hsync : e'.sync = { e.sync with sources := e.sync.sources ++ [m] } := by
    simp only [e', inOrder, hlast, List.insertIdx_length_self]
  rw [Synchronization.addSources, hu, hreg, hsync]
  rfl

end Neutral

/-- A list and a master list, with an empty master list between them. -/
theorem drain_neutral_gated :
    let ss : List (Supply Text) := [.ofList [['a', '1'], ['a', '2'], ['b', '1']] id none,
      .ofList [['a'], ['b']] id (some 0), .ofList [] id (some 0)]
    let e := (ofLists ss [.fresh ['g'] (Rupture.leading 1)]).inOrder [0, 1]
    let e' := e.inOrder [0, 2, 1]
    List.Forall₂ (Step.Widens 1) (e.drain 10 .fresh).result (e'.drain 10 .fresh).result ∧
      (e'.drain 10 .fresh).result.length = 3 ∧ (e'.drain 10 .fresh).ended = true := by
  intro ss e e'
  have hs : e.pool.sources[2]? =
      some (.fresh (Feed.ofList []) (fun r => .ok (.key r)) (some 0)) := rfl
  have hg : ∀ j, some 0 = some j → j ∈ e.sync.ruptures ∧
      ∃ name extract, e.pool.ruptures[j]? = some (.fresh name extract) := by
    rintro j ⟨⟩
    exact ⟨by decide, ['g'], Rupture.leading 1, rfl⟩
  obtain ⟨hV, hended, -⟩ := drain_neutral (i := 1) rfl (by decide) (by decide) hs rfl hg 10
  exact ⟨hV, by decide +kernel, hended.trans (by decide +kernel)⟩

end Engine

end Lockstep
