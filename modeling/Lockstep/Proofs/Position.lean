import Lockstep.Proofs.Engine.Course

/-!
# Every source goes through its records one by one

Where a source stands in its stream is not part of a step, but it can be told from the steps made
so far: a step releases a source if it synchronizes it and closes a group of the rupture in front
of it, and the position of a source is the number of steps that have released it
(`Step.position`).

Whatever the order of the keys, the extractors and the gates, a step shows each source the record
at its position (`Traverses`), so no record is skipped and none comes before its turn.  A run that
reaches its end has presented every record in a synchronized step, and those of an ungated source
exactly once and in order (`Presents`).  This is `drain_traverses`.
-/

namespace Lockstep

variable {ρ : Type}

namespace Step

/-- The step releases source `i`: it is synchronized, and the rupture with the place `g` among the
registered ones, if there is one, closes a group. -/
def releases (i : ℕ) (g : Option ℕ) (t : Step ρ Text) : Bool :=
  t.isSynchronized i && g.elim true fun j => (t.edges[j]?).elim false (·.2)

/-- How often source `i` has been released before step `n` of these, counted from zero. -/
def position (i : ℕ) (g : Option ℕ) (ts : List (Step ρ Text)) (n : ℕ) : ℕ :=
  (ts.take n).countP (releases i g)

section Position

variable {i : ℕ} {g : Option ℕ} {ts : List (Step ρ Text)} {n : ℕ}

theorem position_succ {t : Step ρ Text} (h : ts[n]? = some t) :
    position i g ts (n + 1) = position i g ts n + if t.releases i g then 1 else 0 := by
  rw [position, List.take_add_one, h, List.countP_append, Option.toList_some,
    List.countP_singleton]
  rfl

theorem position_append (us : List (Step ρ Text)) (h : n ≤ ts.length) :
    position i g (ts ++ us) n = position i g ts n := by
  rw [position, List.take_append_of_le_length h, position]

theorem position_take {m : ℕ} (h : n ≤ m) : position i g (ts.take m) n = position i g ts n := by
  rw [position, List.take_take, min_eq_left h, position]

/-- Behind the last step nothing is released. -/
theorem position_min : position i g ts (min n ts.length) = position i g ts n := by
  rw [position, ← List.take_eq_take_min, position]

theorem position_mono {m : ℕ} (h : m ≤ n) : position i g ts m ≤ position i g ts n := by
  refine List.Sublist.countP_le ?_
  exact (List.take_prefix_take_left h).sublist

/-- The steps made so far, or the last one. -/
theorem getElem?_concat {t u : Step ρ Text} (h : (ts ++ [t])[n]? = some u) :
    (n < ts.length ∧ ts[n]? = some u) ∨ (n = ts.length ∧ u = t) := by
  rcases lt_trichotomy n ts.length with hn | rfl | hn
  · rw [List.getElem?_append_left hn] at h
    exact Or.inl ⟨hn, h⟩
  · rw [List.getElem?_concat_length] at h
    exact Or.inr ⟨rfl, (Option.some.inj h).symm⟩
  · rw [List.getElem?_eq_none (by simp; omega)] at h
    cases h

end Position

end Step

/-- How a source goes through its records in a run that makes these steps, with its position before
each of them: a step shows the record at the position, the position goes on by one when the step
releases the source, and past the last record the source is held for ever. -/
structure Traverses (s : Supply ρ) (i : ℕ) (g : Option ℕ) (ts : List (Step ρ Text))
    (position : ℕ → ℕ) : Prop where
  start : position 0 = 0
  row : ∀ n t, ts[n]? = some t → t.row[i]? = some s.records[position n]?
  moves : ∀ n t, ts[n]? = some t →
    position (n + 1) = if t.releases i g then position n + 1 else position n
  past : ∀ m n t, m ≤ n → ts[n]? = some t → s.records.length ≤ position m →
    t.row[i]? = some none ∧ t.isSynchronized i = false

/-- The steps have presented every record of a source in a synchronized step, and those of an
ungated one exactly once and in order. -/
structure Presents (s : Supply ρ) (i : ℕ) (ts : List (Step ρ Text)) (position : ℕ → ℕ) : Prop where
  each : ∀ q < s.records.length, ∃ n t, ts[n]? = some t ∧ position n = q ∧
    t.isSynchronized i = true
  ungated : s.gate = none →
    (ts.filter (·.isSynchronized i)).map (·.row[i]?) = s.records.map fun r => some (some r)

namespace Lane

/-- What steps have shown of the lane with the number `i` and the gate `g`, and where they have left
it: its next position is the number of steps that have released it, and the records before its
coming one have been presented. -/
structure Shown (l : Lane ρ) (isOpen : Option ℕ → Bool) (i : ℕ) (g : Option ℕ)
    (ts : List (Step ρ Text)) : Prop where
  advance : l.advance isOpen = Step.position i g ts ts.length + 1
  moved : ∀ n, ts.length = n + 1 → l.moved = Step.position i g ts n + 1
  row : ∀ n t, ts[n]? = some t → t.row[i]? = some l.records[Step.position i g ts n]?
  held : ∀ n t, ts[n]? = some t → l.records.length ≤ Step.position i g ts n →
    t.isSynchronized i = false
  each : ∀ q < l.coming, ∃ n t, ts[n]? = some t ∧ Step.position i g ts n = q ∧
    t.isSynchronized i = true
  ungated : l.gate = none → (ts.filter (·.isSynchronized i)).map (·.row[i]?) =
    (l.records.take l.coming).map fun r => some (some r)

section Turn

variable {l : Lane ρ} {isOpen isOpen' : Option ℕ → Bool} {i : ℕ} {g : Option ℕ}
  {ts : List (Step ρ Text)} {t : Step ρ Text} {k : Text}

theorem shown_primed {s : Supply ρ} (h : isOpen s.gate = true) :
    (primed s).Shown isOpen i g [] where
  advance := advance_eq_succ (Or.inr h)
  moved := by simp
  row := by simp
  held := by simp
  each := by
    intro q hq
    exact absurd hq (Nat.not_lt_zero q)
  ungated := by
    intro _
    rfl

/-- A record that was due has been presented before. -/
theorem Shown.le_coming (h : l.Shown isOpen i g ts) :
    Step.position i g ts ts.length ≤ l.coming := by
  have hm := h.advance
  rcases l.advance_cases isOpen with ha | ⟨-, -, ha, -⟩ <;> omega

theorem Shown.coming_eq (h : l.Shown isOpen i g ts) (ho : isOpen l.gate = true) :
    l.coming = Step.position i g ts ts.length := by
  have hm := h.advance
  rw [advance_eq_succ (Or.inr ho)] at hm
  omega

/-- After the next step the lane shows the record at its position. -/
theorem Shown.current_turn (h : l.Shown isOpen i g ts) :
    (l.turn isOpen k).current = l.records[Step.position i g ts ts.length]? :=
  Lane.current_turn h.advance k

theorem Shown.coming_turn (h : l.Shown isOpen i g ts) : (l.turn isOpen k).coming =
    Step.position i g ts ts.length + if (l.turn isOpen k).synchronized then 1 else 0 := by
  rw [coming, turn_moved, h.advance]
  split <;> rfl

/-- A step that synchronizes the lane has a record of it. -/
theorem Shown.lt_of_synchronized (h : l.Shown isOpen i g ts)
    (hs : (l.turn isOpen k).synchronized = true) :
    Step.position i g ts ts.length < l.records.length := by
  have hm := (l.turn isOpen k).moved_le hs
  rw [turn_moved, h.advance] at hm
  exact hm

/-- The record at the position of a step is presented by it if it is synchronized. -/
theorem Shown.each_turn (h : l.Shown isOpen i g ts)
    (hsync : t.isSynchronized i = (l.turn isOpen k).synchronized) :
    ∀ q < (l.turn isOpen k).coming, ∃ n u, (ts ++ [t])[n]? = some u ∧
      Step.position i g (ts ++ [t]) n = q ∧ u.isSynchronized i = true := by
  intro q hq
  rw [h.coming_turn] at hq
  by_cases hqc : q < l.coming
  · obtain ⟨n, u, hu, hpos, hs⟩ := h.each q hqc
    have hn : n < ts.length := (List.getElem?_eq_some_iff.1 hu).1
    refine ⟨n, u, ?_, ?_, hs⟩
    · rw [List.getElem?_append_left hn, hu]
    · rw [Step.position_append _ hn.le, hpos]
  · -- the records before the position are those of earlier steps
    have hle := h.le_coming
    refine ⟨ts.length, t, List.getElem?_concat_length, ?_, ?_⟩
    · rw [Step.position_append _ le_rfl]
      split at hq <;> omega
    · rw [hsync]
      by_contra hs
      rw [if_neg hs] at hq
      omega

/-- The synchronized steps of an ungated lane show its records in order. -/
theorem Shown.ungated_turn (h : l.Shown isOpen i g ts) (ho : isOpen none = true)
    (hrow : t.row[i]? = some (l.turn isOpen k).current)
    (hsync : t.isSynchronized i = (l.turn isOpen k).synchronized) (hg : l.gate = none) :
    ((ts ++ [t]).filter (·.isSynchronized i)).map (·.row[i]?) =
      (l.records.take (l.turn isOpen k).coming).map fun r => some (some r) := by
  have hc := h.coming_eq (hg ▸ ho)
  rw [List.filter_append, List.map_append, h.ungated hg, h.coming_turn, hc]
  cases hs : (l.turn isOpen k).synchronized with
  | false =>
    have ht : [t].filter (·.isSynchronized i) = [] := by simp [hsync, hs]
    rw [ht]
    simp
  | true =>
    have ht : [t].filter (·.isSynchronized i) = [t] := by simp [hsync, hs]
    have hlt := h.lt_of_synchronized hs
    rw [ht, List.map_singleton, hrow, h.current_turn, if_pos rfl, List.take_add_one,
      List.map_append, List.getElem?_eq_getElem hlt]
    rfl

/-- One more step keeps the account. -/
theorem Shown.turn (h : l.Shown isOpen i g ts) (ho : isOpen none = true)
    (hrow : t.row[i]? = some (l.turn isOpen k).current)
    (hsync : t.isSynchronized i = (l.turn isOpen k).synchronized)
    (hrel : t.releases i g = (l.turn isOpen k).due isOpen') :
    (l.turn isOpen k).Shown isOpen' i g (ts ++ [t]) where
  advance := by
    rw [List.length_append, List.length_singleton, Step.position_succ List.getElem?_concat_length,
      Step.position_append _ le_rfl, hrel, Lane.advance, turn_moved, h.advance]
    split <;> omega
  moved := by
    intro n hn
    obtain rfl : ts.length = n := by simpa using hn
    rw [Step.position_append _ le_rfl, turn_moved, h.advance]
  row := by
    intro n u hu
    rcases Step.getElem?_concat hu with ⟨hn, hu⟩ | ⟨rfl, rfl⟩
    · rw [Step.position_append _ hn.le]
      exact h.row n u hu
    · rw [Step.position_append _ le_rfl, hrow, h.current_turn]
      rfl
  held := by
    intro n u hu hlen
    rcases Step.getElem?_concat hu with ⟨hn, hu⟩ | ⟨rfl, rfl⟩
    · rw [Step.position_append _ hn.le] at hlen
      exact h.held n u hu hlen
    · rw [Step.position_append _ le_rfl] at hlen
      rw [hsync]
      by_contra hs
      exact absurd (h.lt_of_synchronized (by simpa using hs)) (not_lt.2 hlen)
  each := h.each_turn hsync
  ungated := h.ungated_turn ho hrow hsync

end Turn

section Traverses

variable {l : Lane ρ} {isOpen : Option ℕ → Bool} {i : ℕ} {g : Option ℕ} {ts : List (Step ρ Text)}

theorem Shown.traverses (h : l.Shown isOpen i g ts) :
    Traverses l.toSupply i g ts (Step.position i g ts) where
  start := rfl
  row := h.row
  moves := by
    intro n t ht
    rw [Step.position_succ ht]
    split <;> rfl
  past := by
    intro m n t hmn ht hlen
    have hpast : l.records.length ≤ Step.position i g ts n := hlen.trans (Step.position_mono hmn)
    refine ⟨?_, h.held n t ht hpast⟩
    rw [h.row n t ht, List.getElem?_eq_none hpast]

/-- A lane with no record to come has presented all of them. -/
theorem Shown.presents (h : l.Shown isOpen i g ts) (hc : l.records.length ≤ l.coming) :
    Presents l.toSupply i ts (Step.position i g ts) where
  each := by
    intro q hq
    exact h.each q (lt_of_lt_of_le hq hc)
  ungated := by
    intro hg
    rw [h.ungated hg, List.take_of_length_le hc]

end Traverses

end Lane

namespace Engine

variable {e d : Engine ρ Text} {ss : List (Supply ρ)}

/-- The last edge that a step shows of a registered rupture. -/
theorem snapshot_edge {j : ℕ} (hj : j ∈ d.sync.ruptures)
    (hp : ∀ j ∈ d.sync.ruptures, j < d.pool.ruptures.length) (n : ℕ) :
    (((d.snapshot n).edges[d.sync.ruptures.idxOf j]?).elim false (·.2)) =
      d.opens (some j) := by
  have he : (d.snapshot n).edges =
      d.sync.ruptures.map fun j => (d.pool.ruptures[j]?).elim (false, false) (·.edges) :=
    Pool.edges_eq_map hp
  have hi : d.sync.ruptures.idxOf j < d.sync.ruptures.length := List.idxOf_lt_length_of_mem hj
  rw [he, List.getElem?_map, List.getElem?_eq_getElem hi, List.getElem_idxOf]
  simp [opens, Pool.opens, hp j hj, Rupture.edges]

theorem releases_snapshot {ls : List (Lane ρ)} {i : ℕ} {l : Lane ρ} (hs : d.Stages ls)
    (hl : ls[i]? = some l) (hg : ∀ j, l.gate = some j → j ∈ d.sync.ruptures)
    (hp : ∀ j ∈ d.sync.ruptures, j < d.pool.ruptures.length) (n : ℕ) :
    (d.snapshot n).releases i (l.gate.map d.sync.ruptures.idxOf) =
      l.due d.opens := by
  rw [Step.releases, snapshot_isSynchronized hs, hl, Lane.due]
  cases hj : l.gate with
  | none => rfl
  | some j =>
    rw [← snapshot_edge (hg j hj) hp n]
    rfl

section Turn

variable (h : e.Prepared ss) (hg : e.Gated ss) {d' : Engine ρ Text} {ls : List (Lane ρ)} {k : Text}
  {n : ℕ} (hd' : e.after (n + 1) = some d') (hs : d.Stages ls)
  (hj : d.sync.ruptures = e.sync.ruptures) (hss : ls.map Lane.toSupply = ss)
  (hk : Lane.frontier ls = .key k) (ht : d.turn = (d', .ok ())) {i : ℕ} {l : Lane ρ}
  (hl : ls[i]? = some l)

include h hg hd' hs hj hss hk ht hl

/-- A step releases the sources whose lanes are due after it. -/
theorem turn_releases : (d'.snapshot (n + 1)).releases i (l.gate.map e.sync.ruptures.idxOf) =
    (l.turn d.opens k).due d'.opens := by
  obtain ⟨hs', -, hj'⟩ := turn_stages hs hk ht
  have hmem : l.toSupply ∈ ss := hss ▸ List.mem_map_of_mem (List.mem_of_getElem? hl)
  have hturned : (Lane.turnAll d.opens k ls)[i]? = some (l.turn d.opens k) := by
    rw [Lane.getElem?_turnAll, hl, Option.map_some]
  have hlt := h.after_ruptures_lt hg.opens hd'
  rw [← hj, ← hj'] at hlt
  have hrel := releases_snapshot hs' hturned (fun j hgj => hj' ▸ hj ▸ (hg l.toSupply hmem j hgj).1)
    hlt (n + 1)
  rwa [hj', hj] at hrel

/-- A turn leaves a lane where its step leaves it. -/
theorem shown_turn
    (hm : l.Shown d.opens i (l.gate.map e.sync.ruptures.idxOf) (e.drain n .fresh).result) :
    (l.turn d.opens k).Shown d'.opens i (l.gate.map e.sync.ruptures.idxOf)
      (e.drain (n + 1) .fresh).result := by
  rw [drain_succ h.unstarted hd']
  exact hm.turn rfl (turn_row hs hk ht (n + 1) hl) (turn_isSynchronized hs hk ht (n + 1) hl)
    (turn_releases h hg hd' hs hj hss hk ht hl)

end Turn

/-- After every step each lane stands where the steps so far have left it. -/
theorem shown_of_after (h : e.Prepared ss) (hg : e.Gated ss) {n : ℕ} (hd : e.after n = some d) :
    ∃ ls, d.Stages ls ∧ ls.map Lane.toSupply = ss ∧ ∀ (i : ℕ) (l : Lane ρ), ls[i]? = some l →
      l.Shown d.opens i (l.gate.map e.sync.ruptures.idxOf) (e.drain n .fresh).result := by
  obtain ⟨ls, hs, -, hss, hm⟩ := h.after_induction hg.opens (motive := fun n d ls =>
      ∀ (i : ℕ) (l : Lane ρ), ls[i]? = some l →
        l.Shown d.opens i (l.gate.map e.sync.ruptures.idxOf) (e.drain n .fresh).result)
    (by
      intro d _ hr i l hl
      obtain ⟨s, hs, rfl⟩ := List.mem_map.1 (List.mem_of_getElem? hl)
      rw [opens_congr hr]
      exact Lane.shown_primed (hg.opens s hs))
    (by
      intro n d d' ls k _ hd' hs hj hss hk ht hm i l' hl'
      rw [Lane.getElem?_turnAll] at hl'
      obtain ⟨l, hl, rfl⟩ := Option.map_eq_some_iff.1 hl'
      exact shown_turn h hg hd' hs hj hss hk ht hl (hm i l hl)) hd
  exact ⟨ls, hs, hss, hm⟩

/-- After each of its steps a run has left every source with the record at its position current. -/
theorem source_of_getElem? (h : e.Prepared ss) (hg : e.Gated ss) {budget : ℕ} {i : ℕ}
    {s : Supply ρ} (hs : ss[i]? = some s) {n : ℕ} {t : Step ρ Text}
    (ht : (e.drain budget .fresh).result[n]? = some t) :
    (e.drain (n + 1) .fresh).engine.source i =
      some (s.source (Step.position i (s.gate.map e.sync.ruptures.idxOf)
        (e.drain budget .fresh).result n + 1) (t.isSynchronized i)) := by
  obtain ⟨hn, d, hd, rfl⟩ := exists_after_of_getElem? h.unstarted ht
  obtain ⟨ls, hls, hss, hm⟩ := shown_of_after h hg hd
  rw [← hss, List.getElem?_map] at hs
  obtain ⟨l, hl, rfl⟩ := Option.map_eq_some_iff.1 hs
  have hmoved := (hm i l hl).moved n (drain_length h.unstarted hd)
  rw [← drain_take h.unstarted hn, Step.position_take (Nat.le_succ n)] at hmoved
  rw [drain_engine h.unstarted hd, hls.source, snapshot_isSynchronized hls, hl, ← hmoved]
  rfl

/-- Each of its steps shows the record at the position of a source. -/
theorem row_of_getElem? (h : e.Prepared ss) (hg : e.Gated ss) {budget : ℕ} {i : ℕ}
    {s : Supply ρ} (hs : ss[i]? = some s) {n : ℕ} {t : Step ρ Text}
    (ht : (e.drain budget .fresh).result[n]? = some t) :
    t.row[i]? = some s.records[Step.position i (s.gate.map e.sync.ruptures.idxOf)
      (e.drain budget .fresh).result n]? := by
  obtain ⟨hn, d, hd, -⟩ := exists_after_of_getElem? h.unstarted ht
  have htake := drain_take h.unstarted (show n + 1 ≤ budget from hn)
  obtain ⟨ls, -, hss, hm⟩ := shown_of_after h hg hd
  rw [← hss, List.getElem?_map] at hs
  obtain ⟨l, hl, rfl⟩ := Option.map_eq_some_iff.1 hs
  have hrow := (hm i l hl).row n t
  rw [← htake, List.getElem?_take_of_lt (Nat.lt_succ_self n),
    Step.position_take (Nat.le_succ n)] at hrow
  exact hrow ht

/-- A run that has come to its end has moved every source past its last record and presented all of
them. -/
theorem presents_of_ended (h : e.Prepared ss) (hg : e.Gated ss) {budget : ℕ}
    (hended : (e.drain budget .fresh).ended = true)
    (hok : (e.drain budget .fresh).outcome = .ok ()) {i : ℕ} {s : Supply ρ} (hs : ss[i]? = some s) :
    (∃ m b, s.records.length ≤ m ∧ (e.drain budget .fresh).engine.source i = some (s.source m b)) ∧
      Presents s i (e.drain budget .fresh).result
        (Step.position i (s.gate.map e.sync.ruptures.idxOf) (e.drain budget .fresh).result) := by
  obtain ⟨n, d, hd, hres, hcase⟩ := h.drain_cases hg.opens budget
  obtain ⟨ls, hls, hss, hm⟩ := shown_of_after h hg hd
  rw [← hss, List.getElem?_map] at hs
  obtain ⟨l, hl, rfl⟩ := Option.map_eq_some_iff.1 hs
  have hshown := hm i l hl
  rw [← hres] at hshown
  rcases hcase with ⟨h', -⟩ | ⟨-, -, -, heng, he⟩ | ⟨-, -, -, f, hf, -⟩
  · cases hended.symm.trans h'
  · have hdone := Lane.candidate_eq_done (hls.ended_iff.1 he) (List.mem_of_getElem? hl)
    have hcoming := l.keyAt_eq_done_iff.1 hdone
    refine ⟨⟨l.moved, l.synchronized, hcoming.trans l.coming_le_moved, ?_⟩, hshown.presents hcoming⟩
    rw [heng, hls.source, hl]
    rfl
  · cases hok.symm.trans hf

/-- **No record is lost, skipped or reordered.**  Every source goes through its records one by one,
whatever the keys, the extractors and the gates, its own state after each step being that of its
position; and when the run is at its end it has presented all of them, those of an ungated source
exactly once and in order. -/
theorem drain_traverses (h : e.Prepared ss) (hg : e.Gated ss) (budget : ℕ) {i : ℕ} {s : Supply ρ}
    (hs : ss[i]? = some s) :
    let r := e.drain budget .fresh
    ∃ position, Traverses s i (s.gate.map e.sync.ruptures.idxOf) r.result position ∧
      (∀ n t, r.result[n]? = some t → (e.drain (n + 1) .fresh).engine.source i =
        some (s.source (position n + 1) (t.isSynchronized i))) ∧
      (r.ended = true → r.outcome = .ok () → Presents s i r.result position) := by
  intro r
  obtain ⟨n, d, hd, hres, hcase⟩ := h.drain_cases hg.opens budget
  obtain ⟨ls, hls, hss, hm⟩ := shown_of_after h hg hd
  have hi : (ls.map Lane.toSupply)[i]? = some s := hss ▸ hs
  rw [List.getElem?_map] at hi
  obtain ⟨l, hl, rfl⟩ := Option.map_eq_some_iff.1 hi
  have hshown := hm i l hl
  rw [← hres] at hshown
  refine ⟨_, hshown.traverses, fun n t ht => source_of_getElem? h hg hs ht,
    fun hended hok => hshown.presents ?_⟩
  rcases hcase with ⟨h', -⟩ | ⟨-, -, -, -, he⟩ | ⟨-, -, -, f, hf, -⟩
  · cases hended.symm.trans h'
  · have hdone := Lane.candidate_eq_done (hls.ended_iff.1 he) (List.mem_of_getElem? hl)
    exact l.keyAt_eq_done_iff.1 hdone
  · cases hok.symm.trans hf

/-- A master list behind the rupture of the first letter, the last of its records without a
group. -/
theorem drain_traverses_masters :
    let ss : List (Supply Text) := [.ofList [['a', '1'], ['a', '2'], ['b', '1']] id none,
      .ofList [['a'], ['c']] id (some 0)]
    let e := ofLists ss [.fresh ['g'] (Rupture.leading 1)]
    let s : Supply Text := .ofList [['a'], ['c']] id (some 0)
    e.Prepared ss ∧ e.Gated ss ∧ ∃ position,
      Traverses s 1 (some 0) (e.drain 10 .fresh).result position ∧
      Presents s 1 (e.drain 10 .fresh).result position := by
  intro ss e s
  have hp : e.Prepared ss := prepared_ofLists ss _
  have hg : e.Gated ss := by
    refine gated_ofLists ?_ ?_
    · simp [ss, Supply.ofList]
    · simp
  obtain ⟨position, ht, -, hc⟩ := drain_traverses hp hg 10 (show ss[1]? = some s from rfl)
  exact ⟨hp, hg, position, ht, hc (by decide +kernel) (by decide +kernel)⟩

end Engine

end Lockstep
