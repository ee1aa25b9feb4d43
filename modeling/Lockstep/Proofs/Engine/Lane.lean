import Lockstep.Engine.Source
import Lockstep.Proofs.Key.Order

/-!
# Lanes: sources of finitely many records

A `Supply` is what a fresh source is made of when nothing can fail: a feed that delivers finitely
many records and is exhausted afterwards, the key of each record, and the gate.  After its first
pull such a source only depends on how often it has moved on and on whether it is synchronized
(`Supply.source`), and reading and comparing it changes just these two (`read_source_due`,
`synchronize_source`).

A `Lane` is a supply with these two, and carries what holds of them in every run: a held source
has moved, no source moves past the end, and one that is past the end is held.  `Lane.turn` is
what a step does to a lane.

* `coming` counts the records that are done with once the lane moves on: the lane takes part in
  the next step with the key of record number `coming` (`candidate_source`).
* `advance_eq_succ`: unless the lane is kept at a closed gate, that record is the current one after
  the next read.

The key of the next step is the least with which the lanes take part in it (`Lane.frontier`).
-/

namespace Lockstep

namespace Feed

variable {ρ : Type}

/-- The feed after `n` pulls. -/
def pulled (f : Feed ρ) : ℕ → Feed ρ
  | 0 => f
  | n + 1 => (f.pulled n).pull.2

/-- The feed delivers these records and is exhausted afterwards. -/
def Delivers : Feed ρ → List ρ → Prop
  | f, [] => f.pull.1 = .exhausted
  | f, r :: rs => f.pull.1 = .record r ∧ Delivers f.pull.2 rs

theorem pulled_succ (f : Feed ρ) (n : ℕ) : f.pulled (n + 1) = f.pull.2.pulled n := by
  induction n with
  | zero => rfl
  | succ n ih => rw [pulled, ih, pulled]

theorem Delivers.pull_pulled {f : Feed ρ} {rs : List ρ} (h : f.Delivers rs) {n : ℕ}
    (hn : n ≤ rs.length) :
    (f.pulled n).pull.1 = (rs[n]?).elim .exhausted .record := by
  induction rs generalizing f n with
  | nil =>
    obtain rfl : n = 0 := by simpa using hn
    exact h
  | cons r rs ih =>
    cases n with
    | zero => exact h.1
    | succ n =>
      rw [pulled_succ, ih h.2 (by simpa using hn), List.getElem?_cons_succ]

theorem delivers_ofList (rs : List ρ) : (ofList rs).Delivers rs := by
  induction rs with
  | nil => rfl
  | cons r rs ih => exact ⟨rfl, ih⟩

/-- A channel that is closed delivers what was put into it before the close. -/
theorem delivers_channel {timeout : ℤ} (h : 0 ≤ timeout) (rs : List ρ) (ps : List (Parcel ρ)) :
    (channel timeout (rs.map .record ++ .closed :: ps)).Delivers rs := by
  have ht : ¬ timeout < 0 := by omega
  induction rs with
  | nil => simp [Delivers, pull, ht]
  | cons r rs ih => simpa [Delivers, pull, ht] using ih

end Feed

/-- What a fresh source is made of: a feed of finitely many records, the key of each, and the
number of the rupture in front, if there is one. -/
structure Supply (ρ : Type) where
  feed : Feed ρ
  records : List ρ
  key : ρ → Text
  gate : Option ℕ
  delivers : feed.Delivers records

namespace Supply

variable {ρ : Type}

/-- The supply of a list. -/
def ofList (records : List ρ) (key : ρ → Text) (gate : Option ℕ) : Supply ρ :=
  ⟨.ofList records, records, key, gate, Feed.delivers_ofList records⟩

variable (s : Supply ρ)

/-- The source before its first read. -/
def fresh : Source ρ Text := .fresh s.feed (fun r => .ok (.key (s.key r))) s.gate

/-- The key of record number `n`, the mark behind the last one. -/
def keyAt (n : ℕ) : Frontier Text := (s.records[n]?).elim .done fun r => .key (s.key r)

/-- The record that is current after `m` moves. -/
def recordAt : ℕ → Option ρ
  | 0 => none
  | q + 1 => s.records[q]?

/-- The key of the record that is current after `m` moves. -/
def headAt : ℕ → Frontier Text
  | 0 => .start
  | q + 1 => s.keyAt q

/-- The source after `m` moves from its first pull on. -/
def source (m : ℕ) (synchronized : Bool) : Source ρ Text where
  feed := s.feed.pulled (min (m + 1) (s.records.length + 1))
  keyer := fun r => .ok (.key (s.key r))
  gate := s.gate
  synchronized := synchronized
  current := s.recordAt m
  currentKey := s.headAt m
  next := s.records[m]?
  nextKey := s.keyAt m
  exhausted := (s.records[m]?).isNone
  pulls := min (m + 1) (s.records.length + 1)

theorem keyAt_of_lt {n : ℕ} (h : n < s.records.length) : s.keyAt n = .key (s.key s.records[n]) := by
  simp [keyAt, h]

theorem keyAt_of_get {n : ℕ} {r : ρ} (h : s.records[n]? = some r) :
    s.keyAt n = .key (s.key r) := by
  simp [keyAt, h]

theorem keyAt_eq_done_iff {n : ℕ} : s.keyAt n = .done ↔ s.records.length ≤ n := by
  constructor
  · intro h
    by_contra hn
    rw [s.keyAt_of_lt (by omega)] at h
    cases h
  · intro h
    simp [keyAt, List.getElem?_eq_none h]

theorem lt_of_keyAt_ne_done {n : ℕ} (h : s.keyAt n ≠ .done) : n < s.records.length :=
  not_le.1 fun hn => h (s.keyAt_eq_done_iff.2 hn)

/-- What a pull leaves when it brings `o`, `none` standing for the end. -/
theorem fill_eq {t : Source ρ Text} {o : Option ρ} (hk : t.keyer = fun r => .ok (.key (s.key r)))
    (hp : t.feed.pull.1 = o.elim .exhausted .record) (he : t.exhausted = false) :
    t.fill = ({ t with
      feed := t.feed.pull.2
      pulls := t.pulls + 1
      next := o
      nextKey := o.elim .done fun r => .key (s.key r)
      exhausted := o.isNone }, .ok ()) := by
  cases o with
  | none => simp [Source.fill, show t.feed.pull.1 = .exhausted from hp]
  | some r => simp [Source.fill, show t.feed.pull.1 = .record r from hp, hk, he]

theorem read_fresh : s.fresh.read true = (s.source 0 true, .ok ()) := by
  have hp := s.delivers.pull_pulled (n := 0) (Nat.zero_le _)
  have hf : s.fresh.shift.fill = _ := s.fill_eq (o := s.records[0]?) rfl hp rfl
  show s.fresh.shift.fill = _
  rw [hf]
  simp [source, fresh, Source.fresh, Source.shift, Feed.pulled, headAt, recordAt, keyAt]

/-- A source that is due moves on by one record. -/
theorem read_source_due (m : ℕ) :
    (s.source m true).read true = (s.source (m + 1) true, .ok ()) := by
  by_cases hm : s.records.length ≤ m
  · have he : (s.source m true).exhausted = true := by simp [source, hm]
    rw [Source.read_of_exhausted rfl he]
    simp [source, Source.shift, headAt, recordAt, keyAt, hm, Nat.le_succ_of_le hm]
  · have he : (s.source m true).exhausted = false := by simp [source]; omega
    have h1 : min (m + 1) (s.records.length + 1) = m + 1 := by omega
    have h2 : min (m + 1 + 1) (s.records.length + 1) = m + 1 + 1 := by omega
    have hp : (s.source m true).shift.feed.pull.1 =
        (s.records[m + 1]?).elim .exhausted .record := by
      simp only [source, Source.shift, h1]
      exact s.delivers.pull_pulled (n := m + 1) (by omega)
    have hf : (s.source m true).shift.fill = _ := s.fill_eq rfl hp he
    have hr : (s.source m true).read true = (s.source m true).shift.fill := by
      rw [Source.read, if_pos (show (s.source m true).due true = true from rfl), he]
      rfl
    rw [hr, hf]
    simp only [source, Source.shift, h1, h2, headAt, recordAt, keyAt, Feed.pulled]

theorem synchronize_source (m : ℕ) (b : Bool) (key : Frontier Text) :
    (s.source m b).synchronize key = (s.source m ((s.headAt m).agrees key), .ok ()) := by
  simp [Source.synchronize, source, Frontier.agree_eq]

end Supply

/-- A supply in the course of a run, between two steps. -/
structure Lane (ρ : Type) extends Supply ρ where
  /-- How often the source has moved on since its first pull. -/
  moved : ℕ
  synchronized : Bool
  moved_pos : synchronized = false → 0 < moved
  moved_le_succ : moved ≤ records.length + 1
  moved_le : synchronized = true → moved ≤ records.length

namespace Lane

variable {ρ : Type} (l : Lane ρ)

/-- The lane of a supply whose first record has been pulled. -/
def primed (s : Supply ρ) : Lane ρ := ⟨s, 0, true, by simp, by omega, by omega⟩

/-- The source of a lane. -/
def source : Source ρ Text := l.toSupply.source l.moved l.synchronized

/-- The current record. -/
def current : Option ρ := l.recordAt l.moved

/-- The key of the current record. -/
def head : Frontier Text := l.headAt l.moved

/-- The number of the record with which the lane takes part in the next step. -/
def coming : ℕ := if l.synchronized then l.moved else l.moved - 1

/-- The key with which the lane takes part in the next step. -/
def candidate : Frontier Text := l.keyAt l.coming

/-- Whether the lane moves on at the next read, given which gates are open. -/
def due (isOpen : Option ℕ → Bool) : Bool := l.synchronized && isOpen l.gate

/-- How often the lane has moved on after the next read. -/
def advance (isOpen : Option ℕ → Bool) : ℕ := if l.due isOpen then l.moved + 1 else l.moved

theorem advance_le_succ (isOpen : Option ℕ → Bool) : l.advance isOpen ≤ l.records.length + 1 := by
  unfold advance
  split
  · rename_i h
    have := l.moved_le (Bool.and_eq_true_iff.1 h).1
    omega
  · exact l.moved_le_succ

/-- What a step with key `k` makes of a lane, given which gates are open before it. -/
def turn (isOpen : Option ℕ → Bool) (k : Text) : Lane ρ where
  toSupply := l.toSupply
  moved := l.advance isOpen
  synchronized := (l.headAt (l.advance isOpen)).agrees (.key k)
  moved_pos := by
    intro h
    by_contra hm
    rw [Nat.eq_zero_of_not_pos hm] at h
    simp [Supply.headAt] at h
  moved_le_succ := l.advance_le_succ isOpen
  moved_le := by
    intro h
    cases hm : l.advance isOpen with
    | zero => exact Nat.zero_le _
    | succ q =>
      rw [hm] at h
      exact l.lt_of_keyAt_ne_done fun hd => by simp [Supply.headAt, hd] at h

section Turn

variable (isOpen : Option ℕ → Bool) (k : Text)

@[simp] theorem turn_toSupply : (l.turn isOpen k).toSupply = l.toSupply := rfl

@[simp] theorem turn_moved : (l.turn isOpen k).moved = l.advance isOpen := rfl

theorem turn_synchronized :
    (l.turn isOpen k).synchronized = (l.turn isOpen k).head.agrees (.key k) := rfl

end Turn

theorem candidate_source : l.source.candidate = l.candidate := by
  cases hs : l.synchronized with
  | true => simp [source, Supply.source, Source.candidate, candidate, coming, hs]
  | false =>
    obtain ⟨q, hq⟩ := Nat.exists_eq_succ_of_ne_zero (l.moved_pos hs).ne'
    simp [source, Supply.source, Source.candidate, candidate, coming, hs, hq, Supply.headAt]

theorem read_source (isOpen : Option ℕ → Bool) :
    l.source.read (isOpen l.gate) =
      (l.toSupply.source (l.advance isOpen) l.synchronized, .ok ()) := by
  cases hd : l.due isOpen with
  | true =>
    obtain ⟨hs, ho⟩ := Bool.and_eq_true_iff.1 hd
    simp only [source, advance, hd, hs, ho, if_true]
    exact l.read_source_due l.moved
  | false =>
    rw [Source.read_of_not_due (show l.source.due (isOpen l.gate) = false from hd)]
    simp [source, advance, hd]

theorem coming_le : l.coming ≤ l.records.length := by
  unfold coming
  split
  · rename_i h
    exact l.moved_le h
  · have := l.moved_le_succ
    omega

theorem coming_le_moved : l.coming ≤ l.moved := by
  unfold coming
  split <;> omega

theorem moved_le_coming_succ : l.moved ≤ l.coming + 1 := by
  unfold coming
  split <;> omega

theorem moved_le_advance (isOpen : Option ℕ → Bool) : l.moved ≤ l.advance isOpen := by
  unfold advance
  split <;> omega

theorem coming_of_synchronized {l : Lane ρ} (h : l.synchronized = true) : l.coming = l.moved := by
  simp [coming, h]

theorem moved_of_held {l : Lane ρ} (h : l.synchronized = false) : l.moved = l.coming + 1 := by
  have := l.moved_pos h
  simp only [coming, h, Bool.false_eq_true, if_false]
  omega

/-- A held lane takes part in the next step with its current key. -/
theorem head_of_held {l : Lane ρ} (h : l.synchronized = false) : l.head = l.candidate := by
  rw [head, moved_of_held h]
  rfl

/-- A lane that is due or held presents its coming record after the next read. -/
theorem advance_eq_succ {l : Lane ρ} {isOpen : Option ℕ → Bool}
    (h : l.synchronized = false ∨ isOpen l.gate = true) : l.advance isOpen = l.coming + 1 := by
  cases hs : l.synchronized with
  | true =>
    rw [coming_of_synchronized hs]
    simp [advance, due, hs, h.resolve_left (by simp [hs])]
  | false => simp [advance, due, hs, moved_of_held hs]

theorem advance_of_closed {l : Lane ρ} {isOpen : Option ℕ → Bool}
    (h : isOpen l.gate = false) : l.advance isOpen = l.moved := by
  simp [advance, due, h]

/-- At the next read a lane comes to its coming record, unless a closed gate keeps it at a
synchronized one. -/
theorem advance_cases (isOpen : Option ℕ → Bool) : l.advance isOpen = l.coming + 1 ∨
    (l.synchronized = true ∧ isOpen l.gate = false ∧ l.advance isOpen = l.coming ∧
      l.coming = l.moved) := by
  by_cases ho : l.synchronized = false ∨ isOpen l.gate = true
  · exact Or.inl (advance_eq_succ ho)
  · obtain ⟨hs, ho⟩ := not_or.1 ho
    have hs : l.synchronized = true := by simpa using hs
    have hc : isOpen l.gate = false := by simpa using ho
    have hcoming := coming_of_synchronized hs
    exact Or.inr ⟨hs, hc, (advance_of_closed hc).trans hcoming.symm, hcoming⟩

section Turn

variable {l : Lane ρ} {isOpen : Option ℕ → Bool} {p : ℕ} (h : l.advance isOpen = p + 1) (k : Text)

include h

theorem current_turn : (l.turn isOpen k).current = l.records[p]? := by
  rw [current, turn_moved, h]
  rfl

theorem head_turn : (l.turn isOpen k).head = l.keyAt p := by
  rw [head, turn_moved, h]
  rfl

end Turn

/-- A lane that is synchronized with a key has a current record. -/
theorem exists_record_of_agrees {l : Lane ρ} (hm : 0 < l.moved) {k : Text}
    (h : l.head.agrees (.key k) = true) :
    ∃ r, l.current = some r ∧ l.head = .key (l.key r) := by
  obtain ⟨q, hq⟩ := Nat.exists_eq_succ_of_ne_zero hm.ne'
  have hlt : q < l.records.length := l.lt_of_keyAt_ne_done fun hd => by
    simp [head, hq, Supply.headAt, hd] at h
  refine ⟨l.records[q], ?_, ?_⟩
  · simp [current, hq, Supply.recordAt, hlt]
  · rw [head, hq]
    exact l.keyAt_of_lt hlt

/-! ### The lanes together -/

/-- What a step with key `k` makes of the lanes, given which gates are open before it. -/
def turnAll (isOpen : Option ℕ → Bool) (k : Text) (ls : List (Lane ρ)) : List (Lane ρ) :=
  ls.map fun l => l.turn isOpen k

/-- The key of the next step: the least with which the lanes take part in it. -/
def frontier (ls : List (Lane ρ)) : Frontier Text := Frontier.lowest (ls.map candidate)

section TurnAll

variable {isOpen : Option ℕ → Bool} {k : Text} {ls : List (Lane ρ)}

theorem map_turnAll {α : Type} (f : Lane ρ → α) :
    (turnAll isOpen k ls).map f = ls.map fun l => f (l.turn isOpen k) := by
  rw [turnAll, List.map_map]
  rfl

theorem turn_mem_turnAll {l : Lane ρ} (h : l ∈ ls) : l.turn isOpen k ∈ turnAll isOpen k ls :=
  List.mem_map_of_mem h

theorem forall_mem_turnAll {p : Lane ρ → Prop} :
    (∀ l ∈ turnAll isOpen k ls, p l) ↔ ∀ l ∈ ls, p (l.turn isOpen k) := List.forall_mem_map

theorem getElem?_turnAll (i : ℕ) :
    (turnAll isOpen k ls)[i]? = (ls[i]?).map fun l => l.turn isOpen k := List.getElem?_map

theorem toSupply_turnAll : (turnAll isOpen k ls).map toSupply = ls.map toSupply :=
  map_turnAll toSupply

end TurnAll

variable {ls : List (Lane ρ)}

theorem frontier_le {l : Lane ρ} (h : l ∈ ls) : frontier ls ≤ l.candidate :=
  Frontier.lowest_le (List.mem_map_of_mem h)

theorem le_frontier {a : Frontier Text} (h : ∀ l ∈ ls, a ≤ l.candidate) : a ≤ frontier ls :=
  Frontier.le_lowest_iff.2 (List.forall_mem_map.2 h)

theorem exists_candidate_eq_frontier (h : frontier ls ≠ .done) :
    ∃ l ∈ ls, l.candidate = frontier ls :=
  List.mem_map.1 (Frontier.lowest_mem h)

theorem frontier_ne_done {l : Lane ρ} (hl : l ∈ ls) (h : l.candidate ≠ .done) :
    frontier ls ≠ .done := by
  intro hf
  exact h (le_antisymm (Frontier.le_done _) (hf ▸ frontier_le hl))

theorem candidate_eq_done (h : frontier ls = .done) {l : Lane ρ} (hl : l ∈ ls) :
    l.candidate = .done :=
  of_not_not fun hc => frontier_ne_done hl hc h

end Lane

end Lockstep
