import Mathlib.Data.List.Pairwise
import Lockstep.Proofs.Engine.Group

/-!
# The frontier of ungated sources

The keys of ungated sources in order may have any length, and one may begin with another.  In a run
over them the frontier never goes back: the keys of the steps do not decrease, and the next key that
a step has found is not lower than its own.  At each step some source has the key of the step, the
keys of the synchronized sources begin with it, and a held source is ahead, its key being greater
(`Fronts`).  This is `drain_frontier`.

A synchronized source is never behind, although agreeing does not tell which of two keys begins with
the other: an ungated source comes to a step with the key with which it has taken part in choosing
the key of the step, and that one is the least.
-/

namespace Lockstep

variable {ρ : Type}

/-- How a step with key `k` leaves the engine: what the step shows of the sources is what they are,
some source has the key `k`, those of the synchronized ones begin with it, those of the held ones
are greater, and the next key `next` is not lower. -/
structure Fronts (d : Engine ρ Text) (sources : ℕ) (t : Step ρ Text) (k : Text)
    (next : Frontier Text) : Prop where
  key : t.key = .key k
  shows : ∀ i < sources, ∃ s, d.source i = some s ∧ t.isSynchronized i = s.synchronized ∧
    t.row[i]? = some s.current
  present : ∃ i s, d.source i = some s ∧ s.synchronized = true ∧ s.currentKey = .key k
  synchronized : ∀ i s, d.source i = some s → s.synchronized = true →
    ∃ a, s.currentKey = .key a ∧ k <+: a
  held : ∀ i s, d.source i = some s → s.synchronized = false → .key k < s.currentKey
  nextKey : d.sync.nextKey = some next
  le_next : .key k ≤ next

namespace Lane

variable {l : Lane ρ} {isOpen : Option ℕ → Bool} {k : Text} (ho : isOpen l.gate = true)

include ho

/-- A lane whose gate is open comes to the step with its candidate. -/
theorem head_turn_eq_candidate : (l.turn isOpen k).head = l.candidate :=
  head_turn (advance_eq_succ (Or.inr ho)) k

variable (hf : .key k ≤ l.candidate)

include hf

theorem exists_prefix_of_synchronized_turn (hs : (l.turn isOpen k).synchronized = true) :
    ∃ a, (l.turn isOpen k).head = .key a ∧ k <+: a := by
  refine Frontier.exists_prefix_of_agrees hs ?_
  rwa [head_turn_eq_candidate ho]

theorem lt_head_of_held_turn (hs : (l.turn isOpen k).synchronized = false) :
    .key k < (l.turn isOpen k).head := by
  refine lt_of_le_of_ne ?_ fun heq => ?_
  · rwa [head_turn_eq_candidate ho]
  · rw [turn_synchronized, ← heq, Frontier.agrees_self] at hs
    cases hs

end Lane

/-- Steps whose keys do not decrease from one to the next are in order. -/
theorem Step.pairwise_key {ts : List (Step ρ Text)}
    (h : ∀ n t u, ts[n]? = some t → ts[n + 1]? = some u → t.key ≤ u.key) :
    (ts.map (·.key)).Pairwise (· ≤ ·) := by
  refine List.isChain_iff_pairwise.1 (List.isChain_iff_getElem.2 fun n hn => ?_)
  rw [List.length_map] at hn
  rw [List.getElem_map, List.getElem_map]
  exact h n _ _ (List.getElem?_eq_getElem (by omega)) (List.getElem?_eq_getElem hn)

namespace Engine

variable {e d d' : Engine ρ Text} {ss : List (Supply ρ)} {ls : List (Lane ρ)} {k : Text}

/-- What a turn over ungated lanes in order leaves. -/
theorem Stages.fronts (h : d.Stages ls) (hk : Lane.frontier ls = .key k)
    (ht : d.turn = (d', .ok ())) (hg : ∀ l ∈ ls, l.gate = none)
    (hs : ∀ l ∈ ls, (l.records.map l.key).Pairwise (· ≤ ·)) (n : ℕ) :
    Fronts d' ls.length (d'.snapshot n) k (Lane.frontier (Lane.turnAll d.opens k ls)) := by
  obtain ⟨h', -, -⟩ := turn_stages h hk ht
  have hle : ∀ l ∈ ls, .key k ≤ l.candidate := fun l hl => hk ▸ Lane.frontier_le hl
  have ho : ∀ l ∈ ls, d.opens l.gate = true := by
    intro l hl
    rw [hg l hl]
    rfl
  have source : ∀ i s, d'.source i = some s → ∃ l ∈ ls, s = (l.turn d.opens k).source := by
    intro i s hi
    rw [h'.source, Lane.getElem?_turnAll, Option.map_map] at hi
    obtain ⟨l, hl, rfl⟩ := Option.map_eq_some_iff.1 hi
    exact ⟨l, List.mem_of_getElem? hl, rfl⟩
  refine ⟨turn_key h hk ht n, ?_, ?_, ?_, ?_, h'.nextKey, ?_⟩
  · intro i hi
    have hl := List.getElem?_eq_getElem hi
    refine ⟨(ls[i].turn d.opens k).source, ?_, ?_, ?_⟩
    · rw [h'.source, Lane.getElem?_turnAll, hl]
      rfl
    · exact turn_isSynchronized h hk ht n hl
    · exact turn_row h hk ht n hl
  · -- the source from which the key of the step was chosen
    obtain ⟨l, hl, hc⟩ : ∃ l ∈ ls, l.candidate = Lane.frontier ls :=
      Lane.exists_candidate_eq_frontier (by simp [hk])
    obtain ⟨i, hi⟩ := List.mem_iff_getElem?.1 hl
    have hhead : (l.turn d.opens k).head = .key k := by
      rw [Lane.head_turn_eq_candidate (ho l hl), hc, hk]
    refine ⟨i, (l.turn d.opens k).source, ?_, ?_, hhead⟩
    · rw [h'.source, Lane.getElem?_turnAll, hi]
      rfl
    · show (l.turn d.opens k).synchronized = true
      rw [Lane.turn_synchronized, hhead, Frontier.agrees_self]
  · intro i s hi hsync
    obtain ⟨l, hl, rfl⟩ := source i s hi
    exact Lane.exists_prefix_of_synchronized_turn (ho l hl) (hle l hl) hsync
  · intro i s hi hheld
    obtain ⟨l, hl, rfl⟩ := source i s hi
    exact Lane.lt_head_of_held_turn (ho l hl) (hle l hl) hheld
  · refine Lane.le_frontier (Lane.forall_mem_turnAll.2 fun l hl => ?_)
    exact Lane.le_candidate_turn (ho l hl) (hle l hl) (hs l hl)

section Run

variable (h : e.Prepared ss) (hg : ∀ s ∈ ss, s.gate = none)
  (hs : ∀ s ∈ ss, (s.records.map s.key).Pairwise (· ≤ ·))

include h hg hs

theorem fronts_of_getElem? {budget n : ℕ} {t : Step ρ Text}
    (ht : (e.drain budget .fresh).result[n]? = some t) : ∃ k,
      Fronts (e.drain (n + 1) .fresh).engine ss.length t k (e.frontierAfter (n + 1)) := by
  obtain ⟨d, d', ls, k, hd, hd', hst, rfl, hk, hturn, rfl⟩ :=
    h.exists_turn (e.opens_of_ungated hg) ht
  have hfr := hst.fronts hk hturn (fun l hl => hg _ (List.mem_map_of_mem hl))
    (fun l hl => hs _ (List.mem_map_of_mem hl)) (n + 1)
  refine ⟨k, ?_⟩
  rw [drain_engine h.unstarted hd', frontierAfter_eq h.unstarted hd', hfr.nextKey,
    List.length_map]
  exact hfr

theorem pairwise_key_of_ungated (budget : ℕ) :
    ((e.drain budget .fresh).result.map (·.key)).Pairwise (· ≤ ·) := by
  refine Step.pairwise_key fun n t u ht hu => ?_
  obtain ⟨k, hf⟩ := fronts_of_getElem? h hg hs ht
  rw [hf.key, drain_key_succ h.unstarted hu]
  exact hf.le_next

end Run

/-- **The frontier never goes back.**  In a run over ungated sources in order the keys of the steps
do not decrease; a step leaves its synchronized sources with keys that begin with its own, one of
them with this key, and the held ones with greater keys; and the next key that it has found, not
lower than its own, is the key of the next step, and the mark at the end of the run. -/
theorem drain_frontier (h : e.Prepared ss) (hg : ∀ s ∈ ss, s.gate = none)
    (hs : ∀ s ∈ ss, (s.records.map s.key).Pairwise (· ≤ ·)) (budget : ℕ) :
    let r := e.drain budget .fresh
    (r.result.map (·.key)).Pairwise (· ≤ ·) ∧
      (∀ n t, r.result[n]? = some t → ∃ k,
        Fronts (e.drain (n + 1) .fresh).engine ss.length t k (e.frontierAfter (n + 1))) ∧
      (∀ n t, r.result[n + 1]? = some t → t.key = e.frontierAfter (n + 1)) ∧
      (r.ended = true → r.outcome = .ok () → r.result ≠ [] →
        e.frontierAfter r.result.length = .done) := by
  intro r
  refine ⟨pairwise_key_of_ungated h hg hs budget, fun n t ht => fronts_of_getElem? h hg hs ht,
    fun n t ht => drain_key_succ h.unstarted ht, ?_⟩
  exact frontierAfter_length h.unstarted

/-- Keys that begin with one another, and a source that runs out first. -/
theorem drain_frontier_prefixes :
    let ss : List (Supply Text) := [.ofList [['a'], ['a', 'b'], ['b', 'c']] id none,
      .ofList [['a', 'b'], ['a', 'b', 'c']] id none]
    let e := ofLists ss []
    e.Prepared ss ∧ (∀ s ∈ ss, s.gate = none) ∧
      (∀ s ∈ ss, (s.records.map s.key).Pairwise (· ≤ ·)) ∧
      ((e.drain 10 .fresh).result.map (·.key)).Pairwise (· ≤ ·) ∧
      e.frontierAfter (e.drain 10 .fresh).result.length = .done ∧
      (e.drain 10 .fresh).result.length = 3 := by
  intro ss e
  have hp : e.Prepared ss := prepared_ofLists ss []
  have hg : ∀ s ∈ ss, s.gate = none := by simp [ss, Supply.ofList]
  have hs : ∀ s ∈ ss, (s.records.map s.key).Pairwise (· ≤ ·) := by
    intro s hmem
    rcases List.mem_pair.1 hmem with rfl | rfl
    · decide
    · decide
  obtain ⟨hsorted, -, -, hend⟩ := drain_frontier hp hg hs 10
  exact ⟨hp, hg, hs, hsorted,
    hend (by decide +kernel) (by decide +kernel) (by decide +kernel), by decide +kernel⟩

end Engine

end Lockstep
