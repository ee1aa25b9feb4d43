import Mathlib.Algebra.Order.BigOperators.Group.List
import Mathlib.Algebra.Order.Ring.Nat
import Lockstep.Proofs.Engine.Course

/-!
# Runs without gates are merges

`merge` is the plain way to merge lists of keyed records.  While some list is not empty, the least
key at the front of a list is the key of a step.  The step shows the record at the front of each
list, the lists whose front does not agree with the key being held back, and it takes the front off
the others.

A run over ungated sources makes exactly the steps of this merge of their records, whatever the
order of the records and whatever other ruptures watch (`drain_eq_merge`).  The engine looks one
record ahead and finds each key a step early; what ties the two together is that between two steps
the lists of the merge are what the lanes have left behind their coming records (`Lane.rest`).
-/

namespace Lockstep

variable {ρ : Type}

/-- A list of records, with the key of each. -/
structure Rest (ρ : Type) where
  key : ρ → Text
  records : List ρ

namespace Rest

/-- The key of the front record. -/
def head? (r : Rest ρ) : Option Text := r.records.head?.map r.key

/-- Whether the key of the front record agrees with `k`. -/
def fits (k : Text) (r : Rest ρ) : Bool := r.head?.any (Text.agree · k)

/-- The front record is taken off if its key agrees with `k`. -/
def drop (k : Text) (r : Rest ρ) : Rest ρ :=
  if r.fits k then { r with records := r.records.tail } else r

/-- Every front record whose key agrees with `k` is taken off. -/
def dropAll (k : Text) (rs : List (Rest ρ)) : List (Rest ρ) := rs.map (drop k)

/-- The least key of a front record, unless every list is empty. -/
def least (rs : List (Rest ρ)) : Option Text := (rs.filterMap head?).min?

/-- The step with key `k`. -/
def step (number : ℕ) (k : Text) (rs : List (Rest ρ)) : Step ρ Text where
  number := number
  key := .key k
  desync := maskOf (rs.map (!·.fits k))
  row := rs.map (·.records.head?)
  edges := []

theorem drop_length_le (k : Text) (r : Rest ρ) : (r.drop k).records.length ≤ r.records.length := by
  unfold drop
  split
  · simp
  · exact le_rfl

theorem drop_length_lt {k : Text} {r : Rest ρ} (h : r.head? = some k) :
    (r.drop k).records.length < r.records.length := by
  have hf : r.fits k = true := by simp [fits, h, Text.agree_self]
  cases hr : r.records with
  | nil => simp [head?, hr] at h
  | cons x xs => simp [drop, hf, hr]

theorem exists_head?_of_least {rs : List (Rest ρ)} {k : Text} (h : least rs = some k) :
    ∃ r ∈ rs, r.head? = some k :=
  List.mem_filterMap.1 (List.min?_mem h)

theorem records_of_least_none {rs : List (Rest ρ)} (h : least rs = none) :
    ∀ r ∈ rs, r.records = [] := by
  intro r hr
  have hnil : r.head? = none := List.filterMap_eq_nil_iff.1 (List.min?_eq_none_iff.1 h) r hr
  simpa [head?] using hnil

theorem step_isSynchronized {rs : List (Rest ρ)} {k : Text} (n : ℕ) {i : ℕ} {r : Rest ρ}
    (hi : rs[i]? = some r) : (step n k rs).isSynchronized i = r.fits k := by
  rw [Step.isSynchronized, step, testBit_maskOf, List.getD_eq_getElem?_getD, List.getElem?_map, hi]
  simp

/-- Every step of a merge takes a record off. -/
theorem sum_drop_lt {rs : List (Rest ρ)} {k : Text} (h : least rs = some k) :
    ((dropAll k rs).map (·.records.length)).sum < (rs.map (·.records.length)).sum := by
  obtain ⟨r, hr, hk⟩ := exists_head?_of_least h
  rw [dropAll, List.map_map]
  exact List.sum_lt_sum _ _ (fun r _ => drop_length_le k r) ⟨r, hr, drop_length_lt hk⟩

end Rest

/-- Merge lists of records, the first step having this number. -/
def merge (number : ℕ) (rs : List (Rest ρ)) : List (Step ρ Text) :=
  match _h : Rest.least rs with
  | none => []
  | some k => Rest.step number k rs :: merge (number + 1) (Rest.dropAll k rs)
termination_by (rs.map (·.records.length)).sum
decreasing_by exact Rest.sum_drop_lt _h

theorem merge_of_none {number : ℕ} {rs : List (Rest ρ)} (h : Rest.least rs = none) :
    merge number rs = [] := by
  rw [merge]
  split
  · rfl
  · rename_i hk
    rw [h] at hk
    cases hk

theorem merge_of_some {number : ℕ} {rs : List (Rest ρ)} {k : Text} (h : Rest.least rs = some k) :
    merge number rs = Rest.step number k rs :: merge (number + 1) (Rest.dropAll k rs) := by
  rw [merge]
  split
  · rename_i hk
    rw [h] at hk
    cases hk
  · rename_i hk
    rw [h] at hk
    cases hk
    rfl

/-- A step without the edges of the ruptures. -/
def Step.bare (s : Step ρ Text) : Step ρ Text := { s with edges := [] }

/-- All records of a supply. -/
def Supply.rest (s : Supply ρ) : Rest ρ := ⟨s.key, s.records⟩

namespace Lane

/-- What a lane has left: its records from the coming one on. -/
def rest (l : Lane ρ) : Rest ρ := ⟨l.key, l.records.drop l.coming⟩

theorem head?_rest (l : Lane ρ) : l.rest.head? = (l.records[l.coming]?).map l.key := by
  rw [Rest.head?, rest, List.head?_drop]

theorem candidate_eq (l : Lane ρ) : l.candidate = l.rest.head?.elim .done .key := by
  rw [head?_rest, candidate, Supply.keyAt]
  cases l.records[l.coming]? <;> rfl

theorem least_rest (ls : List (Lane ρ)) :
    (Rest.least (ls.map rest)).elim .done .key = frontier ls := by
  cases hl : Rest.least (ls.map rest) with
  | none =>
    have hnil := List.min?_eq_none_iff.1 hl
    rw [List.filterMap_map, List.filterMap_eq_nil_iff] at hnil
    refine (le_antisymm (Frontier.le_done _) (le_frontier fun l h => ?_)).symm
    rw [candidate_eq, show l.rest.head? = none from hnil l h]
    exact le_rfl
  | some k =>
    obtain ⟨hmem, hle⟩ := List.min?_eq_some_iff.1 hl
    apply le_antisymm
    · refine le_frontier fun l h => ?_
      rw [candidate_eq]
      cases hh : l.rest.head? with
      | none => exact Frontier.le_done _
      | some k' =>
        exact Frontier.key_le_key.2
          (hle k' (List.mem_filterMap.2 ⟨_, List.mem_map_of_mem h, hh⟩))
    · obtain ⟨r, hr, hk⟩ := List.mem_filterMap.1 hmem
      obtain ⟨l, h, rfl⟩ := List.mem_map.1 hr
      have hc := candidate_eq l
      rw [hk] at hc
      exact hc ▸ frontier_le h

section Turn

variable {l : Lane ρ} {isOpen : Option ℕ → Bool} (h : isOpen l.gate = true) (k : Text)

include h

theorem current_turn_rest : (l.turn isOpen k).current = l.rest.records.head? := by
  rw [current_turn (advance_eq_succ (Or.inr h)), rest, List.head?_drop]

theorem fits_rest : l.rest.fits k = (l.turn isOpen k).synchronized := by
  rw [turn_synchronized, head_turn (advance_eq_succ (Or.inr h)), Rest.fits, head?_rest, Supply.keyAt]
  cases l.records[l.coming]? <;> rfl

theorem rest_turn : (l.turn isOpen k).rest = l.rest.drop k := by
  have hm : (l.turn isOpen k).moved = l.coming + 1 := advance_eq_succ (Or.inr h)
  rw [Rest.drop, fits_rest h k]
  cases hs : (l.turn isOpen k).synchronized with
  | true =>
    rw [if_pos rfl, rest, coming_of_synchronized hs, hm]
    simp [rest]
  | false =>
    have hc : (l.turn isOpen k).coming = l.coming := by
      have := moved_of_held hs
      omega
    rw [if_neg (by simp), rest, hc]
    rfl

end Turn

section TurnAll

variable {ls : List (Lane ρ)} {isOpen : Option ℕ → Bool} (h : ∀ l ∈ ls, isOpen l.gate = true)
  (k : Text)

include h

theorem current_turnAll :
    (turnAll isOpen k ls).map current = (ls.map rest).map (·.records.head?) := by
  rw [map_turnAll, List.map_map]
  exact List.map_congr_left fun l hl => current_turn_rest (h l hl) k

theorem held_turnAll :
    (turnAll isOpen k ls).map (!·.synchronized) = (ls.map rest).map (!·.fits k) := by
  rw [map_turnAll, List.map_map]
  exact List.map_congr_left fun l hl => congrArg (! ·) (fits_rest (h l hl) k).symm

theorem rest_turnAll : (turnAll isOpen k ls).map rest = Rest.dropAll k (ls.map rest) := by
  rw [map_turnAll, Rest.dropAll, List.map_map]
  exact List.map_congr_left fun l hl => rest_turn (h l hl) k

end TurnAll

end Lane

namespace Engine

variable {e d : Engine ρ Text} {ss : List (Supply ρ)}

/-- The step of the merge is the one that the engine shows. -/
theorem bare_snapshot {d' : Engine ρ Text} {ls : List (Lane ρ)} {k : Text} (hs : d.Stages ls)
    (hk : Lane.frontier ls = .key k) (ht : d.turn = (d', .ok ()))
    (ho : ∀ l ∈ ls, d.opens l.gate = true) (n : ℕ) :
    (d'.snapshot n).bare = Rest.step n k (ls.map Lane.rest) := by
  obtain ⟨hs', hkey, -⟩ := turn_stages hs hk ht
  rw [Step.bare, snapshot_row hs', snapshot_desync hs', Lane.current_turnAll ho,
    Lane.held_turnAll ho, Rest.step, snapshot, hkey]
  rfl

/-- What a run without gates has shown and what its lanes have left make up the merge. -/
theorem merge_eq_of_after (h : e.Prepared ss) (hg : ∀ s ∈ ss, s.gate = none) {n : ℕ}
    (hd : e.after n = some d) : ∃ ls, d.Stages ls ∧
      merge 1 (ss.map Supply.rest) =
        (e.drain n .fresh).result.map Step.bare ++ merge (n + 1) (ls.map Lane.rest) := by
  have hopen : ∀ (rs : List (Rupture Text)) s, s ∈ ss → Pool.opens rs s.gate = true := by
    intro rs s hs
    rw [hg s hs]
    rfl
  obtain ⟨ls, hs, -, -, hm⟩ := h.after_induction (hopen _) (motive := fun n _ ls =>
      merge 1 (ss.map Supply.rest) =
        (e.drain n .fresh).result.map Step.bare ++ merge (n + 1) (ls.map Lane.rest))
    (by
      intro d _ _
      rw [List.map_map]
      rfl)
    (by
      intro n d d' ls k _ hd' hs _ hss hk ht hm
      have ho : ∀ l ∈ ls, d.opens l.gate = true :=
        fun l hl => hopen _ l.toSupply (hss ▸ List.mem_map_of_mem hl)
      have hleast : Rest.least (ls.map Lane.rest) = some k := by
        have := Lane.least_rest ls
        rw [hk] at this
        cases hl : Rest.least (ls.map Lane.rest) <;> simp_all
      rw [hm, merge_of_some hleast, drain_succ h.unstarted hd', List.map_append, List.map_singleton,
        bare_snapshot hs hk ht ho, List.append_assoc, List.singleton_append,
        Lane.rest_turnAll ho]) hd
  exact ⟨ls, hs, hm⟩

theorem merge_eq_nil_of_frontier {ls : List (Lane ρ)} (h : Lane.frontier ls = .done) (n : ℕ) :
    merge n (ls.map Lane.rest) = [] := by
  have hl := Lane.least_rest ls
  rw [h] at hl
  apply merge_of_none
  cases hk : Rest.least (ls.map Lane.rest) with
  | none => rfl
  | some k => rw [hk] at hl; cases hl

/-- The steps of a run that is not at its end begin the merge. -/
theorem map_bare_of_after (h : e.Prepared ss) (hg : ∀ s ∈ ss, s.gate = none) {n : ℕ}
    (hd : e.after n = some d) :
    (e.drain n .fresh).result.map Step.bare = (merge 1 (ss.map Supply.rest)).take n ∧
      n ≤ (merge 1 (ss.map Supply.rest)).length := by
  obtain ⟨ls, -, hm⟩ := merge_eq_of_after h hg hd
  have hl : ((e.drain n .fresh).result.map Step.bare).length = n := by
    rw [List.length_map, drain_length h.unstarted hd]
  constructor
  · rw [hm, List.take_left' hl]
  · rw [hm, List.length_append]
    omega

/-- The steps of a run that has come to its end are the merge. -/
theorem map_bare_of_ended (h : e.Prepared ss) (hg : ∀ s ∈ ss, s.gate = none) {n : ℕ}
    (hd : e.after n = some d) (he : d.sync.ended = true) :
    (e.drain n .fresh).result.map Step.bare = merge 1 (ss.map Supply.rest) := by
  obtain ⟨ls, hs, hm⟩ := merge_eq_of_after h hg hd
  rw [hm, merge_eq_nil_of_frontier (hs.ended_iff.1 he), List.append_nil]

/-- The steps of a run that has come to its end are the whole merge. -/
theorem map_bare_of_finished (h : e.Prepared ss) (hg : ∀ s ∈ ss, s.gate = none) {budget : ℕ}
    (hended : (e.drain budget .fresh).ended = true)
    (hok : (e.drain budget .fresh).outcome = .ok ()) :
    (e.drain budget .fresh).result.map Step.bare = merge 1 (ss.map Supply.rest) := by
  obtain ⟨n, d, hd, hres, hcase⟩ := h.drain_cases (e.opens_of_ungated hg) budget
  rcases hcase with ⟨hnot, -⟩ | ⟨-, -, -, -, he⟩ | ⟨-, -, -, f, hf, -⟩
  · cases hnot.symm.trans hended
  · rw [hres, map_bare_of_ended h hg hd he]
  · cases hf.symm.trans hok

/-- **A run over ungated sources is the merge of their records.**  Asked for at most `budget`
steps, it makes those of the merge, up to the edges of the ruptures, and it is at its end when the
merge has no further one.  Only an extractor can stop it, and the steps before are then still
those of the merge. -/
theorem drain_eq_merge (h : e.Prepared ss) (hg : ∀ s ∈ ss, s.gate = none) (budget : ℕ) :
    let r := e.drain budget .fresh
    let m := merge 1 (ss.map Supply.rest)
    (r.outcome = .ok () ∧ r.result.map Step.bare = m.take budget ∧
        (r.ended = true ↔ m.length < budget)) ∨
      ∃ f, e.MayFault f ∧ r.outcome = .error f ∧ r.ended = true ∧
        r.result.map Step.bare = m.take r.result.length ∧ r.result.length < budget := by
  intro r m
  have ho : ∀ s ∈ ss, e.opens s.gate = true := by
    intro s hs
    rw [hg s hs]
    rfl
  obtain ⟨n, d, hd, hres, hcase⟩ := h.drain_cases ho budget
  have hlen : r.result.length = n := by
    rw [hres, drain_length h.unstarted hd]
  obtain ⟨ht, hle⟩ := map_bare_of_after h hg hd
  rw [← hres] at ht
  rcases hcase with ⟨hended, hok, rfl, -⟩ | ⟨hended, hok, hn, -, he⟩ | ⟨hended, hn, -, f, hf, hmay⟩
  · -- the budget is spent
    refine Or.inl ⟨hok, ht, ?_⟩
    rw [show r.ended = false from hended]
    simp [m, hle]
  · -- the run has come to its end
    have hm : r.result.map Step.bare = m := by
      rw [hres]
      exact map_bare_of_ended h hg hd he
    have hl : m.length = n := by rw [← hm, List.length_map, hlen]
    refine Or.inl ⟨hok, ?_, ?_⟩
    · rw [hm, List.take_of_length_le (by omega)]
    · rw [show r.ended = true from hended, hl]
      simp [hn]
  · -- an extractor has failed
    refine Or.inr ⟨f, hmay, hf, hended, ?_, ?_⟩
    · rw [hlen]
      exact ht
    · rw [hlen]
      exact hn

/-- Two lists, one of them out of order, watched by their first letter. -/
theorem drain_eq_merge_two_lists :
    let ss : List (Supply Text) := [.ofList [['b'], ['a', 'b']] id none,
      .ofList [['a'], ['b']] id none]
    let e := ofLists ss [.fresh ['g'] (Rupture.leading 1)]
    e.Prepared ss ∧ (∀ s ∈ ss, s.gate = none) ∧
      (e.drain 10 .fresh).result.map Step.bare = (merge 1 (ss.map Supply.rest)).take 10 ∧
      (merge 1 (ss.map Supply.rest)).length < 10 := by
  intro ss e
  have hp : e.Prepared ss := prepared_ofLists ss _
  have hg : ∀ s ∈ ss, s.gate = none := by simp [ss, Supply.ofList]
  have hend : (e.drain 10 .fresh).ended = true := by decide +kernel
  rcases drain_eq_merge hp hg 10 with ⟨-, hm, hl⟩ | ⟨f, ⟨j, hj, r, hr, k, hk⟩, -⟩
  · exact ⟨hp, hg, hm, hl.1 hend⟩
  · -- this rupture has no extractor that fails
    obtain rfl : j = 0 := by simpa [e, ofLists] using hj
    obtain rfl : r = .fresh ['g'] (Rupture.leading 1) := by simpa [e, ofLists] using hr.symm
    cases hk

end Engine

end Lockstep
