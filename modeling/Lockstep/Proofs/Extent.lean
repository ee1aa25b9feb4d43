import Lockstep.Proofs.Merge

/-!
# How many steps a run makes

A run over ungated sources comes to its end whatever the order of their keys is.  Every step of the
merge takes a record off the list from which its key was chosen, and it takes at most one off any
list (`sum_drop_lt`, `length_le_drop_succ`).  So there are no more steps than records, and no fewer
than the longest list has (`length_merge_le`, `le_length_merge`).  This is `drain_bounds`.
-/

namespace Lockstep

variable {ρ : Type}

namespace Rest

variable {rs : List (Rest ρ)} {m : ℕ}

/-- A step takes at most one record off a list. -/
theorem length_le_drop_succ (k : Text) (r : Rest ρ) :
    r.records.length ≤ (r.drop k).records.length + 1 := by
  unfold drop
  split
  · rw [List.length_tail]
    omega
  · exact Nat.le_succ _

/-- A merge makes no more steps than there are records. -/
theorem length_merge_le (m : ℕ) (rs : List (Rest ρ)) :
    (merge m rs).length ≤ (rs.map (·.records.length)).sum := by
  induction m, rs using merge.induct with
  | case1 m rs hnone => simp [merge_of_none hnone]
  | case2 m rs k hk ih =>
    have hlt := sum_drop_lt hk
    rw [merge_of_some hk, List.length_cons]
    omega

/-- A merge makes as many steps as any of its lists has records, or more. -/
theorem le_length_merge {r : Rest ρ} (hr : r ∈ rs) : r.records.length ≤ (merge m rs).length := by
  induction m, rs using merge.induct generalizing r with
  | case1 m rs hnone => simp [records_of_least_none hnone r hr]
  | case2 m rs k hk ih =>
    have hdrop := ih (r := r.drop k) (List.mem_map_of_mem hr)
    have hle := r.length_le_drop_succ k
    rw [merge_of_some hk, List.length_cons]
    omega

/-- The list from which the key of a step was chosen takes part in it. -/
theorem exists_isSynchronized_of_mem_merge {t : Step ρ Text} (ht : t ∈ merge m rs) :
    ∃ i < rs.length, t.isSynchronized i = true := by
  induction m, rs using merge.induct with
  | case1 m rs hnone => simp [merge_of_none hnone] at ht
  | case2 m rs k hk ih =>
    rw [merge_of_some hk] at ht
    rcases List.mem_cons.1 ht with rfl | ht
    · obtain ⟨r, hr, hhead⟩ := exists_head?_of_least hk
      obtain ⟨i, hi⟩ := List.mem_iff_getElem?.1 hr
      refine ⟨i, (List.getElem?_eq_some_iff.1 hi).1, ?_⟩
      rw [step_isSynchronized m hi, fits, hhead]
      exact Text.agree_self k
    · simpa [dropAll] using ih ht

end Rest

namespace Engine

variable {e : Engine ρ Text} {ss : List (Supply ρ)}

/-- **A run over ungated sources is at least as long as the longest of them, and at most as long as
all of them together.**  Whatever the order of the keys is, every step has a synchronized source,
and there are no more steps than records.  Asked for more, the run is over, and only an extractor
can have stopped it.  A run that has come to its end has made no fewer steps than any source has
records, and none at all only if there is no record. -/
theorem drain_bounds (h : e.Prepared ss) (hg : ∀ s ∈ ss, s.gate = none) (budget : ℕ) :
    let r := e.drain budget .fresh
    let total := (ss.map (·.records.length)).sum
    (∀ t ∈ r.result, ∃ i < ss.length, t.isSynchronized i = true) ∧
      r.result.length ≤ total ∧
      (total < budget → r.ended = true ∧ ((∀ f, ¬ e.MayFault f) → r.outcome = .ok ())) ∧
      (r.ended = true → r.outcome = .ok () →
        (∀ s ∈ ss, s.records.length ≤ r.result.length) ∧
        (r.result = [] ↔ ∀ s ∈ ss, s.records = [])) := by
  intro r total
  have ho := e.opens_of_ungated hg
  obtain ⟨n, d, hd, hres, hcase⟩ := h.drain_cases ho budget
  obtain ⟨htake, hle⟩ := map_bare_of_after h hg hd
  rw [← hres] at htake
  have hlen : r.result.length = n := by
    rw [hres, drain_length h.unstarted hd]
  have htotal : (merge 1 (ss.map Supply.rest)).length ≤ total := by
    refine (Rest.length_merge_le 1 _).trans (le_of_eq ?_)
    rw [List.map_map]
    rfl
  refine ⟨fun t ht => ?_, by omega, fun hlt => ⟨?_, fun hx => h.unfailing ho hx budget⟩,
    fun hended hok => ?_⟩
  · have hmem : t.bare ∈ merge 1 (ss.map Supply.rest) :=
      List.mem_of_mem_take (htake ▸ List.mem_map_of_mem ht)
    obtain ⟨i, hi, hsync⟩ := Rest.exists_isSynchronized_of_mem_merge hmem
    exact ⟨i, by simpa using hi, hsync⟩
  · rcases hcase with ⟨-, -, hn, -⟩ | ⟨hended, -⟩ | ⟨hended, -⟩
    · -- as many steps as the budget would be more than there are records
      omega
    · exact hended
    · exact hended
  · have hlong : ∀ s ∈ ss, s.records.length ≤ r.result.length := by
      intro s hs
      rw [← List.length_map (f := Step.bare),
        map_bare_of_finished h hg hended hok]
      exact Rest.le_length_merge (List.mem_map_of_mem (f := Supply.rest) hs)
    refine ⟨hlong, fun hnil s hs => ?_, fun hnone => ?_⟩
    · have hzero := hlong s hs
      rw [hnil] at hzero
      exact List.length_eq_zero_iff.1 (Nat.le_zero.1 hzero)
    · have hzero : total = 0 := List.sum_eq_zero fun m hm => by
        obtain ⟨s, hs, rfl⟩ := List.mem_map.1 hm
        simp [hnone s hs]
      exact List.length_eq_zero_iff.1 (by omega)

/-- Keys out of order that begin with one another, watched by their first letter: the first record
of the longer list is held back once. -/
theorem drain_bounds_unsorted :
    let ss : List (Supply Text) := [.ofList [['b'], ['a', 'b'], ['a']] id none,
      .ofList [['a'], ['b', 'a']] id none]
    let e := ofLists ss [.fresh ['g'] (Rupture.leading 1)]
    let r := e.drain 6 .fresh
    e.Prepared ss ∧ (∀ s ∈ ss, s.gate = none) ∧ (∀ f, ¬ e.MayFault f) ∧ r.ended = true ∧
      r.outcome = .ok () ∧ (∀ t ∈ r.result, ∃ i < ss.length, t.isSynchronized i = true) ∧
      r.result.length = 4 ∧ (ss.map (·.records.length)).sum = 5 ∧
      ∀ s ∈ ss, s.records.length ≤ r.result.length := by
  intro ss e r
  have hp : e.Prepared ss := prepared_ofLists ss _
  have hg : ∀ s ∈ ss, s.gate = none := by simp [ss, Supply.ofList]
  have hx : ∀ f, ¬ e.MayFault f := by
    rintro f ⟨j, hj, t, ht, k, hk⟩
    obtain rfl : j = 0 := by simpa [e, ofLists] using hj
    obtain rfl : t = .fresh ['g'] (Rupture.leading 1) := by simpa [e, ofLists] using ht.symm
    cases hk
  obtain ⟨hsync, -, hover, hlong⟩ := drain_bounds hp hg 6
  obtain ⟨hended, hok⟩ := hover (by decide)
  exact ⟨hp, hg, hx, hended, hok hx, hsync, by decide +kernel, by decide,
    (hlong hended (hok hx)).1⟩

end Engine

end Lockstep
