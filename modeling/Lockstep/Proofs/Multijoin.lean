import Mathlib.Algebra.BigOperators.Group.Finset.Basic
import Lockstep.Proofs.Frontier
import Lockstep.Proofs.Merge

/-!
# Prefix-free keys: the multiset join

When ungated sources are in order and none of their keys begins with another one, agreeing is being
equal, and a run joins the sources by their keys with multiplicity (`drain_multijoin`).  The steps
with a key `k` pair off the records with this key: the first ones of all sources, then the second
ones, and so on, as long as some source has one left.  So there are as many of these steps as the
source with the most such records has (`Rest.most`), and as many of them are fully synchronized as
the source with the fewest has (`Rest.fewest`).

All this is a property of the merge.  Taking the fronts off at a step with key `k` takes the first
record with key `k` off every list that has one, and leaves the records with other keys alone
(`Rest.withKey_drop`).
-/

namespace Lockstep

variable {ρ : Type}

namespace Rest

/-- The records with key `k`, in their order. -/
def withKey (k : Text) (r : Rest ρ) : List ρ := r.records.filter (r.key · == k)

/-- How many records with key `k` there are. -/
def count (k : Text) (r : Rest ρ) : ℕ := (r.withKey k).length

/-- The keys that occur. -/
def keys (rs : List (Rest ρ)) : Finset Text := (rs.flatMap fun r => r.records.map r.key).toFinset

/-- The greatest number of records with key `k` in a list. -/
def most (k : Text) (rs : List (Rest ρ)) : ℕ := (rs.map (·.count k)).max?.getD 0

/-- The least number of records with key `k` in a list. -/
def fewest (k : Text) (rs : List (Rest ρ)) : ℕ := (rs.map (·.count k)).min?.getD 0

/-- The lists are in order, and no key that occurs begins with another one. -/
structure Ordered (rs : List (Rest ρ)) : Prop where
  sorted : ∀ r ∈ rs, (r.records.map r.key).Pairwise (· ≤ ·)
  prefix_free : ∀ a ∈ keys rs, ∀ b ∈ keys rs, a <+: b → a = b

theorem mem_keys {rs : List (Rest ρ)} {k : Text} :
    k ∈ keys rs ↔ ∃ r ∈ rs, ∃ x ∈ r.records, r.key x = k := by
  simp [keys]

theorem lt_most_iff {k : Text} {rs : List (Rest ρ)} {j : ℕ} :
    j < most k rs ↔ ∃ r ∈ rs, j < r.count k := by
  unfold most
  cases hm : (rs.map (·.count k)).max? with
  | none =>
    obtain rfl : rs = [] := by simpa using List.max?_eq_none_iff.1 hm
    simp
  | some m =>
    obtain ⟨hmem, hle⟩ := List.max?_eq_some_iff.1 hm
    constructor
    · intro hj
      obtain ⟨r, hr, rfl⟩ := List.mem_map.1 hmem
      exact ⟨r, hr, hj⟩
    · rintro ⟨r, hr, hj⟩
      exact lt_of_lt_of_le hj (hle _ (List.mem_map_of_mem hr))

theorem lt_fewest_iff {k : Text} {rs : List (Rest ρ)} {j : ℕ} :
    j < fewest k rs ↔ rs ≠ [] ∧ ∀ r ∈ rs, j < r.count k := by
  unfold fewest
  cases hm : (rs.map (·.count k)).min? with
  | none =>
    obtain rfl : rs = [] := by simpa using List.min?_eq_none_iff.1 hm
    simp
  | some m =>
    obtain ⟨hmem, hle⟩ := List.min?_eq_some_iff.1 hm
    constructor
    · intro hj
      refine ⟨by rintro rfl; simp at hmem, fun r hr => ?_⟩
      exact lt_of_lt_of_le hj (hle _ (List.mem_map_of_mem hr))
    · rintro ⟨-, h⟩
      obtain ⟨r, hr, rfl⟩ := List.mem_map.1 hmem
      exact h r hr

theorem records_drop_sublist (k : Text) (r : Rest ρ) :
    (r.drop k).records.Sublist r.records := by
  unfold drop
  split
  · exact List.tail_sublist _
  · exact List.Sublist.refl _

theorem drop_key (k : Text) (r : Rest ρ) : (r.drop k).key = r.key := by
  unfold drop
  split <;> rfl

section Front

variable {rs : List (Rest ρ)} {k : Text} (h : Ordered rs) (hk : least rs = some k)

include h

theorem Ordered.dropAll (k : Text) : Ordered (dropAll k rs) where
  sorted := by
    refine List.forall_mem_map.2 fun r hr => ?_
    rw [drop_key]
    exact (h.sorted r hr).sublist ((records_drop_sublist k r).map r.key)
  prefix_free := by
    have hsub : ∀ a ∈ keys (Rest.dropAll k rs), a ∈ keys rs := by
      intro a ha
      obtain ⟨r', hr', x, hx, rfl⟩ := mem_keys.1 ha
      obtain ⟨r, hr, rfl⟩ := List.mem_map.1 hr'
      exact mem_keys.2 ⟨r, hr, x, (records_drop_sublist k r).subset hx, by rw [drop_key]⟩
    intro a ha b hb
    exact h.prefix_free a (hsub a ha) b (hsub b hb)

include hk

/-- At the step with the least key, a list either has a front record with this key, or no record
with it at all and is held back. -/
theorem Ordered.front {r : Rest ρ} (hr : r ∈ rs) :
    (r.fits k = true ∧ ∃ x xs, r.records = x :: xs ∧ r.key x = k) ∨
      (r.fits k = false ∧ r.withKey k = []) := by
  obtain ⟨-, hle⟩ := List.min?_eq_some_iff.1 hk
  cases hrec : r.records with
  | nil => exact Or.inr ⟨by simp [fits, head?, hrec], by simp [withKey, hrec]⟩
  | cons x xs =>
    have hx : k ≤ r.key x := hle _ (List.mem_filterMap.2 ⟨r, hr, by simp [head?, hrec]⟩)
    by_cases hxk : r.key x = k
    · exact Or.inl ⟨by simp [fits, head?, hrec, hxk, Text.agree_self], x, xs, rfl, hxk⟩
    · refine Or.inr ⟨?_, ?_⟩
      · -- neither of two different keys begins with the other
        obtain ⟨r', hr', hk'⟩ := exists_head?_of_least hk
        obtain ⟨y, hy, rfl⟩ := Option.map_eq_some_iff.1 hk'
        have hxkeys : r.key x ∈ keys rs := mem_keys.2 ⟨r, hr, x, by simp [hrec], rfl⟩
        have hykeys : r'.key y ∈ keys rs := mem_keys.2 ⟨r', hr', y, List.mem_of_head? hy, rfl⟩
        have hag : Text.agree (r.key x) (r'.key y) = false := by
          rw [Bool.eq_false_iff]
          intro hag
          rcases Text.agree_iff.1 hag with hp | hp
          · exact hxk (h.prefix_free _ hxkeys _ hykeys hp)
          · exact hxk (h.prefix_free _ hykeys _ hxkeys hp).symm
        simp [fits, head?, hrec, hag]
      · have hs := h.sorted r hr
        rw [hrec, List.map_cons, List.pairwise_cons] at hs
        have hlt : k < r.key x := lt_of_le_of_ne hx (Ne.symm hxk)
        rw [withKey, hrec, List.filter_eq_nil_iff]
        intro y hy
        rcases List.mem_cons.1 hy with rfl | hy
        · simpa using hxk
        · simpa using (lt_of_lt_of_le hlt (hs.1 _ (List.mem_map_of_mem hy))).ne'

theorem Ordered.fits_iff {r : Rest ρ} (hr : r ∈ rs) :
    r.fits k = true ↔ 0 < r.count k := by
  rcases h.front hk hr with ⟨hf, x, xs, hrec, hx⟩ | ⟨hf, hnil⟩
  · simp [hf, count, withKey, hrec, hx]
  · simp [hf, count, hnil]

theorem Ordered.head?_of_fits {r : Rest ρ} (hr : r ∈ rs) (hf : r.fits k = true) :
    r.records.head? = (r.withKey k).head? := by
  rcases h.front hk hr with ⟨-, x, xs, hrec, hx⟩ | ⟨hf', -⟩
  · simp [withKey, hrec, hx]
  · rw [hf] at hf'
    cases hf'

/-- A step takes the first record with its key off, and leaves those with other keys alone. -/
theorem Ordered.withKey_drop {r : Rest ρ} (hr : r ∈ rs) (a : Text) :
    (r.drop k).withKey a = if a = k then (r.withKey a).tail else r.withKey a := by
  rcases h.front hk hr with ⟨hf, x, xs, hrec, rfl⟩ | ⟨hf, hnil⟩
  · by_cases ha : a = r.key x
    · subst ha
      simp [drop, hf, withKey, hrec]
    · simp [drop, hf, withKey, hrec, ha, Ne.symm ha]
  · by_cases ha : a = k
    · subst ha
      simp [drop, hf, hnil]
    · simp [drop, hf, ha]

theorem Ordered.count_drop {r : Rest ρ} (hr : r ∈ rs) (a : Text) :
    (r.drop k).count a = r.count a - if a = k then 1 else 0 := by
  rw [count, h.withKey_drop hk hr, count]
  split <;> simp

theorem Ordered.most_dropAll (a : Text) :
    most a (Rest.dropAll k rs) = most a rs - if a = k then 1 else 0 := by
  refine eq_of_forall_lt_iff fun j => ?_
  rw [lt_most_iff, Nat.lt_sub_iff_add_lt, lt_most_iff]
  constructor
  · rintro ⟨r', hr', hj⟩
    obtain ⟨r, hr, rfl⟩ := List.mem_map.1 hr'
    rw [h.count_drop hk hr] at hj
    exact ⟨r, hr, by omega⟩
  · rintro ⟨r, hr, hj⟩
    refine ⟨r.drop k, List.mem_map_of_mem hr, ?_⟩
    rw [h.count_drop hk hr]
    omega

theorem Ordered.fewest_dropAll (a : Text) :
    fewest a (Rest.dropAll k rs) = fewest a rs - if a = k then 1 else 0 := by
  refine eq_of_forall_lt_iff fun j => ?_
  rw [lt_fewest_iff, Nat.lt_sub_iff_add_lt, lt_fewest_iff, Rest.dropAll, List.forall_mem_map]
  refine and_congr (by simp) (forall₂_congr fun r hr => ?_)
  rw [h.count_drop hk hr]
  omega

theorem Ordered.most_pos : 0 < most k rs := by
  obtain ⟨r, hr, hhead⟩ := exists_head?_of_least hk
  refine lt_most_iff.2 ⟨r, hr, (h.fits_iff hk hr).1 ?_⟩
  simp [fits, hhead, Text.agree_self]

end Front

end Rest

/-- How many of the first `n` steps have the key `k`. -/
def Step.occurrences (k : Text) (ts : List (Step ρ Text)) (n : ℕ) : ℕ :=
  ((ts.take n).map (·.key)).count (.key k)

theorem Step.count_key_cons {t : Step ρ Text} {a : Text} (h : t.key = .key a) (k : Text)
    (ts : List (Step ρ Text)) : ((t :: ts).map (·.key)).count (.key k) =
      (ts.map (·.key)).count (.key k) + if k = a then 1 else 0 := by
  rw [List.map_cons, List.count_cons, h]
  by_cases hk : k = a
  · simp [hk]
  · have hne : (Frontier.key a == Frontier.key k) = false := by
      rw [beq_eq_false_iff_ne]
      intro heq
      exact hk (Frontier.key.inj heq).symm
    simp [hne, hk]

/-- The edges of the steps do not matter. -/
theorem Step.occurrences_of_bare {ts us : List (Step ρ Text)} {n : ℕ} {k : Text}
    (h : (ts.take (n + 1)).map bare = us.take (n + 1)) :
    occurrences k us n = occurrences k ts n := by
  have hn : us.take n = (ts.take n).map bare := by
    rw [← min_eq_left (Nat.le_succ n), ← List.take_take, ← h, ← List.map_take, List.take_take]
  rw [occurrences, hn, List.map_map, occurrences]
  rfl

/-- A step with key `k` after `j` others with this key: it pairs off record number `j` of those with
key `k` of each list that has so many, and holds the other lists back. -/
structure Step.Pairs (rs : List (Rest ρ)) (k : Text) (j : ℕ) (t : Step ρ Text) : Prop where
  key : t.key = .key k
  synchronized_iff : ∀ (i : ℕ) r, rs[i]? = some r → (t.isSynchronized i = true ↔ j < r.count k)
  row : ∀ (i : ℕ) (r : Rest ρ) x, rs[i]? = some r → (r.withKey k)[j]? = some x →
    t.row[i]? = some (some x)

namespace Rest

variable {rs : List (Rest ρ)} {k : Text}

theorem step_allSynchronized_iff (n : ℕ) :
    (step n k rs).allSynchronized = true ↔ ∀ r ∈ rs, r.fits k = true := by
  simp [Step.allSynchronized, step, maskOf_eq_zero_iff]

section Step

variable (h : Ordered rs) (hk : least rs = some k)

include h hk

theorem Ordered.pairs_step (n : ℕ) : Step.Pairs rs k 0 (step n k rs) where
  key := rfl
  synchronized_iff := by
    intro i r hi
    rw [step_isSynchronized n hi]
    exact h.fits_iff hk (List.mem_of_getElem? hi)
  row := by
    intro i r x hi hx
    have hr := List.mem_of_getElem? hi
    have hf : r.fits k = true := (h.fits_iff hk hr).2 (List.getElem?_eq_some_iff.1 hx).1
    simp only [step, List.getElem?_map, hi, Option.map_some]
    rw [h.head?_of_fits hk hr hf, List.head?_eq_getElem?, hx]

/-- What a step pairs off after the fronts have been taken off, it pairs off one place further in
the lists before. -/
theorem Ordered.pairs_of_dropAll {a : Text} {j : ℕ} {t : Step ρ Text}
    (ht : Step.Pairs (Rest.dropAll k rs) a j t) : Step.Pairs rs a (j + if a = k then 1 else 0) t where
  key := ht.key
  synchronized_iff := by
    intro i r hi
    have hr := List.mem_of_getElem? hi
    rw [ht.synchronized_iff i (r.drop k) (by simp [Rest.dropAll, hi]), h.count_drop hk hr]
    omega
  row := by
    intro i r x hi hx
    refine ht.row i (r.drop k) x (by simp [Rest.dropAll, hi]) ?_
    rw [h.withKey_drop hk (List.mem_of_getElem? hi)]
    split
    · rename_i ha
      rw [List.getElem?_tail]
      simpa [ha] using hx
    · rename_i ha
      simpa [ha] using hx

theorem Ordered.fewest_pos_iff (n : ℕ) :
    0 < fewest k rs ↔ (step n k rs).allSynchronized = true := by
  rw [step_allSynchronized_iff, lt_fewest_iff]
  have hne : rs ≠ [] := by
    rintro rfl
    cases hk
  refine ⟨fun hall r hr => (h.fits_iff hk hr).2 (hall.2 r hr), fun hall => ⟨hne, fun r hr => ?_⟩⟩
  exact (h.fits_iff hk hr).1 (hall r hr)

end Step

theorem count_of_least_none (h : least rs = none) (k : Text) : ∀ r ∈ rs, r.count k = 0 := by
  intro r hr
  simp [count, withKey, records_of_least_none h r hr]

theorem most_of_least_none (h : least rs = none) (k : Text) : most k rs = 0 := by
  by_contra hne
  obtain ⟨r, hr, hpos⟩ := lt_most_iff.1 (Nat.pos_of_ne_zero hne)
  rw [count_of_least_none h k r hr] at hpos
  exact absurd hpos (lt_irrefl 0)

theorem fewest_of_least_none (h : least rs = none) (k : Text) : fewest k rs = 0 := by
  by_contra hne
  obtain ⟨hrs, hpos⟩ := lt_fewest_iff.1 (Nat.pos_of_ne_zero hne)
  obtain ⟨r, hr⟩ := List.exists_mem_of_ne_nil rs hrs
  have := hpos r hr
  rw [count_of_least_none h k r hr] at this
  exact absurd this (lt_irrefl 0)

/-! ### The merge -/

theorem Ordered.pairs_merge (h : Ordered rs) {m n : ℕ} {t : Step ρ Text}
    (ht : (merge m rs)[n]? = some t) :
    ∃ k, t.Pairs rs k (Step.occurrences k (merge m rs) n) := by
  induction m, rs using merge.induct generalizing n with
  | case1 m rs hnone => simp [merge_of_none hnone] at ht
  | case2 m rs a ha ih =>
    rw [merge_of_some ha] at ht ⊢
    cases n with
    | zero =>
      obtain rfl : step m a rs = t := by simpa using ht
      exact ⟨a, h.pairs_step ha m⟩
    | succ n =>
      obtain ⟨k, hp⟩ := ih (h.dropAll a) (by simpa using ht)
      refine ⟨k, ?_⟩
      rw [Step.occurrences, List.take_succ_cons, Step.count_key_cons (a := a) rfl]
      exact h.pairs_of_dropAll ha hp

theorem Ordered.count_merge (h : Ordered rs) (m : ℕ) (k : Text) :
    ((merge m rs).map (·.key)).count (.key k) = most k rs := by
  induction m, rs using merge.induct with
  | case1 m rs hnone =>
    rw [merge_of_none hnone, most_of_least_none hnone]
    rfl
  | case2 m rs a ha ih =>
    have hpos := h.most_pos ha
    rw [merge_of_some ha, Step.count_key_cons (a := a) rfl, ih (h.dropAll a), h.most_dropAll ha]
    split
    · rename_i hka
      subst hka
      omega
    · omega

/-- The fully synchronized steps with a key. -/
theorem Ordered.count_filter_merge (h : Ordered rs) (m : ℕ) (k : Text) :
    (((merge m rs).filter (·.allSynchronized)).map (·.key)).count (.key k) = fewest k rs := by
  induction m, rs using merge.induct with
  | case1 m rs hnone =>
    rw [merge_of_none hnone, fewest_of_least_none hnone]
    rfl
  | case2 m rs a ha ih =>
    have ih := ih (h.dropAll a)
    rw [h.fewest_dropAll ha] at ih
    have hpos := h.fewest_pos_iff ha m
    rw [merge_of_some ha]
    cases hall : (step m a rs).allSynchronized with
    | true =>
      rw [List.filter_cons_of_pos hall, Step.count_key_cons (a := a) rfl, ih]
      rw [hall] at hpos
      split
      · rename_i hka
        subst hka
        have := hpos.2 rfl
        omega
      · omega
    | false =>
      rw [List.filter_cons_of_neg (by simp [hall]), ih]
      rw [hall] at hpos
      split
      · rename_i hka
        subst hka
        have := mt hpos.1 (by simp)
        omega
      · omega

theorem Ordered.exists_mem_keys (h : Ordered rs) {m : ℕ} {t : Step ρ Text} (ht : t ∈ merge m rs) :
    ∃ k ∈ keys rs, t.key = .key k := by
  obtain ⟨n, hn⟩ := List.mem_iff_getElem?.1 ht
  obtain ⟨k, hp⟩ := h.pairs_merge hn
  have hpos : 0 < ((merge m rs).map (·.key)).count (.key k) :=
    List.count_pos_iff.2 (hp.key ▸ List.mem_map_of_mem ht)
  rw [h.count_merge] at hpos
  obtain ⟨r, hr, hpos⟩ := lt_most_iff.1 hpos
  obtain ⟨x, hx⟩ := List.exists_mem_of_length_pos hpos
  rw [withKey, List.mem_filter, beq_iff_eq] at hx
  exact ⟨k, mem_keys.2 ⟨r, hr, x, hx⟩, hp.key⟩

end Rest

/-- Steps with keys in a finite set, counted key by key. -/
theorem Step.length_eq_sum {ts : List (Step ρ Text)} {s : Finset Text}
    (h : ∀ t ∈ ts, ∃ k ∈ s, t.key = .key k) :
    ts.length = ∑ k ∈ s, (ts.map (·.key)).count (.key k) := by
  let keyOf : Text ↪ Frontier Text := ⟨.key, fun _ _ => Frontier.key.inj⟩
  have hmem : ∀ f ∈ ((ts.map (·.key) : List (Frontier Text)) : Multiset (Frontier Text)),
      f ∈ s.map keyOf := by
    intro f hf
    obtain ⟨t, ht, rfl⟩ := List.mem_map.1 (Multiset.mem_coe.1 hf)
    obtain ⟨k, hk, hkey⟩ := h t ht
    exact Finset.mem_map.2 ⟨k, hk, hkey.symm⟩
  have hsum := Multiset.sum_count_eq_card hmem
  rw [Finset.sum_map, Multiset.coe_card, List.length_map] at hsum
  exact hsum.symm.trans (Finset.sum_congr rfl fun k _ => Multiset.coe_count _ _)

namespace Rest

variable {rs : List (Rest ρ)} (h : Ordered rs) (m : ℕ)

include h

theorem Ordered.length_merge : (merge m rs).length = ∑ k ∈ keys rs, most k rs := by
  rw [Step.length_eq_sum fun t ht => h.exists_mem_keys ht]
  exact Finset.sum_congr rfl fun k _ => h.count_merge m k

theorem Ordered.countP_merge :
    (merge m rs).countP (·.allSynchronized) = ∑ k ∈ keys rs, fewest k rs := by
  rw [List.countP_eq_length_filter,
    Step.length_eq_sum fun t ht => h.exists_mem_keys (List.mem_of_mem_filter ht)]
  exact Finset.sum_congr rfl fun k _ => h.count_filter_merge m k

end Rest

namespace Engine

variable {e : Engine ρ Text} {ss : List (Supply ρ)}

section Run

variable (h : e.Prepared ss) (hg : ∀ s ∈ ss, s.gate = none)

include h hg

/-- A step of a run pairs off the records with its key. -/
theorem pairs_of_getElem? (ho : Rest.Ordered (ss.map Supply.rest)) {budget n : ℕ}
    {t : Step ρ Text} (ht : (e.drain budget .fresh).result[n]? = some t) : ∃ k,
      Step.Pairs (ss.map Supply.rest) k (Step.occurrences k (e.drain budget .fresh).result n) t := by
  obtain ⟨hn, d, hd, -⟩ := exists_after_of_getElem? h.unstarted ht
  have htake := (map_bare_of_after h hg hd).1
  rw [← drain_take h.unstarted hn] at htake
  have hm : (merge 1 (ss.map Supply.rest))[n]? = some t.bare := by
    rw [← List.getElem?_take_of_lt (Nat.lt_succ_self n), ← htake, List.getElem?_map,
      List.getElem?_take_of_lt (Nat.lt_succ_self n), ht]
    rfl
  obtain ⟨k, hp⟩ := ho.pairs_merge hm
  rw [Step.occurrences_of_bare htake] at hp
  exact ⟨k, hp.key, hp.synchronized_iff, hp.row⟩

end Run

/-- **Prefix-free keys are joined with multiplicity.**  In a run over ungated sources in order, none
of whose keys begins with another one, the keys of the steps do not decrease, and the steps with a
key `k` pair off the records with key `k`: the step after `j` others shows record number `j` of each
source that has so many, and holds the other sources back.  A run that has come to its end has made
as many steps with each key as the source with the most records of it has, as many of them fully
synchronized as the source with the fewest has.  Only an extractor can keep a run from its end. -/
theorem drain_multijoin (h : e.Prepared ss) (hg : ∀ s ∈ ss, s.gate = none)
    (ho : Rest.Ordered (ss.map Supply.rest)) (budget : ℕ) :
    let r := e.drain budget .fresh
    let rs := ss.map Supply.rest
    (r.result.map (·.key)).Pairwise (· ≤ ·) ∧
      (∀ (n : ℕ) t, r.result[n]? = some t → ∃ k, Step.Pairs rs k (Step.occurrences k r.result n) t) ∧
      (r.ended = true → r.outcome = .ok () →
        (∀ k, (r.result.map (·.key)).count (.key k) = Rest.most k rs) ∧
        r.result.length = ∑ k ∈ Rest.keys rs, Rest.most k rs ∧
        r.result.countP (·.allSynchronized) = ∑ k ∈ Rest.keys rs, Rest.fewest k rs) ∧
      ((∀ f, ¬ e.MayFault f) → ∑ k ∈ Rest.keys rs, Rest.most k rs < budget →
        r.ended = true ∧ r.outcome = .ok ()) := by
  intro r rs
  have hs : ∀ s ∈ ss, (s.records.map s.key).Pairwise (· ≤ ·) :=
    fun s hmem => ho.sorted s.rest (List.mem_map_of_mem hmem)
  refine ⟨pairwise_key_of_ungated h hg hs budget, fun n t ht => pairs_of_getElem? h hg ho ht,
    ?_, ?_⟩
  · intro hended hok
    have hm : r.result.map Step.bare = merge 1 rs := map_bare_of_finished h hg hended hok
    refine ⟨fun k => ?_, ?_, ?_⟩
    · rw [← ho.count_merge 1, ← hm, List.map_map]
      rfl
    · rw [← ho.length_merge 1, ← hm, List.length_map]
    · rw [← ho.countP_merge 1, ← hm, List.countP_map]
      rfl
  · intro hx hlt
    obtain ⟨n, d, hd, -, hcase⟩ := h.drain_cases (e.opens_of_ungated hg) budget
    rcases hcase with ⟨-, -, hn, -⟩ | ⟨hended, hok, -⟩ | ⟨-, -, -, f, -, hf⟩
    · -- a run that has spent its budget has made no more steps than the merge has
      have hle : n ≤ (merge 1 rs).length := (map_bare_of_after h hg hd).2
      have hlen : (merge 1 rs).length = ∑ k ∈ Rest.keys rs, Rest.most k rs := ho.length_merge 1
      omega
    · exact ⟨hended, hok⟩
    · exact absurd hf (hx f)

/-- Two lists that have each key, once or twice. -/
theorem drain_multijoin_repeated :
    let ss : List (Supply Text) := [.ofList [['a'], ['a'], ['b']] id none,
      .ofList [['a'], ['b'], ['b']] id none]
    let rs := ss.map Supply.rest
    let e := ofLists ss []
    e.Prepared ss ∧ (∀ s ∈ ss, s.gate = none) ∧ Rest.Ordered rs ∧
      (e.drain 10 .fresh).result.length = ∑ k ∈ Rest.keys rs, Rest.most k rs ∧
      (e.drain 10 .fresh).result.countP (·.allSynchronized) =
        ∑ k ∈ Rest.keys rs, Rest.fewest k rs ∧
      (e.drain 10 .fresh).result.length = 4 := by
  intro ss rs e
  have hp : e.Prepared ss := prepared_ofLists ss []
  have hg : ∀ s ∈ ss, s.gate = none := by simp [ss, Supply.ofList]
  have ho : Rest.Ordered rs := by
    refine ⟨?_, ?_⟩
    · intro r hr
      rcases List.mem_pair.1 hr with rfl | rfl
      · decide
      · decide
    · have hkeys : Rest.keys rs = {['a'], ['b']} := by decide +kernel
      rw [hkeys]
      decide
  obtain ⟨-, -, hend, -⟩ := drain_multijoin hp hg ho 10
  obtain ⟨-, hlen, hall⟩ := hend (by decide +kernel) (by decide +kernel)
  exact ⟨hp, hg, ho, hlen, hall, by decide +kernel⟩

end Engine

end Lockstep
