import Mathlib.Data.List.Basic
import Mathlib.Data.List.Count
import Mathlib.Data.List.Nodup
import Lockstep.Proofs.Brackets
import Lockstep.Report.Basic

/-!
# Reports count steps

What a report counts by name is read off the steps that it was given.  With distinct names, the
count of a name is the number of the steps that mark its place: for a source those that synchronize
it, for a rupture those that close one of its groups (`Report.counts_of_record`).  The records that
are kept tell the same numbers (`Report.recounts_of_record`).
-/

namespace Lockstep

variable {ρ κ : Type}

namespace Tally

/-- The names that are counted. -/
def names (t : Tally) : List Text := t.map (·.1)

theorem count_bump (a b : Text) (t : Tally) :
    count a (bump b t) = count a t + if b = a then 1 else 0 := by
  unfold bump
  by_cases h : b = a
  · subst h
    simp
  · rw [count_set_of_ne (Ne.symm h), if_neg h, Int.add_zero]

/-- Counting names one after the other counts each as often as it occurs. -/
theorem count_foldl_bump (a : Text) (ns : List Text) (t : Tally) :
    count a (ns.foldl (fun t n => bump n t) t) = count a t + ns.count a := by
  induction ns generalizing t with
  | nil => simp
  | cons n ns ih =>
    rw [List.foldl_cons, ih, count_bump, List.count_cons]
    by_cases h : n = a
    · simp [h]
      omega
    · simp [h]

theorem names_set {n : Text} {t : Tally} (h : n ∈ t.names) (c : ℤ) :
    (set n c t).names = t.names := by
  induction t with
  | nil => cases h
  | cons e t ih =>
    by_cases he : e.1 = n
    · simp [set, names, he]
    · have hmem : n ∈ names t := by
        rcases List.mem_cons.1 h with rfl | hmem
        · exact absurd rfl he
        · exact hmem
      have := ih hmem
      simp_all [set, names]

theorem names_foldl_bump {ns : List Text} {t : Tally} (h : ∀ n ∈ ns, n ∈ t.names) :
    (ns.foldl (fun t n => bump n t) t).names = t.names := by
  induction ns generalizing t with
  | nil => rfl
  | cons n ns ih =>
    obtain ⟨hn, hns⟩ := List.forall_mem_cons.1 h
    have hb : (bump n t).names = t.names := names_set hn _
    rw [List.foldl_cons, ih (fun m hm => hb ▸ hns m hm), hb]

theorem names_set_of_notMem {n : Text} {t : Tally} (h : n ∉ t.names) (c : ℤ) :
    (set n c t).names = t.names ++ [n] := by
  induction t with
  | nil => rfl
  | cons e t ih =>
    obtain ⟨hne, hmem⟩ := not_or.1 (mt List.mem_cons.2 h)
    have := ih hmem
    simp_all [set, names, Ne.symm hne]

section Zero

variable {ns : List Text} {t : Tally}

theorem count_foldl_zero (a : Text) (h : count a t = 0) :
    count a ((ns.map fun n => (n, (0 : ℤ))).foldl (fun t e => set e.1 e.2 t) t) = 0 := by
  induction ns generalizing t with
  | nil => exact h
  | cons n ns ih =>
    rw [List.map_cons, List.foldl_cons]
    apply ih
    by_cases ha : a = n
    · rw [ha, count_set_self]
    · rw [count_set_of_ne ha, h]

theorem names_foldl_zero (hn : (t.names ++ ns).Nodup) :
    names ((ns.map fun n => (n, (0 : ℤ))).foldl (fun t e => set e.1 e.2 t) t) = t.names ++ ns := by
  induction ns generalizing t with
  | nil => simp
  | cons n ns ih =>
    have hnot : n ∉ t.names := by
      intro hmem
      exact (List.nodup_append.1 hn).2.2 n hmem n List.mem_cons_self rfl
    have hset : (set n 0 t).names = t.names ++ [n] := names_set_of_notMem hnot 0
    rw [List.map_cons, List.foldl_cons, ih, hset]
    · simp
    · rw [hset]
      simpa using hn

end Zero

theorem count_zero (a : Text) (ns : List Text) : count a (zero ns) = 0 :=
  count_foldl_zero a rfl

theorem names_zero {ns : List Text} (hn : ns.Nodup) : (zero ns).names = ns :=
  names_foldl_zero (t := []) hn

end Tally

/-! ### Names at marked places -/

/-- The names whose places are marked. -/
def marked (names : List Text) (p : ℕ → Bool) : List Text :=
  (names.zipIdx.filter fun n => p n.2).map (·.1)

theorem marked_cons (n : Text) (names : List Text) (p : ℕ → Bool) :
    marked (n :: names) p = (if p 0 then [n] else []) ++ marked names fun i => p (i + 1) := by
  simp only [marked, List.zipIdx_cons, List.zipIdx_succ, List.filter_cons, List.filter_map,
    Function.comp_def]
  split <;> simp [Function.comp_def]

section Marked

variable {names : List Text} {p : ℕ → Bool}

theorem marked_subset {a : Text} (h : a ∈ marked names p) : a ∈ names := by
  obtain ⟨e, he, rfl⟩ := List.mem_map.1 h
  exact List.fst_mem_of_mem_zipIdx (List.mem_of_mem_filter he)

theorem count_marked (hn : names.Nodup) {i : ℕ} {a : Text} (ha : names[i]? = some a) :
    (marked names p).count a = if p i then 1 else 0 := by
  induction names generalizing i p with
  | nil => cases ha
  | cons n names ih =>
    obtain ⟨hmem, hn⟩ := List.nodup_cons.1 hn
    rw [marked_cons, List.count_append]
    cases i with
    | zero =>
      obtain rfl : n = a := by simpa using ha
      rw [List.count_eq_zero.2 fun hin => hmem (marked_subset hin)]
      split <;> simp
    | succ i =>
      have ha : names[i]? = some a := by simpa using ha
      have hne : n ≠ a := by
        rintro rfl
        exact hmem (List.mem_of_getElem? ha)
      rw [ih hn ha]
      split <;> simp [hne]

theorem mem_marked_iff (hn : names.Nodup) {i : ℕ} {a : Text} (ha : names[i]? = some a) :
    a ∈ marked names p ↔ p i = true := by
  rw [← List.count_pos_iff, count_marked hn ha]
  split <;> simp_all

/-- All names are marked exactly if all places are. -/
theorem marked_eq_self_iff : marked names p = names ↔ ∀ i < names.length, p i = true := by
  rw [marked]
  constructor
  · intro h i hi
    have hlen : (names.zipIdx.filter fun n => p n.2).length = names.zipIdx.length := by
      rw [← List.length_map (f := Prod.fst), List.length_zipIdx]
      exact congrArg List.length h
    have hall := List.length_filter_eq_length_iff.1 hlen
    exact hall (names[i], i) (List.mk_mem_zipIdx_iff_getElem?.2 (List.getElem?_eq_getElem hi))
  · intro h
    have hall : names.zipIdx.filter (fun n => p n.2) = names.zipIdx := by
      rw [List.filter_eq_self]
      intro e he
      have hget := List.mem_zipIdx_iff_getElem?.1 he
      exact h e.2 (List.getElem?_eq_some_iff.1 hget).1
    rw [hall]
    exact List.zipIdx_map_fst 0 names

/-- In lists of marked names a name occurs as often as its place is marked. -/
theorem count_flatMap_marked {α : Type} (hn : names.Nodup) {i : ℕ} {a : Text}
    (ha : names[i]? = some a) (q : α → ℕ → Bool) (ts : List α) :
    (ts.flatMap fun t => marked names (q t)).count a = ts.countP fun t => q t i := by
  induction ts with
  | nil => rfl
  | cons t ts ih =>
    rw [List.flatMap_cons, List.count_append, ih, count_marked hn ha, List.countP_cons]
    omega

end Marked

namespace Report

theorem takingPart_eq_marked (names : List Text) (t : Step ρ κ) :
    takingPart names t = marked names t.isSynchronized := rfl

theorem breaking_eq_marked (names : List Text) (t : Step ρ κ) :
    breaking names t = marked names fun j => t.closes j := by
  unfold breaking Step.closes
  generalize t.edges = es
  induction names generalizing es with
  | nil => rfl
  | cons n names ih =>
    rw [marked_cons]
    cases es with
    | nil => simp [marked]
    | cons e es =>
      have := ih es
      by_cases he : e.2 = true <;> simp_all

/-- What is kept of a step. -/
def recordOf (showKey : Frontier κ → Text) (sources ruptures : List Text) (t : Step ρ κ) :
    StepRecord :=
  ⟨Int.ofNat t.number, showKey t.key, takingPart sources t, breaking ruptures t⟩

/-- The report after some steps. -/
theorem foldl_record (keep : Bool) (showKey : Frontier κ → Text) (ts : List (Step ρ κ))
    (r : Report) : ts.foldl (record keep showKey) r = { r with
      steps := r.steps + ts.length
      matched := r.matched + ts.countP (·.allSynchronized)
      synchronized :=
        (ts.flatMap (takingPart r.sourceNames)).foldl (fun t n => t.bump n) r.synchronized
      breaks := (ts.flatMap (breaking r.ruptureNames)).foldl (fun t n => t.bump n) r.breaks
      records := r.records ++
        if keep then ts.map (recordOf showKey r.sourceNames r.ruptureNames) else [] } := by
  induction ts generalizing r with
  | nil => simp
  | cons t ts ih =>
    rw [List.foldl_cons, ih]
    cases keep <;> cases ht : t.allSynchronized <;>
      simp [record, recordOf, List.foldl_append, ht] <;> omega

/-- The report counts these steps, over sources and ruptures of these names. -/
structure Counts (sources ruptures : List Text) (ts : List (Step ρ κ)) (r : Report) : Prop where
  steps : r.steps = ts.length
  matched : r.matched = ts.countP (·.allSynchronized)
  synchronized_names : r.synchronized.names = sources
  synchronized : ∀ i a, sources[i]? = some a →
    r.synchronized.count a = ts.countP (·.isSynchronized i)
  breaks_names : r.breaks.names = ruptures
  breaks : ∀ j a, ruptures[j]? = some a → r.breaks.count a = ts.countP (·.closes j)

/-- A source takes part in all steps in which all sources do. -/
theorem Counts.matched_le {sources ruptures : List Text} {ts : List (Step ρ κ)} {r : Report}
    (h : r.Counts sources ruptures ts) {a : Text} (ha : a ∈ sources) :
    r.matched ≤ r.synchronized.count a ∧ r.synchronized.count a ≤ r.steps := by
  obtain ⟨i, hi⟩ := List.mem_iff_getElem?.1 ha
  rw [h.matched, h.synchronized i a hi, h.steps]
  refine ⟨Int.ofNat_le.2 ?_, Int.ofNat_le.2 List.countP_le_length⟩
  exact List.countP_mono_left fun t _ ht => Step.isSynchronized_of_all ht i

/-- The records that a report has kept are numbered from one on, one for each step, and counting
them again gives what the report has counted. -/
structure Recounts (sources ruptures : List Text) (r : Report) : Prop where
  steps : r.records.length = r.steps
  numbers : ∀ (n : ℕ) (x : StepRecord), r.records[n]? = some x → x.number = n + 1
  matched : r.matched = r.records.countP (·.synchronized = sources)
  synchronized : ∀ a ∈ sources, r.synchronized.count a = r.records.countP (a ∈ ·.synchronized)
  breaks : ∀ a ∈ ruptures, r.breaks.count a = r.records.countP (a ∈ ·.breaks)

section Run

variable {sources ruptures : List Text} (hs : sources.Nodup) (hr : ruptures.Nodup)
  {keep : Bool} {showKey : Frontier κ → Text} {ts : List (Step ρ κ)} {jobName runId : Text}
  {r : Report} {x : Binary64}
  (h : r = { ts.foldl (record keep showKey) (start jobName runId sources ruptures) with
    elapsed := x })

include hs hr h

theorem counts_of_record : r.Counts sources ruptures ts := by
  rw [foldl_record] at h
  subst h
  refine ⟨Int.zero_add _, Int.zero_add _, ?_, fun i a ha => ?_, ?_, fun j a ha => ?_⟩
  · refine (Tally.names_foldl_bump fun a ha => ?_).trans (Tally.names_zero hs)
    obtain ⟨t, -, hin⟩ := List.mem_flatMap.1 ha
    exact (Tally.names_zero hs).symm ▸ marked_subset hin
  · refine (Tally.count_foldl_bump a _ _).trans ?_
    rw [start, Tally.count_zero, Int.zero_add]
    exact congrArg Nat.cast (count_flatMap_marked hs ha Step.isSynchronized ts)
  · refine (Tally.names_foldl_bump fun a ha => ?_).trans (Tally.names_zero hr)
    obtain ⟨t, -, hin⟩ := List.mem_flatMap.1 ha
    rw [breaking_eq_marked] at hin
    exact (Tally.names_zero hr).symm ▸ marked_subset hin
  · refine (Tally.count_foldl_bump a _ _).trans ?_
    rw [start, Tally.count_zero, Int.zero_add, funext (breaking_eq_marked ruptures)]
    exact congrArg Nat.cast (count_flatMap_marked hr ha (fun t j => t.closes j) ts)

theorem recounts_of_record (hkeep : keep = true)
    (hnumber : ∀ (n : ℕ) (t : Step ρ κ), ts[n]? = some t → t.number = n + 1)
    (hmask : ∀ t ∈ ts, ∃ bs, bs.length = sources.length ∧ t.desync = maskOf bs) :
    r.Recounts sources ruptures := by
  have hc := counts_of_record hs hr h
  have hrecords : r.records = ts.map (recordOf showKey sources ruptures) := by
    rw [foldl_record] at h
    subst h
    simp [start, hkeep]
  constructor
  · rw [hrecords, List.length_map, hc.steps]
  · intro n y hy
    rw [hrecords, List.getElem?_map] at hy
    obtain ⟨t, ht, rfl⟩ := Option.map_eq_some_iff.1 hy
    simp [recordOf, hnumber n t ht]
  · rw [hc.matched, hrecords, List.countP_map]
    refine congrArg Nat.cast (List.countP_congr fun t ht => ?_)
    obtain ⟨bs, hlen, hbs⟩ := hmask t ht
    rw [Step.allSynchronized_iff hbs, hlen, ← marked_eq_self_iff]
    exact decide_eq_true_iff.symm
  · intro a ha
    obtain ⟨i, hi⟩ := List.mem_iff_getElem?.1 ha
    rw [hc.synchronized i a hi, hrecords, List.countP_map]
    refine congrArg Nat.cast (List.countP_congr fun t _ => ?_)
    simp [recordOf, takingPart_eq_marked, mem_marked_iff hs hi]
  · intro a ha
    obtain ⟨j, hj⟩ := List.mem_iff_getElem?.1 ha
    rw [hc.breaks j a hj, hrecords, List.countP_map]
    refine congrArg Nat.cast (List.countP_congr fun t _ => ?_)
    simp [recordOf, breaking_eq_marked, mem_marked_iff hr hj]

end Run

/-- Whether records are kept changes nothing else. -/
theorem foldl_record_false (showKey : Frontier κ → Text) (ts : List (Step ρ κ)) {r : Report}
    (h : r.records = []) :
    ts.foldl (record false showKey) r =
      { ts.foldl (record true showKey) r with records := [] } := by
  rw [foldl_record, foldl_record]
  simp [h]

end Report

end Lockstep
