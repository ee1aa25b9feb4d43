import Mathlib.Data.List.Perm.Subperm
import Lockstep.Proofs.Config.Acceptance
import Lockstep.Proofs.Job.Building
import Lockstep.Proofs.Job.Running

/-!
# The report of a job agrees with its run and its files

Running a job that is accepted drains the engine that is built of it.  If a report comes out, the
run has come to its end, no file has brought a fault, and what the report says of the steps is
counted over those of the run (`Job.Accounts`):

* each source takes part in at least as many steps as its file has records, and in exactly as many
  if it is bound to no rupture;
* no source takes part in fewer steps than all do together;
* a rupture closes at most as many groups as one declared after it, and at least one if there is a
  step at all;
* the records that are kept count the same.

This is `Job.runWithin_accounts`, for every budget of steps.
-/

namespace Lockstep

variable {ρ κ : Type}

/-- A source that has been presented took part in as many steps as it has records, or more. -/
theorem Presents.length_le {s : Supply ρ} {i : ℕ} {ts : List (Step ρ Text)} {position : ℕ → ℕ}
    (h : Presents s i ts position) : s.records.length ≤ ts.countP (·.isSynchronized i) := by
  -- the positions before the steps that synchronize the source
  let reached := (ts.zipIdx.filter fun t => t.1.isSynchronized i).map fun t => position t.2
  have hlen : reached.length = ts.countP (·.isSynchronized i) := by
    rw [List.length_map, ← List.countP_eq_length_filter]
    conv_rhs => rw [← List.zipIdx_map_fst 0 ts, List.countP_map]
    rfl
  have hsub : List.range s.records.length ⊆ reached := by
    intro q hq
    obtain ⟨n, t, ht, rfl, hsync⟩ := h.each q (List.mem_range.1 hq)
    refine List.mem_map.2 ⟨(t, n), List.mem_filter.2 ⟨?_, hsync⟩, rfl⟩
    exact List.mk_mem_zipIdx_iff_getElem?.2 ht
  have hle := (List.subperm_of_subset List.nodup_range hsub).length_le
  rwa [List.length_range, hlen] at hle

theorem Presents.length_eq {s : Supply ρ} {i : ℕ} {ts : List (Step ρ Text)} {position : ℕ → ℕ}
    (h : Presents s i ts position) (hg : s.gate = none) :
    ts.countP (·.isSynchronized i) = s.records.length := by
  have hlen := congrArg List.length (h.ungated hg)
  rwa [List.length_map, List.length_map, ← List.countP_eq_length_filter] at hlen

namespace Engine

variable [SyncKey κ] {e : Engine ρ κ} {budget : ℕ}

section Breaks

variable {rs : List (Rupture κ)} (h : e.Watched rs)

include h

/-- A rupture closes at most as many groups as one that is registered after it. -/
theorem Watched.countP_closes_mono {i j : ℕ} (hij : i ≤ j) (hj : j < rs.length) :
    (e.drain budget .fresh).result.countP (·.closes i) ≤
      (e.drain budget .fresh).result.countP (·.closes j) :=
  List.countP_mono_left fun _ ht hc => h.closes_mono ht hij hj hc

/-- In a whole run every rupture closes a group unless there is no step. -/
theorem Watched.countP_closes_pos (hended : (e.drain budget .fresh).ended = true)
    (hok : (e.drain budget .fresh).outcome = .ok ()) {j : ℕ} (hj : j < rs.length) :
    0 < (e.drain budget .fresh).result.countP (·.closes j) ↔
      0 < (e.drain budget .fresh).result.length := by
  constructor
  · intro hpos
    exact lt_of_lt_of_le hpos List.countP_le_length
  · intro hpos
    have hfr := frontierAfter_length h.unstarted hended hok (List.ne_nil_of_length_pos hpos)
    have hlast := List.getElem?_eq_getElem (Nat.sub_lt hpos Nat.one_pos)
    refine List.countP_pos_iff.2 ⟨_, List.mem_of_getElem? hlast, (h.closes_iff hlast hj).2 ?_⟩
    rw [Nat.sub_add_cancel hpos]
    exact Or.inl hfr

end Breaks

end Engine

namespace Job

open Lockstep.Config

variable {budget : ℕ} {w : Workspace} {keep : Bool} {j : JobEntry} {context : Option RunContext}
  {clock : Clock} {r : Report}

/-- What the report of an accepted job tells of the steps of its run and of its files. -/
structure Accounts (w : Workspace) (j : JobEntry) (keep : Bool) (ts : List (Step Value Text))
    (r : Report) : Prop where
  counts : r.Counts (j.sources.map (·.name)) (j.ruptures.map (·.name)) ts
  sources : ∀ s ∈ j.sources, r.matched ≤ r.synchronized.count s.name ∧
    r.synchronized.count s.name ≤ r.steps
  files : ∀ s ∈ j.sources, ∃ records, Records.openSource w s = .ok records ∧
    records.fault? = none ∧ records.records.length ≤ r.synchronized.count s.name ∧
    (s.binding? = none → r.synchronized.count s.name = records.records.length)
  ruptures : ∀ x ∈ j.ruptures, r.breaks.count x.name ≤ r.steps ∧
    (1 ≤ r.breaks.count x.name ↔ 1 ≤ r.steps)
  nested : (j.ruptures.map fun x => r.breaks.count x.name).Pairwise (· ≤ ·)
  recounts : keep = true → r.Recounts (j.sources.map (·.name)) (j.ruptures.map (·.name))
  unkept : keep = false → r.records = []

theorem recordsOf_eq_self {s : SourceEntry} {records : Stream Value}
    (h : (recordsOf j s records).fault? = none) : recordsOf j s records = records := by
  unfold recordsOf at h ⊢
  split
  · rename_i ho
    rw [if_pos ho] at h
    exact Stream.ordered_eq_self h
  · rfl

section Engine

variable {e : Engine Value Text} (hb : (build w j).2 = .ok e)
  (hended : (e.drain budget .fresh).ended = true) (hok : (e.drain budget .fresh).outcome = .ok ())

include hb

/-- The engine of a job, and what is known of its sources. -/
theorem exists_opened : ∃ opened, e = engineOf j opened ∧
    List.Forall₂ (Opens w (byName j.ruptures)) j.sources opened := by
  have hmap : (openAll w (byName j.ruptures) j.sources).2.map (engineOf j) = .ok e := hb
  cases ho : (openAll w (byName j.ruptures) j.sources).2 with
  | error f => simp [ho, Except.map] at hmap
  | ok opened =>
    rw [ho] at hmap
    exact ⟨opened, (Except.ok.inj hmap).symm, openAll_eq_ok.1 ho⟩

include hended hok

/-- What reaches the engine of a file has been presented, and has brought no fault. -/
theorem exists_presents {i : ℕ} {s : SourceEntry} (hs : j.sources[i]? = some s) :
    ∃ o position, Opens w (byName j.ruptures) s o ∧ (recordsOf j s o.records).fault? = none ∧
      Presents (intakeOf j s o).supply i (e.drain budget .fresh).result position := by
  obtain ⟨opened, rfl, hopen⟩ := exists_opened hb
  have hi := (List.getElem?_eq_some_iff.1 hs).1
  have hlt : i < opened.length := hopen.length_eq ▸ hi
  have ho := List.getElem?_eq_getElem hlt
  have hreg : (engineOf j opened).sync.sources[i]? = some i := by
    rw [engineOf_sync hopen, List.getElem?_range]
    simpa [engineOf] using ⟨hi, hlt⟩
  obtain ⟨hending, hpresents⟩ := (fed_engineOf hopen).drain_complete hended hok hreg
  rw [intakes_of_getElem? hs ho] at hending hpresents
  exact ⟨opened[i], _, opens_getElem hopen hs ho, Feed.fault?_eq_none_of_ending hending, hpresents⟩

/-- A file whose source has been presented has brought no fault, and all of its records. -/
theorem records_le_countP {i : ℕ} {s : SourceEntry} (hs : j.sources[i]? = some s) :
    ∃ records, Records.openSource w s = .ok records ∧ records.fault? = none ∧
      records.records.length ≤ (e.drain budget .fresh).result.countP (·.isSynchronized i) ∧
      (s.binding? = none →
        (e.drain budget .fresh).result.countP (·.isSynchronized i) = records.records.length) := by
  obtain ⟨o, position, hopen, hfault, hpresents⟩ := exists_presents hb hended hok hs
  have hself := recordsOf_eq_self hfault
  have hrecords : (intakeOf j s o).supply.records = o.records.records := by
    show (Feed.ofStream (recordsOf j s o.records)).stream = _
    rw [Feed.stream_ofStream, hself]
  refine ⟨o.records, hopen.records, hself ▸ hfault, ?_, fun hbind => ?_⟩
  · rw [← hrecords]
    exact hpresents.length_le
  · rw [← hrecords]
    exact hpresents.length_eq (Except.ok.inj (hopen.gate.symm.trans (gateOf_unbound hbind)))

end Engine

section Breaks

variable {e : Engine Value Text} (hw : e.Watched (j.ruptures.map ruptureOf)) {sources : List Text}
  (hc : r.Counts sources (j.ruptures.map (·.name)) (e.drain budget .fresh).result)

include hw hc

theorem breaks_nested : (j.ruptures.map fun x => r.breaks.count x.name).Pairwise (· ≤ ·) := by
  rw [List.pairwise_map, List.pairwise_iff_getElem]
  intro m n hm hn hmn
  rw [hc.breaks m _ (by simp [hm]), hc.breaks n _ (by simp [hn])]
  exact Int.ofNat_le.2 (hw.countP_closes_mono hmn.le (by simpa using hn))

theorem breaks_le (hended : (e.drain budget .fresh).ended = true)
    (hok : (e.drain budget .fresh).outcome = .ok ()) {x : RuptureEntry} (hx : x ∈ j.ruptures) :
    r.breaks.count x.name ≤ r.steps ∧ (1 ≤ r.breaks.count x.name ↔ 1 ≤ r.steps) := by
  obtain ⟨n, hn, rfl⟩ := List.mem_iff_getElem.1 hx
  have hpos := hw.countP_closes_pos hended hok (j := n) (by simpa using hn)
  rw [hc.breaks n _ (by simp [hn]), hc.steps]
  exact ⟨Int.ofNat_le.2 List.countP_le_length, by omega⟩

end Breaks

/-- **A report agrees with the run and with the files.**  If the run of an accepted job gives a
report, its engine has come to its end without a fault and the report counts its steps: each source
in at least as many as its file has records, and in exactly as many if it is bound to no rupture;
the ruptures in the order of the job, none closing more groups than a later one.  Records that are
kept count the same, and keeping them changes nothing else. -/
theorem runWithin_accounts (hj : j.Accepted)
    (hr : (runWithin budget w keep j context clock).report = .ok r) :
    (∃ e, (build w j).2 = .ok e ∧ (e.drain budget .fresh).ended = true ∧
      (e.drain budget .fresh).outcome = .ok () ∧
      Accounts w j keep (e.drain budget .fresh).result r) ∧
    runWithin budget w false j context clock = { runWithin budget w true j context clock with
      report := (runWithin budget w true j context clock).report.map fun r =>
        { r with records := [] } } := by
  refine ⟨?_, runWithin_keep_false budget w j context clock⟩
  obtain ⟨e, jobName, runId, elapsed, hb, hended, hok, h⟩ := exists_of_runWithin hr
  refine ⟨e, hb, hended, hok, ?_⟩
  have hself : byName j.ruptures = j.ruptures := byName_eq_self hj.ruptures_nodup
  rw [hself] at h
  have hc := Report.counts_of_record hj.sources_nodup hj.ruptures_nodup h
  obtain ⟨opened, he, hopen⟩ := exists_opened hb
  have hw : e.Watched (j.ruptures.map ruptureOf) := he ▸ hself ▸ watched_engineOf hopen
  refine ⟨hc, fun s hs => hc.matched_le (List.mem_map_of_mem hs), fun s hs => ?_,
    fun x hx => breaks_le hw hc hended hok hx, breaks_nested hw hc, fun hkeep => ?_,
    fun hkeep => ?_⟩
  · obtain ⟨i, hi⟩ := List.mem_iff_getElem?.1 hs
    rw [hc.synchronized i s.name (by rw [List.getElem?_map, hi, Option.map_some])]
    simpa only [Int.ofNat_le, Int.ofNat_inj] using records_le_countP hb hended hok hi
  · refine Report.recounts_of_record hj.sources_nodup hj.ruptures_nodup h hkeep
      (fun n t ht => Engine.drain_number hw.unstarted ht) fun t ht => ?_
    obtain ⟨bs, hlen, hbs⟩ := Engine.drain_desync hw.unstarted ht
    refine ⟨bs, ?_, hbs⟩
    rw [hlen, he, engineOf_sync hopen, List.length_map, List.length_range]
    simp [engineOf, hopen.length_eq]
  · rw [h, Report.foldl_record, hkeep]
    rfl

/-- A file behind a master list, which takes part in more steps than it has records. -/
theorem runWithin_accounts_master :
    let w : Workspace := .ofFiles [(['a'], [107, 10, 97, 49, 10, 97, 50, 10, 98, 49, 10]),
      (['m'], [107, 10, 97, 10, 98, 10])]
    let key : List KeyField := [⟨['k'], .whole⟩]
    let j : JobEntry := ⟨JobEntry.defaultName, false, [⟨['g'], some 1⟩],
      [⟨['a'], ⟨.here, [['a']]⟩, .delimited, key, none, [',']⟩,
        ⟨['m'], ⟨.here, [['m']]⟩, .delimited, key, some ['g'], [',']⟩]⟩
    let r : Report := {
      jobName := JobEntry.defaultName
      runId := "0001-01-01T00:00:00.000Z".toList
      sourceNames := [['a'], ['m']]
      ruptureNames := [['g']]
      steps := 3
      matched := 3
      elapsed := .zero false
      synchronized := [(['a'], 3), (['m'], 3)]
      breaks := [(['g'], 2)]
      records := [⟨1, ['a'], [['a'], ['m']], []⟩, ⟨2, ['a', '2'], [['a'], ['m']], [['g']]⟩,
        ⟨3, ['b'], [['a'], ['m']], [['g']]⟩] }
    j.Accepted ∧ (run w true j none ⟨0, 0⟩).report = .ok r ∧
      ∃ e, (build w j).2 = .ok e ∧ Accounts w j true (e.drain Job.budget .fresh).result r := by
  intro w key j r
  let v : Value := .dict [
    (.text "ruptures".toList, .list [
      .dict [(.text "name".toList, .text ['g']), (.text "width".toList, .int 1)]]),
    (.text "sources".toList, .list [
      .dict [(.text "name".toList, .text ['a']), (.text "path".toList, .text ['a']),
        (.text "format".toList, .text "csv".toList), (.text "key".toList, .text ['k'])],
      .dict [(.text "name".toList, .text ['m']), (.text "path".toList, .text ['m']),
        (.text "format".toList, .text "csv".toList), (.text "key".toList, .text ['k']),
        (.text "rupture".toList, .text ['g'])]])]
  have hv : (JobEntry.check v).toOption = some j := by decide +kernel
  have hj : j.Accepted := .of_toOption hv
  have hr : (runWithin Job.budget w true j none ⟨0, 0⟩).report = .ok r := by decide +kernel
  obtain ⟨⟨e, hb, -, -, h⟩, -⟩ := runWithin_accounts hj hr
  exact ⟨hj, hr, e, hb, h⟩

end Job

end Lockstep
