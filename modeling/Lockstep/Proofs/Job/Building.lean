import Mathlib.Data.List.Basic
import Mathlib.Data.List.Nodup
import Lockstep.Job.Build
import Lockstep.Proofs.Brackets
import Lockstep.Proofs.Engine.Intake
import Lockstep.Proofs.Engine.Requests

/-!
# The engine of a job

The engine that is built of a job registers its ruptures and its sources, each in the order of the
job, whatever stands in the files: a rupture that gates a source is registered already
(`engineOf_sync`).  Its sources are fed by what was opened (`fed_engineOf`), and its ruptures are
watched (`watched_engineOf`), so all that is known of runs of engines holds of jobs.

Ruptures are kept by their names, which changes nothing where these are distinct
(`byName_eq_self`).  A stream that is read in order to its end without a fault is the stream itself
(`Stream.ordered_eq_self`).
-/

namespace Lockstep

variable {ρ κ : Type}

/-! ### Streams -/

namespace Stream

variable {keyer : ρ → Except Fault Text} {name : Text} {s : Stream ρ}

theorem orderedFrom_eq_self {previous : Option Text} {index : ℕ}
    (h : (orderedFrom keyer name previous index s).fault? = none) :
    orderedFrom keyer name previous index s = s := by
  induction s generalizing previous index with
  | nil => rfl
  | cons x s ih =>
    rcases x with f | r
    · cases h
    · unfold orderedFrom at h ⊢
      cases hk : keyer r with
      | error f =>
        rw [hk] at h
        cases h
      | ok key =>
        simp only [hk] at h ⊢
        cases previous with
        | none => exact congrArg _ (ih h)
        | some last =>
          dsimp only at h ⊢
          by_cases hb : Text.before key last = true
          · simp [hb, fault?] at h
          · rw [if_neg hb] at h ⊢
            exact congrArg _ (ih h)

/-- A stream that is passed on to its end was in order, and nothing of it is changed. -/
theorem ordered_eq_self (h : (ordered keyer name s).fault? = none) : ordered keyer name s = s :=
  orderedFrom_eq_self h

end Stream

namespace Feed

@[simp] theorem stream_ofStream (s : Stream ρ) : (ofStream s).stream = s.records := by
  show Delivery.leading (deliveries s) = s.records
  induction s with
  | nil => rfl
  | cons x s ih =>
    rcases x with f | r
    · rfl
    · exact congrArg (r :: ·) ih

theorem ending_ofStream (s : Stream ρ) :
    (ofStream s).ending = s.fault?.elim .exhausted .failure := by
  unfold ending
  rw [stream_ofStream]
  induction s with
  | nil => rfl
  | cons x s ih =>
    rcases x with f | r
    · rfl
    · exact (outcome_succ _ _).trans ih

/-- A feed that comes to its end without a failure brings all of its stream. -/
theorem fault?_eq_none_of_ending {s : Stream ρ} (h : (ofStream s).ending = .exhausted) :
    s.fault? = none := by
  rw [ending_ofStream] at h
  cases hf : s.fault? with
  | none => rfl
  | some f => simp [hf] at h

end Feed

namespace Job

open Lockstep.Config

variable {w : Workspace} {j : JobEntry} {rs : List RuptureEntry} {s : SourceEntry}
  {opened : List Opened}

/-! ### Ruptures by their names -/

theorem foldl_put {before : List RuptureEntry} (h : ((before ++ rs).map (·.name)).Nodup) :
    rs.foldl put before = before ++ rs := by
  induction rs generalizing before with
  | nil => simp
  | cons r rs ih =>
    have hfresh : ¬ (before.any fun x => x.name == r.name) = true := by
      simp only [List.map_append, List.map_cons, List.nodup_append, List.any_eq_true] at h ⊢
      rintro ⟨x, hx, heq⟩
      exact h.2.2 _ (List.mem_map_of_mem hx) _ (List.mem_cons_self ..) (beq_iff_eq.1 heq)
    rw [List.foldl_cons, put, if_neg hfresh, ih (by simpa using h), List.append_assoc,
      List.singleton_append]

/-- Ruptures with distinct names are all kept, in their order. -/
theorem byName_eq_self (h : (rs.map (·.name)).Nodup) : byName rs = rs := by
  have hput : rs.foldl put [] = [] ++ rs := foldl_put h
  exact hput

theorem gateOf_lt {k : ℕ} (h : gateOf rs s = .ok (some k)) : k < rs.length := by
  unfold gateOf at h
  cases hb : s.binding? with
  | none => simp [hb] at h
  | some name =>
    cases hk : rs.findIdx? fun r => r.name == name with
    | none => simp [hb, hk] at h
    | some i =>
      simp only [hb, hk, Except.ok.injEq, Option.some.injEq] at h
      exact h ▸ (List.findIdx?_eq_some_iff_findIdx_eq.1 hk).1

theorem gateOf_unbound (h : s.binding? = none) : gateOf rs s = .ok none := by
  rw [gateOf, h]

/-! ### What is opened -/

/-- What is known of a source of a job once it is opened. -/
@[mk_iff]
structure Opens (w : Workspace) (rs : List RuptureEntry) (s : SourceEntry) (o : Opened) : Prop where
  records : Records.openSource w s = .ok o.records
  gate : gateOf rs s = .ok o.gate

/-- If all sources can be opened, this is what is known of them. -/
theorem openAll_eq_ok {ss : List SourceEntry} :
    (openAll w rs ss).2 = .ok opened ↔ List.Forall₂ (Opens w rs) ss opened := by
  induction ss generalizing opened with
  | nil => simp [openAll, eq_comm]
  | cons s ss ih =>
    unfold openAll
    simp only [List.forall₂_cons_left_iff, opens_iff, ← ih]
    cases Records.openSource w s with
    | error f => simp
    | ok records =>
      cases gateOf rs s with
      | error f => simp
      | ok gate =>
        cases (openAll w rs ss).2 with
        | error f => simp [Except.map]
        | ok rest =>
          simp only [Except.map, Except.ok.injEq]
          constructor
          · rintro rfl
            exact ⟨_, _, ⟨rfl, rfl⟩, rfl, rfl⟩
          · rintro ⟨o, _, ⟨rfl, rfl⟩, rfl, rfl⟩
            rfl

/-- What the source of an entry is made of once it is opened. -/
def intakeOf (j : JobEntry) (s : SourceEntry) (o : Opened) : Intake Value :=
  ⟨Feed.ofStream (recordsOf j s o.records), KeyField.keyOf s.key, o.gate⟩

/-- What the sources of a job are made of, by their numbers. -/
def intakes (j : JobEntry) (opened : List Opened) (n : ℕ) : Intake Value :=
  (j.sources.zipWith (intakeOf j) opened).getD n ⟨.script [], fun _ => .ok [], none⟩

theorem intakes_of_getElem? {n : ℕ} {o : Opened} (hs : j.sources[n]? = some s)
    (ho : opened[n]? = some o) : intakes j opened n = intakeOf j s o := by
  simp [intakes, List.getD_eq_getElem?_getD, List.getElem?_zipWith, hs, ho]

theorem exists_source {n : ℕ} {x : Source Value Text}
    (h : (engineOf j opened).pool.sources[n]? = some x) : ∃ s o,
      j.sources[n]? = some s ∧ opened[n]? = some o ∧ x = (intakeOf j s o).fresh := by
  obtain ⟨s, o, hs, ho, hx⟩ := List.getElem?_zipWith_eq_some.1 h
  exact ⟨s, o, hs, ho, hx.symm⟩

theorem getElem?_ruptures (k : ℕ) :
    (engineOf j opened).pool.ruptures[k]? = ((byName j.ruptures)[k]?).map ruptureOf :=
  List.getElem?_map

theorem ruptureOf_eq_fresh (r : RuptureEntry) : ∃ name extract, ruptureOf r = .fresh name extract :=
  ⟨_, _, rfl⟩

theorem ruptureOf_extract (r : RuptureEntry) (k : Text) (f : Fault) :
    (ruptureOf r).extract k ≠ .error f := by
  unfold ruptureOf
  cases r.width <;> simp [Rupture.fresh, Rupture.whole, Rupture.leading]

/-! ### What is built -/

section Built

variable (hopen : List.Forall₂ (Opens w (byName j.ruptures)) j.sources opened)

include hopen

theorem opens_getElem {n : ℕ} {o : Opened} (hs : j.sources[n]? = some s)
    (ho : opened[n]? = some o) : Opens w (byName j.ruptures) s o := by
  obtain ⟨hn, rfl⟩ := List.getElem?_eq_some_iff.1 hs
  obtain ⟨hm, rfl⟩ := List.getElem?_eq_some_iff.1 ho
  exact hopen.get hn hm

/-- The ruptures and the sources are registered in the order of the job. -/
theorem engineOf_sync : (engineOf j opened).sync =
    ⟨List.range (engineOf j opened).pool.sources.length, List.range (byName j.ruptures).length,
      false, none, none⟩ := by
  have hr : (List.range (byName j.ruptures).length).foldl Synchronization.registerRupture .empty =
      (⟨[], List.range (byName j.ruptures).length, false, none, none⟩ : Synchronization Text) :=
    Synchronization.foldl_registerRupture List.nodup_range
  unfold engineOf
  dsimp only
  rw [List.length_map, hr]
  refine Synchronization.foldl_registerSource fun i _ k hk => ?_
  -- what gates a source is a rupture of the job
  obtain ⟨x, hx, hgate⟩ := Option.bind_eq_some_iff.1 hk
  obtain ⟨s, o, hs, ho, rfl⟩ := exists_source hx
  have hlookup := (opens_getElem hopen hs ho).gate
  exact List.mem_range.2 (gateOf_lt (hlookup.trans (congrArg _ hgate)))

/-- The sources of a job are fed by what is opened. -/
theorem fed_engineOf : (engineOf j opened).Fed (intakes j opened) where
  unstarted := by rw [engineOf_sync hopen]
  nextKey := by rw [engineOf_sync hopen]
  sources := by
    intro n x hx
    obtain ⟨s, o, hs, ho, rfl⟩ := exists_source hx
    rw [intakes_of_getElem? hs ho]
  sources_nodup := by
    rw [engineOf_sync hopen]
    exact List.nodup_range
  sources_lt := by
    rw [engineOf_sync hopen]
    exact fun n hn => List.mem_range.1 hn
  ruptures_nodup := by
    rw [engineOf_sync hopen]
    exact List.nodup_range
  ruptures_lt := by
    rw [engineOf_sync hopen]
    intro k hk
    simpa [engineOf] using List.mem_range.1 hk
  gates := by
    rw [engineOf_sync hopen]
    intro n hn k hk
    have hx := List.getElem?_eq_getElem (List.mem_range.1 hn)
    obtain ⟨s, o, hs, ho, -⟩ := exists_source hx
    rw [intakes_of_getElem? hs ho] at hk
    have hlt : k < (byName j.ruptures).length :=
      gateOf_lt ((opens_getElem hopen hs ho).gate.trans (congrArg _ hk))
    obtain ⟨name, extract, hfresh⟩ := ruptureOf_eq_fresh (byName j.ruptures)[k]
    refine ⟨List.mem_range.2 hlt, name, extract, ?_⟩
    rw [getElem?_ruptures, List.getElem?_eq_getElem hlt, Option.map_some, hfresh]
  total := by
    rintro f ⟨k, -, r, hr, key, hf⟩
    rw [getElem?_ruptures] at hr
    obtain ⟨x, -, rfl⟩ := Option.map_eq_some_iff.1 hr
    exact ruptureOf_extract x key f hf

/-- The ruptures of a job are watched in their order. -/
theorem watched_engineOf : (engineOf j opened).Watched ((byName j.ruptures).map ruptureOf) where
  unstarted := by rw [engineOf_sync hopen]
  ruptures_nodup := by
    rw [engineOf_sync hopen]
    exact List.nodup_range
  ruptures := by
    rw [engineOf_sync hopen]
    refine List.forall₂_iff_get.2 ⟨by simp, fun i hi hr => ?_⟩
    have hlt : i < (byName j.ruptures).length := by simpa using hi
    simp [getElem?_ruptures, hlt]
  fresh := by
    intro r hr
    obtain ⟨x, -, rfl⟩ := List.mem_map.1 hr
    exact ruptureOf_eq_fresh x

end Built

end Job

end Lockstep
