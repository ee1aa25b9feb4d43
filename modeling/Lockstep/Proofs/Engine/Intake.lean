import Lockstep.Proofs.Engine.Stream
import Lockstep.Proofs.Engine.Visit
import Lockstep.Proofs.Position

/-!
# Runs over any feeds

An `Intake` is what a fresh source is made of when anything can fail: a feed that may fail or go on
after its end, a keyer that may refuse a record, and the gate.  In an engine that is `Fed` by
intakes the sources are sound until one pull fails.

A run that has not failed is the same as one over the lists of the streams, with keys that never
fail (`Fed.drain_lists`).  What is known of runs over lists holds of it, in particular that it has
presented all records once it has come to its end; then no stream ends with a fault
(`Fed.drain_complete`).
-/

namespace Lockstep

variable {ρ : Type}

/-- What a fresh source is made of: any feed, the key of each record, and the number of the rupture
in front, if there is one. -/
structure Intake (ρ : Type) where
  feed : Feed ρ
  key : ρ → Except Fault Text
  gate : Option ℕ

namespace Intake

/-- What the source is read from. -/
def fitting (a : Intake ρ) : Fitting ρ Text := ⟨a.feed, fun r => (a.key r).map .key⟩

/-- The source before its first read. -/
def fresh (a : Intake ρ) : Source ρ Text := .fresh a.feed a.fitting.keyer a.gate

/-- The list of the stream, with the same gate, and with the same key of every record that has
one. -/
def supply (a : Intake ρ) : Supply ρ :=
  .ofList a.feed.stream (fun r => (a.key r).toOption.getD []) a.gate

/-- What a source of the list is read from. -/
def listing (a : Intake ρ) : Fitting ρ Text :=
  ⟨a.supply.feed, fun r => .ok (.key (a.supply.key r))⟩

@[simp] theorem fitting_feed (a : Intake ρ) : a.fitting.feed = a.feed := rfl

theorem sound_fresh (a : Intake ρ) : a.fresh.Sound a.fitting where
  fitted := rfl
  keyed := by
    intro r hr
    simp [fresh, Source.fresh] at hr
  pulled := Nat.zero_le _

/-- The pulls of a sound source would have brought the same from the list. -/
theorem agree_listing {a : Intake ρ} {s : Source ρ Text} (h : s.Sound a.fitting) :
    a.fitting.Agree s.pulls a.listing := by
  intro n hn
  have hle : n < a.feed.stream.length + 1 := lt_of_lt_of_le hn h.pulls_le
  have hout := h.outcome_eq hn
  refine ⟨?_, fun r hr => ?_⟩
  · rw [hout]
    exact (Feed.outcome_ofList (Nat.le_of_lt_succ hle)).symm
  · -- a record that was pulled has a key
    have hget : a.feed.stream[n]? = some r := by
      rw [hr, fitting_feed] at hout
      cases hg : a.feed.stream[n]? with
      | none => simp [hg] at hout
      | some t =>
        rw [hg] at hout
        rw [Delivery.record.inj hout]
    have htake : (a.feed.stream.take s.pulls)[n]? = some r := by
      rw [List.getElem?_take_of_lt hn, hget]
    obtain ⟨f, hf⟩ := h.keyed r (List.mem_of_getElem? htake)
    unfold fitting at hf ⊢
    dsimp only at hf ⊢
    cases hk : a.key r with
    | error g => simp [hk, Except.map] at hf
    | ok k => simp [listing, supply, Supply.ofList, hk, Except.map, Except.toOption]

end Intake

namespace Engine

/-- An engine before its start: its sources are fresh and made of the intakes, distinct ones are
registered, the gates are fresh ruptures among the registered ones, and no extractor fails. -/
structure Fed (e : Engine ρ Text) (intake : ℕ → Intake ρ) : Prop where
  unstarted : e.sync.started = false
  nextKey : e.sync.nextKey = none
  sources : ∀ (n : ℕ) (s : Source ρ Text), e.pool.sources[n]? = some s → s = (intake n).fresh
  sources_nodup : e.sync.sources.Nodup
  sources_lt : ∀ n ∈ e.sync.sources, n < e.pool.sources.length
  ruptures_nodup : e.sync.ruptures.Nodup
  ruptures_lt : ∀ j ∈ e.sync.ruptures, j < e.pool.ruptures.length
  gates : ∀ n ∈ e.sync.sources, ∀ j, (intake n).gate = some j → j ∈ e.sync.ruptures ∧
    ∃ name extract, e.pool.ruptures[j]? = some (.fresh name extract)
  total : ∀ f, ¬ e.MayFault f

namespace Fed

variable {e d : Engine ρ Text} {intake : ℕ → Intake ρ} (h : e.Fed intake)

include h

theorem sound : e.Each fun n => Source.Sound (intake n).fitting where
  sources := by
    intro n s hs
    rw [h.sources n s hs]
    exact (intake n).sound_fresh
  total := h.total

theorem fitted : e.Fitted fun n => (intake n).fitting :=
  fun n s hs => (h.sound.sources n s hs).fitted

/-- While nothing has failed the sources are sound; else one is spoiled, and all others are. -/
theorem drain_ends (m : ℕ) : Action.Ends (Each fun n => Source.Sound (intake n).fitting)
    (FailsAt (fun n => Source.Sound (intake n).fitting) fun n => Source.Spoiled (intake n).fitting)
    ((e.drain m .fresh).engine, (e.drain m .fresh).outcome) :=
  h.sound.drain_ends (Source.guarded_sound _) h.unstarted m

theorem sound_of_ok {m : ℕ} (hok : (e.drain m .fresh).outcome = .ok ()) :
    (e.drain m .fresh).engine.Each fun n => Source.Sound (intake n).fitting := by
  have hends := h.drain_ends m
  rwa [hok] at hends

/-! ### The lists of the streams -/

/-- As long as nothing has failed, the lists of the streams make the same run. -/
theorem drain_lists {m : ℕ} (hok : (e.drain m .fresh).outcome = .ok ()) :
    (e.refit fun n => (intake n).listing).drain m .fresh = { e.drain m .fresh with
      engine := (e.drain m .fresh).engine.refit fun n => (intake n).listing } :=
  drain_refit h.fitted fun n s hs => Intake.agree_listing ((h.sound_of_ok hok).sources n s hs)

theorem prepared_lists : (e.refit fun n => (intake n).listing).Prepared
    (e.sync.sources.map fun n => (intake n).supply) where
  unstarted := h.unstarted
  nextKey := h.nextKey
  sources_nodup := h.sources_nodup
  ruptures_nodup := h.ruptures_nodup
  ruptures_lt := h.ruptures_lt
  sources := by
    rw [Pool.Holds, List.map_map, List.map_map]
    refine List.map_congr_left fun n hn => ?_
    have hs := List.getElem?_eq_getElem (h.sources_lt n hn)
    rw [h.sources n _ hs] at hs
    simp only [refit, Pool.getElem?_refit, hs]
    rfl

theorem gated_lists : (e.refit fun n => (intake n).listing).Gated
    (e.sync.sources.map fun n => (intake n).supply) := by
  intro s hs j hj
  obtain ⟨n, hn, rfl⟩ := List.mem_map.1 hs
  exact h.gates n hn j hj

/-- A run that has come to its end has presented all records of every stream, and none of the
streams ends with a fault. -/
theorem drain_complete {budget : ℕ} (hended : (e.drain budget .fresh).ended = true)
    (hok : (e.drain budget .fresh).outcome = .ok ()) {i n : ℕ} (hi : e.sync.sources[i]? = some n) :
    (intake n).feed.ending = .exhausted ∧
      Presents (intake n).supply i (e.drain budget .fresh).result
        (Step.position i ((intake n).gate.map e.sync.ruptures.idxOf)
          (e.drain budget .fresh).result) := by
  have hsame := h.drain_lists hok
  have hss : (e.sync.sources.map fun n => (intake n).supply)[i]? = some (intake n).supply := by
    rw [List.getElem?_map, hi, Option.map_some]
  have hended' : ((e.refit fun n => (intake n).listing).drain budget .fresh).ended = true := by
    rw [hsame]
    exact hended
  have hok' : ((e.refit fun n => (intake n).listing).drain budget .fresh).outcome = .ok () := by
    rw [hsame]
    exact hok
  obtain ⟨⟨m, b, hm, hsource⟩, hpresents⟩ :=
    presents_of_ended h.prepared_lists h.gated_lists hended' hok' hss
  rw [hsame] at hsource hpresents
  refine ⟨?_, hpresents⟩
  -- the source has been pulled behind its last record, which brought the end
  have hregistered : ((e.drain budget .fresh).engine.refit fun n =>
      (intake n).listing).sync.sources[i]? = some n := by
    rw [← hi, ← (fold_registered collect budget [] e .fresh).1]
    rfl
  rw [source, hregistered, Option.bind_some, refit, Pool.getElem?_refit] at hsource
  obtain ⟨s, hs, hpulls⟩ := Option.map_eq_some_iff.1 hsource
  have hsound := (h.sound_of_ok hok).sources n s hs
  have hp : s.pulls = min (m + 1) ((intake n).feed.stream.length + 1) :=
    congrArg Source.pulls hpulls
  have hlen : (intake n).feed.stream.length ≤ m := hm
  have hpulled := hsound.pulled
  rw [Intake.fitting_feed] at hpulled
  split at hpulled
  · exact hpulled.2
  · omega

end Fed

end Engine

end Lockstep
