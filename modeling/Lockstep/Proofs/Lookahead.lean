import Lockstep.Proofs.Engine.Intake

/-!
# A run looks one record ahead

What a run does depends on the pulls that it has made and on nothing behind them: sources whose
feeds bring the same in these pulls make the same run, up to the same state.  A pull that fails is
the last one of its source and of the run, which ends with its fault; the steps before it are those
of every run in which that pull brings something else.  A visitor that refuses a step ends the run
in the same way.

At every step a source has been pulled for the records behind its current one, for the current one
and for one more, as far as its stream goes.  This is `drain_looksAhead`.
-/

namespace Lockstep

variable {ρ : Type}

namespace Engine

/-- How often source number `n` of the pool has been pulled. -/
def calls {κ : Type} (e : Engine ρ κ) (n : ℕ) : ℕ := (e.pool.sources[n]?).elim 0 (·.pulls)

/-- The engine with every source read from another feed, which has been pulled as often. -/
def refeed {κ : Type} (e : Engine ρ κ) (feed : ℕ → Feed ρ) : Engine ρ κ :=
  { e with pool := { e.pool with
      sources := e.pool.sources.mapIdx fun n s => { s with feed := (feed n).pulled s.pulls } } }

variable {e d : Engine ρ Text} {intake : ℕ → Intake ρ} {feed : ℕ → Feed ρ}

theorem calls_of_source {n : ℕ} {s : Source ρ Text} (hs : d.pool.sources[n]? = some s) :
    d.calls n = s.pulls := by
  simp [calls, hs]

/-- A source that has been called is there. -/
theorem exists_source_of_calls {n k : ℕ} (hk : k < d.calls n) :
    ∃ s, d.pool.sources[n]? = some s ∧ k < s.pulls := by
  unfold calls at hk
  cases hs : d.pool.sources[n]? with
  | none =>
    rw [hs] at hk
    exact absurd hk (Nat.not_lt_zero k)
  | some s =>
    rw [hs] at hk
    exact ⟨s, rfl, hk⟩

/-- Feeding a source from elsewhere leaves its keyer, which is that of its intake. -/
theorem refeed_eq_refit (hd : d.Fitted fun n => (intake n).fitting) (feed : ℕ → Feed ρ) :
    d.refeed feed = d.refit fun n => ⟨feed n, (intake n).fitting.keyer⟩ := by
  have hs : d.pool.sources.mapIdx (fun n s => { s with feed := (feed n).pulled s.pulls }) =
      d.pool.sources.mapIdx fun n s => s.refit ⟨feed n, (intake n).fitting.keyer⟩ := by
    apply List.ext_getElem?
    intro n
    rw [List.getElem?_mapIdx, List.getElem?_mapIdx]
    cases hn : d.pool.sources[n]? with
    | none => rfl
    | some s =>
      have hk : s.keyer = (intake n).fitting.keyer := by
        rw [← hd n s hn]
        rfl
      simp only [Option.map_some, Source.refit, ← hk]
  unfold refeed refit Pool.refit
  rw [hs]

/-- A turn unmakes no call. -/
theorem calls_le_turn (hd : ∀ f, ¬ d.MayFault f) (n : ℕ) : d.calls n ≤ d.turn.1.calls n := by
  have heach : d.Each fun i s => d.calls i ≤ s.pulls :=
    ⟨fun i s hs => (calls_of_source hs).le, hd⟩
  have hends := guards_turn (Source.guarded_pulls d.calls) d heach
  have hall : ∀ (i : ℕ) (s : Source ρ Text), d.turn.1.pool.sources[i]? = some s →
      d.calls i ≤ s.pulls := by
    rcases ht : d.turn with ⟨c, f | u⟩
    · rw [ht] at hends
      obtain ⟨i, s, hs, hle, hother⟩ := hends
      intro j t hj
      by_cases hji : j = i
      · subst hji
        obtain rfl : s = t := Option.some.inj (hs.symm.trans hj)
        exact hle
      · exact hother j t hji hj
    · rw [ht] at hends
      exact hends.sources
  cases hs : d.turn.1.pool.sources[n]? with
  | some s =>
    rw [calls_of_source hs]
    exact hall n s hs
  | none =>
    have hnone : d.pool.sources[n]? = none := by
      rw [List.getElem?_eq_none_iff, ← (turn_alike d).length, ← List.getElem?_eq_none_iff, hs]
    simp [calls, hnone]

namespace Fed

variable (h : e.Fed intake)

include h

/-- Feeds that bring the same in the calls that a run makes make the same run. -/
theorem drain_refeed {m : ℕ} (hA : ∀ n k, k < (e.drain m .fresh).engine.calls n →
      (feed n).outcome k = (intake n).feed.outcome k) :
    (e.refeed feed).drain m .fresh =
      { e.drain m .fresh with engine := (e.drain m .fresh).engine.refeed feed } := by
  have hfit : (e.drain m .fresh).engine.Fitted fun n => (intake n).fitting :=
    (fold_refit (y := fun n => (intake n).fitting) collect h.fitted m [] .fresh).1
  rw [refeed_eq_refit h.fitted, refeed_eq_refit hfit]
  refine drain_refit h.fitted fun n s hs k hk => ⟨?_, fun r _ => rfl⟩
  exact (hA n k (by rwa [calls_of_source hs])).symm

/-! ### Calls that fail -/

section Keyed

variable (hkey : ∀ n r f, (intake n).fitting.keyer r ≠ .error f)

include hkey

/-- Where every record has a key, a run fails exactly if a call has failed, and with its fault. -/
theorem fails_iff {m : ℕ} {f : Fault} : (e.drain m .fresh).outcome = .error f ↔
    ∃ n k, k < (e.drain m .fresh).engine.calls n ∧ (intake n).feed.outcome k = .failure f := by
  have hends := h.drain_ends m
  constructor
  · intro hf
    rw [hf] at hends
    obtain ⟨n, s, hs, hspoiled, -⟩ := hends
    obtain ⟨hp, he⟩ := hspoiled.ending (hkey n)
    refine ⟨n, (intake n).feed.stream.length, ?_, he⟩
    rw [calls_of_source hs, hp]
    exact Nat.lt_succ_self _
  · rintro ⟨n, k, hk, hf⟩
    obtain ⟨s, hs, hk⟩ := exists_source_of_calls hk
    rcases ho : (e.drain m .fresh).outcome with g | u
    · rw [ho] at hends
      obtain ⟨i, t, ht, hspoiled, hother⟩ := hends
      by_cases hn : n = i
      · subst hn
        obtain rfl : t = s := Option.some.inj (ht.symm.trans hs)
        obtain ⟨hp, he⟩ := hspoiled.ending (hkey n)
        rcases Nat.lt_or_ge k (intake n).feed.stream.length with hlt | hge
        · rw [Feed.outcome_of_lt hlt] at hf
          cases hf
        · obtain rfl : k = (intake n).feed.stream.length := by
            rw [show (intake n).fitting.feed = (intake n).feed from rfl] at hp
            omega
          rw [show g = f from Delivery.failure.inj (he.symm.trans hf)]
      · exact absurd hf ((hother n s hn hs).ne_failure hk f)
    · exact absurd hf (((h.sound_of_ok ho).sources n s hs).ne_failure hk f)

/-- The call that has failed is the last one of its source, and no other call has failed. -/
theorem fails_once {m n k : ℕ} {f : Fault} (hk : k < (e.drain m .fresh).engine.calls n)
    (hf : (intake n).feed.outcome k = .failure f) :
    (e.drain m .fresh).engine.calls n = k + 1 ∧
      ∀ i l g, l < (e.drain m .fresh).engine.calls i →
        (intake i).feed.outcome l = .failure g → i = n ∧ l = k := by
  have hends := h.drain_ends m
  rw [(h.fails_iff hkey).2 ⟨n, k, hk, hf⟩] at hends
  obtain ⟨i, t, ht, hspoiled, hother⟩ := hends
  obtain ⟨hp, -⟩ := hspoiled.ending (hkey i)
  -- a call that has failed is that of the spoiled source behind its stream
  have key : ∀ j l g, l < (e.drain m .fresh).engine.calls j →
      (intake j).feed.outcome l = .failure g → j = i ∧ l = (intake i).feed.stream.length := by
    intro j l g hl hg
    obtain ⟨s, hs, hls⟩ := exists_source_of_calls hl
    by_cases hj : j = i
    · subst hj
      obtain rfl : t = s := Option.some.inj (ht.symm.trans hs)
      rw [hp] at hls
      refine ⟨rfl, ?_⟩
      by_contra hne
      have hlt : l < (intake j).feed.stream.length :=
        lt_of_le_of_ne (Nat.le_of_lt_succ hls) hne
      rw [Feed.outcome_of_lt hlt] at hg
      cases hg
    · exact absurd hg ((hother j s hj hs).ne_failure hls g)
  obtain ⟨rfl, rfl⟩ := key n k f hk hf
  refine ⟨?_, key⟩
  rw [calls_of_source ht, hp]
  rfl

end Keyed

/-- Nothing has been called before the start. -/
theorem calls_eq_zero (n : ℕ) : e.calls n = 0 := by
  unfold calls
  cases hs : e.pool.sources[n]? with
  | none => rfl
  | some s =>
    rw [h.sources n s hs]
    rfl

/-- Draining a run for the steps that it has made leaves it there. -/
theorem calls_drain_le {n : ℕ} {c : Engine ρ Text} (hc : e.after n = some c) (k : ℕ) :
    (e.drain n .fresh).engine.calls k ≤ c.calls k := by
  cases n with
  | zero => exact (h.calls_eq_zero k).le.trans (Nat.zero_le _)
  | succ n => rw [drain_engine h.unstarted hc]

/-- What a run has made of its steps before it failed or came to its end. -/
theorem made (m : ℕ) :
    let r := e.drain m .fresh
    let r' := e.drain r.result.length .fresh
    r'.result = r.result ∧ r'.outcome = .ok () ∧ ∀ n, r'.engine.calls n ≤ r.engine.calls n := by
  intro r r'
  rcases (drain_spec h.unstarted m).2 with ⟨-, hout, rfl | hd⟩ | ⟨-, n, hn, hs⟩
  · exact ⟨rfl, hout, fun _ => le_rfl⟩
  · have hm : r.result.length = m := drain_length h.unstarted hd
    simp only [r', hm]
    exact ⟨rfl, hout, fun _ => le_rfl⟩
  · have hres : r.result = (e.drain n .fresh).result := drain_of_stops h.unstarted hs hn.le
    generalize hro : (e.drain m .fresh).outcome = o at hs
    cases hs with
    | unprimed =>
      have hnil : r.result = [] := hres
      simp only [r', hnil]
      exact ⟨rfl, rfl, fun k => (h.calls_eq_zero k).le.trans (Nat.zero_le _)⟩
    | finished hc =>
      have hl : r.result.length = n := by rw [hres, drain_length h.unstarted hc]
      simp only [r', hl]
      exact ⟨hres.symm, drain_ok h.unstarted hc, h.calls_drain_le hc⟩
    | @failed _ c _ _ hc _ ht =>
      have hl : r.result.length = n := by rw [hres, drain_length h.unstarted hc]
      simp only [r', hl]
      refine ⟨hres.symm, drain_ok h.unstarted hc, fun k => (h.calls_drain_le hc k).trans ?_⟩
      have hturn := calls_le_turn (h.sound.after (Source.guarded_sound _) hc).total k
      rwa [ht] at hturn

/-- The steps of a run are those of every run in which the call that fails brings something
else. -/
theorem drain_before {m : ℕ} (hA : ∀ n k, k < (e.drain m .fresh).engine.calls n →
      (∀ f, (intake n).feed.outcome k ≠ .failure f) →
      (feed n).outcome k = (intake n).feed.outcome k) :
    ((e.refeed feed).drain (e.drain m .fresh).result.length .fresh).result =
      (e.drain m .fresh).result := by
  obtain ⟨hres, hok, hcalls⟩ := h.made m
  refine (congrArg Folded.result (h.drain_refeed fun n k hk => ?_)).trans hres
  refine hA n k (lt_of_lt_of_le hk (hcalls n)) fun f => ?_
  obtain ⟨s, hs, hks⟩ := exists_source_of_calls hk
  exact ((h.sound_of_ok hok).sources n s hs).ne_failure hks f

/-! ### How often a source has been called -/

/-- A step shows the record at the position of a source, and the source has been called for the
records up to it and for the next one. -/
theorem drain_calls {m j : ℕ} {t : Step ρ Text} (ht : (e.drain m .fresh).result[j]? = some t)
    {i n : ℕ} (hi : e.sync.sources[i]? = some n) :
    let q := Step.position i ((intake n).gate.map e.sync.ruptures.idxOf)
      (e.drain m .fresh).result j
    t.row[i]? = some (intake n).feed.stream[q]? ∧
      (e.drain (j + 1) .fresh).engine.calls n =
        min (q + 2) ((intake n).feed.stream.length + 1) := by
  intro q
  obtain ⟨hj, d, hd, -⟩ := exists_after_of_getElem? h.unstarted ht
  have htake := drain_take h.unstarted (show j + 1 ≤ m from hj)
  have hmade := h.made (j + 1)
  simp only [drain_length h.unstarted hd] at hmade
  have hsame := h.drain_lists hmade.2.1
  -- up to this step the run is that of the lists
  have hresult : ((e.refit fun n => (intake n).listing).drain (j + 1) .fresh).result =
      (e.drain m .fresh).result.take (j + 1) := by rw [hsame, htake]
  have ht' : ((e.refit fun n => (intake n).listing).drain (j + 1) .fresh).result[j]? = some t := by
    rw [hresult, List.getElem?_take_of_lt (Nat.lt_succ_self j), ht]
  have hss : (e.sync.sources.map fun n => (intake n).supply)[i]? = some (intake n).supply := by
    rw [List.getElem?_map, hi, Option.map_some]
  have hrow := row_of_getElem? h.prepared_lists h.gated_lists hss ht'
  have hsource := source_of_getElem? h.prepared_lists h.gated_lists hss ht'
  rw [hresult, Step.position_take (Nat.le_succ j)] at hrow hsource
  refine ⟨hrow, ?_⟩
  rw [hsame, drain_engine h.unstarted hd] at hsource
  rw [drain_engine h.unstarted hd]
  have hregistered : (d.refit fun n => (intake n).listing).sync.sources[i]? = some n := by
    rw [← hi, ← (after_registered hd).1]
    rfl
  rw [source, hregistered, Option.bind_some, refit, Pool.getElem?_refit] at hsource
  obtain ⟨s, hs, hpulls⟩ := Option.map_eq_some_iff.1 hsource
  rw [calls_of_source hs]
  exact congrArg Source.pulls hpulls

end Fed

/-- A run that looks no further ahead than it has to, over at most `m` steps. -/
structure LooksAhead (e : Engine ρ Text) (intake : ℕ → Intake ρ) (m : ℕ) : Prop where
  /-- Feeds that bring the same in the calls made so far make the same run, up to the same state. -/
  same : ∀ feed : ℕ → Feed ρ,
    (∀ n k, k < (e.drain m .fresh).engine.calls n →
      (feed n).outcome k = (intake n).feed.outcome k) →
    (e.refeed feed).drain m .fresh =
      { e.drain m .fresh with engine := (e.drain m .fresh).engine.refeed feed }
  /-- The run fails exactly if a call has failed, with the fault of this call. -/
  fails : ∀ f, (e.drain m .fresh).outcome = .error f ↔
    ∃ n k, k < (e.drain m .fresh).engine.calls n ∧ (intake n).feed.outcome k = .failure f
  /-- A call that has failed is the last one of its source, and no other call has failed. -/
  once : ∀ n k f, k < (e.drain m .fresh).engine.calls n →
    (intake n).feed.outcome k = .failure f →
    (e.drain m .fresh).engine.calls n = k + 1 ∧
      ∀ i l g, l < (e.drain m .fresh).engine.calls i →
        (intake i).feed.outcome l = .failure g → i = n ∧ l = k
  /-- Whatever the call that has failed brings instead, and whatever comes behind it: the run begins
  with the same steps. -/
  before : ∀ feed : ℕ → Feed ρ,
    (∀ n k, k < (e.drain m .fresh).engine.calls n →
      (∀ f, (intake n).feed.outcome k ≠ .failure f) →
      (feed n).outcome k = (intake n).feed.outcome k) →
    ((e.refeed feed).drain (e.drain m .fresh).result.length .fresh).result =
      (e.drain m .fresh).result
  /-- A run that has failed is over, and there is no other one. -/
  stopped : ∀ f, (e.drain m .fresh).outcome = .error f → (e.drain m .fresh).progress = .finished ∧
    ∀ budget, ((e.drain m .fresh).engine.drain budget .finished).result = [] ∧
      ((e.drain m .fresh).engine.drain budget .fresh).result = []
  /-- A visitor that refuses no step has been handed all of them. -/
  visited : ∀ {β : Type} (visit : β → Step ρ Text → Except Fault β) (b b' : β),
    (e.drain m .fresh).result.foldlM visit b = .ok b' →
    fold visit m b e .fresh = { e.drain m .fresh with result := b' }
  /-- A visitor that refuses step number `j`, counted from zero, has been handed the steps before it
  and this one; the run ends with the fault of the visitor, in the state after the step, and is
  over. -/
  refused : ∀ {β : Type} (visit : β → Step ρ Text → Except Fault β) (b b' : β) (j : ℕ) t f,
    ((e.drain m .fresh).result.take j).foldlM visit b = .ok b' →
    (e.drain m .fresh).result[j]? = some t → visit b' t = .error f →
    (∃ notes, fold visit m b e .fresh =
      ⟨(e.drain (j + 1) .fresh).engine, .finished, b', true, .error f, notes⟩) ∧
    ∀ budget, ((e.drain (j + 1) .fresh).engine.drain budget .finished).result = [] ∧
      ((e.drain (j + 1) .fresh).engine.drain budget .fresh).result = []
  /-- A step shows the record at the position of a source; the source has been called for the
  records behind it, for itself and for one more, but not behind the end of its stream. -/
  calls : ∀ (j : ℕ) t, (e.drain m .fresh).result[j]? = some t →
    ∀ i n, e.sync.sources[i]? = some n →
      let q := Step.position i ((intake n).gate.map e.sync.ruptures.idxOf)
        (e.drain m .fresh).result j
      t.row[i]? = some (intake n).feed.stream[q]? ∧ (e.drain (j + 1) .fresh).engine.calls n =
        min (q + 2) ((intake n).feed.stream.length + 1)

theorem keyer_ne_error (hkey : ∀ n r f, (intake n).key r ≠ .error f) (n : ℕ) (r : ρ) (f : Fault) :
    (intake n).fitting.keyer r ≠ .error f := by
  unfold Intake.fitting
  cases hr : (intake n).key r with
  | error g => exact absurd hr (hkey n r g)
  | ok k => simp [hr, Except.map]

theorem drain_of_finished (e : Engine ρ Text) (budget : ℕ) :
    (e.drain budget .finished).result = [] := by
  cases budget <;> simp [drain, fold]

/-- **A run looks one record ahead, also where something fails.** -/
theorem drain_looksAhead (h : e.Fed intake) (hkey : ∀ n r f, (intake n).key r ≠ .error f) (m : ℕ) :
    e.LooksAhead intake m where
  same := fun _ hA => h.drain_refeed hA
  fails := fun _ => h.fails_iff (keyer_ne_error hkey)
  once := fun _ _ _ hk hf => h.fails_once (keyer_ne_error hkey) hk hf
  before := fun _ hA => h.drain_before hA
  stopped := by
    intro f hf
    have hm : 0 < m := by
      by_contra hm
      obtain rfl : m = 0 := by omega
      cases hf
    have hended : (e.drain m .fresh).ended = true := ended_of_fault _ hf
    exact ⟨progress_of_ended _ hended, fun budget => ⟨drain_of_finished _ budget,
      drain_of_started (drain_started h.unstarted hm) budget⟩⟩
  visited := fun visit _ _ hv => fold_eq_drain visit hv
  refused := by
    intro β visit b b' j t f hv ht hf
    exact ⟨fold_eq_refused visit hv ht hf, fun budget => ⟨drain_of_finished _ budget,
      drain_of_started (drain_started h.unstarted (Nat.succ_pos j)) budget⟩⟩
  calls := fun _ _ ht _ _ hi => h.drain_calls ht hi

/-- A feed that fails with its fourth call, beside a master list: the two steps before are those of
the run in which this call brings one more record. -/
theorem drain_looksAhead_idle :
    let records : List (Delivery Text) :=
      [.record ['a', '1'], .record ['a', '2'], .record ['b', '1']]
    let masters : Feed Text := .ofList [['a'], ['b']]
    let intake (n : ℕ) : Intake Text := if n = 0 then
        ⟨.script (records ++ [.failure .idle]), .ok, none⟩
      else ⟨masters, .ok, some 0⟩
    let feed (n : ℕ) : Feed Text := if n = 0 then .script (records ++ [.record ['c']]) else masters
    let e : Engine Text Text := ⟨⟨[(intake 0).fresh, (intake 1).fresh],
      [.fresh ['g'] (Rupture.leading 1)]⟩, ⟨[0, 1], [0], false, none, none⟩⟩
    e.Fed intake ∧ (∀ n r f, (intake n).key r ≠ .error f) ∧
      (e.drain 10 .fresh).outcome = .error .idle ∧
      ((e.refeed feed).drain (e.drain 10 .fresh).result.length .fresh).result =
        (e.drain 10 .fresh).result ∧ (e.drain 10 .fresh).result.length = 2 := by
  intro records masters intake feed e
  have h : e.Fed intake := {
    unstarted := rfl
    nextKey := rfl
    sources := by
      intro n s hs
      rcases n with _ | _ | n
      · exact (Option.some.inj hs).symm
      · exact (Option.some.inj hs).symm
      · cases hs
    sources_nodup := by decide
    sources_lt := by decide
    ruptures_nodup := by decide
    ruptures_lt := by decide
    gates := by
      intro n hn j hj
      rcases n with _ | n
      · cases hj
      · obtain rfl : 0 = j := Option.some.inj hj
        exact ⟨List.mem_singleton.2 rfl, _, _, rfl⟩
    total := by
      rintro f ⟨j, hj, r, hr, k, hk⟩
      obtain rfl : j = 0 := List.mem_singleton.1 hj
      obtain rfl : _ = r := Option.some.inj hr
      cases hk }
  have hkey : ∀ n r f, (intake n).key r ≠ .error f := by
    intro n r f hf
    rcases n with _ | n <;> cases hf
  have hrun := drain_looksAhead h hkey 10
  have hcalls : (e.drain 10 .fresh).engine.calls 0 = 4 := by decide +kernel
  refine ⟨h, hkey, (hrun.fails .idle).2 ⟨0, 3, ?_, rfl⟩, hrun.before feed ?_, by decide +kernel⟩
  · rw [hcalls]
    exact Nat.lt_succ_self 3
  · intro n k hk hne
    rcases n with _ | n
    · rw [hcalls] at hk
      rcases k with _ | _ | _ | _ | k
      · rfl
      · rfl
      · rfl
      · exact absurd rfl (hne .idle)
      · omega
    · rfl

end Engine

end Lockstep
