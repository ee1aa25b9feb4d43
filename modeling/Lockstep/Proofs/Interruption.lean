import Lockstep.Proofs.Engine.Each
import Lockstep.Proofs.Engine.Tandem
import Lockstep.Proofs.Engine.Visit

/-!
# A step that a failing read interrupts

A step reads from its sources before it does anything else, and so does priming.  If a reader fails
there, the sources in front of it have been read from as in any other step, the source itself has
moved on but keeps its look-ahead, and nothing else has happened: the sources behind it, the
synchronization, the ruptures and who is synchronized are as they were at the boundary before the
step (`Engine.Interrupted`).

`readPhase_interrupted` says this of the reads of any engine, `prime_interrupted` and
`turn_interrupted` of priming and of a turn, and `drain_interrupted` of a run, which gives no
further step.  A read that fails does so by its reader or by its keyer (`readPhase_fails`).
-/

namespace Lockstep

variable {ρ κ : Type}

namespace Source

variable {s : Source ρ κ} {isOpen : Bool} {f : Fault}

/-- A read fails with the fault of a pull, or with that of the keyer for the record it brought. -/
theorem read_eq_error_iff : (s.read isOpen).2 = .error f ↔
    s.due isOpen = true ∧ s.exhausted = false ∧
      (s.feed.pull.1 = .failure f ∨ ∃ r, s.feed.pull.1 = .record r ∧ s.keyer r = .error f) := by
  unfold read
  cases hd : s.due isOpen with
  | false => simp
  | true =>
    cases he : s.exhausted with
    | true => simp
    | false =>
      simp only [if_true, Bool.false_eq_true, if_false, true_and, fill, shift]
      rcases s.feed.pull with ⟨r | g | _, t⟩
      · rcases hk : s.keyer r with g | k <;> simp [hk]
      · simp
      · simp

theorem read_synchronized (s : Source ρ κ) (isOpen : Bool) :
    (s.read isOpen).1.synchronized = s.synchronized := by
  unfold read fill shift
  dsimp only
  split
  · split
    · rfl
    · split
      · rfl
      · rfl
      · split <;> rfl
  · rfl

end Source

namespace Pool

theorem readAll_synchronized (is : List ℕ) (p : Pool ρ κ) :
    (readAll is p).1.sources.map (·.synchronized) = p.sources.map (·.synchronized) := by
  refine Action.forEach_induction (a := read)
    (motive := fun q => q.sources.map (·.synchronized) = p.sources.map (·.synchronized))
    (fun i q h => ?_) rfl
  rw [← h]
  unfold read
  cases hs : q.sources[i]? with
  | none => rfl
  | some s =>
    apply List.ext_getElem?
    intro j
    by_cases hij : i = j
    · subst hij
      obtain ⟨hlt, rfl⟩ := List.getElem?_eq_some_iff.1 hs
      simp [setSource, hlt, Source.read_synchronized]
    · simp [setSource, List.getElem?_set_ne hij]

end Pool

namespace Engine

/-- The reader of the source that is registered as number `i` fails when the sources are read from:
the reads in front of it succeed, it is due and not exhausted, and its pull fails. -/
structure FailsToRead (e : Engine ρ κ) (i : ℕ) (f : Fault) : Prop where
  before : ∀ m < i, ∀ s, e.source m = some s → (s.read (e.opens s.gate)).2 = .ok ()
  fails : ∃ s, e.source i = some s ∧ s.due (e.opens s.gate) = true ∧ s.exhausted = false ∧
    s.feed.pull.1 = .failure f

/-- What a failing read of source number `i` leaves of the engine `e`. -/
structure Interrupted (e : Engine ρ κ) (i : ℕ) (d : Engine ρ κ) : Prop where
  /-- The keys are those of the boundary, and so is whether a step is left. -/
  sync : d.sync = e.sync
  ruptures : d.pool.ruptures = e.pool.ruptures
  synchronized : d.pool.sources.map (·.synchronized) = e.pool.sources.map (·.synchronized)
  /-- The sources in front have been read from, as far as they are due. -/
  before : ∀ m < i, d.source m = (e.source m).map fun s => (s.read (e.opens s.gate)).1
  /-- The source has moved on and keeps its look-ahead. -/
  failed : d.source i = (e.source i).map fun s => { s with
    current := s.next
    currentKey := s.nextKey
    feed := s.feed.pull.2
    pulls := s.pulls + 1 }
  behind : ∀ m, i < m → d.source m = e.source m
  /-- Sources that are not registered are left alone. -/
  others : ∀ k ∉ e.sync.sources, d.pool.sources[k]? = e.pool.sources[k]?

variable {e c d : Engine ρ κ} {i n : ℕ} {f : Fault}

/-- Of distinct numbers, those in front of number `i` and this one are the ones at the positions up
to `i`. -/
theorem mem_take_or_eq_iff {is : List ℕ} (hn : is.Nodup) (hi : i < is.length) {k m : ℕ}
    (hm : is[m]? = some k) : k ∈ is.take i ∨ k = is[i] ↔ m ≤ i := by
  obtain ⟨hlt, rfl⟩ := List.getElem?_eq_some_iff.1 hm
  rw [List.mem_take_iff_idxOf_lt (List.getElem_mem hlt), hn.idxOf_getElem m hlt,
    hn.getElem_inj_iff]
  omega

/-- Where a reader fails, the pool has been read from up to this source. -/
theorem FailsToRead.readAll (hf : e.FailsToRead i f) (hn : e.sync.sources.Nodup) :
    ∃ q, Pool.readAll e.sync.sources e.pool = (q, .error f) ∧ q.ruptures = e.pool.ruptures ∧
      ∃ hi : i < e.sync.sources.length, ∀ k, q.sources[k]? =
        if k ∈ e.sync.sources.take i ∨ k = e.sync.sources[i] then
          (e.pool.sources[k]?).map fun s => (s.read (e.opens s.gate)).1
        else e.pool.sources[k]? := by
  obtain ⟨s, hs, hd, he, hp⟩ := hf.fails
  obtain ⟨k, hk, hks⟩ := Option.bind_eq_some_iff.1 hs
  obtain ⟨hi, rfl⟩ := List.getElem?_eq_some_iff.1 hk
  have hfail := congrArg Prod.snd (Source.read_of_failure hd he hp)
  have hsplit : e.sync.sources =
      e.sync.sources.take i ++ e.sync.sources[i] :: e.sync.sources.drop (i + 1) := by
    rw [← List.drop_eq_getElem_cons, List.take_append_drop]
  have hnot : e.sync.sources[i] ∉ e.sync.sources.take i := by
    rw [List.mem_take_iff_idxOf_lt (List.getElem_mem hi), hn.idxOf_getElem i hi]
    exact lt_irrefl i
  have hok : ∀ j ∈ e.sync.sources.take i, ∀ t, e.pool.sources[j]? = some t →
      (t.read (Pool.opens e.pool.ruptures t.gate)).2 = .ok () := by
    intro j hj t ht
    obtain ⟨m, hm, rfl⟩ := List.mem_take_iff_getElem.1 hj
    have hlt : m < e.sync.sources.length := by omega
    exact hf.before m (by omega) t (by simp [source, List.getElem?_eq_getElem hlt, ht])
  obtain ⟨q, hq, hqr, hqs⟩ := Pool.forEach_onSource_of_error
    (f := fun rs s => s.read (Pool.opens rs s.gate))
    (hn.sublist (List.take_sublist i _)) hnot hok hks hfail
  rw [← hsplit, ← Pool.read_eq_onSource] at hq
  exact ⟨q, hq, hqr, hi, hqs⟩

/-- Where a reader fails, the reads end there. -/
theorem readPhase_interrupted (hn : e.sync.sources.Nodup) (hf : e.FailsToRead i f) :
    ∃ d, readPhase e = (d, .error f) ∧ e.Interrupted i d := by
  obtain ⟨q, hq, hqr, hi, hqs⟩ := hf.readAll hn
  obtain ⟨s, hs, hd, he, hp⟩ := hf.fails
  have hflags := Pool.readAll_synchronized e.sync.sources e.pool
  rw [hq] at hflags
  have hsource : ∀ m, ({ e with pool := q } : Engine ρ κ).source m =
      if m ≤ i then (e.source m).map fun s => (s.read (e.opens s.gate)).1 else e.source m := by
    intro m
    unfold source
    dsimp only
    cases hm : e.sync.sources[m]? with
    | none => simp
    | some k =>
      rw [Option.bind_some, Option.bind_some, hqs k]
      simp only [mem_take_or_eq_iff hn hi hm]
  refine ⟨{ e with pool := q }, ?_, rfl, hqr, hflags, ?_, ?_, ?_, ?_⟩
  · simp only [readPhase, onPool, hq]
  · intro m hm
    rw [hsource, if_pos hm.le]
  · rw [hsource, if_pos le_rfl, hs]
    exact congrArg some (congrArg Prod.fst (Source.read_of_failure hd he hp))
  · intro m hm
    rw [hsource, if_neg (by omega)]
  · intro k hk
    refine (hqs k).trans (if_neg ?_)
    rintro (hin | rfl)
    · exact hk (List.mem_of_mem_take hin)
    · exact hk (List.getElem_mem hi)

/-- Reads that fail do so at a first source, by its reader or by its keyer. -/
theorem readPhase_fails (hn : e.sync.sources.Nodup) (h : readPhase e = (d, .error f)) :
    ∃ i, e.FailsToRead i f ∨ ∃ s r, e.source i = some s ∧ s.feed.pull.1 = .record r ∧
      s.keyer r = .error f := by
  have hp : Pool.readAll e.sync.sources e.pool = (d.pool, .error f) :=
    Prod.ext (congrArg (·.1.pool) h) (congrArg (·.2) h)
  rw [Pool.readAll, Pool.read_eq_onSource] at hp
  obtain ⟨is, k, js, s, hsplit, hok, hs, hx⟩ := Pool.exists_of_forEach_onSource_error hn hp
  have hsource : e.source is.length = some s := by simp [source, hsplit, hs]
  refine ⟨is.length, ?_⟩
  obtain ⟨hd, he, hf | ⟨r, hr, hk⟩⟩ := Source.read_eq_error_iff.1 hx
  · refine Or.inl ⟨fun m hm t ht => ?_, s, hsource, hd, he, hf⟩
    have hm' : e.sync.sources[m]? = some is[m] := by
      rw [hsplit, List.getElem?_append_left hm, List.getElem?_eq_getElem hm]
    rw [source, hm'] at ht
    exact hok is[m] (List.getElem_mem hm) t ht
  · exact Or.inr ⟨s, r, hsource, hr, hk⟩

variable [SyncKey κ]

theorem prime_interrupted (hn : e.sync.sources.Nodup) (hf : e.FailsToRead i f) :
    ∃ d, e.prime = (d, .error f) ∧ e.Interrupted i d := by
  obtain ⟨d, hread, hd⟩ := readPhase_interrupted hn hf
  exact ⟨d, Action.andThen_of_error hread, hd⟩

theorem turn_interrupted (hn : e.sync.sources.Nodup) (hf : e.FailsToRead i f) :
    ∃ d, e.turn = (d, .error f) ∧ e.Interrupted i d := by
  obtain ⟨d, hread, hd⟩ := readPhase_interrupted hn hf
  exact ⟨d, Action.andThen_of_error hread, hd⟩

/-- After `n` steps of a run of `e` the sources are read from in `c`: to prime the run, or to turn
once more. -/
inductive ReadsAfter (e : Engine ρ κ) : ℕ → Engine ρ κ → Prop
  | priming : ReadsAfter e 0 e.begun
  | turning {n : ℕ} {c : Engine ρ κ} : e.after n = some c → c.sync.ended = false → ReadsAfter e n c

theorem ReadsAfter.sources (h : e.ReadsAfter n c) : c.sync.sources = e.sync.sources := by
  cases h with
  | priming => rfl
  | turning ha => exact (after_registered ha).1

/-- A run in which a reader fails stops there. -/
theorem ReadsAfter.stops (h : e.ReadsAfter n c) (hn : e.sync.sources.Nodup)
    (hf : c.FailsToRead i f) : ∃ d, e.Stops n d (.error f) ∧ c.Interrupted i d := by
  rw [← h.sources] at hn
  cases h with
  | priming =>
    obtain ⟨d, hp, hd⟩ := prime_interrupted hn hf
    exact ⟨d, .unprimed hp, hd⟩
  | turning ha he =>
    obtain ⟨d, ht, hd⟩ := turn_interrupted hn hf
    exact ⟨d, .failed ha he ht, hd⟩

/-- A run in which a reader fails gives the steps before and no other, and leaves the boundary in
front of the step that fails, whether the run was to be primed or to make another step. -/
theorem drain_interrupted (hu : e.sync.started = false) (hn : e.sync.sources.Nodup)
    (hc : e.ReadsAfter n c) (hf : c.FailsToRead i f) {budget : ℕ} (hb : n < budget) :
    let r := e.drain budget .fresh
    r.result = (e.drain n .fresh).result ∧ r.result.length = n ∧ r.ended = true ∧
      r.outcome = .error f ∧ r.progress = .finished ∧ c.Interrupted i r.engine := by
  obtain ⟨d, hs, hd⟩ := hc.stops hn hf
  obtain ⟨hlen, hended, heng, hout⟩ := hs.drained hu hb
  refine ⟨drain_of_stops hu hs hb.le, hlen, hended, hout, ?_, heng ▸ hd⟩
  exact progress_of_ended collect hended

/-- The second of three sources fails at the second step.  The gate of the first one is closed then,
and the third one would have moved past its end. -/
theorem drain_interrupted_gated :
    let keyer : Text → Except Fault (Frontier Text) := fun r => .ok (.key r)
    let f := Fault.external ['x']
    let a : Text := ['a', 'a']
    let b : Text := ['a', 'b']
    let e : Engine Text Text := ⟨⟨[
      .fresh (.script [.record a, .record b]) keyer (some 0),
      .fresh (.script [.record a, .record b, .failure f]) keyer none,
      .fresh (.script [.record a]) keyer none], [.fresh ['g'] (Rupture.leading 1)]⟩,
      ⟨[0, 1, 2], [0], false, none, none⟩⟩
    let c : Engine Text Text := ⟨⟨[
      ⟨.script [], keyer, some 0, true, some a, .key a, some b, .key b, false, 2⟩,
      ⟨.script [.failure f], keyer, none, true, some a, .key a, some b, .key b, false, 2⟩,
      ⟨.script [], keyer, none, true, some a, .key a, none, .done, true, 2⟩],
      [⟨['g'], Rupture.leading 1, true, false⟩]⟩,
      ⟨[0, 1, 2], [0], true, some (.key a), some (.key b)⟩⟩
    let r := e.drain 3 .fresh
    e.ReadsAfter 1 c ∧ c.FailsToRead 1 f ∧ r.result.length = 1 ∧ r.outcome = .error f ∧
      c.Interrupted 1 r.engine := by
  intro keyer f a b e c r
  have h0 : e.begun.prime = (⟨⟨[
      ⟨.script [.record b], keyer, some 0, true, none, .start, some a, .key a, false, 1⟩,
      ⟨.script [.record b, .failure f], keyer, none, true, none, .start, some a, .key a, false, 1⟩,
      ⟨.script [], keyer, none, true, none, .start, some a, .key a, false, 1⟩],
      [.fresh ['g'] (Rupture.leading 1)]⟩,
      ⟨[0, 1, 2], [0], true, none, some (.key a)⟩⟩, .ok ()) := rfl
  have hc : e.ReadsAfter 1 c :=
    .turning (after_succ_eq_some.2 ⟨_, after_zero_eq_some.2 h0, rfl, rfl⟩) rfl
  have hf : c.FailsToRead 1 f := by
    refine ⟨fun m hm s hs => ?_, _, rfl, rfl, rfl, rfl⟩
    obtain rfl : m = 0 := by omega
    obtain rfl := Option.some.inj hs
    rfl
  obtain ⟨-, hlen, -, hout, -, hi⟩ := drain_interrupted rfl (by decide) hc hf (by decide : 1 < 3)
  exact ⟨hc, hf, hlen, hout, hi⟩

end Engine

end Lockstep
