import Lockstep.Proofs.Engine.Moves

/-!
# The key beside a record

A source keeps a key beside its current record and one beside its look-ahead.  Whatever its reader
does, a record that has a key stands beside this key and no other: a pull that fails takes no
record, and a read makes the look-ahead current together with its key.

A keyer that fails on a record takes the two apart.  The record is the look-ahead by then, and the
key beside it is still the one from before: that of the last record in front of it that has one
(`Source.Labels`).  The next read makes the record current with this foreign key, and succeeds.
This is `labelled_fresh`; `not_fits_unkeyed` is the smallest run in which it happens.
-/

namespace Lockstep

variable {ρ κ : Type}

namespace Source

section Labels

variable [SyncKey κ] (keyer : ρ → Except Fault (Frontier κ))

/-- The key of the last of these records that has one, the start if none has. -/
def lastKey (rs : List ρ) : Frontier κ :=
  ((rs.filterMap fun r => (keyer r).toOption).getLast?).getD .start

/-- What is the look-ahead and which key stands beside it when the records `rs` have been taken and
the end has been reached or not. -/
inductive Labels : Bool → List ρ → Option ρ → Frontier κ → Prop
  /-- Before the first record. -/
  | start : Labels false [] none .start
  /-- The record has a key. -/
  | own (rs : List ρ) {r : ρ} {k : Frontier κ} (h : keyer r = .ok k) :
      Labels false (rs ++ [r]) (some r) k
  /-- The keyer fails on the record, and the key is that of another one. -/
  | foreign (rs : List ρ) {r : ρ} {f : Fault} (h : keyer r = .error f) :
      Labels false (rs ++ [r]) (some r) (lastKey keyer rs)
  /-- Behind the end. -/
  | done (rs : List ρ) : Labels true rs none .done

/-- The key is that of the record, or where there is none the start or the mark. -/
def Fits : Option ρ → Frontier κ → Prop
  | some r, k => keyer r = .ok k
  | none, k => k = .start ∨ k = .done

variable {keyer}

theorem lastKey_concat_ok {rs : List ρ} {r : ρ} {k : Frontier κ} (h : keyer r = .ok k) :
    lastKey keyer (rs ++ [r]) = k := by
  simp [lastKey, h, Except.toOption]

theorem lastKey_concat_error {rs : List ρ} {r : ρ} {f : Fault} (h : keyer r = .error f) :
    lastKey keyer (rs ++ [r]) = lastKey keyer rs := by
  simp [lastKey, h, Except.toOption]

variable {ended : Bool} {rs : List ρ} {o : Option ρ} {k : Frontier κ}

/-- Before the end the key is that of the last record that has one. -/
theorem Labels.eq_lastKey (h : Labels keyer ended rs o k) (he : ended = false) :
    k = lastKey keyer rs := by
  cases h with
  | start => rfl
  | own rs h => rw [lastKey_concat_ok h]
  | foreign rs h => rw [lastKey_concat_error h]
  | done => cases he

/-- The key beside a record is its own unless the keyer fails on it. -/
theorem Labels.fits_iff (h : Labels keyer ended rs o k) :
    Fits keyer o k ↔ ∀ r f, o = some r → keyer r ≠ .error f := by
  cases h with
  | start => simp [Fits]
  | own rs h =>
    refine ⟨fun _ r f hr hf => ?_, fun _ => h⟩
    obtain rfl := Option.some.inj hr
    cases h.symm.trans hf
  | @foreign rs r f h =>
    constructor
    · intro hf
      cases h.symm.trans hf
    · exact fun hn => absurd h (hn r f rfl)
  | done => simp [Fits]

end Labels

/-! ### One move -/

variable {s : Source ρ κ} {m : Move ρ κ}

/-- Whether the move is a due read: the look-ahead becomes current, also where the read fails. -/
def shifts (s : Source ρ κ) : Move ρ κ → Bool
  | .read isOpen => s.due isOpen
  | _ => false

/-- What a move makes of the look-ahead, whatever the reader and the keyer do. -/
inductive Handles (s : Source ρ κ) (m : Move ρ κ) (t : Source ρ κ) : Prop
  /-- No record is taken, and the end is not reached. -/
  | keeps (hp : ∀ d, s.pulling m = some d → ∃ f, d = .failure f) (hn : t.next = s.next)
      (hk : t.nextKey = s.nextKey) (he : t.exhausted = s.exhausted)
  /-- A record is taken that has a key. -/
  | takes (r : ρ) (hp : s.pulling m = some (.record r)) (hn : t.next = some r)
      (hk : s.keyer r = .ok t.nextKey) (he : t.exhausted = s.exhausted)
  /-- A record is taken, and the keyer fails on it. -/
  | unkeyed (r : ρ) (f : Fault) (hp : s.pulling m = some (.record r)) (hn : t.next = some r)
      (hf : s.keyer r = .error f) (hk : t.nextKey = s.nextKey) (he : t.exhausted = s.exhausted)
  /-- The end is reached. -/
  | ends (hp : s.pulling m = some .exhausted) (hn : t.next = none) (hk : t.nextKey = .done)
      (he : t.exhausted = true)

theorem handles_fill {isOpen : Bool} (hd : s.due isOpen = true) (he : s.exhausted = false) :
    s.Handles (.read isOpen) s.shift.fill.1 := by
  have hp : s.pulling (.read isOpen) = some s.feed.pull.1 := by simp [pulling, hd, he]
  cases hd' : s.feed.pull.1 with
  | failure f =>
    have hfill : s.shift.fill.1 = { s.shift with feed := s.feed.pull.2, pulls := s.pulls + 1 } := by
      simp [fill, shift, hd']
    rw [hfill]
    refine .keeps (fun d h => ⟨f, ?_⟩) rfl rfl rfl
    rw [hp, hd'] at h
    exact (Option.some.inj h).symm
  | exhausted =>
    rw [hd'] at hp
    refine .ends hp ?_ ?_ ?_ <;> simp [fill, shift, hd']
  | record r =>
    rw [hd'] at hp
    cases hk : s.keyer r with
    | ok k => refine .takes r hp ?_ ?_ ?_ <;> simp [fill, shift, hd', hk]
    | error f => refine .unkeyed r f hp ?_ hk ?_ ?_ <;> simp [fill, shift, hd', hk]

theorem fill_current (s : Source ρ κ) :
    s.fill.1.current = s.current ∧ s.fill.1.currentKey = s.currentKey ∧
      s.fill.1.keyer = s.keyer := by
  unfold fill
  dsimp only
  split
  · exact ⟨rfl, rfl, rfl⟩
  · exact ⟨rfl, rfl, rfl⟩
  · split <;> exact ⟨rfl, rfl, rfl⟩

variable [SyncKey κ]

theorem handles_move (s : Source ρ κ) (m : Move ρ κ) : s.Handles m (s.move m).1 := by
  have hnone : ∀ {t : Source ρ κ}, s.pulling m = none → t.next = s.next → t.nextKey = s.nextKey →
      t.exhausted = s.exhausted → s.Handles m t := by
    intro t hp
    exact .keeps fun d h => by cases hp.symm.trans h
  cases m with
  | read isOpen =>
    rw [move, read]
    split
    · rename_i hd
      split
      · rename_i he
        exact hnone (by simp [pulling, he]) rfl rfl rfl
      · rename_i he
        exact handles_fill hd (by simpa using he)
    · rename_i hd
      exact hnone (by simp [pulling, hd]) rfl rfl rfl
  | synchronize key =>
    rw [move, synchronize]
    split <;> exact hnone rfl rfl rfl rfl
  | mark b => exact hnone rfl rfl rfl rfl
  | put ps => exact hnone rfl rfl rfl rfl

/-- A due read makes the look-ahead current together with the key beside it, and no other move
changes what is current. -/
theorem current_move (s : Source ρ κ) (m : Move ρ κ) :
    (s.move m).1.current = (if s.shifts m then s.next else s.current) ∧
      (s.move m).1.currentKey = (if s.shifts m then s.nextKey else s.currentKey) ∧
      (s.move m).1.keyer = s.keyer := by
  cases m with
  | read isOpen =>
    rw [move, read, shifts]
    split
    · split
      · exact ⟨rfl, rfl, rfl⟩
      · exact fill_current s.shift
    · exact ⟨rfl, rfl, rfl⟩
  | synchronize key =>
    rw [move, synchronize]
    split <;> exact ⟨rfl, rfl, rfl⟩
  | mark b => exact ⟨rfl, rfl, rfl⟩
  | put ps => exact ⟨rfl, rfl, rfl⟩

/-! ### Many moves -/

section After

variable {x : Source ρ κ} (ms : List (Move ρ κ))

theorem keyer_after : (x.after ms).keyer = x.keyer := by
  induction ms using List.reverseRecOn with
  | nil => rfl
  | append_singleton ms m ih =>
    rw [after_concat, (current_move _ m).2.2, ih]

/-- The look-ahead of a source is the record that was taken last, and the key beside it is labelled
accordingly. -/
theorem labels_after (he : x.exhausted = false) (hn : x.next = none) (hk : x.nextKey = .start) :
    Labels x.keyer (x.after ms).exhausted (x.taken ms) (x.after ms).next (x.after ms).nextKey := by
  induction ms using List.reverseRecOn with
  | nil =>
    rw [show x.after [] = x from rfl, show x.taken [] = [] from rfl, he, hn, hk]
    exact .start
  | append_singleton ms m ih =>
    have h := handles_move (x.after ms) m
    rw [← after_concat] at h
    rw [taken_concat]
    -- a source whose reader is called has not come to the end
    have hopen : ∀ d, (x.after ms).pulling m = some d → (x.after ms).exhausted = false :=
      fun d hd => (pulling_eq_some hd).1
    cases h with
    | keeps hp hn hk he =>
      have hnone : ((x.after ms).pulling m).bind Delivery.record? = none := by
        cases hd : (x.after ms).pulling m with
        | none => rfl
        | some d =>
          obtain ⟨f, rfl⟩ := hp d hd
          rfl
      rw [hnone, hn, hk, he, Option.toList_none, List.append_nil]
      exact ih
    | takes r hp hn hk he =>
      rw [hp, hn, he, hopen _ hp]
      rw [keyer_after] at hk
      exact .own _ hk
    | unkeyed r f hp hn hf hk he =>
      rw [hp, hn, hk, he, hopen _ hp, ih.eq_lastKey (hopen _ hp)]
      rw [keyer_after] at hf
      exact .foreign _ hf
    | ends hp hn hk he =>
      rw [hn, hk, he]
      exact .done _

/-- What is current was the look-ahead before, with the same key beside it. -/
theorem exists_current_after (hc : x.current = x.next) (hk : x.currentKey = x.nextKey) :
    ∃ as, as <+: ms ∧ (x.after ms).current = (x.after as).next ∧
      (x.after ms).currentKey = (x.after as).nextKey := by
  induction ms using List.reverseRecOn with
  | nil => exact ⟨[], List.prefix_rfl, hc, hk⟩
  | append_singleton ms m ih =>
    obtain ⟨hcur, hkey, -⟩ := current_move (x.after ms) m
    rw [after_concat, hcur, hkey]
    cases (x.after ms).shifts m with
    | true => exact ⟨ms, List.prefix_append _ _, rfl, rfl⟩
    | false =>
      obtain ⟨as, has, hca, hka⟩ := ih
      exact ⟨as, has.trans (List.prefix_append _ _), hca, hka⟩

end After

/-- Which keys stand beside the records of the source that was `x` before all these moves. -/
structure Labelled (x : Source ρ κ) (ms : List (Move ρ κ)) : Prop where
  /-- The look-ahead is the record that was taken last. -/
  next : Labels x.keyer (x.after ms).exhausted (x.taken ms) (x.after ms).next (x.after ms).nextKey
  /-- What is current was the look-ahead at some time before, with the same key. -/
  current : ∃ as, as <+: ms ∧ Labels x.keyer (x.after as).exhausted (x.taken as)
    (x.after ms).current (x.after ms).currentKey
  /-- After a due read it is what was the look-ahead in front of this read. -/
  shifted : ∀ as isOpen, ms = as ++ [.read isOpen] → (x.after as).due isOpen = true →
    (x.after ms).current = (x.after as).next ∧ (x.after ms).currentKey = (x.after as).nextKey
  /-- The key beside a record is its own, unless the keyer fails on the record. -/
  fits_next : Fits x.keyer (x.after ms).next (x.after ms).nextKey ↔
    ∀ r f, (x.after ms).next = some r → x.keyer r ≠ .error f
  fits_current : Fits x.keyer (x.after ms).current (x.after ms).currentKey ↔
    ∀ r f, (x.after ms).current = some r → x.keyer r ≠ .error f

/-- **A record that has a key stands beside it.**  However often the reader and the keyer of a fresh
source fail, and whatever is done to the source: a record on which the keyer does not fail has its
own key beside it, and one on which it fails has that of the last record in front of it that has
one. -/
theorem labelled_fresh (feed : Feed ρ) (keyer : ρ → Except Fault (Frontier κ)) (gate : Option ℕ)
    (ms : List (Move ρ κ)) : (Source.fresh feed keyer gate).Labelled ms := by
  generalize hx : Source.fresh feed keyer gate = x
  have he : x.exhausted = false := hx ▸ rfl
  have hn : x.next = none := hx ▸ rfl
  have hk : x.nextKey = .start := hx ▸ rfl
  have hnext := labels_after ms he hn hk
  obtain ⟨as, has, hc, hkey⟩ := exists_current_after (x := x) ms (hx ▸ rfl) (hx ▸ rfl)
  have hcurrent := labels_after as he hn hk
  rw [← hc, ← hkey] at hcurrent
  refine ⟨hnext, ⟨as, has, hcurrent⟩, ?_, hnext.fits_iff, hcurrent.fits_iff⟩
  rintro bs isOpen rfl hd
  obtain ⟨hcur, hkey, -⟩ := current_move (x.after bs) (.read isOpen)
  have hs : (x.after bs).shifts (.read isOpen) = true := hd
  rw [after_concat, hcur, hkey, hs]
  exact ⟨rfl, rfl⟩

/-- The keyer fails on the second of three records.  The third read succeeds and makes it current
beside the key of the first one. -/
theorem not_fits_unkeyed :
    let keyer : Text → Except Fault (Frontier Text) := fun r =>
      if r.length ≤ 1 then .ok (.key r) else .error (.external r)
    let x : Source Text Text := .fresh (.ofList [['a'], ['b', 'b'], ['c']]) keyer none
    let ms : List (Move Text Text) := [.read true, .read true, .read true]
    ((x.after [.read true, .read true]).read true).2 = .ok () ∧
      (x.after ms).current = some ['b', 'b'] ∧ (x.after ms).currentKey = .key ['a'] ∧
      ¬ Fits keyer (x.after ms).current (x.after ms).currentKey := by
  intro keyer x ms
  have hc : (x.after ms).current = some ['b', 'b'] := by decide +kernel
  refine ⟨rfl, hc, by decide +kernel, ?_⟩
  rw [hc]
  exact fun h => by cases h

end Source

end Lockstep
