import Mathlib.Data.Int.Notation
import Mathlib.Data.List.Induction
import Mathlib.Data.Nat.Notation
import Lockstep.Engine.Source

/-!
# What befalls a source

A source is read from with its gate open or closed, it is compared with keys, it is set to be
synchronized or not, and producers put parcels into its channel, in any order (`Move`).  What its
reader has brought by then is `Source.brought`, the records among it are `Source.taken`, and the
records that have become current are `Source.staged`.

`Source.Passes` lists all that a move can do to a source whose keyer fails on no record: this is
`passes_move`.  From one move to many, every other statement here is a case distinction on it:

* `order_after`: what has become current and what is next are, behind the empty start, the records
  that were taken, in order, and nothing behind the end;
* `read_of_unstaged`: a read that succeeds after others failed does what it would have done at once;
* `brought_of_exhausted`: an exhausted source calls its reader no more;
* `channel_after` and `script_after`: what was put into a channel, or is listed in a script, is what
  the reader has brought and what is left.
-/

namespace Lockstep

variable {ρ κ : Type}

/-- What can be done to a source. -/
inductive Move (ρ κ : Type)
  /-- Read from it, with its gate open or closed. -/
  | read (isOpen : Bool)
  /-- Compare it with the key of a step. -/
  | synchronize (key : Frontier κ)
  /-- Set whether it is synchronized. -/
  | mark (synchronized : Bool)
  /-- Put parcels into its channel. -/
  | put (ps : List (Parcel ρ))

/-- The parcels that a move puts. -/
def Move.parcels : Move ρ κ → List (Parcel ρ)
  | .put ps => ps
  | _ => []

/-- The record that a pull brings. -/
def Delivery.record? : Delivery ρ → Option ρ
  | .record r => some r
  | _ => none

namespace Feed

theorem foldl_put_script (ds : List (Delivery ρ)) (ps : List (Parcel ρ)) :
    ps.foldl put (.script ds) = .script ds := by
  induction ps with
  | nil => rfl
  | cons p ps ih => exact ih

theorem foldl_put_channel (timeout : ℤ) (qs ps : List (Parcel ρ)) :
    ps.foldl put (.channel timeout qs) = .channel timeout (qs ++ ps) := by
  induction ps generalizing qs with
  | nil => simp
  | cons p ps ih =>
    rw [List.foldl_cons, put, ih, List.append_assoc, List.singleton_append]

section Channel

variable {timeout : ℤ} {qs : List (Parcel ρ)}

/-- A pull that fails takes nothing out of the channel. -/
theorem pull_channel_of_failure {f : Fault} (h : (pull (.channel timeout qs)).1 = .failure f) :
    (pull (.channel timeout qs)).2 = .channel timeout qs := by
  by_cases ht : timeout < 0
  · simp [pull, ht]
  · rcases qs with _ | ⟨r | _, ps⟩
    · simp [pull, ht]
    · simp [pull, ht] at h
    · simp [pull, ht] at h

theorem pull_channel_of_record {r : ρ} (h : (pull (.channel timeout qs)).1 = .record r) :
    ∃ ps, qs = .record r :: ps ∧ (pull (.channel timeout qs)).2 = .channel timeout ps := by
  by_cases ht : timeout < 0
  · simp [pull, ht] at h
  · rcases qs with _ | ⟨q | _, ps⟩
    · simp [pull, ht] at h
    · obtain rfl : q = r := by simpa [pull, ht] using h
      exact ⟨ps, rfl, by simp [pull, ht]⟩
    · simp [pull, ht] at h

theorem pull_channel_of_end (h : (pull (.channel timeout qs)).1 = .exhausted) :
    ∃ ps, qs = .closed :: ps ∧ (pull (.channel timeout qs)).2 = .channel timeout ps := by
  by_cases ht : timeout < 0
  · simp [pull, ht] at h
  · rcases qs with _ | ⟨q | _, ps⟩
    · simp [pull, ht] at h
    · simp [pull, ht] at h
    · exact ⟨ps, rfl, by simp [pull, ht]⟩

end Channel

/-- A pull of a script brings what is listed next, and then the end. -/
theorem pull_script_drop (ds : List (Delivery ρ)) {n : ℕ} (h : n ≤ ds.length) :
    (ds ++ [Delivery.exhausted])[n]? = some (pull (.script (ds.drop n))).1 ∧
      (pull (.script (ds.drop n))).2 = .script (ds.drop (n + 1)) := by
  rcases Nat.lt_or_ge n ds.length with hlt | hge
  · rw [List.getElem?_append_left hlt, List.drop_eq_getElem_cons hlt, pull_script_cons,
      List.getElem?_eq_getElem hlt]
    exact ⟨rfl, rfl⟩
  · obtain rfl : n = ds.length := Nat.le_antisymm h hge
    rw [List.getElem?_concat_length, List.drop_length, List.drop_eq_nil_of_le (Nat.le_succ _)]
    exact ⟨rfl, rfl⟩

end Feed

namespace Source

/-! ### One move -/

/-- What the reader brings, if the move calls it. -/
def pulling (s : Source ρ κ) : Move ρ κ → Option (Delivery ρ)
  | .read isOpen => if s.due isOpen && !s.exhausted then some s.feed.pull.1 else none
  | _ => none

/-- Whether the move is a due read, and succeeds. -/
def advances (s : Source ρ κ) : Move ρ κ → Bool
  | .read isOpen => s.due isOpen && (s.read isOpen).2.isOk
  | _ => false

theorem pulling_eq_some {s : Source ρ κ} {m : Move ρ κ} {d : Delivery ρ}
    (h : s.pulling m = some d) :
    s.exhausted = false ∧ s.feed.pull.1 = d ∧ m.parcels = [] := by
  cases m with
  | read isOpen =>
    simp only [pulling] at h
    split at h
    · next hd =>
      obtain ⟨-, he⟩ := Bool.and_eq_true_iff.1 hd
      exact ⟨by simpa using he, Option.some.inj h, rfl⟩
    · cases h
  | _ => cases h

theorem parcels_of_advances {s : Source ρ κ} {m : Move ρ κ} (h : s.advances m = true) :
    m.parcels = [] := by
  cases m with
  | read => rfl
  | _ => cases h

/-- What a move can do to a source whose keyer fails on no record. -/
inductive Passes (s : Source ρ κ) (m : Move ρ κ) : Source ρ κ → Prop
  /-- The source is not read from, or it is not due. -/
  | stays (b : Bool) (hp : s.pulling m = none) (ha : s.advances m = false) :
      Passes s m { s with synchronized := b, feed := m.parcels.foldl Feed.put s.feed }
  /-- The reader fails. -/
  | fails (f : Fault) (hp : s.pulling m = some (.failure f)) (ha : s.advances m = false) :
      Passes s m { s with
        current := s.next
        currentKey := s.nextKey
        feed := s.feed.pull.2
        pulls := s.pulls + 1 }
  /-- The reader brings a record. -/
  | takes (r : ρ) (k : Frontier κ) (hp : s.pulling m = some (.record r))
      (ha : s.advances m = true) (hk : s.keyer r = .ok k) :
      Passes s m { s with
        current := s.next
        currentKey := s.nextKey
        next := some r
        nextKey := k
        feed := s.feed.pull.2
        pulls := s.pulls + 1 }
  /-- The reader comes to the end. -/
  | ends (hp : s.pulling m = some .exhausted) (ha : s.advances m = true) :
      Passes s m { s with
        current := s.next
        currentKey := s.nextKey
        next := none
        nextKey := .done
        exhausted := true
        feed := s.feed.pull.2
        pulls := s.pulls + 1 }
  /-- The source is exhausted and moves on without its reader. -/
  | past (he : s.exhausted = true) (hp : s.pulling m = none) (ha : s.advances m = true) :
      Passes s m s.shift

/-- No move changes the keyer or the gate. -/
theorem Passes.fitted {s t : Source ρ κ} {m : Move ρ κ} (h : s.Passes m t) :
    t.keyer = s.keyer ∧ t.gate = s.gate := by
  cases h <;> exact ⟨rfl, rfl⟩

variable [SyncKey κ]

/-- Make a move. -/
def move (s : Source ρ κ) : Move ρ κ → Source ρ κ × Except Fault Unit
  | .read isOpen => s.read isOpen
  | .synchronize key => s.synchronize key
  | .mark b => ({ s with synchronized := b }, .ok ())
  | .put ps => ({ s with feed := ps.foldl Feed.put s.feed }, .ok ())

theorem passes_move {s : Source ρ κ} (hk : ∀ r f, s.keyer r ≠ .error f) (m : Move ρ κ) :
    s.Passes m (s.move m).1 := by
  cases m with
  | read isOpen =>
    cases hd : s.due isOpen with
    | false =>
      have hr := read_of_not_due hd
      have hp : s.pulling (.read isOpen) = none := by simp [pulling, hd]
      have ha : s.advances (.read isOpen) = false := by simp [advances, hd]
      rw [move, hr]
      exact .stays s.synchronized hp ha
    | true =>
      cases he : s.exhausted with
      | true =>
        have hr := read_of_exhausted hd he
        have hp : s.pulling (.read isOpen) = none := by simp [pulling, he]
        have ha : s.advances (.read isOpen) = true := by simp [advances, hd, hr, Except.toBool]
        rw [move, hr]
        exact .past he hp ha
      | false =>
        have hp : s.pulling (.read isOpen) = some s.feed.pull.1 := by simp [pulling, hd, he]
        cases hd' : s.feed.pull.1 with
        | failure f =>
          have hr := read_of_failure hd he hd'
          have ha : s.advances (.read isOpen) = false := by simp [advances, hr, Except.toBool]
          rw [move, hr]
          exact .fails f (hd' ▸ hp) ha
        | exhausted =>
          have hr := read_of_end hd he hd'
          have ha : s.advances (.read isOpen) = true := by simp [advances, hd, hr, Except.toBool]
          rw [move, hr]
          exact .ends (hd' ▸ hp) ha
        | record r =>
          cases hkr : s.keyer r with
          | error f => exact absurd hkr (hk r f)
          | ok k =>
            have hr := read_of_record hd he hd' hkr
            have ha : s.advances (.read isOpen) = true := by simp [advances, hd, hr, Except.toBool]
            rw [move, hr]
            exact .takes r k (hd' ▸ hp) ha hkr
  | synchronize key =>
    simp only [move, synchronize]
    split
    · exact .stays _ rfl rfl
    · exact .stays s.synchronized rfl rfl
  | mark b => exact .stays b rfl rfl
  | put ps => exact .stays s.synchronized rfl rfl

/-! ### Many moves -/

/-- The source after some moves. -/
def after (s : Source ρ κ) (ms : List (Move ρ κ)) : Source ρ κ :=
  ms.foldl (fun s m => (s.move m).1) s

/-- What is seen of each move and of the source before it. -/
def log {α : Type} (view : Source ρ κ → Move ρ κ → List α) (s : Source ρ κ) :
    List (Move ρ κ) → List α
  | [] => []
  | m :: ms => view s m ++ log view (s.move m).1 ms

/-- What the reader has brought. -/
def brought (s : Source ρ κ) (ms : List (Move ρ κ)) : List (Delivery ρ) :=
  s.log (fun s m => (s.pulling m).toList) ms

/-- The records that were pulled. -/
def taken (s : Source ρ κ) (ms : List (Move ρ κ)) : List ρ :=
  (s.brought ms).filterMap Delivery.record?

/-- What has become current with each due read that succeeded. -/
def staged (s : Source ρ κ) (ms : List (Move ρ κ)) : List (Option ρ) :=
  s.log (fun s m => if s.advances m then [(s.move m).1.current] else []) ms

section Logs

variable {α : Type} (view : Source ρ κ → Move ρ κ → List α) (s : Source ρ κ)
  (as bs : List (Move ρ κ)) (m : Move ρ κ)

theorem after_append : s.after (as ++ bs) = (s.after as).after bs := List.foldl_append

theorem after_concat : s.after (as ++ [m]) = ((s.after as).move m).1 := by
  rw [after_append]
  rfl

theorem log_append : s.log view (as ++ bs) = s.log view as ++ (s.after as).log view bs := by
  induction as generalizing s with
  | nil => rfl
  | cons a as ih =>
    rw [List.cons_append, log, log, ih, List.append_assoc]
    rfl

theorem log_concat : s.log view (as ++ [m]) = s.log view as ++ view (s.after as) m := by
  rw [log_append, log, log, List.append_nil]

theorem brought_concat :
    s.brought (as ++ [m]) = s.brought as ++ ((s.after as).pulling m).toList := log_concat _ s as m

theorem taken_concat : s.taken (as ++ [m]) =
    s.taken as ++ (((s.after as).pulling m).bind Delivery.record?).toList := by
  rw [taken, brought_concat, List.filterMap_append]
  cases (s.after as).pulling m with
  | none => rfl
  | some d => cases d <;> rfl

theorem staged_concat : s.staged (as ++ [m]) = s.staged as ++
    if (s.after as).advances m then [(s.after (as ++ [m])).current] else [] := by
  rw [staged, log_concat, after_concat]
  rfl

end Logs

section Total

variable {x : Source ρ κ} (hk : ∀ r f, x.keyer r ≠ .error f) (ms : List (Move ρ κ))

include hk

theorem after_fitted : (x.after ms).keyer = x.keyer ∧ (x.after ms).gate = x.gate := by
  induction ms using List.reverseRecOn with
  | nil => exact ⟨rfl, rfl⟩
  | append_singleton ms m ih =>
    obtain ⟨hkeyer, hgate⟩ := (passes_move (ih.1 ▸ hk) m).fitted
    rw [after_concat]
    exact ⟨hkeyer.trans ih.1, hgate.trans ih.2⟩

/-- The last of some moves. -/
theorem passes_after (m : Move ρ κ) : (x.after ms).Passes m (x.after (ms ++ [m])) := by
  rw [after_concat]
  exact passes_move ((after_fitted hk ms).1 ▸ hk) m

/-- The reader is called for what it brings and for nothing else. -/
theorem pulls_after : (x.after ms).pulls = x.pulls + (x.brought ms).length := by
  induction ms using List.reverseRecOn with
  | nil => rfl
  | append_singleton ms m ih =>
    have h := passes_after hk ms m
    rw [brought_concat, List.length_append, ← Nat.add_assoc, ← ih]
    generalize x.after (ms ++ [m]) = t at h ⊢
    cases h with
    | stays b hp => rw [hp]; rfl
    | fails f hp => rw [hp]; rfl
    | takes r k hp => rw [hp]; rfl
    | ends hp => rw [hp]; rfl
    | past he hp => rw [hp]; rfl

/-- A source is exhausted once its reader has said so. -/
theorem exhausted_after (hx : x.exhausted = false) :
    (x.after ms).exhausted = true ↔ .exhausted ∈ x.brought ms := by
  induction ms using List.reverseRecOn with
  | nil => simpa [after, brought, log] using hx
  | append_singleton ms m ih =>
    have h := passes_after hk ms m
    rw [brought_concat, List.mem_append, ← ih]
    generalize x.after (ms ++ [m]) = t at h ⊢
    cases h with
    | stays b hp => simp [hp]
    | fails f hp => simp [hp]
    | takes r k hp => simp [hp]
    | ends hp => simp [hp]
    | past he hp => simp [hp, shift]

/-- What has become current, and what is to become current next, are the records that were taken,
behind the empty start; behind the end nothing becomes current. -/
theorem order_after (hn : x.next = none) :
    ∃ j, x.staged ms ++ [(x.after ms).next] =
        none :: (x.taken ms).map some ++ List.replicate j none ∧
      ((x.after ms).exhausted = false → j = 0) ∧
      ((x.after ms).exhausted = true → (x.after ms).next = none) := by
  induction ms using List.reverseRecOn with
  | nil => exact ⟨0, by simp [after, staged, taken, brought, log, hn], fun _ => rfl, fun _ => hn⟩
  | append_singleton ms m ih =>
    obtain ⟨j, hj, h0, hpast⟩ := ih
    have h := passes_after hk ms m
    rw [staged_concat, taken_concat]
    generalize x.after (ms ++ [m]) = t at h ⊢
    cases h with
    | stays b hp ha => exact ⟨j, by simpa [hp, ha] using hj, h0, hpast⟩
    | fails f hp ha => exact ⟨j, by simpa [hp, ha, Delivery.record?] using hj, h0, hpast⟩
    | takes r k hp ha =>
      obtain rfl := h0 (pulling_eq_some hp).1
      refine ⟨0, ?_, fun _ => rfl, fun he => ?_⟩
      · simp only [List.replicate_zero, List.append_nil] at hj ⊢
        simp [hp, ha, hj, Delivery.record?]
      · rw [(pulling_eq_some hp).1] at he
        cases he
    | ends hp ha =>
      obtain rfl := h0 (pulling_eq_some hp).1
      refine ⟨1, ?_, fun he => (by cases he), fun _ => rfl⟩
      simp only [List.replicate_zero, List.append_nil] at hj
      simp [hp, ha, hj, Delivery.record?]
    | past he hp ha =>
      have hnone := hpast he
      refine ⟨j + 1, ?_, fun hf => ?_, fun _ => hnone⟩
      · rw [hp, ha, List.replicate_succ', ← List.append_assoc]
        simp [← hj, shift, hnone]
      · rw [shift, he] at hf
        cases hf

/-- The key of the look-ahead is that of its record; it is the start before the first record, and
the mark behind the end. -/
theorem nextKey_after (hx : x.exhausted = false) (hn : x.next = none) (hs : x.nextKey = .start) :
    (∀ r, (x.after ms).next = some r → x.keyer r = .ok (x.after ms).nextKey) ∧
      ((x.after ms).exhausted = false → (x.after ms).next = none →
        (x.after ms).nextKey = .start) ∧
      ((x.after ms).exhausted = true → (x.after ms).nextKey = .done) := by
  induction ms using List.reverseRecOn with
  | nil => exact ⟨by simp [after, hn], fun _ _ => hs, fun he => by simp [after, hx] at he⟩
  | append_singleton ms m ih =>
    have hkeyer := (after_fitted hk ms).1
    have h := passes_after hk ms m
    generalize x.after (ms ++ [m]) = t at h ⊢
    cases h with
    | stays => exact ih
    | fails => exact ih
    | takes r k hp _ hkr =>
      refine ⟨fun q hq => ?_, fun _ hq => (by cases hq), fun he => ?_⟩
      · obtain rfl := Option.some.inj hq
        rw [← hkeyer, hkr]
      · rw [(pulling_eq_some hp).1] at he
        cases he
    | ends => exact ⟨fun q hq => (by cases hq), fun he => (by cases he), fun _ => rfl⟩
    | past => exact ih

/-- While no read succeeds, the look-ahead stays, and with it what the next read makes of the
source. -/
theorem after_of_unstaged (h : x.staged ms = []) :
    ∃ (feed : Feed ρ) (b : Bool) (current : Option ρ) (key : Frontier κ) (pulls : ℕ),
      x.after ms = { x with
        feed := feed
        synchronized := b
        current := current
        currentKey := key
        pulls := pulls } := by
  induction ms using List.reverseRecOn with
  | nil => exact ⟨x.feed, x.synchronized, x.current, x.currentKey, x.pulls, rfl⟩
  | append_singleton ms m ih =>
    rw [staged_concat] at h
    obtain ⟨hms, hm⟩ := List.append_eq_nil_iff.1 h
    obtain ⟨feed, b, current, key, pulls, heq⟩ := ih hms
    have h := passes_after hk ms m
    have hadv : (x.after ms).advances m = false := by
      by_contra hc
      simp [hc] at hm
    rw [heq] at h hadv
    generalize x.after (ms ++ [m]) = t at h ⊢
    cases h with
    | stays => exact ⟨_, _, _, _, _, rfl⟩
    | fails => exact ⟨_, _, _, _, _, rfl⟩
    | takes _ _ _ ha => rw [hadv] at ha; cases ha
    | ends _ ha => rw [hadv] at ha; cases ha
    | past _ _ ha => rw [hadv] at ha; cases ha

/-- A read that succeeds after others failed, or were not due, is the read that would have brought
the same at once. -/
theorem read_of_unstaged (h : x.staged ms = []) {isOpen : Bool}
    (ha : (x.after ms).advances (.read isOpen) = true) :
    let t := ((x.after ms).read isOpen).1
    t.current = x.next ∧ t.currentKey = x.nextKey ∧
      ∃ pulls, { x with feed := (x.after ms).feed, synchronized := true }.read true =
        ({ t with pulls := pulls }, .ok ()) := by
  obtain ⟨feed, b, current, key, pulls, heq⟩ := after_of_unstaged hk ms h
  rw [heq] at ha ⊢
  obtain ⟨hd, hok⟩ := Bool.and_eq_true_iff.1 ha
  obtain rfl : b = true := (Bool.and_eq_true_iff.1 hd).1
  have hdue : ({ x with feed := feed, synchronized := true } : Source ρ κ).due true = true := rfl
  rcases Bool.eq_false_or_eq_true x.exhausted with he | he
  · rw [read_of_exhausted hd he]
    exact ⟨rfl, rfl, x.pulls, read_of_exhausted hdue he⟩
  · cases hp : feed.pull.1 with
    | failure f =>
      rw [read_of_failure hd he hp] at hok
      cases hok
    | exhausted =>
      rw [read_of_end hd he hp]
      exact ⟨rfl, rfl, x.pulls + 1, read_of_end hdue he hp⟩
    | record r =>
      cases hkr : x.keyer r with
      | error f => exact absurd hkr (hk r f)
      | ok k =>
        rw [read_of_record hd he hp hkr]
        exact ⟨rfl, rfl, x.pulls + 1, read_of_record hdue he hp hkr⟩

/-- The reader of an exhausted source is called no more. -/
theorem brought_of_exhausted (hx : x.exhausted = true) :
    x.brought ms = [] ∧ (x.after ms).exhausted = true ∧
      (x.after ms).feed = (ms.flatMap Move.parcels).foldl Feed.put x.feed := by
  induction ms using List.reverseRecOn with
  | nil => exact ⟨rfl, hx, rfl⟩
  | append_singleton ms m ih =>
    obtain ⟨hb, he, hf⟩ := ih
    have h := passes_after hk ms m
    rw [brought_concat, hb, List.flatMap_append, List.foldl_append, ← hf, List.flatMap_singleton]
    generalize x.after (ms ++ [m]) = t at h ⊢
    cases h with
    | stays b hp => exact ⟨by rw [hp]; rfl, he, rfl⟩
    | fails f hp => rw [(pulling_eq_some hp).1] at he; cases he
    | takes r k hp => rw [(pulling_eq_some hp).1] at he; cases he
    | ends hp => rw [(pulling_eq_some hp).1] at he; cases he
    | past _ hp ha => exact ⟨by rw [hp]; rfl, he, by rw [parcels_of_advances ha]; rfl⟩

/-- What was put into a channel is what was taken from it, the close if it was reached, and what is
left. -/
theorem channel_after {timeout : ℤ} {ps : List (Parcel ρ)} (hx : x.exhausted = false)
    (hf : x.feed = .channel timeout ps) :
    ∃ qs, (x.after ms).feed = .channel timeout qs ∧
      ps ++ ms.flatMap Move.parcels = (x.taken ms).map .record ++
        (if (x.after ms).exhausted then [.closed] else []) ++ qs := by
  induction ms using List.reverseRecOn with
  | nil => exact ⟨ps, hf, by simp [after, taken, brought, log, hx]⟩
  | append_singleton ms m ih =>
    obtain ⟨qs, hqs, hall⟩ := ih
    have h := passes_after hk ms m
    rw [taken_concat, List.flatMap_append, ← List.append_assoc, hall, List.flatMap_singleton]
    -- a move that calls the reader puts nothing, and takes what the pull brings
    have hpull : ∀ d, (x.after ms).pulling m = some d → (x.after ms).exhausted = false ∧
        m.parcels = [] ∧ (Feed.channel timeout qs).pull.1 = d := by
      intro d hd
      obtain ⟨he, hp, hm⟩ := pulling_eq_some hd
      exact ⟨he, hm, by rw [← hqs, hp]⟩
    generalize x.after (ms ++ [m]) = t at h ⊢
    cases h with
    | stays b hp =>
      refine ⟨qs ++ m.parcels, ?_, ?_⟩
      · rw [← Feed.foldl_put_channel, hqs]
      · simp [hp]
    | fails f hp =>
      obtain ⟨he, hm, hd⟩ := hpull _ hp
      refine ⟨qs, ?_, ?_⟩
      · rw [hqs, Feed.pull_channel_of_failure hd]
      · simp [hp, hm, Delivery.record?]
    | takes r k hp =>
      obtain ⟨he, hm, hd⟩ := hpull _ hp
      obtain ⟨rs, rfl, hrs⟩ := Feed.pull_channel_of_record hd
      refine ⟨rs, ?_, ?_⟩
      · rw [hqs, hrs]
      · simp [hp, hm, he, Delivery.record?]
    | ends hp =>
      obtain ⟨he, hm, hd⟩ := hpull _ hp
      obtain ⟨rs, rfl, hrs⟩ := Feed.pull_channel_of_end hd
      refine ⟨rs, ?_, ?_⟩
      · rw [hqs, hrs]
      · simp [hp, hm, he, Delivery.record?]
    | past he hp ha =>
      refine ⟨qs, hqs, ?_⟩
      rw [hp, parcels_of_advances ha, Option.bind_none, Option.toList_none, List.append_nil,
        List.append_nil]
      rfl

/-- The reader of a script has brought what is listed, in order, and then the end. -/
theorem script_after {ds : List (Delivery ρ)} (hx : x.exhausted = false) (hp : x.pulls = 0)
    (hf : x.feed = .script ds) :
    x.brought ms = (ds ++ [Delivery.exhausted]).take (x.after ms).pulls ∧
      (x.after ms).feed = .script (ds.drop (x.after ms).pulls) := by
  induction ms using List.reverseRecOn with
  | nil => simp [after, brought, log, hp, hf]
  | append_singleton ms m ih =>
    obtain ⟨hb, hs⟩ := ih
    have hend := exhausted_after hk ms hx
    have h := passes_after hk ms m
    -- a reader that is called has not come to the end
    have hpull : ∀ d, (x.after ms).pulling m = some d →
        (ds ++ [Delivery.exhausted])[(x.after ms).pulls]? = some d ∧
          (x.after ms).feed.pull.2 = .script (ds.drop ((x.after ms).pulls + 1)) := by
      intro d hd
      obtain ⟨he, hd, -⟩ := pulling_eq_some hd
      have hle : (x.after ms).pulls ≤ ds.length := by
        by_contra hgt
        rw [List.take_of_length_le (by simp; omega)] at hb
        rw [hend.2 (by simp [hb])] at he
        cases he
      have hdrop := Feed.pull_script_drop ds hle
      rw [← hs, hd] at hdrop
      exact hdrop
    have htake : ∀ d, (x.after ms).pulling m = some d →
        x.brought (ms ++ [m]) = (ds ++ [Delivery.exhausted]).take ((x.after ms).pulls + 1) := by
      intro d hd
      rw [brought_concat, hb, hd, List.take_add_one, (hpull d hd).1]
    have hkeep : (x.after ms).pulling m = none →
        x.brought (ms ++ [m]) = (ds ++ [Delivery.exhausted]).take (x.after ms).pulls := by
      intro hd
      rw [brought_concat, hb, hd, Option.toList_none, List.append_nil]
    generalize x.after (ms ++ [m]) = t at h ⊢
    cases h with
    | stays b hd =>
      refine ⟨hkeep hd, ?_⟩
      rw [← Feed.foldl_put_script _ m.parcels, ← hs]
    | fails f hd => exact ⟨htake _ hd, (hpull _ hd).2⟩
    | takes r k hd => exact ⟨htake _ hd, (hpull _ hd).2⟩
    | ends hd => exact ⟨htake _ hd, (hpull _ hd).2⟩
    | past _ hd => exact ⟨hkeep hd, hs⟩

end Total

end Source

end Lockstep
