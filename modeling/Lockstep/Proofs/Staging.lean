import Lockstep.Engine.Session
import Lockstep.Proofs.Engine.Each
import Lockstep.Proofs.Engine.Moves

/-!
# A source loses nothing and repeats nothing

In a session sources are read from and compared with keys, their flags and the edges of the
ruptures are set, and parcels are put into their channels, all in any order (`Touch`).  Whatever is
done, the records that become current at a source are those that its reader brings, each of them
once and in their order: pulls that fail in between leave no gap and double nothing, and behind the
end the reader is not called.  `Source.Staged` says so of a single source, and `touchAll_staged` of
every source of a session.  A reader that waits for a parcel reads when the parcel is there.
-/

namespace Lockstep

variable {ρ κ : Type} [SyncKey κ]

/-- What is known of the source that was `x` before all these moves. -/
structure Source.Staged (x : Source ρ κ) (ms : List (Move ρ κ)) : Prop where
  /-- A read that is not due changes nothing. -/
  idle : ∀ isOpen, (x.after ms).due isOpen = false →
    (x.after ms).read isOpen = (x.after ms, .ok ())
  /-- The reader has been called for what it has brought, and for nothing else. -/
  pulls : (x.after ms).pulls = (x.brought ms).length
  exhausted : (x.after ms).exhausted = true ↔ .exhausted ∈ x.brought ms
  /-- What has become current, and what is to become current next, are the records that were
  taken, behind the empty start; behind the end nothing becomes current. -/
  order : ∃ j, x.staged ms ++ [(x.after ms).next] =
      none :: (x.taken ms).map some ++ List.replicate j none ∧
    ((x.after ms).exhausted = false → j = 0)
  /-- Before the end the look-ahead is the record that was taken last, with its key. -/
  next : (x.after ms).exhausted = false → (x.after ms).next = (x.taken ms).getLast? ∧
    (∀ r, (x.after ms).next = some r → x.keyer r = .ok (x.after ms).nextKey) ∧
    ((x.after ms).next = none → (x.after ms).nextKey = .start)
  /-- A due read that succeeds makes current what was next after the one before it, and comes to the
  same as if it had come at once and had found what it has found now. -/
  retry : ∀ as bs isOpen, ms = as ++ bs → (x.after as).staged bs = [] →
    (x.after ms).advances (.read isOpen) = true →
    let t := ((x.after ms).read isOpen).1
    t.current = (x.after as).next ∧ t.currentKey = (x.after as).nextKey ∧
      ∃ pulls, { x.after as with feed := (x.after ms).feed, synchronized := true }.read true =
        ({ t with pulls := pulls }, .ok ())
  /-- Behind the end the reader is not called, whatever is done, and its feed keeps what is put
  there. -/
  past : (x.after ms).exhausted = true → ∀ bs, (x.after (ms ++ bs)).next = none ∧
    (x.after (ms ++ bs)).nextKey = .done ∧ (x.after (ms ++ bs)).pulls = (x.after ms).pulls ∧
    x.brought (ms ++ bs) = x.brought ms ∧ (x.after (ms ++ bs)).feed =
      (bs.flatMap Move.parcels).foldl Feed.put (x.after ms).feed
  /-- What was put into a channel is what was taken, the close once it was reached, and what is
  left. -/
  channel : ∀ timeout ps, x.feed = .channel timeout ps →
    ∃ qs, (x.after ms).feed = .channel timeout qs ∧
      ps ++ ms.flatMap Move.parcels = (x.taken ms).map .record ++
        (if (x.after ms).exhausted then [.closed] else []) ++ qs
  /-- The reader of a script has brought what is listed, in order, and then the end. -/
  script : ∀ ds, x.feed = .script ds →
    x.brought ms = (ds ++ [Delivery.exhausted]).take (x.after ms).pulls

section Fresh

variable {feed : Feed ρ} {keyer : ρ → Except Fault (Frontier κ)} {gate : Option ℕ}
  (hk : ∀ r f, keyer r ≠ .error f) (ms : List (Move ρ κ))

include hk

theorem Source.staged_fresh : (Source.fresh feed keyer gate).Staged ms := by
  generalize hx : Source.fresh feed keyer gate = x
  have hk' : ∀ r f, x.keyer r ≠ .error f := hx ▸ hk
  have he : x.exhausted = false := hx ▸ rfl
  have hn : x.next = none := hx ▸ rfl
  have hs : x.nextKey = .start := hx ▸ rfl
  have hp : x.pulls = 0 := hx ▸ rfl
  obtain ⟨j, hj, h0, hpast⟩ := order_after hk' ms hn
  obtain ⟨hkey, hstart, -⟩ := nextKey_after hk' ms he hn hs
  refine ⟨fun _ => read_of_not_due, ?_, exhausted_after hk' ms he, ⟨j, hj, h0⟩, fun hf => ?_, ?_,
    fun hf bs => ?_, fun _ _ => channel_after hk' ms he, fun _ hd => (script_after hk' ms he hp hd).1⟩
  · rw [pulls_after hk' ms, hp, Nat.zero_add]
  · obtain rfl := h0 hf
    refine ⟨?_, hkey, hstart hf⟩
    have hlast := congrArg List.getLast? hj
    rw [List.getLast?_concat, List.replicate_zero, List.append_nil, List.getLast?_cons,
      List.getLast?_map] at hlast
    rw [Option.some.inj hlast]
    cases (x.taken ms).getLast? <;> rfl
  · rintro as bs isOpen rfl hst ha
    rw [after_append] at ha ⊢
    exact read_of_unstaged ((after_fitted hk' as).1 ▸ hk') bs hst ha
  · have hkms : ∀ r f, (x.after ms).keyer r ≠ .error f := (after_fitted hk' ms).1 ▸ hk'
    obtain ⟨hb, hex, hfeed⟩ := brought_of_exhausted hkms bs hf
    obtain ⟨-, -, -, hnone⟩ := order_after hk' (ms ++ bs) hn
    obtain ⟨-, -, hdone⟩ := nextKey_after hk' (ms ++ bs) he hn hs
    rw [← after_append] at hex hfeed
    have hbrought : x.brought (ms ++ bs) = x.brought ms := by
      rw [brought, log_append]
      exact (congrArg (x.brought ms ++ ·) hb).trans (List.append_nil _)
    refine ⟨hnone hex, hdone hex, ?_, hbrought, hfeed⟩
    rw [pulls_after hk', pulls_after hk', hbrought]

end Fresh

/-- What can be done in a session besides asking a run for steps. -/
inductive Touch (ρ κ : Type)
  /-- Read from a source. -/
  | read (i : ℕ)
  /-- Compare a source with a key. -/
  | synchronize (i : ℕ) (key : Frontier κ)
  /-- Set whether a source is synchronized. -/
  | mark (i : ℕ) (synchronized : Bool)
  /-- Put parcels into the channel of a source. -/
  | put (i : ℕ) (ps : List (Parcel ρ))
  /-- Set the last edge of a rupture. -/
  | setLast (j : ℕ) (last : Bool)
  /-- Move a rupture on by one step. -/
  | compute (j : ℕ) (current next : Frontier κ) (force : Bool)

namespace Session

/-- The session after one of these. -/
def touch (s : Session ρ κ) : Touch ρ κ → Session ρ κ
  | .read i => (s.read i).1
  | .synchronize i key => (s.synchronize i key).1
  | .mark i b => s.setSynchronized i b
  | .put i ps => s.put i ps
  | .setLast j b => s.setLast j b
  | .compute j current next force => (s.compute j current next force).1

def touchAll (s : Session ρ κ) (ts : List (Touch ρ κ)) : Session ρ κ := ts.foldl touch s

end Session

/-- What it is for source number `n`: a read finds its gate open or closed. -/
def Touch.moves (n : ℕ) (s : Session ρ κ) : Touch ρ κ → List (Move ρ κ)
  | .read i =>
    if i = n then (s.pool.sources[n]?).toList.map fun x => .read (s.pool.gateOpen x) else []
  | .synchronize i key => if i = n then [.synchronize key] else []
  | .mark i b => if i = n then [.mark b] else []
  | .put i ps => if i = n then [.put ps] else []
  | .setLast _ _ => []
  | .compute _ _ _ _ => []

namespace Session

/-- What all of them are for source number `n`. -/
def moves (n : ℕ) (s : Session ρ κ) : List (Touch ρ κ) → List (Move ρ κ)
  | [] => []
  | t :: ts => t.moves n s ++ moves n (s.touch t) ts

/-- Changing one source makes a move at it and at no other. -/
theorem getElem?_modifySource (s : Session ρ κ) {i n : ℕ} {f : Source ρ κ → Source ρ κ}
    {m : Move ρ κ} (hf : ∀ x : Source ρ κ, f x = (x.move m).1) :
    (s.modifySource i f).pool.sources[n]? =
      (s.pool.sources[n]?).map (·.after (if i = n then [m] else [])) := by
  rw [modifySource, List.getElem?_modify]
  by_cases h : i = n
  · simp [h, hf, Source.after]
  · simp [h, Source.after]

/-- What is done is, at every source, what it is for that source. -/
theorem getElem?_touch (s : Session ρ κ) (t : Touch ρ κ) (n : ℕ) :
    (s.touch t).pool.sources[n]? = (s.pool.sources[n]?).map (·.after (t.moves n s)) := by
  cases t with
  | read i =>
    have hr : (s.touch (.read i)).pool = (Pool.read i s.pool).1 := rfl
    rw [hr, Pool.read_eq_onSource, Pool.getElem?_onSource]
    by_cases h : n = i
    · subst h
      cases hs : s.pool.sources[n]? with
      | none => simp
      | some x => simp [Touch.moves, hs, Source.after, Source.move, Pool.gateOpen_eq]
    · simp [h, Touch.moves, Ne.symm h, Source.after]
  | synchronize i key =>
    have hr : (s.touch (.synchronize i key)).pool = (Pool.synchronize key i s.pool).1 := rfl
    rw [hr, Pool.synchronize_eq_onSource, Pool.getElem?_onSource]
    by_cases h : n = i
    · simp [h, Touch.moves, Source.after, Source.move]
    · simp [h, Touch.moves, Ne.symm h, Source.after]
  | mark i b => exact s.getElem?_modifySource fun _ => rfl
  | put i ps => exact s.getElem?_modifySource fun _ => rfl
  | setLast j b => simp [touch, setLast, modifyRupture, Touch.moves, Source.after]
  | compute j current next force =>
    have hc : (s.touch (.compute j current next force)).pool.sources = s.pool.sources := by
      simp only [touch, compute]
      split <;> rfl
    simp [hc, Touch.moves, Source.after]

theorem getElem?_touchAll (s : Session ρ κ) (ts : List (Touch ρ κ)) (n : ℕ) :
    (s.touchAll ts).pool.sources[n]? = (s.pool.sources[n]?).map (·.after (s.moves n ts)) := by
  induction ts generalizing s with
  | nil => simp [touchAll, moves, Source.after]
  | cons t ts ih =>
    have hcons : s.touchAll (t :: ts) = (s.touch t).touchAll ts := rfl
    rw [hcons, ih, getElem?_touch, Option.map_map, moves]
    congr 1
    funext x
    exact (Source.after_append x _ _).symm

/-- **Staging loses nothing and repeats nothing.**  A fresh source whose keyer fails on no record is
staged as its reader brings the records, whatever is done in the session and in whatever order. -/
theorem touchAll_staged {s : Session ρ κ} {n : ℕ} {feed : Feed ρ}
    {keyer : ρ → Except Fault (Frontier κ)} {gate : Option ℕ}
    (hs : s.pool.sources[n]? = some (.fresh feed keyer gate)) (hk : ∀ r f, keyer r ≠ .error f)
    (ts : List (Touch ρ κ)) :
    let x : Source ρ κ := .fresh feed keyer gate
    let t := s.touchAll ts
    let ms := s.moves n ts
    t.pool.sources[n]? = some (x.after ms) ∧ x.Staged ms ∧
      (t.pool.due (x.after ms) = false → t.read n = (t, .ok ())) := by
  intro x t ms
  have ht : t.pool.sources[n]? = some (x.after ms) := by
    rw [getElem?_touchAll, hs, Option.map_some]
  refine ⟨ht, Source.staged_fresh hk ms, fun hd => ?_⟩
  have hread : Pool.read n t.pool = (t.pool, .ok ()) := by
    obtain ⟨hlt, hget⟩ := List.getElem?_eq_some_iff.1 ht
    simp only [Pool.read, ht, Source.read_of_not_due hd, Pool.setSource]
    rw [← hget, List.set_getElem_self]
  simp [Session.read, Session.onPool, hread]

/-- A queue that is read from too early, behind a closed gate, while the source is held back and
past its close. -/
theorem touchAll_staged_queue :
    let keyer : Text → Except Fault (Frontier Text) := fun r => .ok (.key r)
    let x : Source Text Text := .fresh (.channel 0 []) keyer (some 0)
    let s : Session Text Text := .start [x] [.fresh ['g'] (Rupture.leading 1)] 0
    let ts : List (Touch Text Text) := [.read 0, .put 0 [.record ['a']], .read 0,
      .put 0 [.record ['b'], .closed, .record ['c']], .setLast 0 false, .read 0, .setLast 0 true,
      .read 0, .mark 0 false, .read 0, .synchronize 0 (.key ['a']), .read 0, .read 0]
    let ms := s.moves 0 ts
    (s.touchAll ts).pool.sources[0]? = some (x.after ms) ∧ x.Staged ms ∧
      x.staged ms = [none, some ['a'], some ['b'], none] ∧ x.taken ms = [['a'], ['b']] ∧
      (x.after ms).pulls = 4 ∧ (x.after ms).exhausted = true := by
  intro keyer x s ts ms
  have hk : ∀ r f, keyer r ≠ .error f := fun _ _ h => by cases h
  obtain ⟨hx, hstaged, -⟩ := touchAll_staged (s := s) (n := 0) rfl hk ts
  exact ⟨hx, hstaged, by decide +kernel, by decide +kernel, by decide +kernel,
    by decide +kernel⟩

end Session

end Lockstep
