import Lockstep.Proofs.Engine.Course
import Lockstep.Proofs.Engine.Refit

/-!
# What a run has pulled

The stream of a feed is what it brings before its first pull that brings no record, and its ending
is what that pull brings.  While nothing fails a source has pulled records of its stream, all of
them with a key, and if it is exhausted the ending as well, which is then the end
(`Source.Sound`).

A run whose extractors never fail can only fail with a pull: with the ending of a stream, or with a
record that has no key (`Source.Spoiled`).  All other sources are sound then.

This is one case of what single sources keep in a run: `Action.Guards` says what an action leaves if
it succeeds and what it leaves if it fails, and where reading and comparing do so for every source
(`Source.Guarded`), whole runs do (`Each.drain_ends`).
-/

namespace Lockstep

variable {ρ κ σ ι : Type}

/-- The records before the first delivery that is none. -/
def Delivery.leading : List (Delivery ρ) → List ρ
  | .record r :: ds => r :: leading ds
  | _ => []

/-- The records before the first close. -/
def Parcel.leading : List (Parcel ρ) → List ρ
  | .record r :: ps => r :: leading ps
  | _ => []

namespace Feed

variable {f : Feed ρ}

/-- The records that the feed brings before its first pull that brings none. -/
def stream : Feed ρ → List ρ
  | .script ds => Delivery.leading ds
  | .channel timeout ps => if timeout < 0 then [] else Parcel.leading ps

/-- What the pull behind the stream brings. -/
def ending (f : Feed ρ) : Delivery ρ := f.outcome f.stream.length

theorem outcome_succ (f : Feed ρ) (n : ℕ) : f.outcome (n + 1) = f.pull.2.outcome n := by
  unfold outcome
  rw [pulled_succ]

/-- The stream goes on with every pull that brings a record. -/
theorem stream_of_record {r : ρ} (h : f.pull.1 = .record r) : f.stream = r :: f.pull.2.stream := by
  unfold pull at h ⊢
  rcases f with (_ | ⟨d, ds⟩) | ⟨timeout, ps⟩
  · cases h
  · obtain rfl : d = .record r := h
    rfl
  · by_cases ht : timeout < 0
    · simp [ht] at h
    · rcases ps with _ | ⟨t | _, ps⟩
      · simp [ht] at h
      · obtain rfl : t = r := by simpa [ht] using h
        simp [stream, Parcel.leading, ht]
      · simp [ht] at h

theorem stream_of_not_record (h : ∀ r, f.pull.1 ≠ .record r) : f.stream = [] := by
  unfold pull at h
  rcases f with (_ | ⟨_ | _ | _, ds⟩) | ⟨timeout, ps⟩
  · rfl
  · simp at h
  · rfl
  · rfl
  · by_cases ht : timeout < 0
    · simp [stream, ht]
    · rcases ps with _ | ⟨t | _, ps⟩
      · simp [stream, Parcel.leading]
      · simp [ht] at h
      · simp [stream, Parcel.leading]

theorem exists_record (h : f.stream ≠ []) :
    ∃ r, f.pull.1 = .record r ∧ f.stream = r :: f.pull.2.stream := by
  by_contra hn
  refine h (stream_of_not_record fun r hr => hn ⟨r, hr, stream_of_record hr⟩)

theorem outcome_of_lt {n : ℕ} (h : n < f.stream.length) : f.outcome n = .record f.stream[n] := by
  induction n generalizing f with
  | zero =>
    obtain ⟨r, hr, hs⟩ := exists_record (List.ne_nil_of_length_pos h)
    simp only [hs, List.getElem_cons_zero]
    exact hr
  | succ n ih =>
    obtain ⟨r, -, hs⟩ := exists_record (List.ne_nil_of_length_pos (Nat.zero_lt_of_lt h))
    have hlt : n < f.pull.2.stream.length := by simpa [hs] using h
    simp only [hs, List.getElem_cons_succ]
    rw [outcome_succ, ih hlt]

theorem ending_ne_record (f : Feed ρ) (r : ρ) : f.ending ≠ .record r := by
  unfold ending
  generalize hs : f.stream = rs
  induction rs generalizing f with
  | nil =>
    intro h
    rw [stream_of_record (show f.pull.1 = .record r from h)] at hs
    cases hs
  | cons t rs ih =>
    obtain ⟨u, -, hu⟩ := exists_record (f := f) (by simp [hs])
    rw [List.length_cons, outcome_succ]
    exact ih f.pull.2 (List.cons.inj (hu.symm.trans hs)).2

theorem outcome_ofList {rs : List ρ} {n : ℕ} (h : n ≤ rs.length) :
    (ofList rs).outcome n = (rs[n]?).elim .exhausted .record :=
  (delivers_ofList rs).pull_pulled h

end Feed

namespace Action

/-- How an action ends: with `P` if it succeeds, and with `Q` of its fault if it fails. -/
def Ends (P : σ → Prop) (Q : Fault → σ → Prop) : σ × Except Fault Unit → Prop
  | (s, .ok ()) => P s
  | (s, .error f) => Q f s

/-- From `P` the action ends with `P` or fails with `Q`. -/
def Guards (P : σ → Prop) (Q : Fault → σ → Prop) (a : Action σ) : Prop := ∀ s, P s → Ends P Q (a s)

variable {P : σ → Prop} {Q : Fault → σ → Prop}

theorem Guards.andThen {a b : Action σ} (ha : Guards P Q a) (hb : Guards P Q b) :
    Guards P Q (andThen a b) := by
  intro s hs
  have h := ha s hs
  rcases hr : a s with ⟨t, f | u⟩
  · rw [hr] at h
    rwa [andThen_of_error hr]
  · rw [hr] at h
    rw [andThen_of_ok hr]
    exact hb t h

theorem Guards.forEach {a : ι → Action σ} (h : ∀ i, Guards P Q (a i)) (is : List ι) :
    Guards P Q (forEach a is) := by
  induction is with
  | nil => exact fun _ hs => hs
  | cons i is ih => exact (h i).andThen ih

end Action

namespace Source

variable {s : Source ρ κ} {x : Fitting ρ κ}

/-- The first `n` records of the stream have a key. -/
def Keyed (x : Fitting ρ κ) (n : ℕ) : Prop := ∀ r ∈ x.feed.stream.take n, ∃ k, x.keyer r = .ok k

/-- The source is read from `x` and no pull of it has failed. -/
structure Sound (x : Fitting ρ κ) (s : Source ρ κ) : Prop where
  fitted : s.refit x = s
  keyed : Keyed x s.pulls
  pulled : if s.exhausted then s.pulls = x.feed.stream.length + 1 ∧ x.feed.ending = .exhausted
    else s.pulls ≤ x.feed.stream.length

/-- The last pull of the source has failed, and no pull before it. -/
def Spoiled (x : Fitting ρ κ) (f : Fault) (s : Source ρ κ) : Prop :=
  ∃ n, s.pulls = n + 1 ∧ Keyed x n ∧
    ((n = x.feed.stream.length ∧ x.feed.ending = .failure f) ∨
      ∃ r, x.feed.stream[n]? = some r ∧ x.keyer r = .error f)

theorem Sound.pulls_le (h : s.Sound x) : s.pulls ≤ x.feed.stream.length + 1 := by
  have hp := h.pulled
  split at hp <;> omega

/-- The pulls of a sound source are those of the list of its stream. -/
theorem Sound.outcome_eq (h : s.Sound x) {n : ℕ} (hn : n < s.pulls) :
    x.feed.outcome n = (x.feed.stream[n]?).elim .exhausted .record := by
  rcases Nat.lt_or_ge n x.feed.stream.length with hlt | hge
  · rw [Feed.outcome_of_lt hlt, List.getElem?_eq_getElem hlt]
    rfl
  · have hle := h.pulls_le
    have hp := h.pulled
    obtain rfl : n = x.feed.stream.length := by omega
    split at hp
    · rw [List.getElem?_eq_none le_rfl]
      exact hp.2
    · omega

theorem Sound.ne_failure (h : s.Sound x) {n : ℕ} (hn : n < s.pulls) (f : Fault) :
    x.feed.outcome n ≠ .failure f := by
  rw [h.outcome_eq hn]
  cases x.feed.stream[n]? <;> simp

/-- Where every record has a key, only the ending of a stream can fail. -/
theorem Spoiled.ending {f : Fault} (h : s.Spoiled x f) (hx : ∀ r g, x.keyer r ≠ .error g) :
    s.pulls = x.feed.stream.length + 1 ∧ x.feed.ending = .failure f := by
  obtain ⟨n, hn, -, ⟨rfl, hf⟩ | ⟨r, -, hr⟩⟩ := h
  · exact ⟨hn, hf⟩
  · exact absurd hr (hx r f)

/-- A pull brings the next record of the stream or what is behind it. -/
theorem Sound.fill (h : s.Sound x) (he : s.exhausted = false) :
    Action.Ends (Sound x) (Spoiled x) s.fill := by
  have hle : s.pulls ≤ x.feed.stream.length := by simpa [he] using h.pulled
  have hfit : s.fill.1.refit x = s.fill.1 := by
    have hf := refit_fill_self s x
    rwa [h.fitted] at hf
  have hpull : s.feed.pull.1 = x.feed.outcome s.pulls := by
    rw [← h.fitted]
    rfl
  have hkeyer : s.keyer = x.keyer := by
    rw [← h.fitted]
    rfl
  unfold Source.fill at hfit ⊢
  dsimp only at hfit ⊢
  rw [hpull, hkeyer] at hfit ⊢
  rcases hle.lt_or_eq with hlt | heq
  · -- a record of the stream, which may lack a key
    rw [Feed.outcome_of_lt hlt] at hfit ⊢
    dsimp only at hfit ⊢
    cases hk : x.keyer x.feed.stream[s.pulls] with
    | error f =>
      exact ⟨s.pulls, rfl, h.keyed, Or.inr ⟨_, List.getElem?_eq_getElem hlt, hk⟩⟩
    | ok k =>
      rw [hk] at hfit
      refine ⟨hfit, ?_, ?_⟩
      · intro r hr
        rw [List.take_add_one, List.getElem?_eq_getElem hlt] at hr
        rcases List.mem_append.1 hr with hr | hr
        · exact h.keyed r hr
        · obtain rfl : r = x.feed.stream[s.pulls] := by simpa using hr
          exact ⟨k, hk⟩
      · simp only [he, Bool.false_eq_true, if_false]
        omega
  · -- the ending
    have hend : x.feed.outcome s.pulls = x.feed.ending := by rw [heq, Feed.ending]
    rw [hend] at hfit ⊢
    cases hd : x.feed.ending with
    | record r => exact absurd hd (x.feed.ending_ne_record r)
    | failure f => exact ⟨s.pulls, rfl, h.keyed, Or.inl ⟨heq, hd⟩⟩
    | exhausted =>
      rw [hd] at hfit
      refine ⟨hfit, ?_, by simp [heq, hd]⟩
      intro r hr
      rw [List.take_of_length_le (by simp [heq])] at hr
      exact h.keyed r (by rwa [heq, List.take_length])

theorem guards_read (x : Fitting ρ κ) (isOpen : Option ℕ → Bool) :
    Action.Guards (Sound x) (Spoiled x) fun s => s.read (isOpen s.gate) := by
  intro s h
  have hshift : s.shift.Sound x :=
    ⟨congrArg shift h.fitted, h.keyed, h.pulled⟩
  unfold read
  dsimp only
  split
  · split
    · exact hshift
    · rename_i he
      have he : s.shift.exhausted = false := by simpa [shift] using he
      exact hshift.fill he
  · exact h

theorem guards_synchronize (x : Fitting ρ Text) (key : Frontier Text) :
    Action.Guards (Sound x) (Spoiled x) fun s => s.synchronize key := by
  intro s h
  simp only [synchronize, Frontier.agree_eq]
  exact ⟨congrArg (fun t => { t with synchronized := s.currentKey.agrees key }) h.fitted, h.keyed,
    h.pulled⟩

/-- What reading and comparing do to sources of which each satisfies its `S`: they keep it, or they
fail and leave `F`. -/
structure Guarded (S : ℕ → Source ρ Text → Prop) (F : ℕ → Fault → Source ρ Text → Prop) : Prop where
  read : ∀ i (isOpen : Option ℕ → Bool),
    Action.Guards (S i) (F i) fun s => s.read (isOpen s.gate)
  synchronize : ∀ i (key : Frontier Text), Action.Guards (S i) (F i) fun s => s.synchronize key

theorem guarded_sound (x : ℕ → Fitting ρ Text) :
    Guarded (fun i => Sound (x i)) fun i => Spoiled (x i) where
  read := fun i => guards_read (x i)
  synchronize := fun i => guards_synchronize (x i)

/-- No pull is ever unmade. -/
theorem guarded_pulls (n : ℕ → ℕ) :
    Guarded (fun i (s : Source ρ Text) => n i ≤ s.pulls) fun i _ s => n i ≤ s.pulls where
  read := by
    intro i isOpen s hs
    have h : n i ≤ (s.read (isOpen s.gate)).1.pulls := by
      unfold read
      split
      · split
        · exact hs
        · rw [fill_pulls]
          exact hs.trans (Nat.le_succ _)
      · exact hs
    dsimp only
    rcases hr : s.read (isOpen s.gate) with ⟨t, f | u⟩ <;> rw [hr] at h <;> exact h
  synchronize := by
    intro i key s hs
    simp only [synchronize, Frontier.agree_eq]
    exact hs

end Source

namespace Pool

variable {p : Pool ρ κ} {S : ℕ → Source ρ κ → Prop} {F : ℕ → Fault → Source ρ κ → Prop}

/-- Every source satisfies `S` of its number. -/
def Each (S : ℕ → Source ρ κ → Prop) (p : Pool ρ κ) : Prop :=
  ∀ (i : ℕ) (s : Source ρ κ), p.sources[i]? = some s → S i s

/-- One source satisfies `F` of the fault, and every other one `S`. -/
def FailsAt (S : ℕ → Source ρ κ → Prop) (F : ℕ → Fault → Source ρ κ → Prop) (f : Fault)
    (p : Pool ρ κ) : Prop :=
  ∃ (i : ℕ) (s : Source ρ κ), p.sources[i]? = some s ∧ F i f s ∧
    ∀ (j : ℕ) (t : Source ρ κ), j ≠ i → p.sources[j]? = some t → S j t

theorem guards_onSource {g : List (Rupture κ) → Source ρ κ → Source ρ κ × Except Fault Unit}
    (i : ℕ) (h : ∀ rs, Action.Guards (S i) (F i) (g rs)) :
    Action.Guards (Each S) (FailsAt S F) (onSource g i) := by
  intro p hp
  cases hs : p.sources[i]? with
  | none => rwa [onSource_of_none hs]
  | some s =>
    have hlt : i < p.sources.length := (List.getElem?_eq_some_iff.1 hs).1
    have hset : ∀ t, (p.setSource i t).sources[i]? = some t := by
      intro t
      simp [setSource, hlt]
    have hother : ∀ t j u, j ≠ i → (p.setSource i t).sources[j]? = some u → S j u := by
      intro t j u hj hu
      rw [setSource, List.getElem?_set_ne hj.symm] at hu
      exact hp j u hu
    have hg := h p.ruptures s (hp i s hs)
    rw [onSource_of_some hs]
    rcases hr : g p.ruptures s with ⟨t, f | u⟩ <;> rw [hr] at hg
    · exact ⟨i, t, hset t, hg, hother t⟩
    · intro j u hu
      by_cases hj : j = i
      · subst hj
        obtain rfl : t = u := Option.some.inj ((hset t).symm.trans hu)
        exact hg
      · exact hother t j u hj hu

end Pool

namespace Engine

variable {e d : Engine ρ Text}

/-- Extractors are never changed. -/
theorem MayFault.of_extract {f : Fault} (h : d.MayFault f) (hj : d.sync.ruptures = e.sync.ruptures)
    (hr : ∀ j : ℕ, (d.pool.ruptures[j]?).map Rupture.extract =
      (e.pool.ruptures[j]?).map Rupture.extract) :
    e.MayFault f := by
  obtain ⟨j, hmem, r, hd, hf⟩ := h
  have hx := hr j
  rw [hd, Option.map_some] at hx
  obtain ⟨r', he, hr'⟩ := Option.map_eq_some_iff.1 hx.symm
  exact ⟨j, hj ▸ hmem, r', he, hr' ▸ hf⟩

/-- Every source satisfies `S` of its number, and no extractor ever fails. -/
structure Each (S : ℕ → Source ρ Text → Prop) (e : Engine ρ Text) : Prop where
  sources : e.pool.Each S
  total : ∀ f, ¬ e.MayFault f

/-- One source satisfies `F` of the fault, and every other one `S`. -/
def FailsAt (S : ℕ → Source ρ Text → Prop) (F : ℕ → Fault → Source ρ Text → Prop) (f : Fault)
    (e : Engine ρ Text) : Prop := e.pool.FailsAt S F f

section Guarded

variable {S : ℕ → Source ρ Text → Prop} {F : ℕ → Fault → Source ρ Text → Prop}
  (h : Source.Guarded S F)

/-- Actions on the sources leave the extractors as they are. -/
theorem guards_onPool {a : Synchronization Text → Action (Pool ρ Text)}
    (h : ∀ u, Action.Guards (Pool.Each S) (Pool.FailsAt S F) (a u))
    (hr : ∀ u p, (a u p).1.ruptures = p.ruptures) :
    Action.Guards (Each S) (FailsAt S F) fun e => onPool (a e.sync) e := by
  intro e he
  have ha := h e.sync e.pool he.sources
  have hru := hr e.sync e.pool
  simp only [onPool]
  rcases hp : a e.sync e.pool with ⟨p, f | u⟩ <;> rw [hp] at ha hru
  · exact ha
  · refine ⟨ha, fun f hf => he.total f (hf.of_extract rfl fun j => ?_)⟩
    rw [show p.ruptures = e.pool.ruptures from hru]

theorem guards_keyPhase :
    Action.Guards (Each S) (FailsAt S F) (keyPhase : Action (Engine ρ Text)) := by
  intro e he
  simp only [keyPhase, Frontier.leastOf_eq]
  exact ⟨he.sources, he.total⟩

/-- The cascade could only fail in an extractor. -/
theorem guards_rupturePhase :
    Action.Guards (Each S) (FailsAt S F) (rupturePhase : Action (Engine ρ Text)) := by
  intro e he
  unfold rupturePhase onPool
  set r := Pool.cascade (e.sync.currentKey.getD .done) (e.sync.nextKey.getD .done) false
    e.sync.ruptures e.pool with hr
  have hsources : r.1.sources = e.pool.sources := Pool.cascade_sources
  have hextract : ∀ j : ℕ, (r.1.ruptures[j]?).map Rupture.extract =
      (e.pool.ruptures[j]?).map Rupture.extract := fun j => Pool.cascade_extract j
  rcases hc : r with ⟨p, f | u⟩
  · exact absurd (Pool.cascade_error (congrArg Prod.snd (hr.symm.trans hc))) (he.total f)
  · rw [hc] at hsources hextract
    refine ⟨?_, fun f hf => he.total f (hf.of_extract rfl hextract)⟩
    intro i s hs
    exact he.sources i s (hsources ▸ hs)

include h

theorem guards_readPhase :
    Action.Guards (Each S) (FailsAt S F) (readPhase : Action (Engine ρ Text)) := by
  refine guards_onPool (fun u => ?_) fun u => Pool.readAll_ruptures u.sources
  rw [Pool.readAll, Pool.read_eq_onSource]
  exact .forEach (fun i => Pool.guards_onSource i fun rs => h.read i (Pool.opens rs)) u.sources

theorem guards_synchronizePhase :
    Action.Guards (Each S) (FailsAt S F) (synchronizePhase : Action (Engine ρ Text)) := by
  refine guards_onPool (a := fun u => Pool.synchronizeAll (u.nextKey.getD .done) u.sources)
    (fun u => ?_) fun u => Pool.synchronizeAll_ruptures _ u.sources
  rw [Pool.synchronizeAll, Pool.synchronize_eq_onSource]
  exact .forEach (fun i => Pool.guards_onSource i fun _ =>
    h.synchronize i (u.nextKey.getD .done)) u.sources

theorem guards_prime : Action.Guards (Each S) (FailsAt S F) (prime : Action (Engine ρ Text)) :=
  (guards_readPhase h).andThen guards_keyPhase

theorem guards_turn : Action.Guards (Each S) (FailsAt S F) (turn : Action (Engine ρ Text)) :=
  (guards_readPhase h).andThen
    ((guards_synchronizePhase h).andThen (guards_keyPhase.andThen guards_rupturePhase))

/-! ### Runs -/

variable (he : e.Each S)

include he

theorem Each.after {n : ℕ} (hd : e.after n = some d) : d.Each S := by
  induction n generalizing d with
  | zero =>
    have hp := guards_prime h e.begun ⟨he.sources, he.total⟩
    rwa [after_zero_eq_some.1 hd] at hp
  | succ n ih =>
    obtain ⟨c, hc, -, ht⟩ := after_succ_eq_some.1 hd
    have hturn := guards_turn h c (ih hc)
    rwa [ht] at hturn

theorem Each.stops {n : ℕ} {o : Except Fault Unit} (hs : e.Stops n d o) :
    Action.Ends (Each S) (FailsAt S F) (d, o) := by
  cases hs with
  | unprimed hp =>
    have hprime := guards_prime h e.begun ⟨he.sources, he.total⟩
    rwa [hp] at hprime
  | finished hd => exact he.after h hd
  | failed hd _ ht =>
    have hturn := guards_turn h _ (he.after h hd)
    rwa [ht] at hturn

/-- What single sources keep, a run keeps. -/
theorem Each.drain_ends (hu : e.sync.started = false) (budget : ℕ) :
    Action.Ends (Each S) (FailsAt S F)
      ((e.drain budget .fresh).engine, (e.drain budget .fresh).outcome) := by
  rcases (drain_spec hu budget).2 with ⟨-, hok, rfl | hd⟩ | ⟨-, n, -, hs⟩
  · exact he
  · rw [hok]
    exact he.after h hd
  · exact he.stops h hs

end Guarded

end Engine

end Lockstep
