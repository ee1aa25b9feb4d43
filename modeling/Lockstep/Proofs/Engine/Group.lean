import Lockstep.Proofs.Engine.Course

/-!
# Runs over details and masters

The first registered rupture watches the first `w` characters of the keys.  The sources are details,
ungated and with keys of at least `w` characters, and masters, behind this rupture and with keys of
exactly `w` characters; all of them are in order (`Supply.Detail`, `Supply.Master`).

After a step with key `k` the gate of the masters is open unless the next key begins with the same
`w` characters (`turn_opens`).  So a master that is kept at a synchronized record is kept there
because the record is the one of the group of the next key too (`Lane.Kept`), and from this follows
what a step with key `k` does to the lanes:

* `Kept.synchronized_turn_iff`: a master is synchronized exactly if its record is the one of the
  group of `k`, and otherwise its record belongs to a later group;
* `Kept.cut_le_candidate_turn`: no lane goes back to an earlier group.

`Leads.after_induction` carries these facts through a run.
-/

namespace Lockstep

variable {ρ : Type}

theorem Rupture.breaks_leading {r : Rupture Text} {w : ℕ} (h : r.extract = leading w) (k : Text)
    (f : Frontier Text) :
    r.breaks (.key k) f = .ok (decide (Frontier.cut w (.key k) ≠ Frontier.cut w f)) := by
  cases f with
  | key a => simp [breaks, changes, h, leading, SyncKey.same, Frontier.cut, beq_eq_decide]
  | done => simp [breaks, Frontier.cut]

namespace Supply

variable {s : Supply ρ} {w j : ℕ}

/-- An ungated source in order, all its keys having at least `w` characters. -/
structure Detail (s : Supply ρ) (w : ℕ) : Prop where
  gate : s.gate = none
  sorted : (s.records.map s.key).Pairwise (· ≤ ·)
  length : ∀ r ∈ s.records, w ≤ (s.key r).length

/-- A source in order behind rupture `j`, all its keys having exactly `w` characters. -/
structure Master (s : Supply ρ) (w j : ℕ) : Prop where
  gate : s.gate = some j
  sorted : (s.records.map s.key).Pairwise (· ≤ ·)
  length : ∀ r ∈ s.records, (s.key r).length = w

theorem mem_of_keyAt_eq {n : ℕ} {k : Text} (h : s.keyAt n = .key k) :
    ∃ r, s.records[n]? = some r ∧ s.key r = k := by
  rw [keyAt] at h
  cases hr : s.records[n]? with
  | none => rw [hr] at h; cases h
  | some r =>
    rw [hr] at h
    cases h
    exact ⟨r, rfl, rfl⟩

/-- The keys of a source in order do not decrease, the mark behind the last one included. -/
theorem keyAt_mono (h : (s.records.map s.key).Pairwise (· ≤ ·)) {m n : ℕ} (hmn : m ≤ n) :
    s.keyAt m ≤ s.keyAt n := by
  by_cases hn : n < s.records.length
  · rcases hmn.eq_or_lt with rfl | hlt
    · exact le_rfl
    · rw [s.keyAt_of_lt hn, s.keyAt_of_lt (hlt.trans hn)]
      have hle := List.pairwise_iff_getElem.1 h m n (by simp; omega) (by simpa using hn) hlt
      simpa using hle
  · rw [s.keyAt_eq_done_iff.2 (not_lt.1 hn)]
    exact Frontier.le_done _

/-- The keys of a source that is strictly in order increase, the mark behind the last one
included. -/
theorem keyAt_strictMono (h : (s.records.map s.key).Pairwise (· < ·)) {m n : ℕ} (hmn : m < n)
    (hm : m < s.records.length) : s.keyAt m < s.keyAt n := by
  by_cases hn : n < s.records.length
  · rw [s.keyAt_of_lt hn, s.keyAt_of_lt hm]
    have hlt := List.pairwise_iff_getElem.1 h m n (by simpa using hm) (by simpa using hn) hmn
    simpa using hlt
  · rw [s.keyAt_eq_done_iff.2 (not_lt.1 hn), s.keyAt_of_lt hm]
    exact Frontier.key_lt_done

theorem Master.cut_keyAt (h : s.Master w j) (n : ℕ) : (s.keyAt n).cut w = s.keyAt n := by
  cases hk : s.keyAt n with
  | done => rfl
  | key k =>
    obtain ⟨r, hr, rfl⟩ := mem_of_keyAt_eq hk
    exact Frontier.cut_key_of_length (h.length r (List.mem_of_getElem? hr)).le

/-- A key of a master agrees with a longer one exactly if this begins with it. -/
theorem Master.agrees_iff (h : s.Master w j) {k : Text} (hk : w ≤ k.length) (n : ℕ) :
    (s.keyAt n).agrees (.key k) = true ↔ s.keyAt n = Frontier.cut w (.key k) := by
  cases ha : s.keyAt n with
  | done => simp [Frontier.cut]
  | key a =>
    obtain ⟨r, hr, rfl⟩ := mem_of_keyAt_eq ha
    have hl := h.length r (List.mem_of_getElem? hr)
    rw [Frontier.agrees, Text.agree_iff_eq_take (hl ▸ hk), hl, Frontier.cut, Frontier.key.injEq]

end Supply

namespace Lane

variable {l : Lane ρ} {w j : ℕ} {f : Frontier Text} {isOpen : Option ℕ → Bool} {k : Text}

/-- In a source in order the key of the next record is not lower than the current one. -/
theorem head_le_candidate (hs : (l.records.map l.key).Pairwise (· ≤ ·)) (hm : 0 < l.moved) :
    l.head ≤ l.candidate := by
  obtain ⟨q, hq⟩ := Nat.exists_eq_succ_of_ne_zero hm.ne'
  have hle : q ≤ l.coming := by
    unfold coming
    split <;> omega
  rw [head, hq]
  exact Supply.keyAt_mono hs hle

theorem cut_candidate (hm : l.toSupply.Master w j) : l.candidate.cut w = l.candidate :=
  hm.cut_keyAt l.coming

/-- A lane that is in order and whose gate is open does not fall behind the step. -/
theorem le_candidate_turn (ho : isOpen l.gate = true) (hf : .key k ≤ l.candidate)
    (hs : (l.records.map l.key).Pairwise (· ≤ ·)) : .key k ≤ (l.turn isOpen k).candidate := by
  have ha : l.advance isOpen = l.coming + 1 := advance_eq_succ (Or.inr ho)
  calc
    .key k ≤ l.candidate := hf
    _ = (l.turn isOpen k).head := (head_turn ha k).symm
    _ ≤ (l.turn isOpen k).candidate :=
      head_le_candidate (l := l.turn isOpen k) hs (by rw [turn_moved, ha]; omega)

/-- How a lane waits for the step with key `f`: after the next read it has a record or is past the
last one, and if it is kept at a synchronized record, this is the one of the group of `f`. -/
structure Kept (l : Lane ρ) (w : ℕ) (f : Frontier Text) (isOpen : Option ℕ → Bool) : Prop where
  advance_pos : 0 < l.advance isOpen
  head_eq : l.synchronized = true → isOpen l.gate = false → l.head = f.cut w

theorem Kept.of_open (h : isOpen l.gate = true) : l.Kept w f isOpen where
  advance_pos := by
    rw [advance_eq_succ (Or.inr h)]
    omega
  head_eq := by
    intro _ hc
    cases h.symm.trans hc

/-- The record after the next read is not of an earlier group than the step. -/
theorem Kept.cut_le (h : l.Kept w f isOpen) (hf : f ≤ l.candidate) :
    f.cut w ≤ l.headAt (l.advance isOpen) := by
  rcases l.advance_cases isOpen with ha | ⟨hs, hc, -⟩
  · rw [ha]
    exact (Frontier.cut_le w f).trans hf
  · rw [advance_of_closed hc]
    exact (h.head_eq hs hc).ge

theorem Kept.exists_advance (h : l.Kept w f isOpen) : ∃ p, l.advance isOpen = p + 1 :=
  Nat.exists_eq_succ_of_ne_zero h.advance_pos.ne'

section Turn

variable (h : l.Kept w (.key k) isOpen)

include h

theorem Kept.cut_le_head_turn (hf : .key k ≤ l.candidate) :
    Frontier.cut w (.key k) ≤ (l.turn isOpen k).head := h.cut_le hf

/-- No lane goes back to an earlier group. -/
theorem Kept.cut_le_candidate_turn (hf : .key k ≤ l.candidate)
    (hs : (l.records.map l.key).Pairwise (· ≤ ·)) :
    Frontier.cut w (.key k) ≤ (l.turn isOpen k).candidate :=
  (h.cut_le_head_turn hf).trans (head_le_candidate (l := l.turn isOpen k) hs h.advance_pos)

variable (hm : l.toSupply.Master w j) (hk : w ≤ k.length)

include hm hk

/-- A master is synchronized exactly if its record is the one of the group of the step. -/
theorem Kept.synchronized_turn_iff : (l.turn isOpen k).synchronized = true ↔
    (l.turn isOpen k).head = Frontier.cut w (.key k) := by
  obtain ⟨p, hp⟩ := h.exists_advance
  rw [turn_synchronized, head_turn hp]
  exact hm.agrees_iff hk p

/-- The record of a master that is held back belongs to a later group. -/
theorem Kept.lt_head_turn (hf : .key k ≤ l.candidate)
    (hs : (l.turn isOpen k).synchronized = false) :
    Frontier.cut w (.key k) < (l.turn isOpen k).head := by
  refine lt_of_le_of_ne (h.cut_le_head_turn hf) fun he => ?_
  rw [(h.synchronized_turn_iff hm hk).2 he.symm] at hs
  cases hs

/-- A master without repeated keys takes part in the next step with the key of a later group. -/
theorem Kept.cut_lt_candidate_turn (hf : .key k ≤ l.candidate)
    (hst : ∀ n < l.records.length, l.keyAt n < l.keyAt (n + 1)) :
    Frontier.cut w (.key k) < (l.turn isOpen k).candidate := by
  cases hs : (l.turn isOpen k).synchronized with
  | false =>
    rw [← head_of_held hs]
    exact h.lt_head_turn hm hk hf hs
  | true =>
    obtain ⟨p, hp⟩ := h.exists_advance
    have hle := (l.turn isOpen k).moved_le hs
    rw [← (h.synchronized_turn_iff hm hk).1 hs, head_turn hp, candidate,
      coming_of_synchronized hs]
    rw [turn_moved, hp] at hle ⊢
    exact hst p hle

end Turn

section Strict

variable (h : l.Kept w (.key k) isOpen) (hs : (l.records.map l.key).Pairwise (· < ·))
  (hf : .key k ≤ l.candidate)

include h hs hf

/-- A lane that has not gone past the record of the group of the step comes to it. -/
theorem Kept.advance_of_get {q : ℕ} {r : ρ} (hq : l.records[q]? = some r)
    (hrk : l.key r = k.take w)
    (hp : q + 1 < l.advance isOpen → l.keyAt q < Frontier.cut w (.key k)) :
    l.advance isOpen = q + 1 := by
  obtain ⟨p, hadv⟩ := h.exists_advance
  have hkey : l.keyAt q = Frontier.cut w (.key k) := by
    rw [l.keyAt_of_get hq, hrk]
    rfl
  -- the record is neither before nor behind the one that the lane comes to
  rcases lt_trichotomy q p with hlt | rfl | hlt
  · exact absurd (hp (by omega)) (by simp [hkey])
  · exact hadv
  · have hle := h.cut_le hf
    have hlt' := Supply.keyAt_strictMono hs hlt
      (hlt.trans (List.getElem?_eq_some_iff.1 hq).1)
    rw [hadv] at hle
    rw [hkey] at hlt'
    exact absurd hle (not_le.2 hlt')

/-- A master without repeated keys does not take part in the next step with the same key. -/
theorem Kept.lt_candidate_turn (hm : l.toSupply.Master w j) :
    .key k < (l.turn isOpen k).candidate := by
  rcases le_or_gt w k.length with hk | hk
  · have hlt := h.cut_lt_candidate_turn hm hk hf fun n hn =>
      Supply.keyAt_strictMono hs (Nat.lt_succ_self n) hn
    rw [← cut_candidate (l := l.turn _ k) hm] at hlt
    exact Frontier.lt_of_cut_lt hlt
  · have hle := h.cut_le_candidate_turn hf hm.sorted
    rw [Frontier.cut_key_of_length hk.le] at hle
    refine lt_of_le_of_ne hle fun heq => ?_
    -- its keys are longer
    obtain ⟨r, hr, hrk⟩ := Supply.mem_of_keyAt_eq heq.symm
    have hlen : k.length = w := hrk ▸ hm.length r (List.mem_of_getElem? hr)
    omega

end Strict

/-- A lane that goes on from record `q` after a turn has come to it in the turn, and is due. -/
theorem due_of_lt_advance {isOpen' : Option ℕ → Bool} {q : ℕ} (hle : l.advance isOpen ≤ q + 1)
    (hlt : q + 1 < (l.turn isOpen k).advance isOpen') :
    (l.turn isOpen k).due isOpen' = true ∧ l.advance isOpen = q + 1 := by
  have hdue : (l.turn isOpen k).due isOpen' = true := by
    by_contra hn
    rw [advance, if_neg hn, turn_moved] at hlt
    omega
  rw [advance, if_pos hdue, turn_moved] at hlt
  exact ⟨hdue, by omega⟩

end Lane

namespace Engine

variable {e d d' : Engine ρ Text} {ss : List (Supply ρ)} {ls : List (Lane ρ)} {w j : ℕ} {k : Text}

/-- Rupture `j` is the first one registered; it is fresh and watches the first `w` characters. -/
structure Leads (e : Engine ρ Text) (w j : ℕ) : Prop where
  first : e.sync.ruptures.head? = some j
  fresh : ∃ name, e.pool.ruptures[j]? = some (.fresh name (Rupture.leading w))

theorem leads_ofLists (ss : List (Supply ρ)) (name : Text) (w : ℕ) (rs : List (Rupture Text)) :
    (ofLists ss (.fresh name (Rupture.leading w) :: rs)).Leads w 0 where
  first := by simp [ofLists, List.range_succ_eq_map]
  fresh := ⟨name, rfl⟩

/-- A turn with key `k` over details and masters. -/
structure Turns (d : Engine ρ Text) (w j : ℕ) (ls : List (Lane ρ)) (k : Text)
    (d' : Engine ρ Text) : Prop where
  stages : d.Stages ls
  frontier : Lane.frontier ls = .key k
  turn : d.turn = (d', .ok ())
  supplies : ∀ l ∈ ls, l.toSupply.Detail w ∨ l.toSupply.Master w j
  kept : ∀ l ∈ ls, l.Kept w (.key k) d.opens
  opens : d'.opens (some j) = decide (Frontier.cut w (.key k) ≠
    (Lane.frontier (Lane.turnAll d.opens k ls)).cut w)

/-- After a step the gate of the masters is open unless the next key is of the same group. -/
theorem turn_opens {js : List ℕ} {r : Rupture Text} (hs : d.Stages ls)
    (hk : Lane.frontier ls = .key k) (ht : d.turn = (d', .ok ()))
    (hj : d.sync.ruptures = j :: js) (hjs : j ∉ js) (hr : d.pool.ruptures[j]? = some r)
    (hx : r.extract = Rupture.leading w) :
    d'.opens (some j) = decide (Frontier.cut w (.key k) ≠
      (Lane.frontier (Lane.turnAll d.opens k ls)).cut w) := by
  obtain ⟨p, hp, hd'⟩ := turn_ruptures hs hk ht
  have hlast := Pool.cascade_head (p := p) hjs (hp ▸ hr) (Rupture.breaks_leading hx k
    (Lane.frontier (Lane.turnAll d.opens k ls)))
  rw [← hj, ← hd'] at hlast
  rw [opens, Pool.opens, hlast]
  rfl

namespace Turns

variable (t : d.Turns w j ls k d')

include t

theorem le_candidate {l : Lane ρ} (hl : l ∈ ls) : .key k ≤ l.candidate :=
  t.frontier ▸ Lane.frontier_le hl

theorem sorted {l : Lane ρ} (hl : l ∈ ls) : (l.records.map l.key).Pairwise (· ≤ ·) := by
  rcases t.supplies l hl with hd | hm
  · exact hd.sorted
  · exact hm.sorted

/-- Only masters have a gate. -/
theorem master_of_closed {l : Lane ρ} (hl : l ∈ ls) (hc : d.opens l.gate = false) :
    l.toSupply.Master w j := by
  rcases t.supplies l hl with hd | hm
  · rw [hd.gate] at hc
    cases hc
  · exact hm

theorem master_of_gate {l : Lane ρ} (hl : l ∈ ls) (hg : l.gate = some j) :
    l.toSupply.Master w j := by
  rcases t.supplies l hl with hd | hm
  · cases hd.gate.symm.trans hg
  · exact hm

/-- The key of a step has at least `w` characters. -/
theorem le_length : w ≤ k.length := by
  obtain ⟨l, hl, hc⟩ : ∃ l ∈ ls, l.candidate = Lane.frontier ls :=
    Lane.exists_candidate_eq_frontier (by simp [t.frontier])
  obtain ⟨r, hr, rfl⟩ := Supply.mem_of_keyAt_eq (hc.trans t.frontier)
  have hmem := List.mem_of_getElem? hr
  rcases t.supplies l hl with hd | hm
  · exact hd.length r hmem
  · exact (hm.length r hmem).ge

/-- The next key does not belong to an earlier group. -/
theorem cut_le_frontier : Frontier.cut w (.key k) ≤
    (Lane.frontier (Lane.turnAll d.opens k ls)).cut w := by
  by_cases hf : Lane.frontier (Lane.turnAll d.opens k ls) = .done
  · rw [hf]
    exact Frontier.le_done _
  · obtain ⟨l', hl', hc⟩ := Lane.exists_candidate_eq_frontier hf
    obtain ⟨l, hl, rfl⟩ := List.mem_map.1 hl'
    have hle := (t.kept l hl).cut_le_candidate_turn (t.le_candidate hl) (t.sorted hl)
    rw [← hc]
    rcases t.supplies l hl with hd | hm
    · exact Frontier.cut_mono w
        (Lane.le_candidate_turn (hd.gate ▸ rfl) (t.le_candidate hl) hd.sorted)
    · rwa [Lane.cut_candidate (l := l.turn _ k) hm]

/-- Without repeated keys in the masters the keys of the steps do not decrease. -/
theorem le_frontier (hst : ∀ l ∈ ls, l.gate = some j →
      ∀ n < l.records.length, l.keyAt n < l.keyAt (n + 1)) :
    .key k ≤ Lane.frontier (Lane.turnAll d.opens k ls) := by
  refine Lane.le_frontier (Lane.forall_mem_turnAll.2 fun l hl => ?_)
  rcases t.supplies l hl with hd | hm
  · exact Lane.le_candidate_turn (hd.gate ▸ rfl) (t.le_candidate hl) hd.sorted
  · have hlt := (t.kept l hl).cut_lt_candidate_turn hm t.le_length (t.le_candidate hl)
      (hst l hl hm.gate)
    rw [← Lane.cut_candidate (l := l.turn _ k) hm] at hlt
    exact (Frontier.lt_of_cut_lt hlt).le

/-- The turn leaves every lane waiting for the next step. -/
theorem kept_turn {l : Lane ρ} (hl : l ∈ ls) :
    (l.turn d.opens k).Kept w (Lane.frontier (Lane.turnAll d.opens k ls)) d'.opens := by
  by_cases ho : d'.opens l.gate = true
  · exact Lane.Kept.of_open ho
  · have hc : d'.opens l.gate = false := by simpa using ho
    rcases t.supplies l hl with hd | hm
    · rw [hd.gate] at ho
      exact absurd rfl ho
    · -- the gate is closed, so the next key is of the group of this step
      have heq : Frontier.cut w (.key k) = (Lane.frontier (Lane.turnAll d.opens k ls)).cut w := by
        have := t.opens
        rw [← hm.gate, hc] at this
        simpa using this.symm
      constructor
      · rw [Lane.advance_of_closed (l := l.turn _ k) hc]
        exact (t.kept l hl).advance_pos
      · intro hs _
        rw [((t.kept l hl).synchronized_turn_iff hm t.le_length).1 hs, heq]

/-- A master that goes on from record `q` has shown it as the one of the group of the step, and the
next key belongs to a later group. -/
theorem goes_on {l : Lane ρ} (hl : l ∈ ls) (hm : l.toSupply.Master w j) {q : ℕ}
    (hle : l.advance d.opens ≤ q + 1) (hlt : q + 1 < (l.turn d.opens k).advance d'.opens) :
    (l.turn d.opens k).synchronized = true ∧ l.advance d.opens = q + 1 ∧
      l.keyAt q = Frontier.cut w (.key k) ∧
      Frontier.cut w (.key k) < (Lane.frontier (Lane.turnAll d.opens k ls)).cut w := by
  obtain ⟨hdue, hadv⟩ := Lane.due_of_lt_advance hle hlt
  obtain ⟨hs, ho⟩ := Bool.and_eq_true_iff.1 hdue
  have hhead := ((t.kept l hl).synchronized_turn_iff hm t.le_length).1 hs
  rw [Lane.head_turn hadv] at hhead
  have hopen := t.opens
  rw [← hm.gate, show d'.opens l.gate = true from ho] at hopen
  exact ⟨hs, hadv, hhead, lt_of_le_of_ne t.cut_le_frontier (of_decide_eq_true hopen.symm)⟩

end Turns

theorem Leads.opens (hl : e.Leads w j) (hss : ∀ s ∈ ss, s.Detail w ∨ s.Master w j) :
    ∀ s ∈ ss, e.opens s.gate = true := by
  intro s hs
  obtain ⟨name, hr⟩ := hl.fresh
  rcases hss s hs with hd | hm
  · rw [hd.gate]
    rfl
  · simp [hm.gate, Engine.opens, Pool.opens, hr]

theorem Leads.turns (hl : e.Leads w j) (h : e.Prepared ss)
    (hss : ∀ s ∈ ss, s.Detail w ∨ s.Master w j) {n : ℕ} (hd : e.after n = some d)
    (hs : d.Stages ls) (hj : d.sync.ruptures = e.sync.ruptures) (hls : ls.map Lane.toSupply = ss)
    (hkept : ∀ l ∈ ls, l.Kept w (Lane.frontier ls) d.opens)
    (hk : Lane.frontier ls = .key k) (ht : d.turn = (d', .ok ())) : d.Turns w j ls k d' where
  stages := hs
  frontier := hk
  turn := ht
  supplies := fun l hl => hss l.toSupply (hls ▸ List.mem_map_of_mem hl)
  kept := hk ▸ hkept
  opens := by
    obtain ⟨name, hr⟩ := hl.fresh
    obtain ⟨js, hjs⟩ := List.head?_eq_some_iff.1 hl.first
    have hx := h.after_extract (hl.opens hss) hd j
    rw [hr, Option.map_some] at hx
    obtain ⟨r, hr', hxr⟩ := Option.map_eq_some_iff.1 hx
    have hnodup := h.ruptures_nodup
    rw [hjs] at hnodup
    exact turn_opens hs hk ht (hj.trans hjs) (List.nodup_cons.1 hnodup).1 hr' hxr

/-- What holds of a primed engine over details and masters, and after a turn whenever it does
before, holds after every step. -/
theorem Leads.after_induction (hl : e.Leads w j) (h : e.Prepared ss)
    (hss : ∀ s ∈ ss, s.Detail w ∨ s.Master w j) {motive : ℕ → Engine ρ Text → List (Lane ρ) → Prop}
    (primed : ∀ d, d.opens = e.opens → motive 0 d (ss.map Lane.primed))
    (turned : ∀ n d d' ls k, e.after (n + 1) = some d' → d.Turns w j ls k d' →
      ls.map Lane.toSupply = ss → motive n d ls →
      motive (n + 1) d' (Lane.turnAll d.opens k ls))
    {n : ℕ} (hd : e.after n = some d) :
    ∃ ls, d.Stages ls ∧ d.sync.ruptures = e.sync.ruptures ∧ ls.map Lane.toSupply = ss ∧
      (∀ l ∈ ls, l.Kept w (Lane.frontier ls) d.opens) ∧ motive n d ls := by
  refine h.after_induction (hl.opens hss) (motive := fun n d ls =>
    (∀ l ∈ ls, l.Kept w (Lane.frontier ls) d.opens) ∧ motive n d ls) ?_ ?_ hd
  · intro d _ hr
    have hr := opens_congr hr
    refine ⟨List.forall_mem_map.2 fun s hs => ?_, primed d hr⟩
    refine Lane.Kept.of_open ?_
    rw [hr]
    exact hl.opens hss s hs
  · intro n d d' ls k hd hd' hs hj hls hk ht hm
    obtain ⟨hkept, hm⟩ := hm
    have t := hl.turns h hss hd hs hj hls hkept hk ht
    exact ⟨Lane.forall_mem_turnAll.2 fun l hl => t.kept_turn hl, turned n d d' ls k hd' t hls hm⟩

end Engine

end Lockstep
