import Mathlib.Data.List.Pairwise
import Lockstep.Proofs.Engine.Group

/-!
# Runs over masters of several levels

The registered ruptures watch more and more characters of the keys, rupture `j` the first `width j`
of them.  The details are ungated and have keys of at least `W` characters, as many as any rupture
watches, and a master behind rupture `j` has increasing keys of exactly `width j` characters
(`Supply.Placed`, `Engine.Levels`).

The cascade forces a rupture only where one that watches fewer characters breaks, and there it
breaks itself.  So after a step the gate of a master is open unless the next key begins with the
same characters, as many as the rupture watches (`Pool.breaks_take_iff`).

What is new against a single level is that the key of a step can be shorter than the keys of a
master.  Then it is the key of a master of an outer level (`LevelTurn.exists_master`), the next key
is a greater one (`LevelTurn.lt_frontier`), and so the gate opens (`LevelTurn.opens_of_lt`).
`Levels.after_induction` carries what a turn does to the lanes through a run.
-/

namespace Lockstep

variable {ρ : Type}

/-- A detail, or a master without repeated keys behind one of the ruptures `js`. -/
def Supply.Placed (s : Supply ρ) (width : ℕ → ℕ) (W : ℕ) (js : List ℕ) : Prop :=
  s.Detail W ∨ ∃ j ∈ js, s.Master (width j) j ∧ (s.records.map s.key).Pairwise (· < ·)

namespace Supply.Placed

variable {s : Supply ρ} {width : ℕ → ℕ} {W : ℕ} {js : List ℕ} (h : s.Placed width W js)

include h

theorem detail (hg : s.gate = none) : s.Detail W := by
  rcases h with hd | ⟨j, -, hm, -⟩
  · exact hd
  · cases hm.gate.symm.trans hg

theorem master {j : ℕ} (hg : s.gate = some j) :
    j ∈ js ∧ s.Master (width j) j ∧ (s.records.map s.key).Pairwise (· < ·) := by
  rcases h with hd | ⟨i, hi, hm, hs⟩
  · cases hd.gate.symm.trans hg
  · obtain rfl : i = j := Option.some.inj (hm.gate.symm.trans hg)
    exact ⟨hi, hm, hs⟩

end Supply.Placed

namespace Pool

variable {p : Pool ρ Text} {width : ℕ → ℕ} {js : List ℕ}

/-- Each of the ruptures `js` watches its number of first characters, and more than those before
it. -/
structure Deepens (p : Pool ρ Text) (width : ℕ → ℕ) (js : List ℕ) : Prop where
  leading : ∀ j ∈ js, ∃ r, p.ruptures[j]? = some r ∧ r.extract = Rupture.leading (width j)
  increasing : js.Pairwise (width · < width ·)

theorem Deepens.width_le (h : p.Deepens width js) {i j m : ℕ} (hj : js[i]? = some j)
    (hm : m ∈ js.take (i + 1)) : width m ≤ width j := by
  obtain ⟨n, hn, rfl⟩ := List.mem_take_iff_getElem.1 hm
  obtain ⟨hi, rfl⟩ := List.getElem?_eq_some_iff.1 hj
  rcases Nat.lt_or_ge n i with hlt | hge
  · exact (List.pairwise_iff_getElem.1 h.increasing n i (by omega) hi hlt).le
  · obtain rfl : n = i := by omega
    exact le_rfl

/-- A rupture up to number `i` breaks exactly if number `i` does. -/
theorem Deepens.breaks_take_iff (h : p.Deepens width js) {i j : ℕ} (hj : js[i]? = some j) (k : Text)
    (f : Frontier Text) : p.Breaks (.key k) f (js.take (i + 1)) ↔
      Frontier.cut (width j) (.key k) ≠ f.cut (width j) := by
  constructor
  · rintro ⟨m, hm, r, hr, hb⟩ heq
    obtain ⟨r', hr', hx⟩ := h.leading m (List.mem_of_mem_take hm)
    obtain rfl : r' = r := Option.some.inj (hr'.symm.trans hr)
    rw [Rupture.breaks_leading hx, Except.ok.injEq, decide_eq_true_iff] at hb
    -- what agrees on more characters agrees on fewer
    have hle := h.width_le hj hm
    rw [← Frontier.cut_cut hle, heq, Frontier.cut_cut hle] at hb
    exact hb rfl
  · intro hne
    obtain ⟨r, hr, hx⟩ := h.leading j (List.mem_of_getElem? hj)
    refine ⟨j, ?_, r, hr, ?_⟩
    · rw [List.take_add_one, hj]
      exact List.mem_append_right _ (by simp)
    · rw [Rupture.breaks_leading hx, decide_eq_true hne]

end Pool

namespace Engine

variable {e d d' : Engine ρ Text} {ss : List (Supply ρ)} {ls : List (Lane ρ)} {width : ℕ → ℕ}
  {W : ℕ} {k : Text}

/-- The registered ruptures are fresh, watch the first `width j` characters of the keys, each more
than those before it, and none more than `W`; and the sources are details and masters of these
levels. -/
structure Levels (e : Engine ρ Text) (ss : List (Supply ρ)) (width : ℕ → ℕ) (W : ℕ) : Prop where
  fresh : ∀ j ∈ e.sync.ruptures, ∃ name,
    e.pool.ruptures[j]? = some (.fresh name (Rupture.leading (width j)))
  increasing : e.sync.ruptures.Pairwise (width · < width ·)
  width_le : ∀ j ∈ e.sync.ruptures, width j ≤ W
  placed : ∀ s ∈ ss, s.Placed width W e.sync.ruptures

theorem Levels.gated (hl : e.Levels ss width W) : e.Gated ss := by
  intro s hs j hj
  obtain ⟨hmem, -, -⟩ := (hl.placed s hs).master hj
  obtain ⟨name, hr⟩ := hl.fresh j hmem
  exact ⟨hmem, name, _, hr⟩

theorem levels_ofLists (ws : List (Text × ℕ)) (hw : (ws.map (·.2)).Pairwise (· < ·))
    (hW : ∀ w ∈ ws.map (·.2), w ≤ W)
    (hp : ∀ s ∈ ss, s.Placed (fun j => (ws.map (·.2)).getD j 0) W (List.range ws.length)) :
    (ofLists ss (ws.map fun w => .fresh w.1 (Rupture.leading w.2))).Levels ss
      (fun j => (ws.map (·.2)).getD j 0) W where
  fresh := by
    intro j hj
    have hlt : j < ws.length := by simpa [ofLists] using hj
    exact ⟨ws[j].1, by simp [ofLists, hlt]⟩
  increasing := by
    rw [List.pairwise_iff_getElem] at hw ⊢
    intro i j hi hj hij
    have hjl : j < ws.length := by simpa [ofLists] using hj
    simpa [ofLists, hjl, hij.trans hjl] using hw i j (by simpa using hij.trans hjl) (by simpa) hij
  width_le := by
    intro j hj
    have hlt : j < (ws.map (·.2)).length := by simpa [ofLists] using hj
    rw [List.getD_eq_getElem?_getD, List.getElem?_eq_getElem hlt, Option.getD_some]
    exact hW _ (List.getElem_mem hlt)
  placed := by simpa [ofLists] using hp

/-- Details beside an outer and an inner master. -/
theorem levels_pair {c o i : Supply ρ} {v w : ℕ} (hvw : v < w) (m n : Text) (hc : c.Detail w)
    (ho : o.Master v 0) (hos : (o.records.map o.key).Pairwise (· < ·))
    (hi : i.Master w 1) (his : (i.records.map i.key).Pairwise (· < ·)) :
    (ofLists [c, o, i] [.fresh m (Rupture.leading v), .fresh n (Rupture.leading w)]).Levels
      [c, o, i] (fun j => [v, w].getD j 0) w := by
  refine levels_ofLists [(m, v), (n, w)] (by simpa using hvw) (by simpa using hvw.le) ?_
  intro s hs
  rcases List.mem_cons.1 hs with rfl | hs
  · exact Or.inl hc
  · rcases List.mem_pair.1 hs with rfl | rfl
    · exact Or.inr ⟨0, by simp, ho, hos⟩
    · exact Or.inr ⟨1, by simp, hi, his⟩

/-- A turn with key `k` over details and masters of several levels. -/
structure LevelTurn (d : Engine ρ Text) (width : ℕ → ℕ) (W : ℕ) (ls : List (Lane ρ)) (k : Text)
    (d' : Engine ρ Text) : Prop where
  stages : d.Stages ls
  frontier : Lane.frontier ls = .key k
  turn : d.turn = (d', .ok ())
  width_le : ∀ j ∈ d.sync.ruptures, width j ≤ W
  placed : ∀ l ∈ ls, l.toSupply.Placed width W d.sync.ruptures
  kept : ∀ l ∈ ls, ∀ j, l.gate = some j → l.Kept (width j) (.key k) d.opens
  opens : ∀ j ∈ d.sync.ruptures, d'.opens (some j) = decide
    (Frontier.cut (width j) (.key k) ≠
      (Lane.frontier (Lane.turnAll d.opens k ls)).cut (width j))

/-- After a step the gate of a level is open unless the next key is of the same group. -/
theorem turn_opens_level (hs : d.Stages ls) (hk : Lane.frontier ls = .key k)
    (ht : d.turn = (d', .ok ())) (hn : d.sync.ruptures.Nodup)
    (hw : d.pool.Deepens width d.sync.ruptures) {j : ℕ} (hj : j ∈ d.sync.ruptures) :
    d'.opens (some j) = decide (Frontier.cut (width j) (.key k) ≠
      (Lane.frontier (Lane.turnAll d.opens k ls)).cut (width j)) := by
  obtain ⟨p, f, hp, hsync, hc⟩ := turn_eq_ok ht
  have hf : f = Lane.frontier (Lane.turnAll d.opens k ls) := by
    have := (turn_stages hs hk ht).1.nextKey
    rw [hsync] at this
    exact Option.some.inj this
  have hkey : d.sync.nextKey.getD .done = .key k := by
    rw [hs.nextKey, hk, Option.getD_some]
  rw [hkey, hf] at hc
  obtain ⟨i, hi⟩ := List.mem_iff_getElem?.1 hj
  have hw : p.Deepens width d.sync.ruptures := ⟨hp ▸ hw.leading, hw.increasing⟩
  obtain ⟨r, hr, -⟩ := hw.leading j hj
  obtain ⟨b, hb, hiff⟩ := Pool.cascade_get hn (congrArg Prod.snd hc) hi hr
  rw [hw.breaks_take_iff hi] at hiff
  rw [congrArg Prod.fst hc] at hb
  have hopen : d'.opens (some j) = b := by
    simp [Engine.opens, Pool.opens, hb, Rupture.moved]
  rw [hopen, Bool.eq_iff_iff, hiff]
  simp

namespace LevelTurn

variable (t : d.LevelTurn width W ls k d')

include t

theorem le_candidate {l : Lane ρ} (hl : l ∈ ls) : .key k ≤ l.candidate :=
  t.frontier ▸ Lane.frontier_le hl

/-- The key of a step that is shorter than the keys of the details is one of a master. -/
theorem exists_master (hk : k.length < W) : ∃ l ∈ ls, ∃ j, l.gate = some j ∧ width j = k.length ∧
    ∃ r ∈ l.records, l.key r = k := by
  obtain ⟨l, hl, hc⟩ : ∃ l ∈ ls, l.candidate = Lane.frontier ls :=
    Lane.exists_candidate_eq_frontier (by simp [t.frontier])
  obtain ⟨r, hr, hrk⟩ := Supply.mem_of_keyAt_eq (hc.trans t.frontier)
  have hmem := List.mem_of_getElem? hr
  rcases t.placed l hl with hd | ⟨j, -, hm, -⟩
  · have hlen : W ≤ k.length := hrk ▸ hd.length r hmem
    omega
  · exact ⟨l, hl, j, hm.gate, by rw [← hm.length r hmem, hrk], r, hmem, hrk⟩

/-- The keys of the steps do not decrease. -/
theorem le_frontier : .key k ≤ Lane.frontier (Lane.turnAll d.opens k ls) := by
  refine Lane.le_frontier (Lane.forall_mem_turnAll.2 fun l hl => ?_)
  rcases t.placed l hl with hd | ⟨j, -, hm, hs⟩
  · exact Lane.le_candidate_turn (hd.gate ▸ rfl) (t.le_candidate hl) hd.sorted
  · exact ((t.kept l hl j hm.gate).lt_candidate_turn hs (t.le_candidate hl) hm).le

/-- A key that is shorter than those of the details is the key of one step only. -/
theorem lt_frontier (hk : k.length < W) :
    .key k < Lane.frontier (Lane.turnAll d.opens k ls) := by
  refine lt_of_le_of_ne t.le_frontier fun heq => ?_
  have hne : Lane.frontier (Lane.turnAll d.opens k ls) ≠ .done := by simp [← heq]
  obtain ⟨l', hl', hc⟩ := Lane.exists_candidate_eq_frontier hne
  obtain ⟨l, hl, rfl⟩ := List.mem_map.1 hl'
  rw [← heq] at hc
  rcases t.placed l hl with hd | ⟨j, -, hm, hs⟩
  · obtain ⟨r, hr, hrk⟩ := Supply.mem_of_keyAt_eq hc
    have hlen : W ≤ k.length := hrk ▸ hd.length r (List.mem_of_getElem? hr)
    omega
  · have hlt := (t.kept l hl j hm.gate).lt_candidate_turn hs (t.le_candidate hl) hm
    rw [hc] at hlt
    exact lt_irrefl _ hlt

/-- After a step whose key is shorter than the keys of a level, the gate of this level is open. -/
theorem opens_of_lt {j : ℕ} (hj : j ∈ d.sync.ruptures) (hk : k.length < width j) :
    d'.opens (some j) = true := by
  rw [t.opens j hj, decide_eq_true_iff, Frontier.cut_key_of_length hk.le]
  intro heq
  have hlt := t.lt_frontier (hk.trans_le (t.width_le j hj))
  rw [Frontier.eq_key_of_cut_eq heq.symm hk] at hlt
  exact lt_irrefl _ hlt

/-- The turn leaves every master waiting for the next step. -/
theorem kept_turn {l : Lane ρ} (hl : l ∈ ls) {j : ℕ} (hg : l.gate = some j) :
    (l.turn d.opens k).Kept (width j) (Lane.frontier (Lane.turnAll d.opens k ls)) d'.opens := by
  obtain ⟨hj, hm, -⟩ := (t.placed l hl).master hg
  have hkept := t.kept l hl j hg
  by_cases ho : d'.opens l.gate = true
  · exact Lane.Kept.of_open ho
  · rw [hg] at ho
    have hk : width j ≤ k.length := not_lt.1 fun hlt => ho (t.opens_of_lt hj hlt)
    -- the gate is closed, so the next key is of the group of this step
    have heq : Frontier.cut (width j) (.key k) =
        (Lane.frontier (Lane.turnAll d.opens k ls)).cut (width j) := by
      simpa [t.opens j hj] using ho
    constructor
    · exact lt_of_lt_of_le hkept.advance_pos ((l.turn d.opens k).moved_le_advance d'.opens)
    · intro hs _
      rw [(hkept.synchronized_turn_iff hm hk).1 hs, heq]

/-- A master that goes on from record `q` has shown it in a synchronized step.  Either this step was
one of the group of the record, and the next key belongs to a later group, or its key is the key of
a master of an outer level. -/
theorem goes_on {l : Lane ρ} (hl : l ∈ ls) {j q : ℕ} {r : ρ} (hg : l.gate = some j)
    (hq : l.records[q]? = some r) (hle : l.advance d.opens ≤ q + 1)
    (hlt : q + 1 < (l.turn d.opens k).advance d'.opens) :
    (l.key r = k.take (width j) ∧ Frontier.cut (width j) (.key k) <
        (Lane.frontier (Lane.turnAll d.opens k ls)).cut (width j)) ∨
      ∃ o ∈ ls, ∃ i, o.gate = some i ∧ width i < width j ∧ ∃ x ∈ o.records,
        o.key x <+: l.key r := by
  obtain ⟨hj, hm, -⟩ := (t.placed l hl).master hg
  obtain ⟨hdue, hadv⟩ := Lane.due_of_lt_advance hle hlt
  obtain ⟨hs, ho⟩ := Bool.and_eq_true_iff.1 hdue
  rcases le_or_gt (width j) k.length with hk | hk
  · have hhead := ((t.kept l hl j hg).synchronized_turn_iff hm hk).1 hs
    rw [Lane.head_turn hadv, l.keyAt_of_get hq] at hhead
    rw [Lane.turn_toSupply, hg, t.opens j hj, decide_eq_true_iff] at ho
    exact Or.inl ⟨Frontier.key.inj hhead,
      lt_of_le_of_ne (Frontier.cut_mono _ t.le_frontier) ho⟩
  · obtain ⟨o, hol, i, hoi, hi, x, hx, rfl⟩ := t.exists_master (hk.trans_le (t.width_le j hj))
    refine Or.inr ⟨o, hol, i, hoi, hi ▸ hk, x, hx, ?_⟩
    rw [Lane.turn_synchronized, Lane.head_turn hadv, l.keyAt_of_get hq] at hs
    rcases Text.agree_iff.1 hs with hp | hp
    · have hlen := hp.length_le
      rw [hm.length r (List.mem_of_getElem? hq)] at hlen
      omega
    · exact hp

end LevelTurn

section Run

variable (hl : e.Levels ss width W) (h : e.Prepared ss)

include hl h

theorem Levels.turn {n : ℕ} (hd : e.after n = some d) (hs : d.Stages ls)
    (hj : d.sync.ruptures = e.sync.ruptures) (hls : ls.map Lane.toSupply = ss)
    (hkept : ∀ l ∈ ls, ∀ j, l.gate = some j → l.Kept (width j) (Lane.frontier ls) d.opens)
    (hk : Lane.frontier ls = .key k) (ht : d.turn = (d', .ok ())) :
    d.LevelTurn width W ls k d' where
  stages := hs
  frontier := hk
  turn := ht
  width_le := hj ▸ hl.width_le
  placed := fun l hmem => hj ▸ hl.placed l.toSupply (hls ▸ List.mem_map_of_mem hmem)
  kept := hk ▸ hkept
  opens := by
    have hw : d.pool.Deepens width d.sync.ruptures := by
      refine ⟨fun j hmem => ?_, hj ▸ hl.increasing⟩
      obtain ⟨name, hr⟩ := hl.fresh j (hj ▸ hmem)
      have hx := h.after_extract hl.gated.opens hd j
      rw [hr, Option.map_some] at hx
      exact Option.map_eq_some_iff.1 hx
    exact fun j hmem => turn_opens_level hs hk ht (hj ▸ h.ruptures_nodup) hw hmem

/-- What holds of a primed engine over details and masters of several levels, and after a turn
whenever it does before, holds after every step. -/
theorem Levels.after_induction {motive : ℕ → Engine ρ Text → List (Lane ρ) → Prop}
    (primed : ∀ d, d.opens = e.opens → motive 0 d (ss.map Lane.primed))
    (turned : ∀ n d d' ls k, e.after (n + 1) = some d' → d.LevelTurn width W ls k d' →
      d.sync.ruptures = e.sync.ruptures → ls.map Lane.toSupply = ss → motive n d ls →
      motive (n + 1) d' (Lane.turnAll d.opens k ls))
    {n : ℕ} (hd : e.after n = some d) :
    ∃ ls, d.Stages ls ∧ d.sync.ruptures = e.sync.ruptures ∧ ls.map Lane.toSupply = ss ∧
      (∀ l ∈ ls, ∀ j, l.gate = some j → l.Kept (width j) (Lane.frontier ls) d.opens) ∧
      motive n d ls := by
  refine h.after_induction hl.gated.opens (motive := fun n d ls =>
    (∀ l ∈ ls, ∀ j, l.gate = some j → l.Kept (width j) (Lane.frontier ls) d.opens) ∧
      motive n d ls) ?_ ?_ hd
  · intro d _ hr
    have hr := opens_congr hr
    refine ⟨List.forall_mem_map.2 fun s hs j _ => ?_, primed d hr⟩
    refine Lane.Kept.of_open ?_
    rw [hr]
    exact hl.gated.opens s hs
  · intro n d d' ls k hd hd' hs hj hls hk ht hm
    obtain ⟨hkept, hm⟩ := hm
    have t := hl.turn h hd hs hj hls hkept hk ht
    exact ⟨Lane.forall_mem_turnAll.2 fun l hmem j hg => t.kept_turn hmem hg,
      turned n d d' ls k hd' t hj hls hm⟩

end Run

end Engine

end Lockstep
