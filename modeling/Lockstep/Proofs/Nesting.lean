import Lockstep.Proofs.Engine.Levels
import Lockstep.Proofs.Position

/-!
# Masters wait for their groups

A master behind a rupture is to stay at a record until the whole group of this record has been read:
when it has moved past the record, each detail whose key begins with the key of the record has been
presented, in a step in which the master was synchronized with the record (`Supply.Awaits`).

The masters of the first level wait at every record (`Levels.awaits_of_first`), those of a later one
at every record in whose group no outer master has one (`Outermost`).  Where an outer master has
one, the promise breaks.  The key of this outer record is the key of a step of its own, and it is
shorter than what the inner rupture watches, so the inner rupture takes it for a group that ends
with the step and lets the inner master go.  Both are in `drain_awaits`, and `not_awaits_inner` is a
run in which an inner master leaves a group before its second detail.
-/

namespace Lockstep

variable {ρ : Type}

/-- No source behind a rupture that watches fewer than `w` characters has a record whose key
begins `p`. -/
def Outermost (ss : List (Supply ρ)) (width : ℕ → ℕ) (w : ℕ) (p : Text) : Prop :=
  ∀ s ∈ ss, ∀ j, s.gate = some j → width j < w → ∀ r ∈ s.records, ¬ s.key r <+: p

namespace Supply

/-- Step `n` of these presents record number `q` of the source, which has the number `i` and the
gate `g`. -/
structure PresentedAt (s : Supply ρ) (i : ℕ) (g : Option ℕ) (ts : List (Step ρ Text))
    (q n : ℕ) : Prop where
  position : Step.position i g ts n = q
  shown : ∃ t, ts[n]? = some t ∧ t.isSynchronized i = true ∧ t.row[i]? = some s.records[q]?

/-- The source waits at record number `q` for the records with keys that begin with `p`: when the
first `n` steps have released it from there, each such record of an ungated source has been
presented beside it. -/
def Awaits (s : Supply ρ) (i : ℕ) (g : Option ℕ) (ss : List (Supply ρ)) (ts : List (Step ρ Text))
    (q : ℕ) (p : Text) : Prop :=
  ∀ n, q < Step.position i g ts n → ∀ (c : ℕ) u, ss[c]? = some u → u.gate = none →
    ∀ (m : ℕ) x, u.records[m]? = some x → p <+: u.key x →
      ∃ a < n, s.PresentedAt i g ts q a ∧ u.PresentedAt c none ts m a

end Supply

/-- The key of a record of a master that begins `k` is the first `w` characters of it. -/
theorem Supply.Master.key_eq_take {s : Supply ρ} {w j : ℕ} (h : s.Master w j) {r : ρ}
    (hr : r ∈ s.records) {k : Text} (hp : s.key r <+: k) : s.key r = k.take w := by
  rw [← h.length r hr]
  exact List.prefix_iff_eq_take.1 hp

namespace Lane

section Shown

variable {l : Lane ρ} {isOpen : Option ℕ → Bool} {i : ℕ} {g : Option ℕ} {ts : List (Step ρ Text)}
  {n : ℕ} (h : l.Shown isOpen i g (ts.take n))

include h

theorem Shown.advance_take (hn : n ≤ ts.length) :
    l.advance isOpen = Step.position i g ts n + 1 := by
  rw [h.advance, List.length_take_of_le hn, Step.position_take le_rfl]

/-- A record before the coming one has been presented. -/
theorem Shown.exists_presentedAt {q : ℕ} (hq : q < l.coming) :
    ∃ a < n, l.toSupply.PresentedAt i g ts q a := by
  obtain ⟨a, t, ht, hpos, hs⟩ := h.each q hq
  have hrow := h.row a t ht
  have han : a < n := by
    have hlt := (List.getElem?_eq_some_iff.1 ht).1
    rw [List.length_take] at hlt
    omega
  rw [hpos] at hrow
  rw [Step.position_take han.le] at hpos
  rw [List.getElem?_take_of_lt han] at ht
  exact ⟨a, han, hpos, t, ht, hs, hrow⟩

end Shown

/-- A record of a lane in order is before the coming one if it belongs to a group before the next
step. -/
theorem lt_coming {ls : List (Lane ρ)} {o : Lane ρ} (ho : o ∈ ls)
    (hs : (o.records.map o.key).Pairwise (· ≤ ·)) {m : ℕ} {x : ρ} (hm : o.records[m]? = some x)
    {w : ℕ} (h : Frontier.cut w (.key (o.key x)) < (Lane.frontier ls).cut w) : m < o.coming := by
  by_contra hge
  have hle : Lane.frontier ls ≤ .key (o.key x) := by
    rw [← o.keyAt_of_get hm]
    exact (Lane.frontier_le ho).trans (Supply.keyAt_mono hs (not_lt.1 hge))
  exact absurd (Frontier.cut_mono w hle) (not_le.2 h)

end Lane

namespace Engine

variable {e d d' : Engine ρ Text} {ss : List (Supply ρ)} {ls : List (Lane ρ)} {width : ℕ → ℕ}
  {W : ℕ} {k : Text}

/-- The records with no outer one in their group that a master has gone past belong to groups before
the next step. -/
def Passed (d : Engine ρ Text) (ss : List (Supply ρ)) (width : ℕ → ℕ) (ls : List (Lane ρ)) : Prop :=
  ∀ l ∈ ls, ∀ j, l.gate = some j → ∀ (q : ℕ) r, l.records[q]? = some r →
    Outermost ss width (width j) (l.key r) → q + 1 < l.advance d.opens →
      l.keyAt q < (Lane.frontier ls).cut (width j)

namespace LevelTurn

variable (t : d.LevelTurn width W ls k d') (hls : ls.map Lane.toSupply = ss)
  (hp : d.Passed ss width ls)

include t hls hp

theorem passed_turn : d'.Passed ss width (Lane.turnAll d.opens k ls) := by
  refine Lane.forall_mem_turnAll.2 fun l hl j hg q r hq ho hlt => ?_
  rcases lt_or_ge (q + 1) (l.advance d.opens) with hlt' | hge
  · have hlow := hp l hl j hg q r hq ho hlt'
    rw [t.frontier] at hlow
    exact hlow.trans_le (Frontier.cut_mono _ t.le_frontier)
  · rcases t.goes_on hl hg hq hge hlt with ⟨hrk, hnext⟩ | ⟨o, hol, i, hi, hw, x, hx, hpre⟩
    · rw [Lane.turn_toSupply, l.keyAt_of_get hq, hrk]
      exact hnext
    · exact absurd hpre (ho o.toSupply (hls ▸ List.mem_map_of_mem hol) i hi hw x hx)

/-- A step that presents a detail shows the record of its group, unless an outer master has a record
in this group. -/
theorem shows {l o : Lane ρ} (hl : l ∈ ls) {j : ℕ} (hg : l.gate = some j) {q : ℕ} {r : ρ}
    (hq : l.records[q]? = some r) (ho : Outermost ss width (width j) (l.key r)) (hol : o ∈ ls)
    (hog : o.gate = none) {m : ℕ} {x : ρ} (hm : o.records[m]? = some x)
    (hadv : o.advance d.opens = m + 1) (hs : (o.turn d.opens k).synchronized = true)
    (hpre : l.key r <+: o.key x) :
    l.advance d.opens = q + 1 ∧ (l.turn d.opens k).synchronized = true := by
  obtain ⟨hj, hmaster, hstrict⟩ := (t.placed l hl).master hg
  have hlen := hmaster.length r (List.mem_of_getElem? hq)
  -- the key of the step begins the key of the detail
  have hk : k <+: o.key x := by
    have hc : o.coming = m := by
      rw [Lane.advance_eq_succ (Or.inr (hog ▸ rfl))] at hadv
      omega
    have hle := t.le_candidate hol
    rw [Lane.candidate, hc, o.keyAt_of_get hm] at hle
    rw [Lane.turn_synchronized, Lane.head_turn hadv, o.keyAt_of_get hm] at hs
    obtain ⟨a, ha, hka⟩ := Frontier.exists_prefix_of_agrees hs hle
    rwa [Frontier.key.inj ha]
  have hw : width j ≤ k.length := by
    by_contra hlt
    obtain ⟨b, hbl, i, hi, hw, y, hy, rfl⟩ :=
      t.exists_master ((not_le.1 hlt).trans_le (t.width_le j hj))
    refine ho b.toSupply (hls ▸ List.mem_map_of_mem hbl) i hi (by omega) y hy ?_
    exact List.prefix_of_prefix_length_le hk hpre (by omega)
  have hrk : l.key r = k.take (width j) := hmaster.key_eq_take (List.mem_of_getElem? hq)
    (List.prefix_of_prefix_length_le hpre hk (by omega))
  have hkept := t.kept l hl j hg
  have hq' := hkept.advance_of_get hstrict (t.le_candidate hl) hq hrk fun hlt =>
    t.frontier ▸ hp l hl j hg q r hq ho hlt
  refine ⟨hq', (hkept.synchronized_turn_iff hmaster hw).2 ?_⟩
  rw [Lane.head_turn hq', l.keyAt_of_get hq, hrk]
  rfl

end LevelTurn

/-- How the lanes stand after the steps `ts` of a run of `e`. -/
structure Standing (e d : Engine ρ Text) (ss : List (Supply ρ)) (width : ℕ → ℕ)
    (ls : List (Lane ρ)) (ts : List (Step ρ Text)) : Prop where
  supplies : ls.map Lane.toSupply = ss
  passed : d.Passed ss width ls
  shown : ∀ (i : ℕ) (l : Lane ρ), ls[i]? = some l →
    l.Shown d.opens i (l.gate.map e.sync.ruptures.idxOf) ts

theorem Standing.exists_lane {ts : List (Step ρ Text)} (h : e.Standing d ss width ls ts) {i : ℕ}
    {s : Supply ρ} (hs : ss[i]? = some s) : ∃ l : Lane ρ, ls[i]? = some l ∧ l ∈ ls ∧
      l.toSupply = s ∧ l.Shown d.opens i (s.gate.map e.sync.ruptures.idxOf) ts := by
  rw [← h.supplies, List.getElem?_map] at hs
  obtain ⟨l, hl, rfl⟩ := Option.map_eq_some_iff.1 hs
  exact ⟨l, hl, List.mem_of_getElem? hl, rfl, h.shown i l hl⟩

section Run

variable (hl : e.Levels ss width W) (h : e.Prepared ss)

include hl h

theorem Levels.standing_of_after {n : ℕ} (hd : e.after n = some d) :
    ∃ ls, d.Stages ls ∧ d.sync.ruptures = e.sync.ruptures ∧
      (∀ l ∈ ls, ∀ j, l.gate = some j → l.Kept (width j) (Lane.frontier ls) d.opens) ∧
      e.Standing d ss width ls (e.drain n .fresh).result := by
  obtain ⟨ls, hs, hj, -, hkept, hm⟩ := hl.after_induction h (motive := fun n d ls =>
      e.Standing d ss width ls (e.drain n .fresh).result)
    (by
      intro d hr
      refine ⟨?_, ?_, ?_⟩
      · rw [List.map_map]
        exact List.map_id ss
      · refine List.forall_mem_map.2 fun s hs j _ q r _ _ hlt => ?_
        rw [Lane.advance_eq_succ (Or.inr (hr ▸ hl.gated.opens s hs))] at hlt
        simp [Lane.coming, Lane.primed] at hlt
      · intro i l hmem
        obtain ⟨s, hs, rfl⟩ := List.mem_map.1 (List.mem_of_getElem? hmem)
        exact Lane.shown_primed (hr ▸ hl.gated.opens s hs))
    (by
      intro n d d' ls k hd' t hj hls hm
      refine ⟨Lane.toSupply_turnAll.trans hls, t.passed_turn hls hm.passed, fun i l' hl' => ?_⟩
      rw [Lane.getElem?_turnAll] at hl'
      obtain ⟨l, hmem, rfl⟩ := Option.map_eq_some_iff.1 hl'
      exact shown_turn h hl.gated hd' t.stages hj hls t.frontier t.turn hmem
        (hm.shown i l hmem)) hd
  exact ⟨ls, hs, hj, hkept, hm⟩

variable {budget n : ℕ}

/-- Before each step the lanes stand where the steps before have left them. -/
theorem Levels.exists_turn {t : Step ρ Text} (ht : (e.drain budget .fresh).result[n]? = some t) :
    ∃ d d' ls k, d.LevelTurn width W ls k d' ∧ d.sync.ruptures = e.sync.ruptures ∧
      e.Standing d ss width ls ((e.drain budget .fresh).result.take n) ∧
      e.after (n + 1) = some d' ∧ t = d'.snapshot (n + 1) := by
  obtain ⟨hn, d', hd', rfl⟩ := exists_after_of_getElem? h.unstarted ht
  obtain ⟨d, hd, he, hturn⟩ := after_succ_eq_some.1 hd'
  obtain ⟨ls, hs, hj, hkept, hst⟩ := hl.standing_of_after h hd
  obtain ⟨k, hk⟩ := hs.exists_key he
  rw [drain_take h.unstarted hn.le]
  exact ⟨d, d', ls, k, hl.turn h hd hs hj hst.supplies hkept hk hturn, hj, hst, hd', rfl⟩

/-- After `n` steps the lanes stand where these have left them. -/
theorem Levels.exists_standing (hn : n ≤ (e.drain budget .fresh).result.length) :
    ∃ d ls, d.Stages ls ∧ e.Standing d ss width ls ((e.drain budget .fresh).result.take n) := by
  obtain ⟨m, d, hd, hres, -⟩ := h.drain_cases hl.gated.opens budget
  rw [hres, drain_length h.unstarted hd] at hn
  obtain ⟨d', hd'⟩ := after_isSome_of_le hd hn
  obtain ⟨ls, hs, -, -, hst⟩ := hl.standing_of_after h hd'
  rw [hres, drain_take h.unstarted hn]
  exact ⟨d', ls, hs, hst⟩

variable {i j : ℕ} {s : Supply ρ} (hs : ss[i]? = some s) (hg : s.gate = some j)

include hs hg

/-- A step that presents a detail presents the record of its group beside it. -/
theorem Levels.presentedAt {q : ℕ} {r : ρ} (hq : s.records[q]? = some r)
    (ho : Outermost ss width (width j) (s.key r)) {c m : ℕ} {u : Supply ρ} (hc : ss[c]? = some u)
    (hu : u.gate = none) {x : ρ} (hm : u.records[m]? = some x) (hpre : s.key r <+: u.key x)
    (hx : u.PresentedAt c none (e.drain budget .fresh).result m n) :
    s.PresentedAt i (some (e.sync.ruptures.idxOf j)) (e.drain budget .fresh).result q n := by
  obtain ⟨hpos, t, ht, hsync, -⟩ := hx
  have hlt := (List.getElem?_eq_some_iff.1 ht).1
  obtain ⟨d, d', ls, k, hturn, -, hst, -, rfl⟩ := hl.exists_turn h ht
  obtain ⟨l, hli, hl, rfl, hshown⟩ := hst.exists_lane hs
  obtain ⟨o, hoc, hol, rfl, hoshown⟩ := hst.exists_lane hc
  have hadv := hoshown.advance_take hlt.le
  have hadv' := hshown.advance_take hlt.le
  rw [hu, Option.map_none, hpos] at hadv
  rw [hg, Option.map_some] at hadv'
  rw [turn_isSynchronized hturn.stages hturn.frontier hturn.turn (n + 1) hoc] at hsync
  obtain ⟨hq', hs'⟩ := hturn.shows hst.supplies hst.passed hl hg hq ho hol hu hm hadv hsync hpre
  refine ⟨by omega, _, ht, ?_, ?_⟩
  · rw [turn_isSynchronized hturn.stages hturn.frontier hturn.turn (n + 1) hli, hs']
  · rw [turn_row hturn.stages hturn.frontier hturn.turn (n + 1) hli, Lane.current_turn hq']

/-- A master waits at a record in whose group no outer master has one. -/
theorem Levels.awaits {q : ℕ} {r : ρ} (hq : s.records[q]? = some r)
    (ho : Outermost ss width (width j) (s.key r)) :
    s.Awaits i (some (e.sync.ruptures.idxOf j)) ss (e.drain budget .fresh).result q
      (s.key r) := by
  intro n hn c u hc hu m x hm hpre
  have hb := min_le_right n (e.drain budget .fresh).result.length
  obtain ⟨d, ls, -, hst⟩ := hl.exists_standing h hb
  obtain ⟨l, -, hmem, rfl, hshown⟩ := hst.exists_lane hs
  obtain ⟨o, -, hol, rfl, hoshown⟩ := hst.exists_lane hc
  have hadv := hshown.advance_take hb
  rw [hg, Option.map_some, Step.position_min] at hadv
  have hlow := hst.passed l hmem j hg q r hq ho (by omega)
  have hmaster := ((hl.placed _ (List.mem_of_getElem? hs)).master hg).2.1
  have hdetail := (hl.placed _ (List.mem_of_getElem? hc)).detail hu
  -- the detail belongs to a group before the next step, so it has been presented
  have hcut : l.keyAt q = Frontier.cut (width j) (.key (o.key x)) := by
    rw [l.keyAt_of_get hq, hmaster.key_eq_take (List.mem_of_getElem? hq) hpre]
    rfl
  obtain ⟨a, ha, hx⟩ := hoshown.exists_presentedAt
    (Lane.lt_coming hol hdetail.sorted hm (hcut ▸ hlow))
  rw [hu, Option.map_none] at hx
  exact ⟨a, ha.trans_le (min_le_left _ _), hl.presentedAt h hs hg hq ho hc hu hm hpre hx, hx⟩

/-- The masters of the first level wait at every record. -/
theorem Levels.awaits_of_first (hj : e.sync.ruptures.head? = some j) {q : ℕ} {r : ρ}
    (hq : s.records[q]? = some r) :
    s.Awaits i (some (e.sync.ruptures.idxOf j)) ss (e.drain budget .fresh).result q
      (s.key r) := by
  refine hl.awaits h hs hg hq fun o hmem m hm hlt => ?_
  obtain ⟨js, hjs⟩ := List.head?_eq_some_iff.1 hj
  have hinc := hl.increasing
  have hreg := ((hl.placed o hmem).master hm).1
  rw [hjs] at hinc hreg
  -- no rupture watches fewer characters than the first one
  rcases List.mem_cons.1 hreg with rfl | hreg
  · exact absurd hlt (lt_irrefl _)
  · exact absurd hlt (not_lt.2 ((List.pairwise_cons.1 hinc).1 m hreg).le)

end Run

/-- **Masters wait for their groups.**  In a run over details and masters of several levels, a master
that has gone past a record in whose group no outer master has one has waited for all details of the
group.  But a step with the key of an outer record, shorter than what the rupture in front of a
master watches, lets the master go if it is synchronized, whatever is left of its group. -/
theorem drain_awaits (hl : e.Levels ss width W) (h : e.Prepared ss) (budget : ℕ) {i j : ℕ}
    {s : Supply ρ} (hs : ss[i]? = some s) (hg : s.gate = some j) :
    let ts := (e.drain budget .fresh).result
    let g := some (e.sync.ruptures.idxOf j)
    (∀ (q : ℕ) r, s.records[q]? = some r → Outermost ss width (width j) (s.key r) →
        s.Awaits i g ss ts q (s.key r)) ∧
      ∀ (n : ℕ) t k, ts[n]? = some t → t.key = .key k → k.length < width j →
        t.isSynchronized i = true → t.releases i g = true := by
  intro ts g
  refine ⟨fun q r hq ho => hl.awaits h hs hg hq ho, ?_⟩
  intro n t k ht hk hlt hsync
  obtain ⟨d, d', ls, a, hturn, hj, hst, hd', rfl⟩ := hl.exists_turn h ht
  obtain ⟨l, hli, hmem, rfl, -⟩ := hst.exists_lane hs
  have hkey := turn_key hturn.stages hturn.frontier hturn.turn (n + 1)
  obtain rfl : a = k := Frontier.key.inj (hkey.symm.trans hk)
  have hrel := turn_releases h hl.gated hd' hturn.stages hj hst.supplies hturn.frontier hturn.turn
    hli
  rw [turn_isSynchronized hturn.stages hturn.frontier hturn.turn (n + 1) hli] at hsync
  rw [hg, Option.map_some] at hrel
  rw [hrel, Lane.due, hsync, Lane.turn_toSupply, hg,
    hturn.opens_of_lt ((hturn.placed l hmem).master hg).1 hlt]
  rfl

/-- Two levels, and a group without an outer record. -/
theorem drain_awaits_outermost :
    let s : Supply Text := .ofList [['a', 'a'], ['b', 'b']] id (some 1)
    let ss : List (Supply Text) := [.ofList [['a', 'a', '1'], ['a', 'a', '2'], ['b', 'b', '1']] id
      none, .ofList [['b']] id (some 0), s]
    let width : ℕ → ℕ := fun j => [1, 2].getD j 0
    let e := ofLists ss [.fresh ['c'] (Rupture.leading 1), .fresh ['r'] (Rupture.leading 2)]
    let ts := (e.drain 10 .fresh).result
    e.Levels ss width 2 ∧ e.Prepared ss ∧ Outermost ss width 2 ['a', 'a'] ∧
      s.Awaits 2 (some 1) ss ts 0 ['a', 'a'] ∧ 0 < Step.position 2 (some 1) ts 2 ∧
      ∃ t, ts[2]? = some t ∧ t.key = .key ['b'] ∧ t.releases 2 (some 1) = true := by
  intro s ss width e ts
  have hl : e.Levels ss width 2 := levels_pair (by decide) ['c'] ['r'] ⟨rfl, by decide, by decide⟩
    ⟨rfl, by decide, by decide⟩ (by decide) ⟨rfl, by decide, by decide⟩ (by decide)
  have hp : e.Prepared ss := prepared_ofLists ss _
  have ho : Outermost ss width 2 ['a', 'a'] := by
    intro o ho j hj hw
    rcases List.mem_cons.1 ho with rfl | ho
    · cases hj
    · rcases List.mem_pair.1 ho with rfl | rfl
      · decide
      · obtain rfl : 1 = j := Option.some.inj hj
        exact absurd hw (by decide)
  obtain ⟨hwait, hrel⟩ := drain_awaits hl hp 10 (show ss[2]? = some s from rfl) rfl
  refine ⟨hl, hp, ho, hwait 0 ['a', 'a'] rfl ho, by decide +kernel, ?_⟩
  -- the last step has the key of the outer record
  have hlast : (ts.map fun t => (t.key, t.isSynchronized 2))[2]? = some (.key ['b'], true) := by
    decide +kernel
  rw [List.getElem?_map, Option.map_eq_some_iff] at hlast
  obtain ⟨t, ht, heq⟩ := hlast
  obtain ⟨hk, hs⟩ := Prod.mk.inj heq
  exact ⟨t, ht, hk, hrel 2 t ['b'] ht hk (by decide) hs⟩

/-- The inner master leaves the group of its record before the second detail of the group, and there
is no step that presents both. -/
theorem not_awaits_inner :
    let s : Supply Text := .ofList [['a', 'a']] id (some 1)
    let ss : List (Supply Text) := [.ofList [['a', 'a', '1'], ['a', 'a', '2']] id none,
      .ofList [['a']] id (some 0), s]
    let width : ℕ → ℕ := fun j => [1, 2].getD j 0
    let e := ofLists ss [.fresh ['c'] (Rupture.leading 1), .fresh ['r'] (Rupture.leading 2)]
    let ts := (e.drain 10 .fresh).result
    e.Levels ss width 2 ∧ e.Prepared ss ∧ ¬ s.Awaits 2 (some 1) ss ts 0 ['a', 'a'] ∧
      ts.map (·.row) = [[some ['a', 'a', '1'], some ['a'], some ['a', 'a']],
        [some ['a', 'a', '2'], some ['a'], none]] := by
  intro s ss width e ts
  have hl : e.Levels ss width 2 := levels_pair (by decide) ['c'] ['r'] ⟨rfl, by decide, by decide⟩
    ⟨rfl, by decide, by decide⟩ (by decide) ⟨rfl, by decide, by decide⟩ (by decide)
  refine ⟨hl, prepared_ofLists ss _, ?_, by decide +kernel⟩
  intro hwait
  -- the first step has released the master, and the second detail comes with the second one
  obtain ⟨a, ha, -, hx⟩ := hwait 1 (by decide +kernel) 0 _ rfl rfl 1 _ rfl (by decide)
  obtain rfl : a = 0 := by omega
  cases hx.position

end Engine

end Lockstep
