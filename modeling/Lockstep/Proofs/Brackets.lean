import Mathlib.Data.List.Forall2
import Lockstep.Proofs.Engine.Course
import Lockstep.Proofs.Engine.Phase

/-!
# The edges of the ruptures are brackets

A step opens a group of a rupture when it shows its first edge set, and closes one when it shows its
last edge set.  In a run over whatever sources, with whatever keys, extractors and gates, these
edges are brackets as long as the ruptures are fresh (`Bracketed`):

* every rupture opens a group at the first step, and later exactly after a step that closes one;
* a step closes a group of a rupture exactly if it is the last one or if this rupture, or one
  registered before it, takes the key of the step and the next key for keys of different groups;
* so the groups of a rupture lie inside those of the ruptures registered before it, and at the end
  of a run every group is closed.

This is `drain_bracketed`.  The next key that a step has found is `Engine.frontierAfter`; it is the
key of the next step, and the mark after the last one.
-/

namespace Lockstep

variable {ρ κ : Type}

section Groups

/-- The step opens a group of the rupture with the place `j` among the registered ones. -/
def Step.opens (j : ℕ) (t : Step ρ κ) : Bool := (t.edges[j]?).elim false (·.1)

/-- The step closes a group of the rupture with the place `j` among the registered ones. -/
def Step.closes (j : ℕ) (t : Step ρ κ) : Bool := (t.edges[j]?).elim false (·.2)

/-- The number of the group to which step `n` belongs, counted from zero: so many groups have been
closed before it. -/
def Step.group (j : ℕ) (ts : List (Step ρ κ)) (n : ℕ) : ℕ := (ts.take n).countP (closes j)

/-- Steps of one group of rupture `j` are of one group of rupture `i` if this one closes a group
only together with rupture `j`. -/
theorem Step.group_eq_of_group_eq {i j m n : ℕ} {ts : List (Step ρ κ)}
    (h : ∀ t ∈ ts, t.closes i = true → t.closes j = true) (hg : group j ts m = group j ts n) :
    group i ts m = group i ts n := by
  wlog hmn : m ≤ n generalizing m n
  · exact (this hg.symm (by omega)).symm
  -- between the two steps no group of rupture `j` is closed
  have hsplit : ∀ k, group k ts n = group k ts m + ((ts.take n).drop m).countP (closes k) := by
    intro k
    rw [group, group, ← List.countP_append]
    congr 1
    conv_lhs => rw [← List.take_append_drop m (ts.take n), List.take_take, min_eq_left hmn]
  have hle : ((ts.take n).drop m).countP (closes i) ≤ ((ts.take n).drop m).countP (closes j) :=
    List.countP_mono_left fun t ht => h t (List.mem_of_mem_take (List.mem_of_mem_drop ht))
  have hi := hsplit i
  have hj := hsplit j
  omega

variable [SyncKey κ]

/-- The rupture takes the two frontiers for keys of different groups. -/
def Rupture.Parts (r : Rupture κ) : Frontier κ → Frontier κ → Prop
  | .key a, .key b => ∃ x y, r.extract a = .ok x ∧ r.extract b = .ok y ∧ SyncKey.same x y = false
  | _, _ => False

/-- The edges that these steps show of the ruptures `rs` are brackets, each step having found the
next key `next`. -/
structure Bracketed (rs : List (Rupture κ)) (ts : List (Step ρ κ)) (next : ℕ → Frontier κ) :
    Prop where
  key : ∀ t ∈ ts, ∃ a, t.key = .key a
  key_succ : ∀ n t, ts[n + 1]? = some t → t.key = next n
  final : ∀ n, next n = .done → ts.length ≤ n + 1
  edges_length : ∀ t ∈ ts, t.edges.length = rs.length
  opens_zero : ∀ t, ts[0]? = some t → ∀ j < rs.length, t.opens j = true
  opens_succ : ∀ n t u, ts[n]? = some t → ts[n + 1]? = some u →
    ∀ j < rs.length, u.opens j = t.closes j
  closes_iff : ∀ n t, ts[n]? = some t → ∀ j < rs.length,
    (t.closes j = true ↔ next n = .done ∨ ∃ r ∈ rs.take (j + 1), r.Parts t.key (next n))
  nested : ∀ i j, i ≤ j → j < rs.length → ∀ m n,
    Step.group j ts m = Step.group j ts n → Step.group i ts m = Step.group i ts n

end Groups

section Watches

variable {d d' : Engine ρ κ} {rs : List (Rupture κ)}

namespace Engine

/-- The registered ruptures have the extractors of `rs`. -/
def Watches (d : Engine ρ κ) (rs : List (Rupture κ)) : Prop :=
  List.Forall₂ (fun j r => ∃ x, d.pool.ruptures[j]? = some x ∧ x.extract = r.extract)
    d.sync.ruptures rs

theorem Watches.exists_get (h : d.Watches rs) {i : ℕ} (hi : i < rs.length) :
    ∃ j x, d.sync.ruptures[i]? = some j ∧ d.pool.ruptures[j]? = some x := by
  have hj : i < d.sync.ruptures.length := h.length_eq ▸ hi
  obtain ⟨x, hx, -⟩ := h.get hj hi
  exact ⟨_, x, List.getElem?_eq_getElem hj, hx⟩

theorem Watches.lt_length (h : d.Watches rs) :
    ∀ j ∈ d.sync.ruptures, j < d.pool.ruptures.length := by
  intro j hj
  obtain ⟨i, hi⟩ := List.mem_iff_getElem?.1 hj
  have hlt := (List.getElem?_eq_some_iff.1 hi).1
  obtain ⟨j', x, hj', hx⟩ := h.exists_get (h.length_eq ▸ hlt)
  obtain rfl : j = j' := Option.some.inj (hi.symm.trans hj')
  exact (List.getElem?_eq_some_iff.1 hx).1

/-- A step shows the edges of the registered ruptures in their order. -/
theorem Watches.edges_getElem? (h : d.Watches rs) {i j : ℕ} {x : Rupture κ}
    (hj : d.sync.ruptures[i]? = some j) (hx : d.pool.ruptures[j]? = some x) (n : ℕ) :
    (d.snapshot n).edges[i]? = some x.edges := by
  rw [snapshot, Pool.edges_eq_map h.lt_length, List.getElem?_map, hj, Option.map_some, hx]
  rfl

theorem Watches.edges_length (h : d.Watches rs) (n : ℕ) :
    (d.snapshot n).edges.length = rs.length := by
  rw [snapshot, Pool.edges_eq_map h.lt_length, List.length_map]
  exact h.length_eq

end Engine

end Watches

variable [SyncKey κ]

namespace Rupture

variable {r s : Rupture κ} {a : κ} {f : Frontier κ}

theorem breaks_eq_true : r.breaks (.key a) f = .ok true ↔ f = .done ∨ r.Parts (.key a) f := by
  cases f with
  | done => simp [breaks]
  | key b =>
    cases ha : r.extract a <;> cases hb : r.extract b <;> simp [breaks, changes, Parts, ha, hb]

/-- Whether a rupture parts two keys depends on its extractor only. -/
theorem parts_congr (h : r.extract = s.extract) : r.Parts (.key a) f ↔ s.Parts (.key a) f := by
  cases f with
  | done => exact Iff.rfl
  | key b => simp [Parts, h]

end Rupture

namespace Engine

variable {e d d' : Engine ρ κ} {rs : List (Rupture κ)} {a : κ} {f : Frontier κ} {n : ℕ}

theorem breaks_iff {p : Pool ρ κ} {js : List ℕ}
    (h : List.Forall₂ (fun j r => ∃ x, p.ruptures[j]? = some x ∧ x.extract = r.extract) js rs) :
    p.Breaks (.key a) f js ↔ (rs ≠ [] ∧ f = .done) ∨ ∃ r ∈ rs, r.Parts (.key a) f := by
  induction h with
  | nil => simp [Pool.Breaks]
  | cons hx _ ih =>
    obtain ⟨x, hx, hr⟩ := hx
    rw [Pool.breaks_cons_some hx, ih, Rupture.breaks_eq_true, Rupture.parts_congr hr]
    simp only [List.mem_cons, exists_eq_or_imp]
    tauto

/-- A turn with key `a` finds the next key `f` and moves the ruptures on between the two. -/
structure Moves (d : Engine ρ κ) (rs : List (Rupture κ)) (a : κ) (f : Frontier κ)
    (d' : Engine ρ κ) : Prop where
  key : d.sync.nextKey = some (.key a)
  currentKey : d'.sync.currentKey = some (.key a)
  nextKey : d'.sync.nextKey = some f
  ruptures : d'.sync.ruptures = d.sync.ruptures
  watches : d'.Watches rs
  moved : ∀ i < rs.length, ∃ j x b, d.sync.ruptures[i]? = some j ∧
    d.pool.ruptures[j]? = some x ∧ d'.pool.ruptures[j]? = some (x.moved b) ∧
    (b = true ↔ f = .done ∨ ∃ r ∈ rs.take (i + 1), r.Parts (.key a) f)

theorem Watches.moves (h : d.Watches rs) (hn : d.sync.ruptures.Nodup)
    (hk : d.sync.nextKey = some (.key a)) (ht : d.turn = (d', .ok ())) :
    ∃ f, d.Moves rs a f d' := by
  obtain ⟨p, f, hp, hs, hc⟩ := turn_eq_ok ht
  rw [hk, Option.getD_some] at hc
  have hpool := congrArg Prod.fst hc
  have hwatch : List.Forall₂ (fun j r => ∃ x, p.ruptures[j]? = some x ∧ x.extract = r.extract)
      d.sync.ruptures rs := by
    rw [hp]
    exact h
  refine ⟨f, hk, by rw [hs, hk], by rw [hs], by rw [hs], ?_, ?_⟩
  · rw [Watches, hs]
    refine h.imp fun j r hx => ?_
    obtain ⟨x, hx, hr⟩ := hx
    have hext : ((Pool.cascade (.key a) f false d.sync.ruptures p).1.ruptures[j]?).map (·.extract) =
        (p.ruptures[j]?).map (·.extract) := Pool.cascade_extract j
    rw [hc, hp, hx, Option.map_some] at hext
    obtain ⟨y, hy, hyx⟩ := Option.map_eq_some_iff.1 hext
    exact ⟨y, hy, hyx.trans hr⟩
  · intro i hi
    obtain ⟨j, x, hj, hx⟩ := h.exists_get hi
    obtain ⟨b, hb, hiff⟩ := Pool.cascade_get hn (congrArg Prod.snd hc) hj (hp ▸ hx)
    rw [hpool] at hb
    refine ⟨j, x, b, hj, hx, hb, hiff.trans ?_⟩
    have hne : rs.take (i + 1) ≠ [] := by
      intro hnil
      rcases List.take_eq_nil_iff.1 hnil with h0 | rfl
      · omega
      · simp at hi
    rw [breaks_iff (List.forall₂_take (i + 1) hwatch)]
    simp [hne]

/-- An engine before its start whose registered ruptures are `rs`, distinct and fresh. -/
structure Watched (e : Engine ρ κ) (rs : List (Rupture κ)) : Prop where
  unstarted : e.sync.started = false
  ruptures_nodup : e.sync.ruptures.Nodup
  ruptures : List.Forall₂ (fun j r => e.pool.ruptures[j]? = some r) e.sync.ruptures rs
  fresh : ∀ r ∈ rs, ∃ name extract, r = .fresh name extract

theorem Watches.exists_moves (h : d.Watches rs) (hn : d.sync.ruptures.Nodup)
    (hf : ∃ f, d.sync.nextKey = some f) (he : d.sync.ended = false) (ht : d.turn = (d', .ok ())) :
    ∃ a f, d.Moves rs a f d' := by
  obtain ⟨f, hf⟩ := hf
  cases f with
  | key a => exact ⟨a, h.moves hn hf ht⟩
  | done => simp [Synchronization.ended, hf] at he

section Watched

variable (h : e.Watched rs)

include h

/-- Before the first step every rupture has its last edge set. -/
theorem Watched.last_of_after_zero (hd : e.after 0 = some d) :
    ∀ j ∈ e.sync.ruptures, ∀ x, d.pool.ruptures[j]? = some x → x.last = true := by
  intro j hj x hx
  rw [(prime_eq_ok (after_zero_eq_some.1 hd)).1] at hx
  obtain ⟨i, hi⟩ := List.mem_iff_get.1 hj
  have hlt : i.val < rs.length := h.ruptures.length_eq ▸ i.isLt
  have hr := h.ruptures.get i.isLt hlt
  obtain ⟨name, extract, hfresh⟩ := h.fresh _ (List.get_mem rs ⟨i.val, hlt⟩)
  rw [hi, hfresh] at hr
  obtain rfl : x = .fresh name extract := Option.some.inj (hx.symm.trans hr)
  rfl

theorem Watched.after_watches (hd : e.after n = some d) : d.sync.ruptures = e.sync.ruptures ∧
    d.Watches rs ∧ ∃ f, d.sync.nextKey = some f := by
  induction n generalizing d with
  | zero =>
    obtain ⟨hr, f, hs⟩ := prime_eq_ok (after_zero_eq_some.1 hd)
    refine ⟨by rw [hs]; rfl, ?_, f, by rw [hs]⟩
    rw [Watches, hs, hr]
    exact h.ruptures.imp fun j r hx => ⟨r, hx, rfl⟩
  | succ n ih =>
    obtain ⟨c, hc, he, ht⟩ := after_succ_eq_some.1 hd
    obtain ⟨hj, hw, hf⟩ := ih hc
    obtain ⟨a, f, hm⟩ := hw.exists_moves (hj ▸ h.ruptures_nodup) hf he ht
    exact ⟨hm.ruptures.trans hj, hm.watches, f, hm.nextKey⟩

theorem Watched.after_moves (hd : e.after (n + 1) = some d') : ∃ d a, e.after n = some d ∧
    d.sync.ruptures = e.sync.ruptures ∧ d.Moves rs a (e.frontierAfter (n + 1)) d' := by
  obtain ⟨d, hd0, he, ht⟩ := after_succ_eq_some.1 hd
  obtain ⟨hj, hw, hf⟩ := h.after_watches hd0
  obtain ⟨a, f, hm⟩ := hw.exists_moves (hj ▸ h.ruptures_nodup) hf he ht
  have hfr : e.frontierAfter (n + 1) = f := by
    rw [frontierAfter_eq h.unstarted hd, hm.nextKey, Option.getD_some]
  exact ⟨d, a, hd0, hj, hfr ▸ hm⟩

/-- A step shows where a turn has moved the ruptures. -/
theorem Watched.step_moves {budget : ℕ} {t : Step ρ κ}
    (ht : (e.drain budget .fresh).result[n]? = some t) : ∃ d d' a, e.after n = some d ∧
      e.after (n + 1) = some d' ∧ d.sync.ruptures = e.sync.ruptures ∧
      d.Moves rs a (e.frontierAfter (n + 1)) d' ∧ t = d'.snapshot (n + 1) := by
  obtain ⟨-, d', hd', rfl⟩ := exists_after_of_getElem? h.unstarted ht
  obtain ⟨d, a, hd, hj, hm⟩ := h.after_moves hd'
  exact ⟨d, d', a, hd, hd', hj, hm, rfl⟩

end Watched

namespace Moves

variable (h : d.Moves rs a f d')

include h

theorem snapshot_key (n : ℕ) : (d'.snapshot n).key = .key a := by
  rw [snapshot, h.currentKey, Option.getD_some]

/-- The edges that a step shows: the last edge before it, and the one it has found. -/
theorem snapshot_edges {i : ℕ} (hi : i < rs.length) (n : ℕ) : ∃ j x b,
    d.sync.ruptures[i]? = some j ∧ d.pool.ruptures[j]? = some x ∧
    (d'.snapshot n).opens i = x.last ∧ (d'.snapshot n).closes i = b ∧
    d'.pool.ruptures[j]? = some (x.moved b) ∧
    (b = true ↔ f = .done ∨ ∃ r ∈ rs.take (i + 1), r.Parts (.key a) f) := by
  obtain ⟨j, x, b, hj, hx, hb, hiff⟩ := h.moved i hi
  have hedges := h.watches.edges_getElem? (h.ruptures.symm ▸ hj) hb n
  refine ⟨j, x, b, hj, hx, ?_, ?_, hb, hiff⟩
  · rw [Step.opens, hedges]
    rfl
  · rw [Step.closes, hedges]
    rfl

end Moves

section Watched

variable {budget : ℕ} {t u : Step ρ κ} (h : e.Watched rs)

include h

theorem Watched.exists_key (ht : t ∈ (e.drain budget .fresh).result) : ∃ a, t.key = .key a := by
  obtain ⟨n, hn⟩ := List.mem_iff_getElem?.1 ht
  obtain ⟨d, d', a, -, -, -, hm, rfl⟩ := h.step_moves hn
  exact ⟨a, hm.snapshot_key (n + 1)⟩

theorem Watched.length_le (hf : e.frontierAfter (n + 1) = .done) :
    (e.drain budget .fresh).result.length ≤ n + 1 := by
  by_contra hlt
  have ht := List.getElem?_eq_getElem (not_le.1 hlt)
  obtain ⟨a, ha⟩ := h.exists_key (List.mem_of_getElem? ht)
  rw [drain_key_succ h.unstarted ht, hf] at ha
  cases ha

theorem Watched.opens_zero (ht : (e.drain budget .fresh).result[0]? = some t) {j : ℕ}
    (hj : j < rs.length) : t.opens j = true := by
  obtain ⟨d, d', a, hd, -, hsync, hm, rfl⟩ := h.step_moves ht
  obtain ⟨l, x, b, hl, hx, hopen, -⟩ := hm.snapshot_edges hj 1
  rw [hsync] at hl
  rw [hopen]
  exact h.last_of_after_zero hd l (List.mem_of_getElem? hl) x hx

theorem Watched.opens_succ (ht : (e.drain budget .fresh).result[n]? = some t)
    (hu : (e.drain budget .fresh).result[n + 1]? = some u) {j : ℕ} (hj : j < rs.length) :
    u.opens j = t.closes j := by
  obtain ⟨d, d', a, -, hd', hsync, hm, rfl⟩ := h.step_moves ht
  obtain ⟨c, c', a', hc, -, hsync', hm', rfl⟩ := h.step_moves hu
  obtain rfl : d' = c := Option.some.inj (hd'.symm.trans hc)
  obtain ⟨l, x, b, hl, -, -, hclose, hxb, -⟩ := hm.snapshot_edges hj (n + 1)
  obtain ⟨l', x', b', hl', hx', hopen, -⟩ := hm'.snapshot_edges hj (n + 1 + 1)
  -- both edges are read off the same rupture
  rw [hsync] at hl
  rw [hsync'] at hl'
  obtain rfl : l = l' := Option.some.inj (hl.symm.trans hl')
  obtain rfl : x.moved b = x' := Option.some.inj (hxb.symm.trans hx')
  rw [hopen, hclose]
  rfl

theorem Watched.closes_iff (ht : (e.drain budget .fresh).result[n]? = some t) {j : ℕ}
    (hj : j < rs.length) : t.closes j = true ↔ e.frontierAfter (n + 1) = .done ∨
      ∃ r ∈ rs.take (j + 1), r.Parts t.key (e.frontierAfter (n + 1)) := by
  obtain ⟨d, d', a, -, -, -, hm, rfl⟩ := h.step_moves ht
  obtain ⟨l, x, b, -, -, -, hclose, -, hiff⟩ := hm.snapshot_edges hj (n + 1)
  rw [hclose, hm.snapshot_key]
  exact hiff

/-- A step that closes a group closes one of every rupture that is registered later. -/
theorem Watched.closes_mono (ht : t ∈ (e.drain budget .fresh).result) {i j : ℕ} (hij : i ≤ j)
    (hj : j < rs.length) (hc : t.closes i = true) : t.closes j = true := by
  obtain ⟨n, hn⟩ := List.mem_iff_getElem?.1 ht
  rw [h.closes_iff hn hj]
  refine ((h.closes_iff hn (lt_of_le_of_lt hij hj)).1 hc).imp_right fun ⟨r, hr, hp⟩ => ⟨r, ?_, hp⟩
  exact (List.take_prefix_take_left (Nat.succ_le_succ hij)).subset hr

theorem Watched.bracketed (budget : ℕ) :
    Bracketed rs (e.drain budget .fresh).result (fun n => e.frontierAfter (n + 1)) where
  key := fun t ht => h.exists_key ht
  key_succ := fun n t ht => drain_key_succ h.unstarted ht
  final := fun n hf => h.length_le hf
  edges_length := by
    intro t ht
    obtain ⟨n, hn⟩ := List.mem_iff_getElem?.1 ht
    obtain ⟨d, d', a, -, -, -, hm, rfl⟩ := h.step_moves hn
    exact hm.watches.edges_length (n + 1)
  opens_zero := fun t ht j hj => h.opens_zero ht hj
  opens_succ := fun n t u ht hu j hj => h.opens_succ ht hu hj
  closes_iff := fun n t ht j hj => h.closes_iff ht hj
  nested := fun i j hij hj m n =>
    Step.group_eq_of_group_eq fun t ht => h.closes_mono ht hij hj

/-- After a step that has found the mark every rupture has its last edge set. -/
theorem Watched.last_of_frontierAfter (hd : e.after (n + 1) = some d)
    (hf : e.frontierAfter (n + 1) = .done) :
    ∀ j ∈ e.sync.ruptures, ∃ x, d.pool.ruptures[j]? = some x ∧ x.last = true := by
  obtain ⟨c, a, -, hsync, hm⟩ := h.after_moves hd
  intro j hj
  obtain ⟨i, hi⟩ := List.mem_iff_getElem?.1 hj
  have hlt : i < rs.length := h.ruptures.length_eq ▸ (List.getElem?_eq_some_iff.1 hi).1
  obtain ⟨l, x, b, hl, -, hb, hiff⟩ := hm.moved i hlt
  rw [hsync] at hl
  obtain rfl : j = l := Option.some.inj (hi.symm.trans hl)
  exact ⟨x.moved b, hb, hiff.2 (Or.inl hf)⟩

end Watched

/-- **The edges of the ruptures are brackets.**  Whatever the sources, keys, extractors and gates
are, fresh ruptures open their groups at the first step and after each step that closes one; a step
closes a group if it is the last one or if a rupture registered no later parts its key from the next
one; and the groups of a rupture lie inside those of the ruptures registered before it.  When a run
of at least one step has come to its end, every rupture has closed its last group. -/
theorem drain_bracketed (h : e.Watched rs) (budget : ℕ) :
    let r := e.drain budget .fresh
    Bracketed rs r.result (fun n => e.frontierAfter (n + 1)) ∧
      (r.ended = true → r.outcome = .ok () → r.result ≠ [] →
        e.frontierAfter r.result.length = .done ∧
        ∀ j ∈ e.sync.ruptures, ∃ x, r.engine.pool.ruptures[j]? = some x ∧ x.last = true) := by
  intro r
  refine ⟨h.bracketed budget, fun hended hok hne => ?_⟩
  have hf := frontierAfter_length h.unstarted hended hok hne
  obtain ⟨hd, -⟩ := drain_finished h.unstarted hended hok
  refine ⟨hf, ?_⟩
  obtain ⟨n, hn⟩ := Nat.exists_eq_succ_of_ne_zero (mt List.length_eq_zero_iff.1 hne)
  rw [hn] at hd hf
  exact h.last_of_frontierAfter hd hf

theorem watched_ofLists (ss : List (Supply ρ)) {rs : List (Rupture Text)}
    (h : ∀ r ∈ rs, ∃ name extract, r = .fresh name extract) : (ofLists ss rs).Watched rs where
  unstarted := rfl
  ruptures_nodup := List.nodup_range
  ruptures := by
    refine List.forall₂_iff_get.2 ⟨List.length_range, fun i hi hr => ?_⟩
    simp [ofLists, hr]
  fresh := h

/-- The ruptures of the first letter and of the first two, the second one behind a master list. -/
theorem drain_bracketed_letters :
    let ss : List (Supply Text) := [.ofList [['a', 'x'], ['a', 'y'], ['b', 'y']] id none,
      .ofList [['a', 'x'], ['b', 'y']] id (some 1)]
    let rs := [.fresh ['o'] (Rupture.leading 1), .fresh ['i'] (Rupture.leading 2)]
    let e := ofLists ss rs
    e.Watched rs ∧
      Bracketed rs (e.drain 10 .fresh).result (fun n => e.frontierAfter (n + 1)) ∧
      (e.drain 10 .fresh).result.length = 3 ∧
      ∀ j ∈ e.sync.ruptures, ∃ x, (e.drain 10 .fresh).engine.pool.ruptures[j]? = some x ∧
        x.last = true := by
  intro ss rs e
  have hw : e.Watched rs := watched_ofLists ss (by simp [rs])
  obtain ⟨hb, hlast⟩ := drain_bracketed hw 10
  exact ⟨hw, hb, by decide +kernel,
    (hlast (by decide +kernel) (by decide +kernel) (by decide +kernel)).2⟩

end Engine

end Lockstep
