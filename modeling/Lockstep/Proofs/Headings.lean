import Mathlib.Data.ENat.Basic
import Mathlib.Data.Finset.Card
import Lockstep.Proofs.Brackets
import Lockstep.Proofs.Engine.Intake
import Lockstep.Proofs.Frontier

/-!
# Headings

Ruptures that watch the first characters of a key, each no fewer of them than the ruptures in front,
never have to be forced: where a shorter heading changes the longer one does as well.  So every
rupture finds its last edge by itself, in any run (`closes_iff_heading`).

In a run over ungated sources in order the keys do not decrease, and a heading does not come back
once it is gone.  When the run has come to its end, the groups of a rupture are the headings: it has
closed as many groups as there are different headings, and the steps with one heading follow one
upon the other, the first opening the group and the last closing it.  This is `drain_headings`.
-/

namespace Lockstep

variable {ρ : Type}

namespace Frontier

/-- The first `w` characters of a frontier, all of it if there is no bound. -/
def heading (w : ℕ∞) (f : Frontier Text) : Frontier Text :=
  match w with
  | ⊤ => f
  | (n : ℕ) => cut n f

@[simp] theorem heading_top (f : Frontier Text) : heading ⊤ f = f := rfl

@[simp] theorem heading_coe (n : ℕ) (f : Frontier Text) : heading n f = cut n f := rfl

theorem heading_mono (w : ℕ∞) {a b : Frontier Text} (h : a ≤ b) : heading w a ≤ heading w b := by
  cases w using ENat.recTopCoe with
  | top => exact h
  | coe n => exact cut_mono n h

/-- The heading of a longer heading. -/
theorem heading_heading {v w : ℕ∞} (h : v ≤ w) (f : Frontier Text) :
    heading v (heading w f) = heading v f := by
  cases w using ENat.recTopCoe with
  | top => rfl
  | coe n =>
    cases v using ENat.recTopCoe with
    | top => exact absurd h (by simp)
    | coe m => exact cut_cut (by exact_mod_cast h) f

theorem heading_key_ne_done (w : ℕ∞) (k : Text) : heading w (.key k) ≠ heading w .done := by
  cases w using ENat.recTopCoe <;> simp [cut]

end Frontier

namespace Rupture

/-- The first `w` characters make the group, the whole key if there is no bound. -/
def heading (w : ℕ∞) : Text → Except Fault Text :=
  match w with
  | ⊤ => whole
  | (n : ℕ) => leading n

/-- What makes the group of a key is its heading. -/
theorem exists_heading (w : ℕ∞) (k : Text) :
    ∃ a, heading w k = .ok a ∧ (Frontier.key k).heading w = .key a := by
  cases w using ENat.recTopCoe with
  | top => exact ⟨k, rfl, rfl⟩
  | coe n => exact ⟨k.take n, rfl, rfl⟩

theorem breaks_heading {r : Rupture Text} {w : ℕ∞} (h : r.extract = heading w) (k : Text)
    (f : Frontier Text) :
    r.breaks (.key k) f = .ok (decide ((Frontier.key k).heading w ≠ f.heading w)) := by
  cases w using ENat.recTopCoe with
  | coe n => exact breaks_leading h k f
  | top =>
    have hx : r.extract = whole := h
    cases f with
    | key a => simp [breaks, changes, hx, whole, SyncKey.same, beq_eq_decide]
    | done => simp [breaks]

end Rupture

/-! ### Groups of a run -/

namespace Step

variable {j : ℕ} {w : ℕ∞} {v : Frontier Text} {ts : List (Step ρ Text)}

/-- Rupture `j` watches the first `w` characters of the keys of these steps, which do not decrease:
it closes a group where the heading changes and at the last step, and opens one at the first step
and after each step that closes one. -/
structure Groups (j : ℕ) (w : ℕ∞) (ts : List (Step ρ Text)) : Prop where
  sorted : (ts.map fun t => t.key.heading w).Pairwise (· ≤ ·)
  opens_zero : ∀ t, ts[0]? = some t → t.opens j = true
  opens_succ : ∀ n t u, ts[n]? = some t → ts[n + 1]? = some u → u.opens j = t.closes j
  closes_iff : ∀ n t u, ts[n]? = some t → ts[n + 1]? = some u →
    (t.closes j = true ↔ t.key.heading w ≠ u.key.heading w)
  closes_last : ∀ t, ts.getLast? = some t → t.closes j = true

/-- The steps from `m` to `n` are those with this heading; the first one of them and no other opens
a group of rupture `j`, and the last one and no other closes it. -/
structure Block (j : ℕ) (w : ℕ∞) (v : Frontier Text) (ts : List (Step ρ Text)) (m n : ℕ) :
    Prop where
  le : m ≤ n
  lt_length : n < ts.length
  heading_iff : ∀ i t, ts[i]? = some t → (t.key.heading w = v ↔ m ≤ i ∧ i ≤ n)
  opens_iff : ∀ i t, ts[i]? = some t → m ≤ i → i ≤ n → (t.opens j = true ↔ i = m)
  closes_iff : ∀ i t, ts[i]? = some t → m ≤ i → i ≤ n → (t.closes j = true ↔ i = n)

/-- As many groups are closed as there are different headings. -/
theorem countP_closes (hs : (ts.map fun t => t.key.heading w).Pairwise (· ≤ ·))
    (hc : ∀ n t u, ts[n]? = some t → ts[n + 1]? = some u →
      (t.closes j = true ↔ t.key.heading w ≠ u.key.heading w))
    (hl : ∀ t, ts.getLast? = some t → t.closes j = true) :
    ts.countP (closes j) = (ts.map fun t => t.key.heading w).toFinset.card := by
  induction ts with
  | nil => rfl
  | cons t ts ih =>
    obtain ⟨hle, hs⟩ := List.pairwise_cons.1 hs
    cases ts with
    | nil => simp [hl t rfl]
    | cons u ts =>
      have ih := ih hs (fun n => hc (n + 1)) fun x hx => hl x (by simpa using hx)
      have htu := hc 0 t u rfl rfl
      have hset : ((t :: u :: ts).map fun t => t.key.heading w).toFinset =
          insert (t.key.heading w) ((u :: ts).map fun t => t.key.heading w).toFinset :=
        List.toFinset_cons
      rw [List.countP_cons, ih, hset]
      by_cases heq : t.key.heading w = u.key.heading w
      · have hmem : t.key.heading w ∈ ((u :: ts).map fun t => t.key.heading w).toFinset := by
          simp [heq]
        rw [Finset.insert_eq_of_mem hmem, if_neg (by simpa using mt htu.1 (not_not_intro heq)),
          Nat.add_zero]
      · -- the heading is lower than that of the next step, and those are in order
        have hlt : t.key.heading w < u.key.heading w :=
          lt_of_le_of_ne (hle _ (List.mem_cons_self)) heq
        have hmem : t.key.heading w ∉ ((u :: ts).map fun t => t.key.heading w).toFinset := by
          intro hmem
          have hu : u.key.heading w ≤ t.key.heading w := by
            rcases List.mem_cons.1 (List.mem_toFinset.1 hmem) with h | h
            · exact h.ge
            · exact (List.pairwise_cons.1 hs).1 _ h
          exact absurd hlt (not_lt.2 hu)
        rw [Finset.card_insert_of_notMem hmem, if_pos (htu.2 heq)]

namespace Groups

variable (h : Groups j w ts) {i k : ℕ} {t u : Step ρ Text}

include h

theorem heading_le (hi : ts[i]? = some t) (hk : ts[k]? = some u) (hik : i ≤ k) :
    t.key.heading w ≤ u.key.heading w := by
  rcases hik.eq_or_lt with rfl | hlt
  · rw [Option.some.inj (hi.symm.trans hk)]
  · obtain ⟨hi', rfl⟩ := List.getElem?_eq_some_iff.1 hi
    obtain ⟨hk', rfl⟩ := List.getElem?_eq_some_iff.1 hk
    have hp := List.pairwise_iff_getElem.1 h.sorted i k (by simpa using hi') (by simpa using hk')
      hlt
    simpa using hp

/-- A group is opened where the heading is another one than before. -/
theorem opens_iff (hi : ts[i]? = some t) (hk : ts[i + 1]? = some u) :
    u.opens j = true ↔ t.key.heading w ≠ u.key.heading w := by
  rw [h.opens_succ i t u hi hk]
  exact h.closes_iff i t u hi hk

/-- The steps with the heading of a step follow one upon the other. -/
theorem exists_block (ht : t ∈ ts) : ∃ m n, Block j w (t.key.heading w) ts m n := by
  classical
  let P : ℕ → Prop := fun i => ∃ u, ts[i]? = some u ∧ u.key.heading w = t.key.heading w
  have hex : ∃ i, P i := by
    obtain ⟨i, hi⟩ := List.mem_iff_getElem?.1 ht
    exact ⟨i, t, hi, rfl⟩
  have hlt : ∀ {i}, P i → i < ts.length := fun ⟨u, hu, _⟩ => (List.getElem?_eq_some_iff.1 hu).1
  -- the first and the last step with the heading
  obtain ⟨m, ⟨x, hx, hxv⟩, hmin⟩ : ∃ m, P m ∧ ∀ i, P i → m ≤ i :=
    ⟨Nat.find hex, Nat.find_spec hex, fun i hi => Nat.find_min' hex hi⟩
  obtain ⟨n, ⟨y, hy, hyv⟩, hmax⟩ : ∃ n, P n ∧ ∀ i, P i → i ≤ n := by
    obtain ⟨i, hi⟩ := hex
    exact ⟨Nat.findGreatest P ts.length, Nat.findGreatest_spec (hlt hi).le hi,
      fun k hk => Nat.le_findGreatest (hlt hk).le hk⟩
  have hiff : ∀ i u, ts[i]? = some u →
      (u.key.heading w = t.key.heading w ↔ m ≤ i ∧ i ≤ n) := by
    refine fun i u hu => ⟨fun hv => ⟨hmin i ⟨u, hu, hv⟩, hmax i ⟨u, hu, hv⟩⟩, fun ⟨hmi, hin⟩ => ?_⟩
    exact le_antisymm (hyv ▸ h.heading_le hu hy hin) (hxv ▸ h.heading_le hx hu hmi)
  refine ⟨m, n, hmin n ⟨y, hy, hyv⟩, hlt ⟨y, hy, hyv⟩, hiff, ?_, ?_⟩
  · intro i u hu hmi hin
    have hv := (hiff i u hu).2 ⟨hmi, hin⟩
    cases i with
    | zero => exact ⟨fun _ => by omega, fun _ => h.opens_zero u hu⟩
    | succ i =>
      have hi := (List.getElem?_eq_some_iff.1 hu).1
      have hb := List.getElem?_eq_getElem (Nat.lt_of_succ_lt hi)
      rw [h.opens_iff hb hu, hv, Ne, hiff i _ hb]
      omega
  · intro i u hu hmi hin
    have hv := (hiff i u hu).2 ⟨hmi, hin⟩
    cases hb : ts[i + 1]? with
    | none =>
      have hlast : i + 1 = ts.length := by
        have hi := (List.getElem?_eq_some_iff.1 hu).1
        have := List.getElem?_eq_none_iff.1 hb
        omega
      have hn := hlt ⟨y, hy, hyv⟩
      refine ⟨fun _ => by omega, fun _ => h.closes_last u ?_⟩
      rw [List.getLast?_eq_getElem?, ← hlast]
      exact hu
    | some b =>
      have hbv := hiff (i + 1) b hb
      rw [h.closes_iff i u b hu hb, hv, ne_comm, Ne, hbv]
      omega

end Groups

end Step

/-! ### Runs -/

namespace Engine

variable {e : Engine ρ Text} {ws : List (Text × ℕ∞)} {budget n j : ℕ} {t : Step ρ Text}
  {w : Text × ℕ∞}

/-- Fresh ruptures with these names that watch so many of the first characters. -/
def headings (ws : List (Text × ℕ∞)) : List (Rupture Text) :=
  ws.map fun w => .fresh w.1 (Rupture.heading w.2)

/-- A rupture in front watches no more characters. -/
theorem mem_take_headings (hws : (ws.map (·.2)).Pairwise (· ≤ ·)) (hj : ws[j]? = some w)
    {r : Rupture Text} (hr : r ∈ (headings ws).take (j + 1)) :
    ∃ v : Text × ℕ∞, v.2 ≤ w.2 ∧ r = .fresh v.1 (Rupture.heading v.2) := by
  obtain ⟨i, hi⟩ := List.mem_iff_getElem?.1 hr
  rw [headings, ← List.map_take, List.getElem?_map, Option.map_eq_some_iff] at hi
  obtain ⟨v, hv, rfl⟩ := hi
  rw [List.getElem?_take, Option.ite_none_right_eq_some] at hv
  obtain ⟨hij, hi⟩ := hv
  refine ⟨v, ?_, rfl⟩
  rcases (Nat.le_of_lt_succ hij).eq_or_lt with rfl | hlt
  · rw [Option.some.inj (hi.symm.trans hj)]
  · obtain ⟨hi', rfl⟩ := List.getElem?_eq_some_iff.1 hi
    obtain ⟨hj', rfl⟩ := List.getElem?_eq_some_iff.1 hj
    have hp := List.pairwise_iff_getElem.1 hws i j (by simpa using hi') (by simpa using hj') hlt
    simpa using hp

variable (h : e.Watched (headings ws)) (hws : (ws.map (·.2)).Pairwise (· ≤ ·))

include h hws

/-- A rupture closes a group where its own heading changes. -/
theorem closes_iff_heading (ht : (e.drain budget .fresh).result[n]? = some t)
    (hj : ws[j]? = some w) :
    t.closes j = true ↔ t.key.heading w.2 ≠ (e.frontierAfter (n + 1)).heading w.2 := by
  obtain ⟨a, ha⟩ := h.exists_key (List.mem_of_getElem? ht)
  have hlt : j < ws.length := (List.getElem?_eq_some_iff.1 hj).1
  rw [h.closes_iff ht (by simpa [headings] using hlt), ha]
  generalize e.frontierAfter (n + 1) = f
  constructor
  · rintro (rfl | ⟨r, hr, hp⟩)
    · exact Frontier.heading_key_ne_done w.2 a
    · obtain ⟨v, hvw, rfl⟩ := mem_take_headings hws hj hr
      have hb := Rupture.breaks_eq_true.2 (.inr hp)
      rw [Rupture.breaks_heading rfl] at hb
      have hne := of_decide_eq_true (Except.ok.inj hb)
      intro heq
      apply hne
      rw [← Frontier.heading_heading hvw, heq, Frontier.heading_heading hvw]
  · intro hne
    refine (Rupture.breaks_eq_true (r := .fresh w.1 (Rupture.heading w.2))).1 ?_ |>.imp_right
      fun hp => ⟨_, ?_, hp⟩
    · rw [Rupture.breaks_heading rfl, decide_eq_true hne]
    · refine List.mem_iff_getElem?.2 ⟨j, ?_⟩
      rw [List.getElem?_take_of_lt (Nat.lt_succ_self j), headings, List.getElem?_map, hj]
      rfl

/-- A rupture that is not forced finds the same last edge. -/
theorem compute_unforced_eq (ht : (e.drain budget .fresh).result[n]? = some t)
    (hj : ws[j]? = some w) {x : Rupture Text} (hx : x.extract = Rupture.heading w.2) :
    (x.compute t.key (e.frontierAfter (n + 1)) false).2 = .ok (t.closes j) := by
  have hiff := closes_iff_heading h hws ht hj
  obtain ⟨a, ha⟩ := h.exists_key (List.mem_of_getElem? ht)
  rw [Rupture.compute_outcome, if_neg Bool.false_ne_true, ha, Rupture.breaks_heading hx, ← ha]
  rw [Bool.decide_congr hiff.symm, Bool.decide_eq_true]

/-- In a run over ungated sources in order that has come to its end the groups are the headings. -/
theorem groups_of_ended {intake : ℕ → Intake ρ} (hf : e.Fed intake)
    (hg : ∀ i ∈ e.sync.sources, (intake i).gate = none)
    (hs : ∀ i ∈ e.sync.sources,
      ((intake i).supply.records.map (intake i).supply.key).Pairwise (· ≤ ·))
    (hended : (e.drain budget .fresh).ended = true)
    (hok : (e.drain budget .fresh).outcome = .ok ()) (hj : ws[j]? = some w) :
    Step.Groups j w.2 (e.drain budget .fresh).result := by
  have hlt : j < (headings ws).length := by
    simpa [headings] using (List.getElem?_eq_some_iff.1 hj).1
  have hkeys : ((e.drain budget .fresh).result.map (·.key)).Pairwise (· ≤ ·) := by
    have hp := pairwise_key_of_ungated hf.prepared_lists (List.forall_mem_map.2 hg)
      (List.forall_mem_map.2 hs) budget
    rwa [hf.drain_lists hok] at hp
  refine ⟨?_, fun t ht => h.opens_zero ht hlt, fun n t u ht hu => h.opens_succ ht hu hlt,
    fun n t u ht hu => ?_, fun t ht => ?_⟩
  · rw [List.pairwise_map] at hkeys ⊢
    exact hkeys.imp fun hle => Frontier.heading_mono w.2 hle
  · rw [closes_iff_heading h hws ht hj, drain_key_succ h.unstarted hu]
  · have hne : (e.drain budget .fresh).result ≠ [] := fun hnil => by simp [hnil] at ht
    rw [List.getLast?_eq_getElem?] at ht
    obtain ⟨a, ha⟩ := h.exists_key (List.mem_of_getElem? ht)
    have hend := frontierAfter_length h.unstarted hended hok hne
    rw [← Nat.sub_add_cancel (List.length_pos_iff.2 hne)] at hend
    rw [closes_iff_heading h hws ht hj, hend, ha]
    exact Frontier.heading_key_ne_done w.2 a

/-- **Headings.**  The ruptures are fresh and watch the first characters of the keys, each no fewer
than those in front.  Whatever the sources are, at every step each of them finds the last edge that
it finds without being forced.  If the sources are ungated and in order and the run has come to its
end, a rupture has closed as many groups as there are different headings, and the steps with the
heading of a step are a block that begins with the first edge and ends with the last edge. -/
theorem drain_headings (budget : ℕ) :
    let r := e.drain budget .fresh
    (∀ n t, r.result[n]? = some t → ∀ j w, ws[j]? = some w →
      ∀ x : Rupture Text, x.extract = Rupture.heading w.2 →
        (x.compute t.key (e.frontierAfter (n + 1)) false).2 = .ok (t.closes j)) ∧
    ∀ intake : ℕ → Intake ρ, e.Fed intake → (∀ i ∈ e.sync.sources, (intake i).gate = none) →
      (∀ i ∈ e.sync.sources,
        ((intake i).supply.records.map (intake i).supply.key).Pairwise (· ≤ ·)) →
      r.ended = true → r.outcome = .ok () → ∀ j w, ws[j]? = some w →
        r.result.countP (Step.closes j) =
          (r.result.map fun t => t.key.heading w.2).toFinset.card ∧
        ∀ t ∈ r.result, ∃ m n, Step.Block j w.2 (t.key.heading w.2) r.result m n := by
  intro r
  refine ⟨fun n t ht j w hj x hx => compute_unforced_eq h hws ht hj hx, ?_⟩
  intro intake hf hg hs hended hok j w hj
  have hgroups := groups_of_ended h hws hf hg hs hended hok hj
  exact ⟨Step.countP_closes hgroups.sorted hgroups.closes_iff hgroups.closes_last,
    fun t ht => hgroups.exists_block ht⟩

omit h hws in
/-- The first letter, the first two letters and the whole of keys of one to three letters. -/
theorem drain_headings_letters :
    let intake (n : ℕ) : Intake Text :=
      ⟨if n = 0 then .ofList [['a', 'x', '1'], ['a', 'y'], ['b']] else .ofList [['a', 'x'], ['b']],
        .ok, none⟩
    let ws : List (Text × ℕ∞) := [(['o'], 1), (['t'], 2), (['w'], ⊤)]
    let e : Engine Text Text := ⟨⟨[(intake 0).fresh, (intake 1).fresh], headings ws⟩,
      ⟨[0, 1], [0, 1, 2], false, none, none⟩⟩
    let ts := (e.drain 10 .fresh).result
    e.Watched (headings ws) ∧ e.Fed intake ∧
      ts.countP (Step.closes 1) = (ts.map fun t => t.key.heading 2).toFinset.card ∧
      (∀ t ∈ ts, ∃ m n, Step.Block 1 2 (t.key.heading 2) ts m n) ∧ ts.length = 3 := by
  intro intake ws e ts
  have h : e.Watched (headings ws) := {
    unstarted := rfl
    ruptures_nodup := by decide
    ruptures := .cons rfl (.cons rfl (.cons rfl .nil))
    fresh := by
      intro r hr
      obtain ⟨w, -, rfl⟩ := List.mem_map.1 hr
      exact ⟨_, _, rfl⟩ }
  have hf : e.Fed intake := {
    unstarted := rfl
    nextKey := rfl
    sources := by
      intro n s hs
      rcases n with _ | _ | n
      · exact (Option.some.inj hs).symm
      · exact (Option.some.inj hs).symm
      · cases hs
    sources_nodup := by decide
    sources_lt := by decide
    ruptures_nodup := by decide
    ruptures_lt := by decide
    gates := fun n _ j hj => by cases hj
    total := by
      rintro f ⟨j, -, r, hr, k, hk⟩
      obtain ⟨w, -, rfl⟩ := List.mem_map.1 (List.mem_of_getElem? hr)
      obtain ⟨a, ha, -⟩ := Rupture.exists_heading w.2 k
      cases ha.symm.trans hk }
  have hws : (ws.map (·.2)).Pairwise (· ≤ ·) := by simp [ws]
  obtain ⟨-, hrun⟩ := drain_headings h hws 10
  obtain ⟨hcount, hblock⟩ := hrun intake hf (fun _ _ => rfl) (by decide) (by decide +kernel)
    (by decide +kernel) 1 (['t'], 2) rfl
  exact ⟨h, hf, hcount, hblock, by decide +kernel⟩

end Engine

end Lockstep
