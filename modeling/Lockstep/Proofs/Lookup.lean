import Lockstep.Proofs.Engine.Group

/-!
# Masters are looked up

In a run over details and masters without repeated keys, every step that presents a record of a
detail shows beside it, for each master, the record of its group: the master is synchronized
exactly if it has a record whose key is the first `w` characters of the detail's key, and then it
shows this record.  The keys of the steps do not decrease.  This is `drain_lookup`.

A master shows the record of a group in time because it is never ahead: the records that it has
gone past belong to groups before the next step (`Lane.Passed`).
-/

namespace Lockstep

variable {ρ : Type}

namespace Step

/-- The step looks the key `p` up in source `g`: it is synchronized exactly if it has a record with
this key, and then the step shows it. -/
structure LooksUp (t : Step ρ Text) (g : ℕ) (s : Supply ρ) (p : Text) : Prop where
  synchronized_iff : t.isSynchronized g = true ↔ ∃ r ∈ s.records, s.key r = p
  row : ∀ r ∈ s.records, s.key r = p → t.row[g]? = some (some r)

/-- Where the step presents a record of an ungated source, it looks the first `w` characters of its
key up in every source behind rupture `j`. -/
def Joins (t : Step ρ Text) (ss : List (Supply ρ)) (w j : ℕ) : Prop :=
  ∀ i s, ss[i]? = some s → s.gate = none → t.isSynchronized i = true →
    ∃ r ∈ s.records, t.row[i]? = some (some r) ∧
      ∀ g m, ss[g]? = some m → m.gate = some j → t.LooksUp g m ((s.key r).take w)

end Step

namespace Lane

variable {l : Lane ρ} {w j : ℕ} {f : Frontier Text} {isOpen : Option ℕ → Bool} {k : Text}

/-- The records before the one that is current after the next read belong to groups before `f`. -/
def Passed (l : Lane ρ) (w : ℕ) (f : Frontier Text) (isOpen : Option ℕ → Bool) : Prop :=
  ∀ q, q + 1 < l.advance isOpen → l.keyAt q < f.cut w

theorem passed_primed {s : Supply ρ} (h : isOpen s.gate = true) :
    (primed s).Passed w f isOpen := by
  intro q hq
  rw [advance_eq_succ (Or.inr h)] at hq
  exact absurd hq (by simp [coming, primed])

/-- A record of the group of the step is the one that a master shows. -/
theorem Passed.turn_of_mem (hp : l.Passed w (.key k) isOpen) (h : l.Kept w (.key k) isOpen)
    (hs : (l.records.map l.key).Pairwise (· < ·)) (hf : .key k ≤ l.candidate) {r : ρ}
    (hr : r ∈ l.records) (hrk : l.key r = k.take w) :
    (l.turn isOpen k).current = some r ∧ (l.turn isOpen k).head = Frontier.cut w (.key k) := by
  obtain ⟨q, hq⟩ := List.mem_iff_getElem?.1 hr
  have hadv := h.advance_of_get hs hf hq hrk (hp q)
  refine ⟨(current_turn hadv k).trans hq, (head_turn hadv k).trans ?_⟩
  rw [l.keyAt_of_get hq, hrk]
  rfl

end Lane

namespace Engine

variable {e d d' : Engine ρ Text} {ss : List (Supply ρ)} {ls : List (Lane ρ)} {w j : ℕ} {k : Text}

namespace Turns

variable (t : d.Turns w j ls k d')

include t

theorem passed_turn {l : Lane ρ} (hl : l ∈ ls) (hm : l.toSupply.Master w j)
    (hp : l.Passed w (.key k) d.opens) :
    (l.turn d.opens k).Passed w (Lane.frontier (Lane.turnAll d.opens k ls)) d'.opens := by
  intro q hq
  rcases lt_or_ge (q + 1) (l.advance d.opens) with hlt | hge
  · exact lt_of_lt_of_le (hp q hlt) t.cut_le_frontier
  · obtain ⟨-, -, hkey, hnext⟩ := t.goes_on hl hm hge hq
    exact hkey.trans_lt hnext

theorem looksUp {g : ℕ} {l : Lane ρ} (hl : ls[g]? = some l) (hm : l.toSupply.Master w j)
    (hs : (l.records.map l.key).Pairwise (· < ·)) (hp : l.Passed w (.key k) d.opens) (n : ℕ) :
    (d'.snapshot n).LooksUp g l.toSupply (k.take w) := by
  have hmem := List.mem_of_getElem? hl
  have hcur := fun r hr => hp.turn_of_mem (t.kept l hmem) hs (t.le_candidate hmem) (r := r) hr
  have hsync := (t.kept l hmem).synchronized_turn_iff hm t.le_length
  constructor
  · rw [turn_isSynchronized t.stages t.frontier t.turn n hl, hsync]
    constructor
    · intro hh
      obtain ⟨p, hadv⟩ := (t.kept l hmem).exists_advance
      rw [Lane.head_turn hadv] at hh
      obtain ⟨r, hr, hrk⟩ := Supply.mem_of_keyAt_eq hh
      exact ⟨r, List.mem_of_getElem? hr, hrk⟩
    · rintro ⟨r, hr, hrk⟩
      exact (hcur r hr hrk).2
  · intro r hr hrk
    rw [turn_row t.stages t.frontier t.turn n hl, (hcur r hr hrk).1]

/-- A step that presents a record of a detail has a key of the group of this record. -/
theorem exists_detail {i : ℕ} {l : Lane ρ} (hl : ls[i]? = some l) (hd : l.toSupply.Detail w)
    {n : ℕ} (hs : (d'.snapshot n).isSynchronized i = true) :
    ∃ r ∈ l.records, (d'.snapshot n).row[i]? = some (some r) ∧ (l.key r).take w = k.take w := by
  have hmem := List.mem_of_getElem? hl
  rw [turn_isSynchronized t.stages t.frontier t.turn n hl] at hs
  obtain ⟨p, hadv⟩ := (t.kept l hmem).exists_advance
  obtain ⟨r, hcur, hhead⟩ := Lane.exists_record_of_agrees (l := l.turn _ k)
    (t.kept l hmem).advance_pos hs
  rw [Lane.turn_synchronized, hhead] at hs
  have hr : r ∈ l.records := by
    rw [Lane.current_turn hadv] at hcur
    exact List.mem_of_getElem? hcur
  refine ⟨r, hr, ?_, Text.take_eq_of_agree hs (hd.length r hr) t.le_length⟩
  rw [turn_row t.stages t.frontier t.turn n hl, hcur]

/-- What a turn shows joins the masters to the details. -/
theorem joins (hss : ls.map Lane.toSupply = ss)
    (hst : ∀ l ∈ ls, l.gate = some j → (l.records.map l.key).Pairwise (· < ·))
    (hp : ∀ l ∈ ls, l.gate = some j → l.Passed w (.key k) d.opens) (n : ℕ) :
    (d'.snapshot n).Joins ss w j := by
  intro i s hs hg hsync
  rw [← hss, List.getElem?_map] at hs
  obtain ⟨l, hl, rfl⟩ := Option.map_eq_some_iff.1 hs
  have hd : l.toSupply.Detail w := by
    rcases t.supplies l (List.mem_of_getElem? hl) with hd | hm
    · exact hd
    · cases hm.gate.symm.trans hg
  obtain ⟨r, hr, hrow, hrk⟩ := t.exists_detail hl hd hsync
  refine ⟨r, hr, hrow, fun g m hm hmg => ?_⟩
  rw [← hss, List.getElem?_map] at hm
  obtain ⟨c, hc, rfl⟩ := Option.map_eq_some_iff.1 hm
  have hmem := List.mem_of_getElem? hc
  rw [hrk]
  exact t.looksUp hc (t.master_of_gate hmem hmg) (hst c hmem hmg) (hp c hmem hmg) n

end Turns

/-- The steps of a run so far join the masters to the details, and their keys do not decrease. -/
structure Joined (ts : List (Step ρ Text)) (ss : List (Supply ρ)) (w j : ℕ) : Prop where
  sorted : (ts.map (·.key)).Pairwise (· ≤ ·)
  joins : ∀ t ∈ ts, t.Joins ss w j

theorem Joined.concat {ts : List (Step ρ Text)} {t : Step ρ Text} (h : Joined ts ss w j)
    (hle : ∀ u ∈ ts, u.key ≤ t.key) (ht : t.Joins ss w j) : Joined (ts ++ [t]) ss w j where
  sorted := by
    rw [List.map_append, List.pairwise_append]
    refine ⟨h.sorted, by simp, ?_⟩
    intro a ha b hb
    obtain ⟨u, hu, rfl⟩ := List.mem_map.1 ha
    rw [List.map_singleton, List.mem_singleton] at hb
    exact hb ▸ hle u hu
  joins := by
    intro u hu
    rcases List.mem_append.1 hu with hu | hu
    · exact h.joins u hu
    · exact List.mem_singleton.1 hu ▸ ht

theorem joined_of_after (hl : e.Leads w j) (h : e.Prepared ss)
    (hss : ∀ s ∈ ss, s.Detail w ∨ s.Master w j)
    (hst : ∀ s ∈ ss, s.gate = some j → (s.records.map s.key).Pairwise (· < ·)) {n : ℕ}
    (hd : e.after n = some d) : Joined (e.drain n .fresh).result ss w j := by
  obtain ⟨ls, -, -, -, -, -, -, hm⟩ := hl.after_induction h hss (motive := fun n d ls =>
      (∀ l ∈ ls, l.gate = some j → l.Passed w (Lane.frontier ls) d.opens) ∧
      (∀ t ∈ (e.drain n .fresh).result, t.key ≤ Lane.frontier ls) ∧
      Joined (e.drain n .fresh).result ss w j)
    (by
      intro d hr
      refine ⟨?_, by simp [drain], ⟨by simp [drain], by simp [drain]⟩⟩
      rintro l hmem -
      obtain ⟨s, hs, rfl⟩ := List.mem_map.1 hmem
      rw [hr]
      exact Lane.passed_primed (hl.opens hss s hs))
    (by
      intro n d d' ls k hd' t hls hm
      obtain ⟨hp, hle, hj⟩ := hm
      have hlt : ∀ l ∈ ls, l.gate = some j → (l.records.map l.key).Pairwise (· < ·) := by
        intro l hmem hg
        exact hst l.toSupply (hls ▸ List.mem_map_of_mem hmem) hg
      rw [t.frontier] at hp hle
      have hkey := turn_key t.stages t.frontier t.turn (n + 1)
      have hnext := t.le_frontier fun l hmem hg m hm =>
        Supply.keyAt_strictMono (hlt l hmem hg) (Nat.lt_succ_self m) hm
      rw [drain_succ h.unstarted hd']
      refine ⟨?_, ?_, hj.concat (fun u hu => (hle u hu).trans hkey.ge) (t.joins hls hlt hp (n + 1))⟩
      · refine Lane.forall_mem_turnAll.2 fun l hmem hg => ?_
        exact t.passed_turn hmem (t.master_of_gate hmem hg) (hp l hmem hg)
      · intro u hu
        rcases List.mem_append.1 hu with hu | hu
        · exact (hle u hu).trans hnext
        · rw [List.mem_singleton.1 hu, hkey]
          exact hnext) hd
  exact hm

/-- **Masters are looked up.**  When the details are in order with keys of at least `w` characters,
and the masters, behind the rupture of the first `w` characters, have increasing keys of exactly `w`
characters, then the keys of the steps of a run do not decrease, and every step that presents a
record of a detail looks its group up in every master. -/
theorem drain_lookup (h : e.Prepared ss) (hl : e.Leads w j)
    (hss : ∀ s ∈ ss, s.Detail w ∨ s.Master w j)
    (hst : ∀ s ∈ ss, s.gate = some j → (s.records.map s.key).Pairwise (· < ·)) (budget : ℕ) :
    Joined (e.drain budget .fresh).result ss w j := by
  obtain ⟨n, d, hd, hres, -⟩ := h.drain_cases (hl.opens hss) budget
  rw [hres]
  exact joined_of_after hl h hss hst hd

/-- Two masters beside one list of details, each without a record for one of the groups. -/
theorem drain_lookup_two_masters :
    let ss : List (Supply Text) := [.ofList [['a', '1'], ['a', '2'], ['b', '1']] id none,
      .ofList [['a'], ['c']] id (some 0), .ofList [['b']] id (some 0)]
    let e := ofLists ss [.fresh ['g'] (Rupture.leading 1)]
    e.Prepared ss ∧ e.Leads 1 0 ∧ (∀ s ∈ ss, s.Detail 1 ∨ s.Master 1 0) ∧
      (∀ s ∈ ss, s.gate = some 0 → (s.records.map s.key).Pairwise (· < ·)) ∧
      Joined (e.drain 10 .fresh).result ss 1 0 ∧ (e.drain 10 .fresh).result.length = 4 := by
  intro ss e
  have hp : e.Prepared ss := prepared_ofLists ss _
  have hl : e.Leads 1 0 := leads_ofLists ss ['g'] 1 []
  have hss : ∀ s ∈ ss, s.Detail 1 ∨ s.Master 1 0 := by
    intro s hs
    rcases List.mem_cons.1 hs with rfl | hs
    · exact Or.inl ⟨rfl, by decide, by decide⟩
    · rcases List.mem_pair.1 hs with rfl | rfl
      · exact Or.inr ⟨rfl, by decide, by decide⟩
      · exact Or.inr ⟨rfl, by decide, by decide⟩
  have hst : ∀ s ∈ ss, s.gate = some 0 → (s.records.map s.key).Pairwise (· < ·) := by
    intro s hs hg
    rcases List.mem_cons.1 hs with rfl | hs
    · cases hg
    · rcases List.mem_pair.1 hs with rfl | rfl
      · decide
      · decide
  exact ⟨hp, hl, hss, hst, drain_lookup hp hl hss hst 10, by decide +kernel⟩

-- the last step shows a master without details, its only detail source being past its end
example : ((ofLists [.ofList [['a', '1'], ['a', '2'], ['b', '1']] id none,
    .ofList [['a'], ['c']] id (some 0)] [.fresh ['g'] (Rupture.leading 1)]).drain 10
      .fresh).result.map (·.row) =
    [[some ['a', '1'], some ['a']], [some ['a', '2'], some ['a']],
      [some ['b', '1'], some ['c']], [none, some ['c']]] := by
  decide +kernel

end Engine

end Lockstep
