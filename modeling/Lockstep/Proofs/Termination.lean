import Mathlib.Algebra.Order.BigOperators.Group.List
import Mathlib.Algebra.Order.Ring.Nat
import Lockstep.Proofs.Engine.Group

/-!
# When a run over details and masters ends

A run over details and masters ends if and only if no master has two records in a row with the same
key (`drain_ends_iff`).

* Without repeated keys every turn moves some lane on, and none falls back (`Turns.sum_coming_lt`).
  So the number of steps is at most the number of records.
* A master with a repeated key never gets past the first of the two records (`Lane.Stuck`): when the
  step has the key of this record, the look-ahead holds the next key in the same group, and the gate
  stays closed.
-/

namespace Lockstep

variable {ρ : Type}

namespace Supply

variable {s : Supply ρ}

/-- Two records in a row have the same key. -/
def Repeats (s : Supply ρ) : Prop :=
  ∃ n r r', s.records[n]? = some r ∧ s.records[n + 1]? = some r' ∧ s.key r = s.key r'

theorem keyAt_lt_succ (h : (s.records.map s.key).Pairwise (· ≤ ·)) (hr : ¬ s.Repeats) {n : ℕ}
    (hn : n < s.records.length) : s.keyAt n < s.keyAt (n + 1) := by
  refine lt_of_le_of_ne (keyAt_mono h (Nat.le_succ n)) ?_
  rw [s.keyAt_of_lt hn]
  intro heq
  obtain ⟨r', hr', hk⟩ := mem_of_keyAt_eq heq.symm
  exact hr ⟨n, _, r', List.getElem?_eq_getElem hn, hr', hk.symm⟩

end Supply

namespace Lane

variable {l : Lane ρ} {isOpen : Option ℕ → Bool}

/-- The lane does not get past the first of two records with the same key. -/
def Stuck (l : Lane ρ) (isOpen : Option ℕ → Bool) : Prop :=
  ∀ q, q + 1 < l.records.length → l.keyAt q = l.keyAt (q + 1) → l.advance isOpen ≤ q + 1

/-- A lane that is stuck has records to come. -/
theorem Stuck.candidate_ne_done (h : l.Stuck isOpen) (hr : l.Repeats) : l.candidate ≠ .done := by
  obtain ⟨q, r, r', hq, hq', hk⟩ := hr
  have hlt : q + 1 < l.records.length := (List.getElem?_eq_some_iff.1 hq').1
  have hadv : l.advance isOpen ≤ q + 1 := by
    refine h q hlt ?_
    rw [l.keyAt_of_get hq, l.keyAt_of_get hq', hk]
  intro hc
  have hle := l.keyAt_eq_done_iff.1 hc
  have := l.coming_le_moved.trans (l.moved_le_advance isOpen)
  omega

theorem stuck_primed {s : Supply ρ} (h : isOpen s.gate = true) : (primed s).Stuck isOpen := by
  intro q _ _
  rw [advance_eq_succ (Or.inr h)]
  simp [coming, primed]

end Lane

namespace Engine

variable {e d d' : Engine ρ Text} {ss : List (Supply ρ)} {ls : List (Lane ρ)} {w j : ℕ} {k : Text}

namespace Turns

variable (t : d.Turns w j ls k d')

include t

/-! ### Progress without repeated keys -/

/-- A master that is kept at its record stays synchronized. -/
theorem coming_turn_of_closed {l : Lane ρ} (hl : l ∈ ls) (hs : l.synchronized = true)
    (hc : d.opens l.gate = false) : (l.turn d.opens k).coming = l.moved := by
  have hadv := Lane.advance_of_closed hc
  have hm := t.master_of_closed hl hc
  have hs' : (l.turn d.opens k).synchronized = true := by
    rw [(t.kept l hl).synchronized_turn_iff hm t.le_length, Lane.head, Lane.turn_moved, hadv]
    exact (t.kept l hl).head_eq hs hc
  rw [Lane.coming_of_synchronized hs', Lane.turn_moved, hadv]

theorem coming_le_turn {l : Lane ρ} (hl : l ∈ ls) : l.coming ≤ (l.turn d.opens k).coming := by
  rcases l.advance_cases d.opens with ha | ⟨hs, hc, -, hcoming⟩
  · have hle := (l.turn d.opens k).moved_le_coming_succ
    rw [Lane.turn_moved, ha] at hle
    omega
  · rw [t.coming_turn_of_closed hl hs hc, hcoming]

/-- A lane with the key of the step moves on. -/
theorem coming_lt_turn {l : Lane ρ} (hl : l ∈ ls) (hk : l.candidate = .key k)
    (hst : l.gate = some j → ¬ l.Repeats) : l.coming < (l.turn d.opens k).coming := by
  rcases l.advance_cases d.opens with ha | ⟨hs, hc, ha, hcoming⟩
  · have hs : (l.turn d.opens k).synchronized = true := by
      rw [Lane.turn_synchronized, Lane.head_turn ha, show l.keyAt l.coming = .key k from hk,
        Frontier.agrees_self]
    rw [Lane.coming_of_synchronized hs, Lane.turn_moved, ha]
    omega
  · -- a master that is kept at a record of this group has its next record in a later one
    have hm := t.master_of_closed hl hc
    obtain ⟨p, hp⟩ := (t.kept l hl).exists_advance
    have hlt := Supply.keyAt_lt_succ hm.sorted (hst hm.gate) (n := p) (by
      have := l.coming_le
      omega)
    have hhead : l.keyAt p = Frontier.cut w (.key k) := by
      rw [← (t.kept l hl).head_eq hs hc, Lane.head, ← hcoming, ← ha, hp]
      rfl
    have hcand : l.keyAt (p + 1) = .key k := by
      rw [← hk, Lane.candidate, ← ha, hp]
    have hcut := Lane.cut_candidate hm
    rw [hk] at hcut
    rw [hhead, hcand, hcut] at hlt
    exact absurd hlt (lt_irrefl _)

/-- Without repeated keys a turn moves the lanes on, taken together. -/
theorem sum_coming_lt (hst : ∀ l ∈ ls, l.gate = some j → ¬ l.Repeats) :
    (ls.map Lane.coming).sum < ((Lane.turnAll d.opens k ls).map Lane.coming).sum := by
  obtain ⟨l, hl, hc⟩ : ∃ l ∈ ls, l.candidate = Lane.frontier ls :=
    Lane.exists_candidate_eq_frontier (by simp [t.frontier])
  rw [Lane.map_turnAll]
  refine List.sum_lt_sum _ _ (fun l hl => t.coming_le_turn hl) ⟨l, hl, ?_⟩
  exact t.coming_lt_turn hl (hc.trans t.frontier) (hst l hl)

/-! ### No progress behind a repeated key -/

theorem stuck_turn {l : Lane ρ} (hl : l ∈ ls) (hm : l.toSupply.Master w j) (h : l.Stuck d.opens) :
    (l.turn d.opens k).Stuck d'.opens := by
  intro q hq heq
  by_contra hlt
  obtain ⟨hs, hadv, hkey, hnext⟩ := t.goes_on hl hm (h q hq heq) (not_le.1 hlt)
  -- the next record is of the group of the step too, and with it the next key
  have hcand : (l.turn d.opens k).candidate = Frontier.cut w (.key k) := by
    rw [Lane.candidate, Lane.coming_of_synchronized hs, Lane.turn_moved, hadv, ← hkey]
    exact heq.symm
  have hle : (Lane.frontier (Lane.turnAll d.opens k ls)).cut w ≤ Frontier.cut w (.key k) := by
    rw [← hcand, ← Lane.cut_candidate (l := l.turn _ k) hm]
    exact Frontier.cut_mono w (Lane.frontier_le (Lane.turn_mem_turnAll hl))
  exact absurd hnext (not_lt.2 hle)

end Turns

/-! ### Runs -/

variable (hl : e.Leads w j) (h : e.Prepared ss) (hss : ∀ s ∈ ss, s.Detail w ∨ s.Master w j)

include hl h hss

/-- Without repeated keys a run makes no more steps than there are records. -/
theorem after_le_sum (hst : ∀ s ∈ ss, s.gate = some j → ¬ s.Repeats) {n : ℕ}
    (hd : e.after n = some d) : n ≤ (ss.map (·.records.length)).sum := by
  obtain ⟨ls, -, -, hls, -, hm⟩ := hl.after_induction h hss
    (motive := fun n _ ls => n ≤ (ls.map Lane.coming).sum)
    (by
      intro d _
      exact Nat.zero_le _)
    (by
      intro n d d' ls k _ t hls hm
      have hlt := t.sum_coming_lt fun l hl => hst l.toSupply (hls ▸ List.mem_map_of_mem hl)
      omega) hd
  calc
    n ≤ (ls.map Lane.coming).sum := hm
    _ ≤ (ls.map fun l => l.records.length).sum := List.sum_le_sum fun l _ => l.coming_le
    _ = (ss.map (·.records.length)).sum := by rw [← hls, List.map_map]; rfl

/-- A master never gets past the first of two records with the same key. -/
theorem stuck_of_after {n : ℕ} (hd : e.after n = some d) :
    ∃ ls, d.Stages ls ∧ ls.map Lane.toSupply = ss ∧
      ∀ l ∈ ls, l.gate = some j → l.Stuck d.opens := by
  obtain ⟨ls, hs, -, hls, -, hm⟩ := hl.after_induction h hss (motive := fun _ d ls =>
      ∀ l ∈ ls, l.gate = some j → l.Stuck d.opens)
    (by
      rintro d hr l hmem -
      obtain ⟨s, hs, rfl⟩ := List.mem_map.1 hmem
      rw [hr]
      exact Lane.stuck_primed (hl.opens hss s hs))
    (by
      intro n d d' ls k _ t hls hm
      refine Lane.forall_mem_turnAll.2 fun l hmem hg => ?_
      exact t.stuck_turn hmem (t.master_of_gate hmem hg) (hm l hmem hg)) hd
  exact ⟨ls, hs, hls, hm⟩

/-- A run over a master with a repeated key is never at its end. -/
theorem ended_eq_false_of_repeats (hst : ∃ s ∈ ss, s.gate = some j ∧ s.Repeats) {n : ℕ}
    (hd : e.after n = some d) : d.sync.ended = false := by
  obtain ⟨ls, hs, rfl, hm⟩ := stuck_of_after hl h hss hd
  obtain ⟨s, hs', hg, hr⟩ := hst
  obtain ⟨l, hmem, rfl⟩ := List.mem_map.1 hs'
  exact ended_eq_false hs.nextKey
    (Lane.frontier_ne_done hmem ((hm l hmem hg).candidate_ne_done hr))

omit hl h hss

/-- **Exactly the runs without repeated keys in a master end.**  A run over details and masters
comes to its end if and only if nothing fails in it and no master has two records in a row with the
same key; and nothing fails if no extractor does.  If it comes to its end, it makes at most as many
steps as there are records, and if it does not, the mark is never the next key. -/
theorem drain_ends_iff (h : e.Prepared ss) (hl : e.Leads w j)
    (hss : ∀ s ∈ ss, s.Detail w ∨ s.Master w j) :
    (e.Completes ↔ e.Unfailing ∧ ∀ s ∈ ss, s.gate = some j → ¬ s.Repeats) ∧
    ((∀ f, ¬ e.MayFault f) → e.Unfailing) ∧
    (e.Completes → ∀ budget,
      (e.drain budget .fresh).result.length ≤ (ss.map (·.records.length)).sum) ∧
    (¬ e.Completes → ∀ budget, (e.drain budget .fresh).engine.sync.ended = false) := by
  have hstrict : e.Completes → ∀ s ∈ ss, s.gate = some j → ¬ s.Repeats := by
    intro hc s hs hg hr
    obtain ⟨n, d, hd, he⟩ := (completes_iff h.unstarted).1 hc
    rw [ended_eq_false_of_repeats hl h hss ⟨s, hs, hg, hr⟩ hd] at he
    cases he
  refine ⟨⟨fun hc => ⟨hc.unfailing h.unstarted, hstrict hc⟩, ?_⟩, h.unfailing (hl.opens hss),
    ?_, h.ended_eq_false (hl.opens hss)⟩
  · rintro ⟨hok, hst⟩
    -- one more step than there are records is one too many
    refine ⟨(ss.map (·.records.length)).sum + 1, ?_, hok _⟩
    obtain ⟨n, d, hd, -, hcase⟩ :=
      h.drain_cases (hl.opens hss) ((ss.map (·.records.length)).sum + 1)
    have hle := after_le_sum hl h hss hst hd
    rcases hcase with ⟨-, -, hn, -⟩ | ⟨hended, -⟩ | ⟨hended, -⟩
    · omega
    · exact hended
    · exact hended
  · intro hc budget
    obtain ⟨n, d, hd, hres, -⟩ := h.drain_cases (hl.opens hss) budget
    rw [hres, drain_length h.unstarted hd]
    exact after_le_sum hl h hss (hstrict hc) hd

/-- A master with the same key twice keeps the run from its end. -/
theorem drain_ends_iff_repeated :
    let ss : List (Supply Text) := [.ofList [['a', '1'], ['b', '1']] id none,
      .ofList [['a'], ['a']] id (some 0)]
    let e := ofLists ss [.fresh ['g'] (Rupture.leading 1)]
    e.Prepared ss ∧ e.Leads 1 0 ∧ (∀ s ∈ ss, s.Detail 1 ∨ s.Master 1 0) ∧ ¬ e.Completes ∧
      ∀ budget, (e.drain budget .fresh).engine.sync.ended = false := by
  intro ss e
  have hp : e.Prepared ss := prepared_ofLists ss _
  have hl : e.Leads 1 0 := leads_ofLists ss ['g'] 1 []
  have hss : ∀ s ∈ ss, s.Detail 1 ∨ s.Master 1 0 := by
    intro s hs
    rcases List.mem_pair.1 hs with rfl | rfl
    · exact Or.inl ⟨rfl, by decide, by decide⟩
    · exact Or.inr ⟨rfl, by decide, by decide⟩
  obtain ⟨hiff, -, -, hnever⟩ := drain_ends_iff hp hl hss
  have hr : (Supply.ofList [['a'], ['a']] id (some 0)).Repeats := ⟨0, ['a'], ['a'], rfl, rfl, rfl⟩
  have hc : ¬ e.Completes := by
    intro hc
    exact (hiff.1 hc).2 _ (List.mem_cons_of_mem _ List.mem_cons_self) rfl hr
  exact ⟨hp, hl, hss, hc, hnever hc⟩

end Engine

end Lockstep
