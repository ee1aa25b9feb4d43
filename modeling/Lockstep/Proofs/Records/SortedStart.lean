import Mathlib.Data.List.Chain
import Mathlib.Data.Seq.Basic
import Lockstep.Proofs.Key.Order
import Lockstep.Records.Ordered

/-!
# The sorted start of a stream

What pulls bring is a sequence, finite or endless; its first `n` items are what `n` pulls have
brought.  An item cannot be passed on if it is a fault, if its record has no key, or if its key is
lower than the one before it (`Stream.FailsAt`).

`Stream.ordered` passes on exactly the records before the first such item, and ends with the fault
about it; where there is none it passes everything on, and no key is lower than any key before it
(`Stream.ordered_sortedStart`).
-/

namespace Lockstep

/-! ### The first items of a sequence -/

namespace Pulls

open Stream'

variable {α : Type} {u : Seq α} {n m : ℕ} {x : α}

theorem length_take (h : u.get? n = some x) : (u.take n).length = n := by
  refine le_antisymm Seq.length_take_le (not_lt.1 fun hlt => ?_)
  have hnone : (u.take n)[(u.take n).length]? = none := List.getElem?_eq_none le_rfl
  rw [Seq.getElem?_take, if_pos hlt] at hnone
  rw [u.le_stable Seq.length_take_le hnone] at h
  cases h

theorem take_take (h : m ≤ n) : (u.take n).take m = u.take m := by
  apply List.ext_getElem?
  intro i
  rw [List.getElem?_take, Seq.getElem?_take, Seq.getElem?_take]
  by_cases hi : i < m
  · rw [if_pos hi, if_pos hi, if_pos (hi.trans_le h)]
  · rw [if_neg hi, if_neg hi]

/-- Item number `m` stands behind the first `m` items. -/
theorem exists_take (h : u.get? m = some x) (hlt : m < n) :
    ∃ rest : List α, u.take n = u.take m ++ List.cons x rest := by
  have hget : (u.take n)[m]? = some x := by rw [Seq.getElem?_take, if_pos hlt, h]
  obtain ⟨hm, hx⟩ := List.getElem?_eq_some_iff.1 hget
  refine ⟨(u.take n).drop (m + 1), ?_⟩
  rw [← take_take hlt.le, ← hx, List.getElem_cons_drop, List.take_append_drop]

theorem take_succ (u : Seq α) (n : ℕ) : u.take (n + 1) = u.take n ++ (u.get? n).toList := by
  cases h : u.get? n with
  | none =>
    apply List.ext_getElem?
    intro i
    rw [Option.toList_none, List.append_nil, Seq.getElem?_take, Seq.getElem?_take]
    rcases lt_trichotomy i n with hi | rfl | hi
    · rw [if_pos hi, if_pos (hi.trans n.lt_succ_self)]
    · rw [if_pos i.lt_succ_self, if_neg (lt_irrefl i), h]
    · rw [if_neg hi.not_gt, if_neg (Nat.not_lt.2 hi)]
  | some x =>
    obtain ⟨rest, hrest⟩ := exists_take h n.lt_succ_self
    have hle : (u.take (n + 1)).length ≤ n + 1 := Seq.length_take_le
    rw [hrest, List.length_append, List.length_cons, length_take h] at hle
    obtain rfl : rest = [] := List.eq_nil_of_length_eq_zero (by omega)
    exact hrest

theorem take_ofList (l : List α) : (Seq.ofList l).take l.length = l := by
  apply List.ext_getElem?
  intro i
  rw [Seq.getElem?_take, Seq.ofList_get?]
  by_cases hi : i < l.length
  · rw [if_pos hi]
  · rw [if_neg hi, List.getElem?_eq_none (not_lt.1 hi)]

end Pulls

namespace Stream

variable {ρ : Type}

/-- Item number `n` cannot be passed on, for the fault. -/
inductive FailsAt (keyer : ρ → Except Fault Text) (name : Text)
    (u : Stream'.Seq (Except Fault ρ)) : ℕ → Fault → Prop
  /-- The item is a fault itself. -/
  | unread {n : ℕ} {f : Fault} (h : u.get? n = some (.error f)) : FailsAt keyer name u n f
  /-- The record has no key. -/
  | unkeyed {n : ℕ} {r : ρ} {f : Fault} (h : u.get? n = some (.ok r)) (hk : keyer r = .error f) :
      FailsAt keyer name u n f
  /-- The key is lower than the one before it. -/
  | lower {n : ℕ} {r r' : ρ} {k k' : Text} (h : u.get? n = some (.ok r)) (hk : keyer r = .ok k)
      (h' : u.get? (n + 1) = some (.ok r')) (hk' : keyer r' = .ok k') (hlt : k' < k) :
      FailsAt keyer name u (n + 1) (.unsorted name (n + 1) (Text.quoted k') (Text.quoted k))

/-- The first `n` items are the records `rs`, of which the keys `ks` do not fall. -/
structure SortedStart (keyer : ρ → Except Fault Text) (u : Stream'.Seq (Except Fault ρ)) (n : ℕ)
    (rs : List ρ) (ks : List Text) : Prop where
  items : u.take n = rs.map .ok
  keys : rs.map keyer = ks.map .ok
  sorted : ks.Pairwise (· ≤ ·)

variable {keyer : ρ → Except Fault Text} {name : Text} {u : Stream'.Seq (Except Fault ρ)} {n : ℕ}
  {rs : List ρ} {ks : List Text}

namespace SortedStart

theorem length_keys (h : SortedStart keyer u n rs ks) : ks.length = rs.length := by
  simpa using (congrArg List.length h.keys).symm

theorem length_of_get? (h : SortedStart keyer u n rs ks) {x : Except Fault ρ}
    (hx : u.get? n = some x) : rs.length = n := by
  have hlen := Pulls.length_take hx
  rwa [h.items, List.length_map] at hlen

/-- The keys are those of the records, by their numbers. -/
theorem getElem?_keys (h : SortedStart keyer u n rs ks) {i : ℕ} (hi : i < n) {k : Text} :
    ks[i]? = some k ↔ ∃ r, u.get? i = some (.ok r) ∧ keyer r = .ok k := by
  have hitem : u.get? i = (rs[i]?).map .ok := by
    rw [← List.getElem?_map, ← h.items, Stream'.Seq.getElem?_take, if_pos hi]
  have hkey : (rs[i]?).map keyer = (ks[i]?).map .ok := by
    rw [← List.getElem?_map, ← List.getElem?_map, h.keys]
  rw [hitem]
  cases hr : rs[i]? with
  | none =>
    rw [hr] at hkey
    simp [Option.map_eq_none_iff.1 hkey.symm]
  | some r =>
    rw [hr, Option.map_some] at hkey
    obtain ⟨k', hk', hok⟩ := Option.map_eq_some_iff.1 hkey.symm
    simp [hk', ← hok]

theorem getLast?_keys (h : SortedStart keyer u (n + 1) rs ks) {x : Except Fault ρ}
    (hx : u.get? (n + 1) = some x) : ks.getLast? = ks[n]? := by
  rw [List.getLast?_eq_getElem?, h.length_keys, h.length_of_get? hx, Nat.add_sub_cancel]

/-- One more record with a key that is not lower than the last one. -/
theorem concat (h : SortedStart keyer u n rs ks) {r : ρ} {k : Text}
    (hr : u.get? n = some (.ok r)) (hk : keyer r = .ok k) (hle : ∀ last ∈ ks.getLast?, last ≤ k) :
    SortedStart keyer u (n + 1) (rs ++ [r]) (ks ++ [k]) where
  items := by
    rw [Pulls.take_succ, h.items, hr]
    simp
  keys := by simp [h.keys, hk]
  sorted := by
    rw [← List.isChain_iff_pairwise, List.isChain_append]
    exact ⟨List.isChain_iff_pairwise.2 h.sorted, List.isChain_singleton k, by simpa using hle⟩

end SortedStart

/-- The items before the first one that cannot be passed on are records with keys that do not
fall. -/
theorem exists_sortedStart (n : ℕ) (h : ∀ i < n, ∀ f, ¬ FailsAt keyer name u i f) :
    ∃ rs ks, SortedStart keyer u n rs ks := by
  induction n with
  | zero => exact ⟨[], [], rfl, rfl, .nil⟩
  | succ n ih =>
    obtain ⟨rs, ks, hs⟩ := ih fun i hi => h i (hi.trans n.lt_succ_self)
    have hn := h n n.lt_succ_self
    cases hx : u.get? n with
    | none =>
      refine ⟨rs, ks, ?_, hs.keys, hs.sorted⟩
      rw [Pulls.take_succ, hx, hs.items, Option.toList_none, List.append_nil]
    | some x =>
      rcases x with f | r
      · exact absurd (.unread hx) (hn f)
      cases hr : keyer r with
      | error f => exact absurd (.unkeyed hx hr) (hn f)
      | ok k =>
        refine ⟨rs ++ [r], ks ++ [k], hs.concat hx hr fun last hlast => not_lt.1 fun hlt => ?_⟩
        -- the last key is that of the record before
        cases n with
        | zero =>
          have hlen := hs.length_keys.trans (hs.length_of_get? hx)
          rw [List.eq_nil_of_length_eq_zero hlen] at hlast
          cases hlast
        | succ n =>
          rw [hs.getLast?_keys hx] at hlast
          obtain ⟨r', hr', hk'⟩ := (hs.getElem?_keys n.lt_succ_self).1 hlast
          exact hn _ (.lower hr' hk' hx hr hlt)

/-- Records of which the keys do not fall are passed on, and what follows them is read behind the
last of these keys. -/
theorem orderedFrom_append (previous : Option Text) (index : ℕ) (rest : Stream ρ)
    (hk : rs.map keyer = ks.map .ok) (hc : (previous.toList ++ ks).IsChain (· ≤ ·)) :
    orderedFrom keyer name previous index (rs.map .ok ++ rest) =
      rs.map .ok ++ orderedFrom keyer name (previous.toList ++ ks).getLast? (index + rs.length)
        rest := by
  induction rs generalizing previous index ks with
  | nil =>
    obtain rfl : ks = [] := by simpa using hk.symm
    cases previous <;> rfl
  | cons r rs ih =>
    rcases ks with _ | ⟨k, ks⟩
    · cases hk
    obtain ⟨hr, hrs⟩ := List.cons.inj hk
    have hrest := ih (some k) (index + 1) hrs (List.isChain_append.1 hc).2.1
    have hlen : index + 1 + rs.length = index + (r :: rs).length := by
      rw [List.length_cons]
      omega
    rw [hlen] at hrest
    simp only [List.map_cons, List.cons_append, orderedFrom, hr]
    cases previous with
    | none => simpa using hrest
    | some last =>
      -- the key is not lower than the one before it
      have hle : last ≤ k := (List.isChain_cons_cons.1 hc).1
      simp only [Text.before_eq, not_lt.2 hle, decide_false]
      simpa using hrest

theorem SortedStart.ordered_append (h : SortedStart keyer u n rs ks) (name : Text)
    (rest : Stream ρ) : ordered keyer name (rs.map .ok ++ rest) =
      rs.map .ok ++ orderedFrom keyer name ks.getLast? rs.length rest := by
  have happend : ordered keyer name (rs.map .ok ++ rest) = _ :=
    orderedFrom_append none 0 rest h.keys (List.isChain_iff_pairwise.2 h.sorted)
  rwa [Nat.zero_add] at happend

theorem SortedStart.ordered_eq (h : SortedStart keyer u n rs ks) (name : Text) :
    ordered keyer name (u.take n) = rs.map .ok := by
  have happend := h.ordered_append name []
  rw [List.append_nil] at happend
  rw [h.items, happend]
  exact List.append_nil _

/-- Behind a sorted start, reading ends with the fault about the item that cannot be passed on. -/
theorem SortedStart.orderedFrom_of_failsAt (h : SortedStart keyer u n rs ks) {f : Fault}
    (hf : FailsAt keyer name u n f) : ∃ x, u.get? n = some x ∧ ∀ rest,
      orderedFrom keyer name ks.getLast? rs.length (x :: rest) = [.error f] := by
  cases hf with
  | unread hx => exact ⟨_, hx, fun rest => rfl⟩
  | unkeyed hx hk => exact ⟨_, hx, fun rest => by rw [orderedFrom, hk]⟩
  | @lower n r r' k k' hr hk hx hk' hlt =>
    refine ⟨_, hx, fun rest => ?_⟩
    have hlast := (h.getLast?_keys hx).trans ((h.getElem?_keys n.lt_succ_self).2 ⟨r, hr, hk⟩)
    rw [hlast, h.length_of_get? hx, orderedFrom, hk']
    simp [Text.before_eq, hlt]

/-- **Checking the order passes on the longest sorted start.**  Let item number `k` be the first
one of a stream, finite or endless, that cannot be passed on: the stream fails there, its record
has no key, or its key is lower than the one before it.  Then `k` pulls bring records of which the
keys do not fall, these are passed on as they are, and every further pull finds the stream ended
with the fault about item number `k`.  If there is no such item, then every record is passed on
as it is, and no key is lower than any key before it. -/
theorem ordered_sortedStart (keyer : ρ → Except Fault Text) (name : Text)
    (u : Stream'.Seq (Except Fault ρ)) :
    (∀ k f, FailsAt keyer name u k f → (∀ i < k, ∀ g, ¬ FailsAt keyer name u i g) →
      ∃ rs ks, SortedStart keyer u k rs ks ∧ rs.length = k ∧ ∀ n,
        ordered keyer name (u.take n) =
          if n ≤ k then (rs.take n).map .ok else rs.map .ok ++ [.error f]) ∧
    ((∀ k f, ¬ FailsAt keyer name u k f) → ∀ n, ∃ rs ks, SortedStart keyer u n rs ks ∧
      ordered keyer name (u.take n) = rs.map .ok) := by
  constructor
  · intro k f hf hfirst
    obtain ⟨rs, ks, hs⟩ := exists_sortedStart k hfirst
    obtain ⟨x, hx, hfails⟩ := hs.orderedFrom_of_failsAt hf
    refine ⟨rs, ks, hs, hs.length_of_get? hx, fun n => ?_⟩
    by_cases hn : n ≤ k
    · obtain ⟨rs', ks', hs'⟩ := exists_sortedStart n fun i hi => hfirst i (hi.trans_le hn)
      rw [if_pos hn, hs'.ordered_eq, ← hs'.items, ← Pulls.take_take hn, hs.items, List.map_take]
    · obtain ⟨rest, hrest⟩ := Pulls.exists_take hx (not_le.1 hn)
      rw [if_neg hn, hrest, hs.items, hs.ordered_append, hfails]
  · intro hnone n
    obtain ⟨rs, ks, hs⟩ := exists_sortedStart n fun i _ => hnone i
    exact ⟨rs, ks, hs, hs.ordered_eq name⟩

/-- A list of which a key falls, and an endless stream of which all keys are equal. -/
theorem ordered_sortedStart_endless :
    let falling : Stream Text := [.ok ['a'], .ok ['b'], .ok ['a'], .error .idle]
    let endless : Stream'.Seq (Except Fault Text) := .ofStream (.const (.ok ['a']))
    let f : Fault := .unsorted ['s'] 2 (Text.quoted ['a']) (Text.quoted ['b'])
    FailsAt .ok ['s'] (.ofList falling) 2 f ∧
      (∀ i < 2, ∀ g, ¬ FailsAt .ok ['s'] (.ofList falling) i g) ∧
      ordered .ok ['s'] falling = [.ok ['a'], .ok ['b'], .error f] ∧
      (∀ k g, ¬ FailsAt .ok ['s'] endless k g) ∧
      ∀ n, ∃ rs ks, SortedStart .ok endless n rs ks ∧
        ordered .ok ['s'] (endless.take n) = rs.map .ok := by
  intro falling endless f
  have hfails : FailsAt .ok ['s'] (.ofList falling) 2 f := by
    have hb : (Stream'.Seq.ofList falling).get? 1 = some (.ok ['b']) := rfl
    have ha : (Stream'.Seq.ofList falling).get? 2 = some (.ok ['a']) := rfl
    exact .lower hb rfl ha rfl (by decide)
  have hfirst : ∀ i < 2, ∀ g, ¬ FailsAt .ok ['s'] (.ofList falling) i g := by
    intro i hi g hg
    cases hg with
    | unread h =>
      obtain rfl | rfl : i = 0 ∨ i = 1 := by omega
      · cases h
      · cases h
    | unkeyed h hk => cases hk
    | @lower n r r' k k' h hk h' hk' hlt =>
      obtain rfl : n = 0 := by omega
      cases h
      cases h'
      cases hk
      cases hk'
      exact absurd hlt (by decide)
  have hnone : ∀ k g, ¬ FailsAt .ok ['s'] endless k g := by
    intro k g hg
    cases hg with
    | unread h => cases h
    | unkeyed h hk => cases hk
    | lower h hk h' hk' hlt =>
      cases h
      cases h'
      cases hk
      cases hk'
      exact lt_irrefl _ hlt
  refine ⟨hfails, hfirst, ?_, hnone, (ordered_sortedStart .ok ['s'] endless).2 hnone⟩
  obtain ⟨rs, ks, hs, -, hordered⟩ :=
    (ordered_sortedStart .ok ['s'] (.ofList falling)).1 2 f hfails hfirst
  have hall := hordered falling.length
  have hrs : rs.map Except.ok = [.ok ['a'], .ok ['b']] := hs.items.symm
  rw [Pulls.take_ofList, if_neg (by decide), hrs] at hall
  exact hall

end Stream

end Lockstep
