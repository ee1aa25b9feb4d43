import Mathlib.Data.List.Chain
import Lockstep.Proofs.Accounts
import Lockstep.Proofs.Engine.Abreast

/-!
# Checking the order of sources

A job that checks the order of its sources reads them through `Stream.ordered`.  Where the keys of
a source do not fall (`Stream.keys`), this brings the same records with the same keys, and it fails
where reading the source fails or a record has no key.  So the two runs of a job, with and without
the check, are abreast up to the fault of a source of which the keys fall (`Job.Unsorted`).

If no keys fall, then both runs are the same in every respect.  If some keys fall, then a run with
the check cannot come to its end, since a run that ends has read every source to its end; so it
fails with that fault where the run without the check ends (`Job.runWithin_checkOrder`).
-/

namespace Lockstep

variable {ρ : Type}

/-! ### Keys that fall -/

/-- Key number `n` is `k`, the next one is `k'`, and this is the first one that is lower than the
one before it. -/
structure FallsAt (ks : List Text) (n : ℕ) (k k' : Text) : Prop where
  key : ks[n]? = some k
  next : ks[n + 1]? = some k'
  lt : k' < k
  before : (ks.take (n + 1)).IsChain (· ≤ ·)

theorem fallsAt_append {ks rest : List Text} {k k' : Text} (h : (ks ++ [k]).IsChain (· ≤ ·))
    (hlt : k' < k) : FallsAt (ks ++ k :: k' :: rest) ks.length k k' where
  key := by simp
  next := by simp
  lt := hlt
  before := by simpa [List.take_add_one] using h

theorem FallsAt.not_isChain {ks : List Text} {n : ℕ} {k k' : Text} (h : FallsAt ks n k k') :
    ¬ ks.IsChain (· ≤ ·) := by
  intro hks
  obtain ⟨hlt, hk'⟩ := List.getElem?_eq_some_iff.1 h.next
  have hle := List.isChain_iff_getElem.1 hks n hlt
  rw [hk', (List.getElem?_eq_some_iff.1 h.key).2] at hle
  exact not_lt.2 hle h.lt

namespace Stream

/-- The keys of the records, up to the first record that cannot be read or has no key. -/
def keys (keyer : ρ → Except Fault Text) : Stream ρ → List Text
  | [] => []
  | .error _ :: _ => []
  | .ok r :: s =>
    match keyer r with
    | .ok k => k :: keys keyer s
    | .error _ => []

variable {keyer : ρ → Except Fault Text} {name : Text}

/-- The fault about a stream of which the keys fall. -/
inductive Falls (keyer : ρ → Except Fault Text) (name : Text) (s : Stream ρ) : Fault → Prop
  | here {n : ℕ} {k k' : Text} (h : FallsAt (keys keyer s) n k k') :
      Falls keyer name s (.unsorted name (n + 1) (Text.quoted k') (Text.quoted k))

/-- The keys of a stream that is passed on to its end do not fall. -/
theorem isChain_of_orderedFrom {previous : Option Text} {index : ℕ} {s : Stream ρ}
    (h : (orderedFrom keyer name previous index s).fault? = none) :
    (previous.toList ++ keys keyer s).IsChain (· ≤ ·) := by
  induction s generalizing previous index with
  | nil => cases previous <;> simp [keys]
  | cons x s ih =>
    rcases x with f | r
    · cases h
    · unfold orderedFrom at h
      unfold keys
      cases hk : keyer r with
      | error f =>
        rw [hk] at h
        cases h
      | ok key =>
        simp only [hk] at h ⊢
        cases previous with
        | none => simpa using ih h
        | some last =>
          dsimp only at h
          by_cases hb : Text.before key last = true
          · simp [hb, fault?] at h
          · rw [if_neg hb] at h
            rw [Text.before_eq, decide_eq_true_eq, not_lt] at hb
            exact List.isChain_cons_cons.2 ⟨hb, ih h⟩

end Stream

/-! ### A source that is checked -/

namespace Source

variable {keyer : ρ → Except Fault Text} {name : Text} {all : Stream ρ} {s t : Source ρ Text}

/-- Both sources have read the records with the keys `ks` of the stream; what is left of it, the
first one reads as it is and the second one in order. -/
inductive Checked (keyer : ρ → Except Fault Text) (name : Text) (all : Stream ρ) :
    Source ρ Text → Source ρ Text → Prop
  | read {s : Source ρ Text} (ks : List Text) (rest : Stream ρ)
      (hkeys : Stream.keys keyer all = ks ++ Stream.keys keyer rest) (hks : ks.IsChain (· ≤ ·))
      (hkeyer : ∀ r, s.keyer r = (keyer r).map .key) :
      Checked keyer name all { s with feed := .ofStream rest }
        { s with feed := .ofStream (Stream.orderedFrom keyer name ks.getLast? ks.length rest) }

theorem Checked.showsAs (h : Checked keyer name all s t) : s.ShowsAs t := by
  cases h
  rfl

theorem Checked.shift (h : Checked keyer name all s t) :
    Checked keyer name all s.shift t.shift := by
  cases h with
  | @read s ks rest hkeys hks hkeyer => exact .read (s := s.shift) ks rest hkeys hks hkeyer

/-- One more record with a key that is not lower than the last one. -/
theorem Checked.next {ks : List Text} {rest : Stream ρ} {r : ρ} {k : Text}
    (hkeys : Stream.keys keyer all = ks ++ k :: Stream.keys keyer rest)
    (hks : ks.IsChain (· ≤ ·)) (hle : ∀ last ∈ ks.getLast?, last ≤ k)
    (hkeyer : ∀ r, s.keyer r = (keyer r).map .key) :
    Checked keyer name all
      { s with feed := .ofStream rest, pulls := s.pulls + 1, next := some r, nextKey := .key k }
      { s with
        feed := .ofStream (Stream.orderedFrom keyer name (some k) (ks.length + 1) rest)
        pulls := s.pulls + 1, next := some r, nextKey := .key k } := by
  have hsnoc : (ks ++ [k]).IsChain (· ≤ ·) :=
    List.isChain_append.2 ⟨hks, List.isChain_singleton k, by simpa using hle⟩
  have h : Checked keyer name all _ _ := .read
    (s := { s with pulls := s.pulls + 1, next := some r, nextKey := .key k }) (ks ++ [k]) rest
    (by simpa using hkeys) hsnoc hkeyer
  simpa using h

/-- A pull of the checked source brings what a pull of the other one brings, unless the keys
fall. -/
theorem Checked.fill (h : Checked keyer name all s t) :
    Action.Abreast (Checked keyer name all) (Stream.Falls keyer name all) s.fill t.fill := by
  cases h with
  | @read s ks rest hkeys hks hkeyer =>
    rcases rest with _ | ⟨f | r, rest⟩
    · -- the end
      exact .done (.read (s := { s with
        pulls := s.pulls + 1, exhausted := true, next := none, nextKey := .done }) ks [] hkeys hks
        hkeyer)
    · exact .failed _ _ f
    · unfold fill Stream.orderedFrom
      rw [Stream.keys] at hkeys
      cases hk : keyer r with
      | error f =>
        -- the one source has a record without a key, the other one brings the fault
        simp only [Feed.ofStream, Feed.deliveries, Feed.pull_script_cons, hkeyer, hk]
        exact .failed _ _ f
      | ok k =>
        rw [hk] at hkeys
        cases hlast : ks.getLast? with
        | none =>
          simp only [Feed.ofStream, Feed.deliveries, Feed.pull_script_cons, hkeyer, hk]
          exact .done (.next hkeys hks (by simp [hlast]) hkeyer)
        | some last =>
          dsimp only
          by_cases hb : Text.before k last = true
          · rw [if_pos hb]
            obtain ⟨ks, rfl⟩ := List.getLast?_eq_some_iff.1 hlast
            refine .excused ?_
            rw [List.length_append, List.length_singleton]
            refine .here ?_
            rw [Text.before_eq, decide_eq_true_eq] at hb
            rw [hkeys, List.append_assoc]
            exact fallsAt_append hks hb
          · simp only [Feed.ofStream, Feed.deliveries, Feed.pull_script_cons, hkeyer, hk, if_neg hb]
            rw [Text.before_eq, decide_eq_true_eq, not_lt] at hb
            exact .done (.next hkeys hks (by simpa [hlast] using hb) hkeyer)

theorem keeps_read_checked (isOpen : Option ℕ → Bool) :
    Action.Keeps (Checked keyer name all) (Stream.Falls keyer name all)
      fun s => s.read (isOpen s.gate) := by
  intro s t h
  have hshift := h.shift.fill
  have hdue : t.due (isOpen t.gate) = s.due (isOpen s.gate) := by
    rw [h.showsAs]
    rfl
  have hexhausted : t.exhausted = s.exhausted := by
    rw [h.showsAs]
  unfold read
  dsimp only
  rw [hdue, hexhausted]
  cases s.due (isOpen s.gate) with
  | false => exact .done h
  | true =>
    cases s.exhausted with
    | true => exact .done h.shift
    | false => exact hshift

theorem keeps_synchronize_checked (key : Frontier Text) :
    Action.Keeps (Checked keyer name all) (Stream.Falls keyer name all)
      fun s => s.synchronize key := by
  intro s t h
  simp only [synchronize, Frontier.agree_eq]
  cases h with
  | @read s ks rest hkeys hks hkeyer =>
    exact .done (.read (s := { s with synchronized := s.currentKey.agrees key }) ks rest hkeys hks
      hkeyer)

end Source

/-! ### A job that is checked -/

namespace Job

open Lockstep.Config

variable {budget : ℕ} {w : Workspace} {keep : Bool} {j : JobEntry} {context : Option RunContext}
  {clock : Clock} {opened : List Opened}

/-- The fault about a source of the job of which the keys fall. -/
def Unsorted (w : Workspace) (j : JobEntry) (f : Fault) : Prop :=
  ∃ s ∈ j.sources, ∃ records, Records.openSource w s = .ok records ∧
    Stream.Falls (KeyField.keyOf s.key) s.name records f

/-- Source number `n` of the job, read as it is and read in order. -/
def Checks (j : JobEntry) (opened : List Opened) (n : ℕ) (s t : Source Value Text) : Prop :=
  ∃ x o, j.sources[n]? = some x ∧ opened[n]? = some o ∧
    Source.Checked (KeyField.keyOf x.key) x.name o.records s t

section Open

variable (hopen : List.Forall₂ (Opens w (byName j.ruptures)) j.sources opened)

include hopen

/-- The engines of the job with and without the check are beside each other. -/
theorem beside_engineOf : (engineOf { j with checkOrder := false } opened).Beside (Checks j opened)
    (engineOf { j with checkOrder := true } opened) where
  sync := by
    rw [engineOf_sync (j := { j with checkOrder := false }) hopen,
      engineOf_sync (j := { j with checkOrder := true }) hopen]
    simp [engineOf]
  pool := by
    refine ⟨rfl, fun n => ?_⟩
    simp only [engineOf, List.getElem?_zipWith]
    cases hs : j.sources[n]? with
    | none => exact .none
    | some s =>
      cases ho : opened[n]? with
      | none => exact .none
      | some o =>
        have hfresh : Source.Checked (KeyField.keyOf s.key) s.name o.records _ _ := .read
          (s := Source.fresh (.ofStream o.records) (keyerOf s) o.gate) [] o.records rfl .nil
          fun _ => rfl
        exact .some ⟨s, o, hs, ho, hfresh⟩

theorem twins_checks : Source.Twins (Checks j opened) (Unsorted w j) := by
  have hmono : ∀ {n x o} {p q : Source Value Text × Except Fault Unit},
      j.sources[n]? = some x → opened[n]? = some o →
      Action.Abreast (Source.Checked (KeyField.keyOf x.key) x.name o.records)
        (Stream.Falls (KeyField.keyOf x.key) x.name o.records) p q →
      Action.Abreast (Checks j opened n) (Unsorted w j) p q := by
    intro n x o p q hx ho h
    refine h.mono (fun s t hst => ⟨x, o, hx, ho, hst⟩) fun f hf => ?_
    exact ⟨x, List.mem_of_getElem? hx, o.records, (opens_getElem hopen hx ho).records, hf⟩
  refine ⟨?_, ?_, ?_⟩
  · rintro n s t ⟨x, o, -, -, h⟩
    exact h.showsAs
  · rintro n isOpen s t ⟨x, o, hx, ho, h⟩
    exact hmono hx ho (Source.keeps_read_checked isOpen s t h)
  · rintro n key s t ⟨x, o, hx, ho, h⟩
    exact hmono hx ho (Source.keeps_synchronize_checked key s t h)

/-- With the check there is the same report, or a source of which the keys fall. -/
theorem reportOf_checkOrder (budget : ℕ) (keep : Bool) (r : Report) :
    (∃ f, Unsorted w j f ∧
        (reportOf budget keep r (engineOf { j with checkOrder := true } opened)).1 = .error f) ∨
      reportOf budget keep r (engineOf { j with checkOrder := true } opened) =
        reportOf budget keep r (engineOf { j with checkOrder := false } opened) := by
  unfold reportOf
  rcases Engine.fold_abreast (twins_checks hopen) (fun r s => .ok (r.record keep showKey s))
    (beside_engineOf hopen) budget r .fresh with ⟨f, hf, ho⟩ | heq
  · left
    exact ⟨f, hf, by simp [Engine.Folded.conclusion, ho, Except.map]⟩
  · right
    rw [heq]
    rfl

end Open

/-- With the check the job does the same, or it fails with the fault of a source of which the keys
fall. -/
theorem runIn_checkOrder (budget : ℕ) (w : Workspace) (keep : Bool) (j : JobEntry) (c : RunContext)
    (clock : Clock) :
    (∃ f, Unsorted w j f ∧
        (runIn budget w keep { j with checkOrder := true } c clock).report = .error f) ∨
      runIn budget w keep { j with checkOrder := true } c clock =
        runIn budget w keep { j with checkOrder := false } c clock := by
  unfold runIn build
  dsimp only
  cases ho : (openAll w (byName j.ruptures) j.sources).2 with
  | error f => exact Or.inr rfl
  | ok opened =>
    cases c.runId with
    | error f => exact Or.inr rfl
    | ok runId =>
      simp only [Except.map]
      rcases reportOf_checkOrder (openAll_eq_ok.1 ho) budget keep
        (.start c.jobName runId (j.sources.map (·.name)) ((byName j.ruptures).map (·.name)))
        with ⟨f, hf, hr⟩ | heq
      · left
        exact ⟨f, hf, by rw [hr]⟩
      · right
        rw [heq]

theorem runWithin_eq_or_unsorted (budget : ℕ) (w : Workspace) (keep : Bool) (j : JobEntry)
    (context : Option RunContext) (clock : Clock) :
    (∃ f, Unsorted w j f ∧
        (runWithin budget w keep { j with checkOrder := true } context clock).report = .error f) ∨
      runWithin budget w keep { j with checkOrder := true } context clock =
        runWithin budget w keep { j with checkOrder := false } context clock := by
  cases context with
  | some c => exact runIn_checkOrder budget w keep j c clock
  | none => exact runIn_checkOrder budget w keep j _ _

/-- In a job that comes to its end with the check no keys fall. -/
theorem isChain_of_runWithin {r : Report}
    (h : (runWithin budget w keep { j with checkOrder := true } context clock).report = .ok r)
    {s : SourceEntry} (hs : s ∈ j.sources) {records : Stream Value}
    (ho : Records.openSource w s = .ok records) :
    (Stream.keys (KeyField.keyOf s.key) records).IsChain (· ≤ ·) := by
  obtain ⟨e, -, -, -, hb, hended, hok, -⟩ := exists_of_runWithin h
  obtain ⟨n, hn⟩ := List.mem_iff_getElem?.1 hs
  obtain ⟨o, -, hopened, hfault, -⟩ := exists_presents hb hended hok hn
  obtain rfl : records = o.records := Except.ok.inj (ho.symm.trans hopened.records)
  exact Stream.isChain_of_orderedFrom hfault

/-- **Checking the order changes nothing where the keys are in order, and misses nothing where they
are not.**  If the keys of every source do not fall, as far as it can be read and its records have
keys, then a run with the check is the run without it, in every respect and for every budget of
steps.  If the keys of some source fall and the run without the check ends with a report, then the
run with the check fails with the fault of a source of which the keys fall. -/
theorem runWithin_checkOrder (budget : ℕ) (w : Workspace) (keep : Bool) (j : JobEntry)
    (context : Option RunContext) (clock : Clock) :
    ((∀ s ∈ j.sources, ∀ records, Records.openSource w s = .ok records →
        (Stream.keys (KeyField.keyOf s.key) records).Pairwise (· ≤ ·)) →
      runWithin budget w keep { j with checkOrder := true } context clock =
        runWithin budget w keep { j with checkOrder := false } context clock) ∧
    ∀ r, (runWithin budget w keep { j with checkOrder := false } context clock).report = .ok r →
      ∀ s ∈ j.sources, ∀ records, Records.openSource w s = .ok records →
        ¬ (Stream.keys (KeyField.keyOf s.key) records).Pairwise (· ≤ ·) →
        ∃ f, Unsorted w j f ∧
          (runWithin budget w keep { j with checkOrder := true } context clock).report =
            .error f := by
  constructor
  · intro hsorted
    rcases runWithin_eq_or_unsorted budget w keep j context clock with ⟨f, hf, -⟩ | heq
    · obtain ⟨s, hs, records, ho, hfalls⟩ := hf
      cases hfalls with
      | here h => exact absurd (List.isChain_iff_pairwise.2 (hsorted s hs records ho)) h.not_isChain
    · exact heq
  · intro r hr s hs records ho hfalls
    rcases runWithin_eq_or_unsorted budget w keep j context clock with hf | heq
    · exact hf
    · rw [← heq] at hr
      exact absurd (List.isChain_iff_pairwise.1 (isChain_of_runWithin hr hs ho)) hfalls

/-- A file in order, and a file of which the keys fall. -/
theorem runWithin_checkOrder_two_files :
    let w : Workspace := .ofFiles [(['a'], [107, 10, 97, 10, 98, 10]),
      (['b'], [107, 10, 98, 10, 97, 10])]
    let source (file : Char) : SourceEntry :=
      ⟨[file], ⟨.here, [[file]]⟩, .delimited, [⟨['k'], .whole⟩], none, [',']⟩
    let job (file : Char) : JobEntry := ⟨JobEntry.defaultName, false, [], [source file]⟩
    let keys (file : Char) :=
      (Records.openSource w (source file)).map (Stream.keys (KeyField.keyOf (source file).key))
    let report (file : Char) (check : Bool) :=
      (runWithin 9 w true { job file with checkOrder := check } none ⟨0, 0⟩).report
    keys 'a' = .ok [['a'], ['b']] ∧ report 'a' true = report 'a' false ∧
      keys 'b' = .ok [['b'], ['a']] ∧ (∃ r, report 'b' false = .ok r) ∧
      ∃ f, Unsorted w (job 'b') f ∧ report 'b' true = .error f := by
  intro w source job keys report
  have ha : keys 'a' = .ok [['a'], ['b']] := by decide +kernel
  have hb : keys 'b' = .ok [['b'], ['a']] := by decide +kernel
  have hok : (report 'b' false).toOption.isSome = true := by decide +kernel
  refine ⟨ha, ?_, hb, ?_⟩
  · refine congrArg Outcome.report ((runWithin_checkOrder 9 w true (job 'a') none ⟨0, 0⟩).1 ?_)
    intro s hs records ho
    obtain rfl : s = source 'a' := List.mem_singleton.1 hs
    simp only [keys, ho] at ha
    rw [Except.ok.inj ha]
    decide
  · cases hr : report 'b' false with
    | error f =>
      rw [hr] at hok
      cases hok
    | ok r =>
      refine ⟨⟨r, rfl⟩, ?_⟩
      cases ho : Records.openSource w (source 'b') with
      | error f =>
        simp only [keys, ho] at hb
        cases hb
      | ok records =>
        refine (runWithin_checkOrder 9 w true (job 'b') none ⟨0, 0⟩).2 r hr (source 'b')
          (List.mem_singleton_self _) records ho ?_
        simp only [keys, ho] at hb
        rw [Except.ok.inj hb]
        decide

end Job

end Lockstep
