import Mathlib.Data.List.Count
import Mathlib.Data.List.Nodup
import Lockstep.Proofs.Sessions

/-!
# What is registered

Sources are registered as they are named, one after the other and as often as they are named.  A
rupture is mentioned when it is named, or when a source is named that it gates, and it is registered
where it is mentioned first.  So the registered ruptures are those that were mentioned, each of them
once and in the order of their first mention (`FirstMentions`); this is kept by every registration
(`Synchronization.Lists`).  Ruptures are told apart by their numbers and not by their names.

Since none is registered twice, a step computes each of them once, from where it was before the
step, and forces it exactly if a rupture that was mentioned before it breaks (`Engine.Computes`).
`serveAll_registers` says so of every sequence of requests that comes before the start, and of every
step of a run of what was registered, in whatever state the run is resumed.
-/

namespace Lockstep

variable {ρ κ : Type}

/-! ### First mentions -/

/-- The list has each of the items that were mentioned once, in the order of their first mention. -/
structure FirstMentions (js ms : List ℕ) : Prop where
  nodup : js.Nodup
  mem_iff : ∀ j, j ∈ js ↔ j ∈ ms
  ordered : js.Pairwise fun i j => ms.idxOf i < ms.idxOf j

namespace FirstMentions

variable {js ms : List ℕ} {i j l : ℕ}

theorem nil : FirstMentions [] [] := ⟨List.nodup_nil, fun _ => Iff.rfl, List.Pairwise.nil⟩

variable (h : FirstMentions js ms)

include h

/-- What was mentioned keeps the place of its first mention. -/
theorem ordered_append (l : List ℕ) :
    js.Pairwise fun i j => (ms ++ l).idxOf i < (ms ++ l).idxOf j := by
  refine h.ordered.imp_of_mem fun hi hj hij => ?_
  rwa [List.idxOf_append_of_mem ((h.mem_iff _).1 hi), List.idxOf_append_of_mem ((h.mem_iff _).1 hj)]

theorem concat_of_mem (hj : j ∈ js) : FirstMentions js (ms ++ [j]) where
  nodup := h.nodup
  mem_iff := by
    intro l
    rw [List.mem_append, ← h.mem_iff, List.mem_singleton]
    exact ⟨.inl, fun hl => hl.elim id fun hl => hl ▸ hj⟩
  ordered := h.ordered_append [j]

theorem concat_of_notMem (hj : j ∉ js) : FirstMentions (js ++ [j]) (ms ++ [j]) where
  nodup := List.nodup_append.2 ⟨h.nodup, List.nodup_singleton j, by
    rintro l hl _ hmem rfl
    exact hj (List.mem_singleton.1 hmem ▸ hl)⟩
  mem_iff := by
    intro l
    rw [List.mem_append, List.mem_append, h.mem_iff]
  ordered := by
    refine List.pairwise_append.2 ⟨h.ordered_append [j], List.pairwise_singleton _ _, ?_⟩
    intro i hi l hl
    have hi := (h.mem_iff i).1 hi
    have hj := mt (h.mem_iff j).2 hj
    rw [List.mem_singleton.1 hl, List.idxOf_append_of_mem hi, List.idxOf_append_of_notMem hj]
    exact (List.idxOf_lt_length_of_mem hi).trans_le (Nat.le_add_right _ _)

/-- In front of an item stand those that were mentioned before it. -/
theorem mem_take_iff (hj : js[i]? = some j) :
    l ∈ js.take i ↔ l ∈ ms ∧ ms.idxOf l < ms.idxOf j := by
  obtain ⟨hi, rfl⟩ := List.getElem?_eq_some_iff.1 hj
  have hlt := List.pairwise_iff_getElem.1 h.ordered
  rw [List.mem_take_iff_getElem, ← h.mem_iff]
  constructor
  · rintro ⟨k, hk, rfl⟩
    exact ⟨List.getElem_mem _, hlt k i _ hi (by omega)⟩
  · rintro ⟨hl, hbefore⟩
    obtain ⟨k, hk, rfl⟩ := List.mem_iff_getElem.1 hl
    refine ⟨k, ?_, rfl⟩
    by_contra hge
    rcases Nat.lt_or_ge i k with hik | hki
    · exact absurd hbefore (hlt i k hi hk hik).not_gt
    · obtain rfl : k = i := by omega
      exact absurd hbefore (lt_irrefl _)

end FirstMentions

/-! ### Registrations -/

namespace Synchronization

/-- These sources are registered, and the ruptures that were mentioned. -/
structure Lists (y : Synchronization κ) (is ms : List ℕ) : Prop where
  sources : y.sources = is
  ruptures : FirstMentions y.ruptures ms

namespace Lists

variable {y : Synchronization κ} {is ms : List ℕ} (h : y.Lists is ms)

include h

theorem registerRupture (j : ℕ) : (y.registerRupture j).Lists is (ms ++ [j]) where
  sources := (registerRupture_sources y j).trans h.sources
  ruptures := by
    unfold Synchronization.registerRupture
    split
    · next hj => exact h.ruptures.concat_of_mem (by simpa using hj)
    · next hj => exact h.ruptures.concat_of_notMem (by simpa using hj)

theorem registerSource (gate : ℕ → Option ℕ) (i : ℕ) :
    (y.registerSource gate i).Lists (is ++ [i]) (ms ++ (gate i).toList) := by
  have hsource :
      ({ y with sources := y.sources ++ [i] } : Synchronization κ).Lists (is ++ [i]) ms :=
    ⟨congrArg (· ++ [i]) h.sources, h.ruptures⟩
  unfold Synchronization.registerSource
  dsimp only
  split
  · next hg => simpa [hg] using hsource
  · next j hg => simpa [hg] using hsource.registerRupture j

omit h in
theorem foldl_registerRupture (js : List ℕ) {y : Synchronization κ} {ms : List ℕ}
    (h : y.Lists is ms) :
    (js.foldl Synchronization.registerRupture y).Lists is (ms ++ js) := by
  induction js generalizing y ms with
  | nil => simpa using h
  | cons j js ih => simpa using ih (h.registerRupture j)

omit h in
theorem foldl_registerSource (gate : ℕ → Option ℕ) (ks : List ℕ) {y : Synchronization κ}
    {is ms : List ℕ} (h : y.Lists is ms) :
    (ks.foldl (Synchronization.registerSource gate) y).Lists (is ++ ks)
      (ms ++ ks.filterMap gate) := by
  induction ks generalizing y is ms with
  | nil => simpa using h
  | cons k ks ih =>
    have hrest := ih (h.registerSource gate k)
    cases hg : gate k <;> simpa [hg] using hrest

end Lists

end Synchronization

namespace Request

/-- The sources that a request names. -/
def named : Request ρ κ → List ℕ
  | .addSources is => is
  | _ => []

/-- The ruptures that a request mentions: those that it names, and those that gate the sources that
it names. -/
def mentions (sources : List (Source ρ κ)) : Request ρ κ → List ℕ
  | .addSources is => is.filterMap fun i => (sources[i]?).bind (·.gate)
  | .addRuptures js => js
  | _ => []

theorem lists_registered {sources : List (Source ρ κ)} {y : Synchronization κ} {is ms : List ℕ}
    (h : y.Lists is ms) (q : Request ρ κ) :
    (registered sources y q).Lists (is ++ q.named) (ms ++ q.mentions sources) := by
  cases q with
  | addSources ks => exact .foldl_registerSource _ ks h
  | addRuptures js =>
    simpa [registered, named, mentions] using Synchronization.Lists.foldl_registerRupture js h
  | _ => simpa [registered, named, mentions] using h

theorem lists_registrations (sources : List (Source ρ κ)) (qs : List (Request ρ κ)) :
    (registrations sources qs).Lists (qs.flatMap named) (qs.flatMap (mentions sources)) := by
  induction qs using List.reverseRecOn with
  | nil => exact ⟨rfl, FirstMentions.nil⟩
  | append_singleton qs q ih =>
    rw [registrations_concat]
    simpa using lists_registered ih q

end Request

/-! ### Steps -/

variable [SyncKey κ]

namespace Engine

/-- For the step `t`, between `d` and `d'`, each of the ruptures that were mentioned has been
computed once, from where it was in `d`, and forced exactly if one that was mentioned before it
breaks; and no other rupture has been computed. -/
structure Computes (d : Engine ρ κ) (ms : List ℕ) (t : Step ρ κ) (d' : Engine ρ κ) : Prop where
  once : ∀ j ∈ ms, ∀ r, d.pool.ruptures[j]? = some r → ∃ forced last,
    (r.compute t.key (d'.sync.nextKey.getD .done) forced).2 = .ok last ∧
    d'.pool.ruptures[j]? = some (r.compute t.key (d'.sync.nextKey.getD .done) forced).1 ∧
    (forced = true ↔ ∃ i ∈ ms, ms.idxOf i < ms.idxOf j ∧ ∃ s, d.pool.ruptures[i]? = some s ∧
      s.breaks t.key (d'.sync.nextKey.getD .done) = .ok true)
  others : ∀ j ∉ ms, d'.pool.ruptures[j]? = d.pool.ruptures[j]?

theorem Makes.computes {d d' : Engine ρ κ} {t : Step ρ κ} {ms : List ℕ} (h : d.Makes t d')
    (hms : FirstMentions d.sync.ruptures ms) : d.Computes ms t d' := by
  obtain ⟨c, hturn, -, hruptures, hpool, ht⟩ := h
  obtain ⟨p, f, hp, hs, hc⟩ := turn_eq_ok hturn
  rw [hruptures] at hc
  rw [hpool] at hp
  have hkey : t.key = c.sync.nextKey.getD .done := by
    rw [ht, snapshot, hs]
  have hnext : d'.sync.nextKey.getD .done = f := by rw [hs, Option.getD_some]
  have hd' : d'.pool = _ := (congrArg Prod.fst hc).symm
  constructor
  · intro j hj r hr
    obtain ⟨i, hi⟩ := List.mem_iff_getElem?.1 ((hms.mem_iff j).2 hj)
    obtain ⟨forced, last, hlast, hget, hforced⟩ :=
      Pool.cascade_compute hms.nodup (congrArg Prod.snd hc) hi (hp ▸ hr)
    rw [hkey, hnext]
    refine ⟨forced, last, hlast, by rw [hd', hget], hforced.trans ?_⟩
    simp only [Bool.false_eq_true, false_or, Pool.Breaks, hms.mem_take_iff hi, and_assoc, hp]
  · intro j hj
    rw [hd', Pool.cascade_of_notMem (mt (hms.mem_iff j).1 hj), hp]

/-- These sources are registered and these ruptures were mentioned: each rupture, so that of each
gated source, is registered once, and every step that the engine makes with what is registered
computes it once. -/
structure Registers (e : Engine ρ κ) (is ms : List ℕ) : Prop where
  sources : e.sync.sources = is
  ruptures : FirstMentions e.sync.ruptures ms
  gated : ∀ i ∈ e.sync.sources, ∀ s, e.pool.sources[i]? = some s → ∀ j, s.gate = some j →
    j ∈ ms ∧ e.sync.ruptures.count j = 1
  computes : ∀ d : Engine ρ κ, d.sync.ruptures = e.sync.ruptures → ∀ g budget n t,
    (d.drain budget g).result[n]? = some t →
      (d.drain n g).engine.Computes ms t (d.drain (n + 1) g).engine

/-- What was registered computes each rupture once. -/
theorem registers_registrations (sources : List (Source ρ κ)) (ruptures : List (Rupture κ))
    (qs : List (Request ρ κ)) :
    Registers ⟨⟨sources, ruptures⟩, Request.registrations sources qs⟩ (qs.flatMap Request.named)
      (qs.flatMap (Request.mentions sources)) := by
  have h := Request.lists_registrations sources qs
  refine ⟨h.sources, h.ruptures, ?_, ?_⟩
  · intro i hi s hs j hj
    have hmem : j ∈ qs.flatMap (Request.mentions sources) := by
      -- the source was named by some request, which has mentioned its gate
      obtain ⟨q, hq, hi⟩ := List.mem_flatMap.1 (h.sources ▸ hi)
      refine List.mem_flatMap.2 ⟨q, hq, ?_⟩
      cases q with
      | addSources is =>
        have hs : sources[i]? = some s := hs
        exact List.mem_filterMap.2 ⟨i, hi, by simp [hs, hj]⟩
      | _ => simp [Request.named] at hi
    exact ⟨hmem, List.count_eq_one_of_mem h.ruptures.nodup ((h.ruptures.mem_iff j).2 hmem)⟩
  · intro d hd g budget n t ht
    refine (makes_drain ht).computes ?_
    have hkept : (d.drain n g).engine.sync.ruptures = d.sync.ruptures :=
      (fold_registered collect n [] d g).2.1
    rw [hkept, hd]
    exact h.ruptures

end Engine

omit [SyncKey κ] in
/-- A registration starts nothing. -/
theorem Session.not_starts_of_registers {s : Session ρ κ} {q : Request ρ κ}
    (h : q.registers = true) : ¬ s.starts q := by
  cases q with
  | addSources => exact id
  | addRuptures => exact id
  | _ => cases h

/-- **Each rupture is registered once, where it is mentioned first.**  A sequence of registrations
starts nothing.  As long as nothing is started every request is accepted, the registered sources are
those that were named, in order, and the registered ruptures are those that were mentioned, each of
them once and in the order of their first mention; so every step computes each of them once and
forces it exactly if one that was mentioned before it breaks. -/
theorem serveAll_registers (sources : List (Source ρ κ)) (ruptures : List (Rupture κ))
    (qs : List (Request ρ κ)) :
    let t := (Session.start sources ruptures 1).serveAll qs
    let e := t.1.engine 0
    ((∀ q ∈ qs, q.registers = true) → e.sync.started = false) ∧
      (e.sync.started = false → (∀ a ∈ t.2, a = ⟨[], .ok ()⟩) ∧ e.pool = ⟨sources, ruptures⟩ ∧
        e.Registers (qs.flatMap Request.named) (qs.flatMap (Request.mentions sources))) := by
  intro t e
  rcases waiting_or_underway sources ruptures qs with hw | ⟨before, q, after, hqs, -, hq, hu⟩
  · have he : e = _ := hw.engine
    refine ⟨fun _ => hw.unstarted, fun _ => ⟨hw.silent, congrArg Engine.pool he, ?_⟩⟩
    rw [he]
    exact Engine.registers_registrations sources ruptures qs
  · have hs : e.sync.started = true := hu.started
    rw [hs]
    refine ⟨fun hall => ?_, fun h => by cases h⟩
    exact absurd hq (Session.not_starts_of_registers
      (hall q (hqs ▸ List.mem_append_right before List.mem_cons_self)))

/-- Two ruptures of one name and a third one, mentioned repeatedly, and a source that is registered
twice.  At the second step the second letter changes, so of the ruptures in the order of their first
mention the first one does not break, the second one does, and the third one is forced. -/
theorem serveAll_registers_repeated :
    let ss : List (Supply Text) := [.ofList [['a', 'x'], ['b', 'y']] id (some 1),
      .ofList [['a', 'x'], ['a', 'x'], ['a', 'y'], ['b', 'y']] id none,
      .ofList [['a'], ['b']] id (some 0)]
    let rs : List (Rupture Text) := [.fresh ['g'] (Rupture.leading 1),
      .fresh ['g'] (Rupture.leading 2), .fresh ['h'] Rupture.whole]
    let qs : List (Request Text Text) := [.addSources [2], .addRuptures [1, 0], .begin,
      .addSources [1, 0, 2], .addRuptures [2, 2, 1]]
    let ms := [0, 1, 0, 1, 0, 2, 2, 1]
    let e := ((Session.start (ss.map Supply.fresh) rs 1).serveAll qs).1.engine 0
    e.sync.started = false ∧ e.sync.sources = [2, 1, 0, 2] ∧ e.sync.ruptures = [0, 1, 2] ∧
      FirstMentions e.sync.ruptures ms ∧ e.sync.ruptures.count 1 = 1 ∧
      ∃ t, (e.drain 10 .fresh).result[1]? = some t ∧
        t.edges = [(false, false), (false, true), (false, true)] ∧
        (e.drain 1 .fresh).engine.Computes ms t (e.drain 2 .fresh).engine := by
  intro ss rs qs ms e
  have hs : e.sync.started = false := by decide +kernel
  obtain ⟨-, h⟩ := serveAll_registers (ss.map Supply.fresh) rs qs
  obtain ⟨-, hpool, hr⟩ := h hs
  have hsources : e.sync.sources = [2, 1, 0, 2] := hr.sources
  have hruptures : e.sync.ruptures = [0, 1, 2] := by decide +kernel
  have hfirst : e.pool.sources[0]? = some ss[0].fresh := by rw [hpool]; rfl
  have hmem : 0 ∈ e.sync.sources := by rw [hsources]; decide
  obtain ⟨-, hcount⟩ := hr.gated 0 hmem _ hfirst 1 rfl
  have hsecond : ((e.drain 10 .fresh).result.map (·.edges))[1]? =
      some [(false, false), (false, true), (false, true)] := by decide +kernel
  rw [List.getElem?_map] at hsecond
  obtain ⟨t, ht, hedges⟩ := Option.map_eq_some_iff.1 hsecond
  exact ⟨hs, hsources, hruptures, hr.ruptures, hcount, t, ht, hedges,
    hr.computes e rfl .fresh 10 1 t ht⟩

end Lockstep
