import Mathlib.Data.List.Nodup
import Lockstep.Proofs.Engine.Paired
import Lockstep.Proofs.Engine.Requests

/-!
# Ruptures that gate no source do not interfere

Further ruptures that gate no source and whose extractors do not fail change nothing of a run but
the edges of the ruptures behind them, provided that those do not gate a source either
(`drain_watching`).  Registered last they change no edge at all.

Such ruptures force those behind them, and forcing goes in the order of registration.  Between two
steps the engines differ in nothing but the ruptures that are further or behind (`Engine.Apart`).
No source is read because of these, so the phases before the cascade do the same in both
(`keeps_readPhase_apart` and the lemmas after it), and the cascade does the same to all ruptures in
front (`cascade_apart`).

A rupture that is forced does not ask its extractor.  So a run can go on with the further ruptures
where it fails without them: in an extractor of a rupture behind them.
-/

namespace Lockstep

variable {ρ κ : Type}

theorem map_eq_map_of_forall₂ {α β γ : Type} {f : α → γ} {g : β → γ} {l : List α} {l' : List β}
    (h : List.Forall₂ (fun a b => f a = g b) l l') : l.map f = l'.map g := by
  rw [← List.forall₂_eq_eq_eq, List.forall₂_map_left_iff, List.forall₂_map_right_iff]
  exact h

/-- The step as far as the edges of the first `n` ruptures. -/
def Step.upTo (n : ℕ) (t : Step ρ κ) : Step ρ κ := { t with edges := t.edges.take n }

theorem Step.upTo_eq_self {n : ℕ} {t : Step ρ κ} (h : t.edges.length = n) : t.upTo n = t := by
  rw [Step.upTo, ← h, List.take_length]

namespace Source

theorem fill_gate (s : Source ρ κ) : s.fill.1.gate = s.gate := by
  unfold fill
  dsimp only
  split
  · rfl
  · rfl
  · split <;> rfl

theorem read_gate (s : Source ρ κ) (isOpen : Bool) : (s.read isOpen).1.gate = s.gate := by
  unfold read
  split
  · split
    · rfl
    · exact fill_gate s.shift
  · rfl

theorem synchronize_gate [SyncKey κ] (s : Source ρ κ) (key : Frontier κ) :
    (s.synchronize key).1.gate = s.gate := by
  unfold synchronize
  split <;> rfl

end Source

namespace Rupture

variable [SyncKey κ] {r s : Rupture κ} {current next : Frontier κ} {force : Bool}

/-- Where a group ends is told by the extractor. -/
theorem breaks_congr (h : s.extract = r.extract) :
    s.breaks current next = r.breaks current next := by
  unfold breaks changes
  rw [h]

/-- The extractor does not fail on either of the two frontiers. -/
def Sure (g : κ → Except Fault κ) (current next : Frontier κ) : Prop :=
  ∀ k, current = .key k ∨ next = .key k → ∀ f, g k ≠ .error f

omit [SyncKey κ] in
theorem Sure.exists_ok {g : κ → Except Fault κ} (h : Sure g current next) {k : κ}
    (hk : current = .key k ∨ next = .key k) : ∃ a, g k = .ok a := by
  cases hg : g k with
  | ok a => exact ⟨a, rfl⟩
  | error f => exact absurd hg (h k hk f)

/-- Where the extractor does not fail, the rupture finds its last edge. -/
theorem Sure.exists_compute (h : Sure r.extract current next) (force : Bool) :
    ∃ b, (r.compute current next force).2 = .ok b ∧ (force = true → b = true) := by
  rw [compute_outcome]
  cases force with
  | true => exact ⟨true, rfl, fun _ => rfl⟩
  | false =>
    suffices hb : ∃ b, r.breaks current next = .ok b by
      obtain ⟨b, hb⟩ := hb
      exact ⟨b, hb, fun hf => by cases hf⟩
    cases current with
    | done => cases next <;> exact ⟨_, rfl⟩
    | key a =>
      cases next with
      | done => exact ⟨_, rfl⟩
      | key b =>
        obtain ⟨c, hc⟩ := h.exists_ok (.inl rfl)
        obtain ⟨d, hd⟩ := h.exists_ok (.inr rfl)
        exact ⟨!SyncKey.same c d, by simp [breaks, changes, hc, hd]⟩

end Rupture

namespace Pool

variable {x : ℕ → Option (κ → Except Fault κ)} {is js : List ℕ} {p q : Pool ρ κ}

/-- No source with one of the numbers `is` has one of the ruptures `js` as its gate. -/
def Spares (p : Pool ρ κ) (is js : List ℕ) : Prop :=
  ∀ i ∈ is, ∀ s, p.sources[i]? = some s → ∀ j ∈ js, s.gate ≠ some j

/-- The pools have the same sources, and differ at most in the ruptures `js`, which gate none of the
sources `is`; and in both rupture `j` has the extractor `x j`. -/
structure Apart (x : ℕ → Option (κ → Except Fault κ)) (is js : List ℕ) (p q : Pool ρ κ) :
    Prop where
  sources : q.sources = p.sources
  spares : p.Spares is js
  ruptures : ∀ j ∉ js, q.ruptures[j]? = p.ruptures[j]?
  left : ∀ j, (p.ruptures[j]?).map (·.extract) = x j
  right : ∀ j, (q.ruptures[j]?).map (·.extract) = x j

/-! ### Sources -/

theorem Spares.setSource (h : p.Spares is js) {i : ℕ} {s t : Source ρ κ}
    (hs : p.sources[i]? = some s) (ht : t.gate = s.gate) : (p.setSource i t).Spares is js := by
  intro k hk u hu
  by_cases hki : i = k
  · subst hki
    have hlt := (List.getElem?_eq_some_iff.1 hs).1
    obtain rfl : t = u := by simpa [Pool.setSource, hlt] using hu
    rw [ht]
    exact h i hk s hs
  · rw [Pool.setSource, List.getElem?_set_ne hki] at hu
    exact h k hk u hu

theorem Apart.setSource (h : Apart x is js p q) {i : ℕ} {s t : Source ρ κ}
    (hs : p.sources[i]? = some s) (ht : t.gate = s.gate) :
    Apart x is js (p.setSource i t) (q.setSource i t) where
  sources := by simp only [Pool.setSource, h.sources]
  spares := h.spares.setSource hs ht
  ruptures := h.ruptures
  left := h.left
  right := h.right

theorem Apart.opens_eq (h : Apart x is js p q) {g : Option ℕ} (hg : ∀ j ∈ js, g ≠ some j) :
    opens q.ruptures g = opens p.ruptures g := by
  cases g with
  | none => rfl
  | some j => rw [opens, opens, h.ruptures j fun hj => hg j hj rfl]

/-- What does the same to a source in both pools leaves them apart in the ruptures only. -/
theorem keeps_onSource_apart {f : List (Rupture κ) → Source ρ κ → Source ρ κ × Except Fault Unit}
    {U : Fault → Prop} {i : ℕ} (hi : i ∈ is) (hgate : ∀ rs s, (f rs s).1.gate = s.gate)
    (hf : ∀ (p q : Pool ρ κ) s, Apart x is js p q → (∀ j ∈ js, s.gate ≠ some j) →
      f q.ruptures s = f p.ruptures s) :
    Action.Keeps (Apart x is js) U (onSource f i) := by
  intro p q h
  unfold onSource
  rw [h.sources]
  cases hp : p.sources[i]? with
  | none => exact .done h
  | some s =>
    dsimp only
    rw [hf p q s h (h.spares i hi s hp)]
    cases (f p.ruptures s).2 with
    | error g => exact .failed _ _ g
    | ok _ => exact .done (h.setSource hp (hgate _ s))

/-! ### Ruptures -/

theorem Apart.symm (h : Apart x is js p q) : Apart x is js q p where
  sources := h.sources.symm
  spares := by
    unfold Spares
    rw [h.sources]
    exact h.spares
  ruptures := fun j hj => (h.ruptures j hj).symm
  left := h.right
  right := h.left

/-- What happens to the ruptures `js` of the one pool leaves it apart in these only. -/
theorem Apart.setLeft (h : Apart x is js p q) {j : ℕ} (hj : j ∈ js) {r s : Rupture κ}
    (hr : p.ruptures[j]? = some r) (hs : s.extract = r.extract) :
    Apart x is js (p.setRupture j s) q where
  sources := h.sources
  spares := h.spares
  ruptures := by
    intro i hi
    have hji : j ≠ i := by
      rintro rfl
      exact hi hj
    rw [getElem?_setRupture_ne _ hji, h.ruptures i hi]
  left := fun i => (getElem?_setRupture_extract hr hs i).trans (h.left i)
  right := h.right

/-- The same change of one more rupture leaves the pools apart. -/
theorem Apart.setBoth (h : Apart x is js p q) {j : ℕ} {r s : Rupture κ}
    (hr : p.ruptures[j]? = some r) (hr' : q.ruptures[j]? = some r) (hs : s.extract = r.extract) :
    Apart x is js (p.setRupture j s) (q.setRupture j s) where
  sources := h.sources
  spares := h.spares
  ruptures := by
    intro i hi
    by_cases hji : j = i
    · subst hji
      rw [getElem?_setRupture_self hr, getElem?_setRupture_self hr']
    · rw [getElem?_setRupture_ne _ hji, getElem?_setRupture_ne _ hji, h.ruptures i hi]
  left := fun i => (getElem?_setRupture_extract hr hs i).trans (h.left i)
  right := fun i => (getElem?_setRupture_extract hr' hs i).trans (h.right i)

/-- The same rupture stands in both pools, or none does. -/
theorem Apart.rupture_cases (h : Apart x is js p q) (j : ℕ) :
    (p.ruptures[j]? = none ∧ q.ruptures[j]? = none) ∨ ∃ r s, p.ruptures[j]? = some r ∧
      q.ruptures[j]? = some s ∧ s.extract = r.extract ∧ x j = some r.extract := by
  have hl := h.left j
  have hr := h.right j
  cases hp : p.ruptures[j]? with
  | none =>
    rw [hp] at hl
    rw [← hl] at hr
    exact .inl ⟨rfl, Option.map_eq_none_iff.1 hr⟩
  | some r =>
    rw [hp] at hl
    rw [← hl] at hr
    obtain ⟨s, hs, he⟩ := Option.map_eq_some_iff.1 hr
    exact .inr ⟨r, s, rfl, hs, he, hl.symm⟩

/-- The edges of the ruptures in front are the first ones. -/
theorem edges_append_take {as : List ℕ} (h : ∀ j ∈ as, j < p.ruptures.length) :
    (p.edges (as ++ js)).take as.length = p.edges as := by
  have hl : (p.edges as).length = as.length := by rw [edges_eq_map h, List.length_map]
  rw [edges, List.filterMap_append]
  exact List.take_left' hl

variable [SyncKey κ] {current next : Frontier κ} {force force' : Bool} {as ins bs : List ℕ}
  {U : Fault → Prop}

/-- Ruptures that are forced where others are not go on with them, or the others fail. -/
theorem cascade_behind (hU : ∀ j ∈ bs, ∀ g, x j = some g → ∀ k f, g k = .error f → U f)
    (hbs : bs ⊆ js) (hforce : force' = true → force = true) (h : Apart x is js p q) :
    Action.Abreast (Apart x is js) U (cascade current next force bs p)
      (cascade current next force' bs q) := by
  induction bs generalizing p q force force' with
  | nil => exact .done h
  | cons j bs ih =>
    obtain ⟨hUj, hU⟩ := List.forall_mem_cons.1 hU
    obtain ⟨hj, hbs⟩ := List.cons_subset.1 hbs
    rcases h.rupture_cases j with ⟨hp, hq⟩ | ⟨r, s, hp, hq, hrs, hx⟩
    · rw [cascade_cons_none hp, cascade_cons_none hq]
      exact ih hU hbs hforce h
    · cases hs : (s.compute current next force').2 with
      | error f =>
        rw [cascade_cons_error hq hs]
        obtain ⟨k, hk⟩ := Rupture.compute_error hs
        exact .excused (hUj _ hx k f (hrs ▸ hk))
      | ok b' =>
        have hr : ∃ b, (r.compute current next force).2 = .ok b ∧ (b' = true → b = true) := by
          rw [Rupture.compute_outcome] at hs ⊢
          rw [Rupture.breaks_congr hrs] at hs
          cases force with
          | true => exact ⟨true, rfl, fun _ => rfl⟩
          | false =>
            obtain rfl : force' = false := by simpa using hforce
            exact ⟨b', hs, id⟩
        obtain ⟨b, hb, hbb⟩ := hr
        rw [cascade_cons_ok hp hb, cascade_cons_ok hq hs]
        refine ih hU hbs hbb ?_
        have hl := h.setLeft hj hp (Rupture.compute_extract r current next force)
        exact (hl.symm.setLeft hj hq (Rupture.compute_extract s current next force')).symm

/-- Ruptures that do not fail are passed by. -/
theorem cascade_further (hU : ∀ j ∈ bs, ∀ g, x j = some g → ∀ k f, g k = .error f → U f)
    (hx : ∀ j ∈ ins, ∀ g, x j = some g → Rupture.Sure g current next) (hins : ins ⊆ js)
    (hbs : bs ⊆ js) (hforce : force' = true → force = true) (h : Apart x is js p q) :
    Action.Abreast (Apart x is js) U (cascade current next force (ins ++ bs) p)
      (cascade current next force' bs q) := by
  induction ins generalizing p force with
  | nil => exact cascade_behind hU hbs hforce h
  | cons j ins ih =>
    obtain ⟨hxj, hx⟩ := List.forall_mem_cons.1 hx
    obtain ⟨hj, hins⟩ := List.cons_subset.1 hins
    rw [List.cons_append]
    rcases h.rupture_cases j with ⟨hp, -⟩ | ⟨r, s, hp, -, -, hxr⟩
    · rw [cascade_cons_none hp]
      exact ih hx hins hforce h
    · obtain ⟨b, hr, hb⟩ := (hxj _ hxr).exists_compute force
      rw [cascade_cons_ok hp hr]
      exact ih hx hins (fun h' => hb (hforce h'))
        (h.setLeft hj hp (Rupture.compute_extract r current next force))

/-- The cascade does the same to the ruptures in front of the further ones.  These have to be asked
only if it succeeds without them. -/
theorem cascade_apart (hU : ∀ j ∈ bs, ∀ g, x j = some g → ∀ k f, g k = .error f → U f)
    (hx : (cascade current next force (as ++ bs) q).2 = .ok () →
      ∀ j ∈ ins, ∀ g, x j = some g → Rupture.Sure g current next)
    (has : ∀ j ∈ as, j ∉ ins ++ bs) (h : Apart x is (ins ++ bs) p q) :
    Action.Abreast (Apart x is (ins ++ bs)) U (cascade current next force (as ++ (ins ++ bs)) p)
      (cascade current next force (as ++ bs) q) := by
  induction as generalizing p q force with
  | nil =>
    simp only [List.nil_append] at hx ⊢
    rcases hq : cascade current next force bs q with ⟨t, f | u⟩
    · obtain ⟨j, hj, r, hr, k, hk⟩ := cascade_error (congrArg Prod.snd hq)
      have hxj := h.right j
      rw [hr, Option.map_some] at hxj
      exact .excused (hU j hj _ hxj.symm k f hk)
    · rw [← hq]
      exact cascade_further hU (hx (congrArg Prod.snd hq)) (List.subset_append_left _ _)
        (List.subset_append_right _ _) id h
  | cons j as ih =>
    obtain ⟨hj, has⟩ := List.forall_mem_cons.1 has
    rw [List.cons_append] at hx ⊢
    rw [List.cons_append]
    have hq := h.ruptures j hj
    cases hp : p.ruptures[j]? with
    | none =>
      rw [cascade_cons_none (hq.trans hp)] at hx ⊢
      rw [cascade_cons_none hp]
      exact ih hx has h
    | some r =>
      cases hr : (r.compute current next force).2 with
      | error f =>
        rw [cascade_cons_error hp hr, cascade_cons_error (hq.trans hp) hr]
        exact .failed _ _ f
      | ok b =>
        rw [cascade_cons_ok (hq.trans hp) hr] at hx ⊢
        rw [cascade_cons_ok hp hr]
        exact ih hx has (h.setBoth hp (hq.trans hp) (Rupture.compute_extract r current next force))

end Pool

namespace Engine

variable {x : ℕ → Option (κ → Except Fault κ)} {as ins bs : List ℕ} {d d' e : Engine ρ κ}
  {U : Fault → Prop}

/-- The engine with these ruptures registered. -/
def watching (e : Engine ρ κ) (js : List ℕ) : Engine ρ κ :=
  { e with sync := { e.sync with ruptures := js } }

/-- None of these ruptures gates a registered source. -/
def Spares (e : Engine ρ κ) (js : List ℕ) : Prop := e.pool.Spares e.sync.sources js

/-- The engines have got as far, the first one with the ruptures `ins` between the others, and they
differ at most in these and in those behind. -/
structure Apart (x : ℕ → Option (κ → Except Fault κ)) (as ins bs : List ℕ) (d d' : Engine ρ κ) :
    Prop where
  registered : d.sync.ruptures = as ++ (ins ++ bs)
  sync : d'.sync = { d.sync with ruptures := as ++ bs }
  pool : d.pool.Apart x d.sync.sources (ins ++ bs) d'.pool

/-! ### Phases -/

theorem Apart.onPool {a a' : Action (Pool ρ κ)} (h : Apart x as ins bs d d')
    (ha : Action.Abreast (Pool.Apart x d.sync.sources (ins ++ bs)) U (a d.pool) (a' d'.pool)) :
    Action.Abreast (Apart x as ins bs) U (onPool a d) (onPool a' d') := by
  refine (onPool_abreast ha).mono (fun c c' ⟨hc, hc', hp⟩ => ?_) fun _ hf => hf
  exact ⟨hc ▸ h.registered, by rw [hc', h.sync, hc], hc.symm ▸ hp⟩

theorem keeps_readPhase_apart : Action.Keeps (Apart (ρ := ρ) x as ins bs) U readPhase := by
  intro d d' h
  refine h.onPool ?_
  rw [h.sync, Pool.readAll, Pool.read_eq_onSource]
  refine Action.Keeps.forEach_mem (fun i hi => ?_) _ _ h.pool
  refine Pool.keeps_onSource_apart hi (fun rs s => s.read_gate _) fun p q s hpq hs => ?_
  rw [hpq.opens_eq hs]

theorem keeps_synchronizePhase_apart [SyncKey κ] :
    Action.Keeps (Apart (ρ := ρ) x as ins bs) U synchronizePhase := by
  intro d d' h
  refine h.onPool ?_
  rw [h.sync, Pool.synchronizeAll, Pool.synchronize_eq_onSource]
  refine Action.Keeps.forEach_mem (fun i hi => ?_) _ _ h.pool
  exact Pool.keeps_onSource_apart hi (fun rs s => s.synchronize_gate _) fun p q s _ _ => rfl

theorem keeps_keyPhase_apart [SyncKey κ] :
    Action.Keeps (Apart (ρ := ρ) x as ins bs) U keyPhase := by
  intro d d' h
  have hc : d'.candidates = d.candidates := by
    unfold candidates Pool.candidates
    rw [h.sync, h.pool.sources]
  refine (keyPhase_abreast (by rw [hc])).mono (fun c c' ⟨hp, hp', k, hk, hk'⟩ => ?_) fun _ hf => hf
  refine ⟨by rw [hk]; exact h.registered, by rw [hk', hk, h.sync], ?_⟩
  rw [hp, hp', hk]
  exact h.pool

section Turn

variable [SyncKey κ] (hU : ∀ j ∈ bs, ∀ g, x j = some g → ∀ k f, g k = .error f → U f)
  (has : ∀ j ∈ as, j ∉ ins ++ bs)

include hU has

theorem Apart.rupturePhase (h : Apart x as ins bs d d')
    (hx : (rupturePhase d').2 = .ok () → ∀ j ∈ ins, ∀ g, x j = some g →
      Rupture.Sure g (d'.sync.currentKey.getD .done) (d'.sync.nextKey.getD .done)) :
    Action.Abreast (Apart x as ins bs) U (rupturePhase d) (rupturePhase d') := by
  refine h.onPool ?_
  unfold Engine.rupturePhase Engine.onPool at hx
  rw [h.sync] at hx ⊢
  rw [h.registered]
  exact Pool.cascade_apart hU hx has h.pool

/-- A turn leaves the engines apart, unless a rupture behind the further ones fails.  These have to
be asked only if it succeeds without them. -/
theorem Apart.turn (h : Apart x as ins bs d d')
    (hx : ∀ c', d'.turn = (c', .ok ()) → ∀ j ∈ ins, ∀ g, x j = some g →
      Rupture.Sure g (d'.sync.nextKey.getD .done) (c'.sync.nextKey.getD .done)) :
    Action.Abreast (Apart x as ins bs) U d.turn d'.turn := by
  refine (keeps_readPhase_apart d d' h).andThen fun a a' _ hread ha => ?_
  refine (keeps_synchronizePhase_apart a a' ha).andThen fun b b' _ hsync hb => ?_
  refine (keeps_keyPhase_apart b b' hb).andThen fun c c' _ hkey hc => ?_
  refine hc.rupturePhase hU has fun hok => ?_
  have hcur : c'.sync.currentKey = d'.sync.nextKey := by
    obtain ⟨-, f, hf⟩ := keyPhase_eq_ok hkey
    rw [hf, (synchronizePhase_eq_ok hsync).2, (readPhase_eq_ok hread).2]
  rw [hcur]
  -- the cascade leaves the keys as they are
  exact hx (Engine.rupturePhase c').1 (Action.andThen_eq_ok.2 ⟨a', hread, Action.andThen_eq_ok.2
    ⟨b', hsync, Action.andThen_eq_ok.2 ⟨c', hkey, Prod.ext rfl hok⟩⟩⟩)

end Turn

/-! ### Runs -/

/-- The edges of the ruptures in front are the same, and those are all there are without the further
ones and those behind. -/
theorem Apart.snapshot_upTo (h : Apart x as ins bs d d') (has : ∀ j ∈ as, j ∉ ins ++ bs)
    (hlt : ∀ j ∈ as ++ bs, (x j).isSome) (n : ℕ) :
    (d'.snapshot n).upTo as.length = (d.snapshot n).upTo as.length ∧
      (d'.snapshot n).edges.length = (as ++ bs).length := by
  have hin : ∀ {p : Pool ρ κ}, (∀ j, (p.ruptures[j]?).map (·.extract) = x j) →
      ∀ j ∈ as ++ bs, j < p.ruptures.length := by
    intro p hp j hj
    simpa [← hp j] using hlt j hj
  have hl := fun j hj => hin h.pool.left j (List.mem_append_left bs hj)
  have hr := fun j hj => hin h.pool.right j (List.mem_append_left bs hj)
  have heq : d'.pool.edges as = d.pool.edges as :=
    List.filterMap_congr fun j hj => by rw [h.pool.ruptures j (has j hj)]
  constructor
  · simp only [Step.upTo, snapshot, h.sync, h.registered, Pool.edges_append_take hl,
      Pool.edges_append_take hr, heq, Pool.row, Pool.held, h.pool.sources]
  · simp only [snapshot, h.sync, Pool.edges_eq_map (hin h.pool.right), List.length_map]

variable [SyncKey κ]

/-- The run finds the key, as that of a step or as the next one of the last step. -/
def Finds (e : Engine ρ κ) (k : κ) : Prop :=
  ∃ n d, e.after n = some d ∧ d.sync.nextKey = some (.key k)

section Watching

variable (hu : e.sync.started = false) (hlt : ∀ j ∈ e.sync.ruptures, j < e.pool.ruptures.length)
  (hx : ∀ j ∈ ins, ∀ r, e.pool.ruptures[j]? = some r → ∀ k, e.Finds k → ∀ f, r.extract k ≠ .error f)

include hu hlt hx

/-- The run with the further ruptures and the run without them are paired. -/
theorem paired_watching (hr : e.sync.ruptures = as ++ bs) (hn : (as ++ (ins ++ bs)).Nodup)
    (hs : e.Spares (ins ++ bs)) :
    Paired (fun d d' => Apart (fun j => (e.pool.ruptures[j]?).map (·.extract)) as ins bs d d' ∧
        ∃ n, e.after n = some d') (e.watching bs).MayFault
      (fun s t => t.upTo as.length = s.upTo as.length ∧ t.edges.length = (as ++ bs).length)
      (e.watching (as ++ (ins ++ bs))) e where
  unstarted := hu
  unstarted' := hu
  prime := by
    have h : Apart (fun j => (e.pool.ruptures[j]?).map (·.extract)) as ins bs
        (e.watching (as ++ (ins ++ bs))).begun e.begun :=
      ⟨rfl, by rw [← hr]; rfl, rfl, hs, fun _ _ => rfl, fun _ => rfl, fun _ => rfl⟩
    exact ((keeps_readPhase_apart.andThen keeps_keyPhase_apart) _ _ h).and_right fun d hd =>
      ⟨0, after_zero_eq_some.2 hd⟩
  ended := by
    rintro d d' ⟨h, -⟩
    rw [h.sync]
    rfl
  turn := by
    rintro d d' ⟨h, n, hd⟩ he
    have has : ∀ j ∈ as, j ∉ ins ++ bs := fun j hj hj' =>
      (List.nodup_append.1 hn).2.2 j hj j hj' rfl
    have he' : d'.sync.ended = false := by
      rw [h.sync]
      exact he
    have hafter : ∀ c', d'.turn = (c', .ok ()) → e.after (n + 1) = some c' := fun c' hc' =>
      after_succ_eq_some.2 ⟨d', hd, he', hc'⟩
    have hU : ∀ j ∈ bs, ∀ g, (e.pool.ruptures[j]?).map (·.extract) = some g → ∀ k f,
        g k = .error f → (e.watching bs).MayFault f := by
      intro j hj g hg k f hf
      obtain ⟨r, hr, rfl⟩ := Option.map_eq_some_iff.1 hg
      exact ⟨j, hj, r, hr, k, hf⟩
    have ht := h.turn hU has fun c' hc' j hj g hg k hk => by
      obtain ⟨r, hr, rfl⟩ := Option.map_eq_some_iff.1 hg
      refine hx j hj r hr k ?_
      rcases hk with hk | hk
      · exact ⟨n, d', hd, by simpa [Option.getD_eq_iff] using hk⟩
      · exact ⟨n + 1, c', hafter c' hc', by simpa [Option.getD_eq_iff] using hk⟩
    refine (ht.and_right (P := fun c' => ∃ m, e.after m = some c') fun c' hc' =>
      ⟨n + 1, hafter c' hc'⟩).mono (fun c c' hcc => ⟨hcc, fun m => ?_⟩) fun _ hf => hf
    refine hcc.1.snapshot_upTo has (fun j hj => ?_) m
    simpa using hlt j (hr ▸ hj)

/-- **Ruptures that gate no source do not interfere.**  The extractors of the ruptures `ins` do not
fail on the keys that the run finds.  Registered behind the others, these ruptures leave every step
as it is, up to their own edges, and the run ends as it does without them.  If no source is gated
they may stand anywhere: every step keeps its number, key, mask and row and the edges of the
ruptures in front, and the run ends as it does without them, unless that fails in the extractor of
a rupture behind, which need not be asked if it is forced. -/
theorem drain_watching (hn : (e.sync.ruptures ++ ins).Nodup) (budget : ℕ) :
    let n := e.sync.ruptures.length
    let r := e.drain budget .fresh
    (e.Spares ins →
      let e' := e.watching (e.sync.ruptures ++ ins)
      let r' := e'.drain budget .fresh
      e.sync.addRuptures ins = .ok e'.sync ∧ r.result = r'.result.map (Step.upTo n) ∧
        r'.ended = r.ended ∧ r'.outcome = r.outcome ∧ (e'.Completes ↔ e.Completes)) ∧
    ((∀ i ∈ e.sync.sources, ∀ s, e.pool.sources[i]? = some s → s.gate = none) → ∀ k ≤ n,
      let js := e.sync.ruptures.take k ++ (ins ++ e.sync.ruptures.drop k)
      let e' := e.watching js
      let r' := e'.drain budget .fresh
      (e.watching []).sync.addRuptures js = .ok e'.sync ∧
        r.result.map (Step.upTo k) = (r'.result.take r.result.length).map (Step.upTo k) ∧
        ((∃ f, (e.watching (e.sync.ruptures.drop k)).MayFault f ∧ r.outcome = .error f) ∨
          (r'.result.length = r.result.length ∧ r'.ended = r.ended ∧ r'.outcome = r.outcome))) := by
  intro n r
  constructor
  · intro hs e' r'
    have happ : e.sync.ruptures = e.sync.ruptures ++ [] := (List.append_nil _).symm
    have hp := paired_watching hu hlt hx happ
      (by rwa [List.append_nil]) (by rwa [List.append_nil])
    simp only [List.append_nil] at hp
    have hU : ∀ f, ¬ (e.watching []).MayFault f := by simp [MayFault, watching]
    obtain ⟨hV, he, ho, hc⟩ := hp.drain_alike hU budget
    refine ⟨?_, ?_, he.symm, ho.symm, hc.symm⟩
    · rw [Synchronization.addRuptures, hu, Synchronization.foldl_registerRupture hn]
      rfl
    · rw [← List.map_id r.result]
      refine (map_eq_map_of_forall₂ (hV.imp fun s t hst => ?_)).symm
      rw [← hst.1, Step.upTo_eq_self hst.2, id]
  · intro hg k hk js e' r'
    have hlen : (e.sync.ruptures.take k).length = k := by
      rw [List.length_take, min_eq_left hk]
    have hperm : (e.sync.ruptures ++ ins).Perm js := by
      conv_lhs => rw [← List.take_append_drop k e.sync.ruptures, List.append_assoc]
      exact List.perm_append_comm.append_left _
    have hs : e.Spares (ins ++ e.sync.ruptures.drop k) := by
      intro i hi s hs j _
      rw [hg i hi s hs]
      exact fun h => by cases h
    have hp := paired_watching hu hlt hx (List.take_append_drop k _).symm (hperm.nodup hn) hs
    rw [hlen] at hp
    refine ⟨?_, ?_, ?_⟩
    · rw [Synchronization.addRuptures, show (e.watching []).sync.started = false from hu,
        Synchronization.foldl_registerRupture (hperm.nodup hn)]
      rfl
    · refine (map_eq_map_of_forall₂ ?_).symm
      exact (hp.forall₂_take budget).imp fun s t hst => hst.1.symm
    · rcases hp.drain budget with hfault | ⟨hV, he, ho⟩
      · exact .inl hfault
      · exact .inr ⟨hV.length_eq, he.symm, ho.symm⟩

end Watching

/-- Two lists of which the second one is gated by the first letter: the whole key and the first two
letters are watched besides.  Then two lists that are not gated: the whole key is put in front of
the first two letters, which it forces. -/
theorem drain_watching_letters :
    let rs : List (Rupture Text) :=
      [.fresh ['g'] (Rupture.leading 1), .fresh ['w'] Rupture.whole,
        .fresh ['p'] (Rupture.leading 2)]
    let list : Supply Text := .ofList [['a', 'x', '1'], ['a', 'x', '2'], ['b', 'y', '1']] id none
    let e := (ofLists [list, .ofList [['a'], ['b']] id (some 0)] rs).watching [0]
    let u := (ofLists [list, .ofList [['a', 'x', '2']] id none] rs).watching [0, 2]
    let r := e.drain 10 .fresh
    let q := u.drain 10 .fresh
    e.Spares [1, 2] ∧
      r.result = ((e.watching [0, 1, 2]).drain 10 .fresh).result.map (Step.upTo 1) ∧
      r.result.length = 3 ∧ ((e.watching [0, 1, 2]).drain 10 .fresh).ended = true ∧
      (q.result.map (Step.upTo 1) =
        (((u.watching [0, 1, 2]).drain 10 .fresh).result.take q.result.length).map (Step.upTo 1)) ∧
      q.result ≠ [] := by
  intro rs list e u r q
  have total : ∀ (e : Engine Text Text) (js : List ℕ), e.pool.ruptures = rs →
      ∀ j ∈ js, ∀ r, e.pool.ruptures[j]? = some r → ∀ k, e.Finds k →
        ∀ f, r.extract k ≠ .error f := by
    intro e js he j _ r hr k _ f
    have hmem := List.mem_of_getElem? (he ▸ hr)
    simp only [rs, List.mem_cons, List.not_mem_nil, or_false] at hmem
    rcases hmem with rfl | rfl | rfl <;> exact fun h => by cases h
  have hs : e.Spares [1, 2] := by
    unfold Spares Pool.Spares
    decide +kernel
  obtain ⟨hlast, -⟩ := drain_watching rfl (by decide) (total e [1, 2] rfl) (by decide) 10
  obtain ⟨-, hbetween⟩ := drain_watching rfl (by decide) (total u [1] rfl) (by decide) 10
  obtain ⟨-, hres, hended, -⟩ := hlast hs
  obtain ⟨-, hprefix, -⟩ := hbetween (by decide +kernel) 1 (by decide)
  exact ⟨hs, hres, by decide +kernel, hended.trans (by decide +kernel), hprefix, by decide +kernel⟩

end Engine

end Lockstep
