import Parley.Proofs.Session.Statements
import Parley.Proofs.Session.Survival

/-!
# What clearing a session forgets

All variables that a shell has at its start are in the base scope, and no statement gives that scope
a name or takes one from it. The scope of the session lies inside it; a variable that is declared in
the session under a name of the base takes over the cell of the base (`Store.Seated`). So if the
session is cleared, the names that it has added are undefined again, but a name that the shell had at
its start keeps the value that it has at this moment: what has been written over it is not forgotten.
-/

namespace Parley

namespace Store

/-- The scope `k` lies in the first scope, which has these names, and what it has under one of them is
the cell of the first scope. -/
structure Seated (names : List (String × Nat)) (k : Nat) (s : Store) : Prop where
  wellFormed : s.WellFormed
  pos : 0 < k
  scope : k < s.scopes.size
  first : (s.scopeAt 0).names = names
  base : (s.scopeAt k).base = some 0
  shared : ∀ {m c b}, findName m (s.scopeAt k).names = some c → findName m names = some b → c = b

namespace Seated

variable {names : List (String × Nat)} {k : Nat} {s s' : Store} {m : String}

/-! ### The changes of the store -/

variable (h : s.Seated names k)

include h

/-- A change that leaves the two scopes alone. -/
theorem of_scopes (hwf : s'.WellFormed) (hsize : s.scopes.size ≤ s'.scopes.size)
    (hnames : (s'.scopeAt 0).names = (s.scopeAt 0).names)
    (hown : (s'.scopeAt k).names = (s.scopeAt k).names)
    (hbase : (s'.scopeAt k).base = (s.scopeAt k).base) : s'.Seated names k where
  wellFormed := hwf
  pos := h.pos
  scope := Nat.lt_of_lt_of_le h.scope hsize
  first := hnames.trans h.first
  base := hbase.trans h.base
  shared hc hb := h.shared (hown ▸ hc) hb

theorem addition (hadd : Addition s s') : s'.Seated names k := by
  have hkept := Undisturbed.of_addition hadd
  exact h.of_scopes (h.wellFormed.addition hadd) (Nat.le_of_eq hkept.scopes.symm)
    (hkept.alike 0).names (hkept.alike k).names (hkept.alike k).base

/-- Variables are written in scopes inside the first one. -/
theorem define {j : Nat} (hpos : 0 < j) (hj : j < s.scopes.size) (name : String) (v : Value) :
    (s.define j name v).1.Seated names k := by
  have hdef := define_spec h.wellFormed hj name v
  have hzero := hdef.outside 0 (Nat.ne_of_lt hpos)
  have hwf := h.wellFormed.define j name v
  by_cases hjk : j = k
  · subst hjk
    refine ⟨hwf, hpos, hdef.scopes ▸ hj, (congrArg Scope.names hzero).trans h.first,
      hdef.base.trans h.base, fun {m c b} hc hb => ?_⟩
    by_cases hm : m = name
    · subst hm
      obtain rfl := Option.some.inj (hdef.bound.symm.trans hc)
      -- The first scope has the name, so its cell has been taken over, now or before.
      have hinherited : s.inherited? j m = some b := by
        rw [inherited?, h.base]
        exact (h.first ▸ hb :)
      cases hown : findName m (s.scopeAt j).names with
      | some d =>
        rw [define, hown]
        exact h.shared hown hb
      | none => rw [define, hown, hinherited]
    · rw [hdef.others m hm] at hc
      exact h.shared hc hb
  · have hown := hdef.outside k (Ne.symm hjk)
    exact h.of_scopes hwf (Nat.le_of_eq hdef.scopes.symm) (congrArg _ hzero) (congrArg _ hown)
      (congrArg _ hown)

/-- The names of a scope inside the first one are forgotten. -/
theorem forget {j : Nat} (hpos : 0 < j) (table : Nat) :
    (s.modifyScope j fun sc => { sc with names := [], table }).Seated names k := by
  have hscope (i : Nat) : ((s.modifyScope j fun sc => { sc with names := [], table }).scopeAt i).base =
        (s.scopeAt i).base ∧
      (((s.modifyScope j fun sc => { sc with names := [], table }).scopeAt i).names =
          (s.scopeAt i).names ∨
        i = j ∧ ((s.modifyScope j fun sc => { sc with names := [], table }).scopeAt i).names = []) := by
    rw [scopeAt_modifyScope]
    split
    · next hi => exact ⟨rfl, .inr ⟨hi.1, rfl⟩⟩
    · exact ⟨rfl, .inl rfl⟩
  refine ⟨(Step.forget s j table).wellFormed h.wellFormed, h.pos, by simpa using h.scope, ?_,
    (hscope k).1.trans h.base, fun {m c b} hc hb => ?_⟩
  · rcases (hscope 0).2 with hsame | ⟨hzero, -⟩
    · exact hsame.trans h.first
    · omega
  · rcases (hscope k).2 with hsame | ⟨-, hnone⟩
    · exact h.shared (hsame ▸ hc) hb
    · rw [hnone] at hc
      cases hc

theorem newChild {base : Nat} (hbase : base < s.scopes.size) :
    (s.newChild base).1.Seated names k := by
  have hzero := scopeAt_newChild_of_lt (Nat.lt_trans h.pos h.scope) base
  have hown := scopeAt_newChild_of_lt h.scope base
  exact h.of_scopes (h.wellFormed.newChild hbase) (by simp [Store.newChild]) (congrArg _ hzero)
    (congrArg _ hown) (congrArg _ hown)

/-! ### Lookups -/

/-- A name of the first scope means its cell there. -/
theorem valueOf?_of_some {b : Nat} (hb : findName m names = some b) :
    s.valueOf? k m = some (s.cellValue b) := by
  rw [valueOf?_eq h.wellFormed]
  cases hown : findName m (s.scopeAt k).names with
  | some c => rw [h.shared hown hb]
  | none =>
    rw [h.base]
    exact valueOf?_of_findName (h.first ▸ hb)

/-- Without names of its own the scope has those of the first scope. -/
theorem valueOf?_of_none (hown : (s.scopeAt k).names = []) (hm : findName m names = none) :
    s.valueOf? k m = none := by
  have hroot : (s.scopeAt 0).base = none := by
    cases hb : (s.scopeAt 0).base with
    | none => rfl
    | some b => exact absurd (h.wellFormed.base hb) (Nat.not_lt_zero b)
  rw [valueOf?_eq h.wellFormed, hown, h.base]
  show s.valueOf? 0 m = none
  rw [valueOf?_eq h.wellFormed, h.first, hm, hroot]
  rfl

/-- **If the names of the scope are forgotten**, those of the first scope keep their values, and no
others are left. -/
theorem valueOf?_forget (hs' : s'.Seated names k) (hcells : s'.cells = s.cells)
    (hown : (s'.scopeAt k).names = []) (m : String) :
    s'.valueOf? k m = if (findName m names).isSome then s.valueOf? k m else none := by
  cases hb : findName m names with
  | some b =>
    rw [h.valueOf?_of_some hb, hs'.valueOf?_of_some hb, cellValue, hcells]
    rfl
  | none => exact hs'.valueOf?_of_none hown hb

end Seated

end Store

/-! ### Tasks -/

namespace Act

/-- For a task in the scope `k`: it is a scope inside the first one, and so is the session. -/
structure Seating (names : List (String × Nat)) (session k : Nat) (s : Store) : Prop where
  seated : s.Seated names session
  pos : 0 < k
  scope : k < s.scopes.size

variable {names : List (String × Nat)} {session k : Nat}

theorem Seating.of_seated {s s' : Store} (h : Seating names session k s)
    (hseated : s'.Seated names session) (hsize : s.scopes.size ≤ s'.scopes.size) :
    Seating names session k s' :=
  ⟨hseated, h.pos, Nat.lt_of_lt_of_le h.scope hsize⟩

theorem Seating.addition {s s' : Store} (hadd : Store.Addition s s')
    (h : Seating names session k s) : Seating names session k s' :=
  h.of_seated (h.seated.addition hadd) (Store.Step.add hadd).grows.scopes

/-- The frame of a scope for the base scope and the session. -/
def seatedFrame (names : List (String × Nat)) (session : Nat) : ScopeFrame where
  Index := Unit
  rel _ k := Holding (Seating names session k)
  within _ _ := ()
  frame _ _ := frame_holding fun hdeposit => Seating.addition hdeposit.addition
  write _ _ s c v := allows_holding fun h => by
    have hwf := h.seated.wellFormed.setCell c v
    exact h.of_seated (h.seated.of_scopes hwf (Nat.le_refl _) rfl rfl rfl) (Nat.le_refl _)
  define _ k s name v := allows_holding fun h =>
    h.of_seated (h.seated.define h.pos h.scope name v) (Store.Step.define s k name v).grows.scopes
  capture _ k s site hsite := allows_holding fun h => by
    have hwf := (Store.Step.capture s site k h.scope hsite).wellFormed h.seated.wellFormed
    exact h.of_seated (h.seated.of_scopes hwf (Nat.le_refl _) rfl rfl rfl) (Nat.le_refl _)
  tables _ _ s tables := allows_holding fun h => by
    have hwf := (Store.Step.tables s tables).wellFormed h.seated.wellFormed
    exact h.of_seated (h.seated.of_scopes hwf (Nat.le_refl _) rfl rfl rfl) (Nat.le_refl _)
  forget _ _ _ table := allows_holding fun h =>
    h.of_seated (h.seated.forget h.pos table) (by simp)
  input _ k s _ := allows_holding (Seating.addition (.flags s k _ fun _ => ⟨rfl, rfl, rfl⟩))
  stop _ k s := allows_holding (Seating.addition (.flags s k _ fun _ => ⟨rfl, rfl, rfl⟩))
  enter h := h
  leave := by
    rintro _ k w _ input - ⟨rfl, h⟩
    exact ⟨rfl, h.addition (.flags w.store k _ fun _ => ⟨rfl, rfl, rfl⟩)⟩
  child := by
    rintro _ k w _ base ⟨rfl, h⟩ hbase
    have hthere : base < w.store.scopes.size := by
      rcases hbase with rfl | ⟨site, hsite⟩
      · exact h.scope
      · exact h.seated.wellFormed.captured hsite
    refine ⟨⟨rfl, h.seated.newChild hthere, Nat.lt_trans h.pos h.scope, by simp [Store.newChild]⟩,
      fun ⟨hsame, hinner⟩ => ⟨hsame, hinner.seated, h.pos, Nat.lt_trans h.scope hinner.scope⟩⟩

/-- **A statement of a scope inside the first one** leaves the names of the first scope alone. -/
theorem tryStatement_seated (depth : Nat) (e : Expr) :
    Keeps (Holding (Seating names session k)) (tryStatement (interpret depth) k e) :=
  @tryStatement_keeps (seatedFrame names session) () _ k
    (runs_interpret (fun i k => Keeps.modifyStore fun s => (seatedFrame names session).stop i k s)
      depth) e

end Act

/-! ### The statement that clears the session -/

namespace Store

/-- The store after the names and services of a scope have been forgotten. -/
def cleared (s : Store) (k : Nat) : Store :=
  { (s.modifyScope k fun sc => { sc with names := [], table := s.tables.size }) with
    tables := s.tables.push [] }

/-- Does `session.clear` mean the builtin function in this scope? -/
def meansClear (s : Store) (k : Nat) : Bool :=
  match s.valueOf? k "session" with
  | some (.object o) =>
    match (findName "clear" (s.objectAt o).cells).map s.cellValue with
    | some (.builtin (.session .clear) _) => true
    | _ => false
  | _ => false

theorem exists_of_meansClear {s : Store} {k : Nat} (h : s.meansClear k) :
    ∃ c o d copy, s.find? k "session" = some c ∧ s.cellValue c = .object o ∧
      findName "clear" (s.objectAt o).cells = some d ∧
      s.cellValue d = .builtin (.session .clear) copy := by
  unfold meansClear at h
  split at h
  · next o ho =>
    obtain ⟨c, hc, hvalue⟩ := Option.map_eq_some_iff.mp ho
    split at h
    · next copy hcopy =>
      obtain ⟨d, hd, hbuiltin⟩ := Option.map_eq_some_iff.mp hcopy
      exact ⟨c, o, d, copy, hc, hvalue, hd, hbuiltin⟩
    · cases h
  · cases h

/-- **What clearing a session leaves**: the names that the first scope has, with the values that they
have at this moment. -/
theorem Seated.valueOf?_cleared {names : List (String × Nat)} {k : Nat} {s : Store}
    (h : s.Seated names k) (m : String) :
    (s.cleared k).valueOf? k m = if (findName m names).isSome then s.valueOf? k m else none := by
  have hforgotten := h.forget h.pos s.tables.size
  have hwf := (Step.tables _ (s.tables.push [])).wellFormed hforgotten.wellFormed
  refine h.valueOf?_forget (hforgotten.of_scopes hwf (Nat.le_refl _) rfl rfl rfl) rfl ?_ m
  show ((s.modifyScope k fun sc => { sc with names := [], table := s.tables.size }).scopeAt k).names =
    []
  rw [scopeAt_modifyScope, if_pos ⟨rfl, h.scope⟩]

end Store

namespace Act

variable {w w₁ : World} {k : Nat}

/-- The statement `session.clear()`. -/
def clearing : Expr :=
  .call (.member (.lookup "session") "clear") []

/-- Evaluating `session.clear()` forgets the names and services of the scope. -/
theorem perform_clearing (h : w.store.meansClear k) (depth : Nat) :
    ∃ w₂, w.perform (interpret (depth + 3) (.evaluate k clearing)) = (.ok nothing, w₂) ∧
      World.Said { w with store := w.store.cleared k } w₂ := by
  obtain ⟨c, o, d, copy, hc, ho, hd, hbuiltin⟩ := Store.exists_of_meansClear h
  have hwhole : w.perform (evaluateValue (interpret (depth + 1)) k (.lookup "session")) =
      (.ok (.object o), w) := by
    rw [perform_evaluateValue (perform_lookup hc depth), ← ho]
    rfl
  have hmember : w.perform (interpret (depth + 2)
      (.evaluate k (.member (.lookup "session") "clear"))) = (.ok (.cell d), w) := by
    refine (perform_bind_ok hwhole _).trans ?_
    show w.perform (member k (.object o) "clear") = _
    rw [member, perform_getStore_bind, hd]
    rfl
  have hfunction : w.perform (evaluateValue (interpret (depth + 2)) k
      (.member (.lookup "session") "clear")) = (.ok (.builtin (.session .clear) copy), w) := by
    rw [perform_evaluateValue hmember, ← hbuiltin]
    rfl
  -- The function has no parameters to check; its call is shown in yellow.
  obtain ⟨w₁, hw₁, hsaid₁⟩ := prints_yellow w
  have happly : w₁.perform (interpret (depth + 2) (.apply k (.builtin (.session .clear) copy) [])) =
      (.ok nothing, { w₁ with store := w₁.store.cleared k }) := rfl
  obtain ⟨w₂, hw₂, hsaid₂⟩ := perform_andThen happly prints_reset
  refine ⟨w₂, ?_, .trans ⟨?_⟩ hsaid₂⟩
  · refine (perform_bind_ok (perform_pure w []) _).trans ?_
    rw [perform_bind_ok hfunction]
    exact (perform_bind_ok hw₁ _).trans hw₂
  · exact congrArg (fun v : World => { v with store := v.store.cleared k }) hsaid₁.silent

/-- The statement `session.clear()` leaves the names that the first scope has, and the last result. -/
theorem valueOf?_clearing {names : List (String × Nat)} (hw : Founded k w.store)
    (hseated : w.store.Seated names k) (hclear : w.store.meansClear k) (depth : Nat) {m : String}
    (hm : m ≠ World.resultName) :
    (w.perform (tryStatement (interpret (depth + 3)) k clearing)).2.store.valueOf? k m =
      if (Store.findName m names).isSome then w.store.valueOf? k m else none := by
  obtain ⟨text, hshown⟩ : ∃ text, clearing.shown.result = .ok text := ⟨_, rfl⟩
  obtain ⟨w₁, hsaid₁, hsettled⟩ := tryStatement_settled hshown (interpret (depth + 3)) k w
  obtain ⟨w₂, hw₂, hsaid₂⟩ := perform_clearing (hsaid₁.store ▸ hclear) depth
  have hstore : w₂.store = w.store.cleared k := hsaid₁.store ▸ hsaid₂.store
  have hcleared : Founded k (w.store.cleared k) := (hw.step (.forget _ k _)).step (.tables _ _)
  rw [hw₂, hstore] at hsettled
  rw [hsettled.valueOf?_eq hcleared.wellFormed hcleared.oneName hcleared.scope hm]
  exact hseated.valueOf?_cleared m

end Act

/-! ### The session of a shell -/

namespace Surroundings

variable (x : Surroundings)

/-- The store of a shell that has just been started has come from one empty scope. -/
theorem founded_start : Act.Founded (World.start x).session (World.start x).store := by
  have hreach := x.reaches_base
  have hbase := x.rooted_base
  dsimp only [World.start, store]
  generalize x.base = base at hreach hbase
  have hfirst : Act.Founded 0 base.1 := ⟨hreach, hbase.wellFormed, hbase.root⟩
  have hchild := hfirst.step (.child base.1 0 hbase.root)
  have hflags := hchild.step (.add (.flags _ base.1.scopes.size
    (fun sc => { sc with global := true, strict := x.debugging }) fun _ => ⟨rfl, rfl, rfl⟩))
  exact ⟨hflags.reaches, hflags.wellFormed, by simp [Store.newChild]⟩

/-- The session of a shell that has just been started lies in the base scope and has no names. -/
theorem seated_start :
    (World.start x).store.Seated (x.base.1.scopeAt 0).names (World.start x).session ∧
      ((World.start x).store.scopeAt (World.start x).session).names = [] := by
  have hbase := x.rooted_base
  dsimp only [World.start, store]
  generalize x.base = base at hbase
  have hself := Store.scopeAt_newChild_self base.1 0
  have hchild : (base.1.newChild 0).1.Seated (base.1.scopeAt 0).names base.1.scopes.size := by
    refine ⟨hbase.wellFormed.newChild hbase.root, hbase.root, by simp [Store.newChild], ?_, ?_, ?_⟩
    · rw [Store.scopeAt_newChild_of_lt hbase.root]
    · rw [hself]
    · intro m c b hc
      rw [hself] at hc
      cases hc
  refine ⟨hchild.addition (.flags _ _ _ fun _ => ⟨rfl, rfl, rfl⟩), ?_⟩
  show (Store.scopeAt (Store.modifyScope (base.1.newChild 0).1 base.1.scopes.size _)
    base.1.scopes.size).names = []
  rw [Store.scopeAt_modifyScope, hself]
  split <;> rfl

end Surroundings

open Act

/-- **What clearing a session forgets.** Let any statements be run in a shell that has just been
started, whatever comes of them, and then `session.clear()`, as long as that still means the builtin
function. Then, the last result apart:

* a name that the shell did not have at its start is undefined again, and a name that it had means
  what it meant right before the session was cleared;
* so all names mean what they meant at the start if and only if, right before the session was
  cleared, those meant it that the shell had at its start;
* if the statements are declarations of variables and assignments to them, with right sides that
  change nothing themselves, all names but those of these variables mean what they meant at the
  start. -/
theorem cleared_session (x : Surroundings) (depth : Nat) (es : List Expr) :
    let w₀ := World.start x
    let k := w₀.session
    let w := w₀.after (depth + 3) k es
    w.store.meansClear k →
    let w' := w.after (depth + 3) k [clearing]
    (∀ m ≠ World.resultName, w'.store.valueOf? k m =
      if (w₀.store.valueOf? k m).isSome then w.store.valueOf? k m else none) ∧
    ((∀ m ≠ World.resultName, w'.store.valueOf? k m = w₀.store.valueOf? k m) ↔
      ∀ m ≠ World.resultName, ∀ v, w₀.store.valueOf? k m = some v → w.store.valueOf? k m = some v) ∧
    ∀ targets : List String, (∀ e ∈ es, ∃ y ∈ targets, PlainWrite y e) →
      ∀ m ∉ targets, m ≠ World.resultName → w'.store.valueOf? k m = w₀.store.valueOf? k m := by
  obtain ⟨hseated₀, hnames⟩ := x.seated_start
  have hfounded₀ := x.founded_start
  generalize World.start x = w₀ at hseated₀ hnames hfounded₀ ⊢
  generalize (x.base.1.scopeAt 0).names = names at hseated₀
  dsimp only
  intro hclear
  have hfounded := after_holds (tryStatement_reached (depth + 3) _) hfounded₀ es
  have hseated := (after_holds (tryStatement_seated (depth + 3))
    ⟨hseated₀, hseated₀.pos, hseated₀.scope⟩ es).seated
  -- At the start the session has the names of the base scope.
  have hstart (m : String) :
      (w₀.store.valueOf? w₀.session m).isSome = (Store.findName m names).isSome := by
    cases hb : Store.findName m names with
    | some b => rw [hseated₀.valueOf?_of_some hb, Option.isSome_some, Option.isSome_some]
    | none => rw [hseated₀.valueOf?_of_none hnames hb, Option.isSome_none, Option.isSome_none]
  have hafter (m : String) (hm : m ≠ World.resultName) :=
    hstart m ▸ valueOf?_clearing hfounded hseated hclear depth hm
  refine ⟨hafter, ⟨fun h m hm v hv => ?_, fun h m hm => ?_⟩, fun targets hes m hm hresult => ?_⟩
  · have hkept := hafter m hm
    rw [hv] at hkept
    exact hkept.symm.trans ((h m hm).trans hv)
  · refine (hafter m hm).trans ?_
    cases hv : w₀.store.valueOf? w₀.session m with
    | some v => exact h m hm v hv
    | none => rfl
  · refine (hafter m hresult).trans ?_
    rw [valueOf?_after hes hfounded₀ hm hresult]
    cases w₀.store.valueOf? w₀.session m <;> rfl

/-- A name of the shell is written over, and a new one is declared. -/
def overwriting : List Expr :=
  [.assign (.define "print") (.constant (.int 1)), .assign (.define "y") (.constant (.int 2))]

/-- After the session has been cleared `print` is the integer that it has been made, `y` is undefined,
and `size` means what it meant at the start. -/
theorem cleared_session_overwriting :
    let w₀ := World.start (typedIn [])
    let k := w₀.session
    let w := w₀.after (0 + 3) k overwriting
    w.store.meansClear k ∧
      let w' := w.after (0 + 3) k [clearing]
      (w₀.store.valueOf? k "print").map Value.label = some "Builtin" ∧
      (w.store.valueOf? k "print").map Value.label = some "Integer" ∧
      w'.store.valueOf? k "print" = w.store.valueOf? k "print" ∧
      (w.store.valueOf? k "y").isSome ∧ w'.store.valueOf? k "y" = none ∧
      w'.store.valueOf? k "size" = w₀.store.valueOf? k "size" := by
  have hclear : ((World.start (typedIn [])).after (0 + 3) (World.start (typedIn [])).session
      overwriting).store.meansClear (World.start (typedIn [])).session := by decide +kernel
  obtain ⟨hafter, -, hothers⟩ := cleared_session (typedIn []) 0 overwriting hclear
  have hwrites : ∀ e ∈ overwriting, ∃ x ∈ ["print", "y"], PlainWrite x e := by
    simp only [overwriting, List.forall_mem_cons]
    exact ⟨⟨"print", by simp, .define rfl⟩, ⟨"y", by simp, .define rfl⟩,
      fun e he => absurd he List.not_mem_nil⟩
  have hprint := hafter "print" (by decide)
  have hy := hafter "y" (by decide)
  rw [if_pos (by decide +kernel)] at hprint
  rw [if_neg (by decide +kernel)] at hy
  exact ⟨hclear, by decide +kernel, by decide +kernel, hprint, by decide +kernel, hy,
    hothers _ hwrites "size" (by decide) (by decide)⟩

end Parley
