import Mathlib.Data.List.Basic
import Parley.Proofs.Eval.Interpret
import Parley.Proofs.Eval.Undisturbed

/-!
# The parameters of a call

A call of a function literal opens a scope inside the one that the literal has captured and writes
its parameters there. Writing a name that a scope does not have takes over the cell of its base if
the base itself has the name, so a parameter is local to the call only if the captured scope has no
variable of that name: if it has one, the argument is written into it (`Store.overwrite`). The names
of scopes further out do not matter.

While the parameters are written, two stores are compared: the real one, and the one in which only
the variables of the captured scope are overwritten. They agree on everything that was there before
the call (`Store.Binding`).
-/

namespace Parley

open List

namespace Store

variable {params : List String} {p param : String} {args : Args} {k c : Nat} {s : Store}

/-- If the answer is a cell, the cell is there. -/
def Holds (s : Store) : Answer → Prop
  | .value _ => True
  | .cell c => c < s.cells.size

/-- Every parameter has an argument. -/
def Supplies (s : Store) (args : Args) (params : List String) : Prop :=
  ∀ p ∈ params, ∃ a, args.lookup p = some a ∧ s.Holds a

/-- Arguments that give one value to all parameters. -/
def giveAll (v : Value) (params : List String) : Args :=
  params.map fun p => (p, .value v)

theorem lookup_giveAll (v : Value) (hp : p ∈ params) :
    (giveAll v params).lookup p = some (.value v) :=
  lookup_graph (fun _ => Answer.value v) hp

theorem supplies_giveAll (s : Store) (v : Value) (params : List String) :
    s.Supplies (giveAll v params) params :=
  fun _ hp => ⟨_, lookup_giveAll v hp, trivial⟩

/-- Writes the argument of a parameter into the variable of that name, if the scope itself has
one. -/
def overwrite (args : Args) (k : Nat) (s : Store) (param : String) : Store :=
  match findName param (s.scopeAt k).names, args.lookup param with
  | some c, some a => s.setCell c (s.deref a)
  | _, _ => s

theorem overwrite_of_own {a : Answer} (hc : findName param (s.scopeAt k).names = some c)
    (ha : args.lookup param = some a) :
    s.overwrite args k param = s.setCell c (s.deref a) := by
  rw [overwrite, hc, ha]

theorem overwrite_of_none (hc : findName param (s.scopeAt k).names = none) :
    s.overwrite args k param = s := by
  rw [overwrite, hc]

theorem scopes_overwrite (args : Args) (k : Nat) (s : Store) (param : String) :
    (s.overwrite args k param).scopes = s.scopes := by
  unfold overwrite
  split <;> rfl

theorem size_overwrite (args : Args) (k : Nat) (s : Store) (param : String) :
    (s.overwrite args k param).cells.size = s.cells.size := by
  unfold overwrite
  split
  · exact size_cells_setCell ..
  · rfl

theorem scopes_foldl_overwrite (args : Args) (k : Nat) (params : List String) (s : Store) :
    (params.foldl (overwrite args k) s).scopes = s.scopes := by
  induction params generalizing s with
  | nil => rfl
  | cons p params ih => rw [foldl_cons, ih, scopes_overwrite]

/-- Nothing is overwritten if the scope itself has no variable named like a parameter. -/
theorem foldl_overwrite_of_none (h : ∀ p ∈ params, ¬ s.hasName k p) :
    params.foldl (overwrite args k) s = s := by
  induction params with
  | nil => rfl
  | cons p params ih =>
    have hp : findName p (s.scopeAt k).names = none := by
      simpa [hasName] using h p mem_cons_self
    rw [foldl_cons, overwrite_of_none hp]
    exact ih fun q hq => h q (mem_cons_of_mem p hq)

/-- If all arguments are the same value, a variable that is overwritten ends with that value. -/
theorem cellValue_foldl_overwrite {v : Value}
    (hargs : ∀ q ∈ params, args.lookup q = some (.value v)) (hc : c < s.cells.size)
    (hp : findName p (s.scopeAt k).names = some c) (h : p ∈ params ∨ s.cellValue c = v) :
    (params.foldl (overwrite args k) s).cellValue c = v := by
  induction params generalizing s with
  | nil => exact h.resolve_left not_mem_nil
  | cons q params ih =>
    have hscope : (s.overwrite args k q).scopeAt k = s.scopeAt k := by
      rw [scopeAt, scopeAt, scopes_overwrite]
    refine ih (fun r hr => hargs r (mem_cons_of_mem q hr))
      (by rwa [size_overwrite]) (by rwa [hscope]) ?_
    have hq := hargs q mem_cons_self
    cases hown : findName q (s.scopeAt k).names with
    | none =>
      rw [overwrite_of_none hown]
      refine h.imp_left fun hmem => (mem_cons.mp hmem).resolve_left ?_
      rintro rfl
      rw [hp] at hown
      cases hown
    | some d =>
      rw [overwrite_of_own hown hq]
      by_cases hd : c = d
      · rw [hd] at hc ⊢
        exact .inr (cellValue_setCell_self hc v)
      · rw [cellValue_setCell_of_ne hd]
        refine h.imp_left fun hmem => (mem_cons.mp hmem).resolve_left ?_
        rintro rfl
        exact hd (Option.some.inj (hp.symm.trans hown))

/-- While parameters are written in a scope inside `outer`, new since the store was `s₀`: `s` is the
store, and `t` is `s₀` with the variables of `outer` overwritten. -/
structure Binding (s₀ : Store) (outer : Nat) (s t : Store) : Prop where
  scopes : t.scopes = s₀.scopes
  agree : ∀ c < s₀.cells.size, s.cellValue c = t.cellValue c
  size : t.cells.size = s₀.cells.size ∧ s₀.cells.size ≤ s.cells.size
  outside : ∀ k < s₀.scopes.size, s.scopeAt k = s₀.scopeAt k
  inner : s.scopes.size = s₀.scopes.size + 1
  base : (s.scopeAt s₀.scopes.size).base = some outer
  /-- A name of the new scope stands for the cell of `outer`, or for one that is new. -/
  own : ∀ {p c}, findName p (s.scopeAt s₀.scopes.size).names = some c →
    findName p (s₀.scopeAt outer).names = some c ∨
      findName p (s₀.scopeAt outer).names = none ∧ s₀.cells.size ≤ c

namespace Binding

variable {s₀ t : Store} {outer : Nat}

/-- At first the new scope has no names. -/
theorem newChild (s₀ : Store) (outer : Nat) : Binding s₀ outer (s₀.newChild outer).1 s₀ where
  scopes := rfl
  agree _ _ := rfl
  size := ⟨rfl, Nat.le_refl _⟩
  outside _ hk := scopeAt_newChild_of_lt hk outer
  inner := by simp [Store.newChild]
  base := by rw [scopeAt_newChild_self]
  own hp := by
    rw [scopeAt_newChild_self] at hp
    cases hp

variable (h : Binding s₀ outer s t)

include h

theorem scopeAt_eq (k : Nat) : t.scopeAt k = s₀.scopeAt k := by
  rw [scopeAt, scopeAt, h.scopes]

/-- An argument has the same value in both stores. -/
theorem deref_eq {a : Answer} (ha : s₀.Holds a) : s.deref a = t.deref a := by
  cases a with
  | value v => rfl
  | cell c => exact h.agree c ha

/-- The cell that a parameter gets is the one of `outer`, or one that is new. -/
theorem place (houter : outer < s₀.scopes.size) {v : Value} {s' : Store}
    (hdef : Defined s s₀.scopes.size p v s' c) :
    findName p (s₀.scopeAt outer).names = some c ∨
      findName p (s₀.scopeAt outer).names = none ∧ s₀.cells.size ≤ c := by
  have hinherited : s.inherited? s₀.scopes.size p = findName p (s₀.scopeAt outer).names := by
    rw [inherited?, h.base]
    exact congrArg (fun sc => findName p sc.names) (h.outside outer houter)
  have hplace := hdef.place
  rw [hinherited] at hplace
  cases hown : findName p (s.scopeAt s₀.scopes.size).names with
  | some d =>
    rw [hown] at hplace
    rcases hplace with hd | ⟨hd, -⟩
    · cases hd
      exact h.own hown
    · cases hd
  | none =>
    rw [hown] at hplace
    rcases hplace with hc | ⟨hnone, hc⟩
    · exact .inl hc
    · exact .inr ⟨hnone, hc ▸ h.size.2⟩

/-- **Writing one parameter** keeps the invariant. -/
theorem define (hwf : s.WellFormed) (hwf₀ : s₀.WellFormed) (houter : outer < s₀.scopes.size)
    {args : Args} {p : String} {a : Answer} (hlookup : args.lookup p = some a) (ha : s₀.Holds a) :
    Binding s₀ outer (s.define s₀.scopes.size p (s.deref a)).1 (t.overwrite args outer p) := by
  have hinner : s₀.scopes.size < s.scopes.size := by rw [h.inner]; exact Nat.lt_succ_self _
  have hdef := define_spec hwf hinner p (s.deref a)
  have hplace := h.place houter hdef
  refine ⟨(scopes_overwrite ..).trans h.scopes, ?_, ?_, ?_, ?_, ?_, ?_⟩
  · intro d hd
    rcases hplace with hc | ⟨hnone, hc⟩
    · -- The cell of `outer` is written in both stores.
      rw [overwrite_of_own ((h.scopeAt_eq outer).symm ▸ hc) hlookup]
      have hlt := h.size.1.symm ▸ hwf₀.findName_lt hc
      by_cases hdc : d = (s.define s₀.scopes.size p (s.deref a)).2
      · rw [hdc, hdef.written, cellValue_setCell_self hlt, h.deref_eq ha]
      · rw [hdef.cells d (Nat.lt_of_lt_of_le hd h.size.2) hdc, cellValue_setCell_of_ne hdc]
        exact h.agree d hd
    · -- A cell that is new is no cell of `s₀`.
      rw [overwrite_of_none ((h.scopeAt_eq outer).symm ▸ hnone)]
      rw [hdef.cells d (Nat.lt_of_lt_of_le hd h.size.2) (by omega)]
      exact h.agree d hd
  · exact ⟨(size_overwrite ..).trans h.size.1, Nat.le_trans h.size.2 hdef.size.1⟩
  · intro k hk
    rw [hdef.outside k (Nat.ne_of_lt hk), h.outside k hk]
  · rw [hdef.scopes, h.inner]
  · rw [hdef.base, h.base]
  · intro q c hq
    by_cases hqp : q = p
    · subst hqp
      rw [hdef.bound] at hq
      exact Option.some.inj hq ▸ hplace
    · rw [hdef.others q hqp] at hq
      exact h.own hq

/-- The variables that were there have the same values in both stores. -/
theorem valueOf?_eq (hwf₀ : s₀.WellFormed) (hk : k < s₀.scopes.size) (name : String) :
    s.valueOf? k name = t.valueOf? k name := by
  have hs : s.find? k name = s₀.find? k name := by
    have houtside (j : Nat) (hj : j ≤ k) := h.outside j (Nat.lt_of_le_of_lt hj hk)
    exact find?_congr hwf₀ (fun j hj => congrArg Scope.base (houtside j hj))
      (fun j hj => congrArg Scope.names (houtside j hj)) name
  have ht : t.find? k name = s₀.find? k name :=
    find?_congr hwf₀ (fun j _ => congrArg Scope.base (h.scopeAt_eq j))
      (fun j _ => congrArg Scope.names (h.scopeAt_eq j)) name
  rw [valueOf?, valueOf?, hs, ht]
  cases hc : s₀.find? k name with
  | none => rfl
  | some c => exact congrArg some (h.agree c (hwf₀.find?_lt hc))

/-- A name that the new scope does not have is looked up from `outer` on, as it was before. -/
theorem find?_inner (hwf₀ : s₀.WellFormed) (hwf : s.WellFormed) (houter : outer < s₀.scopes.size)
    {y : String} (hy : findName y (s.scopeAt s₀.scopes.size).names = none) :
    s.find? s₀.scopes.size y = s₀.find? outer y := by
  have houtside (j : Nat) (hj : j ≤ outer) := h.outside j (Nat.lt_of_le_of_lt hj houter)
  rw [find?_eq hwf, hy, h.base]
  exact find?_congr hwf₀ (fun j hj => congrArg Scope.base (houtside j hj))
    (fun j hj => congrArg Scope.names (houtside j hj)) y

end Binding

end Store

/-- A world with one empty scope and nothing else. -/
def World.blank : World where
  store := Store.empty.newRoot.1
  console := { terminal := false, width := 80, tracing := false, written := "" }
  disk := { root := "/", working := "/", home := "/", files := [], folders := [] }
  network := { replies := [], broker := none, asked := 0, ticks := 0, sent := [], token := "" }
  streams := #[]
  ownStreams := 0
  session := 0
  settings := 0
  transcript := { opening := none, entries := [] }
  now := ⟨0⟩

namespace Act

open Store (Binding overwrite giveAll findName)

variable {w : World} {scope c site : Nat} {args : Args} {params : List String} {a : Answer}
  {p : String} {outer : Nat} {body : Expr}

/-! ### Variables and arguments -/

/-- A name is evaluated to the cell that it stands for. -/
theorem perform_lookup {x : String} (hc : w.store.find? scope x = some c) (depth : Nat) :
    w.perform (interpret (depth + 1) (.evaluate scope (.lookup x))) = (.ok (.cell c), w) := by
  show w.perform (lookup scope x >>= fun c => pure (Answer.cell c)) = _
  rw [perform_bind_ok (perform_find hc), perform_pure]

theorem perform_evaluateValue {w₁ : World} {run : Run} {e : Expr}
    (h : w.perform (run (.evaluate scope e)) = (.ok a, w₁)) :
    w.perform (evaluateValue run scope e) = (.ok (w₁.store.deref a), w₁) := by
  rw [evaluateValue, perform_bind_ok h, perform_deref]

theorem perform_argValue (ha : args.lookup p = some a) :
    w.perform (argValue args p) = (.ok (w.store.deref a), w) := by
  have harg : argument args p = pure a := by rw [argument, ha]
  rw [argValue, harg]
  rfl

/-! ### Writing the parameters -/

/-- **Writing the parameters** of a call succeeds and keeps the invariant. A name that is no
parameter is no name of the new scope either. -/
theorem perform_bindParams {s₀ : Store} (hwf₀ : s₀.WellFormed) (houter : outer < s₀.scopes.size)
    (hargs : s₀.Supplies args params) {t : Store} (hwf : w.store.WellFormed)
    (h : Binding s₀ outer w.store t) :
    ∃ s', w.perform (bindParams s₀.scopes.size args params) = (.ok (), { w with store := s' }) ∧
      s'.WellFormed ∧ Binding s₀ outer s' (params.foldl (overwrite args outer) t) ∧
      ∀ y ∉ params, findName y (s'.scopeAt s₀.scopes.size).names =
        findName y (w.store.scopeAt s₀.scopes.size).names := by
  induction params generalizing w t with
  | nil => exact ⟨w.store, rfl, hwf, h, fun _ _ => rfl⟩
  | cons p params ih =>
    obtain ⟨a, hlookup, ha⟩ := hargs p mem_cons_self
    have hinner : s₀.scopes.size < w.store.scopes.size := by
      rw [h.inner]
      exact Nat.lt_succ_self _
    have hdef := Store.define_spec hwf hinner p (w.store.deref a)
    -- What the first parameter leads to, and from there the others.
    let s₁ := (w.store.define s₀.scopes.size p (w.store.deref a)).1
    have hfirst : w.perform (bindParams s₀.scopes.size args (p :: params)) =
        { w with store := s₁ }.perform (bindParams s₀.scopes.size args params) := by
      rw [bindParams, perform_bind_ok (perform_argValue hlookup)]
      exact perform_withStore_bind ..
    obtain ⟨s', hrest, hwf', hbinding, hnames⟩ :=
      ih (fun q hq => hargs q (mem_cons_of_mem p hq)) (w := { w with store := s₁ })
        (hwf.define ..) (h.define hwf hwf₀ houter hlookup ha)
    refine ⟨s', hfirst.trans hrest, hwf', hbinding, ?_⟩
    intro y hy
    rw [mem_cons, not_or] at hy
    exact (hnames y hy.2).trans (hdef.others y hy.1)

/-! ### Calls -/

/-- The store in which the body of a function starts: with a scope inside the captured one, in which
the parameters have been written. -/
def bodyStore (w : World) (site : Nat) (params : List String) (args : Args) : Store :=
  match w.store.captured.lookup site with
  | none => w.store
  | some outer =>
    ({ w with store := (w.store.newChild outer).1 }.perform
      (bindParams w.store.scopes.size args params)).2.store

section

variable (hwf : w.store.WellFormed) (hsite : w.store.captured.lookup site = some outer)
  (hargs : w.store.Supplies args params)

include hwf hsite hargs

/-- What is known of that store. -/
theorem bodyStore_spec : { w with store := (w.store.newChild outer).1 }.perform
        (bindParams w.store.scopes.size args params) =
        (.ok (), { w with store := bodyStore w site params args }) ∧
      (bodyStore w site params args).WellFormed ∧
      Binding w.store outer (bodyStore w site params args)
        (params.foldl (overwrite args outer) w.store) ∧
      ∀ y ∉ params, findName y ((bodyStore w site params args).scopeAt w.store.scopes.size).names =
        none := by
  have houter := hwf.captured hsite
  obtain ⟨s', hparams, hwf', hbinding, hnames⟩ :=
    perform_bindParams hwf houter hargs (w := { w with store := (w.store.newChild outer).1 })
      (hwf.newChild houter) (Binding.newChild w.store outer)
  have hstore : bodyStore w site params args = s' := by
    rw [bodyStore, hsite]
    dsimp only
    rw [hparams]
  rw [hstore]
  refine ⟨hparams, hwf', hbinding, ?_⟩
  intro y hy
  rw [hnames y hy, Store.scopeAt_newChild_self]
  rfl

/-- **A call is the evaluation of the body** in a new scope inside the captured one, after its
parameters have been written there. -/
theorem perform_call (body : Expr) (depth scope : Nat) :
    w.perform (interpret (depth + 1) (.apply scope (.closure site params body) args)) =
      { w with store := bodyStore w site params args }.perform
        (interpret depth (.evaluate w.store.scopes.size body)) := by
  show w.perform (applyClosure (interpret depth) scope site params body args) = _
  rw [applyClosure, perform_getStore_bind, hsite]
  exact perform_bind_ok (bodyStore_spec hwf hsite hargs).1 _

/-- After a call with a quiet body the variables that were there have the values that overwriting
gives them. -/
theorem valueOf?_call (hbody : body.quiet) (depth scope : Nat) {k : Nat}
    (hk : k < w.store.scopes.size) (name : String) :
    (w.perform (interpret (depth + 1)
        (.apply scope (.closure site params body) args))).2.store.valueOf? k name =
      (params.foldl (overwrite args outer) w.store).valueOf? k name := by
  obtain ⟨-, hwf', hbinding, -⟩ := bodyStore_spec hwf hsite hargs
  have hquiet := interpret_undisturbed depth w.store.scopes.size body hbody
    { w with store := bodyStore w site params args }
  rw [perform_call hwf hsite hargs, hquiet.valueOf?_eq hwf' k name,
    hbinding.valueOf?_eq hwf hk name]

end

/-- There is always another value to give. -/
theorem exists_value_ne (v : Value) : ∃ u : Value, u ≠ v := by
  by_cases h : v = .null
  · exact ⟨.constant (.bool true), by rw [h]; rintro ⟨⟩⟩
  · exact ⟨.null, Ne.symm h⟩

/-- A call that gives one value to all parameters leaves it in every variable of the captured scope
that is named like one of them. -/
theorem valueOf?_call_of_hasName (hwf : w.store.WellFormed)
    (hsite : w.store.captured.lookup site = some outer) (hbody : body.quiet) (depth scope : Nat)
    (hp : p ∈ params) (hc : findName p (w.store.scopeAt outer).names = some c) (v : Value) :
    (w.perform (interpret (depth + 1) (.apply scope (.closure site params body)
        (giveAll v params)))).2.store.valueOf? outer p = some v := by
  have hc' : findName p ((params.foldl (overwrite (giveAll v params) outer) w.store).scopeAt
      outer).names = some c := by
    rwa [Store.scopeAt, Store.scopes_foldl_overwrite]
  have hargs := w.store.supplies_giveAll v params
  rw [valueOf?_call hwf hsite hargs hbody depth scope (hwf.captured hsite),
    Store.valueOf?_of_findName hc']
  exact congrArg some (Store.cellValue_foldl_overwrite (fun _ => Store.lookup_giveAll v)
    (hwf.findName_lt hc) hc (.inl hp))

/-- **When parameters are local.** A call whose body makes no call and writes no variable overwrites
the variables of the captured scope that are named like its parameters, and changes no other. So it
leaves every variable as it was, whatever the arguments are, exactly if the captured scope itself
has no variable named like a parameter; the names of the scopes further out do not matter. -/
theorem call_local_iff (w : World) (hwf : w.store.WellFormed) (site outer : Nat)
    (hsite : w.store.captured.lookup site = some outer) (params : List String) (body : Expr)
    (hbody : body.quiet) :
    let after depth scope args :=
      (w.perform (interpret (depth + 1) (.apply scope (.closure site params body) args))).2.store
    (∀ args, w.store.Supplies args params → ∀ depth scope k name, k < w.store.scopes.size →
      (after depth scope args).valueOf? k name =
        (params.foldl (overwrite args outer) w.store).valueOf? k name) ∧
    ((∀ args, w.store.Supplies args params → ∀ depth scope k name, k < w.store.scopes.size →
        (after depth scope args).valueOf? k name = w.store.valueOf? k name) ↔
      ∀ p ∈ params, ¬ w.store.hasName outer p) := by
  intro after
  have heffect : ∀ args, w.store.Supplies args params → ∀ depth scope k name,
      k < w.store.scopes.size → (after depth scope args).valueOf? k name =
        (params.foldl (overwrite args outer) w.store).valueOf? k name :=
    fun args hargs depth scope k name hk => valueOf?_call hwf hsite hargs hbody depth scope hk name
  refine ⟨heffect, ?_, ?_⟩
  · intro hlocal p hp hname
    obtain ⟨c, hc⟩ := Option.isSome_iff_exists.mp hname
    -- Give all parameters a value that the variable does not have.
    obtain ⟨v, hv⟩ := exists_value_ne (w.store.cellValue c)
    have hafter := valueOf?_call_of_hasName hwf hsite hbody 0 0 hp hc v
    have hbefore := Store.valueOf?_of_findName hc
    have hsame := hlocal _ (w.store.supplies_giveAll v params) 0 0 outer p (hwf.captured hsite)
    exact hv (Option.some.inj (hafter.symm.trans (hsame.trans hbefore)))
  · intro hnone args hargs depth scope k name hk
    rw [heffect args hargs depth scope k name hk, Store.foldl_overwrite_of_none hnone]

/-- Where a variable `x` has the value 1, the function `\x. x` is made and called with the argument
5: the variable then has the value 5. -/
theorem call_local_iff_shadowed : let w := (World.blank.perform (interpret 3 (.evaluate 0 (.block
      [.assign (.define "x") (.constant (.int 1)), .closure 0 ["x"] (.lookup "x")])))).2
    let after depth scope args :=
      (w.perform (interpret (depth + 1)
        (.apply scope (.closure 0 ["x"] (.lookup "x")) args))).2.store
    w.store.WellFormed ∧ w.store.captured.lookup 0 = some 0 ∧ (Expr.lookup "x").quiet ∧
      w.store.hasName 0 "x" ∧
      w.store.valueOf? 0 "x" = some (.constant (.int 1)) ∧
      (after 0 0 [("x", .value (.constant (.int 5)))]).valueOf? 0 "x" = some (.constant (.int 5)) ∧
      ¬ ∀ args, w.store.Supplies args ["x"] → ∀ depth scope k name, k < w.store.scopes.size →
        (after depth scope args).valueOf? k name = w.store.valueOf? k name := by
  intro w after
  have hwf : w.store.WellFormed :=
    interpret_wellFormed _ _ Store.wellFormed_newRoot_empty Nat.zero_lt_one
  have hcall := call_local_iff w hwf 0 0 rfl ["x"] (.lookup "x") rfl
  have hsupplies : w.store.Supplies [("x", .value (.constant (.int 5)))] ["x"] :=
    w.store.supplies_giveAll (.constant (.int 5)) ["x"]
  have hname : w.store.hasName 0 "x" := rfl
  refine ⟨hwf, rfl, rfl, hname, rfl, (hcall.1 _ hsupplies 0 0 0 "x" Nat.zero_lt_one).trans rfl, ?_⟩
  exact fun hlocal => hcall.2.mp hlocal "x" (mem_singleton.mpr rfl) hname

end Act

end Parley
