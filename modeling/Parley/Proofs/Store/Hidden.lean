import Parley.Proofs.Store.Naming

/-!
# What code is kept from

Code that does not name a variable can come to see it all the same: through a function whose body
names it, through a function that is given the names of variables or the text of statements, through
an array or an object that has such a function in it. `Hidden` says what code has to be kept from so
that it does not come to see the last result: names, and cells and objects that are not to be
reached. An expression avoids names if it has none of them in it (`Expr.avoids`). In a store where
everything that can be reached without the hidden names leads to nothing hidden (`Hidden.Sound`), it
does not matter what the last result is, as long as names and values are those that are spared.

## Main results

* `Hidden.Blind` says this of an operation of the store, and `Hidden.Blind.comp` of operations one
  after the other.
* `Hidden.blind_define`, `Hidden.blind_load` and the lemmas around them say so of the operations that
  evaluation is made of.
-/

namespace Parley

open List
open Store (findName)

variable {α β : Type}

/-! ### Code that avoids names -/

/-- Is the function given neither the name of a variable nor the text of statements? -/
def Builtin.blind : Builtin → Bool
  | .core .eval | .core .source | .core .set | .core .defOperator | .session _ => false
  | _ => true

namespace Expr

mutual

/-- Does the expression have none of the names in it, import nothing and ask for no help? The body of a
function literal counts: it is evaluated when the function is called. -/
def avoids (names : List String) : Expr → Bool
  | .lookup name | .define name => !names.contains name
  | .array es | .block es => avoidsAll names es
  | .object ps => avoidsNamed names ps
  | .closure _ params body => (params.all fun p => !names.contains p) && body.avoids names
  | .member e _ | .attempt e | .group e | .negate e => e.avoids names
  | .ifThen c y n => c.avoids names && y.avoids names && n.avoids names
  | .opCall o l r => o.avoids names && l.avoids names && r.avoids names
  | .subscript e i | .assign e i => e.avoids names && i.avoids names
  | .call f args => f.avoids names && avoidsNamed names args
  | .importName _ | .help _ | .helpAll => false
  | _ => true

/-- `Expr.avoids` for several expressions. -/
def avoidsAll (names : List String) : List Expr → Bool
  | [] => true
  | e :: es => e.avoids names && avoidsAll names es

/-- `Expr.avoids` for named expressions. -/
def avoidsNamed (names : List String) : List (String × Expr) → Bool
  | [] => true
  | (_, e) :: ps => e.avoids names && avoidsNamed names ps

end

variable {names : List String}

theorem avoids_of_avoidsAll {es : List Expr} (h : avoidsAll names es) : ∀ e ∈ es, e.avoids names :=
  forall_of_cons (fun _ _ => rfl) h

theorem avoids_of_avoidsNamed {ps : List (String × Expr)} (h : avoidsNamed names ps) :
    ∀ p ∈ ps, p.2.avoids names :=
  forall_of_cons (fun _ _ => rfl) h

mutual

/-- Numbering the function literals of an expression brings no names into it. -/
theorem avoids_placed (next : Nat) : ∀ e : Expr, (e.placed next).1.avoids names = e.avoids names
  | .array es => avoidsAll_placed next es
  | .block es => avoidsAll_placed next es
  | .object ps => avoidsNamed_placed next ps
  | .closure _ _ body => by simp only [placed, avoids, avoids_placed _ body]
  | .member e _ => avoids_placed next e
  | .attempt e => avoids_placed next e
  | .group e => avoids_placed next e
  | .negate e => avoids_placed next e
  | .ifThen c y n => by
    simp only [placed, avoids, avoids_placed _ c, avoids_placed _ y, avoids_placed _ n]
  | .opCall o l r => by
    simp only [placed, avoids, avoids_placed _ o, avoids_placed _ l, avoids_placed _ r]
  | .subscript e i => by simp only [placed, avoids, avoids_placed _ e, avoids_placed _ i]
  | .assign e i => by simp only [placed, avoids, avoids_placed _ e, avoids_placed _ i]
  | .call f args => by simp only [placed, avoids, avoids_placed _ f, avoidsNamed_placed _ args]
  | .lookup _ | .constant _ | .define _ | .exit | .importName _ | .helpAll | .help _
  | .elementList _ | .paramList _ | .arg _ _ | .argList _ | .bare _ => rfl

theorem avoidsAll_placed (next : Nat) :
    ∀ es : List Expr, avoidsAll names (placedAll next es).1 = avoidsAll names es
  | [] => rfl
  | e :: es => by simp only [placedAll, avoidsAll, avoids_placed _ e, avoidsAll_placed _ es]

theorem avoidsNamed_placed (next : Nat) :
    ∀ ps : List (String × Expr), avoidsNamed names (placedArgs next ps).1 = avoidsNamed names ps
  | [] => rfl
  | (_, e) :: ps => by
    simp only [placedArgs, avoidsNamed, avoids_placed _ e, avoidsNamed_placed _ ps]

end

end Expr

/-! ### What is hidden -/

/-- The names of variables that the shell looks up or writes on its own when it evaluates the code of
a call. -/
def servingNames : List String :=
  ["null", "*resultcolor", "response", "status", "headers"]

/-- What code is kept from. -/
structure Hidden where
  /-- The cell of the last result. -/
  last : Nat
  names : List String
  cells : List Nat
  objects : List Nat
  last_mem : last ∈ cells
  result_mem : World.resultName ∈ names
  serving : ∀ name ∈ servingNames, name ∉ names

namespace Hidden

/-- Does the value lead to nothing hidden? Services do, since what code makes of their answers is
evaluated. A tree does not: it is not evaluated again. -/
def spares (H : Hidden) : Value → Bool
  | .constant _ | .setting _ | .tree _ _ | .array _ => true
  | .object o => !H.objects.contains o
  | .closure site params body => (Expr.closure site params body).avoids H.names
  | .builtin f _ => f.blind
  | .service _ _ | .method _ _ _ | .remote _ _ _ => false

/-- The answer is a cell that is not hidden, or a value that leads to nothing hidden. -/
def Fair (H : Hidden) : Answer → Prop
  | .value v => H.spares v
  | .cell c => c ∉ H.cells

/-- Nothing hidden is reached from what is not hidden, and what is hidden is there. -/
structure Sound (H : Hidden) (s : Store) : Prop where
  name : ∀ {m c}, s.Bound m c → m ∉ H.names → c ∉ H.cells
  array : ∀ {a c}, c ∈ (s.arrayAt a).cells → c ∉ H.cells
  object : ∀ {o p}, o ∉ H.objects → p ∈ (s.objectAt o).cells → p.2 ∉ H.cells
  value : ∀ {c}, c ∉ H.cells → H.spares (s.cellValue c)
  cells : ∀ c ∈ H.cells, c < s.cells.size
  objects : ∀ o ∈ H.objects, o < s.objects.size

variable {H : Hidden} {s s' : Store} {c k : Nat} {name : String} {x : Value}

theorem ne_last (hc : c ∉ H.cells) : c ≠ H.last :=
  fun h => hc (h ▸ H.last_mem)

namespace Sound

variable (h : H.Sound s)

include h

theorem last : H.last < s.cells.size :=
  h.cells _ H.last_mem

theorem spares_deref {a : Answer} (ha : H.Fair a) : H.spares (s.deref a) := by
  cases a with
  | value v => exact ha
  | cell c => exact h.value ha

/-- A change of names and flags. -/
theorem of_bound (hcells : s'.cells = s.cells) (harrays : s'.arrays = s.arrays)
    (hobjects : s'.objects = s.objects)
    (hbound : ∀ {m c}, s'.Bound m c → s.Bound m c ∨ m ∈ H.names ∨ c ∉ H.cells) : H.Sound s' where
  name hm hname := by
    rcases hbound hm with hm | hm | hc
    · exact h.name hm hname
    · exact absurd hm hname
    · exact hc
  array hc := h.array (by rwa [Store.arrayAt, harrays] at hc)
  object ho hp := h.object ho (by rwa [Store.objectAt, hobjects] at hp)
  value hc := by
    rw [Store.cellValue, hcells]
    exact h.value hc
  cells := hcells ▸ h.cells
  objects := hobjects ▸ h.objects

theorem newChild (k : Nat) : H.Sound (s.newChild k).1 :=
  h.of_bound rfl rfl rfl fun hm => .inl (Store.bound_newChild hm)

/-- A cell that is hidden may hold anything. -/
theorem setCell (hx : c ∈ H.cells ∨ H.spares x) : H.Sound (s.setCell c x) where
  name := h.name
  array := h.array
  object := h.object
  value {d} hd := by
    by_cases hdc : d = c
    · subst hdc
      have hspares := hx.resolve_left hd
      rw [Store.cellValue, Store.setCell, Array.getElem?_setIfInBounds_self]
      split
      · exact hspares
      · rfl
    · rw [Store.cellValue_setCell_of_ne hdc]
      exact h.value hd
  cells d hd := by
    rw [Store.size_cells_setCell]
    exact h.cells d hd
  objects := h.objects

theorem newCell (hx : H.spares x) : H.Sound (s.newCell x).1 where
  name := h.name
  array := h.array
  object := h.object
  value {d} hd := by
    rw [Store.cellValue, Store.newCell, Array.getElem?_push]
    split
    · exact hx
    · exact h.value hd
  cells d hd := by
    rw [Store.newCell, Array.size_push]
    exact Nat.lt_succ_of_lt (h.cells d hd)
  objects := h.objects

/-- What leads to nothing hidden has the same contents whatever the last result is. -/
theorem shape_setCell (v : Value) (hx : H.spares x) : (s.setCell H.last v).shape x = s.shape x := by
  have hfrom (depth : Nat) : ∀ x, H.spares x →
      (s.setCell H.last v).shapeFrom depth x = s.shapeFrom depth x := by
    induction depth with
    | zero => exact fun x _ => rfl
    | succ depth ih =>
      intro x hx
      have hpart {c : Nat} (hc : c ∉ H.cells) : (s.setCell H.last v).shapeFrom depth
          ((s.setCell H.last v).cellValue c) = s.shapeFrom depth (s.cellValue c) := by
        rw [Store.cellValue_setCell_of_ne (ne_last hc), ih _ (h.value hc)]
      cases x with
      | array a => exact congrArg Shape.array (map_congr_left fun c hc => hpart (h.array hc))
      | object o =>
        have ho : o ∉ H.objects := by simpa [spares] using hx
        exact congrArg Shape.object (map_congr_left fun p hp =>
          congrArg (Prod.mk p.1) (hpart (h.object ho hp)))
      | _ => rfl
  exact hfrom _ x hx

end Sound

end Hidden

/-- Everything in the store is gone through to see whether it is sound. -/
def Hidden.isSound (H : Hidden) (s : Store) : Bool :=
  (s.scopes.all fun sc => sc.names.all fun p => p.1 ∈ H.names || p.2 ∉ H.cells) &&
  (s.arrays.all fun r => r.cells.all (· ∉ H.cells)) &&
  ((range s.objects.size).all fun o =>
    o ∈ H.objects || (s.objectAt o).cells.all (·.2 ∉ H.cells)) &&
  ((range s.cells.size).all fun c => c ∈ H.cells || H.spares (s.cellValue c)) &&
  H.cells.all (· < s.cells.size) && H.objects.all (· < s.objects.size)

/-- What is not there is as harmless as what is. -/
theorem forall_getD {P : α → Prop} {xs : Array α} {d : α} (h : ∀ x ∈ xs, P x) (hd : P d) (i : Nat) :
    P (xs[i]?.getD d) := by
  cases hx : xs[i]? with
  | none => exact hd
  | some x => exact h x (Array.mem_of_getElem? hx)

theorem Hidden.sound_of_isSound {H : Hidden} {s : Store} (h : H.isSound s) : H.Sound s := by
  simp only [isSound, Bool.and_eq_true, Bool.or_eq_true, decide_eq_true_eq, mem_range,
    all_eq_true, Array.all_eq_true_iff_forall_mem] at h
  obtain ⟨⟨⟨⟨⟨hnames, harrays⟩, hobjects⟩, hvalues⟩, hcells⟩, hobj⟩ := h
  refine ⟨?_, fun {a c} hc => ?_, fun {o p} ho hp => ?_, fun {c} hc => ?_, hcells, hobj⟩
  · rintro m c ⟨j, hj⟩ hm
    exact (forall_getD hnames (by simp) j _ hj).resolve_left hm
  · exact forall_getD harrays (by simp) a c hc
  · by_cases hlt : o < s.objects.size
    · exact (hobjects o hlt).resolve_left ho p hp
    · rw [Store.objectAt, Array.getElem?_eq_none (Nat.not_lt.mp hlt)] at hp
      cases hp
  · by_cases hlt : c < s.cells.size
    · exact (hvalues c hlt).resolve_left hc
    · rw [Store.cellValue, Array.getElem?_eq_none (Nat.not_lt.mp hlt)]
      rfl

/-- What counts of a scope: where it lies, what it reads and the cell of the last result. -/
def Scope.gist (sc : Scope) : Option Nat × Nat × Option Nat :=
  (sc.base, sc.input, findName World.resultName sc.names)

/-! ### Writing one cell before or after the other -/

namespace Store

theorem setCell_comm {c d : Nat} (hne : d ≠ c) (s : Store) (v x : Value) :
    (s.setCell c v).setCell d x = (s.setCell d x).setCell c v := by
  have hcells : (s.cells.setIfInBounds c v).setIfInBounds d x =
      (s.cells.setIfInBounds d x).setIfInBounds c v :=
    Array.setIfInBounds_comm v x (Ne.symm hne)
  simp only [setCell, hcells]

/-- What a cell holds has no say in where scopes lie. -/
theorem root_setCell (s : Store) (c : Nat) (v : Value) (k : Nat) :
    (s.setCell c v).root k = s.root k := by
  have hfrom (steps : Nat) : ∀ k, (s.setCell c v).rootFrom steps k = s.rootFrom steps k := by
    induction steps with
    | zero => exact fun k => rfl
    | succ steps ih =>
      intro k
      rw [rootFrom, rootFrom, scopeAt_setCell]
      simp only [ih]
  exact hfrom k k

theorem newCell_setCell {s : Store} {c : Nat} (hc : c < s.cells.size) (v x : Value) :
    (s.setCell c v).newCell x = ((s.newCell x).1.setCell c v, (s.newCell x).2) := by
  have hcells : (s.cells.setIfInBounds c v).push x = (s.cells.push x).setIfInBounds c v := by
    refine Array.ext_getElem? fun j => ?_
    simp only [Array.getElem?_setIfInBounds]
    grind
  simp only [newCell, setCell, Array.size_setIfInBounds, hcells]

/-- A write to a variable whose cell is another one. -/
theorem define_setCell {s : Store} {k c : Nat} {name : String} (hc : c < s.cells.size)
    (hplace : (findName name (s.scopeAt k).names).or (s.inherited? k name) ≠ some c)
    (v x : Value) : (s.setCell c v).define k name x =
      ((s.define k name x).1.setCell c v, (s.define k name x).2) := by
  have hinherited : (s.setCell c v).inherited? k name = s.inherited? k name := rfl
  rw [define, define, hinherited, scopeAt_setCell]
  cases hown : findName name (s.scopeAt k).names with
  | some d =>
    rw [hown] at hplace
    have hne : d ≠ c := fun hd => hplace (hd ▸ rfl)
    simp only [setCell_comm hne]
  | none =>
    cases hbase : s.inherited? k name with
    | some d =>
      rw [hown, hbase] at hplace
      have hne : d ≠ c := fun hd => hplace (hd ▸ rfl)
      exact congrArg (·, d) (setCell_comm hne (s.bind k name d) v x)
    | none =>
      simp only [newCell_setCell hc]
      rfl

/-! ### Scopes that stay as they are -/

/-- The scopes are still there, with the same base, input and cell for the last result. -/
structure Steady (s s' : Store) : Prop where
  size : s.scopes.size ≤ s'.scopes.size
  gist : ∀ {j}, j < s.scopes.size → (s'.scopeAt j).gist = (s.scopeAt j).gist

namespace Steady

variable {a b c : Store} {name : String}

theorem refl (s : Store) : s.Steady s :=
  ⟨Nat.le_refl _, fun _ => rfl⟩

theorem trans (h₁ : a.Steady b) (h₂ : b.Steady c) : a.Steady c where
  size := Nat.le_trans h₁.size h₂.size
  gist hj := (h₂.gist (Nat.lt_of_lt_of_le hj h₁.size)).trans (h₁.gist hj)

/-- Steadiness is a matter of the scopes alone. -/
theorem congr (h : a.Steady b) (hscopes : c.scopes = b.scopes) : a.Steady c := by
  have hscope (j : Nat) : c.scopeAt j = b.scopeAt j := by rw [scopeAt, scopeAt, hscopes]
  exact ⟨hscopes ▸ h.size, fun hj => hscope _ ▸ h.gist hj⟩

/-- A change of one scope that leaves alone what counts. -/
theorem modifyScope (s : Store) (k : Nat) {f : Scope → Scope} (hf : ∀ sc, (f sc).gist = sc.gist) :
    s.Steady (s.modifyScope k f) := by
  refine ⟨Nat.le_of_eq (size_scopes_modifyScope s k f).symm, fun {j} _ => ?_⟩
  rw [scopeAt_modifyScope]
  split
  · exact hf _
  · rfl

theorem newChild (s : Store) (k : Nat) : s.Steady (s.newChild k).1 where
  size := by
    rw [Store.newChild, Array.size_push]
    exact Nat.le_succ _
  gist hj := by rw [scopeAt_newChild_of_lt hj]

/-- Writing another variable. -/
theorem define (s : Store) (k : Nat) (hname : name ≠ World.resultName) (v : Value) :
    s.Steady (s.define k name v).1 := by
  have hbind (d : Nat) : s.Steady (s.bind k name d) := by
    refine modifyScope s k fun sc => ?_
    rw [Scope.gist, findName_append, findName, if_neg hname]
    exact congrArg (sc.base, sc.input, ·) Option.or_none
  rcases define_cases s k name v with ⟨d, -, hdef⟩ | ⟨d, -, -, hdef⟩ | ⟨-, -, hdef⟩
  · exact (refl s).congr (by rw [hdef]; rfl)
  · exact (hbind d).congr (by rw [hdef]; rfl)
  · exact (hbind s.cells.size).congr (by rw [hdef]; rfl)

end Steady

/-- A property of stores that does not end while the scopes stay as they are. -/
class Lasting (Q : Store → Prop) : Prop where
  steady : ∀ {s s'}, s.Steady s' → Q s → Q s'

end Store

/-! ### Operations that are blind to the last result -/

namespace Hidden

variable {H : Hidden} {P : α → Prop} {Q : β → Prop} {s : Store} {c k : Nat} {name : String}
  {x : Value}

/-- An operation of the store that leaves hidden what is hidden, gives something with the property
and comes to the same whatever the last result is. -/
structure Blind (H : Hidden) (P : α → Prop) (f : Store → Store × α) : Prop where
  sound : ∀ {s}, H.Sound s → H.Sound (f s).1
  steady : ∀ {s}, H.Sound s → s.Steady (f s).1
  gives : ∀ {s}, H.Sound s → P (f s).2
  setCell : ∀ {s} (v : Value), H.Sound s →
    f (s.setCell H.last v) = ((f s).1.setCell H.last v, (f s).2)

theorem Blind.pure {a : α} (ha : P a) : H.Blind P fun s => (s, a) :=
  ⟨id, fun _ => .refl _, fun _ => ha, fun _ _ => rfl⟩

theorem Blind.comp {f : Store → Store × α} {g : α → Store → Store × β} (hf : H.Blind P f)
    (hg : ∀ a, P a → H.Blind Q (g a)) : H.Blind Q fun s => g (f s).2 (f s).1 where
  sound h := (hg _ (hf.gives h)).sound (hf.sound h)
  steady h := (hf.steady h).trans ((hg _ (hf.gives h)).steady (hf.sound h))
  gives h := (hg _ (hf.gives h)).gives (hf.sound h)
  setCell v h := by
    simp only [hf.setCell v h]
    exact (hg _ (hf.gives h)).setCell v (hf.sound h)

/-- What an operation gives can be changed afterwards. -/
theorem Blind.map {f : Store → Store × α} {g : α → β} (hf : H.Blind P f) (hg : ∀ a, P a → Q (g a)) :
    H.Blind Q fun s => ((f s).1, g (f s).2) :=
  hf.comp fun a ha => .pure (hg a ha)

/-- A change of the numbers, of the captured scopes or of the services. -/
theorem blind_rest {f : Store → Store × α} (hcells : ∀ s, (f s).1.cells = s.cells)
    (harrays : ∀ s, (f s).1.arrays = s.arrays) (hobjects : ∀ s, (f s).1.objects = s.objects)
    (hscopes : ∀ s, (f s).1.scopes = s.scopes) (hgives : ∀ s, P (f s).2)
    (hput : ∀ s v, f (s.setCell H.last v) = ((f s).1.setCell H.last v, (f s).2)) : H.Blind P f where
  sound {s} h := by
    refine h.of_bound (hcells s) (harrays s) (hobjects s) fun hm => .inl ?_
    simpa only [Store.Bound, Store.scopeAt, hscopes] using hm
  steady {s} _ := (Store.Steady.refl s).congr (hscopes s)
  gives _ := hgives _
  setCell v _ := hput _ v

theorem blind_fresh {f : Nat → Nat × α} (hf : ∀ n, P (f n).2) :
    H.Blind P fun s => ({ s with fresh := (f s.fresh).1 }, (f s.fresh).2) :=
  blind_rest (fun _ => rfl) (fun _ => rfl) (fun _ => rfl) (fun _ => rfl) (fun _ => hf _)
    fun _ _ => rfl

/-- A function literal captures a scope. -/
theorem blind_capture (k site : Nat) : H.Blind (fun _ => True) fun s =>
      (if (s.captured.lookup site).isSome then s
        else { s with captured := (site, k) :: s.captured }, ()) := by
  apply blind_rest
  case hgives => exact fun _ => trivial
  case hput =>
    intro s v
    show (if (s.captured.lookup site).isSome then _ else _, ()) = _
    split <;> rfl
  all_goals
    intro s
    split <;> rfl

/-- A change of the flags of a scope. -/
theorem blind_modifyScope (k : Nat) {f : Scope → Scope}
    (hf : ∀ sc, (f sc).gist = sc.gist ∧ (f sc).names = sc.names) :
    H.Blind (fun _ => True) fun s => (s.modifyScope k f, ()) where
  sound h := h.of_bound rfl rfl rfl fun hm =>
    .inl (Store.bound_modifyScope (fun sc => (hf sc).2 ▸ List.Subset.refl _) hm)
  steady {s} _ := .modifyScope s k fun sc => (hf sc).1
  gives _ := trivial
  setCell _ _ := rfl

theorem blind_newChild (k : Nat) : H.Blind (fun _ => True) fun s => s.newChild k where
  sound h := h.newChild k
  steady {s} _ := .newChild s k
  gives _ := trivial
  setCell _ _ := rfl

/-- Writing a cell that is not hidden. -/
theorem blind_setCell (hc : c ∉ H.cells) (hx : H.spares x) :
    H.Blind (fun _ => True) fun s => (s.setCell c x, ()) where
  sound h := h.setCell (.inr hx)
  steady {s} _ := (Store.Steady.refl s).congr rfl
  gives _ := trivial
  setCell {s} v _ := congrArg (·, ()) (Store.setCell_comm (ne_last hc) s v x)

/-! ### New arrays and objects -/

theorem blind_newCell (hx : H.spares x) : H.Blind (· ∉ H.cells) fun s => s.newCell x where
  sound h := h.newCell hx
  steady {s} _ := (Store.Steady.refl s).congr rfl
  gives h hc := Nat.lt_irrefl _ (h.cells _ hc)
  setCell v h := Store.newCell_setCell h.last v x

theorem blind_newCells {vs : List Value} (h : ∀ x ∈ vs, H.spares x) :
    H.Blind (fun cs => ∀ c ∈ cs, c ∉ H.cells) fun s => s.newCells vs := by
  induction vs with
  | nil => exact .pure fun c hc => absurd hc not_mem_nil
  | cons x vs ih =>
    refine (blind_newCell (h x mem_cons_self)).comp
      (g := fun c s => ((s.newCells vs).1, c :: (s.newCells vs).2)) fun c hc => ?_
    refine (ih fun y hy => h y (mem_cons_of_mem x hy)).map fun cs hcs => ?_
    exact forall_mem_cons.mpr ⟨hc, hcs⟩

theorem blind_newArray (evaluated : Bool) {vs : List Value} (h : ∀ x ∈ vs, H.spares x) :
    H.Blind (H.spares ·) fun s => s.newArray evaluated vs := by
  refine (blind_newCells h).comp
    (g := fun cells s =>
      ({ s with arrays := s.arrays.push ⟨evaluated, cells⟩ }, Value.array s.arrays.size))
    fun cells hcells => ⟨fun {s} h => { h with array := fun {a c} hc => ?_ },
      fun {s} _ => (Store.Steady.refl s).congr rfl, fun _ => rfl, fun _ _ => rfl⟩
  rw [Store.arrayAt, Array.getElem?_push] at hc
  split at hc
  · exact hcells c hc
  · exact h.array hc

theorem blind_newObject (evaluated : Bool) {ps : List (String × Value)} (description : Data)
    (h : ∀ p ∈ ps, H.spares p.2) :
    H.Blind (H.spares ·) fun s => s.newObject evaluated ps description := by
  refine (blind_newCells (forall_mem_map.mpr h)).comp
    (g := fun cells s =>
      ({ s with objects := s.objects.push ⟨evaluated, (ps.map Prod.fst).zip cells, description⟩ },
        Value.object s.objects.size))
    fun cells hcells => ⟨fun {s} h => ?_, fun {s} _ => (Store.Steady.refl s).congr rfl,
      fun {s} h => ?_, fun _ _ => rfl⟩
  · refine { h with object := fun {o p} ho hp => ?_, objects := fun o ho => ?_ }
    · rw [Store.objectAt, Array.getElem?_push] at hp
      split at hp
      · exact hcells _ (of_mem_zip hp).2
      · exact h.object ho hp
    · rw [Array.size_push]
      exact Nat.lt_succ_of_lt (h.objects o ho)
  · have hnew : s.objects.size ∉ H.objects := fun ho => Nat.lt_irrefl _ (h.objects _ ho)
    simpa [spares] using hnew

mutual

/-- A datum that is put into the store. -/
theorem blind_load : ∀ {d : Data} {shape : Shape}, Shape.ofData d = .ok shape →
    H.Blind (H.spares ·) fun s => s.load shape
  | .null, _, rfl | .bool _, _, rfl | .int _, _, rfl | .float _, _, rfl | .str _, _, rfl => .pure rfl
  | .list xs, shape, h => by
    obtain ⟨es, hes, ⟨⟩⟩ := exists_of_bind_eq_ok h
    exact (blind_loadAll hes).comp fun vs hvs => blind_newArray true hvs
  | .dict es, shape, h => by
    obtain ⟨ps, hps, ⟨⟩⟩ := exists_of_bind_eq_ok h
    exact (blind_loadNamed hps).comp fun vs hvs => blind_newObject true .null hvs

theorem blind_loadAll : ∀ {ds : List Data} {shapes : List Shape},
    Shape.ofDataAll ds = .ok shapes →
    H.Blind (fun vs => ∀ x ∈ vs, H.spares x) fun s => s.loadAll shapes
  | [], _, rfl => .pure fun x hx => absurd hx not_mem_nil
  | d :: ds, shapes, h => by
    obtain ⟨e, he, h⟩ := exists_of_bind_eq_ok h
    obtain ⟨es, hes, ⟨⟩⟩ := exists_of_bind_eq_ok h
    refine (blind_load he).comp fun x hx => (blind_loadAll hes).map fun vs hvs => ?_
    exact forall_mem_cons.mpr ⟨hx, hvs⟩

theorem blind_loadNamed : ∀ {es : Data.Entries} {shapes : List (String × Shape)},
    Shape.ofDataEntries es = .ok shapes →
    H.Blind (fun ps => ∀ p ∈ ps, H.spares p.2) fun s => s.loadNamed shapes
  | [], _, rfl => .pure fun x hx => absurd hx not_mem_nil
  | (key, d) :: ds, shapes, h => by
    obtain ⟨e, he, h⟩ := exists_of_bind_eq_ok h
    obtain ⟨es, hes, ⟨⟩⟩ := exists_of_bind_eq_ok h
    refine (blind_load he).comp fun x hx => (blind_loadNamed hes).map
      (g := fun ps => (key, x) :: ps) fun vs hvs => ?_
    exact forall_mem_cons.mpr ⟨hx, hvs⟩

end

/-! ### Writing variables -/

/-- A variable is written in a cell that is its own, one that is taken over under its name, or a new
one. -/
theorem Sound.define (h : H.Sound s) (hx : H.spares x) : H.Sound (s.define k name x).1 := by
  have hbind {t : Store} (ht : H.Sound t) {d : Nat} (hd : t.Bound name d ∨ d ∉ H.cells) :
      H.Sound (t.bind k name d) := by
    refine ht.of_bound rfl rfl rfl fun hm => ?_
    rcases Store.bound_bind hm with hm | ⟨rfl, rfl⟩
    · exact .inl hm
    · exact hd.imp id .inr
  rcases Store.define_cases s k name x with ⟨d, -, hdef⟩ | ⟨d, -, hd, hdef⟩ | ⟨-, -, hdef⟩
  · exact hdef ▸ h.setCell (.inr hx)
  · obtain ⟨b, -, hb⟩ := Store.inherited?_eq_some hd
    exact hdef ▸ (hbind h (.inl (Store.bound_of_findName hb))).setCell (.inr hx)
  · have hnew : s.cells.size ∉ H.cells := (blind_newCell hx).gives h
    exact hdef ▸ hbind (h.newCell hx) (.inr hnew)

theorem define_snd (s : Store) (k : Nat) (name : String) (x : Value) :
    (findName name (s.scopeAt k).names).or (s.inherited? k name) = some (s.define k name x).2 ∨
      (s.define k name x).2 = s.cells.size := by
  rcases Store.define_cases s k name x with ⟨d, hd, hdef⟩ | ⟨d, hn, hd, hdef⟩ | ⟨-, -, hdef⟩
  · exact .inl (by rw [hdef, hd]; rfl)
  · exact .inl (by rw [hdef, hn, hd]; rfl)
  · exact .inr (by rw [hdef])

/-- Writing a variable whose name is not hidden. -/
theorem blind_define (k : Nat) (hname : name ∉ H.names) (hx : H.spares x) :
    H.Blind (· ∉ H.cells) fun s => s.define k name x where
  sound h := h.define hx
  steady {s} _ := .define s k (fun (h : name = _) => hname (h ▸ H.result_mem)) x
  gives {s} h := by
    rcases define_snd s k name x with hplace | hnew
    · exact h.name (Store.bound_of_place hplace) hname
    · exact hnew ▸ (blind_newCell hx).gives h
  setCell v h := Store.define_setCell h.last
    (fun hc => h.name (Store.bound_of_place hc) hname H.last_mem) v x

end Hidden

end Parley
