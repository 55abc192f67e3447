import Parley.Proofs.Eval.Reporting
import Parley.Proofs.Eval.Transparency

/-!
# The check before a call

Before the body of a function is run, the arguments are checked against the parameters, one after
the other: an argument must be there unless the type of its parameter begins with `?`, and what is
there must be of the type without that mark. The check is exact. If every argument fits, the body is
run in the world as it is, but for the colour of the output; and if one does not, or if what is
called is no function, the call fails and nothing reaches the network.

That the body of a function is run, or is not, is said by leaving it open what bodies do: trees are
evaluated in one and the same way, and functions in any way (`Act.SameTrees`). A body that is run
decides what the call comes to, and one that is not run has no say in it.
-/

namespace Parley

open List

variable {run run' : Run}

/-! ### Types of parameters -/

namespace Params

/-- May the argument for a parameter of this type be left out? -/
def optional (type : String) : Bool :=
  Value.beginsWith "?" type

/-- The type without the mark of arguments that may be left out. -/
def wanted (type : String) : String :=
  if optional type then String.ofList (type.toList.drop 1) else type

/-- These are the parameters of a declaration: it is a dictionary from their names to their types,
or something else in which there is nothing. -/
def DeclaredBy (types : Params) (d : Data) : Prop :=
  d = types.toData ∨ types = [] ∧ d.items = .ok []

/-- No type is empty, and none asks for a cell. -/
def Ordinary (types : Params) : Prop :=
  ∀ p ∈ types, p.2 ≠ "cell" ∧ wanted p.2 ≠ ""

instance (types : Params) : Decidable types.Ordinary :=
  inferInstanceAs (Decidable (∀ p ∈ types, _))

variable {type : String}

theorem exists_toList_of_wanted (h : wanted type ≠ "") : ∃ c cs, type.toList = c :: cs := by
  refine exists_cons_of_ne_nil fun hnil => h ?_
  rw [String.toList_eq_nil_iff.mp hnil]
  rfl

theorem isOptional_of_wanted (h : wanted type ≠ "") :
    Help.isOptional (.str type) = .ok (optional type) := by
  obtain ⟨c, cs, hcs⟩ := exists_toList_of_wanted h
  have hfirst : Help.firstOf (.str type) = .ok (.str c.toString) := by
    simp only [Help.firstOf, hcs]
  have hoptional : optional type = ('?' == c) := by
    rw [optional, Value.beginsWith, hcs]
    exact Bool.and_true _
  rw [Help.isOptional, hfirst, hoptional]
  dsimp only [bind, Except.bind]
  split
  · next heq =>
    have hc : [c] = ['?'] := by simpa using congrArg String.toList (Data.str.inj heq)
    rw [singleton_inj.mp hc]
    rfl
  · next hne =>
    refine congrArg Except.ok (beq_false_of_ne ?_).symm
    rintro rfl
    exact hne rfl

/-- What the argument is held against. -/
theorem required_of_optional (type : String) :
    (if optional type then Help.required (.str type) else .str type) = .str (wanted type) := by
  rw [wanted]
  split <;> rfl

theorem ne_empty_of_wanted (h : wanted type ≠ "") : type ≠ "" := by
  rintro rfl
  exact h rfl

end Params

/-- The argument for a parameter is there unless it may be left out, and if it is there it is of the
type that is wanted. -/
def Args.Fits (s : Store) (args : Args) (p : String × String) : Prop :=
  ((args.lookup p.1).isSome = true ∨ Params.optional p.2 = true) ∧
    ∀ a, args.lookup p.1 = some a → (s.deref a).hasType (Params.wanted p.2) = true

theorem Args.fits_of_lookup {s : Store} {args : Args} {p : String × String} {a : Answer}
    (ha : args.lookup p.1 = some a) (htype : (s.deref a).hasType (Params.wanted p.2) = true) :
    args.Fits s p := by
  refine ⟨.inl (by rw [ha]; rfl), fun b hb => ?_⟩
  rwa [← Option.some.inj (ha.symm.trans hb)]

/-- The value is a function, and the arguments fit its parameters. -/
structure Value.Takes (s : Store) (types : Params) (f : Value) (args : Args) : Prop where
  function : f.isFunction = true
  fits : ∀ p ∈ types, args.Fits s p

/-- The tree is a call of a function with arguments: an operation gives its operands as the
arguments `left` and `right`. -/
inductive Expr.Calls : Expr → Expr → List (String × Expr) → Prop
  | call (function : Expr) (arguments : List (String × Expr)) :
      Calls (.call function arguments) function arguments
  | opCall (operator left right : Expr) :
      Calls (.opCall operator left right) operator [("left", left), ("right", right)]

/-- In the scope the name stands for the builtin function. -/
def Store.Means (s : Store) (scope : Nat) (name : String) (f : Builtin) : Prop :=
  ∃ copy, s.valueOf? scope name = some (.builtin f copy)

namespace Act

variable {α β : Type} {args : Args} {scope : Nat} {w : World} {types : Params} {x : Act α}
  {f : Value}

/-! ### Actions that fail -/

/-- The action fails in this world, and leaves the network as it was. -/
def Denies (w : World) (x : Act α) : Prop :=
  ∃ f w', w.perform x = (.error f, w') ∧ w'.network = w.network

theorem denies_error (w : World) (scope : Nat) (message : String) :
    Denies w (error scope message : Act α) :=
  ⟨_, _, perform_error w α scope message, rfl⟩

theorem Denies.bind (h : Denies w x) (f : α → Act β) : Denies w (x >>= f) := by
  obtain ⟨fault, w', hx, hnetwork⟩ := h
  exact ⟨fault, w', by rw [perform_bind, hx], hnetwork⟩

/-- An action that only writes on the console may come first. -/
theorem OnlyPrints.denies {f : α → Act β} (hx : OnlyPrints x)
    (hf : ∀ a w₁, w.perform x = (.ok a, w₁) → Denies w₁ (f a)) : Denies w (x >>= f) := by
  have hsaid := hx w
  rcases hrun : w.perform x with ⟨fault | a, w₁⟩
  · rw [hrun] at hsaid
    exact ⟨fault, w₁, by rw [perform_bind, hrun], hsaid.network⟩
  · rw [hrun] at hsaid
    obtain ⟨fault, w₂, hfail, hnetwork⟩ := hf a w₁ hrun
    exact ⟨fault, w₂, (perform_bind_ok hrun f).trans hfail, hnetwork.trans hsaid.network⟩

/-! ### The check -/

/-- **One type**: a value that is of the type passes, and any other is refused. -/
theorem perform_checkType (param type : String) (a : Answer) :
    ((w.store.deref a).hasType type = true →
      w.perform (checkType scope param (.str type) a) = (.ok (), w)) ∧
    ((w.store.deref a).hasType type = false → Denies w (checkType scope param (.str type) a)) := by
  rw [checkType, Denies, perform_deref_bind]
  refine ⟨fun h => ?_, fun h => ?_⟩
  · show w.perform (if !(w.store.deref a).hasType type then _ else pure ()) = _
    rw [h]
    rfl
  · show Denies w (if !(w.store.deref a).hasType type then _ else pure ())
    rw [h]
    refine (fixed_ofResult _).onlyPrints.denies fun noun w₁ _ => ?_
    refine (onlyPrints_written _ _).denies fun text w₂ _ => ?_
    obtain ⟨kind, word, hkind, -⟩ := exists_argKind a
    rw [hkind]
    exact (fixed_ofResult _).onlyPrints.denies fun _ w₃ _ => denies_error w₃ scope _

/-- An argument that is there is held against its type. -/
theorem checkArg_of_some {param type : String} {a : Answer} (ha : args.lookup param = some a)
    (hcell : type ≠ "cell") (hwanted : Params.wanted type ≠ "") :
    checkArg scope args param (.str type) =
      checkType scope param (.str (Params.wanted type)) a := by
  rw [checkArg, Params.isOptional_of_wanted hwanted, ha]
  simp only [ofResult, pure_bind, Params.required_of_optional, Option.isNone_some, Bool.false_and,
    Bool.false_eq_true, ↓reduceIte]
  split
  · next heq => exact absurd (Data.str.inj heq) hcell
  · next heq _ => cases heq
  · next heq _ => rw [Option.some.inj heq]

/-- **One parameter**: an argument that fits passes, and any other is refused. -/
theorem perform_checkArg {p : String × String} (hcell : p.2 ≠ "cell")
    (hwanted : Params.wanted p.2 ≠ "") :
    (args.Fits w.store p → w.perform (checkArg scope args p.1 (.str p.2)) = (.ok (), w)) ∧
    (¬ args.Fits w.store p → Denies w (checkArg scope args p.1 (.str p.2))) := by
  cases ha : args.lookup p.1 with
  | some a =>
    rw [checkArg_of_some ha hcell hwanted]
    refine ⟨fun h => (perform_checkType ..).1 (h.2 a ha), fun h => (perform_checkType ..).2 ?_⟩
    rw [Bool.eq_false_iff]
    exact fun htype => h (Args.fits_of_lookup ha htype)
  | none =>
    have hfits : args.Fits w.store p ↔ Params.optional p.2 = true := by
      simp [Args.Fits, ha]
    rw [checkArg, Params.isOptional_of_wanted hwanted, ha, hfits]
    cases ho : Params.optional p.2 with
    | true =>
      refine ⟨fun _ => ?_, fun h => absurd rfl h⟩
      simp only
      split
      · next heq => exact absurd (Data.str.inj heq) hcell
      · rfl
      · next heq _ => cases heq
    | false =>
      refine ⟨fun h => absurd h Bool.false_ne_true, fun _ => ?_⟩
      obtain ⟨noun, hnoun⟩ := exists_article (Params.ne_empty_of_wanted hwanted)
      simp only [Data.text, hnoun]
      exact (denies_error w scope _).bind _

/-- **All parameters**: arguments that fit pass, and any others are refused. -/
theorem perform_checkEach (h : types.Ordinary) :
    ((∀ p ∈ types, args.Fits w.store p) →
      w.perform (checkEach scope args (types.map fun p => (p.1, .str p.2))) = (.ok (), w)) ∧
    ((¬ ∀ p ∈ types, args.Fits w.store p) →
      Denies w (checkEach scope args (types.map fun p => (p.1, .str p.2)))) := by
  induction types with
  | nil => exact ⟨fun _ => rfl, fun hnot => absurd nofun hnot⟩
  | cons p types ih =>
    obtain ⟨⟨hcell, hwanted⟩, htypes⟩ := forall_mem_cons.mp h
    obtain ⟨hpass, hfail⟩ := @perform_checkArg args scope w p hcell hwanted
    rw [map_cons, checkEach, forall_mem_cons]
    by_cases hp : args.Fits w.store p
    · rw [Denies, perform_bind_ok (hpass hp)]
      refine ⟨fun hall => (ih htypes).1 hall.2, fun hnot => (ih htypes).2 fun hall => ?_⟩
      exact hnot ⟨hp, hall⟩
    · exact ⟨fun hall => absurd hall.1 hp, fun _ => (hfail hp).bind _⟩

theorem perform_checkArgs {d : Data} (hd : types.DeclaredBy d) (h : types.Ordinary) :
    ((∀ p ∈ types, args.Fits w.store p) → w.perform (checkArgs scope args d) = (.ok (), w)) ∧
    ((¬ ∀ p ∈ types, args.Fits w.store p) → Denies w (checkArgs scope args d)) := by
  rcases hd with rfl | ⟨rfl, hitems⟩
  · exact perform_checkEach h
  · refine ⟨fun _ => ?_, fun hnot => absurd nofun hnot⟩
    unfold checkArgs
    split
    · next es =>
      cases es with
      | nil => rfl
      | cons e es => cases hitems
    · rw [hitems]
      rfl

/-! ### Calls -/

/-- The parameters of a function are only looked up. -/
theorem perform_paramsOf (scope : Nat) (f : Value) (w : World) :
    w.perform (paramsOf scope f) = ((w.perform (paramsOf scope f)).1, w) := by
  cases f with
  | remote address service call =>
    rw [paramsOf, serviceOf, bind_assoc, perform_getStore_bind]
    cases w.store.service? scope service with
    | none => rfl
    | some s =>
      rw [pure_bind]
      cases s.params call <;> rfl
  | _ => rfl

/-- **A call with its check**: the function gets to work if it is one and the arguments fit, and the
call fails otherwise, whatever the function would do. -/
theorem perform_invoke (hparams : f.isFunction = true →
      ∃ d, (w.perform (paramsOf scope f)).1 = .ok d ∧ types.DeclaredBy d)
    (htypes : types.Ordinary) :
    (f.Takes w.store types args → ∃ w', w.Said w' ∧ ∀ run : Run,
      w.perform (invoke run scope f args) =
        w'.perform (andThen (run (.apply scope f args)) reset)) ∧
    (¬ f.Takes w.store types args → ∃ fault w', w'.network = w.network ∧ ∀ run : Run,
      w.perform (invoke run scope f args) = (.error fault, w')) := by
  by_cases hf : f.isFunction = true
  · obtain ⟨d, hd, hdeclared⟩ := hparams hf
    have hread : w.perform (paramsOf scope f) = (.ok d, w) := by rw [perform_paramsOf, hd]
    obtain ⟨hpass, hfail⟩ := @perform_checkArgs args scope w types d hdeclared htypes
    have hinvoke (run : Run) : w.perform (invoke run scope f args) =
        w.perform (checkArgs scope args d >>= fun _ => foreground "yellow" >>= fun _ =>
          andThen (run (.apply scope f args)) reset) := by
      rw [invoke, hf]
      exact perform_bind_ok hread _
    refine ⟨fun h => ?_, fun h => ?_⟩
    · obtain ⟨w', hw', hsaid⟩ := prints_yellow w
      refine ⟨w', hsaid, fun run => ?_⟩
      rw [hinvoke, perform_bind_ok (hpass h.fits), perform_bind_ok hw']
    · obtain ⟨fault, w', hw', hnetwork⟩ := hfail fun hfits => h ⟨hf, hfits⟩
      refine ⟨fault, w', hnetwork, fun run => ?_⟩
      rw [hinvoke, perform_bind, hw']
  · refine ⟨fun h => absurd h.function hf, fun _ => ?_⟩
    have hdenies : Denies w (pasted f >>= fun text =>
        (error scope (text ++ " is not a function") : Act Unit)) :=
      (onlyPrints_written _ f).denies fun text w₁ _ => denies_error w₁ scope _
    obtain ⟨fault, w', hw', hnetwork⟩ := hdenies
    refine ⟨fault, w', hnetwork, fun run => ?_⟩
    rw [invoke, Bool.eq_false_iff.mpr hf]
    show w.perform (pasted f >>= fun text => error scope (text ++ " is not a function") >>= _) = _
    rw [← bind_assoc, perform_bind, hw']

/-! ### Functions called by their names -/

section Named

variable {param type name : String} {e call function : Expr} {arguments : List (String × Expr)}
  {a : Answer} {w₁ w₂ : World} {depth : Nat} {f : Builtin} {copy : Nat}

/-- First the arguments of a call are evaluated and then what is called. -/
theorem perform_calls {f : Value} (hcall : call.Calls function arguments)
    (hargs : w.perform (evaluateArgs run scope arguments) = (.ok args, w₁))
    (hfunction : w₁.perform (evaluateValue run scope function) = (.ok f, w₂)) :
    w.perform (evaluate run scope call) = w₂.perform (invoke run scope f args) := by
  cases hcall with
  | call | opCall =>
    exact (perform_bind_ok hargs _).trans (perform_bind_ok hfunction _)

/-- **A builtin function is called** with arguments that fit: the function gets to work, and the
call comes to what the function comes to. -/
theorem perform_calls_builtin (hcall : call.Calls function arguments)
    (hargs : w.perform (evaluateArgs (interpret (depth + 1)) scope arguments) = (.ok args, w₁))
    (hfunction : w₁.perform (evaluateValue (interpret (depth + 1)) scope function) =
      (.ok (.builtin f copy), w₂))
    (htypes : f.params.Ordinary) (hfits : ∀ p ∈ f.params, args.Fits w₂.store p) :
    ∃ w₃, w₂.Said w₃ ∧ ∀ r w₄, w₃.perform (runBuiltin (interpret depth) scope f args) = (r, w₄) →
      ∃ w₅, w₄.Said w₅ ∧ w.perform (interpret (depth + 2) (.evaluate scope call)) = (r, w₅) := by
  obtain ⟨w₃, hsaid, hinvoke⟩ := (perform_invoke (f := .builtin f copy)
    (fun _ => ⟨f.params.toData, rfl, .inl rfl⟩) htypes).1 ⟨rfl, hfits⟩
  refine ⟨w₃, hsaid, fun r w₄ hrun => ?_⟩
  obtain ⟨w₅, hw₅, hsaid'⟩ := perform_andThen hrun prints_reset
  exact ⟨w₅, hsaid', (perform_calls hcall hargs hfunction).trans ((hinvoke _).trans hw₅)⟩

/-- A name that stands for a builtin function is evaluated to it. -/
theorem perform_means (h : w.store.Means scope name f) (depth : Nat) :
    ∃ copy, w.perform (evaluateValue (interpret (depth + 1)) scope (.lookup name)) =
      (.ok (.builtin f copy), w) := by
  obtain ⟨copy, hname⟩ := h
  obtain ⟨c, hc, hvalue⟩ := Option.map_eq_some_iff.mp hname
  refine ⟨copy, ?_⟩
  rw [perform_evaluateValue (perform_lookup hc depth), ← hvalue]
  rfl

/-- A function called by its name, with one argument. -/
theorem perform_call_builtin (hparams : f.params = [(param, type)])
    (htypes : Params.Ordinary [(param, type)])
    (he : w.perform (interpret (depth + 1) (.evaluate scope e)) = (.ok a, w₁))
    (hname : w₁.store.Means scope name f)
    (htype : (w₁.store.deref a).hasType (Params.wanted type) = true) :
    ∃ w₂, w₁.Said w₂ ∧ ∀ r w₃,
      w₂.perform (runBuiltin (interpret depth) scope f [(param, a)]) = (r, w₃) →
      ∃ w₄, w₃.Said w₄ ∧ w.perform (interpret (depth + 2)
        (.evaluate scope (.call (.lookup name) [(param, e)]))) = (r, w₄) := by
  obtain ⟨copy, hfunction⟩ := perform_means hname depth
  refine perform_calls_builtin (.call ..) (perform_bind_ok he _) hfunction (hparams ▸ htypes) ?_
  rw [hparams]
  exact forall_mem_singleton.mpr (Args.fits_of_lookup lookup_cons_self htype)

/-- A function that gives a value and does nothing but output does no more when it is called. -/
theorem perform_call_core {f : CoreFunction} (hf : (Builtin.core f).guarded)
    (hparams : f.params = [(param, type)]) (htypes : Params.Ordinary [(param, type)])
    (he : w.perform (interpret (depth + 1) (.evaluate scope e)) = (.ok a, w₁))
    (hname : w₁.store.Means scope name (.core f))
    (htype : (w₁.store.deref a).hasType (Params.wanted type) = true) {v : Value}
    (hcore : ∀ w₂ : World, w₂.store = w₁.store → ∃ w₃, w₂.Said w₃ ∧
      w₂.perform (core (interpret depth) scope f [(param, a)]) = (.ok (.value v), w₃)) :
    ∃ w₂, w₁.Said w₂ ∧ w.perform (interpret (depth + 2)
      (.evaluate scope (.call (.lookup name) [(param, e)]))) = (.ok (.value v), w₂) := by
  obtain ⟨w₂, hsaid, hcall⟩ := perform_call_builtin (f := .core f) hparams htypes he hname htype
  obtain ⟨w₃, hsaid', hw₃⟩ := hcore w₂ hsaid.store
  have hbody : w₂.perform (body (interpret depth) scope [(param, a)] (.core f)) =
      (.ok (.value v), w₃) := perform_bind_ok hw₃ _
  obtain ⟨w₄, hsaid'', hw₄⟩ := hcall _ _ (runBuiltin_of_ok hf hbody)
  exact ⟨w₄, (hsaid.trans hsaid').trans hsaid'', hw₄⟩

end Named

/-! ### Whether the body is run -/

/-- The two ways to carry out tasks evaluate trees alike; what functions do is left open. -/
def SameTrees (run run' : Run) : Prop :=
  ∀ k e, run' (.evaluate k e) = run (.evaluate k e)

theorem SameTrees.evaluateArgs (h : SameTrees run run') (scope : Nat)
    (arguments : List (String × Expr)) :
    evaluateArgs run' scope arguments = evaluateArgs run scope arguments := by
  induction arguments with
  | nil => rfl
  | cons argument arguments ih => rw [Act.evaluateArgs, Act.evaluateArgs, h, ih]

theorem SameTrees.evaluateValue (h : SameTrees run run') (scope : Nat) (e : Expr) :
    evaluateValue run' scope e = evaluateValue run scope e := by
  rw [Act.evaluateValue, Act.evaluateValue, h]

/-- The evaluation of the call leads from `w` to the body of the function, in a world in which
nothing has been done since `w'` but output; what the call comes to is then left to the body. -/
def RunsBody (run : Run) (scope : Nat) (call : Expr) (f : Value) (args : Args) (w w' : World) :
    Prop :=
  ∃ w₁, w'.Said w₁ ∧ ∀ run', SameTrees run run' → w.perform (evaluate run' scope call) =
      w₁.perform (andThen (run' (.apply scope f args)) reset)

/-- The evaluation of the call fails, whatever functions do, and nothing has reached the network
since `w'`. -/
def Denied (run : Run) (scope : Nat) (call : Expr) (w w' : World) : Prop :=
  ∃ fault w₁, w₁.network = w'.network ∧ ∀ run', SameTrees run run' →
    w.perform (evaluate run' scope call) = (.error fault, w₁)

/-- A call is not denied if the body is run. -/
theorem RunsBody.not_denied {call : Expr} {w' : World}
    (h : RunsBody run scope call f args w w') : ¬ Denied run scope call w w' := by
  rintro ⟨fault, w₂, -, hdenied⟩
  obtain ⟨w₁, -, hruns⟩ := h
  -- With bodies that do nothing the call succeeds.
  let idle : Run
    | .apply _ _ _ => pure nothing
    | task => run task
  have hidle : SameTrees run idle := fun _ _ => rfl
  obtain ⟨w₃, hw₃, -⟩ := perform_andThen (perform_pure w₁ nothing) prints_reset
  have hsuccess := (hruns idle hidle).symm.trans (hdenied idle hidle)
  cases (Prod.mk.inj (hw₃.symm.trans hsuccess)).1

/-- **The check before a call is exact.** When the arguments of a call and what is called have been
evaluated, the body is run if and only if what is called is a function, every argument that may not
be left out is there, and every argument that is there for a parameter is of the type of the
parameter, which is what its declaration says without a leading `?`. In every other case the call
fails, the body is not run, and nothing reaches the network. -/
theorem body_runs_iff (run : Run) (scope : Nat) {call function : Expr}
    {arguments : List (String × Expr)} (hcall : call.Calls function arguments) {w w₁ w₂ : World}
    {args : Args} (hargs : w.perform (evaluateArgs run scope arguments) = (.ok args, w₁))
    {f : Value} (hfunction : w₁.perform (evaluateValue run scope function) = (.ok f, w₂))
    {types : Params} (hparams : f.isFunction = true →
      ∃ d, (w₂.perform (paramsOf scope f)).1 = .ok d ∧ types.DeclaredBy d)
    (htypes : types.Ordinary) :
    (RunsBody run scope call f args w w₂ ↔ f.Takes w₂.store types args) ∧
    (Denied run scope call w w₂ ↔ ¬ f.Takes w₂.store types args) := by
  have hevaluate (run' : Run) (hsame : SameTrees run run') :
      w.perform (evaluate run' scope call) = w₂.perform (invoke run' scope f args) := by
    rw [← hsame.evaluateArgs] at hargs
    rw [← hsame.evaluateValue] at hfunction
    cases hcall with
    | call | opCall =>
      exact (perform_bind_ok hargs _).trans (perform_bind_ok hfunction _)
  obtain ⟨htakes, hfails⟩ := @perform_invoke args scope w₂ types f hparams htypes
  have hruns (h : f.Takes w₂.store types args) : RunsBody run scope call f args w w₂ := by
    obtain ⟨w₃, hsaid, hw₃⟩ := htakes h
    exact ⟨w₃, hsaid, fun run' hsame => (hevaluate run' hsame).trans (hw₃ run')⟩
  have hdenied (h : ¬ f.Takes w₂.store types args) : Denied run scope call w w₂ := by
    obtain ⟨fault, w₃, hnetwork, hw₃⟩ := hfails h
    exact ⟨fault, w₃, hnetwork, fun run' hsame => (hevaluate run' hsame).trans (hw₃ run')⟩
  refine ⟨⟨fun h => ?_, hruns⟩, fun h htakes => (hruns htakes).not_denied h, hdenied⟩
  exact Classical.byContradiction fun hnot => h.not_denied (hdenied hnot)

/-- A service with a call that needs the number of something and may be given a tag. -/
def pickyService : Service where
  transport := .http
  host := .str "h"
  protocol := .str "http"
  description := .null
  authType := .null
  authData := .null
  lenient := .bool false
  calls :=
    [ ("get", .dict [ ("description", .null),
          ("params", .dict [("id", .str "integer"), ("tag", .str "?string")]) ]) ]

/-- A world in which the service is known and `s` stands for it. -/
def pickyWorld : World :=
  let made := (World.blank.store.setService 0 "s" pickyService).newService "s"
  { World.blank with store := (made.1.define 0 "s" made.2).1 }

/-- The request is made for `s.get(id: 1)`, and not for `s.get(id: 1, tag: 2)`. -/
theorem body_runs_iff_picky : let get := Expr.member (.lookup "s") "get"
    let w := (pickyWorld.perform (evaluateValue (interpret 2) 0 get)).2
    let one := Value.constant (.int 1)
    RunsBody (interpret 2) 0 (.call get [("id", .constant (.int 1))]) (.remote 0 "s" "get")
        [("id", .value one)] pickyWorld w ∧
      Denied (interpret 2) 0 (.call get [("id", .constant (.int 1)), ("tag", .constant (.int 2))])
        pickyWorld w := by
  intro get w one
  let types : Params := [("id", "integer"), ("tag", "?string")]
  have hfunction : pickyWorld.perform (evaluateValue (interpret 2) 0 get) =
      (.ok (.remote 0 "s" "get"), w) := rfl
  have hparams : (Value.remote 0 "s" "get").isFunction = true →
      ∃ d, (w.perform (paramsOf 0 (.remote 0 "s" "get"))).1 = .ok d ∧ types.DeclaredBy d :=
    fun _ => ⟨types.toData, rfl, .inl rfl⟩
  have htypes : types.Ordinary := by decide
  refine ⟨(body_runs_iff _ _ (.call ..) rfl hfunction hparams htypes).1.mpr ⟨rfl, ?_⟩,
    (body_runs_iff _ _ (.call ..) rfl hfunction hparams htypes).2.mpr fun h => ?_⟩
  · refine forall_mem_cons.mpr ⟨⟨.inl rfl, fun a ha => ?_⟩, forall_mem_singleton.mpr ?_⟩
    · cases ha
      rfl
    · exact ⟨.inr rfl, nofun⟩
  · have htag := (h.fits ("tag", "?string") (.tail _ (.head _))).2 _ rfl
    exact absurd htag (by decide)

end Act

end Parley
