import Parley.Proofs.Builtin.Avoiding

/-!
# Code that does not see the last result

An expression that has no hidden name in it (`Expr.avoids`) is made of constants, variables, members
and elements, arrays and objects, function literals, declarations, assignments, conditions, operators
and calls. In a store where nothing hidden is reached from what is not hidden, what it gives does not
depend on the last result, and it does not write it: in worlds that differ in nothing else it comes
to the same (`Hidden.Twins`).

Imports and help are left out. A service that is imported evaluates code of its own when it is
called, and help speaks of all variables.

## Main results

* `Act.avoiding_interpret`: evaluation and calls, however deeply they nest.
-/

namespace Parley.Act

open List

variable {H : Hidden} {E : World → World → Prop} {run : Run} {k : Nat}

/-- The means to carry out tasks, as far as the last result has no say in them: evaluation of code
that avoids the hidden names, and calls of functions that lead to nothing hidden. -/
structure Avoiding (H : Hidden) (E : World → World → Prop) (run : Run) : Prop where
  evaluate : ∀ (k : Nat) {e : Expr}, e.avoids H.names → Gives E H.Fair (run (.evaluate k e))
  apply : ∀ (k : Nat) {f : Value} {args : Args}, H.spares f → H.FairArgs args →
    Gives E H.Fair (run (.apply k f args))

variable (hrun : Avoiding H E run)

include hrun

/-! ### Parts of expressions -/

theorem evaluateArgs_gives {args : List (String × Expr)} (h : ∀ p ∈ args, p.2.avoids H.names) :
    Gives E H.FairArgs (evaluateArgs run k args) := by
  induction args with
  | nil => exact Gives.pure fun p hp => absurd hp not_mem_nil
  | cons p args ih =>
    obtain ⟨hp, hargs⟩ := forall_mem_cons.mp h
    exact (hrun.evaluate k hp).bind fun a ha => (ih hargs).bind fun more hmore =>
      Gives.pure (forall_mem_cons.mpr ⟨ha, hmore⟩)

theorem evaluateBlock_gives {es : List Expr} {last : Answer} (hlast : H.Fair last)
    (h : ∀ e ∈ es, e.avoids H.names) :
    Gives E H.Fair (evaluateBlock run k last es) := by
  induction es generalizing last with
  | nil => exact Gives.pure hlast
  | cons e es ih =>
    obtain ⟨he, hes⟩ := forall_mem_cons.mp h
    exact (hrun.evaluate k he).bind fun a ha => ih ha hes

/-- A failure that is caught gives null. -/
theorem attempt_gives {body : Expr} (hbody : body.avoids H.names) :
    Gives E H.Fair (evaluate run k (.attempt body)) := by
  refine Gives.bind (P := fun r => ∀ a, r = .ok a ∨ r = .error a → H.Fair a)
    (Gives.tryCatch ?_ fun f => ?_) fun r hr => ?_
  · exact (hrun.evaluate k hbody).bind fun a ha => Gives.pure (by grind)
  · cases f with
    | evaluation m => exact Gives.pure (by grind [Value.null])
    | _ => exact Gives.throw _
  · cases r <;> grind

variable [Veils H E] {e : Expr} {args : Args}

@[grind .] theorem evaluateValue_gives (he : e.avoids H.names) :
    Gives E (H.spares ·) (evaluateValue run k e) :=
  (hrun.evaluate k he).bind fun _ ha => deref_gives ha

theorem evaluateNamed_gives {ps : List (String × Expr)} (h : ∀ p ∈ ps, p.2.avoids H.names) :
    Gives E (fun vs => ∀ p ∈ vs, H.spares p.2) (evaluateNamed run k ps) := by
  induction ps with
  | nil => exact Gives.pure fun p hp => absurd hp not_mem_nil
  | cons p ps ih =>
    obtain ⟨hp, hps⟩ := forall_mem_cons.mp h
    exact (evaluateValue_gives hrun hp).bind fun y hy => (ih hps).bind fun more hmore =>
      Gives.pure (forall_mem_cons.mpr ⟨hy, hmore⟩)

/-! ### Expressions and calls -/

/-- One level of evaluation does not depend on the last result if the levels below do not. -/
theorem evaluate_gives (he : e.avoids H.names) : Gives E H.Fair (evaluate run k e) := by
  cases e with
  | lookup name =>
    have hname : name ∉ H.names := by simpa [Expr.avoids] using he
    exact (lookup_gives k hname).bind fun c hc => Gives.pure hc
  | define name =>
    have hname : name ∉ H.names := by simpa [Expr.avoids] using he
    exact (assign_gives k hname rfl).keeps.bind_gives fun _ =>
      (lookup_gives k hname).bind fun c hc => Gives.pure hc
  | array es =>
    have hes := Gives.mapM fun e h => evaluateValue_gives (k := k) hrun (Expr.avoids_of_avoidsAll he e h)
    exact hes.bind fun vs hvs => (Veils.withStore (Hidden.blind_newArray true hvs)).value
  | object ps =>
    exact (evaluateNamed_gives hrun (Expr.avoids_of_avoidsNamed he)).bind fun vs hvs =>
      (Veils.withStore (Hidden.blind_newObject true .null hvs)).value
  | closure site params body => exact (capture_twins k site).bind_gives fun _ => Gives.pure he
  | block es => exact evaluateBlock_gives hrun rfl (Expr.avoids_of_avoidsAll he)
  | member whole name => unfold evaluate pasted; grind [Expr.avoids]
  | exit => exact (stopLoop_twins k).bind_gives fun _ => (treeValue_gives .exit).value
  | ifThen c y n =>
    simp only [Expr.avoids, Bool.and_eq_true] at he
    refine (evaluateValue_gives hrun he.1.1).keeps.bind_gives fun x => ?_
    refine Keeps.bind_gives (getStore_twins fun _ _ => rfl) fun b => ?_
    grind [hrun.evaluate]
  | assign target value =>
    simp only [Expr.avoids, Bool.and_eq_true] at he
    refine (hrun.evaluate k he.1).bind fun t ht => (hrun.evaluate k he.2).bind fun a ha => ?_
    exact (assignTo_twins ht ha).bind_gives fun _ => Gives.pure ha
  | attempt body => exact attempt_gives hrun he
  | call f args =>
    simp only [Expr.avoids, Bool.and_eq_true] at he
    refine (evaluateArgs_gives hrun (Expr.avoids_of_avoidsNamed he.2)).bind fun as has => ?_
    exact (evaluateValue_gives hrun he.1).bind fun g hg => invoke_gives hg has (hrun.apply k hg has)
  | opCall op left right =>
    simp only [Expr.avoids, Bool.and_eq_true] at he
    have hsides : ∀ p ∈ [("left", left), ("right", right)], p.2.avoids H.names :=
      forall_mem_cons.mpr ⟨he.1.2, forall_mem_singleton.mpr he.2⟩
    refine (evaluateArgs_gives hrun hsides).bind fun as has => ?_
    exact (evaluateValue_gives hrun he.1.1).bind fun g hg => invoke_gives hg has (hrun.apply k hg has)
  | subscript whole index => unfold evaluate; grind [Expr.avoids, Value.null]
  | group inner => exact hrun.evaluate k he
  | negate inner => unfold evaluate pasted; grind [Expr.avoids]
  | constant c => exact Gives.pure rfl
  | elementList | paramList | arg | argList | bare => exact (treeValue_gives _).value
  | importName | help | helpAll => cases he

/-- The body of a function literal avoids the hidden names, in whatever scope it is evaluated. -/
theorem applyClosure_gives (k site : Nat) {params : List String} {body : Expr}
    (hf : H.spares (.closure site params body)) (hargs : H.FairArgs args) :
    Gives E H.Fair (applyClosure run k site params body args) := by
  simp only [Hidden.spares, Expr.avoids, Bool.and_eq_true, all_eq_true] at hf
  obtain ⟨hparams, hbody⟩ := hf
  have hbind (inner : Nat) : Keeps E (bindParams inner args params) := by
    induction params with
    | nil => exact Keeps.pure ()
    | cons p params ih =>
      obtain ⟨hp, hrest⟩ := forall_mem_cons.mp hparams
      have hname : p ∉ H.names := by simpa using hp
      exact (argValue_gives hargs p).keeps_bind fun y hy =>
        (assign_gives inner hname hy).keeps.bind fun _ => ih hrest
  refine Keeps.bind_gives (getStore_twins fun _ _ => rfl) fun outer => ?_
  split
  · exact error_gives k _
  · exact (Veils.withStore (Hidden.blind_newChild _)).bind fun inner _ =>
      (hbind inner).bind_gives fun _ => hrun.evaluate inner hbody

theorem apply_gives {f : Value} (hf : H.spares f) (hargs : H.FairArgs args) :
    Gives E H.Fair (apply run k f args) := by
  unfold apply
  split
  · exact applyClosure_gives hrun k _ hf hargs
  · exact runBuiltin_gives hargs (hrun.apply k) hf
  · cases hf
  · cases hf
  · exact Gives.pure hf
  · exact Gives.throw _

omit hrun in
/-- **Code that avoids the hidden names does not depend on the last result**, however deeply it
nests: whether it gives a value or fails, it does so whatever the last result is, and leaves that
alone. So does a call of a function that leads to nothing hidden. -/
theorem avoiding_interpret (depth : Nat) : Avoiding H E (interpret depth) := by
  induction depth with
  | zero => exact ⟨fun _ _ _ => Gives.throw _, fun _ _ _ _ _ => Gives.throw _⟩
  | succ depth ih =>
    exact ⟨fun k _ he => evaluate_gives ih he, fun k _ _ hf hargs => apply_gives ih hf hargs⟩

end Parley.Act
