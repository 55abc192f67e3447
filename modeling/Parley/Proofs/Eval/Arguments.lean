import Parley.Proofs.Eval.Parameters
import Parley.Proofs.Service.Methods

/-!
# Arguments that are cells

An argument can be a cell or a value. Two lists of arguments are alike if they give the same names
the same values, the one perhaps by a cell and the other by the value itself. Functions look at the
values of their arguments, and most of them do so before they do anything else. So they come to the
same for arguments that are alike, in every world in which these are alike.

Two functions are left out. The one that writes variables is there to be given a cell, and the method
that sets the host of a service refuses one. For function literals see
`Parley.Proofs.Eval.Transparency`: they write their parameters one after the other.
-/

namespace Parley

variable {name : String} {a b : Answer} {f : CoreFunction}

/-! ### Arguments that give the same values -/

/-- The arguments have the same names, in the same order, and the same values; those that are cells
are there. -/
def Args.Alike (s : Store) : Args → Args → Prop :=
  List.Forall₂ fun a b => a.1 = b.1 ∧ s.deref a.2 = s.deref b.2 ∧ s.Holds a.2 ∧ s.Holds b.2

namespace Args.Alike

variable {s : Store} {args args' : Args}

/-- Under every name both have an argument, with the same value, or neither has one. -/
theorem lookup (h : Alike s args args') (name : String) :
    (args.lookup name = none ∧ args'.lookup name = none) ∨
      ∃ a b, args.lookup name = some a ∧ args'.lookup name = some b ∧ s.deref a = s.deref b ∧
        s.Holds a ∧ s.Holds b := by
  induction h with
  | nil => exact .inl ⟨rfl, rfl⟩
  | @cons a b args args' hab h ih =>
    obtain ⟨n, a⟩ := a
    obtain ⟨m, b⟩ := b
    obtain ⟨rfl, hvalue, hholds⟩ := hab
    rw [List.lookup_cons, List.lookup_cons]
    cases hname : name == n with
    | true => exact .inr ⟨a, b, rfl, rfl, hvalue, hholds⟩
    | false => exact ih

theorem deref_eq (h : Alike s args args') (ha : args.lookup name = some a)
    (hb : args'.lookup name = some b) : s.deref a = s.deref b := by
  rcases h.lookup name with ⟨hnone, -⟩ | ⟨a', b', ha', hb', hvalue, -⟩
  · rw [ha] at hnone
    cases hnone
  · rw [Option.some.inj (ha.symm.trans ha'), Option.some.inj (hb.symm.trans hb'), hvalue]

theorem holds (h : Alike s args args') (ha : args.lookup name = some a)
    (hb : args'.lookup name = some b) : s.Holds a ∧ s.Holds b := by
  rcases h.lookup name with ⟨hnone, -⟩ | ⟨a', b', ha', hb', -, hholds⟩
  · rw [ha] at hnone
    cases hnone
  · rwa [Option.some.inj (ha.symm.trans ha'), Option.some.inj (hb.symm.trans hb')]

end Args.Alike

namespace Act

variable {α β : Type} {s : Store} {args args' : Args} {run : Run} {scope : Nat} {x y : Act α}

/-! ### Actions that come to the same -/

/-- The actions come to the same in every world with this store. -/
def SameAt (s : Store) (x y : Act α) : Prop :=
  ∀ w : World, w.store = s → w.perform x = w.perform y

/-- If the action succeeds, the store is as it was. -/
def Leaves (x : Act α) : Prop :=
  ∀ (w w' : World) (a : α), w.perform x = (.ok a, w') → w'.store = w.store

theorem SameAt.refl (x : Act α) : SameAt s x x :=
  fun _ _ => rfl

/-- What comes after two actions that come to the same. -/
theorem SameAt.then (h : SameAt s x y) (f : α → Act β) : SameAt s (x >>= f) (y >>= f) := by
  intro w hw
  rw [perform_bind, perform_bind, h w hw]

/-- The actions come to the same, and leave the store. -/
structure Looks (s : Store) (x y : Act α) : Prop where
  same : SameAt s x y
  leaves : Leaves x

theorem Looks.refl (hx : Leaves x) : Looks s x x :=
  ⟨.refl x, hx⟩

theorem Looks.then (h : Looks s x y) (f : α → Act β) : SameAt s (x >>= f) (y >>= f) :=
  h.same.then f

/-- After such actions two others may follow that come to the same. -/
theorem Looks.bind {f g : α → Act β} (h : Looks s x y) (hfg : ∀ a, SameAt s (f a) (g a)) :
    SameAt s (x >>= f) (y >>= g) := by
  intro w hw
  rw [perform_bind, perform_bind, ← h.same w hw]
  rcases hrun : w.perform x with ⟨e | a, w₁⟩
  · rfl
  · exact hfg a w₁ ((h.leaves w w₁ a hrun).trans hw)

theorem SameAt.tryCatch (h : SameAt s x y) (handler : Fault → Act α) :
    SameAt s (tryCatch x handler) (tryCatch y handler) := by
  intro w hw
  rw [perform_tryCatch, perform_tryCatch, h w hw]

/-! ### Actions that leave the store -/

theorem OnlyPrints.leaves (h : OnlyPrints x) : Leaves x := by
  intro w w' a hrun
  have hstore := (h w).store
  rwa [hrun] at hstore

@[grind .] theorem leaves_pure (a : α) : Leaves (pure a : Act α) :=
  (fixed_pure a).onlyPrints.leaves

@[grind .] theorem leaves_throw (f : Fault) : Leaves (throw f : Act α) :=
  (onlyPrints_throw f).leaves

@[grind ←] theorem Leaves.bind {f : α → Act β} (hx : Leaves x)
    (hf : ∀ a, Leaves (f a)) : Leaves (x >>= f) := by
  intro w w' b h
  obtain ⟨a, w₁, hfirst, hrest⟩ := perform_bind_eq_ok_iff.mp h
  rw [hf a w₁ w' b hrest, hx w w₁ a hfirst]

@[grind .] theorem leaves_getStore (f : Store → α) : Leaves (getStore f) :=
  (onlyPrints_getStore f).leaves

@[grind .] theorem leaves_get : Leaves (get : Act World) := by
  intro w w' b h
  exact congrArg World.store (Prod.mk.inj h).2.symm

@[grind .] theorem leaves_ofResult (r : Except Fault α) : Leaves (ofResult r) :=
  (fixed_ofResult r).onlyPrints.leaves

theorem Prints.leaves {x : Act Unit} (h : Prints x) : Leaves x :=
  h.fixed.onlyPrints.leaves

@[grind .] theorem leaves_error (scope : Nat) (message : String) :
    Leaves (error scope message : Act α) := by
  intro w w' a h
  obtain ⟨u, hu⟩ := exists_perform_error α w scope message
  rw [hu] at h
  cases (Prod.mk.inj h).1

theorem leaves_ofTraced (t : Traced Fault α) : Leaves (ofTraced t) :=
  (fixed_ofTraced t).onlyPrints.leaves

@[grind .] theorem leaves_data (v : Value) : Leaves (data v) :=
  (leaves_getStore _).bind fun _ => leaves_ofTraced _

@[grind .] theorem leaves_written (style : Style) (v : Value) : Leaves (written style v) :=
  (onlyPrints_written style v).leaves

@[grind .] theorem leaves_argValue (args : Args) (name : String) : Leaves (argValue args name) := by
  unfold argValue argument deref
  grind

@[grind .] theorem leaves_serviceOf (scope : Nat) (name : String) : Leaves (serviceOf scope name) :=
  (onlyPrints_serviceOf scope name).leaves

theorem leaves_currentSession (scope : Nat) : Leaves (currentSession scope) := by
  unfold currentSession member
  grind

/-! ### Looking at arguments -/

theorem Looks.deref {a b : Answer} (h : s.deref a = s.deref b) : Looks s (deref a) (deref b) := by
  refine ⟨fun w hw => ?_, leaves_getStore _⟩
  rw [perform_deref, perform_deref, hw, h]

section Looking

variable (h : Args.Alike s args args')

include h

theorem Looks.argValue (name : String) : Looks s (argValue args name) (argValue args' name) := by
  refine ⟨fun w hw => ?_, leaves_argValue args name⟩
  rcases h.lookup name with ⟨hnone, hnone'⟩ | ⟨a, b, ha, hb, hvalue, -⟩
  · rw [Act.argValue, Act.argValue, argument, argument, hnone, hnone']
  · rw [perform_argValue ha, perform_argValue hb, hw, hvalue]

theorem Looks.argString (name : String) : Looks s (argString args name) (argString args' name) := by
  refine ⟨(Looks.argValue h name).then _, ?_⟩
  unfold Act.argString textValue
  grind

theorem Looks.argCells (name : String) : Looks s (argCells args name) (argCells args' name) := by
  refine ⟨(Looks.argValue h name).then _, ?_⟩
  unfold Act.argCells
  grind

theorem Looks.argPath (name : String) : Looks s (argPath args name) (argPath args' name) := by
  refine ⟨(Looks.argValue h name).then _, ?_⟩
  unfold Act.argPath
  grind

theorem Looks.argTime (name : String) : Looks s (argTime args name) (argTime args' name) := by
  refine ⟨(Looks.argValue h name).then _, ?_⟩
  unfold Act.argTime
  grind

theorem SameAt.argFunction (name : String) : SameAt s (argFunction args name) (argFunction args' name) :=
  (Looks.argValue h name).then _

theorem SameAt.argCivil : SameAt s (argCivil args) (argCivil args') :=
  (Looks.argTime h "time").bind fun _ => (Looks.argString h "tz").then _

theorem SameAt.caseMatters : SameAt s (caseMatters args) (caseMatters args') := by
  unfold Act.caseMatters
  rcases h.lookup "case" with ⟨hnone, hnone'⟩ | ⟨a, b, ha, hb, hvalue, -⟩
  · rw [hnone, hnone']
    exact .refl _
  · rw [ha, hb]
    exact (Looks.deref hvalue).then _

theorem SameAt.argValues : SameAt s (argValues args) (argValues args') := by
  induction h with
  | nil => exact .refl _
  | @cons a b args args' hab h ih =>
    obtain ⟨n, a⟩ := a
    obtain ⟨rfl, hvalue, -⟩ := hab
    exact (Looks.deref hvalue).bind fun _ => ih.then _

end Looking

/-! ### Functions -/

section Functions

variable (h : Args.Alike s args args')

include h

theorem SameAt.core (hf : f ≠ .set) :
    SameAt s (core run scope f args) (core run scope f args') := by
  cases f with
  | set => exact absurd rfl hf
  | size | type => exact (Looks.argValue h "of").then _
  | eval => exact (Looks.argValue h "code").then _
  | map | filter => exact (Looks.argCells h "arr").bind fun _ => (Looks.argValue h "fn").then _
  | reduce | rreduce =>
    refine (Looks.argValue h "arr").bind fun _ => ?_
    exact (Looks.argValue h "fn").bind fun _ => (Looks.argValue h "base").then _
  | repeatWhile => exact (SameAt.argFunction h "fn").then _
  | string | boolean | integer => exact (Looks.argValue h "value").then _
  | shell => exact (Looks.refl leaves_get).bind fun _ => (Looks.argString h "cmd").then _
  | grep =>
    refine (Looks.argValue h "text").bind fun _ => ?_
    exact (Looks.argString h "for").bind fun _ => (SameAt.caseMatters h).then _
  | split => exact (Looks.argValue h "text").bind fun _ => (Looks.argString h "on").then _
  | join => exact (Looks.argString h "with").bind fun _ => (Looks.argCells h "arr").then _
  | tojson => exact (Looks.argValue h "val").then _
  | parsejson => exact (Looks.argString h "str").then _
  | b64encode => exact (Looks.argString h "text").then _
  | b64decode => exact (Looks.argString h "b64").then _
  | print => exact (Looks.argValue h "text").then _
  | get => exact (Looks.argString h "name").bind fun _ => (Looks.argValue h "obj").then _
  | source => exact (Looks.argString h "file").then _
  | defOperator => exact (Looks.argString h "sym").bind fun _ => (Looks.argValue h "func").then _

theorem SameAt.runCore (hf : f ≠ .set) :
    SameAt s (runCore run scope f args) (runCore run scope f args') := by
  have hcore : SameAt s (Act.core run scope f args) (Act.core run scope f args') := .core h hf
  cases f with
  | set => exact absurd rfl hf
  | _ => exact (hcore.then _).tryCatch _

theorem SameAt.runOperator (o : Operator) :
    SameAt s (runOperator scope o args) (runOperator scope o args') :=
  (Looks.argValue h "left").bind fun _ => (Looks.argValue h "right").then _

theorem SameAt.runTime (f : TimeFunction) : SameAt s (runTime f args) (runTime f args') := by
  cases f with
  | now => exact .refl _
  | parse => exact (Looks.argString h "str").then _
  | «show» | showhttp => exact (SameAt.argCivil h).then _
  | timestamp => exact (Looks.argTime h "time").then _
  | lt | gt => exact (Looks.argTime h "left").bind fun _ => (Looks.argTime h "right").then _

theorem SameAt.runHttp (f : HttpFunction) :
    SameAt s (runHttp scope f args) (runHttp scope f args') := by
  refine SameAt.tryCatch ?_ _
  refine (Looks.argString h "url").bind fun url => ?_
  cases f with
  | post => exact (Looks.argString h "data").then _
  | _ => exact .refl _

theorem SameAt.runFile (f : FileFunction) :
    SameAt s (runFile scope f args) (runFile scope f args') := by
  refine SameAt.tryCatch ?_ _
  refine (Looks.argPath h "file").bind fun path => ?_
  cases f with
  | read => exact .refl _
  | write | append => exact (Looks.argPath h "text").then _

theorem SameAt.runSet (f : SetFunction) :
    SameAt s (runSet scope f args) (runSet scope f args') := by
  refine SameAt.tryCatch ?_ _
  cases f with
  | create => exact (Looks.argValue h "from").then _
  | array => exact (Looks.argValue h "set").then _

/-- Saving a session finds out which session it is before it looks at its argument. -/
theorem SameAt.saveSession : SameAt s (saveSession scope args) (saveSession scope args') := by
  have hname (current : Nat) : SameAt s (nameSession current args) (nameSession current args') := by
    unfold nameSession
    rcases h.lookup "name" with ⟨hnone, hnone'⟩ | ⟨a, b, ha, hb, hvalue, -⟩
    · rw [hnone, hnone']
      exact .refl _
    · rw [ha, hb]
      exact (Looks.deref hvalue).then _
  exact ((Looks.refl (leaves_currentSession scope)).bind fun current => (hname current).then _).then _

theorem SameAt.runSession (f : SessionFunction) :
    SameAt s (runSession run scope f args) (runSession run scope f args') := by
  refine SameAt.tryCatch ?_ _
  cases f with
  | save => exact (SameAt.saveSession h).then _
  | «open» => exact ((Looks.argValue h "name").then _).then _
  | clear => exact .refl _

/-- **Builtin functions**, apart from the one that writes variables. -/
theorem SameAt.runBuiltin {f : Builtin} (hf : f ≠ .core .set) :
    SameAt s (runBuiltin run scope f args) (runBuiltin run scope f args') := by
  cases f with
  | core f => exact .runCore h fun hset => hf (congrArg Builtin.core hset)
  | operator o => exact .runOperator h o
  | http f => exact .runHttp h f
  | time f => exact .runTime h f
  | file f => exact .runFile h f
  | session f => exact .runSession h f
  | set f => exact .runSet h f

/-- **Calls of services.** -/
theorem SameAt.applyRemote (service call : String) :
    SameAt s (applyRemote run scope service call args) (applyRemote run scope service call args') :=
  (Looks.refl (leaves_serviceOf scope service)).bind fun _ => (SameAt.argValues h).then _

/-- **The method that sets the authentication** of a service. -/
theorem SameAt.setAuthentication (address : Nat) (service : String) :
    SameAt s (applyMethod scope address service .setAuthentication args)
      (applyMethod scope address service .setAuthentication args') :=
  (Looks.argValue h "auth").then _

end Functions

end Act

end Parley
