import Parley.Proofs.World.Quiet

/-!
# Runs of the interpreter

What a task keeps depends on the scope that it works in. So for the interpreter there is a frame for
every scope (`ScopeFrame`), and the proof that tasks keep the frames of their scopes follows the
interpreter: each of its parts is handed the means to carry out the tasks inside it and keeps the
frames if these do (`Runs`). The depth is counted down at the end, in `Parley.Proofs.Eval.Interpret`.

A loop that reads the statements of a scope ends when the loop of that scope is stopped, and whoever
has started it, with an input of its own, sets it going again after that. So a frame may say that
the loop of a scope is going on, and where its statements come from, if it does not say so while
such statements are read: for that time there is another frame.
-/

namespace Parley.Act

open List

variable {α : Type} {e : Expr} {f : Nat → Act α}

/-- For the tasks in the scope `k` the frame `rel i k`, and the frame `rel (within i k) k` while the
statements of that scope are read. -/
structure ScopeFrame where
  Index : Type
  rel : Index → Nat → World → World → Prop
  within : Index → Nat → Index
  frame : ∀ i k, Frame (rel i k)
  write : ∀ i k s c v, Allows (rel i k) s (s.setCell c v)
  define : ∀ i k s name v, Allows (rel i k) s (s.define k name v).1
  capture : ∀ i k s site, s.captured.lookup site = none →
    Allows (rel i k) s { s with captured := (site, k) :: s.captured }
  tables : ∀ i k s tables, Allows (rel i k) s { s with tables }
  forget : ∀ i k s table,
    Allows (rel i k) s (s.modifyScope k fun sc => { sc with names := [], table })
  /-- While the statements of a scope are read, another input can be chosen for it and its loop can be
  stopped. -/
  input : ∀ i k s input, Allows (rel (within i k) k) s (s.modifyScope k fun sc => { sc with input })
  stop : ∀ i k s,
    Allows (rel (within i k) k) s (s.modifyScope k fun sc => { sc with looping := false })
  enter : ∀ {i k w w'}, rel i k w w' → rel (within i k) k w w'
  /-- With its loop set going and the standard input or its former one for its input, a scope is back
  in the frame from before. -/
  leave : ∀ {i k w w' input},
    input = 0 ∨ (∃ v v', rel i k v v' ∧ (v.store.scopeAt k).input = input) →
    rel (within i k) k w w' →
    rel i k { w with store := w.store.modifyScope k fun sc => { sc with input, looping := true } }
      { w' with store := w'.store.modifyScope k fun sc => { sc with input, looping := true } }
  /-- A new scope is opened in the scope at hand or in one that a literal has captured. What has been
  done in it is done in the scope at hand, too. -/
  child : ∀ {i k w w' base}, rel i k w w' →
    base = k ∨ (∃ site, w.store.captured.lookup site = some base) →
    rel i w.store.scopes.size { w with store := (w.store.newChild base).1 }
        { w' with store := (w.store.newChild base).1 } ∧
      ∀ {v v'}, rel (within i w.store.scopes.size) w.store.scopes.size v v' → rel i k v v'

instance (F : ScopeFrame) (i : F.Index) (k : Nat) : Frame (F.rel i k) :=
  F.frame i k

/-- Some of the frames only. -/
def ScopeFrame.restrict (F : ScopeFrame) (P : F.Index → Prop)
    (hP : ∀ i k, P i → P (F.within i k)) : ScopeFrame where
  Index := { i // P i }
  rel i k := F.rel i.1 k
  within i k := ⟨F.within i.1 k, hP i.1 k i.2⟩
  frame i k := F.frame i.1 k
  write i := F.write i.1
  define i := F.define i.1
  capture i := F.capture i.1
  tables i := F.tables i.1
  forget i := F.forget i.1
  input i := F.input i.1
  stop i := F.stop i.1
  enter := F.enter
  leave := F.leave
  child := F.child

/-- One frame for all scopes, which allows any change of the store. -/
def ScopeFrame.everywhere (E : World → World → Prop) [Frame E] (h : ∀ s s', Allows E s s') :
    ScopeFrame where
  Index := Unit
  rel _ _ := E
  within i _ := i
  frame _ _ := inferInstance
  write _ _ _ _ _ := h _ _
  define _ _ _ _ _ := h _ _
  capture _ _ _ _ _ := h _ _
  tables _ _ _ _ := h _ _
  forget _ _ _ _ := h _ _
  input _ _ _ _ := h _ _
  stop _ _ _ := h _ _
  enter := id
  leave _ hE := by
    rw [← World.store_eq_of_silent (Tame.silent hE)]
    exact h _ _ rfl hE
  child hE _ := ⟨h _ _ rfl hE, id⟩

/-- The means to carry out tasks, as far as they keep the frames. -/
structure Runs (F : ScopeFrame) (run : Run) : Prop where
  evaluate : ∀ i k e, Keeps (F.rel i k) (run (.evaluate k e))
  renew : ∀ i k v, Keeps (F.rel i k) (run (.renew k v))
  apply : ∀ i k f args, Keeps (F.rel i k) (run (.apply k f args))
  session : ∀ i k, Keeps (F.rel (F.within i k) k) (run (.session k))

/-! ### Lists of tasks -/

section Lists

variable {E : World → World → Prop} {P : ∀ {α : Type}, Act α → Prop} {run : Run} {scope : Nat}

theorem Composes.evaluateArgs (hP : Composes P) {args : List (String × Expr)}
    (h : ∀ p ∈ args, P (run (.evaluate scope p.2))) : P (evaluateArgs run scope args) := by
  induction args with
  | nil => exact hP.pure []
  | cons p args ih =>
    have hargs := ih fun q hq => h q (mem_cons_of_mem p hq)
    exact hP.bind (h p mem_cons_self) fun a => hP.bind hargs fun more => hP.pure _

theorem Composes.evaluateBlock (hP : Composes P) {parts : List Expr} (last : Answer)
    (h : ∀ e ∈ parts, P (run (.evaluate scope e))) : P (evaluateBlock run scope last parts) := by
  induction parts generalizing last with
  | nil => exact hP.pure last
  | cons e parts ih =>
    have hparts a := ih a fun e' he' => h e' (mem_cons_of_mem e he')
    exact hP.bind (h e mem_cons_self) hparts

theorem Composes.evaluateNamed (hP : Composes P) {properties : List (String × Expr)}
    (h : ∀ p ∈ properties, P (evaluateValue run scope p.2)) :
    P (evaluateNamed run scope properties) := by
  induction properties with
  | nil => exact hP.pure []
  | cons p properties ih =>
    have hmore := ih fun q hq => h q (mem_cons_of_mem p hq)
    exact hP.bind (h p mem_cons_self) fun v => hP.bind hmore fun more => hP.pure _

@[grind ←] theorem Keeps.attempt {body : Expr} (h : Keeps E (run (.evaluate scope body))) :
    Keeps E (evaluate run scope (.attempt body)) := by
  refine Keeps.bind (Keeps.tryCatch ?_ fun f => ?_) fun r => ?_
  · exact h.bind fun a => Keeps.pure _
  · cases f with
    | evaluation m => exact Keeps.pure _
    | _ => exact Keeps.throw _
  · cases r <;> exact Keeps.pure _

section Tame

variable [Tame E]

@[grind ←] theorem Keeps.evaluateValue (h : Keeps E (run (.evaluate scope e))) :
    Keeps E (evaluateValue run scope e) :=
  h.bind fun a => Keeps.deref a

theorem Keeps.renewNamed (h : ∀ v, Keeps E (run (.renew scope v))) (cells : List (String × Nat)) :
    Keeps E (renewNamed run scope cells) := by
  induction cells with
  | nil => exact Keeps.pure []
  | cons p cells ih => unfold Act.renewNamed; grind

/-! ### Quiet parts of evaluation -/

@[grind .] theorem Keeps.treeValue (e : Expr) : Keeps E (treeValue e) := by
  unfold Act.treeValue Store.takeFresh; grind

@[grind .] theorem Keeps.element (scope : Nat) (array index : Value) :
    Keeps E (element scope array index) := by
  unfold Act.element; grind

end Tame

variable [Frame E]

@[grind ←] theorem Keeps.giveHelp {what : Expr} (h : Keeps E (run (.evaluate scope what))) :
    Keeps E (giveHelp run scope what) := by
  unfold Act.giveHelp; grind

@[grind .] theorem Keeps.giveGeneralHelp (scope : Nat) : Keeps E (giveGeneralHelp scope) := by
  unfold Act.giveGeneralHelp; grind

@[grind ←] theorem Keeps.invoke {f : Value} {args : Args}
    (h : Keeps E (run (.apply scope f args))) : Keeps E (invoke run scope f args) := by
  unfold Act.invoke; grind

end Lists

/-! ### Changes of the store -/

section Steps

variable {F : ScopeFrame} {i : F.Index} {scope : Nat}

@[grind .] theorem allows_setCell (s : Store) (c : Nat) (v : Value) :
    Allows (F.rel i scope) s (s.setCell c v) :=
  F.write i scope s c v

@[grind .] theorem allows_setService (s : Store) (k : Nat) (name : String) (service : Service) :
    Allows (F.rel i scope) s (s.setService k name service) :=
  F.tables i scope s _

@[grind .] theorem Keeps.assign (name : String) (v : Value) :
    Keeps (F.rel i scope) (assign scope name v) :=
  Keeps.withStore fun s => F.define i scope s name v

@[grind .] theorem Keeps.assignTo (target value : Answer) :
    Keeps (F.rel i scope) (assignTo target value) := by
  cases target with
  | cell c =>
    refine (Keeps.deref value).bind fun v => Keeps.modifyStore fun s => ?_
    exact F.write i scope s c v
  | value v => exact Keeps.throw _

/-- A literal that has captured a scope keeps it; one that has not captures the scope at hand. -/
@[grind .] theorem Keeps.capture (site : Nat) : Keeps (F.rel i scope) (capture scope site) := by
  refine Keeps.modifyStore fun s => ?_
  split
  · exact Store.Tolerant.refl s
  · next hsite => exact F.capture i scope s site (Option.not_isSome_iff_eq_none.mp hsite)

theorem Keeps.setInput (input : Nat) :
    Keeps (F.rel (F.within i scope) scope) (modifyScope scope fun sc => { sc with input }) :=
  Keeps.modifyStore fun s => F.input i scope s input

section

variable (hf : ∀ inner, Keeps (F.rel (F.within i inner) inner) (f inner))

include hf

/-- What is done in a new scope is done in the scope at hand. -/
theorem newChild_keeps {base : Nat} {w w' : World} (hw : F.rel i scope w w')
    (hbase : base = scope ∨ ∃ site, w.store.captured.lookup site = some base) :
    let x := withStore (fun s => s.newChild base) >>= f
    (w.perform x).1 = (w'.perform x).1 ∧ F.rel i scope (w.perform x).2 (w'.perform x).2 := by
  have hstore := World.store_eq_of_silent (Tame.silent hw)
  obtain ⟨hopened, hback⟩ := F.child hw hbase
  intro x
  have hw₁' : w'.perform x = World.perform { w' with store := (w.store.newChild base).1 }
      (f w.store.scopes.size) := by
    rw [hstore]
    exact perform_withStore_bind ..
  obtain ⟨hsame, hkept⟩ := hf w.store.scopes.size (F.enter hopened)
  rw [hw₁']
  exact ⟨hsame, hback hkept⟩

@[grind ←] theorem Keeps.newChild :
    Keeps (F.rel i scope) (Act.withStore (fun s => s.newChild scope) >>= f) :=
  fun _ _ hw => newChild_keeps hf hw (.inl rfl)

end

/-- An action that never fails may stop the loop of the scope and change its input, if this is put
right after it. -/
theorem Keeps.restored {β : Type} {x : Act α} {rest : α → Act β} {input : Nat}
    (hinput : input = 0 ∨ ∃ v v', F.rel i scope v v' ∧ (v.store.scopeAt scope).input = input)
    (hx : Keeps (F.rel (F.within i scope) scope) x)
    (hsafe : ∀ w : World, ∃ a, (w.perform x).1 = .ok a)
    (hrest : ∀ a, Keeps (F.rel i scope) (rest a)) :
    Keeps (F.rel i scope) (do
      let a ← x
      modifyScope scope fun sc => { sc with input, looping := true }
      rest a) := by
  intro w w' hw
  obtain ⟨hsame, hkept⟩ := hx (F.enter hw)
  obtain ⟨a, ha⟩ := hsafe w
  have hw₁ : w.perform x = (.ok a, (w.perform x).2) := Prod.ext ha rfl
  have hw₁' : w'.perform x = (.ok a, (w'.perform x).2) := Prod.ext (hsame.symm.trans ha) rfl
  rw [perform_bind_ok hw₁, perform_bind_ok hw₁']
  exact hrest a (F.leave hinput hkept)

end Steps

/-! ### Expressions -/

section Expressions

variable {F : ScopeFrame} {i : F.Index} {run : Run} {scope : Nat}

/-- An import makes the service known and gives it a variable, or defines what a module holds. -/
theorem Keeps.importing {E : World → World → Prop} [Tame E]
    (hdefine : ∀ s name v, Allows E s (s.define scope name v).1)
    (htables : ∀ s tables, Allows E s { s with tables }) (name : String) :
    Keeps E (importService scope name) := by
  have hassign (name : String) (v : Value) : Keeps E (Act.assign scope name v) :=
    Keeps.withStore fun s => hdefine s name v
  have hservice (s : Store) (service : Service) : Allows E s (s.setService scope name service) :=
    htables s _
  have hsets : Keeps E (loadSets scope) := by unfold loadSets Store.takeFresh; grind
  have hmodule : Keeps E (importModule scope name) := by unfold importModule; grind
  unfold Act.importService Store.newService
  refine Keeps.bind (by grind) fun v => Keeps.bind (Keeps.tryCatch ?_ fun f => ?_) fun _ => ?_
  · grind
  · grind
  · exact Keeps.pure v

@[grind .] theorem Keeps.importService (name : String) :
    Keeps (F.rel i scope) (importService scope name) :=
  Keeps.importing (F.define i scope) (F.tables i scope) name

/-- **Evaluating a tree** keeps the frame; what `exit` does is a matter of its own. -/
theorem evaluate_keeps (hrun : Runs F run) (he : e ≠ .exit) :
    Keeps (F.rel i scope) (evaluate run scope e) := by
  have heval (e : Expr) : Keeps (F.rel i scope) (run (.evaluate scope e)) := hrun.evaluate i scope e
  have happly f args : Keeps (F.rel i scope) (run (.apply scope f args)) := hrun.apply i scope f args
  cases e with
  | array es =>
    unfold evaluate; grind
  | object ps =>
    have hps := (composes_keeps _).evaluateNamed fun p (_ : p ∈ ps) => Keeps.evaluateValue (heval p.2)
    unfold evaluate; grind
  | block es => exact (composes_keeps _).evaluateBlock _ fun e _ => heval e
  | call f args =>
    have hargs := (composes_keeps _).evaluateArgs fun p (_ : p ∈ args) => heval p.2
    unfold evaluate; grind
  | opCall op left right =>
    have hargs := (composes_keeps _).evaluateArgs
      fun p (_ : p ∈ [("left", left), ("right", right)]) => heval p.2
    unfold evaluate; grind
  | attempt body => exact Keeps.attempt (heval body)
  | exit => exact absurd rfl he
  | _ => unfold evaluate; grind

/-- **Evaluating a value again** keeps the frame; what `exit` does is a matter of its own. -/
theorem renew_keeps (hrun : Runs F run) {v : Value} (hv : ∀ n, v ≠ .tree n .exit) :
    Keeps (F.rel i scope) (renew run scope v) := by
  have heval (e : Expr) : Keeps (F.rel i scope) (run (.evaluate scope e)) := hrun.evaluate i scope e
  have hcells := Keeps.renewNamed (hrun.renew i scope)
  unfold renew
  grind

theorem Keeps.bindParams (args : Args) (params : List String) :
    Keeps (F.rel i scope) (bindParams scope args params) := by
  induction params with
  | nil => exact Keeps.pure ()
  | cons param params ih => unfold Act.bindParams; grind

/-- The scope in which the body of a function literal is evaluated lies in the one that the literal
has captured. -/
theorem applyClosure_keeps (hrun : Runs F run) (site : Nat) (params : List String)
    (body : Expr) (args : Args) :
    Keeps (F.rel i scope) (applyClosure run scope site params body args) := by
  intro w w' hw
  have hstore := World.store_eq_of_silent (Tame.silent hw)
  unfold applyClosure
  rw [perform_getStore_bind, perform_getStore_bind, ← hstore]
  cases hsite : w.store.captured.lookup site with
  | none =>
    have herror : Keeps (F.rel i scope) (error scope "Function not evaluated!" : Act Answer) :=
      Keeps.error scope _
    exact herror hw
  | some outer =>
    refine newChild_keeps (fun inner => ?_) hw (.inr ⟨site, hsite⟩)
    exact (Keeps.bindParams args params).bind fun _ => hrun.evaluate _ inner body

end Expressions

end Parley.Act
