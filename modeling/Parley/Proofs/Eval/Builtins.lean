import Parley.Proofs.Eval.Runs

/-!
# Builtin functions keep the frames

The operators and the functions on times, files, sets and requests are quiet. Of the functions that
stand alone and those on sessions some write variables or call functions; they keep the frames of
scopes if the means to call functions do.
-/

namespace Parley.Act

/-! ### Quiet functions -/

section Quiet

variable {α : Type} {E : World → World → Prop}

@[grind .] theorem Keeps.textValue (v : Value) : Keeps E (textValue v) := by
  unfold Act.textValue; grind

@[grind .] theorem Keeps.typeOf (v : Value) : Keeps E (typeOf v) := by
  unfold Act.typeOf; grind

@[grind .] theorem Keeps.toInteger (v : Value) : Keeps E (toInteger v) := by
  unfold Act.toInteger; grind

@[grind .] theorem Keeps.printedText (v : Value) : Keeps E (printedText v) := by
  unfold Act.printedText; grind

@[grind .] theorem Keeps.numericOf (v : Value) : Keeps E (numericOf v) := by
  unfold Act.numericOf; grind

@[grind .] theorem Keeps.concatSides (l r : Value) : Keeps E (concatSides l r) := by
  unfold Act.concatSides; grind

variable [Frame E] {scope : Nat} {x : Act α}

@[grind .] theorem Keeps.reportFault (scope : Nat) (f : Fault) :
    Keeps E (reportFault scope f : Act α) := by
  unfold Act.reportFault; grind

@[grind ←] theorem Keeps.reportAll (h : Keeps E x) : Keeps E (reportAll scope x) :=
  h.tryCatch fun f => Keeps.reportFault scope f

@[grind ←] theorem Keeps.reportOthers (h : Keeps E x) : Keeps E (reportOthers scope x) := by
  unfold Act.reportOthers; grind

@[grind .] theorem Keeps.argString (args : Args) (name : String) :
    Keeps E (argString args name) := by
  unfold Act.argString; grind

@[grind .] theorem Keeps.argCells (args : Args) (name : String) : Keeps E (argCells args name) := by
  unfold Act.argCells; grind

@[grind .] theorem Keeps.runOperator (scope : Nat) (o : Operator) (args : Args) :
    Keeps E (runOperator scope o args) := by
  have hlogic (b : Bool) (l r : Value) : Keeps E (logicSides b l r) := by unfold logicSides; grind
  have hoperate (l r : Value) : Keeps E (operate o l r) := by unfold operate; grind
  unfold Act.runOperator; grind

@[grind .] theorem Keeps.runTime (f : TimeFunction) (args : Args) : Keeps E (runTime f args) := by
  have htime (name : String) : Keeps E (argTime args name) := by unfold argTime; grind
  have hcivil : Keeps E (argCivil args) := by unfold argCivil civilIn; grind
  cases f <;> unfold Act.runTime <;> grind

@[grind .] theorem Keeps.runHttp (scope : Nat) (f : HttpFunction) (args : Args) :
    Keeps E (runHttp scope f args) := by
  have hparts (reply : Reply) : Keeps E (replyParts f reply) := by unfold replyParts; grind
  refine Keeps.reportAll (Keeps.bind (Keeps.argString args "url") fun url => ?_)
  cases f <;> unfold printBelow <;> grind

@[grind .] theorem Keeps.argPath (args : Args) (name : String) : Keeps E (argPath args name) := by
  unfold Act.argPath; grind

@[grind .] theorem Keeps.runFile (scope : Nat) (f : FileFunction) (args : Args) :
    Keeps E (runFile scope f args) := by
  refine Keeps.reportAll (Keeps.bind (Keeps.argPath args "file") fun path => ?_)
  cases f with
  | read =>
    refine Keeps.bind (Keeps.tryCatch ?_ fun f => ?_) fun r => ?_
    · exact (Keeps.readFile path).bind fun text => Keeps.pure _
    · split <;> exact Keeps.throw _
    · cases r <;> exact Keeps.pure _
  | write | append => grind

@[grind .] theorem Keeps.runSet (scope : Nat) (f : SetFunction) (args : Args) :
    Keeps E (runSet scope f args) := by
  have hload (ds : List Data) : Keeps E (loadAll ds) := by
    induction ds with
    | nil => exact Keeps.pure []
    | cons d ds ih => unfold loadAll; grind
  refine Keeps.reportAll ?_
  cases f <;> unfold setAction <;> grind

end Quiet

/-! ### Functions that call functions -/

section Calling

variable {E : World → World → Prop} [Frame E] {run : Run} {scope : Nat}
  (h : ∀ f args, Keeps E (run (.apply scope f args))) (f : Value)

include h f

theorem Keeps.mapCells (index : Nat) (cells : List Nat) :
    Keeps E (mapCells run scope f index cells) := by
  induction cells generalizing index with
  | nil => exact Keeps.pure []
  | cons c cells ih => unfold Act.mapCells callItem; grind

theorem Keeps.filterCells (index : Nat) (cells : List Nat) :
    Keeps E (filterCells run scope f index cells) := by
  induction cells generalizing index with
  | nil => exact Keeps.pure []
  | cons c cells ih => unfold Act.filterCells callItem; grind

theorem Keeps.reduceCells (accum : Answer) (index : Nat) (cells : List Nat) :
    Keeps E (reduceCells run scope f accum index cells) := by
  induction cells generalizing accum index with
  | nil => exact Keeps.pure accum
  | cons c cells ih => unfold Act.reduceCells; grind

theorem Keeps.repeatWhile (rounds : Nat) : Keeps E (repeatWhile run scope f rounds) := by
  induction rounds with
  | zero => exact Keeps.throw _
  | succ rounds ih => unfold Act.repeatWhile; grind

end Calling

/-! ### The functions that stand alone -/

section Core

variable {E : World → World → Prop} [Frame E]

@[grind .] theorem Keeps.sizeOf (scope : Nat) (v : Value) : Keeps E (sizeOf scope v) := by
  unfold Act.sizeOf; grind

@[grind .] theorem Keeps.toText (v : Value) : Keeps E (toText v) := by
  unfold Act.toText; grind

@[grind .] theorem Keeps.cellTexts (cells : List Nat) : Keeps E (cellTexts cells) := by
  induction cells with
  | nil => exact Keeps.pure []
  | cons c cells ih => unfold Act.cellTexts; grind

@[grind .] theorem Keeps.caseMatters (args : Args) : Keeps E (caseMatters args) := by
  unfold Act.caseMatters; grind

@[grind .] theorem Keeps.argFunction (args : Args) (name : String) :
    Keeps E (argFunction args name) := by
  unfold Act.argFunction; grind

variable {F : ScopeFrame} {i : F.Index} {run : Run} {scope : Nat}

@[grind .] theorem Keeps.defineOperator (sign : String) (f : Value) :
    Keeps (F.rel i scope) (defineOperator scope sign f) := by
  unfold Act.defineOperator; grind

@[grind .] theorem Keeps.setVariable (args : Args) :
    Keeps (F.rel i scope) (setVariable scope args) := by
  refine Keeps.bind (Keeps.argument args "var") fun target => ?_
  cases target <;> grind

variable (hrun : Runs F run)

include hrun

/-- Statements that are evaluated as text are evaluated in a scope inside the one at hand. -/
theorem evalText_keeps (v : Value) : Keeps (F.rel i scope) (evalText run scope v) := by
  unfold evalText
  split
  · next code =>
    refine Keeps.newChild fun inner => ?_
    refine (Keeps.openText code).bind fun stream => (Keeps.setInput stream).bind fun _ => ?_
    exact hrun.session i inner
  · grind

theorem sourceFile_keeps (path : String) : Keeps (F.rel i scope) (sourceFile run scope path) := by
  refine Keeps.get_bind (fun _ => rfl) fun w => Keeps.bind (Keeps.ofResult _) fun text => ?_
  refine Keeps.bind (Keeps.openText text) fun stream => ?_
  -- The choice of the input belongs to what is put right after it.
  rw [andThen, ← bind_assoc]
  refine Keeps.restored (.inl rfl) ?_ (fun w => ?_) fun r => Keeps.ofResult r
  · refine (Keeps.setInput stream).bind fun _ => Keeps.tryCatch ?_ fun f => Keeps.pure _
    exact (hrun.session i scope).bind fun a => Keeps.pure _
  · exact exists_perform_tryCatch _ _ _

theorem core_keeps (f : CoreFunction) (args : Args) :
    Keeps (F.rel i scope) (core run scope f args) := by
  have happly := hrun.apply i scope
  cases f with
  | eval => exact (Keeps.argValue args "code").bind fun v => evalText_keeps hrun v
  | source => exact (Keeps.argString args "file").bind fun path => sourceFile_keeps hrun path
  | map =>
    have hmap := Keeps.mapCells happly
    unfold core; grind
  | filter =>
    have hfilter := Keeps.filterCells happly
    unfold core; grind
  | reduce | rreduce =>
    have hreduce := Keeps.reduceCells happly
    unfold core; grind
  | repeatWhile =>
    have hrepeat := Keeps.repeatWhile happly
    unfold core; grind
  | _ => unfold core; grind

theorem runCore_keeps (f : CoreFunction) (args : Args) :
    Keeps (F.rel i scope) (runCore run scope f args) := by
  have hcore : Keeps (F.rel i scope) (core run scope f args) := core_keeps hrun f args
  unfold runCore
  split
  · exact hcore
  · grind

end Core

/-! ### The functions on sessions -/

section Sessions

variable {E : World → World → Prop} [Frame E]

@[grind .] theorem Keeps.definitionLines (names : List (String × Nat)) :
    Keeps E (definitionLines names) := by
  induction names with
  | nil => exact Keeps.pure _
  | cons p names ih => unfold Act.definitionLines; grind

@[grind .] theorem Keeps.currentSession (scope : Nat) : Keeps E (currentSession scope) := by
  unfold Act.currentSession; grind

@[grind .] theorem Keeps.sessionName (v : Value) : Keeps E (sessionName v) := by
  unfold Act.sessionName; grind

@[grind .] theorem Keeps.sessionPath (name : String) : Keeps E (sessionPath name) := by
  unfold Act.sessionPath; grind

variable {F : ScopeFrame} {i : F.Index} {run : Run} {scope : Nat}

@[grind .] theorem Keeps.makeShellHome : Keeps E makeShellHome := by
  refine Keeps.get_bind (fun _ => rfl) fun w => Keeps.bind (Keeps.ofResult _) fun disk => ?_
  exact Keeps.outside (fun _ => ⟨rfl, rfl, rfl⟩) fun _ => rfl

@[grind .] theorem Keeps.nameSession (current : Nat) (args : Args) :
    Keeps (F.rel i scope) (nameSession current args) := by
  unfold Act.nameSession; grind

theorem saveSession_keeps (args : Args) : Keeps (F.rel i scope) (saveSession scope args) := by
  have htarget : Keeps (F.rel i scope) (sessionTarget scope args) := by
    unfold sessionTarget; grind
  refine htarget.bind fun _ => ?_
  iterate 4 refine Keeps.bind (by grind) fun _ => ?_
  grind

theorem openSession_keeps (hrun : Runs F run) (args : Args) :
    Keeps (F.rel i scope) (openSession run scope args) := by
  iterate 3 refine Keeps.bind (by grind) fun _ => ?_
  refine Keeps.getStore_bind fun v v' hv => ?_
  iterate 2 refine Keeps.bind (by grind) fun _ => ?_
  have hread : Keeps (F.rel (F.within i scope) scope) (do
      let text ← readFile ‹String›
      let stream ← openText text
      modifyScope scope fun sc => { sc with input := stream }
      let _ ← run (.session scope)) := by
    refine (Keeps.readFile _).bind fun text => (Keeps.openText text).bind fun stream => ?_
    refine (Keeps.setInput stream).bind fun _ => (hrun.session i scope).bind fun _ => ?_
    exact Keeps.pure _
  exact Keeps.restored (.inr ⟨v, v', hv, rfl⟩) (hread.tryCatch fun _ => Keeps.pure _)
    (exists_perform_tryCatch · _ _) fun _ => Keeps.pure _

/-- Clearing a session forgets its variables and gives it a new table of services. -/
theorem clearSession_keeps : Keeps (F.rel i scope) (clearSession scope) :=
  Keeps.modifyStore fun s =>
    Store.Tolerant.trans (F.forget i scope s s.tables.size) (F.tables i scope _ _)

theorem runSession_keeps (hrun : Runs F run) (f : SessionFunction) (args : Args) :
    Keeps (F.rel i scope) (runSession run scope f args) := by
  refine Keeps.reportAll ?_
  cases f with
  | save => exact (saveSession_keeps args).bind fun _ => Keeps.pure _
  | «open» => exact (openSession_keeps hrun args).bind fun _ => Keeps.pure _
  | clear => exact clearSession_keeps.bind fun _ => Keeps.pure _

/-- **Every builtin function** keeps the frame. -/
theorem runBuiltin_keeps (hrun : Runs F run) (f : Builtin) (args : Args) :
    Keeps (F.rel i scope) (runBuiltin run scope f args) := by
  cases f with
  | core f => exact runCore_keeps hrun f args
  | operator o => exact Keeps.runOperator scope o args
  | http f => exact Keeps.runHttp scope f args
  | time f => exact Keeps.runTime f args
  | file f => exact Keeps.runFile scope f args
  | session f => exact runSession_keeps hrun f args
  | set f => exact Keeps.runSet scope f args

end Sessions

end Parley.Act
