import Parley.Proofs.World.Frame

/-!
# Quiet actions

Most of what the shell does leaves variables, arrays, objects and services as they are: it writes
and reads, looks things up, asks the network, and puts new things into the store. This module says
so, one action after the other: quiet actions keep every tame relation (`Act.Tame`). What can be said
about a run of the interpreter is then a matter of the few actions that are not quiet.

The lemmas follow the modules they are about, and each uses those before it: an action is quiet
because the actions it is made of are.
-/

namespace Parley.Act

variable {α : Type} {E : World → World → Prop}

/-! ### Actions that leave the world alone -/

@[grind .] theorem Keeps.ofResult (r : Except Fault α) : Keeps E (ofResult r) := by
  cases r with
  | ok a => exact Keeps.pure a
  | error f => exact Keeps.throw f

@[grind .] theorem Keeps.argument (args : Args) (name : String) : Keeps E (argument args name) := by
  unfold Act.argument; grind

@[grind .] theorem Keeps.argTypeName (a : Answer) : Keeps E (argTypeName a) := by
  unfold Act.argTypeName; grind

@[grind .] theorem Keeps.typeText (type : Data) : Keeps E (typeText type) := by
  unfold Act.typeText; grind

@[grind ←] theorem Keeps.andThen {x : Act α} {last : Act Unit} (hx : Keeps E x)
    (hl : Keeps E last) : Keeps E (andThen x last) := by
  unfold Act.andThen; grind

@[grind .] theorem Keeps.successOf (reply : Reply) : Keeps E (successOf reply) := by
  unfold Act.successOf; grind

@[grind .] theorem Keeps.readResponse (type : Data) (text : String) :
    Keeps E (readResponse type text) := by
  unfold Act.readResponse; grind

/-! ### Output -/

section Outer

variable [Outer E]

@[grind .] theorem Keeps.command (c : Terminal.Command) : Keeps E (command c) :=
  fun _ _ h => ⟨rfl, Outer.command c h⟩

@[grind .] theorem Keeps.foreground (name : String) : Keeps E (foreground name) := by
  refine Keeps.look_bind (fun _ => rfl) fun w => (Keeps.ofResult _).bind fun code => ?_
  exact Keeps.bind (fun _ _ h => ⟨rfl, Outer.write code h⟩) fun _ => Keeps.command _

@[grind .] theorem Keeps.reset : Keeps E reset :=
  Keeps.look_bind (fun _ => rfl) fun _ =>
    Keeps.bind (fun _ _ h => ⟨rfl, Outer.write _ h⟩) fun _ => Keeps.command _

end Outer

section Subdued

variable [Subdued E]

@[grind .] theorem Keeps.write (text : String) : Keeps E (write text) :=
  fun _ _ h => ⟨rfl, Subdued.write text h⟩

@[grind .] theorem Keeps.print (line : String) : Keeps E (print line) :=
  Keeps.write _

/-- A text in a colour of its own. -/
theorem Keeps.coloured (code : Bool → Except Fault String) (c : Terminal.Command) (text : String)
    {rest : Act α} (hrest : Keeps E rest) :
    Keeps E ((do Act.write (← Act.ofResult (code (← get).console.terminal)); Act.command c) >>=
      fun _ => Act.write text >>= fun _ => Act.reset >>= fun _ => rest) := by
  simp only [bind_assoc]
  refine Keeps.look_bind (fun _ => rfl) fun w => (Keeps.ofResult _).bind fun s => ?_
  refine (Keeps.write s).bind fun _ => ?_
  -- What is written does not depend on when the commands are given.
  show Keeps E (do
    Act.write text
    Act.write (Terminal.reset (← get).console.terminal)
    Act.command c
    Act.command .reset
    rest)
  refine (Keeps.write text).bind fun _ => Keeps.look_bind (fun _ => rfl) fun w => ?_
  exact (Keeps.write _).bind fun _ _ _ hE => hrest (Subdued.coloured c hE)

@[grind .] theorem Keeps.title (text : String) : Keeps E (title text) := by
  unfold Act.title; grind

@[grind .] theorem Keeps.trace (note : String) : Keeps E (trace note) := by
  refine Keeps.look_bind (fun _ => rfl) fun w => ?_
  split
  · exact Keeps.coloured (Terminal.setBackground · "purple") _ _ (Keeps.print _)
  · exact Keeps.pure ()

@[grind .] theorem Keeps.traceAll (notes : List String) : Keeps E (traceAll notes) :=
  Keeps.forM Keeps.trace notes

@[grind .] theorem Keeps.ofTraced (t : Traced Fault α) : Keeps E (ofTraced t) := by
  unfold Act.ofTraced; grind

end Subdued

/-! ### Values and variables -/

section Tame

variable [Tame E]

/-- An error leaves its message in the scope, and that is all it leaves in the store. -/
@[grind .] theorem Keeps.error (scope : Nat) (message : String) :
    Keeps E (error scope message : Act α) := by
  have hnote := Keeps.modifyStore (E := E) fun s => allows_note s scope message
  exact Keeps.coloured (Terminal.setForeground · "red") _ _ (hnote.bind fun _ => Keeps.throw _)

@[grind .] theorem Keeps.deref (a : Answer) : Keeps E (deref a) :=
  Keeps.getStore _

@[grind .] theorem Keeps.written (style : Style) (v : Value) : Keeps E (written style v) := by
  unfold Act.written; grind

@[grind .] theorem Keeps.shown (v : Value) : Keeps E (shown v) :=
  Keeps.written _ v

@[grind .] theorem Keeps.pasted (v : Value) : Keeps E (pasted v) :=
  Keeps.written _ v

@[grind .] theorem Keeps.data (v : Value) : Keeps E (data v) := by
  unfold Act.data; grind

@[grind .] theorem Keeps.load (d : Data) : Keeps E (load d) := by
  unfold Act.load; grind

@[grind .] theorem Keeps.lookup (scope : Nat) (name : String) : Keeps E (lookup scope name) := by
  unfold Act.lookup; grind

@[grind .] theorem Keeps.lookupValue (scope : Nat) (name : String) :
    Keeps E (lookupValue scope name) := by
  unfold Act.lookupValue; grind

@[grind .] theorem Keeps.scopeAt (scope : Nat) : Keeps E (scopeAt scope) :=
  Keeps.getStore _

/-- A line that is read may begin a new entry of the transcript, but the transcript is not in the
store. -/
@[grind .] theorem Keeps.readLine (stream : Nat) : Keeps E (readLine stream) := by
  intro w w' hE
  have hsilent := Tame.silent hE
  have hstreams : w.silent.streams = w'.silent.streams := by rw [hsilent]
  have hown : w.silent.ownStreams = w'.silent.ownStreams := by rw [hsilent]
  change w.streams = w'.streams at hstreams
  rw [Act.readLine, perform_modifyGet, perform_modifyGet]
  cases hline : w.streams[stream]?.getD [] with
  | nil =>
    rw [← hstreams, hline]
    exact ⟨rfl, hE⟩
  | cons line rest =>
    have hline' : w'.streams[stream]?.getD [] = line :: rest := hstreams ▸ hline
    let later (v : World) : World := { v with streams := v.streams.setIfInBounds stream rest }
    have hlater : E (later w) (later w') :=
      Tame.outside hE ⟨rfl, rfl, rfl⟩ ⟨rfl, rfl, rfl⟩ (congrArg later hsilent)
    rw [hline']
    by_cases hs : stream < w.ownStreams
    · have hs' : stream < w'.ownStreams := hown ▸ hs
      simp only [hs, hs']
      exact ⟨trivial, Tame.mark hlater⟩
    · have hs' : ¬ stream < w'.ownStreams := hown ▸ hs
      simp only [hs, hs']
      exact ⟨trivial, hlater⟩

@[grind .] theorem Keeps.openText (text : String) : Keeps E (openText text) :=
  Keeps.outside (fun _ => ⟨rfl, rfl, rfl⟩) fun _ => rfl

/-! ### Members, arguments and help -/

@[grind .] theorem Keeps.serviceOf (scope : Nat) (name : String) :
    Keeps E (serviceOf scope name) := by
  unfold Act.serviceOf; grind

@[grind .] theorem Keeps.paramsOf (scope : Nat) (v : Value) : Keeps E (paramsOf scope v) := by
  unfold Act.paramsOf; grind

/-- A call that is asked for is remembered in the service's record. -/
@[grind .] theorem Keeps.serviceCall (scope address : Nat) (service call : String) :
    Keeps E (serviceCall scope address service call) := by
  unfold Act.serviceCall; grind

@[grind .] theorem Keeps.member (scope : Nat) (v : Value) (name : String) :
    Keeps E (member scope v name) := by
  unfold Act.member; grind

@[grind .] theorem Keeps.propertyNames (v : Value) : Keeps E (propertyNames v) := by
  unfold Act.propertyNames; grind

@[grind .] theorem Keeps.descriptionOf (v : Value) : Keeps E (descriptionOf v) := by
  unfold Act.descriptionOf; grind

@[grind .] theorem Keeps.argValue (args : Args) (name : String) : Keeps E (argValue args name) := by
  unfold Act.argValue; grind

@[grind .] theorem Keeps.checkCell (scope : Nat) (param : String) (arg : Option Answer) :
    Keeps E (checkCell scope param arg) := by
  unfold Act.checkCell; grind

@[grind .] theorem Keeps.checkType (scope : Nat) (param : String) (wanted : Data) (a : Answer) :
    Keeps E (checkType scope param wanted a) := by
  unfold Act.checkType
  grind

@[grind .] theorem Keeps.checkArg (scope : Nat) (args : Args) (param : String) (type : Data) :
    Keeps E (checkArg scope args param type) := by
  unfold Act.checkArg; grind

@[grind .] theorem Keeps.checkArgs (scope : Nat) (args : Args) (params : Data) :
    Keeps E (checkArgs scope args params) := by
  have each (es : Data.Entries) : Keeps E (checkEach scope args es) := by
    induction es with
    | nil => exact Keeps.pure ()
    | cons e es ih => exact Keeps.bind (Keeps.checkArg scope args e.1 e.2) fun _ => ih
  unfold Act.checkArgs; grind

@[grind .] theorem Keeps.printWrapped (text : String) : Keeps E (Help.printWrapped text) := by
  unfold Help.printWrapped; grind

section

variable (scope : Nat)

include scope

@[grind .] theorem Keeps.functionHelp (v : Value) : Keeps E (Help.function scope v) := by
  unfold Help.function; grind

@[grind .] theorem Keeps.propertyLines (v : Value) (service : Bool) (names : List String) :
    Keeps E (Help.propertyLines scope v service names) := by
  induction names with
  | nil => exact Keeps.pure ""
  | cons name names ih => unfold Help.propertyLines; grind

@[grind .] theorem Keeps.objectHelp (v : Value) : Keeps E (Help.object scope v) := by
  unfold Help.object; grind

@[grind .] theorem Keeps.valueHelp (name : String) (v : Value) :
    Keeps E (Help.value scope name v) := by
  unfold Help.value Help.details; grind

@[grind .] theorem Keeps.holdsFunction (name : String) :
    Keeps E (Help.holdsFunction scope name) := by
  unfold Help.holdsFunction; grind

@[grind .] theorem Keeps.environmentHelp : Keeps E (Help.environment scope) := by
  refine Keeps.get_bind (fun _ => rfl) fun w => ?_
  iterate 5 refine Keeps.bind (by grind) fun _ => ?_
  grind

end

/-! ### Files -/

@[grind .] theorem Keeps.readFile (path : String) : Keeps E (readFile path) := by
  unfold Act.readFile; grind

@[grind .] theorem Keeps.writeFile (after : Bool) (path text : String) :
    Keeps E (writeFile after path text) := by
  refine Keeps.get_bind (fun _ => rfl) fun w => Keeps.bind (Keeps.ofResult _) fun disk => ?_
  exact Keeps.outside (fun _ => ⟨rfl, rfl, rfl⟩) fun _ => rfl

@[grind .] theorem Keeps.serviceDocument (filename : String) :
    Keeps E (serviceDocument filename) := by
  unfold Act.serviceDocument; grind

@[grind .] theorem Keeps.loadService (filename : String) : Keeps E (loadService filename) := by
  unfold Act.loadService; grind

end Tame

/-! ### Requests and messages -/

section Outer

variable [Outer E]

@[grind .] theorem Keeps.send (url : String) (method : Data) (headers : Data.Entries)
    (body : Option String) (timeout : Data) (lenient : Bool) :
    Keeps E (send url method headers body timeout lenient) := by
  refine Keeps.bind (Keeps.ofResult _) fun target => Keeps.bind (Keeps.print _) fun _ => ?_
  exact Keeps.apart (fun _ => ⟨rfl, rfl, rfl⟩) (fun _ => rfl)
    (fun _ => Network.site_nextReply _) fun _ => rfl

@[grind .] theorem Keeps.fillOptional (template params : Data) (args : Service.ArgTexts) :
    Keeps E (fillOptional template params args) := by
  unfold Act.fillOptional; grind

@[grind .] theorem Keeps.fillHeaders (params : Data) (args : Service.ArgTexts)
    (headers more : Data.Entries) : Keeps E (fillHeaders params args headers more) := by
  induction more generalizing headers with
  | nil => exact Keeps.pure headers
  | cons h more ih => unfold Act.fillHeaders; grind

@[grind .] theorem Keeps.fillMessageHeaders (params : Data) (args : Service.ArgTexts)
    (headers : Data.Entries) : Keeps E (fillMessageHeaders params args headers) := by
  induction headers with
  | nil => exact Keeps.pure []
  | cons h headers ih => unfold Act.fillMessageHeaders; grind

@[grind .] theorem Keeps.record (s : Sent) : Keeps E (record s) :=
  Keeps.apart (fun _ => ⟨rfl, rfl, rfl⟩) (fun _ => rfl) (fun _ => rfl) fun _ => rfl

@[grind .] theorem Keeps.poll : Keeps E poll :=
  Keeps.apart (fun _ => ⟨rfl, rfl, rfl⟩) (fun _ => rfl) (fun _ => rfl) fun _ => rfl

@[grind .] theorem Keeps.awaitReply (start : Nat) (limit : Data) :
    Keeps E (awaitReply start limit) := by
  have hawait (fuel : Nat) :
      Keeps E (awaitMessage (fun now => timeIsUp start now limit) limit fuel) := by
    induction fuel with
    | zero => exact Keeps.throw _
    | succ fuel ih => unfold Act.awaitMessage; grind
  unfold Act.awaitReply; grind

variable (s : Service) (name : String) (args : Service.ArgTexts)

include s name args

@[grind .] theorem Keeps.callHttp : Keeps E (callHttp s name args) := by
  unfold Act.callHttp printBelow
  iterate 10 refine Keeps.bind (by grind) fun _ => ?_
  refine Keeps.branch (by grind) (by grind) fun headers => ?_
  refine Keeps.optional (by grind) fun _ => ?_
  iterate 8 refine Keeps.bind (by grind) fun _ => ?_
  grind

@[grind .] theorem Keeps.callQueue : Keeps E (callQueue s name args) := by
  unfold Act.callQueue replyQueue printBelow
  refine Keeps.look_bind (fun _ => rfl) fun w => ?_
  refine Keeps.optional (by grind) fun _ => ?_
  refine Keeps.look_bind (fun _ => rfl) fun w => ?_
  iterate 8 refine Keeps.bind (by grind) fun _ => ?_
  refine Keeps.branch (by grind) (by grind) fun auth => ?_
  iterate 8 refine Keeps.bind (by grind) fun _ => ?_
  grind

@[grind .] theorem Keeps.callService : Keeps E (callService s name args) := by
  unfold Act.callService; grind

end Outer

end Parley.Act
