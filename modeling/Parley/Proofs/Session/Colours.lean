import Parley.Proofs.Eval.Parameters
import Parley.Proofs.Session.Rounds
import Parley.Proofs.World.Voice

/-!
# The colours of the terminal

Whoever chooses a colour for the terminal resets it afterwards. But colours are chosen in several
places, calls and help and results are nested in one another, and only for calls the reset follows
whatever happens. In the other places it is left out if there is a fault, and it takes somebody else
to make up for that: an error of an evaluation is reported, and the report ends with a reset; any
other fault ends the statement, and the complaint about it ends with one.

So what is shown about an action has two parts (`Act.Tidy`). The commands that it gives come after
those that were given before, and the last of them is a reset, unless the action ends with a fault
that is not reported. But there are errors without a report: parameters of functions are data of
services, and what is no value cannot be loaded. If such an error comes up while help is given, the
colour of help is left. Statements that may do so *venture* (`Expr.HelpMayFail`); after any others a
round of the loop leaves no colour (`Act.Rounds.colours_left`).
-/

namespace Parley

open List Traced
open Terminal (Command)

/-! ### Texts -/

/-- If this is a failure, it is not an error of an evaluation, such as goes with a report. -/
def Unreported {α : Type} (r : Except Fault α) : Prop :=
  ∀ m, r ≠ .error (.evaluation m)

namespace Unreported

variable {α β : Type} {f : α → Except Fault β}

@[grind .] theorem ok (a : α) : Unreported (.ok a : Except Fault α) := by
  rintro m ⟨⟩

@[grind ←] theorem error {f : Fault} (h : ∀ m, f ≠ .evaluation m) :
    Unreported (.error f : Except Fault α) :=
  fun m hm => h m (Except.error.inj hm)

@[grind ←] theorem bind {r : Except Fault α} (hr : Unreported r)
    (hf : ∀ a, Unreported (f a)) : Unreported (r >>= f) := by
  cases r with
  | ok a => exact hf a
  | error e => exact error fun m h => hr m (congrArg _ h)

@[grind ←] theorem mapM (h : ∀ a, Unreported (f a)) (l : List α) : Unreported (l.mapM f) := by
  induction l with
  | nil => exact ok _
  | cons a l ih =>
    rw [mapM_cons]
    exact (h a).bind fun _ => ih.bind fun _ => ok _

@[grind ←] theorem result_bind {x : Traced Fault α} {f : α → Traced Fault β}
    (hx : Unreported x.result) (hf : ∀ a, Unreported (f a).result) :
    Unreported (x >>= f).result := by
  rw [Traced.result_bind]
  exact bind hx hf

@[grind .] theorem constant_write (style : Style) (c : Constant) :
    Unreported (c.write style).result := by
  have hint (n : Int) : Unreported (Constant.intText n) := by unfold Constant.intText; grind
  have hmember (d : Data) : Unreported (Constant.memberText d) := by
    unfold Constant.memberText; grind
  have hshown (c : Constant) : Unreported c.shown := by cases c <;> unfold Constant.shown <;> grind
  have hnote (line : String) : Unreported (note line : Traced Fault Unit).result := ok ()
  unfold Constant.write Constant.json Constant.pasted
  grind [result_ofExcept, result_fail, result_pure]

@[grind .] theorem expr_write (style : Style) (e : Expr) : Unreported (e.write style).result := by
  apply Expr.write.induct (fun style e => Unreported (e.write style).result)
    (fun style put ps => Unreported (Expr.writeArgs style put ps).result)
    (fun style es => Unreported (Expr.writeAll style es).result) <;>
  intros <;> simp only [Expr.write, Expr.writeAll, Expr.writeArgs] <;>
  grind [result_pure]

/-- The text of a value may be missing, but that is no error of an evaluation. -/
theorem shape_write (style : Style) (s : Shape) : Unreported (s.write style).result := by
  have hleaf (style : Style) (v : Value) : Unreported (Shape.writeLeaf style v).result := by
    unfold Shape.writeLeaf Expr.shown
    grind [result_fail, result_pure]
  apply Shape.write.induct (fun style s => Unreported (s.write style).result)
    (fun style put ps => Unreported (Shape.writeProperties style put ps).result)
    (fun style es => Unreported (Shape.writeAll style es).result) <;>
  intros <;> simp only [Shape.write, Shape.writeAll, Shape.writeProperties] <;>
  grind [result_pure]

end Unreported

namespace Act

variable {α β : Type} {leak : Prop}

/-! ### The last command -/

/-- The last command, if there is one, is a reset, or else it is the colour of help, and that may be
left. -/
def Shade (leak : Prop) (last : Option Command) : Prop :=
  ∀ c ∈ last, c = .reset ∨ leak ∧ c = .foreground "purple"

theorem shade_none (leak : Prop) : Shade leak none :=
  nofun

theorem shade_reset (leak : Prop) : Shade leak (some .reset) := by
  rintro c ⟨⟩
  exact .inl rfl

theorem Shade.or {first last : Option Command} (hfirst : Shade leak first)
    (hlast : Shade leak last) : Shade leak (last.or first) := by
  cases last with
  | none => exact hfirst
  | some c => exact hlast

theorem Shade.mono {leak' : Prop} {last : Option Command} (h : Shade leak last)
    (hleak : leak → leak') : Shade leak' last :=
  fun c hc => (h c hc).imp_right (And.imp_left hleak)

/-- From the first world to the second commands have been given, and none is taken back. The last of
them is as `P` has it. -/
def Turned (P : Option Command → Prop) (w w' : World) : Prop :=
  ∃ cs, w'.console.commands = cs ++ w.console.commands ∧ P cs.head?

theorem Turned.refl {P : Option Command → Prop} (hP : P none) (w : World) : Turned P w w :=
  ⟨[], rfl, hP⟩

theorem Turned.mono {P Q : Option Command → Prop} {w w' : World} (h : Turned P w w')
    (hPQ : ∀ last, P last → Q last) : Turned Q w w' := by
  obtain ⟨cs, hcs, hP⟩ := h
  exact ⟨cs, hcs, hPQ _ hP⟩

theorem Turned.trans {P Q R : Option Command → Prop} {w w' w'' : World} (h : Turned P w w')
    (h' : Turned Q w' w'') (hR : ∀ {first last}, P first → Q last → R (last.or first)) :
    Turned R w w'' := by
  obtain ⟨cs, hcs, hP⟩ := h
  obtain ⟨ds, hds, hQ⟩ := h'
  refine ⟨ds ++ cs, by rw [hds, hcs, append_assoc], ?_⟩
  rw [head?_append]
  exact hR hP hQ

/-- The worlds are the same, and commands have been given since the world `w₀`. -/
def Since (P : Option Command → Prop) (w₀ w w' : World) : Prop :=
  w = w' ∧ Turned P w₀ w

section Since

variable {P : Option Command → Prop} {w₀ : World}

@[grind .] theorem allows_since (s s' : Store) : Allows (Since P w₀) s s' := by
  rintro w _ - ⟨rfl, h⟩
  exact ⟨rfl, h⟩

theorem tame_since (hP : P (some .reset)) : Tame (Since P w₀) where
  silent h := congrArg _ h.1
  allows _ := allows_since _ _
  write := by
    rintro w _ text ⟨rfl, h⟩
    exact ⟨rfl, h⟩
  coloured := by
    rintro w _ c ⟨rfl, cs, hcs, -⟩
    exact ⟨rfl, .reset :: c :: cs, congrArg ([Command.reset, c] ++ ·) hcs, hP⟩
  mark := by
    rintro w _ ⟨rfl, h⟩
    exact ⟨rfl, h⟩
  outside := by
    rintro w _ v v' ⟨rfl, h⟩ hv hv' hsilent
    refine ⟨World.eq_of_silent hsilent (hv.console.trans hv'.console.symm)
      (hv.transcript.trans hv'.transcript.symm), ?_⟩
    rwa [Turned, hv.console]

instance : Tame (Since (Shade leak) w₀) :=
  tame_since (shade_reset leak)

instance : Frame (Since (fun _ => True) w₀) where
  toTame := tame_since trivial
  command := by
    rintro w _ c ⟨rfl, cs, hcs, -⟩
    exact ⟨rfl, c :: cs, congrArg (c :: ·) hcs, trivial⟩

end Since

/-- A call takes no command back. -/
theorem turned_apply (depth k : Nat) (f : Value) (args : Args) (w : World) :
    Turned (fun _ => True) w (w.perform (interpret depth (.apply k f args))).2 :=
  ((runs_everywhere allows_since depth).apply () k f args ⟨rfl, .refl trivial w⟩).2.2

/-! ### Actions that put the colours back -/

/-- The fault is an error of an evaluation, such as goes with a report. -/
def Reported (f : Fault) : Prop :=
  ∃ m, f = .evaluation m

/-- This is a success, or one of the `usual` faults. -/
def Usual (usual : Fault → Prop) (r : Except Fault α) : Prop :=
  ∀ f, r = .error f → usual f

theorem usual_ok (usual : Fault → Prop) (a : α) : Usual usual (.ok a) :=
  nofun

/-- The action puts the colours back, unless it ends with a fault that is not a `usual` one. The
colour of help may be left if there is a `leak`. -/
def Tidy (usual : Fault → Prop) (leak : Prop) (x : Act α) : Prop :=
  ∀ w : World, Turned (fun last => Usual usual (w.perform x).1 → Shade leak last) w (w.perform x).2

section Tidy

variable {usual : Fault → Prop} {x : Act α}

@[grind ←] theorem Tidy.of_keeps (h : ∀ w₀, Keeps (Since (Shade leak) w₀) x) : Tidy usual leak x :=
  fun w => (h w ⟨rfl, .refl (shade_none leak) w⟩).2.2.mono fun _ hlast _ => hlast

theorem Tidy.mono {leak' : Prop} (hx : Tidy usual leak x) (h : leak → leak') : Tidy usual leak' x :=
  fun w => (hx w).mono fun _ hlast hu => (hlast hu).mono h

@[grind ←] theorem Tidy.bind {f : α → Act β} (hx : Tidy usual leak x)
    (hf : ∀ a, Tidy usual leak (f a)) : Tidy usual leak (x >>= f) := by
  intro w
  have hfirst := hx w
  rw [perform_bind]
  rcases hw : w.perform x with ⟨fault | a, w₁⟩ <;> rw [hw] at hfirst
  · refine hfirst.mono fun _ hlast hu => hlast fun g hg => hu g ?_
    cases hg
    rfl
  · exact hfirst.trans (hf a w₁) fun h h' hu => (h (usual_ok usual a)).or (h' hu)

theorem composes_tidy (usual : Fault → Prop) (leak : Prop) : Composes (Tidy usual leak) :=
  ⟨fun a => Tidy.of_keeps fun _ => Keeps.pure a, Tidy.bind⟩

/-- What goes wrong is dealt with: after a usual fault the colours have been put back, after another
one they are to be reset. -/
theorem Tidy.tryCatch {usual' : Fault → Prop} {handler : Fault → Act α} (hx : Tidy usual leak x)
    (hh : ∀ f, usual f → Tidy usual' leak (handler f))
    (hreset : ∀ f w, ¬ usual f → Turned (fun last =>
      Usual usual' (World.perform w (handler f)).1 → last = some .reset) w
        (w.perform (handler f)).2) :
    Tidy usual' leak (MonadExcept.tryCatch x handler) := by
  intro w
  have hfirst := hx w
  rw [perform_tryCatch]
  rcases hw : w.perform x with ⟨fault | a, w₁⟩ <;> rw [hw] at hfirst
  · by_cases hf : usual fault
    · refine hfirst.trans (hh fault hf w₁) fun h h' hu => (h ?_).or (h' hu)
      rintro g ⟨⟩
      exact hf
    · refine hfirst.trans (hreset fault w₁ hf) fun _ h' hu => ?_
      rw [h' hu]
      exact shade_reset leak
  · exact hfirst.mono fun _ h _ => h (usual_ok usual a)

/-- The action can fail with an error while no command is given, that is, without a report. -/
def Unheard (x : Act α) : Prop :=
  ∃ (w : World) (m : String), (w.perform x).1 = .error (.evaluation m) ∧
    (w.perform x).2.console.commands = w.console.commands

/-- What is done in a colour, with a reset at the end. If there is an error instead, its report has
ended with a reset; without a report the colour is left. -/
theorem Tidy.painted {name : String} (hx : Tidy Reported leak x)
    (h : Unheard x → leak ∧ name = "purple") :
    Tidy Reported leak (Act.foreground name >>= fun _ => x >>= fun _ => Act.reset) := by
  intro w
  cases hcode : Terminal.setForeground w.console.terminal name with
  | error f =>
    rw [perform_bind, Act.foreground, perform_get_bind, hcode]
    exact .refl (fun _ => shade_none leak) w
  | ok code =>
    let w₁ := (w.saying code).given (.foreground name)
    rw [perform_bind_ok (perform_foreground w hcode), perform_bind]
    have hinner := hx w₁
    rcases hr : w₁.perform x with ⟨f | a, w₂⟩ <;> rw [hr] at hinner
    · obtain ⟨cs, hcs, hshade⟩ := hinner
      refine ⟨cs ++ [.foreground name], hcs.trans (by simp; rfl), fun hu => ?_⟩
      obtain ⟨m, rfl⟩ := hu f rfl
      cases cs with
      | nil =>
        obtain ⟨hleak, rfl⟩ := h ⟨w₁, m, by rw [hr], by rwa [hr]⟩
        rintro c ⟨⟩
        exact .inr ⟨hleak, rfl⟩
      | cons c cs => exact hshade fun g hg => ⟨m, by cases hg; rfl⟩
    · obtain ⟨cs, hcs, -⟩ := hinner
      refine ⟨.reset :: (cs ++ [.foreground name]), ?_, fun _ => shade_reset leak⟩
      exact congrArg (Command.reset :: ·) (hcs.trans (by simp; rfl))

/-- A call is made in yellow, and whatever comes of it, a reset follows. -/
theorem Tidy.invoke {run : Run} {scope : Nat} {f : Value} {args : Args}
    (h : ∀ w, Turned (fun _ => True) w (World.perform w (run (.apply scope f args))).2) :
    Tidy usual leak (invoke run scope f args) := by
  have hcall : Tidy usual leak (Act.foreground "yellow" >>= fun _ =>
      andThen (run (.apply scope f args)) Act.reset) := by
    intro w
    obtain ⟨code, hcode⟩ :
        ∃ code, Terminal.setForeground w.console.terminal "yellow" = .ok code := by
      cases w.console.terminal <;> exact ⟨_, rfl⟩
    let w₁ := (w.saying code).given (.foreground "yellow")
    obtain ⟨cs, hcs, -⟩ := h w₁
    rw [perform_bind_ok (perform_foreground w hcode),
      perform_andThen_of_ok (x := run (.apply scope f args)) rfl (perform_reset _)]
    refine ⟨.reset :: (cs ++ [.foreground "yellow"]), ?_, fun _ => shade_reset leak⟩
    exact congrArg (Command.reset :: ·) (hcs.trans (by simp; rfl))
  unfold Act.invoke
  grind

end Tidy

/-! ### Evaluation -/

end Act

namespace Expr

/-- The parts of an expression that are evaluated with it, in the same scope. -/
def evaluated : Expr → List Expr
  | .array es | .block es => es
  | .object ps => ps.map Prod.snd
  | .member e _ | .help e | .attempt e | .group e | .negate e => [e]
  | .ifThen c yes no => [c, yes, no]
  | .assign target value => [target, value]
  | .call f args => f :: args.map Prod.snd
  | .opCall op left right => [op, left, right]
  | .subscript whole index => [whole, index]
  | _ => []

open Act in
/-- In the expression help is asked for, and while that is given an error may come up without a
report. -/
inductive HelpMayFail : Expr → Prop
  | help {what : Expr} {depth scope : Nat} {name : String}
      (h : Unheard (evaluateValue (interpret depth) scope what >>= Help.value scope name)) :
      HelpMayFail (.help what)
  | helpAll {scope : Nat} (h : Unheard (Help.environment scope)) : HelpMayFail .helpAll
  | part {e part : Expr} (h : part ∈ e.evaluated) (hpart : part.HelpMayFail) : HelpMayFail e

end Expr

namespace Act

variable {α β : Type} {leak : Prop}

section Evaluation

variable {scope depth : Nat}

@[grind ←] theorem Tidy.evaluateValue {run : Run} {e : Expr}
    (h : Tidy Reported leak (run (.evaluate scope e))) :
    Tidy Reported leak (evaluateValue run scope e) :=
  h.bind fun a => .of_keeps fun _ => Keeps.deref a

/-- One level of evaluation puts the colours back if the levels below do. -/
theorem Tidy.evaluate
    (hrun : ∀ e : Expr, Tidy Reported e.HelpMayFail (interpret depth (.evaluate scope e))) (e : Expr) :
    Tidy Reported e.HelpMayFail (evaluate (interpret depth) scope e) := by
  have hpart : ∀ part ∈ e.evaluated,
      Tidy Reported e.HelpMayFail (interpret depth (.evaluate scope part)) :=
    fun part h => (hrun part).mono (.part h)
  have hinvoke f args : Tidy Reported e.HelpMayFail (Act.invoke (interpret depth) scope f args) :=
    Tidy.invoke (turned_apply depth scope f args)
  have htree : Tidy Reported e.HelpMayFail (treeValue e >>= fun v => Pure.pure (Answer.value v)) :=
    .of_keeps fun _ => (Keeps.treeValue e).bind fun v => Keeps.pure _
  have hall := composes_tidy Reported e.HelpMayFail
  cases e with
  | array es =>
    have hes : Tidy Reported (Expr.array es).HelpMayFail
        (es.mapM (Act.evaluateValue (interpret depth) scope)) :=
      hall.mapM fun e he => (hpart e he).evaluateValue
    unfold Act.evaluate; grind
  | object ps =>
    have hps := hall.evaluateNamed fun p hp => (hpart p.2 (mem_map_of_mem hp)).evaluateValue
    unfold Act.evaluate; grind
  | block es => exact hall.evaluateBlock _ hpart
  | call f args =>
    have hargs := hall.evaluateArgs fun p hp =>
      hpart p.2 (mem_cons_of_mem _ (mem_map_of_mem hp))
    have hf := hpart f mem_cons_self
    unfold Act.evaluate; grind
  | opCall op left right =>
    simp only [Expr.evaluated] at hpart
    have hargs : Tidy Reported (Expr.opCall op left right).HelpMayFail
        (evaluateArgs (interpret depth) scope [("left", left), ("right", right)]) :=
      hall.evaluateArgs (by simp [hpart])
    unfold Act.evaluate; grind
  | help what =>
    have hpage (name : String) := (hpart what mem_cons_self).evaluateValue.bind fun v =>
      .of_keeps fun _ => Keeps.valueHelp scope name v
    have hgive (name : String) := (hpage name).painted fun h => ⟨.help h, rfl⟩
    simp only [bind_assoc] at hgive
    exact (hgive _).bind fun _ => htree
  | helpAll =>
    have hpage : Tidy Reported (Expr.HelpMayFail .helpAll) (Help.environment scope) :=
      .of_keeps fun _ => Keeps.environmentHelp scope
    exact (hpage.painted fun h => ⟨.helpAll h, rfl⟩).bind fun _ => htree
  | attempt body =>
    refine Tidy.bind (Tidy.tryCatch ((hpart body mem_cons_self).bind fun a =>
      .of_keeps fun _ => Keeps.pure _) (fun f hf => ?_) fun f w hf => ?_) fun r => ?_
    · obtain ⟨m, rfl⟩ := hf
      exact .of_keeps fun _ => Keeps.pure _
    · cases f with
      | evaluation m => exact absurd ⟨m, rfl⟩ hf
      | _ => exact .refl (fun hu => absurd (hu _ rfl) hf) w
    · exact .of_keeps fun _ => by cases r <;> exact Keeps.pure _
  | importName name =>
    have himport (w₀ : World) : Keeps (Since (Shade (Expr.importName name).HelpMayFail) w₀)
        (importService scope name) :=
      Keeps.importing (fun _ _ _ => allows_since _ _) (fun _ _ => allows_since _ _) name
    exact (Tidy.of_keeps himport).bind fun v => .of_keeps fun _ => Keeps.pure _
  | assign target value =>
    simp only [Expr.evaluated] at hpart
    have hassign cell a : Tidy Reported (Expr.assign target value).HelpMayFail (assignTo cell a) :=
      .of_keeps fun _ => by unfold assignTo; grind
    unfold Act.evaluate; grind
  | _ =>
    simp only [Expr.evaluated] at hpart
    unfold Act.evaluate
    grind [Act.capture, Act.stopLoop, Act.modifyScope, Act.assign]

/-- **The evaluation of a tree** puts the colours back, unless help may fail in it. -/
theorem tidy_interpret (scope depth : Nat) (e : Expr) :
    Tidy Reported e.HelpMayFail (interpret depth (.evaluate scope e)) := by
  induction depth generalizing e with
  | zero => exact .of_keeps fun _ => Keeps.throw _
  | succ depth ih => exact Tidy.evaluate ih e

end Evaluation

/-! ### Statements -/

theorem unreported_shown (w : World) (v : Value) : Unreported (w.perform (shown v)).1 := by
  obtain ⟨w₁, hw₁, -⟩ := perform_ofTraced ((w.store.shape v).write .shown) w
  rw [shown, written, perform_getStore_bind, hw₁]
  exact .shape_write .shown _

/-- A result is shown in the colour for results. -/
theorem Tidy.showResult (scope : Nat) (e : Expr) (a : Answer) :
    Tidy Reported leak (showResult scope e a) := by
  have hpage (name : String) : Tidy Reported leak (Act.foreground name >>= fun _ =>
      (Act.deref a >>= fun v => Act.shown v >>= Act.print) >>= fun _ => Act.reset) := by
    refine Tidy.painted (.of_keeps fun _ => by grind) ?_
    rintro ⟨w, m, hm, -⟩
    have hshown := unreported_shown w (w.store.deref a)
    rw [perform_deref_bind, perform_bind] at hm
    rcases hr : w.perform (Act.shown (w.store.deref a)) with ⟨f | text, w₁⟩ <;> rw [hr] at hm hshown
    · exact absurd (by cases hm; rfl) (hshown m)
    · cases hm
  simp only [bind_assoc] at hpage
  unfold Act.showResult
  grind

/-- **A statement** leaves no colour, whatever comes of it, unless help may fail in it. -/
theorem tidy_tryStatement (depth scope : Nat) (e : Expr) :
    Tidy (fun _ => True) e.HelpMayFail (tryStatement (interpret depth) scope e) := by
  have hassign (w₀ : World) (v : Value) :
      Keeps (Since (Shade e.HelpMayFail) w₀) (assign scope World.resultName v) :=
    Keeps.withStore fun _ => allows_since _ _
  have hrun : Tidy Reported e.HelpMayFail (runStatement (interpret depth) scope e) := by
    refine Tidy.bind (.of_keeps fun _ => Keeps.ofTraced _) fun text => ?_
    refine Tidy.bind (.of_keeps fun _ => Keeps.title _) fun _ => ?_
    refine (tidy_interpret scope depth e).bind fun a => (Tidy.showResult scope e a).bind fun _ => ?_
    refine .of_keeps fun w₀ => (Keeps.deref a).bind fun v => ?_
    exact (hassign w₀ v).bind fun _ => Keeps.pure _
  have hred (w : World) : ∃ code, Terminal.setForeground w.console.terminal "red" = .ok code := by
    cases w.console.terminal <;> exact ⟨_, rfl⟩
  refine hrun.tryCatch (fun f hf => ?_) fun f w hf => ?_
  · obtain ⟨m, rfl⟩ := hf
    intro w
    obtain ⟨code, hcode⟩ := hred w
    rw [afterFailure, perform_bind_ok (perform_scopeAt w scope)]
    split
    · rw [perform_bind_ok (perform_foreground w hcode)]
      exact ⟨[.reset, .foreground "red"], rfl, fun _ => shade_reset _⟩
    · exact .refl (fun _ => shade_none _) w
  · -- After a fault of the shell itself any colour may be left, but then there is a complaint.
    obtain ⟨code, hcode⟩ := hred w
    refine ⟨[.reset, .foreground "red"], ?_, fun _ => rfl⟩
    unfold afterFailure
    split
    · exact absurd ⟨_, rfl⟩ hf
    · have hcomplain (message : String) : w.perform (complain message) = (.ok (), _) :=
        perform_bind_ok (perform_foreground w hcode) _
      rw [perform_bind_ok (hcomplain _), perform_bind_ok (perform_scopeAt ..)]
      split <;> rfl

open Grammar (parse)

variable {w w₀ : World} {k depth n : Nat} {pending pending₀ tokens : List Token}

/-- The tokens are a statement in which help may fail. -/
def StatesFailingHelp (tokens : List Token) : Prop :=
  ∃ e n, (parse tokens).result = .ok e ∧ (e.placed n).1.HelpMayFail

theorem tidy_takeTokens (depth k : Nat) (pending tokens : List Token) :
    Tidy (fun _ => True) (StatesFailingHelp tokens) (takeTokens (interpret depth) k pending tokens) := by
  refine Tidy.bind (.of_keeps fun _ => Keeps.traceAll _) fun _ => ?_
  split
  · next e he =>
    intro w
    rw [perform_withStore_bind]
    have htry := tidy_tryStatement depth k (e.placed w.store.fresh).1
    exact (htry.mono fun h => ⟨e, _, he, h⟩).bind (fun _ => .of_keeps fun _ => Keeps.pure []) _
  all_goals exact .of_keeps fun _ => by grind

/-! ### Rounds -/

/-- The line that a round reads completes a statement in which help may fail. -/
def ReadsFailingHelp (w : World) (k : Nat) (pending : List Token) : Prop :=
  ∃ tokens, StatesFailingHelp tokens ∧
    (w.perform (title "restsh" >>= fun _ => readTokens k pending)).1 = .ok (.tokens tokens)

/-- **One round of the loop** leaves no colour, unless help may fail in its statement. -/
theorem turned_readRound (w : World) (depth k : Nat) (pending : List Token) :
    Turned (Shade (ReadsFailingHelp w k pending)) w
      (w.perform (readRound (interpret depth) k pending)).2 := by
  have hread : Tidy (fun _ => True) (ReadsFailingHelp w k pending)
      (title "restsh" >>= fun _ => readTokens k pending) := .of_keeps fun _ => by grind
  have hfirst := (hread w).mono fun _ h => h fun _ _ => trivial
  rw [readRound, ← bind_assoc, perform_bind]
  rcases hr : w.perform (title "restsh" >>= fun _ => readTokens k pending) with ⟨f | r, w₁⟩ <;>
    rw [hr] at hfirst
  · exact hfirst
  · have hdeal : Tidy (fun _ => True) (ReadsFailingHelp w k pending)
        (dealWith (interpret depth) k pending r) := by
      cases r with
      | tokens tokens =>
        refine Tidy.bind (.of_keeps fun _ => Keeps.trace _) fun _ => ?_
        split
        · exact .of_keeps fun _ => Keeps.pure []
        · exact (tidy_takeTokens depth k pending tokens).mono fun h => ⟨tokens, h, by rw [hr]⟩
      | _ => exact .of_keeps fun _ => by unfold dealWith; grind [modifyScope]
    exact hfirst.trans ((hdeal w₁).mono fun _ h => h fun _ _ => trivial) Shade.or

/-- One of the first `n` rounds of the loop reads a statement in which help may fail. -/
def ReadFailingHelp (run : Run) (k : Nat) (w₀ : World) (pending₀ : List Token) (n : Nat) : Prop :=
  ∃ m w pending, m < n ∧ Rounds run k w₀ pending₀ m w pending ∧ ReadsFailingHelp w k pending

section

variable (h : Rounds (interpret depth) k w₀ pending₀ n w pending)

include h

/-- One round after others. -/
theorem Rounds.turned_succ (hw : Turned (Shade (ReadFailingHelp (interpret depth) k w₀ pending₀ n)) w₀ w) :
    Turned (Shade (ReadFailingHelp (interpret depth) k w₀ pending₀ (n + 1))) w₀
      (w.perform (readRound (interpret depth) k pending)).2 := by
  refine hw.trans (turned_readRound w depth k pending) fun hfirst hlast => Shade.or ?_ ?_
  · exact hfirst.mono fun ⟨m, v, before, hm, hv⟩ => ⟨m, v, before, Nat.lt_succ_of_lt hm, hv⟩
  · exact hlast.mono fun hv => ⟨n, w, pending, Nat.lt_succ_self n, h, hv⟩

theorem Rounds.turned : Turned (Shade (ReadFailingHelp (interpret depth) k w₀ pending₀ n)) w₀ w := by
  induction h with
  | start => exact .refl (shade_none _) w₀
  | next hrounds _ hround ih =>
    have hlast := hrounds.turned_succ ih
    rwa [hround] at hlast

end

/-- **No colour is left.** After any number of rounds of a loop, in any scope and with any lines,
the last command since the loop has begun, if there is one, is a reset, whatever has come of the
statements. The only exception is the colour of help: it may be left if help may fail in one of them. -/
theorem Rounds.colours_left (h : Rounds (interpret depth) k w₀ pending₀ n w pending) :
    ∃ cs, (w.perform (readRound (interpret depth) k pending)).2.console.commands =
        cs ++ w₀.console.commands ∧
      ∀ c ∈ cs.head?, c = .reset ∨
        ReadFailingHelp (interpret depth) k w₀ pending₀ (n + 1) ∧ c = .foreground "purple" :=
  h.turned_succ h.turned

/-- A service with a call whose parameters are a set, which is no value. -/
def strangeService : Service where
  transport := .http
  host := .str "h"
  protocol := .str "http"
  description := .null
  authType := .null
  authData := .null
  lenient := .bool false
  calls := [("c", .dict [("description", .null), ("params", .set [.str "a"])])]

/-- A world in which `f` stands for that call, and help is asked for about its parameters. -/
def strangeWorld : World :=
  let known := World.blank.store.setService 0 "s" strangeService
  { World.blank with
    store := (known.define 0 "f" (.remote 0 "s" "c")).1.modifyScope 0 fun sc =>
      { sc with input := 1 }
    streams := #[[], [some "help f.parameters\n"]] }

/-- The error that the parameters give is not reported, and the terminal stays purple. -/
theorem Rounds.colours_left_strange :
    (strangeWorld.perform (readRound (interpret 3) 0 [])).2.console.commands =
        [.foreground "purple"] ∧
      ReadFailingHelp (interpret 3) 0 strangeWorld [] 1 := by
  have hpurple : (strangeWorld.perform (readRound (interpret 3) 0 [])).2.console.commands =
      [.foreground "purple"] := by
    decide +kernel
  have hstart : Rounds (interpret 3) 0 strangeWorld [] 0 strangeWorld [] := .start
  obtain ⟨cs, hcs, hlast⟩ := hstart.colours_left
  rw [hpurple] at hcs
  obtain rfl : [.foreground "purple"] = cs := hcs.trans (append_nil cs)
  exact ⟨hpurple, ((hlast _ rfl).resolve_left nofun).1⟩

end Act

end Parley
