import Parley.Proofs.Eval.Builtins
import Parley.Proofs.Store.Reach

/-!
# Every task keeps the frame of its scope

The parts that were left, calls of services and the loop of a session, and then the interpreter as a
whole: by induction on the depth, every task keeps the frame of its scope. What an executed `exit`
does is left open (`interpretWith`): it stops the loop of its scope, and a frame that says that the
loop is going on is kept only by an interpreter whose `exit` does nothing.

A first use is made of that. Whatever a task does to the store it does in the steps of `Store.Step`,
and what holds of every step (`Parley.Proofs.Store.Reach`) so holds of every run. The store that a
session starts with is made by such steps too, so all stores of a session are well formed.
-/

namespace Parley

/-- The scope that a task works in. -/
def Task.scope : Task → Nat
  | .evaluate scope _ | .renew scope _ | .apply scope _ _ | .session scope => scope

namespace Act

variable {F : ScopeFrame} {i : F.Index} {run : Run} {scope : Nat} {E : World → World → Prop}

/-! ### Calls of services -/

@[grind .] theorem Keeps.argValues [Frame E] (args : Args) : Keeps E (argValues args) := by
  induction args with
  | nil => exact Keeps.pure []
  | cons p args ih => unfold Act.argValues; grind

theorem Keeps.bindResponse (entries : Data.Entries) :
    Keeps (F.rel i scope) (bindResponse scope entries) := by
  induction entries with
  | nil => exact Keeps.pure ()
  | cons p entries ih => unfold Act.bindResponse; grind

/-- An expression that looks at a response is evaluated in a scope inside the one at hand. -/
theorem transformed_keeps (hrun : Runs F run) (evaluator : Value) (response code : Data) :
    Keeps (F.rel i scope) (transformed run scope evaluator response code) := by
  have hinner : Keeps (F.rel i scope) (do
      let inner ← withStore fun s => s.newChild scope
      let entries ← ofResult (response.entries "items")
      bindResponse inner entries
      let text ← load code
      deref (← run (.apply inner evaluator [("code", .value text)]))) := by
    refine Keeps.newChild fun inner => ?_
    have happly := hrun.apply (F.within i inner) inner
    have hbind := @Keeps.bindResponse F (F.within i inner) inner
    grind
  cases evaluator with
  | builtin f copy | method address name m => exact hinner
  | _ => exact Keeps.throw _

theorem applyRemote_keeps (hrun : Runs F run) (name call : String) (args : Args) :
    Keeps (F.rel i scope) (applyRemote run scope name call args) := by
  have htransformed (e : Value) (response code : Data) :
      Keeps (F.rel i scope) (transformed run scope e response code) :=
    transformed_keeps hrun e response code
  have hasked (service : Service) (args : List (String × Value)) :
      Keeps (F.rel i scope) (asked service call args) := by
    unfold asked argTexts; grind
  have hcall (service : Service) (args : List (String × Value)) :
      Keeps (F.rel i scope) (callAndTransform run scope service call args) := by
    refine Keeps.bind (by grind) fun _ => Keeps.bind (hasked _ _) fun _ => ?_
    unfold judged made; grind
  refine Keeps.bind (Keeps.serviceOf scope name) fun service => ?_
  refine Keeps.bind (Keeps.argValues args) fun values => ?_
  refine Keeps.bind (Keeps.tryCatch ?_ fun f => ?_) fun r => ?_
  · exact (hcall service values).bind fun v => Keeps.pure _
  · cases f with
    | evaluation m => exact Keeps.throw _
    | _ => exact (Keeps.error scope _).bind fun a => Keeps.pure _
  · cases r <;> exact Keeps.pure _

theorem applyMethod_keeps (address : Nat) (name : String) (m : ServiceMethod) (args : Args) :
    Keeps (F.rel i scope) (applyMethod scope address name m args) := by
  have hmodify (f : Service → Service) : Keeps (F.rel i scope) (modifyService scope name f) := by
    unfold modifyService; grind
  have hdata (v : Value) : Keeps (F.rel i scope) (constantData v) := by unfold constantData; grind
  cases m with
  | setHost =>
    iterate 5 refine Keeps.bind (by grind) fun _ => ?_
    grind
  | setAuthentication => unfold applyMethod; grind

/-- **Calling a function** keeps the frame. -/
theorem apply_keeps (hrun : Runs F run) (f : Value) (args : Args) :
    Keeps (F.rel i scope) (apply run scope f args) := by
  unfold apply
  split
  · exact applyClosure_keeps hrun _ _ _ args
  · exact runBuiltin_keeps hrun _ args
  · exact applyMethod_keeps _ _ _ args
  · exact applyRemote_keeps hrun _ _ args
  · exact Keeps.pure _
  · exact Keeps.throw _

/-! ### The loop of a session -/

section Tame

variable [Tame E]

@[grind .] theorem Keeps.readTokens (scope : Nat) (pending : List Token) :
    Keeps E (readTokens scope pending) := by
  have hprompt : Keeps E (writePrompt scope pending) := by unfold writePrompt; grind
  unfold Act.readTokens; grind

@[grind .] theorem Keeps.complain (message : String) : Keeps E (complain message) :=
  Keeps.coloured (Terminal.setForeground · "red") _ _ (Keeps.pure ())

@[grind .] theorem Keeps.showsResult (scope : Nat) (e : Expr) : Keeps E (showsResult scope e) :=
  Keeps.get_bind (fun _ => rfl) fun _ => (Keeps.scopeAt scope).bind fun _ => Keeps.pure _

@[grind .] theorem Keeps.resultColour (scope : Nat) : Keeps E (resultColour scope) := by
  unfold Act.resultColour; grind

end Tame

@[grind .] theorem Keeps.showResult [Frame E] (scope : Nat) (e : Expr)
    (a : Answer) : Keeps E (showResult scope e a) := by
  unfold Act.showResult; grind

theorem tryStatement_keeps (hrun : Runs F run) (e : Expr) :
    Keeps (F.rel i scope) (tryStatement run scope e) := by
  have heval := hrun.evaluate i scope e
  have hstatement : Keeps (F.rel i scope) (runStatement run scope e) := by
    unfold runStatement; grind
  unfold tryStatement afterFailure
  grind

theorem takeTokens_keeps (hrun : Runs F run) (pending tokens : List Token) :
    Keeps (F.rel i scope) (takeTokens run scope pending tokens) := by
  have htry (e : Expr) : Keeps (F.rel i scope) (tryStatement run scope e) :=
    tryStatement_keeps hrun e
  unfold takeTokens
  grind

/-- At the end of the input the loop is stopped. -/
theorem readRound_keeps (hrun : Runs F run) (pending : List Token) :
    Keeps (F.rel (F.within i scope) scope) (readRound run scope pending) := by
  have htake (tokens : List Token) : Keeps (F.rel (F.within i scope) scope)
      (takeTokens run scope pending tokens) :=
    takeTokens_keeps hrun pending tokens
  have hstop : Keeps (F.rel (F.within i scope) scope)
      (modifyScope scope fun sc => { sc with looping := false }) :=
    Keeps.modifyStore fun s => F.stop i scope s
  unfold readRound dealWith
  grind

theorem readStatements_keeps (hrun : Runs F run) (rounds : Nat) (pending : List Token) :
    Keeps (F.rel (F.within i scope) scope) (readStatements run scope rounds pending) := by
  have hround := @readRound_keeps F i run scope hrun
  induction rounds generalizing pending with
  | zero => exact Keeps.throw _
  | succ rounds ih =>
    refine Keeps.bind (Keeps.scopeAt scope) fun sc => ?_
    split
    · exact (hround pending).bind ih
    · exact Keeps.pure ()

/-! ### The interpreter -/

/-- Carries out a task as the interpreter does, with `stop` for what an executed `exit` does. -/
def stepWith (stop : Nat → Act Unit) (run : Run) : Task → Act Answer
  | .evaluate scope .exit => do
    stop scope
    return .value (← treeValue .exit)
  | .renew scope (.tree n .exit) => do
    stop scope
    return .value (.tree n .exit)
  | task => step run task

/-- The interpreter, with `stop` for what an executed `exit` does. -/
def interpretWith (stop : Nat → Act Unit) : Nat → Run
  | 0, _ => throw .nestedTooDeeply
  | depth + 1, task => stepWith stop (interpretWith stop depth) task

theorem stepWith_stopLoop (run : Run) (task : Task) : stepWith stopLoop run task = step run task := by
  unfold stepWith
  split <;> rfl

/-- An executed `exit` stops the loop of its scope. -/
theorem interpretWith_stopLoop (depth : Nat) : interpretWith stopLoop depth = interpret depth := by
  induction depth with
  | zero => rfl
  | succ depth ih =>
    funext task
    rw [interpretWith, interpret, stepWith_stopLoop, ih]

theorem runs_stepWith {stop : Nat → Act Unit} (hstop : ∀ i k, Keeps (F.rel i k) (stop k))
    (hrun : Runs F run) : Runs F (stepWith stop run) where
  evaluate i k e := by
    by_cases he : e = .exit
    · subst he
      exact (hstop i k).bind fun _ => (Keeps.treeValue .exit).bind fun v => Keeps.pure _
    · have hstep : stepWith stop run (.evaluate k e) = evaluate run k e := by
        cases e <;> first | exact absurd rfl he | rfl
      rw [hstep]
      exact evaluate_keeps hrun he
  renew i k v := by
    by_cases hv : ∃ n, v = .tree n .exit
    · obtain ⟨n, rfl⟩ := hv
      exact (hstop i k).bind fun _ => Keeps.pure _
    · have hstep : stepWith stop run (.renew k v) = renew run k v := by
        unfold stepWith
        split
        · next heq => cases heq
        · next heq =>
          cases heq
          exact absurd ⟨_, rfl⟩ hv
        · rfl
      rw [hstep]
      exact renew_keeps hrun fun n hn => hv ⟨n, hn⟩
  apply i k f args := apply_keeps hrun f args
  session i k := by
    refine Keeps.bind (readStatements_keeps hrun roundLimit []) fun _ => ?_
    exact (Keeps.lookup k World.resultName).bind fun c => Keeps.pure _

/-- **Every task keeps the frame of its scope**, whatever it is and however deeply it nests. -/
theorem runs_interpretWith {stop : Nat → Act Unit} (hstop : ∀ i k, Keeps (F.rel i k) (stop k))
    (depth : Nat) : Runs F (interpretWith stop depth) := by
  induction depth with
  | zero =>
    exact ⟨fun _ _ _ => Keeps.throw _, fun _ _ _ => Keeps.throw _, fun _ _ _ _ => Keeps.throw _,
      fun _ _ => Keeps.throw _⟩
  | succ depth ih =>
    have hnext := runs_stepWith hstop ih
    exact ⟨hnext.evaluate, hnext.renew, hnext.apply, hnext.session⟩

theorem runs_interpret (hstop : ∀ i k, Keeps (F.rel i k) (stopLoop k)) (depth : Nat) :
    Runs F (interpret depth) :=
  interpretWith_stopLoop depth ▸ runs_interpretWith hstop depth

/-- A frame that allows any change of the store is kept by every task. -/
theorem runs_everywhere [Frame E] (h : ∀ s s', Allows E s s')
    (depth : Nat) : Runs (.everywhere E h) (interpret depth) :=
  runs_interpret (fun _ _ => Keeps.modifyStore fun s => h s _) depth

/-! ### The steps of the store -/

open Store (Reaches Within Step)

/-- The store has come from `s₀` in steps, and the scope is there. -/
structure Reached (s₀ : Store) (k : Nat) (s : Store) : Prop where
  reaches : s₀.Reaches s
  wellFormed : s.WellFormed
  scope : k < s.scopes.size

theorem Reached.step {s₀ : Store} {k : Nat} {s s' : Store} (hstep : Step s s')
    (h : Reached s₀ k s) : Reached s₀ k s' where
  reaches := h.reaches.tail hstep
  wellFormed := hstep.wellFormed h.wellFormed
  scope := Nat.lt_of_lt_of_le h.scope hstep.grows.scopes

/-- The frame of a scope for the steps of the store. -/
def stepFrame (s₀ : Store) : ScopeFrame where
  Index := Unit
  rel _ k := Holding (Reached s₀ k)
  within _ _ := ()
  frame _ _ := frame_holding fun hdeposit => Reached.step (.add hdeposit.addition)
  write _ _ s c v := allows_holding (Reached.step (.write s c v))
  define _ k s name v := allows_holding (Reached.step (.define s k name v))
  capture _ k s site hsite := allows_holding fun h =>
    h.step (.capture s site k h.scope hsite)
  tables _ _ s tables := allows_holding (Reached.step (.tables s tables))
  forget _ k s table := allows_holding (Reached.step (.forget s k table))
  input _ k s _ := allows_holding (Reached.step (.add (.flags s k _ fun _ => ⟨rfl, rfl, rfl⟩)))
  stop _ k s := allows_holding (Reached.step (.add (.flags s k _ fun _ => ⟨rfl, rfl, rfl⟩)))
  enter h := h
  leave := by
    rintro _ k w _ input - ⟨rfl, h⟩
    exact ⟨rfl, h.step (.add (.flags w.store k _ fun _ => ⟨rfl, rfl, rfl⟩))⟩
  child := by
    rintro _ k w _ base ⟨rfl, h⟩ hbase
    have hthere : base < w.store.scopes.size := by
      rcases hbase with rfl | ⟨site, hsite⟩
      · exact h.scope
      · exact h.wellFormed.captured hsite
    have hstep := Step.child w.store base hthere
    refine ⟨⟨rfl, ?_⟩, fun ⟨hsame, hinner⟩ => ⟨hsame, ?_⟩⟩
    · exact { h.step hstep with scope := by simp [Store.newChild] }
    · exact { hinner with scope := Nat.lt_trans h.scope hinner.scope }

theorem runs_reached (s₀ : Store) (depth : Nat) : Runs (stepFrame s₀) (interpret depth) :=
  runs_interpret (fun i k => Keeps.modifyStore fun s => (stepFrame s₀).stop i k s) depth

/-- **Every task keeps to the steps of the store**, whatever it is and however deeply it nests. -/
theorem interpret_within (depth : Nat) (task : Task) :
    Makes (Within task.scope) (interpret depth task) := by
  intro w hwf hscope
  have hrun := runs_reached w.store depth
  have hkeeps : Keeps (Holding (Reached w.store task.scope)) (interpret depth task) := by
    cases task with
    | evaluate k e => exact hrun.evaluate () k e
    | renew k v => exact hrun.renew () k v
    | apply k f args => exact hrun.apply () k f args
    | session k => exact hrun.session () k
  exact (hkeeps.holds ⟨.refl, hwf, hscope⟩).reaches

/-- **Every task leaves a well-formed store well formed.** -/
theorem interpret_wellFormed (depth : Nat) (task : Task) {w : World} (hwf : w.store.WellFormed)
    (hscope : task.scope < w.store.scopes.size) :
    (w.perform (interpret depth task)).2.store.WellFormed :=
  (interpret_within depth task w hwf hscope).wellFormed hwf

end Act

/-! ### The start of a session -/

namespace Surroundings

open Store (Tolerant)

theorem reaches_defineAll (scope : Nat) (s : Store) (entries : List (String × Value)) :
    s.Reaches (defineAll scope s entries) := by
  induction entries generalizing s with
  | nil => exact .refl
  | cons p entries ih => exact .head (.define s scope p.1 p.2) (ih _)

theorem reaches_defineModules (scope : Nat) (result : Store × Nat)
    (modules : List (String × List (String × Value) × String)) :
    result.1.Reaches (defineModules scope result modules).1 := by
  induction modules generalizing result with
  | nil => exact .refl
  | cons m modules ih =>
    obtain ⟨name, functions, description⟩ := m
    obtain ⟨s, address⟩ := result
    have hobject : s.Reaches (s.newObject false functions (.str description)).1 :=
      Tolerant.newObject ..
    have hmodule := hobject.tail
      (.define _ scope name (s.newObject false functions (.str description)).2)
    exact hmodule.trans (ih (_, s.objects.size))

theorem reaches_base (x : Surroundings) : Store.empty.newRoot.1.Reaches x.base.1 := by
  dsimp only [base]
  -- What is defined has no say in it.
  generalize constants ++ standing = entries
  refine .trans ?_ (reaches_defineModules _ _ _)
  refine .trans ?_ (reaches_defineAll _ _ _)
  refine .trans ?_ (reaches_defineAll _ _ _)
  exact .trans (Tolerant.load ..) (Tolerant.load ..)

/-- **The store at the start is well formed.** -/
theorem wellFormed_store (x : Surroundings) : x.store.1.WellFormed := by
  have hbase := x.reaches_base
  have hroot : 0 < x.base.1.scopes.size :=
    Nat.lt_of_lt_of_le (show 0 < Store.empty.newRoot.1.scopes.size from Nat.zero_lt_one)
      hbase.grows.scopes
  have hchild := (hbase.wellFormed Store.wellFormed_newRoot_empty).newChild hroot
  exact hchild.addition (.flags _ _ _ fun _ => ⟨rfl, rfl, rfl⟩)

end Surroundings

end Parley
