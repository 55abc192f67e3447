import Parley.Proofs.Session.Script
import Parley.Proofs.Session.Survival

/-!
# What a call of a service makes of the last result

A call of a service evaluates the text for failures and the text for the result in scopes inside the
scope of the call. The last result of the caller can be seen from there, and it is what such a text
gives if no statement of it gives a value, be it that there is none, that none of them can be parsed
or that all of them fail. So the outcome of a call can be the last result from before the call. For
texts whose statements avoid what is hidden this is the only way in which it depends on the last
result. Operators, functions of the shell and functions of the user may be called in them. What has to
be hidden are the functions that are given the names of variables or the text of statements, and
services: a text without statements that is evaluated gives the last result, and more can be made of
it then.

## Main results

* `outcome_of_last`: the outcome of a call as a function of the last result.
* `outcome_of_last_value`: a call whose outcome is the last result, whatever that is.
-/

namespace Parley

open List
open Store (findName)

variable {β : Type} {E : World → World → Prop} {es : Data.Entries} {s : Store} {code : Data}

/-! ### One text -/

/-- What comes of the last result: it has no part in what is given, or it is what is given. -/
inductive Use where
  | own (r : Except Fault Value)
  | last

/-- What is given if the last result is `v`. -/
def Use.at (v : Value) : Use → Except Fault Value
  | own r => r
  | last => .ok v

/-- Has a run given something although the last result that is seen from the scope `code` is still
the one in the cell `c`? -/
def leavesLast {α : Type} (c code : Nat) (r : Except Fault α × World) : Bool :=
  r.1.isOk && r.2.store.find? code World.resultName == some c

/-- What a run has made of the last result, which is in the cell `c`: it is given if the text, which
has been read in the scope `code`, has left no result of its own there. -/
def Use.of (c code : Nat) (r : Except Fault Value × World) : Use :=
  if leavesLast c code r then .last else .own r.1

theorem Use.of_eq_last_iff {c code : Nat} {r : Except Fault Value × World} :
    Use.of c code r = .last ↔ leavesLast c code r := by
  unfold of
  split
  · next h => exact iff_of_true rfl h
  · next h => exact iff_of_false nofun h

/-- The second run gives what the first one makes of the last result, where that of the second run is
`v`; the text has been read in the scope `code`. -/
structure Hidden.Follows (H : Hidden) (code : Nat) (v : Value)
    (r r' : Except Fault Value × World) : Prop where
  value : r'.1 = (Use.of H.last code r).at v
  around : ∀ x, r.1 = .ok x → H.Around v r.2 r'.2

namespace Act

variable {α : Type} {H : Hidden} {Q : Store → Prop} {streams : Array (List (Option String))}
  {r n i c place : Nat} {v : Value} {depth : Nat} {w w' : World} {f : Fault} {u u' : World}
  {k : Nat} {x : Value} {response transform failure : Data} {P : α → Prop}

theorem follows_error {r r' : Except Fault Value × World} (h : r.1 = .error f) (h' : r'.1 = .error f) :
    H.Follows place v r r' := by
  refine ⟨?_, fun x hx => nomatch h.symm.trans hx⟩
  rw [Use.of, leavesLast, h, h']
  rfl

/-- What comes before the text is the same for twins. -/
theorem Gives.follows {x : Act α} {f : α → Act Value} (hx : Gives E P x)
    (hf : ∀ a ⦃u u'⦄, P a → E u u' → H.Follows place v (u.perform (f a)) (u'.perform (f a)))
    (hE : E w w') : H.Follows place v (w.perform (x >>= f)) (w'.perform (x >>= f)) := by
  have hstep := hx.leads hE
  rw [perform_bind, perform_bind]
  generalize w.perform x = r, w'.perform x = r' at hstep
  cases hstep with
  | ok h => exact hf _ h.1 h.2
  | error => exact follows_error rfl rfl

/-- A text that has come to the cell of the last result in its scope. -/
theorem follows_cell (hE : H.Inside r n i streams v u u')
    (hc : u.store.find? n World.resultName = some c) :
    H.Follows n v (.ok (u.store.deref (.cell c)), u) (.ok (u'.store.deref (.cell c)), u') := by
  refine ⟨?_, fun _ _ => hE.around⟩
  rw [Use.of, leavesLast, hc, hE.store]
  split
  · next h =>
    obtain rfl : c = H.last := Option.some.inj (eq_of_beq h)
    exact congrArg Except.ok (Store.cellValue_setCell_self hE.sound.last v)
  · next h =>
    have hne : c ≠ H.last := fun hlast => h (by rw [hlast]; exact beq_self_eq_true _)
    exact congrArg Except.ok (Store.cellValue_setCell_of_ne hne v)

/-! ### The function that evaluates texts -/

/-- What the failure of a text is reported as. -/
def reported (k : Nat) : Fault → Act Answer
  | .evaluation m => throw (.evaluation m)
  | f => reportFault k f

/-- A report is a failure, and the same one in every world. -/
theorem reported_follows :
    H.Follows place v (u.perform (reported k f >>= deref)) (u'.perform (reported k f >>= deref)) := by
  have hfails : ∃ f', ∀ w : World, ∃ t, w.perform (reported k f) = (.error f', t) := by
    unfold reported
    split
    · exact ⟨_, fun w => ⟨w, rfl⟩⟩
    · rw [reportFault]
      cases f.joined with
      | error f' => exact ⟨f', fun w => ⟨w, rfl⟩⟩
      | ok text => exact ⟨_, fun w => exists_perform_error Answer w k (f.label ++ ": " ++ text)⟩
  obtain ⟨f', hf'⟩ := hfails
  obtain ⟨t, ht⟩ := hf' u
  obtain ⟨t', ht'⟩ := hf' u'
  rw [perform_bind, perform_bind, ht, ht']
  exact follows_error rfl rfl

/-- A text that has come to something gives the value of it, and one that has failed a report. -/
theorem perform_runEval (w : World) (run : Run) (k : Nat) (x : Value) :
    let given := w.perform (runCore run k .eval [("code", .value x)] >>= deref)
    (∀ {a}, w.perform (evalText run k x) = (.ok a, u) → given = (.ok (u.store.deref a), u)) ∧
      ∀ {f}, w.perform (evalText run k x) = (.error f, u) →
        given = u.perform (reported k f >>= deref) := by
  have hrun : runCore run k .eval [("code", .value x)] =
      tryCatch (evalText run k x >>= fun a => deref a >>= fun y => pure (Answer.value y))
        (reported k) := rfl
  rw [hrun, perform_bind, perform_tryCatch, perform_bind]
  constructor
  · intro a ha
    rw [ha]
    rfl
  · intro f hf
    rw [hf, perform_bind]

/-- **Code that is evaluated** gives a value that has nothing to do with the last result, or gives
the last result; it does the latter if there is no result of its own in its scope in the end. -/
theorem runEval_follows (depth : Nat) (hE : H.Twins Q streams v w w') (hbare : w.store.Bare r)
    (hspares : H.spares x)
    (hx : ∀ text, x = .constant (.text text) → ∀ e ∈ statementsIn text, e.avoids H.names) :
    H.Follows w.store.scopes.size v
      (w.perform (runCore (interpret depth) r .eval [("code", .value x)] >>= deref))
      (w'.perform (runCore (interpret depth) r .eval [("code", .value x)] >>= deref)) := by
  by_cases htext : ∃ text, x = .constant (.text text)
  · obtain ⟨text, rfl⟩ := htext
    have hpair := evalText_leads depth hE hbare (hx text rfl)
    generalize hr : w.perform (evalText _ _ _) = r, hr' : w'.perform (evalText _ _ _) = r' at hpair
    cases hpair with
    | error =>
      rw [(perform_runEval _ _ _ _).2 hr, (perform_runEval _ _ _ _).2 hr']
      exact reported_follows
    | ok h =>
      obtain ⟨⟨c, hc, rfl⟩, streams', hT⟩ := h
      rw [(perform_runEval _ _ _ _).1 hr, (perform_runEval _ _ _ _).1 hr']
      exact follows_cell hT hc
  · have hE : H.Twins (fun _ => True) streams v w w' := { hE with holds := trivial }
    -- Code that is no text is not evaluated.
    have hgives : Gives (H.Twins (fun _ => True) streams v) (fun _ => False)
        (evalText (interpret depth) r x) := by
      unfold evalText
      split
      · next text => exact absurd ⟨text, rfl⟩ htext
      · exact complaint_gives _ r ("Cannot eval non-string: " ++ ·) hspares
    have hpair := hgives.leads hE
    generalize hr : w.perform (evalText _ _ _) = r, hr' : w'.perform (evalText _ _ _) = r' at hpair
    cases hpair with
    | ok h => exact h.1.elim
    | error =>
      rw [(perform_runEval _ _ _ _).2 hr, (perform_runEval _ _ _ _).2 hr']
      exact reported_follows

/-! ### The response -/

/-- The names of the parts of a response. -/
def responseNames : List String :=
  ["response", "status", "headers"]

/-- The parts of a response have their names. -/
def Named (response : Data) : Prop :=
  ∀ es, response.entries "items" = .ok es → ∀ p ∈ es, p.1 ∈ responseNames

/-- The parts of the response become variables. -/
theorem bindResponse_twins [Store.Lasting Q] (k : Nat) (hes : ∀ p ∈ es, p.1 ∈ responseNames) :
    Keeps (H.Twins Q streams v) (bindResponse k es) := by
  induction es with
  | nil => exact Keeps.pure ()
  | cons p es ih =>
    obtain ⟨hp, hrest⟩ := forall_mem_cons.mp hes
    have hname : p.1 ∉ H.names :=
      H.serving p.1 (mem_cons_of_mem _ (mem_cons_of_mem _ hp))
    exact (load_gives p.2).keeps_bind fun x hx =>
      (assign_gives k hname hx).keeps.bind fun _ => ih hrest

/-- Only a text has a text as its value. -/
theorem eq_str_of_load {d : Data} {shape : Shape} {text : String}
    (hshape : Shape.ofData d = .ok shape) (h : (s.load shape).2 = .constant (.text text)) :
    d = .str text := by
  have hleaf : shape = .leaf (.constant (.text text)) := by
    cases shape with
    | leaf x => exact congrArg Shape.leaf h
    | array es | object ps => cases h
  subst hleaf
  cases d with
  | list | dict =>
    rw [Shape.ofData] at hshape
    obtain ⟨_, _, ⟨⟩⟩ := exists_of_bind_eq_ok hshape
  | _ => cases hshape <;> rfl

theorem loadCode_gives [Store.Lasting Q] (d : Data) :
    Gives (H.Twins Q streams v)
      (fun x => H.spares x ∧ ∀ text, x = .constant (.text text) → d = .str text) (load d) := by
  refine ⟨(load_gives d).keeps, fun {w w' x} hE hx => ⟨(load_gives d).gives hE hx, fun text htext => ?_⟩⟩
  cases hshape : Shape.ofData d with
  | error f =>
    rw [load, hshape] at hx
    cases hx
  | ok shape =>
    rw [load, hshape] at hx
    exact eq_str_of_load hshape ((Except.ok.inj hx).trans htext)

/-- The statements of the code have none of the names in them. -/
def AvoidsCode (names : List String) (code : Data) : Prop :=
  ∀ text, code = .str text → ∀ e ∈ statementsIn text, e.avoids names

/-- The store has as many scopes. -/
def Sized (n : Nat) (s : Store) : Prop :=
  s.scopes.size = n

instance (n : Nat) : Frame (Holding (Sized n)) :=
  frame_holding fun hdeposit h =>
    (Store.Undisturbed.of_addition hdeposit.addition).scopes.trans h

/-- The parts of the response make no scopes. -/
theorem bindResponse_sized (n k : Nat) (es : Data.Entries) :
    Keeps (Holding (Sized n)) (bindResponse k es) := by
  induction es with
  | nil => exact Keeps.pure ()
  | cons p es ih =>
    refine (Keeps.load p.2).bind fun x => (Keeps.withStore fun s => ?_).bind fun _ => ih
    exact allows_holding (s.scopes_define k p.1 x).1.trans

/-- Twins in the scope of a response, which is the newest one and has no last result of its own. -/
def Responds (H : Hidden) (n : Nat) (streams : Array (List (Option String))) (v : Value)
    (w w' : World) : Prop :=
  H.Twins (Store.Bare n) streams v w w' ∧ Sized (n + 1) w.store

/-- An action that keeps twins and makes no scopes. -/
theorem Gives.responds {x : Act α} (hx : Gives (H.Twins (Store.Bare n) streams v) P x)
    (hsized : Keeps (Holding (Sized (n + 1))) x) : Gives (Responds H n streams v) P x :=
  ⟨fun _ _ hE => ⟨(hx.keeps hE.1).1, (hx.keeps hE.1).2, hsized.holds hE.2⟩, fun hE => hx.gives hE.1⟩

/-- The scope that is made for a response. -/
theorem responds_newChild (hE : H.Twins Q streams v w w') (k : Nat) :
    Responds H w.store.scopes.size streams v { w with store := (w.store.newChild k).1 }
      { w' with store := (w.store.newChild k).1.setCell H.last v } := by
  have hsize : (w.store.newChild k).1.scopes.size = w.store.scopes.size + 1 := Array.size_push _
  refine ⟨hE.of_store (hE.sound.newChild k) ⟨hsize ▸ Nat.lt_succ_self _, ?_⟩, hsize⟩
  rw [Store.scopeAt_newChild_self]
  rfl

/-- **What code makes of a response** has nothing to do with the last result, or is the last result;
it is the latter if there is no result in the scope of the code in the end. -/
theorem transformed_follows (depth : Nat) (hE : H.Twins Q streams v w w')
    (m : Nat) (hcode : AvoidsCode H.names code)
    (hresponse : Named response) :
    H.Follows (w.store.scopes.size + 1) v
      (w.perform (transformed (interpret depth) k (.builtin (.core .eval) m) response code))
      (w'.perform (transformed (interpret depth) k (.builtin (.core .eval) m) response code)) := by
  have hopen : w'.store.newChild k =
      ((w.store.newChild k).1.setCell H.last v, w.store.scopes.size) := by
    rw [hE.store]
    rfl
  unfold transformed
  rw [perform_withStore_bind, perform_withStore_bind, hopen]
  refine (ofResult_gives _).follows (fun es t t' hes hE₁ => ?_) (responds_newChild hE k)
  have hbind : Gives (Responds H w.store.scopes.size streams v) (fun _ => True)
      (bindResponse w.store.scopes.size es) :=
    (bindResponse_twins _ (hresponse es hes)).gives.responds (bindResponse_sized _ _ es)
  refine hbind.follows (fun _ t t' _ hE₂ => ?_) hE₁
  refine ((loadCode_gives code).responds (Keeps.load code)).follows (fun x t t' hcode' hE₃ => ?_) hE₂
  obtain ⟨hspares, hx⟩ := hcode'
  cases depth with
  | zero => exact follows_error rfl rfl
  | succ depth =>
    have hfollows := runEval_follows depth hE₃.1 hE₃.1.holds hspares
      fun text htext => hcode text (hx text htext)
    rwa [show t.store.scopes.size = w.store.scopes.size + 1 from hE₃.2] at hfollows

/-! ### The request -/

/-- Whatever the action gives has the property. -/
def Yields (P : α → Prop) (x : Act α) : Prop :=
  ∀ ⦃w : World⦄ ⦃a⦄, (w.perform x).1 = .ok a → P a

theorem Yields.pure {a : α} (h : P a) : Yields P (Pure.pure a) :=
  fun _ _ ha => Except.ok.inj ha ▸ h

theorem Yields.last {x : Act β} {f : β → Act α} (h : ∀ b, Yields P (f b)) : Yields P (x >>= f) := by
  intro w a ha
  rw [perform_bind] at ha
  split at ha
  · exact h _ ha
  · cases ha

theorem Yields.branch {c : Prop} [Decidable c] {x y : Act β} {rest : β → Act α}
    (h : ∀ b, Yields P (rest b)) :
    Yields P (if c then x >>= rest else y >>= rest) := by
  split
  · exact Yields.last h
  · exact Yields.last h

theorem Yields.optional {c : Prop} [Decidable c] {x : Act Unit} {rest : Unit → Act α}
    (h : ∀ u, Yields P (rest u)) : Yields P (if c then x >>= rest else rest ()) := by
  split
  · exact Yields.last h
  · exact h ()

theorem named_dict (h : es.map Prod.fst ⊆ responseNames) : Named (.dict es) := by
  intro es' hes' p hp
  cases hes'
  exact h (mem_map_of_mem hp)

theorem callHttp_yields (s : Service) (name : String) (args : Service.ArgTexts) :
    Yields Named (callHttp s name args) := by
  iterate 10 refine Yields.last fun _ => ?_
  refine Yields.branch fun headers => Yields.optional fun _ => ?_
  iterate 12 refine Yields.last fun _ => ?_
  iterate 2 refine Yields.last fun _ => ?_
  exact Yields.pure (named_dict (Subset.refl _))

theorem callQueue_yields (s : Service) (name : String) (args : Service.ArgTexts) :
    Yields Named (callQueue s name args) := by
  refine Yields.last fun _ => Yields.optional fun _ => ?_
  iterate 9 refine Yields.last fun _ => ?_
  refine Yields.branch fun auth => ?_
  iterate 12 refine Yields.last fun _ => ?_
  exact Yields.pure (named_dict (by simp [responseNames]))

/-- **The parts of a response** are called by the names for them, whatever the service answers. -/
theorem callService_yields (s : Service) (name : String) (args : Service.ArgTexts) :
    Yields Named (callService s name args) := by
  unfold callService
  split
  · exact callHttp_yields s name args
  · exact callQueue_yields s name args
  · exact Yields.pure fun es hes => nomatch hes

/-! ### The call -/

/-- The outcome of a call, from what the code for failures and the code for the result give. -/
def settle (failure result : Except Fault Value) : Except Fault Value :=
  match failure with
  | .error f => .error f
  | .ok (.constant (.bool true)) => .error (.evaluation "remote call failed")
  | .ok _ => result

theorem asked_gives (service : Service) (call : String)
    {args : List (String × Value)} (hargs : ∀ a ∈ args, H.spares a.2) :
    Gives (H.Twins Q streams v) (fun p => Named p.1 ∧
        service.responsePart call "transform" = .ok p.2.1 ∧
        service.responsePart call "error" = .ok p.2.2) (asked service call args) := by
  have htexts : Keeps (H.Twins Q streams v) (argTexts args) := by
    intro w w' hE
    have hsame : (w'.perform (argTexts args)).1 = (w.perform (argTexts args)).1 := by
      refine congrArg Except.ok (map_congr_left fun a ha => ?_)
      rw [hE.store, hE.sound.shape_setCell v (hargs a ha)]
    exact ⟨hsame.symm, hE⟩
  refine htexts.bind_gives fun texts => ?_
  refine Gives.bind ⟨Keeps.callService _ _ _, fun _ h => callService_yields _ _ _ h⟩
    fun response hresponse => ?_
  refine (ofResult_gives _).bind fun transform htransform => ?_
  refine (ofResult_gives _).bind fun failure hfailure => ?_
  exact Gives.pure ⟨hresponse, htransform, hfailure⟩

/-- What the code for the result makes of the last result. -/
def madeUse (c code : Nat) (transform : Data) (r : Except Fault Value × World) : Use :=
  if transform.truthy then .of c code r else .own r.1

theorem made_value (depth : Nat) (hE : H.Twins Q streams v w w')
    (m : Nat) (havoids : AvoidsCode H.names transform)
    (hresponse : Named response) :
    (w'.perform (made (interpret depth) k (.builtin (.core .eval) m) response transform)).1 =
      (madeUse H.last (w.store.scopes.size + 1) transform
        (w.perform (made (interpret depth) k (.builtin (.core .eval) m) response transform))).at v := by
  unfold made madeUse
  split
  · exact (transformed_follows depth hE m havoids hresponse).value
  · have hE : H.Twins (fun _ => True) streams v w w' := { hE with holds := trivial }
    exact (((Keeps.ofResult _).bind fun result => (load_gives result).keeps) hE).1.symm

theorem settle_of_ne (h : x ≠ .constant (.bool true)) (r : Except Fault Value) :
    settle (.ok x) r = r := by
  unfold settle
  split
  · next heq => cases heq
  · next heq => exact absurd (Except.ok.inj heq) h
  · rfl

/-- The verdict comes before the result. -/
theorem perform_judged_bind (run : Run) (w : World) (k : Nat) (evaluator : Value) (response : Data)
    (hfailure : failure.truthy) (y : Act Value) :
    (w.perform (judged run k evaluator response failure >>= fun _ => y)).1 =
      settle (w.perform (transformed run k evaluator response failure)).1
        ((w.perform (transformed run k evaluator response failure)).2.perform y).1 := by
  rw [judged, if_pos hfailure, bind_assoc, perform_bind]
  rcases w.perform (transformed run k evaluator response failure) with ⟨f | x, u⟩
  · rfl
  · dsimp only
    split
    · obtain ⟨t, ht⟩ := exists_perform_error Unit u k "remote call failed"
      rw [perform_bind, ht]
      rfl
    · next hx => exact (settle_of_ne hx _).symm

/-- **The code for failures and the code for the result**, one after the other. -/
theorem exists_uses (depth m : Nat)
    (hfailure : AvoidsCode H.names failure) (htransform : AvoidsCode H.names transform)
    (hresponse : Named response) :
    ∃ E T : Use, (∀ {v w'}, H.Twins Q streams v w w' →
      (w'.perform (judged (interpret depth) k (.builtin (.core .eval) m) response failure >>=
        fun _ => made (interpret depth) k (.builtin (.core .eval) m) response transform)).1 =
      settle (E.at v) (T.at v)) ∧
      (¬ failure.truthy → E = .own (.ok .null) ∧ T = madeUse H.last (w.store.scopes.size + 1) transform
        (w.perform (made (interpret depth) k (.builtin (.core .eval) m) response transform))) := by
  let y := made (interpret depth) k (.builtin (.core .eval) m) response transform
  by_cases hf : failure.truthy
  · let r := w.perform (transformed (interpret depth) k (.builtin (.core .eval) m) response failure)
    refine ⟨.of H.last (w.store.scopes.size + 1) r, madeUse H.last (r.2.store.scopes.size + 1) transform (r.2.perform y),
      fun {v w'} hE => ?_, fun hnone => absurd hf hnone⟩
    have hfollows := transformed_follows (k := k) depth hE m hfailure hresponse
    rw [perform_judged_bind _ _ _ _ _ hf, hfollows.value]
    cases hr : r.1 with
    | error f =>
      have huse : Use.of H.last (w.store.scopes.size + 1) r = .own (.error f) := by
        rw [Use.of, leavesLast, hr]
        rfl
      rw [huse]
      rfl
    | ok x =>
      obtain ⟨streams', hE'⟩ := hfollows.around x hr
      exact congrArg (settle _) (made_value (k := k) depth hE' m htransform hresponse)
  · refine ⟨.own (.ok .null), madeUse H.last (w.store.scopes.size + 1) transform (w.perform y),
      fun {v w'} hE => ?_, fun _ => ⟨rfl, rfl⟩⟩
    rw [judged, if_neg hf]
    exact made_value depth hE m htransform hresponse

/-! ### The outcome -/

/-- What the failure of a call is reported as. -/
def callFault : Fault → Fault
  | .evaluation m => .evaluation m
  | f => .evaluation ("Error in remote call: " ++ f.shown)

theorem callFault_of_ne (h : ∀ m, f ≠ .evaluation m) :
    callFault f = .evaluation ("Error in remote call: " ++ f.shown) := by
  unfold callFault
  split
  · next m => exact absurd rfl (h m)
  · rfl

/-- The outcome of a call, from what has come of its request. -/
def callOutcome (r : Except Fault Value) : Except Fault Answer :=
  (r.mapError callFault).map Answer.value

theorem perform_argValues (w : World) (args : Args) :
    w.perform (argValues args) = (.ok (args.map fun a => (a.1, w.store.deref a.2)), w) := by
  induction args with
  | nil => rfl
  | cons a args ih =>
    rw [argValues, perform_deref_bind, perform_bind_ok ih]
    rfl

/-- The second run tells the outcome of the first one. -/
structure Tells (r : Except Fault Value × World) (r' : Except Fault Answer × World) : Prop where
  outcome : r'.1 = callOutcome r.1
  world : ∀ x, r.1 = .ok x → r'.2 = r.2

theorem Tells.leavesLast_eq {r : Except Fault Value × World} {r' : Except Fault Answer × World}
    (h : Tells r r') (c code : Nat) : leavesLast c code r' = leavesLast c code r := by
  obtain ⟨f | x, u⟩ := r
  · rw [leavesLast, h.outcome]
    rfl
  · rw [leavesLast, h.outcome, h.world x rfl]
    rfl

/-- An action whose failures are reported tells its outcome. -/
theorem tells_tryCatch {x : Act Value} {value : Value → Act β} {last : β → Act Answer}
    {handler : Fault → Act β}
    (hvalue : ∀ (y : Value) (u : World), ∃ b, u.perform (value y) = (.ok b, u) ∧
      u.perform (last b) = (.ok (.value y), u)) (hhandler : ∀ (f : Fault) (u : World), ∃ t,
      u.perform (handler f) = (.error (callFault f), t)) (w : World) :
    Tells (w.perform x) (w.perform (tryCatch (x >>= value) handler >>= last)) := by
  rw [perform_bind, perform_tryCatch, perform_bind]
  rcases w.perform x with ⟨f | y, u⟩
  · obtain ⟨t, ht⟩ := hhandler f u
    dsimp only
    rw [ht]
    exact ⟨rfl, nofun⟩
  · obtain ⟨b, hb, hlast⟩ := hvalue y u
    dsimp only
    rw [hb]
    dsimp only
    rw [hlast]
    exact ⟨rfl, fun _ _ => rfl⟩

/-- The call of a service that the scope knows. -/
theorem applyRemote_tells (run : Run) {name : String} (call : String) (args : Args)
    {service : Service} (hservice : w.store.service? k name = some service) :
    Tells (w.perform (callAndTransform run k service call
        (args.map fun a => (a.1, w.store.deref a.2))))
      (w.perform (applyRemote run k name call args)) := by
  have hof : w.perform (serviceOf k name) = (.ok service, w) := by
    rw [serviceOf, perform_getStore_bind, hservice]
    rfl
  rw [applyRemote, perform_bind_ok hof, perform_bind_ok (perform_argValues w args)]
  refine tells_tryCatch ?_ ?_ w
  · exact fun y u => ⟨.error (.value y), rfl, rfl⟩
  · intro f u
    split
    · exact ⟨u, rfl⟩
    · next hf =>
      obtain ⟨t, ht⟩ := exists_perform_error Answer u k ("Error in remote call: " ++ f.shown)
      refine ⟨t, ?_⟩
      rw [perform_bind, ht, callFault_of_ne hf]

end Act

/-- A call of a service. -/
def World.call (w : World) (depth k address : Nat) (name call : String) (args : Args) :
    Except Fault Answer × World :=
  w.perform (Act.interpret (depth + 1) (.apply k (.remote address name call) args))

/-- The outcome of a call of a service in the world in which the last result, which is in the cell
`c`, is `v`. -/
def World.outcome (w : World) (c depth k address : Nat) (name call : String) (args : Args)
    (v : Value) : Except Fault Answer :=
  ((w.put c v).call depth k address name call args).1

/-- Does the call give something although its code has left no result of its own in its scope, so that
the last result there is the caller's, which is in the cell `c`? -/
def World.leavesNoResult (w : World) (c depth k address : Nat) (name call : String) (args : Args) :
    Bool :=
  leavesLast c (w.store.scopes.size + 1) (w.call depth k address name call args)

/-- Does the name of the function that evaluates texts mean that function, in another cell than
`c`? -/
def Store.meansEval (s : Store) (k c : Nat) : Bool :=
  match s.find? k "eval" with
  | some d =>
    match s.cellValue d with
    | .builtin (.core .eval) _ => d != c
    | _ => false
  | none => false

theorem Store.exists_of_meansEval {k c : Nat} (h : s.meansEval k c) :
    ∃ d m, s.find? k "eval" = some d ∧ s.cellValue d = .builtin (.core .eval) m ∧ d ≠ c := by
  unfold meansEval at h
  split at h
  · next d hd =>
    split at h
    · next m hm => exact ⟨d, m, hd, hm, by simpa using h⟩
    · cases h
  · cases h

/-- A call of a service whose code avoids what is hidden, in a world where nothing hidden is reached
from what is not hidden. -/
structure World.Calls (w : World) (H : Hidden) (k : Nat) (service : Service) (name call : String)
    (args : Args) : Prop where
  sound : H.Sound w.store
  last : w.store.find? k World.resultName = some H.last
  input : 0 < w.streams.size
  evaluator : w.store.meansEval k H.last
  known : w.store.service? k name = some service
  given : H.FairArgs args
  transform : ∀ {code}, service.responsePart call "transform" = .ok code →
    Act.AvoidsCode H.names code
  failure : ∀ {code}, service.responsePart call "error" = .ok code → Act.AvoidsCode H.names code

namespace World.Calls

open Act

variable {w : World} {H : Hidden} {k : Nat} {service : Service} {name call : String} {args : Args}
  (h : w.Calls H k service name call args)

include h

theorem twins (v : Value) : H.Twins (· = w.store) w.streams v w (w.put H.last v) :=
  ⟨h.sound, rfl, h.input, rfl, rfl⟩

/-- The texts of the call are evaluated by the same function, whatever the last result is. -/
theorem perform_lookup_eval : ∃ m, ∀ v, (w.put H.last v).perform (lookupValue k "eval") =
      (.ok (.builtin (.core .eval) m), w.put H.last v) := by
  obtain ⟨d, m, hd, hvalue, hne⟩ := Store.exists_of_meansEval h.evaluator
  refine ⟨m, fun v => ?_⟩
  have hfind : (w.put H.last v).store.find? k "eval" = some d :=
    (w.store.find?_setCell H.last v k "eval").trans hd
  have hcell : (w.put H.last v).store.cellValue d = .builtin (.core .eval) m :=
    (Store.cellValue_setCell_of_ne hne v).trans hvalue
  rw [perform_lookupValue hfind]
  exact congrArg (fun x => (Except.ok x, w.put H.last v)) hcell

/-- The arguments have the same values, whatever the last result is. -/
theorem deref_put (v : Value) : (args.map fun a => (a.1, (w.put H.last v).store.deref a.2)) =
      args.map fun a => (a.1, w.store.deref a.2) := by
  refine map_congr_left fun a ha => congrArg (Prod.mk a.1) ?_
  have hfair := h.given a ha
  cases hcell : a.2 with
  | value x => rfl
  | cell d =>
    rw [hcell] at hfair
    exact Store.cellValue_setCell_of_ne (Hidden.ne_last hfair) v

theorem spares_values : ∀ a ∈ args.map fun a => (a.1, w.store.deref a.2), H.spares a.2 :=
  forall_mem_map.mpr fun a ha => h.sound.spares_deref (h.given a ha)

theorem put_cellValue : w.put H.last (w.store.cellValue H.last) = w := by
  have hcells : w.store.cells.setIfInBounds H.last (w.store.cellValue H.last) = w.store.cells := by
    refine Array.ext_getElem? fun j => ?_
    rw [Array.getElem?_setIfInBounds]
    split
    · next hj =>
      subst hj
      rw [if_pos h.sound.last, Store.cellValue, Array.getElem?_eq_getElem h.sound.last]
      rfl
    · rfl
  rw [World.put, Store.setCell, hcells]

/-- The call is its request and what is made of the response. -/
theorem call_tells (depth address : Nat) :
    ∃ m, ∀ v, Tells ((w.put H.last v).perform (callWith (interpret depth) k (.builtin (.core .eval) m)
        service call (args.map fun a => (a.1, w.store.deref a.2))))
      ((w.put H.last v).call depth k address name call args) := by
  obtain ⟨m, hm⟩ := h.perform_lookup_eval
  refine ⟨m, fun v => ?_⟩
  have hservice : (w.put H.last v).store.service? k name = some service := h.known
  have htells := applyRemote_tells (interpret depth) call args hservice
  rwa [h.deref_put v, callAndTransform, perform_bind_ok (hm v)] at htells

/-- **The last result in the outcome of a call**: each of the two texts has its own way, whatever the
last result is, or gives the last result. Without code for failures, the latter depends on whether
the code has given a result in its scope. -/
theorem exists_outcome (depth address : Nat) :
    ∃ failure result : Use, (∀ v, w.outcome H.last depth k address name call args v =
        callOutcome (settle (failure.at v) (result.at v))) ∧
      ∀ code, service.responsePart call "transform" = .ok code → code.truthy →
        (∀ d, service.responsePart call "error" = .ok d → ¬ d.truthy) →
        failure = .own (.ok .null) ∧
          (result = .last ↔ w.leavesNoResult H.last depth k address name call args) := by
  obtain ⟨m, hm⟩ := h.call_tells depth address
  have hself := hm (w.store.cellValue H.last)
  rw [h.put_cellValue] at hself
  -- The request has the same answer, whatever the last result is.
  have hpair (v : Value) := (asked_gives service call h.spares_values).leads (h.twins v)
  generalize hu : w.perform (asked service call _) = r at hpair
  obtain ⟨f | ⟨response, transform, failure⟩, u⟩ := r
  · refine ⟨.own (.ok .null), .own (.error f),
      fun v => (hm v).outcome.trans (congrArg callOutcome ?_), fun _ _ _ _ => ⟨rfl, ?_⟩⟩
    · obtain ⟨u', hu'⟩ := (hpair v).exists_error
      rw [callWith, perform_bind, hu']
      rfl
    · rw [leavesNoResult, hself.leavesLast_eq, callWith, perform_bind, hu]
      exact iff_of_false nofun Bool.false_ne_true
  · obtain ⟨_, -, ⟨hresponse, htransform, hfailure⟩, htwins⟩ := (hpair .null).exists_ok
    have hstore : u.store = w.store := htwins.holds
    obtain ⟨E, T, hET, hnone⟩ := exists_uses depth m (h.failure hfailure) (h.transform htransform)
      hresponse
    refine ⟨E, T, fun v => (hm v).outcome.trans (congrArg callOutcome ?_),
      fun code hcode hthere hfree => ?_⟩
    · obtain ⟨u', hu', -, htwins⟩ := (hpair v).exists_ok
      rw [callWith, perform_bind_ok hu']
      exact hET htwins
    · obtain ⟨rfl, rfl⟩ := hnone (hfree _ hfailure)
      obtain rfl := Except.ok.inj (htransform.symm.trans hcode)
      refine ⟨rfl, ?_⟩
      rw [madeUse, if_pos hthere, Use.of_eq_last_iff, leavesNoResult, hself.leavesLast_eq,
        callWith, perform_bind_ok hu, judged, if_neg (hfree _ hfailure), pure_bind, hstore]

end World.Calls

/-- **The outcome of a call and the last result.** The code for failures and the code for the result
have each its own way, whatever the last result is, or give the last result. Without code for
failures the call gives the last result if the code for the result has given none in its scope, and
comes to the same whatever the last result is if it has. -/
theorem outcome_of_last {w : World} {H : Hidden} {k : Nat} {service : Service} {name call : String} {args : Args}
    (h : w.Calls H k service name call args) (depth address : Nat) :
    (∃ failure result : Use, ∀ v, w.outcome H.last depth k address name call args v =
      Act.callOutcome (Act.settle (failure.at v) (result.at v))) ∧
    ∀ code, service.responsePart call "transform" = .ok code → code.truthy →
      (∀ d, service.responsePart call "error" = .ok d → ¬ d.truthy) →
      (w.leavesNoResult H.last depth k address name call args →
        ∀ v, w.outcome H.last depth k address name call args v = .ok (.value v)) ∧
      (¬ w.leavesNoResult H.last depth k address name call args →
        ∀ v, w.outcome H.last depth k address name call args v =
          (w.call depth k address name call args).1) := by
  obtain ⟨failure, result, hall, huses⟩ := h.exists_outcome depth address
  refine ⟨⟨failure, result, hall⟩, fun code hcode hthere hfree => ?_⟩
  obtain ⟨rfl, hlast⟩ := huses code hcode hthere hfree
  refine ⟨fun hleaves v => ?_, fun hleaves v => ?_⟩
  · rw [hall, hlast.mpr hleaves]
    rfl
  · have hself : (w.call depth k address name call args).1 =
        w.outcome H.last depth k address name call args (w.store.cellValue H.last) := by
      rw [World.outcome, h.put_cellValue]
    rw [hself, hall, hall]
    cases result with
    | own r => rfl
    | last => exact absurd (hlast.mp rfl) hleaves

/-- A service whose answers are objects, with a call that asks for the size of the value in them and
one that asks for the status. -/
def valueService : Service where
  transport := .http
  host := .str "h"
  protocol := .str "http"
  description := .null
  authType := .null
  authData := .null
  lenient := .bool false
  calls := [("c", code "size(of: response.value) > 0"), ("d", code "status > 399")]
where
  /-- A call with code for its result. -/
  code (text : String) : Data :=
    .dict [ ("timeout", .int 60), ("headers", .dict []),
        ("response", .dict [("type", .str "json"), ("transform", .str text), ("error", .null)]) ]

/-- A shell on a network where the answer to the next request is an object without a value. -/
def emptyAnswer : World :=
  World.start { typedIn [] with
      network :=
        { replies := [.response 200 "OK" [] (Text.utf8 "\x7b\x7d")], broker := none, asked := 0,
          ticks := 0, sent := [], token := "" } }

/-- The shell, when it knows the service. -/
def askingWorld : World :=
  { emptyAnswer with store := emptyAnswer.store.setService 1 "s" valueService }

/-- What code is to be kept from at the start of a session. -/
def startHidden : Hidden where
  last := 2
  names := ["__result", "eval", "set", "source", "defOperator", "session"]
  cells := [2, 10, 30, 31, 32, 63, 64, 65, 66]
  objects := [4]
  last_mem := by decide
  result_mem := by decide
  serving := by decide

theorem calls_askingWorld (call : String) {text : String}
    (hcode : valueService.responsePart call "transform" = .ok (.str text))
    (hnone : valueService.responsePart call "error" = .ok .null)
    (havoids : (statementsIn text).all (Expr.avoids startHidden.names)) :
    askingWorld.Calls startHidden 1 valueService "s" call [] where
  sound := Hidden.sound_of_isSound (by decide +kernel)
  last := by decide +kernel
  input := by decide
  evaluator := by decide +kernel
  known := Store.service?_setService (by decide +kernel) _ _
  given := fun p hp => absurd hp not_mem_nil
  transform := by
    intro code h text' htext
    cases Except.ok.inj (hcode.symm.trans h)
    cases htext
    exact all_eq_true.mp havoids
  failure := by
    intro code h text' htext
    cases Except.ok.inj (hnone.symm.trans h)
    cases htext

/-- A call whose code asks for a value that is not there gives the last result; one whose code gives a
value has nothing to do with it. -/
theorem outcome_of_last_value :
    (askingWorld.leavesNoResult 2 10 1 0 "s" "c" [] ∧
      ∀ v, askingWorld.outcome 2 10 1 0 "s" "c" [] v = .ok (.value v)) ∧
    (¬ askingWorld.leavesNoResult 2 10 1 0 "s" "d" [] ∧
      ∀ v, askingWorld.outcome 2 10 1 0 "s" "d" [] v = (askingWorld.call 10 1 0 "s" "d" []).1) := by
  have hnone {call : String} (h : valueService.responsePart call "error" = .ok .null) (d : Data)
      (hd : valueService.responsePart call "error" = .ok d) : ¬ d.truthy :=
    Except.ok.inj (h.symm.trans hd) ▸ Bool.false_ne_true
  have hc : askingWorld.leavesNoResult 2 10 1 0 "s" "c" [] := by decide +kernel
  have hd : ¬ askingWorld.leavesNoResult 2 10 1 0 "s" "d" [] := by decide +kernel
  have hcalls₁ := calls_askingWorld "c" rfl rfl (by decide +kernel)
  have hcalls₂ := calls_askingWorld "d" rfl rfl (by decide +kernel)
  exact ⟨⟨hc, ((outcome_of_last hcalls₁ 10 0).2 _ rfl rfl (hnone rfl)).1 hc⟩,
    hd, ((outcome_of_last hcalls₂ 10 0).2 _ rfl rfl (hnone rfl)).2 hd⟩

end Parley
