import Parley.Proofs.Session.Rounds

/-!
# The machine below the shell

The shell has no bound of its own on how deep a statement is nested, and no text that it could not
show. The machine that it runs on may have both: a stack that is too small for reading some tokens,
and a terminal without a code for some letters. What a machine objects to is said by a `Host`.

A round of the loop on a host (`Act.roundOn`) makes the same steps as a round of the loop, with the
objections in the places where nothing guards the shell against them: before the prompt is shown,
before a line that is no line of tokens is shown, before tokens are read, and before the report on a
failure that is no error of the evaluation. A statement is guarded as a whole, so whatever else the
machine may object to while it is evaluated is a failure like others.

## Main results

* `Act.perform_roundOn`: a round on a host fails with what the host has against it
  (`Host.objection`); if there is nothing, it is a round of the loop.
* `Act.roundOn_unlimited`: on a host that never objects every round is.
-/

namespace Parley

open Grammar (parse)

/-- What the machine below the shell objects to, each time with the fault that it raises. -/
structure Host where
  /-- To reading these tokens, as it may be for want of room on the stack. -/
  reads : List Token → Option Fault
  /-- To showing this text, as it may be for want of a code for a letter. -/
  shows : String → Option Fault

namespace Host

/-- A machine without objections. -/
def unlimited : Host where
  reads _ := none
  shows _ := none

variable (host : Host)

/-- What it has against the prompt, if one is to be shown. -/
def prompts (w : World) (k : Nat) (pending : List Token) : Option Fault :=
  if (w.store.scopeAt k).input = 0 then (w.prompt k pending).toOption.bind host.shows else none

/-- What it has against what has been read. -/
def takes : Act.Reading → Option Fault
  | .refused message => host.shows message
  | .tokens (t :: ts) => host.reads (t :: ts)
  | _ => none

/-- What it has against the report on what comes of a statement. Errors of the evaluation have been
reported. -/
def reports : Except Fault Unit → Option Fault
  | .ok _ | .error (.evaluation _) => none
  | .error f => host.shows ("INTERNAL INTERPRETER ERROR: " ++ f.message)

end Host

theorem World.Said.prompts_eq {host : Host} {w w' : World} (h : w.Said w') (k : Nat)
    (pending : List Token) : host.prompts w' k pending = host.prompts w k pending := by
  rw [Host.prompts, Host.prompts, h.store, h.prompt_eq]

namespace Act

/-- Fails if there is an objection. -/
def failWith : Option Fault → Act Unit
  | some f => throw f
  | none => pure ()

/-- The statement that has been read, ready for its evaluation, if it is one. -/
def prepare : Reading → Act (Option Expr)
  | .tokens (t :: ts) => do
    match (parse (t :: ts)).result with
    | .ok e =>
      trace ("tokenized: [" ++ Text.joinWith ", " ((t :: ts).map Token.shown) ++ "]")
      traceAll (parse (t :: ts)).notes
      let e ← withStore fun s =>
        let (e, fresh) := e.placed s.fresh
        ({ s with fresh }, e)
      return some e
    | .error _ => return none
  | _ => return none

/-- Evaluates the statement on the next line, if there is one, with nothing around it that would deal
with a failure. -/
def evaluateNext (run : Run) (k : Nat) (pending : List Token) : Act Unit := do
  title "restsh"
  match ← prepare (← readTokens k pending) with
  | some e => runStatement run k e
  | none => pure ()

/-- Deals with what has been read, with a given way to try statements. -/
def dealBy (attempt : Expr → Act Unit) (run : Run) (k : Nat) (pending : List Token)
    (reading : Reading) : Act (List Token) := do
  match ← prepare reading with
  | some e =>
    attempt e
    return []
  | none => dealWith run k pending reading

/-- Tries a statement on a host. -/
def tryOn (host : Host) (run : Run) (k : Nat) (e : Expr) : Act Unit :=
  tryCatch (runStatement run k e) fun f => do
    failWith (host.reports (.error f))
    afterFailure k f

/-- One round of the loop on a host. -/
def roundOn (host : Host) (run : Run) (k : Nat) (pending : List Token) : Act (List Token) := do
  title "restsh"
  failWith (host.prompts (← get) k pending)
  let reading ← readTokens k pending
  failWith (host.takes reading)
  dealBy (tryOn host run k) run k pending reading

theorem dealWith_eq (run : Run) (k : Nat) (pending : List Token) (reading : Reading) :
    dealWith run k pending reading = dealBy (tryStatement run k) run k pending reading := by
  rcases reading with (_ | ⟨t, ts⟩) | message | _ | _
  case tokens.cons =>
    rw [dealWith, dealBy, prepare]
    cases hparse : (parse (t :: ts)).result with
    | error failure => rfl
    | ok e => simp [takeTokens, hparse]
  all_goals rfl

/-- Without objections a round on a host is a round of the loop. -/
theorem roundOn_unlimited (run : Run) (k : Nat) (pending : List Token) :
    roundOn .unlimited run k pending = readRound run k pending := by
  have hprompts (w : World) : Host.unlimited.prompts w k pending = none := by
    simp [Host.prompts, Host.unlimited]
  have htakes (reading : Reading) : Host.unlimited.takes reading = none := by
    rcases reading with (_ | ⟨t, ts⟩) | message | _ | _ <;> rfl
  have htry : tryOn .unlimited run k = tryStatement run k := by
    funext e
    rw [tryOn]
    congr
    funext f
    cases f <;> rfl
  simp only [roundOn, hprompts, htakes, htry, ← dealWith_eq]
  rfl

end Act

/-- **What the host has against a round of the loop**: against the prompt, against what has been read,
or against the report on a failure of the statement. Without a prompt there is no more to a round. -/
def Host.objection (host : Host) (run : Run) (k : Nat) (w : World) (pending : List Token) :
    Option Fault :=
  (host.prompts w k pending).or <| if (w.store.scopeAt k).input ≠ 0 ∨ (w.prompt k pending).isOk then
      (host.takes (w.reading k pending)).or
        (host.reports (w.perform (Act.evaluateNext run k pending)).1)
    else none

namespace Act

/-- The first run fails with the objection; without one it is the second run. -/
structure Heeds {α : Type} (o : Option Fault) (r r' : Except Fault α × World) : Prop where
  fails : ∀ f, o = some f → ∃ w, r = (.error f, w)
  same : o = none → r = r'

section Round

variable {host : Host} {run : Run} {k c : Nat} {w : World} {pending : List Token} {α β : Type}
  {o o' : Option Fault}

theorem Heeds.refl (r : Except Fault α × World) : Heeds none r r :=
  ⟨nofun, fun _ => rfl⟩

theorem Heeds.bind {x y : Act α} (h : Heeds o (w.perform x) (w.perform y)) (f : α → Act β) :
    Heeds o (w.perform (x >>= f)) (w.perform (y >>= f)) := by
  rw [perform_bind, perform_bind]
  refine ⟨fun g hg => ?_, fun hnone => by rw [h.same hnone]⟩
  obtain ⟨w₁, hw₁⟩ := h.fails g hg
  exact ⟨w₁, by rw [hw₁]⟩

/-- One objection comes before another. -/
theorem Heeds.failWith {x : Act α} {r : Except Fault α × World} (h : Heeds o' (w.perform x) r) :
    Heeds (o.or o') (w.perform (failWith o >>= fun _ => x)) r := by
  cases o with
  | none => exact h
  | some f => exact ⟨fun g hg => ⟨w, by cases hg; rfl⟩, nofun⟩

theorem exists_prepare (reading : Reading) (w : World) :
    ∃ r w', w.perform (prepare reading) = (.ok r, w') := by
  rcases reading with (_ | ⟨t, ts⟩) | message | _ | _
  case tokens.cons =>
    rw [prepare]
    cases (parse (t :: ts)).result with
    | error failure => exact ⟨none, w, rfl⟩
    | ok e =>
      obtain ⟨w₁, hw₁, -⟩ := prints_trace
        ("tokenized: [" ++ Text.joinWith ", " ((t :: ts).map Token.shown) ++ "]") w
      obtain ⟨w₂, hw₂, -⟩ := prints_traceAll (parse (t :: ts)).notes w₁
      rw [perform_bind_ok hw₁, perform_bind_ok hw₂]
      exact ⟨_, _, rfl⟩
  all_goals exact ⟨none, w, rfl⟩

/-- Trying a statement on a host is trying it, unless the host objects to the report. -/
theorem perform_tryOn (host : Host) (run : Run) (k : Nat) (e : Expr) (w : World) :
    Heeds (host.reports (w.perform (runStatement run k e)).1) (w.perform (tryOn host run k e))
      (w.perform (tryStatement run k e)) := by
  rw [tryStatement, tryOn, perform_tryCatch, perform_tryCatch]
  rcases w.perform (runStatement run k e) with ⟨g | a, w₁⟩
  · have hreport := Heeds.failWith (o := host.reports (.error g))
      (.refl (w₁.perform (afterFailure k g)))
    rwa [Option.or_none] at hreport
  · exact .refl _

/-- **A round on a host** fails with the objection of the host. Without one it is a round of the
loop. -/
theorem perform_roundOn (host : Host) (run : Run)
    (hfind : w.store.find? k (World.promptName pending) = some c) :
    Heeds (host.objection run k w pending) (w.perform (roundOn host run k pending))
      (w.perform (readRound run k pending)) := by
  obtain ⟨w₀, hw₀, hsaid, hcases⟩ := perform_readTokens_cases hfind
  rw [roundOn, readRound, perform_bind_ok hw₀, perform_bind_ok hw₀, perform_get_bind,
    hsaid.prompts_eq]
  refine Heeds.failWith ?_
  rcases hcases with ⟨f, w₁, ⟨hzero, hprompt⟩, hw₁⟩ | ⟨hpasses, w₁, -, hw₁⟩
  · rw [if_neg (by simp [hzero, hprompt, Except.toBool]), perform_bind, perform_bind, hw₁]
    exact .refl _
  · have hwritten : (w.store.scopeAt k).input ≠ 0 ∨ (w.prompt k pending).isOk := by
      rw [or_iff_not_imp_left, not_not]
      intro hzero
      cases hprompt : w.prompt k pending with
      | ok text => rfl
      | error f => exact absurd ⟨hzero, hprompt⟩ (hpasses f)
    rw [if_pos hwritten, perform_bind_ok hw₁, perform_bind_ok hw₁, dealWith_eq]
    refine Heeds.failWith ?_
    obtain ⟨r, w₂, hw₂⟩ := exists_prepare (w.reading k pending) w₁
    rw [evaluateNext, perform_bind_ok hw₀, perform_bind_ok hw₁, perform_bind_ok hw₂, dealBy,
      dealBy, perform_bind_ok hw₂, perform_bind_ok hw₂]
    cases r with
    | none => exact .refl _
    | some e => exact (perform_tryOn host run k e w₂).bind _

end Round

end Act

end Parley
