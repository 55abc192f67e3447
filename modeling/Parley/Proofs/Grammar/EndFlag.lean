import Parley.Proofs.Grammar.Failures

/-!
# The end of the input as a flag

One can have each success say whether the input ended while it was read, and have the reader act on
it: a tree that was read to the end of the input is not put back for another try, the flag of any
part is a flag of the whole, and a production that meets the end of the input although it has built
something gives the input up. This is the reader below, with the last of these left open as
`escape`.

None of it ever happens. The flag is raised by nothing but itself, and that the input has ended
before anything was opened is not heard of outside the rule in which it happened. So the reader with
the flag is the reader without it, and `escape` may be anything.
-/

namespace Parley.Grammar

open Traced

/-- A tree, the items after it, and whether the input ended while it was read. -/
structure Flagged where
  tree : Expr
  rest : Stack
  atEnd : Bool

/-- A result with the flag down. -/
def Flagged.down (found : Found) : Flagged :=
  ⟨found.1, found.2, false⟩

/-- The better of two results, as in `better`; it keeps its flag. -/
def betterFlagged (old : Option Flagged) (new : Flagged) : Flagged :=
  match old with
  | none => new
  | some o => if o.rest.length > new.rest.length then new else o

section Reader

variable (escape : Production → Attempt Flagged)

mutual

/-- Reads a production. -/
def readFlagged : Nat → Production → Stack → Seen → Attempt Flagged
  | 0, _, _, _ => fail .spent
  | _ + 1, _, [], _ => fail (.fault .noStatement)
  | budget + 1, p, item :: stack, seen => extendFlagged budget p (item :: stack) seen none

/-- Goes on with a production as long as there is something on the stack. A tree is put back if its
flag is down. -/
def extendFlagged : Nat → Production → Stack → Seen → Option Flagged → Attempt Flagged
  | 0, _, _, _, _ => fail .spent
  | _ + 1, _, [], _, last =>
    match last with
    | some found => pure found
    | none => fail (.fault .noStatement)
  | budget + 1, p, item :: stack, seen, last =>
    (chooseFlagged budget p (item :: stack) seen 0 p.rules none [] false).handle (fun found =>
        let next := if found.atEnd then found.rest else .tree found.tree :: found.rest
        extendFlagged budget p next seen (some found))
      (fun failure =>
        match failure, last with
        | .rejected _ _ _, some found => pure found
        | .ended _, some found => if found.rest.isEmpty then pure found else escape p
        | f, _ => fail f)

/-- Tries the rules of a production from position `index` on. A rule whose flag is up, and one for
which the input was too short, raise the flag of what is rejected. -/
def chooseFlagged : Nat → Production → Stack → Seen → Nat → List Rule → Option Flagged →
    List Part → Bool → Attempt Flagged
  | 0, _, _, _, _, _, _, _, _ => fail .spent
  | _ + 1, p, _, _, _, [], best, expected, atEnd =>
    match best with
    | some found => pure found
    | none => fail (.rejected (some p) expected atEnd)
  | budget + 1, p, stack, seen, index, rule :: rules, best, expected, atEnd =>
    if seen.contains (p, index) then
      chooseFlagged budget p stack seen (index + 1) rules best expected atEnd
    else
      let attempt :=
        match rule with
        | .via q => readFlagged budget q stack ((p, index) :: seen)
        | .parts action parts =>
          matchFlagged budget p action parts stack ((p, index) :: seen) false false []
      attempt.handle (fun found =>
          chooseFlagged budget p stack seen (index + 1) rules (some (betterFlagged best found))
            expected (atEnd || found.atEnd))
        (fun failure =>
          match failure with
          | .rejected _ parts _ =>
            chooseFlagged budget p stack seen (index + 1) rules best (expected ++ parts) atEnd
          | .ended _ => chooseFlagged budget p stack seen (index + 1) rules best expected true
          | f => fail f)

/-- Matches the parts of a rule; `atEnd` says whether the flag of one of them was up. -/
def matchFlagged : Nat → Production → Action → List Part → Stack → Seen → Bool → Bool →
    List Item → Attempt Flagged
  | 0, _, _, _, _, _, _, _, _ => fail .spent
  | _ + 1, _, action, [], stack, _, _, atEnd, taken =>
    (finish action taken.reverse stack).handle
      (fun found => pure ⟨found.1, found.2, atEnd⟩) fail
  | _ + 1, p, _, _ :: _, [], _, opened, _, _ =>
    fail (if opened then .unfinished p else .ended p)
  | budget + 1, p, action, .production q :: parts, item :: stack, seen, opened, atEnd, taken =>
    (readFlagged budget q (item :: stack) seen).handle (fun found =>
        matchFlagged budget p action parts found.rest seen opened (atEnd || found.atEnd)
          (.tree found.tree :: taken))
      fail
  | budget + 1, p, action, .token kind :: parts, item :: stack, _, opened, atEnd, taken =>
    match item with
    | .token t =>
      if t.kind = kind then
        matchFlagged budget p action parts stack [] (opened || kind.opens) atEnd (item :: taken)
      else fail (.rejected (some p) [.token kind] atEnd)
    | .tree _ => fail (.rejected (some p) [.token kind] atEnd)
  | budget + 1, p, action, .tree shape :: parts, item :: stack, _, opened, atEnd, taken =>
    match item with
    | .tree e =>
      if shape.fits e then
        matchFlagged budget p action parts stack [] opened atEnd (item :: taken)
      else fail (.rejected (some p) [.tree shape] atEnd)
    | .token _ => fail (.rejected (some p) [.tree shape] atEnd)

end

/-- The tree of a list of tokens; what is left over is rejected with the flag of the tree. -/
def parseFlagged (tokens : List Token) : Attempt Expr :=
  (readFlagged escape (budgetFor tokens.length) .statement (tokens.map .token) []).handle
    (fun found =>
      if found.rest.isEmpty then pure found.tree
      else fail (.rejected none [] found.atEnd))
    fail

end Reader

/-! ### Attempts with the flag down -/

/-- An attempt without the flag as one with the flag down. -/
def lowered (x : Attempt Found) : Attempt Flagged :=
  ⟨x.result.map .down, x.notes⟩

@[simp] theorem lowered_fail (f : Failure) : lowered (fail f) = fail f := rfl

theorem lowered_eq_handle (x : Attempt Found) :
    lowered x = x.handle (fun found => pure (.down found)) Traced.fail := by
  unfold lowered Traced.handle
  cases x.result <;> simp [Except.map, pure, Traced.pure, Traced.fail]

theorem handle_lowered {β : Type} (x : Attempt Found) (onOk : Flagged → Attempt β)
    (onError : Failure → Attempt β) :
    (lowered x).handle onOk onError = x.handle (fun found => onOk (.down found)) onError := by
  unfold handle lowered
  cases x.result <;> rfl

/-- After an attempt with the flag down one goes on with such attempts. -/
theorem handle_eq_lowered {x : Attempt Flagged} {y : Attempt Found} (h : x = lowered y)
    {onOk : Flagged → Attempt Flagged} {onOk' : Found → Attempt Found}
    {onError : Failure → Attempt Flagged} {onError' : Failure → Attempt Found}
    (hok : ∀ found, onOk (.down found) = lowered (onOk' found))
    (herror : ∀ f, y.result = .error f → onError f = lowered (onError' f)) :
    x.handle onOk onError = lowered (y.handle onOk' onError') := by
  rw [h, handle_lowered]
  cases hy : y.result with
  | ok found => rw [handle_of_ok hy, handle_of_ok hy, hok]; rfl
  | error f => rw [handle_of_error hy, handle_of_error hy, herror f hy]; rfl

theorem betterFlagged_down (old : Option Found) (new : Found) :
    betterFlagged (old.map .down) (.down new) = .down (better old new) := by
  cases old with
  | none => rfl
  | some o =>
    show ite _ _ _ = Flagged.down (ite _ _ _)
    rw [apply_ite Flagged.down]
    rfl

/-! ### The flag stays down -/

section

variable (escape : Production → Attempt Flagged)

mutual

/-- **The reader with the flag is the reader without it**, whatever it does where it would give the
input up. -/
theorem readFlagged_eq (budget p stack seen) :
    readFlagged escape budget p stack seen = lowered (read budget p stack seen) := by
  match budget, stack with
  | 0, _ | _ + 1, [] => rfl
  | budget + 1, item :: stack => exact extendFlagged_eq budget p seen none (List.cons_ne_nil _ _)

theorem extendFlagged_eq (budget p) {stack} (seen last) (hne : stack ≠ []) :
    extendFlagged escape budget p stack seen (last.map .down) =
      lowered (extend budget p stack seen last) := by
  match budget, stack with
  | 0, _ => rfl
  | budget + 1, item :: stack =>
    refine handle_eq_lowered (chooseFlagged_eq budget p (item :: stack) seen 0 p.rules none [] false)
      (fun found => ?_) (fun f hf => ?_)
    · exact extendFlagged_eq budget p seen (some found) (List.cons_ne_nil _ _)
    · -- No production fails for an end of the input that it has not opened.
      cases ordinary_of_choose hne (fun _ hr => hr) hf with
      | rejected | unfinished | spent | digits => cases last <;> rfl

theorem chooseFlagged_eq (budget p stack seen index rules best expected atEnd) :
    chooseFlagged escape budget p stack seen index rules (best.map .down) expected atEnd =
      lowered (choose budget p stack seen index rules best expected atEnd) := by
  match budget, rules with
  | 0, _ => rfl
  | _ + 1, [] => cases best <;> rfl
  | budget + 1, rule :: rules =>
    rw [choose_cons, chooseFlagged.eq_def]
    dsimp only
    split
    · exact chooseFlagged_eq ..
    · refine handle_eq_lowered ?_ (fun found => ?_) (fun f _ => ?_)
      · cases rule with
        | via q => exact readFlagged_eq ..
        | parts action parts => exact matchFlagged_eq ..
      · rw [betterFlagged_down, ← Option.map_some, Flagged.down, Bool.or_false]
        exact chooseFlagged_eq ..
      · cases f with
        | rejected | ended => exact chooseFlagged_eq ..
        | unfinished | fault | spent => rfl

theorem matchFlagged_eq (budget p action parts stack seen opened taken) :
    matchFlagged escape budget p action parts stack seen opened false taken =
      lowered (matchParts budget p action parts stack seen opened taken) := by
  match budget, parts, stack with
  | 0, _, _ | _ + 1, _ :: _, [] => rfl
  | _ + 1, [], stack =>
    rw [lowered_eq_handle]
    rfl
  | budget + 1, .production q :: parts, item :: stack =>
    rw [matchParts, bind_eq_handle]
    · exact handle_eq_lowered (readFlagged_eq ..) (fun found => matchFlagged_eq ..) (fun _ _ => rfl)
    · simp
  | _ + 1, .token _ :: _, .tree _ :: _ | _ + 1, .tree _ :: _, .token _ :: _ => rfl
  | budget + 1, .token kind :: parts, .token t :: stack
  | budget + 1, .tree shape :: parts, .tree e :: stack =>
    rw [matchFlagged, matchParts, apply_ite lowered, lowered_fail, matchFlagged_eq]

end

theorem parseFlagged_eq (tokens : List Token) : parseFlagged escape tokens = parse tokens := by
  rw [parseFlagged, readFlagged_eq, handle_lowered, parse, bind_eq_handle]
  rfl

end

theorem atEnd_eq_false_of_lowered {x : Attempt Found} {found : Flagged}
    (h : (lowered x).result = .ok found) : found.atEnd = false := by
  unfold lowered at h
  cases hx : x.result with
  | ok found' =>
    rw [hx] at h
    cases h
    rfl
  | error f =>
    rw [hx] at h
    cases h

/-- **What can become of a list of tokens.** If there are tokens, and no integer among them has too
many digits, then they are one tree; or the input ends inside a construct; or they are rejected, and
not for want of input. The reader with the flag gives the same for all that it might do where it
meets the end of the input with something built, and no production and no choice among its rules
gives a result with the flag up. -/
theorem parse_outcomes (tokens : List Token) (hne : tokens ≠ [])
    (hdigits : ∀ t ∈ tokens, t.kind = .integer → t.text.length ≤ Number.digitLimit) :
    ((∃ e, (parse tokens).result = .ok e) ∨
      (∃ inside, (parse tokens).result = .error (.unfinished inside)) ∨
      ∃ inside expected, (parse tokens).result = .error (.rejected inside expected false)) ∧
    ∀ escape : Production → Attempt Flagged, parseFlagged escape tokens = parse tokens ∧
      ∀ (budget : Nat) (p : Production) (stack : Stack) (seen : Seen) (found : Flagged),
        ((readFlagged escape budget p stack seen).result = .ok found → found.atEnd = false) ∧
        ((chooseFlagged escape budget p stack seen 0 p.rules none [] false).result = .ok found →
          found.atEnd = false) := by
  constructor
  · cases h : (parse tokens).result with
    | ok e => exact .inl ⟨e, rfl⟩
    | error f =>
      rcases parse_ordinary hne h with ⟨inside, expected, rfl⟩ | ⟨inside, rfl⟩ |
        ⟨t, ht, hkind, hlen, -⟩
      · exact .inr (.inr ⟨inside, expected, rfl⟩)
      · exact .inr (.inl ⟨inside, rfl⟩)
      · exact absurd (hdigits t ht hkind) (Nat.not_le_of_lt hlen)
  · intro escape
    refine ⟨parseFlagged_eq escape tokens, fun budget p stack seen found => ⟨fun h => ?_,
      fun h => ?_⟩⟩
    · rw [readFlagged_eq] at h
      exact atEnd_eq_false_of_lowered h
    · have hchoose : chooseFlagged escape budget p stack seen 0 p.rules none [] false =
          lowered (choose budget p stack seen 0 p.rules none [] false) :=
        chooseFlagged_eq escape budget p stack seen 0 p.rules none [] false
      rw [hchoose] at h
      exact atEnd_eq_false_of_lowered h

/-- An array that is not closed is unfinished, with the flag and without it. -/
theorem parse_outcomes_open_array :
    (parse [⟨.leftBracket, "["⟩, ⟨.integer, "1"⟩]).result = .error (.unfinished .array) ∧
    ((∃ e, (parse [⟨.leftBracket, "["⟩, ⟨.integer, "1"⟩]).result = .ok e) ∨
      (∃ inside, (parse [⟨.leftBracket, "["⟩, ⟨.integer, "1"⟩]).result =
        .error (.unfinished inside)) ∨
      ∃ inside expected, (parse [⟨.leftBracket, "["⟩, ⟨.integer, "1"⟩]).result =
        .error (.rejected inside expected false)) ∧
    ∀ escape, parseFlagged escape [⟨.leftBracket, "["⟩, ⟨.integer, "1"⟩] =
      parse [⟨.leftBracket, "["⟩, ⟨.integer, "1"⟩] :=
  have h := parse_outcomes [⟨.leftBracket, "["⟩, ⟨.integer, "1"⟩] (by simp) (by decide)
  ⟨rfl, h.1, fun escape => (h.2 escape).1⟩

end Parley.Grammar
