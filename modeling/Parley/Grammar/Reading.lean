import Parley.Grammar.Basic

/-!
# From tokens to trees

The reader keeps a stack of items, tokens and trees. A production is tried again and again: what it
has built is put back on the stack, so that a rule that begins with a tree can go on from there, and
the last result stands when no rule fits any more. Of the rules of a production the one that leaves
the fewest items wins, the first of those on a tie.

Rules that begin with a production could call themselves without reading anything. So each try
carries the list of the rules that are under way (`seen`); they are not tried again until a token or
a tree has been taken off the stack.

Input that ends within a rule after a token that opens a construct is unfinished, and the whole
reading stops there: more lines may complete it.
-/

namespace Parley.Grammar

/-- Why there is no tree. -/
inductive Failure where
  /-- No rule fits; `expected` are the parts that were looked for. -/
  | rejected (inside : Option Production) (expected : List Part) (atEnd : Bool)
  /-- The input ended inside a rule in which nothing had been opened. -/
  | ended (inside : Production)
  /-- The input ended inside a construct. -/
  | unfinished (inside : Production)
  /-- A rule fits but cannot build its tree. -/
  | fault (f : Fault)
  /-- The reader's budget is spent. -/
  | spent

/-- The items that are still to be read. -/
abbrev Stack := List Item

/-- The rules under way, by production and position. -/
abbrev Seen := List (Production × Nat)

/-- An attempt to read. -/
abbrev Attempt := Traced Failure

/-- A tree and the items after it. -/
abbrev Found := Expr × Stack

/-- Builds the tree of a rule whose parts have all been matched. -/
def finish (action : Action) (items : List Item) (rest : Stack) : Attempt Found :=
  let built := action.build items
  ⟨match built.result with
    | .ok e => .ok (e, rest)
    | .error f => .error (.fault f), built.notes⟩

/-- The better of two results: the one that leaves fewer items, the older on a tie. -/
def better (old : Option Found) (new : Found) : Found :=
  match old with
  | none => new
  | some o => if o.2.length > new.2.length then new else o

mutual

/-- Reads a production. Nothing can be read off an empty stack. -/
def read : Nat → Production → Stack → Seen → Attempt Found
  | 0, _, _, _ => Traced.fail .spent
  | _ + 1, _, [], _ => Traced.fail (.fault .noStatement)
  | budget + 1, p, item :: stack, seen => extend budget p (item :: stack) seen none

/-- Goes on with a production; `last` is what it has built so far. -/
def extend : Nat → Production → Stack → Seen → Option Found → Attempt Found
  | 0, _, _, _, _ => Traced.fail .spent
  | budget + 1, p, stack, seen, last =>
    (choose budget p stack seen 0 p.rules none [] false).handle
      (fun found => extend budget p (.tree found.1 :: found.2) seen (some found))
      (fun failure =>
        match failure, last with
        | .rejected _ _ _, some found => pure found
        | .ended _, some found =>
          if found.2.isEmpty then pure found else Traced.fail (.rejected (some p) [] true)
        | f, _ => Traced.fail f)

/-- Tries the rules of a production from position `index` on. -/
def choose : Nat → Production → Stack → Seen → Nat → List Rule → Option Found → List Part →
    Bool → Attempt Found
  | 0, _, _, _, _, _, _, _, _ => Traced.fail .spent
  | _ + 1, p, _, _, _, [], best, expected, atEnd =>
    match best with
    | some found => pure found
    | none => Traced.fail (.rejected (some p) expected atEnd)
  | budget + 1, p, stack, seen, index, rule :: rules, best, expected, atEnd =>
    if seen.contains (p, index) then
      choose budget p stack seen (index + 1) rules best expected atEnd
    else
      let attempt :=
        match rule with
        | .via q => read budget q stack ((p, index) :: seen)
        | .parts action parts =>
          matchParts budget p action parts stack ((p, index) :: seen) false []
      attempt.handle
        (fun found =>
          choose budget p stack seen (index + 1) rules (some (better best found)) expected atEnd)
        (fun failure =>
          match failure with
          | .rejected _ parts _ =>
            choose budget p stack seen (index + 1) rules best (expected ++ parts) atEnd
          | .ended _ => choose budget p stack seen (index + 1) rules best expected true
          | f => Traced.fail f)

/-- Matches the parts of a rule; `taken` are the items matched so far, the last one first, and
`opened` says whether one of them opened a construct. -/
def matchParts : Nat → Production → Action → List Part → Stack → Seen → Bool → List Item →
    Attempt Found
  | 0, _, _, _, _, _, _, _ => Traced.fail .spent
  | _ + 1, _, action, [], stack, _, _, taken => finish action taken.reverse stack
  | _ + 1, p, _, _ :: _, [], _, opened, _ =>
    Traced.fail (if opened then .unfinished p else .ended p)
  | budget + 1, p, action, .production q :: parts, stack, seen, opened, taken => do
    let found ← read budget q stack seen
    matchParts budget p action parts found.2 seen opened (.tree found.1 :: taken)
  | budget + 1, p, action, .token kind :: parts, item :: stack, _, opened, taken =>
    match item with
    | .token t =>
      if t.kind = kind then
        matchParts budget p action parts stack [] (opened || kind.opens) (item :: taken)
      else Traced.fail (.rejected (some p) [.token kind] false)
    | .tree _ => Traced.fail (.rejected (some p) [.token kind] false)
  | budget + 1, p, action, .tree shape :: parts, item :: stack, _, opened, taken =>
    match item with
    | .tree e =>
      if shape.fits e then matchParts budget p action parts stack [] opened (item :: taken)
      else Traced.fail (.rejected (some p) [.tree shape] false)
    | .token _ => Traced.fail (.rejected (some p) [.tree shape] false)

end

/-- A budget that is enough for a number of tokens: between two items there are at most as many
tries as there are rules, and each takes at most a few steps for every rule of its production. -/
def budgetFor (tokens : Nat) : Nat :=
  4000 * (tokens + 1)

/-- The tree of a list of tokens, which must be used up. -/
def parse (tokens : List Token) : Attempt Expr := do
  let found ← read (budgetFor tokens.length) .statement (tokens.map .token) []
  if found.2.isEmpty then pure found.1 else Traced.fail (.rejected none [] false)

end Parley.Grammar
