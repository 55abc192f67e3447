import Parley.Proofs.Grammar.Derivation
import Parley.Proofs.Grammar.Outcome

/-!
# Input that is refused although more would mend it

Input that ends inside a construct is taken to go on, if the rule that is under way has taken a
token that opens something. Two rules come to a place where it has to go on without having taken
such a token themselves: an operation after its operator, which is a production of its own, and an
argument after its name. Input that ends there dangles, and it is refused.

That the reader stops nowhere else on such input depends on all that it tries. Tokens alone say what
it can try at a place: whether an expression, an argument or the parameters of a closure can begin
there depends on what is open and on the last token. A `Scan` keeps that much of the tokens before
the place. `Flows` says what a rule needs to be in step with it, part by part, and all rules are
(`rules_flow`). So every reading keeps what is open (`Reads.scan`), and so does everything else that
the reader tries.
-/

namespace Parley.Grammar

open List

/-! ### Scanning tokens -/

/-- What tokens can stand in: brackets, braces, the parentheses of a call or those around an
expression, and the parameters of a closure. -/
inductive Enclosure where
  | bracket
  | brace
  | call
  | group
  | params
  deriving DecidableEq, Repr

/-- Can an expression end with such a token? -/
def endsTree : Token.Kind → Bool
  | .name | .text | .decimal | .integer | .rightParen | .rightBrace | .rightBracket => true
  | _ => false

/-- What a list of tokens leads up to. -/
structure Scan where
  /-- What is open, the innermost first. -/
  enclosing : List Enclosure
  last : Option Token.Kind
  /-- Is the last token the name of an argument? -/
  named : Bool

namespace Scan

def start : Scan := ⟨[], none, false⟩

/-- Is an argument to follow? -/
def expectsArg (s : Scan) : Bool :=
  s.enclosing.head? = some .brace && (s.last = some .leftBrace || s.last = some .comma) ||
    s.enclosing.head? = some .call && (s.last = some .leftParen || s.last = some .comma)

def afterTree (s : Scan) : Bool :=
  s.last.any endsTree

/-- One token more. A parenthesis after an expression is that of a call, and the first dot ends the
parameters of a closure. -/
def step (s : Scan) (kind : Token.Kind) : Scan where
  enclosing :=
    match kind with
    | .leftBracket => .bracket :: s.enclosing
    | .leftBrace => .brace :: s.enclosing
    | .leftParen => (if s.afterTree then .call else .group) :: s.enclosing
    | .backslash => .params :: s.enclosing
    | .rightBracket | .rightBrace | .rightParen => s.enclosing.tail
    | .dot => if s.enclosing.head? = some .params then s.enclosing.tail else s.enclosing
    | _ => s.enclosing
  last := some kind
  named := kind = .name && s.expectsArg

def run (s : Scan) (tokens : List Token) : Scan :=
  tokens.foldl (fun s t => s.step t.kind) s

@[simp] theorem run_nil (s : Scan) : s.run [] = s := rfl

@[simp] theorem run_cons (s : Scan) (t : Token) (tokens : List Token) :
    s.run (t :: tokens) = (s.step t.kind).run tokens := rfl

theorem run_append (s : Scan) (tokens tokens' : List Token) :
    s.run (tokens ++ tokens') = (s.run tokens).run tokens' :=
  foldl_append

/-- The last token is an operator or the name of an argument. -/
def dangles (s : Scan) : Bool :=
  s.named || s.last = some .operator

/-- An expression can begin here. -/
def plain (s : Scan) : Prop :=
  s.expectsArg = false ∧ s.afterTree = false ∧ s.enclosing.head? ≠ some .params

end Scan

variable {p q : Production} {onTree : Bool} {s s' : Scan} {tokens : List Token} {stack : Stack}
  {e : Expr}

/-! ### Productions and rules -/

/-- The productions that can begin where an expression can. -/
def Production.ordinary : Production → Bool
  | .arg | .argList | .paramList | .elementList | .operator => false
  | _ => true

/-- Where a production can begin. -/
def Production.startsAt (s : Scan) : Production → Prop
  | .arg | .argList => s.expectsArg = true
  | .paramList => s.last = some .backslash ∧ s.enclosing.head? = some .params
  | .elementList => s.plain ∧ s.enclosing.head? = some .bracket
  | .operator => s.enclosing.head? ≠ some .params
  | _ => s.plain

/-- Where a production can go on after a tree. -/
def Production.goesOnAt (s : Scan) : Production → Prop
  | .argList => s.enclosing.head? = some .brace ∨ s.enclosing.head? = some .call
  | .paramList => s.enclosing.head? = some .params
  | .elementList => s.enclosing.head? = some .bracket
  | _ => s.enclosing.head? ≠ some .params

/-- Where a production can be tried, on a tree or on a token. -/
def Production.allowedAt (p : Production) (onTree : Bool) (s : Scan) : Prop :=
  if onTree then p.goesOnAt s else p.startsAt s

/-- The productions that need not end as an expression does. -/
def Production.bare : Production → Bool
  | .operator | .help | .exit | .statement => true
  | _ => false

/-- What a production makes of the scan: it closes what it opens, and nothing but an operator
dangles. -/
@[mk_iff]
structure Closes (p : Production) (s s' : Scan) : Prop where
  enclosing : s'.enclosing = s.enclosing
  afterTree : p.bare = false → s'.afterTree = true
  operator : p = .operator → s'.last = some .operator
  dangles : p ≠ .operator → s'.dangles = false

/-- What the parts of a rule need at a place to end as `post` says, whatever the productions among
them take. Where something dangles after a part, nothing may have been opened, or no parts are left. -/
def Flows (post : Scan → Prop) : List Part → Bool → Bool → Scan → Prop
  | [], onTree, _, s => onTree = false ∧ post s
  | .production q :: parts, onTree, opened, s =>
    q.allowedAt onTree s ∧ (q = .operator → opened = false) ∧
      ∀ s', Closes q s s' → Flows post parts false opened s'
  | .token kind :: parts, false, opened, s =>
    (kind = .name → s.expectsArg = true → opened = false) ∧ (kind = .operator → parts = []) ∧
      (kind = .colon → s.named = true) ∧
      Flows post parts false (opened || kind.opens) (s.step kind)
  | .tree _ :: parts, true, opened, s => Flows post parts false opened s
  | .token _ :: _, true, _, _ | .tree _ :: _, false, _, _ => True

theorem Production.allowedAt_of_ordinary (hp : p.ordinary = true) (onTree : Bool) (s : Scan) :
    p.allowedAt onTree s ↔ if onTree then s.enclosing.head? ≠ some .params else s.plain := by
  cases p <;> first | exact Iff.rfl | cases hp

/-- A production can go on after what it has taken. -/
theorem Closes.goesOnAt (h : Closes p s s') (hs : p.allowedAt onTree s) : p.allowedAt true s' := by
  have henclosing := h.enclosing
  cases p <;> cases onTree <;>
    simp only [Production.allowedAt, Production.startsAt, Production.goesOnAt, Scan.plain] at hs ⊢ <;>
    grind [Scan.expectsArg]

section

variable (hrule : Rule.via q ∈ p.rules)

include hrule

theorem via_ordinary :
    p.ordinary = true ∧ q.ordinary = true ∧ (p.bare = false → q.bare = false) := by
  have hall : ∀ p ∈ Production.all, ∀ q ∈ Production.all, Rule.via q ∈ p.rules →
      p.ordinary = true ∧ q.ordinary = true ∧ (p.bare = false → q.bare = false) := by
    decide
  exact hall p (mem_all p) q (mem_all q) hrule

theorem via_allowedAt (h : p.allowedAt onTree s) : q.allowedAt onTree s := by
  obtain ⟨hp, hq, -⟩ := via_ordinary hrule
  rw [Production.allowedAt_of_ordinary hq]
  exact (Production.allowedAt_of_ordinary hp onTree s).mp h

theorem Closes.via (h : Closes q s s') : Closes p s s' := by
  obtain ⟨hp, hq, hbare⟩ := via_ordinary hrule
  refine ⟨h.enclosing, fun hp' => h.afterTree (hbare hp'), ?_, fun _ => h.dangles ?_⟩
  · rintro rfl
    cases hp
  · rintro rfl
    cases hq

end

/-- A rule of parts is in step with the scan. -/
def Rule.InStep (p : Production) (onTree : Bool) (s : Scan) : Rule → Prop
  | .via _ => True
  | .parts _ body => Flows (Closes p s) body onTree false s

/-- **All rules are in step with the scan.** For each of them this is a matter of what is open and of
the last token. -/
theorem rules_inStep (h : p.allowedAt onTree s) : ∀ rule ∈ p.rules, rule.InStep p onTree s := by
  have hparams (hhead : s.enclosing.head? = some .brace ∨ s.enclosing.head? = some .call) :
      s.enclosing.head? ≠ some .params := by
    rcases hhead with hhead | hhead <;> simp [hhead]
  cases p <;> cases onTree <;>
    simp [Production.rules, Production.allowedAt, Production.startsAt, Production.goesOnAt,
      Scan.plain, Rule.InStep, Flows, Token.Kind.opens, Scan.step, Scan.expectsArg, Scan.afterTree,
      Scan.dangles, endsTree, closes_iff, Production.bare] at h ⊢ <;>
    simp +contextual [h, hparams, endsTree]
  case arg.false => exact hparams (h.imp And.left And.left)

theorem flows_of_rule {action : Action} {parts : List Part}
    (hrule : Rule.parts action parts ∈ p.rules) (h : p.allowedAt onTree s) :
    Flows (Closes p s) parts onTree false s :=
  rules_inStep h _ hrule

/-! ### Readings -/

/-- A stack of tokens, or with a tree before them. -/
inductive Shows : Bool → List Token → Stack → Prop
  | tokens (tokens : List Token) : Shows false tokens (tokens.map .token)
  | tree (e : Expr) (tokens : List Token) : Shows true tokens (.tree e :: tokens.map .token)

theorem Shows.push (h : Shows false tokens stack) (e : Expr) :
    Shows true tokens (.tree e :: stack) := by
  cases h
  exact .tree e tokens

theorem Shows.of_token {t : Token} (h : Shows onTree tokens (.token t :: stack)) :
    onTree = false ∧ ∃ tokens', tokens = t :: tokens' ∧ Shows false tokens' stack := by
  generalize hstack : Item.token t :: stack = all at h
  cases h with
  | tree => cases hstack
  | tokens =>
    cases tokens with
    | nil => cases hstack
    | cons t' tokens =>
      cases hstack
      exact ⟨rfl, tokens, rfl, .tokens tokens⟩

theorem Shows.of_tree (h : Shows onTree tokens (.tree e :: stack)) :
    onTree = true ∧ Shows false tokens stack := by
  generalize hstack : Item.tree e :: stack = all at h
  cases h with
  | tree => cases hstack; exact ⟨rfl, .tokens tokens⟩
  | tokens => cases tokens <;> cases hstack

/-- Every colon comes after the name of an argument. -/
def ColonsFit : Scan → List Token → Prop
  | _, [] => True
  | s, t :: tokens => (t.kind = .colon → s.named = true) ∧ ColonsFit (s.step t.kind) tokens

theorem colonsFit_append {tokens' : List Token} :
    ColonsFit s (tokens ++ tokens') ↔ ColonsFit s tokens ∧ ColonsFit (s.run tokens) tokens' := by
  induction tokens generalizing s with
  | nil => simp [ColonsFit]
  | cons t tokens ih => simp [ColonsFit, ih, and_assoc]

theorem Closes.trans {s'' : Scan} (h : Closes p s s') (h' : Closes p s' s'') : Closes p s s'' :=
  ⟨h'.enclosing.trans h.enclosing, h'.afterTree, h'.operator, h'.dangles⟩

/-- Tokens are taken up to the rest, and lead to where `post` holds. -/
def TakenUp (post : Scan → Prop) (s : Scan) (tokens : List Token) (rest : Stack) : Prop :=
  ∃ taken left, tokens = taken ++ left ∧ Shows false left rest ∧ post (s.run taken) ∧
    ColonsFit s taken

mutual

/-- **A reading closes what it opens**, and its colons come after names of arguments. -/
theorem Reads.scan {p stack rest e onTree tokens s} :
    Reads p stack e rest → Shows onTree tokens stack → p.allowedAt onTree s →
      TakenUp (Closes p s) s tokens rest
  | .once h, hstack, hs => h.scan hstack hs
  | .again (e := e₁) h₁ h₂, hstack, hs => by
    obtain ⟨taken₁, left₁, rfl, hmiddle, hcloses₁, hfit₁⟩ := h₁.scan hstack hs
    obtain ⟨taken₂, left₂, rfl, hrest, hcloses₂, hfit₂⟩ :=
      h₂.scan (hmiddle.push e₁) (hcloses₁.goesOnAt hs)
    refine ⟨taken₁ ++ taken₂, left₂, (append_assoc _ _ _).symm, hrest, ?_,
      colonsFit_append.mpr ⟨hfit₁, hfit₂⟩⟩
    rw [Scan.run_append]
    exact hcloses₁.trans hcloses₂

theorem Picks.scan {p stack rest e onTree tokens s} :
    Picks p stack e rest → Shows onTree tokens stack → p.allowedAt onTree s →
      TakenUp (Closes p s) s tokens rest
  | .via hrule h, hstack, hs => by
    obtain ⟨taken, left, htokens, hrest, hcloses, hfit⟩ := h.scan hstack (via_allowedAt hrule hs)
    exact ⟨taken, left, htokens, hrest, hcloses.via hrule, hfit⟩
  | .parts hrule h _, hstack, hs => h.scan hstack (flows_of_rule hrule hs)

theorem Takes.scan {parts stack rest items onTree opened tokens s post} :
    Takes parts stack items rest → Shows onTree tokens stack → Flows post parts onTree opened s →
      TakenUp post s tokens rest
  | .nil, hstack, hs => by
    obtain ⟨rfl, hpost⟩ := hs
    exact ⟨[], tokens, rfl, hstack, hpost, trivial⟩
  | .production h₁ h₂, hstack, hs => by
    obtain ⟨hallowed, -, hnext⟩ := hs
    obtain ⟨taken₁, left₁, rfl, hmiddle, hcloses, hfit₁⟩ := h₁.scan hstack hallowed
    obtain ⟨taken₂, left₂, rfl, hrest, hpost, hfit₂⟩ := h₂.scan hmiddle (hnext _ hcloses)
    refine ⟨taken₁ ++ taken₂, left₂, (append_assoc _ _ _).symm, hrest, ?_,
      colonsFit_append.mpr ⟨hfit₁, hfit₂⟩⟩
    rwa [Scan.run_append]
  | @Takes.token t _ _ _ _ h, hstack, hs => by
    obtain ⟨rfl, tokens, rfl, hnext⟩ := hstack.of_token
    obtain ⟨-, -, hcolon, hflows⟩ := hs
    obtain ⟨taken, left, rfl, hrest, hpost, hfit⟩ := h.scan hnext hflows
    exact ⟨t :: taken, left, rfl, hrest, hpost, hcolon, hfit⟩
  | .tree _ h, hstack, hs => by
    obtain ⟨rfl, hnext⟩ := hstack.of_tree
    exact h.scan hnext hs

end

theorem start_allowed : Production.statement.allowedAt false .start := by
  simp [Production.allowedAt, Production.startsAt, Scan.plain, Scan.start, Scan.expectsArg,
    Scan.afterTree]

/-- What the tokens of a statement lead up to. -/
theorem scan_of_parse (h : (parse tokens).result = .ok e) :
    (Scan.start.run tokens).dangles = false ∧ ColonsFit .start tokens := by
  obtain ⟨taken, left, rfl, hrest, hcloses, hfit⟩ :=
    (reads_of_parse h).scan (.tokens tokens) start_allowed
  generalize hnil : ([] : Stack) = rest at hrest
  cases hrest
  obtain rfl := map_eq_nil_iff.mp hnil.symm
  rw [append_nil]
  exact ⟨hcloses.dangles (by decide), hfit⟩

/-- A colon follows the name of an argument, and nothing else. -/
theorem named_of_colon {more : List Token} {colon : Token}
    (h : (parse (tokens ++ colon :: more)).result = .ok e) (hcolon : colon.kind = .colon) :
    (Scan.start.run tokens).named = true :=
  (colonsFit_append.mp (scan_of_parse h).2).2.1 hcolon

/-! ### Everything that is tried -/

/-- Whatever the reader tries on the tokens `all` is in step with the scan. Where something dangles
inside a rule, nothing has been opened or no parts are left. -/
def InStep (all : List Token) : Visit → Prop
  | .production p stack => ∃ before after onTree, all = before ++ after ∧ Shows onTree after stack ∧
      p.allowedAt onTree (Scan.start.run before)
  | .parts parts stack opened => ∃ before after onTree post, all = before ++ after ∧
      Shows onTree after stack ∧ Flows post parts onTree opened (Scan.start.run before) ∧
      ((Scan.start.run before).dangles = true → opened = false ∨ parts = [])

theorem inStep_leads {all : List Token} {v v' : Visit} (h : InStep all v) (hleads : v.Leads v') :
    InStep all v' := by
  cases hleads with
  | via stack hrule =>
    obtain ⟨before, after, onTree, rfl, hstack, hallowed⟩ := h
    exact ⟨before, after, onTree, rfl, hstack, via_allowedAt hrule hallowed⟩
  | rule stack hrule =>
    obtain ⟨before, after, onTree, rfl, hstack, hallowed⟩ := h
    exact ⟨before, after, onTree, _, rfl, hstack, flows_of_rule hrule hallowed, fun _ => .inl rfl⟩
  | again hpick =>
    obtain ⟨before, after, onTree, rfl, hstack, hallowed⟩ := h
    obtain ⟨taken, left, rfl, hrest, hcloses, -⟩ := hpick.scan hstack hallowed
    refine ⟨before ++ taken, left, true, (append_assoc _ _ _).symm, hrest.push _, ?_⟩
    rw [Scan.run_append]
    exact hcloses.goesOnAt hallowed
  | enter q parts opened _ =>
    obtain ⟨before, after, onTree, post, rfl, hstack, hflows, -⟩ := h
    exact ⟨before, after, onTree, rfl, hstack, hflows.1⟩
  | leave parts opened hreads =>
    obtain ⟨before, after, onTree, post, rfl, hstack, ⟨hallowed, hoperator, hnext⟩, -⟩ := h
    obtain ⟨taken, left, rfl, hrest, hcloses, -⟩ := hreads.scan hstack hallowed
    refine ⟨before ++ taken, left, false, post, (append_assoc _ _ _).symm, hrest, ?_, ?_⟩
    · rw [Scan.run_append]
      exact hnext _ hcloses
    · rw [Scan.run_append]
      intro hdangles
      by_cases hq : ‹Production› = .operator
      · exact .inl (hoperator hq)
      · rw [hcloses.dangles hq] at hdangles
        cases hdangles
  | token t parts stack opened =>
    obtain ⟨before, after, onTree, post, rfl, hstack, hflows, -⟩ := h
    obtain ⟨rfl, after, rfl, hnext⟩ := hstack.of_token
    obtain ⟨hname, hoperator, -, hflows⟩ := hflows
    refine ⟨before ++ [t], after, false, post, by simp, hnext, ?_, ?_⟩
    · rwa [Scan.run_append]
    · rw [Scan.run_append, Scan.run_cons, Scan.run_nil]
      simp only [Scan.dangles, Scan.step, Bool.or_eq_true, Bool.and_eq_true, decide_eq_true_eq,
        Option.some.injEq]
      rintro (⟨hkind, hexpects⟩ | hkind)
      · left
        rw [hname hkind hexpects, hkind]
        rfl
      · exact .inr (hoperator hkind)
  | tree parts stack opened _ =>
    obtain ⟨before, after, onTree, post, rfl, hstack, hflows, hdangles⟩ := h
    obtain ⟨rfl, hnext⟩ := hstack.of_tree
    refine ⟨before, after, false, post, rfl, hnext, hflows, fun h => ?_⟩
    exact .inl ((hdangles h).resolve_right (cons_ne_nil _ _))

/-- The reader does not stop for more input if the input dangles. -/
theorem not_stops_of_dangles (h : (Scan.start.run tokens).dangles = true) :
    ¬ Visit.Stops (.production .statement (tokens.map .token)) := by
  refine Visit.not_stops_of_invariant (InStep tokens) (fun _ _ => inStep_leads) ?_
    ⟨[], tokens, false, rfl, .tokens tokens, start_allowed⟩
  rintro part parts ⟨before, after, onTree, post, rfl, hstack, -, hdangles⟩
  generalize hnil : ([] : Stack) = stack at hstack
  cases hstack with
  | tree => cases hnil
  | tokens =>
    obtain rfl := map_eq_nil_iff.mp hnil.symm
    rw [append_nil] at h
    rcases hdangles h with hopened | hparts
    · cases hopened
    · cases hparts

/-- **Input that dangles is refused.** -/
theorem parse_dangling
    (hdigits : ∀ t ∈ tokens, t.kind = .integer → t.text.length ≤ Number.digitLimit)
    (h : (Scan.start.run tokens).dangles = true) :
    ∃ inside expected, (parse tokens).result = .error (.rejected inside expected false) := by
  have hne : tokens ≠ [] := by
    rintro rfl
    cases h
  cases hparse : (parse tokens).result with
  | ok e =>
    rw [(scan_of_parse hparse).1] at h
    cases h
  | error f =>
    rcases parse_ordinary hne hparse with ⟨inside, expected, rfl⟩ | ⟨inside, rfl⟩ |
      ⟨t, ht, hkind, hlen, -⟩
    · exact ⟨inside, expected, rfl⟩
    · exact absurd (stops_of_parse hne hparse) (not_stops_of_dangles h)
    · exact absurd (hdigits t ht hkind) (Nat.not_le_of_lt hlen)

end Parley.Grammar
