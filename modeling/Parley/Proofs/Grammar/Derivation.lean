import Parley.Proofs.Grammar.Success

/-!
# Derivations

The trees of derivation of the grammar, and the soundness of the reader: a statement that is read
has a derivation whose leaves are its tokens.

A derivation carries what makes it one. Its nodes are rules of the grammar, its children fit the
parts of their rule one by one, and its index is the tree that the rules build. The only thing left
to compute are its leaves.

The reader does not build derivations from left to right: it puts what it has built back on the
stack, and a part that asks for a tree takes one whatever production it comes from. So the
invariant is about stacks: `Yields stack tokens` says that every tree on the stack has a derivation,
and that `tokens` is what is left when every tree is replaced by its leaves. Reading cuts a
derivation off the front of those tokens and neither drops nor moves any of them.
-/

namespace Parley.Grammar

mutual

/-- A derivation of a tree from a production: another production that is a rule of it, or a rule
with children for its parts. -/
inductive Derivation : Production → Expr → Type
  | via {p q : Production} {e : Expr} (rule : Rule.via q ∈ p.rules) (child : Derivation q e) :
      Derivation p e
  | parts {p : Production} {action : Action} {parts : List Part} {items : List Item} {e : Expr}
      (rule : Rule.parts action parts ∈ p.rules) (children : Children parts items)
      (built : (action.build items).result = .ok e) : Derivation p e

/-- The children for the parts of a rule, and the items that they hand to the rule. A part that asks
for a tree of some shape is content with the derivation of such a tree from any production. -/
inductive Children : List Part → List Item → Type
  | nil : Children [] []
  | production {q : Production} {e : Expr} {parts : List Part} {items : List Item}
      (child : Derivation q e) (rest : Children parts items) :
      Children (.production q :: parts) (.tree e :: items)
  | token {parts : List Part} {items : List Item} (t : Token) (rest : Children parts items) :
      Children (.token t.kind :: parts) (.token t :: items)
  | tree {shape : Shape} {q : Production} {e : Expr} {parts : List Part} {items : List Item}
      (fits : shape.fits e = true) (child : Derivation q e) (rest : Children parts items) :
      Children (.tree shape :: parts) (.tree e :: items)

end

mutual

/-- The leaves of a derivation, from left to right. -/
def Derivation.leaves {p : Production} {e : Expr} : Derivation p e → List Token
  | .via _ child => child.leaves
  | .parts _ children _ => children.leaves

/-- The leaves of children, from left to right. -/
def Children.leaves {parts : List Part} {items : List Item} : Children parts items → List Token
  | .nil => []
  | .production child rest => child.leaves ++ rest.leaves
  | .token t rest => t :: rest.leaves
  | .tree _ child rest => child.leaves ++ rest.leaves

end

/-- The tokens that a stack stands for: every tree on it stands for the leaves of a derivation. -/
inductive Yields : Stack → List Token → Prop
  | nil : Yields [] []
  | token {stack : Stack} {tokens : List Token} (t : Token) :
      Yields stack tokens → Yields (.token t :: stack) (t :: tokens)
  | tree {p : Production} {e : Expr} {stack : Stack} {tokens : List Token} (d : Derivation p e) :
      Yields stack tokens → Yields (.tree e :: stack) (d.leaves ++ tokens)

theorem yields_map_token (tokens : List Token) : Yields (tokens.map .token) tokens := by
  induction tokens with
  | nil => exact .nil
  | cons t tokens ih => exact .token t ih

theorem Yields.eq_nil {tokens : List Token} (h : Yields [] tokens) : tokens = [] := by
  cases h
  rfl

/-! ### Reading cuts derivations off the stack -/

mutual

/-- A success of the reader cuts a derivation off the front of the tokens. What has been put back on
the stack stands for the same tokens as before. -/
theorem Reads.derivation {p : Production} {stack rest : Stack} {e : Expr} {tokens : List Token} :
    Reads p stack e rest → Yields stack tokens → ∃ (d : Derivation p e) (tokens' : List Token),
        tokens = d.leaves ++ tokens' ∧ Yields rest tokens'
  | .once h, hstack => h.derivation hstack
  | .again h₁ h₂, hstack => by
    obtain ⟨d₁, tokens₁, rfl, hmiddle⟩ := h₁.derivation hstack
    exact h₂.derivation (.tree d₁ hmiddle)

theorem Picks.derivation {p : Production} {stack rest : Stack} {e : Expr} {tokens : List Token} :
    Picks p stack e rest → Yields stack tokens → ∃ (d : Derivation p e) (tokens' : List Token),
        tokens = d.leaves ++ tokens' ∧ Yields rest tokens'
  | .via hrule h, hstack => by
    obtain ⟨d, tokens', rfl, hrest⟩ := h.derivation hstack
    exact ⟨.via hrule d, tokens', rfl, hrest⟩
  | .parts hrule h hbuild, hstack => by
    obtain ⟨children, tokens', rfl, hrest⟩ := h.children hstack
    exact ⟨.parts hrule children hbuild, tokens', rfl, hrest⟩

theorem Takes.children {parts : List Part} {stack rest : Stack} {items : List Item}
    {tokens : List Token} :
    Takes parts stack items rest → Yields stack tokens →
      ∃ (children : Children parts items) (tokens' : List Token),
        tokens = children.leaves ++ tokens' ∧ Yields rest tokens'
  | .nil, hstack => ⟨.nil, tokens, rfl, hstack⟩
  | .production h₁ h₂, hstack => by
    obtain ⟨d, tokens₁, rfl, hmiddle⟩ := h₁.derivation hstack
    obtain ⟨children, tokens', rfl, hrest⟩ := h₂.children hmiddle
    exact ⟨.production d children, tokens', by rw [Children.leaves, List.append_assoc], hrest⟩
  | @Takes.token t _ _ _ _ h, hstack => by
    cases hstack with
    | token _ hstack =>
      obtain ⟨children, tokens', rfl, hrest⟩ := h.children hstack
      exact ⟨.token t children, tokens', by rw [Children.leaves, List.cons_append], hrest⟩
  | .tree hfits h, hstack => by
    cases hstack with
    | tree d hstack =>
      obtain ⟨children, tokens', rfl, hrest⟩ := h.children hstack
      exact ⟨.tree hfits d children, tokens', by rw [Children.leaves, List.append_assoc], hrest⟩

end

/-- A success of the parser is a success of the reader that leaves nothing. -/
theorem reads_of_parse {tokens : List Token} {e : Expr} (h : (parse tokens).result = .ok e) :
    Reads .statement (tokens.map .token) e [] := by
  rw [parse_result] at h
  split at h
  · next e' hread =>
    cases h
    exact reads_of_read hread
  · cases h
  · cases h

/-- **Soundness of the reader.** A statement that is read has a derivation from the grammar: its
leaves are the tokens of the statement, each once and in order, and its rules build the tree. -/
theorem parse_derivation (tokens : List Token) (e : Expr) (h : (parse tokens).result = .ok e) :
    ∃ d : Derivation .statement e, d.leaves = tokens := by
  obtain ⟨d, tokens', htokens, hrest⟩ := (reads_of_parse h).derivation (yields_map_token tokens)
  obtain rfl := hrest.eq_nil
  exact ⟨d, by rw [htokens, List.append_nil]⟩

/-- The tokens of `a.b ; c`: here the tree of `a.b` is put back and taken by a part that asks for
any tree. -/
theorem parse_derivation_block :
    (parse [⟨.name, "a"⟩, ⟨.dot, "."⟩, ⟨.name, "b"⟩, ⟨.semicolon, ";"⟩, ⟨.name, "c"⟩]).result =
        .ok (.block [.member (.lookup "a") "b", .lookup "c"]) ∧
      ∃ d : Derivation .statement (.block [.member (.lookup "a") "b", .lookup "c"]), d.leaves =
          [⟨.name, "a"⟩, ⟨.dot, "."⟩, ⟨.name, "b"⟩, ⟨.semicolon, ";"⟩, ⟨.name, "c"⟩] :=
  ⟨rfl, parse_derivation _ _ rfl⟩

end Parley.Grammar
