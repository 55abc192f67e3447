import Parley.Proofs.Grammar.Declarations
import Parley.Proofs.Grammar.Interrupted

/-!
# What can be assigned to

The left side of an assignment is a name, a declared name, or a property of something, with any
number of further properties. If nothing follows it, then it is not an assignment; but it is a
statement all the same, because the reader takes all of it as an expression or, after `let`, as a
declaration and then as an expression (`statement_finishes`).
-/

namespace Parley.Grammar

open List

variable {rest stack : Stack} {e : Expr} {p : Production} {x : Nat → Attempt Found} {b : Nat}

/-! ### Properties -/

/-- Names with points before them, and then `rest`. -/
inductive Dotted (rest : Stack) : Stack → Prop
  | nil : Dotted rest rest
  | cons {dot name : Token} {stack : Stack} (hdot : dot.kind = .dot) (hname : name.kind = .name)
      (h : Dotted rest stack) : Dotted rest (.token dot :: .token name :: stack)

theorem Dotted.trans {middle : Stack} (h : Dotted rest middle) (h' : Dotted middle stack) :
    Dotted rest stack := by
  induction h' with
  | nil => exact h
  | cons hdot hname _ ih => exact .cons hdot hname ih

theorem Dotted.clear (h : Dotted [] stack) : Clear [] stack := by
  cases h with
  | nil => exact .inl rfl
  | cons => exact .inr ⟨_, _, rfl, not_mem_nil⟩

/-- What holds of the first round of a production and is kept by the others holds of all of them. -/
theorem Reads.rounds {M : Stack → Stack → Prop} {p : Production} {stack rest : Stack} {e : Expr} :
    Reads p stack e rest → (∀ {stack e rest}, Picks p stack e rest → M stack rest) →
    (∀ {stack middle rest e e'}, M stack middle → Picks p (.tree e :: middle) e' rest →
      M stack rest) → M stack rest
  | .once h, hfirst, _ => hfirst h
  | .again h₁ h₂, hfirst, hnext => hnext (h₁.rounds hfirst hnext) h₂

theorem Takes.of_tree {shape : Shape} {parts : List Part} {items : List Item}
    (h : Takes (.tree shape :: parts) stack items rest) :
    ∃ e more items', stack = .tree e :: more ∧ Takes parts more items' rest := by
  cases h with
  | tree _ h => exact ⟨_, _, _, rfl, h⟩

/-- What the left side of an assignment begins with. -/
inductive Target : Stack → Stack → Prop
  | name {t : Token} {more : Stack} (h : t.kind = .name) : Target (.token t :: more) more
  | declared {word name : Token} {more : Stack} (hword : word.kind = .letWord)
      (hname : name.kind = .name) : Target (.token word :: .token name :: more) more
  | property (e : Expr) {dot name : Token} {more : Stack} (hdot : dot.kind = .dot)
      (hname : name.kind = .name) : Target (.tree e :: .token dot :: .token name :: more) more

theorem Picks.objectRef (h : Picks .objectRef stack e rest) :
    ∃ e' dot name, dot.kind = Token.Kind.dot ∧ name.kind = Token.Kind.name ∧
      stack = .tree e' :: .token dot :: .token name :: rest := by
  obtain ⟨_, htakes⟩ := h.only rfl
  obtain ⟨e', more, _, rfl, htakes₁⟩ := htakes.of_tree
  obtain ⟨dot, more, _, hdot, rfl, htakes₂⟩ := htakes₁.of_token
  obtain ⟨name, more, _, hname, rfl, htakes₃⟩ := htakes₂.of_token
  exact ⟨e', dot, name, hdot, hname, by rw [htakes₃.of_nil]⟩

/-- A property of something, and further ones. -/
theorem Reads.objectRef (h : Reads .objectRef stack e rest) :
    ∃ more, Target stack more ∧ Dotted rest more := by
  refine h.rounds (M := fun stack rest => ∃ more, Target stack more ∧ Dotted rest more) ?_ ?_
  · intro stack e rest h
    obtain ⟨e', dot, name, hdot, hname, rfl⟩ := h.objectRef
    exact ⟨rest, .property e' hdot hname, .nil⟩
  · rintro stack middle rest e e' ⟨more, htarget, hmore⟩ h
    obtain ⟨_, dot', name', hdot', hname', heq⟩ := h.objectRef
    cases heq
    exact ⟨more, htarget, .trans (.cons hdot' hname' .nil) hmore⟩

theorem Reads.define {stack rest : Stack} {e : Expr} (h : Reads .define stack e rest) :
    ∃ word name, word.kind = Token.Kind.letWord ∧ name.kind = Token.Kind.name ∧
      stack = .token word :: .token name :: rest := by
  obtain ⟨_, htakes⟩ := h.only rfl
  obtain ⟨word, more, _, hword, rfl, htakes₁⟩ := htakes.of_token
  cases htakes₁ with
  | production hvariable htakes₂ =>
    obtain ⟨name, hname, rfl⟩ := hvariable.single rfl
    exact ⟨word, name, hword, hname, by rw [htakes₂.of_nil]⟩

theorem Picks.lvalue (h : Picks .lvalue stack e rest) :
    ∃ more, Target stack more ∧ Dotted rest more := by
  cases h with
  | parts hrule _ _ => simp [Production.rules] at hrule
  | via hrule h =>
    simp only [Production.rules, mem_cons, not_mem_nil, or_false, Rule.via.injEq] at hrule
    rcases hrule with rfl | rfl | rfl
    · obtain ⟨word, name, hword, hname, rfl⟩ := h.define
      exact ⟨rest, .declared hword hname, .nil⟩
    · exact h.objectRef
    · obtain ⟨t, ht, rfl⟩ := h.single rfl
      exact ⟨rest, .name ht, .nil⟩

/-- The left side of an assignment, and further properties. -/
theorem Reads.lvalue (h : Reads .lvalue stack e rest) :
    ∃ more, Target stack more ∧ Dotted rest more := by
  refine h.rounds Picks.lvalue ?_
  rintro stack middle rest e e' ⟨more, htarget, hmore⟩ h
  obtain ⟨more', htarget', hmore'⟩ := h.lvalue
  cases htarget' with
  | property _ hdot hname => exact ⟨more, htarget, .trans (.cons hdot hname hmore') hmore⟩

/-! ### Reading properties -/

/-- What is found whatever the budget is found. -/
theorem exists_readOutcome_of_finds {seen : Seen} {f : Found}
    (h : ∀ n, Finds n (read · p stack seen) f) : ∃ b, readOutcome b p stack seen = .found f := by
  refine ⟨enough stack seen, ?_⟩
  have hok := (h _ _ (Nat.lt_succ_self _)).resolve_right
    (read_settled (Nat.le_refl _) (Nat.le_refl _)).2
  rw [readOutcome, outcome, hok]

section

variable {dot name : Token} (hdot : dot.kind = .dot) (hname : name.kind = .name) {n : Nat}

include hdot hname

theorem objectRef_rule (seen : Seen) (e : Expr) (stack : Stack) :
    Finds n (tryRule · .objectRef (.parts .member [.tree .any, .token .dot, .token .name])
      (.tree e :: .token dot :: .token name :: stack) seen) (.member e name.text, stack) :=
  matchParts_tree_comes rfl (matchParts_token_comes hdot
    (matchParts_token_comes hname (matchParts_nil_finds rfl)))

theorem objectRef_pick {seen : Seen} (hseen : (Production.objectRef, 0) ∉ seen) (e : Expr)
    (stack : Stack) :
    Finds n (pick · .objectRef (.tree e :: .token dot :: .token name :: stack) seen)
      (.member e name.text, stack) :=
  pick_finds_only rfl hseen (objectRef_rule hdot hname _ e stack)

end

variable {more : Stack} {seen : Seen} {f : Found} {n : Nat}

/-- All properties are taken at once. -/
theorem objectRef_extends (h : Dotted [] stack) (hseen : (Production.objectRef, 0) ∉ seen)
    (e : Expr) :
    ∃ e', ∀ n, Finds n (extend · .objectRef (.tree e :: stack) seen (some (e, stack))) (e', []) := by
  induction h generalizing e with
  | nil => exact ⟨e, fun n => extend_stops (pick_refuses_of_after (.inl rfl) e seen)⟩
  | @cons dot name stack hdot hname _ ih =>
    obtain ⟨e', hnext⟩ := ih (.member e name.text)
    exact ⟨e', fun n => extend_again (objectRef_pick hdot hname hseen e stack) (hnext n)⟩

theorem expression_via {x : Rule × Nat} (hx : x ∈ Production.expression.rules.zipIdx) :
    ∃ q, x.1 = .via q := by
  have hmem := fst_mem_of_mem_zipIdx hx
  cases hrule : x.1 with
  | via q => exact ⟨q, rfl⟩
  | parts action body =>
    rw [hrule] at hmem
    simp [Production.rules] at hmem

/-- An expression that is not a call takes all properties of a tree. -/
theorem expression_pick_property {dot name : Token} (hdot : dot.kind = .dot)
    (hname : name.kind = .name) (h : Dotted [] stack) (e : Expr) :
    ∃ e', ∀ n, Finds n (pick · .expression (.tree e :: .token dot :: .token name :: stack) blocked)
      (e', []) := by
  have hsite : (Production.objectRef, 0) ∉ (Production.expression, 13) :: blocked := by decide
  obtain ⟨e', hnext⟩ := objectRef_extends h hsite (.member e name.text)
  have hplace : (Rule.via .objectRef, 13) ∈ Production.expression.rules.zipIdx := by decide
  have hothers : ∀ x ∈ Production.expression.rules.zipIdx, x ≠ (.via .objectRef, 13) →
      (.expression, x.2) ∈ blocked ∨ Token.Kind.dot ∉ x.1.after := by decide
  refine ⟨e', fun n => pick_finds_of_rule hplace (by decide) ?_ ?_⟩
  · exact read_finds (extend_again (objectRef_pick hdot hname hsite e stack) (hnext n))
  · intro x hx hne hsite
    have hafter := (hothers x hx hne).resolve_left hsite
    obtain ⟨q, hq⟩ := expression_via hx
    rw [hq] at hafter ⊢
    exact .inl (read_refuses_of_after (.inr ⟨dot, _, rfl, hdot ▸ hafter⟩) e _).declines

theorem expression_extends (h : Dotted [] stack) (e : Expr) :
    ∃ e', ∀ n, Finds n (extend · .expression (.tree e :: stack) blocked (some (e, stack)))
      (e', []) := by
  have hstops (e : Expr) (n : Nat) :
      Finds n (extend · .expression [.tree e] blocked (some (e, []))) (e, []) :=
    extend_stops (pick_refuses_of_after (.inl rfl) e blocked)
  cases h with
  | nil => exact ⟨e, hstops e⟩
  | cons hdot hname h =>
    obtain ⟨e', hpick⟩ := expression_pick_property hdot hname h e
    exact ⟨e', fun n => extend_again (hpick n) (hstops e' n)⟩

/-- An expression that is not a call takes a name and all properties. -/
theorem expression_exhausts (h : Target stack more) (hmore : Dotted [] more)
    (hlet : ∀ t rest, stack = .token t :: rest → t.kind ≠ .letWord) :
    Exhausts .expression blocked stack := by
  cases h with
  | @declared word _ _ hword => exact absurd hword (hlet word _ rfl)
  | property e hdot hname =>
    obtain ⟨e', hpick⟩ := expression_pick_property hdot hname hmore e
    obtain ⟨b, hb⟩ := exists_readOutcome_of_finds fun n =>
      read_finds_of_pick (.inl rfl) (hpick n)
    exact ⟨b, e', hb⟩
  | @name t _ ht =>
    obtain ⟨e', hnext⟩ := expression_extends hmore (.lookup t.text)
    have hplace : (Rule.via .variableName, 0) ∈ Production.expression.rules.zipIdx := by decide
    have hothers : ∀ x ∈ Production.expression.rules.zipIdx, x ≠ (.via .variableName, 0) →
        (.expression, x.2) ∈ blocked ∨ Token.Kind.name ∉ x.1.first := by decide
    have hpick (n : Nat) :
        Finds n (pick · .expression (.token t :: more) blocked) (.lookup t.text, more) := by
      refine pick_finds_of_rule hplace (by decide)
        (variable_finds ht (by simp [blocked]) hmore.clear) fun x hx hne hsite => ?_
      exact loses_of_first hx (ht ▸ (hothers x hx hne).resolve_left hsite)
    obtain ⟨b, hb⟩ := exists_readOutcome_of_finds fun n =>
      read_finds (extend_again (hpick n) (hnext n))
    exact ⟨b, e', hb⟩

/-! ### Statements that are no more than this -/

theorem readOutcome_finishes (hne : stack ≠ [])
    (h : ∀ b, (extendOutcome b p stack seen none).Finishes) (b : Nat) :
    (readOutcome b p stack seen).Finishes := by
  obtain ⟨item, stack, rfl⟩ := exists_cons_of_ne_nil hne
  cases b with
  | zero => exact .inl rfl
  | succ b => exact h b

/-- What an expression takes as a whole, a statement takes as a whole. -/
theorem statement_finishes_of_expression (hne : stack ≠ []) (h : Exhausts .expression blocked stack)
    (b : Nat) (last : Option Found) :
    (extendOutcome b .statement stack [] last).Finishes := by
  have hplace : (Rule.via .expression, 5) ∈ Production.statement.rules.zipIdx := by decide
  have hseen : SeenAlike inExpression [(.statement, 5)] [] := by decide
  refine extendOutcome_finishes hplace not_mem_nil hne (fun b => ?_) b last
  simp only [ruleOutcome_via, readOutcome_expression hseen]
  exact readOutcome_finishes hne (fun b => expression_finishes hne h b none) b

/-- An assignment begins with something that can be assigned to. -/
theorem assignment_lead : Lead .assignment .lvalue [(.statement, 3)] [] := by
  constructor
  · intro x hx
    obtain rfl := mem_singleton.mp hx
    exact ⟨_, _, _, rfl, rfl, rfl⟩
  · intro x hx b stack
    obtain rfl := mem_singleton.mp hx
    refine readOutcome_congr_seen
      (fun q => q = .lvalue || Production.lvalue.rules.contains (.via q)) ?_ rfl b stack
    decide

theorem outcome_eq_of_finds (h : ∀ n, Finds n x f) (b : Nat) :
    outcome (x b) = .halted ∨ outcome (x b) = .found f := by
  rcases h _ b (Nat.lt_succ_self b) with h | h
  · exact .inr (by rw [outcome, h])
  · exact .inl (by rw [outcome, h])

theorem outcome_ne_found_of_refuses (h : ∀ n, Refuses n x) (b : Nat) (f : Found) :
    outcome (x b) ≠ .found f := by
  rcases h _ b (Nat.lt_succ_self b) with ⟨_, _, _, h⟩ | h <;> simp [outcome, h]

/-- A declaration is read first if it is not the left side of an assignment. -/
theorem statement_choose_declared {word name : Token} (hword : word.kind = .letWord)
    (hname : name.kind = .name) (hmore : Dotted [] more)
    (h : Exhausts .lvalue [] (.token word :: .token name :: more)) (b : Nat) :
    chooseOutcome b .statement (.token word :: .token name :: more) [] 0
        Production.statement.rules none = .halted ∨
      chooseOutcome b .statement (.token word :: .token name :: more) [] 0
        Production.statement.rules none = .found (.define name.text, more) := by
  have hdefine : (Rule.via .define, 4) ∈ Production.statement.rules.zipIdx := by decide
  have hsite : (Production.define, 0) ∉ [(Production.statement, 4)] := by decide
  have hwins := outcome_eq_of_finds fun n => define_finds hword hname hmore.clear hsite
  have hplaces : ∀ x ∈ Production.statement.rules.zipIdx,
      x = (.via .define, 4) ∨ x = (.via .assignment, 3) ∨ Token.Kind.letWord ∉ x.1.first := by
    decide
  refine chooseOutcome_wins hdefine not_mem_nil hwins ?_ b
  intro x hx _ b g hg
  rcases hplaces x hx with rfl | rfl | hfirst
  · left
    rcases hwins b with h | h
    · cases h.symm.trans hg
    · cases h.symm.trans hg
      rfl
  · exact absurd hg (assignment_lead.readOutcome_ne_found h b g)
  · exact absurd hg (outcome_ne_found_of_refuses (fun n => tryRule_refuses_of_first
      (fst_mem_of_mem_zipIdx hx) (hword ▸ hfirst) _ _) b g)

/-- **A statement that is no more than the left side of an assignment** is read as a whole. -/
theorem statement_finishes (h : Exhausts .lvalue [] stack) (b : Nat) (last : Option Found) :
    (extendOutcome b .statement stack [] last).Finishes := by
  have ⟨b₀, e, he⟩ := h
  obtain ⟨more, htarget, hmore⟩ := (reads_of_readOutcome he).lvalue
  cases htarget with
  | name ht =>
    refine statement_finishes_of_expression (cons_ne_nil _ _) ?_ b last
    refine expression_exhausts (.name ht) hmore fun t rest heq => ?_
    cases heq
    simp [ht]
  | property e hdot hname =>
    refine statement_finishes_of_expression (cons_ne_nil _ _) ?_ b last
    exact expression_exhausts (.property e hdot hname) hmore fun t rest heq => by cases heq
  | declared hword hname =>
    cases b with
    | zero => exact .inl rfl
    | succ b =>
      rw [extendOutcome_succ b _ (cons_ne_nil _ _)]
      rcases statement_choose_declared hword hname hmore h b with hc | hc
      · exact .inl (by rw [hc]; rfl)
      · -- The properties are read in the next round.
        rw [hc]
        cases hmore with
        | nil => exact extendOutcome_lone b _ _ _
        | cons hdot hname hmore =>
          refine statement_finishes_of_expression (cons_ne_nil _ _) ?_ b _
          exact expression_exhausts (.property _ hdot hname) hmore fun t rest heq => by cases heq

/-! ### After an assignment -/

/-- The last round of a production: there it finds what it gives, and then it cannot go on. -/
theorem exists_last_round (h : readOutcome b p stack seen = .found f) :
    ∃ b₁ stack₁ b₂, chooseOutcome b₁ p stack₁ seen 0 p.rules none = .found f ∧
      chooseOutcome b₂ p (.tree f.1 :: f.2) seen 0 p.rules none = .refused := by
  obtain ⟨b₁, g, hg, hnext, -⟩ := exists_choose_of_readOutcome h
  have hlast : ∃ b stack, chooseOutcome b p stack seen 0 p.rules none = .found g := ⟨_, _, hg⟩
  clear hg
  induction b₁ generalizing g with
  | zero => cases hnext
  | succ b₁ ih =>
    rw [extendOutcome_succ b₁ p (cons_ne_nil _ _)] at hnext
    cases hc : chooseOutcome b₁ p (.tree g.1 :: g.2) seen 0 p.rules none with
    | halted => rw [hc] at hnext; cases hnext
    | refused =>
      rw [hc] at hnext
      cases hnext
      obtain ⟨b, stack, hfound⟩ := hlast
      exact ⟨b, stack, b₁, hfound, hc⟩
    | found g' =>
      rw [hc] at hnext
      exact ih g' hnext ⟨_, _, hc⟩

/-- An expression goes on if a property follows. -/
theorem expression_goes_on {dot name : Token} (hdot : dot.kind = .dot) (hname : name.kind = .name)
    (e : Expr) (stack : Stack) (b : Nat) :
    (readOutcome b .expression (.tree e :: .token dot :: .token name :: stack) []).Within
      stack.length := by
  have hplace : (Rule.via .objectRef, 13) ∈ Production.expression.rules.zipIdx := by decide
  refine readOutcome_le_rule hplace not_mem_nil (cons_ne_nil _ _) (fun b => ?_) b
  refine readOutcome_le_rule mem_cons_self (by decide) (cons_ne_nil _ _) (fun b => ?_) b
  exact (outcome_eq_of_finds (fun n => objectRef_rule hdot hname _ e stack) b).imp_right
    fun h => ⟨_, h, Nat.le_refl _⟩

/-- **No property follows an assignment**, because the value would have taken it. -/
theorem assignment_not_dotted (h : readOutcome b .assignment stack [(.statement, 3)] = .found f) :
    ¬ Exhausts .lvalue [] (.tree f.1 :: f.2) := by
  rintro ⟨b', e, he⟩
  obtain ⟨b₁, stack₁, -, hchoose, -⟩ := exists_last_round h
  -- The value is what an assignment ends with, so its reading stopped at the property.
  obtain ⟨b₂, v, hv⟩ : ∃ b v, chooseOutcome b .rvalue (.tree v :: f.2) [] 0 Production.rvalue.rules
      none = .refused := by
    rcases exists_rule_of_chooseOutcome hchoose with hbest | ⟨x, hx, -, b₂, hrule⟩
    · cases hbest
    · obtain rfl : x = (.parts .assign [.production .lvalue, .token .eq, .production .rvalue],
        0) := mem_singleton.mp hx
      obtain ⟨b₃, -, g, -, hrule⟩ := matchOutcome_production_found hrule
      obtain ⟨b₄, t, rest, -, -, hrule⟩ := matchOutcome_token_found hrule
      obtain ⟨b₅, -, v, hvalue, hrule⟩ := matchOutcome_production_found hrule
      obtain ⟨items, hnil⟩ := takes_of_matchOutcome hrule
      obtain ⟨-, -, b₆, -, hrefused⟩ := exists_last_round hvalue
      exact ⟨b₆, v.1, hnil.of_nil ▸ hrefused⟩
  obtain ⟨more, htarget, -⟩ := (reads_of_readOutcome he).lvalue
  generalize f.2 = rest at hv htarget
  cases htarget with
  | property _ hdot hname =>
    have hseen : SeenAlike inExpression [(.rvalue, 0)] [] := by decide
    have hplace : (Rule.via .expression, 0) ∈ Production.rvalue.rules.zipIdx := by decide
    have hrule (b : Nat) := expression_goes_on hdot hname v more b
    simp only [← readOutcome_expression hseen] at hrule
    rcases chooseOutcome_le_rule hplace not_mem_nil hrule b₂ none with hc | ⟨g, hc, -⟩
    · cases hv.symm.trans hc
    · cases hv.symm.trans hc

end Parley.Grammar
