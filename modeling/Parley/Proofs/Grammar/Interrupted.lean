import Parley.Proofs.Grammar.Lead

/-!
# Expressions that are cut off

What stands inside of constructs is expressions, lists of them, arguments and parameters. All of them
keep `Cut` as long as the stack is not cut off after an operator or before a colon: at these two
places the input ends in a rule that has not opened anything and that nothing stands in for.

The difficult rule is the call. It begins with an expression, in which calls are not tried any more
(`blocked`), and it is refused if the input ends after that. But then the expression takes the whole
stack, with calls among its rules as without them (`expression_finishes`).
-/

namespace Parley.Grammar

open List

variable {seen : Seen} {p : Production} {stack rest : Stack} {b b' : Nat} {f : Found}
  {kind : Token.Kind} {items : List Item} {action : Action}

variable {body : List Part} {e : Expr}

/-! ### Rules under way -/

/-- Does no rule of the production begin with another production? -/
def Production.anchored (q : Production) : Bool :=
  q.rules.all fun rule => rule.leading.isEmpty

/-- A production that takes something off the stack first is read as if nothing were under way. -/
theorem readOutcome_anchored {q : Production} (hq : q.anchored = true) (hseen : ∀ i, (q, i) ∉ seen)
    (b : Nat) (stack : Stack) :
    readOutcome b q stack seen = readOutcome b q stack [] := by
  refine readOutcome_congr_seen (fun r => r == q) ?_ (beq_self_eq_true q) b stack
  intro r _ hr x hx
  obtain rfl := eq_of_beq hr
  refine ⟨iff_of_false (hseen _) not_mem_nil, fun _ s hs => ?_⟩
  have hleading := all_eq_true.mp hq _ (fst_mem_of_mem_zipIdx hx)
  rw [isEmpty_iff.mp hleading] at hs
  cases hs

/-- The productions that an expression can begin with. -/
def inExpression (q : Production) : Bool :=
  q = .expression || Production.expression.rules.contains (.via q)

/-- The rules under way in an expression that may be called. -/
def blocked : Seen := [(.call, 0), (.expression, 9)]

theorem readOutcome_blocked (i : Nat) (hi : i < 2) (b : Nat) (stack : Stack) :
    readOutcome b .expression stack ((.call, i) :: [(.expression, 9)]) =
      readOutcome b .expression stack blocked := by
  refine readOutcome_congr_seen (fun q => inExpression q && q != .call) ?_ rfl b stack
  rcases i with _ | _ | i
  · decide
  · decide
  · omega

/-- A call begins with an expression. -/
theorem call_lead : Lead .call .expression [(.expression, 9)] blocked := by
  have hrules : Production.call.rules.zipIdx =
      [ (.parts .call [.production .expression, .token .leftParen, .production .argList,
          .token .rightParen], 0),
        (.parts .call [.production .expression, .token .leftParen, .token .rightParen], 1) ] := rfl
  constructor
  · intro x hx
    rw [hrules, mem_cons, mem_singleton] at hx
    rcases hx with rfl | rfl
    · exact ⟨_, _, _, rfl, rfl, rfl⟩
    · exact ⟨_, _, _, rfl, rfl, rfl⟩
  · intro x hx b stack
    rw [hrules, mem_cons, mem_singleton] at hx
    rcases hx with rfl | rfl
    · exact readOutcome_blocked 0 (by omega) b stack
    · exact readOutcome_blocked 1 (by omega) b stack

/-- The rules of an expression but the call: productions that take something off the stack first. -/
def Rule.simple : Rule → Bool
  | .via q => q.anchored && (q.sturdy || q = .opcall) && q != .expression && q != .call
  | .parts _ _ => false

/-- The rules of an expression but the call are read as if nothing were under way. -/
theorem expression_rule {x : Rule × Nat} (hx : x ∈ Production.expression.rules.zipIdx) :
    x = (.via .call, 9) ∨ x.2 ≠ 9 ∧ ∃ q : Production, (q.sturdy = true ∨ q = .opcall) ∧
      ∀ seen ∈ [[], blocked], ∀ b stack,
        ruleOutcome b .expression x.1 stack ((.expression, x.2) :: seen) =
          readOutcome b q stack [] := by
  have hall : ∀ x ∈ Production.expression.rules.zipIdx,
      x = (.via .call, 9) ∨ x.2 ≠ 9 ∧ x.1.simple = true := by decide
  refine (hall x hx).imp_right fun ⟨hne, hsimple⟩ => ⟨hne, ?_⟩
  obtain ⟨rule, index⟩ := x
  cases rule with
  | parts action body => cases hsimple
  | via q =>
    simp only [Rule.simple, Bool.and_eq_true, Bool.or_eq_true, decide_eq_true_eq,
      bne_iff_ne] at hsimple
    obtain ⟨⟨⟨hanchored, hsturdy⟩, hexpression⟩, hcall⟩ := hsimple
    refine ⟨q, hsturdy, fun seen hseen b stack => ?_⟩
    refine readOutcome_anchored hanchored (fun i => ?_) b stack
    rw [mem_pair] at hseen
    rcases hseen with rfl | rfl
    · simp [hexpression]
    · simp [blocked, hexpression, hcall]

/-! ### Expressions that take the whole stack -/

/-- If rules that are under way in one choice and not in the other come to nothing, and the other
rules come to the same, then so do the choices. -/
theorem chooseOutcome_agree {seen' : Seen} {rules : List Rule} {index : Nat}
    (h : ∀ x ∈ rules.zipIdx index, (p, x.2) ∉ seen' ∧
      ((p, x.2) ∈ seen ∧ (∀ b f, ruleOutcome b p x.1 stack ((p, x.2) :: seen') ≠ .found f) ∨
        (p, x.2) ∉ seen ∧ ∀ b b', ruleOutcome b p x.1 stack ((p, x.2) :: seen) ≠ .halted →
          ruleOutcome b' p x.1 stack ((p, x.2) :: seen') ≠ .halted →
          ruleOutcome b p x.1 stack ((p, x.2) :: seen) =
            ruleOutcome b' p x.1 stack ((p, x.2) :: seen'))) {best : Option Found}
    (hb : chooseOutcome b p stack seen index rules best ≠ .halted)
    (hb' : chooseOutcome b' p stack seen' index rules best ≠ .halted) :
    chooseOutcome b p stack seen index rules best =
      chooseOutcome b' p stack seen' index rules best := by
  induction rules generalizing b b' index best with
  | nil =>
    cases b with
    | zero => exact absurd rfl hb
    | succ b =>
      cases b' with
      | zero => exact absurd rfl hb'
      | succ b' => rw [chooseOutcome_nil, chooseOutcome_nil]
  | cons rule rules ih =>
    rw [zipIdx_cons, forall_mem_cons] at h
    obtain ⟨⟨hsite', hrule⟩, hrules⟩ := h
    cases b with
    | zero => exact absurd rfl hb
    | succ b =>
      cases b' with
      | zero => exact absurd rfl hb'
      | succ b' =>
        rw [chooseOutcome_try hsite'] at hb' ⊢
        rcases hrule with ⟨hsite, hnothing⟩ | ⟨hsite, hsame⟩
        · rw [chooseOutcome_skip hsite] at hb ⊢
          cases hy : ruleOutcome b' p rule stack ((p, index) :: seen') with
          | found f => exact absurd hy (hnothing b' f)
          | halted => exact absurd (by rw [hy]; rfl) hb'
          | refused =>
            rw [hy] at hb'
            exact ih hrules hb hb'
        · rw [chooseOutcome_try hsite] at hb ⊢
          have hne : ruleOutcome b p rule stack ((p, index) :: seen) ≠ .halted :=
            fun hx => hb (by rw [hx]; rfl)
          have hne' : ruleOutcome b' p rule stack ((p, index) :: seen') ≠ .halted :=
            fun hy => hb' (by rw [hy]; rfl)
          have heq := hsame b b' hne hne'
          cases hx : ruleOutcome b p rule stack ((p, index) :: seen) with
          | halted => exact absurd hx hne
          | found f =>
            rw [hx] at hb heq
            rw [← heq] at hb' ⊢
            exact ih hrules hb hb'
          | refused =>
            rw [hx] at hb heq
            rw [← heq] at hb' ⊢
            exact ih hrules hb hb'

/-- With calls among the rules the same rule of an expression is chosen, if without them the
expression takes the whole stack. -/
theorem expression_choose (hstack : Exhausts .expression blocked stack)
    (hf : chooseOutcome b .expression stack blocked 0 Production.expression.rules none = .found f) :
    chooseOutcome b' .expression stack [] 0 Production.expression.rules none = .halted ∨
      chooseOutcome b' .expression stack [] 0 Production.expression.rules none = .found f := by
  by_cases hb' : chooseOutcome b' .expression stack [] 0 Production.expression.rules none = .halted
  · exact .inl hb'
  · right
    rw [← hf]
    refine (chooseOutcome_agree ?_ (by simp [hf]) hb').symm
    intro x hx
    refine ⟨not_mem_nil, ?_⟩
    rcases expression_rule hx with rfl | ⟨hne, q, -, hq⟩
    · exact .inl ⟨by decide, fun b f => call_lead.readOutcome_ne_found hstack b f⟩
    · refine .inr ⟨by simp [blocked, hne], ?_⟩
      simp only [hq [] (by simp), hq blocked (by simp)]
      exact fun b b' h h' => readOutcome_unique h h'

/-- **An expression that takes the whole stack** if calls are not tried takes the whole stack if they
are. -/
theorem expression_finishes (hne : stack ≠ []) (hstack : Exhausts .expression blocked stack)
    (b : Nat) (last : Option Found) :
    (extendOutcome b .expression stack [] last).Finishes := by
  induction b generalizing stack last with
  | zero => exact .inl rfl
  | succ b ih =>
    obtain ⟨b₀, e, he⟩ := hstack
    -- A first rule is chosen, and it is the same one in both readings.
    obtain ⟨b₁, f, hf, hnext, -⟩ := exists_choose_of_readOutcome he
    rw [extendOutcome_succ b _ hne]
    rcases expression_choose ⟨b₀, e, he⟩ hf with hhalted | hfound
    · exact .inl (by rw [hhalted]; rfl)
    · rw [hfound]
      cases b₁ with
      | zero => cases hnext
      | succ b₁ =>
        rw [extendOutcome_succ b₁ _ (cons_ne_nil _ _)] at hnext
        cases hg : chooseOutcome b₁ .expression (.tree f.1 :: f.2) blocked 0
            Production.expression.rules none with
        | halted => rw [hg] at hnext; cases hnext
        | refused =>
          rw [hg] at hnext
          cases hnext
          exact extendOutcome_lone b _ e []
        | found g =>
          rw [hg] at hnext
          have hread := extendOutcome_succ b₁ .expression (cons_ne_nil (.tree f.1) f.2) blocked none
          rw [hg] at hread
          exact ih (cons_ne_nil _ _) ⟨b₁ + 2, e, hread.trans hnext⟩ _

/-- The same if the expression is read as a call first, and the call is part of an expression that
takes the whole stack. -/
theorem expression_finishes_of_call {b₀ : Nat}
    (hf : readOutcome b₀ .call stack [(.expression, 9)] = .found f)
    (hstack : Exhausts .expression blocked (.tree f.1 :: f.2)) (b : Nat) (last : Option Found) :
    (extendOutcome b .expression stack [] last).Finishes := by
  cases b with
  | zero => exact .inl rfl
  | succ b =>
    have hne : stack ≠ [] := by
      rintro rfl
      cases b₀ <;> cases hf
    -- The call wins, because it leaves less than what it begins with.
    obtain ⟨b₁, f₁, hf₁, hlt⟩ := call_lead.found_lt hf
    have hcall : (.via .call, 9) ∈ Production.expression.rules.zipIdx := by decide
    have hchoose : chooseOutcome b .expression stack [] 0 Production.expression.rules none =
          .halted ∨
        chooseOutcome b .expression stack [] 0 Production.expression.rules none = .found f := by
      refine chooseOutcome_wins hcall not_mem_nil (readOutcome_of_found hf) ?_ b
      intro y hy _ b g hg
      rcases expression_rule hy with rfl | ⟨hi, q, -, hq⟩
      · left
        rcases readOutcome_of_found hf b with hhalted | hfound
        · cases hhalted.symm.trans hg
        · cases hfound.symm.trans hg
          rfl
      · rw [hq [] (by simp)] at hg
        have hsite : (.expression, y.2) ∉ blocked := by simp [blocked, hi]
        have hle := readOutcome_le_rule hy hsite hne (fun b => by
            rw [hq blocked (by simp)]
            exact (readOutcome_of_found hg b).imp_right fun h => ⟨g, h, Nat.le_refl _⟩) b₁
        rw [hf₁] at hle
        obtain ⟨g', hg', hle⟩ := hle.resolve_left (by simp)
        cases hg'
        omega
    rw [extendOutcome_succ b _ hne]
    rcases hchoose with hhalted | hfound
    · exact .inl (by rw [hhalted]; rfl)
    · rw [hfound]
      exact expression_finishes (cons_ne_nil _ _) hstack b _

/-! ### The two readings of what stands inside of constructs -/

theorem Takes.of_token {parts : List Part} (h : Takes (.token kind :: parts) stack items rest) :
    ∃ t more items', t.kind = kind ∧ stack = .token t :: more ∧ Takes parts more items' rest := by
  generalize hparts : Part.token kind :: parts = all at h
  cases h with
  | nil | production | tree => cases hparts
  | token h =>
    cases hparts
    exact ⟨_, _, _, rfl, rfl, h⟩

theorem Takes.of_nil (h : Takes [] stack items rest) : stack = rest := by
  cases h
  rfl

/-- What a production takes that has only one rule. -/
theorem Picks.only (h : Picks p stack e rest) (hp : p.rules = [.parts action body]) :
    ∃ items, Takes body stack items rest := by
  cases h with
  | via hrule _ => simp [hp] at hrule
  | parts hrule htakes _ =>
    simp only [hp, mem_singleton] at hrule
    obtain ⟨-, rfl⟩ := hrule
    exact ⟨_, htakes⟩

/-- There is no further round if the rule begins with a token. -/
theorem Reads.only (h : Reads p stack e rest)
    (hp : p.rules = [.parts action (.token kind :: body)]) :
    ∃ items, Takes (.token kind :: body) stack items rest := by
  cases h with
  | once h => exact h.only hp
  | again _ h =>
    obtain ⟨_, htakes⟩ := h.only hp
    cases htakes

theorem Reads.single (h : Reads p stack e rest) (hp : p.rules = [.parts action [.token kind]]) :
    ∃ t : Token, t.kind = kind ∧ stack = .token t :: rest := by
  obtain ⟨_, htakes⟩ := h.only hp
  obtain ⟨t, more, items, hkind, rfl, hnil⟩ := htakes.of_token
  exact ⟨t, hkind, by rw [hnil.of_nil]⟩

section

variable {tail : Stack} {bound : Nat} {q : Production}

/-- A rule that is no more than a production, or ends with it. -/
theorem matchOutcome_last_cut {opened : Bool} {taken : List Item} (hready : Ready stack)
    (hread : ReadCut tail bound q seen) :
    MatchCut tail (bound + 1) p action [.production q] stack seen opened taken :=
  matchOutcome_production_cut hready hread (fun _ _ _ => matchOutcome_nil_cut) (.inl rfl)

/-- An operator is one token, and so not the whole of a stack that does not end with one. -/
theorem operator_ne_nil (hready : Ready stack) (b : Nat) (e : Expr) :
    readOutcome b .operator stack seen ≠ .found (e, []) := by
  intro h
  obtain ⟨t, ht, heq⟩ := (reads_of_readOutcome h).single rfl
  obtain ⟨front, t', rfl, ht'⟩ := hready
  cases front with
  | nil =>
    cases heq
    exact ht' ht
  | cons item front => simp at heq

section

variable (hbelow : Below tail bound)

include hbelow

/-- An operator and the expression after it. -/
theorem opcall_cut : ReadCut tail (bound + 1) .opcall [] := by
  refine readCut_of_rules fun stack hready x hx _ => ?_
  obtain rfl : x = (.parts .opCall [.tree .any, .production .operator, .production .expression],
    0) := mem_singleton.mp hx
  obtain ⟨item, stack, rfl⟩ := exists_cons_of_ne_nil hready.ne_nil
  refine (matchOutcome_tree_cut ?_).pred
  rintro e rfl
  have hready := hready.of_tree
  have hoperator : ReadCut tail bound .operator [] := (sturdy_cut hbelow rfl).mono (Nat.le_succ _)
  refine (matchOutcome_production_cut hready hoperator (fun e rest hrest => ?_)
    (.inr (.inr (operator_ne_nil hready)))).pred
  exact (matchOutcome_last_cut hrest (hbelow .expression rfl)).pred

/-- The rules of an expression but the call. -/
theorem expression_rule_cut (hq : q.sturdy = true ∨ q = .opcall) : ReadCut tail bound q [] := by
  refine ReadCut.mono ?_ (Nat.le_succ bound)
  rcases hq with hq | rfl
  · exact sturdy_cut hbelow hq
  · exact opcall_cut hbelow

/-- An expression in which calls are not tried. -/
theorem blocked_cut : ReadCut tail (bound + 1) .expression blocked := by
  refine readCut_of_rules fun stack hready x hx hsite => ?_
  rcases expression_rule hx with rfl | ⟨-, q, hq, heq⟩
  · exact absurd (by decide) hsite
  · simp only [heq blocked (by simp)]
    exact expression_rule_cut hbelow hq stack hready

/-- **Expressions** keep `Cut`: a call that is stuck is excused. -/
theorem expression_cut : ReadCut tail (bound + 1) .expression [] := by
  refine readCut_of_excused fun stack hready x hx _ b b' hlt => ?_
  rcases expression_rule hx with rfl | ⟨-, q, hq, heq⟩
  · refine (call_lead.readOutcome_cut hbelow ((blocked_cut hbelow).mono (Nat.le_succ _)) hready
      (Nat.lt_succ_of_lt hlt)).imp ?_
    rintro (hstack | ⟨f, hf, hstack⟩)
    · exact expression_finishes hready.ne_nil hstack
    · exact expression_finishes_of_call hf hstack
  · rw [heq [] (by simp), heq [] (by simp)]
    exact .inl (expression_rule_cut hbelow hq stack hready b b' hlt)

end

/-- An expression is read as if nothing were under way where no rule is that it can begin with. -/
theorem readOutcome_expression (h : SeenAlike inExpression seen []) (b : Nat) (stack : Stack) :
    readOutcome b .expression stack seen = readOutcome b .expression stack [] :=
  readOutcome_congr_seen inExpression h rfl b stack

theorem rvalue_cut (hbelow : Below tail bound) : ReadCut tail (bound + 1) .rvalue [] := by
  refine readCut_of_rules fun stack hready x hx _ => ?_
  obtain rfl : x = (.via .expression, 0) := mem_singleton.mp hx
  exact (hbelow .expression rfl).congr (readOutcome_expression (by decide)) stack hready

theorem elementList_cut (hbelow : Below tail bound) : ReadCut tail (bound + 1) .elementList [] := by
  refine readCut_of_rules fun stack hready x hx _ => ?_
  rcases mem_pair.mp hx with rfl | rfl
  · exact (matchOutcome_sturdy_cut hbelow rfl hready).pred
  · exact (matchOutcome_last_cut hready
      ((hbelow .expression rfl).congr (readOutcome_expression (by decide)))).pred

theorem argList_cut (hbelow : Below tail bound) : ReadCut tail (bound + 1) .argList [] := by
  refine readCut_of_rules fun stack hready x hx _ => ?_
  rcases mem_pair.mp hx with rfl | rfl
  · exact (matchOutcome_sturdy_cut hbelow rfl hready).pred
  · exact (matchOutcome_last_cut hready
      ((hbelow .arg rfl).congr (readOutcome_anchored rfl (by simp)))).pred

section

variable (hcolon : ∀ t rest, tail = .token t :: rest → t.kind ≠ .colon)

include hcolon

/-- An argument keeps `Cut` if it is not cut off before its colon: its name opens nothing. -/
theorem arg_cut (hbelow : Below tail bound) : ReadCut tail (bound + 1) .arg [] := by
  refine readCut_of_rules fun stack hready x hx _ => ?_
  obtain rfl : x = (.parts .arg [.token .name, .token .colon, .production .expression], 0) :=
    mem_singleton.mp hx
  obtain ⟨item, stack, rfl⟩ := exists_cons_of_ne_nil hready.ne_nil
  refine (matchOutcome_token_cut fun t => ?_).pred
  rcases hready.tail_cases with rfl | hready
  · -- The name is the last token, and no colon follows.
    refine MatchCut.pred (cut_succ rfl rfl fun b b' _ => ?_)
    rw [nil_append]
    match tail with
    | [] => exact .refused
    | .tree e :: rest => exact .refused
    | .token t :: rest =>
      rw [matchOutcome_token, if_neg (hcolon t rest rfl)]
      exact .refused
  · exact (matchOutcome_opens_cut hbelow rfl rfl hready).pred

/-- **The productions inside of constructs** keep `Cut`, with any budget. -/
theorem inner_cut (bound : Nat) : Below tail bound := by
  induction bound with
  | zero => exact fun _ _ _ _ _ _ h => absurd h (Nat.not_lt_zero _)
  | succ bound ih =>
    intro q hq
    cases q with
    | expression => exact expression_cut ih
    | variableName => exact sturdy_cut ih rfl
    | elementList => exact elementList_cut ih
    | paramList => exact sturdy_cut ih rfl
    | arg => exact arg_cut hcolon ih
    | argList => exact argList_cut ih
    | rvalue => exact rvalue_cut ih
    | _ => cases hq

end

end

end Parley.Grammar
