import Parley.Proofs.Grammar.Targets

/-!
# Chains of operators

`a + b * c` is `a + (b * c)`, and `a * b + c` is `a * (b + c)`: there is no precedence, and
operations nest to the right. The operand on the left is read first and put back. Then the rule for
operations takes it together with the operator, and reads everything after it as one expression.

Calls are tried at every one of these places, too. A call begins with an expression, so it reads the
same chain again, only without trying calls, and is refused when no parenthesis follows. So what is
found is shown twice: first where calls are under way and are not tried (`CallFree`), and then, by
means of that, where they are tried in vain.
-/

namespace Parley.Grammar

open List

variable {item : Item} {t : Token} {ts : List Token} {stack rest : Stack} {seen : Seen} {e : Expr}
  {n : Nat}

/-! ### Where calls come to nothing -/

/-- Rules that an expression may be part of without being kept from anything but calls. -/
def outside : Production × Nat → Bool
  | (.statement, _) | (.call, _) => true
  | (.expression, index) => index == 9
  | _ => false

/-- The rules under way do not keep an expression from anything but calls. -/
def Admits (seen : Seen) : Prop :=
  ∀ site ∈ seen, outside site = true

theorem admits_nil : Admits [] := by
  simp [Admits]

theorem Admits.not_mem (h : Admits seen) {site : Production × Nat}
    (hsite : outside site = false) : site ∉ seen := by
  intro hmem
  rw [h site hmem] at hsite
  cases hsite

/-- The rules that are under way in the function of a call. -/
theorem Admits.in_call (h : Admits seen) (index : Nat) :
    Admits ((.call, index) :: (.expression, 9) :: seen) := by
  intro site hsite
  simp only [mem_cons] at hsite
  rcases hsite with rfl | rfl | hsite
  · rfl
  · rfl
  · exact h site hsite

/-- Calls are not tried here, or come to nothing. -/
def CallFree (stack : Stack) (seen : Seen) : Prop :=
  (Production.expression, 9) ∈ seen ∨ ∀ n, Refuses n (read · .call stack ((.expression, 9) :: seen))

/-- Calls are not tried in the function of a call. -/
theorem callFree_in_call (stack : Stack) (index : Nat) (seen : Seen) :
    CallFree stack ((.call, index) :: (.expression, 9) :: seen) :=
  .inl (by simp)

/-- A call comes to nothing if no parenthesis follows what is read without calls. -/
theorem callFree_of_reads (hrest : Closing rest)
    (hread : ∀ index n, Finds n (read · .expression (item :: stack)
      ((.call, index) :: (.expression, 9) :: seen)) (e, rest)) : CallFree (item :: stack) seen :=
  .inr fun n => call_refuses hrest fun index => hread index n

section Choose

variable {q : Production} {index : Nat} {found : Found}

/-- Where calls come to nothing, the only other rule that fits wins. -/
theorem pick_of_callFree (hplace : (Rule.via q, index) ∈ Production.expression.rules.zipIdx)
    (hsite : (Production.expression, index) ∉ seen)
    (hfinds : Finds n (read · q stack ((.expression, index) :: seen)) found)
    (hothers : ∀ x ∈ Production.expression.rules.zipIdx, x ≠ (.via q, index) →
      x ≠ (.via .call, 9) → Loses n (tryRule · .expression x.1 stack ((.expression, x.2) :: seen))
        found)
    (hcall : CallFree stack seen) : Finds n (pick · .expression stack seen) found := by
  refine pick_finds_of_rule hplace hsite hfinds fun x hx hxq hxsite => ?_
  by_cases hxcall : x = (.via .call, 9)
  · subst hxcall
    exact .inl (hcall.resolve_left hxsite n).declines
  · exact hothers x hx hxq hxcall

/-- The production of an operand may be tried. -/
theorem Operand.not_mem_of_admits (c : Operand) (hseen : Admits seen) (i : Nat) :
    (c.place.1, i) ∉ (Production.expression, c.place.2) :: seen := by
  have hout : outside (c.place.1, i) = false ∧ c.place.1 ≠ .expression := by
    cases c <;> exact ⟨rfl, nofun⟩
  rw [mem_cons, not_or]
  exact ⟨fun h => hout.2 (Prod.mk.inj h).1, hseen.not_mem hout.1⟩

/-- An operand is found. -/
theorem operand_pick (c : Operand) (hseen : Admits seen) (hrest : Clear [] stack)
    (hcall : CallFree (.token c.token :: stack) seen) :
    Finds n (pick · .expression (.token c.token :: stack) seen) (c.tree, stack) := by
  obtain ⟨hplace, honly⟩ := c.only_place
  have hsite : outside (.expression, c.place.2) = false := by cases c <;> rfl
  refine pick_of_callFree hplace (hseen.not_mem hsite)
    (c.finds (c.not_mem_of_admits hseen) hrest) ?_ hcall
  exact fun x hx hxc hxcall => loses_of_first hx (honly x hx hxc hxcall)

/-- After a tree, the production that goes on with the next token is found. -/
theorem tree_pick {e : Expr} (hplace : (Rule.via q, index) ∈ Production.expression.rules.zipIdx)
    (hsite : (Production.expression, index) ∉ seen)
    (honly : ∀ x ∈ Production.expression.rules.zipIdx, x ≠ (.via q, index) →
      x ≠ (.via .call, 9) → t.kind ∉ x.1.after) (hfinds :
      Finds n (read · q (.tree e :: .token t :: stack) ((.expression, index) :: seen)) found)
    (hcall : CallFree (.tree e :: .token t :: stack) seen) :
    Finds n (pick · .expression (.tree e :: .token t :: stack) seen) found := by
  refine pick_of_callFree hplace hsite hfinds (fun x hx hxq hxcall => ?_) hcall
  have hafter := honly x hx hxq hxcall
  obtain ⟨r, hr⟩ := expression_via hx
  rw [hr] at hafter ⊢
  exact .inl (read_refuses_of_after (.inr ⟨t, stack, rfl, hafter⟩) e _).declines

end Choose

/-! ### One operation -/

section Operation

variable {op : Token} (hop : op.kind = .operator) {right : Expr}

include hop

theorem operator_finds (hseen : (Production.operator, 0) ∉ seen) (hstack : Clear [] stack) :
    Finds n (read · .operator (.token op :: stack) seen) (.lookup op.text, stack) :=
  read_finds_of_pick hstack
    (pick_finds_only rfl hseen (matchParts_token_comes hop (matchParts_nil_finds rfl)))

variable (hstack : ∃ t more, stack = .token t :: more) (hrest : Closing rest)
  (hright : ∀ n, Finds n (read · .expression stack []) (right, rest))

include hstack hrest hright

/-- The rule for operations takes the tree, the operator, and all that is read after it. -/
theorem opcall_finds (hseen : (Production.opcall, 0) ∉ seen) :
    Finds n (read · .opcall (.tree e :: .token op :: stack) seen)
      (.opCall (.lookup op.text) e right, rest) := by
  obtain ⟨t, more, rfl⟩ := hstack
  refine read_finds_of_pick (hrest.mono (by decide))
    (pick_finds_only rfl hseen (matchParts_tree_comes rfl ?_))
  refine matchParts_production_comes
    (operator_finds hop (by simp) (.inr ⟨t, more, rfl, by simp⟩)) ?_
  exact matchParts_production_comes (hright n) (matchParts_nil_finds rfl)

section

variable (hseen : Admits seen) (hcall : CallFree (.tree e :: .token op :: stack) seen)

include hseen hcall

theorem operation_pick :
    Finds n (pick · .expression (.tree e :: .token op :: stack) seen)
      (.opCall (.lookup op.text) e right, rest) := by
  have hplace : (Rule.via .opcall, 10) ∈ Production.expression.rules.zipIdx := by decide
  have honly : ∀ x ∈ Production.expression.rules.zipIdx, x ≠ (.via .opcall, 10) →
      x ≠ (.via .call, 9) → Token.Kind.operator ∉ x.1.after := by decide
  have hfree : (Production.opcall, 0) ∉ (Production.expression, 10) :: seen := by
    rw [mem_cons, not_or]
    exact ⟨by decide, hseen.not_mem rfl⟩
  refine tree_pick hplace (hseen.not_mem rfl) ?_ (opcall_finds hop hstack hrest hright hfree) hcall
  rwa [hop]

/-- After an operation, nothing more is taken. -/
theorem operation_extends (last : Option Found) :
    Finds n (extend · .expression (.tree e :: .token op :: stack) seen last)
      (.opCall (.lookup op.text) e right, rest) := by
  have hstop : Clear Production.expression.after rest := hrest.mono (subset_cons_self _ _)
  exact extend_again (operation_pick hop hstack hrest hright hseen hcall)
    (extend_stops (pick_refuses_of_after hstop _ seen))

end

/-- An operand, an operator and an expression are read as an operation, where calls come to
nothing. -/
theorem operation_read (c : Operand) (hseen : Admits seen)
    (hcall : CallFree (.token c.token :: .token op :: stack) seen)
    (hcall' : CallFree (.tree c.tree :: .token op :: stack) seen) :
    Finds n (read · .expression (.token c.token :: .token op :: stack) seen)
      (.opCall (.lookup op.text) c.tree right, rest) := by
  have hclear : Clear [] (.token op :: stack) := .inr ⟨op, stack, rfl, by simp⟩
  exact read_finds (extend_again (operand_pick c hseen hclear hcall)
    (operation_extends hop hstack hrest hright hseen hcall' _))

/-- Calls come to nothing before an operation. -/
theorem operation_callFree (c : Operand) (hseen : Admits seen) :
    CallFree (.token c.token :: .token op :: stack) seen ∧
      CallFree (.tree c.tree :: .token op :: stack) seen := by
  constructor
  · exact callFree_of_reads hrest fun index n =>
      operation_read hop hstack hrest hright c (hseen.in_call index) (callFree_in_call _ _ _)
        (callFree_in_call _ _ _)
  · exact callFree_of_reads hrest fun index n =>
      read_finds (operation_extends hop hstack hrest hright
        (hseen.in_call index) (callFree_in_call _ _ _) none)

end Operation

/-! ### Chains -/

/-- The tokens of a chain: an operand, and then operators with an operand after each. -/
def operationTokens (c : Operand) : List (String × Operand) → List Token
  | [] => [c.token]
  | (op, d) :: more => c.token :: ⟨.operator, op⟩ :: operationTokens d more

/-- The tree of a chain: the first operator is applied to the first operand and to the tree of all
that comes after it. -/
def operationTree (c : Operand) : List (String × Operand) → Expr
  | [] => c.tree
  | (op, d) :: more => .opCall (.lookup op) c.tree (operationTree d more)

/-- A chain begins with its first operand, and after that there is nothing or an operator. -/
theorem operationTokens_clear (c : Operand) (more : List (String × Operand)) :
    ∃ ts, operationTokens c more = c.token :: ts ∧ Clear [.dot, .eq] (ts.map .token) := by
  cases more with
  | nil => exact ⟨[], rfl, .inl rfl⟩
  | cons step more => exact ⟨_, rfl, .inr ⟨_, _, rfl, by simp⟩⟩

/-- **A chain is read as one expression**, whatever follows it, if only that is not taken for a part
of it. -/
theorem operations_read (c : Operand) (more : List (String × Operand))
    (hrest : Closing rest) (hseen : Admits seen) (n : Nat) :
    Finds n (read · .expression ((operationTokens c more).map .token ++ rest) seen)
      (operationTree c more, rest) := by
  induction more generalizing c seen n with
  | nil =>
    refine c.gives.2 n hrest fun site hsite => ?_
    have hout := hseen site hsite
    have hall : ∀ p ∈ Production.all, ∀ i, outside (p, i) = true → harmless (p, i) = true := by
      intro p _ i
      cases p <;> simp [outside, harmless]
    exact hall site.1 (mem_all _) site.2 hout
  | cons step more ih =>
    obtain ⟨op, d⟩ := step
    obtain ⟨ts, hts, -⟩ := operationTokens_clear d more
    have hstack : ∃ t more', (operationTokens d more).map .token ++ rest = .token t :: more' :=
      ⟨d.token, ts.map .token ++ rest, by rw [hts]; rfl⟩
    have hright := ih d admits_nil
    have hop : Token.kind ⟨.operator, op⟩ = .operator := rfl
    obtain ⟨hcall, hcall'⟩ := operation_callFree hop hstack hrest hright c hseen
    exact operation_read hop hstack hrest hright c hseen hcall hcall'

/-! ### Statements -/

/-- A statement that is an expression: it begins with a token that begins no other statement but an
assignment, and it is none. -/
theorem statement_finds (ht : t.kind ∈ [.name, .text, .integer])
    (hrest : Clear Production.statement.after rest)
    (hread : Finds n (read · .expression (.token t :: stack) [(.statement, 5)]) (e, rest))
    (hassign : Refuses n (read · .assignment (.token t :: stack) [(.statement, 3)])) :
    Finds n (read · .statement (.token t :: stack) []) (e, rest) := by
  have hplace : (Rule.via .expression, 5) ∈ Production.statement.rules.zipIdx := by decide
  have honly : ∀ kind ∈ [Token.Kind.name, .text, .integer],
      ∀ x ∈ Production.statement.rules.zipIdx, x ≠ (.via .expression, 5) →
        x = (.via .assignment, 3) ∨ kind ∉ x.1.first := by decide
  refine read_finds_of_pick hrest (pick_finds_of_rule hplace not_mem_nil hread fun x hx hxe _ => ?_)
  rcases honly _ ht x hx hxe with rfl | hfirst
  · exact .inl hassign.declines
  · exact loses_of_first hx hfirst

/-- An assignment needs an equals sign after what is assigned to. -/
theorem assignment_refuses (hrest : Clear [.eq] rest)
    (hread : Finds n (read · .lvalue (item :: stack) [(.assignment, 0), (.statement, 3)])
      (e, rest)) : Refuses n (read · .assignment (item :: stack) [(.statement, 3)]) := by
  refine (read_refuses (choose_refuses (fun x hx => ?_) _ _)).pred
  obtain rfl := mem_singleton.mp hx
  exact matchParts_production_comes hread (matchParts_token_declines hrest)

/-- What a name by itself comes to on the left side of an assignment. -/
theorem lvalue_pick_name (ht : t.kind = .name) (hstack : Clear [] stack) :
    Finds n (pick · .lvalue (.token t :: stack) [(.assignment, 0), (.statement, 3)])
      (.lookup t.text, stack) := by
  have hplace : (Rule.via .variableName, 2) ∈ Production.lvalue.rules.zipIdx := by decide
  have honly : ∀ x ∈ Production.lvalue.rules.zipIdx, x ≠ (.via .variableName, 2) →
      Token.Kind.name ∉ x.1.first := by decide
  exact pick_finds_of_rule hplace (by decide) (variable_finds ht (by simp) hstack)
    fun x hx hne _ => loses_of_first hx (ht ▸ honly x hx hne)

/-- An operand with neither a point nor an equals sign after it is not assigned to. -/
theorem operand_assignment_refuses (c : Operand) (hstack : Clear [.dot, .eq] stack) :
    Refuses n (read · .assignment (.token c.token :: stack) [(.statement, 3)]) := by
  cases c with
  | name s =>
    exact assignment_refuses (hstack.mono (by simp))
      (read_finds_of_pick (hstack.mono (by simp [Production.after]))
        (lvalue_pick_name rfl (hstack.mono (nil_subset _))))
  | text s => exact read_refuses_of_first (t := ⟨.text, s⟩) (by simp [Production.first]) _ _
  | integer digits short =>
    exact read_refuses_of_first (t := ⟨.integer, digits⟩) (by simp [Production.first]) _ _

/-- What a statement is found to be is its tree, if nothing is left. -/
theorem parse_of_finds (h : ∀ n, Finds n (read · .statement (ts.map .token) []) (e, rest)) :
    (parse ts).result = if rest.isEmpty then .ok e else .error (.rejected none [] false) := by
  have hbudget := enough_le_budgetFor ts
  have hread := (h _ _ (Nat.lt_succ_self _)).resolve_right (read_settled hbudget hbudget).2
  rw [parse_result, hread]
  cases rest <;> rfl

theorem parse_of_refuses (h : ∀ n, Refuses n (read · .statement (ts.map .token) [])) :
    ∃ inside expected atEnd, (parse ts).result = .error (.rejected inside expected atEnd) := by
  have hbudget := enough_le_budgetFor ts
  obtain ⟨inside, expected, atEnd, hread⟩ :=
    (h _ _ (Nat.lt_succ_self _)).resolve_right (read_settled hbudget hbudget).2
  refine ⟨inside, expected, atEnd, ?_⟩
  rw [parse_result, hread]

/-- A chain by itself is a statement. -/
theorem operations_statement (c : Operand) (more : List (String × Operand)) (n : Nat) :
    Finds n (read · .statement ((operationTokens c more).map .token) [])
      (operationTree c more, []) := by
  obtain ⟨ts, hts, hclear⟩ := operationTokens_clear c more
  have hseen : Admits [(.statement, 5)] := by simp [Admits, outside]
  have hread := operations_read c more (.inl rfl) hseen n
  rw [append_nil, hts] at hread
  rw [hts]
  exact statement_finds c.kind_mem (.inl rfl) hread (operand_assignment_refuses c hclear)

/-- **Operations nest to the right, without precedence.** Operands with operators between them are
read as the first operator applied to the first operand and to all that comes after it, whatever the
operators are. -/
theorem parse_operations (c : Operand) (more : List (String × Operand)) :
    (parse (operationTokens c more)).result = .ok (operationTree c more) :=
  parse_of_finds (operations_statement c more)

/-- A product binds no closer than a sum. -/
example : operationTree (.name "a") [("*", .name "b"), ("+", .name "c")] =
    .opCall (.lookup "*") (.lookup "a") (.opCall (.lookup "+") (.lookup "b") (.lookup "c")) := rfl

end Parley.Grammar
