import Parley.Eval.Loop
import Parley.Proofs.Grammar.Dangling
import Parley.Proofs.Grammar.Targets

/-!
# Statements that go on in the next line

A statement may be broken over lines: as long as the tokens so far are unfinished, the loop of a
session keeps them and reads on. Where can a line end? Take a statement and break it between any two
tokens. If the first part is a statement itself, it is evaluated, and what follows is another one.
Otherwise one would have the loop wait for the rest.

It does wait for it, with two exceptions. After an operator, and before the colon of an argument, the
first part is refused (`parse_dangling`), because the rule that is under way there has not taken a
token that opens anything. Everywhere else the reading of the first part and that of the whole go
the same way up to the break (`statement_cut`), and the first part is a statement or unfinished.
-/

namespace Parley.Grammar

open List

/-! ### The two readings of a statement -/

section

variable {tail : Stack} {bound : Nat}

/-- A production whose rules are sturdy keeps `Cut` as a rule of another. -/
theorem via_sturdy_cut (hbelow : Below tail bound) {p q : Production} {index : Nat}
    (hsturdy : q.sturdy = true) (hanchored : q.anchored = true) (hne : q ≠ p) :
    ReadCut tail bound q [(p, index)] :=
  ((sturdy_cut hbelow hsturdy).congr (readOutcome_anchored hanchored (by simp [hne]))).mono
    (Nat.le_succ bound)

theorem lvalue_cut (hbelow : Below tail bound) : ReadCut tail (bound + 1) .lvalue [] := by
  refine readCut_of_rules fun stack hready x hx _ => ?_
  have hrules : Production.lvalue.rules.zipIdx =
      [(.via .define, 0), (.via .objectRef, 1), (.via .variableName, 2)] := rfl
  simp only [hrules, mem_cons, not_mem_nil, or_false] at hx
  rcases hx with rfl | rfl | rfl
  all_goals exact via_sturdy_cut hbelow rfl rfl (by decide) stack hready

/-- The word `help` on its own is a statement. -/
theorem help_finishes {t : Token} (ht : t.kind = .helpWord) (seen : Seen)
    (hsite : (.help, 1) ∉ seen) (b : Nat) (last : Option Found) :
    (extendOutcome b .help [.token t] seen last).Finishes := by
  have hplace : (.parts .help [.token .helpWord], 1) ∈ Production.help.rules.zipIdx := by decide
  refine extendOutcome_finishes hplace hsite (cons_ne_nil _ _) (fun b => ?_) b last
  rw [ruleOutcome_parts]
  rcases b with _ | _ | b
  · exact .inl rfl
  · exact .inl (by rw [matchOutcome_token, if_pos ht]; rfl)
  · rw [matchOutcome_token, if_pos ht]
    exact .inr ⟨_, rfl⟩

/-- At the word `help` alone the first rule is refused, and the other takes everything. -/
theorem help_alone_cut (item : Item) (b b' : Nat) :
    RuleCut tail (∀ b last, (extendOutcome b .help [item] [] last).Finishes)
      (ruleOutcome b .help (.parts .help [.token .helpWord, .production .expression]) [item]
        [(.help, 0)])
      (ruleOutcome b' .help (.parts .help [.token .helpWord, .production .expression])
        (item :: tail) [(.help, 0)]) := by
  rw [ruleOutcome_parts, ruleOutcome_parts]
  cases hy : matchOutcome b' .help .help [.token .helpWord, .production .expression] (item :: tail)
      [(.help, 0)] false [] with
  | halted => exact .inl (.long _)
  | found f =>
    obtain ⟨_, t, rest, ht, heq, hnext⟩ := matchOutcome_token_found hy
    cases heq
    obtain ⟨items, htakes⟩ := takes_of_matchOutcome hnext
    exact .inr ⟨.inr ⟨f, rfl, htakes.suffix.1.length_le⟩, help_finishes ht [] not_mem_nil⟩
  | refused =>
    rcases b with _ | _ | b
    · exact .inl (.short _)
    · cases item with
      | tree e => exact .inl .refused
      | token t =>
        rw [matchOutcome_token]
        split
        · exact .inl (.short _)
        · exact .inl .refused
    · cases item with
      | tree e => exact .inl .refused
      | token t =>
        rw [matchOutcome_token]
        split
        · exact .inl .refused
        · exact .inl .refused

theorem help_cut (hbelow : Below tail bound) : ReadCut tail (bound + 1) .help [] := by
  refine readCut_of_excused fun stack hready x hx _ b b' hlt => ?_
  rcases mem_pair.mp hx with rfl | rfl
  · -- Only if the word stands alone, the rule ends before the expression.
    obtain ⟨item, stack, rfl⟩ := exists_cons_of_ne_nil hready.ne_nil
    rcases hready.tail_cases with rfl | hrest
    · exact help_alone_cut item b b'
    · refine .inl ((matchOutcome_token_cut fun t => ?_).pred b b' hlt)
      exact (matchOutcome_last_cut hrest (hbelow .expression rfl)).pred
  · exact .inl ((matchOutcome_sturdy_cut hbelow rfl hready).pred b b' hlt)

/-- **Statements** keep `Cut`. An assignment may be cut off before its equals sign; what stands
before it is a statement then. -/
theorem statement_cut (hbelow : Below tail bound) : ReadCut tail (bound + 1) .statement [] := by
  refine readCut_of_excused fun stack hready x hx _ b b' hlt => ?_
  have hrules : Production.statement.rules.zipIdx =
      [ (.via .help, 0), (.via .exit, 1), (.via .importName, 2), (.via .assignment, 3),
        (.via .define, 4), (.via .expression, 5) ] := rfl
  simp only [hrules, mem_cons, not_mem_nil, or_false] at hx
  rcases hx with rfl | rfl | rfl | rfl | rfl | rfl
  · have hcut : ReadCut tail bound .help [(.statement, 0)] :=
      ((help_cut hbelow).congr (readOutcome_anchored rfl (by simp))).mono (Nat.le_succ _)
    exact .inl (hcut stack hready b b' hlt)
  · exact .inl (via_sturdy_cut hbelow rfl rfl (by decide) stack hready b b' hlt)
  · exact .inl (via_sturdy_cut hbelow rfl rfl (by decide) stack hready b b' hlt)
  · refine (assignment_lead.readOutcome_cut hbelow ((lvalue_cut hbelow).mono (Nat.le_succ _)) hready
      (Nat.lt_succ_of_lt hlt)).imp ?_
    rintro (hstack | ⟨f, hf, hstack⟩)
    · exact statement_finishes hstack
    · exact absurd hstack (assignment_not_dotted hf)
  · exact .inl (via_sturdy_cut hbelow rfl rfl (by decide) stack hready b b' hlt)
  · have hcut : ReadCut tail bound .expression [(.statement, 5)] :=
      (hbelow .expression rfl).congr (readOutcome_expression (by decide))
    exact .inl (hcut stack hready b b' hlt)

end

/-! ### Integers -/

/-- Integers are read by one rule only. -/
def Rule.ofIntegers : Rule → Bool
  | .via _ => true
  | .parts action body =>
    !body.contains (.token .integer) || (action == .integer && body == [.token .integer])

theorem eq_of_integer_mem {p : Production} {action : Action} {parts : List Part}
    (hrule : .parts action parts ∈ p.rules) (h : .token .integer ∈ parts) :
    action = .integer ∧ parts = [.token .integer] := by
  have hall : ∀ p ∈ Production.all, ∀ rule ∈ p.rules, rule.ofIntegers = true := by decide
  simpa [Rule.ofIntegers, h] using hall p (mem_all p) _ hrule

/-- The items of a rule that is one token. -/
theorem Children.single {kind : Token.Kind} {items : List Item}
    (children : Children [.token kind] items) : ∃ t, items = [.token t] := by
  generalize hparts : [Part.token kind] = parts at children
  cases children with
  | token t rest =>
    cases hparts
    cases rest
    exact ⟨t, rfl⟩
  | nil | production | tree => cases hparts

mutual

/-- No integer in a derivation has too many digits. -/
theorem Derivation.digits {p : Production} {e : Expr} (d : Derivation p e) {t : Token}
    (ht : t ∈ d.leaves) (hkind : t.kind = .integer) : t.text.length ≤ Number.digitLimit := by
  match d with
  | .via _ child => exact child.digits ht hkind
  | .parts rule children built =>
    rcases children.digits ht hkind with hlen | ⟨hpart, hitem⟩
    · exact hlen
    · obtain ⟨rfl, rfl⟩ := eq_of_integer_mem rule hpart
      obtain ⟨t', rfl⟩ := children.single
      obtain rfl : t = t' := by simpa using hitem
      by_contra hlen
      simp [Action.build, readInteger, hlen, Except.bind] at built

theorem Children.digits {parts : List Part} {items : List Item} (children : Children parts items)
    {t : Token} (ht : t ∈ children.leaves) (hkind : t.kind = .integer) :
    t.text.length ≤ Number.digitLimit ∨ .token .integer ∈ parts ∧ .token t ∈ items := by
  match children with
  | .nil => cases ht
  | .production child rest | .tree _ child rest =>
    rcases mem_append.mp ht with ht | ht
    · exact .inl (child.digits ht hkind)
    · exact (rest.digits ht hkind).imp_right fun ⟨hpart, hitem⟩ => ⟨.tail _ hpart, .tail _ hitem⟩
  | .token t' rest =>
    rcases mem_cons.mp ht with rfl | ht
    · exact .inr ⟨hkind ▸ .head _, .head _⟩
    · exact (rest.digits ht hkind).imp_right fun ⟨hpart, hitem⟩ => ⟨.tail _ hpart, .tail _ hitem⟩

end

variable {tokens front back : List Token} {e : Expr}

theorem digits_of_parse (h : (parse tokens).result = .ok e) {t : Token} (ht : t ∈ tokens)
    (hkind : t.kind = .integer) :
    t.text.length ≤ Number.digitLimit := by
  obtain ⟨d, left, rfl, hleft⟩ := (reads_of_parse h).derivation (yields_map_token tokens)
  rw [hleft.eq_nil, append_nil] at ht
  exact d.digits ht hkind

/-! ### The first part of a statement -/

/-- A statement is torn where the reader does not wait for the rest: after an operator, and before a
colon. -/
def CutAtSign (front back : List Token) : Prop :=
  (∃ t ∈ front.getLast?, t.kind = .operator) ∨ ∃ t ∈ back.head?, t.kind = .colon

theorem dangles_of_cutAtSign (h : (parse (front ++ back)).result = .ok e) (hcutAt : CutAtSign front back) :
    (Scan.start.run front).dangles = true := by
  rcases hcutAt with ⟨t, ht, hkind⟩ | ⟨t, ht, hkind⟩
  · obtain ⟨init, rfl⟩ := getLast?_eq_some_iff.mp ht
    simp [Scan.run_append, Scan.dangles, Scan.step, hkind]
  · obtain ⟨more, rfl⟩ := head?_eq_some_iff.mp ht
    simp [Scan.dangles, named_of_colon h hkind]

/-- What statements come to, as the outcome of a reading. -/
theorem outcome_of_parse (tokens : List Token) :
    match readOutcome (budgetFor tokens.length) .statement (tokens.map .token) [] with
    | .found (e, []) => (parse tokens).result = .ok e
    | .halted => ∃ f, (parse tokens).result = .error f ∧ outcome (Traced.fail f) = .halted
    | .refused | .found (_, _ :: _) => ∀ e, (parse tokens).result ≠ .ok e := by
  rw [parse_result, readOutcome, outcome]
  rcases (read (budgetFor tokens.length) .statement (tokens.map .token) []).result with
    f | ⟨e, _ | ⟨item, rest⟩⟩
  · cases f <;> simp [outcome_fail]
  · rfl
  · simp

theorem readOutcome_of_parse (h : (parse tokens).result = .ok e) :
    readOutcome (budgetFor tokens.length) .statement (tokens.map .token) [] = .found (e, []) := by
  have hcases := outcome_of_parse tokens
  split at hcases
  · next e' hfound => rw [hfound, Except.ok.inj (hcases.symm.trans h)]
  · obtain ⟨f, hf, -⟩ := hcases
    cases hf.symm.trans h
  · exact absurd h (hcases e)
  · exact absurd h (hcases e)

/-- If a statement is not torn, its first part is a statement or unfinished. -/
theorem parse_of_not_cutAtSign (hfront : front ≠ []) (h : (parse (front ++ back)).result = .ok e)
    (hcutAt : ¬ CutAtSign front back) :
    (∃ e', (parse front).result = .ok e') ∨
      ∃ inside, (parse front).result = .error (.unfinished inside) := by
  rw [CutAtSign, not_or] at hcutAt
  have hready : Ready (front.map .token) := by
    obtain ⟨init, t, rfl⟩ := (eq_nil_or_concat front).resolve_left hfront
    refine ⟨init.map .token, t, by simp, fun hkind => hcutAt.1 ⟨t, ?_, hkind⟩⟩
    simp
  have hcolon : ∀ t rest, back.map Item.token = .token t :: rest → t.kind ≠ .colon := by
    intro t rest hback hkind
    obtain ⟨t', more, rfl, heq, -⟩ := map_eq_cons_iff.mp hback
    cases heq
    exact hcutAt.2 ⟨t, rfl, hkind⟩
  have hcut := statement_cut (inner_cut hcolon (budgetFor (front ++ back).length)) _ hready
    (budgetFor front.length) (budgetFor (front ++ back).length) (Nat.lt_succ_self _)
  rw [← map_append, readOutcome_of_parse h] at hcut
  generalize hx : readOutcome (budgetFor front.length) .statement (front.map .token) [] = x at hcut
  generalize hy : Outcome.found (e, []) = y at hcut
  cases hcut with
  | long | refused => cases hy
  | same _ hne => simp [hne] at hy
  | through e' _ =>
    have hparse := outcome_of_parse front
    rw [hx] at hparse
    exact .inl ⟨e', hparse⟩
  | short =>
    have hparse := outcome_of_parse front
    rw [hx] at hparse
    obtain ⟨f, hf, hhalted⟩ := hparse
    rcases parse_ordinary hfront hf with ⟨inside, expected, rfl⟩ | ⟨inside, rfl⟩ |
      ⟨t, ht, hkind, hlen, -⟩
    · cases hhalted
    · exact .inr ⟨inside, hf⟩
    · have hle := digits_of_parse h (mem_append_left _ ht) hkind
      omega

/-- **What becomes of the first part of a statement** that is broken in two. If it is not torn, the
first part is a statement itself, or it is unfinished and the loop of the session keeps its tokens
for the next line. If it is torn, the first part is refused, and the loop complains and drops it. -/
theorem parse_split (front back : List Token) (e : Expr) (hfront : front ≠ [])
    (h : (parse (front ++ back)).result = .ok e) :
    (¬ CutAtSign front back → (∃ e', (parse front).result = .ok e') ∨
      (∃ inside, (parse front).result = .error (.unfinished inside)) ∧
        ∀ run scope pending, Act.takeTokens run scope pending front = (do
          Act.traceAll (parse front).notes
          return front)) ∧
    (CutAtSign front back →
      ∃ inside expected, (parse front).result = .error (.rejected inside expected false) ∧
        ∀ run scope pending, Act.takeTokens run scope pending front = (do
          Act.traceAll (parse front).notes
          Act.complain ("parse error, expected one of: " ++
            Text.joinWith ", " (Act.expectedNames expected))
          return [])) := by
  constructor
  · intro hcutAt
    refine (parse_of_not_cutAtSign hfront h hcutAt).imp_right ?_
    rintro ⟨inside, hparse⟩
    refine ⟨⟨inside, hparse⟩, fun run scope pending => ?_⟩
    simp only [Act.takeTokens, hparse]
  · intro hcutAt
    have hdigits : ∀ t ∈ front, t.kind = .integer → t.text.length ≤ Number.digitLimit :=
      fun t ht => digits_of_parse h (mem_append_left _ ht)
    obtain ⟨inside, expected, hparse⟩ := parse_dangling hdigits (dangles_of_cutAtSign h hcutAt)
    refine ⟨inside, expected, hparse, fun run scope pending => ?_⟩
    simp only [Act.takeTokens, hparse]

/-- The first part of `a + b` is refused if the line ends after the operator, and that of `f()` is
kept if it ends inside the parentheses. -/
theorem parse_split_operation :
    (parse ([⟨.name, "a"⟩, ⟨.operator, "+"⟩] ++ [⟨.name, "b"⟩])).result =
        .ok (.opCall (.lookup "+") (.lookup "a") (.lookup "b")) ∧
      (∃ inside expected, (parse [⟨.name, "a"⟩, ⟨.operator, "+"⟩]).result =
        .error (.rejected inside expected false)) ∧
      (parse ([⟨.name, "f"⟩, ⟨.leftParen, "("⟩] ++ [⟨.rightParen, ")"⟩])).result =
        .ok (.call (.lookup "f") []) ∧
      ((∃ e, (parse [⟨.name, "f"⟩, ⟨.leftParen, "("⟩]).result = .ok e) ∨
        ∃ inside, (parse [⟨.name, "f"⟩, ⟨.leftParen, "("⟩]).result =
          .error (.unfinished inside)) := by
  refine ⟨rfl, ?_, rfl, ?_⟩
  · have hcutAt : CutAtSign [⟨.name, "a"⟩, ⟨.operator, "+"⟩] [⟨.name, "b"⟩] := .inl ⟨_, rfl, rfl⟩
    obtain ⟨inside, expected, hparse, -⟩ :=
      (parse_split _ _ _ (cons_ne_nil _ _) rfl).2 hcutAt
    exact ⟨inside, expected, hparse⟩
  · have hcutAt : ¬ CutAtSign [⟨.name, "f"⟩, ⟨.leftParen, "("⟩] [⟨.rightParen, ")"⟩] := by
      simp [CutAtSign]
    exact ((parse_split _ _ _ (cons_ne_nil _ _) rfl).1 hcutAt).imp_right And.left

end Parley.Grammar
