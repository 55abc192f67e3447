import Parley.Proofs.Grammar.Success

/-!
# What a production can begin with

To know what the reader makes of given tokens one has to know, too, which rules do not fit them: of
several rules that fit the one that leaves the least wins, and a rule that is given up in the middle
of a construct ends the whole reading. Most rules are out at once. A production that meets a token
can only fit if the token is of a kind that it begins with (`Production.first`), and one that meets
a tree only if the token after the tree is of a kind that can go on from there
(`Production.after`). Both tables are checked against the rules of the grammar.

Nothing here depends on the budget: what is said of an attempt is what it comes to if its budget
lasts (`Finds`, `Refuses`, `Declines`).
-/

namespace Parley.Grammar

open List

variable {shape : Shape} {item : Item} {index : Nat}

/-! ### What attempts come to -/

/-- With each budget below `n`, if it lasts, the attempt comes to a result with the property. -/
def Comes (n : Nat) (P : Except Failure Found → Prop) (x : Nat → Attempt Found) : Prop :=
  ∀ b < n, P (x b).result ∨ (x b).result = .error .spent

/-- If its budget lasts, the attempt gives this result. -/
abbrev Finds (n : Nat) (x : Nat → Attempt Found) (found : Found) : Prop :=
  Comes n (· = .ok found) x

/-- If its budget lasts, the attempt is rejected. -/
abbrev Refuses (n : Nat) (x : Nat → Attempt Found) : Prop :=
  Comes n (fun r => ∃ inside expected atEnd, r = .error (.rejected inside expected atEnd)) x

/-- If its budget lasts, the attempt is rejected, or the input ends before anything is opened. -/
abbrev Declines (n : Nat) (x : Nat → Attempt Found) : Prop :=
  Comes n (fun r => (∃ inside expected atEnd, r = .error (.rejected inside expected atEnd)) ∨
    ∃ inside, r = .error (.ended inside)) x

section Comes

variable {n : Nat} {P : Except Failure Found → Prop} {x : Nat → Attempt Found}

theorem Refuses.declines (h : Refuses n x) : Declines n x :=
  fun b hb => (h b hb).imp_left .inl

theorem Comes.pred (h : Comes (n + 1) P x) : Comes n P x :=
  fun b hb => h b (Nat.lt_succ_of_lt hb)

/-- Nothing can be done without budget. -/
theorem comes_of_succ (hspent : x 0 = Traced.fail .spent)
    (h : ∀ b < n, P (x (b + 1)).result ∨ (x (b + 1)).result = .error .spent) :
    Comes (n + 1) P x := by
  intro b hb
  cases b with
  | zero => exact .inr (congrArg Traced.result hspent)
  | succ b => exact h b (Nat.lt_of_succ_lt_succ hb)

end Comes

/-- The attempt does not lead to anything that would win over `found`. -/
def Loses (n : Nat) (x : Nat → Attempt Found) (found : Found) : Prop :=
  Declines n x ∨ ∃ other, Finds n x other ∧ found.2.length < other.2.length

/-! ### The parts of a rule -/

section Parts

variable {p : Production} {action : Action} {parts : List Part} {stack : Stack} {seen : Seen}
  {opened : Bool} {taken : List Item} {P : Except Failure Found → Prop} {e : Expr} {t : Token}
  {kind : Token.Kind} {n : Nat} {q : Production}

theorem matchParts_nil_finds (hbuild : (action.build taken.reverse).result = .ok e) :
    Finds n (matchParts · p action [] stack seen opened taken) (e, stack) := by
  refine (comes_of_succ rfl fun b _ => .inl ?_).pred
  rw [matchParts, finish]
  simp only [hbuild]

theorem matchParts_token_comes (hkind : t.kind = kind)
    (h : Comes n P (matchParts · p action parts stack [] (opened || kind.opens)
      (.token t :: taken))) :
    Comes n P (matchParts · p action (.token kind :: parts) (.token t :: stack) seen opened
      taken) := by
  refine (comes_of_succ rfl fun b hb => ?_).pred
  rw [matchParts]
  simp only [hkind]
  exact h b hb

theorem matchParts_tree_comes (hfits : shape.fits e = true)
    (h : Comes n P (matchParts · p action parts stack [] opened (.tree e :: taken))) :
    Comes n P (matchParts · p action (.tree shape :: parts) (.tree e :: stack) seen opened
      taken) := by
  refine (comes_of_succ rfl fun b hb => ?_).pred
  rw [matchParts]
  simp only [hfits]
  exact h b hb

theorem matchParts_production_cons (b : Nat) (q : Production) (item : Item) :
    matchParts (b + 1) p action (.production q :: parts) (item :: stack) seen opened taken = (do
        let found ← read b q (item :: stack) seen
        matchParts b p action parts found.2 seen opened (.tree found.1 :: taken)) :=
  rfl

/-- Nothing is read off an empty stack. -/
theorem ne_nil_of_comes {b : Nat} (h : Comes n P (read · q stack seen)) (hb : b + 1 < n)
    (hP : ¬ P (.error (.fault .noStatement))) : stack ≠ [] := by
  rintro rfl
  rcases h (b + 1) hb with hnone | hspent
  · exact hP hnone
  · cases hspent

theorem matchParts_production_comes {rest : Stack} (hread : Finds n (read · q stack seen) (e, rest))
    (h : Comes n P (matchParts · p action parts rest seen opened (.tree e :: taken))) :
    Comes n P (matchParts · p action (.production q :: parts) stack seen opened taken) := by
  intro b hb
  cases b with
  | zero => exact .inr rfl
  | succ b =>
    obtain ⟨item, stack, rfl⟩ := exists_cons_of_ne_nil (ne_nil_of_comes hread hb (by simp))
    dsimp only
    rw [matchParts_production_cons]
    rcases hread b (Nat.lt_of_succ_lt hb) with hok | hspent
    · rw [Traced.result_bind_of_ok hok]
      exact h b (Nat.lt_of_succ_lt hb)
    · right
      rw [Traced.result_bind, hspent]
      rfl

/-- Parts that ask for something else than what there is. -/
theorem matchParts_token_refuses (h : ∀ t, item = .token t → t.kind ≠ kind) :
    Refuses n (matchParts · p action (.token kind :: parts) (item :: stack) seen opened taken) := by
  refine (comes_of_succ rfl fun b _ => .inl ?_).pred
  cases item with
  | token t =>
    rw [matchParts]
    simp only [if_neg (h t rfl)]
    exact ⟨_, _, _, rfl⟩
  | tree e => exact ⟨_, _, _, rfl⟩

theorem matchParts_tree_refuses :
    Refuses n (matchParts · p action (.tree shape :: parts) (.token t :: stack) seen opened
      taken) :=
  (comes_of_succ rfl fun _ _ => .inl ⟨_, _, _, rfl⟩).pred

theorem matchParts_production_refuses (h : Refuses n (read · q stack seen)) :
    Refuses n (matchParts · p action (.production q :: parts) stack seen opened taken) := by
  intro b hb
  cases b with
  | zero => exact .inr rfl
  | succ b =>
    obtain ⟨item, stack, rfl⟩ := exists_cons_of_ne_nil (ne_nil_of_comes h hb (by simp))
    dsimp only
    rw [matchParts_production_cons, Traced.result_bind]
    rcases h b (Nat.lt_of_succ_lt hb) with ⟨inside, expected, atEnd, hrejected⟩ | hspent
    · rw [hrejected]
      exact .inl ⟨inside, expected, atEnd, rfl⟩
    · rw [hspent]
      exact .inr rfl

/-- Nothing has been opened and there is nothing left. -/
theorem matchParts_nil_declines {part : Part} :
    Declines n (matchParts · p action (part :: parts) [] seen false taken) :=
  (comes_of_succ rfl fun _ _ => .inl (.inr ⟨p, by cases part <;> rfl⟩)).pred

end Parts

/-! ### The rules of a production -/

section Rules

variable {p : Production} {stack : Stack} {seen : Seen} {n : Nat} {found : Found}
  {best : Option Found} {rules : List Rule}

theorem choose_refuses
    (h : ∀ x ∈ rules.zipIdx index, Declines n (tryRule · p x.1 stack ((p, x.2) :: seen)))
    (expected : List Part) (atEnd : Bool) :
    Refuses n (choose · p stack seen index rules none expected atEnd) := by
  induction rules generalizing index expected atEnd with
  | nil => exact (comes_of_succ rfl fun _ _ => .inl ⟨_, _, _, rfl⟩).pred
  | cons rule rules ih =>
    rw [zipIdx_cons, forall_mem_cons] at h
    obtain ⟨hrule, hrules⟩ := h
    refine (comes_of_succ rfl fun b hb => ?_).pred
    have hrest (expected : List Part) (atEnd : Bool) := ih hrules expected atEnd b hb
    rw [choose_cons]
    split
    · exact hrest _ _
    · unfold Traced.handle
      rcases hrule b hb with (⟨_, _, _, hf⟩ | ⟨_, hf⟩) | hf
      · simp only [hf]
        exact hrest _ _
      · simp only [hf]
        exact hrest _ _
      · simp only [hf]
        exact .inr rfl

theorem better_eq_new (h : best = some found ∨ ∀ other ∈ best, found.2.length < other.2.length) :
    better best found = found := by
  cases best with
  | none => rfl
  | some old =>
    rcases h with h | h
    · rw [better, Option.some.inj h, if_neg (Nat.lt_irrefl _)]
    · rw [better, if_pos (h old rfl)]

theorem lt_better {other : Found} (hbest : ∀ old ∈ best, found.2.length < old.2.length)
    (hother : found.2.length < other.2.length) :
    found.2.length < (better best other).2.length := by
  rcases better_eq best other with h | h
  · rwa [h]
  · exact hbest _ h

/-- The tree is the best so far, or it beats the best so far and one of the rules to come gives
it. -/
def Leads (p : Production) (stack : Stack) (seen : Seen) (n : Nat) (rules : List (Rule × Nat))
    (best : Option Found) (found : Found) : Prop :=
  best = some found ∨ (∀ other ∈ best, found.2.length < other.2.length) ∧
    ∃ x ∈ rules, (p, x.2) ∉ seen ∧ Finds n (tryRule · p x.1 stack ((p, x.2) :: seen)) found

section Leads

variable {x : Rule × Nat} {rules : List (Rule × Nat)} {other : Found}

theorem Leads.better_eq (h : Leads p stack seen n rules best found) : better best found = found :=
  better_eq_new (h.imp_right And.left)

/-- The next rule gives the tree, or the others do. -/
theorem Leads.next (h : Leads p stack seen n (x :: rules) best found) :
    (p, x.2) ∉ seen ∧ Finds n (tryRule · p x.1 stack ((p, x.2) :: seen)) found ∨
      Leads p stack seen n rules best found := by
  rcases h with h | ⟨hbest, y, hy, hsite, hfinds⟩
  · exact .inr (.inl h)
  · rcases mem_cons.mp hy with rfl | hy
    · exact .inl ⟨hsite, hfinds⟩
    · exact .inr (.inr ⟨hbest, y, hy, hsite, hfinds⟩)

/-- A worse tree changes nothing. -/
theorem Leads.better (h : Leads p stack seen n rules best found)
    (hlonger : found.2.length < other.2.length) :
    Leads p stack seen n rules (some (better best other)) found := by
  rcases h with rfl | ⟨hbest, hx⟩
  · exact .inl (by rw [better, if_neg (Nat.not_lt.mpr (Nat.le_of_lt hlonger))])
  · exact .inr ⟨by simpa using lt_better hbest hlonger, hx⟩

end Leads

/-- A rule wins if it fits and all others lose against it. -/
theorem choose_finds (hall : ∀ x ∈ rules.zipIdx index, (p, x.2) ∉ seen →
      Finds n (tryRule · p x.1 stack ((p, x.2) :: seen)) found ∨
        Loses n (tryRule · p x.1 stack ((p, x.2) :: seen)) found)
    (hleads : Leads p stack seen n (rules.zipIdx index) best found) (expected : List Part)
    (atEnd : Bool) : Finds n (choose · p stack seen index rules best expected atEnd) found := by
  induction rules generalizing index best expected atEnd with
  | nil =>
    rcases hleads with rfl | ⟨-, x, hx, -⟩
    · exact (comes_of_succ rfl fun _ _ => .inl rfl).pred
    · exact absurd hx not_mem_nil
  | cons rule rules ih =>
    obtain ⟨hrule, hrules⟩ := forall_mem_cons.mp hall
    refine (comes_of_succ rfl fun b hb => ?_).pred
    have hrest {best : Option Found}
        (hleads : Leads p stack seen n (rules.zipIdx (index + 1)) best found)
        (expected : List Part) (atEnd : Bool) := ih hrules hleads expected atEnd b hb
    have hnext := hleads.next
    rw [choose_cons]
    by_cases hseen : (p, index) ∈ seen
    · rw [if_pos (contains_iff_mem.mpr hseen)]
      exact hrest (hnext.resolve_left fun h => h.1 hseen) _ _
    · rw [if_neg (by simpa using hseen)]
      unfold Traced.handle
      rcases hrule hseen with hfinds | hdeclines | ⟨other, hfinds, hlonger⟩
      · rcases hfinds b hb with hok | hspent
        · simp only [hok]
          exact hrest (.inl (congrArg some hleads.better_eq)) _ _
        · simp only [hspent]
          exact .inr rfl
      · rcases hdeclines b hb with (⟨_, _, _, hf⟩ | ⟨_, hf⟩) | hspent
        · simp only [hf]
          refine hrest (hnext.resolve_left fun h => ?_) _ _
          simpa [hf] using h.2 b hb
        · simp only [hf]
          refine hrest (hnext.resolve_left fun h => ?_) _ _
          simpa [hf] using h.2 b hb
        · simp only [hspent]
          exact .inr rfl
      · rcases hfinds b hb with hok | hspent
        · simp only [hok]
          refine hrest ((hnext.resolve_left fun h => ?_).better hlonger) _ _
          have heq : other = found := by simpa [hok] using h.2 b hb
          rw [heq] at hlonger
          exact Nat.lt_irrefl _ hlonger
        · simp only [hspent]
          exact .inr rfl

/-! ### A production and what it puts back -/

/-- The choice of a rule. -/
abbrev pick (b : Nat) (p : Production) (stack : Stack) (seen : Seen) : Attempt Found :=
  choose b p stack seen 0 p.rules none [] false

/-- What a production has built stands when it cannot go on. -/
theorem extend_stops (h : Refuses n (pick · p stack seen)) :
    Finds n (extend · p stack seen (some found)) found := by
  refine (comes_of_succ rfl fun b hb => ?_).pred
  rw [extend]
  unfold Traced.handle
  rcases h b hb with ⟨inside, expected, atEnd, hf⟩ | hf
  · simp only [hf]
    exact .inl rfl
  · simp only [hf]
    exact .inr rfl

/-- What a production has built is put back, and the production goes on from there. -/
theorem extend_again {found' : Found} {last : Option Found}
    (h : Finds n (pick · p stack seen) found)
    (hnext : Finds n (extend · p (.tree found.1 :: found.2) seen (some found)) found') :
    Finds n (extend · p stack seen last) found' := by
  refine (comes_of_succ rfl fun b hb => ?_).pred
  rw [extend]
  unfold Traced.handle
  rcases h b hb with hok | hspent
  · simp only [hok]
    exact hnext b hb
  · simp only [hspent]
    exact .inr rfl

theorem read_finds (h : Finds n (extend · p (item :: stack) seen none) found) :
    Finds n (read · p (item :: stack) seen) found :=
  (comes_of_succ rfl fun b hb => h b hb).pred

theorem read_refuses (h : Refuses n (pick · p (item :: stack) seen)) :
    Refuses (n + 1) (read · p (item :: stack) seen) := by
  have hextend : Refuses n (extend · p (item :: stack) seen none) := by
    refine (comes_of_succ rfl fun b hb => ?_).pred
    rw [extend]
    unfold Traced.handle
    rcases h b hb with ⟨inside, expected, atEnd, hf⟩ | hf
    · simp only [hf]
      exact .inl ⟨_, _, _, rfl⟩
    · simp only [hf]
      exact .inr rfl
  exact comes_of_succ rfl hextend

end Rules

variable {rule : Rule} {t : Token} {rest stack : Stack} {n : Nat} {p : Production} {action : Action}
  {parts : List Part} {seen : Seen} {found : Found} {x : Rule × Nat}

/-! ### First tokens -/

/-- A rule has parts, and more than one if the first of them is a tree. -/
def Rule.ample : Rule → Bool
  | .parts _ [] | .parts _ [.tree _] => false
  | _ => true

theorem exists_parts (h : Rule.parts action parts ∈ p.rules) :
    ∃ part more, parts = part :: more ∧ ((∃ shape, part = .tree shape) → more ≠ []) := by
  have hall : ∀ p ∈ Production.all, ∀ rule ∈ p.rules, rule.ample = true := by decide
  have hample := hall p (by cases p <;> decide) _ h
  match parts with
  | [] => cases hample
  | [part] =>
    refine ⟨part, [], rfl, ?_⟩
    rintro ⟨shape, rfl⟩
    cases hample
  | part :: next :: more => exact ⟨part, next :: more, rfl, fun _ => cons_ne_nil _ _⟩

/-- The kinds of tokens that a production can begin with. -/
def Production.first : Production → List Token.Kind
  | .expression | .call | .elementList | .rvalue =>
    [ .name, .leftBracket, .leftBrace, .text, .integer, .decimal, .backslash, .bang, .tryWord,
      .ifWord, .leftParen ]
  | .constant => [.text, .integer, .decimal]
  | .boolean => [.bang]
  | .variableName | .paramList | .arg | .argList => [.name]
  | .operator => [.operator]
  | .objectRef | .opcall | .subscript | .block => []
  | .array => [.leftBracket]
  | .closure => [.backslash]
  | .dictObject => [.leftBrace]
  | .attempt => [.tryWord]
  | .group => [.leftParen]
  | .ifthen => [.ifWord]
  | .define => [.letWord]
  | .lvalue | .assignment => [.letWord, .name]
  | .help => [.helpWord]
  | .exit => [.exitWord]
  | .importName => [.importWord]
  | .statement =>
    [ .helpWord, .exitWord, .importWord, .letWord, .name, .leftBracket, .leftBrace, .text,
      .integer, .decimal, .backslash, .bang, .tryWord, .ifWord, .leftParen ]

/-- The kinds of tokens that a rule can begin with. -/
def Rule.first : Rule → List Token.Kind
  | .via q => q.first
  | .parts _ (.production q :: _) => q.first
  | .parts _ (.token kind :: _) => [kind]
  | .parts _ _ => []

/-- The kinds of tokens that a production can go on with if it begins with a tree. -/
def Production.after : Production → List Token.Kind
  | .expression | .call | .rvalue => [.dot, .operator, .leftBracket, .semicolon]
  | .objectRef | .lvalue | .assignment => [.dot]
  | .opcall => [.operator]
  | .subscript => [.leftBracket]
  | .block => [.semicolon]
  | .elementList => [.comma, .dot, .operator, .leftBracket, .semicolon]
  | .paramList | .argList => [.comma]
  | .statement => [.dot, .operator, .leftBracket, .semicolon]
  | _ => []

/-- The kinds of tokens that a rule can go on with if it begins with a tree. -/
def Rule.after : Rule → List Token.Kind
  | .via q => q.after
  | .parts _ (.production q :: _) => q.after
  | .parts _ (.tree _ :: .token kind :: _) => [kind]
  | .parts _ (.tree _ :: .production q :: _) => q.first
  | .parts _ _ => []

/-- Rules begin with what their productions begin with, and go on with what those go on with. -/
theorem rule_subset (h : rule ∈ p.rules) : rule.first ⊆ p.first ∧ rule.after ⊆ p.after := by
  have hall : ∀ p ∈ Production.all, ∀ rule ∈ p.rules,
      (∀ kind ∈ rule.first, kind ∈ p.first) ∧ ∀ kind ∈ rule.after, kind ∈ p.after := by
    decide
  exact hall p (by cases p <;> decide) rule h

/-- A rule refuses a token of a kind that it does not begin with, if productions do. -/
theorem tryRule_refuses (hread : ∀ (q : Production) (seen : Seen), t.kind ∉ q.first →
      Refuses n (read · q (.token t :: stack) seen)) (hrule : rule ∈ p.rules)
    (ht : t.kind ∉ rule.first) (seen : Seen) :
    Refuses n (tryRule · p rule (.token t :: stack) seen) := by
  cases rule with
  | via q => exact hread q _ ht
  | parts action parts =>
    obtain ⟨part, parts, rfl, -⟩ := exists_parts hrule
    cases part with
    | production q => exact matchParts_production_refuses (hread q _ ht)
    | token kind =>
      refine matchParts_token_refuses fun t' ht' hkind => ?_
      obtain rfl : t = t' := by simpa using ht'
      exact ht (by simp [Rule.first, hkind])
    | tree shape => exact matchParts_tree_refuses

/-- A production refuses a token of a kind that it does not begin with. -/
theorem read_refuses_of_first (ht : t.kind ∉ p.first) (stack : Stack) (seen : Seen) :
    Refuses n (read · p (.token t :: stack) seen) := by
  induction n generalizing p seen with
  | zero => exact fun b hb => absurd hb (Nat.not_lt_zero b)
  | succ n ih =>
    refine read_refuses (choose_refuses (fun x hx => ?_) _ _)
    have hrule : x.1 ∈ p.rules := fst_mem_of_mem_zipIdx hx
    exact (tryRule_refuses (fun q seen hq => ih hq seen) hrule
      (fun h => ht ((rule_subset hrule).1 h)) _).declines

theorem tryRule_refuses_of_first (hrule : rule ∈ p.rules) (ht : t.kind ∉ rule.first)
    (stack : Stack) (seen : Seen) : Refuses n (tryRule · p rule (.token t :: stack) seen) :=
  tryRule_refuses (fun _ seen hq => read_refuses_of_first hq stack seen) hrule ht seen

/-- What is left is nothing, or begins with a token of none of these kinds. -/
def Clear (kinds : List Token.Kind) (rest : Stack) : Prop :=
  rest = [] ∨ ∃ t more, rest = .token t :: more ∧ t.kind ∉ kinds

theorem Clear.mono {kinds kinds' : List Token.Kind} (h : Clear kinds rest) (hsub : kinds' ⊆ kinds) :
    Clear kinds' rest :=
  h.imp_right fun ⟨t, more, hrest, ht⟩ => ⟨t, more, hrest, fun h => ht (hsub h)⟩

/-- A rule that asks for a token does not get beyond it. -/
theorem matchParts_token_declines {kind : Token.Kind} {taken : List Item}
    (hrest : Clear [kind] rest) :
    Declines n (matchParts · p action (.token kind :: parts) rest seen false taken) := by
  rcases hrest with rfl | ⟨t, more, rfl, ht⟩
  · exact matchParts_nil_declines
  · refine (matchParts_token_refuses fun t' ht' hkind => ?_).declines
    obtain rfl : t = t' := by simpa using ht'
    exact ht (by simp [hkind])

/-- A rule that begins with a tree does not get beyond it. -/
theorem matchParts_tree_declines {next : Part}
    (hrest : Clear (Rule.parts action (.tree shape :: next :: parts)).after rest) (e : Expr)
    (seen : Seen) :
    Declines n (matchParts · p action (.tree shape :: next :: parts) (.tree e :: rest) seen false
      []) := by
  have hnext : Declines n (matchParts · p action (next :: parts) rest [] false [.tree e]) := by
    cases next with
    | token kind => exact matchParts_token_declines hrest
    | production q =>
      rcases hrest with rfl | ⟨t, more, rfl, ht⟩
      · exact matchParts_nil_declines
      · exact (matchParts_production_refuses (read_refuses_of_first ht _ _)).declines
    | tree shape =>
      rcases hrest with rfl | ⟨t, more, rfl, -⟩
      · exact matchParts_nil_declines
      · exact matchParts_tree_refuses.declines
  refine (comes_of_succ rfl fun b hb => ?_).pred
  rw [matchParts]
  split
  · exact hnext b hb
  · exact .inl (.inl ⟨_, _, _, rfl⟩)

/-- After a tree, a production refuses tokens of kinds that it cannot go on with. -/
theorem pick_refuses_of_after (hrest : Clear p.after rest) (e : Expr) (seen : Seen) :
    Refuses n (pick · p (.tree e :: rest) seen) := by
  induction n generalizing p seen with
  | zero => exact fun b hb => absurd hb (Nat.not_lt_zero b)
  | succ n ih =>
    -- A production inside a rule is read with a smaller budget.
    have hread {q : Production} (hq : Clear q.after rest) (seen : Seen) :
        Refuses (n + 1) (read · q (.tree e :: rest) seen) :=
      read_refuses (ih hq seen)
    refine choose_refuses ?_ _ _
    rintro ⟨rule, index⟩ hx
    have hrule : rule ∈ p.rules := fst_mem_of_mem_zipIdx hx
    have hafter : Clear rule.after rest := hrest.mono (rule_subset hrule).2
    cases rule with
    | via q => exact (hread hafter _).declines
    | parts action parts =>
      obtain ⟨part, more, rfl, hmore⟩ := exists_parts hrule
      cases part with
      | production q =>
        exact (matchParts_production_refuses (hread hafter _)).declines
      | token kind => exact (matchParts_token_refuses fun _ h => by cases h).declines
      | tree shape =>
        obtain ⟨next, parts, rfl⟩ := exists_cons_of_ne_nil (hmore ⟨shape, rfl⟩)
        exact matchParts_tree_declines hafter e _

theorem read_refuses_of_after (hrest : Clear p.after rest) (e : Expr) (seen : Seen) :
    Refuses n (read · p (.tree e :: rest) seen) :=
  (read_refuses (pick_refuses_of_after hrest e seen)).pred

/-- A rule that fits wins if the others that may be tried lose against it. -/
theorem pick_finds_of_rule (hx : x ∈ p.rules.zipIdx) (hsite : (p, x.2) ∉ seen)
    (hfinds : Finds n (tryRule · p x.1 stack ((p, x.2) :: seen)) found)
    (hothers : ∀ y ∈ p.rules.zipIdx, y ≠ x → (p, y.2) ∉ seen →
      Loses n (tryRule · p y.1 stack ((p, y.2) :: seen)) found) :
    Finds n (pick · p stack seen) found := by
  refine choose_finds ?_ (.inr ⟨by simp, x, hx, hsite, hfinds⟩) _ _
  intro y hy hysite
  by_cases hyx : y = x
  · exact .inl (hyx ▸ hfinds)
  · exact .inr (hothers y hy hyx hysite)

/-- A rule that cannot begin with the first token loses against any other. -/
theorem loses_of_first (hx : x ∈ p.rules.zipIdx) (ht : t.kind ∉ x.1.first) :
    Loses n (tryRule · p x.1 (.token t :: stack) seen) found :=
  .inl (tryRule_refuses_of_first (fst_mem_of_mem_zipIdx hx) ht _ _).declines

section Few

variable {rule' : Rule} {e : Expr}

/-- The first of two rules wins. -/
theorem pick_finds_first (hp : p.rules = [rule, rule']) (hsite : (p, 0) ∉ seen)
    (hfinds : Finds n (tryRule · p rule stack ((p, 0) :: seen)) found)
    (hother : Loses n (tryRule · p rule' stack ((p, 1) :: seen)) found) :
    Finds n (pick · p stack seen) found := by
  refine pick_finds_of_rule (x := (rule, 0)) (by simp [hp]) hsite hfinds fun y hy hne _ => ?_
  rw [hp] at hy
  obtain rfl := mem_singleton.mp ((mem_cons.mp hy).resolve_left hne)
  exact hother

/-- The second of two rules wins. -/
theorem pick_finds_second (hp : p.rules = [rule, rule']) (hsite : (p, 1) ∉ seen)
    (hfinds : Finds n (tryRule · p rule' stack ((p, 1) :: seen)) found)
    (hother : Loses n (tryRule · p rule stack ((p, 0) :: seen)) found) :
    Finds n (pick · p stack seen) found := by
  refine pick_finds_of_rule (x := (rule', 1)) (by simp [hp]) hsite hfinds fun y hy hne _ => ?_
  rw [hp] at hy
  rcases mem_cons.mp hy with rfl | hy
  · exact hother
  · exact absurd (mem_singleton.mp hy) hne

/-- There is only one rule. -/
theorem pick_finds_only (hp : p.rules = [rule]) (hsite : (p, 0) ∉ seen)
    (hfinds : Finds n (tryRule · p rule stack ((p, 0) :: seen)) found) :
    Finds n (pick · p stack seen) found := by
  refine pick_finds_of_rule (x := (rule, 0)) (by simp [hp]) hsite hfinds fun y hy hne _ => ?_
  rw [hp] at hy
  exact absurd (mem_singleton.mp hy) hne

/-- A production that cannot go on gives the tree of the rule that it picks. -/
theorem read_finds_of_pick (hrest : Clear p.after rest)
    (hpick : Finds n (pick · p (item :: stack) seen) (e, rest)) :
    Finds n (read · p (item :: stack) seen) (e, rest) :=
  read_finds (extend_again hpick (extend_stops (pick_refuses_of_after hrest e seen)))

end Few

end Parley.Grammar
