import Parley.Proofs.Grammar.Lead

/-!
# Blocks

`a; b; c` is `a` followed by the block `b; c`: a block has two parts, and the first of them is no
block. The rule for blocks does provide for a block on its left and adds a part to it, and a reader
that works on nodes can do so in place. Then all that hold the block see it change: the productions
that have put it back, the rules that are tried next, the trees that have been built from it. The
reader below is such a reader. It looks at trees as they are now, and whatever growing a block does
to them is left open as `grow`.

A block never grows. What follows a semicolon is read with no rule under way, so it goes on as far
as it can, and what it leaves is not a semicolon with an expression after it (`not_goesOn`). The
same is left when the block is put back, so the rule does not fit there. Hence the reader that works
in place is the reader, whatever `grow` is.
-/

namespace Parley

open List

namespace Expr

variable {e c : Expr}

/-- The trees that a tree is made of. -/
def children : Expr → List Expr
  | .array es | .block es | .elementList es => es
  | .object ps | .argList ps => ps.map Prod.snd
  | .closure _ _ e | .member e _ | .help e | .attempt e | .group e | .negate e | .arg _ e => [e]
  | .ifThen c y n => [c, y, n]
  | .assign e e' | .subscript e e' => [e, e']
  | .call f args => f :: args.map Prod.snd
  | .opCall op left right => [op, left, right]
  | _ => []

def isBlock : Expr → Bool
  | .block _ => true
  | _ => false

/-- Each block in the tree, at any depth, has two parts, and the first is no block. -/
def Chained (e : Expr) : Prop :=
  ∀ parts, Relation.ReflTransGen (fun e c => c ∈ e.children) e (.block parts) →
    ∃ first second, parts = [first, second] ∧ first.isBlock = false

theorem Chained.child (h : e.Chained) (hc : c ∈ e.children) : c.Chained :=
  fun parts hparts => h parts (.head hc hparts)

theorem chained_of_children (h : ∀ c ∈ e.children, c.Chained)
    (hself : ∀ parts, e = .block parts →
      ∃ first second, parts = [first, second] ∧ first.isBlock = false) : e.Chained := by
  intro parts hparts
  rcases hparts.cases_head with heq | ⟨c, hc, hparts⟩
  · exact hself parts heq
  · exact h c hc parts hparts

theorem mem_putArg {name : String} {args : List (String × Expr)}
    (h : c ∈ (putArg name e args).map Prod.snd) : c = e ∨ c ∈ args.map Prod.snd := by
  induction args with
  | nil => exact .inl (mem_singleton.mp h)
  | cons arg args ih =>
    rw [putArg] at h
    split at h
    · rw [map_cons, mem_cons] at h
      exact h.imp_right (mem_cons_of_mem _)
    · rw [map_cons, mem_cons] at h ⊢
      exact or_left_comm.mp (h.imp_right ih)

end Expr

namespace Grammar

variable {action : Action} {items : List Item} {e : Expr} {stack rest : Stack} {found : Found}
  {b : Nat} {p : Production} {item : Item}

/-! ### What rules build -/

/-- Does the rule add a part to a block that is there already? -/
def Action.grows : Action → List Item → Bool
  | .block, [.tree e, _, .tree _] => e.isBlock
  | _, _ => false

/-- Where no block grows, what a rule builds from chained trees is chained. Only the rule for blocks
builds blocks. -/
theorem chained_of_build (hitems : ∀ e, .tree e ∈ items → e.Chained)
    (hgrows : action.grows items = false) (h : (action.build items).result = .ok e) :
    e.Chained ∧ (e.isBlock = true → action = .block) := by
  suffices hparts : (∀ c ∈ e.children, c.Chained) ∧ ∀ parts, e = .block parts → action = .block ∧
      ∃ first second, parts = [first, second] ∧ first.isBlock = false by
    refine ⟨Expr.chained_of_children hparts.1 fun parts he => (hparts.2 parts he).2, fun he => ?_⟩
    unfold Expr.isBlock at he
    split at he
    · exact (hparts.2 _ rfl).1
    · cases he
  unfold Action.build at h
  split at h
  case h_2 =>
    obtain ⟨n, -, h⟩ := Traced.result_bind_eq_ok_iff.mp h
    cases h
    simp [Expr.children]
  all_goals
    cases h
    try grind [Expr.children, Expr.isBlock, Action.grows, Expr.mem_putArg, Expr.Chained.child]

/-! ### Reading in place -/

/-- What has become of the trees: how a tree looks now that was built as the given one. -/
abbrev Memory := Expr → Expr

/-- How an item looks now. -/
def Item.now (m : Memory) : Item → Item
  | .tree e => .tree (m e)
  | .token t => .token t

/-- An outcome that may come with changes of the trees that have been built before. -/
abbrev Sharing := Memory → Outcome × Memory

namespace Sharing

/-- Nothing is changed. -/
def still (o : Outcome) : Sharing :=
  fun m => (o, m)

/-- Goes on after something was found and after nothing was, with what has become of the trees. -/
def next (x : Sharing) (onFound : Found → Sharing) (onRefused : Sharing) : Sharing :=
  fun m =>
    match x m with
    | (.found f, m) => onFound f m
    | (.refused, m) => onRefused m
    | (.halted, m) => (.halted, m)

/-- Goes on if the tree has the shape, as it looks now. -/
def onShape (shape : Shape) (e : Expr) (x : Sharing) : Sharing :=
  fun m => if shape.fits (m e) then x m else (.refused, m)

end Sharing

section Reader

variable (grow : List Item → Stack → Sharing)

/-- Builds the tree of a rule from its items as they look now. -/
def finishShared (action : Action) (items : List Item) (rest : Stack) : Sharing :=
  fun m =>
    let items := items.map (Item.now m)
    if action.grows items then grow items rest m else (outcome (finish action items rest), m)

mutual

/-- Reads a production. -/
def readShared : Nat → Production → Stack → Seen → Sharing
  | 0, _, _, _ | _ + 1, _, [], _ => .still .halted
  | b + 1, p, item :: stack, seen => extendShared b p (item :: stack) seen none

/-- Goes on with a production. -/
def extendShared : Nat → Production → Stack → Seen → Option Found → Sharing
  | 0, _, _, _, _ => .still .halted
  | b + 1, p, stack, seen, last =>
    (chooseShared b p stack seen 0 p.rules none).next
      (fun f => extendShared b p (.tree f.1 :: f.2) seen (some f)) (.still (.ofLast last))

/-- Tries the rules of a production from position `index` on. -/
def chooseShared : Nat → Production → Stack → Seen → Nat → List Rule → Option Found → Sharing
  | 0, _, _, _, _, _, _ => .still .halted
  | _ + 1, _, _, _, _, [], best => .still (.ofLast best)
  | b + 1, p, stack, seen, index, rule :: rules, best =>
    if seen.contains (p, index) then chooseShared b p stack seen (index + 1) rules best
    else
      let attempt :=
        match rule with
        | .via q => readShared b q stack ((p, index) :: seen)
        | .parts action parts => matchShared b action parts stack ((p, index) :: seen) false []
      attempt.next
        (fun f => chooseShared b p stack seen (index + 1) rules (some (better best f)))
        (chooseShared b p stack seen (index + 1) rules best)

/-- Matches the parts of a rule. -/
def matchShared : Nat → Action → List Part → Stack → Seen → Bool → List Item → Sharing
  | 0, _, _, _, _, _, _ => .still .halted
  | _ + 1, action, [], stack, _, _, taken => finishShared grow action taken.reverse stack
  | _ + 1, _, _ :: _, [], _, opened, _ => .still (if opened then .halted else .refused)
  | b + 1, action, .production q :: parts, item :: stack, seen, opened, taken =>
    (readShared b q (item :: stack) seen).next
      (fun f => matchShared b action parts f.2 seen opened (.tree f.1 :: taken)) (.still .refused)
  | b + 1, action, .token kind :: parts, .token t :: stack, _, opened, taken =>
    if t.kind = kind then
      matchShared b action parts stack [] (opened || kind.opens) (.token t :: taken)
    else .still .refused
  | b + 1, action, .tree shape :: parts, .tree e :: stack, _, opened, taken =>
    .onShape shape e (matchShared b action parts stack [] opened (.tree e :: taken))
  | _ + 1, _, _ :: _, _ :: _, _, _, _ => .still .refused

end

end Reader

/-! ### How far an expression goes -/

/-- A block could go on: there is a semicolon, and an expression after it. -/
def GoesOn (rest : Stack) : Prop :=
  ∃ t item more b f, rest = .token t :: item :: more ∧ t.kind = .semicolon ∧
    readOutcome b .expression (item :: more) [] = .found f

/-- A production stops where its rules refuse what it has put back. -/
theorem exists_refused {seen : Seen}
    (h : readOutcome b p stack seen = .found found) :
    ∃ b', chooseOutcome b' p (.tree found.1 :: found.2) seen 0 p.rules none = .refused := by
  obtain ⟨b, g, -, h, -⟩ := exists_choose_of_readOutcome h
  induction b generalizing g with
  | zero => cases h
  | succ b ih =>
    rw [extendOutcome_succ b p (cons_ne_nil _ _)] at h
    cases hc : chooseOutcome b p (.tree g.1 :: g.2) seen 0 p.rules none with
    | halted => rw [hc] at h; cases h
    | found g => rw [hc] at h; exact ih g h
    | refused =>
      rw [hc] at h
      cases h
      exact ⟨b, hc⟩

/-- The rule for blocks fits a tree, a semicolon and an expression. -/
theorem block_within {t : Token} {f : Found} (ht : t.kind = .semicolon)
    (h : readOutcome b .expression (item :: stack) [] = .found f) (e : Expr) (seen : Seen)
    (n : Nat) :
    (matchOutcome n .block .block [.tree .any, .token .semicolon, .production .expression]
      (.tree e :: .token t :: item :: stack) seen false []).Within f.2.length := by
  obtain _ | n := n
  · exact .inl rfl
  rw [matchOutcome_tree]
  obtain _ | n := n
  · exact .inl rfl
  rw [matchOutcome_token, if_pos ht]
  obtain _ | n := n
  · exact .inl rfl
  rw [matchOutcome_production]
  have hread : (readOutcome n .expression (item :: stack) []).Within f.2.length :=
    (readOutcome_of_found h n).imp_right fun hn => ⟨f, hn, Nat.le_refl _⟩
  refine hread.next fun g hg => ?_
  obtain _ | n := n
  · exact .inl rfl
  obtain ⟨e', he'⟩ := block_builds e g.1 t
  have hbuild : (Action.block.build [.tree g.1, .token t, .tree e].reverse).result = .ok e' := he'
  rw [matchOutcome_nil, hbuild]
  exact .inr ⟨_, rfl, hg⟩

/-- **An expression goes as far as it can**: what it leaves is not a semicolon with an expression
after it. -/
theorem not_goesOn (h : readOutcome b .expression stack [] = .found found) : ¬ GoesOn found.2 := by
  rintro ⟨t, item, more, b', f, hrest, ht, hf⟩
  obtain ⟨n, hn⟩ := exists_refused h
  have hplace : (Rule.via .block, 12) ∈ Production.expression.rules.zipIdx := by decide
  have hblock (n : Nat) : (ruleOutcome n .expression (.via .block)
      (.tree found.1 :: .token t :: item :: more) [(.expression, 12)]).Within f.2.length :=
    readOutcome_le_rule mem_cons_self (by decide) (cons_ne_nil _ _)
      (block_within ht hf found.1 _) n
  have hchoose := chooseOutcome_le_rule hplace not_mem_nil hblock n none
  rw [← hrest, hn] at hchoose
  rcases hchoose with hhalted | ⟨g, hg, -⟩
  · cases hhalted
  · cases hg

/-! ### The two readers -/

/-- A stack that there is in a reading: its trees are chained, and no block in it could go on. -/
def Fit (stack : Stack) : Prop :=
  ∀ e rest, .tree e :: rest <:+ stack → e.Chained ∧ (e.isBlock = true → ¬ GoesOn rest)

theorem Fit.tail (h : Fit (item :: stack)) : Fit stack :=
  fun e rest hsuffix => h e rest (hsuffix.trans (suffix_cons _ _))

theorem Fit.cons (h : Fit rest) (he : e.Chained) (hends : e.isBlock = true → ¬ GoesOn rest) :
    Fit (.tree e :: rest) := by
  intro e' rest' hsuffix
  rcases suffix_cons_iff.mp hsuffix with heq | hsuffix
  · cases heq
    exact ⟨he, hends⟩
  · exact h e' rest' hsuffix

/-- How far the rule for blocks has come: what is left of its parts, the stack, the rules under way
and what has been taken. -/
inductive BlockUnderWay : List Part → Stack → Seen → List Item → Prop
  | start (stack : Stack) (seen : Seen) :
      BlockUnderWay [.tree .any, .token .semicolon, .production .expression] stack seen []
  | left {e : Expr} {rest : Stack} (h : e.isBlock = true → ¬ GoesOn rest) :
      BlockUnderWay [.token .semicolon, .production .expression] rest [] [.tree e]
  | semicolon {e : Expr} {rest : Stack} {t : Token} (ht : t.kind = .semicolon)
      (h : e.isBlock = true → ¬ GoesOn (.token t :: rest)) :
      BlockUnderWay [.production .expression] rest [] [.token t, .tree e]
  | right {e : Expr} {rest : Stack} (e' : Expr) (t : Token) (he : e.isBlock = false)
      (h : ¬ GoesOn rest) : BlockUnderWay [] rest [] [.tree e', .token t, .tree e]

theorem block_parts {parts : List Part} (h : Rule.parts .block parts ∈ p.rules) :
    parts = [.tree .any, .token .semicolon, .production .expression] := by
  cases p <;> simp [Production.rules] at h
  exact h

/-- Nothing is changed, and it comes to an outcome in which what is found fits. -/
structure Agrees (x : Sharing) (o : Outcome) : Prop where
  same : x id = (o, id)
  fit : ∀ {f}, o = .found f → Fit (.tree f.1 :: f.2)

namespace Agrees

theorem refused : Agrees (.still .refused) .refused where
  same := rfl
  fit h := by cases h

theorem halted : Agrees (.still .halted) .halted where
  same := rfl
  fit h := by cases h

theorem ofLast {last : Option Found} (h : ∀ f ∈ last, Fit (.tree f.1 :: f.2)) :
    Agrees (.still (.ofLast last)) (.ofLast last) := by
  cases last with
  | none => exact .refused
  | some f =>
    refine ⟨rfl, ?_⟩
    rintro _ ⟨⟩
    exact h f rfl

theorem next {x onRefused : Sharing} {o other : Outcome} {onFound : Found → Sharing}
    {onFound' : Found → Outcome} (h : Agrees x o)
    (hfound : ∀ f, o = .found f → Fit (.tree f.1 :: f.2) → Agrees (onFound f) (onFound' f))
    (hother : Agrees onRefused other) :
    Agrees (x.next onFound onRefused) (o.next onFound' other) := by
  cases o with
  | found f =>
    have hf := hfound f rfl (h.fit rfl)
    exact ⟨by simpa [Sharing.next, h.same] using hf.same, hf.fit⟩
  | refused => exact ⟨by simpa [Sharing.next, h.same] using hother.same, hother.fit⟩
  | halted => exact ⟨by simp [Sharing.next, h.same], halted.fit⟩

theorem onShape {x : Sharing} {o : Outcome} (h : Agrees x o) (shape : Shape) (e : Expr) :
    Agrees (.onShape shape e x) (if shape.fits e then o else .refused) := by
  split
  · next hfits => exact ⟨(if_pos hfits).trans h.same, h.fit⟩
  · next hfits => exact ⟨if_neg hfits, refused.fit⟩

end Agrees

section Agreement

variable {grow : List Item → Stack → Sharing}

/-- Where a rule is through, no block grows. -/
theorem finishShared_agrees {taken : List Item} {seen : Seen} (hrest : Fit rest)
    (htaken : ∀ e, .tree e ∈ taken → e.Chained)
    (hblock : action = .block → BlockUnderWay [] rest seen taken) :
    Agrees (finishShared grow action taken.reverse rest)
      (outcome (finish action taken.reverse rest)) := by
  have hnow : taken.reverse.map (Item.now id) = taken.reverse :=
    map_id'' (fun item => by cases item <;> rfl) _
  have hgrows : action.grows taken.reverse = false := by
    cases action with
    | block => cases hblock rfl with | right e' t he h => exact he
    | _ => rfl
  refine ⟨by rw [finishShared, hnow, hgrows]; rfl, fun hf => ?_⟩
  unfold outcome at hf
  split at hf
  · next f hok =>
    cases hf
    obtain ⟨rfl, hbuild⟩ := finish_eq_ok hok
    obtain ⟨hchained, haction⟩ := chained_of_build (by simpa using htaken) hgrows hbuild
    refine hrest.cons hchained fun he => ?_
    cases hblock (haction he) with
    | right e' t he h => exact h
  all_goals cases hf

mutual

/-- **No block grows**: the two readers agree, in all four parts. -/
theorem readShared_agrees {b p stack seen} (hstack : Fit stack) :
    Agrees (readShared grow b p stack seen) (readOutcome b p stack seen) := by
  match b, stack with
  | 0, _ | _ + 1, [] => exact .halted
  | b + 1, item :: stack => exact extendShared_agrees hstack (cons_ne_nil _ _) (by simp)

theorem extendShared_agrees {b p stack seen last} (hstack : Fit stack) (hne : stack ≠ [])
    (hlast : ∀ f ∈ last, Fit (.tree f.1 :: f.2)) :
    Agrees (extendShared grow b p stack seen last) (extendOutcome b p stack seen last) := by
  match b with
  | 0 => exact .halted
  | b + 1 =>
    rw [extendOutcome_succ b p hne]
    refine (chooseShared_agrees (fun _ hr => hr) hstack (by simp)).next (fun f _ hf => ?_)
      (.ofLast hlast)
    exact extendShared_agrees hf (cons_ne_nil _ _) (by simpa using hf)

theorem chooseShared_agrees {b p stack seen index rules best}
    (hrules : ∀ rule ∈ rules, rule ∈ p.rules) (hstack : Fit stack)
    (hbest : ∀ f ∈ best, Fit (.tree f.1 :: f.2)) :
    Agrees (chooseShared grow b p stack seen index rules best)
      (chooseOutcome b p stack seen index rules best) := by
  match b, rules with
  | 0, _ => exact .halted
  | _ + 1, [] =>
    rw [chooseOutcome_nil]
    exact .ofLast hbest
  | b + 1, rule :: rules =>
    obtain ⟨hrule, hrules⟩ := forall_mem_cons.mp hrules
    rw [chooseShared.eq_def, chooseOutcome_cons]
    dsimp only
    split
    · exact chooseShared_agrees hrules hstack hbest
    · refine Agrees.next ?_ (fun f _ hf => chooseShared_agrees hrules hstack ?_)
        (chooseShared_agrees hrules hstack hbest)
      · cases rule with
        | via q => exact readShared_agrees hstack
        | parts action parts =>
          refine matchShared_agrees hstack (by simp) ?_
          rintro rfl
          rw [block_parts hrule]
          exact .start _ _
      · rintro _ ⟨⟩
        rcases better_eq best f with h | h
        · rwa [h]
        · exact hbest _ h

/-- The items that the parts before `parts` have taken are `taken`. -/
theorem matchShared_agrees {b p action parts stack seen opened taken} (hstack : Fit stack)
    (htaken : ∀ e, .tree e ∈ taken → e.Chained)
    (hblock : action = .block → BlockUnderWay parts stack seen taken) :
    Agrees (matchShared grow b action parts stack seen opened taken)
      (matchOutcome b p action parts stack seen opened taken) := by
  match b, parts, stack with
  | 0, _, _ => exact .halted
  | _ + 1, [], stack =>
    exact finishShared_agrees hstack htaken hblock
  | _ + 1, _ :: _, [] =>
    cases opened with
    | true => exact .halted
    | false => exact .refused
  | b + 1, .production q :: parts, item :: stack =>
    rw [matchOutcome_production]
    refine (readShared_agrees hstack).next (fun f hread hf => ?_) .refused
    refine matchShared_agrees hf.tail ?_ fun haction => ?_
    · simpa using ⟨(hf _ _ suffix_rfl).1, htaken⟩
    · cases hblock haction with
      | semicolon ht h =>
        refine .right _ _ (Bool.eq_false_iff.mpr fun he => ?_) (not_goesOn hread)
        exact h he ⟨_, _, _, b, f, rfl, ht, hread⟩
  | b + 1, .token kind :: parts, .token t :: stack =>
    rw [matchShared, matchOutcome_token]
    split
    · next hkind =>
      refine matchShared_agrees hstack.tail (by simpa using htaken) fun haction => ?_
      cases hblock haction with
      | left h => exact .semicolon hkind h
    · exact .refused
  | b + 1, .tree shape :: parts, .tree e :: stack =>
    rw [matchOutcome_tree]
    obtain ⟨he, hends⟩ := hstack e stack suffix_rfl
    refine (matchShared_agrees hstack.tail ?_ fun haction => ?_).onShape shape e
    · simpa using ⟨he, htaken⟩
    · cases hblock haction with
      | start => exact .left hends
  | _ + 1, .token _ :: _, .tree _ :: _ | _ + 1, .tree _ :: _, .token _ :: _ => exact .refused

end

end Agreement

/-- **Blocks nest to the right.** In the tree of a list of tokens each block, at any depth, has two
parts, and the first of them is no block. On the way to it no rule makes a block grow, whether it is
given up later or not: the reader that works in place comes to what the reader comes to, and finds
all trees as they were built, whatever growing does. -/
theorem parse_blocks (tokens : List Token) :
    (∀ e, (parse tokens).result = .ok e → e.Chained) ∧
    ∀ (grow : List Item → Stack → Sharing) (b : Nat),
      readShared grow b .statement (tokens.map .token) [] id =
        (outcome (read b .statement (tokens.map .token) []), id) := by
  have hstack : Fit (tokens.map .token) := by
    intro e rest hsuffix
    simpa using hsuffix.subset mem_cons_self
  refine ⟨fun e he => ?_, fun grow b => (readShared_agrees hstack).same⟩
  obtain ⟨found, hread, hend⟩ := Traced.result_bind_eq_ok_iff.mp he
  have hfound : readOutcome (budgetFor tokens.length) .statement (tokens.map .token) [] =
      .found found := by
    rw [readOutcome, outcome, hread]
  have hfit := (@readShared_agrees (fun _ _ => .still .halted) _ _ _ _ hstack).fit hfound
  split at hend
  · cases hend
    exact (hfit _ _ suffix_rfl).1
  · cases hend

/-- On a stack with a block, which no list of tokens leads to, the block would grow. -/
example : (readShared (fun _ _ => .still .refused) 99 .block
    [.tree (.block []), .token ⟨.semicolon, ";"⟩, .token ⟨.name, "a"⟩] [] id).1 = .refused := rfl

/-- Three statements in a row. -/
theorem parse_blocks_three :
    (parse
        [⟨.name, "a"⟩, ⟨.semicolon, ";"⟩, ⟨.name, "b"⟩, ⟨.semicolon, ";"⟩, ⟨.name, "c"⟩]).result =
        .ok (.block [.lookup "a", .block [.lookup "b", .lookup "c"]]) ∧
      (Expr.block [.lookup "a", .block [.lookup "b", .lookup "c"]]).Chained := by
  refine ⟨?parsed, (parse_blocks _).1 _ ?parsed⟩
  rfl

end Grammar

end Parley
