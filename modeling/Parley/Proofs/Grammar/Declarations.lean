import Parley.Proofs.Grammar.First
import Parley.Proofs.Grammar.Phrase
import Parley.Proofs.Grammar.Termination
import Parley.Proofs.Token.Literals
import Parley.Value.Shape

/-!
# Declarations of data

`let x = …` with data on the right: null, truth values, integers, texts, arrays and objects of such
data. The tokens of such a statement are read as the declaration of `x` and the tree of the data,
however deeply these are nested.

The reader finds this tree because of all rules that it tries on the way only one fits at each
place. The first token tells most of them apart (`Production.first`). The call of a function begins
with an expression as well, but it needs a parenthesis after it, and what stands after data is a
comma, a bracket or the end (`Closing`).
-/

namespace Parley

open List

variable {q : Production} {ts : List Token} {x : Rule × Nat}

/-- The token between the parts of a list. -/
def Token.comma : Token := ⟨.comma, ","⟩

/-- Lists of tokens with commas between them. -/
def Token.separated : List (List Token) → List Token
  | [] => []
  | part :: parts => part ++ parts.flatMap (Token.comma :: ·)

namespace Shape

/-- Null, truth values, integers that are not negative and have not too many digits, texts without
quotes, backslashes and carriage returns, and arrays and objects of such data; the properties of an
object have different names. -/
inductive Saveable : Shape → Prop
  | null : Saveable (.leaf .null)
  | bool (b : Bool) : Saveable (.leaf (.constant (.bool b)))
  | int (n : Nat) (h : n < Number.tenTo Number.digitLimit) :
      Saveable (.leaf (.constant (.int n)))
  | text (s : String) (hquote : '"' ∉ s.toList) (hback : '\\' ∉ s.toList)
      (hreturn : '\r' ∉ s.toList) : Saveable (.leaf (.text s))
  | array (es : List Shape) (h : ∀ e ∈ es, Saveable e) : Saveable (.array es)
  | object (ps : List (String × Shape)) (hnames : ∀ p ∈ ps, Token.scan p.1 = .ok [⟨.name, p.1⟩])
      (hdistinct : (ps.map Prod.fst).Nodup) (h : ∀ p ∈ ps, Saveable p.2) : Saveable (.object ps)

mutual

/-- The tree that stands for data. -/
def tree : Shape → Expr
  | .leaf (.constant .null) => .lookup "null"
  | .leaf (.constant (.bool b)) => .lookup (if b then "true" else "false")
  | .leaf (.constant c) => .constant c
  | .leaf _ => .constant .null
  | .array es => .array (treeAll es)
  | .object ps => .object (treeNamed ps)

/-- `tree` for several data. -/
def treeAll : List Shape → List Expr
  | [] => []
  | e :: es => tree e :: treeAll es

/-- `tree` for named data. -/
def treeNamed : List (String × Shape) → List (String × Expr)
  | [] => []
  | (k, e) :: ps => (k, tree e) :: treeNamed ps

end

mutual

/-- The tokens that data are written with. -/
def tokens : Shape → List Token
  | .leaf (.constant .null) => [⟨.name, "null"⟩]
  | .leaf (.constant (.bool b)) => [⟨.name, if b then "true" else "false"⟩]
  | .leaf (.constant (.int n)) => [⟨.integer, n.natAbs.repr⟩]
  | .leaf (.constant (.text s)) => [⟨.text, Constant.quotedText s⟩]
  | .leaf _ => []
  | .array es => ⟨.leftBracket, "["⟩ :: (Token.separated (tokensAll es) ++ [⟨.rightBracket, "]"⟩])
  | .object ps =>
    ⟨.leftBrace, "\x7b"⟩ :: (Token.separated (tokensNamed ps) ++ [⟨.rightBrace, "\x7d"⟩])

/-- The tokens of several data, one list for each. -/
def tokensAll : List Shape → List (List Token)
  | [] => []
  | e :: es => tokens e :: tokensAll es

/-- The tokens of properties, one list for each. -/
def tokensNamed : List (String × Shape) → List (List Token)
  | [] => []
  | (k, e) :: ps => (⟨.name, k⟩ :: ⟨.colon, ":"⟩ :: tokens e) :: tokensNamed ps

end

theorem treeAll_eq_map (es : List Shape) : treeAll es = es.map tree := by
  induction es with
  | nil => rfl
  | cons e es ih => rw [treeAll, ih, map_cons]

theorem treeNamed_eq_map (ps : List (String × Shape)) :
    treeNamed ps = ps.map fun p => (p.1, p.2.tree) := by
  induction ps with
  | nil => rfl
  | cons p ps ih => rw [treeNamed, ih, map_cons]

theorem tokensAll_eq_map (es : List Shape) : tokensAll es = es.map tokens := by
  induction es with
  | nil => rfl
  | cons e es ih => rw [tokensAll, ih, map_cons]

theorem tokensNamed_eq_map (ps : List (String × Shape)) :
    tokensNamed ps = ps.map fun p => ⟨.name, p.1⟩ :: ⟨.colon, ":"⟩ :: p.2.tokens := by
  induction ps with
  | nil => rfl
  | cons p ps ih => rw [tokensNamed, ih, map_cons]

end Shape

namespace Grammar

/-! ### Lists -/

/-- What may follow data. -/
abbrev Closing (rest : Stack) : Prop :=
  Clear (.leftParen :: Production.after .expression) rest

/-- Rules that do not keep the reader from trying those that data are read by. -/
def harmless : Production × Nat → Bool
  | (.expression, index) => index == 9
  | (.variableName, _) | (.constant, _) | (.array, _) | (.dictObject, _) | (.arg, _) => false
  | _ => true

/-- The production reads these tokens as this tree if what comes after them may follow data. -/
def Gives (q : Production) (ts : List Token) (e : Expr) : Prop :=
  (∃ t more, ts = t :: more ∧ t.kind ∈ q.first) ∧
    ∀ {rest seen} n, Closing rest → (∀ site ∈ seen, harmless site = true) →
      Finds n (read · q (ts.map .token ++ rest) seen) (e, rest)

section Lists

/-- A production for lists of items with commas between them, and how its trees are built. -/
structure ListOf {α : Type} (list item : Production) (shape : Shape) (action : Action)
    (wrap : List α → Expr) (tree : α → Expr) (all : List α) : Prop where
  rules : list.rules = [ .parts action [.tree shape, .token .comma, .production item],
      .parts action [.production item] ]
  fits : ∀ as, shape.fits (wrap as) = true
  first : ∀ a ∈ all, (action.build [.tree (tree a)]).result = .ok (wrap [a])
  next : ∀ front a back, all = front ++ a :: back →
    (action.build [.tree (wrap front), .token Token.comma, .tree (tree a)]).result =
      .ok (wrap (front ++ [a]))
  comma : Token.Kind.comma ∉ item.after
  harmless : ∀ index, harmless (list, index) = true

variable {α : Type} {list item : Production} {shape : Shape} {action : Action}
  {wrap : List α → Expr} {tree : α → Expr} {tokens : α → List Token} {all : List α} {rest : Stack}
  {n : Nat}

/-- The tokens of further items, each after a comma. -/
def further (tokens : α → List Token) (as : List α) (rest : Stack) : Stack :=
  (as.flatMap fun a => Token.comma :: tokens a).map .token ++ rest

theorem further_cons (a : α) (as : List α) : further tokens (a :: as) rest =
      .token Token.comma :: ((tokens a).map .token ++ further tokens as rest) := by
  simp [further]

theorem closing_further (hrest : Closing rest) (as : List α) :
    Closing (further tokens as rest) := by
  cases as with
  | nil => exact hrest
  | cons a as => exact .inr ⟨Token.comma, _, further_cons a as, by decide⟩

section

variable (h : ListOf list item shape action wrap tree all)
  (hitems : ∀ a ∈ all, Gives item (tokens a) (tree a)) (hrest : Closing rest)

include h hitems hrest

/-- One more item after the list and a comma. -/
theorem ListOf.pick_next {front back : List α} {a : α} (hall : all = front ++ a :: back) :
    Finds n (pick · list (.tree (wrap front) :: further tokens (a :: back) rest) [])
      (wrap (front ++ [a]), further tokens back rest) := by
  obtain ⟨⟨t, ts, hts, -⟩, hread⟩ := hitems a (by rw [hall]; simp)
  rw [further_cons]
  refine pick_finds_first h.rules not_mem_nil ?_ (.inl (Refuses.declines ?_))
  · refine matchParts_tree_comes (h.fits front) (matchParts_token_comes rfl ?_)
    refine matchParts_production_comes (hread n (closing_further hrest back) (by simp)) ?_
    exact matchParts_nil_finds (h.next front a back hall)
  · -- The other rule asks for an item, but the list is none.
    exact matchParts_production_refuses
      (read_refuses_of_after (.inr ⟨Token.comma, _, rfl, h.comma⟩) _ _)

/-- The list is put back after each item, and the next item is added to it. -/
theorem ListOf.extends (hend : Clear list.after rest) {front back : List α}
    (hall : all = front ++ back) :
    Finds n (extend · list (.tree (wrap front) :: further tokens back rest) []
      (some (wrap front, further tokens back rest))) (wrap all, rest) := by
  induction back generalizing front with
  | nil =>
    rw [hall, append_nil]
    exact extend_stops (pick_refuses_of_after hend _ _)
  | cons a back ih =>
    have hnext : all = (front ++ [a]) ++ back := by
      rw [hall, append_assoc]
      rfl
    exact extend_again (h.pick_next hitems hrest hall) (ih hnext)

/-- Items with commas between them are read as a list. -/
theorem ListOf.finds (hend : Clear list.after rest) (hne : all ≠ []) :
    Finds n (read · list ((Token.separated (all.map tokens)).map .token ++ rest) [])
      (wrap all, rest) := by
  obtain ⟨a, back, rfl⟩ := exists_cons_of_ne_nil hne
  obtain ⟨⟨t, ts, hts, -⟩, hread⟩ := hitems a mem_cons_self
  have hstack : (Token.separated ((a :: back).map tokens)).map .token ++ rest =
      (tokens a).map .token ++ further tokens back rest := by
    simp [Token.separated, further, flatMap_map]
  rw [hstack]
  have hpick : Finds n (pick · list ((tokens a).map .token ++ further tokens back rest) [])
      (wrap [a], further tokens back rest) := by
    refine pick_finds_second h.rules not_mem_nil ?_ (.inl (Refuses.declines ?_))
    · exact matchParts_production_comes
        (hread n (closing_further hrest back) (by simp [h.harmless]))
        (matchParts_nil_finds (h.first a mem_cons_self))
    · rw [hts]
      exact matchParts_tree_refuses
  have hall : a :: back = [a] ++ back := rfl
  rw [hts] at hpick ⊢
  exact read_finds (extend_again hpick (h.extends hitems hrest hend hall))

end

/-- A production for lists between brackets. -/
structure Bracketed (whole list : Production) (left right : Token) (action : Action) : Prop where
  rules : whole.rules = [ .parts action [.token left.kind, .production list, .token right.kind],
      .parts action [.token left.kind, .token right.kind] ]
  after : whole.after = []
  first : right.kind ∉ list.first
  right : right.kind ∉ .leftParen :: Production.after .expression ++ list.after

variable {whole : Production} {left right : Token} {action' : Action} {seen : Seen} {e : Expr}

/-- Nothing between brackets. -/
theorem Bracketed.finds_nil (h : Bracketed whole list left right action')
    (hbuild : (action'.build [.token left, .token right]).result = .ok e)
    (hrest : Closing rest) (hseen : ∀ index, (whole, index) ∉ seen) :
    Finds n (read · whole (.token left :: .token right :: rest) seen) (e, rest) := by
  have hclear : Clear whole.after rest := hrest.mono (by rw [h.after]; simp)
  refine read_finds_of_pick hclear ?_
  refine pick_finds_second h.rules (hseen 1) ?_ (.inl (Refuses.declines ?_))
  · exact matchParts_token_comes rfl (matchParts_token_comes rfl (matchParts_nil_finds hbuild))
  · exact matchParts_token_comes rfl (matchParts_production_refuses
      (read_refuses_of_first h.first _ _))

/-- A list between brackets. -/
theorem Bracketed.finds_list (h : Bracketed whole list left right action')
    (hlist : ListOf list item shape action wrap tree all)
    (hitems : ∀ a ∈ all, Gives item (tokens a) (tree a)) (hne : all ≠ [])
    (hbuild : (action'.build [.token left, .tree (wrap all), .token right]).result = .ok e)
    (hrest : Closing rest) (hseen : ∀ index, (whole, index) ∉ seen) :
    Finds n (read · whole (.token left ::
      ((Token.separated (all.map tokens)).map .token ++ .token right :: rest)) seen) (e, rest) := by
  obtain ⟨hparen, hafter⟩ : right.kind ∉ .leftParen :: Production.after .expression ∧
      right.kind ∉ list.after := not_or.mp fun hor => h.right (mem_append.mpr hor)
  have hread := hlist.finds (n := n) hitems (.inr ⟨right, rest, rfl, hparen⟩)
    (.inr ⟨right, rest, rfl, hafter⟩) hne
  -- The list does not begin with the bracket on the right.
  obtain ⟨t, ts, hts, ht⟩ : ∃ t ts, Token.separated (all.map tokens) = t :: ts ∧
      t.kind ∈ list.first := by
    obtain ⟨a, back, rfl⟩ := exists_cons_of_ne_nil hne
    obtain ⟨⟨t, ts, hts, ht⟩, -⟩ := hitems a mem_cons_self
    have hrule : Rule.parts action [.production item] ∈ list.rules := by simp [hlist.rules]
    refine ⟨t, ts ++ (back.map tokens).flatMap (Token.comma :: ·), ?_, (rule_subset hrule).1 ht⟩
    rw [map_cons, Token.separated, hts, cons_append]
  have hclear : Clear whole.after rest := hrest.mono (by rw [h.after]; simp)
  refine read_finds_of_pick hclear ?_
  refine pick_finds_first h.rules (hseen 0) ?_ (.inl (Refuses.declines ?_))
  · refine matchParts_token_comes rfl (matchParts_production_comes hread ?_)
    exact matchParts_token_comes rfl (matchParts_nil_finds hbuild)
  · rw [hts]
    refine matchParts_token_comes rfl (matchParts_token_refuses fun t' ht' hkind => ?_)
    obtain rfl : t = t' := by simpa using ht'
    exact h.first (hkind ▸ ht)

end Lists

variable {e : Expr} {n index : Nat} {t : Token} {rest stack : Stack} {seen : Seen}

/-! ### Expressions -/

/-- A call needs a parenthesis after the function. -/
theorem call_pick_refuses (hrest : Clear [.leftParen] rest)
    (hread : ∀ index, Finds n (read · .expression stack ((.call, index) :: seen)) (e, rest)) :
    Refuses n (pick · .call stack seen) := by
  refine choose_refuses (fun x hx => ?_) _ _
  -- Both rules begin with an expression and a parenthesis.
  rcases mem_pair.mp hx with rfl | rfl
  · exact matchParts_production_comes (hread 0) (matchParts_token_declines hrest)
  · exact matchParts_production_comes (hread 1) (matchParts_token_declines hrest)

theorem call_refuses {item : Item} (hrest : Closing rest) (hread : ∀ index,
      Finds n (read · .expression (item :: stack) ((.call, index) :: seen)) (e, rest)) :
    Refuses n (read · .call (item :: stack) seen) :=
  (read_refuses (call_pick_refuses (hrest.mono (by simp)) hread)).pred

/-- The places of the productions that data are read by among the rules of an expression. -/
def dataRules : List (Rule × Nat) :=
  [(.via .variableName, 0), (.via .array, 1), (.via .dictObject, 2), (.via .constant, 3)]

theorem harmless_of_dataRules (h : (Rule.via q, index) ∈ dataRules) (i : Nat) :
    harmless (q, i) = false ∧ harmless (.expression, index) = false ∧ q ≠ .expression := by
  simp only [dataRules, mem_cons, not_mem_nil, or_false] at h
  rcases h with ⟨rfl, rfl⟩ | ⟨rfl, rfl⟩ | ⟨rfl, rfl⟩ | ⟨rfl, rfl⟩ <;> exact ⟨rfl, rfl, by decide⟩

/-- An expression that begins like data is read by the production that its first token tells. -/
theorem expression_gives (hq : (Rule.via q, index) ∈ dataRules)
    (hfirst : ∃ t more, ts = t :: more ∧ t.kind ∈ q.first)
    (hread : ∀ {rest seen} n, Closing rest → (∀ i, (q, i) ∉ seen) →
      Finds n (read · q (ts.map .token ++ rest) seen) (e, rest)) :
    Gives .expression ts e := by
  obtain ⟨t, more, rfl, ht⟩ := hfirst
  have hplaces : ∀ x ∈ dataRules, x ∈ (Production.rules .expression).zipIdx ∧
      ∀ y ∈ (Production.rules .expression).zipIdx, y ≠ x → y = (.via .call, 9) ∨
        ∀ kind ∈ x.1.first, kind ∉ y.1.first := by decide
  obtain ⟨hx, hothers⟩ := hplaces _ hq
  have hrule : Rule.via q ∈ Production.rules .expression := fst_mem_of_mem_zipIdx hx
  obtain ⟨-, hsite, hne⟩ := harmless_of_dataRules hq 0
  refine ⟨⟨t, more, rfl, (rule_subset hrule).1 ht⟩, fun {rest} seen n hrest hseen => ?_⟩
  have hclear : Clear Production.expression.after rest := hrest.mono (subset_cons_self _ _)
  have hpick {seen : Seen} (hseen : ∀ site ∈ seen, harmless site = true)
      (hcall : (Production.expression, 9) ∉ seen → Refuses n (read · .call
        ((t :: more).map .token ++ rest) ((.expression, 9) :: seen))) :
      Finds n (pick · .expression ((t :: more).map .token ++ rest) seen) (e, rest) := by
    have hunseen {p : Production} {i : Nat} (hp : harmless (p, i) = false) : (p, i) ∉ seen := by
      intro hmem
      rw [hseen _ hmem] at hp
      cases hp
    refine pick_finds_of_rule hx (hunseen hsite) (hread n hrest fun i hmem => ?_) ?_
    · rcases mem_cons.mp hmem with heq | hmem
      · exact hne (Prod.mk.inj heq).1
      · exact hunseen (harmless_of_dataRules hq i).1 hmem
    · intro y hy hyne hysite
      rcases hothers y hy hyne with rfl | hkind
      · exact .inl (hcall hysite).declines
      · exact loses_of_first hy (hkind _ ht)
  -- A call would begin with the same expression, in which calls are not tried.
  refine read_finds_of_pick hclear (hpick hseen fun _ => ?_)
  refine call_refuses (e := e) hrest fun i => ?_
  refine read_finds_of_pick hclear (hpick ?_ fun h => absurd (by simp) h)
  rw [forall_mem_cons, forall_mem_cons]
  exact ⟨rfl, rfl, hseen⟩

theorem variable_finds (ht : t.kind = .name)
    (hseen : ∀ i, (Production.variableName, i) ∉ seen) (hrest : Clear [] rest) :
    Finds n (read · .variableName (.token t :: rest) seen) (.lookup t.text, rest) :=
  read_finds_of_pick hrest
    (pick_finds_only rfl (hseen 0) (matchParts_token_comes ht (matchParts_nil_finds rfl)))

theorem constant_finds {action : Action} (hx : x ∈ (Production.rules .constant).zipIdx)
    (hrule : x.1 = .parts action [.token t.kind])
    (hbuild : (action.build [.token t]).result = .ok e)
    (hseen : ∀ i, (Production.constant, i) ∉ seen) (hrest : Clear [] rest) :
    Finds n (read · .constant (.token t :: rest) seen) (e, rest) := by
  refine read_finds_of_pick hrest (pick_finds_of_rule hx (hseen _) ?_ fun y hy hyne _ => ?_)
  · rw [hrule]
    exact matchParts_token_comes rfl (matchParts_nil_finds hbuild)
  · -- The three rules begin with tokens of different kinds.
    have hall : ∀ x ∈ (Production.rules .constant).zipIdx,
        ∀ y ∈ (Production.rules .constant).zipIdx, y ≠ x →
          ∀ kind ∈ x.1.first, kind ∉ y.1.first := by decide
    exact loses_of_first hy (hall x hx y hy hyne t.kind (by simp [hrule, Rule.first]))

/-! ### Operands -/

/-- An expression of one token: a name, a text, or an integer with not too many digits. -/
inductive Operand where
  | name (text : String)
  | text (text : String)
  | integer (digits : String) (short : digits.length ≤ Number.digitLimit)

namespace Operand

/-- The token of an operand. -/
def token : Operand → Token
  | .name s => ⟨.name, s⟩
  | .text s => ⟨.text, s⟩
  | .integer digits _ => ⟨.integer, digits⟩

/-- The tree of an operand. -/
def tree : Operand → Expr
  | .name s => .lookup s
  | .text s => .constant (.text (unquote s))
  | .integer digits _ => .constant (.int (Number.digitsValue digits.toList))

/-- The production that reads an operand, with its place among the rules of expressions. -/
def place : Operand → Production × Nat
  | .name _ => (.variableName, 0)
  | _ => (.constant, 3)

/-- The kinds of operands with their places. -/
def places : List (Token.Kind × Production × Nat) :=
  [(.name, .variableName, 0), (.text, .constant, 3), (.integer, .constant, 3)]

variable (c : Operand)

include c

theorem mem_places : (c.token.kind, c.place) ∈ places := by
  cases c <;> simp [places, place, token]

theorem kind_mem : c.token.kind ∈ [.name, .text, .integer] :=
  mem_map_of_mem (f := Prod.fst) c.mem_places

/-- The operand is read by its production. -/
theorem finds {rest : Stack} {seen : Seen} (hseen : ∀ i, (c.place.1, i) ∉ seen)
    (hrest : Clear [] rest) {n : Nat} :
    Finds n (read · c.place.1 (.token c.token :: rest) seen) (c.tree, rest) := by
  cases c with
  | name s => exact variable_finds rfl hseen hrest
  | text s =>
    have hx : (Rule.parts .text [.token .text], 0) ∈ (Production.rules .constant).zipIdx := by
      decide
    exact constant_finds hx rfl rfl hseen hrest
  | integer digits short =>
    have hx : (Rule.parts .integer [.token .integer], 1) ∈ (Production.rules .constant).zipIdx := by
      decide
    have hread : readInteger digits = .ok (Number.digitsValue digits.toList) := by
      rw [readInteger, if_pos short]
    have hbuild : (Action.build .integer [.token ⟨.integer, digits⟩]).result =
        .ok (.constant (.int (Number.digitsValue digits.toList))) :=
      Traced.result_bind_of_ok hread _
    exact constant_finds hx rfl hbuild hseen hrest

/-- Of the rules of an expression only that of the operand and that of calls fit. -/
theorem only_place :
    (Rule.via c.place.1, c.place.2) ∈ Production.expression.rules.zipIdx ∧
      ∀ x ∈ Production.expression.rules.zipIdx, x ≠ (.via c.place.1, c.place.2) →
        x ≠ (.via .call, 9) → c.token.kind ∉ x.1.first := by
  have hall : ∀ y ∈ places, (Rule.via y.2.1, y.2.2) ∈ Production.expression.rules.zipIdx ∧
        ∀ x ∈ Production.expression.rules.zipIdx, x ≠ (.via y.2.1, y.2.2) →
          x ≠ (.via .call, 9) → y.1 ∉ x.1.first := by decide
  exact hall _ c.mem_places

/-- An operand is an expression before anything that may follow data. -/
theorem gives : Gives .expression [c.token] c.tree := by
  have hall : ∀ y ∈ places, (Rule.via y.2.1, y.2.2) ∈ dataRules ∧ y.1 ∈ y.2.1.first := by decide
  obtain ⟨hplace, hkind⟩ := hall _ c.mem_places
  refine expression_gives hplace ⟨_, [], rfl, hkind⟩ ?_
  exact fun n hrest hseen => c.finds hseen (hrest.mono (nil_subset _))

end Operand

/-! ### Data -/

theorem build_elementList (s : Parley.Shape) :
    (Action.build .elementList [.tree s.tree]).result = .ok (.elementList [s.tree]) := by
  unfold Shape.tree
  split <;> rfl

theorem listOf_elements (es : List Parley.Shape) :
    ListOf .elementList .expression .elementList .elementList
      (fun es : List Parley.Shape => .elementList (es.map Shape.tree)) Shape.tree es where
  rules := rfl
  fits _ := rfl
  first s _ := build_elementList s
  next front a back _ := by
    rw [map_append]
    rfl
  comma := by decide
  harmless _ := rfl

theorem listOf_args {ps : List (String × Parley.Shape)} (h : (ps.map Prod.fst).Nodup) :
    ListOf .argList .arg .argList .argList
      (fun ps : List (String × Parley.Shape) => .argList (ps.map fun p => (p.1, p.2.tree)))
      (fun p => .arg p.1 p.2.tree) ps where
  rules := rfl
  fits _ := rfl
  first _ _ := rfl
  next front a back hall := by
    have hnew : a.1 ∉ (front.map fun p => (p.1, p.2.tree)).map Prod.fst := by
      rw [hall, map_append, nodup_append] at h
      intro hmem
      refine h.2.2 a.1 (by simpa using hmem) a.1 mem_cons_self rfl
    show Except.ok (Expr.argList (Expr.putArg _ _ _)) = _
    rw [Expr.putArg_of_not_mem hnew, map_append]
    rfl
  comma := by decide
  harmless _ := rfl

theorem bracketed_array :
    Bracketed .array .elementList ⟨.leftBracket, "["⟩ ⟨.rightBracket, "]"⟩ .array where
  rules := rfl
  after := rfl
  first := by decide
  right := by decide

theorem bracketed_object :
    Bracketed .dictObject .argList ⟨.leftBrace, "\x7b"⟩ ⟨.rightBrace, "\x7d"⟩ .object where
  rules := rfl
  after := rfl
  first := by decide
  right := by decide

theorem arg_gives (name : String) (h : Gives .expression ts e) :
    Gives .arg (⟨.name, name⟩ :: ⟨.colon, ":"⟩ :: ts) (.arg name e) := by
  obtain ⟨⟨t, more, rfl, -⟩, hread⟩ := h
  refine ⟨⟨_, _, rfl, by simp [Production.first]⟩, fun {rest} seen n hrest hseen => ?_⟩
  have hsite : (Production.arg, 0) ∉ seen := by
    intro hmem
    cases hseen _ hmem
  refine read_finds_of_pick (hrest.mono (nil_subset _)) (pick_finds_only rfl hsite ?_)
  refine matchParts_token_comes rfl (matchParts_token_comes rfl ?_)
  exact matchParts_production_comes (hread n hrest (by simp)) (matchParts_nil_finds rfl)

/-- Data are read as an expression, which is their tree. -/
theorem gives_of_saveable {s : Parley.Shape} (h : s.Saveable) :
    Gives .expression s.tokens s.tree := by
  induction h with
  | null | bool b => exact Operand.gives (.name _)
  | int n hn =>
    have hgives := Operand.gives (.integer n.repr ((Token.lt_tenTo_iff (by decide)).mp hn))
    rwa [Operand.tree, Token.digitsValue_repr] at hgives
  | text s hquote hback _ =>
    have hgives := Operand.gives (.text (Constant.quotedText s))
    rwa [Operand.tree, Token.unquote_quotedText hback] at hgives
  | array es h ih =>
    rw [Shape.tokens, Shape.tree, Shape.tokensAll_eq_map, Shape.treeAll_eq_map]
    have hplace : (Rule.via .array, 1) ∈ dataRules := by decide
    refine expression_gives hplace ⟨_, _, rfl, by simp [Production.first]⟩ ?_
    intro rest seen n hrest hseen
    rw [map_cons, map_append, cons_append, append_assoc]
    cases es with
    | nil => exact bracketed_array.finds_nil rfl hrest hseen
    | cons e es =>
      exact bracketed_array.finds_list (listOf_elements _) ih (cons_ne_nil _ _) rfl hrest hseen
  | object ps hnames hdistinct h ih =>
    rw [Shape.tokens, Shape.tree, Shape.tokensNamed_eq_map, Shape.treeNamed_eq_map]
    have hplace : (Rule.via .dictObject, 2) ∈ dataRules := by decide
    refine expression_gives hplace ⟨_, _, rfl, by simp [Production.first]⟩ ?_
    intro rest seen n hrest hseen
    rw [map_cons, map_append, cons_append, append_assoc]
    cases ps with
    | nil => exact bracketed_object.finds_nil rfl hrest hseen
    | cons p ps =>
      exact bracketed_object.finds_list (listOf_args hdistinct)
        (fun p hp => arg_gives p.1 (ih p hp)) (cons_ne_nil _ _) rfl hrest hseen

/-! ### Declarations -/

section Declaration

variable {word name sign : Token} (hword : word.kind = .letWord) (hname : name.kind = .name)
  (hsign : sign.kind = .eq)

include hword hname

theorem define_finds {rest : Stack} (hrest : Clear [] rest) {seen : Seen}
    (hsite : (Production.define, 0) ∉ seen) :
    Finds n (read · .define (.token word :: .token name :: rest) seen)
      (.define name.text, rest) := by
  refine read_finds_of_pick hrest (pick_finds_only rfl hsite ?_)
  refine matchParts_token_comes hword ?_
  exact matchParts_production_comes (variable_finds hname (by simp) hrest)
    (matchParts_nil_finds rfl)

include hsign

/-- What is declared stands before an equals sign. -/
theorem lvalue_finds (stack : Stack) :
    Finds n (read · .lvalue (.token word :: .token name :: .token sign :: stack)
      [(.assignment, 0), (.statement, 3)]) (.define name.text, .token sign :: stack) := by
  have hrest {kinds : List Token.Kind} (h : Token.Kind.eq ∉ kinds) :
      Clear kinds (.token sign :: stack) :=
    .inr ⟨sign, stack, rfl, hsign ▸ h⟩
  refine read_finds_of_pick (hrest (by decide)) (pick_finds_of_rule mem_cons_self (by decide) ?_ ?_)
  · exact define_finds hword hname (hrest (by decide)) (by decide)
  · intro y hy hyne _
    have hothers : ∀ y ∈ (Production.rules .lvalue).zipIdx, y ≠ (.via .define, 0) →
        Token.Kind.letWord ∉ y.1.first := by decide
    exact loses_of_first hy (hword ▸ hothers y hy hyne)

/-- **A declaration of data is read as what it is.** -/
theorem parse_declaration (h : Gives .expression ts e) :
    (parse (word :: name :: sign :: ts)).result = .ok (.assign (.define name.text) e) := by
  obtain ⟨⟨t, more, rfl, -⟩, hread⟩ := h
  have hend {kinds : List Token.Kind} : Clear kinds [] := .inl rfl
  have hrvalue (n : Nat) : Finds n (read · .rvalue ((t :: more).map .token) []) (e, []) := by
    refine read_finds_of_pick hend (pick_finds_only rfl not_mem_nil ?_)
    have hfinds := @hread [] [(.rvalue, 0)] n hend (by decide)
    rwa [append_nil] at hfinds
  have hassign (n : Nat) : Finds n (read · .assignment
      ((word :: name :: sign :: t :: more).map .token) [(.statement, 3)])
      (.assign (.define name.text) e, []) := by
    refine read_finds_of_pick hend (pick_finds_only rfl (by decide) ?_)
    refine matchParts_production_comes (lvalue_finds hword hname hsign _) ?_
    refine matchParts_token_comes hsign ?_
    exact matchParts_production_comes (hrvalue n) (matchParts_nil_finds rfl)
  have hstatement (n : Nat) : Finds n (read · .statement
      ((word :: name :: sign :: t :: more).map .token) []) (.assign (.define name.text) e, []) := by
    have hplace : (Rule.via .assignment, 3) ∈ (Production.rules .statement).zipIdx := by decide
    refine read_finds_of_pick hend (pick_finds_of_rule hplace not_mem_nil (hassign n) ?_)
    intro y hy hyne _
    have hothers : ∀ y ∈ (Production.rules .statement).zipIdx, y ≠ (.via .assignment, 3) →
        y = (.via .define, 4) ∨ Token.Kind.letWord ∉ y.1.first := by decide
    rcases hothers y hy hyne with rfl | hfirst
    · -- The declaration alone leaves the rest.
      have hclear : Clear [] ((sign :: t :: more).map Item.token) := .inr ⟨sign, _, rfl, by simp⟩
      exact .inr ⟨_, define_finds hword hname hclear (by decide), by simp⟩
    · exact loses_of_first hy (hword ▸ hfirst)
  have hbudget := enough_le_budgetFor (word :: name :: sign :: t :: more)
  have hread := (hstatement _ _ (Nat.lt_succ_self _)).resolve_right (read_settled hbudget hbudget).2
  exact (Traced.result_bind_of_ok hread _).trans rfl

end Declaration

end Grammar

end Parley
