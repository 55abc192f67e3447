import Mathlib.Data.List.Forall2
import Mathlib.Data.Option.Basic
import Parley.Proofs.Grammar.Success

/-!
# Tokens that no rule tells apart

A text and an integer can be written in several ways: `"\n"` and a line feed between quotes, `7` and
`007`. The reader asks for the kind of a token, and the rules for what it stands for, so two lists
of tokens that agree in this are read alike: whatever the budget and the rules under way, both
readings take the same steps, and both end with the same tree or the same failure.
-/

namespace Parley.Grammar

open List Traced

variable {action : Action} {parts : List Part} {items items' : List Item} {found found' : Found}
  {best best' : Option Found} {ts ts' : List Token}

/-- The same token, or two ways to write one text or integer. -/
inductive TokenAlike : Token → Token → Prop
  | same (t : Token) : TokenAlike t t
  | text {a b : String} (h : unquote a = unquote b) : TokenAlike ⟨.text, a⟩ ⟨.text, b⟩
  | integer {a b : String} (h : readInteger a = readInteger b) :
      TokenAlike ⟨.integer, a⟩ ⟨.integer, b⟩

theorem TokenAlike.kind_eq {t t' : Token} (h : TokenAlike t t') : t.kind = t'.kind := by
  cases h <;> rfl

/-- Two items that no rule tells apart. -/
inductive Alike : Item → Item → Prop
  | token {t t' : Token} (h : TokenAlike t t') : Alike (.token t) (.token t')
  | tree (e : Expr) : Alike (.tree e) (.tree e)

/-- The items that a part takes. -/
inductive Part.Fits : Part → Item → Prop
  | token {t : Token} {kind : Token.Kind} (h : t.kind = kind) : Fits (.token kind) (.token t)
  | tree (shape : Shape) (e : Expr) : Fits (.tree shape) (.tree e)
  | production (q : Production) (e : Expr) : Fits (.production q) (.tree e)

/-! ### What rules build -/

/-- Does the part take tokens that can be written in several ways? -/
def Part.manifold (part : Part) : Bool :=
  part = .token .text || part = .token .integer

/-- Do texts and integers stand alone in the rule? -/
def Rule.apart : Rule → Bool
  | .via _ => true
  | .parts action body =>
    (action = .text && body = [.token .text]) || (action = .integer && body = [.token .integer]) ||
      body.all (!·.manifold)

/-- Texts and integers stand alone in their rules. -/
theorem rule_cases {p : Production} (h : Rule.parts action parts ∈ p.rules) :
    (action = .text ∧ parts = [.token .text]) ∨ (action = .integer ∧ parts = [.token .integer]) ∨
      parts.all (!·.manifold) = true := by
  have hall : p.rules.all Rule.apart = true := by cases p <;> rfl
  have hrule : (Rule.parts action parts).apart = true := all_eq_true.mp hall _ h
  simpa [Rule.apart, or_assoc] using hrule

/-- Other parts take the same items. -/
theorem eq_of_alike (hparts : parts.all (!·.manifold) = true)
    (hfits : Forall₂ Part.Fits parts items) (halike : Forall₂ Alike items items') :
    items = items' := by
  induction hfits generalizing items' with
  | nil =>
    cases halike
    rfl
  | cons hfit hfits ih =>
    rw [all_cons, Bool.and_eq_true] at hparts
    obtain ⟨hpart, hparts⟩ := hparts
    cases halike with
    | cons hitem halike =>
      rw [ih hparts halike]
      cases hitem with
      | tree e => rfl
      | token hlike =>
        cases hlike with
        | same t => rfl
        | text _ | integer _ =>
          obtain ⟨rfl⟩ := hfit
          cases hpart

/-- **A rule builds the same tree** from items that it does not tell apart. -/
theorem build_alike {p : Production} (hrule : Rule.parts action parts ∈ p.rules)
    (hfits : Forall₂ Part.Fits parts items) (halike : Forall₂ Alike items items') :
    (action.build items).result = (action.build items').result := by
  obtain ⟨rfl, rfl⟩ | ⟨rfl, rfl⟩ | hparts := rule_cases hrule
  · rcases hfits with _ | ⟨⟨hkind⟩, _ | _⟩
    rcases halike with _ | ⟨⟨hlike⟩, _ | _⟩
    cases hlike with
    | same t => rfl
    | text h => exact congrArg (fun s => Except.ok (Expr.constant (.text s))) h
    | integer h => cases hkind
  · rcases hfits with _ | ⟨⟨hkind⟩, _ | _⟩
    rcases halike with _ | ⟨⟨hlike⟩, _ | _⟩
    cases hlike with
    | same t => rfl
    | text h => cases hkind
    | @integer a b h =>
      show (ofExcept (readInteger a) >>= _ : Traced Fault Expr).result =
        (ofExcept (readInteger b) >>= _ : Traced Fault Expr).result
      rw [h]
  · rw [eq_of_alike hparts hfits halike]

/-! ### Two readings side by side -/

theorem isEmpty_eq_of_alike {stack stack' : Stack} (h : Forall₂ Alike stack stack') :
    stack.isEmpty = stack'.isEmpty := by
  cases h <;> rfl

/-- The same tree, and rests that no rule tells apart. -/
structure FoundAlike (found found' : Found) : Prop where
  tree : found.1 = found'.1
  rest : Forall₂ Alike found.2 found'.2

/-- Both attempts fail in the same way, or both find the same. -/
inductive Lockstep (x y : Attempt Found) : Prop
  | found {found found' : Found} (hx : x.result = .ok found) (hy : y.result = .ok found')
      (h : FoundAlike found found')
  | failed {f : Failure} (hx : x.result = .error f) (hy : y.result = .error f)

namespace Lockstep

variable {x y : Attempt Found}

theorem pure (h : FoundAlike found found') : Lockstep (Pure.pure found) (Pure.pure found') :=
  .found rfl rfl h

theorem fail (f : Failure) : Lockstep (fail f) (fail f) :=
  .failed rfl rfl

theorem of_result_eq {x' y' : Attempt Found} (h : Lockstep x y) (hx : x'.result = x.result)
    (hy : y'.result = y.result) : Lockstep x' y' := by
  cases h with
  | found hx' hy' h => exact .found (hx.trans hx') (hy.trans hy') h
  | failed hx' hy' => exact .failed (hx.trans hx') (hy.trans hy')

theorem finish {rest rest' : Stack}
    (hbuild : (action.build items).result = (action.build items').result)
    (hrest : List.Forall₂ Alike rest rest') :
    Lockstep (Grammar.finish action items rest) (Grammar.finish action items' rest') := by
  cases h : (action.build items').result with
  | ok e =>
    exact @found _ _ (e, rest) (e, rest') (by simp only [Grammar.finish, hbuild, h])
      (by simp only [Grammar.finish, h]) ⟨rfl, hrest⟩
  | error f =>
    exact @failed _ _ (.fault f) (by simp only [Grammar.finish, hbuild, h])
      (by simp only [Grammar.finish, h])

/-- After such attempts one goes on with such attempts. -/
theorem handle (h : Lockstep x y) {onOk onOk' : Found → Attempt Found}
    {onError onError' : Failure → Attempt Found}
    (hok : ∀ found found', FoundAlike found found' → Lockstep (onOk found) (onOk' found'))
    (herror : ∀ f, Lockstep (onError f) (onError' f)) :
    Lockstep (x.handle onOk onError) (y.handle onOk' onError') := by
  cases h with
  | found hx hy h =>
    refine (hok _ _ h).of_result_eq ?_ ?_
    · rw [result_handle, hx]
    · rw [result_handle, hy]
  | @failed f hx hy =>
    refine (herror f).of_result_eq ?_ ?_
    · rw [result_handle, hx]
    · rw [result_handle, hy]

theorem bind (h : Lockstep x y) {next next' : Found → Attempt Found}
    (hok : ∀ found found', FoundAlike found found' → Lockstep (next found) (next' found')) :
    Lockstep (x >>= next) (y >>= next') := by
  rw [bind_eq_handle, bind_eq_handle]
  exact h.handle hok fun f => fail f

end Lockstep

/-- Of two pairs of such results the better ones are such results. -/
theorem better_alike (hbest : Option.Rel FoundAlike best best') (h : FoundAlike found found') :
    FoundAlike (better best found) (better best' found') := by
  cases hbest with
  | none => exact h
  | some hold =>
    rw [better, better, hold.rest.length_eq, h.rest.length_eq]
    split
    · exact h
    · exact hold

mutual

/-- All four parts of the reader go through items that no rule tells apart in the same way. -/
theorem read_lockstep {budget p stack stack' seen} (hstack : Forall₂ Alike stack stack') :
    Lockstep (read budget p stack seen) (read budget p stack' seen) := by
  match budget, hstack with
  | 0, _ | _ + 1, .nil => exact .fail _
  | budget + 1, .cons hitem hstack => exact extend_lockstep (.cons hitem hstack) .none

theorem extend_lockstep {budget p stack stack' seen last last'}
    (hstack : Forall₂ Alike stack stack') (hlast : Option.Rel FoundAlike last last') :
    Lockstep (extend budget p stack seen last) (extend budget p stack' seen last') := by
  match budget with
  | 0 => exact .fail _
  | budget + 1 =>
    refine (choose_lockstep (fun _ hr => hr) hstack .none).handle ?_ ?_
    · intro found found' h
      refine extend_lockstep ?_ (.some h)
      rw [h.tree]
      exact .cons (.tree _) h.rest
    · intro f
      cases hlast with
      | none => cases f <;> exact .fail _
      | some h =>
        cases f with
        | rejected => exact .pure h
        | ended =>
          dsimp only
          rw [isEmpty_eq_of_alike h.rest]
          split
          · exact .pure h
          · exact .fail _
        | unfinished | fault | spent => exact .fail _

theorem choose_lockstep {budget p stack stack' seen index rules best best' expected atEnd}
    (hrules : ∀ rule ∈ rules, rule ∈ p.rules) (hstack : Forall₂ Alike stack stack')
    (hbest : Option.Rel FoundAlike best best') :
    Lockstep (choose budget p stack seen index rules best expected atEnd)
      (choose budget p stack' seen index rules best' expected atEnd) := by
  match budget, rules with
  | 0, _ => exact .fail _
  | _ + 1, [] =>
    cases hbest with
    | none => exact .fail _
    | some h => exact .pure h
  | budget + 1, rule :: rules =>
    obtain ⟨hrule, hrules⟩ := forall_mem_cons.mp hrules
    rw [choose_cons, choose_cons]
    by_cases hseen : seen.contains (p, index)
    · rw [if_pos hseen, if_pos hseen]
      exact choose_lockstep hrules hstack hbest
    · rw [if_neg hseen, if_neg hseen]
      have htry : Lockstep (tryRule budget p rule stack ((p, index) :: seen))
          (tryRule budget p rule stack' ((p, index) :: seen)) := by
        cases rule with
        | via q => exact read_lockstep hstack
        | parts action parts => exact matchParts_lockstep hrule (nil_append _) .nil .nil hstack
      refine htry.handle ?_ ?_
      · exact fun found found' h => choose_lockstep hrules hstack (.some (better_alike hbest h))
      · intro f
        cases f with
        | rejected | ended => exact choose_lockstep hrules hstack hbest
        | unfinished | fault | spent => exact .fail _

/-- The items that the parts before `parts` have taken are `taken`. -/
theorem matchParts_lockstep
    {budget p action whole before parts stack stack' seen opened taken taken'}
    (hrule : Rule.parts action whole ∈ p.rules) (hwhole : before ++ parts = whole)
    (hfits : Forall₂ Part.Fits before taken.reverse)
    (htaken : Forall₂ Alike taken.reverse taken'.reverse)
    (hstack : Forall₂ Alike stack stack') :
    Lockstep (matchParts budget p action parts stack seen opened taken)
      (matchParts budget p action parts stack' seen opened taken') := by
  match budget, parts with
  | 0, _ => exact .fail _
  | _ + 1, [] =>
    rw [append_nil] at hwhole
    exact .finish (build_alike hrule (hwhole ▸ hfits) htaken) hstack
  | budget + 1, part :: parts =>
    -- The item that a part has taken moves from the stack to those that were taken.
    have hnext {item item' : Item} {stack stack' : Stack} {seen : Seen} {opened : Bool}
        (hfit : part.Fits item) (hitem : Alike item item')
        (hstack : Forall₂ Alike stack stack') :
        Lockstep (matchParts budget p action parts stack seen opened (item :: taken))
          (matchParts budget p action parts stack' seen opened (item' :: taken')) := by
      have hwhole' : before ++ [part] ++ parts = whole := by
        rw [← hwhole, append_assoc, singleton_append]
      refine matchParts_lockstep hrule hwhole' ?_ ?_ hstack
      · rw [reverse_cons]
        exact rel_append hfits (.cons hfit .nil)
      · rw [reverse_cons, reverse_cons]
        exact rel_append htaken (.cons hitem .nil)
    match part, hstack with
    | _, .nil => exact .fail _
    | .production q, .cons hitem hstack =>
      · refine (read_lockstep (.cons hitem hstack)).bind ?_
        intro found found' h
        rw [h.tree]
        exact hnext (.production q _) (.tree _) h.rest
    | .token _, .cons (.tree _) _ | .tree _, .cons (.token _) _ => exact .fail _
    | .token kind, .cons (.token hlike) hstack =>
      rw [matchParts, matchParts, ← hlike.kind_eq]
      split
      · next hkind => exact hnext (.token hkind) (.token hlike) hstack
      · exact .fail _
    | .tree shape, .cons (.tree e) hstack =>
      rw [matchParts, matchParts]
      split
      · exact hnext (.tree shape e) (.tree e) hstack
      · exact .fail _

end

theorem alike_map_token (h : Forall₂ TokenAlike ts ts') :
    Forall₂ Alike (ts.map .token) (ts'.map .token) := by
  induction h with
  | nil => exact .nil
  | cons ht _ ih => exact .cons (.token ht) ih

/-- **Tokens that stand for the same have the same tree.** -/
theorem parse_alike (h : Forall₂ TokenAlike ts ts') :
    (parse ts).result = (parse ts').result := by
  rw [parse_result, parse_result, h.length_eq]
  cases @read_lockstep (budgetFor ts'.length) .statement _ _ [] (alike_map_token h) with
  | failed hx hy => rw [hx, hy]
  | @found found found' hx hy hfound =>
    obtain ⟨e, rest⟩ := found
    obtain ⟨e', rest'⟩ := found'
    obtain ⟨rfl, hrest⟩ := hfound
    rw [hx, hy]
    cases hrest <;> rfl

end Parley.Grammar
