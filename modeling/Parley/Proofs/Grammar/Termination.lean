import Mathlib.Data.Finset.Card
import Parley.Proofs.Grammar.Success

/-!
# The reader comes to an end

The grammar is left recursive and the reader puts its own results back on the stack, so that it
ends needs two reasons, one inside the other.

* A success takes tokens off the stack (`Reads.suffix`). What is put back is a tree, so in the
  `weight` of a stack, where a token counts twice and a tree once, every success is paid for, and so
  is every item that a part of a rule takes.
* Between two items that are taken, the rules under way are never tried again, and there are only
  `Grammar.ruleCount` of them.

Both together give a budget, `enough`, with which the reader never stops for want of budget. Nothing
changes in what it gives when the budget is larger still.
-/

namespace Parley.Grammar

open List Traced

variable {rest stack : Stack} {action : Action} {parts : List Part} {index : Nat}
  {site : Production × Nat} {p : Production} {seen : Seen}

/-! ### Tokens and suffixes -/

/-- The number of tokens among the items of a stack. -/
def tokenCount : Stack → Nat
  | [] => 0
  | .token _ :: stack => tokenCount stack + 1
  | .tree _ :: stack => tokenCount stack

theorem tokenCount_append (front stack : Stack) :
    tokenCount (front ++ stack) = tokenCount front + tokenCount stack := by
  induction front with
  | nil => rw [nil_append, tokenCount, Nat.zero_add]
  | cons item front ih =>
    cases item with
    | token t =>
      rw [cons_append, tokenCount, tokenCount]
      omega
    | tree e => rw [cons_append, tokenCount, tokenCount, ih]

theorem tokenCount_le_of_suffix (h : rest <:+ stack) :
    tokenCount rest ≤ tokenCount stack := by
  obtain ⟨front, rfl⟩ := h
  rw [tokenCount_append]
  omega

theorem tokenCount_map_token (tokens : List Token) :
    tokenCount (tokens.map Item.token) = tokens.length := by
  induction tokens with
  | nil => rfl
  | cons t tokens ih => rw [map_cons, tokenCount, ih, length_cons]

/-- A suffix with fewer tokens is shorter. -/
theorem length_lt_of_suffix (h : rest <:+ stack)
    (hcount : tokenCount rest < tokenCount stack) : rest.length < stack.length := by
  refine lt_of_le_of_ne h.length_le fun hlen => ?_
  rw [h.eq_of_length hlen] at hcount
  exact lt_irrefl _ hcount

/-! ### A success takes tokens -/

/-- Does a part take at least one token? -/
def Part.taking : Part → Bool
  | .production _ | .token _ => true
  | .tree _ => false

/-- No rule of the grammar consists of trees alone, and none has more than six parts. -/
theorem parts_spec (h : Rule.parts action parts ∈ p.rules) :
    0 < parts.countP Part.taking ∧ parts.length ≤ 6 := by
  have hall : ∀ rule ∈ p.rules, ∀ action parts, rule = .parts action parts →
      0 < parts.countP Part.taking ∧ parts.length ≤ 6 := by
    cases p <;> simp [Production.rules, Part.taking]
  exact hall _ h _ _ rfl

mutual

/-- **A success takes tokens**: it leaves a suffix of the stack, and fewer tokens. -/
theorem Reads.suffix {p : Production} {stack rest : Stack} {e : Expr} :
    Reads p stack e rest → rest <:+ stack ∧ tokenCount rest < tokenCount stack
  | .once h => h.suffix
  | @Reads.again _ _ middle _ _ _ h₁ h₂ => by
    obtain ⟨hmiddle, hcount₁⟩ := h₁.suffix
    obtain ⟨hrest, hcount₂⟩ := h₂.suffix
    rw [tokenCount] at hcount₂
    -- The tree on top is gone with the tokens below it.
    have hsuffix : rest <:+ middle := by
      rcases suffix_cons_iff.mp hrest with rfl | h
      · exact absurd hcount₂ (by simp [tokenCount])
      · exact h
    exact ⟨hsuffix.trans hmiddle, by omega⟩

theorem Picks.suffix {p : Production} {stack rest : Stack} {e : Expr} :
    Picks p stack e rest → rest <:+ stack ∧ tokenCount rest < tokenCount stack
  | .via _ h => h.suffix
  | .parts hrule h _ => by
    obtain ⟨hsuffix, hcount⟩ := h.suffix
    have := (parts_spec hrule).1
    exact ⟨hsuffix, by omega⟩

theorem Takes.suffix {parts : List Part} {stack rest : Stack} {items : List Item} :
    Takes parts stack items rest →
      rest <:+ stack ∧ tokenCount rest + parts.countP Part.taking ≤ tokenCount stack
  | .nil => ⟨suffix_rfl, by simp⟩
  | .production h₁ h₂ => by
    obtain ⟨hmiddle, hcount₁⟩ := h₁.suffix
    obtain ⟨hrest, hcount₂⟩ := h₂.suffix
    refine ⟨hrest.trans hmiddle, ?_⟩
    rw [countP_cons_of_pos rfl]
    omega
  | .token h => by
    obtain ⟨hrest, hcount⟩ := h.suffix
    refine ⟨hrest.trans (suffix_cons _ _), ?_⟩
    rw [countP_cons_of_pos rfl, tokenCount]
    omega
  | .tree _ h => by
    obtain ⟨hrest, hcount⟩ := h.suffix
    refine ⟨hrest.trans (suffix_cons _ _), ?_⟩
    rwa [countP_cons_of_neg (by simp [Part.taking])]

end

/-! ### The rules that are left -/

/-- The rules of the grammar, by production and position. -/
def ruleSites : List (Production × Nat) :=
  Production.all.flatMap fun p => (range p.rules.length).map fun index => (p, index)

theorem mem_ruleSites (h : index < p.rules.length) : (p, index) ∈ ruleSites := by
  have hall : p ∈ Production.all := by cases p <;> decide
  refine mem_flatMap.mpr ⟨p, hall, mem_map.mpr ⟨index, ?_, rfl⟩⟩
  exact mem_range.mpr h

/-- The number of rules of the grammar. -/
def ruleCount : Nat := 58

/-- The number of rules that are not under way. -/
def unused (seen : Seen) : Nat :=
  (ruleSites.toFinset \ seen.toFinset).card

theorem unused_le (seen : Seen) : unused seen ≤ ruleCount :=
  calc unused seen ≤ ruleSites.toFinset.card := Finset.card_le_card Finset.sdiff_subset
    _ ≤ ruleSites.length := toFinset_card_le _
    _ = ruleCount := by decide

/-- A rule that is tried is one rule less for the tries inside it. -/
theorem unused_cons_lt (hsite : site ∈ ruleSites) (hseen : site ∉ seen) :
    unused (site :: seen) < unused seen := by
  unfold unused
  rw [toFinset_cons, Finset.sdiff_insert]
  refine Finset.card_erase_lt_of_mem ?_
  rw [Finset.mem_sdiff, mem_toFinset, mem_toFinset]
  exact ⟨hsite, hseen⟩

theorem length_rules_le (p : Production) : p.rules.length ≤ 14 := by
  cases p <;> decide

/-! ### Enough budget -/

/-- The weight of a stack: a token counts twice, a tree once. -/
def weight (stack : Stack) : Nat :=
  tokenCount stack + stack.length

/-- What any part of the reader needs for what lies inside it. An item is worth more than all rules
together, and a rule is worth more than the steps from one try to the next. -/
def reserve (stack : Stack) (seen : Seen) : Nat :=
  1300 * weight stack + 22 * unused seen

/-- A budget that is enough to read a production. -/
def enough (stack : Stack) (seen : Seen) : Nat :=
  reserve stack seen + 17

/-- Taking an item pays for all rules. -/
theorem reserve_lt_of_weight_lt {stack' : Stack} (seen seen' : Seen)
    (h : weight stack' < weight stack) : reserve stack' seen' < reserve stack seen := by
  have := unused_le seen'
  unfold reserve ruleCount at *
  omega

/-- Trying a rule pays for the way to the next one. -/
theorem reserve_cons_le (hsite : site ∈ ruleSites)
    (hseen : site ∉ seen) :
    reserve stack (site :: seen) + 22 ≤ reserve stack seen := by
  have := unused_cons_lt hsite hseen
  unfold reserve
  omega

theorem weight_lt_of_suffix (h : rest <:+ stack)
    (hcount : tokenCount rest < tokenCount stack) : weight rest + 1 < weight stack := by
  have := length_lt_of_suffix h hcount
  unfold weight
  omega

/-- A tree that is put back costs less than the tokens it was read from. -/
theorem weight_tree_lt (e : Expr) (h : rest <:+ stack)
    (hcount : tokenCount rest < tokenCount stack) : weight (.tree e :: rest) < weight stack := by
  have := weight_lt_of_suffix h hcount
  simp only [weight, tokenCount] at *
  omega

theorem weight_lt_cons (item : Item) (stack : Stack) : weight stack < weight (item :: stack) := by
  have := tokenCount_le_of_suffix (suffix_cons item stack)
  unfold weight
  rw [length_cons]
  omega

/-! ### Settled attempts -/

/-- Two attempts agree, and neither stops for want of budget. -/
def Settled {α : Type} (x y : Attempt α) : Prop :=
  x = y ∧ x.result ≠ .error .spent

namespace Settled

variable {α β : Type} {x y : Attempt α}

theorem pure (a : α) : Settled (Pure.pure a) (Pure.pure a) :=
  ⟨rfl, by simp⟩

theorem fail {f : Failure} (h : f ≠ .spent) : Settled (α := α) (fail f) (fail f) :=
  ⟨rfl, by simpa using h⟩

theorem finish (action : Action) (items : List Item) (rest : Stack) :
    Settled (Grammar.finish action items rest) (Grammar.finish action items rest) := by
  refine ⟨rfl, ?_⟩
  unfold Grammar.finish
  dsimp only
  split <;> simp

/-- After a settled attempt one goes on with settled ones. -/
theorem handle (h : Settled x y) {onOk onOk' : α → Attempt β}
    {onError onError' : Failure → Attempt β}
    (hok : ∀ a, x.result = .ok a → Settled (onOk a) (onOk' a))
    (herror : ∀ f, f ≠ .spent → Settled (onError f) (onError' f)) :
    Settled (x.handle onOk onError) (y.handle onOk' onError') := by
  obtain ⟨rfl, hspent⟩ := h
  cases hx : x.result with
  | ok a =>
    obtain ⟨heq, hne⟩ := hok a hx
    rw [handle_of_ok hx, handle_of_ok hx, heq]
    exact ⟨rfl, heq ▸ hne⟩
  | error f =>
    have hf : f ≠ .spent := fun hf => hspent (by rw [hx, hf])
    obtain ⟨heq, hne⟩ := herror f hf
    rw [handle_of_error hx, handle_of_error hx, heq]
    exact ⟨rfl, heq ▸ hne⟩

theorem bind (h : Settled x y) {next next' : α → Attempt β}
    (hok : ∀ a, x.result = .ok a → Settled (next a) (next' a)) :
    Settled (x >>= next) (y >>= next') := by
  rw [bind_eq_handle, bind_eq_handle]
  exact h.handle hok fun f hf => fail hf

end Settled

/-! ### The reader ends -/

mutual

/-- **With enough budget the reader ends**, and the budget has no say in what it gives. -/
theorem read_settled {budget budget' p stack seen} (h : enough stack seen ≤ budget)
    (h' : enough stack seen ≤ budget') :
    Settled (read budget p stack seen) (read budget' p stack seen) := by
  unfold enough at h h'
  match budget, budget', stack with
  | 0, _, _ | _ + 1, 0, _ => omega
  | _ + 1, _ + 1, [] => exact .fail (by simp)
  | budget + 1, budget' + 1, item :: stack =>
    exact extend_settled (by omega) (by omega)

theorem extend_settled {budget budget' p stack seen last} (h : reserve stack seen + 16 ≤ budget)
    (h' : reserve stack seen + 16 ≤ budget') :
    Settled (extend budget p stack seen last) (extend budget' p stack seen last) := by
  match budget, budget' with
  | 0, _ | _ + 1, 0 => omega
  | budget + 1, budget' + 1 =>
    have hlen := length_rules_le p
    refine (choose_settled drop_zero (by omega) (by omega)).handle ?_ ?_
    · rintro ⟨e, rest⟩ hfound
      have hpick : Picks p stack e rest := picks_of_choose (fun _ hr => hr) (by simp) hfound
      obtain ⟨hsuffix, hcount⟩ := hpick.suffix
      have := reserve_lt_of_weight_lt seen seen (weight_tree_lt e hsuffix hcount)
      dsimp only
      exact extend_settled (by omega) (by omega)
    · intro f hf
      cases last with
      | none => cases f <;> exact .fail hf
      | some found =>
        cases f with
        | rejected => exact .pure found
        | ended =>
          dsimp only
          split
          · exact .pure found
          · exact .fail (by simp)
        | unfinished | fault | spent => exact .fail hf

/-- The rules that are tried are those of the production from `index` on. -/
theorem choose_settled {budget budget' p stack seen index rules best expected atEnd}
    (hrules : p.rules.drop index = rules) (h : reserve stack seen + rules.length + 1 ≤ budget)
    (h' : reserve stack seen + rules.length + 1 ≤ budget') :
    Settled (choose budget p stack seen index rules best expected atEnd)
      (choose budget' p stack seen index rules best expected atEnd) := by
  match budget, budget', rules with
  | 0, _, _ | _ + 1, 0, _ => omega
  | _ + 1, _ + 1, [] =>
    cases best with
    | none => exact .fail (by simp)
    | some found => exact .pure found
  | budget + 1, budget' + 1, rule :: rules =>
    rw [length_cons] at h h'
    have hindex : index < p.rules.length := by
      have := congrArg length hrules
      rw [length_drop, length_cons] at this
      omega
    have hrule : rule ∈ p.rules := mem_of_mem_drop (hrules ▸ mem_cons_self)
    have htail : p.rules.drop (index + 1) = rules := by
      rw [← drop_drop, hrules, drop_one, tail_cons]
    have hnext : ∀ {best expected atEnd},
        Settled (choose budget p stack seen (index + 1) rules best expected atEnd)
          (choose budget' p stack seen (index + 1) rules best expected atEnd) :=
      choose_settled htail (by omega) (by omega)
    rw [choose_cons, choose_cons]
    by_cases hseen : seen.contains (p, index)
    · rw [if_pos hseen, if_pos hseen]
      exact hnext
    · rw [if_neg hseen, if_neg hseen]
      have hcons : reserve stack ((p, index) :: seen) + 22 ≤ reserve stack seen :=
        reserve_cons_le (mem_ruleSites hindex) (by simpa using hseen)
      have htry : Settled (tryRule budget p rule stack ((p, index) :: seen))
          (tryRule budget' p rule stack ((p, index) :: seen)) := by
        cases rule with
        | via q => refine read_settled ?_ ?_ <;> unfold enough <;> omega
        | parts action parts =>
          have := (parts_spec hrule).2
          refine matchParts_settled ?_ ?_ <;> unfold enough <;> omega
      refine htry.handle (fun _ _ => hnext) ?_
      intro f hf
      cases f with
      | rejected | ended => exact hnext
      | unfinished | fault | spent => exact .fail hf

theorem matchParts_settled {budget budget' p action parts stack seen opened taken}
    (h : enough stack seen + parts.length ≤ budget)
    (h' : enough stack seen + parts.length ≤ budget') :
    Settled (matchParts budget p action parts stack seen opened taken)
      (matchParts budget' p action parts stack seen opened taken) := by
  unfold enough at h h'
  match budget, budget', parts with
  | 0, _, _ | _ + 1, 0, _ => omega
  | _ + 1, _ + 1, [] =>
    exact .finish action _ stack
  | budget + 1, budget' + 1, part :: parts =>
    rw [length_cons] at h h'
    -- Whatever has been taken from the stack pays for the parts that follow.
    have hnext : ∀ {stack' seen' opened taken}, weight stack' < weight stack →
        Settled (matchParts budget p action parts stack' seen' opened taken)
          (matchParts budget' p action parts stack' seen' opened taken) := by
      intro stack' seen' opened taken hweight
      have := reserve_lt_of_weight_lt seen seen' hweight
      refine matchParts_settled ?_ ?_ <;> unfold enough <;> omega
    match part, stack with
    | _, [] =>
      exact .fail (by split <;> simp)
    | .production q, item :: stack =>
      · have hread : Settled (read budget q (item :: stack) seen)
            (read budget' q (item :: stack) seen) := by
          refine read_settled ?_ ?_ <;> unfold enough <;> omega
        refine hread.bind ?_
        rintro ⟨e, rest⟩ hfound
        obtain ⟨hsuffix, hcount⟩ := (reads_of_read hfound).suffix
        have := weight_lt_of_suffix hsuffix hcount
        dsimp only
        exact hnext (by omega)
    | .token _, .tree _ :: _ | .tree _, .token _ :: _ => exact .fail (by simp)
    | .token kind, .token t :: stack | .tree shape, .tree e :: stack =>
      rw [matchParts, matchParts]
      split
      · exact hnext (weight_lt_cons _ _)
      · exact .fail (by simp)

end

/-- The budget for a statement is enough. -/
theorem enough_le_budgetFor (tokens : List Token) :
    enough (tokens.map .token) [] ≤ budgetFor tokens.length := by
  have := unused_le []
  unfold enough reserve weight budgetFor ruleCount at *
  rw [tokenCount_map_token, length_map]
  omega

/-- A statement is read as it would be with any larger budget, and the reading ends. -/
theorem parse_settled {budget : Nat} {tokens : List Token} (h : budgetFor tokens.length ≤ budget) :
    Settled (parse tokens)
      (do let found ← read budget .statement (tokens.map .token) []
          if found.2.isEmpty then pure found.1 else fail (.rejected none [] false)) := by
  have henough := enough_le_budgetFor tokens
  refine (read_settled henough (henough.trans h)).bind ?_
  intro found _
  split
  · exact .pure found.1
  · exact .fail (by simp)

/-- **Reading terminates**, for every production, stack and list of rules under way: from some
budget on the outcome is always the same, and it is not for want of budget. A success leaves a
suffix of the stack with strictly fewer tokens. So the reading of a statement ends, too, whatever
its tokens are. -/
theorem read_terminates :
    (∀ (p : Production) (stack : Stack) (seen : Seen),
      ∃ outcome : Attempt Found, outcome.result ≠ .error .spent ∧
        (∀ budget, enough stack seen ≤ budget → read budget p stack seen = outcome) ∧
        ∀ e rest, outcome.result = .ok (e, rest) →
          rest <:+ stack ∧ tokenCount rest < tokenCount stack) ∧
    ∀ tokens : List Token,
      (parse tokens).result ≠ .error .spent ∧
      ∀ budget, budgetFor tokens.length ≤ budget →
        parse tokens =
          (do let found ← read budget .statement (tokens.map .token) []
              if found.2.isEmpty then pure found.1
              else Traced.fail (.rejected none [] false)) := by
  constructor
  · intro p stack seen
    refine ⟨read (enough stack seen) p stack seen, (read_settled le_rfl le_rfl).2, ?_, ?_⟩
    · intro budget h
      exact (read_settled h le_rfl).1
    · intro e rest hok
      exact (reads_of_read hok).suffix
  · intro tokens
    refine ⟨(parse_settled le_rfl).2, ?_⟩
    intro budget h
    exact (parse_settled h).1

end Parley.Grammar
