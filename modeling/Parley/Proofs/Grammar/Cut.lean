import Parley.Proofs.Grammar.Outcome

/-!
# Reading with and without what follows

What does the reader make of the first part of a list of tokens? It is compared with what it makes
of the whole: `stack` is read and so is `stack ++ tail`, and the second reading is taken to come to
an end of its own. As long as both are within `stack` they take the same steps. The first may halt
at the end of `stack`, inside a construct. If it does not, then one of three things is left: both
are refused, both leave something of `stack` behind, or the first takes all of `stack` and the
second takes at least that much (`Cut`).

This is kept by matching a part of a rule, once the rule has opened a construct; by choosing among
rules; and by putting a tree back and going on. A rule that comes to the end of `stack` before it has
opened anything is refused, though, where the other reading may go on. Such a rule does no harm in a
production that takes all of `stack` without it (`Outcome.Finishes`).
-/

namespace Parley.Grammar

open List

variable {item : Item} {kind : Token.Kind} {index n : Nat} {rules : List Rule} {f : Found}
  {x : Rule × Nat} {best best' : Option Found} {excuse : Stack → Prop} {p : Production}
  {stack : Stack} {seen : Seen}

/-! ### The relation -/

/-- What the readings of a stack, and of the stack with `tail` behind it, come to. -/
inductive Cut (tail : Stack) : Outcome → Outcome → Prop
  | short (y : Outcome) : Cut tail .halted y
  | long (x : Outcome) : Cut tail x .halted
  | refused : Cut tail .refused .refused
  | same (e : Expr) {rest : Stack} (h : rest ≠ []) :
      Cut tail (.found (e, rest)) (.found (e, rest ++ tail))
  | through (e : Expr) {f : Found} (h : f.2.length ≤ tail.length) :
      Cut tail (.found (e, [])) (.found f)

/-- Everything is taken, unless the reading halts. -/
def Outcome.Finishes (x : Outcome) : Prop :=
  x = .halted ∨ ∃ e, x = .found (e, [])

theorem Outcome.Within.finishes {x : Outcome} (h : x.Within 0) : x.Finishes := by
  refine h.imp_right ?_
  rintro ⟨⟨e, rest⟩, he, hrest⟩
  obtain rfl := length_eq_zero_iff.mp (Nat.le_zero.mp hrest)
  exact ⟨e, he⟩

theorem Outcome.Finishes.within {x : Outcome} (h : x.Finishes) : x.Within 0 :=
  h.imp_right fun ⟨e, he⟩ => ⟨(e, []), he, Nat.le_refl _⟩

theorem Cut.of_finishes {tail : Stack} {x y : Outcome} (hx : x.Finishes)
    (hy : y.Within tail.length) : Cut tail x y := by
  rcases hx with rfl | ⟨e, rfl⟩
  · exact .short y
  · rcases hy with rfl | ⟨f, rfl, hle⟩
    · exact .long _
    · exact .through e hle

/-- After the same step the readings leave the same, or the first leaves nothing. -/
theorem Cut.found (tail : Stack) (e : Expr) (rest : Stack) :
    Cut tail (.found (e, rest)) (.found (e, rest ++ tail)) := by
  cases rest with
  | nil => exact .through e (Nat.le_refl _)
  | cons item rest => exact .same e (cons_ne_nil _ _)

/-! ### Where a stack may be cut off -/

/-- The stack ends with a token that is no operator. -/
def Ready (stack : Stack) : Prop :=
  ∃ front t, stack = front ++ [.token t] ∧ t.kind ≠ .operator

namespace Ready

variable {rest : Stack}

theorem ne_nil (h : Ready stack) : stack ≠ [] := by
  obtain ⟨front, t, rfl, -⟩ := h
  simp

theorem cons (h : Ready stack) (item : Item) : Ready (item :: stack) := by
  obtain ⟨front, t, rfl, ht⟩ := h
  exact ⟨item :: front, t, rfl, ht⟩

/-- What is left of such a stack is such a stack. -/
theorem of_suffix (h : Ready stack) (hsuffix : rest <:+ stack) (hne : rest ≠ []) : Ready rest := by
  obtain ⟨front, t, rfl, ht⟩ := h
  obtain ⟨taken, htaken⟩ := hsuffix
  obtain ⟨front', item, rfl⟩ := (eq_nil_or_concat rest).resolve_left hne
  rw [concat_eq_append, ← append_assoc] at htaken
  obtain ⟨-, hitem⟩ := append_inj' htaken rfl
  obtain rfl := singleton_inj.mp hitem
  exact ⟨front', t, concat_eq_append, ht⟩

theorem tail_cases (h : Ready (item :: stack)) : stack = [] ∨ Ready stack := by
  rcases eq_or_ne stack [] with hnil | hne
  · exact .inl hnil
  · exact .inr (h.of_suffix (suffix_cons _ _) hne)

/-- There is something after a tree. -/
theorem of_tree {e : Expr} (h : Ready (.tree e :: stack)) : Ready stack := by
  rcases h.tail_cases with rfl | hready
  · obtain ⟨front, t, heq, -⟩ := h
    cases front <;> simp at heq
  · exact hready

end Ready

/-! ### The parts of a rule -/

/-- The productions that stand inside of constructs, after a token that opens one. -/
def Production.inner : Production → Bool
  | .expression | .variableName | .elementList | .paramList | .arg | .argList | .rvalue => true
  | _ => false

def Part.inner : Part → Bool
  | .production q => q.inner
  | _ => true

/-- The rules that open a construct before anything else, apart from a tree, or have only one token
to match. -/
def sturdy : List Part → Bool
  | [.token _] => true
  | .token kind :: parts => kind.opens && parts.all Part.inner
  | .tree _ :: .token kind :: parts => kind.opens && parts.all Part.inner
  | _ => false

/-- The readings of a production, within a budget for the second. -/
def ReadCut (tail : Stack) (bound : Nat) (q : Production) (seen : Seen) : Prop :=
  ∀ stack, Ready stack → ∀ b, ∀ b' < bound,
    Cut tail (readOutcome b q stack seen) (readOutcome b' q (stack ++ tail) seen)

/-- The readings of the parts of a rule. -/
def MatchCut (tail : Stack) (bound : Nat) (p : Production) (action : Action) (parts : List Part)
    (stack : Stack) (seen : Seen) (opened : Bool) (taken : List Item) : Prop :=
  ∀ b, ∀ b' < bound, Cut tail (matchOutcome b p action parts stack seen opened taken)
    (matchOutcome b' p action parts (stack ++ tail) seen opened taken)

/-- The productions inside of constructs keep `Cut` with smaller budgets. -/
def Below (tail : Stack) (bound : Nat) : Prop :=
  ∀ q : Production, q.inner = true → ReadCut tail bound q []

section

variable {tail : Stack} {bound : Nat} {action : Action} {parts : List Part} {opened : Bool}
  {taken : List Item} {b b' : Nat}

theorem ReadCut.mono {bound' : Nat} (h : ReadCut tail bound p seen) (hle : bound' ≤ bound) :
    ReadCut tail bound' p seen :=
  fun stack hready b b' hlt => h stack hready b b' (Nat.lt_of_lt_of_le hlt hle)

/-- A production that is read the same way with other rules under way. -/
theorem ReadCut.congr {inside : Seen} (h : ReadCut tail bound p inside)
    (heq : ∀ b stack, readOutcome b p stack seen = readOutcome b p stack inside) :
    ReadCut tail bound p seen := by
  simp only [ReadCut, heq]
  exact h

theorem MatchCut.pred (h : MatchCut tail (bound + 1) p action parts stack seen opened taken) :
    MatchCut tail bound p action parts stack seen opened taken :=
  fun b b' hlt => h b b' (Nat.lt_succ_of_lt hlt)

/-- Without budget both readings halt. -/
theorem cut_succ {x y : Nat → Outcome} (hx : x 0 = .halted) (hy : y 0 = .halted)
    (h : ∀ b, ∀ b' < bound, Cut tail (x (b + 1)) (y (b' + 1))) :
    ∀ b, ∀ b' < bound + 1, Cut tail (x b) (y b') := by
  intro b b' hlt
  cases b with
  | zero =>
    rw [hx]
    exact .short _
  | succ b =>
    cases b' with
    | zero =>
      rw [hy]
      exact .long _
    | succ b' => exact h b b' (Nat.lt_of_succ_lt_succ hlt)

/-- A rule that is through with its parts. -/
theorem matchOutcome_nil_cut : MatchCut tail bound p action [] stack seen opened taken := by
  refine MatchCut.pred (cut_succ rfl rfl fun b b' _ => ?_)
  rw [matchOutcome_nil, matchOutcome_nil]
  split
  · exact .found tail _ stack
  · exact .short _

/-- A rule that ends with a production which takes all that is left. -/
theorem matchOutcome_nil_finishes (rest : Stack) {seen' : Seen} {opened' : Bool}
    {taken' : List Item} (hrest : rest.length ≤ tail.length) :
    Cut tail (matchOutcome b p action [] [] seen opened taken)
      (matchOutcome b' p action [] rest seen' opened' taken') := by
  refine .of_finishes ?_ ?_
  · cases b with
    | zero => exact .inl rfl
    | succ b =>
      rw [matchOutcome_nil]
      split
      · exact .inr ⟨_, rfl⟩
      · exact .inl rfl
  · cases b' with
    | zero => exact .inl rfl
    | succ b' =>
      rw [matchOutcome_nil]
      split
      · exact .inr ⟨_, rfl, hrest⟩
      · exact .inl rfl

/-- A part that is a production, if the productions keep `Cut`. What is left of the stack is matched
with the other parts. That nothing is left does not happen, or there are no other parts, or the first
reading halts. -/
theorem matchOutcome_production_cut {q : Production} (hready : Ready stack)
    (hread : ReadCut tail bound q seen)
    (hnext : ∀ e rest, Ready rest →
      MatchCut tail bound p action parts rest seen opened (.tree e :: taken))
    (hend : parts = [] ∨ opened = true ∨ ∀ b e, readOutcome b q stack seen ≠ .found (e, [])) :
    MatchCut tail (bound + 1) p action (.production q :: parts) stack seen opened taken := by
  obtain ⟨item, stack, rfl⟩ := exists_cons_of_ne_nil hready.ne_nil
  refine cut_succ rfl rfl fun b b' hlt => ?_
  have hcut := hread _ hready b b' hlt
  rw [cons_append, matchOutcome_production, matchOutcome_production, ← cons_append]
  generalize hx : readOutcome b q (item :: stack) seen = x at hcut
  generalize readOutcome b' q (item :: stack ++ tail) seen = y at hcut
  cases hcut with
  | short => exact .short _
  | long => exact .long _
  | refused => exact .refused
  | same e hne =>
    have hsuffix := (reads_of_readOutcome hx).suffix.1
    exact hnext e _ (hready.of_suffix hsuffix hne) b b' hlt
  | through e hle =>
    rcases hend with rfl | rfl | hnever
    · exact matchOutcome_nil_finishes _ hle
    · cases parts with
      | nil => exact matchOutcome_nil_finishes _ hle
      | cons part parts =>
        cases b with
        | zero => exact .short _
        | succ b =>
          exact .short _
    · exact absurd hx (hnever b e)

/-- A part that is a token. -/
theorem matchOutcome_token_cut
    (hnext : ∀ t, MatchCut tail bound p action parts stack [] (opened || kind.opens)
      (.token t :: taken)) :
    MatchCut tail (bound + 1) p action (.token kind :: parts) (item :: stack) seen opened taken := by
  refine cut_succ rfl rfl fun b b' hlt => ?_
  cases item with
  | tree e => exact .refused
  | token t =>
    rw [cons_append, matchOutcome_token, matchOutcome_token]
    split
    · exact hnext t b b' hlt
    · exact .refused

/-- A part that is a tree. -/
theorem matchOutcome_tree_cut {shape : Shape} (hnext : ∀ e, item = .tree e →
      MatchCut tail bound p action parts stack [] opened (.tree e :: taken)) :
    MatchCut tail (bound + 1) p action (.tree shape :: parts) (item :: stack) seen opened taken := by
  refine cut_succ rfl rfl fun b b' hlt => ?_
  cases item with
  | token t => exact .refused
  | tree e =>
    rw [cons_append, matchOutcome_tree, matchOutcome_tree]
    split
    · exact hnext e rfl b b' hlt
    · exact .refused

/-- **Inside a construct** the parts of a rule keep `Cut`. -/
theorem matchOutcome_cut (hbelow : Below tail bound) (hparts : parts.all Part.inner = true)
    (hstack : stack = [] ∨ Ready stack) :
    MatchCut tail (bound + 1) p action parts stack [] true taken := by
  induction parts generalizing stack taken with
  | nil => exact matchOutcome_nil_cut
  | cons part parts ih =>
    rw [all_cons, Bool.and_eq_true] at hparts
    obtain ⟨hpart, hparts⟩ := hparts
    rcases hstack with rfl | hready
    · refine cut_succ rfl rfl fun b b' _ => ?_
      exact .short _
    · cases part with
      | production q =>
        refine matchOutcome_production_cut hready (hbelow q hpart) ?_ (.inr (.inl rfl))
        exact fun e rest hrest => (ih hparts (.inr hrest)).pred
      | token kind =>
        obtain ⟨item, stack, rfl⟩ := exists_cons_of_ne_nil hready.ne_nil
        exact matchOutcome_token_cut fun t => (ih hparts hready.tail_cases).pred
      | tree shape =>
        obtain ⟨item, stack, rfl⟩ := exists_cons_of_ne_nil hready.ne_nil
        exact matchOutcome_tree_cut fun e _ => (ih hparts hready.tail_cases).pred

/-- After a token that opens a construct the parts of a rule keep `Cut`. -/
theorem matchOutcome_opens_cut (hbelow : Below tail bound) (hopens : kind.opens = true)
    (hparts : parts.all Part.inner = true) (hready : Ready stack) :
    MatchCut tail (bound + 1) p action (.token kind :: parts) stack seen opened taken := by
  obtain ⟨item, stack, rfl⟩ := exists_cons_of_ne_nil hready.ne_nil
  refine matchOutcome_token_cut fun t => ?_
  rw [hopens, Bool.or_true]
  exact (matchOutcome_cut hbelow hparts hready.tail_cases).pred

theorem matchOutcome_sturdy_cut (hbelow : Below tail bound) (hparts : sturdy parts = true)
    (hready : Ready stack) : MatchCut tail (bound + 1) p action parts stack seen opened taken := by
  obtain ⟨item, stack, rfl⟩ := exists_cons_of_ne_nil hready.ne_nil
  unfold sturdy at hparts
  split at hparts
  · exact matchOutcome_token_cut fun _ => matchOutcome_nil_cut
  · rw [Bool.and_eq_true] at hparts
    exact matchOutcome_opens_cut hbelow hparts.1 hparts.2 hready
  · rw [Bool.and_eq_true] at hparts
    refine matchOutcome_tree_cut ?_
    rintro e rfl
    exact (matchOutcome_opens_cut hbelow hparts.1 hparts.2 hready.of_tree).pred
  · cases hparts

end

/-! ### The rules of a production -/

/-- The better of two results does not leave more than either of them. -/
theorem better_le (best : Option Found) (f : Found) :
    (better best f).2.length ≤ f.2.length ∧
      ∀ old ∈ best, (better best f).2.length ≤ old.2.length := by
  cases best with
  | none => exact ⟨Nat.le_refl _, by simp⟩
  | some old =>
    rw [better]
    split
    · next hlt =>
      refine ⟨Nat.le_refl _, ?_⟩
      rintro _ ⟨⟩
      exact Nat.le_of_lt hlt
    · next hle =>
      refine ⟨Nat.le_of_not_lt hle, ?_⟩
      rintro _ ⟨⟩
      exact Nat.le_refl _

/-- What is chosen does not leave more than the best so far. -/
theorem chooseOutcome_le_best {b : Nat} (hf : f.2.length ≤ n) :
    (chooseOutcome b p stack seen index rules (some f)).Within n := by
  induction rules generalizing b index f with
  | nil =>
    cases b with
    | zero => exact .inl rfl
    | succ b => exact .inr ⟨f, rfl, hf⟩
  | cons rule rules ih =>
    cases b with
    | zero => exact .inl rfl
    | succ b =>
      rw [chooseOutcome_cons]
      split
      · exact ih hf
      · cases ruleOutcome b p rule stack ((p, index) :: seen) with
        | found g => exact ih (((better_le (some f) g).2 f rfl).trans hf)
        | refused => exact ih hf
        | halted => exact .inl rfl

/-- What is chosen does not leave more than a rule does that may be tried. -/
theorem chooseOutcome_le_rule (hx : x ∈ rules.zipIdx index) (hsite : (p, x.2) ∉ seen)
    (hrule : ∀ b, (ruleOutcome b p x.1 stack ((p, x.2) :: seen)).Within n) (b : Nat)
    (best : Option Found) :
    (chooseOutcome b p stack seen index rules best).Within n := by
  induction rules generalizing b index best with
  | nil => cases hx
  | cons rule rules ih =>
    cases b with
    | zero => exact .inl rfl
    | succ b =>
      rw [zipIdx_cons, mem_cons] at hx
      rcases hx with rfl | hx
      · rw [chooseOutcome_try hsite]
        exact (hrule b).next fun g hle => chooseOutcome_le_best ((better_le best g).1.trans hle)
      · rw [chooseOutcome_cons]
        split
        · exact ih hx b best
        · cases ruleOutcome b p rule stack ((p, index) :: seen) with
          | found g => exact ih hx b _
          | refused => exact ih hx b best
          | halted => exact .inl rfl

section

variable {tail : Stack} {bound : Nat} {b b' : Nat}

/-- The best results so far of the two readings. -/
inductive BestCut (tail : Stack) : Option Found → Option Found → Prop
  | none : BestCut tail none none
  | some {f f' : Found} (h : Cut tail (.found f) (.found f')) : BestCut tail (some f) (some f')

theorem BestCut.better {f' : Found} (hbest : BestCut tail best best')
    (h : Cut tail (.found f) (.found f')) :
    Cut tail (.found (better best f)) (.found (better best' f')) := by
  cases hbest with
  | none => exact h
  | some hold =>
    cases hold with
    | same e hne =>
      cases h with
      | same e' hne' =>
        simp only [better, length_append]
        split
        · rw [if_pos (by omega)]
          exact .same e' hne'
        · rw [if_neg (by omega)]
          exact .same e hne
      | through e' hle =>
        have := length_pos_of_ne_nil hne
        simp only [better, length_append]
        rw [if_pos (by omega), if_pos (by omega)]
        exact .through e' hle
    | through e hle =>
      exact .through e (((better_le (.some _) f').2 _ rfl).trans hle)

theorem BestCut.ofLast (h : BestCut tail best best') : Cut tail (.ofLast best) (.ofLast best') := by
  cases h with
  | none => exact .refused
  | some h => exact h

/-- The readings of a rule keep `Cut`; or only the second gets beyond the stack, and there is an
excuse for it. -/
def RuleCut (tail : Stack) (excuse : Prop) (x y : Outcome) : Prop :=
  Cut tail x y ∨ y.Within tail.length ∧ excuse

theorem RuleCut.imp {excuse excuse' : Prop} {x y : Outcome} (h : RuleCut tail excuse x y)
    (himp : excuse → excuse') : RuleCut tail excuse' x y :=
  Or.imp_right (And.imp_right himp) h

/-- **The choice of a rule** keeps `Cut` if the rules do. -/
theorem chooseOutcome_cut {excuse : Prop}
    (hrules : ∀ x ∈ rules.zipIdx index, (p, x.2) ∉ seen → ∀ b, ∀ b' < bound,
      RuleCut tail excuse (ruleOutcome b p x.1 stack ((p, x.2) :: seen))
        (ruleOutcome b' p x.1 (stack ++ tail) ((p, x.2) :: seen)))
    (hbest : BestCut tail best best') (b b' : Nat) (hb' : b' ≤ bound) :
    RuleCut tail excuse (chooseOutcome b p stack seen index rules best)
      (chooseOutcome b' p (stack ++ tail) seen index rules best') := by
  induction rules generalizing index best best' b b' with
  | nil =>
    cases b with
    | zero => exact .inl (.short _)
    | succ b =>
      cases b' with
      | zero => exact .inl (.long _)
      | succ b' =>
        rw [chooseOutcome_nil, chooseOutcome_nil]
        exact .inl hbest.ofLast
  | cons rule rules ih =>
    rw [zipIdx_cons, forall_mem_cons] at hrules
    obtain ⟨hrule, hrules⟩ := hrules
    cases b with
    | zero => exact .inl (.short _)
    | succ b =>
      cases b' with
      | zero => exact .inl (.long _)
      | succ b' =>
        by_cases hsite : (p, index) ∈ seen
        · rw [chooseOutcome_skip hsite, chooseOutcome_skip hsite]
          exact ih hrules hbest b b' (by omega)
        · rw [chooseOutcome_try hsite, chooseOutcome_try hsite]
          rcases hrule hsite b b' (by omega) with hcut | ⟨hy, hexcuse⟩
          · generalize ruleOutcome b p rule stack ((p, index) :: seen) = x at hcut
            generalize ruleOutcome b' p rule (stack ++ tail) ((p, index) :: seen) = y at hcut
            cases x with
            | halted => exact .inl (.short _)
            | refused =>
              cases hcut with
              | long => exact .inl (.long _)
              | refused => exact ih hrules hbest b b' (by omega)
            | found f =>
              cases y with
              | halted => exact .inl (.long _)
              | refused => cases hcut
              | found f' => exact ih hrules (.some (hbest.better hcut)) b b' (by omega)
          · exact .inr ⟨hy.next fun f hle =>
              chooseOutcome_le_best ((better_le best' f).1.trans hle), hexcuse⟩

/-! ### A production and what it puts back -/

/-- A production that has taken everything stops there. -/
theorem extendOutcome_lone (b : Nat) (p : Production) (e : Expr) (seen : Seen) :
    (extendOutcome b p [.tree e] seen (some (e, []))).Finishes := by
  cases b with
  | zero => exact .inl rfl
  | succ b =>
    rw [extendOutcome_succ b p (cons_ne_nil _ _)]
    rcases chooseOutcome_lone b p e seen with h | h
    · exact .inr ⟨e, by rw [h]; rfl⟩
    · exact .inl (by rw [h]; rfl)

section

variable (hx : x ∈ p.rules.zipIdx) (hsite : (p, x.2) ∉ seen) (hne : stack ≠ [])

include hx hsite hne

/-- A production does not leave more than a rule does that may be tried. -/
theorem extendOutcome_le_rule
    (hrule : ∀ b, (ruleOutcome b p x.1 stack ((p, x.2) :: seen)).Within n) (b : Nat)
    (last : Option Found) : (extendOutcome b p stack seen last).Within n := by
  cases b with
  | zero => exact .inl rfl
  | succ b =>
    rw [extendOutcome_succ b p hne]
    exact (chooseOutcome_le_rule hx hsite hrule b none).next fun g hle =>
      (extendOutcome_le b p seen g).mono hle

/-- If a rule takes everything, so does the production. -/
theorem extendOutcome_finishes
    (hrule : ∀ b, (ruleOutcome b p x.1 stack ((p, x.2) :: seen)).Finishes) (b : Nat)
    (last : Option Found) : (extendOutcome b p stack seen last).Finishes :=
  (extendOutcome_le_rule hx hsite hne (fun b => (hrule b).within) b last).finishes

end

/-- The rules of a production keep `Cut`, or there is an excuse in the stack. -/
def RulesCut (tail : Stack) (bound : Nat) (p : Production) (seen : Seen) (excuse : Stack → Prop) :
    Prop :=
  ∀ stack, Ready stack → ∀ x ∈ p.rules.zipIdx, (p, x.2) ∉ seen → ∀ b, ∀ b' < bound,
    RuleCut tail (excuse stack) (ruleOutcome b p x.1 stack ((p, x.2) :: seen))
      (ruleOutcome b' p x.1 (stack ++ tail) ((p, x.2) :: seen))

/-- What a production comes to from a stack on that has an excuse: the one it starts with, or one
that it has put a tree back on. -/
def Excused (p : Production) (seen : Seen) (excuse : Stack → Prop) (stack : Stack)
    (last : Option Found) (x : Outcome) : Prop :=
  ∃ b, excuse stack ∧ x = extendOutcome b p stack seen last ∨
    ∃ f, excuse (.tree f.1 :: f.2) ∧ x = extendOutcome b p (.tree f.1 :: f.2) seen (some f)

section

variable (hrules : RulesCut tail bound p seen excuse) (hready : Ready stack)

include hrules hready

/-- **Putting a tree back and going on** keeps `Cut` if the rules do. -/
theorem extendOutcome_cut {last last' : Option Found} (hlast : BestCut tail last last')
    (hb' : b' ≤ bound) :
    RuleCut tail (Excused p seen excuse stack last (extendOutcome b p stack seen last))
      (extendOutcome b p stack seen last) (extendOutcome b' p (stack ++ tail) seen last') := by
  induction b' generalizing b stack last last' with
  | zero => exact .inl (.long _)
  | succ b' ih =>
    have hne := hready.ne_nil
    have hne' : stack ++ tail ≠ [] := by simp [hne]
    -- Whatever the second reading has found there, it does not give it up any more.
    have hkeeps (f : Found) (hle : f.2.length ≤ tail.length) :
        (extendOutcome b' p (.tree f.1 :: f.2) seen (some f)).Within tail.length :=
      (extendOutcome_le b' p seen f).mono hle
    cases b with
    | zero => exact .inl (.short _)
    | succ b =>
      rw [extendOutcome_succ b' p hne']
      rcases chooseOutcome_cut (hrules stack hready) .none b b' (by omega) with
        hcut | ⟨hy, hexcuse⟩
      · rw [extendOutcome_succ b p hne]
        generalize hx : chooseOutcome b p stack seen 0 p.rules none = x at hcut
        generalize chooseOutcome b' p (stack ++ tail) seen 0 p.rules none = y at hcut
        cases hcut with
        | short => exact .inl (.short _)
        | long => exact .inl (.long _)
        | refused => exact .inl hlast.ofLast
        | same e hrest =>
          have hsuffix := (picks_of_chooseOutcome hx).suffix.1
          refine (ih ((hready.of_suffix hsuffix hrest).cons _) (.some (.same e hrest))
            (by omega)).imp ?_
          rintro ⟨b₀, ⟨hexcuse, hx⟩ | hf⟩
          · exact ⟨b₀, .inr ⟨_, hexcuse, hx⟩⟩
          · exact ⟨b₀, .inr hf⟩
        | through e hle =>
          exact .inl (.of_finishes (extendOutcome_lone b p e seen) (hkeeps _ hle))
      · exact .inr ⟨hy.next hkeeps, b + 1, .inl ⟨hexcuse, rfl⟩⟩

theorem readOutcome_cut (b b' : Nat) (hlt : b' < bound + 1) :
    RuleCut tail (Excused p seen excuse stack none (readOutcome b p stack seen))
      (readOutcome b p stack seen) (readOutcome b' p (stack ++ tail) seen) := by
  obtain ⟨item, stack, rfl⟩ := exists_cons_of_ne_nil hready.ne_nil
  cases b with
  | zero => exact .inl (.short _)
  | succ b =>
    cases b' with
    | zero => exact .inl (.long _)
    | succ b' => exact extendOutcome_cut hrules hready .none (by omega)

end

/-- **A production** keeps `Cut` if its rules do. A rule is excused if the production takes all of the
stack in any case. -/
theorem readCut_of_excused (hrules : RulesCut tail bound p seen fun stack =>
      ∀ b last, (extendOutcome b p stack seen last).Finishes) :
    ReadCut tail (bound + 1) p seen := by
  intro stack hready b b' hlt
  rcases readOutcome_cut hrules hready b b' hlt with
    hcut | ⟨hy, b₀, ⟨hfinishes, hx⟩ | ⟨f, hfinishes, hx⟩⟩
  · exact hcut
  · exact .of_finishes (hx ▸ hfinishes b₀ none) hy
  · exact .of_finishes (hx ▸ hfinishes b₀ (some f)) hy

/-- There may be nothing to excuse. -/
theorem readCut_of_rules (h : ∀ stack, Ready stack → ∀ x ∈ p.rules.zipIdx, (p, x.2) ∉ seen →
      ∀ b, ∀ b' < bound, Cut tail (ruleOutcome b p x.1 stack ((p, x.2) :: seen))
        (ruleOutcome b' p x.1 (stack ++ tail) ((p, x.2) :: seen))) :
    ReadCut tail (bound + 1) p seen :=
  readCut_of_excused fun stack hready x hx hsite b b' hlt =>
    .inl (h stack hready x hx hsite b b' hlt)

/-- Are all rules of the production sturdy? -/
def Production.sturdy (p : Production) : Bool :=
  p.rules.all fun
    | .via _ => false
    | .parts _ body => Grammar.sturdy body

/-- **Productions whose rules are sturdy** keep `Cut`. -/
theorem sturdy_cut (hbelow : Below tail bound) (hp : p.sturdy = true) :
    ReadCut tail (bound + 1) p seen := by
  refine readCut_of_rules fun stack hready x hx _ => ?_
  have hrule := all_eq_true.mp hp _ (fst_mem_of_mem_zipIdx hx)
  obtain ⟨rule, index⟩ := x
  cases rule with
  | via q => cases hrule
  | parts action body => exact (matchOutcome_sturdy_cut hbelow hrule hready).pred

end

end Parley.Grammar
