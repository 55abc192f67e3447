import Parley.Proofs.Grammar.Cut

/-!
# Rules that begin with a production

A call begins with an expression and an assignment with something that can be assigned to. Nothing
has been opened when that is through, so at the end of the input such a rule is just refused, where
with more input it might go on. This is excused if what the rule begins with takes all of the stack
(`Exhausts`), because the production that stands for it does, too: an expression that is not a call
takes at least as much if calls are among its rules.
-/

namespace Parley.Grammar

open List

variable {b index : Nat} {p q : Production} {stack : Stack} {seen : Seen} {rules : List Rule}
  {f : Found} {action : Action} {parts : List Part} {opened : Bool} {taken : List Item}
  {x : Rule × Nat}

/-! ### Outcomes of rules -/

/-- What is chosen comes from a rule. -/
theorem exists_rule_of_chooseOutcome {best : Option Found}
    (h : chooseOutcome b p stack seen index rules best = .found f) :
    best = some f ∨ ∃ x ∈ rules.zipIdx index, (p, x.2) ∉ seen ∧
      ∃ b, ruleOutcome b p x.1 stack ((p, x.2) :: seen) = .found f := by
  induction rules generalizing b index best with
  | nil =>
    cases b with
    | zero => cases h
    | succ b =>
      cases best with
      | none => cases h
      | some g =>
        cases h
        exact .inl rfl
  | cons rule rules ih =>
    cases b with
    | zero => cases h
    | succ b =>
      have hlater : ∀ {best : Option Found},
          chooseOutcome b p stack seen (index + 1) rules best = .found f →
          best = some f ∨ ∃ x ∈ (rule :: rules).zipIdx index, (p, x.2) ∉ seen ∧
            ∃ b, ruleOutcome b p x.1 stack ((p, x.2) :: seen) = .found f := by
        intro best h
        refine (ih h).imp_right ?_
        rintro ⟨x, hx, hrest⟩
        exact ⟨x, mem_cons_of_mem _ hx, hrest⟩
      rw [chooseOutcome_cons] at h
      split at h
      · exact hlater h
      · next hsite =>
        cases hrule : ruleOutcome b p rule stack ((p, index) :: seen) with
        | halted => rw [hrule] at h; cases h
        | refused => rw [hrule] at h; exact hlater h
        | found g =>
          rw [hrule] at h
          rcases hlater h with hbest | hx
          · rcases better_eq best g with heq | heq
            · right
              refine ⟨(rule, index), mem_cons_self, by simpa using hsite, b, ?_⟩
              rw [hrule, ← heq, Option.some.inj hbest]
            · exact .inl (by rw [heq, Option.some.inj hbest])
          · exact .inr hx

/-- If no rule finds anything, nothing is chosen. -/
theorem chooseOutcome_refused (h : ∀ x ∈ rules.zipIdx index, ∀ b f,
      ruleOutcome b p x.1 stack ((p, x.2) :: seen) ≠ .found f) (b : Nat) :
    chooseOutcome b p stack seen index rules none = .refused ∨
      chooseOutcome b p stack seen index rules none = .halted := by
  cases hc : chooseOutcome b p stack seen index rules none with
  | refused => exact .inl rfl
  | halted => exact .inr rfl
  | found f =>
    rcases exists_rule_of_chooseOutcome hc with hbest | ⟨x, hx, -, b, hfound⟩
    · cases hbest
    · exact absurd hfound (h x hx b f)

/-- A rule wins if it finds something and the others do not, or leave more. -/
theorem chooseOutcome_wins (hx : x ∈ rules.zipIdx index) (hsite : (p, x.2) ∉ seen)
    (hwins : ∀ b, ruleOutcome b p x.1 stack ((p, x.2) :: seen) = .halted ∨
      ruleOutcome b p x.1 stack ((p, x.2) :: seen) = .found f)
    (hothers : ∀ y ∈ rules.zipIdx index, (p, y.2) ∉ seen → ∀ b g,
      ruleOutcome b p y.1 stack ((p, y.2) :: seen) = .found g → g = f ∨ f.2.length < g.2.length)
    (b : Nat) :
    chooseOutcome b p stack seen index rules none = .halted ∨
      chooseOutcome b p stack seen index rules none = .found f := by
  have hle := chooseOutcome_le_rule hx hsite
    (fun b => (hwins b).imp_right fun h => ⟨f, h, Nat.le_refl _⟩) b none
  refine hle.imp_right ?_
  rintro ⟨g, hg, hgf⟩
  rcases exists_rule_of_chooseOutcome hg with hbest | ⟨y, hy, hysite, b, hfound⟩
  · cases hbest
  · rcases hothers y hy hysite b g hfound with rfl | hlt
    · exact hg
    · omega

theorem takes_of_matchOutcome (h : matchOutcome b p action parts stack seen opened taken = .found f) :
    ∃ items, Takes parts stack items f.2 := by
  unfold matchOutcome outcome at h
  split at h
  · next f' hf =>
    cases h
    obtain ⟨items, htakes, -⟩ := takes_of_matchParts hf
    exact ⟨items, htakes⟩
  all_goals cases h

/-- A rule that begins with a production and finds something. -/
theorem matchOutcome_production_found
    (h : matchOutcome b p action (.production q :: parts) stack seen opened taken = .found f) :
    ∃ b' < b, ∃ g, readOutcome b' q stack seen = .found g ∧
      matchOutcome b' p action parts g.2 seen opened (.tree g.1 :: taken) = .found f := by
  cases b with
  | zero => cases h
  | succ b =>
    cases stack with
    | nil => cases opened <;> cases h
    | cons item stack =>
      rw [matchOutcome_production] at h
      cases hq : readOutcome b q (item :: stack) seen with
      | refused | halted => rw [hq] at h; cases h
      | found g =>
        rw [hq] at h
        exact ⟨b, Nat.lt_succ_self b, g, hq, h⟩

/-- A rule that begins with a token and finds something. -/
theorem matchOutcome_token_found {kind : Token.Kind}
    (h : matchOutcome b p action (.token kind :: parts) stack seen opened taken = .found f) :
    ∃ b' t rest, t.kind = kind ∧ stack = .token t :: rest ∧
      matchOutcome b' p action parts rest [] (opened || kind.opens) (.token t :: taken) =
        .found f := by
  cases b with
  | zero => cases h
  | succ b =>
    cases stack with
    | nil => cases opened <;> cases h
    | cons item stack =>
      cases item with
      | tree e => cases h
      | token t =>
        rw [matchOutcome_token] at h
        split at h
        · next hkind => exact ⟨b, t, stack, hkind, rfl, h⟩
        · cases h

/-- What a production has built first, and what becomes of it. -/
theorem exists_choose_of_readOutcome (h : readOutcome b p stack seen = .found f) :
    ∃ b₁ g, chooseOutcome b₁ p stack seen 0 p.rules none = .found g ∧
      extendOutcome b₁ p (.tree g.1 :: g.2) seen (some g) = .found f ∧
      f.2.length ≤ g.2.length := by
  cases stack with
  | nil => cases b <;> cases h
  | cons item stack =>
    rcases b with _ | _ | b
    · cases h
    · cases h
    · rw [readOutcome_cons, extendOutcome_succ b p (cons_ne_nil _ _)] at h
      cases hg : chooseOutcome b p (item :: stack) seen 0 p.rules none with
      | refused | halted => rw [hg] at h; cases h
      | found g =>
        rw [hg, Outcome.next_found] at h
        refine ⟨b, g, hg, h, ?_⟩
        rcases extendOutcome_le b p seen g with hhalted | ⟨f', hf', hle⟩
        · rw [hhalted] at h
          cases h
        · rw [hf'] at h
          cases h
          exact hle

/-- A production does not leave more than a rule does that may be tried. -/
theorem readOutcome_le_rule {n : Nat} (hx : x ∈ p.rules.zipIdx) (hsite : (p, x.2) ∉ seen)
    (hne : stack ≠ []) (hrule : ∀ b, (ruleOutcome b p x.1 stack ((p, x.2) :: seen)).Within n)
    (b : Nat) :
    (readOutcome b p stack seen).Within n := by
  obtain ⟨item, stack, rfl⟩ := exists_cons_of_ne_nil hne
  cases b with
  | zero => exact .inl rfl
  | succ b => exact extendOutcome_le_rule hx hsite hne hrule b none

/-! ### Productions that begin with another -/

/-- All rules of `p` begin with `q` and a token that opens a construct. With `seen` under way, `q` is
read in each of them as it is read with `inside` under way. -/
structure Lead (p q : Production) (seen inside : Seen) : Prop where
  rules : ∀ x ∈ p.rules.zipIdx, ∃ action kind parts,
    x.1 = .parts action (.production q :: .token kind :: parts) ∧ kind.opens = true ∧
      parts.all Part.inner = true
  reads : ∀ x ∈ p.rules.zipIdx, ∀ b stack,
    readOutcome b q stack ((p, x.2) :: seen) = readOutcome b q stack inside

/-- The production takes the whole stack. -/
def Exhausts (q : Production) (inside : Seen) (stack : Stack) : Prop :=
  ∃ b e, readOutcome b q stack inside = .found (e, [])

theorem Exhausts.eq_nil {inside : Seen} (h : Exhausts q inside stack)
    (hf : readOutcome b q stack inside = .found f) : f.2 = [] := by
  obtain ⟨b', e, he⟩ := h
  rcases readOutcome_of_found he b with hhalted | hfound
  · rw [hhalted] at hf
    cases hf
  · rw [hfound] at hf
    cases hf
    rfl

namespace Lead

variable {inside : Seen} {b' : Nat} (h : Lead p q seen inside)

include h

/-- A rule takes more than what it begins with. -/
theorem rule_found_lt (hx : x ∈ p.rules.zipIdx)
    (hfound : ruleOutcome b p x.1 stack ((p, x.2) :: seen) = .found f) :
    ∃ b₁ < b, ∃ f₁, readOutcome b₁ q stack inside = .found f₁ ∧ f.2.length < f₁.2.length := by
  obtain ⟨action, kind, parts, hrule, -, -⟩ := h.rules x hx
  rw [hrule] at hfound
  obtain ⟨b₁, hb₁, f₁, hq, hnext⟩ := matchOutcome_production_found hfound
  rw [h.reads x hx] at hq
  obtain ⟨items, htakes⟩ := takes_of_matchOutcome hnext
  obtain ⟨hsuffix, hcount⟩ := htakes.suffix
  refine ⟨b₁, hb₁, f₁, hq, length_lt_of_suffix hsuffix ?_⟩
  rw [countP_cons_of_pos rfl] at hcount
  omega

/-- The production takes more than what it begins with. -/
theorem found_lt (hfound : readOutcome b p stack seen = .found f) :
    ∃ b₁ f₁, readOutcome b₁ q stack inside = .found f₁ ∧ f.2.length < f₁.2.length := by
  obtain ⟨b₂, g, hg, -, hle⟩ := exists_choose_of_readOutcome hfound
  rcases exists_rule_of_chooseOutcome hg with hbest | ⟨x, hx, -, b₃, hrule⟩
  · cases hbest
  · obtain ⟨b₁, -, f₁, hq, hlt⟩ := h.rule_found_lt hx hrule
    exact ⟨b₁, f₁, hq, by omega⟩

/-- If nothing is left after what they begin with, the rules come to nothing. -/
theorem rule_ne_found (hstack : Exhausts q inside stack) (hx : x ∈ p.rules.zipIdx) (b : Nat)
    (f : Found) :
    ruleOutcome b p x.1 stack ((p, x.2) :: seen) ≠ .found f := by
  intro hfound
  obtain ⟨b₁, -, f₁, hq, hlt⟩ := h.rule_found_lt hx hfound
  simp [hstack.eq_nil hq] at hlt

theorem readOutcome_ne_found (hstack : Exhausts q inside stack) (b : Nat) (f : Found) :
    readOutcome b p stack seen ≠ .found f := by
  intro hfound
  obtain ⟨b₁, f₁, hq, hlt⟩ := h.found_lt hfound
  simp [hstack.eq_nil hq] at hlt

/-! ### The two readings -/

variable {tail : Stack} {bound : Nat}

/-- The rules keep `Cut`, unless what they begin with takes the whole stack. -/
theorem rules_cut (hbelow : Below tail bound) (hread : ReadCut tail bound q inside) :
    RulesCut tail bound p seen (Exhausts q inside) := by
  intro stack hready x hx _ b b' hlt
  by_cases hstack : Exhausts q inside stack
  · cases hx' : ruleOutcome b p x.1 stack ((p, x.2) :: seen) with
    | found f => exact absurd hx' (h.rule_ne_found hstack hx b f)
    | halted => exact .inl (.short _)
    | refused =>
      cases hy : ruleOutcome b' p x.1 (stack ++ tail) ((p, x.2) :: seen) with
      | halted => exact .inl (.long _)
      | refused => exact .inl .refused
      | found f =>
        -- What the rule begins with gets to the end of the stack, and the rule gets farther.
        obtain ⟨b₁, hb₁, f₁, hq, hlt⟩ := h.rule_found_lt hx hy
        have ⟨b₂, e, he⟩ := hstack
        have hcut := hread stack hready b₂ b₁ (by omega)
        rw [he, hq] at hcut
        cases hcut with
        | same _ hne => exact absurd rfl hne
        | through _ hle => exact .inr ⟨.inr ⟨f, rfl, by omega⟩, hstack⟩
  · left
    obtain ⟨action, kind, parts, hrule, hopens, hparts⟩ := h.rules x hx
    rw [hrule]
    refine (matchOutcome_production_cut hready (hread.congr (h.reads x hx)) ?_
      (.inr (.inr ?_))).pred b b' hlt
    · intro e rest hrest
      exact (matchOutcome_opens_cut hbelow hopens hparts hrest).pred
    · intro b e he
      rw [h.reads x hx] at he
      exact hstack ⟨b, e, he⟩

/-- If nothing is left after what the rules begin with, the production goes no farther. -/
theorem extendOutcome_of_exhausts (hstack : Exhausts q inside stack) (hne : stack ≠ []) (b : Nat)
    (last : Option Found) :
    extendOutcome b p stack seen last = .ofLast last ∨
      extendOutcome b p stack seen last = .halted := by
  cases b with
  | zero => exact .inr rfl
  | succ b =>
    rw [extendOutcome_succ b p hne]
    have hchoose := chooseOutcome_refused (fun _ hx b f => h.rule_ne_found hstack hx b f) b
    rcases hchoose with hx | hx
    · exact .inl (by rw [hx]; rfl)
    · exact .inr (by rw [hx]; rfl)

/-- **The two readings of a production that begins with another** keep `Cut`, unless the first is
stuck: what the rules begin with takes the whole stack, or all that the production leaves. -/
theorem readOutcome_cut (hbelow : Below tail bound) (hread : ReadCut tail bound q inside)
    (hready : Ready stack) (hlt : b' < bound + 1) :
    RuleCut tail (Exhausts q inside stack ∨
        ∃ f, readOutcome b p stack seen = .found f ∧ Exhausts q inside (.tree f.1 :: f.2))
      (readOutcome b p stack seen) (readOutcome b' p (stack ++ tail) seen) := by
  rcases Grammar.readOutcome_cut (h.rules_cut hbelow hread) hready b b' hlt with
    hcut | ⟨hy, b₀, ⟨hstack, -⟩ | ⟨f, hstack, hx⟩⟩
  · exact .inl hcut
  · exact .inr ⟨hy, .inl hstack⟩
  · rcases h.extendOutcome_of_exhausts hstack (cons_ne_nil _ _) b₀ (some f) with hf | hhalted
    · exact .inr ⟨hy, .inr ⟨f, hx.trans hf, hstack⟩⟩
    · exact .inl (by rw [hx, hhalted]; exact .short _)

end Lead

end Parley.Grammar
