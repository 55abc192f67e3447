import Parley.Proofs.Grammar.Visits

/-!
# How reading fails

A rule whose parts have been matched builds its tree: the productions inside it give trees of the
shapes that it asks for, and only the rule for integers can still fail, on too many digits. So of
all the failures that `Failure` has room for, a production that is given something to read knows
three: nothing fits, the input ended inside a construct, or there is an integer that cannot be read
(`Failure.Ordinary`). Where the input ended inside a construct, the reader has visited a place where
it does (`Visit.Stops`). That the input ended before anything was opened is never heard of outside of
the rule in which it happened.
-/

namespace Parley.Grammar

open List Traced
open Visit (Stops)

variable {e : Expr} {action : Action} {parts : List Part} {items : List Item} {index : Nat}
  {rules : List Rule} {best : Option Found} {p : Production} {f : Failure}

/-! ### Rules build their trees -/

/-- Productions of whose trees no rule asks for more than that they are trees. -/
def Production.plain : Production → Bool
  | .variableName | .elementList | .paramList | .arg | .argList => false
  | _ => true

/-- The trees that a production gives, as far as rules make a difference between them. -/
inductive Production.Gives : Production → Expr → Prop
  | variableName (name : String) : Gives .variableName (.lookup name)
  | elementList (es : List Expr) : Gives .elementList (.elementList es)
  | paramList (names : List String) : Gives .paramList (.paramList names)
  | arg (name : String) (e : Expr) : Gives .arg (.arg name e)
  | argList (args : List (String × Expr)) : Gives .argList (.argList args)
  | plain {p : Production} {e : Expr} (h : p.plain = true) : Gives p e

/-- The items that a part takes. -/
inductive Part.Suits : Part → Item → Prop
  | token {t : Token} {kind : Token.Kind} (h : t.kind = kind) : Suits (.token kind) (.token t)
  | tree (e : Expr) : Suits (.tree .any) (.tree e)
  | elements (es : List Expr) : Suits (.tree .elementList) (.tree (.elementList es))
  | params (names : List String) : Suits (.tree .paramList) (.tree (.paramList names))
  | args (args : List (String × Expr)) : Suits (.tree .argList) (.tree (.argList args))
  | production {q : Production} {e : Expr} (h : q.Gives e) : Suits (.production q) (.tree e)

theorem suits_of_fits {shape : Shape} (h : shape.fits e = true) :
    Part.Suits (.tree shape) (.tree e) := by
  unfold Shape.fits at h
  split at h
  · exact .tree _
  · exact .elements _
  · exact .params _
  · exact .args _
  · cases h

/-- A rule builds a tree of the kind that its production gives. -/
theorem gives_of_build (hrule : Rule.parts action parts ∈ p.rules)
    (hbuild : (action.build items).result = .ok e) : p.Gives e := by
  cases p <;> try exact .plain rfl
  -- The productions that are left have one action each, for all of their rules.
  all_goals
    simp only [Production.rules, mem_cons, not_mem_nil, or_false, Rule.parts.injEq,
      ← and_or_left] at hrule
    obtain ⟨rfl, -⟩ := hrule
    unfold Action.build at hbuild
    split at hbuild <;> try contradiction
    all_goals
      cases hbuild
      constructor

/-- The productions that have another production for a rule. -/
theorem plain_of_via {q : Production} (hrule : Rule.via q ∈ p.rules) : p.plain = true := by
  cases p <;> simp [Production.rules, Production.plain] at hrule ⊢

mutual

/-- A production gives a tree of its kind. -/
theorem Reads.gives {p : Production} {stack rest : Stack} {e : Expr} :
    Reads p stack e rest → p.Gives e
  | .once h => h.gives
  | .again _ h => h.gives

theorem Picks.gives {p : Production} {stack rest : Stack} {e : Expr} :
    Picks p stack e rest → p.Gives e
  | .via hrule _ => .plain (plain_of_via hrule)
  | .parts hrule _ hbuild => gives_of_build hrule hbuild

end

theorem integer_builds {t : Token} (hkind : t.kind = .integer) :
    (∃ e, (Action.integer.build [.token t]).result = .ok e) ∨
      ∃ t' : Token, t'.kind = .integer ∧ Number.digitLimit < t'.text.length ∧
        [Item.token t] = [.token t'] ∧
        (Action.integer.build [.token t]).result = .error (.tooManyDigits t'.text.length) := by
  by_cases hlen : t.text.length ≤ Number.digitLimit
  · left
    simp [Action.build, readInteger, hlen, Except.bind]
  · right
    refine ⟨t, hkind, Nat.lt_of_not_le hlen, rfl, ?_⟩
    simp [Action.build, readInteger, hlen, Except.bind]

/-- A list of one element is built from any tree, and so is a block of two statements. -/
theorem elementList_builds (e : Expr) :
    ∃ e', (Action.elementList.build [.tree e]).result = .ok e' := by
  cases e <;> exact ⟨_, rfl⟩

theorem block_builds (left right : Expr) (t : Token) :
    ∃ e, (Action.block.build [.tree left, .token t, .tree right]).result = .ok e := by
  cases left <;> exact ⟨_, rfl⟩

/-- **A rule builds its tree** from items that suit its parts, unless the tree is an integer with too
many digits. -/
theorem build_of_suits (hrule : Rule.parts action parts ∈ p.rules)
    (hitems : Forall₂ Part.Suits parts items) :
    (∃ e, (action.build items).result = .ok e) ∨
      ∃ t : Token, t.kind = .integer ∧ Number.digitLimit < t.text.length ∧ items = [.token t] ∧
        (action.build items).result = .error (.tooManyDigits t.text.length) := by
  cases p <;> simp only [Production.rules, mem_cons, not_mem_nil, or_false, reduceCtorEq,
    Rule.parts.injEq] at hrule
  all_goals
    try casesm* _ ∨ _
    all_goals
      obtain ⟨rfl, rfl⟩ := hrule
      casesm* Forall₂ _ _ _, Part.Suits _ _, Production.Gives _ _, Production.plain _ = true
      try exact .inl ⟨_, rfl⟩
  · exact integer_builds ‹_›
  · exact .inl (elementList_builds _)
  · exact .inl (block_builds _ _ _)

/-! ### Ordinary failures -/

/-- The failures of a production on a stack with something on it: nothing fits, the input ends inside
a construct, where it `stops`, the budget is spent, or an integer of the stack has too many
digits. -/
inductive Failure.Ordinary (stack : Stack) (stops : Prop) : Failure → Prop
  | rejected (inside : Option Production) (expected : List Part) (atEnd : Bool) :
      Ordinary stack stops (.rejected inside expected atEnd)
  | unfinished (inside : Production) (h : stops) : Ordinary stack stops (.unfinished inside)
  | spent : Ordinary stack stops .spent
  | digits {t : Token} (hmem : .token t ∈ stack) (hkind : t.kind = .integer)
      (hlen : Number.digitLimit < t.text.length) :
      Ordinary stack stops (.fault (.tooManyDigits t.text.length))

theorem Failure.Ordinary.mono {stack stack' : Stack} {stops stops' : Prop}
    (h : f.Ordinary stack stops) (hsub : ∀ t, Item.token t ∈ stack → Item.token t ∈ stack')
    (hstops : stops → stops') : f.Ordinary stack' stops' := by
  cases h with
  | rejected => exact .rejected _ _ _
  | unfinished _ h => exact .unfinished _ (hstops h)
  | spent => exact .spent
  | digits hmem hkind hlen => exact .digits (hsub _ hmem) hkind hlen

mutual

/-- What holds of the failures of the reader. That the input has ended before anything was opened is
a failure of rules only; no production has it. -/
theorem ordinary_of_read {budget p stack seen f} (hne : stack ≠ [])
    (h : (read budget p stack seen).result = .error f) :
    f.Ordinary stack (Stops (.production p stack)) := by
  match budget, stack with
  | 0, _ => cases h; exact .spent
  | budget + 1, item :: stack => exact ordinary_of_extend hne h

theorem ordinary_of_extend {budget p stack seen last f} (hne : stack ≠ [])
    (h : (extend budget p stack seen last).result = .error f) :
    f.Ordinary stack (Stops (.production p stack)) := by
  match budget with
  | 0 => cases h; exact .spent
  | budget + 1 =>
    rw [extend, result_handle] at h
    split at h
    · next found hfound =>
      have hpick : Picks p stack found.1 found.2 :=
        picks_of_choose (fun _ hr => hr) (by simp) hfound
      refine (ordinary_of_extend (by simp) h).mono (fun t ht => ?_) (.of_leads (.again hpick))
      rcases mem_cons.mp ht with ht | ht
      · cases ht
      · exact hpick.suffix.1.subset ht
    · next failure hfailure =>
      have hordinary := ordinary_of_choose hne (fun _ hr => hr) hfailure
      split at h
      · cases h
      · cases hordinary
      · cases h
        exact hordinary

theorem ordinary_of_choose {budget p stack seen index rules best expected atEnd f}
    (hne : stack ≠ []) (hrules : ∀ rule ∈ rules, rule ∈ p.rules)
    (h : (choose budget p stack seen index rules best expected atEnd).result = .error f) :
    f.Ordinary stack (Stops (.production p stack)) := by
  match budget, rules with
  | 0, _ => cases h; exact .spent
  | _ + 1, [] =>
    cases best with
    | none => cases h; exact .rejected _ _ _
    | some found => cases h
  | budget + 1, rule :: rules =>
    obtain ⟨hrule, htail⟩ := forall_mem_cons.mp hrules
    rw [choose_cons] at h
    split at h
    · exact ordinary_of_choose hne htail h
    · rw [result_handle] at h
      split at h
      · exact ordinary_of_choose hne htail h
      · next failure hfailure =>
        have hkinds : failure.Ordinary stack (Stops (.production p stack)) ∨
            failure = .ended p := by
          cases rule with
          | via q =>
            have hread := ordinary_of_read hne hfailure
            exact .inl (hread.mono (fun _ ht => ht) (.of_leads (.via stack hrule)))
          | parts action parts =>
            refine (ordinary_of_matchParts (nil_append _ ▸ hrule) .nil hfailure).imp_left fun hf => ?_
            exact hf.mono (fun _ ht => ht) (.of_leads (.rule stack hrule))
        split at h
        · exact ordinary_of_choose hne htail h
        · exact ordinary_of_choose hne htail h
        · next hended =>
          cases h
          exact hkinds.resolve_right (hended p)

/-- The parts before `parts` are `done`, and `taken` is what they have taken. -/
theorem ordinary_of_matchParts {budget p action done parts stack seen opened taken f}
    (hrule : Rule.parts action (done ++ parts) ∈ p.rules)
    (htaken : List.Forall₂ Part.Suits done taken.reverse)
    (h : (matchParts budget p action parts stack seen opened taken).result = .error f) :
    f.Ordinary (taken ++ stack) (Stops (.parts parts stack opened)) ∨ f = .ended p := by
  match budget, parts with
  | 0, _ => cases h; exact .inl .spent
  | _ + 1, [] =>
    rw [append_nil] at hrule
    rw [matchParts, finish] at h
    rcases build_of_suits hrule htaken with ⟨e, hok⟩ | ⟨t, hkind, hlen, hitems, herror⟩
    · simp [hok] at h
    · simp only [herror, Except.error.injEq] at h
      subst h
      have hmem : Item.token t ∈ taken := by
        rw [← mem_reverse, hitems]
        exact mem_singleton_self _
      exact .inl (.digits (mem_append_left _ hmem) hkind hlen)
  | budget + 1, part :: parts =>
    rw [append_cons] at hrule
    -- The part that has found its item joins those that are done.
    have hnext : ∀ {item stack' seen' opened'}, part.Suits item →
        Visit.Leads (.parts (part :: parts) stack opened) (.parts parts stack' opened') →
        (∀ t, Item.token t ∈ item :: taken ++ stack' → Item.token t ∈ taken ++ stack) →
        (matchParts budget p action parts stack' seen' opened' (item :: taken)).result = .error f →
        f.Ordinary (taken ++ stack) (Stops (.parts (part :: parts) stack opened)) ∨
          f = .ended p := by
      intro item stack' seen' opened' hsuits hleads hsub h
      have hdone : List.Forall₂ Part.Suits (done ++ [part]) (item :: taken).reverse := by
        rw [reverse_cons]
        exact rel_append htaken (.cons hsuits .nil)
      exact (ordinary_of_matchParts hrule hdone h).imp_left fun hf => hf.mono hsub (.of_leads hleads)
    match part, stack with
    | _, [] =>
      rw [matchParts] at h
      cases opened with
      | true => cases h; exact .inl (.unfinished _ ⟨_, _, .refl⟩)
      | false => cases h; exact .inr rfl
    | .production q, item :: stack =>
      rw [matchParts, result_bind] at h
      · cases hq : (read budget q (item :: stack) seen).result with
        | ok found =>
          rw [hq] at h
          have hreads : Reads q (item :: stack) found.1 found.2 := reads_of_read hq
          refine hnext (.production hreads.gives) (.leave parts opened hreads) (fun t ht => ?_) h
          rw [cons_append, mem_cons, mem_append] at ht
          rcases ht with ht | ht | ht
          · cases ht
          · exact mem_append_left _ ht
          · exact mem_append_right _ (hreads.suffix.1.subset ht)
        | error g =>
          rw [hq] at h
          cases h
          have hread := ordinary_of_read (cons_ne_nil _ _) hq
          exact .inl (hread.mono (fun t => mem_append_right _)
            (.of_leads (.enter q parts opened (cons_ne_nil _ _))))
      · simp
    | .token _, .tree _ :: _ | .tree _, .token _ :: _ => cases h; exact .inl (.rejected _ _ _)
    | .token kind, .token t :: stack =>
      rw [matchParts] at h
      split at h
      · next hkind =>
        subst hkind
        exact hnext (.token rfl) (.token t parts stack opened)
          (fun t ht => by simpa [or_left_comm] using ht) h
      · cases h; exact .inl (.rejected _ _ _)
    | .tree shape, .tree e :: stack =>
      rw [matchParts] at h
      split at h
      · next hfits =>
        exact hnext (suits_of_fits hfits) (.tree parts stack opened hfits)
          (fun t ht => by simpa [or_left_comm] using ht) h
      · cases h; exact .inl (.rejected _ _ _)

end

variable {stack : Stack} {seen : Seen} {expected : List Part} {inside : Option Production}
  {atEnd : Bool} {budget : Nat}

/-! ### Statements -/

/-- Rules that are other productions are never rejected for want of input. -/
theorem choose_via_rejected (hvia : ∀ rule ∈ rules, ∃ q, rule = .via q)
    (hne : stack ≠ []) {expected' : List Part}
    (h : (choose budget p stack seen index rules best expected false).result =
      .error (.rejected inside expected' atEnd)) : atEnd = false := by
  induction rules generalizing budget index best expected with
  | nil =>
    cases budget with
    | zero => cases h
    | succ budget =>
      cases best with
      | none => cases h; rfl
      | some found => cases h
  | cons rule rules ih =>
    obtain ⟨⟨q, rfl⟩, htail⟩ := forall_mem_cons.mp hvia
    cases budget with
    | zero => cases h
    | succ budget =>
      rw [choose_cons] at h
      split at h
      · exact ih htail h
      · rw [result_handle] at h
        split at h
        · exact ih htail h
        · next failure hfailure =>
          cases ordinary_of_read hne hfailure with
          | rejected => exact ih htail h
          | unfinished | spent | digits => cases h

/-- A production that has built something is not rejected any more. -/
theorem extend_some_not_rejected (hne : stack ≠ []) {found : Found} :
    (extend budget p stack seen (some found)).result ≠ .error (.rejected inside expected atEnd) := by
  induction budget generalizing stack found with
  | zero => simp [extend]
  | succ budget ih =>
    rw [extend, result_handle]
    split
    · exact ih (by simp)
    · next failure hfailure =>
      cases ordinary_of_choose hne (fun _ hr => hr) hfailure <;> simp

/-- What is rejected as a statement is not rejected for want of input: all its rules are other
productions. -/
theorem read_statement_rejected (hne : stack ≠ [])
    (h : (read budget .statement stack seen).result = .error (.rejected inside expected atEnd)) :
    atEnd = false := by
  obtain ⟨item, stack, rfl⟩ := exists_cons_of_ne_nil hne
  rcases budget with _ | _ | budget
  · cases h
  · cases h
  · rw [read, extend, result_handle] at h
    split at h
    · exact absurd h (extend_some_not_rejected (by simp))
    · next failure hfailure =>
      obtain rfl : failure = .rejected inside expected atEnd := by
        cases failure <;> exact Except.error.inj h
      exact choose_via_rejected (by simp [Production.rules]) hne hfailure

/-- **How statements fail**: something does not fit, and not for want of input; or the input ends
inside a construct; or there is an integer with too many digits. -/
theorem parse_ordinary {tokens : List Token} (hne : tokens ≠ [])
    (h : (parse tokens).result = .error f) :
    (∃ inside expected, f = .rejected inside expected false) ∨ (∃ inside, f = .unfinished inside) ∨
      ∃ t ∈ tokens, t.kind = .integer ∧ Number.digitLimit < t.text.length ∧
        f = .fault (.tooManyDigits t.text.length) := by
  have hstack : tokens.map Item.token ≠ [] := by simpa using hne
  rw [parse_result] at h
  split at h
  · cases h
  · cases h
    exact .inl ⟨none, [], rfl⟩
  · next g hread =>
    cases h
    cases ordinary_of_read hstack hread with
    | rejected inside expected atEnd =>
      rw [read_statement_rejected hstack hread]
      exact .inl ⟨inside, expected, rfl⟩
    | unfinished inside _ => exact .inr (.inl ⟨inside, rfl⟩)
    | spent => exact absurd hread (read_settled (enough_le_budgetFor tokens) le_rfl).2
    | digits hmem hkind hlen =>
      obtain ⟨t, ht, heq⟩ := mem_map.mp hmem
      obtain rfl := Item.token.inj heq
      exact .inr (.inr ⟨t, ht, hkind, hlen, rfl⟩)

/-- **A statement that is unfinished** has come to the end of the input inside a construct. -/
theorem stops_of_parse {tokens : List Token} {inside : Production} (hne : tokens ≠ [])
    (h : (parse tokens).result = .error (.unfinished inside)) :
    Stops (.production .statement (tokens.map .token)) := by
  rw [parse_result] at h
  split at h
  · cases h
  · cases h
  · next f hread =>
    cases h
    cases ordinary_of_read (by simpa using hne) hread with
    | unfinished _ hstops => exact hstops

end Parley.Grammar
