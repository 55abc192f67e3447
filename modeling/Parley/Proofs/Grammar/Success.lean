import Parley.Grammar.Reading

/-!
# What a success of the reader is

The reader is steered by its budget, by the rules that are under way and by the lengths of the
rests. None of this shows in a success: it consists of rules of the grammar, put together in the way
that `Reads` describes. Whatever is to be shown about the trees that are read and about the rests
that are left can be shown by induction on `Reads`, without the reader.
-/

namespace Parley.Grammar

open Traced

mutual

/-- A production is read by one of its rules, any number of times: what has been built is put back
on the stack for the next time. -/
inductive Reads : Production → Stack → Expr → Stack → Prop
  | once {p : Production} {stack rest : Stack} {e : Expr} :
      Picks p stack e rest → Reads p stack e rest
  | again {p : Production} {stack middle rest : Stack} {e e' : Expr} :
      Reads p stack e middle → Picks p (.tree e :: middle) e' rest → Reads p stack e' rest

/-- A rule is another production, or it builds its tree from the items that its parts take. -/
inductive Picks : Production → Stack → Expr → Stack → Prop
  | via {p q : Production} {stack rest : Stack} {e : Expr} :
      Rule.via q ∈ p.rules → Reads q stack e rest → Picks p stack e rest
  | parts {p : Production} {action : Action} {parts : List Part} {stack rest : Stack}
      {items : List Item} {e : Expr} :
      Rule.parts action parts ∈ p.rules → Takes parts stack items rest →
      (action.build items).result = .ok e → Picks p stack e rest

/-- The parts of a rule take items one after the other. -/
inductive Takes : List Part → Stack → List Item → Stack → Prop
  | nil {stack : Stack} : Takes [] stack [] stack
  | production {q : Production} {parts : List Part} {stack middle rest : Stack} {e : Expr}
      {items : List Item} :
      Reads q stack e middle → Takes parts middle items rest →
      Takes (.production q :: parts) stack (.tree e :: items) rest
  | token {t : Token} {parts : List Part} {stack rest : Stack} {items : List Item} :
      Takes parts stack items rest →
      Takes (.token t.kind :: parts) (.token t :: stack) (.token t :: items) rest
  | tree {shape : Shape} {e : Expr} {parts : List Part} {stack rest : Stack}
      {items : List Item} :
      shape.fits e = true → Takes parts stack items rest →
      Takes (.tree shape :: parts) (.tree e :: stack) (.tree e :: items) rest

end

/-- A statement has to be used up. -/
theorem parse_result (tokens : List Token) :
    (parse tokens).result =
      match (read (budgetFor tokens.length) .statement (tokens.map .token) []).result with
      | .ok (e, []) => .ok e
      | .ok (_, _ :: _) => .error (.rejected none [] false)
      | .error f => .error f := by
  rw [parse, result_bind]
  rcases (read (budgetFor tokens.length) .statement (tokens.map .token) []).result with
    f | ⟨e, _ | ⟨item, rest⟩⟩ <;> rfl

/-- The attempt to read a rule of a production; the rule itself is under way. -/
def tryRule (budget : Nat) (p : Production) (rule : Rule) (stack : Stack) (seen : Seen) :
    Attempt Found :=
  match rule with
  | .via q => read budget q stack seen
  | .parts action parts => matchParts budget p action parts stack seen false []

/-- A rule is tried unless it is under way, and then the others are. -/
theorem choose_cons (budget : Nat) (p : Production) (stack : Stack) (seen : Seen) (index : Nat)
    (rule : Rule) (rules : List Rule) (best : Option Found) (expected : List Part) (atEnd : Bool) :
    choose (budget + 1) p stack seen index (rule :: rules) best expected atEnd =
      if seen.contains (p, index) then
        choose budget p stack seen (index + 1) rules best expected atEnd
      else
        (tryRule budget p rule stack ((p, index) :: seen)).handle (fun found =>
            choose budget p stack seen (index + 1) rules (some (better best found)) expected atEnd)
          (fun failure =>
            match failure with
            | .rejected _ parts _ =>
              choose budget p stack seen (index + 1) rules best (expected ++ parts) atEnd
            | .ended _ => choose budget p stack seen (index + 1) rules best expected true
            | f => fail f) := by
  cases rule <;> rfl

theorem finish_eq_ok {action : Action} {items : List Item} {rest rest' : Stack} {e : Expr}
    (h : (finish action items rest).result = .ok (e, rest')) :
    rest = rest' ∧ (action.build items).result = .ok e := by
  unfold finish at h
  cases hb : (action.build items).result with
  | ok e' =>
    simp only [hb, Except.ok.injEq, Prod.mk.injEq] at h
    exact ⟨h.2, by rw [h.1]⟩
  | error f => simp [hb] at h

/-- The better of two results is one of them. -/
theorem better_eq (old : Option Found) (new : Found) :
    better old new = new ∨ old = some (better old new) := by
  cases old with
  | none => exact .inl rfl
  | some o =>
    by_cases hlen : o.2.length > new.2.length
    · exact .inl (by rw [better, if_pos hlen])
    · exact .inr (by rw [better, if_neg hlen])

/-! ### The four parts of the reader -/

mutual

/-- Every success of the reader is described by `Reads`, whatever its budget and the rules under
way. -/
theorem reads_of_read {budget p stack seen e rest}
    (h : (read budget p stack seen).result = .ok (e, rest)) : Reads p stack e rest := by
  match budget, stack with
  | 0, _ | _ + 1, [] => simp [read] at h
  | budget + 1, item :: stack => exact reads_of_extend (by simp) (fun _ => rfl) h

/-- While a production is extended, `start` is the stack on which it began. -/
theorem reads_of_extend {budget p start stack seen last e rest} (hlast : ∀ found,
      last = some found → Reads p start found.1 found.2 ∧ stack = .tree found.1 :: found.2)
    (hnone : last = none → stack = start)
    (h : (extend budget p stack seen last).result = .ok (e, rest)) : Reads p start e rest := by
  match budget with
  | 0 => simp [extend] at h
  | budget + 1 =>
    rw [extend, result_handle] at h
    cases hc : (choose budget p stack seen 0 p.rules none [] false).result with
    | ok found =>
      obtain ⟨e₁, rest₁⟩ := found
      rw [hc] at h
      have hpick : Picks p stack e₁ rest₁ := picks_of_choose (fun _ hr => hr) (by simp) hc
      have hreads : Reads p start e₁ rest₁ := by
        cases last with
        | none => exact .once (hnone rfl ▸ hpick)
        | some found =>
          obtain ⟨hfound, rfl⟩ := hlast found rfl
          exact .again hfound hpick
      refine reads_of_extend ?_ (by simp) h
      rintro _ ⟨⟩
      exact ⟨hreads, rfl⟩
    | error failure =>
      rw [hc] at h
      -- After a failure the last result stands, if there is one.
      cases last with
      | none => cases failure <;> simp at h
      | some found =>
        have hfound := (hlast found rfl).1
        cases failure with
        | rejected =>
          cases h
          exact hfound
        | ended =>
          by_cases hempty : found.2.isEmpty
          · simp only [hempty, if_true, result_pure, Except.ok.injEq] at h
            subst h
            exact hfound
          · simp [hempty] at h
        | unfinished | fault | spent => simp at h

theorem picks_of_choose {budget p stack seen index rules best expected atEnd e rest}
    (hrules : ∀ rule ∈ rules, rule ∈ p.rules)
    (hbest : ∀ found, best = some found → Picks p stack found.1 found.2)
    (h : (choose budget p stack seen index rules best expected atEnd).result = .ok (e, rest)) :
    Picks p stack e rest := by
  match budget, rules with
  | 0, _ => simp [choose] at h
  | _ + 1, [] =>
    cases best with
    | none => simp [choose] at h
    | some found =>
      cases h
      exact hbest _ rfl
  | budget + 1, rule :: rules =>
    obtain ⟨hhead, htail⟩ := List.forall_mem_cons.mp hrules
    rw [choose_cons] at h
    split at h
    · exact picks_of_choose htail hbest h
    · rw [result_handle] at h
      split at h
      · next found hfound =>
        obtain ⟨e₁, rest₁⟩ := found
        have hpick : Picks p stack e₁ rest₁ := by
          cases rule with
          | via q => exact .via hhead (reads_of_read hfound)
          | parts action parts =>
            obtain ⟨items, htakes, hbuild⟩ := takes_of_matchParts hfound
            exact .parts hhead htakes hbuild
        refine picks_of_choose htail ?_ h
        rintro _ ⟨⟩
        rcases better_eq best (e₁, rest₁) with hb | hb
        · rwa [hb]
        · exact hbest _ hb
      · next failure _ =>
        cases failure with
        | rejected | ended => exact picks_of_choose htail hbest h
        | unfinished | fault | spent => simp at h

/-- The items that the parts before `parts` have taken are `taken`. -/
theorem takes_of_matchParts {budget p action parts stack seen opened taken e rest}
    (h : (matchParts budget p action parts stack seen opened taken).result = .ok (e, rest)) :
    ∃ items, Takes parts stack items rest ∧
      (action.build (taken.reverse ++ items)).result = .ok e := by
  -- The item that a part has taken moves from the items ahead to those behind.
  have shift : ∀ {item : Item} {items : List Item},
      (action.build ((item :: taken).reverse ++ items)).result = .ok e →
      (action.build (taken.reverse ++ item :: items)).result = .ok e := by
    intro item items hbuild
    rwa [List.reverse_cons, List.append_assoc] at hbuild
  match budget, parts, stack with
  | 0, _, _ | _ + 1, _ :: _, [] => simp [matchParts] at h
  | _ + 1, [], stack =>
    obtain ⟨rfl, hbuild⟩ := finish_eq_ok h
    exact ⟨[], .nil, by rwa [List.append_nil]⟩
  | budget + 1, .production q :: parts, item :: stack =>
    rw [matchParts, result_bind] at h
    · cases hq : (read budget q (item :: stack) seen).result with
      | ok found =>
        rw [hq] at h
        obtain ⟨items, htakes, hbuild⟩ := takes_of_matchParts h
        exact ⟨_, .production (reads_of_read hq) htakes, shift hbuild⟩
      | error f => rw [hq] at h; simp [Except.bind] at h
    · simp
  | _ + 1, .token _ :: _, .tree _ :: _ | _ + 1, .tree _ :: _, .token _ :: _ =>
    simp [matchParts] at h
  | budget + 1, .token kind :: parts, .token t :: stack =>
    rw [matchParts] at h
    by_cases hkind : t.kind = kind
    · subst hkind
      rw [if_pos rfl] at h
      obtain ⟨items, htakes, hbuild⟩ := takes_of_matchParts h
      exact ⟨_, .token htakes, shift hbuild⟩
    · simp [hkind] at h
  | budget + 1, .tree shape :: parts, .tree e' :: stack =>
    rw [matchParts] at h
    by_cases hfits : shape.fits e' = true
    · rw [if_pos hfits] at h
      obtain ⟨items, htakes, hbuild⟩ := takes_of_matchParts h
      exact ⟨_, .tree hfits htakes, shift hbuild⟩
    · simp [hfits] at h

end

end Parley.Grammar
