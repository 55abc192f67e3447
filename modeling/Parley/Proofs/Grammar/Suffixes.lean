import Parley.Proofs.Grammar.Operations

/-!
# Properties, subscripts and calls in a row

`v.a[1](k: 2).b()` is read from left to right: each suffix is applied to all that stands before it.
Two different mechanisms are at work. A property or a subscript is taken by a rule that begins with
a tree, so a production can take one after the other off the stack. A call begins with an
*expression*, in which calls are not tried, and that expression has to take something off the stack
itself. So a call can follow a name, a property or a subscript; but where it follows a call, the
tree of that call stands on the stack with a parenthesis after it, and nothing goes on from there.

The suffixes before the first call are read as one expression (`plain_extends`). Then the rule of
calls takes calls, with what stands between them, until two of them are neighbours or none is left
(`calls_extend`). This leaves less than any other rule does, and the suffixes after the last call
are then taken as those before the first one were.
-/

namespace Parley.Grammar

open List
open Parley.Token (exists_span)

variable {kinds : List Token.Kind} {row : List Suffix} {e : Expr} {c : Suffix}

/-- What can follow an expression: a property, a subscript, a call without arguments, or a call with
one of them. -/
inductive Suffix where
  | member (name : String)
  | subscript (index : Operand)
  | call
  | callWith (name : String) (value : Operand)

namespace Suffix

/-- The tokens of a suffix. -/
def tokens : Suffix → List Token
  | .member name => [⟨.dot, "."⟩, ⟨.name, name⟩]
  | .subscript index => [⟨.leftBracket, "["⟩, index.token, ⟨.rightBracket, "]"⟩]
  | .call => [⟨.leftParen, "("⟩, ⟨.rightParen, ")"⟩]
  | .callWith name value =>
    [⟨.leftParen, "("⟩, ⟨.name, name⟩, ⟨.colon, ":"⟩, value.token, ⟨.rightParen, ")"⟩]

/-- The tree of an expression with a suffix. -/
def apply (e : Expr) : Suffix → Expr
  | .member name => .member e name
  | .subscript index => .subscript e index.tree
  | .call => .call e []
  | .callWith name value => .call e [(name, value.tree)]

/-- Is the suffix a call? -/
def isCall : Suffix → Bool
  | .call | .callWith _ _ => true
  | _ => false

/-- The kind of the first token of a suffix, and the production that takes the suffix, with its
place among the rules of expressions. -/
def place : Suffix → Token.Kind × Production × Nat
  | .member _ => (.dot, .objectRef, 13)
  | .subscript _ => (.leftBracket, .subscript, 8)
  | .call | .callWith _ _ => (.leftParen, .call, 9)

/-- The places of suffixes that are not calls. -/
def plainPlaces : List (Token.Kind × Production × Nat) :=
  [(.dot, .objectRef, 13), (.leftBracket, .subscript, 8)]

theorem place_of_isCall {s : Suffix} (h : s.isCall = true) : s.place = (.leftParen, .call, 9) := by
  cases s with
  | member name | subscript index => cases h
  | call | callWith name value => rfl

theorem place_of_plain {s : Suffix} (h : s.isCall = false) : s.place ∈ plainPlaces := by
  cases s with
  | member name => exact mem_cons_self
  | subscript index => exact mem_cons_of_mem _ mem_cons_self
  | call | callWith name value => cases h

theorem place_of_dot {s : Suffix} (h : s.place.1 = .dot) :
    s.place = (.dot, .objectRef, 13) ∧ s.isCall = false := by
  cases s with
  | member name => exact ⟨rfl, rfl⟩
  | subscript index | call | callWith name value => cases h

/-- The first token of a suffix. -/
theorem exists_tokens (s : Suffix) : ∃ t more, s.tokens = t :: more ∧ t.kind = s.place.1 := by
  cases s <;> exact ⟨_, _, rfl, rfl⟩

end Suffix

variable {s : Suffix} {plain ss : List Suffix} {rest : Stack} {seen : Seen} {n : Nat}

/-- Do two calls stand next to each other? -/
def callsMeet : List Suffix → Bool
  | s :: s' :: ss => s.isCall && s'.isCall || callsMeet (s' :: ss)
  | _ => false

theorem callsMeet_cons_of_plain (h : s.isCall = false) (ss : List Suffix) :
    callsMeet (s :: ss) = callsMeet ss := by
  cases ss with
  | nil => rfl
  | cons s' ss => rw [callsMeet, h, Bool.false_and, Bool.false_or]

theorem callsMeet_append_of_plain (h : ∀ s ∈ plain, s.isCall = false) (ss : List Suffix) :
    callsMeet (plain ++ ss) = callsMeet ss := by
  induction plain with
  | nil => rfl
  | cons s plain ih =>
    obtain ⟨hs, hplain⟩ := forall_mem_cons.mp h
    rw [cons_append, callsMeet_cons_of_plain hs, ih hplain]

/-- A call with other suffixes after it meets no call there. -/
theorem callsMeet_cons_append (h : ∀ s ∈ plain, s.isCall = false) (hne : plain ≠ []) (c : Suffix)
    (ss : List Suffix) :
    callsMeet (c :: (plain ++ ss)) = callsMeet ss := by
  obtain ⟨s, plain, rfl⟩ := exists_cons_of_ne_nil hne
  have hs := h s mem_cons_self
  rw [cons_append, callsMeet, hs, Bool.and_false, Bool.false_or, ← cons_append,
    callsMeet_append_of_plain h]

/-! ### The tokens of suffixes -/

/-- The tokens of suffixes on a stack. -/
def suffixItems (ss : List Suffix) : Stack :=
  (ss.flatMap Suffix.tokens).map .token

theorem suffixItems_cons (s : Suffix) (ss : List Suffix) :
    suffixItems (s :: ss) = s.tokens.map .token ++ suffixItems ss := by
  simp [suffixItems]

theorem suffixItems_append (ss ss' : List Suffix) :
    suffixItems (ss ++ ss') = suffixItems ss ++ suffixItems ss' := by
  simp [suffixItems]

theorem exists_suffixItems (s : Suffix) (ss : List Suffix) :
    ∃ t stack, suffixItems (s :: ss) = .token t :: stack ∧ t.kind = s.place.1 := by
  obtain ⟨t, more, hs, ht⟩ := s.exists_tokens
  exact ⟨t, more.map .token ++ suffixItems ss, by simp [suffixItems_cons, hs], ht⟩

/-- Which kinds of tokens suffixes do not begin with. -/
theorem suffixItems_clear (h : ∀ s more, ss = s :: more → s.place.1 ∉ kinds) :
    Clear kinds (suffixItems ss) := by
  cases ss with
  | nil => exact .inl rfl
  | cons s ss =>
    obtain ⟨t, stack, hstack, ht⟩ := exists_suffixItems s ss
    exact .inr ⟨t, stack, hstack, ht ▸ h s ss rfl⟩

theorem suffixItems_append_clear (hss : Clear kinds (suffixItems ss)) (hrest : Clear kinds rest) :
    Clear kinds (suffixItems ss ++ rest) := by
  rcases hss with hnil | ⟨t, stack, hstack, ht⟩
  · rwa [hnil]
  · exact .inr ⟨t, stack ++ rest, by rw [hstack]; rfl, ht⟩

/-! ### Suffixes of one kind -/

/-- A suffix that is not a call is taken by its production. -/
theorem plain_pick (hs : s.isCall = false) (hseen : (s.place.2.1, 0) ∉ seen) (e : Expr)
    (rest : Stack) :
    Finds n (pick · s.place.2.1 (.tree e :: (s.tokens.map .token ++ rest)) seen)
      (s.apply e, rest) := by
  cases s with
  | member name => exact objectRef_pick rfl rfl hseen e rest
  | subscript index =>
    have hclosing : Closing (.token ⟨.rightBracket, "]"⟩ :: rest) := .inr ⟨_, _, rfl, by decide⟩
    refine pick_finds_only rfl hseen (matchParts_tree_comes rfl (matchParts_token_comes rfl ?_))
    refine matchParts_production_comes (index.gives.2 n hclosing (by simp)) ?_
    exact matchParts_token_comes rfl (matchParts_nil_finds rfl)
  | call | callWith name value => cases hs

/-- A production takes all suffixes of its kind that stand in a row. -/
theorem row_extends {p : Production} (hseen : (p, 0) ∉ seen) (hplain : ∀ s ∈ ss, s.isCall = false)
    (hrow : ∀ s ∈ ss, s.place.2.1 = p) (hrest : Clear p.after rest) (e : Expr) :
    Finds n (extend · p (.tree e :: (suffixItems ss ++ rest)) seen
      (some (e, suffixItems ss ++ rest))) (ss.foldl Suffix.apply e, rest) := by
  induction ss generalizing e with
  | nil => exact extend_stops (pick_refuses_of_after hrest e seen)
  | cons s ss ih =>
    obtain ⟨hs, hss⟩ := forall_mem_cons.mp hplain
    obtain ⟨rfl, hrow⟩ := forall_mem_cons.mp hrow
    rw [suffixItems_cons, append_assoc]
    exact extend_again (plain_pick hs hseen e _) (ih hss hrow _)

/-- The first suffixes, as long as they are of one kind, and the others. -/
theorem exists_row (s : Suffix) (ss : List Suffix) :
    ∃ row more, s :: ss = s :: row ++ more ∧ (∀ x ∈ s :: row, x.place = s.place) ∧
      ∀ x after, more = x :: after → x.place ≠ s.place := by
  obtain ⟨row, more, rfl, -, hrow, hmore⟩ := exists_span (fun x => x.place == s.place) ss
  refine ⟨row, more, rfl, forall_mem_cons.mpr ⟨rfl, ?_⟩, ?_⟩
  · exact fun x hx => beq_iff_eq.mp (hrow x hx)
  · exact fun x after h => beq_eq_false_iff_ne.mp (hmore x after h)

theorem row_read (hseen : (s.place.2.1, 0) ∉ seen) (hs : s.isCall = false)
    (hplain : ∀ x ∈ row, x.isCall = false) (hrow : ∀ x ∈ row, x.place = s.place)
    (hrest : Clear s.place.2.1.after rest) (e : Expr) :
    Finds n (read · s.place.2.1 (.tree e :: (suffixItems (s :: row) ++ rest)) seen)
      ((s :: row).foldl Suffix.apply e, rest) := by
  rw [suffixItems_cons, append_assoc]
  exact read_finds (extend_again (plain_pick hs hseen e _)
    (row_extends hseen hplain (fun x hx => by rw [hrow x hx]) hrest _))

/-! ### Suffixes that are not calls -/

section Plain

variable (hseen : Admits seen)

include hseen

/-- An expression takes a row of suffixes of one kind at once, where calls come to nothing. -/
theorem row_pick (hs : s.isCall = false) (hplain : ∀ x ∈ row, x.isCall = false)
    (hrow : ∀ x ∈ row, x.place = s.place) (hrest : Clear s.place.2.1.after rest)
    (hcall : CallFree (.tree e :: (suffixItems (s :: row) ++ rest)) seen) :
    Finds n (pick · .expression (.tree e :: (suffixItems (s :: row) ++ rest)) seen)
      ((s :: row).foldl Suffix.apply e, rest) := by
  have hplaces : ∀ y ∈ Suffix.plainPlaces,
      (Rule.via y.2.1, y.2.2) ∈ Production.expression.rules.zipIdx ∧
      outside (.expression, y.2.2) = false ∧ outside (y.2.1, 0) = false ∧ y.2.1 ≠ .expression ∧
      ∀ x ∈ Production.expression.rules.zipIdx, x ≠ (.via y.2.1, y.2.2) →
        x ≠ (.via .call, 9) → y.1 ∉ x.1.after := by decide
  obtain ⟨hplace, hsite, hout, hne, honly⟩ := hplaces _ (Suffix.place_of_plain hs)
  have hfree : (s.place.2.1, 0) ∉ (Production.expression, s.place.2.2) :: seen := by
    rw [mem_cons, not_or]
    exact ⟨fun h => hne (Prod.mk.inj h).1, hseen.not_mem hout⟩
  have hread := row_read (n := n) hfree hs hplain hrow hrest e
  obtain ⟨t, stack, hstack, ht⟩ := exists_suffixItems s row
  rw [hstack] at hcall hread ⊢
  refine tree_pick hplace (hseen.not_mem hsite) ?_ hread hcall
  rwa [ht]

/-- **An expression takes all suffixes up to the first call**, where calls come to nothing on the
way. -/
theorem plain_extends (hplain : ∀ s ∈ ss, s.isCall = false)
    (hrest : Clear Production.expression.after rest) (hcall : ∀ e more, more ≠ [] → more <:+ ss →
      CallFree (.tree e :: (suffixItems more ++ rest)) seen) (e : Expr) {last : Option Found}
    (hlast : ss = [] → last = some (e, rest)) :
    Finds n (extend · .expression (.tree e :: (suffixItems ss ++ rest)) seen last)
      (ss.foldl Suffix.apply e, rest) := by
  -- The induction is on the number of suffixes: a row of one kind is taken in each round.
  induction hlength : ss.length using Nat.strongRecOn generalizing ss e last with
  | ind length ih =>
    subst hlength
    cases ss with
    | nil =>
      rw [hlast rfl]
      exact extend_stops (pick_refuses_of_after hrest e seen)
    | cons s ss =>
      obtain ⟨row, more, hsplit, hrow, hmore⟩ := exists_row s ss
      rw [hsplit] at hplain hcall ih ⊢
      obtain ⟨hrowplain, hmoreplain⟩ := forall_mem_append.mp hplain
      obtain ⟨hs, hrowplain⟩ := forall_mem_cons.mp hrowplain
      have hdiffer : ∀ x ∈ Suffix.plainPlaces, x.2.1.after ⊆ Production.expression.after ∧
          ∀ y ∈ Suffix.plainPlaces, y ≠ x → y.1 ∉ x.2.1.after := by decide
      obtain ⟨hafter, hother⟩ := hdiffer _ (Suffix.place_of_plain hs)
      have hclear : Clear s.place.2.1.after (suffixItems more ++ rest) := by
        refine suffixItems_append_clear (suffixItems_clear fun x after hx => ?_) (hrest.mono hafter)
        refine hother _ (Suffix.place_of_plain (hmoreplain x ?_)) (hmore x after hx)
        rw [hx]
        exact mem_cons_self
      have hfree := hcall e _ (by simp) (suffix_refl _)
      rw [suffixItems_append, append_assoc] at hfree ⊢
      rw [foldl_append]
      refine extend_again (row_pick hseen hs hrowplain (forall_mem_cons.mp hrow).2 hclear hfree) ?_
      have hless : more.length < (s :: row ++ more).length := by
        simp only [length_append, length_cons]
        omega
      refine ih more.length hless hmoreplain (fun e' more' hne hsuffix => ?_) _ ?_ rfl
      · exact hcall e' more' hne (hsuffix.trans (suffix_append _ _))
      · rintro rfl
        rfl

/-- In the function of a call, an expression takes all suffixes up to the first call. -/
theorem plain_read_in_call (hplain : ∀ s ∈ ss, s.isCall = false) (hne : ss ≠ [])
    (hrest : Clear Production.expression.after rest) (e : Expr) (index n : Nat) :
    Finds n (read · .expression (.tree e :: (suffixItems ss ++ rest))
      ((.call, index) :: (.expression, 9) :: seen)) (ss.foldl Suffix.apply e, rest) :=
  read_finds (plain_extends (hseen.in_call index) hplain hrest
    (fun _ _ _ _ => callFree_in_call _ _ _) e fun h => absurd h hne)

/-- An operand with suffixes, in the function of a call. -/
theorem operand_read_in_call (c : Operand) (hplain : ∀ s ∈ ss, s.isCall = false)
    (hrest : Clear Production.expression.after rest) (index n : Nat) :
    Finds n (read · .expression (.token c.token :: (suffixItems ss ++ rest))
      ((.call, index) :: (.expression, 9) :: seen)) (ss.foldl Suffix.apply c.tree, rest) := by
  have hclear : Clear [] (suffixItems ss ++ rest) :=
    suffixItems_append_clear (suffixItems_clear fun _ _ _ => not_mem_nil)
      (hrest.mono (nil_subset _))
  refine read_finds (extend_again
    (operand_pick c (hseen.in_call index) hclear (callFree_in_call _ _ _)) ?_)
  refine plain_extends (hseen.in_call index) hplain hrest
    (fun _ _ _ _ => callFree_in_call _ _ _) _ ?_
  rintro rfl
  rfl

/-- Suffixes that are not calls are taken to the end, if there is nothing after them. -/
theorem plain_extends_end (hplain : ∀ s ∈ ss, s.isCall = false) (e : Expr) :
    Finds n (extend · .expression (.tree e :: suffixItems ss) seen (some (e, suffixItems ss)))
      (ss.foldl Suffix.apply e, []) := by
  have hcall (e : Expr) (more : List Suffix) (hne : more ≠ []) (hsuffix : more <:+ ss) :
      CallFree (.tree e :: (suffixItems more ++ [])) seen :=
    callFree_of_reads (.inl rfl) fun index n =>
      plain_read_in_call hseen (fun s hs => hplain s (hsuffix.subset hs)) hne (.inl rfl) e index n
  have hlast : ss = [] → some (e, suffixItems ss) = some (e, []) := by
    rintro rfl
    rfl
  have hextends := plain_extends (n := n) hseen hplain (.inl rfl) hcall e hlast
  rwa [append_nil] at hextends

end Plain

/-! ### Calls -/

/-- The one argument of a call. -/
theorem argList_finds (name : String) (value : Operand) (rest : Stack) :
    Finds n (read · .argList (.token ⟨.name, name⟩ :: .token ⟨.colon, ":"⟩ :: .token value.token ::
      .token ⟨.rightParen, ")"⟩ :: rest) [])
      (.argList [(name, value.tree)], .token ⟨.rightParen, ")"⟩ :: rest) := by
  have hclear {kinds : List Token.Kind} (h : Token.Kind.rightParen ∉ kinds) :
      Clear kinds (.token ⟨.rightParen, ")"⟩ :: rest) := .inr ⟨_, _, rfl, h⟩
  refine read_finds_of_pick (hclear (by decide))
    (pick_finds_second rfl not_mem_nil ?_ (.inl matchParts_tree_refuses.declines))
  exact matchParts_production_comes
    ((arg_gives name value.gives).2 n (hclear (by decide)) (by simp [harmless]))
    (matchParts_nil_finds rfl)

/-- The rule of calls takes a function and the call after it. -/
theorem call_pick (hc : c.isCall = true) {stack : Stack} {f : Expr}
    (hsites : ∀ index, (Production.call, index) ∉ seen)
    (hread : ∀ index n, Finds n (read · .expression stack ((.call, index) :: seen))
      (f, c.tokens.map .token ++ rest)) :
    Finds n (pick · .call stack seen) (c.apply f, rest) := by
  cases c with
  | member name | subscript index => cases hc
  | call =>
    refine pick_finds_second rfl (hsites 1) ?_ (.inl ?_)
    · refine matchParts_production_comes (hread 1 n) (matchParts_token_comes rfl ?_)
      exact matchParts_token_comes rfl (matchParts_nil_finds rfl)
    · refine matchParts_production_comes (hread 0 n) (matchParts_token_comes rfl ?_)
      exact (matchParts_production_refuses (read_refuses_of_first (by decide) _ _)).declines
  | callWith name value =>
    refine pick_finds_first rfl (hsites 0) ?_ (.inl ?_)
    · refine matchParts_production_comes (hread 0 n) (matchParts_token_comes rfl ?_)
      refine matchParts_production_comes (argList_finds name value rest) ?_
      exact matchParts_token_comes rfl (matchParts_nil_finds rfl)
    · refine matchParts_production_comes (hread 1 n) (matchParts_token_comes rfl ?_)
      exact (matchParts_token_refuses (by simp)).declines

/-- The suffixes before the first call, and the others. -/
theorem exists_plain (ss : List Suffix) :
    ∃ plain more, ss = plain ++ more ∧ (∀ s ∈ plain, s.isCall = false) ∧
      ∀ s after, more = s :: after → s.isCall = true := by
  obtain ⟨plain, more, hsplit, -, hplain, hmore⟩ := exists_span (fun s => !s.isCall) ss
  refine ⟨plain, more, hsplit, fun s hs => ?_, fun s after h => ?_⟩
  · simpa using hplain s hs
  · simpa using hmore s after h

/-- What may be left after a call and more suffixes: if no two calls are neighbours no call is left,
and otherwise one is left in front. -/
def LeftAfter (ss back : List Suffix) : Prop :=
  if callsMeet ss then ∃ c more, back = c :: more ∧ c.isCall = true
  else ∀ s ∈ back, s.isCall = false

/-- A parenthesis goes on from no tree. -/
theorem clear_of_isCall (hc : c.isCall = true) (hkinds : Token.Kind.leftParen ∉ kinds)
    (ss : List Suffix) :
    Clear kinds (suffixItems (c :: ss)) := by
  refine suffixItems_clear ?_
  rintro s more ⟨⟩
  rwa [Suffix.place_of_isCall hc]

/-- **What the rule of calls takes** after a call: everything up to the last call, or up to two
calls that are neighbours. -/
theorem calls_extend (hseen : Admits seen) (hsites : ∀ index, (Production.call, index) ∉ seen)
    (hc : c.isCall = true) (ss : List Suffix) (e : Expr) :
    ∃ front back, ss = front ++ back ∧ LeftAfter (c :: ss) back ∧
      ∀ n, Finds n (extend · .call (.tree e :: suffixItems ss) ((.expression, 9) :: seen)
        (some (e, suffixItems ss))) (front.foldl Suffix.apply e, suffixItems back) := by
  have hsites' (index : Nat) : (Production.call, index) ∉ (Production.expression, 9) :: seen := by
    simp [hsites index]
  -- The induction is on the number of suffixes: one call is taken in each round, with what is
  -- before it.
  induction hn : ss.length using Nat.strongRecOn generalizing c ss e with
  | ind n ih =>
    subst hn
    obtain ⟨plain, more, rfl, hplain, hmore⟩ := exists_plain ss
    cases plain with
    | nil =>
      refine ⟨[], more, rfl, ?_, fun n => extend_stops ?_⟩
      · cases more with
        | nil => simp [LeftAfter, callsMeet]
        | cons d more =>
          have hd := hmore d more rfl
          simp [LeftAfter, callsMeet, hc, hd]
      · refine pick_refuses_of_after ?_ e _
        cases more with
        | nil => exact .inl rfl
        | cons d more => exact clear_of_isCall (hmore d more rfl) (by decide) more
    | cons s plain =>
      have hne : s :: plain ≠ [] := cons_ne_nil _ _
      cases more with
      | nil =>
        refine ⟨[], _, rfl, ?_, fun n => extend_stops ?_⟩
        · rw [LeftAfter, callsMeet_cons_append hplain hne]
          simpa [callsMeet] using hplain
        · have hread (index : Nat) := plain_read_in_call hseen hplain hne (.inl rfl) e index n
          rw [append_nil] at hread ⊢
          exact call_pick_refuses (.inl rfl) hread
      | cons d more =>
        have hd := hmore d more rfl
        have hread := plain_read_in_call hseen hplain hne (clear_of_isCall hd (by decide) more) e
        have hless : more.length < (s :: plain ++ d :: more).length := by
          simp only [length_append, length_cons]
          omega
        obtain ⟨front, back, rfl, hleft, hnext⟩ :=
          ih more.length hless hd more (d.apply ((s :: plain).foldl Suffix.apply e)) rfl
        refine ⟨s :: plain ++ d :: front, back, by simp, ?_, fun n => ?_⟩
        · rwa [LeftAfter, callsMeet_cons_append hplain hne]
        · rw [suffixItems_append, foldl_append]
          rw [suffixItems_cons d] at hread ⊢
          exact extend_again (call_pick hd hsites' hread) (hnext n)

/-! ### Expressions with suffixes -/

/-- The rule of calls wins if there is a call: it leaves less than the operand alone. -/
theorem call_wins (c : Operand) (hseen : Admits seen) (hcall : (Production.expression, 9) ∉ seen)
    {back : List Suffix} {front : List Suffix} (hsplit : ss = front ++ back) (hne : front ≠ [])
    (hread : Finds n (read · .call (.token c.token :: suffixItems ss)
      ((.expression, 9) :: seen)) (e, suffixItems back)) :
    Finds n (pick · .expression (.token c.token :: suffixItems ss) seen) (e, suffixItems back) := by
  have hplace : (Rule.via .call, 9) ∈ Production.expression.rules.zipIdx := by decide
  have hclear : Clear [] (suffixItems ss) := suffixItems_clear fun _ _ _ => not_mem_nil
  have hless : (suffixItems back).length < (suffixItems ss).length := by
    obtain ⟨s, front, rfl⟩ := exists_cons_of_ne_nil hne
    obtain ⟨t, more, hs, -⟩ := s.exists_tokens
    rw [hsplit, suffixItems_append, suffixItems_cons, hs]
    simp only [length_append, length_map, length_cons]
    omega
  obtain ⟨-, honly⟩ := c.only_place
  refine pick_finds_of_rule hplace hcall hread fun x hx hxcall _ => ?_
  by_cases hxc : x = (.via c.place.1, c.place.2)
  · subst hxc
    exact .inr ⟨_, c.finds (c.not_mem_of_admits hseen) hclear, hless⟩
  · exact loses_of_first hx (honly x hx hxc hxcall)

/-- **How far an expression with suffixes is read**: to the end, or up to the first call that
follows a call. -/
theorem suffixes_read (c : Operand) (ss : List Suffix) (hseen : Admits seen)
    (hcall : (Production.expression, 9) ∉ seen)
    (hsites : ∀ index, (Production.call, index) ∉ seen) :
    ∃ front back, ss = front ++ back ∧
      (if callsMeet ss then ∃ d more, back = d :: more ∧ d.isCall = true else back = []) ∧
      ∀ n, Finds n (read · .expression (.token c.token :: suffixItems ss) seen)
        (front.foldl Suffix.apply c.tree, suffixItems back) := by
  obtain ⟨plain, more, rfl, hplain, hmore⟩ := exists_plain ss
  have hsites' (index : Nat) : (Production.call, index) ∉ (Production.expression, 9) :: seen := by
    simp [hsites index]
  cases more with
  | nil =>
    refine ⟨plain, [], rfl, ?_, fun n => ?_⟩
    · rw [callsMeet_append_of_plain hplain]
      rfl
    have hread := operand_read_in_call hseen c hplain (.inl rfl)
    have hclear : Clear [] (suffixItems plain) :=
      suffixItems_clear fun _ _ _ => not_mem_nil
    rw [append_nil] at hread ⊢
    have hfree := callFree_of_reads (.inl rfl) hread
    exact read_finds (extend_again (operand_pick c hseen hclear hfree)
      (plain_extends_end hseen hplain _))
  | cons d more =>
    have hd := hmore d more rfl
    have hread := operand_read_in_call hseen c hplain (clear_of_isCall hd (by decide) more)
    obtain ⟨front, back, rfl, hleft, hnext⟩ :=
      calls_extend hseen hsites hd more (d.apply (plain.foldl Suffix.apply c.tree))
    have hcalls (n : Nat) : Finds n (read · .call
        (.token c.token :: suffixItems (plain ++ d :: (front ++ back)))
        ((.expression, 9) :: seen))
        ((plain ++ d :: front).foldl Suffix.apply c.tree, suffixItems back) := by
      rw [suffixItems_append, foldl_append]
      rw [suffixItems_cons d] at hread ⊢
      exact read_finds (extend_again (call_pick hd hsites' hread) (hnext n))
    have hsplit : plain ++ d :: (front ++ back) = (plain ++ d :: front) ++ back := by simp
    have hpick (n : Nat) := call_wins c hseen hcall hsplit (by simp) (hcalls n)
    rw [callsMeet_append_of_plain hplain]
    rw [LeftAfter] at hleft
    split at hleft
    · next hmeet =>
      -- The tree of a call with a parenthesis after it stays on the stack.
      obtain ⟨d', more', rfl, hd'⟩ := hleft
      exact ⟨plain ++ d :: front, d' :: more', by simp, by simpa [hmeet] using hd', fun n =>
        read_finds_of_pick (clear_of_isCall hd' (by decide) more') (hpick n)⟩
    · next hmeet =>
      refine ⟨plain ++ d :: (front ++ back), [], by simp, by simp [hmeet], fun n => ?_⟩
      have hfold : (plain ++ d :: (front ++ back)).foldl Suffix.apply c.tree =
          back.foldl Suffix.apply ((plain ++ d :: front).foldl Suffix.apply c.tree) := by
        simp
      rw [hfold]
      exact read_finds (extend_again (hpick n) (plain_extends_end hseen hleft _))

/-! ### Statements -/

/-- On the left side of an assignment, properties in a row are taken at once. -/
theorem lvalue_pick_row
    (hmember : ∀ x ∈ s :: row, x.place = (.dot, .objectRef, 13) ∧ x.isCall = false)
    (hrest : Clear Production.objectRef.after rest) (e : Expr) :
    Finds n (pick · .lvalue (.tree e :: (suffixItems (s :: row) ++ rest))
      [(.assignment, 0), (.statement, 3)]) ((s :: row).foldl Suffix.apply e, rest) := by
  obtain ⟨⟨hplace, hs⟩, hrow⟩ := forall_mem_cons.mp hmember
  have hread : Finds n (read · s.place.2.1 (.tree e :: (suffixItems (s :: row) ++ rest))
      [(.lvalue, 1), (.assignment, 0), (.statement, 3)]) ((s :: row).foldl Suffix.apply e, rest) :=
    row_read (by simp [hplace]) hs (fun x hx => (hrow x hx).2)
      (fun x hx => (hrow x hx).1.trans hplace.symm) (by rwa [hplace]) e
  rw [hplace] at hread
  have hrule : (Rule.via .objectRef, 1) ∈ Production.lvalue.rules.zipIdx := by decide
  have honly : ∀ x ∈ Production.lvalue.rules.zipIdx, x ≠ (.via .objectRef, 1) →
      ∃ q ∈ [Production.define, .variableName], x.1 = .via q ∧ q.after = [] := by decide
  refine pick_finds_of_rule hrule (by decide) hread fun x hx hne _ => .inl (Refuses.declines ?_)
  obtain ⟨q, -, hq, hafter⟩ := honly x hx hne
  obtain ⟨t, stack, hstack, -⟩ := exists_suffixItems s row
  rw [hstack, hq]
  exact read_refuses_of_after (.inr ⟨t, stack ++ rest, rfl, by simp [hafter]⟩) _ _

/-- What is assigned to takes the properties in front of all other suffixes. -/
theorem lvalue_read (name : String) (ss : List Suffix) : ∃ e back, Clear [.eq] (suffixItems back) ∧
      ∀ n, Finds n (read · .lvalue (.token ⟨.name, name⟩ :: suffixItems ss)
        [(.assignment, 0), (.statement, 3)]) (e, suffixItems back) := by
  obtain ⟨row, back, rfl, -, hrow, hback⟩ := exists_span (fun s => s.place.1 == .dot) ss
  have hmember : ∀ s ∈ row, s.place = (.dot, .objectRef, 13) ∧ s.isCall = false := by
    intro s hs
    exact Suffix.place_of_dot (beq_iff_eq.mp (hrow s hs))
  have hclear : Clear Production.lvalue.after (suffixItems back) := by
    refine suffixItems_clear fun s more h => ?_
    simpa [Production.after] using hback s more h
  refine ⟨row.foldl Suffix.apply (.lookup name), back, suffixItems_clear fun s _ _ => ?_,
    fun n => ?_⟩
  · cases s <;> simp [Suffix.place]
  · refine read_finds (extend_again (lvalue_pick_name rfl
      (suffixItems_clear fun _ _ _ => not_mem_nil)) ?_)
    cases row with
    | nil => exact extend_stops (pick_refuses_of_after hclear _ _)
    | cons s row =>
      rw [suffixItems_append]
      exact extend_again (lvalue_pick_row hmember hclear _)
        (extend_stops (pick_refuses_of_after hclear _ _))

theorem suffixes_assignment_refuses (c : Operand) (ss : List Suffix) :
    Refuses n (read · .assignment (.token c.token :: suffixItems ss) [(.statement, 3)]) := by
  cases c with
  | name s =>
    obtain ⟨e, back, hback, hread⟩ := lvalue_read s ss
    exact assignment_refuses hback (hread n)
  | text s => exact read_refuses_of_first (t := ⟨.text, s⟩) (by simp [Production.first]) _ _
  | integer digits short =>
    exact read_refuses_of_first (t := ⟨.integer, digits⟩) (by simp [Production.first]) _ _

/-- **Suffixes are applied from left to right**, each to all that stands before it, if no two calls
are neighbours; and if two calls are, the tokens are refused. -/
theorem parse_suffixes (c : Operand) (ss : List Suffix) :
    (parse (c.token :: ss.flatMap Suffix.tokens)).result =
      if callsMeet ss then .error (.rejected none [] false)
      else .ok (ss.foldl Suffix.apply c.tree) := by
  have hseen : Admits [(.statement, 5)] := by simp [Admits, outside]
  obtain ⟨front, back, rfl, hback, hread⟩ := suffixes_read c ss hseen (by simp) (by simp)
  have hrest : Clear Production.statement.after (suffixItems back) := by
    split at hback
    · obtain ⟨d, more, rfl, hd⟩ := hback
      exact clear_of_isCall hd (by decide) more
    · exact .inl (by rw [hback]; rfl)
  have hstatement (n : Nat) : Finds n (read · .statement
      ((c.token :: (front ++ back).flatMap Suffix.tokens).map .token) [])
      (front.foldl Suffix.apply c.tree, suffixItems back) :=
    statement_finds c.kind_mem hrest (hread n) (suffixes_assignment_refuses c _)
  rw [parse_of_finds hstatement]
  split at hback
  · next hmeet =>
    obtain ⟨d, more, rfl, -⟩ := hback
    obtain ⟨t, stack, hstack, -⟩ := exists_suffixItems d more
    rw [if_pos hmeet, hstack]
    rfl
  · next hmeet =>
    rw [if_neg hmeet, hback, append_nil]
    rfl

/-- The tree of `v.a()[i]`. -/
example : [Suffix.member "a", .call, .subscript (.name "i")].foldl Suffix.apply (.lookup "v") =
    .subscript (.call (.member (.lookup "v") "a") []) (.lookup "i") := rfl

end Parley.Grammar
