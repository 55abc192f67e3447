import Mathlib.Data.List.Forall2
import Parley.Pattern.Template
import Parley.Proofs.Text.Replacing

/-!
# Patterns that match one text only

A name between two escaped dollar signs is a regular expression without any choice: it matches that
name between dollar signs and nothing else. So the search for a match is the search for a piece of
text, and replacing all matches by a text without backslashes is replacing that piece.
-/

namespace Parley.Pattern

open List
open Parley.Text

/-! ### Reading -/

/-- A symbol that stands for a single character: a word character, or an escaped dollar sign. -/
inductive Plain : List Char → Char → Prop
  | word {c : Char} (h : isWord c = true) : Plain [c] c
  | dollar : Plain ['\\', '$'] '$'

/-- The reading after its next symbol. -/
def Reading.after (r : Reading) (s : List Char) (rest : List (List Char)) : Reading :=
  { r with rest, place := r.place + s.length }

variable {r : Reading} {s literal : List Char} {rest : List (List Char)} {budget : Nat}

theorem run_checkNext (h : r.rest ≠ [['\\']]) : checkNext.run r = pure ((), r) := by
  simp only [checkNext, StateT.run_bind, StateT.run_get, pure_bind, StateT.run_pure]

theorem run_take (h : r.rest = s :: rest)
    (hrest : rest ≠ [['\\']]) : take.run r = pure (some s, r.after s rest) := by
  have hcheck : checkNext.run (r.after s rest) = pure ((), r.after s rest) := run_checkNext hrest
  simp only [take, StateT.run_bind, StateT.run_get, pure_bind, h, StateT.run_set]
  exact congrArg (· >>= _) hcheck

theorem run_discard_take (h : r.rest = s :: rest) (hrest : rest ≠ [['\\']]) :
    (discard take).run r = pure ((), r.after s rest) := by
  show (Functor.map (Function.const _ ()) take).run r = _
  rw [StateT.run_map, run_take h hrest]
  rfl

/-- A plain symbol is read as the character that it stands for. -/
theorem readSequence_plain {c : Char} (hs : Plain s c)
    (h : r.rest = s :: rest) (hrest : rest ≠ [['\\']]) (budget : Nat)
    (top : Bool) (done : List Node) :
    (readSequence (budget + 1) {} top done).run r =
      (readSequence budget {} top (.char {} c :: done)).run (r.after s rest) := by
  rw [readSequence]
  simp only [peek, StateT.run_bind, StateT.run_get, h, pure_bind, StateT.run_pure]
  cases hs with
  | word hc =>
    have hne : ∀ d, isWord d = false → c ≠ d := by
      rintro d hd rfl
      rw [hc] at hd
      cases hd
    split
    next heq => cases heq
    next heq => cases heq; exact absurd rfl (hne '|' (by decide))
    next heq => cases heq; exact absurd rfl (hne ')' (by decide))
    next heq =>
      cases heq
      have hescaped : escaped? [c] = none := rfl
      simp only [StateT.run_bind, StateT.run_get, pure_bind, run_discard_take h hrest, hescaped]
      -- No character with a meaning of its own is a word character.
      split <;> rename_i heq
      all_goals try exact absurd (singleton_inj.mp heq) (hne _ (by decide))
      · cases heq
        rfl
      · cases heq
  | dollar =>
    show (do
      let p ← (discard take).run r
      StateT.run _ p.2) = _
    rw [run_discard_take h hrest]
    rfl

theorem readSequence_nil (h : r.rest = []) (budget : Nat) (top : Bool)
    (done : List Node) : (readSequence budget {} top done).run r = pure (.seq done.reverse, r) := by
  cases budget with
  | zero => rfl
  | succ budget =>
    rw [readSequence]
    simp only [peek, StateT.run_bind, StateT.run_get, h, pure_bind, StateT.run_pure, head?_nil]

/-- Plain symbols do not end with a lone backslash. -/
theorem symbols_ne_backslash {symbols : List (List Char)}
    (h : Forall₂ Plain symbols literal) : symbols ≠ [['\\']] := by
  rintro rfl
  cases h with
  | cons h _ =>
    cases h with
    | word h => exact absurd h (by decide)

theorem readSequence_literal {symbols : List (List Char)}
    (h : Forall₂ Plain symbols literal) (hr : r.rest = symbols)
    (hb : literal.length ≤ budget) (top : Bool) (done : List Node) :
    ∃ place, (readSequence budget {} top done).run r =
      pure (.seq (done.reverse ++ literal.map (.char {})), { r with rest := [], place }) := by
  induction h generalizing r budget done with
  | nil =>
    refine ⟨r.place, ?_⟩
    rw [readSequence_nil hr, map_nil, append_nil, ← hr]
  | @cons s c symbols literal hs h ih =>
    obtain ⟨budget, rfl⟩ : ∃ b, budget = b + 1 := ⟨budget - 1, by simp at hb; omega⟩
    obtain ⟨place, hplace⟩ :=
      ih (r := r.after s symbols) rfl (by simpa using hb) (.char {} c :: done)
    refine ⟨place, ?_⟩
    rw [readSequence_plain hs hr (symbols_ne_backslash h), hplace]
    simp [Reading.after]

theorem symbols_of_word {cs : List Char} (h : ∀ c ∈ cs, isWord c = true) (rest : List Char) :
    symbols (cs ++ rest) = cs.map ([·]) ++ symbols rest := by
  induction cs with
  | nil => rfl
  | cons c cs ih =>
    have hc : c ≠ '\\' := by
      rintro rfl
      exact absurd (h _ mem_cons_self) (by decide)
    rw [cons_append, symbols, ih fun d hd => h d (mem_cons_of_mem c hd)]
    · rfl
    · rintro d rest rfl
      exact absurd rfl hc

theorem forall₂_plain {name : List Char} (h : ∀ c ∈ name, isWord c = true) :
    Forall₂ Plain (symbols ("\\$".toList ++ name ++ "\\$".toList)) ('$' :: name ++ ['$']) := by
  have hs : symbols ("\\$".toList ++ name ++ "\\$".toList) =
      ['\\', '$'] :: (name.map ([·]) ++ [['\\', '$']]) := by
    show ['\\', '$'] :: symbols (name ++ ['\\', '$']) = _
    rw [symbols_of_word h]
    rfl
  rw [hs]
  refine .cons .dollar ?_
  clear hs
  induction name with
  | nil => exact .cons .dollar .nil
  | cons c name ih =>
    exact .cons (.word (h c mem_cons_self)) (ih fun d hd => h d (mem_cons_of_mem c hd))

/-- The regular expression that matches one text only. -/
def literalRegex (literal : List Char) : Regex :=
  ⟨.seq (literal.map (.char {})), 0, []⟩

theorem fixedBehindAll_literal (widths : Nat → Width) (literal : List Char) :
    fixedBehindAll widths (literal.map (.char {})) = true := by
  induction literal with
  | nil => rfl
  | cons c literal ih => rw [map_cons, fixedBehindAll, ih]; rfl

theorem readChoice_literal {symbols : List (List Char)}
    (h : Forall₂ Plain symbols literal) (hr : r.rest = symbols)
    (hb : literal.length ≤ budget) :
    ∃ place, (readChoice (budget + 2) {} true).run r =
      pure (.seq (literal.map (.char {})), { r with rest := [], place }) := by
  obtain ⟨place, hseq⟩ := readSequence_literal h hr (Nat.le_succ_of_le hb) true []
  refine ⟨place, ?_⟩
  rw [readChoice]
  simp only [StateT.run_bind, hseq]
  rfl

/-- **A hole matches one text only**: the pattern of a name between escaped dollar signs. -/
theorem compile_hole {name : String} (h : ∀ c ∈ name.toList, isWord c = true) :
    compile {} ("\\$" ++ name ++ "\\$") = .ok (literalRegex ('$' :: name.toList ++ ['$'])) := by
  have hplain := forall₂_plain h
  unfold compile
  simp only [String.toList_append]
  set source := "\\$".toList ++ name.toList ++ "\\$".toList with hsource
  have hlen : ('$' :: name.toList ++ ['$']).length ≤ 3 * source.length + 8 := by
    simp only [hsource, length_append, length_cons, length_nil]
    omega
  have hcheck : checkNext.run { source, rest := symbols source, place := 0 } = pure ((), _) :=
    run_checkNext (symbols_ne_backslash hplain)
  obtain ⟨place, hchoice⟩ :=
    readChoice_literal hplain (r := { source, rest := symbols source, place := 0 }) rfl hlen
  simp only [StateT.run_bind, hcheck, pure_bind, hchoice]
  show (if fixedBehindAll _ (('$' :: name.toList ++ ['$']).map (.char {})) = true then _ else _) = _
  rw [fixedBehindAll_literal]
  rfl

/-! ### Matching -/

section Matching

variable {text : Array Char}

theorem runSeq_literal (place : Nat) (marks : Marks) (rest : Rest) {budget : Nat}
    (hb : literal.length < budget) :
    runSeq text budget (literal.map (.char {})) place marks rest =
      if beginsWith literal (text.toList.drop place) then rest (place + literal.length) marks
      else none := by
  induction literal generalizing place budget with
  | nil =>
    obtain ⟨budget, rfl⟩ : ∃ b, budget = b + 1 := ⟨budget - 1, by omega⟩
    simp [runSeq, beginsWith, dropBeginning?]
  | cons c literal ih =>
    obtain ⟨budget, rfl⟩ : ∃ b, budget = b + 2 := ⟨budget - 2, by simp at hb; omega⟩
    rw [map_cons, runSeq, Node.run]
    cases hget : text[place]? with
    | none =>
      have hdrop : text.toList.drop place = [] := by
        simpa using hget
      simp [hdrop, beginsWith, dropBeginning?]
    | some d =>
      have hdrop : text.toList.drop place = d :: text.toList.drop (place + 1) := by
        obtain ⟨hlt, rfl⟩ := Array.getElem?_eq_some_iff.mp hget
        rw [drop_eq_getElem_cons (by simpa using hlt), Array.getElem_toList]
      rw [hdrop]
      by_cases hcd : c = d
      · subst hcd
        simp only [sameChar]
        rw [ih (place + 1) (by simp at hb; omega)]
        simp [beginsWith, dropBeginning?, Nat.add_assoc, Nat.add_comm 1]
      · simp [sameChar, beginsWith, dropBeginning?, hcd]

theorem length_lt_budget (literal : List Char) (text : Array Char) :
    literal.length + 1 < (literalRegex literal).budget text := by
  have hweight : literal.length ≤ weightAll (literal.map (.char {})) := by
    induction literal with
    | nil => exact Nat.zero_le _
    | cons c literal ih => rw [map_cons, weightAll, length_cons]; omega
  calc literal.length + 1 < weightAll (literal.map (.char {})) + 1 + 2 := by omega
    _ ≤ 4 * (text.size + 2) * (weightAll (literal.map (.char {})) + 1 + 2) :=
      Nat.le_mul_of_pos_left _ (by omega)

/-- The regular expression matches where the text begins with its literal. -/
theorem matchAt?_literal (place : Nat) : (literalRegex literal).matchAt? text place false =
      if beginsWith literal (text.toList.drop place) then
        some ⟨place, place + literal.length, []⟩
      else none := by
  have hlt := length_lt_budget literal text
  obtain ⟨budget, hb⟩ : ∃ b, (literalRegex literal).budget text = b + 1 :=
    ⟨_, (Nat.succ_pred (by omega)).symm⟩
  rw [Regex.matchAt?, hb, literalRegex, Node.run, runSeq_literal place [] _ (by omega)]
  split <;> rfl

/-- The piece of a text from one place to the other. -/
theorem slice_eq (text : Array Char) (start stop : Nat) :
    slice text start stop = String.ofList ((text.toList.drop start).take (stop - start)) := by
  rw [slice, Array.toList_extract]

theorem slice_size (text : Array Char) (start : Nat) :
    slice text start text.size = String.ofList (text.toList.drop start) := by
  rw [slice_eq, take_of_length_le (by simp)]

/-- What is found from a place on, and what replacing makes of the text from there: the text up to
the match stays, the match is replaced, and the rest is dealt with after it. -/
theorem searchFrom_replaced (text : Array Char) (new : List Char) (hne : literal ≠ [])
    (steps place : Nat) (hsteps : text.size < place + steps) :
    ((literalRegex literal).searchFrom text steps place false = none ∧
      replaced literal new (text.toList.drop place) = text.toList.drop place) ∨
    ∃ k, (literalRegex literal).searchFrom text steps place false =
        some ⟨place + k, place + k + literal.length, []⟩ ∧
      place + k + literal.length ≤ text.size ∧
      replaced literal new (text.toList.drop place) = (text.toList.drop place).take k ++ new ++
          replaced literal new (text.toList.drop (place + k + literal.length)) := by
  induction steps generalizing place with
  | zero =>
    have hnil : text.toList.drop place = [] := by simp; omega
    exact .inl ⟨rfl, by rw [hnil, replaced_nil]⟩
  | succ steps ih =>
    rw [Regex.searchFrom, matchAt?_literal]
    by_cases hbegins : beginsWith literal (text.toList.drop place) = true
    · obtain ⟨rest, hrest⟩ := beginsWith_iff.mp hbegins
      have hafter : text.toList.drop (place + literal.length) = rest := by
        rw [← drop_drop, hrest, drop_left]
      have hlen := congrArg length hrest
      rw [length_drop, length_append, Array.length_toList] at hlen
      have hpos := length_pos_iff.mpr hne
      refine .inr ⟨0, by simp [hbegins], by omega, ?_⟩
      rw [hrest, replaced_append hne, Nat.add_zero, hafter]
      rfl
    · rw [if_neg hbegins]
      have hfalse : beginsWith literal (text.toList.drop place) = false := by simpa using hbegins
      cases hdrop : text.toList.drop place with
      | nil =>
        -- There is nothing to be found in what lies behind the text either.
        rcases ih (place + 1) (by omega) with ⟨hnone, -⟩ | ⟨k, -, hle, -⟩
        · exact .inl ⟨hnone, replaced_nil literal new⟩
        · simp at hdrop
          omega
      | cons c cs =>
        have hnext : text.toList.drop (place + 1) = cs := by
          rw [← drop_drop, hdrop, drop_one, tail_cons]
        rw [hdrop] at hfalse
        rw [replaced_cons new hfalse]
        rcases ih (place + 1) (by omega) with ⟨hnone, hsame⟩ | ⟨k, hsome, hle, hrep⟩
        · rw [hnext] at hsame
          exact .inl ⟨hnone, by rw [hsame]⟩
        · have hplace : place + 1 + k = place + (k + 1) := by omega
          rw [hnext, hplace] at hrep
          rw [hplace] at hsome hle
          refine .inr ⟨k + 1, hsome, hle, ?_⟩
          rw [hrep, take_succ_cons, cons_append, cons_append]

theorem foldl_push (new : List Char) (acc : String) :
    new.foldl String.push acc = acc ++ String.ofList new := by
  induction new generalizing acc with
  | nil => simp
  | cons c new ih =>
    rw [foldl_cons, ih, String.push_eq_append, String.append_assoc, String.ofList_cons]

theorem fill_chars (text : Array Char) (m : Match) (new : List Char) :
    fill text m (new.map .char) = String.ofList new := by
  rw [fill, foldl_map]
  exact (foldl_push new "").trans (by simp)

/-- From a place on, putting the new text in place of the matches is replacing the literal. -/
theorem go_replaced (text : Array Char) (new : List Char) (hne : literal ≠ []) (steps place : Nat)
    (hplace : place ≤ text.size) (hsteps : text.size < place + steps) :
    Regex.replaceWith.go (new.map .char) text place
        ((literalRegex literal).matchesFrom text steps place false) =
      String.ofList (replaced literal new (text.toList.drop place)) := by
  induction steps generalizing place with
  | zero => omega
  | succ steps ih =>
    rw [Regex.matchesFrom, Regex.search?]
    rcases searchFrom_replaced text new hne (text.size + 1 - place) place (by omega) with
      ⟨hnone, hsame⟩ | ⟨k, hsome, hle, hrep⟩
    · rw [hnone, hsame]
      exact slice_size text place
    · have hpos := length_pos_iff.mpr hne
      have hadvance : (place + k + literal.length == place + k) = false := by
        simp only [beq_eq_false_iff_ne]
        omega
      rw [hsome]
      dsimp only
      rw [hadvance, Regex.replaceWith.go, ih _ hle (by omega), hrep, fill_chars, slice_eq,
        Nat.add_sub_cancel_left, String.ofList_append, String.ofList_append]

end Matching

/-- **Filling a hole** is replacing the name between dollar signs, if the text for it has no
backslash. -/
theorem replace_hole {name new : String} (hname : ∀ c ∈ name.toList, isWord c = true)
    (hnew : '\\' ∉ new.toList) (s : String) :
    replace ("\\$" ++ name ++ "\\$") new s = .ok (replaceAll ("$" ++ name ++ "$") new s) := by
  have htemplate : (literalRegex ('$' :: name.toList ++ ['$'])).template new =
      .ok (new.toList.map .char) := by
    rw [Regex.template, if_neg (by simpa using hnew)]
  have hlist : ("$" ++ name ++ "$").toList = '$' :: name.toList ++ ['$'] := by
    simp
  rw [replace, compile_hole hname]
  show (do
    let ps ← (literalRegex ('$' :: name.toList ++ ['$'])).template new
    pure ((literalRegex ('$' :: name.toList ++ ['$'])).replaceWith ps s)) = _
  rw [htemplate, replaceAll_eq, hlist]
  exact congrArg Except.ok
    (go_replaced s.toList.toArray new.toList (cons_ne_nil _ _) _ 0 (Nat.zero_le _) (by omega))

end Parley.Pattern
