import Mathlib.Data.List.Basic
import Parley.Proofs.Token.Literals

/-!
# The patterns of tokens

Every kind of token has a pattern: the texts of that kind, some of them only before certain
characters (`Fits`). Several patterns can fit at one place, and one pattern can fit several texts
there. The token is then one of the **first** kind, in a fixed order, whose pattern fits at all, and
it is the **longest** text that this pattern fits (`First`). So there is at most one.

Reading a token follows other lines: it looks at the first character, and at what follows it, in
order to know the kind and the number of characters. This module shows that it comes to the same.
-/

namespace Parley.Token

open List
open Parley.Text

variable {kind kind' : Kind} {text after after' cs body rest sign digits more run word : List Char}
  {c : Char} {p : Char → Bool}

/-! ### The patterns -/

/-- What can stand between the quotes of a text: characters other than quotes, and quotes that
follow a backslash. -/
inductive Quotable : List Char → Prop
  | nil : Quotable []
  | escaped {cs : List Char} : Quotable cs → Quotable ('\\' :: '"' :: cs)
  | plain {c : Char} {cs : List Char} (hc : c ≠ '"') : Quotable cs → Quotable (c :: cs)

/-- A sign, or none. -/
def IsSign (cs : List Char) : Prop :=
  cs = [] ∨ cs = ['+'] ∨ cs = ['-']

/-- One or more digits. -/
def IsDigits (cs : List Char) : Prop :=
  cs ≠ [] ∧ ∀ c ∈ cs, c.isDigit = true

/-- The pattern of the kind fits the text, if `after` follows it. -/
inductive Fits : Kind → List Char → List Char → Prop
  | eq {after : List Char}
      (h : ∀ c more, after = c :: more → isWord c = true ∨ isBlank c = true) :
      Fits .eq ['='] after
  | mark {c : Char} {kind : Kind} {after : List Char} (h : mark? c = some kind) :
      Fits kind [c] after
  | keyword {word : List Char} {kind : Kind} {after : List Char} (h : (word, kind) ∈ keywords)
      (hend : ∀ c more, after = c :: more → isWord c = false) : Fits kind word after
  | name {c : Char} {cs after : List Char} (hc : isNameStart c = true)
      (hcs : ∀ d ∈ cs, isNamePart d = true) : Fits .name (c :: cs) after
  | operator {c : Char} {cs after : List Char} (h : ∀ d ∈ c :: cs, isOperatorChar d = true) :
      Fits .operator (c :: cs) after
  | text {cs after : List Char} (h : Quotable cs) : Fits .text ('"' :: cs ++ ['"']) after
  | decimal {sign whole fraction after : List Char} (hsign : IsSign sign) (hwhole : IsDigits whole)
      (hfraction : IsDigits fraction) : Fits .decimal (sign ++ whole ++ '.' :: fraction) after
  | integer {sign digits after : List Char} (hsign : IsSign sign) (hdigits : IsDigits digits) :
      Fits .integer (sign ++ digits) after

/-- The pattern of the kind fits at the beginning of the text. -/
def FitsAt (kind : Kind) (cs : List Char) : Prop :=
  ∃ text after, cs = text ++ after ∧ Fits kind text after

/-- The order in which the patterns are tried. -/
def order : List Kind :=
  [ .eq, .dot, .leftParen, .rightParen, .leftBrace, .rightBrace, .leftBracket, .rightBracket, .comma,
    .colon, .semicolon, .bang, .backslash, .letWord, .importWord, .helpWord, .exitWord, .tryWord,
    .ifWord, .thenWord, .elseWord, .name, .operator, .text, .decimal, .integer ]

/-- The place of a kind in the order. -/
def Kind.rank (kind : Kind) : Nat :=
  order.idxOf kind

/-- The text is the token of this kind that `text ++ after` begins with: no pattern before that of
the kind fits there, and this pattern fits no longer text. -/
structure First (kind : Kind) (text after : List Char) : Prop where
  fits : Fits kind text after
  longest : ∀ text' after', text ++ after = text' ++ after' → Fits kind text' after' →
    text'.length ≤ text.length
  first : ∀ other, FitsAt other (text ++ after) → kind.rank ≤ other.rank

theorem eq_of_rank_eq {a b : Kind} (h : a.rank = b.rank) : a = b := by
  have hmem : a ∈ order := by cases a <;> decide
  exact (idxOf_inj hmem).mp h

/-- A text begins with one token at most. -/
theorem First.unique {text' : List Char} (h : First kind text after) (h' : First kind' text' after')
    (hsame : text ++ after = text' ++ after') : kind = kind' ∧ text = text' ∧ after = after' := by
  have hle := h.first kind' ⟨text', after', hsame, h'.fits⟩
  have hge := h'.first kind ⟨text, after, hsame.symm, h.fits⟩
  obtain rfl := eq_of_rank_eq (Nat.le_antisymm hle hge)
  have hlength : text.length = text'.length :=
    Nat.le_antisymm (h'.longest text after hsame.symm h.fits) (h.longest text' after' hsame h'.fits)
  obtain ⟨htext, hafter⟩ := append_inj hsame hlength
  exact ⟨rfl, htext, hafter⟩

/-! ### Texts in quotes -/

theorem Quotable.head_ne (h : Quotable (c :: cs)) : c ≠ '"' := by
  cases h with
  | escaped h => decide
  | plain hc h => exact hc

theorem not_mem_of_closingQuote? (h : closingQuote? cs = none) : '"' ∉ cs := by
  fun_induction closingQuote? cs with
  | case1 => exact not_mem_nil
  | case2 rest | case3 rest n hn ih | case4 rest hn ih => cases h
  | case5 c rest hquote hback ih =>
    rintro (_ | ⟨_, hmem⟩)
    · exact hquote rfl
    · exact ih (Option.map_eq_none_iff.mp h) hmem

/-- A text that begins with a backslash before a quote: either the quote belongs to it, or it is the
closing one. -/
theorem Quotable.of_backslash (h : Quotable body)
    (hsplit : '\\' :: '"' :: rest = body ++ '"' :: after) :
    body.length = 1 ∨ ∃ more, Quotable more ∧ body.length = more.length + 2 ∧
      rest = more ++ '"' :: after := by
  cases h with
  | nil => exact absurd (List.cons.inj hsplit).1 (by decide)
  | @escaped more hmore =>
    have hrest := (List.cons.inj (List.cons.inj hsplit).2).2
    exact .inr ⟨more, hmore, rfl, hrest⟩
  | @plain c more hc hmore =>
    have hrest := (List.cons.inj hsplit).2
    cases more with
    | nil => exact .inl rfl
    | cons d more => exact absurd (List.cons.inj hrest).1.symm hmore.head_ne

/-- The quote that ends a text is the last one that the pattern allows. -/
theorem closingQuote?_spec {n : Nat} (h : closingQuote? cs = some n) :
    (∃ body after, cs = body ++ '"' :: after ∧ body.length = n ∧ Quotable body) ∧
      ∀ body after, cs = body ++ '"' :: after → Quotable body → body.length ≤ n := by
  fun_induction closingQuote? cs generalizing n with
  | case1 => cases h
  | case2 rest =>
    cases h
    refine ⟨⟨[], rest, rfl, rfl, .nil⟩, ?_⟩
    intro body after hcs hbody
    cases body with
    | nil => exact Nat.le_refl 0
    | cons c body => exact absurd (List.cons.inj hcs).1.symm hbody.head_ne
  | case3 rest m hm ih =>
    cases h
    obtain ⟨⟨body, after, hrest, hlength, hbody⟩, hlongest⟩ := ih hm
    refine ⟨⟨'\\' :: '"' :: body, after, ?_, ?_, hbody.escaped⟩, ?_⟩
    · rw [hrest]
      rfl
    · rw [← hlength]
      rfl
    · intro body after hcs hbody
      rcases hbody.of_backslash hcs with hone | ⟨more, hmore, hlen, hrest⟩
      · omega
      · have hle := hlongest more after hrest hmore
        omega
  | case4 rest hm ih =>
    cases h
    refine ⟨⟨['\\'], rest, rfl, rfl, .plain (by decide) .nil⟩, ?_⟩
    intro body after hcs hbody
    rcases hbody.of_backslash hcs with hone | ⟨more, hmore, hlen, hrest⟩
    · exact Nat.le_of_eq hone
    · exact absurd (by simp [hrest]) (not_mem_of_closingQuote? hm)
  | case5 c rest hquote hback ih =>
    obtain ⟨m, hm, rfl⟩ := Option.map_eq_some_iff.mp h
    obtain ⟨⟨body, after, hrest, hlength, hbody⟩, hlongest⟩ := ih hm
    refine ⟨⟨c :: body, after, ?_, ?_, hbody.plain hquote⟩, ?_⟩
    · rw [hrest]
      rfl
    · rw [← hlength]
      rfl
    · intro body after hcs hbody
      cases hbody with
      | nil => exact absurd (cons.inj hcs).1 hquote
      | escaped hmore =>
        obtain ⟨hc, hrest⟩ := cons.inj hcs
        exact absurd hrest (hback _ hc)
      | plain hc hmore =>
        exact Nat.succ_le_succ (hlongest _ after (cons.inj hcs).2 hmore)

/-! ### Which patterns fit at a character -/

theorem assigns_iff :
    assigns cs = true ↔ ∀ c more, cs = c :: more → isWord c = true ∨ isBlank c = true := by
  cases cs with
  | nil | cons c cs => simp [assigns]

theorem endsWord_iff : endsWord cs = true ↔ ∀ c more, cs = c :: more → isWord c = false := by
  cases cs with
  | nil | cons c cs => simp [endsWord]

/-- A number begins with its first digit or with a sign, and signs are operators. -/
theorem head_of_isSign (hsign : IsSign sign) (hdigits : IsDigits digits)
    (hsplit : c :: rest = sign ++ digits ++ more) :
    (c.isDigit = true ∧ sign = [] ∧ ∃ ds, digits = c :: ds ∧ rest = ds ++ more ∧
      ∀ d ∈ ds, d.isDigit = true) ∨ (c.isDigit = false ∧ isOperatorChar c = true) := by
  obtain ⟨hne, hall⟩ := hdigits
  rcases hsign with rfl | rfl | rfl
  · cases digits with
    | nil => exact absurd rfl hne
    | cons d digits =>
      obtain ⟨rfl, hrest⟩ := cons.inj hsplit
      obtain ⟨hd, hall⟩ := forall_mem_cons.mp hall
      exact .inl ⟨hd, rfl, digits, rfl, hrest, hall⟩
  · cases hsplit
    exact .inr (by decide)
  · cases hsplit
    exact .inr (by decide)

theorem IsSign.head (hsign : IsSign sign) (hdigits : IsDigits digits) (more : List Char) :
    ∃ c cs, sign ++ digits ++ more = c :: cs ∧ isBlank c = false ∧ c ≠ '#' := by
  cases hcs : sign ++ digits ++ more with
  | nil => exact absurd hcs (by simp [hdigits.1])
  | cons c cs =>
    rcases head_of_isSign hsign hdigits hcs.symm with ⟨hc, -⟩ | ⟨-, hc⟩
    · obtain ⟨hblank, hhash, -⟩ := special_of_isNamePart (isNamePart_of_isDigit hc)
      exact ⟨c, cs, rfl, hblank, hhash⟩
    · obtain ⟨hblank, hhash, -⟩ := special_of_isOperatorChar hc
      exact ⟨c, cs, rfl, hblank, hhash⟩

/-- What a pattern that fits says about the first character, and about those after it. -/
theorem FitsAt.cases (h : FitsAt kind (c :: rest)) :
    (kind = .eq ∧ (c == '=' && assigns rest) = true) ∨ mark? c = some kind ∨
    (∃ word, (word, kind) ∈ keywords ∧ word <+: c :: rest ∧
      endsWord ((c :: rest).drop word.length) = true) ∨
    (kind = .name ∧ isNameStart c = true) ∨ (kind = .operator ∧ isOperatorChar c = true) ∨
    (kind = .text ∧ c = '"' ∧ '"' ∈ rest) ∨
    (kind ∈ [.decimal, .integer] ∧ (c.isDigit = true ∨ isOperatorChar c = true)) := by
  obtain ⟨text, after, hsplit, hfits⟩ := h
  cases hfits with
  | eq hafter =>
    cases hsplit
    exact .inl ⟨rfl, by simpa using assigns_iff.mpr hafter⟩
  | mark hmark =>
    cases hsplit
    exact .inr (.inl hmark)
  | keyword hword hend =>
    refine .inr (.inr (.inl ⟨text, hword, ⟨after, hsplit.symm⟩, ?_⟩))
    rw [hsplit, drop_left]
    exact endsWord_iff.mpr hend
  | name hc hcs =>
    cases hsplit
    exact .inr (.inr (.inr (.inl ⟨rfl, hc⟩)))
  | operator hop =>
    cases hsplit
    exact .inr (.inr (.inr (.inr (.inl ⟨rfl, hop _ mem_cons_self⟩))))
  | text hbody =>
    cases hsplit
    exact .inr (.inr (.inr (.inr (.inr (.inl ⟨rfl, rfl, by simp⟩)))))
  | decimal hsign hwhole hfraction =>
    rw [append_assoc] at hsplit
    have hhead := (head_of_isSign hsign hwhole hsplit).imp And.left And.right
    exact .inr (.inr (.inr (.inr (.inr (.inr ⟨by decide, hhead⟩)))))
  | integer hsign hdigits =>
    have hhead := (head_of_isSign hsign hdigits hsplit).imp And.left And.right
    exact .inr (.inr (.inr (.inr (.inr (.inr ⟨by decide, hhead⟩)))))

/-- No token begins with a blank or with a hash. -/
theorem Fits.head (h : Fits kind text after) :
    ∃ c cs, text = c :: cs ∧ isBlank c = false ∧ c ≠ '#' := by
  cases h with
  | eq _ => exact ⟨'=', [], rfl, by decide, by decide⟩
  | @mark c _ _ hmark =>
    have hmarks : ∀ c ∈ marks, isBlank c = false ∧ c ≠ '#' := by decide
    exact ⟨c, [], rfl, hmarks c (mem_marks hmark)⟩
  | keyword hword _ =>
    cases text with
    | nil => simp [keywords] at hword
    | cons c cs =>
      obtain ⟨hblank, hhash, -⟩ :=
        special_of_isNamePart (isNamePart_of_mem_keywords hword c mem_cons_self)
      exact ⟨c, cs, rfl, hblank, hhash⟩
  | @name c cs _ hc _ =>
    obtain ⟨hblank, hhash, -⟩ := special_of_isNamePart (isNamePart_of_isNameStart hc)
    exact ⟨c, cs, rfl, hblank, hhash⟩
  | @operator c cs _ hop =>
    obtain ⟨hblank, hhash, -⟩ := special_of_isOperatorChar (hop c mem_cons_self)
    exact ⟨c, cs, rfl, hblank, hhash⟩
  | @text cs _ _ => exact ⟨'"', cs ++ ['"'], rfl, by decide, by decide⟩
  | @decimal sign whole fraction _ hsign hwhole _ => exact hsign.head hwhole _
  | @integer sign digits _ hsign hdigits =>
    obtain ⟨c, cs, hcs, hhead⟩ := hsign.head hdigits []
    exact ⟨c, cs, by rw [← hcs, append_nil], hhead⟩

/-! ### Runs of characters -/

/-- A run of characters of some class is part of the longest one. -/
theorem length_le_takeWhile (hrun : ∀ c ∈ run, p c = true) (after : List Char) :
    run.length ≤ ((run ++ after).takeWhile p).length := by
  rw [takeWhile_append_of_pos hrun, length_append]
  exact Nat.le_add_right _ _

/-- A character and the longest run after it. -/
theorem run_of_cons (hc : p c = true) (rest : List Char) :
    c :: rest.takeWhile p ++ rest.dropWhile p = c :: rest ∧
      ∀ d ∈ c :: rest.takeWhile p, p d = true := by
  refine ⟨?_, forall_mem_cons.mpr ⟨hc, all_eq_true.mp all_takeWhile⟩⟩
  rw [cons_append, takeWhile_append_dropWhile]

theorem split_of_eq_append (h : cs = run ++ after) :
    cs.take run.length = run ∧ cs.drop run.length = after := by
  rw [h]
  exact ⟨take_left, drop_left⟩

theorem split_takeWhile (p : Char → Bool) (cs : List Char) :
    cs.take (cs.takeWhile p).length = cs.takeWhile p ∧
      cs.drop (cs.takeWhile p).length = cs.dropWhile p :=
  split_of_eq_append takeWhile_append_dropWhile.symm

/-! ### Numbers -/

/-- The pattern of decimals fits at a digit exactly if a point and a digit follow the digits. -/
theorem fits_decimal (hc : c.isDigit = true) (h : Fits .decimal text after)
    (hsplit : c :: rest = text ++ after) :
    ∃ fraction, fraction ≠ [] ∧ (∀ d ∈ fraction, d.isDigit = true) ∧
      rest.dropWhile Char.isDigit = '.' :: (fraction ++ after) ∧
      text.length = (rest.takeWhile Char.isDigit).length + 2 + fraction.length := by
  cases h with
  | mark h => exact absurd (by simp) (mark?_ne h).1
  | keyword h _ => exact absurd (by simp) (keyword_ne h)
  | @decimal sign whole fraction _ hsign hwhole hfraction =>
    rw [append_assoc] at hsplit
    obtain ⟨-, rfl, ds, rfl, rfl, hds⟩ :=
      (head_of_isSign hsign hwhole hsplit).resolve_right (by simp [hc])
    have hpoint (d : Char) (more : List Char) (heq : '.' :: fraction ++ after = d :: more) :
        d.isDigit = false := by
      cases heq
      rfl
    obtain ⟨htake, hdrop⟩ := takeWhile_eq_of_ends hds hpoint
    refine ⟨fraction, hfraction.1, hfraction.2, hdrop, ?_⟩
    rw [htake]
    simp
    omega

theorem fits_integer (hc : c.isDigit = true) (h : Fits .integer text after)
    (hsplit : c :: rest = text ++ after) :
    text.length ≤ (rest.takeWhile Char.isDigit).length + 1 := by
  cases h with
  | mark h => exact absurd (by simp) (mark?_ne h).1
  | keyword h _ => exact absurd (by simp) (keyword_ne h)
  | @integer sign digits _ hsign hdigits =>
    obtain ⟨-, rfl, ds, rfl, rfl, hds⟩ :=
      (head_of_isSign hsign hdigits hsplit).resolve_right (by simp [hc])
    exact Nat.succ_le_succ (length_le_takeWhile hds after)

/-! ### The order of the patterns -/

theorem rank_mark (h : mark? c = some kind) : 1 ≤ kind.rank ∧ kind.rank ≤ 12 := by
  have hall : ∀ c ∈ marks, ∀ kind ∈ mark? c, 1 ≤ kind.rank ∧ kind.rank ≤ 12 := by decide
  exact hall c (mem_marks h) kind h

theorem rank_keyword (h : (word, kind) ∈ keywords) : 13 ≤ kind.rank ∧ kind.rank ≤ 20 := by
  have hall : ∀ word ∈ keywords, 13 ≤ word.2.rank ∧ word.2.rank ≤ 20 := by decide
  exact hall _ h

theorem rank_number (h : kind ∈ [.decimal, .integer]) : 24 ≤ kind.rank := by
  have hall : ∀ kind ∈ [Kind.decimal, .integer], 24 ≤ kind.rank := by decide
  exact hall kind h

/-- A pattern that fits at a character which is no mark and begins no name is that of an equals sign
that assigns, of an operator, a text or a number. -/
theorem FitsAt.of_other (h : FitsAt kind (c :: rest)) (hmark : mark? c = none)
    (hstart : isNameStart c = false) :
    (kind = .eq ∧ (c == '=' && assigns rest) = true) ∨
      (kind = .operator ∧ isOperatorChar c = true) ∨ (kind = .text ∧ c = '"' ∧ '"' ∈ rest) ∨
      (kind ∈ [.decimal, .integer] ∧ (c.isDigit = true ∨ isOperatorChar c = true)) := by
  rcases h.cases with heq | h | ⟨word, hword, hfront, -⟩ | ⟨-, h⟩ | hop | htext | hnumber
  · exact .inl heq
  · rw [hmark] at h
    cases h
  · rw [isNameStart_of_keyword hword hfront] at hstart
    cases hstart
  · rw [hstart] at h
    cases h
  · exact .inr (.inl hop)
  · exact .inr (.inr (.inl htext))
  · exact .inr (.inr (.inr hnumber))

/-- Where a digit stands, only the patterns of numbers fit. -/
theorem FitsAt.of_isDigit (h : FitsAt kind (c :: rest)) (hc : c.isDigit = true) :
    kind ∈ [.decimal, .integer] := by
  obtain ⟨-, -, heq, hmark, hop, hquote⟩ := special_of_isNamePart (isNamePart_of_isDigit hc)
  rcases h.of_other hmark (isNameStart_of_isDigit hc) with ⟨-, h⟩ | ⟨-, h⟩ | ⟨-, h, -⟩ | ⟨h, -⟩
  · rw [heq] at h
    cases h
  · rw [hop] at h
    cases h
  · rw [h] at hquote
    cases hquote
  · exact h

/-! ### Reading a token -/

theorem first_eq (h : assigns rest = true) : First .eq ['='] rest := by
  refine ⟨.eq (assigns_iff.mp h), ?_, fun _ _ => Nat.zero_le _⟩
  intro text' after' hsplit hfits
  cases hfits with
  | eq _ | mark _ => exact Nat.le_refl _
  | keyword h _ => exact absurd (by simp) (keyword_ne h)

theorem first_mark (h : mark? c = some kind) (rest : List Char) : First kind [c] rest := by
  obtain ⟨hkinds, hwords⟩ := mark?_ne h
  have hrank := rank_mark h
  refine ⟨.mark h, ?_, ?_⟩
  · intro text' after' hsplit hfits
    cases hfits with
    | mark _ => exact Nat.le_refl _
    | keyword hword _ => exact absurd hword (hwords _)
    | _ => exact absurd (by simp) hkinds
  · intro other hother
    rcases hother.cases with ⟨-, heq⟩ | hmark | ⟨word, hword, -⟩ | ⟨rfl, -⟩ | ⟨rfl, -⟩ | ⟨rfl, -⟩ |
      ⟨hnumber, -⟩
    · rw [Bool.and_eq_true, beq_iff_eq] at heq
      rw [heq.1] at h
      cases h
    · rw [h] at hmark
      exact Nat.le_of_eq (by rw [Option.some.inj hmark])
    · have := rank_keyword hword
      omega
    · exact Nat.le_trans hrank.2 (by decide)
    · exact Nat.le_trans hrank.2 (by decide)
    · exact Nat.le_trans hrank.2 (by decide)
    · have := rank_number hnumber
      omega

/-- Two keywords that a text begins with are the same. -/
theorem keyword_unique {word' : List Char} (h : (word, kind) ∈ keywords)
    (h' : (word', kind') ∈ keywords) (hend : endsWord after = true) (hend' : endsWord after' = true)
    (hsame : word ++ after = word' ++ after') :
    word = word' ∧ kind = kind' := by
  have hafter' (c : Char) (more : List Char) (hc : after' = c :: more) : isNamePart c = false := by
    have hword := endsWord_iff.mp hend' c more hc
    rw [Bool.eq_false_iff]
    intro hpart
    rw [isWord_of_isNamePart hpart] at hword
    cases hword
  have hword : word = word' := by
    refine eq_of_isPrefix_of_endsWord (isNamePart_of_mem_keywords h) (isNamePart_of_mem_keywords h')
      hafter' ⟨after, hsame⟩ ?_
    rwa [← hsame, drop_left]
  subst hword
  have hall : ∀ a ∈ keywords, ∀ b ∈ keywords, a.1 = b.1 → a.2 = b.2 := by decide
  exact ⟨rfl, hall _ h _ h' rfl⟩

theorem first_keyword (h : (word, kind) ∈ keywords) (hend : endsWord after = true) :
    First kind word after := by
  have hkinds := keyword_ne h
  have hrank := rank_keyword h
  refine ⟨.keyword h (endsWord_iff.mp hend), ?_, ?_⟩
  · intro text' after' hsplit hfits
    cases hfits with
    | mark hmark => exact absurd h ((mark?_ne hmark).2 word)
    | keyword hword hend' =>
      exact Nat.le_of_eq (by rw [(keyword_unique h hword hend (endsWord_iff.mpr hend') hsplit).1])
    | _ => exact absurd (by simp) hkinds
  · intro other hother
    cases word with
    | nil => simp [keywords] at h
    | cons c cs =>
      obtain ⟨-, -, heq, hmark, -⟩ :=
        special_of_isNamePart (isNamePart_of_mem_keywords h c mem_cons_self)
      rcases hother.cases with ⟨-, hc⟩ | hc | ⟨word', hword', hfront, hend'⟩ | ⟨rfl, -⟩ | ⟨rfl, -⟩ |
        ⟨rfl, -⟩ | ⟨hnumber, -⟩
      · rw [heq] at hc
        cases hc
      · rw [hmark] at hc
        cases hc
      · obtain ⟨after', hafter'⟩ := hfront
        rw [← hafter', drop_left] at hend'
        exact Nat.le_of_eq (by rw [(keyword_unique h hword' hend hend' hafter'.symm).2])
      · exact Nat.le_trans hrank.2 (by decide)
      · exact Nat.le_trans hrank.2 (by decide)
      · exact Nat.le_trans hrank.2 (by decide)
      · have := rank_number hnumber
        omega

theorem first_name (hc : isNameStart c = true) (hkey : keyword? (c :: rest) keywords = none) :
    First .name (c :: rest.takeWhile isNamePart) (rest.dropWhile isNamePart) := by
  have hrest : c :: rest.takeWhile isNamePart ++ rest.dropWhile isNamePart = c :: rest := by
    rw [cons_append, takeWhile_append_dropWhile]
  refine ⟨.name hc (all_eq_true.mp all_takeWhile), ?_, ?_⟩
  · intro text' after' hsplit hfits
    rw [hrest] at hsplit
    cases hfits with
    | mark h => exact absurd (by simp) (mark?_ne h).1
    | keyword h _ => exact absurd (by simp) (keyword_ne h)
    | name hstart hparts =>
      cases hsplit
      exact Nat.succ_le_succ (length_le_takeWhile hparts after')
  · intro other hother
    rw [hrest] at hother
    obtain ⟨-, -, heq, hmark, -⟩ := special_of_isNamePart (isNamePart_of_isNameStart hc)
    rcases hother.cases with ⟨-, h⟩ | h | ⟨word, hword, hfront, hend⟩ | ⟨rfl, -⟩ | ⟨rfl, -⟩ |
      ⟨rfl, -⟩ | ⟨hnumber, -⟩
    · rw [heq] at h
      cases h
    · rw [hmark] at h
      cases h
    · exact absurd ⟨hfront, hend⟩ (keyword?_eq_none_iff.mp hkey _ hword)
    · exact Nat.le_refl _
    · decide
    · decide
    · exact Nat.le_trans (by decide) (rank_number hnumber)

theorem first_operator (hc : isOperatorChar c = true) (heq : (c == '=' && assigns rest) = false) :
    First .operator (c :: rest.takeWhile isOperatorChar) (rest.dropWhile isOperatorChar) := by
  obtain ⟨hrest, hchars⟩ := run_of_cons hc rest
  refine ⟨.operator hchars, ?_, ?_⟩
  · intro text' after' hsplit hfits
    rw [hrest] at hsplit
    cases hfits with
    | mark h => exact absurd (by simp) (mark?_ne h).1
    | keyword h _ => exact absurd (by simp) (keyword_ne h)
    | operator h =>
      cases hsplit
      exact Nat.succ_le_succ (length_le_takeWhile (forall_mem_cons.mp h).2 after')
  · intro other hother
    rw [hrest] at hother
    obtain ⟨-, -, -, hmark, hstart⟩ := special_of_isOperatorChar hc
    rcases hother.of_other hmark hstart with ⟨-, h⟩ | ⟨rfl, -⟩ | ⟨rfl, -⟩ | ⟨hnumber, -⟩
    · rw [heq] at h
      cases h
    · exact Nat.le_refl _
    · decide
    · exact Nat.le_trans (by decide) (rank_number hnumber)

theorem first_text (hbody : Quotable body)
    (hlongest : ∀ body' after', body ++ '"' :: after = body' ++ '"' :: after' → Quotable body' →
      body'.length ≤ body.length) : First .text ('"' :: body ++ ['"']) after := by
  refine ⟨.text hbody, ?_, ?_⟩
  · intro text' after' hsplit hfits
    cases hfits with
    | mark h => exact absurd (by simp) (mark?_ne h).1
    | keyword h _ => exact absurd (by simp) (keyword_ne h)
    | @text body' _ hbody' =>
      have hle := hlongest body' after' (by simpa using hsplit) hbody'
      simpa using hle
  · intro other hother
    rcases FitsAt.of_other hother (by decide) (by decide) with ⟨-, h⟩ | ⟨-, h⟩ | ⟨rfl, -⟩ | ⟨hnumber, -⟩
    · cases h
    · cases h
    · exact Nat.le_refl _
    · exact Nat.le_trans (by decide) (rank_number hnumber)

theorem first_integer (hc : c.isDigit = true)
    (hpoint : ∀ fraction after, fraction ≠ [] → (∀ d ∈ fraction, d.isDigit = true) →
      rest.dropWhile Char.isDigit ≠ '.' :: (fraction ++ after)) :
    First .integer (c :: rest.takeWhile Char.isDigit) (rest.dropWhile Char.isDigit) := by
  obtain ⟨hrest, hdigits⟩ := run_of_cons hc rest
  refine ⟨@Fits.integer [] _ _ (.inl rfl) ⟨by simp, hdigits⟩, ?_, ?_⟩
  · intro text' after' hsplit hfits
    exact fits_integer hc hfits (hrest.symm.trans hsplit)
  · intro other hother
    rw [hrest] at hother
    rcases mem_cons.mp (hother.of_isDigit hc) with rfl | hmem
    · obtain ⟨text, after, hsplit, hfits⟩ := hother
      obtain ⟨fraction, hne, hall, hdrop, -⟩ := fits_decimal hc hfits hsplit
      exact absurd hdrop (hpoint fraction after hne hall)
    · exact Nat.le_of_eq (by rw [mem_singleton.mp hmem])

theorem first_decimal (hc : c.isDigit = true) (hdrop : rest.dropWhile Char.isDigit = '.' :: after)
    (hfraction : after.takeWhile Char.isDigit ≠ []) :
    First .decimal (c :: rest.takeWhile Char.isDigit ++ '.' :: after.takeWhile Char.isDigit)
      (after.dropWhile Char.isDigit) := by
  obtain ⟨hrun, hwhole⟩ := run_of_cons hc rest
  have hrest : c :: rest.takeWhile Char.isDigit ++ '.' :: after.takeWhile Char.isDigit ++
      after.dropWhile Char.isDigit = c :: rest := by
    rw [append_assoc, cons_append (a := '.'), takeWhile_append_dropWhile, ← hdrop, hrun]
  have hdigits : ∀ d ∈ after.takeWhile Char.isDigit, d.isDigit = true :=
    all_eq_true.mp all_takeWhile
  refine ⟨@Fits.decimal [] _ _ _ (.inl rfl) ⟨by simp, hwhole⟩ ⟨hfraction, hdigits⟩, ?_, ?_⟩
  · intro text' after' hsplit hfits
    obtain ⟨fraction, -, hall, hdrop', hlength⟩ := fits_decimal hc hfits (hrest.symm.trans hsplit)
    rw [hdrop] at hdrop'
    obtain rfl := (cons.inj hdrop').2
    have hle := length_le_takeWhile hall after'
    simp only [length_append, length_cons]
    omega
  · intro other hother
    rcases mem_cons.mp (hother.of_isDigit hc) with rfl | hmem
    · exact Nat.le_refl _
    · rw [mem_singleton.mp hmem]
      decide

theorem first_number {more : Nat} (hc : c.isDigit = true) (h : numberLexeme rest = (kind, more)) :
    First kind (c :: rest.take more) (rest.drop more) := by
  obtain ⟨htake, hdrop⟩ := split_takeWhile Char.isDigit rest
  unfold numberLexeme at h
  split at h
  · next after hpoint =>
    split at h
    · next hfraction =>
      cases h
      rw [htake, hdrop]
      refine first_integer hc ?_
      rintro fraction after' hne hall heq
      rw [hpoint] at heq
      obtain rfl := (cons.inj heq).2
      have hle := length_le_takeWhile hall after'
      rw [hfraction] at hle
      exact hne (length_eq_zero_iff.mp (Nat.le_zero.mp hle))
    · next hfraction =>
      cases h
      have hfirst := first_decimal hc hpoint hfraction
      have hrest : rest = (rest.takeWhile Char.isDigit ++ '.' :: after.takeWhile Char.isDigit) ++
          after.dropWhile Char.isDigit := by
        rw [append_assoc, cons_append, takeWhile_append_dropWhile, ← hpoint,
          takeWhile_append_dropWhile]
      have hlength : (rest.takeWhile Char.isDigit).length + 1 +
          (after.takeWhile Char.isDigit).length =
          (rest.takeWhile Char.isDigit ++ '.' :: after.takeWhile Char.isDigit).length := by
        rw [length_append, length_cons]
        omega
      rwa [hlength, (split_of_eq_append hrest).1, (split_of_eq_append hrest).2]
  · next hpoint =>
    cases h
    rw [htake, hdrop]
    exact first_integer hc fun fraction after _ _ => hpoint _

/-- The rule that reads a token gives the first kind whose pattern fits, and its longest text. -/
theorem Rule.first {more : Nat} (h : Rule c rest (some (kind, more))) :
    First kind (c :: rest.take more) (rest.drop more) := by
  cases h with
  | eq heq =>
    obtain ⟨hc, hassigns⟩ := Bool.and_eq_true_iff.mp heq
    rw [beq_iff_eq.mp hc]
    exact first_eq hassigns
  | mark hmark => exact first_mark hmark rest
  | @keyword word _ hword hfront hend =>
    cases word with
    | nil => simp [keywords] at hword
    | cons d cs =>
      obtain ⟨rfl, after, rfl⟩ := cons_prefix_cons.mp hfront
      rw [length_cons, Nat.add_sub_cancel, take_left]
      exact first_keyword hword (by simpa using hend)
  | name hstart hkey =>
    rw [(split_takeWhile isNamePart rest).1, (split_takeWhile isNamePart rest).2]
    exact first_name hstart hkey
  | operator hop heq =>
    rw [(split_takeWhile isOperatorChar rest).1, (split_takeWhile isOperatorChar rest).2]
    exact first_operator hop heq
  | @text n hc hclosing =>
    obtain ⟨⟨body, after, rfl, rfl, hbody⟩, hlongest⟩ := closingQuote?_spec hclosing
    have hsplit : body ++ '"' :: after = (body ++ ['"']) ++ after := by simp
    have hlength : body.length + 1 = (body ++ ['"']).length := by simp
    rw [hc, hsplit, hlength, take_left, drop_left]
    exact first_text hbody hlongest
  | number hdigit hnumber => exact first_number hdigit hnumber

/-- Where no rule applies no pattern fits. -/
theorem Rule.not_fitsAt (h : Rule c rest Option.none) (kind : Kind) :
    ¬ FitsAt kind (c :: rest) := by
  cases h with
  | none heq hmark hkey hstart hop hquote hdigit =>
    intro hfits
    rcases hfits.of_other hmark hstart with ⟨-, h⟩ | ⟨-, h⟩ | ⟨-, hc, hmem⟩ | ⟨-, h | h⟩
    · rw [heq] at h
      cases h
    · rw [hop] at h
      cases h
    · exact not_mem_of_closingQuote? (hquote hc) hmem
    · rw [hdigit] at h
      cases h
    · rw [hop] at h
      cases h

/-- **The token that is read is of the first kind whose pattern fits, and it is the longest text that
this pattern fits.** -/
theorem lexeme?_eq_some_iff :
    (∃ more, lexeme? c rest = some (kind, more) ∧ text = c :: rest.take more ∧
      after = rest.drop more) ↔ c :: rest = text ++ after ∧ First kind text after := by
  have hrule := lexeme?_rule c rest
  constructor
  · rintro ⟨more, hlex, rfl, rfl⟩
    rw [hlex] at hrule
    exact ⟨by simp, hrule.first⟩
  · rintro ⟨hsplit, hfirst⟩
    cases hlex : lexeme? c rest with
    | none =>
      rw [hlex] at hrule
      exact absurd ⟨text, after, hsplit, hfirst.fits⟩ (hrule.not_fitsAt kind)
    | some read =>
      obtain ⟨kind', more⟩ := read
      rw [hlex] at hrule
      have hsame : text ++ after = c :: rest.take more ++ rest.drop more := by simp [← hsplit]
      obtain ⟨rfl, htext, hafter⟩ := hfirst.unique hrule.first hsame
      exact ⟨more, rfl, htext, hafter⟩

theorem lexeme?_eq_none_iff : lexeme? c rest = none ↔ ∀ kind, ¬ FitsAt kind (c :: rest) := by
  have hrule := lexeme?_rule c rest
  constructor
  · intro h
    rw [h] at hrule
    exact hrule.not_fitsAt
  · intro h
    cases hlex : lexeme? c rest with
    | none => rfl
    | some read =>
      obtain ⟨kind, more⟩ := read
      rw [hlex] at hrule
      exact absurd ⟨_, _, by simp, hrule.first.fits⟩ (h kind)

end Parley.Token
