import Parley.Proofs.Text.Replacing
import Parley.Token.Lexer

/-!
# Texts that are read as given tokens

A written tree is a row of tokens with blanks and marks between them. To see that it is read as
these tokens one goes through it from its end: `Scans cs ts` says that `cs` is read as `ts`, and the
lemmas of this module put one more blank, mark or token in front.

What a token is may depend on the characters after it. A token is `Legible` if it is read as it is
before anything that a written tree puts after a token (`closes`). Names are if they are no
keywords, and so are operators apart from the equals sign. Tokens that come from a text are of this
sort: a keyword cannot be read as a name, since the letter of another script that would have to
follow it is no token.
-/

namespace Parley.Token

open List
open Parley.Text

variable {ts : List Token} {c : Char} {kind : Kind} {cs rest word name : List Char} {t : Token}
  {words : List (List Char × Kind)} {more : Nat}

/-- The text is read as these tokens. -/
def Scans (cs : List Char) (ts : List Token) : Prop :=
  scanFrom (skipBlanks cs) = .ok ts

theorem scan_eq_ok_iff {s : String} : scan s = .ok ts ↔ Scans s.toList ts :=
  Iff.rfl

theorem scans_nil : Scans [] [] := by
  show scanFrom [] = _
  rw [scanFrom]

theorem Scans.blank (h : Scans cs ts) (hc : isBlank c = true) : Scans (c :: cs) ts := by
  rwa [Scans, skipBlanks, dropWhile_cons_of_pos hc]

/-- A token in front of a text, if it is the one that the whole begins with. -/
theorem Scans.lexeme {rest : List Char}
    (h : Scans rest ts) (hblank : isBlank c = false) (hhash : c ≠ '#')
    (hlex : lexeme? c (cs ++ rest) = some (kind, cs.length)) :
    Scans (c :: cs ++ rest) (⟨kind, String.ofList (c :: cs)⟩ :: ts) := by
  have hskip : skipBlanks (c :: (cs ++ rest)) = c :: (cs ++ rest) :=
    dropWhile_cons_of_neg (by simp [hblank])
  rw [Scans, cons_append, hskip, scanFrom, if_neg (by simpa using hhash), hlex]
  dsimp only
  rw [drop_left, take_left, show scanFrom (skipBlanks rest) = .ok ts from h]

/-! ### Punctuation -/

/-- The punctuation marks as characters. -/
def marks : List Char :=
  ".()\x7b\x7d[],:;!\\".toList

theorem mem_marks (h : mark? c = some kind) : c ∈ marks := by
  unfold mark? at h
  split at h <;> first | decide | cases h

/-- A punctuation mark is a token whatever follows it. -/
theorem Scans.mark (h : Scans cs ts)
    (hc : mark? c = some kind) : Scans (c :: cs) (⟨kind, String.ofList [c]⟩ :: ts) := by
  have hmarks : ∀ c ∈ marks, isBlank c = false ∧ c ≠ '#' ∧ (c == '=') = false := by decide
  obtain ⟨hblank, hhash, heq⟩ := hmarks c (mem_marks hc)
  have hlex : lexeme? c ([] ++ cs) = some (kind, 0) := by
    rw [lexeme?, heq, hc]
    rfl
  exact h.lexeme hblank hhash hlex

/-! ### What follows a token -/

/-- The characters, apart from the point, that stand after tokens in a written tree. -/
def closers : List Char :=
  " \n,:;()]\x7d".toList

/-- May the text follow a token in a written tree? A point may if it begins no fraction. -/
def closes : List Char → Bool
  | [] => true
  | c :: cs => closers.contains c || c == '.' && !cs.head?.any Char.isDigit

theorem closes_of_mem (h : c ∈ closers) (cs : List Char) : closes (c :: cs) = true := by
  rw [closes, contains_iff_mem.mpr h, Bool.true_or]

theorem closes_point (cs : List Char) : closes ('.' :: cs) = !cs.head?.any Char.isDigit := by
  rfl

theorem mem_of_closes (h : closes (c :: cs) = true) : c ∈ '.' :: closers := by
  rw [closes, Bool.or_eq_true, Bool.and_eq_true] at h
  rcases h with h | ⟨h, -⟩
  · exact mem_cons_of_mem _ (contains_iff_mem.mp h)
  · rw [beq_iff_eq.mp h]
    exact mem_cons_self

/-- A run of characters of some class that ends where another character follows is the longest
one. -/
theorem takeWhile_eq_of_ends {p : Char → Bool} (hcs : ∀ c ∈ cs, p c = true)
    (hrest : ∀ c more, rest = c :: more → p c = false) :
    (cs ++ rest).takeWhile p = cs ∧ (cs ++ rest).dropWhile p = rest := by
  rw [takeWhile_append_of_pos hcs, dropWhile_append_of_pos hcs]
  cases rest with
  | nil => exact ⟨append_nil cs, rfl⟩
  | cons c rest =>
    have hc := hrest c rest rfl
    rw [takeWhile_cons_of_neg (by simp [hc]), dropWhile_cons_of_neg (by simp [hc])]
    exact ⟨append_nil cs, rfl⟩

/-- A run of characters of some class ends where something closes a token. -/
theorem span_of_closes {p : Char → Bool} (hp : ∀ c ∈ '.' :: closers, p c = false)
    (hcs : ∀ c ∈ cs, p c = true) (hrest : closes rest = true) :
    (cs ++ rest).takeWhile p = cs ∧ (cs ++ rest).dropWhile p = rest :=
  takeWhile_eq_of_ends hcs fun c _ h => hp c (mem_of_closes (h ▸ hrest))

/-- The token is read as it is before anything that closes a token. -/
def Legible (t : Token) : Prop :=
  ∃ c cs, t.text.toList = c :: cs ∧ isBlank c = false ∧ c ≠ '#' ∧
    ∀ rest, closes rest = true → lexeme? c (cs ++ rest) = some (t.kind, cs.length)

theorem Legible.scans (ht : t.Legible) (h : Scans rest ts) (hrest : closes rest = true) :
    Scans (t.text.toList ++ rest) (t :: ts) := by
  obtain ⟨c, cs, htext, hblank, hhash, hlex⟩ := ht
  have hscans := h.lexeme hblank hhash (hlex rest hrest)
  rwa [← htext, String.ofList_toList] at hscans

/-! ### Names -/

theorem toNat_lt_of_isNamePart (h : isNamePart c = true) : c.toNat < 0x80 := by
  unfold isNamePart Char.isAlphanum Char.isAlpha Char.isUpper Char.isLower Char.isDigit at h
  simp only [Bool.or_eq_true, Bool.and_eq_true, decide_eq_true_eq, beq_iff_eq] at h
  rcases h with ((h | h) | h) | rfl
  · exact Nat.lt_of_le_of_lt (UInt32.le_iff_toNat_le.mp h.2) (by decide)
  · exact Nat.lt_of_le_of_lt (UInt32.le_iff_toNat_le.mp h.2) (by decide)
  · exact Nat.lt_of_le_of_lt (UInt32.le_iff_toNat_le.mp h.2) (by decide)
  · decide

theorem isWord_of_isNamePart (h : isNamePart c = true) : isWord c = true := by
  rwa [isWord, if_pos (toNat_lt_of_isNamePart h)]

/-- The characters of names and numbers have no other use. -/
theorem special_of_isNamePart (h : isNamePart c = true) :
    isBlank c = false ∧ c ≠ '#' ∧ (c == '=') = false ∧ mark? c = none ∧
      isOperatorChar c = false ∧ (c == '"') = false := by
  have hall : ∀ n < 0x80, isNamePart (Char.ofNat n) = true → isBlank (Char.ofNat n) = false ∧
      Char.ofNat n ≠ '#' ∧ (Char.ofNat n == '=') = false ∧ mark? (Char.ofNat n) = none ∧
      isOperatorChar (Char.ofNat n) = false ∧ (Char.ofNat n == '"') = false := by decide
  have hc := hall c.toNat (toNat_lt_of_isNamePart h)
  rw [Char.ofNat_toNat] at hc
  exact hc h

theorem keyword?_eq_none_iff : keyword? cs words = none ↔
      ∀ word ∈ words, ¬ (word.1 <+: cs ∧ endsWord (cs.drop word.1.length) = true) := by
  induction words with
  | nil => simp [keyword?]
  | cons word words ih =>
    rw [keyword?, forall_mem_cons, ← ih]
    by_cases h : word.1 <+: cs ∧ endsWord (cs.drop word.1.length) = true
    · simp [h]
    · simp [h]

/-- A keyword that a text begins with reaches exactly as far as the name there, if it ends
there. -/
theorem eq_of_isPrefix_of_endsWord (hword : ∀ c ∈ word, isNamePart c = true)
    (hname : ∀ c ∈ name, isNamePart c = true)
    (hrest : ∀ c cs, rest = c :: cs → isNamePart c = false) (h : word <+: name ++ rest)
    (hends : endsWord ((name ++ rest).drop word.length) = true) : word = name := by
  obtain ⟨after, hafter⟩ := h
  rcases append_eq_append_iff.mp hafter with ⟨more, rfl, rfl⟩ | ⟨more, rfl, rfl⟩
  · cases more with
    | nil => exact (append_nil _).symm
    | cons c more =>
      have hc := isWord_of_isNamePart (hname c (by simp))
      simp [endsWord, hc] at hends
  · cases more with
    | nil => exact append_nil _
    | cons c more =>
      have hc := hrest c _ rfl
      rw [hword c (by simp)] at hc
      cases hc

theorem isNamePart_of_mem_keywords {word : List Char × Kind} (h : word ∈ keywords) :
    ∀ c ∈ word.1, isNamePart c = true := by
  have hall : ∀ word ∈ keywords, ∀ c ∈ word.1, isNamePart c = true := by decide
  exact hall word h

/-- Where a word ends, it is looked up among the keywords. -/
theorem keyword?_append (hname : ∀ c ∈ name, isNamePart c = true) (hrest : closes rest = true)
    (hwords : ∀ word ∈ words, ∀ c ∈ word.1, isNamePart c = true) :
    keyword? (name ++ rest) words =
      (words.lookup name).map fun kind => (kind, name.length - 1) := by
  have hclosers : ∀ c ∈ '.' :: closers, isNamePart c = false ∧ isWord c = false := by decide
  have hpart (c : Char) (cs : List Char) (hcs : rest = c :: cs) : isNamePart c = false :=
    (hclosers c (mem_of_closes (hcs ▸ hrest))).1
  have hends : endsWord rest = true := by
    cases rest with
    | nil => rfl
    | cons c rest =>
      rw [endsWord, (hclosers c (mem_of_closes hrest)).2]
      rfl
  induction words with
  | nil => rfl
  | cons word words ih =>
    obtain ⟨word, kind⟩ := word
    obtain ⟨hword, hwords⟩ := forall_mem_cons.mp hwords
    rw [keyword?, lookup_cons]
    by_cases heq : name = word
    · subst heq
      simp [hends]
    · have hnot : ¬ (word <+: name ++ rest ∧
          endsWord ((name ++ rest).drop word.length) = true) := by
        rintro ⟨hfront, hend⟩
        exact heq (eq_of_isPrefix_of_endsWord hword hname hpart hfront hend).symm
      rw [if_neg (by simpa using hnot), ih hwords, beq_false_of_ne heq]

/-- A text that has the form of a name and is no keyword. -/
structure IsName (cs : List Char) : Prop where
  form : ∃ c more, cs = c :: more ∧ isNameStart c = true ∧ ∀ d ∈ more, isNamePart d = true
  free : keywords.lookup cs = none

theorem IsName.isNamePart (h : IsName cs) : ∀ c ∈ cs, isNamePart c = true := by
  obtain ⟨c, more, rfl, hc, hmore⟩ := h.form
  exact forall_mem_cons.mpr ⟨isNamePart_of_isNameStart hc, hmore⟩

/-- What begins a name begins nothing else but keywords. -/
theorem lexeme?_of_isNameStart (hc : isNameStart c = true)
    (hkey : keyword? (c :: rest) keywords = none) :
    lexeme? c rest = some (.name, (rest.takeWhile isNamePart).length) := by
  obtain ⟨-, -, heq, hmark, -⟩ := special_of_isNamePart (isNamePart_of_isNameStart hc)
  rw [lexeme?, heq, hmark, hkey, hc]
  rfl

theorem legible_name {name : String} (h : IsName name.toList) : Legible ⟨.name, name⟩ := by
  obtain ⟨c, cs, hcs, hc, hmore⟩ := h.form
  obtain ⟨hblank, hhash, -⟩ := special_of_isNamePart (isNamePart_of_isNameStart hc)
  refine ⟨c, cs, hcs, hblank, hhash, ?_⟩
  intro rest hrest
  have hkey : keyword? (c :: (cs ++ rest)) keywords = none := by
    rw [← cons_append, ← hcs,
      keyword?_append h.isNamePart hrest fun _ => isNamePart_of_mem_keywords, h.free]
    rfl
  rw [lexeme?_of_isNameStart hc hkey, (span_of_closes (by decide) hmore hrest).1]

/-- A keyword is read as one before anything that closes a token. -/
theorem legible_keyword {word : String} (hword : word.toList = c :: cs)
    (h : keywords.lookup (c :: cs) = some kind) :
    Legible ⟨kind, word⟩ := by
  have hparts : ∀ d ∈ c :: cs, isNamePart d = true := by
    obtain ⟨before, after, hsplit, -⟩ := lookup_eq_some_iff.mp h
    have hmem : (c :: cs, kind) ∈ keywords := by simp [hsplit]
    exact isNamePart_of_mem_keywords hmem
  obtain ⟨hblank, hhash, heq, hmark, -⟩ := special_of_isNamePart (hparts c mem_cons_self)
  refine ⟨c, cs, hword, hblank, hhash, ?_⟩
  intro rest hrest
  have hkey : keyword? (c :: (cs ++ rest)) keywords = some (kind, cs.length) := by
    rw [← cons_append, keyword?_append hparts hrest fun _ => isNamePart_of_mem_keywords, h]
    rfl
  rw [lexeme?, heq, hmark, hkey]
  rfl

/-! ### Operators -/

/-- The characters of operators have no other use, apart from the equals sign. -/
theorem special_of_isOperatorChar (h : isOperatorChar c = true) :
    isBlank c = false ∧ c ≠ '#' ∧ isWord c = false ∧ mark? c = none ∧ isNameStart c = false := by
  have hall : ∀ c ∈ operatorChars, isBlank c = false ∧ c ≠ '#' ∧ isWord c = false ∧
      mark? c = none ∧ isNameStart c = false := by decide
  exact hall c (contains_iff_mem.mp h)

/-- A keyword begins like a name. -/
theorem isNameStart_of_keyword (h : (word, kind) ∈ keywords) (hfront : word <+: c :: rest) :
    isNameStart c = true := by
  have hall : ∀ word ∈ keywords, word.1.head?.any isNameStart = true := by decide
  have hstart := hall _ h
  cases word with
  | nil => cases hstart
  | cons d word =>
    obtain ⟨rfl, -⟩ := cons_prefix_cons.mp hfront
    simpa using hstart

theorem keyword?_of_not_isNameStart (hc : isNameStart c = false) (rest : List Char) :
    keyword? (c :: rest) keywords = none := by
  refine keyword?_eq_none_iff.mpr fun word hmem h => ?_
  rw [isNameStart_of_keyword hmem h.1] at hc
  cases hc

theorem legible_operator {op : String} (hop : op.toList = c :: cs)
    (h : ∀ d ∈ c :: cs, isOperatorChar d = true) (heq : op ≠ "=") : Legible ⟨.operator, op⟩ := by
  obtain ⟨hc, hcs⟩ := forall_mem_cons.mp h
  obtain ⟨hblank, hhash, -, hmark, hstart⟩ := special_of_isOperatorChar hc
  refine ⟨c, cs, hop, hblank, hhash, ?_⟩
  intro rest hrest
  -- An equals sign is followed by another character of the operator.
  have hassigns : (c == '=' && assigns (cs ++ rest)) = false := by
    rw [Bool.and_eq_false_iff, beq_eq_false_iff_ne]
    cases cs with
    | nil =>
      left
      rintro rfl
      exact heq (String.toList_inj.mp hop)
    | cons d cs =>
      right
      obtain ⟨hdblank, -, hdword, -⟩ := special_of_isOperatorChar (hcs d mem_cons_self)
      rw [cons_append, assigns, hdblank, hdword]
      rfl
  rw [lexeme?, hassigns, hmark, keyword?_of_not_isNameStart hstart, hstart, hc,
    (span_of_closes (by decide) hcs hrest).1]
  rfl

/-! ### Tokens that come from a text -/

theorem exists_of_keyword? (h : keyword? cs words = some (kind, more)) :
    ∃ word, (word, kind) ∈ words ∧ word <+: cs ∧ endsWord (cs.drop word.length) = true ∧
      more = word.length - 1 := by
  induction words with
  | nil => cases h
  | cons word words ih =>
    obtain ⟨word, k⟩ := word
    rw [keyword?] at h
    split at h
    · next hword =>
      obtain ⟨rfl, rfl⟩ := Prod.mk.inj (Option.some.inj h)
      obtain ⟨hfront, hend⟩ := Bool.and_eq_true_iff.mp hword
      exact ⟨word, mem_cons_self, by simpa using hfront, hend, rfl⟩
    · obtain ⟨w, hw, hrest⟩ := ih h
      exact ⟨w, mem_cons_of_mem _ hw, hrest⟩

theorem numberLexeme_kind (h : numberLexeme rest = (kind, more)) : kind ∈ [.integer, .decimal] := by
  unfold numberLexeme at h
  split at h
  · split at h <;> cases h <;> decide
  · cases h
    decide

/-- How the token that `c :: rest` begins with is read: by one of these rules, or not at all if none
of them applies. -/
inductive Rule (c : Char) (rest : List Char) : Option (Kind × Nat) → Prop
  | eq (h : (c == '=' && assigns rest) = true) : Rule c rest (some (.eq, 0))
  | mark {kind : Kind} (h : mark? c = some kind) : Rule c rest (some (kind, 0))
  | keyword {word : List Char} {kind : Kind} (h : (word, kind) ∈ keywords)
      (hfront : word <+: c :: rest) (hend : endsWord ((c :: rest).drop word.length) = true) :
      Rule c rest (some (kind, word.length - 1))
  | name (h : isNameStart c = true) (hkey : keyword? (c :: rest) keywords = none) :
      Rule c rest (some (.name, (rest.takeWhile isNamePart).length))
  | operator (h : isOperatorChar c = true) (heq : (c == '=' && assigns rest) = false) :
      Rule c rest (some (.operator, (rest.takeWhile isOperatorChar).length))
  | text {n : Nat} (hc : c = '"') (h : closingQuote? rest = some n) :
      Rule c rest (some (.text, n + 1))
  | number {kind : Kind} {more : Nat} (hc : c.isDigit = true) (h : numberLexeme rest = (kind, more)) :
      Rule c rest (some (kind, more))
  | none (heq : (c == '=' && assigns rest) = false) (hmark : mark? c = .none)
      (hkey : keyword? (c :: rest) keywords = .none) (hstart : isNameStart c = false)
      (hop : isOperatorChar c = false) (hquote : c = '"' → closingQuote? rest = .none)
      (hdigit : c.isDigit = false) : Rule c rest .none

theorem lexeme?_rule (c : Char) (rest : List Char) : Rule c rest (lexeme? c rest) := by
  unfold lexeme?
  split
  · next heq => exact .eq heq
  next heq =>
  split
  · next hmark => exact .mark hmark
  next hmark =>
  split
  · next result hkey =>
    obtain ⟨kind, more⟩ := result
    obtain ⟨word, hword, hfront, hend, rfl⟩ := exists_of_keyword? hkey
    exact .keyword hword hfront hend
  next hkey =>
  split
  · next hstart => exact .name hstart hkey
  next hstart =>
  split
  · next hop => exact .operator hop (by simpa using heq)
  next hop =>
  split
  · next hquote =>
    have hc : c = '"' := by simpa using hquote
    cases hclosing : closingQuote? rest with
    | none =>
      refine .none (by simpa using heq) hmark hkey (by simpa using hstart) (by simpa using hop)
        (fun _ => hclosing) ?_
      rw [hc]
      decide
    | some n => exact .text hc hclosing
  next hquote =>
  split
  · next hdigit => exact .number hdigit rfl
  · next hdigit =>
    refine .none (by simpa using heq) hmark hkey (by simpa using hstart) (by simpa using hop) ?_
      (by simpa using hdigit)
    intro hc
    exact absurd (by simp [hc]) hquote

/-- Every token of a text is the one that some rest of it begins with. -/
theorem exists_rule_of_mem (h : scanFrom cs = .ok ts) (ht : t ∈ ts) :
    ∃ c rest more after, Rule c rest (some (t.kind, more)) ∧
      t.text.toList = c :: rest.take more ∧ Scans (rest.drop more) after := by
  induction cs using scanFrom.induct generalizing ts with
  | case1 =>
    rw [scanFrom] at h
    cases h
    cases ht
  | case2 c rest hhash =>
    rw [scanFrom, if_pos hhash] at h
    cases h
    cases ht
  | case3 c rest hhash hnone =>
    rw [scanFrom, if_neg hhash, hnone] at h
    cases h
  | case4 c rest hhash kind more hlex ts' hscan ih =>
    rw [scanFrom, if_neg hhash, hlex] at h
    dsimp only at h
    rw [hscan] at h
    cases h
    rcases mem_cons.mp ht with rfl | ht
    · exact ⟨c, rest, more, ts', hlex ▸ lexeme?_rule c rest, String.toList_ofList, hscan⟩
    · exact ih hscan ht
  | case5 c rest hhash kind more hlex f hscan ih =>
    rw [scanFrom, if_neg hhash, hlex] at h
    dsimp only at h
    rw [hscan] at h
    cases h

/-- The members of a set given by its boundaries. -/
def rangeCodes : List Nat → List Nat
  | lo :: hi :: rest => List.range' lo (hi - lo) ++ rangeCodes rest
  | _ => []

theorem mem_rangeCodes {bounds : List Nat} {n : Nat} (h : inRanges bounds n = true) :
    n ∈ rangeCodes bounds := by
  fun_induction inRanges bounds n with
  | case1 => cases h
  | case2 lo hi rest n hlo hhi =>
    refine mem_append_left _ (mem_range'_1.mpr ?_)
    omega
  | case3 lo hi rest n hlo hhi ih => exact mem_append_right _ (ih h)
  | case4 => cases h

/-- No blank is a letter. -/
theorem isBlank_of_isWord (h : isWord c = true) : isBlank c = false := by
  have hall : ∀ n ∈ rangeCodes blankBoundaries, n < 0x80 ∨ inRanges wordBoundaries n = false := by
    decide +kernel
  rw [isWord] at h
  split at h
  · exact (special_of_isNamePart h).1
  · next hge =>
    rw [Bool.eq_false_iff]
    intro hblank
    rcases hall _ (mem_rangeCodes hblank) with hlt | hword
    · exact hge hlt
    · rw [hword] at h
      cases h

/-- A letter of another script begins no token. -/
theorem not_scans_cons (hword : isWord c = true) (hpart : isNamePart c = false) (cs : List Char)
    (ts : List Token) : ¬ Scans (c :: cs) ts := by
  have hne {d : Char} (hd : isWord d = false) : c ≠ d := by
    rintro rfl
    rw [hd] at hword
    cases hword
  have hmark : mark? c = none := by
    cases hm : mark? c with
    | none => rfl
    | some kind =>
      have hall : ∀ d ∈ marks, isWord d = false := by decide
      exact absurd rfl (hne (hall c (mem_marks hm)))
  have hop : isOperatorChar c = false := by
    rw [Bool.eq_false_iff]
    intro hop
    exact hne (special_of_isOperatorChar hop).2.2.1 rfl
  have hstart : isNameStart c = false := by
    rw [Bool.eq_false_iff]
    intro hstart
    rw [isNamePart_of_isNameStart hstart] at hpart
    cases hpart
  have hdigit : c.isDigit = false := by
    rw [Bool.eq_false_iff]
    intro hdigit
    rw [isNamePart, Char.isAlphanum, hdigit, Bool.or_true] at hpart
    cases hpart
  have hnone : lexeme? c cs = none := by
    rw [lexeme?, beq_false_of_ne (hne (by decide)), hmark,
      keyword?_of_not_isNameStart hstart, hstart, hop,
      beq_false_of_ne (hne (by decide)), hdigit]
    rfl
  have hskip : skipBlanks (c :: cs) = c :: cs :=
    dropWhile_cons_of_neg (by simp [isBlank_of_isWord hword])
  rw [Scans, hskip, scanFrom, if_neg (by simpa using hne (by decide)), hnone]
  rintro ⟨⟩

/-- The longest run of elements of some class, and what comes after it. -/
theorem exists_span {α : Type} (p : α → Bool) (cs : List α) :
    ∃ run after, cs = run ++ after ∧ cs.takeWhile p = run ∧ (∀ c ∈ run, p c = true) ∧
      ∀ c more, after = c :: more → p c = false := by
  refine ⟨_, _, (takeWhile_append_dropWhile).symm, rfl, ?_, ?_⟩
  · exact all_eq_true.mp all_takeWhile
  · intro c more hafter
    have hhead := head?_dropWhile_not p cs
    rwa [hafter] at hhead

/-- The token comes from a text. -/
def Readable (t : Token) : Prop :=
  ∃ text ts, scan text = .ok ts ∧ t ∈ ts

theorem readable_of_lexeme (htext : t.text.toList = c :: cs) (hblank : isBlank c = false)
    (hhash : c ≠ '#') (hlex : lexeme? c cs = some (t.kind, cs.length)) : t.Readable := by
  have hlex' : lexeme? c (cs ++ []) = some (t.kind, cs.length) := by rw [append_nil, hlex]
  have hscans := scans_nil.lexeme hblank hhash hlex'
  rw [append_nil, ← htext, String.ofList_toList] at hscans
  exact ⟨t.text, [t], scan_eq_ok_iff.mpr hscans, mem_cons_self⟩

theorem mark?_ne (h : mark? c = some kind) :
    kind ∉ [.name, .operator, .eq, .text, .integer, .decimal] ∧
      ∀ word, (word, kind) ∉ keywords := by
  have hall : ∀ c ∈ marks, ∀ kind ∈ mark? c,
      kind ∉ [.name, .operator, .eq, .text, .integer, .decimal] ∧
        ∀ word ∈ keywords, word.2 ≠ kind := by decide
  obtain ⟨hkinds, hwords⟩ := hall c (mem_marks h) kind h
  exact ⟨hkinds, fun word hword => hwords _ hword rfl⟩

theorem keyword_ne (h : (word, kind) ∈ keywords) :
    kind ∉ [.name, .operator, .eq, .text, .integer, .decimal] := by
  have hall : ∀ word ∈ keywords,
      word.2 ∉ [.name, .operator, .eq, .text, .integer, .decimal] := by decide
  exact hall _ h

section

variable (h : t.Readable)

include h

/-- A name that comes from a text is no keyword. -/
theorem Readable.isName (hkind : t.kind = .name) : IsName t.text.toList := by
  obtain ⟨text, ts, hscan, ht⟩ := h
  obtain ⟨c, rest, more, ts', hrule, htext, hscans⟩ := exists_rule_of_mem hscan ht
  rw [hkind] at hrule
  cases hrule with
  | mark hmark => exact absurd mem_cons_self (mark?_ne hmark).1
  | keyword hword => exact absurd mem_cons_self (keyword_ne hword)
  | number _ hnumber => exact absurd (numberLexeme_kind hnumber) (by decide)
  | name hstart hnone =>
    obtain ⟨name, after, rfl, hname, hparts, hafter⟩ := exists_span isNamePart rest
    rw [hname, take_left] at htext
    rw [hname, drop_left] at hscans
    refine ⟨⟨c, name, htext, hstart, hparts⟩, ?_⟩
    -- A keyword would be followed by a letter of another script.
    cases hlookup : keywords.lookup t.text.toList with
    | none => rfl
    | some kind =>
      obtain ⟨before, others, hmem, -⟩ := lookup_eq_some_iff.mp hlookup
      have hword := keyword?_eq_none_iff.mp hnone (c :: name, kind) (by simp [hmem, htext])
      have hends : endsWord after = false := by simpa using hword
      cases after with
      | nil => cases hends
      | cons d after =>
        have hd : isWord d = true := by simpa [endsWord] using hends
        exact absurd hscans (not_scans_cons hd (hafter d after rfl) after ts')

/-- An operator that comes from a text has no characters but those of operators. -/
theorem Readable.exists_operator (hkind : t.kind = .operator) :
    ∃ c cs, t.text.toList = c :: cs ∧ ∀ d ∈ c :: cs, isOperatorChar d = true := by
  obtain ⟨text, ts, hscan, ht⟩ := h
  obtain ⟨c, rest, more, ts', hrule, htext, -⟩ := exists_rule_of_mem hscan ht
  rw [hkind] at hrule
  cases hrule with
  | mark hmark => exact absurd (by simp) (mark?_ne hmark).1
  | keyword hword => exact absurd (by simp) (keyword_ne hword)
  | number _ hnumber => exact absurd (numberLexeme_kind hnumber) (by decide)
  | operator hop =>
    obtain ⟨op, after, rfl, hrun, hchars, -⟩ := exists_span isOperatorChar rest
    rw [hrun, take_left] at htext
    exact ⟨c, op, htext, forall_mem_cons.mpr ⟨hop, hchars⟩⟩

/-- An operator that comes from a text is read as it is, apart from the equals sign. -/
theorem Readable.legible_operator (hkind : t.kind = .operator) (heq : t.text ≠ "=") :
    t.Legible := by
  obtain ⟨c, cs, htext, hchars⟩ := h.exists_operator hkind
  have hlegible := Token.legible_operator htext hchars heq
  rwa [← hkind] at hlegible

/-- A punctuation mark that comes from a text is known by its kind. -/
theorem Readable.eq_mark (hc : mark? c = some t.kind) : t = ⟨t.kind, String.ofList [c]⟩ := by
  obtain ⟨text, ts, hscan, ht⟩ := h
  obtain ⟨d, rest, more, ts', hrule, htext, -⟩ := exists_rule_of_mem hscan ht
  obtain ⟨hkinds, hwords⟩ := mark?_ne hc
  obtain ⟨kind, text⟩ := t
  cases hrule with
  | eq | name | operator | text => simp at hkinds
  | keyword hword => exact absurd hword (hwords _)
  | number _ hnumber =>
    have hnumbers := numberLexeme_kind hnumber
    exact absurd (mem_append_right [Kind.name, .operator, .eq, .text] hnumbers) hkinds
  | mark hd =>
    have hall : ∀ c ∈ marks, ∀ d ∈ marks, mark? c = mark? d → c = d := by decide
    obtain rfl := hall c (mem_marks hc) d (mem_marks hd) (hc.trans hd.symm)
    have htext' : text = String.ofList [c] := by
      rw [← String.toList_inj, htext, String.toList_ofList]
      rfl
    rw [← htext']

/-- A keyword that comes from a text is known by its kind. -/
theorem Readable.eq_keyword (hword : (word, t.kind) ∈ keywords) :
    t = ⟨t.kind, String.ofList word⟩ := by
  obtain ⟨text, ts, hscan, ht⟩ := h
  obtain ⟨d, rest, more, ts', hrule, htext, -⟩ := exists_rule_of_mem hscan ht
  have hkinds := keyword_ne hword
  obtain ⟨kind, text⟩ := t
  cases hrule with
  | eq | name | operator | text => simp at hkinds
  | mark hmark => exact absurd hword ((mark?_ne hmark).2 word)
  | number _ hnumber =>
    have hnumbers := numberLexeme_kind hnumber
    exact absurd (mem_append_right [Kind.name, .operator, .eq, .text] hnumbers) hkinds
  | @keyword w _ hw hfront =>
    have hall : ∀ a ∈ keywords, ∀ b ∈ keywords, a.2 = b.2 → a.1 = b.1 ∧ a.1 ≠ [] := by decide
    obtain ⟨rfl, hne⟩ := hall _ hword _ hw rfl
    have hlength : word.length - 1 + 1 = word.length :=
      Nat.sub_add_cancel (length_pos_iff.mpr hne)
    have htext' : text.toList = word := by
      rw [htext, ← take_succ_cons, hlength]
      exact (prefix_iff_eq_take.mp hfront).symm
    rw [← htext', String.ofList_toList]

end

theorem readable_mark (htext : t.text.toList = [c]) (hc : mark? c = some t.kind) : t.Readable := by
  have hscans := scans_nil.mark hc
  rw [← htext, String.ofList_toList] at hscans
  exact ⟨t.text, [t], scan_eq_ok_iff.mpr (htext ▸ hscans), mem_cons_self⟩

/-- A text is read as a name and nothing else exactly if it is a name. -/
theorem scan_eq_name_iff {name : String} :
    scan name = .ok [⟨.name, name⟩] ↔ IsName name.toList := by
  constructor
  · intro h
    exact Readable.isName (t := ⟨.name, name⟩) ⟨name, _, h, mem_cons_self⟩ rfl
  · intro h
    have hscans := (legible_name h).scans scans_nil rfl
    rw [append_nil] at hscans
    exact scan_eq_ok_iff.mpr hscans

end Parley.Token
