import Parley.Proofs.Token.Escaping
import Parley.Proofs.Token.Spelling

/-!
# The literals of numbers and texts

An integer and a text are written in such a way that they can be read again. The digits of an
integer stand for it, and they are a token of their own before anything that closes a token. A text
without quotes and backslashes is put in quotes, with every line feed written as `\n`; the token
ends at the second quote, and without its quotes and backslashes it is the text again.
-/

namespace Parley.Token

open List
open Parley.Text

variable {cs : List Char} {c : Char} {n : Nat} {s : String}

/-! ### Integers -/

/-- Where no fraction follows, digits are an integer. -/
theorem numberLexeme_append {rest : List Char} (hcs : ∀ d ∈ cs, d.isDigit = true)
    (hrest : closes rest = true) : numberLexeme (cs ++ rest) = (.integer, cs.length) := by
  obtain ⟨htake, hdrop⟩ := span_of_closes (by decide) hcs hrest
  rw [numberLexeme, htake, hdrop]
  cases rest with
  | nil => rfl
  | cons c rest =>
    by_cases hpoint : c = '.'
    · subst hpoint
      have hnodigit : rest.takeWhile Char.isDigit = [] := by
        cases rest with
        | nil => rfl
        | cons d rest =>
          rw [closes_point] at hrest
          have hd : d.isDigit = false := by simpa using hrest
          exact takeWhile_cons_of_neg (by simp [hd])
      simp only [hnodigit]
    · split
      · next heq => exact absurd (cons.inj heq).1 hpoint
      · rfl

theorem isNamePart_of_isDigit (h : c.isDigit = true) : isNamePart c = true := by
  rw [isNamePart, Char.isAlphanum, h, Bool.or_true, Bool.true_or]

theorem isNameStart_of_isDigit (h : c.isDigit = true) : isNameStart c = false := by
  have hall : ∀ n < 0x80, (Char.ofNat n).isDigit = true → isNameStart (Char.ofNat n) = false := by
    decide
  have hc := hall c.toNat (toNat_lt_of_isNamePart (isNamePart_of_isDigit h))
  rw [Char.ofNat_toNat] at hc
  exact hc h

theorem lexeme?_of_isDigit (h : c.isDigit = true) (rest : List Char) :
    lexeme? c rest = some (numberLexeme rest) := by
  obtain ⟨-, -, heq, hmark, hop, hquote⟩ := special_of_isNamePart (isNamePart_of_isDigit h)
  have hstart := isNameStart_of_isDigit h
  rw [lexeme?, heq, hmark, keyword?_of_not_isNameStart hstart, hstart, hop, hquote, h]
  rfl

/-- There is at least one digit, and nothing but digits. -/
theorem exists_toList_repr (n : Nat) : ∃ d ds, n.repr.toList = d :: ds ∧ d.isDigit = true ∧
    ∀ c ∈ ds, c.isDigit = true := by
  have hdigits : ∀ d ∈ n.repr.toList, d.isDigit = true := by
    intro d hd
    rw [Nat.toList_repr] at hd
    exact Nat.isDigit_of_mem_toDigits (by decide) (by decide) hd
  cases hrepr : n.repr.toList with
  | nil =>
    rw [Nat.toList_repr] at hrepr
    exact absurd hrepr Nat.toDigits_ne_nil
  | cons d ds =>
    rw [hrepr] at hdigits
    exact ⟨d, ds, rfl, forall_mem_cons.mp hdigits⟩

theorem digitsValue_repr (n : Nat) : Number.digitsValue n.repr.toList = n := by
  rw [Nat.toList_repr]
  exact Nat.ofDigitChars_toDigits (by decide) (by decide)

theorem toList_toString_negSucc (n : Nat) :
    (toString (Int.negSucc n)).toList = '-' :: (n + 1).repr.toList :=
  String.toList_append

/-- The digits of a number are a token. -/
theorem legible_repr (n : Nat) : Legible ⟨.integer, n.repr⟩ := by
  obtain ⟨c, cs, hrepr, hc, hcs⟩ := exists_toList_repr n
  obtain ⟨hblank, hhash, -⟩ := special_of_isNamePart (isNamePart_of_isDigit hc)
  refine ⟨c, cs, hrepr, hblank, hhash, ?_⟩
  intro rest hrest
  rw [lexeme?_of_isDigit hc, numberLexeme_append hcs hrest]

theorem lt_tenTo_iff {k : Nat} (hk : 0 < k) : n < Number.tenTo k ↔ n.repr.length ≤ k :=
  (Nat.length_repr_le_iff hk).symm

/-- The digits of a number stand for it, if they are not too many. -/
theorem readInteger_repr (h : n < Number.tenTo Number.digitLimit) :
    Grammar.readInteger n.repr = .ok n := by
  have hlength : n.repr.length ≤ Number.digitLimit := (lt_tenTo_iff (by decide)).mp h
  rw [Grammar.readInteger, if_pos hlength, digitsValue_repr]

theorem intText_of_length_le {n : Int} (h : n.natAbs.repr.length ≤ Number.digitLimit) :
    Constant.intText n = .ok (toString n) := by
  rw [Constant.intText, if_pos ((lt_tenTo_iff (by decide)).mpr h)]

theorem intText_natCast (h : n < Number.tenTo Number.digitLimit) :
    Constant.intText n = .ok n.repr :=
  intText_of_length_le ((lt_tenTo_iff (by decide)).mp h)

/-! ### Texts -/

theorem closingQuote?_cons (hquote : c ≠ '"') (hback : c ≠ '\\') (cs : List Char) :
    closingQuote? (c :: cs) = (closingQuote? cs).map (· + 1) := by
  rw [closingQuote?]
  · exact hquote
  · rintro rest rfl
    exact absurd rfl hback

/-- A text without quotes and backslashes ends at the quote after it. -/
theorem closingQuote?_escaped (hquote : '"' ∉ cs) (hback : '\\' ∉ cs) (rest : List Char) :
    closingQuote? (escaped cs ++ '"' :: rest) = some (escaped cs).length := by
  induction cs with
  | nil => rfl
  | cons c cs ih =>
    obtain ⟨hcquote, hquote⟩ := not_or.mp fun h => hquote (mem_cons.mpr h)
    obtain ⟨hcback, hback⟩ := not_or.mp fun h => hback (mem_cons.mpr h)
    have hrest := ih hquote hback
    rw [escaped_cons]
    by_cases hc : c = '\n'
    · have hletter : closingQuote? ('n' :: (escaped cs ++ '"' :: rest)) =
          some ((escaped cs).length + 1) := by
        rw [closingQuote?_cons (by decide) (by decide), hrest]
        rfl
      rw [if_pos hc]
      show closingQuote? ('\\' :: 'n' :: (escaped cs ++ '"' :: rest)) = _
      rw [closingQuote?, hletter]
      · rfl
      · decide
      · simp
    · rw [if_neg hc, append_assoc, singleton_append,
        closingQuote?_cons (Ne.symm hcquote) (Ne.symm hcback), hrest]
      rfl

/-- A text without quotes and backslashes is a token when it is put in quotes. -/
theorem legible_quotedText (hquote : '"' ∉ s.toList) (hback : '\\' ∉ s.toList) :
    Legible ⟨.text, Constant.quotedText s⟩ := by
  refine ⟨'"', escaped s.toList ++ ['"'], toList_quotedText s, by decide, by decide, ?_⟩
  intro rest _
  have hclosing : closingQuote? (escaped s.toList ++ ['"'] ++ rest) =
      some (escaped s.toList).length := by
    rw [append_assoc]
    exact closingQuote?_escaped hquote hback rest
  rw [lexeme?, hclosing, length_append]
  rfl

/-- A text without backslashes is what it stands for when it is put in quotes. -/
theorem unquote_quotedText (hback : '\\' ∉ s.toList) :
    Grammar.unquote (Constant.quotedText s) = s := by
  refine unquote_quotedText_iff.mpr fun before after hs => ?_
  exact absurd (by simp [hs]) hback

end Parley.Token
