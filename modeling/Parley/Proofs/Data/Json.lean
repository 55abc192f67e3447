import Mathlib.Algebra.GroupWithZero.Nat
import Mathlib.Algebra.Order.BigOperators.Group.List
import Mathlib.Algebra.Order.Group.Nat
import Mathlib.Data.List.TakeWhile
import Parley.Data.Json
import Parley.Proofs.Token.Literals

/-!
# Reading what was written as JSON

The shell writes JSON in a layout of its own, with blanks and line feeds in fixed places, and of the
characters that would have to be escaped it escapes line feeds and tabs only. The reader takes JSON
in any layout. What was written is read, and of texts it is known exactly when.

A text that was written is read as its value whatever comes after it, as long as that cannot belong
to a number (`Renders`), and lists and dictionaries of such texts are texts of this kind again. The
budget of the reader is no obstacle, as every step takes at least one character.

For texts in quotes there is a converse. A character that stands for itself is no quote, no
backslash and no control character, and to spell any other one takes at least two characters
(`weight`). But two characters are written for line feeds and tabs alone. So if what is written for
a text spells the text, nothing else in it needs to be escaped (`safe_of_spelled`).
-/

namespace Parley.Json

open List

variable {c c' : Cursor} {cs ds more rest : List Char} {s key : String} {d : Data}
  {e : String × Data} {es : Data.Entries} {n : Int} {place opening budget : Nat}
  {css : List (List Char)} {p : String × List Char} {ps : List (String × List Char)}

/-! ### Gaps -/

theorem skip_one (place : Nat) (c : Char) (cs : List Char) :
    Cursor.skip ⟨place, c :: cs⟩ 1 = ⟨place + 1, cs⟩ := rfl

theorem skipGaps_of_gap {g : Char} (h : isGap g = true) (place : Nat) (cs : List Char) :
    skipGaps ⟨place, g :: cs⟩ = skipGaps ⟨place + 1, cs⟩ := by
  simp only [skipGaps, Cursor.skip, takeWhile_cons_of_pos h, length_cons]
  congr 1
  omega

theorem skipGaps_of_not_gap {c : Char} (h : isGap c = false) (place : Nat) (cs : List Char) :
    skipGaps ⟨place, c :: cs⟩ = ⟨place, c :: cs⟩ := by
  rw [skipGaps, takeWhile_cons_of_neg (by simp [h])]
  rfl

/-! ### Strings -/

/-- The character may stand in a string as it is. -/
def Raw (c : Char) : Prop :=
  c ≠ '"' ∧ c ≠ '\\' ∧ 0x20 ≤ c.toNat

instance : DecidablePred Raw :=
  fun _ => inferInstanceAs (Decidable (_ ∧ _ ∧ _))

/-- The character comes through when a text is written and read: it is no quote and no backslash,
and among the control characters it is a line feed or a tab. -/
def Safe (c : Char) : Prop :=
  c ≠ '"' ∧ c ≠ '\\' ∧ (0x20 ≤ c.toNat ∨ c = '\n' ∨ c = '\t')

instance : DecidablePred Safe :=
  fun _ => inferInstanceAs (Decidable (_ ∧ _ ∧ _))

theorem Raw.safe {c : Char} (h : Raw c) : Safe c :=
  ⟨h.1, h.2.1, .inl h.2.2⟩

/-- A text as it is written between quotes: only line feeds and tabs are escaped. -/
def encoded (cs : List Char) : List Char :=
  cs.flatMap fun c => if c = '\n' then ['\\', 'n'] else if c = '\t' then ['\\', 't'] else [c]

theorem encoded_cons (c : Char) (cs : List Char) : encoded (c :: cs) =
    (if c = '\n' then ['\\', 'n'] else if c = '\t' then ['\\', 't'] else [c]) ++ encoded cs := rfl

theorem encoded_of_raw (h : ∀ c ∈ cs, Raw c) : encoded cs = cs := by
  induction cs with
  | nil => rfl
  | cons c cs ih =>
    obtain ⟨hc, hcs⟩ := forall_mem_cons.mp h
    have hline : c ≠ '\n' := by
      rintro rfl
      exact absurd hc (by decide)
    have htab : c ≠ '\t' := by
      rintro rfl
      exact absurd hc (by decide)
    rw [encoded_cons, if_neg hline, if_neg htab, ih hcs]
    rfl

theorem readString_raw {c : Char} (h : Raw c) (done : List Char) :
    readString opening (budget + 1) done ⟨place, c :: rest⟩ =
      readString opening budget (c :: done) ⟨place + 1, rest⟩ := by
  rw [readString]
  split
  · next heq => cases heq
  · next heq => exact absurd (cons.inj heq).1 h.1
  · next heq => exact absurd (cons.inj heq).1 h.2.1
  · next heq =>
    cases heq
    rw [if_neg (Nat.not_lt.mpr h.2.2)]
    rfl

/-- **A text that was written is read**, if all its characters come through. -/
theorem readString_encoded (h : ∀ c ∈ cs, Safe c) (hbudget : cs.length < budget)
    (done : List Char) (place : Nat) :
    ∃ place', readString opening budget done ⟨place, encoded cs ++ '"' :: rest⟩ =
      .ok (String.ofList (done.reverse ++ cs), ⟨place', rest⟩) := by
  induction cs generalizing budget place done with
  | nil =>
    obtain ⟨budget, rfl⟩ := Nat.exists_eq_add_one_of_ne_zero (Nat.ne_zero_of_lt hbudget)
    rw [append_nil]
    exact ⟨_, rfl⟩
  | cons c cs ih =>
    obtain ⟨budget, rfl⟩ := Nat.exists_eq_add_one_of_ne_zero (Nat.ne_zero_of_lt hbudget)
    obtain ⟨hc, hcs⟩ := forall_mem_cons.mp h
    have hrest := ih hcs (Nat.lt_of_succ_lt_succ hbudget) (c :: done)
    rw [reverse_cons, append_assoc] at hrest
    by_cases hline : c = '\n'
    · subst hline
      exact hrest (place + 2)
    · by_cases htab : c = '\t'
      · subst htab
        exact hrest (place + 2)
      · have hraw : Raw c := ⟨hc.1, hc.2.1, hc.2.2.resolve_right fun h => h.elim hline htab⟩
        rw [encoded_cons, if_neg hline, if_neg htab]
        show ∃ place', readString opening (budget + 1) done ⟨place, c :: (encoded cs ++ _)⟩ = _
        rw [readString_raw hraw]
        exact hrest (place + 1)

/-- What the inside of a string stands for: a character that may stand there as it is stands for
itself, and a backslash with something after it stands for one character or another. -/
inductive Spelled : List Char → List Char → Prop
  | nil : Spelled [] []
  | raw {c : Char} {inside text : List Char} (hc : Raw c) (h : Spelled inside text) :
      Spelled (c :: inside) (c :: text)
  | escape {code inside text : List Char} (c : Char) (hcode : code ≠ [])
      (h : Spelled inside text) : Spelled ('\\' :: (code ++ inside)) (c :: text)

/-- An escape is read up to its end. -/
theorem exists_code_of_readEscape {ch : Char} (h : readEscape opening c = .ok (ch, c')) :
    ∃ code, code ≠ [] ∧ c.rest = code ++ c'.rest := by
  have hskip : c.rest ≠ [] ∧ ∃ n, c' = c.skip (n + 1) := by
    unfold readEscape at h
    split at h
    · cases h
    · next more heq =>
      refine ⟨by rw [heq]; exact cons_ne_nil _ _, ?_⟩
      dsimp only at h
      split at h
      · cases h
      · split at h
        · cases h
        · split at h
          · split at h
            · cases h
            · split at h
              · exact ⟨10, (Prod.mk.inj (Except.ok.inj h)).2.symm⟩
              · exact ⟨4, (Prod.mk.inj (Except.ok.inj h)).2.symm⟩
          · exact ⟨4, (Prod.mk.inj (Except.ok.inj h)).2.symm⟩
    · next e more _ heq =>
      refine ⟨by rw [heq]; exact cons_ne_nil _ _, ?_⟩
      split at h
      · exact ⟨0, (Prod.mk.inj (Except.ok.inj h)).2.symm⟩
      · cases h
  obtain ⟨hne, n, rfl⟩ := hskip
  refine ⟨c.rest.take (n + 1), ?_, (take_append_drop _ _).symm⟩
  simpa using hne

/-- **What is read as a string** was spelled there. -/
theorem exists_spelled_of_readString {done : List Char}
    (h : readString opening budget done c = .ok (s, c')) :
    ∃ inside text, Spelled inside text ∧ c.rest = inside ++ '"' :: c'.rest ∧
      s = String.ofList (done.reverse ++ text) := by
  induction budget generalizing done c with
  | zero => cases h
  | succ budget ih =>
    rw [readString] at h
    split at h
    · cases h
    · next more heq =>
      obtain ⟨rfl, rfl⟩ := Prod.mk.inj (Except.ok.inj h)
      refine ⟨[], [], .nil, ?_, by rw [append_nil]⟩
      rw [Cursor.skip, heq]
      rfl
    · next more heq =>
      cases hescape : readEscape opening (c.skip 1) with
      | error p =>
        rw [hescape] at h
        cases h
      | ok found =>
        rw [hescape] at h
        obtain ⟨inside, text, hspelled, hrest, rfl⟩ := ih h
        obtain ⟨code, hcode, hsplit⟩ := exists_code_of_readEscape hescape
        refine ⟨_, _, hspelled.escape found.1 hcode, ?_, by simp⟩
        have hmore : more = code ++ found.2.rest := by
          rw [← hsplit, Cursor.skip, heq]
          rfl
        rw [heq, hmore, hrest]
        simp
    · next ch more hquote hback heq =>
      split at h
      · cases h
      · next hcontrol =>
        obtain ⟨inside, text, hspelled, hrest, rfl⟩ := ih h
        have hraw : Raw ch := ⟨hquote, hback, Nat.not_lt.mp hcontrol⟩
        refine ⟨_, _, hspelled.raw hraw, ?_, by simp⟩
        have hmore : more = inside ++ '"' :: c'.rest := by
          rw [← hrest, Cursor.skip, heq]
          rfl
        rw [heq, hmore]
        rfl

/-- How many characters are needed to spell a character, at least. -/
def weight (c : Char) : Nat :=
  if Raw c then 1 else 2

theorem Spelled.weight_le {inside text : List Char} (h : Spelled inside text) :
    (text.map weight).sum ≤ inside.length := by
  induction h with
  | nil => exact Nat.le_refl _
  | raw hc _ ih =>
    rw [map_cons, sum_cons, weight, if_pos hc, length_cons]
    omega
  | @escape code _ _ c hcode _ ih =>
    have hweight : weight c ≤ 2 := by
      rw [weight]
      split <;> omega
    have hpos := length_pos_iff.mpr hcode
    rw [map_cons, sum_cons, length_cons, length_append]
    omega

/-- How many characters are written for a character. -/
theorem length_encoded (cs : List Char) :
    (encoded cs).length = (cs.map fun c => if c = '\n' ∨ c = '\t' then 2 else 1).sum := by
  induction cs with
  | nil => rfl
  | cons c cs ih =>
    rw [encoded_cons, length_append, ih]
    by_cases hline : c = '\n'
    · simp [hline]
    · by_cases htab : c = '\t' <;> simp [hline, htab]

theorem length_le_encoded (cs : List Char) : cs.length ≤ (encoded cs).length := by
  rw [length_encoded]
  induction cs with
  | nil => exact Nat.le_refl _
  | cons c cs ih =>
    rw [length_cons, map_cons, sum_cons]
    split <;> omega

/-- **Only characters that come through** are spelled by what is written for them: for every other
character that cannot stand for itself two characters would be needed, and one is written. -/
theorem safe_of_spelled (h : Spelled (encoded cs) cs) : ∀ c ∈ cs, Safe c := by
  by_contra hnot
  push Not at hnot
  obtain ⟨c, hc, hsafe⟩ := hnot
  have hle : ∀ d ∈ cs, (if d = '\n' ∨ d = '\t' then 2 else 1) ≤ weight d := by
    intro d _
    split
    · next hd =>
      rcases hd with rfl | rfl <;> decide
    · rw [weight]
      split <;> omega
  have hlt : (if c = '\n' ∨ c = '\t' then 2 else 1) < weight c := by
    have hraw : ¬ Raw c := fun hraw => hsafe hraw.safe
    have hnone : ¬ (c = '\n' ∨ c = '\t') := by
      rintro (rfl | rfl) <;> exact hsafe (by decide)
    rw [if_neg hnone, weight, if_neg hraw]
    decide
  have hsum := sum_lt_sum _ _ hle ⟨c, hc, hlt⟩
  have hspelled := h.weight_le
  rw [length_encoded] at hspelled
  omega

/-! ### Numbers -/

/-- What was written ends here: nothing follows, or a blank, a comma or a line feed. -/
def Ended (rest : List Char) : Prop :=
  ∀ c ∈ rest.head?, c = ' ' ∨ c = ',' ∨ c = '\n'

theorem parts_of_ended (h : Ended rest) : fractionPart rest = none ∧ exponentPart rest = none := by
  cases rest with
  | nil => exact ⟨rfl, rfl⟩
  | cons c rest => rcases h c rfl with rfl | rfl | rfl <;> exact ⟨rfl, rfl⟩

theorem spanDigits_append (hds : ∀ d ∈ ds, d.isDigit = true) (h : Ended rest) :
    spanDigits (ds ++ rest) = (ds, rest) := by
  have hnone : rest.takeWhile Char.isDigit = [] ∧ rest.dropWhile Char.isDigit = rest := by
    cases rest with
    | nil => exact ⟨rfl, rfl⟩
    | cons c rest => rcases h c rfl with rfl | rfl | rfl <;> exact ⟨rfl, rfl⟩
  rw [spanDigits, takeWhile_append_of_pos hds, dropWhile_append_of_pos hds, hnone.1,
    hnone.2, append_nil]

/-- Only the digits of zero begin with zero. -/
theorem eq_zero_of_toDigits {n : Nat} (h : Nat.toDigits 10 n = '0' :: ds) : n = 0 := by
  induction n using Nat.strongRecOn generalizing ds with
  | ind n ih =>
    rcases Nat.lt_or_ge n 10 with hn | hn
    · rw [Nat.toDigits_of_lt_base hn] at h
      exact Nat.digitChar_eq_zero.mp (List.cons.inj h).1
    · rw [Nat.toDigits_of_base_le (by decide) hn] at h
      cases hfirst : Nat.toDigits 10 (n / 10) with
      | nil => exact absurd hfirst Nat.toDigits_ne_nil
      | cons d more =>
        rw [hfirst] at h
        rw [(List.cons.inj h).1] at hfirst
        have hzero := ih (n / 10) (by omega) hfirst
        omega

theorem wholePart_repr (n : Nat) (h : Ended rest) :
    wholePart (n.repr.toList ++ rest) = some (n.repr.toList, rest) := by
  obtain ⟨d, ds, hrepr, hd, hds⟩ := Token.exists_toList_repr n
  unfold wholePart
  split
  · next more heq =>
    -- Nothing comes after a zero in the first place.
    rw [hrepr] at heq
    obtain ⟨rfl, hmore⟩ := List.cons.inj heq
    have hzero := eq_zero_of_toDigits (Nat.toList_repr.symm.trans hrepr)
    rw [hzero] at hrepr
    obtain rfl : [] = ds := (List.cons.inj hrepr).2
    rw [hzero, ← hmore]
    rfl
  · rw [hrepr, spanDigits_append (forall_mem_cons.mpr ⟨hd, hds⟩) h]

/-- **An integer that was written is read**, if it has not too many digits. -/
theorem readNumber_int (hn : n.natAbs.repr.length ≤ Number.digitLimit) (h : Ended rest)
    (place : Nat) : ∃ place', readNumber ⟨place, (toString n).toList ++ rest⟩ =
      .ok (.int n, ⟨place', rest⟩) := by
  cases n with
  | ofNat n =>
    obtain ⟨d, ds, hrepr, hd, -⟩ := Token.exists_toList_repr n
    have hsign : ∀ more, n.repr.toList ++ rest ≠ '-' :: more := by
      intro more heq
      rw [hrepr] at heq
      rw [(List.cons.inj heq).1] at hd
      cases hd
    have hlong : ¬ n.repr.toList.length > Number.digitLimit := Nat.not_lt.mpr hn
    show ∃ place', readNumber ⟨place, n.repr.toList ++ rest⟩ = _
    simp only [readNumber, wholePart_repr n h, parts_of_ended h, Token.digitsValue_repr,
      if_neg hlong]
    exact ⟨_, rfl⟩
  | negSucc n =>
    have hlong : ¬ (n + 1).repr.toList.length > Number.digitLimit := Nat.not_lt.mpr hn
    rw [Token.toList_toString_negSucc]
    simp only [cons_append, readNumber, wholePart_repr (n + 1) h, parts_of_ended h,
      Token.digitsValue_repr, if_neg hlong]
    exact ⟨_, rfl⟩

/-! ### Values -/

/-- The characters that values begin with. -/
def starts : List Char :=
  ['"', '[', '\x7b', '-', 'n', 't', 'f', '0', '1', '2', '3', '4', '5', '6', '7', '8', '9']

/-- The text is read as the value, whatever comes after it. -/
structure Renders (cs : List Char) (d : Data) : Prop where
  start : ∃ c ∈ starts, ∃ more, cs = c :: more
  reads : ∀ budget place rest, cs.length ≤ budget → Ended rest →
    ∃ place', readValue budget ⟨place, cs ++ rest⟩ = .ok (d, ⟨place', rest⟩)

theorem Renders.skipGaps (h : Renders cs d) (place : Nat) (rest : List Char) :
    skipGaps ⟨place, cs ++ rest⟩ = ⟨place, cs ++ rest⟩ := by
  obtain ⟨c, hc, more, rfl⟩ := h.start
  have hgap : ∀ c ∈ starts, isGap c = false := by decide
  exact skipGaps_of_not_gap (hgap c hc) place _

/-- There is no value without a step. -/
theorem renders_of_succ (hstart : ∃ c ∈ starts, ∃ more, cs = c :: more)
    (h : ∀ budget place rest, cs.length ≤ budget + 1 → Ended rest →
      ∃ place', readValue (budget + 1) ⟨place, cs ++ rest⟩ = .ok (d, ⟨place', rest⟩)) :
    Renders cs d := by
  refine ⟨hstart, fun budget place rest hbudget hrest => ?_⟩
  cases budget with
  | zero =>
    obtain ⟨c, -, more, rfl⟩ := hstart
    cases hbudget
  | succ budget => exact h budget place rest hbudget hrest

theorem renders_null : Renders "null".toList .null :=
  renders_of_succ ⟨'n', by decide, _, rfl⟩ fun _ place _ _ _ => ⟨place + 4, rfl⟩

theorem renders_bool (b : Bool) : Renders (if b then "true" else "false").toList (.bool b) := by
  cases b with
  | true => exact renders_of_succ ⟨'t', by decide, _, rfl⟩ fun _ place _ _ _ => ⟨place + 4, rfl⟩
  | false => exact renders_of_succ ⟨'f', by decide, _, rfl⟩ fun _ place _ _ _ => ⟨place + 5, rfl⟩

/-- Where no other value begins, a number is read. -/
theorem readValue_of_word?_eq_none {c : Char} (hc : c ∉ ['"', '\x7b', '['])
    (h : word? (c :: more) words = none) (budget place : Nat) :
    readValue (budget + 1) ⟨place, c :: more⟩ = readNumber ⟨place, c :: more⟩ := by
  rw [readValue]
  split
  · next heq => exact absurd (by rw [(List.cons.inj heq).1]; decide) hc
  · next heq => exact absurd (by rw [(List.cons.inj heq).1]; decide) hc
  · next heq => exact absurd (by rw [(List.cons.inj heq).1]; decide) hc
  · rw [h]

theorem word?_of_isDigit {d : Char} (hd : d.isDigit = true) (more : List Char) :
    word? (d :: more) words = none ∧ word? ('-' :: d :: more) words = none := by
  have hne (c : Char) (hc : c.isDigit = false) : (c == d) = false := by
    rw [beq_eq_false_iff_ne]
    rintro rfl
    rw [hc] at hd
    cases hd
  constructor
  · simp [word?, words, List.isPrefixOf, hne 'n' rfl, hne 't' rfl, hne 'f' rfl, hne 'N' rfl,
      hne 'I' rfl, hne '-' rfl]
  · simp [word?, words, List.isPrefixOf, hne 'I' rfl]

theorem mem_starts_of_isDigit {d : Char} (hd : d.isDigit = true) : d ∈ starts := by
  have hall : ∀ n < 0x80, (Char.ofNat n).isDigit = true → Char.ofNat n ∈ starts := by decide
  have hlt : d.toNat < 0x80 := Token.toNat_lt_of_isNamePart (Token.isNamePart_of_isDigit hd)
  have hmem := hall d.toNat hlt
  rw [Char.ofNat_toNat] at hmem
  exact hmem hd

/-- An integer is written with a digit in front, or with a sign and then a digit. -/
theorem exists_toList_toString (n : Int) : ∃ d ds, d.isDigit = true ∧
    ((toString n).toList = d :: ds ∨ (toString n).toList = '-' :: d :: ds) := by
  cases n with
  | ofNat n =>
    obtain ⟨d, ds, hrepr, hd, -⟩ := Token.exists_toList_repr n
    exact ⟨d, ds, hd, .inl hrepr⟩
  | negSucc n =>
    obtain ⟨d, ds, hrepr, hd, -⟩ := Token.exists_toList_repr (n + 1)
    exact ⟨d, ds, hd, .inr (by rw [Token.toList_toString_negSucc, hrepr])⟩

theorem renders_int (hn : n.natAbs.repr.length ≤ Number.digitLimit) :
    Renders (toString n).toList (.int n) := by
  obtain ⟨d, ds, hd, htext⟩ := exists_toList_toString n
  -- Whatever is written first, the reader takes it for a number.
  obtain ⟨c, more, hstart, hother, hword, htext⟩ : ∃ c more, c ∈ starts ∧ c ∉ ['"', '\x7b', '['] ∧
      (∀ rest, word? (c :: (more ++ rest)) words = none) ∧ (toString n).toList = c :: more := by
    rcases htext with htext | htext
    · refine ⟨d, ds, mem_starts_of_isDigit hd, ?_, fun rest => (word?_of_isDigit hd _).1, htext⟩
      rintro hmem
      have hnone : ∀ c ∈ ['"', '\x7b', '['], c.isDigit = false := by decide
      rw [hnone d hmem] at hd
      cases hd
    · exact ⟨'-', d :: ds, by decide, by decide, fun rest => (word?_of_isDigit hd _).2, htext⟩
  refine renders_of_succ ⟨c, hstart, more, htext⟩ fun budget place rest _ hrest => ?_
  obtain ⟨place', hread⟩ := readNumber_int hn hrest place
  rw [htext] at hread ⊢
  exact ⟨place', (readValue_of_word?_eq_none hother (hword rest) budget place).trans hread⟩

theorem renders_text (h : ∀ c ∈ s.toList, Safe c) :
    Renders ('"' :: (encoded s.toList ++ ['"'])) (.str s) := by
  refine renders_of_succ ⟨'"', by decide, _, rfl⟩ fun budget place rest _ _ => ?_
  have hlength : s.toList.length < ('"' :: (encoded s.toList ++ '"' :: rest)).length + 1 := by
    have hle := length_le_encoded s.toList
    rw [length_cons, length_append]
    omega
  obtain ⟨place', hread⟩ := @readString_encoded _ rest place _ h hlength [] (place + 1)
  rw [cons_append, append_assoc]
  refine ⟨place', ?_⟩
  show (readString place (('"' :: (encoded s.toList ++ '"' :: rest)).length + 1) []
    ⟨place + 1, encoded s.toList ++ '"' :: rest⟩ >>= _) = _
  rw [hread, reverse_nil, nil_append, String.ofList_toList]
  rfl

/-! ### Lists and dictionaries -/

/-- Texts with commas between them. -/
def separated : List (List Char) → List Char
  | [] => []
  | cs :: css => cs ++ css.flatMap (',' :: ' ' :: ·)

theorem separated_cons_cons (cs cs' : List Char) (css : List (List Char)) :
    separated (cs :: cs' :: css) = cs ++ ',' :: ' ' :: separated (cs' :: css) := rfl

theorem toList_joinWith (parts : List String) :
    (Text.joinWith ", " parts).toList = separated (parts.map String.toList) := by
  cases parts with
  | nil => rfl
  | cons part parts =>
    rw [Text.toList_joinWith_cons, map_cons, separated, flatMap_map]

theorem Renders.skipGaps_separated (h : Renders cs d) (place : Nat) (css : List (List Char))
    (rest : List Char) :
    Json.skipGaps ⟨place, separated (cs :: css) ++ rest⟩ =
      ⟨place, separated (cs :: css) ++ rest⟩ := by
  rw [separated, append_assoc]
  exact h.skipGaps place _

theorem ended_cons {c : Char} (h : c ∈ [' ', ',', '\n']) (rest : List Char) :
    Ended (c :: rest) := by
  intro d hd
  cases hd
  simpa using h

theorem readItems_last {c c' : Cursor}
    (hread : readValue budget c = .ok (d, c')) (hclose : skipGaps c' = ⟨place, ']' :: more⟩) :
    readItems (budget + 1) c = .ok ([d], ⟨place + 1, more⟩) := by
  simp only [readItems, hread, bind, Except.bind, hclose, skip_one]

theorem readItems_next {c'' : Cursor} {ds : List Data} (hread : readValue budget c = .ok (d, c'))
    (hcomma : skipGaps c' = ⟨place, ',' :: more⟩)
    (hmore : readItems budget (skipGaps ⟨place + 1, more⟩) = .ok (ds, c'')) :
    readItems (budget + 1) c = .ok (d :: ds, c'') := by
  simp only [readItems, hread, bind, Except.bind, hcomma, skip_one, hmore]

/-- **The items of a list** are read one after the other. -/
theorem readItems_separated {ds : List Data}
    (hfirst : Renders cs d) (h : List.Forall₂ Renders css ds) (budget place : Nat)
    (hbudget : (separated (cs :: css)).length < budget) :
    ∃ place', readItems budget ⟨place, separated (cs :: css) ++ ' ' :: ']' :: rest⟩ =
      .ok (d :: ds, ⟨place', rest⟩) := by
  induction h generalizing cs d budget place with
  | nil =>
    obtain ⟨budget, rfl⟩ := Nat.exists_eq_add_one_of_ne_zero (Nat.ne_zero_of_lt hbudget)
    rw [separated, flatMap_nil, append_nil] at hbudget ⊢
    obtain ⟨place₁, hread⟩ := hfirst.reads budget place (' ' :: ']' :: rest) (by omega)
      (ended_cons (by decide) _)
    refine ⟨place₁ + 2, readItems_last hread ?_⟩
    rw [skipGaps_of_gap rfl, skipGaps_of_not_gap rfl]
  | @cons cs' d' css ds hnext _ ih =>
    obtain ⟨budget, rfl⟩ := Nat.exists_eq_add_one_of_ne_zero (Nat.ne_zero_of_lt hbudget)
    rw [separated_cons_cons, length_append, length_cons, length_cons] at hbudget
    rw [separated_cons_cons, append_assoc]
    obtain ⟨place₁, hread⟩ := hfirst.reads budget place
      (',' :: ' ' :: (separated (cs' :: css) ++ ' ' :: ']' :: rest)) (by omega)
      (ended_cons (by decide) _)
    obtain ⟨place₂, hmore⟩ := ih hnext budget (place₁ + 2) (by omega)
    refine ⟨place₂, readItems_next hread (skipGaps_of_not_gap rfl _ _) ?_⟩
    rwa [skipGaps_of_gap rfl, hnext.skipGaps_separated]

theorem readValue_list {inner c' : Cursor} {ds : List Data}
    (hinner : skipGaps ⟨place + 1, cs⟩ = inner) (hopen : ∀ more, inner.rest ≠ ']' :: more)
    (hitems : readItems budget inner = .ok (ds, c')) :
    readValue (budget + 1) ⟨place, '[' :: cs⟩ = .ok (.list ds, c') := by
  simp only [readValue, skip_one, hinner, hitems, bind, Except.bind]

theorem renders_list {ds : List Data} (h : List.Forall₂ Renders css ds) :
    Renders ('[' :: ' ' :: (separated css ++ [' ', ']'])) (.list ds) := by
  refine renders_of_succ ⟨'[', by decide, _, rfl⟩ fun budget place rest hbudget _ => ?_
  cases h with
  | nil => exact ⟨place + 4, rfl⟩
  | @cons cs d css ds hfirst h =>
    rw [length_cons, length_cons, length_append] at hbudget
    rw [cons_append, cons_append, append_assoc]
    obtain ⟨place', hitems⟩ :=
      @readItems_separated _ rest _ _ _ hfirst h budget (place + 2) (by omega)
    have hinner := (skipGaps_of_gap (g := ' ') rfl (place + 1) _).trans
      (hfirst.skipGaps_separated (place + 2) css (' ' :: ']' :: rest))
    refine ⟨place', readValue_list hinner (fun more heq => ?_) hitems⟩
    obtain ⟨c, hc, tail, rfl⟩ := hfirst.start
    rw [(List.cons.inj heq).1] at hc
    exact absurd hc (by decide)

/-- A property as it is written. -/
def entryText (key : String) (cs : List Char) : List Char :=
  '"' :: (key.toList ++ '"' :: ':' :: ' ' :: (cs ++ ['\n']))

/-- From one place to another a key and a value are read. -/
def ReadsEntry (budget : Nat) (c : Cursor) (key : String) (d : Data) (c' : Cursor) : Prop :=
  ∃ opening cs c₁ place more, c = ⟨opening, '"' :: cs⟩ ∧
    readString opening (('"' :: cs).length + 1) [] ⟨opening + 1, cs⟩ = .ok (key, c₁) ∧
    skipGaps c₁ = ⟨place, ':' :: more⟩ ∧
    readValue budget (skipGaps ⟨place + 1, more⟩) = .ok (d, c')

theorem readEntries_last (done : Data.Entries) (h : ReadsEntry budget c key d c')
    (hclose : skipGaps c' = ⟨place, '\x7d' :: more⟩) :
    readEntries (budget + 1) done c = .ok (Data.put key d done, ⟨place + 1, more⟩) := by
  obtain ⟨opening, cs, c₁, colon, tail, rfl, hkey, hcolon, hread⟩ := h
  simp only [readEntries, skip_one, hkey, bind, Except.bind, hcolon, hread, hclose]

theorem readEntries_next (done : Data.Entries) (h : ReadsEntry budget c key d c')
    (hcomma : skipGaps c' = ⟨place, ',' :: more⟩) :
    readEntries (budget + 1) done c =
      readEntries budget (Data.put key d done) (skipGaps ⟨place + 1, more⟩) := by
  obtain ⟨opening, cs, c₁, colon, tail, rfl, hkey, hcolon, hread⟩ := h
  rw [readEntries]
  simp only [skip_one, hkey, bind, Except.bind, hcolon, hread, hcomma]

/-- A property is a key, which stands as it is, and a value. -/
structure RendersEntry (p : String × List Char) (e : String × Data) : Prop where
  key : p.1 = e.1
  raw : ∀ c ∈ p.1.toList, Raw c
  value : Renders p.2 e.2

theorem RendersEntry.reads (h : RendersEntry p e)
    (budget place : Nat) (rest : List Char) (hbudget : (entryText p.1 p.2).length ≤ budget) :
    ∃ place', ReadsEntry budget ⟨place, entryText p.1 p.2 ++ rest⟩ e.1 e.2
      ⟨place', '\n' :: rest⟩ := by
  obtain ⟨key, cs⟩ := p
  obtain ⟨_, d⟩ := e
  obtain ⟨rfl, hraw, hvalue⟩ := h
  dsimp only at hraw hvalue hbudget
  let tail := ':' :: ' ' :: (cs ++ '\n' :: rest)
  have htext : entryText key cs ++ rest = '"' :: (encoded key.toList ++ '"' :: tail) := by
    rw [encoded_of_raw hraw]
    simp [entryText, tail]
  have hlength : key.toList.length < ('"' :: (encoded key.toList ++ '"' :: tail)).length + 1 := by
    rw [encoded_of_raw hraw, length_cons, length_append]
    omega
  obtain ⟨place₁, hkey⟩ := @readString_encoded _ tail place _ (fun c hc => (hraw c hc).safe) hlength
    [] (place + 1)
  rw [reverse_nil, nil_append, String.ofList_toList] at hkey
  have hroom : cs.length ≤ budget := by
    simp only [entryText, length_cons, length_append] at hbudget
    omega
  obtain ⟨place₂, hread⟩ := hvalue.reads budget (place₁ + 2) ('\n' :: rest) hroom
    (ended_cons (by decide) _)
  refine ⟨place₂, place, _, _, place₁, _, by rw [htext], hkey, skipGaps_of_not_gap rfl _ _, ?_⟩
  rwa [skipGaps_of_gap rfl, hvalue.skipGaps]

theorem put_of_notMem (h : key ∉ es.map Prod.fst) : Data.put key d es = es ++ [(key, d)] := by
  induction es with
  | nil => rfl
  | cons e es ih =>
    rw [map_cons, mem_cons, not_or] at h
    rw [Data.put, if_neg (Ne.symm h.1), ih h.2]
    rfl

theorem put_of_nodup {done : Data.Entries}
    (h : ((done ++ e :: es).map Prod.fst).Nodup) : Data.put e.1 e.2 done = done ++ [e] := by
  rw [map_append] at h
  exact put_of_notMem fun hmem =>
    (nodup_append.mp h).2.2 _ hmem _ mem_cons_self rfl

/-- Properties as they are written, with commas between them. -/
def entriesText (ps : List (String × List Char)) : List Char :=
  separated (ps.map fun p => entryText p.1 p.2)

/-- **The entries of a dictionary** are read one after the other, and stay in their order if no key
comes twice. -/
theorem readEntries_separated {es : Data.Entries} (hfirst : RendersEntry p e)
    (h : List.Forall₂ RendersEntry ps es) (done : Data.Entries)
    (hkeys : ((done ++ e :: es).map Prod.fst).Nodup) (budget place : Nat)
    (hbudget : (entriesText (p :: ps)).length < budget) :
    ∃ place', readEntries budget done ⟨place, entriesText (p :: ps) ++ '\x7d' :: rest⟩ =
      .ok (done ++ e :: es, ⟨place', rest⟩) := by
  induction h generalizing p e done budget place with
  | nil =>
    obtain ⟨budget, rfl⟩ := Nat.exists_eq_add_one_of_ne_zero (Nat.ne_zero_of_lt hbudget)
    have htext : entriesText [p] = entryText p.1 p.2 := append_nil _
    rw [htext] at hbudget ⊢
    obtain ⟨place₁, hread⟩ := hfirst.reads budget place ('\x7d' :: rest) (Nat.le_of_lt_succ hbudget)
    refine ⟨place₁ + 2, ?_⟩
    rw [readEntries_last done hread (skipGaps_of_gap rfl _ _), put_of_nodup hkeys]
    rfl
  | @cons p' e' ps es hnext _ ih =>
    obtain ⟨budget, rfl⟩ := Nat.exists_eq_add_one_of_ne_zero (Nat.ne_zero_of_lt hbudget)
    have htext : entriesText (p :: p' :: ps) =
        entryText p.1 p.2 ++ ',' :: ' ' :: entriesText (p' :: ps) := rfl
    rw [htext, length_append, length_cons, length_cons] at hbudget
    rw [htext, append_assoc, cons_append, cons_append]
    obtain ⟨place₁, hread⟩ := hfirst.reads budget place
      (',' :: ' ' :: (entriesText (p' :: ps) ++ '\x7d' :: rest)) (by omega)
    have hcomma := (skipGaps_of_gap (g := '\n') rfl place₁ _).trans
      (skipGaps_of_not_gap (c := ',') rfl _ (' ' :: (entriesText (p' :: ps) ++ '\x7d' :: rest)))
    obtain ⟨place₂, hmore⟩ := ih hnext (done ++ [e]) (by simpa using hkeys) budget (place₁ + 3)
      (by omega)
    refine ⟨place₂, ?_⟩
    have hquote : skipGaps ⟨place₁ + 3, entriesText (p' :: ps) ++ '\x7d' :: rest⟩ =
        ⟨place₁ + 3, entriesText (p' :: ps) ++ '\x7d' :: rest⟩ := skipGaps_of_not_gap rfl _ _
    rw [readEntries_next done hread hcomma, skipGaps_of_gap rfl, hquote, put_of_nodup hkeys,
      hmore, append_assoc]
    rfl

theorem readValue_dict {inner : Cursor} (hinner : skipGaps ⟨place + 1, cs⟩ = inner)
    (hopen : inner.rest = '"' :: more) (hentries : readEntries budget [] inner = .ok (es, c')) :
    readValue (budget + 1) ⟨place, '\x7b' :: cs⟩ = .ok (.dict es, c') := by
  simp only [readValue, skip_one, hinner, hopen, hentries]
  rfl

theorem renders_dict (h : Forall₂ RendersEntry ps es) (hkeys : (es.map Prod.fst).Nodup) :
    Renders ('\x7b' :: ' ' :: (entriesText ps ++ ['\x7d'])) (.dict es) := by
  refine renders_of_succ ⟨'\x7b', by decide, _, rfl⟩ fun budget place rest hbudget _ => ?_
  cases h with
  | nil => exact ⟨place + 3, rfl⟩
  | @cons p e ps es hfirst h =>
    rw [length_cons, length_cons, length_append] at hbudget
    rw [cons_append, cons_append, append_assoc]
    obtain ⟨place', hentries⟩ := @readEntries_separated rest _ _ _ _ hfirst h [] hkeys budget
      (place + 2) (by omega)
    exact ⟨place', readValue_dict rfl rfl hentries⟩

/-! ### Whole texts -/

/-- **A text that renders a value is read as that value.** -/
theorem parse_of_renders (h : Renders s.toList d) : parse s = .ok d := by
  obtain ⟨place, hread⟩ := h.reads (2 * s.toList.length + 2) 0 [] (by omega) nofun
  have hgaps := h.skipGaps 0 []
  rw [append_nil] at hread hgaps
  obtain ⟨c, hc, more, hcs⟩ := h.start
  have hmark : s.toList.head? ≠ some (Char.ofNat 0xfeff) := by
    rw [hcs]
    intro heq
    rw [Option.some.inj heq] at hc
    exact absurd hc (by decide)
  rw [parse, if_neg hmark, hgaps, hread]
  rfl

/-- After a value that was read there are only gaps. -/
theorem exists_readValue_of_parse (h : parse s = .ok d) :
    ∃ c, readValue (2 * s.toList.length + 2) (skipGaps ⟨0, s.toList⟩) = .ok (d, c) ∧
      ∀ g ∈ c.rest, isGap g = true := by
  rw [parse] at h
  split at h
  · cases h
  · cases hread : readValue (2 * s.toList.length + 2) (skipGaps ⟨0, s.toList⟩) with
    | error p =>
      rw [hread] at h
      cases h
    | ok found =>
      rw [hread] at h
      obtain ⟨d', c⟩ := found
      have hend : (if (skipGaps c).rest.isEmpty then Except.ok d' else
        .error (.at "Extra data" (skipGaps c).place)) = (.ok d : Except Problem Data) := h
      split at hend
      · next hempty =>
        cases hend
        refine ⟨c, rfl, ?_⟩
        have hdrop : c.rest.drop (c.rest.takeWhile isGap).length = [] :=
          isEmpty_iff.mp hempty
        have hall : c.rest.takeWhile isGap = c.rest :=
          ( takeWhile_prefix isGap).eq_of_length_le (drop_eq_nil_iff.mp hdrop)
        exact takeWhile_eq_self_iff.mp hall
      · cases hend

/-- What is read after a quote is a text, and it was spelled there. -/
theorem exists_spelled_of_readValue (h : readValue (budget + 1) ⟨place, '"' :: cs⟩ = .ok (d, c)) :
    ∃ s inside, d = .str s ∧ Spelled inside s.toList ∧ cs = inside ++ '"' :: c.rest := by
  have hbind : (readString place (('"' :: cs).length + 1) [] ⟨place + 1, cs⟩ >>= fun found =>
      Except.ok (Data.str found.1, found.2)) = .ok (d, c) := h
  cases hread : readString place (('"' :: cs).length + 1) [] ⟨place + 1, cs⟩ with
  | error p =>
    rw [hread] at hbind
    cases hbind
  | ok found =>
    rw [hread] at hbind
    obtain ⟨rfl, rfl⟩ := Prod.mk.inj (Except.ok.inj hbind)
    obtain ⟨inside, text, hspelled, hrest, htext⟩ := exists_spelled_of_readString hread
    refine ⟨found.1, inside, rfl, ?_, hrest⟩
    rwa [htext, String.toList_ofList]

section Quoted

variable {quoted : String} (hquoted : quoted.toList = '"' :: (encoded s.toList ++ ['"']))

include hquoted

/-- A text in quotes is read as some text, or not at all. -/
theorem exists_str_of_parse {d : Data} (h : parse quoted = .ok d) : ∃ s', d = .str s' := by
  obtain ⟨c, hread, -⟩ := exists_readValue_of_parse h
  rw [hquoted] at hread
  obtain ⟨s', -, hd, -⟩ := exists_spelled_of_readValue hread
  exact ⟨s', hd⟩

/-- **A text in quotes** is read as the text itself if and only if all its characters come
through. -/
theorem parse_encoded_iff : parse quoted = .ok (.str s) ↔ ∀ c ∈ s.toList, Safe c := by
  constructor
  · intro h
    obtain ⟨c, hread, hgaps⟩ := exists_readValue_of_parse h
    rw [hquoted] at hread
    obtain ⟨_, inside, hs, hspelled, hsplit⟩ := exists_spelled_of_readValue hread
    cases hs
    -- The quote that ends the string is the last one, as a quote is no gap.
    have hrest : c.rest = [] := by
      rcases eq_nil_or_concat c.rest with hnil | ⟨init, g, hconcat⟩
      · exact hnil
      · have hg : isGap g = true := hgaps g (by rw [hconcat]; simp)
        have hlast : encoded s.toList ++ ['"'] = inside ++ '"' :: init ++ [g] := by
          rw [hsplit, hconcat]
          simp
        obtain rfl : '"' = g := singleton_inj.mp (append_inj_right' hlast rfl)
        cases hg
    rw [hrest] at hsplit
    rw [← append_cancel_right hsplit] at hspelled
    exact safe_of_spelled hspelled
  · intro h
    refine parse_of_renders ?_
    rw [hquoted]
    exact renders_text h

end Quoted

end Parley.Json
