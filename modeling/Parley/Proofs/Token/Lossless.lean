import Parley.Proofs.Token.Patterns

/-!
# Nothing is lost between tokens

The scan of a text passes over blanks and over the tokens that their patterns give, one after the
other (`Passes`), and ends in one of two ways: the rest is empty or begins with a hash, or it begins
with something that is neither a blank nor a hash and where no pattern fits. In the first case the
tokens passed are the result, in the second there is none.

So a text that is read consists of the texts of its tokens, of blanks before and after them, and of
a comment.
-/

namespace Parley.Token

open List
open Parley.Text

variable {cs rest : List Char} {ts : List Token} {s : String}

/-- From the text, a scan passes over these tokens and has the rest before it. -/
inductive Passes : List Char → List Token → List Char → Prop
  | done {cs : List Char} : Passes cs [] cs
  | blank {c : Char} {cs rest : List Char} {ts : List Token} (hc : isBlank c = true)
      (h : Passes cs ts rest) : Passes (c :: cs) ts rest
  | token {kind : Kind} {text after rest : List Char} {ts : List Token}
      (hfirst : First kind text after) (h : Passes after ts rest) :
      Passes (text ++ after) (⟨kind, String.ofList text⟩ :: ts) rest

/-- There is nothing more to read: the text has ended, or the rest of it is a comment. -/
def Finished (rest : List Char) : Prop :=
  rest = [] ∨ ∃ more, rest = '#' :: more

/-- Here the scan cannot go on: something stands here that is neither a blank nor a hash, and no
pattern fits. -/
def Stuck (rest : List Char) : Prop :=
  ∃ c more, rest = c :: more ∧ isBlank c = false ∧ c ≠ '#' ∧ ∀ kind, ¬ FitsAt kind rest

/-! ### One scan -/

theorem skipBlanks_of_not {c : Char} (hc : isBlank c = false) (cs : List Char) :
    skipBlanks (c :: cs) = c :: cs :=
  dropWhile_cons_of_neg (by simp [hc])

/-- One step: the token in front is the first of the result. -/
theorem scanFrom_token {kind : Kind} {text after : List Char} (hfirst : First kind text after) :
    scanFrom (skipBlanks (text ++ after)) =
      (scanFrom (skipBlanks after)).map (⟨kind, String.ofList text⟩ :: ·) := by
  obtain ⟨c, cs, rfl, hblank, hhash⟩ := hfirst.fits.head
  obtain ⟨more, hlex, htext, hafter⟩ :=
    lexeme?_eq_some_iff.mpr ⟨(cons_append : c :: cs ++ after = c :: (cs ++ after)).symm, hfirst⟩
  rw [cons_append, skipBlanks_of_not hblank, scanFrom, if_neg (by simpa using hhash), hlex]
  dsimp only
  rw [← htext, ← hafter]
  cases scanFrom (skipBlanks after) with
  | ok ts | error f => rfl

/-- **What has been passed stands in front of the result.** -/
theorem Passes.scanFrom_eq (h : Passes cs ts rest) :
    scanFrom (skipBlanks cs) = (scanFrom (skipBlanks rest)).map (ts ++ ·) := by
  induction h with
  | @done cs =>
    cases scanFrom (skipBlanks cs) with
    | ok ts | error f => rfl
  | @blank c cs rest ts hc h ih =>
    rw [skipBlanks, dropWhile_cons_of_pos hc]
    exact ih
  | @token kind text after rest ts hfirst h ih =>
    rw [scanFrom_token hfirst, ih]
    cases scanFrom (skipBlanks rest) with
    | ok ts | error f => rfl

theorem Finished.scanFrom_eq (h : Finished rest) : scanFrom (skipBlanks rest) = .ok [] := by
  rcases h with rfl | ⟨more, rfl⟩
  · exact scans_nil
  · rw [skipBlanks_of_not (by decide), scanFrom, if_pos (by decide)]

theorem Stuck.scanFrom_eq (h : Stuck rest) :
    scanFrom (skipBlanks rest) = .error (.unrecognized (String.ofList (rest.take 20))) := by
  obtain ⟨c, more, rfl, hblank, hhash, hnone⟩ := h
  rw [skipBlanks_of_not hblank, scanFrom, if_neg (by simpa using hhash),
    lexeme?_eq_none_iff.mpr hnone]

/-- **Every scan comes to an end.** -/
theorem exists_passes (cs : List Char) : ∃ ts rest, Passes cs ts rest ∧ (Finished rest ∨ Stuck rest) := by
  -- The induction is on the length: a blank is one character, and a token is at least one.
  induction hn : cs.length using Nat.strongRecOn generalizing cs with
  | ind n ih =>
    subst hn
    cases cs with
    | nil => exact ⟨[], [], .done, .inl (.inl rfl)⟩
    | cons c cs =>
      by_cases hblank : isBlank c = true
      · obtain ⟨ts, rest, hpasses, hend⟩ := ih cs.length (Nat.lt_succ_self _) cs rfl
        exact ⟨ts, rest, hpasses.blank hblank, hend⟩
      by_cases hhash : c = '#'
      · exact ⟨[], c :: cs, .done, .inl (.inr ⟨cs, by rw [hhash]⟩)⟩
      cases hlex : lexeme? c cs with
      | none =>
        have hnone := lexeme?_eq_none_iff.mp hlex
        exact ⟨[], c :: cs, .done, .inr ⟨c, cs, rfl, by simpa using hblank, hhash, hnone⟩⟩
      | some read =>
        obtain ⟨kind, more⟩ := read
        obtain ⟨hsplit, hfirst⟩ := lexeme?_eq_some_iff.mp ⟨more, hlex, rfl, rfl⟩
        have hshorter : (cs.drop more).length < (c :: cs).length := by
          rw [length_drop, length_cons]
          omega
        obtain ⟨ts, rest, hpasses, hend⟩ := ih _ hshorter _ rfl
        rw [hsplit]
        exact ⟨_, rest, hpasses.token hfirst, hend⟩

/-! ### What has been passed -/

/-- The texts of the tokens, each with what stands after it. -/
def laidOut (ts : List Token) (gaps : List (List Char)) : List Char :=
  (zipWith (fun t gap => t.text.toList ++ gap) ts gaps).flatten

/-- What has been passed is the texts of the tokens and blanks. -/
theorem Passes.eq_laidOut (h : Passes cs ts rest) :
    ∃ gap gaps, cs = gap ++ laidOut ts gaps ++ rest ∧ gaps.length = ts.length ∧
      ∀ g ∈ gap :: gaps, ∀ c ∈ g, isBlank c = true := by
  induction h with
  | done => exact ⟨[], [], rfl, rfl, by simp⟩
  | @blank c cs rest ts hc h ih =>
    obtain ⟨gap, gaps, hcs, hlength, hblank⟩ := ih
    obtain ⟨hgap, hgaps⟩ := forall_mem_cons.mp hblank
    refine ⟨c :: gap, gaps, by rw [hcs]; rfl, hlength, ?_⟩
    exact forall_mem_cons.mpr ⟨forall_mem_cons.mpr ⟨hc, hgap⟩, hgaps⟩
  | @token kind text after rest ts hfirst h ih =>
    obtain ⟨gap, gaps, hafter, hlength, hblank⟩ := ih
    refine ⟨[], gap :: gaps, ?_, by simp [hlength], ?_⟩
    · rw [hafter]
      simp [laidOut]
    · exact forall_mem_cons.mpr ⟨by simp, hblank⟩

theorem Passes.text_ne_empty (h : Passes cs ts rest) : ∀ t ∈ ts, t.text ≠ "" := by
  induction h with
  | done => simp
  | blank hc h ih => exact ih
  | @token kind text after rest ts hfirst h ih =>
    obtain ⟨c, cs, rfl, -⟩ := hfirst.fits.head
    refine forall_mem_cons.mpr ⟨?_, ih⟩
    intro hempty
    have hlist := congrArg String.toList hempty
    rw [String.toList_ofList] at hlist
    cases hlist

/-! ### The result of a scan -/

theorem scan_of_finished (h : Passes s.toList ts rest) (hend : Finished rest) :
    scan s = .ok ts := by
  rw [scan, h.scanFrom_eq, hend.scanFrom_eq]
  exact congrArg Except.ok (append_nil ts)

theorem scan_of_stuck (h : Passes s.toList ts rest) (hend : Stuck rest) :
    scan s = .error (.unrecognized (String.ofList (rest.take 20))) := by
  rw [scan, h.scanFrom_eq, hend.scanFrom_eq]
  rfl

theorem scan_eq_ok_iff_passes :
    scan s = .ok ts ↔ ∃ rest, Passes s.toList ts rest ∧ Finished rest := by
  constructor
  · intro h
    obtain ⟨ts', rest, hpasses, hend | hend⟩ := exists_passes s.toList
    · rw [scan_of_finished hpasses hend] at h
      cases h
      exact ⟨rest, hpasses, hend⟩
    · rw [scan_of_stuck hpasses hend] at h
      cases h
  · rintro ⟨rest, hpasses, hend⟩
    exact scan_of_finished hpasses hend

theorem scan_eq_error_iff_passes {f : Fault} :
    scan s = .error f ↔ ∃ ts rest, Passes s.toList ts rest ∧ Stuck rest ∧
      f = .unrecognized (String.ofList (rest.take 20)) := by
  constructor
  · intro h
    obtain ⟨ts, rest, hpasses, hend | hend⟩ := exists_passes s.toList
    · rw [scan_of_finished hpasses hend] at h
      cases h
    · rw [scan_of_stuck hpasses hend] at h
      exact ⟨ts, rest, hpasses, hend, (Except.error.inj h).symm⟩
  · rintro ⟨ts, rest, hpasses, hend, rfl⟩
    exact scan_of_stuck hpasses hend

/-- A name that is read is no keyword. -/
theorem not_keyword_of_scan (h : scan s = .ok ts) {t : Token} (ht : t ∈ ts) (hkind : t.kind = .name) :
    t.text ∉ ["let", "import", "help", "exit", "try", "if", "then", "else"] := by
  have hfree := (Readable.isName ⟨s, ts, h, ht⟩ hkind).free
  have hall : ∀ word ∈ ["let", "import", "help", "exit", "try", "if", "then", "else"],
      keywords.lookup word.toList ≠ none := by decide
  intro hmem
  exact hall t.text hmem hfree

/-- **Scanning is lossless.** A scan passes over blanks and tokens until it has finished or is stuck,
and one of the two always comes to pass. If it has finished, the tokens passed are the result; if it
is stuck, the fault shows the text from there. A text that is read consists of blanks, of the texts
of its tokens, none of them empty, with blanks after each, and of nothing else but a comment; and no
name among the tokens is a keyword. -/
theorem scan_lossless (s : String) :
    (∃ ts rest, Passes s.toList ts rest ∧ (Finished rest ∨ Stuck rest)) ∧
    (∀ ts, scan s = .ok ts ↔ ∃ rest, Passes s.toList ts rest ∧ Finished rest) ∧
    (∀ f, scan s = .error f ↔ ∃ ts rest, Passes s.toList ts rest ∧ Stuck rest ∧
      f = .unrecognized (String.ofList (rest.take 20))) ∧
    ∀ ts, scan s = .ok ts → (∀ t ∈ ts, t.text ≠ "") ∧
      (∃ gap gaps rest, s.toList = gap ++ laidOut ts gaps ++ rest ∧ gaps.length = ts.length ∧
        (∀ g ∈ gap :: gaps, ∀ c ∈ g, isBlank c = true) ∧ (rest = [] ∨ rest.head? = some '#')) ∧
      ∀ t ∈ ts, t.kind = .name →
        t.text ∉ ["let", "import", "help", "exit", "try", "if", "then", "else"] := by
  refine ⟨exists_passes s.toList, fun _ => scan_eq_ok_iff_passes, fun _ => scan_eq_error_iff_passes,
    ?_⟩
  intro ts h
  obtain ⟨rest, hpasses, hend⟩ := scan_eq_ok_iff_passes.mp h
  obtain ⟨gap, gaps, hsplit, hlength, hblank⟩ := hpasses.eq_laidOut
  have hrest : rest = [] ∨ rest.head? = some '#' := by
    rcases hend with rfl | ⟨more, rfl⟩
    · exact .inl rfl
    · exact .inr rfl
  exact ⟨hpasses.text_ne_empty, ⟨gap, gaps, rest, hsplit, hlength, hblank, hrest⟩,
    fun t ht hkind => not_keyword_of_scan h ht hkind⟩

/-- A keyword that goes on is a name, and the quote after a backslash ends the text as no other
follows. -/
theorem scan_lossless_letter :
    scan " letter=\"a\\\"# b" = .ok [⟨.name, "letter"⟩, ⟨.operator, "="⟩, ⟨.text, "\"a\\\""⟩] ∧
      ∃ gap gaps rest, " letter=\"a\\\"# b".toList = gap ++ laidOut
          [⟨.name, "letter"⟩, ⟨.operator, "="⟩, ⟨.text, "\"a\\\""⟩] gaps ++ rest ∧
        gaps.length = 3 ∧ (∀ g ∈ gap :: gaps, ∀ c ∈ g, isBlank c = true) ∧
        (rest = [] ∨ rest.head? = some '#') := by
  have hread : (scan " letter=\"a\\\"# b").toOption =
      some [⟨.name, "letter"⟩, ⟨.operator, "="⟩, ⟨.text, "\"a\\\""⟩] := by decide +kernel
  cases hscan : scan " letter=\"a\\\"# b" with
  | error f =>
    rw [hscan] at hread
    cases hread
  | ok ts =>
    rw [hscan] at hread
    cases hread
    exact ⟨rfl, ((scan_lossless _).2.2.2 _ hscan).2.1⟩

end Parley.Token
