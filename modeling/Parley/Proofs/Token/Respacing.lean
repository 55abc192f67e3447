import Parley.Proofs.Token.Lossless

/-!
# Tokens set apart

Take the tokens of a text and write them down again with blanks between them. Which tokens are read
now? Where a token ends depends on what follows it, and this has changed in two ways. A blank
follows at once, or nothing does; and a text in quotes, which goes on beyond a quote after a
backslash as long as a later quote can end it, has other characters after it.

Only one token is sensitive to this. An equals sign with a blank after it assigns, even if it was an
operator before, as in `a="b"`. Every other token is read again as it was: blanks stop names,
numbers and operators, keywords may stand before them, and after a text in quotes there are no
quotes but those of tokens that followed it before.
-/

namespace Parley.Token

open List
open Parley.Text

variable {cs body tail cs' : List Char} {c : Char} {kind : Kind} {s : String}

/-- The equals sign as an operator. -/
def equalsOperator : Token :=
  ⟨.operator, "="⟩

/-- What a token is read as when a blank follows it. -/
def setApart (t : Token) : Token :=
  if t = equalsOperator then ⟨.eq, "="⟩ else t

theorem setApart_of_ne {t : Token} (h : t ≠ equalsOperator) : setApart t = t :=
  if_neg h

theorem text_setApart (t : Token) : (setApart t).text = t.text := by
  unfold setApart
  split
  · next h => rw [h, equalsOperator]
  · rfl

theorem map_setApart_eq_iff {ts : List Token} : ts.map setApart = ts ↔ equalsOperator ∉ ts := by
  have hiff : ts.map setApart = ts ↔ ∀ t ∈ ts, setApart t = t := by
    simpa using map_inj_left (g := id)
  rw [hiff]
  constructor
  · intro h hmem
    have hkind := congrArg kind (h _ hmem)
    cases hkind
  · intro h t ht
    exact setApart_of_ne (ne_of_mem_of_not_mem ht h)

/-! ### What follows a token -/

/-- A token ends here: a blank follows, or nothing. -/
def Parted (cs : List Char) : Prop :=
  ∀ c more, cs = c :: more → isBlank c = true

/-- What is not a blank does not follow. -/
theorem Parted.ends (h : Parted cs) {p : Char → Bool} (hp : ∀ c, p c = true → isBlank c = false) :
    ∀ c more, cs = c :: more → p c = false := by
  intro c more hcs
  rw [Bool.eq_false_iff]
  intro hc
  have hblank := h c more hcs
  rw [hp c hc] at hblank
  cases hblank

theorem Parted.assigns (h : Parted cs) : assigns cs = true :=
  assigns_iff.mpr fun c more hcs => .inr (h c more hcs)

theorem Parted.endsWord (h : Parted cs) : endsWord cs = true :=
  endsWord_iff.mpr (h.ends fun _ => isBlank_of_isWord)

theorem Parted.digits_end (h : Parted cs) : ∀ c more, cs = c :: more → c.isDigit = false :=
  h.ends fun _ hc => (special_of_isNamePart (isNamePart_of_isDigit hc)).1

/-! ### One token -/

theorem Quotable.of_not_mem (h : '"' ∉ cs) : Quotable cs := by
  induction cs with
  | nil => exact .nil
  | cons c cs ih =>
    obtain ⟨hc, hcs⟩ := not_or.mp fun h' => h (mem_cons.mpr h')
    exact .plain (Ne.symm hc) (ih hcs)

theorem Quotable.append (h : Quotable cs) (h' : Quotable cs') : Quotable (cs ++ cs') := by
  induction h with
  | nil => exact h'
  | escaped h ih => exact .escaped ih
  | plain hc h ih => exact .plain hc ih

/-- A quote can only stand inside a text if a backslash stands before it. -/
theorem Quotable.exists_backslash (h : Quotable (body ++ '"' :: tail)) :
    ∃ front, body = front ++ ['\\'] ∧ Quotable front := by
  generalize hcs : body ++ '"' :: tail = cs at h
  induction h generalizing body with
  | nil => simp at hcs
  | @escaped cs hquotable ih =>
    cases body with
    | nil => exact absurd (List.cons.inj hcs).1 (by decide)
    | cons c body =>
      obtain ⟨rfl, hmore⟩ := List.cons.inj hcs
      cases body with
      | nil => exact ⟨[], rfl, .nil⟩
      | cons d body =>
        obtain ⟨rfl, hrest⟩ := List.cons.inj hmore
        obtain ⟨front, rfl, hfront⟩ := ih hrest
        exact ⟨_, rfl, hfront.escaped⟩
  | @plain c cs hc hquotable ih =>
    cases body with
    | nil => exact absurd (List.cons.inj hcs).1.symm hc
    | cons d body =>
      obtain ⟨rfl, hrest⟩ := List.cons.inj hcs
      obtain ⟨front, rfl, hfront⟩ := ih hrest
      exact ⟨_, rfl, hfront.plain hc⟩

/-- Whether a quote can stand inside a text does not depend on what comes after it. -/
theorem Quotable.exchange {tail' : List Char} (h : Quotable (body ++ '"' :: tail))
    (htail' : '"' ∉ tail') : Quotable (body ++ '"' :: tail') := by
  obtain ⟨front, rfl, hfront⟩ := h.exists_backslash
  rw [append_assoc]
  exact hfront.append (.escaped (.of_not_mem htail'))

section Apart

variable {text after after' : List Char} (hafter' : Parted after')

include hafter'

theorem first_name_apart (h : IsName text) : First .name text after' := by
  have hends : ∀ c more, after' = c :: more → isNamePart c = false :=
    hafter'.ends fun _ hc => (special_of_isNamePart hc).1
  have hkey : keyword? (text ++ after') keywords = none := by
    refine keyword?_eq_none_iff.mpr ?_
    rintro ⟨word, kind⟩ hword ⟨hfront, hend⟩
    obtain rfl := eq_of_isPrefix_of_endsWord (isNamePart_of_mem_keywords hword) h.isNamePart hends
      hfront hend
    exact absurd (lookup_eq_none_iff.mp h.free _ hword) (by simp)
  obtain ⟨c, more, rfl, hc, hmore⟩ := h.form
  obtain ⟨htake, hdrop⟩ := takeWhile_eq_of_ends hmore hends
  have hfirst : First .name (c :: (more ++ after').takeWhile isNamePart)
      ((more ++ after').dropWhile isNamePart) := first_name hc hkey
  rwa [htake, hdrop] at hfirst

/-- An operator other than the equals sign does not assign, as the character after its first one is
an operator's, too. -/
theorem first_operator_apart (h : ∀ d ∈ c :: cs, isOperatorChar d = true) (hne : c :: cs ≠ ['=']) :
    First .operator (c :: cs) after' := by
  obtain ⟨hc, hcs⟩ := forall_mem_cons.mp h
  have hassigns : (c == '=' && assigns (cs ++ after')) = false := by
    rw [Bool.and_eq_false_imp, beq_iff_eq]
    rintro rfl
    cases cs with
    | nil => exact absurd rfl hne
    | cons d cs =>
      obtain ⟨hblank, -, hword, -⟩ := special_of_isOperatorChar (hcs d mem_cons_self)
      rw [cons_append, assigns, hword, hblank]
      rfl
  obtain ⟨htake, hdrop⟩ := takeWhile_eq_of_ends hcs
    (hafter'.ends fun _ hd => (special_of_isOperatorChar hd).1)
  have hfirst := first_operator hc hassigns
  rwa [htake, hdrop] at hfirst

theorem first_integer_apart (h : IsDigits text) : First .integer text after' := by
  obtain ⟨c, cs, rfl⟩ := exists_cons_of_ne_nil h.1
  obtain ⟨hc, hcs⟩ := forall_mem_cons.mp h.2
  obtain ⟨htake, hdrop⟩ := takeWhile_eq_of_ends hcs hafter'.digits_end
  have hfirst : First .integer (c :: (cs ++ after').takeWhile Char.isDigit)
      ((cs ++ after').dropWhile Char.isDigit) := by
    refine first_integer hc fun fraction more _ _ hpoint => ?_
    rw [hdrop] at hpoint
    exact absurd (hafter' _ _ hpoint) (by decide)
  rwa [htake, hdrop] at hfirst

theorem first_decimal_apart {whole fraction : List Char} (hwhole : IsDigits whole)
    (hfraction : IsDigits fraction) : First .decimal (whole ++ '.' :: fraction) after' := by
  obtain ⟨c, cs, rfl⟩ := exists_cons_of_ne_nil hwhole.1
  obtain ⟨hc, hcs⟩ := forall_mem_cons.mp hwhole.2
  have hpoint (d : Char) (more : List Char) (h : '.' :: (fraction ++ after') = d :: more) :
      d.isDigit = false := by
    cases h
    rfl
  obtain ⟨htake, hdrop⟩ := takeWhile_eq_of_ends hcs hpoint
  obtain ⟨htake', hdrop'⟩ := takeWhile_eq_of_ends hfraction.2 hafter'.digits_end
  have hfirst := first_decimal hc hdrop (by rw [htake']; exact hfraction.1)
  rwa [htake, htake', hdrop'] at hfirst

omit hafter' in
/-- A text in quotes ends at the same quote if no quotes come after it where none did before. -/
theorem first_text_apart (h : First .text ('"' :: body ++ ['"']) after) (hbody : Quotable body)
    (hquote : '"' ∈ after' → '"' ∈ after) :
    First .text ('"' :: body ++ ['"']) after' := by
  refine first_text hbody fun body' more hsplit hbody' => ?_
  by_contra hlonger
  -- The longer text takes the closing quote in. Then it could have been taken in before, too.
  obtain ⟨tail, rfl, htail⟩ : ∃ tail, body' = body ++ '"' :: tail ∧ '"' ∈ after' := by
    rcases append_eq_append_iff.mp hsplit with ⟨tail, rfl, hcs⟩ | ⟨tail, rfl, -⟩
    · cases tail with
      | nil => exact absurd (by simp) hlonger
      | cons c tail =>
        obtain ⟨rfl, rfl⟩ := cons.inj hcs
        exact ⟨tail, rfl, by simp⟩
    · exact absurd (by simp) hlonger
  obtain ⟨before, later, rfl, hbefore⟩ := eq_append_cons_of_mem (hquote htail)
  have hle := h.longest ('"' :: (body ++ '"' :: before) ++ ['"']) later (by simp)
    (.text (hbody'.exchange hbefore))
  simp only [length_append, length_cons, length_nil] at hle
  omega

omit hafter' in
/-- Signs are operators: a number that is read has none. -/
theorem First.unsigned {sign digits : List Char} (h : First kind (sign ++ digits) after)
    (hkind : kind ∈ [.decimal, .integer]) (hsign : IsSign sign) : sign = [] := by
  have hfits (c : Char) (hc : isOperatorChar c = true) (hs : sign = [c]) : False := by
    have hle := h.first .operator
      ⟨[c], digits ++ after, by simp [hs], .operator (by simpa using hc)⟩
    exact absurd (Nat.le_trans (rank_number hkind) hle) (by decide)
  rcases hsign with hs | hs | hs
  · exact hs
  · exact (hfits '+' (by decide) hs).elim
  · exact (hfits '-' (by decide) hs).elim

/-- **Every token but the equals sign is read again before a blank**, if no quotes come after it
where none did before. -/
theorem First.apart (h : First kind text after) (hname : kind = .name → IsName text)
    (hne : (⟨kind, String.ofList text⟩ : Token) ≠ equalsOperator)
    (hquote : '"' ∈ after' → '"' ∈ after) : First kind text after' := by
  cases h.fits with
  | eq _ => exact first_eq hafter'.assigns
  | mark hmark => exact first_mark hmark after'
  | keyword hword _ => exact first_keyword hword hafter'.endsWord
  | name _ _ => exact first_name_apart hafter' (hname rfl)
  | operator hop =>
    refine first_operator_apart hafter' hop fun heq => hne ?_
    rw [heq]
    rfl
  | text hbody => exact first_text_apart h hbody hquote
  | @decimal sign whole fraction _ hsign hwhole hfraction =>
    rw [append_assoc] at h ⊢
    rw [h.unsigned (by decide) hsign]
    exact first_decimal_apart hafter' hwhole hfraction
  | @integer sign digits _ hsign hdigits =>
    rw [h.unsigned (by decide) hsign]
    exact first_integer_apart hafter' hdigits

end Apart

variable {ts : List Token} {rest : List Char} {t : Token}

/-! ### Many tokens -/

/-- The text consists of the texts of these tokens with one or more blanks between any two, and with
blanks before and after them at will. -/
inductive Apart : List Token → List Char → Prop
  | done : Apart [] []
  | blank {c : Char} {ts : List Token} {cs : List Char} (hc : isBlank c = true) (h : Apart ts cs) :
      Apart ts (c :: cs)
  | token {t : Token} {ts : List Token} {cs : List Char} (hcs : Parted cs) (h : Apart ts cs) :
      Apart (t :: ts) (t.text.toList ++ cs)

/-- What is not a blank belongs to a token. -/
theorem Apart.mem_text (h : Apart ts cs) (hc : c ∈ cs) (hblank : isBlank c = false) :
    ∃ t ∈ ts, c ∈ t.text.toList := by
  induction h with
  | done => cases hc
  | blank hd h ih =>
    rcases mem_cons.mp hc with rfl | hc
    · rw [hblank] at hd
      cases hd
    · exact ih hc
  | @token t ts cs hcs h ih =>
    rcases mem_append.mp hc with hc | hc
    · exact ⟨t, mem_cons_self, hc⟩
    · obtain ⟨t', ht', hmem⟩ := ih hc
      exact ⟨t', mem_cons_of_mem _ ht', hmem⟩

theorem Passes.mem_of_text (h : Passes cs ts rest) (ht : t ∈ ts) (hc : c ∈ t.text.toList) :
    c ∈ cs := by
  induction h with
  | done => cases ht
  | blank hd h ih => exact mem_cons_of_mem _ (ih ht)
  | @token kind text after rest ts hfirst h ih =>
    rcases mem_cons.mp ht with rfl | ht
    · rw [String.toList_ofList] at hc
      exact mem_append_left _ hc
    · exact mem_append_right _ (ih ht)

/-- The first token that is passed, with blanks before it, and the others. -/
theorem Passes.exists_first (h : Passes cs (t :: ts) rest) :
    ∃ gap after, cs = gap ++ t.text.toList ++ after ∧ (∀ c ∈ gap, isBlank c = true) ∧
      First t.kind t.text.toList after ∧ Passes after ts rest := by
  generalize hts : t :: ts = all at h
  induction h with
  | done => cases hts
  | @blank c cs rest all hc h ih =>
    obtain ⟨gap, after, rfl, hgap, hfirst, hpasses⟩ := ih hts
    exact ⟨c :: gap, after, rfl, forall_mem_cons.mpr ⟨hc, hgap⟩, hfirst, hpasses⟩
  | @token kind text after rest ts' hfirst h ih =>
    cases hts
    rw [String.toList_ofList]
    exact ⟨[], after, rfl, by simp, hfirst, h⟩

theorem Passes.readable (h : Passes cs ts []) (ht : t ∈ ts) : t.Readable :=
  ⟨String.ofList cs, ts, scan_of_finished (by rwa [String.toList_ofList]) (.inl rfl), ht⟩

/-- **Which tokens are read when they are set apart.** -/
theorem Passes.apart (h : Passes cs ts []) (hapart : Apart ts cs') :
    Passes cs' (ts.map setApart) [] := by
  induction hapart generalizing cs with
  | done => exact .done
  | blank hc hapart ih => exact (ih h).blank hc
  | @token t ts cs' hcs' hapart ih =>
    obtain ⟨-, after, -, -, hfirst, hpasses⟩ := h.exists_first
    have hquote (hmem : '"' ∈ cs') : '"' ∈ after := by
      obtain ⟨t', ht', hc⟩ := hapart.mem_text hmem (by decide)
      exact hpasses.mem_of_text ht' hc
    have hread : First (setApart t).kind t.text.toList cs' := by
      by_cases hequals : t = equalsOperator
      · rw [hequals]
        exact first_eq hcs'.assigns
      · rw [setApart_of_ne hequals]
        refine hfirst.apart hcs' (h.readable mem_cons_self).isName ?_ hquote
        rwa [String.ofList_toList]
    have hsame : setApart t = ⟨(setApart t).kind, String.ofList t.text.toList⟩ := by
      rw [String.ofList_toList, ← text_setApart t]
    rw [map_cons, hsame]
    exact (ih hpasses).token hread

/-! ### Single spaces -/

/-- The texts of the tokens with single spaces between them. -/
def spaced (ts : List Token) : String :=
  joinWith " " (ts.map Token.text)

theorem apart_spaced (ts : List Token) : Apart ts (spaced ts).toList := by
  induction ts with
  | nil => exact .done
  | cons t ts ih =>
    cases ts with
    | nil =>
      have hlast : Apart [t] (t.text.toList ++ []) := .token (fun _ _ h => nomatch h) .done
      rw [append_nil] at hlast
      rwa [spaced]
    | cons t' ts =>
      have hjoin : (spaced (t :: t' :: ts)).toList =
          t.text.toList ++ ' ' :: (spaced (t' :: ts)).toList := by
        rw [spaced, joinWith, map_cons, map_cons, String.intercalate_cons_cons,
          String.toList_append, String.toList_append, append_assoc]
        rfl
      rw [hjoin]
      refine .token ?_ (ih.blank (by decide))
      rintro c more ⟨⟩
      decide

/-! ### The result of a scan -/

/-- The scan of the text comes to a comment. -/
def ReachesComment (s : String) : Prop :=
  ∃ ts more, Passes s.toList ts ('#' :: more)

theorem passes_of_scan (h : scan s = .ok ts) (hcomment : ¬ ReachesComment s) :
    Passes s.toList ts [] := by
  obtain ⟨rest, hpasses, rfl | ⟨more, rfl⟩⟩ := scan_eq_ok_iff_passes.mp h
  · exact hpasses
  · exact absurd ⟨ts, more, hpasses⟩ hcomment

theorem not_reachesComment (h : '#' ∉ s.toList) : ¬ ReachesComment s := by
  rintro ⟨ts, more, hpasses⟩
  obtain ⟨gap, gaps, hsplit, -⟩ := hpasses.eq_laidOut
  exact h (by simp [hsplit])

/-- **Only the equals sign is changed by blanks.** If a text without a comment is read, then from
the texts of its tokens with single spaces between them the same tokens are read, but every operator
`=` has become the equals sign of an assignment; and the same holds for all other blanks between
them. So blanks make no difference if and only if there is no such operator. -/
theorem scan_respaced {s : String} {ts : List Token} (h : scan s = .ok ts)
    (hcomment : ¬ ReachesComment s) :
    scan (spaced ts) = .ok (ts.map setApart) ∧
    (scan (spaced ts) = scan s ↔ equalsOperator ∉ ts) ∧
    ∀ s' : String, Apart ts s'.toList →
      scan s' = .ok (ts.map setApart) ∧ (scan s' = scan s ↔ equalsOperator ∉ ts) := by
  have hpasses := passes_of_scan h hcomment
  have hall (s' : String) (hapart : Apart ts s'.toList) :
      scan s' = .ok (ts.map setApart) ∧ (scan s' = scan s ↔ equalsOperator ∉ ts) := by
    have hscan := scan_of_finished (hpasses.apart hapart) (.inl rfl)
    refine ⟨hscan, ?_⟩
    rw [hscan, h, Except.ok.injEq]
    exact map_setApart_eq_iff
  obtain ⟨hscan, hsame⟩ := hall (spaced ts) (apart_spaced ts)
  exact ⟨hscan, hsame, hall⟩

/-- The equals sign before a quote is an operator, and assigns when it is set apart; the text that
ends after a backslash is read again as it was. -/
theorem scan_respaced_quote :
    scan "x=\"a\\\"+b" = .ok [⟨.name, "x"⟩, ⟨.operator, "="⟩, ⟨.text, "\"a\\\""⟩, ⟨.operator, "+"⟩,
      ⟨.name, "b"⟩] ∧ ¬ ReachesComment "x=\"a\\\"+b" ∧
    scan "x = \"a\\\" + b" = .ok [⟨.name, "x"⟩, ⟨.eq, "="⟩, ⟨.text, "\"a\\\""⟩, ⟨.operator, "+"⟩,
      ⟨.name, "b"⟩] := by
  have hread : (scan "x=\"a\\\"+b").toOption = some [⟨.name, "x"⟩, ⟨.operator, "="⟩,
      ⟨.text, "\"a\\\""⟩, ⟨.operator, "+"⟩, ⟨.name, "b"⟩] := by decide +kernel
  have hcomment : ¬ ReachesComment "x=\"a\\\"+b" := not_reachesComment (by decide)
  cases hscan : scan "x=\"a\\\"+b" with
  | error f =>
    rw [hscan] at hread
    cases hread
  | ok ts =>
    rw [hscan] at hread
    cases hread
    exact ⟨rfl, hcomment, (scan_respaced hscan hcomment).1⟩

end Parley.Token
