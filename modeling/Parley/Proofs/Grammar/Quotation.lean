import Parley.Proofs.Grammar.Operations
import Parley.Proofs.Token.Respacing

/-!
# Texts in quotes, shown and read again

Which texts are read again from what they are shown as? A text without quotes is one token when it
is shown, and then it only depends on what the token stands for (`unquote_quotedText_iff`).

A text with a quote is lost in any case. If the token goes beyond the quote, a backslash stands
before it, and this is dropped; and if the token ends there, what it stands for is too short, and
nothing but one token is ever read as a text.
-/

namespace Parley.Grammar

open List
open Parley.Token

/-! ### Quotes -/

variable {cs : List Char} {s : String} {ts : List Token}

theorem escaped_append (cs cs' : List Char) : escaped (cs ++ cs') = escaped cs ++ escaped cs' :=
  flatMap_append

/-- A quote in a text that is shown is a quote of the text. -/
theorem exists_quote_of_escaped {body after : List Char} (h : escaped cs = body ++ '"' :: after) :
    ∃ before later, cs = before ++ '"' :: later ∧ escaped before = body := by
  induction cs generalizing body with
  | nil => simp [escaped] at h
  | cons c cs ih =>
    rw [escaped_cons] at h
    by_cases hline : c = '\n'
    · rw [if_pos hline] at h
      obtain ⟨more, rfl, hmore⟩ : ∃ more, body = '\\' :: 'n' :: more ∧
          escaped cs = more ++ '"' :: after := by
        cases body with
        | nil => exact absurd (List.cons.inj h).1 (by decide)
        | cons d body =>
          obtain ⟨rfl, h'⟩ := List.cons.inj h
          cases body with
          | nil => exact absurd (List.cons.inj h').1 (by decide)
          | cons d body =>
            obtain ⟨rfl, h''⟩ := List.cons.inj h'
            exact ⟨body, rfl, h''⟩
      obtain ⟨before, later, rfl, rfl⟩ := ih hmore
      exact ⟨c :: before, later, rfl, by rw [escaped_cons, if_pos hline]; rfl⟩
    · rw [if_neg hline] at h
      cases body with
      | nil => exact ⟨[], cs, by rw [(List.cons.inj h).1]; rfl, rfl⟩
      | cons d body =>
        obtain ⟨rfl, h'⟩ := List.cons.inj h
        obtain ⟨before, later, rfl, rfl⟩ := ih h'
        exact ⟨c :: before, later, rfl, by rw [escaped_cons, if_neg hline]; rfl⟩

theorem not_mem_escaped (h : '"' ∉ cs) : '"' ∉ escaped cs := by
  intro hmem
  obtain ⟨body, after, hsplit⟩ := append_of_mem hmem
  obtain ⟨before, later, rfl, -⟩ := exists_quote_of_escaped hsplit
  exact h (by simp)

/-- A text that is shown ends with a backslash only if the text does. -/
theorem exists_backslash_of_escaped {front : List Char} (h : escaped cs = front ++ ['\\']) :
    ∃ before, cs = before ++ ['\\'] := by
  rcases eq_nil_or_concat' cs with rfl | ⟨before, c, rfl⟩
  · simp [escaped] at h
  · have hlast := congrArg List.getLast? h
    by_cases hline : c = '\n'
    · simp [escaped, hline] at hlast
    · exact ⟨before, by simpa [escaped, hline] using hlast⟩

/-- A text that keeps its backslashes, and is one token when it is shown, has no quotes. -/
theorem not_mem_of_quotable (hkept : BackslashesKept cs) (hquotable : Quotable (escaped cs)) :
    '"' ∉ cs := by
  intro hmem
  obtain ⟨before, later, rfl⟩ := append_of_mem hmem
  have hsplit : escaped (before ++ '"' :: later) = escaped before ++ '"' :: escaped later := by
    rw [escaped_append]
    rfl
  rw [hsplit] at hquotable
  obtain ⟨front, hfront, -⟩ := hquotable.exists_backslash
  obtain ⟨before, rfl⟩ := exists_backslash_of_escaped hfront
  rcases hkept before ('"' :: later) (by simp) with hnil | ⟨more, hmore⟩
  · cases hnil
  · exact absurd (List.cons.inj hmore).1 (by decide)

/-! ### The token -/

/-- The first token of a text that is shown is in quotes. -/
theorem exists_body_of_scan {t : Token} (h : scan (Constant.quotedText s) = .ok (t :: ts)) :
    ∃ body after, escaped s.toList ++ ['"'] = body ++ '"' :: after ∧ Quotable body ∧
      t.text.toList = '"' :: body ++ ['"'] := by
  obtain ⟨rest, hpasses, -⟩ := scan_eq_ok_iff_passes.mp h
  obtain ⟨gap, after, hsplit, hgap, hfirst, -⟩ := hpasses.exists_first
  rw [toList_quotedText] at hsplit
  obtain rfl : gap = [] := by
    cases gap with
    | nil => rfl
    | cons c gap =>
      have hblank := hgap c mem_cons_self
      rw [← (List.cons.inj hsplit).1] at hblank
      exact absurd hblank (by decide)
  have hkind : t.kind = .text := by
    rcases FitsAt.of_other ⟨_, after, hsplit, hfirst.fits⟩ (by decide) (by decide) with
      ⟨-, hc⟩ | ⟨-, hc⟩ | ⟨hkind, -⟩ | ⟨-, hc⟩
    · cases hc
    · cases hc
    · exact hkind
    · exact absurd hc (by decide)
  have hfits := hfirst.fits
  rw [hkind] at hfits
  generalize t.text.toList = text at hfits hsplit ⊢
  cases hfits with
  | mark hmark => exact absurd (by simp) (mark?_ne hmark).1
  | keyword hword _ => exact absurd (by simp) (keyword_ne hword)
  | @text body _ hbody => exact ⟨body, after, by simpa using hsplit, hbody, rfl⟩

/-- A text without quotes is one token when it is shown. -/
theorem scan_quotedText (h : '"' ∉ s.toList) :
    scan (Constant.quotedText s) = .ok [⟨.text, Constant.quotedText s⟩] := by
  have hnone := not_mem_escaped h
  have hfirst : First .text ('"' :: escaped s.toList ++ ['"']) [] := by
    refine first_text (.of_not_mem hnone) fun body after hsplit _ => ?_
    have hlength := congrArg length hsplit
    simp only [length_append, length_cons, length_nil] at hlength
    omega
  have hpasses : Passes (Constant.quotedText s).toList [⟨.text, Constant.quotedText s⟩] [] := by
    have hone := Passes.token hfirst (.done)
    rwa [append_nil, cons_append, ← toList_quotedText, String.ofList_toList] at hone
  exact scan_of_finished hpasses (.inl rfl)

/-! ### The tree -/

/-- A text is only made from one token. -/
theorem build_text {action : Action} {items : List Item}
    (h : (action.build items).result = .ok (.constant (.text s))) :
    ∃ t, items = [.token t] ∧ unquote t.text = s := by
  unfold Action.build at h
  split at h
  case h_1 t => exact ⟨t, rfl, Constant.text.inj (Expr.constant.inj (Except.ok.inj h))⟩
  case h_2 t =>
      obtain ⟨n, -, hn⟩ := Traced.result_bind_eq_ok_iff.mp h
      cases hn
  all_goals cases h

/-- A derivation of a text has one leaf. -/
theorem Derivation.leaves_text {p : Production} :
    (d : Derivation p (.constant (.text s))) → ∃ t, d.leaves = [t] ∧ unquote t.text = s
  | .via _ child => child.leaves_text
  | .parts _ children built => by
    obtain ⟨t, rfl, ht⟩ := build_text built
    cases children with
    | token _ rest =>
      cases rest with
      | nil => exact ⟨t, rfl, ht⟩

theorem tokens_of_parse_text (h : (parse ts).result = .ok (.constant (.text s))) :
    ∃ t, ts = [t] ∧ unquote t.text = s := by
  obtain ⟨d, ts', hts, hrest⟩ := (reads_of_parse h).derivation (yields_map_token ts)
  obtain rfl := hrest.eq_nil
  obtain ⟨t, hleaves, ht⟩ := d.leaves_text
  exact ⟨t, by rw [hts, hleaves]; rfl, ht⟩

/-- **Which texts are read again as they were shown**: those without quotes, and with backslashes
only at their end and before line feeds. -/
theorem parse_shown_text_iff (s : String) :
    (∃ text ts, (Expr.constant (.text s)).shown.result = .ok text ∧ scan text = .ok ts ∧
      (parse ts).result = .ok (.constant (.text s))) ↔
    '"' ∉ s.toList ∧ BackslashesKept s.toList := by
  constructor
  · rintro ⟨text, ts, hshown, hscan, hparse⟩
    cases hshown
    obtain ⟨t, rfl, ht⟩ := tokens_of_parse_text hparse
    obtain ⟨body, after, hsplit, hbody, htext⟩ := exists_body_of_scan hscan
    have hsame : unescaped body = s.toList := by rw [← toList_unquote htext, ht]
    rcases eq_nil_or_concat' after with rfl | ⟨after, c, rfl⟩
    · obtain rfl := (append_inj' hsplit rfl).1
      have hkept := unescaped_escaped_eq_self_iff.mp hsame
      exact ⟨not_mem_of_quotable hkept hbody, hkept⟩
    · -- The token ends at a quote of the text, and stands for less than the text before it.
      have hcut : escaped s.toList = body ++ '"' :: after := by
        rw [← cons_append, ← append_assoc] at hsplit
        exact (append_inj' hsplit rfl).1
      obtain ⟨before, later, hs, rfl⟩ := exists_quote_of_escaped hcut
      have hle := length_unescaped_escaped_le before
      rw [hsame, hs, length_append, length_cons] at hle
      omega
  · rintro ⟨hquote, hkept⟩
    have hscan := scan_quotedText hquote
    refine ⟨_, _, rfl, hscan, ?_⟩
    have hparse := parse_of_finds (operations_statement (.text (Constant.quotedText s)) [])
    rwa [operationTree, Operand.tree, unquote_quotedText_iff.mpr hkept] at hparse

end Parley.Grammar
