import Mathlib.Data.List.Chain
import Parley.Proofs.World.Voice

/-!
# The layout of help

Help is printed line by line, and every line of it is laid out on as many lines of the page as it
needs. A page is described by the words on its lines (`Help.Laid`): the words of the line are there in
their order, a line of the page is too long only if it holds a single word, and a word stands on a new
line only if there was no room for it on the line before. The lines are grown word by word
(`Help.grown`), and what is said about them is proved along that recursion.
-/

namespace Parley

open List

namespace Text

/-- The pieces between the separators, with separators between them, are the text. -/
theorem intercalate_cutAt (sep : Char) (cs : List Char) :
    intercalate [sep] (cutAt sep cs) = cs := by
  rw [cutAt_eq_splitOn]
  exact intercalate_splitOn sep

theorem not_mem_of_mem_cutAt {sep : Char} {cs p : List Char} (h : p ∈ cutAt sep cs) : sep ∉ p := by
  induction cs generalizing p with
  | nil => simp_all [cutAt]
  | cons c rest ih =>
    obtain ⟨q, qs, hcut⟩ := exists_cons_of_ne_nil (cutAt_ne_nil sep rest)
    rw [cutAt, hcut] at h
    rw [hcut] at ih
    split at h
    · rcases mem_cons.mp h with rfl | h
      · exact not_mem_nil
      · exact ih h
    · next hne =>
      rcases mem_cons.mp h with rfl | h
      · exact fun hmem => (mem_cons.mp hmem).elim (fun heq => hne heq.symm) (ih mem_cons_self)
      · exact ih (mem_cons_of_mem q h)

end Text

namespace Help

open Text (cutAt)

/-- A line of a page, from its words: each with the tabs in it as two blanks, and a blank after it. -/
def pageLine (words : List (List Char)) : List Char :=
  words.flatMap fun word => (word ++ [' ']).flatMap fun c => if c = '\t' then [' ', ' '] else [c]

/-- The page on which a line is laid out in a given width; its lines are given by their words. -/
structure Laid (width : Nat) (line : List Char) (page : List (List (List Char))) : Prop where
  /-- The words are the pieces between the blanks of the line. -/
  words : intercalate [' '] page.flatten = line ∧ ∀ word ∈ page.flatten, ' ' ∉ word
  joined : page.flatMap pageLine =
    (line.flatMap fun c => if c = '\t' then [' ', ' '] else [c]) ++ [' ']
  fits : ∀ words ∈ page, (pageLine words).length ≤ width ∨ ∃ word, words = [word]
  breaks : page.IsChain fun before after =>
    ∃ word rest, after = word :: rest ∧ width < (pageLine before).length + (pageLine [word]).length

/-! ### Growing a page -/

theorem expandTabs_eq (cs : List Char) :
    expandTabs cs = cs.flatMap fun c => if c = '\t' then [' ', ' '] else [c] := by
  induction cs with
  | nil => rfl
  | cons c cs ih =>
    rw [expandTabs, flatMap_cons, ih]
    split <;> rfl

theorem writtenWord_eq (word : List Char) : writtenWord word = pageLine [word] := by
  rw [writtenWord, expandTabs_eq, pageLine, flatMap_singleton]

theorem pageLine_append (words more : List (List Char)) :
    pageLine (words ++ more) = pageLine words ++ pageLine more :=
  flatMap_append

theorem flatMap_pageLine (page : List (List (List Char))) :
    page.flatMap pageLine = pageLine page.flatten := by
  induction page with
  | nil => rfl
  | cons words page ih => rw [flatMap_cons, flatten_cons, pageLine_append, ih]

/-- The page for a list of words, after those that stand on its first line already. -/
def grown (width : Nat) : List (List Char) → List (List Char) → List (List (List Char))
  | line, [] => [line]
  | line, word :: rest =>
    if (pageLine line).length + (pageLine [word]).length > width then
      line :: grown width [word] rest
    else grown width (line ++ [word]) rest

variable (width : Nat) (line words : List (List Char))

theorem wrapWords_eq_grown :
    wrapWords width (pageLine line) words = (grown width line words).map pageLine := by
  induction words generalizing line with
  | nil => rfl
  | cons word rest ih =>
    simp only [wrapWords, grown, writtenWord_eq]
    split
    · rw [map_cons, ih]
    · rw [← pageLine_append, ih]

theorem flatten_grown : (grown width line words).flatten = line ++ words := by
  induction words generalizing line with
  | nil => simp [grown]
  | cons word rest ih =>
    rw [grown]
    split
    · rw [flatten_cons, ih, singleton_append]
    · rw [ih, append_assoc, singleton_append]

/-- The first line of a page begins with the words that stand there already. -/
theorem exists_grown_eq_cons : ∃ more page, grown width line words = (line ++ more) :: page := by
  induction words generalizing line with
  | nil => exact ⟨[], [], by rw [grown, append_nil]⟩
  | cons word rest ih =>
    rw [grown]
    split
    · exact ⟨[], grown width [word] rest, by rw [append_nil]⟩
    · obtain ⟨more, page, h⟩ := ih (line ++ [word])
      exact ⟨word :: more, page, by rw [h, append_assoc, singleton_append]⟩

theorem fits_grown (hline : (pageLine line).length ≤ width ∨ ∃ word, line = [word]) :
    ∀ l ∈ grown width line words, (pageLine l).length ≤ width ∨ ∃ word, l = [word] := by
  induction words generalizing line with
  | nil => exact forall_mem_singleton.mpr hline
  | cons word rest ih =>
    rw [grown]
    split
    · exact forall_mem_cons.mpr ⟨hline, ih [word] (.inr ⟨word, rfl⟩)⟩
    · next hroom =>
      refine ih (line ++ [word]) (.inl ?_)
      rw [pageLine_append, length_append]
      exact Nat.le_of_not_gt hroom

/-- A line is ended only before a word that has no room on it. -/
theorem isChain_grown : (grown width line words).IsChain fun before after =>
    ∃ word rest, after = word :: rest ∧
      width < (pageLine before).length + (pageLine [word]).length := by
  induction words generalizing line with
  | nil => exact isChain_singleton line
  | cons word rest ih =>
    rw [grown]
    split
    · next hfull =>
      have hpage := ih [word]
      obtain ⟨more, page, h⟩ := exists_grown_eq_cons width [word] rest
      rw [h] at hpage ⊢
      exact isChain_cons_cons.mpr ⟨⟨word, more, rfl, hfull⟩, hpage⟩
    · exact ih (line ++ [word])

/-! ### Whole texts -/

/-- The words of a line, written one after the other, are the line and a blank. -/
theorem pageLine_of_words {words : List (List Char)} (h : words ≠ []) :
    pageLine words = ((intercalate [' '] words).flatMap fun c =>
      if c = '\t' then [' ', ' '] else [c]) ++ [' '] := by
  obtain ⟨word, rest, rfl⟩ := exists_cons_of_ne_nil h
  induction rest generalizing word with
  | nil => simp [pageLine]
  | cons next rest ih =>
    rw [show pageLine (word :: next :: rest) = pageLine [word] ++ pageLine (next :: rest) from
      pageLine_append [word] (next :: rest), ih next (cons_ne_nil next rest)]
    simp [pageLine]

/-- **A line is laid out** in the given width. -/
theorem laid_grown (line : List Char) : Laid width line (grown width [] (cutAt ' ' line)) where
  words := by
    rw [flatten_grown]
    exact ⟨Text.intercalate_cutAt ' ' line, fun _ => Text.not_mem_of_mem_cutAt⟩
  joined := by
    rw [flatMap_pageLine, flatten_grown, nil_append,
      pageLine_of_words (Text.cutAt_ne_nil ' ' line), Text.intercalate_cutAt]
  fits := fits_grown width [] _ (.inl (Nat.zero_le width))
  breaks := isChain_grown width [] _

theorem perform_forM_print (lines : List String) (w : World) :
    w.perform (lines.forM Act.print) = (.ok (), w.saying (String.join (lines.map (· ++ "\n")))) := by
  induction lines generalizing w with
  | nil => simp [World.saying]
  | cons line lines ih =>
    have hprint : w.perform (Act.print line) = (.ok (), w.saying (line ++ "\n")) := rfl
    refine (Act.perform_bind_ok hprint _).trans ?_
    rw [ih, World.saying_saying, map_cons, String.join_cons]

/-- **Help is laid out in the width of the console.** Whatever the text and the width are, what is
printed is the page of every line of the text, one after the other and line by line. The lines are what
stands between the line feeds, so there is at least one, also in an empty text. On the page of a line
its words stand in their order, with the tabs in them as two blanks and a blank after each, a line of
the page that is too long is a single word, and a line is ended only before a word for which it has no
room. -/
theorem printWrapped_laid (text : String) (w : World) :
    ∃ pages : List (List Char × List (List (List Char))),
      pages ≠ [] ∧ pages.map Prod.fst = cutAt '\n' text.toList ∧
      List.intercalate ['\n'] (pages.map Prod.fst) = text.toList ∧
      (∀ p ∈ pages, '\n' ∉ p.1 ∧ Laid w.console.width p.1 p.2) ∧
      w.perform (printWrapped text) =
        (.ok (), w.saying (String.join ((pages.flatMap Prod.snd).map fun words =>
          String.ofList (pageLine words) ++ "\n"))) := by
  let page (line : List Char) := grown w.console.width [] (cutAt ' ' line)
  let pages := (cutAt '\n' text.toList).map fun line => (line, page line)
  have hlines : pages.map Prod.fst = cutAt '\n' text.toList :=
    map_map.trans (map_id _)
  refine ⟨pages, ?_, hlines, ?_, ?_, ?_⟩
  · exact fun hnil => Text.cutAt_ne_nil '\n' text.toList (map_eq_nil_iff.mp hnil)
  · rw [hlines, Text.intercalate_cutAt]
  · intro p hp
    obtain ⟨line, hline, rfl⟩ := mem_map.mp hp
    exact ⟨Text.not_mem_of_mem_cutAt hline, laid_grown _ line⟩
  · have hline (line : List Char) : wrapLine w.console.width line = (page line).map pageLine :=
      wrapWords_eq_grown w.console.width [] (cutAt ' ' line)
    have hwrap : wrap w.console.width text = (pages.flatMap Prod.snd).map
        fun words => String.ofList (pageLine words) := by
      simp only [wrap, hline, pages, flatMap_map, map_flatMap, map_map]
      rfl
    refine (perform_forM_print _ w).trans ?_
    rw [hwrap, map_map]
    rfl

end Help

end Parley
