import Parley.Grammar.Basic
import Parley.Proofs.Text.Replacing

/-!
# What stands between quotes

A text is shown in quotes, with its line feeds written out as `\n`; quotes and backslashes in it
stay as they are. What stands between the quotes of a token goes through three passes: `\n` becomes
a line feed, `\t` a tab, and then a backslash before any other character than a line feed is
dropped. Which texts are what they were when they have been shown and have gone through the passes?

Each of the passes leaves a text as it is or makes it shorter (`Shrinks`). Showing a text does not
matter to the first one, as it takes back exactly what showing has put in (`replaced_escaped`). So a
text survives the passes only if each of them leaves it as it is; the last one does so only where
backslashes stand at the end or before line feeds, and then the other two have nothing to do.
-/

namespace Parley.Token

open List String
open Parley.Text

variable {c : Char} {cs : List Char}

/-! ### Showing -/

/-- A text with its line feeds written out. -/
def escaped (cs : List Char) : List Char :=
  cs.flatMap fun c => if c = '\n' then ['\\', 'n'] else [c]

theorem escaped_cons (c : Char) (cs : List Char) :
    escaped (c :: cs) = (if c = '\n' then ['\\', 'n'] else [c]) ++ escaped cs := rfl

theorem toList_quotedText (s : String) :
    (Constant.quotedText s).toList = '"' :: (escaped s.toList ++ ['"']) := by
  have hinner : (replaceAll "\n" "\\n" s).toList = escaped s.toList := by
    rw [replaceAll_eq, toList_ofList]
    exact replaced_singleton '\n' ['\\', 'n'] s.toList
  rw [Constant.quotedText, toList_append, toList_append, hinner]
  rfl

/-! ### Backslashes -/

/-- Every backslash is the last character, or a line feed follows it. -/
def BackslashesKept (cs : List Char) : Prop :=
  ∀ before after, cs = before ++ '\\' :: after → after = [] ∨ ∃ more, after = '\n' :: more

theorem backslashesKept_nil : BackslashesKept [] := by
  simp [BackslashesKept]

theorem backslashesKept_cons : BackslashesKept (c :: cs) ↔
      (c = '\\' → cs = [] ∨ ∃ more, cs = '\n' :: more) ∧ BackslashesKept cs := by
  constructor
  · intro h
    refine ⟨fun hc => h [] cs (by rw [hc]; rfl), fun before after hcs => ?_⟩
    exact h (c :: before) after (by rw [hcs]; rfl)
  · rintro ⟨hc, hcs⟩ before after hsplit
    cases before with
    | nil =>
      cases hsplit
      exact hc rfl
    | cons d before => exact hcs before after (cons.inj hsplit).2

/-- A pass over a text that leaves it as it is or makes it shorter. -/
def Shrinks (f : List Char → List Char) : Prop :=
  ∀ cs, f cs = cs ∨ (f cs).length < cs.length

section Shrinks

variable {f g : List Char → List Char}

theorem Shrinks.length_le (h : Shrinks f) (cs : List Char) : (f cs).length ≤ cs.length := by
  rcases h cs with heq | hlt
  · exact Nat.le_of_eq (congrArg List.length heq)
  · exact Nat.le_of_lt hlt

theorem Shrinks.comp (hf : Shrinks f) (hg : Shrinks g) : Shrinks fun cs => f (g cs) := by
  intro cs
  rcases hg cs with heq | hlt
  · dsimp only
    rw [heq]
    exact hf cs
  · exact .inr (Nat.lt_of_le_of_lt (hf.length_le _) hlt)

/-- What two passes give back has not been changed by either of them. -/
theorem Shrinks.eq_self_of_comp (hf : Shrinks f) (hg : Shrinks g) (h : f (g cs) = cs) :
    g cs = cs ∧ f cs = cs := by
  rcases hg cs with heq | hlt
  · rw [heq] at h
    exact ⟨heq, h⟩
  · have hle := hf.length_le (g cs)
    rw [h] at hle
    omega

end Shrinks

theorem shrinks_dropBackslashes : Shrinks Grammar.dropBackslashes := by
  intro cs
  fun_induction Grammar.dropBackslashes cs with
  | case1 | case2 => exact .inl rfl
  | case3 rest ih =>
    rcases ih with heq | hlt
    · exact .inl (by rw [heq])
    · exact .inr (Nat.succ_lt_succ (Nat.succ_lt_succ hlt))
  | case4 c rest hc ih =>
    refine .inr (Nat.succ_lt_succ ?_)
    rcases ih with heq | hlt
    · exact Nat.lt_succ_of_le (Nat.le_of_eq (congrArg List.length heq))
    · exact Nat.lt_succ_of_lt hlt
  | case5 c rest _ _ ih =>
    rcases ih with heq | hlt
    · exact .inl (by rw [heq])
    · exact .inr (Nat.succ_lt_succ hlt)

/-- **Which texts keep their backslashes.** -/
theorem dropBackslashes_eq_self_iff : Grammar.dropBackslashes cs = cs ↔ BackslashesKept cs := by
  fun_induction Grammar.dropBackslashes cs with
  | case1 => exact iff_of_true rfl backslashesKept_nil
  | case2 =>
    refine iff_of_true rfl (backslashesKept_cons.mpr ⟨?_, backslashesKept_nil⟩)
    exact fun _ => .inl rfl
  | case3 rest ih =>
    rw [backslashesKept_cons, backslashesKept_cons, ← ih]
    simp
  | case4 c rest hc ih =>
    constructor
    · intro h
      have hlength := congrArg List.length h
      have hle := shrinks_dropBackslashes.length_le rest
      simp only [length_cons] at hlength
      omega
    · intro h
      rcases (backslashesKept_cons.mp h).1 rfl with hnil | ⟨more, hmore⟩
      · cases hnil
      · exact absurd (List.cons.inj hmore).1 hc
  | case5 c rest hlast hnext ih =>
    have hc : c ≠ '\\' := by
      rintro rfl
      cases rest with
      | nil => exact hlast rfl rfl
      | cons d rest => exact hnext d rest rfl rfl
    rw [backslashesKept_cons, ← ih]
    simp [hc]

/-! ### What stands between the quotes -/

/-- What a token in quotes stands for, from what is between the quotes. -/
def unescaped (cs : List Char) : List Char :=
  Grammar.dropBackslashes (replaced ['\\', 't'] ['\t'] (replaced ['\\', 'n'] ['\n'] cs))

theorem toList_unquote {text : String} {body : List Char}
    (h : text.toList = '"' :: body ++ ['"']) : (Grammar.unquote text).toList = unescaped body := by
  have hinner : (text.toList.drop 1).dropLast = body := by
    rw [h]
    exact dropLast_concat
  have hpieces : "\\n".toList = ['\\', 'n'] ∧ "\n".toList = ['\n'] ∧ "\\t".toList = ['\\', 't'] ∧
      "\t".toList = ['\t'] := ⟨rfl, rfl, rfl, rfl⟩
  obtain ⟨hline, hline', htab, htab'⟩ := hpieces
  rw [Grammar.unquote, hinner, replaceAll_eq, replaceAll_eq, hline, hline', htab, htab',
    toList_ofList, toList_ofList, toList_ofList, toList_ofList,
    unescaped]

/-- Line feeds that are written out begin with no `n`. -/
theorem escaped_eq_n_cons {after : List Char} (h : escaped cs = 'n' :: after) :
    ∃ rest, cs = 'n' :: rest ∧ after = escaped rest := by
  cases cs with
  | nil => cases h
  | cons c cs =>
    rw [escaped_cons] at h
    split at h
    · exact absurd (cons.inj h).1 (by decide)
    · cases h
      exact ⟨cs, rfl, rfl⟩

/-- **Line feeds that are written out are taken back**, and nothing else is taken for one of
them. -/
theorem replaced_escaped (cs : List Char) :
    replaced ['\\', 'n'] ['\n'] (escaped cs) = replaced ['\\', 'n'] ['\n'] cs := by
  have hold : ['\\', 'n'] ≠ [] := cons_ne_nil _ _
  have hbegins {c : Char} {more : List Char} (h : ∀ rest, ¬ (c = '\\' ∧ more = 'n' :: rest)) :
      beginsWith ['\\', 'n'] (c :: more) = false := by
    rw [Bool.eq_false_iff, ne_eq, beginsWith_iff]
    rintro ⟨rest, hrest⟩
    exact h rest (cons.inj hrest)
  induction hn : cs.length using Nat.strongRecOn generalizing cs with
  | ind n ih =>
    subst hn
    cases cs with
    | nil => rfl
    | cons c cs =>
      have hcs := ih cs.length (Nat.lt_succ_self _) cs rfl
      rw [escaped_cons]
      by_cases hline : c = '\n'
      · rw [if_pos hline, hline, replaced_append hold, hcs]
        rfl
      · rw [if_neg hline, singleton_append]
        by_cases hpair : ∃ rest, c = '\\' ∧ cs = 'n' :: rest
        · obtain ⟨rest, rfl, rfl⟩ := hpair
          have hrest := ih rest.length (by simp only [length_cons]; omega) rest rfl
          have hboth := congrArg (['\n'] ++ ·) hrest
          rwa [← replaced_append hold, ← replaced_append hold] at hboth
        · have hpair' (rest : List Char) : ¬ (c = '\\' ∧ escaped cs = 'n' :: rest) := by
            rintro ⟨hc, h⟩
            obtain ⟨rest', hrest', -⟩ := escaped_eq_n_cons h
            exact hpair ⟨rest', hc, hrest'⟩
          rw [replaced_cons _ (hbegins hpair'), hcs,
            replaced_cons _ (hbegins fun rest h => hpair ⟨rest, h⟩)]

theorem shrinks_replaced (c d : Char) : Shrinks (replaced ['\\', c] [d]) := by
  have hshorter : [d].length < ['\\', c].length := Nat.lt_succ_self 1
  exact replaced_eq_self_or_shorter hshorter

theorem length_unescaped_escaped_le (cs : List Char) :
    (unescaped (escaped cs)).length ≤ cs.length := by
  rw [unescaped, replaced_escaped]
  exact Nat.le_trans (shrinks_dropBackslashes.length_le _)
    (Nat.le_trans ((shrinks_replaced _ _).length_le _) ((shrinks_replaced _ _).length_le _))

/-- A text that keeps its backslashes has none before a letter. -/
theorem replaced_of_backslashesKept (h : BackslashesKept cs) (hc : c ≠ '\n') (d : Char) :
    replaced ['\\', c] [d] cs = cs := by
  refine replaced_eq_self _ fun before after hcs => ?_
  rcases h before (c :: after) (by simp [hcs]) with hnil | ⟨more, hmore⟩
  · cases hnil
  · exact hc (cons.inj hmore).1

/-- **Which texts are what their shown forms stand for.** -/
theorem unescaped_escaped_eq_self_iff : unescaped (escaped cs) = cs ↔ BackslashesKept cs := by
  rw [unescaped, replaced_escaped]
  constructor
  · intro h
    -- From the outermost pass inwards, each of them has left the text as it was.
    have hshrinks : Shrinks fun cs => Grammar.dropBackslashes (replaced ['\\', 't'] ['\t'] cs) :=
      shrinks_dropBackslashes.comp (shrinks_replaced _ _)
    obtain ⟨-, hrest⟩ := hshrinks.eq_self_of_comp (shrinks_replaced _ _) h
    obtain ⟨-, hdrop⟩ := shrinks_dropBackslashes.eq_self_of_comp (shrinks_replaced _ _) hrest
    exact dropBackslashes_eq_self_iff.mp hdrop
  · intro h
    rw [replaced_of_backslashesKept h (by decide), replaced_of_backslashesKept h (by decide)]
    exact dropBackslashes_eq_self_iff.mpr h

theorem unquote_quotedText_iff {s : String} :
    Grammar.unquote (Constant.quotedText s) = s ↔ BackslashesKept s.toList := by
  rw [← toList_inj, toList_unquote (toList_quotedText s)]
  exact unescaped_escaped_eq_self_iff

end Parley.Token
