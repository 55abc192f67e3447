import Parley.Text.Pieces

/-!
# Replacing and joining pieces of text

`Text.replaceAll` without the number that bounds its steps: `replaced` goes through a text from left
to right, puts the new piece wherever the old one begins and goes on after it.
-/

namespace Parley.Text

open List

variable {cs : List Char}

/-- What holds of every character of a list is decided by going through the list, not through all
characters there are. -/
instance (priority := 1100) decidableForallMem (p : Char → Prop) [DecidablePred p]
    (cs : List Char) : Decidable (∀ c ∈ cs, p c) :=
  decidableBAll p cs

variable {old : List Char}

theorem beginsWith_iff : beginsWith old cs = true ↔ ∃ rest, cs = old ++ rest := by
  rw [beginsWith, Option.isSome_iff_exists]
  exact exists_congr fun _ => dropBeginning?_eq_some_iff

/-- Two bounds that are enough give the same. -/
theorem replaceFrom_congr (hold : old ≠ []) (new : List Char) {fuel fuel' : Nat}
    (h : cs.length ≤ fuel) (h' : cs.length ≤ fuel') :
    replaceFrom old new fuel cs = replaceFrom old new fuel' cs := by
  induction fuel generalizing fuel' cs with
  | zero =>
    obtain rfl : cs = [] := eq_nil_of_length_eq_zero (Nat.le_zero.mp h)
    cases fuel' <;> rfl
  | succ fuel ih =>
    cases cs with
    | nil => cases fuel' <;> rfl
    | cons c cs =>
      obtain ⟨fuel', rfl⟩ : ∃ b, fuel' = b + 1 := ⟨fuel' - 1, by simp at h'; omega⟩
      rw [length_cons] at h h'
      rw [replaceFrom, replaceFrom]
      cases hdrop : dropBeginning? old (c :: cs) with
      | none => exact congrArg (c :: ·) (ih (by omega) (by omega))
      | some after =>
        have hlen := congrArg length (dropBeginning?_eq_some_iff.mp hdrop)
        have hpos := length_pos_iff.mpr hold
        rw [length_cons, length_append] at hlen
        exact congrArg (new ++ ·) (ih (by omega) (by omega))

/-- The text with every occurrence of a piece replaced, from left to right. -/
def replaced (old new cs : List Char) : List Char :=
  replaceFrom old new cs.length cs

theorem replaceAll_eq (old new s : String) :
    replaceAll old new s = String.ofList (replaced old.toList new.toList s.toList) := by
  rw [replaceAll, replaced, String.length_toList]

theorem replaced_nil (old new : List Char) : replaced old new [] = [] := rfl

/-- Where the piece begins, the new one is put. -/
theorem replaced_append (hold : old ≠ []) (new rest : List Char) :
    replaced old new (old ++ rest) = new ++ replaced old new rest := by
  have hdrop : dropBeginning? old (old ++ rest) = some rest := dropBeginning?_eq_some_iff.mpr rfl
  have hpos := length_pos_iff.mpr hold
  unfold replaced
  cases h : old ++ rest with
  | nil => exact absurd (append_eq_nil_iff.mp h).1 hold
  | cons c cs =>
    have hlen := congrArg length h
    rw [length_cons, length_append] at hlen
    rw [h] at hdrop
    rw [length_cons, replaceFrom, hdrop]
    exact congrArg (new ++ ·) (replaceFrom_congr hold new (by omega) (Nat.le_refl _))

/-- Where it does not begin, the character stays. -/
theorem replaced_cons (new : List Char) {c : Char} (h : beginsWith old (c :: cs) = false) :
    replaced old new (c :: cs) = c :: replaced old new cs := by
  have hdrop : dropBeginning? old (c :: cs) = none := by simpa [beginsWith] using h
  rw [replaced, length_cons, replaceFrom, hdrop]
  rfl

/-- A single character is replaced wherever it stands. -/
theorem replaced_singleton (c : Char) (new cs : List Char) :
    replaced [c] new cs = cs.flatMap fun d => if d = c then new else [d] := by
  induction cs with
  | nil => rfl
  | cons d cs ih =>
    rw [flatMap_cons]
    by_cases hd : d = c
    · rw [if_pos hd, hd, ← ih]
      exact replaced_append (cons_ne_nil _ _) new cs
    · have hbegins : beginsWith [c] (d :: cs) = false := by
        rw [Bool.eq_false_iff, ne_eq, beginsWith_iff]
        rintro ⟨rest, hrest⟩
        exact hd (cons.inj hrest).1
      rw [if_neg hd, replaced_cons new hbegins, ih]
      rfl

/-- A text in which the piece never begins stays as it is. -/
theorem replaced_eq_self (new : List Char) (h : ∀ before after, cs ≠ before ++ old ++ after) :
    replaced old new cs = cs := by
  induction cs with
  | nil => rfl
  | cons c cs ih =>
    have hbegins : beginsWith old (c :: cs) = false := by
      rw [Bool.eq_false_iff, ne_eq, beginsWith_iff]
      rintro ⟨rest, hrest⟩
      exact h [] rest (by simpa using hrest)
    rw [replaced_cons new hbegins, ih]
    intro before after hcs
    exact h (c :: before) after (by simp [hcs])

/-- If the new piece is shorter, a text stays as it is or becomes shorter, too. -/
theorem replaced_eq_self_or_shorter {new : List Char} (hshorter : new.length < old.length)
    (cs : List Char) :
    replaced old new cs = cs ∨ (replaced old new cs).length < cs.length := by
  induction hn : cs.length using Nat.strongRecOn generalizing cs with
  | ind n ih =>
    subst hn
    cases cs with
    | nil => exact .inl rfl
    | cons c cs =>
      cases hbegins : beginsWith old (c :: cs) with
      | false =>
        rw [replaced_cons new hbegins]
        rcases ih cs.length (Nat.lt_succ_self _) cs rfl with heq | hlt
        · exact .inl (by rw [heq])
        · exact .inr (Nat.succ_lt_succ hlt)
      | true =>
        obtain ⟨rest, hrest⟩ := beginsWith_iff.mp hbegins
        have hold : old ≠ [] := ne_nil_of_length_pos (Nat.zero_lt_of_lt hshorter)
        have hlen := congrArg length hrest
        rw [length_append] at hlen
        have hle : (replaced old new rest).length ≤ rest.length := by
          rcases ih rest.length (by omega) rest rfl with heq | hlt
          · exact Nat.le_of_eq (congrArg length heq)
          · exact Nat.le_of_lt hlt
        rw [hrest, replaced_append hold, length_append, length_append]
        exact .inr (by omega)

/-- Pieces with commas between them. -/
theorem toList_joinWith_cons (part : String) (parts : List String) :
    (joinWith ", " (part :: parts)).toList =
      part.toList ++ parts.flatMap fun part => ',' :: ' ' :: part.toList := by
  rw [joinWith]
  induction parts generalizing part with
  | nil => rw [String.intercalate_singleton, flatMap_nil, append_nil]
  | cons next parts ih =>
    rw [String.intercalate_cons_cons, String.toList_append, ih, String.toList_append, append_assoc]
    rfl

end Parley.Text
