/-!
# Cutting and joining text

Small operations on text that the rest of the library is written in: cutting at a separator,
replacing one piece by another, lines, and beginnings.
-/

namespace Parley.Text

/-- The rest of `cs` after the beginning `p`, if it has that beginning. -/
def dropBeginning? : List Char → List Char → Option (List Char)
  | [], cs => some cs
  | _ :: _, [] => none
  | p :: ps, c :: cs => if p = c then dropBeginning? ps cs else none

/-- A text that begins with `p` is `p` and the rest. -/
theorem dropBeginning?_eq_some_iff {p cs rest : List Char} :
    dropBeginning? p cs = some rest ↔ cs = p ++ rest := by
  induction p generalizing cs with
  | nil => simp [dropBeginning?]
  | cons a p ih =>
    cases cs with
    | nil => simp [dropBeginning?]
    | cons c cs =>
      by_cases h : a = c
      · subst h; simp [dropBeginning?, ih]
      · simp [dropBeginning?, h, eq_comm]

/-- Does the text begin with `p`? -/
def beginsWith (p cs : List Char) : Bool :=
  (dropBeginning? p cs).isSome

/-- Replaces the non-empty piece `old` by `new` from left to right. The first argument bounds the
number of steps; the length of the text is enough. -/
def replaceFrom (old new : List Char) : Nat → List Char → List Char
  | 0, cs => cs
  | fuel + 1, cs =>
    match cs with
    | [] => []
    | c :: rest =>
      match dropBeginning? old cs with
      | some after => new ++ replaceFrom old new fuel after
      | none => c :: replaceFrom old new fuel rest

/-- Replaces every occurrence of a non-empty piece, from left to right. -/
def replaceAll (old new : String) (s : String) : String :=
  String.ofList (replaceFrom old.toList new.toList s.length s.toList)

/-- Cuts at every occurrence of a non-empty separator, from left to right; `part` holds the
piece being read, last character first. -/
def cutFrom (sep : List Char) : Nat → List Char → List Char → List (List Char)
  | 0, part, cs => [part.reverse ++ cs]
  | fuel + 1, part, cs =>
    match cs with
    | [] => [part.reverse]
    | c :: rest =>
      match dropBeginning? sep cs with
      | some after => part.reverse :: cutFrom sep fuel [] after
      | none => cutFrom sep fuel (c :: part) rest

/-- The pieces of a text between the occurrences of a non-empty separator. -/
def cut (sep : List Char) (cs : List Char) : List (List Char) :=
  cutFrom sep (cs.length + 1) [] cs

/-- The pieces of a text between the occurrences of a non-empty separator. -/
def cutText (sep s : String) : List String :=
  (cut sep.toList s.toList).map String.ofList

/-- Cuts at every occurrence of one character. -/
def cutAt (sep : Char) : List Char → List (List Char)
  | [] => [[]]
  | c :: rest =>
    if c = sep then [] :: cutAt sep rest
    else
      match cutAt sep rest with
      | [] => [[c]]
      | p :: ps => (c :: p) :: ps

theorem cutAt_eq_splitOn (sep : Char) (cs : List Char) : cutAt sep cs = cs.splitOn sep := by
  induction cs with
  | nil => rfl
  | cons c rest ih =>
    obtain ⟨p, ps, hsplit⟩ := List.exists_cons_of_ne_nil (List.splitOn_ne_nil sep rest)
    rw [cutAt, ih, hsplit, List.splitOn, List.splitOnP_cons_eq_if_modifyHead, ← List.splitOn,
      hsplit]
    simp [List.modifyHead]

/-- There is always at least one piece. -/
theorem cutAt_ne_nil (sep : Char) (cs : List Char) : cutAt sep cs ≠ [] := by
  rw [cutAt_eq_splitOn]
  exact List.splitOn_ne_nil sep cs

/-- Joins pieces with a separator between neighbours. -/
def joinWith (sep : String) (parts : List String) : String :=
  String.intercalate sep parts

/-- The lines of a text, each with the line feed that ends it; the last may lack one. -/
def linesOf : List Char → List (List Char)
  | [] => []
  | c :: rest =>
    if c = '\n' then ['\n'] :: linesOf rest
    else
      match linesOf rest with
      | [] => [[c]]
      | l :: ls => (c :: l) :: ls

/-- No character is lost when a text is cut into lines. -/
theorem flatten_linesOf (cs : List Char) : (linesOf cs).flatten = cs := by
  induction cs with
  | nil => rfl
  | cons c rest ih =>
    simp only [linesOf]
    split
    · simp_all
    · split
      · next h => rw [h] at ih; simp_all
      · next l ls h => rw [h] at ih; simp_all

/-- Carriage returns become line feeds, alone or together with the line feed that follows. -/
def unifyNewlines : List Char → List Char
  | [] => []
  | '\r' :: '\n' :: rest => '\n' :: unifyNewlines rest
  | '\r' :: rest => '\n' :: unifyNewlines rest
  | c :: rest => c :: unifyNewlines rest

end Parley.Text
