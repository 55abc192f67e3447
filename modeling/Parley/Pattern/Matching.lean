import Parley.Pattern.Reader

/-!
# Matching regular expressions

Matching tries the alternatives of a regular expression in order and goes back to the last choice
when the rest does not fit. What has to match after a part is handed to it as a continuation.
Each step takes one unit of a budget, and the budget of a search exceeds the length of any path.
-/

namespace Parley.Pattern

/-- The places of the groups that have matched: number, start and end, the latest first. -/
abbrev Marks := List (Nat × Nat × Nat)

/-- The place of a group. -/
def Marks.find? (marks : Marks) (index : Nat) : Option (Nat × Nat) :=
  marks.lookup index

/-- What remains to be matched: it gets the place reached and the groups. -/
abbrev Rest := Nat → Marks → Option (Nat × Marks)

/-- Is there a word character at this place? -/
def wordAt (ascii : Bool) (text : Array Char) (place : Nat) : Bool :=
  match text[place]? with
  | some c => CharClass.word.contains ascii c
  | none => false

/-- Is a place of the asked kind here? -/
def Anchor.holds (flags : Flags) (text : Array Char) (place : Nat) : Anchor → Bool
  | .textStart => place == 0
  | .textEnd => place == text.size
  | .lineStart =>
    place == 0 || (flags.multiline && text[place - 1]? == some '\n')
  | .lineEnd =>
    place == text.size || (place + 1 == text.size && text[place]? == some '\n') ||
      (flags.multiline && text[place]? == some '\n')
  | .boundary =>
    text.size != 0 &&
      (place != 0 && wordAt flags.ascii text (place - 1)) != wordAt flags.ascii text place
  | .noBoundary =>
    text.size != 0 &&
      (place != 0 && wordAt flags.ascii text (place - 1)) == wordAt flags.ascii text place

/-- Does the text at `place` repeat the text from `start` up to `stop`? -/
def repeats (flags : Flags) (text : Array Char) (start stop place : Nat) : Bool :=
  place + (stop - start) ≤ text.size &&
    (List.range (stop - start)).all fun i =>
      match text[start + i]?, text[place + i]? with
      | some a, some b => sameChar flags a b
      | _, _ => false

mutual

/-- Matches an expression at a place, then the rest. -/
def Node.run (text : Array Char) : Nat → Node → Nat → Marks → Rest → Option (Nat × Marks)
  | 0, _, _, _, _ => none
  | budget + 1, node, place, marks, rest =>
    match node with
    | .char flags c =>
      match text[place]? with
      | some d => if sameChar flags c d then rest (place + 1) marks else none
      | none => none
    | .any flags =>
      match text[place]? with
      | some d => if flags.dotAll || d != '\n' then rest (place + 1) marks else none
      | none => none
    | .set flags s =>
      match text[place]? with
      | some d => if s.contains flags d then rest (place + 1) marks else none
      | none => none
    | .anchor flags a => if a.holds flags text place then rest place marks else none
    | .seq parts => runSeq text budget parts place marks rest
    | .choice parts => runChoice text budget parts place marks rest
    | .group none body => body.run text budget place marks rest
    | .group (some index) body =>
      body.run text budget place marks fun stop marks =>
        rest stop ((index, place, stop) :: marks)
    | .back flags index =>
      match marks.find? index with
      | some (start, stop) =>
        if repeats flags text start stop place then rest (place + (stop - start)) marks
        else none
      | none => none
    | .repeated least most .possessive body =>
      match runRounds text budget false body least most 0 none place marks
          (fun p m => some (p, m)) with
      | some (p, m) => rest p m
      | none => none
    | .repeated least most greed body =>
      runRounds text budget (greed == .lazy) body least most 0 none place marks rest
    | .look true negated body =>
      match body.run text budget place marks (fun p m => some (p, m)) with
      | some (_, m) => if negated then none else rest place m
      | none => if negated then rest place marks else none
    | .look false negated body =>
      let back := (body.width fun i =>
        match marks.find? i with
        | some (start, stop) => (stop - start, some (stop - start))
        | none => (0, some 0)).1
      let found :=
        if back ≤ place then
          body.run text budget (place - back) marks (fun p m => some (p, m))
        else none
      match found with
      | some (_, m) => if negated then none else rest place m
      | none => if negated then rest place marks else none
    | .atomic body =>
      match body.run text budget place marks (fun p m => some (p, m)) with
      | some (p, m) => rest p m
      | none => none
    | .whether index yes no =>
      if (marks.find? index).isSome then yes.run text budget place marks rest
      else no.run text budget place marks rest
    | .fail => none

/-- Matches expressions one after the other, then the rest. -/
def runSeq (text : Array Char) : Nat → List Node → Nat → Marks → Rest → Option (Nat × Marks)
  | 0, _, _, _, _ => none
  | _ + 1, [], place, marks, rest => rest place marks
  | budget + 1, node :: nodes, place, marks, rest =>
    node.run text budget place marks fun p m => runSeq text budget nodes p m rest

/-- Tries expressions in order. -/
def runChoice (text : Array Char) : Nat → List Node → Nat → Marks → Rest → Option (Nat × Marks)
  | 0, _, _, _, _ => none
  | _ + 1, [], _, _, _ => none
  | budget + 1, node :: nodes, place, marks, rest =>
    match node.run text budget place marks rest with
    | some r => some r
    | none => runChoice text budget nodes place marks rest

/-- Matches rounds of an expression, `count` of which are done, then the rest. A round beyond the
least number has to start elsewhere than the one before it. -/
def runRounds (text : Array Char) : Nat → Bool → Node → Nat → Option Nat → Nat → Option Nat →
    Nat → Marks → Rest → Option (Nat × Marks)
  | 0, _, _, _, _, _, _, _, _, _ => none
  | budget + 1, lazy, body, least, most, count, last, place, marks, rest =>
    if count < least then
      body.run text budget place marks fun p m =>
        runRounds text budget lazy body least most (count + 1) last p m rest
    else
      let more : Unit → Option (Nat × Marks) := fun _ =>
        if (most.all (count < ·)) && last != some place then
          body.run text budget place marks fun p m =>
            runRounds text budget lazy body least most (count + 1) (some place) p m rest
        else none
      if lazy then
        match rest place marks with
        | some r => some r
        | none => more ()
      else
        match more () with
        | some r => some r
        | none => rest place marks

end

/-- A place that matches: where it starts and ends, and its groups. -/
structure Match where
  start : Nat
  stop : Nat
  marks : Marks

/-- The budget of one attempt. -/
def Regex.budget (r : Regex) (text : Array Char) : Nat :=
  4 * (text.size + 2) * (r.root.weight + 2)

/-- Matches at a place. If `advance` is set the match may not be empty. -/
def Regex.matchAt? (r : Regex) (text : Array Char) (place : Nat) (advance : Bool) : Option Match :=
  (r.root.run text (r.budget text) place [] fun p m =>
    if advance && p == place then none else some (p, m)).map fun (p, m) => ⟨place, p, m⟩

/-- Searches from a place on, over at most `steps` places. -/
def Regex.searchFrom (r : Regex) (text : Array Char) : Nat → Nat → Bool → Option Match
  | 0, _, _ => none
  | steps + 1, place, advance =>
    match r.matchAt? text place advance with
    | some m => some m
    | none => r.searchFrom text steps (place + 1) false

/-- The first match at or after a place. If `advance` is set, a match at the place itself may not
be empty. -/
def Regex.search? (r : Regex) (text : Array Char) (place : Nat) (advance : Bool) : Option Match :=
  r.searchFrom text (text.size + 1 - place) place advance

/-- The matches from a place on, at most `steps` of them. -/
def Regex.matchesFrom (r : Regex) (text : Array Char) : Nat → Nat → Bool → List Match
  | 0, _, _ => []
  | steps + 1, place, advance =>
    match r.search? text place advance with
    | none => []
    | some m => m :: r.matchesFrom text steps m.stop (m.stop == m.start)

/-- All matches in a text, from left to right and without overlap. -/
def Regex.matches (r : Regex) (text : Array Char) : List Match :=
  r.matchesFrom text (2 * text.size + 2) 0 false

/-- The piece of a text from `start` up to `stop`. -/
def slice (text : Array Char) (start stop : Nat) : String :=
  String.ofList (text.extract start stop).toList

/-- The text of a group of a match; the whole match has number zero. -/
def Match.group? (m : Match) (text : Array Char) (index : Nat) : Option String :=
  if index = 0 then some (slice text m.start m.stop)
  else (m.marks.find? index).map fun (start, stop) => slice text start stop

/-- Does the regular expression match somewhere in the text? -/
def Regex.occursIn (r : Regex) (text : String) : Bool :=
  (r.search? text.toList.toArray 0 false).isSome

/-- The pieces between matches and, after each piece, the groups of the match that ends it; a
group that took no part gives `none`. -/
def Regex.split (r : Regex) (s : String) : List (Option String) :=
  let text := s.toList.toArray
  go text 0 (r.matches text)
where
  go (text : Array Char) (last : Nat) : List Match → List (Option String)
    | [] => [some (slice text last text.size)]
    | m :: rest =>
      some (slice text last m.start) ::
        ((List.range r.groups).map fun i => m.group? text (i + 1)) ++ go text m.stop rest

end Parley.Pattern
