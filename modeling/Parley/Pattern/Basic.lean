import Parley.Text.Blank
import Parley.Text.Case
import Parley.Text.Digit
import Parley.Text.Word

/-!
# Regular expressions

The syntax of regular expressions as a tree, the sets of characters that they name, and two
measures of a tree: the number of characters it can match, and a weight that bounds the length
of a match's path through it.
-/

namespace Parley.Pattern

/-- The switches of a regular expression. -/
structure Flags where
  ignoreCase : Bool := false
  multiline : Bool := false
  dotAll : Bool := false
  ascii : Bool := false
  verbose : Bool := false
  deriving DecidableEq, Repr

/-- The named classes of characters. -/
inductive CharClass where
  | digit
  | blank
  | word
  deriving DecidableEq, Repr

/-- One item of a set of characters. -/
inductive SetItem where
  | char (c : Char)
  | range (low high : Char)
  | named (cls : CharClass) (negated : Bool)
  deriving DecidableEq, Repr

/-- A set of characters. -/
structure CharSet where
  negated : Bool
  items : List SetItem
  deriving DecidableEq, Repr

/-- Places that a regular expression can ask for. -/
inductive Anchor where
  | lineStart
  | lineEnd
  | textStart
  | textEnd
  | boundary
  | noBoundary
  deriving DecidableEq, Repr

/-- How a repetition chooses among the numbers of rounds. -/
inductive Greed where
  | greedy
  | lazy
  | possessive
  deriving DecidableEq, Repr

/-- A regular expression. -/
inductive Node where
  | char (flags : Flags) (c : Char)
  | any (flags : Flags)
  | set (flags : Flags) (s : CharSet)
  | anchor (flags : Flags) (a : Anchor)
  | seq (parts : List Node)
  | choice (parts : List Node)
  | group (index : Option Nat) (body : Node)
  | back (flags : Flags) (index : Nat)
  | repeated (least : Nat) (most : Option Nat) (greed : Greed) (body : Node)
  | look (ahead negated : Bool) (body : Node)
  | atomic (body : Node)
  | whether (index : Nat) (yes no : Node)
  | fail

instance : Inhabited Node := ⟨.fail⟩

/-! ### Characters -/

/-- Membership in a named class. -/
def CharClass.contains (ascii : Bool) (cls : CharClass) (c : Char) : Bool :=
  match cls with
  | .digit => if ascii then c.isDigit else Text.isDecimal c
  | .blank => Text.isBlank c && (!ascii || (c.toNat < 0x80 && !(0x1c ≤ c.toNat && c.toNat ≤ 0x1f)))
  | .word => Text.isWord c && (!ascii || c.toNat < 0x80)

/-- The forms of a character that count as the same when case is ignored. -/
def caseForms (c : Char) : List Char :=
  [c, Text.toSmall c, Text.toTitle c]

/-- Are two characters the same? -/
def sameChar (flags : Flags) (a b : Char) : Bool :=
  a == b || (flags.ignoreCase && Text.toSmall a == Text.toSmall b)

/-- Membership in one item of a set. -/
def SetItem.contains (flags : Flags) (c : Char) : SetItem → Bool
  | .char d => sameChar flags c d
  | .range low high =>
    if flags.ignoreCase then (caseForms c).any fun x => decide (low ≤ x) && decide (x ≤ high)
    else decide (low ≤ c) && decide (c ≤ high)
  | .named cls negated => cls.contains flags.ascii c != negated

/-- Membership in a set. -/
def CharSet.contains (flags : Flags) (s : CharSet) (c : Char) : Bool :=
  s.items.any (SetItem.contains flags c) != s.negated

/-! ### Measures -/

/-- The least and the greatest number of characters matched; `none` for no greatest number. -/
abbrev Width := Nat × Option Nat

/-- Widths one after the other. -/
def Width.add (a b : Width) : Width :=
  (a.1 + b.1, do pure ((← a.2) + (← b.2)))

/-- The width of either of two. -/
def Width.either (a b : Width) : Width :=
  (min a.1 b.1, do pure (max (← a.2) (← b.2)))

/-- The width of a number of rounds. -/
def Width.times (w : Width) (least : Nat) (most : Option Nat) : Width :=
  (w.1 * least, if w.2 = some 0 then some 0 else do pure ((← w.2) * (← most)))

mutual

/-- The width of a regular expression; a back reference takes the width that `widths` gives for
its group. -/
def Node.width (widths : Nat → Width) : Node → Width
  | .char _ _ | .any _ | .set _ _ => (1, some 1)
  | .anchor _ _ | .look _ _ _ | .fail => (0, some 0)
  | .seq parts => widthSeq widths parts
  | .choice parts => widthChoice widths parts
  | .group _ body => body.width widths
  | .back _ index => widths index
  | .repeated least most _ body => (body.width widths).times least most
  | .atomic body => body.width widths
  | .whether _ yes no => (yes.width widths).either (no.width widths)

/-- The width of regular expressions one after the other. -/
def widthSeq (widths : Nat → Width) : List Node → Width
  | [] => (0, some 0)
  | n :: rest => (n.width widths).add (widthSeq widths rest)

/-- The width of any one of several. -/
def widthChoice (widths : Nat → Width) : List Node → Width
  | [] => (0, some 0)
  | [n] => n.width widths
  | n :: m :: rest => (n.width widths).either (widthChoice widths (m :: rest))

end

mutual

/-- A bound on the number of steps of a path through the expression that takes no character. -/
def Node.weight : Node → Nat
  | .seq parts => weightAll parts + 1
  | .choice parts => weightAll parts + 1
  | .group _ body => body.weight + 2
  | .repeated least _ _ body => (least + 2) * (body.weight + 2) + 2
  | .look _ _ body => body.weight + 1
  | .atomic body => body.weight + 1
  | .whether _ yes no => yes.weight + no.weight + 1
  | _ => 1

/-- The sum of the weights. -/
def weightAll : List Node → Nat
  | [] => 1
  | n :: rest => n.weight + 1 + weightAll rest

end

end Parley.Pattern
