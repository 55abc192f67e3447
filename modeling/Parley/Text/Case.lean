/-!
# Letter case

The small and the title form of a letter, for the letters of all scripts whose other form is a
single character. Case is ignored when patterns are matched without regard to it, and header
names are written with one capital.
-/

namespace Parley.Text

/-- Letters `first`, `first + step`, …, `last`, whose other form lies `offset` further on. -/
structure CaseRun where
  first : Nat
  last : Nat
  step : Nat
  offset : Int

/-- The other form of a code point according to a table of runs; itself if no run has it. -/
def CaseRun.apply : List CaseRun → Nat → Nat
  | [], n => n
  | r :: rest, n =>
    if r.first ≤ n ∧ n ≤ r.last ∧ (n - r.first) % r.step = 0 then ((n : Int) + r.offset).toNat
    else CaseRun.apply rest n

/-- The runs that follow one another, each written as four numbers: its distance from the end of the
run before, its extent, its step and its offset. -/
def CaseRun.rising : Nat → List Int → List CaseRun
  | start, gap :: extent :: step :: offset :: rest =>
    let first := start + gap.toNat
    let last := first + extent.toNat
    ⟨first, last, step.toNat, offset⟩ :: CaseRun.rising last rest
  | _, _ => []

/-- Capital letters outside ASCII with the way to their small forms. -/
def smallRuns : List CaseRun :=
  CaseRun.rising 0
    [192,22,1,32,2,6,1,32,34,46,2,1,4,4,2,1,3,14,2,1,3,44,2,1,2,0,1,-121,1,4,2,1,4,0,1,210,1,2,2,1,
     2,0,1,206,1,0,1,1,2,1,1,205,1,0,1,1,3,0,1,79,1,0,1,202,1,0,1,203,1,0,1,1,2,0,1,205,1,0,1,207,2,
     0,1,211,1,0,1,209,1,0,1,1,4,0,1,211,1,0,1,213,2,0,1,214,1,4,2,1,2,0,1,218,1,0,1,1,2,0,1,218,3,
     0,1,1,2,0,1,218,1,0,1,1,2,1,1,217,1,2,2,1,2,0,1,219,1,0,1,1,4,0,1,1,8,0,1,2,1,0,1,1,2,0,1,2,1,
     0,1,1,2,0,1,2,1,16,2,1,3,16,2,1,3,0,1,2,1,2,2,1,2,0,1,-97,1,0,1,-56,1,38,2,1,2,0,1,-130,2,16,2,
     1,8,0,1,10795,1,0,1,1,2,0,1,-163,1,0,1,10792,3,0,1,1,2,0,1,-195,1,0,1,69,1,0,1,71,1,8,2,1,290,
     2,2,1,4,0,1,1,9,0,1,116,7,0,1,38,2,2,1,37,2,0,1,64,2,1,1,63,2,16,1,32,2,8,1,32,36,0,1,8,9,22,2,
     1,6,0,1,-60,3,0,1,1,2,0,1,-7,1,0,1,1,3,2,1,-130,1,15,1,80,1,31,1,32,49,32,2,1,10,52,2,1,2,0,1,
     15,1,12,2,1,3,94,2,1,3,37,1,48,2890,37,1,7264,2,0,1,7264,6,0,1,7264,723,79,1,38864,1,5,1,8,
     2203,42,1,-3008,3,2,1,-3008,321,148,2,1,10,0,1,-7615,2,94,2,1,10,7,1,-8,9,5,1,-8,11,7,1,-8,9,7,
     1,-8,9,5,1,-8,12,6,2,-8,9,7,1,-8,25,7,1,-8,9,7,1,-8,9,7,1,-8,9,1,1,-8,1,1,1,-74,1,0,1,-9,12,3,
     1,-86,1,0,1,-9,12,1,1,-8,1,1,1,-100,13,1,1,-8,1,1,1,-112,1,0,1,-7,12,1,1,-128,1,1,1,-126,1,0,1,
     -9,298,0,1,-7517,4,0,1,-8383,1,0,1,-8262,7,0,1,28,46,15,1,16,20,0,1,1,819,25,1,26,1841,47,1,48,
     49,0,1,1,2,0,1,-10743,1,0,1,-3814,1,0,1,-10727,3,4,2,1,2,0,1,-10780,1,0,1,-10749,1,0,1,-10783,
     1,0,1,-10782,2,0,1,1,3,0,1,1,9,1,1,-10815,1,98,2,1,9,2,2,1,5,0,1,1,31054,44,2,1,20,26,2,1,136,
     12,2,1,4,60,2,1,11,2,2,1,2,0,1,-35332,1,8,2,1,5,0,1,1,2,0,1,-42280,3,2,2,1,4,18,2,1,2,0,1,
     -42308,1,0,1,-42319,1,0,1,-42315,1,0,1,-42305,1,0,1,-42308,2,0,1,-42258,1,0,1,-42282,1,0,1,
     -42261,1,0,1,928,1,14,2,1,2,0,1,-48,1,0,1,-42307,1,0,1,-35384,1,2,2,1,7,0,1,1,6,2,2,1,29,0,1,1,
     22316,25,1,32,1222,39,1,40,137,35,1,40,157,10,1,39,2,14,1,39,2,6,1,39,2,1,1,39,1771,50,1,64,
     3054,31,1,32,21889,31,1,32,31393,33,1,34]

/-- The way back from the small forms. -/
def CaseRun.back (r : CaseRun) : CaseRun :=
  ⟨(r.first + r.offset).toNat, (r.last + r.offset).toNat, r.step, -r.offset⟩

/-- Small letters outside ASCII with the way to their title forms. But for those that come first, a
letter has the title form whose small form it is. -/
def titleRuns : List CaseRun :=
  CaseRun.rising 0
    [181,0,1,743,42,0,1,0,82,0,1,-232,78,0,1,-300,69,0,1,1,2,0,1,-1,1,0,1,1,2,0,1,-1,1,0,1,1,2,0,1,
     -1,37,0,1,1,2,0,1,-1,338,0,1,84,125,0,1,-31,14,0,1,-62,1,0,1,-57,4,0,1,-47,1,0,1,-54,26,0,1,
     -86,1,0,1,-80,4,0,1,-96,3291,42,1,0,3,2,1,0,2945,0,1,-6254,1,0,1,-6253,1,0,1,-6244,1,1,1,-6242,
     1,0,1,-6243,1,0,1,-6236,1,0,1,-6181,1,0,1,35266,531,0,1,-59,291,0,1,-7205] ++ smallRuns.map CaseRun.back

/-- The small form of a letter. -/
def toSmall (c : Char) : Char :=
  if c.toNat < 0x80 then c.toLower else Char.ofNat (CaseRun.apply smallRuns c.toNat)

/-- The form of a letter at the head of a title. -/
def toTitle (c : Char) : Char :=
  if c.toNat < 0x80 then c.toUpper else Char.ofNat (CaseRun.apply titleRuns c.toNat)

/-- One capital, then small letters. -/
def capitalize (s : String) : String :=
  match s.toList with
  | [] => ""
  | c :: rest => String.ofList (toTitle c :: rest.map toSmall)

end Parley.Text
