import Parley.Proofs.Eval.Checking
import Parley.Proofs.Grammar.Operations

/-!
# Integers as text

An integer is shown in digits, with a minus sign in front of them if it is negative. This text can
be taken up in two ways. As a statement, the digits are the integer; but a minus sign is an operator
wherever it stands, and no statement begins with an operator, so a negative integer cannot be
written down like this. The function `integer` takes the sign together with the digits, and with it
every integer comes back from the text that `string` makes of it. Either way there must not be more
digits than are ever read or written.
-/

namespace Parley

open List

/-! ### Reading numerals -/

namespace Number

/-- A digit is taken into the group. -/
theorem go_cons {d : Char} (hd : d.isDigit = true) (started : Bool) (value count : Nat)
    (ds : List Char) : groupedDigits?.go started value count (d :: ds) =
      groupedDigits?.go true (10 * value + (d.toNat - '0'.toNat)) (count + 1) ds := by
  have hlt : d.toNat < 0x80 := Token.toNat_lt_of_isNamePart (Token.isNamePart_of_isDigit hd)
  have hvalue : Text.decimalValue? d = some (d.toNat - '0'.toNat) := by
    rw [Text.decimalValue?, if_pos hlt, if_pos hd]
  rw [groupedDigits?.go.eq_def]
  dsimp only
  rw [hvalue]

theorem go_of_isDigit {ds : List Char} (hds : ∀ d ∈ ds, d.isDigit = true) (value count : Nat) :
    groupedDigits?.go true value count ds =
      some (ds.foldl (fun n c => 10 * n + (c.toNat - '0'.toNat)) value, ds.length + count) := by
  induction ds generalizing value count with
  | nil =>
    rw [length_nil, Nat.zero_add]
    rfl
  | cons d ds ih =>
    obtain ⟨hd, hds⟩ := forall_mem_cons.mp hds
    rw [go_cons hd, ih hds, foldl_cons, length_cons, Nat.add_right_comm, Nat.add_assoc]

/-- The digits of a number are one group. -/
theorem limited_repr {n : Nat} (hn : n.repr.length ≤ digitLimit) :
    intOfText?.limited n.repr.toList = some n := by
  obtain ⟨d, ds, hrepr, hd, hds⟩ := Token.exists_toList_repr n
  have hgroup : groupedDigits? n.repr.toList = some (n, n.repr.length) := by
    have hvalue := Token.digitsValue_repr n
    rw [hrepr] at hvalue
    rw [← String.length_toList, hrepr, groupedDigits?, go_cons hd, go_of_isDigit hds]
    exact congrArg some (Prod.ext hvalue rfl)
  rw [intOfText?.limited, hgroup]
  exact if_pos hn

/-- Nothing is trimmed where there are no blanks. -/
theorem trimBlanks_of_not_blank {cs : List Char} (h : ∀ c ∈ cs, Text.isBlank c = false) :
    Text.trimBlanks cs = cs := by
  have hskip {cs : List Char} (h : ∀ c ∈ cs, Text.isBlank c = false) : Text.skipBlanks cs = cs := by
    cases cs with
    | nil => rfl
    | cons c cs =>
      rw [Text.skipBlanks, dropWhile_cons_of_neg]
      rw [h c mem_cons_self]
      exact Bool.false_ne_true
  rw [Text.trimBlanks, hskip h, hskip fun c hc => h c (mem_reverse.mp hc), reverse_reverse]

/-- **The text of an integer** is read as the integer. -/
theorem intOfText?_toString {n : Int} (hn : n.natAbs.repr.length ≤ digitLimit) :
    intOfText? (toString n) = some n := by
  have hblank (n : Nat) : ∀ d ∈ n.repr.toList, Text.isBlank d = false := by
    obtain ⟨d, ds, hrepr, hdigits⟩ := Token.exists_toList_repr n
    have hall : ∀ c ∈ d :: ds, c.isDigit = true := forall_mem_cons.mpr hdigits
    rw [hrepr]
    intro c hc
    exact (Token.special_of_isNamePart (Token.isNamePart_of_isDigit (hall c hc))).1
  cases n with
  | ofNat n =>
    obtain ⟨d, ds, hrepr, hd, -⟩ := Token.exists_toList_repr n
    have hminus : ∀ cs, n.repr.toList ≠ '-' :: cs := by
      intro cs heq
      rw [(cons.inj (hrepr.symm.trans heq)).1] at hd
      cases hd
    have hplus : ∀ cs, n.repr.toList ≠ '+' :: cs := by
      intro cs heq
      rw [(cons.inj (hrepr.symm.trans heq)).1] at hd
      cases hd
    have hvalue : intOfText?.limited n.repr.toList = some n := limited_repr hn
    show intOfText? n.repr = some (n : Int)
    simp only [intOfText?, trimBlanks_of_not_blank (hblank n), hvalue]
    rfl
  | negSucc n =>
    have htrim : Text.trimBlanks (toString (Int.negSucc n)).toList =
        '-' :: (n + 1).repr.toList := by
      rw [Token.toList_toString_negSucc]
      exact trimBlanks_of_not_blank (forall_mem_cons.mpr ⟨rfl, hblank (n + 1)⟩)
    have hvalue : intOfText?.limited (n + 1).repr.toList = some (n + 1) := limited_repr hn
    simp only [intOfText?, htrim, hvalue]
    rfl

end Number

/-! ### Numerals as tokens and statements -/

open Token Grammar

theorem scan_repr (n : Nat) : scan n.repr = .ok [⟨.integer, n.repr⟩] := by
  have hscans := (legible_repr n).scans scans_nil rfl
  rw [append_nil] at hscans
  exact scan_eq_ok_iff.mpr hscans

/-- A minus sign before digits is an operator. -/
theorem scan_negSucc (n : Nat) : scan (toString (Int.negSucc n)) =
    .ok [⟨.operator, "-"⟩, ⟨.integer, (n + 1).repr⟩] := by
  obtain ⟨d, ds, hrepr, hd, -⟩ := exists_toList_repr (n + 1)
  have hlex : lexeme? '-' ([] ++ (n + 1).repr.toList) = some (.operator, 0) := by
    obtain ⟨-, -, -, -, hother, -⟩ := special_of_isNamePart (isNamePart_of_isDigit hd)
    have hrun : (d :: ds).takeWhile isOperatorChar = [] :=
      takeWhile_cons_of_neg (by rw [hother]; exact Bool.false_ne_true)
    rw [nil_append, hrepr, lexeme?, hrun]
    rfl
  have hscans := (scan_eq_ok_iff.mp (scan_repr (n + 1))).lexeme rfl (by decide) hlex
  rwa [scan_eq_ok_iff, toList_toString_negSucc]

theorem parse_repr {n : Nat} (hn : n.repr.length ≤ Number.digitLimit) :
    (parse [⟨.integer, n.repr⟩]).result = .ok (.constant (.int n)) := by
  have hparse := parse_of_finds (operations_statement (.integer n.repr hn) [])
  have htree : operationTree (.integer n.repr hn) [] = .constant (.int n) := by
    rw [operationTree, Operand.tree, digitsValue_repr]
  rw [htree] at hparse
  exact hparse

/-- No statement begins with an operator. -/
theorem parse_operator (sign : String) (ts : List Token) :
    ∃ inside expected atEnd, (parse (⟨.operator, sign⟩ :: ts)).result =
      .error (.rejected inside expected atEnd) := by
  have hkind : Kind.operator ∉ Production.statement.first := by decide
  exact parse_of_refuses fun _ => read_refuses_of_first hkind _ []

/-! ### The two functions -/

namespace Act

variable {w w₁ : World} {scope depth : Nat} {e : Expr} {a : Answer} {n : Int}

/-- `string` gives an integer in digits. -/
theorem perform_string (hn : n.natAbs.repr.length ≤ Number.digitLimit)
    (he : w.perform (interpret (depth + 1) (.evaluate scope e)) = (.ok a, w₁))
    (hvalue : w₁.store.deref a = .constant (.int n))
    (hname : w₁.store.Means scope "string" (.core .string)) :
    ∃ w₂, w₁.Said w₂ ∧ w.perform (interpret (depth + 2)
      (.evaluate scope (.call (.lookup "string") [("value", e)]))) =
        (.ok (.value (.text (toString n))), w₂) := by
  have hparams : CoreFunction.string.params = [("value", "any")] := rfl
  refine perform_call_core rfl hparams (by decide) he hname (by rw [hvalue]; rfl) ?_
  intro w₂ hstore
  have hint : w₂.store.deref a = .constant (.int n) := by rw [hstore, hvalue]
  have htext : ((w₂.store.shape (.constant (.int n))).write .shown).result = .ok (toString n) := by
    rw [w₂.store.shape_constant]
    simp only [Shape.write, Shape.writeLeaf, Constant.write, Constant.shown, Traced.result_ofExcept,
      intText_of_length_le hn]
  obtain ⟨w₃, hw₃, hsaid⟩ := perform_ofTraced_of_ok htext w₂
  have hshown : w₂.perform (shown (.constant (.int n))) = (.ok (toString n), w₃) := by
    rw [shown, written, perform_getStore_bind, hw₃]
  have hconvert : w₂.perform (toText (.constant (.int n))) = (.ok (.text (toString n)), w₃) :=
    perform_bind_ok hshown _
  refine ⟨w₃, hsaid, (perform_bind_ok (perform_argValue rfl) _).trans ?_⟩
  rw [hint]
  exact perform_bind_ok hconvert _

/-- `integer` reads the digits of an integer. -/
theorem perform_integer (hn : n.natAbs.repr.length ≤ Number.digitLimit)
    (he : w.perform (interpret (depth + 1) (.evaluate scope e)) =
      (.ok (.value (.text (toString n))), w₁))
    (hname : w₁.store.Means scope "integer" (.core .integer)) :
    ∃ w₂, w₁.Said w₂ ∧ w.perform (interpret (depth + 2)
      (.evaluate scope (.call (.lookup "integer") [("value", e)]))) =
        (.ok (.value (.constant (.int n))), w₂) := by
  have hparams : CoreFunction.integer.params = [("value", "any")] := rfl
  refine perform_call_core rfl hparams (by decide) he hname rfl fun w₂ hstore => ⟨w₂, .refl w₂, ?_⟩
  have hread : toInteger (.text (toString n)) = pure n := by
    show pure ((Number.intOfText? (toString n)).getD 0) = _
    rw [Number.intOfText?_toString hn]
    rfl
  show w₂.perform (toInteger (.text (toString n)) >>= fun m => pure (constant (.int m))) = _
  rw [hread]
  rfl

/-- **Integers as text.** An integer with not too many digits is shown in digits, after a minus sign
if it is negative. The digits alone are a token and a statement, which is the integer; but the minus
sign is an operator before them, with which no statement begins. Turned into a text by `string`, an
integer is what `integer` makes of the text, whatever its sign is. -/
theorem integer_literals (n : Int) (hn : n.natAbs.repr.length ≤ Number.digitLimit) :
    ∃ text, (Constant.int n).shown = .ok text ∧
      (0 ≤ n → ∃ ts, scan text = .ok ts ∧ (parse ts).result = .ok (.constant (.int n))) ∧
      (n < 0 → ∃ ts, scan text = .ok (⟨.operator, "-"⟩ :: ts) ∧
        ∃ inside expected atEnd, (parse (⟨.operator, "-"⟩ :: ts)).result =
          .error (.rejected inside expected atEnd)) ∧
      ∀ (w w₁ : World) (scope depth : Nat) (e : Expr) (a : Answer),
        w.perform (interpret (depth + 1) (.evaluate scope e)) = (.ok a, w₁) →
        w₁.store.deref a = .constant (.int n) →
        w₁.store.Means scope "string" (.core .string) →
        w₁.store.Means scope "integer" (.core .integer) →
        ∃ w₂, w.perform (interpret (depth + 3) (.evaluate scope
          (.call (.lookup "integer") [("value", .call (.lookup "string") [("value", e)])]))) =
            (.ok (.value (.constant (.int n))), w₂) := by
  refine ⟨toString n, intText_of_length_le hn, fun hsign => ?_, fun hsign => ?_, ?_⟩
  · obtain ⟨m, rfl⟩ := Int.eq_ofNat_of_zero_le hsign
    exact ⟨_, scan_repr m, parse_repr hn⟩
  · obtain ⟨m, rfl⟩ := Int.eq_negSucc_of_lt_zero hsign
    exact ⟨_, scan_negSucc m, parse_operator "-" _⟩
  · intro w w₁ scope depth e a he hvalue hstring hinteger
    obtain ⟨w₂, hsaid, hw₂⟩ := perform_string hn he hvalue hstring
    rw [← hsaid.store] at hinteger
    obtain ⟨w₃, -, hw₃⟩ := perform_integer hn hw₂ hinteger
    exact ⟨w₃, hw₃⟩

/-- A world in which the two functions have their names. -/
def numeralWorld : World :=
  let named := World.blank.store.define 0 "string" (.builtin (.core .string) 0)
  { World.blank with store := (named.1.define 0 "integer" (.builtin (.core .integer) 0)).1 }

/-- Minus five is no statement, but it comes back from its text. -/
theorem integer_literals_minus_five :
    (-5 : Int).natAbs.repr.length ≤ Number.digitLimit ∧
      (∃ ts, scan "-5" = .ok (⟨.operator, "-"⟩ :: ts) ∧
        ∃ inside expected atEnd, (parse (⟨.operator, "-"⟩ :: ts)).result =
          .error (.rejected inside expected atEnd)) ∧
      ∃ w, numeralWorld.perform (interpret 3 (.evaluate 0 (.call (.lookup "integer")
          [("value", .call (.lookup "string") [("value", .constant (.int (-5)))])]))) =
            (.ok (.value (.constant (.int (-5)))), w) := by
  have hn : (-5 : Int).natAbs.repr.length ≤ Number.digitLimit := by decide
  obtain ⟨text, htext, -, hminus, hback⟩ := integer_literals (-5) hn
  obtain rfl : "-5" = text := Except.ok.inj ((intText_of_length_le hn).symm.trans htext)
  exact ⟨hn, hminus (by decide), hback numeralWorld numeralWorld 0 0 (.constant (.int (-5))) _
    rfl rfl ⟨0, rfl⟩ ⟨0, rfl⟩⟩

end Act

end Parley
