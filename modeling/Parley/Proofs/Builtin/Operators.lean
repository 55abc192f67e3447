import Parley.Proofs.Eval.Checking
import Parley.Proofs.Grammar.Operations
import Parley.Proofs.Token.Patterns

/-!
# Operators that are defined

A new operator is a variable whose name is a sign. The sign is looked at before it is taken: it has
to be a run of operator characters, but a line feed after them goes unnoticed. Whether the sign is
of any use is decided when a text is read. There a run of operator characters is an operator, with
one exception, since an equals sign before a blank assigns; and a line feed is part of no operator.
-/

namespace Parley

open List
open Parley.Text

namespace Token

variable {sign x y : String}

/-- The characters are those of operators, and there are some. -/
def OperatorRun (cs : List Char) : Prop :=
  cs ≠ [] ∧ ∀ c ∈ cs, isOperatorChar c = true

/-- The text of an operation: a sign between two names, with single spaces. -/
def operationText (x sign y : String) : String :=
  x ++ " " ++ sign ++ " " ++ y

theorem toList_operationText (x sign y : String) : (operationText x sign y).toList =
      x.toList ++ ' ' :: (sign.toList ++ ' ' :: (y.toList ++ [])) := by
  simp [operationText]

/-- A token between two names, if it is read as it is before a blank. -/
theorem scan_operationText {t : Token} (hx : IsName x.toList) (hy : IsName y.toList)
    (h : ∀ {cs ts}, Scans cs ts → Scans (t.text.toList ++ ' ' :: cs) (t :: ts)) :
    scan (operationText x t.text y) = .ok [⟨.name, x⟩, t, ⟨.name, y⟩] := by
  rw [scan_eq_ok_iff, toList_operationText]
  have hlast := (legible_name hy).scans scans_nil rfl
  exact (legible_name hx).scans ((h hlast).blank rfl) rfl

/-- Between two names a sign is read as an operator if it is one and does not assign. -/
theorem scan_operation_iff (hx : IsName x.toList) (hy : IsName y.toList) :
    scan (operationText x sign y) = .ok [⟨.name, x⟩, ⟨.operator, sign⟩, ⟨.name, y⟩] ↔
      OperatorRun sign.toList ∧ sign ≠ "=" := by
  constructor
  · intro hscan
    refine ⟨?_, ?_⟩
    · obtain ⟨c, cs, hsign, hchars⟩ := Readable.exists_operator (t := ⟨.operator, sign⟩)
        ⟨_, _, hscan, by simp⟩ rfl
      rw [hsign]
      exact ⟨cons_ne_nil c cs, hchars⟩
    · rintro rfl
      -- With the same characters the equals sign is a token of another kind.
      have hassigns := scan_operationText (t := ⟨.eq, "="⟩) hx hy fun hcs =>
        @Scans.lexeme _ '=' _ [] _ (hcs.blank rfl) rfl (by decide) rfl
      cases hscan.symm.trans hassigns
  · rintro ⟨⟨hne, hchars⟩, heq⟩
    obtain ⟨c, cs, hsign⟩ := exists_cons_of_ne_nil hne
    rw [hsign] at hchars
    exact scan_operationText (t := ⟨.operator, sign⟩) hx hy fun hcs =>
      (legible_operator hsign hchars heq).scans (hcs.blank rfl) rfl

end Token

namespace Act

open Token

variable {w w' : World} {scope copy depth : Nat} {args : Args} {a target function : Answer}
  {sign x y : String} {α : Type} {b : α}

/-- Signs are looked at from their run of operator characters on. -/
theorem span_isOperatorChar {op after : List Char} (hop : ∀ c ∈ op, isOperatorChar c = true)
    (hafter : ∀ c more, after = c :: more → isOperatorChar c = false) :
    (op ++ after).span isOperatorChar = (op, after) := by
  obtain ⟨htake, hdrop⟩ := takeWhile_eq_of_ends hop hafter
  rw [span_eq_takeWhile_dropWhile, htake, hdrop]

/-- **Which signs are taken**: runs of operator characters, with or without a line feed. -/
theorem isOperatorName_iff : isOperatorName sign = true ↔
      ∃ op, OperatorRun op ∧ (sign.toList = op ∨ sign.toList = op ++ ['\n']) := by
  constructor
  · intro h
    obtain ⟨op, after, hsign, -, hchars, hafter⟩ := exists_span isOperatorChar sign.toList
    rw [isOperatorName, hsign, span_isOperatorChar hchars hafter] at h
    refine ⟨op, ?_, ?_⟩
    · cases op with
      | nil => cases h
      | cons c op => exact ⟨cons_ne_nil c op, hchars⟩
    · split at h
      next => cases h
      next heq => simp_all
      next heq => simp_all
      next => cases h
  · rintro ⟨_ | ⟨c, op⟩, ⟨hne, hchars⟩, hsign⟩
    · exact absurd rfl hne
    · rcases hsign with hsign | hsign
      · rw [isOperatorName, hsign, ← append_nil (c :: op),
          span_isOperatorChar hchars fun _ _ hnil => by cases hnil]
      · rw [isOperatorName, hsign, span_isOperatorChar hchars fun _ _ hfeed => by cases hfeed; rfl]
        rfl

/-- A sign that is taken is a run of operator characters unless it ends with a line feed. -/
theorem operatorRun_iff (h : isOperatorName sign = true) :
    OperatorRun sign.toList ↔ sign.toList.getLast? ≠ some '\n' := by
  constructor
  · intro hrun hfeed
    cases hrun.2 '\n' (mem_of_getLast? hfeed)
  · obtain ⟨op, hop, hsign | hsign⟩ := isOperatorName_iff.mp h
    · intro _
      rwa [hsign]
    · intro hlast
      rw [hsign] at hlast
      exact absurd getLast?_concat hlast

theorem Denies.not_ok {x : Act α} (h : Denies w x) : w.perform x ≠ (.ok b, w') := by
  obtain ⟨fault, w₁, hfails, -⟩ := h
  rw [hfails]
  rintro ⟨⟩

/-- What follows an error does not come about. -/
theorem not_perform_error_bind {β : Type} {k : α → Act β} {message : String} {b : β} :
    w.perform (error scope message >>= k) ≠ (.ok b, w') :=
  ((denies_error w scope message).bind k).not_ok

/-- An operator is defined only if its sign is taken, and then its variable holds the function. -/
theorem perform_defineOperator {f : Value} {u : Unit}
    (h : w.perform (defineOperator scope sign f) = (.ok u, w')) :
    isOperatorName sign = true ∧ w'.store = (w.store.define scope sign f).1 := by
  unfold defineOperator at h
  dsimp only at h
  split at h
  · obtain ⟨params, w₁, hparams, hrest⟩ := perform_bind_eq_ok_iff.mp h
    obtain rfl : w₁ = w := congrArg Prod.snd (hparams.symm.trans (perform_paramsOf scope f w))
    clear h
    split at hrest
    · exact absurd hrest not_perform_error_bind
    · next hname =>
      refine ⟨by simpa using hname, ?_⟩
      obtain ⟨hasLeft, w₂, hleft, htest⟩ := perform_bind_eq_ok_iff.mp hrest
      rw [← leaves_ofResult _ w₁ w₂ _ hleft]
      split at htest
      · obtain ⟨hasRight, w₃, hright, hlast⟩ := perform_bind_eq_ok_iff.mp htest
        rw [← leaves_ofResult _ w₂ w₃ _ hright]
        split at hlast
        · exact absurd hlast not_perform_error_bind
        · cases hlast
          rfl
      · next hmissing =>
        rw [Bool.eq_false_iff.mpr hmissing] at htest
        exact absurd htest not_perform_error_bind
  · cases h

/-- If faults are reported, the success of an action is that of the action itself. -/
theorem perform_of_reportOthers {x : Act α}
    (h : w.perform (reportOthers scope x) = (.ok b, w')) : w.perform x = (.ok b, w') := by
  have hreport (fault : Fault) (w₁ : World) : Denies w₁ (reportFault scope fault : Act α) :=
    (fixed_ofResult fault.joined).onlyPrints.denies fun _ w₂ _ => denies_error w₂ scope _
  unfold reportOthers at h
  rw [perform_tryCatch] at h
  rcases hx : w.perform x with ⟨fault | c, w₁⟩
  · rw [hx] at h
    cases fault with
    | evaluation message => cases h
    | _ => exact absurd h (hreport _ w₁).not_ok
  · rwa [hx] at h

/-- **An operator that has been defined can be used.** If the definition of an operator succeeds,
its sign is a variable that holds the function; and a text that has the sign between two names is
read as the operation, which calls this variable, unless the sign is the equals sign or ends with a
line feed. -/
theorem defined_operator_usable_iff (hwf : w.store.WellFormed)
    (hscope : scope < w.store.scopes.size)
    (hsym : args.lookup "sym" = some target) (hsign : w.store.deref target = .text sign)
    (hfunc : args.lookup "func" = some function)
    (hdefined : w.perform (interpret (depth + 1)
      (.apply scope (.builtin (.core .defOperator) copy) args)) = (.ok a, w'))
    (hx : IsName x.toList) (hy : IsName y.toList) :
    let operation : List Token := [⟨.name, x⟩, ⟨.operator, sign⟩, ⟨.name, y⟩]
    w'.store.valueOf? scope sign = some (w.store.deref function) ∧
      (Grammar.parse operation).result = .ok (.opCall (.lookup sign) (.lookup x) (.lookup y)) ∧
      (scan (x ++ " " ++ sign ++ " " ++ y) = .ok operation ↔
        sign ≠ "=" ∧ sign.toList.getLast? ≠ some '\n') := by
  obtain ⟨b, w₁, hcore, hlast⟩ := perform_bind_eq_ok_iff.mp (perform_of_reportOthers hdefined)
  obtain rfl : w' = w₁ := by cases hlast; rfl
  have hargs : w.perform (core (interpret depth) scope .defOperator args) =
      w.perform (defineOperator scope sign (w.store.deref function) >>= fun _ =>
        pure (constant (.text sign))) := by
    rw [core, argString, bind_assoc, perform_bind_ok (perform_argValue hsym), hsign]
    exact perform_bind_ok (perform_argValue hfunc) _
  rw [hargs] at hcore
  obtain ⟨u, w₂, hdefine, hend⟩ := perform_bind_eq_ok_iff.mp hcore
  obtain rfl : w' = w₂ := by cases hend; rfl
  obtain ⟨hname, hstore⟩ := perform_defineOperator hdefine
  refine ⟨?_, Grammar.parse_of_finds (Grammar.operations_statement (.name x) [(sign, .name y)]), ?_⟩
  · rw [hstore]
    exact Store.valueOf?_define_self hwf hscope sign _
  · exact (scan_operation_iff hx hy).trans (and_comm.trans (and_congr_right' (operatorRun_iff hname)))

/-- The sign `<=>` is defined as an operator, with a function for comparing, and then read. -/
theorem defined_operator_usable_arrow :
    let define : Task := .apply 0 (.builtin (.core .defOperator) 0)
      [("sym", .value (.text "<=>")), ("func", .value (.builtin (.operator .equal) 0))]
    let w := (World.blank.perform (interpret 1 define)).2
    w.store.valueOf? 0 "<=>" = some (.builtin (.operator .equal) 0) ∧
      (Grammar.parse [⟨.name, "x"⟩, ⟨.operator, "<=>"⟩, ⟨.name, "y"⟩]).result =
        .ok (.opCall (.lookup "<=>") (.lookup "x") (.lookup "y")) ∧
      scan "x <=> y" = .ok [⟨.name, "x"⟩, ⟨.operator, "<=>"⟩, ⟨.name, "y"⟩] := by
  intro define w
  have hname (c : Char) (h : isNameStart c = true) (hfree : keywords.lookup [c] = none) :
      IsName [c] := ⟨⟨c, [], rfl, h, by simp⟩, hfree⟩
  have hdefined : World.blank.perform (interpret 1 define) = (.ok (constant (.text "<=>")), w) :=
    rfl
  obtain ⟨hvalue, hparse, hscan⟩ := defined_operator_usable_iff Store.wellFormed_newRoot_empty
    Nat.zero_lt_one rfl rfl rfl hdefined (x := "x") (y := "y") (hname 'x' rfl rfl)
    (hname 'y' rfl rfl)
  exact ⟨hvalue, hparse, hscan.mpr (by decide)⟩

end Act

end Parley
