import Parley.Proofs.Eval.Parameters
import Parley.Proofs.World.Output

/-!
# Failures that can be caught

A builtin function whose body fails reports the class of the fault and the texts that it carries, as
an error of the scope that called it, and such errors are what `try` turns into null. But only texts
can be put into a report. A fault that carries anything else, a number, bytes or another fault, fails
again while it is reported, and this second failure is none that `try` catches.

## Main results

* `Fault.textual_iff`: which faults carry texts only.
* `Act.failure_caught_iff`: what becomes of the failure of a builtin function, and of an attempt to
  call it.
-/

namespace Parley

open List

/-! ### Faults and their texts -/

namespace Fault

/-- Everything that the fault carries is text. -/
def Textual (f : Fault) : Prop :=
  ∀ p ∈ f.particulars, ∃ s, p = .text s

theorem textual_evaluation (m : String) : (evaluation m).Textual := by
  intro p hp
  exact ⟨m, mem_singleton.mp hp⟩

/-- **The faults that carry something else than texts**: those of files, of bytes that cannot be
decoded, of entries that are looked up by a number, and those of the system below that carry such
items. -/
theorem textual_iff (f : Fault) :
    f.Textual ↔ (∀ key, f ≠ .missingNumber key) ∧ (∀ fault path, f ≠ .file fault path) ∧
      (∀ bytes start stop reason, f ≠ .undecodable bytes start stop reason) ∧
      ∀ label items message, f = .system label items message → ∀ p ∈ items, ∃ s, p = .text s := by
  constructor
  · intro h
    refine ⟨?_, ?_, ?_, ?_⟩
    · rintro key rfl
      obtain ⟨s, hs⟩ := h (.number key) mem_cons_self
      cases hs
    · rintro fault path rfl
      obtain ⟨s, hs⟩ := h (.number (fileNumber fault)) mem_cons_self
      cases hs
    · rintro bytes start stop reason rfl
      obtain ⟨s, hs⟩ := h (.bytes bytes) (mem_cons_of_mem _ mem_cons_self)
      cases hs
    · rintro label items message rfl
      exact h
  · rintro ⟨hnumber, hfile, hbytes, hsystem⟩ p hp
    unfold particulars at hp
    split at hp
    · exact ⟨_, mem_singleton.mp hp⟩
    · exact absurd rfl (hnumber _)
    · exact absurd rfl (hfile _ _)
    · exact absurd rfl (hbytes _ _ _ _)
    · rcases mem_cons.mp hp with rfl | hp
      · exact ⟨_, rfl⟩
      · exact ⟨_, mem_singleton.mp hp⟩
    · cases hp
    · exact hsystem _ _ _ rfl p hp
    · split at hp
      · exact ⟨_, mem_singleton.mp hp⟩
      · cases hp

theorem firstOther_eq_none_iff {i : Nat} {items : List Particular} :
    firstOther i items = none ↔ ∀ p ∈ items, ∃ s, p = .text s := by
  fun_induction firstOther i items with
  | case1 => simp
  | case2 i s rest ih => simp [ih]
  | case3 i p rest hp =>
    simp only [reduceCtorEq, forall_mem_cons, false_iff]
    rintro ⟨⟨s, rfl⟩, -⟩
    exact hp s rfl

theorem exists_joined_of_textual {f : Fault} (h : f.Textual) : ∃ text, f.joined = .ok text := by
  rw [joined, firstOther_eq_none_iff.mpr h]
  exact ⟨_, rfl⟩

theorem exists_joined_of_not_textual {f : Fault} (h : ¬ f.Textual) :
    ∃ i kind, f.joined = .error (.joinItem i kind) := by
  rw [joined]
  split
  · next i kind hfirst => exact ⟨i, kind, rfl⟩
  · next hnone => exact absurd (firstOther_eq_none_iff.mp hnone) h

end Fault

/-! ### Functions that report their failures -/

/-- The functions that report what goes wrong in them. -/
def Builtin.guarded : Builtin → Bool
  | .core .set | .operator _ | .time _ => false
  | _ => true

namespace Act

variable {run : Run} {scope depth : Nat} {args : Args} {f : Builtin} {fault : Fault} {w w₁ : World}

/-- What a function does, before anybody looks whether it has failed. -/
def body (run : Run) (scope : Nat) (args : Args) : Builtin → Act Answer
  | .core f => do
    let a ← core run scope f args
    return Answer.value (← deref a)
  | .http f => httpAction scope f args
  | .file f => fileAction f args
  | .session f => do
    match f with
    | .save => saveSession scope args
    | .open => openSession run scope args
    | .clear => clearSession scope
    return nothing
  | .set f => setAction f args
  | f => runBuiltin run scope f args

/-- The guarded functions report every fault of their body, or every one that is not reported yet. -/
theorem runBuiltin_eq (h : f.guarded) :
    runBuiltin run scope f args = reportOthers scope (body run scope args f) ∨
      runBuiltin run scope f args = reportAll scope (body run scope args f) := by
  cases f with
  | core f =>
    cases f with
    | set => cases h
    | _ => exact .inl rfl
  | operator o | time f => cases h
  | _ => exact .inr rfl

/-! ### What becomes of a failure -/

theorem perform_reportFault_of_textual (h : fault.Textual) (w : World) :
    ∃ m w₂, w.perform (reportFault scope fault : Act Answer) = (.error (.evaluation m), w₂) := by
  obtain ⟨text, htext⟩ := Fault.exists_joined_of_textual h
  obtain ⟨w₂, hw₂⟩ := exists_perform_error Answer w scope (fault.label ++ ": " ++ text)
  refine ⟨fault.label ++ ": " ++ text, w₂, ?_⟩
  rwa [reportFault, htext]

/-- A fault that carries something else than texts cannot be reported: this fails in turn. -/
theorem perform_reportFault_of_not_textual (h : ¬ fault.Textual) (w : World) :
    ∃ i kind, w.perform (reportFault scope fault : Act Answer) = (.error (.joinItem i kind), w) := by
  obtain ⟨i, kind, hjoined⟩ := Fault.exists_joined_of_not_textual h
  refine ⟨i, kind, ?_⟩
  rw [reportFault, hjoined]
  rfl

section

variable (hf : f.guarded)

include hf

/-- Of a success of the body the function makes nothing else. -/
theorem runBuiltin_of_ok {a : Answer} (hbody : w.perform (body run scope args f) = (.ok a, w₁)) :
    w.perform (runBuiltin run scope f args) = (.ok a, w₁) := by
  rcases @runBuiltin_eq run scope args f hf with heq | heq
  · rw [heq, reportOthers, perform_tryCatch, hbody]
  · rw [heq, reportAll, perform_tryCatch, hbody]

section

variable (hbody : w.perform (body run scope args f) = (.error fault, w₁))

include hbody

/-- Of a failure of the body the function makes what reporting makes of it, unless it has been
reported already. -/
theorem perform_runBuiltin :
    w.perform (runBuiltin run scope f args) = w₁.perform (reportFault scope fault) ∨
      ∃ m, fault = .evaluation m ∧
        w.perform (runBuiltin run scope f args) = (.error (.evaluation m), w₁) := by
  rcases @runBuiltin_eq run scope args f hf with heq | heq
  · rw [heq, reportOthers, perform_tryCatch, hbody]
    cases fault with
    | evaluation m => exact .inr ⟨m, rfl, rfl⟩
    | _ => exact .inl rfl
  · rw [heq, reportAll, perform_tryCatch, hbody]
    exact .inl rfl

theorem runBuiltin_of_textual (h : fault.Textual) :
    ∃ m w₂, w.perform (runBuiltin run scope f args) = (.error (.evaluation m), w₂) := by
  rcases perform_runBuiltin hf hbody with hrun | ⟨m, -, hrun⟩
  · rw [hrun]
    exact perform_reportFault_of_textual h w₁
  · exact ⟨m, w₁, hrun⟩

theorem runBuiltin_of_not_textual (h : ¬ fault.Textual) :
    ∃ i kind, w.perform (runBuiltin run scope f args) = (.error (.joinItem i kind), w₁) := by
  rcases perform_runBuiltin hf hbody with hrun | ⟨m, rfl, -⟩
  · rw [hrun]
    exact perform_reportFault_of_not_textual h w₁
  · exact absurd (Fault.textual_evaluation m) h

theorem runBuiltin_of_error :
    ∃ fault' w₂, w.perform (runBuiltin run scope f args) = (.error fault', w₂) := by
  by_cases htext : fault.Textual
  · obtain ⟨m, w₂, hrun⟩ := runBuiltin_of_textual hf hbody htext
    exact ⟨.evaluation m, w₂, hrun⟩
  · obtain ⟨i, kind, hrun⟩ := runBuiltin_of_not_textual hf hbody htext
    exact ⟨.joinItem i kind, w₁, hrun⟩

end

end

/-! ### Attempts -/

/-- A call gets as far as the body of a builtin function: the arguments and the function are
evaluated, and the arguments pass the check. -/
def Arrives (run : Run) (scope : Nat) (w : World) (function : Expr)
    (arguments : List (String × Expr)) (f : Builtin) (args : Args) (w₁ : World) : Prop :=
  ∃ copy u v x, w.perform (evaluateArgs run scope arguments) = (.ok args, u) ∧
    u.perform (evaluateValue run scope function) = (.ok (.builtin f copy), v) ∧
    v.perform (checkArgs scope args (Params.toData f.params)) = (.ok (), x) ∧
    x.perform (foreground "yellow") = (.ok (), w₁)

/-- A call that gets as far as the body comes to what the function comes to. -/
theorem perform_call_of_arrives {function : Expr} {arguments : List (String × Expr)}
    (h : Arrives (interpret (depth + 1)) scope w function arguments f args w₁) :
    (w.perform (interpret (depth + 2) (.evaluate scope (.call function arguments)))).1 =
      (w₁.perform (runBuiltin (interpret depth) scope f args)).1 := by
  obtain ⟨copy, u, v, x, hargs, hfunction, hcheck, hyellow⟩ := h
  rcases hrun : w₁.perform (runBuiltin (interpret depth) scope f args) with ⟨r, w₂⟩
  have happly : w₁.perform (interpret (depth + 1) (.apply scope (.builtin f copy) args)) = (r, w₂) :=
    hrun
  obtain ⟨w₃, hw₃, -⟩ := perform_andThen happly prints_reset
  show (w.perform (evaluateArgs (interpret (depth + 1)) scope arguments >>= _)).1 = _
  rw [perform_bind_ok hargs, perform_bind_ok hfunction]
  show (v.perform (checkArgs scope args (Params.toData f.params) >>= _)).1 = _
  rw [perform_bind_ok hcheck, perform_bind_ok hyellow, hw₃]

/-- **An attempt** gives null for an error, and passes every other failure on. -/
theorem perform_attempt {e : Expr}
    (h : (w.perform (interpret depth (.evaluate scope e))).1 = .error fault) :
    (w.perform (interpret (depth + 1) (.evaluate scope (.attempt e)))).1 = .ok (.value .null) ∧
        (∃ m, fault = .evaluation m) ∨
      (w.perform (interpret (depth + 1) (.evaluate scope (.attempt e)))).1 = .error fault ∧
        ∀ m, fault ≠ .evaluation m := by
  obtain ⟨w₁, hw₁⟩ : ∃ w₁, w.perform (interpret depth (.evaluate scope e)) = (.error fault, w₁) :=
    ⟨_, Prod.ext h rfl⟩
  rw [interpret, step, evaluate, perform_bind, perform_tryCatch, perform_bind, hw₁]
  cases fault with
  | evaluation m => exact .inl ⟨rfl, m, rfl⟩
  | _ =>
    refine .inr ⟨rfl, ?_⟩
    intro m hm
    cases hm

/-- **Which failures can be caught.** If the body of a guarded function fails with a fault that
carries nothing but texts, the function fails with an error of its scope, and an attempt to call it
gives null. If the fault carries anything else, the function fails with another fault, that a text was
expected, and so does the attempt. The faults that carry something else are those of files, of bytes
that cannot be decoded, of entries looked up by a number, and those of the system below that have such
items, like that of a connection that is not made. -/
theorem failure_caught_iff (hf : f.guarded) (depth scope : Nat) (args : Args) (w w₁ : World)
    (fault : Fault) (hbody : w.perform (body (interpret depth) scope args f) = (.error fault, w₁)) :
    (∀ copy, let call := w.perform (interpret (depth + 1) (.apply scope (.builtin f copy) args))
      (fault.Textual → ∃ m, call.1 = .error (.evaluation m)) ∧
      (¬ fault.Textual → ∃ i kind, call = (.error (.joinItem i kind), w₁))) ∧
    (∀ w₀ function arguments, Arrives (interpret (depth + 1)) scope w₀ function arguments f args w →
      let attempt := (w₀.perform (interpret (depth + 3)
        (.evaluate scope (.attempt (.call function arguments))))).1
      (fault.Textual → attempt = .ok (.value .null)) ∧
      (¬ fault.Textual → ∃ i kind, attempt = .error (.joinItem i kind))) ∧
    (fault.Textual ↔ (∀ key, fault ≠ .missingNumber key) ∧
      (∀ problem path, fault ≠ .file problem path) ∧
      (∀ bytes start stop reason, fault ≠ .undecodable bytes start stop reason) ∧
      ∀ label items message, fault = .system label items message →
        ∀ p ∈ items, ∃ s, p = .text s) := by
  refine ⟨?_, ?_, fault.textual_iff⟩
  · intro copy call
    refine ⟨fun htext => ?_, fun htext => ?_⟩
    · obtain ⟨m, w₂, hrun⟩ := runBuiltin_of_textual hf hbody htext
      exact ⟨m, congrArg Prod.fst hrun⟩
    · exact runBuiltin_of_not_textual hf hbody htext
  · intro w₀ function arguments harrives attempt
    have hcall := perform_call_of_arrives harrives
    refine ⟨fun htext => ?_, fun htext => ?_⟩
    · obtain ⟨m, w₂, hrun⟩ := runBuiltin_of_textual hf hbody htext
      rw [hrun] at hcall
      obtain ⟨hnull, -⟩ | ⟨-, hne⟩ := perform_attempt hcall
      · exact hnull
      · exact absurd rfl (hne m)
    · obtain ⟨i, kind, hrun⟩ := runBuiltin_of_not_textual hf hbody htext
      rw [hrun] at hcall
      obtain ⟨-, m, hm⟩ | ⟨hother, -⟩ := perform_attempt hcall
      · cases hm
      · exact ⟨i, kind, hother⟩

/-- `try source(file: "")`: no file has the empty name, so this fails, and not with an error. -/
theorem failure_caught_iff_source :
    let w := (World.blank.perform (assign 0 "source" (.builtin (.core .source) 0))).2
    let arguments := [("file", Expr.constant (.text ""))]
    let attempt := (w.perform (interpret (0 + 3)
      (.evaluate 0 (.attempt (.call (.lookup "source") arguments))))).1
    (Builtin.core .source).guarded ∧
      (w.perform (body (interpret 0) 0 [("file", .value (.text ""))] (.core .source))).1 =
        .error (.file .missing "") ∧
      ∃ i kind, attempt = .error (.joinItem i kind) := by
  intro w arguments attempt
  let yellow := w.given (.foreground "yellow")
  have hbody : yellow.perform (body (interpret 0) 0 [("file", .value (.text ""))] (.core .source)) =
      (.error (.file .missing ""), yellow) := by
    rfl
  have harrives : Arrives (interpret (0 + 1)) 0 w (.lookup "source") arguments (.core .source)
      [("file", .value (.text ""))] yellow :=
    ⟨0, w, w, w, rfl, rfl, rfl, rfl⟩
  have hnot : ¬ (Fault.file .missing "").Textual := by
    rw [Fault.textual_iff]
    exact fun h => h.2.1 _ _ rfl
  exact ⟨rfl, rfl, ((failure_caught_iff rfl 0 0 _ yellow yellow _ hbody).2.1 w _ _ harrives).2 hnot⟩

end Act

end Parley
