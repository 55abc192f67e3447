import Mathlib.Logic.Function.Iterate
import Parley.Proofs.Eval.Parameters

/-!
# How deeply expressions nest

The interpreter counts how deeply tasks are nested, so that every evaluation comes to an end, be it
by the failure that is kept for this. A quiet expression needs no such limit: what is evaluated with
it is its parts and their parts, and that is as deep as it is high (`Expr.height`). With so many
levels its evaluation is complete. It makes no difference whether there are more of them, or what
would be done further down.
-/

namespace Parley

open List

variable {e e' : Expr} {es : List Expr} {ps : List (String × Expr)}

namespace Expr

/-- The expressions that are evaluated with a quiet expression, if they are. -/
def parts : Expr → List Expr
  | .array es | .block es => es
  | .object ps => ps.map Prod.snd
  | .member e _ | .help e | .attempt e | .group e | .negate e => [e]
  | .ifThen c y n => [c, y, n]
  | .subscript e i => [e, i]
  | _ => []

mutual

/-- The number of levels of a quiet expression, itself included. The body of a function literal does
not count. -/
def height : Expr → Nat
  | .array es | .block es => heightAll es + 1
  | .object ps => heightNamed ps + 1
  | .member e _ | .help e | .attempt e | .group e | .negate e => e.height + 1
  | .ifThen c y n => max c.height (max y.height n.height) + 1
  | .subscript e i => max e.height i.height + 1
  | _ => 1

/-- `height` for several expressions. -/
def heightAll : List Expr → Nat
  | [] => 0
  | e :: es => max e.height (heightAll es)

/-- `height` for named expressions. -/
def heightNamed : List (String × Expr) → Nat
  | [] => 0
  | (_, e) :: ps => max e.height (heightNamed ps)

end

theorem height_le_heightAll (h : e ∈ es) : e.height ≤ heightAll es :=
  le_of_cons (fun _ _ => rfl) h

theorem height_le_heightNamed {p : String × Expr} (h : p ∈ ps) : p.2.height ≤ heightNamed ps :=
  le_of_cons (f := fun p => height p.2) (fun _ _ => rfl) h

theorem height_pos (e : Expr) : 0 < e.height := by
  cases e <;> simp [height]

/-- A part is lower than the whole. -/
theorem height_lt_of_mem_parts (h : e' ∈ e.parts) : e'.height < e.height := by
  cases e with
  | array es | block es => exact Nat.lt_succ_of_le (height_le_heightAll h)
  | object ps =>
    obtain ⟨p, hp, rfl⟩ := mem_map.mp h
    exact Nat.lt_succ_of_le (height_le_heightNamed hp)
  | member | help | attempt | group | negate | ifThen | subscript =>
    simp only [parts] at h
    simp only [height]
    grind
  | _ => cases h

/-- The parts of a quiet expression are quiet. -/
theorem quiet_of_mem_parts (he : e.quiet) (h : e' ∈ e.parts) : e'.quiet := by
  cases e with
  | array es | block es => exact quiet_of_quietAll he e' h
  | object ps =>
    obtain ⟨p, hp, rfl⟩ := mem_map.mp h
    exact quiet_of_quietNamed he p hp
  | member | help | attempt | group | negate | ifThen | subscript =>
    simp only [parts] at h
    simp only [quiet] at he
    grind
  | _ => cases h

end Expr

namespace Act

/-! ### One level -/

section Level

variable {run run' : Run} {scope : Nat}

theorem evaluateValue_congr (h : run (.evaluate scope e) = run' (.evaluate scope e)) :
    evaluateValue run scope e = evaluateValue run' scope e := by
  rw [evaluateValue, evaluateValue, h]

theorem mapM_evaluateValue_congr
    (h : ∀ e ∈ es, run (.evaluate scope e) = run' (.evaluate scope e)) :
    es.mapM (evaluateValue run scope) = es.mapM (evaluateValue run' scope) := by
  induction es with
  | nil => rfl
  | cons e es ih =>
    rw [mapM_cons, mapM_cons, evaluateValue_congr (h e mem_cons_self),
      ih fun e' he' => h e' (mem_cons_of_mem e he')]

theorem evaluateNamed_congr (h : ∀ p ∈ ps, run (.evaluate scope p.2) = run' (.evaluate scope p.2)) :
    evaluateNamed run scope ps = evaluateNamed run' scope ps := by
  induction ps with
  | nil => rfl
  | cons p ps ih =>
    rw [evaluateNamed, evaluateNamed, evaluateValue_congr (h p mem_cons_self),
      ih fun q hq => h q (mem_cons_of_mem p hq)]

theorem evaluateBlock_congr (last : Answer)
    (h : ∀ e ∈ es, run (.evaluate scope e) = run' (.evaluate scope e)) :
    evaluateBlock run scope last es = evaluateBlock run' scope last es := by
  induction es generalizing last with
  | nil => rfl
  | cons e es ih =>
    have hrest a := ih a fun e' he' => h e' (mem_cons_of_mem e he')
    rw [evaluateBlock, evaluateBlock, h e mem_cons_self, funext hrest]

/-- **One level**: a quiet expression asks for the evaluation of its parts and for nothing else. -/
theorem evaluate_congr (he : e.quiet)
    (h : ∀ e' ∈ e.parts, run (.evaluate scope e') = run' (.evaluate scope e')) :
    evaluate run scope e = evaluate run' scope e := by
  cases e with
  | array es =>
    have hes : es.mapM (evaluateValue run scope) = es.mapM (evaluateValue run' scope) :=
      mapM_evaluateValue_congr h
    simp only [evaluate, hes]
  | object ps =>
    have hps := evaluateNamed_congr fun p hp => h p.2 (mem_map_of_mem hp)
    simp only [evaluate, hps]
  | block es => exact evaluateBlock_congr _ h
  | member e name | help e | attempt e | group e | negate e =>
    have hinner := h e (mem_singleton_self e)
    simp only [evaluate, giveHelp, evaluateValue, hinner]
  | ifThen c y n =>
    have hc := h c (by simp [Expr.parts])
    have hy := h y (by simp [Expr.parts])
    have hn := h n (by simp [Expr.parts])
    simp only [evaluate, evaluateValue, hc, hy, hn]
  | subscript e i =>
    have hwhole := h e (by simp [Expr.parts])
    have hindex := h i (by simp [Expr.parts])
    simp only [evaluate, evaluateValue, hwhole, hindex]
  | call | opCall | define | assign | importName => exact absurd he Bool.false_ne_true
  | _ => rfl

end Level

/-! ### All levels -/

/-- The interpreter goes down level by level to a failure. -/
theorem interpret_eq_iterate (depth : Nat) :
    interpret depth = step^[depth] fun _ => throw .nestedTooDeeply := by
  induction depth with
  | zero => rfl
  | succ depth ih =>
    rw [Function.iterate_succ_apply', ← ih]
    rfl

/-- **All levels**: if there are as many as a quiet expression has, it makes no difference how many
there are and what is done below them. -/
theorem step_iterate_eq {scope : Nat} (he : e.quiet) (beyond beyond' : Run) {levels levels' : Nat}
    (h : e.height ≤ levels) (h' : e.height ≤ levels') :
    step^[levels] beyond (.evaluate scope e) = step^[levels'] beyond' (.evaluate scope e) := by
  induction levels generalizing e levels' with
  | zero => exact absurd h (Nat.not_le_of_lt e.height_pos)
  | succ levels ih =>
    cases levels' with
    | zero => exact absurd h' (Nat.not_le_of_lt e.height_pos)
    | succ levels' =>
      rw [Function.iterate_succ_apply', Function.iterate_succ_apply']
      refine evaluate_congr he fun e' he' => ?_
      have hlt := Expr.height_lt_of_mem_parts he'
      exact ih (Expr.quiet_of_mem_parts he he') (by omega) (by omega)

/-- **The evaluation of a quiet expression is complete, and changes nothing.** In every scope it
comes to an end within the levels that the expression has: with more of them it comes to the same,
whatever is done below, so that the failure of tasks that nest too deeply has no part in it. And in
every world, whether it gives a value or fails, and even if it is cut short, it leaves everything
that was in the store as it was: cells, arrays and objects, the names of scopes and the tables of
services. -/
theorem quiet_changes_nothing {e : Expr} (he : e.quiet) (scope : Nat) :
    (∀ (beyond : Run) (levels : Nat), e.height ≤ levels →
      step^[levels] beyond (.evaluate scope e) = interpret e.height (.evaluate scope e)) ∧
    ∀ (w : World) (depth : Nat),
      w.store.Undisturbed (w.perform (interpret depth (.evaluate scope e))).2.store := by
  refine ⟨fun beyond levels h => ?_, fun w depth => interpret_undisturbed depth scope e he w⟩
  rw [interpret_eq_iterate]
  exact step_iterate_eq he beyond _ h (Nat.le_refl _)

/-- `[try x, !y][0]`, where the two variables may be missing. -/
def hopefulTree : Expr :=
  .subscript (.array [.attempt (.lookup "x"), .negate (.lookup "y")]) (.constant (.int 0))

theorem quiet_changes_nothing_hopeful :
    hopefulTree.height = 4 ∧ run (.evaluate 0 hopefulTree) = interpret 4 (.evaluate 0 hopefulTree) ∧
      World.blank.store.Undisturbed
        (World.blank.perform (run (.evaluate 0 hopefulTree))).2.store := by
  have hmain := quiet_changes_nothing (e := hopefulTree) rfl 0
  refine ⟨rfl, ?_, hmain.2 World.blank depthLimit⟩
  rw [run, interpret_eq_iterate depthLimit]
  exact hmain.1 _ depthLimit (by decide)

end Act

end Parley
