import Parley.Proofs.Eval.Runs
import Parley.Proofs.Store.Scopes

/-!
# Expressions that change nothing

An expression without calls, operators, definitions, assignments and imports (`Expr.quiet`) adds to
the store what it needs for its value, and leaves everything that was there as it was: cells,
arrays, objects, the names of scopes and the tables of services (`Store.Undisturbed`). A function
literal inside it is quiet whatever its body is, since evaluating the literal does not evaluate the
body.
-/

namespace Parley

variable {s s' : Store} {α : Type} {as : List α}

/-- Everything that was in the store is there and as it was. What literals have captured and what
services remember of their calls is not counted. -/
structure Store.Undisturbed (s s' : Store) : Prop where
  cells : ∀ c < s.cells.size, s'.cells[c]? = s.cells[c]?
  arrays : ∀ a < s.arrays.size, s'.arrays[a]? = s.arrays[a]?
  objects : ∀ o < s.objects.size, s'.objects[o]? = s.objects[o]?
  scopes : s'.scopes.size = s.scopes.size
  alike : ∀ k, (s'.scopeAt k).Alike (s.scopeAt k)
  tables : s'.tables = s.tables

namespace Store.Undisturbed

theorem refl (s : Store) : s.Undisturbed s :=
  ⟨fun _ _ => rfl, fun _ _ => rfl, fun _ _ => rfl, rfl, fun _ => ⟨rfl, rfl, rfl⟩, rfl⟩

/-- Entries that are kept twice are kept. -/
theorem getElem?_trans {α : Type} {xs ys zs : Array α} (hxy : ∀ i < xs.size, ys[i]? = xs[i]?)
    (hyz : ∀ i < ys.size, zs[i]? = ys[i]?) : ∀ i < xs.size, zs[i]? = xs[i]? := by
  intro i hi
  have hy : ys[i]? = some xs[i] := (hxy i hi).trans (Array.getElem?_eq_getElem hi)
  obtain ⟨hlt, -⟩ := Array.getElem?_eq_some_iff.mp hy
  exact (hyz i hlt).trans (hxy i hi)

theorem trans {a b c : Store} (h₁ : a.Undisturbed b) (h₂ : b.Undisturbed c) : a.Undisturbed c where
  cells := getElem?_trans h₁.cells h₂.cells
  arrays := getElem?_trans h₁.arrays h₂.arrays
  objects := getElem?_trans h₁.objects h₂.objects
  scopes := h₂.scopes.trans h₁.scopes
  alike k :=
    ⟨(h₂.alike k).base.trans (h₁.alike k).base, (h₂.alike k).names.trans (h₁.alike k).names,
      (h₂.alike k).table.trans (h₁.alike k).table⟩
  tables := h₂.tables.trans h₁.tables

theorem of_addition (h : Addition s s') : s.Undisturbed s' := by
  have same := refl s
  cases h with
  | cell v =>
    exact { same with cells := fun c hc => by simp [Array.getElem?_push, Nat.ne_of_lt hc] }
  | array r =>
    exact { same with arrays := fun a ha => by simp [Array.getElem?_push, Nat.ne_of_lt ha] }
  | object r =>
    exact { same with objects := fun o ho => by simp [Array.getElem?_push, Nat.ne_of_lt ho] }
  | services r | fresh n => exact { same with }
  | flags k f hf =>
    refine { same with scopes := by simp, alike := fun j => ?_ }
    rw [scopeAt_modifyScope]
    split
    · exact hf _
    · exact same.alike j

instance : Tolerant Undisturbed := ⟨refl, trans, fun h => of_addition h.addition⟩

theorem cellValue_eq (h : s.Undisturbed s') {c : Nat} (hc : c < s.cells.size) :
    s'.cellValue c = s.cellValue c := by
  rw [cellValue, cellValue, h.cells c hc]

theorem find?_eq (h : s.Undisturbed s') (hwf : s.WellFormed) (k : Nat) (name : String) :
    s'.find? k name = s.find? k name :=
  find?_congr hwf (fun j _ => (h.alike j).base) (fun j _ => (h.alike j).names) name

theorem valueOf?_eq (h : s.Undisturbed s') (hwf : s.WellFormed) (k : Nat) (name : String) :
    s'.valueOf? k name = s.valueOf? k name := by
  rw [valueOf?, valueOf?, h.find?_eq hwf]
  cases hc : s.find? k name with
  | none => rfl
  | some c => exact congrArg some (h.cellValue_eq (hwf.find?_lt hc))

end Store.Undisturbed

/-! ### Quiet expressions -/

mutual

/-- Has the expression no calls, operators, definitions and assignments? It has no imports either,
as the grammar allows none in the body of a function. The body of a function literal does not count:
it is not evaluated with the literal. -/
def Expr.quiet : Expr → Bool
  | .array es | .block es => Expr.quietAll es
  | .object ps => Expr.quietNamed ps
  | .member e _ | .help e | .attempt e | .group e | .negate e => e.quiet
  | .ifThen c y n => c.quiet && y.quiet && n.quiet
  | .subscript e i => e.quiet && i.quiet
  | .call _ _ | .opCall _ _ _ | .define _ | .assign _ _ | .importName _ => false
  | _ => true

/-- `Expr.quiet` for several expressions. -/
def Expr.quietAll : List Expr → Bool
  | [] => true
  | e :: es => e.quiet && Expr.quietAll es

/-- `Expr.quiet` for named expressions. -/
def Expr.quietNamed : List (String × Expr) → Bool
  | [] => true
  | (_, e) :: ps => e.quiet && Expr.quietNamed ps

end

/-- What is asked of one after the other holds of each. -/
theorem forall_of_cons {P : α → Bool} {all : List α → Bool}
    (hcons : ∀ a as, all (a :: as) = (P a && all as)) (h : all as) :
    ∀ a ∈ as, P a := by
  induction as with
  | nil => exact fun a ha => absurd ha List.not_mem_nil
  | cons a as ih =>
    rw [hcons, Bool.and_eq_true] at h
    exact List.forall_mem_cons.mpr ⟨h.1, ih h.2⟩

/-- What is the greatest of several is as great as each. -/
theorem le_of_cons {f : α → Nat} {greatest : List α → Nat}
    (hcons : ∀ a as, greatest (a :: as) = max (f a) (greatest as)) {a : α}
    (h : a ∈ as) : f a ≤ greatest as := by
  induction as with
  | nil => cases h
  | cons b as ih =>
    rw [hcons]
    rcases List.mem_cons.mp h with rfl | h
    · exact Nat.le_max_left _ _
    · exact Nat.le_trans (ih h) (Nat.le_max_right _ _)

theorem Expr.quiet_of_quietAll {es : List Expr} (h : Expr.quietAll es) : ∀ e ∈ es, e.quiet :=
  forall_of_cons (fun _ _ => rfl) h

theorem Expr.quiet_of_quietNamed {ps : List (String × Expr)} (h : Expr.quietNamed ps) :
    ∀ p ∈ ps, p.2.quiet :=
  forall_of_cons (fun _ _ => rfl) h

namespace Act

open Store (Tolerant Undisturbed)

variable {s₀ : Store}

/-- What a literal captures is not counted. -/
theorem capture_undisturbed (scope site : Nat) :
    Keeps (Holding (Undisturbed s₀)) (capture scope site) := by
  refine Keeps.modifyStore fun s => allows_holding fun h => h.trans ?_
  split
  · exact .refl s
  · exact { Undisturbed.refl s with }

theorem stopLoop_undisturbed (scope : Nat) : Keeps (Holding (Undisturbed s₀)) (stopLoop scope) :=
  Keeps.modifyStore fun s => allows_holding fun h =>
    h.trans (.of_addition (.flags s scope _ fun _ => ⟨rfl, rfl, rfl⟩))

/-- One level of evaluation leaves the store undisturbed if the levels below do. -/
theorem evaluate_undisturbed {run : Run} {scope : Nat}
    (hrun : ∀ e : Expr, e.quiet → Keeps (Holding (Undisturbed s₀)) (run (.evaluate scope e)))
    (e : Expr) (he : e.quiet) : Keeps (Holding (Undisturbed s₀)) (evaluate run scope e) := by
  cases e with
  | array es =>
    have hes : Keeps (Holding (Undisturbed s₀)) (es.mapM (evaluateValue run scope)) :=
      Keeps.mapM fun e h => Keeps.evaluateValue (hrun e (Expr.quiet_of_quietAll he e h))
    unfold evaluate; grind
  | object ps =>
    have hps := (composes_keeps _).evaluateNamed fun p hp =>
      Keeps.evaluateValue (hrun p.2 (Expr.quiet_of_quietNamed he p hp))
    unfold evaluate; grind
  | block es =>
    exact (composes_keeps _).evaluateBlock _ fun e h => hrun e (Expr.quiet_of_quietAll he e h)
  | closure site params body => exact (capture_undisturbed scope site).bind fun _ => Keeps.pure _
  | exit =>
    refine (stopLoop_undisturbed scope).bind fun _ => ?_
    exact (Keeps.treeValue .exit).bind fun v => Keeps.pure _
  | member e name | help e | group e | negate e =>
    have hinner := hrun e he
    unfold evaluate; grind
  | ifThen c y n =>
    simp only [Expr.quiet] at he
    unfold evaluate; grind
  | attempt body => exact Keeps.attempt (hrun body he)
  | subscript e i =>
    simp only [Expr.quiet] at he
    unfold evaluate; grind
  | call | opCall | define | assign | importName => exact absurd he Bool.false_ne_true
  | _ => unfold evaluate; grind

/-- **A quiet expression changes nothing**: whether it gives a value or fails, and however deeply it
nests, it leaves the store undisturbed. -/
theorem interpret_undisturbed (depth scope : Nat) (e : Expr) (he : e.quiet) :
    Makes Undisturbed (interpret depth (.evaluate scope e)) := by
  refine makes_of_keeps fun s₀ => ?_
  induction depth generalizing e with
  | zero => exact Keeps.throw _
  | succ depth ih => exact evaluate_undisturbed ih e he

end Act

end Parley
