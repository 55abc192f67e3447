import Parley.Proofs.Session.Rounds
import Parley.Proofs.Store.Naming

/-!
# What a statement leaves behind

A statement is announced, evaluated, shown, and its value becomes the last result. All but the
evaluation is of no consequence for variables: what comes before writes on the console, and what
comes after it adds to the store at most and writes the last result, if nothing has gone wrong
(`Act.Settled`). So the variables after a statement, the last result apart, are those after its
evaluation.
-/

namespace Parley

open Store (Undisturbed Reaches OneName)

namespace Act

variable {k : Nat} {e : Expr} {m text : String}

/-! ### One statement -/

/-- After the evaluation of a statement something may have been added to the store, and then the last
result has been written, unless something has gone wrong. -/
inductive Settled (k : Nat) (s : Store) : Store → Prop
  | failed {s' : Store} (h : s.Undisturbed s') (hreach : s.Reaches s') : Settled k s s'
  | done {s₁ : Store} (h : s.Undisturbed s₁) (hreach : s.Reaches s₁) (v : Value) :
      Settled k s (s₁.define k World.resultName v).1

/-- The variables are those from before, the last result apart. -/
theorem Settled.valueOf?_eq {s s' : Store} (h : Settled k s s') (hwf : s.WellFormed)
    (hone : s.OneName) (hk : k < s.scopes.size) (hm : m ≠ World.resultName) (j : Nat) :
    s'.valueOf? j m = s.valueOf? j m := by
  cases h with
  | failed h => exact h.valueOf?_eq hwf j m
  | done h hreach v =>
    have hk₁ := Nat.lt_of_lt_of_le hk hreach.grows.scopes
    rw [(hreach.oneName hwf hone).valueOf?_define_other (hreach.wellFormed hwf) hk₁ hm,
      h.valueOf?_eq hwf]

/-- What is done about the failure of a statement is said on the console. -/
theorem said_tryStatement (run : Run) (k : Nat) (e : Expr) (w : World) :
    (w.perform (runStatement run k e)).2.Said (w.perform (tryStatement run k e)).2 := by
  rw [tryStatement, perform_tryCatch]
  rcases w.perform (runStatement run k e) with ⟨f | _, w₁⟩
  · exact (perform_afterFailure k f w₁).1
  · exact .refl w₁

/-- A statement that has no text is not evaluated. -/
theorem runStatement_of_error {f : Fault} (h : e.shown.result = .error f) (run : Run) (k : Nat)
    (w : World) : w.Said (w.perform (runStatement run k e)).2 := by
  obtain ⟨w₁, hw₁, hsaid⟩ := prints_traceAll e.shown.notes w
  have hshown : w.perform (ofTraced e.shown) = (.error f, w₁) := by
    rw [ofTraced, perform_bind_ok hw₁, h]
    rfl
  rwa [runStatement, perform_bind, hshown]

/-- **What a statement leaves behind** is what its evaluation has left, the last result apart. -/
theorem tryStatement_settled (h : e.shown.result = .ok text) (run : Run) (k : Nat) (w : World) :
    ∃ w₁, w.Said w₁ ∧ Settled k (w₁.perform (run (.evaluate k e))).2.store
      (w.perform (tryStatement run k e)).2.store := by
  obtain ⟨w₀, hw₀, hsaid₀⟩ := perform_ofTraced_of_ok h w
  obtain ⟨w₁, hw₁, hsaid₁⟩ := prints_title (String.ofList (text.toList.take 30)) w₀
  refine ⟨w₁, hsaid₀.trans hsaid₁, ?_⟩
  rw [(said_tryStatement run k e w).store, runStatement, perform_bind_ok hw₀, perform_bind_ok hw₁, perform_bind]
  rcases w₁.perform (run (.evaluate k e)) with ⟨f | a, w₂⟩
  · exact .failed (.refl _) .refl
  · -- Showing the value adds to the store at most.
    have hkept : Makes Undisturbed (showResult k e a) :=
      makes_of_keeps fun _ => Keeps.showResult k e a
    have hreach : Makes Reaches (showResult k e a) := makes_of_keeps fun _ => Keeps.showResult k e a
    have hkept₂ := hkept w₂
    have hreach₂ := hreach w₂
    dsimp only
    rw [perform_bind]
    generalize w₂.perform (showResult k e a) = shown at hkept₂ hreach₂ ⊢
    obtain ⟨f | _, w₃⟩ := shown
    · exact .failed hkept₂ hreach₂
    · exact .done hkept₂ hreach₂ _

end Act

/-! ### Statements one after the other -/

/-- The world after statements of a scope, whatever comes of each of them. -/
def World.after (w : World) (depth k : Nat) (es : List Expr) : World :=
  es.foldl (fun w e => (w.perform (Act.tryStatement (Act.interpret depth) k e)).2) w

namespace Act

variable {w : World} {depth k c : Nat} {e : Expr} {x m : String}

/-- What every statement keeps of the store is kept by one statement after the other. -/
theorem after_holds {P : Store → Prop}
    (h : ∀ e, Keeps (Holding P) (tryStatement (interpret depth) k e)) (hw : P w.store)
    (es : List Expr) : P (w.after depth k es).store := by
  induction es generalizing w with
  | nil => exact hw
  | cons e es ih => exact ih ((h e).holds hw)

/-- A declaration of a variable, with a value or without, or an assignment to it. The right side
changes nothing itself. -/
inductive PlainWrite (x : String) : Expr → Prop
  | declare : PlainWrite x (.define x)
  | define {e : Expr} (h : e.quiet) : PlainWrite x (.assign (.define x) e)
  | assign {e : Expr} (h : e.quiet) : PlainWrite x (.assign (.lookup x) e)

/-- The store has come from one empty scope. -/
abbrev Founded : Nat → Store → Prop :=
  Reached Store.empty.newRoot.1

theorem Founded.oneName {s : Store} (h : Founded k s) : s.OneName :=
  h.reaches.oneName Store.wellFormed_newRoot_empty Store.oneName_newRoot_empty

/-- Writing the value of a quiet expression into the cell of a variable. -/
theorem valueOf?_andWrite (hw : Founded k w.store) (he : e.quiet)
    (hc : w.store.find? k x = some c) (hm : m ≠ x) :
    (w.perform (andWrite (interpret depth (.evaluate k e)) c)).2.store.valueOf? k m =
      w.store.valueOf? k m := by
  have hquiet := interpret_undisturbed depth k e he w
  have hreach := interpret_within depth (.evaluate k e) w hw.wellFormed hw.scope
  rw [andWrite, perform_bind]
  generalize w.perform (interpret depth (.evaluate k e)) = right at hquiet hreach ⊢
  obtain ⟨f | a, w₁⟩ := right
  · exact hquiet.valueOf?_eq hw.wellFormed k m
  · have hone := hreach.oneName hw.wellFormed hw.oneName
    have hc₁ : w₁.store.find? k x = some c := (hquiet.find?_eq hw.wellFormed k x).trans hc
    exact (hone.valueOf?_setCell_other hc₁ hm _ k).trans (hquiet.valueOf?_eq hw.wellFormed k m)

section

variable (h : PlainWrite x e) (hw : Founded k w.store) (hm : m ≠ x)

include h hw hm

/-- The evaluation of a plain write leaves all variables but its own as they were. -/
theorem PlainWrite.valueOf?_evaluate :
    (w.perform (interpret (depth + 2) (.evaluate k e))).2.store.valueOf? k m =
      w.store.valueOf? k m := by
  have hdeclared := hw.oneName.valueOf?_define_other hw.wellFormed hw.scope hm .null k
  cases h with
  | declare =>
    rwa [perform_define w hw.wellFormed hw.scope x (depth + 1)]
  | @define e he =>
    have hdef := Store.define_spec hw.wellFormed hw.scope x .null
    rw [perform_assign (perform_define w hw.wellFormed hw.scope x depth)]
    exact (valueOf?_andWrite (w := { w with store := (w.store.define k x .null).1 })
      (hw.step (.define _ k x .null)) he (Store.find?_of_findName hdef.bound) hm).trans hdeclared
  | @assign e he =>
    cases hc : w.store.find? k x with
    | some c =>
      rw [perform_assign (perform_lookup hc depth)]
      exact valueOf?_andWrite hw he hc hm
    | none =>
      -- There is no such variable, and the lookup that says so changes nothing.
      have hquiet := interpret_undisturbed (depth + 1) k (.lookup x) rfl w
      obtain ⟨f, w', hlookup⟩ := exists_perform_lookup_error hc depth
      rw [perform_assign_of_error hlookup]
      rw [hlookup] at hquiet
      exact hquiet.valueOf?_eq hw.wellFormed k m

theorem PlainWrite.valueOf?_tryStatement (hresult : m ≠ World.resultName) :
    (w.perform (tryStatement (interpret (depth + 2)) k e)).2.store.valueOf? k m =
      w.store.valueOf? k m := by
  cases hshown : e.shown.result with
  | error f =>
    have hsaid := runStatement_of_error hshown (interpret (depth + 2)) k w
    rw [(hsaid.trans (said_tryStatement (interpret (depth + 2)) k e w)).store]
  | ok text =>
    obtain ⟨w₁, hsaid, hsettled⟩ := tryStatement_settled hshown (interpret (depth + 2)) k w
    rw [← hsaid.store] at hw ⊢
    have hreach := interpret_within (depth + 2) (.evaluate k e) w₁ hw.wellFormed hw.scope
    rw [hsettled.valueOf?_eq (hreach.wellFormed hw.wellFormed)
      (hreach.oneName hw.wellFormed hw.oneName)
      (Nat.lt_of_lt_of_le hw.scope hreach.grows.scopes) hresult]
    exact h.valueOf?_evaluate hw hm

end

/-- A statement keeps to the steps of the store. -/
theorem tryStatement_reached (depth : Nat) (s₀ : Store) (e : Expr) :
    Keeps (Holding (Reached s₀ k)) (tryStatement (interpret depth) k e) :=
  @tryStatement_keeps (stepFrame s₀) () _ k (runs_reached s₀ depth) e

/-- **Plain writes leave all variables but their own as they were**, the last result apart. -/
theorem valueOf?_after {targets : List String} {es : List Expr}
    (hes : ∀ e ∈ es, ∃ x ∈ targets, PlainWrite x e) (hw : Founded k w.store) (hm : m ∉ targets)
    (hresult : m ≠ World.resultName) :
    (w.after (depth + 2) k es).store.valueOf? k m = w.store.valueOf? k m := by
  induction es generalizing w with
  | nil => rfl
  | cons e es ih =>
    obtain ⟨⟨x, hx, he⟩, hes⟩ := List.forall_mem_cons.mp hes
    have hnext := (tryStatement_reached (depth + 2) _ e).holds hw
    refine (ih hes hnext).trans (he.valueOf?_tryStatement hw ?_ hresult)
    rintro rfl
    exact hm hx

end Act

end Parley
