import Parley.Proofs.Eval.Checking

/-!
# Equal and unequal

The sign `~=` is that of inequality, but the function behind it is the one behind `==`. In a shell
whose operators are as they were at the start the two can be exchanged: whatever the operands do,
the two operations do the same, and a comparison that comes about says with either sign whether the
operands are equal.
-/

namespace Parley

/-- Everything but the settings of the shell is a value of any type. -/
theorem Value.hasType_any {v : Value} (h : ∀ text, v ≠ .setting text) : v.hasType "any" = true := by
  cases v with
  | constant c => rfl
  | setting text => exact absurd rfl (h text)
  | _ => rfl

/-- The signs of comparison stand for the functions that they stand for at the start. -/
def Store.Compares (s : Store) (scope : Nat) : Prop :=
  s.Means scope "==" (.operator .equal) ∧ s.Means scope "~=" (.operator .unequal)

namespace Act

variable {w w₁ w₂ : World} {scope depth : Nat} {args : Args} {l r : Expr} {a b : Answer}

/-- Behind the two signs there is one function. -/
theorem invoke_unequal (copy copy' : Nat) :
    invoke (interpret (depth + 1)) scope (.builtin (.operator .unequal) copy) args =
      invoke (interpret (depth + 1)) scope (.builtin (.operator .equal) copy') args := by
  simp only [invoke, Value.isFunction, Bool.not_true, Bool.false_eq_true, if_false]
  rfl

theorem perform_operands {run : Run} (hl : w.perform (run (.evaluate scope l)) = (.ok a, w₁))
    (hr : w₁.perform (run (.evaluate scope r)) = (.ok b, w₂)) :
    w.perform (evaluateArgs run scope [("left", l), ("right", r)]) =
      (.ok [("left", a), ("right", b)], w₂) :=
  (perform_bind_ok hl _).trans (perform_bind_ok (perform_bind_ok hr _) _)

/-- A comparison of values says whether they are equal, and there is output at most. -/
theorem perform_equal
    (hargs : w.perform (evaluateArgs (interpret (depth + 1)) scope [("left", l), ("right", r)]) =
      (.ok [("left", a), ("right", b)], w₂))
    (hname : w₂.store.Means scope "==" (.operator .equal))
    (ha : ∀ text, w₂.store.deref a ≠ .setting text)
    (hb : ∀ text, w₂.store.deref b ≠ .setting text) :
    ∃ w₃, w₂.Said w₃ ∧
      w.perform (interpret (depth + 2) (.evaluate scope (.opCall (.lookup "==") l r))) =
        (.ok (constant (.bool ((w₂.store.deref a).equal (w₂.store.deref b)))), w₃) := by
  obtain ⟨copy, hfunction⟩ := perform_means hname depth
  have hfits : ∀ p ∈ Operator.equal.params, Args.Fits w₂.store [("left", a), ("right", b)] p := by
    refine List.forall_mem_cons.mpr ⟨?_, List.forall_mem_singleton.mpr ?_⟩
    · exact Args.fits_of_lookup rfl (Value.hasType_any ha)
    · exact Args.fits_of_lookup rfl (Value.hasType_any hb)
  obtain ⟨w₃, hsaid, hcall⟩ :=
    perform_calls_builtin (.opCall ..) hargs hfunction (by decide) hfits
  have hoperator : w₃.perform (runOperator scope .equal [("left", a), ("right", b)]) =
      (.ok (constant (.bool ((w₃.store.deref a).equal (w₃.store.deref b)))), w₃) :=
    (perform_bind_ok (perform_argValue rfl) _).trans
      (perform_bind_ok (perform_argValue rfl) _)
  obtain ⟨w₄, hsaid', hw₄⟩ := hcall _ _ hoperator
  rw [hsaid.store] at hw₄
  exact ⟨w₄, hsaid.trans hsaid', hw₄⟩

/-- **Unequal is equal.** In a shell in which the signs of comparison have not been defined anew,
`l ~= r` does all that `l == r` does: it fails where that fails, and gives the same answer with the
same effects. The answer is true if the values are equal and false if they are not, so that it never
is the negation of the other one. -/
theorem unequal_eq_equal (hsigns : ∀ args w₁, w.perform (evaluateArgs (interpret (depth + 1)) scope
      [("left", l), ("right", r)]) = (.ok args, w₁) → w₁.store.Compares scope) :
    let comparison (sign : String) :=
      w.perform (interpret (depth + 2) (.evaluate scope (.opCall (.lookup sign) l r)))
    comparison "~=" = comparison "==" ∧
      (∀ truth w₁ w₂, comparison "==" = (.ok (constant (.bool truth)), w₁) →
        comparison "~=" ≠ (.ok (constant (.bool !truth)), w₂)) ∧
      ∀ a b w₁ w₂, w.perform (interpret (depth + 1) (.evaluate scope l)) = (.ok a, w₁) →
        w₁.perform (interpret (depth + 1) (.evaluate scope r)) = (.ok b, w₂) →
        (∀ text, w₂.store.deref a ≠ .setting text) → (∀ text, w₂.store.deref b ≠ .setting text) →
        ∃ w₃, w₂.Said w₃ ∧ comparison "~=" =
          (.ok (constant (.bool ((w₂.store.deref a).equal (w₂.store.deref b)))), w₃) := by
  intro comparison
  have hsame : comparison "~=" = comparison "==" := by
    rcases hargs : w.perform (evaluateArgs (interpret (depth + 1)) scope
      [("left", l), ("right", r)]) with ⟨fault | args, w₁⟩
    · have hfails (sign : String) : comparison sign = (.error fault, w₁) :=
        (perform_bind ..).trans (by rw [hargs])
      rw [hfails, hfails]
    · obtain ⟨hequal, hunequal⟩ := hsigns args w₁ hargs
      obtain ⟨copy, heq⟩ := perform_means hequal depth
      obtain ⟨copy', hne⟩ := perform_means hunequal depth
      calc comparison "~="
          = w₁.perform (invoke (interpret (depth + 1)) scope (.builtin (.operator .unequal) copy')
              args) := perform_calls (.opCall ..) hargs hne
        _ = w₁.perform (invoke (interpret (depth + 1)) scope (.builtin (.operator .equal) copy)
              args) := by rw [invoke_unequal copy' copy]
        _ = comparison "==" := (perform_calls (.opCall ..) hargs heq).symm
  refine ⟨hsame, ?_, ?_⟩
  · intro truth w₁ w₂ hequal hunequal
    have hboth := hequal.symm.trans (hsame.symm.trans hunequal)
    simp [constant] at hboth
  · intro a b w₁ w₂ hl hr ha hb
    have hargs := perform_operands hl hr
    rw [hsame]
    exact perform_equal hargs (hsigns _ _ hargs).1 ha hb

/-- A world in which the signs of comparison have their functions. -/
def comparingWorld : World :=
  let equal := (World.blank.store.define 0 "==" (.builtin (.operator .equal) 0)).1
  { World.blank with store := (equal.define 0 "~=" (.builtin (.operator .unequal) 0)).1 }

/-- `1 ~= 1` is true. -/
theorem unequal_eq_equal_one :
    ∃ w, comparingWorld.Said w ∧ comparingWorld.perform (interpret (0 + 2) (.evaluate 0
      (.opCall (.lookup "~=") (.constant (.int 1)) (.constant (.int 1))))) =
        (.ok (constant (.bool true)), w) := by
  have hsigns (args : Args) (w₁ : World) (h : comparingWorld.perform (evaluateArgs
      (interpret (0 + 1)) 0 [("left", .constant (.int 1)), ("right", .constant (.int 1))]) =
        (.ok args, w₁)) : w₁.store.Compares 0 := by
    obtain rfl : comparingWorld = w₁ := (Prod.mk.inj h).2
    exact ⟨⟨0, rfl⟩, ⟨0, rfl⟩⟩
  exact (unequal_eq_equal hsigns).2.2 (.value (.constant (.int 1))) (.value (.constant (.int 1)))
    comparingWorld comparingWorld rfl rfl (fun _ h => by cases h) (fun _ h => by cases h)

end Act

end Parley
