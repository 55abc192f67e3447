import Parley.Proofs.Eval.Parameters

/-!
# Assignments that fail

Both `x = e` and `let x = e` first make sure of the cell they are going to write, and then evaluate
`e`. The first kind only looks its variable up, so that a failure of `e` changes nothing. The second
kind declares its variable, and that writes null into it (`Store.define`): if `e` fails, the value
that the variable had is lost, and `e` itself never gets to see it. A declaration that fails is
therefore harmless only where the variable was null already.
-/

namespace Parley

variable {α : Type} {name : String} {f : Fault} {target : Expr}

namespace Store

variable {s s' : Store} {k : Nat}

/-- Everything that was in the store is there and as it was. There may be new scopes. -/
structure Kept (s s' : Store) : Prop where
  cells : ∀ c < s.cells.size, s'.cells[c]? = s.cells[c]?
  arrays : ∀ a < s.arrays.size, s'.arrays[a]? = s.arrays[a]?
  objects : ∀ o < s.objects.size, s'.objects[o]? = s.objects[o]?
  bases : ∀ k < s.scopes.size, (s'.scopeAt k).base = (s.scopeAt k).base
  names : ∀ k < s.scopes.size, (s'.scopeAt k).names = (s.scopeAt k).names

/-- In every scope of `s` the same names stand for variables, and with the same values. -/
def SameVariables (s s' : Store) : Prop :=
  ∀ k < s.scopes.size, ∀ name, s'.valueOf? k name = s.valueOf? k name

theorem Undisturbed.kept (h : s.Undisturbed s') : s.Kept s' where
  cells := h.cells
  arrays := h.arrays
  objects := h.objects
  bases k _ := (h.alike k).base
  names k _ := (h.alike k).names

theorem Kept.sameVariables (h : s.Kept s') (hwf : s.WellFormed) : s.SameVariables s' := by
  intro k hk name
  have hfind : s'.find? k name = s.find? k name :=
    find?_congr hwf (fun j hj => h.bases j (by omega)) (fun j hj => h.names j (by omega)) name
  rw [valueOf?, valueOf?, hfind]
  cases hc : s.find? k name with
  | none => rfl
  | some c =>
    show some (s'.cellValue c) = some (s.cellValue c)
    rw [cellValue, cellValue, h.cells c (hwf.find?_lt hc)]

/-! ### Declarations -/

variable (h : s.WellFormed)

include h

/-- The value of a variable is that of the scope's own cell, or else the one that its base gives. -/
theorem valueOf?_eq (k : Nat) (name : String) : s.valueOf? k name =
      match findName name (s.scopeAt k).names with
      | some c => some (s.cellValue c)
      | none => (s.scopeAt k).base.bind fun b => s.valueOf? b name := by
  rw [valueOf?, find?_eq h]
  cases findName name (s.scopeAt k).names with
  | some c => rfl
  | none =>
    cases (s.scopeAt k).base with
    | none | some b => rfl

/-- A variable that is written has the cell that a lookup finds, if that is the scope's own or one
it takes over. -/
theorem valueOf?_of_place {c : Nat}
    (hplace : (findName name (s.scopeAt k).names).or (s.inherited? k name) = some c) :
    s.valueOf? k name = some (s.cellValue c) := by
  rw [valueOf?_eq h]
  cases hown : findName name (s.scopeAt k).names with
  | some d =>
    rw [hown] at hplace
    cases hplace
    rfl
  | none =>
    rw [hown] at hplace
    obtain ⟨b, hb, hc⟩ := inherited?_eq_some hplace
    rw [hb]
    exact valueOf?_of_findName hc

theorem valueOf?_define_self (hk : k < s.scopes.size) (name : String) (v : Value) :
    (s.define k name v).1.valueOf? k name = some v := by
  have hdef := define_spec h hk name v
  rw [valueOf?_of_findName hdef.bound, hdef.written]

/-- Writing the value that a variable has already changes no variable. -/
theorem sameVariables_define (hk : k < s.scopes.size) {v : Value}
    (hv : s.valueOf? k name = some v) :
    s.SameVariables (s.define k name v).1 := by
  have hdef := define_spec h hk name v
  -- The cell that is written is new, or had the value before.
  have hcell (d : Nat) (hd : d < s.cells.size) :
      (s.define k name v).1.cellValue d = s.cellValue d := by
    by_cases hne : d = (s.define k name v).2
    · rcases hdef.place with hplace | ⟨-, hnew⟩
      · have hold := (valueOf?_of_place h hplace).symm.trans hv
        rw [hne, hdef.written, Option.some.inj hold]
      · omega
    · exact hdef.cells d hd hne
  intro j hj other
  induction j using Nat.strongRecOn with
  | ind j ih =>
    by_cases hself : j = k ∧ other = name
    · obtain ⟨rfl, rfl⟩ := hself
      rw [hv, valueOf?_define_self h hk]
    · have hown : findName other ((s.define k name v).1.scopeAt j).names =
          findName other (s.scopeAt j).names := by
        by_cases hjk : j = k
        · subst hjk
          exact hdef.others other fun hother => hself ⟨rfl, hother⟩
        · rw [hdef.outside j hjk]
      have hbase : ((s.define k name v).1.scopeAt j).base = (s.scopeAt j).base := by
        by_cases hjk : j = k
        · rw [hjk, hdef.base]
        · rw [hdef.outside j hjk]
      rw [valueOf?_eq (h.define ..), valueOf?_eq h, hown, hbase]
      cases hc : findName other (s.scopeAt j).names with
      | some c => exact congrArg some (hcell c (h.findName_lt hc))
      | none =>
        cases hb : (s.scopeAt j).base with
        | none => rfl
        | some b =>
          have hlt := h.base hb
          exact ih b hlt (by omega)

/-- **A declaration changes no variable** exactly if the name stood for null before. -/
theorem sameVariables_define_null_iff (hk : k < s.scopes.size) (name : String) :
    s.SameVariables (s.define k name .null).1 ↔ s.valueOf? k name = some .null := by
  constructor
  · intro hsame
    rw [← hsame k hk name, valueOf?_define_self h hk]
  · exact sameVariables_define h hk

end Store

namespace Act

variable {w w' : World} {c scope depth : Nat}

/-- The action fails in every world. -/
def Fails {α : Type} (x : Act α) : Prop :=
  ∀ w : World, ∃ f w', w.perform x = (.error f, w')

/-- An action that ends with one that fails. -/
theorem Fails.bind {β : Type} (x : Act α) {f : α → Act β} (h : ∀ a, Fails (f a)) :
    Fails (x >>= f) := by
  intro w
  rw [perform_bind]
  rcases w.perform x with ⟨e | a, w'⟩
  · exact ⟨e, w', rfl⟩
  · exact h a w'

theorem fails_error (scope : Nat) (message : String) : Fails (error scope message : Act α) := by
  refine .bind _ fun _ => .bind _ fun _ => .bind _ fun _ => .bind _ fun _ => ?_
  exact fun w => ⟨.evaluation message, w, rfl⟩

/-- Evaluates the right side of an assignment and writes its value into a cell. -/
def andWrite (right : Act Answer) (c : Nat) : Act Answer := do
  let a ← right
  assignTo (.cell c) a
  return a

/-- In this world the action leaves everything as it was. -/
def WritesNothing (x : Act Answer) (w : World) : Prop :=
  w.store.Kept (w.perform x).2.store

theorem writesNothing_of_quiet {e : Expr} (he : e.quiet) (depth scope : Nat) (w : World) :
    WritesNothing (interpret depth (.evaluate scope e)) w :=
  (interpret_undisturbed depth scope e he w).kept

/-- Nothing is written if the right side fails. -/
theorem perform_andWrite_of_error {right : Act Answer}
    (h : (w.perform (andWrite right c)).1 = .error f) :
    w.perform (andWrite right c) = w.perform right := by
  rw [andWrite, perform_bind] at h ⊢
  cases hright : w.perform right with
  | mk result w' =>
    rw [hright] at h
    cases result with
    | ok a => cases h
    | error f' => rfl

theorem perform_define (w : World) (hwf : w.store.WellFormed) (hscope : scope < w.store.scopes.size)
    (x : String) (depth : Nat) :
    w.perform (interpret (depth + 1) (.evaluate scope (.define x))) =
      (.ok (.cell (w.store.define scope x .null).2),
        { w with store := (w.store.define scope x .null).1 }) := by
  have hfind := Store.find?_of_findName (Store.define_spec hwf hscope x .null).bound
  exact (perform_withStore_bind ..).trans (perform_lookup hfind depth)

/-- A name that stands for nothing cannot be assigned to. -/
theorem exists_perform_lookup_error {x : String} (hx : w.store.find? scope x = none) (depth : Nat) :
    ∃ f w', w.perform (interpret (depth + 1) (.evaluate scope (.lookup x))) = (.error f, w') := by
  have hfails : Fails (error (w.store.root scope) ("Undefined variable: '" ++ x ++ "'") : Act Nat) :=
    fails_error _ _
  obtain ⟨f, w', hf⟩ := hfails w
  refine ⟨f, w', ?_⟩
  show w.perform (lookup scope x >>= fun c => pure (Answer.cell c)) = _
  rw [lookup, perform_bind, perform_getStore_bind, hx]
  rw [perform_getStore_bind, hf]

/-- An assignment evaluates its right side in the world in which its left side has given a cell. -/
theorem perform_assign
    (h : w.perform (interpret depth (.evaluate scope target)) = (.ok (.cell c), w')) (e : Expr) :
    w.perform (interpret (depth + 1) (.evaluate scope (.assign target e))) =
      w'.perform (andWrite (interpret depth (.evaluate scope e)) c) :=
  perform_bind_ok h _

/-- An assignment that fails with its left side does as much as its left side. -/
theorem perform_assign_of_error
    (h : w.perform (interpret depth (.evaluate scope target)) = (.error f, w')) (e : Expr) :
    w.perform (interpret (depth + 1) (.evaluate scope (.assign target e))) = (.error f, w') := by
  show w.perform (interpret depth (.evaluate scope target) >>= _) = _
  rw [perform_bind, h]

/-- **What a failed assignment leaves behind**, for a right side that writes nothing itself. The
right side of `x = e` is evaluated in the world as it is, and a failure leaves all variables as they
were. The right side of `let x = e` is evaluated after `x` has become null, and a failure leaves
just that: the variables are those after `let x`, and they are as they were exactly if `x` was null
before. -/
theorem assignment_failure (w : World) (hwf : w.store.WellFormed) (scope : Nat)
    (hscope : scope < w.store.scopes.size) (x : String) (e : Expr) (depth : Nat) :
    let right := interpret (depth + 1) (.evaluate scope e)
    let declared : World := { w with store := (w.store.define scope x .null).1 }
    let assigned := w.perform (interpret (depth + 2) (.evaluate scope (.assign (.lookup x) e)))
    let defined := w.perform (interpret (depth + 2) (.evaluate scope (.assign (.define x) e)))
    (∀ c, w.store.find? scope x = some c → assigned = w.perform (andWrite right c)) ∧
    (∃ c, declared.store.find? scope x = some c ∧ declared.store.cellValue c = .null ∧
      defined = declared.perform (andWrite right c)) ∧
    (WritesNothing right w → ∀ f, assigned.1 = .error f → w.store.SameVariables assigned.2.store) ∧
    (WritesNothing right declared → ∀ f, defined.1 = .error f →
      declared.store.SameVariables defined.2.store ∧
        (w.store.SameVariables defined.2.store ↔ w.store.valueOf? scope x = some .null)) := by
  intro right declared assigned defined
  have hdef := Store.define_spec hwf hscope x .null
  have hassigned (c : Nat) (hc : w.store.find? scope x = some c) :
      assigned = w.perform (andWrite right c) :=
    perform_assign (perform_lookup hc depth) e
  have hdefined : defined = declared.perform (andWrite right (w.store.define scope x .null).2) :=
    perform_assign (perform_define w hwf hscope x depth) e
  refine ⟨hassigned, ⟨_, Store.find?_of_findName hdef.bound, hdef.written, hdefined⟩, ?_, ?_⟩
  · intro hkept f hf
    cases hc : w.store.find? scope x with
    | some c =>
      rw [hassigned c hc] at hf ⊢
      rw [perform_andWrite_of_error hf]
      exact hkept.sameVariables hwf
    | none =>
      -- There is no such variable, and the lookup that says so changes nothing.
      have hquiet := interpret_undisturbed (depth + 1) scope (.lookup x) rfl w
      obtain ⟨f', w', hlookup⟩ := exists_perform_lookup_error hc depth
      have hfailed : assigned = (.error f', w') := perform_assign_of_error hlookup e
      rw [hlookup] at hquiet
      rw [hfailed]
      exact hquiet.kept.sameVariables hwf
  · intro hkept f hf
    have hsame : declared.store.SameVariables defined.2.store := by
      rw [hdefined] at hf ⊢
      rw [perform_andWrite_of_error hf]
      exact hkept.sameVariables (hwf.define ..)
    refine ⟨hsame, ?_⟩
    rw [← Store.sameVariables_define_null_iff hwf hscope]
    exact forall₃_congr fun k hk name => by rw [hsame k (hdef.scopes ▸ hk) name]

/-- Where a variable `x` has the value 1 and there is no `y`, both `x = y` and `let x = y` fail: the
first leaves `x` alone, the second leaves it null. -/
theorem assignment_failure_undefined : let w := (World.blank.perform (interpret 3 (.evaluate 0
      (.assign (.define "x") (.constant (.int 1)))))).2
    let right := interpret (0 + 1) (.evaluate 0 (.lookup "y"))
    let declared : World := { w with store := (w.store.define 0 "x" .null).1 }
    let assigned :=
      w.perform (interpret (0 + 2) (.evaluate 0 (.assign (.lookup "x") (.lookup "y"))))
    let defined :=
      w.perform (interpret (0 + 2) (.evaluate 0 (.assign (.define "x") (.lookup "y"))))
    w.store.WellFormed ∧ 0 < w.store.scopes.size ∧
      WritesNothing right w ∧ WritesNothing right declared ∧
      (∃ f, assigned.1 = .error f) ∧ (∃ f, defined.1 = .error f) ∧
      w.store.valueOf? 0 "x" = some (.constant (.int 1)) ∧
      w.store.SameVariables assigned.2.store ∧
      defined.2.store.valueOf? 0 "x" = some .null ∧
      ¬ w.store.SameVariables defined.2.store := by
  intro w right declared assigned defined
  have hwf : w.store.WellFormed :=
    interpret_wellFormed _ _ Store.wellFormed_newRoot_empty Nat.zero_lt_one
  have hquiet (v : World) : WritesNothing right v := writesNothing_of_quiet rfl _ _ v
  have hassigned : assigned.1 = .error (.evaluation "Undefined variable: 'y'") := rfl
  have hdefined : defined.1 = .error (.evaluation "Undefined variable: 'y'") := rfl
  have hone : w.store.valueOf? 0 "x" = some (.constant (.int 1)) := rfl
  obtain ⟨-, -, hkept, hlost⟩ :=
    assignment_failure w hwf 0 Nat.zero_lt_one "x" (.lookup "y") 0
  obtain ⟨hsame, hiff⟩ := hlost (hquiet declared) _ hdefined
  refine ⟨hwf, Nat.zero_lt_one, hquiet w, hquiet declared, ⟨_, hassigned⟩, ⟨_, hdefined⟩, hone,
    hkept (hquiet w) _ hassigned, ?_, ?_⟩
  · exact (hsame 0 Nat.zero_lt_one "x").trans rfl
  · rw [hiff]
    rintro ⟨⟩

end Act

end Parley
