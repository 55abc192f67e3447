import Parley.Proofs.Eval.Assignment

/-!
# Every cell has one name

A variable can have its cell in common with variables of other scopes: a scope that is written to
takes over the cell of its base, and so do the scopes inside it. But a cell is only ever taken over
under the name that it has, and a cell that gets a name without being taken over is new. So however
scopes are made, written to and emptied, no cell comes to stand for two names, and a write to a
variable is seen under its name alone.
-/

namespace Parley.Store

/-- The name stands for the cell in some scope. -/
def Bound (s : Store) (name : String) (c : Nat) : Prop :=
  ∃ k, (name, c) ∈ (s.scopeAt k).names

/-- No cell stands for two names, in whatever scopes. -/
structure OneName (s : Store) : Prop where
  name_eq : ∀ {m n c}, s.Bound m c → s.Bound n c → m = n

variable {s s' : Store} {k : Nat} {m name : String} {c : Nat}

theorem WellFormed.bound_lt (h : s.WellFormed) (hc : s.Bound name c) : c < s.cells.size := by
  obtain ⟨k, hk⟩ := hc
  exact h.cell hk

theorem bound_of_findName (h : findName name (s.scopeAt k).names = some c) : s.Bound name c :=
  ⟨k, mem_of_findName h⟩

/-- A name that is found stands for its cell in some scope. -/
theorem bound_of_find? (hc : s.find? k name = some c) : s.Bound name c := by
  have hfrom (steps : Nat) : ∀ k, s.findFrom steps k name = some c → s.Bound name c := by
    induction steps with
    | zero => exact fun k => bound_of_findName
    | succ steps ih =>
      intro k hk
      rw [findFrom] at hk
      split at hk
      · next d hd => exact bound_of_findName (hd.trans hk)
      · split at hk
        · next b hb => exact ih b hk
        · cases hk
  exact hfrom k k hc

/-! ### The names after a change -/

/-- A change of a scope that gives it no names. -/
theorem bound_modifyScope {f : Scope → Scope} (hf : ∀ sc, (f sc).names ⊆ sc.names)
    (hc : (s.modifyScope k f).Bound m c) : s.Bound m c := by
  obtain ⟨j, hj⟩ := hc
  rw [scopeAt_modifyScope] at hj
  split at hj
  · exact ⟨j, hf _ hj⟩
  · exact ⟨j, hj⟩

/-- A scope that gets a name. -/
theorem bound_bind {d : Nat} (hc : (s.bind k name d).Bound m c) :
    s.Bound m c ∨ m = name ∧ c = d := by
  obtain ⟨j, hj⟩ := hc
  rw [bind, scopeAt_modifyScope] at hj
  split at hj
  · rcases List.mem_append.mp hj with hold | hnew
    · exact .inl ⟨j, hold⟩
    · exact .inr (Prod.mk.inj (List.mem_singleton.mp hnew))
  · exact .inl ⟨j, hj⟩

theorem bound_define {v : Value} (hc : (s.define k name v).1.Bound m c) :
    s.Bound m c ∨ m = name ∧ c = s.cells.size := by
  rcases define_cases s k name v with ⟨d, -, hdef⟩ | ⟨d, -, hd, hdef⟩ | ⟨-, -, hdef⟩
  · rw [hdef] at hc
    exact .inl hc
  · rw [hdef] at hc
    rcases bound_bind hc with hold | ⟨rfl, rfl⟩
    · exact .inl hold
    · -- The cell is taken over under its own name.
      obtain ⟨b, -, hb⟩ := inherited?_eq_some hd
      exact .inl (bound_of_findName hb)
  · rw [hdef] at hc
    exact bound_bind hc

theorem bound_newChild {base : Nat} (hc : (s.newChild base).1.Bound m c) : s.Bound m c := by
  obtain ⟨j, hj⟩ := hc
  rcases Nat.lt_trichotomy j s.scopes.size with hlt | rfl | hgt
  · rw [scopeAt_newChild_of_lt hlt] at hj
    exact ⟨j, hj⟩
  · rw [scopeAt_newChild_self] at hj
    cases hj
  · rw [scopeAt_newChild_of_gt hgt] at hj
    exact ⟨j, hj⟩

/-- **A change of the store** makes a name stand for a cell only if it has done so before, or if the
cell is new; and there is one such name at most. -/
theorem Step.bound (hstep : Step s s') :
    ∃ name, ∀ {m c}, s'.Bound m c → s.Bound m c ∨ m = name ∧ c = s.cells.size := by
  cases hstep with
  | define k name v => exact ⟨name, bound_define⟩
  | child base hbase => exact ⟨"", fun hc => .inl (bound_newChild hc)⟩
  | forget k table =>
    exact ⟨"", fun hc => .inl (bound_modifyScope (fun _ => List.nil_subset _) hc)⟩
  | add hadd =>
    cases hadd with
    | flags k f hf =>
      refine ⟨"", fun hc => .inl (bound_modifyScope (fun sc => ?_) hc)⟩
      exact (hf sc).names ▸ List.Subset.refl _
    | _ => exact ⟨"", .inl⟩
  | write | capture | tables => exact ⟨"", .inl⟩

theorem Step.oneName (hstep : Step s s') (hwf : s.WellFormed) (h : s.OneName) : s'.OneName := by
  obtain ⟨name, hbound⟩ := hstep.bound
  refine ⟨fun {m n c} hm hn => ?_⟩
  rcases hbound hm with hm | ⟨rfl, hc⟩
  · rcases hbound hn with hn | ⟨-, hc⟩
    · exact h.name_eq hm hn
    · exact absurd (hwf.bound_lt hm) (by omega)
  · rcases hbound hn with hn | ⟨rfl, -⟩
    · exact absurd (hwf.bound_lt hn) (by omega)
    · rfl

/-- **No run of changes gives a cell a second name.** -/
theorem Reaches.oneName (hreach : s.Reaches s') (hwf : s.WellFormed) (h : s.OneName) :
    s'.OneName := by
  induction hreach with
  | refl => exact h
  | tail hfirst hstep ih => exact hstep.oneName (Reaches.wellFormed hfirst hwf) ih

theorem oneName_newRoot_empty : empty.newRoot.1.OneName where
  name_eq := by
    rintro m n c ⟨k, hk⟩ -
    cases k <;> cases hk

/-! ### Lookups after a write -/

/-- A write to a variable has no say in where other names are found. -/
theorem find?_define_other (h : s.WellFormed) (hk : k < s.scopes.size) (hne : m ≠ name) (v : Value)
    (j : Nat) : (s.define k name v).1.find? j m = s.find? j m := by
  have hdef := define_spec h hk name v
  refine find?_congr_name h (fun i _ => ?_) fun i _ => ?_
  · by_cases hi : i = k
    · rw [hi, hdef.base]
    · rw [hdef.outside i hi]
  · by_cases hi : i = k
    · rw [hi, hdef.others m hne]
    · rw [hdef.outside i hi]

theorem find?_setCell (s : Store) (c : Nat) (v : Value) (j : Nat) (m : String) :
    (s.setCell c v).find? j m = s.find? j m := by
  have hfrom (steps : Nat) : ∀ j, (s.setCell c v).findFrom steps j m = s.findFrom steps j m := by
    induction steps with
    | zero => exact fun j => rfl
    | succ steps ih =>
      intro j
      rw [findFrom, findFrom, scopeAt_setCell]
      simp only [ih]
  exact hfrom j j

/-- A cell that a scope has for a name, or takes over for it, stands for that name. -/
theorem bound_of_place (h : (findName name (s.scopeAt k).names).or (s.inherited? k name) = some c) :
    s.Bound name c := by
  rcases Option.or_eq_some_iff.mp h with hown | ⟨-, hbase⟩
  · exact bound_of_findName hown
  · obtain ⟨b, -, hb⟩ := inherited?_eq_some hbase
    exact bound_of_findName hb

namespace OneName

variable (hone : s.OneName)

include hone

/-- A write to a variable is seen under no other name, in no scope. -/
theorem valueOf?_define_other (h : s.WellFormed) (hk : k < s.scopes.size) (hne : m ≠ name)
    (v : Value) (j : Nat) : (s.define k name v).1.valueOf? j m = s.valueOf? j m := by
  have hdef := define_spec h hk name v
  rw [valueOf?, valueOf?, find?_define_other h hk hne]
  cases hc : s.find? j m with
  | none => rfl
  | some c =>
    have hm := bound_of_find? hc
    refine congrArg some (hdef.cells c (h.bound_lt hm) ?_)
    rintro rfl
    rcases hdef.place with hplace | ⟨-, hnew⟩
    · exact hne (hone.name_eq hm (bound_of_place hplace))
    · exact absurd (h.bound_lt hm) (by omega)

/-- A write through the cell of a variable is seen under no other name, in no scope. -/
theorem valueOf?_setCell_other (hc : s.find? k name = some c) (hne : m ≠ name) (v : Value)
    (j : Nat) : (s.setCell c v).valueOf? j m = s.valueOf? j m := by
  rw [valueOf?, valueOf?, find?_setCell]
  cases hd : s.find? j m with
  | none => rfl
  | some d =>
    refine congrArg some (cellValue_setCell_of_ne ?_ v)
    rintro rfl
    exact hne (hone.name_eq (bound_of_find? hd) (bound_of_find? hc))

end OneName

/-- **A write touches one name only.** However the store has come from one empty scope, by opening
scopes inside others, writing variables and cells, and emptying scopes (`Store.Step`), no cell
stands for two names. So a variable that is written, with a value or with what a cell holds, has
this value when it is looked up from its scope, and every other name is found where it was, with the
value it had, from all scopes. The same holds of a write through the cell of a variable. -/
theorem write_touches_one_name (s : Store) (hreach : empty.newRoot.1.Reaches s) :
    (∀ {i j m n c}, (m, c) ∈ (s.scopeAt i).names → (n, c) ∈ (s.scopeAt j).names → m = n) ∧
    (∀ k < s.scopes.size, ∀ name a, let s' := (s.define k name (s.deref a)).1
      s'.valueOf? k name = some (s.deref a) ∧
        ∀ j, ∀ m ≠ name, s'.find? j m = s.find? j m ∧ s'.valueOf? j m = s.valueOf? j m) ∧
    (∀ k name c a, s.find? k name = some c → let s' := s.setCell c (s.deref a)
      s'.valueOf? k name = some (s.deref a) ∧
        ∀ j, ∀ m ≠ name, s'.find? j m = s.find? j m ∧ s'.valueOf? j m = s.valueOf? j m) := by
  have hwf := hreach.wellFormed wellFormed_newRoot_empty
  have hone := hreach.oneName wellFormed_newRoot_empty oneName_newRoot_empty
  refine ⟨fun {i j _ _ _} hm hn => hone.name_eq ⟨i, hm⟩ ⟨j, hn⟩, ?_, ?_⟩
  · intro k hk name a s'
    refine ⟨valueOf?_define_self hwf hk name _, fun j m hne => ⟨?_, ?_⟩⟩
    · exact find?_define_other hwf hk hne _ j
    · exact hone.valueOf?_define_other hwf hk hne _ j
  · intro k name c a hc s'
    refine ⟨?_, fun j m hne => ⟨find?_setCell _ c _ j m, ?_⟩⟩
    · rw [valueOf?, find?_setCell, hc]
      exact congrArg some (cellValue_setCell_self (hwf.find?_lt hc) _)
    · exact hone.valueOf?_setCell_other hc hne _ j

/-- A scope and two inside each other: `x` is declared in the outermost and taken over by the next,
which is then emptied; the innermost has a variable `y`. -/
def nested : Store :=
  let s := (empty.newRoot.1.newChild 0).1
  let s := (s.newChild 1).1
  let s := (s.define 0 "x" (.constant (.int 1))).1
  let s := (s.define 1 "x" (.constant (.int 2))).1
  let s := (s.define 2 "y" (.constant (.int 3))).1
  s.modifyScope 1 fun sc => { sc with names := [], table := 0 }

/-- In `nested` the value of `x` is written into a new `x` of the scope in the middle, which shares
its cell with the outermost: both have it, and `y` is left alone. -/
theorem write_touches_one_name_nested :
    empty.newRoot.1.Reaches nested ∧ 1 < nested.scopes.size ∧
      nested.valueOf? 2 "x" = some (.constant (.int 2)) ∧
      let s' := (nested.define 1 "x" (nested.deref (.value (.constant (.int 5))))).1
      s'.valueOf? 1 "x" = some (.constant (.int 5)) ∧
        s'.valueOf? 0 "x" = some (.constant (.int 5)) ∧
        s'.find? 2 "y" = some 1 ∧ s'.valueOf? 2 "y" = some (.constant (.int 3)) := by
  have hreach : empty.newRoot.1.Reaches nested :=
    .head (.child _ 0 (by decide)) <| .head (.child _ 1 (by decide)) <|
      .head (.define _ 0 "x" _) <| .head (.define _ 1 "x" _) <| .head (.define _ 2 "y" _) <|
        .single (.forget _ 1 0)
  obtain ⟨-, hwrite, -⟩ := write_touches_one_name nested hreach
  obtain ⟨hself, hothers⟩ := hwrite 1 (by decide) "x" (.value (.constant (.int 5)))
  obtain ⟨hfind, hvalue⟩ := hothers 2 "y" (by decide)
  exact ⟨hreach, by decide, rfl, hself, rfl, hfind.trans rfl, hvalue.trans rfl⟩

end Parley.Store
