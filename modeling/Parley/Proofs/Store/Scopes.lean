import Parley.Proofs.World.Perform

/-!
# Scopes and lookups

What the operations of the store do to its scopes, and what a lookup depends on. In a store that is
well formed (`Store.WellFormed`) the base of a scope has a smaller address, so the number that
bounds a lookup never cuts it short: `find?_eq` says that the name is looked for in the scope itself
and then from its base on. A lookup sees the names and bases of the scopes on its way and nothing
else (`find?_congr`).
-/

namespace Parley.Store

variable {name : String} {c k j : Nat} {s s' : Store}

/-- Every address in the store is good: bases lie before their scopes, names stand for cells that
are there, and function literals have captured scopes that are there. -/
structure WellFormed (s : Store) : Prop where
  base : ∀ {k b}, (s.scopeAt k).base = some b → b < k
  cell : ∀ {k name c}, (name, c) ∈ (s.scopeAt k).names → c < s.cells.size
  captured : ∀ {site k}, s.captured.lookup site = some k → k < s.scopes.size

/-- The value of a variable, if there is one of this name. -/
def valueOf? (s : Store) (k : Nat) (name : String) : Option Value :=
  (s.find? k name).map s.cellValue

/-! ### Names -/

theorem mem_of_findName {names : List (String × Nat)} (h : findName name names = some c) :
    (name, c) ∈ names := by
  induction names with
  | nil => simp [findName] at h
  | cons p names ih =>
    obtain ⟨k, d⟩ := p
    rw [findName] at h
    split at h
    · next hk =>
      cases h
      rw [hk]
      exact List.mem_cons_self
    · exact List.mem_cons_of_mem _ (ih h)

theorem findName_append (name : String) (names more : List (String × Nat)) :
    findName name (names ++ more) = (findName name names).or (findName name more) := by
  induction names with
  | nil => rfl
  | cons p names ih =>
    rw [List.cons_append, findName, findName, ih]
    split <;> rfl

/-- A name of a scope stands for a cell that is there. -/
theorem WellFormed.findName_lt (h : s.WellFormed) (hc : findName name (s.scopeAt k).names = some c) :
    c < s.cells.size :=
  h.cell (mem_of_findName hc)

/-! ### Scopes after a change -/

theorem scopeAt_modifyScope (s : Store) (k j : Nat) (f : Scope → Scope) :
    (s.modifyScope k f).scopeAt j =
      if j = k ∧ k < s.scopes.size then f (s.scopeAt j) else s.scopeAt j := by
  unfold scopeAt modifyScope
  rw [Array.getElem?_modify]
  by_cases hj : j = k
  · subst hj
    by_cases hlt : j < s.scopes.size
    · simp [hlt]
    · simp [hlt]
  · have hk : k ≠ j := fun h => hj h.symm
    simp [hj, hk]

theorem scopeAt_bind_self (hk : k < s.scopes.size) (name : String) (c : Nat) :
    (s.bind k name c).scopeAt k =
      { s.scopeAt k with names := (s.scopeAt k).names ++ [(name, c)] } := by
  rw [bind, scopeAt_modifyScope, if_pos ⟨rfl, hk⟩]

theorem scopeAt_bind_of_ne (hj : j ≠ k) (name : String) (c : Nat) :
    (s.bind k name c).scopeAt j = s.scopeAt j := by
  rw [bind, scopeAt_modifyScope, if_neg fun h => hj h.1]

theorem scopeAt_newChild_of_lt (hj : j < s.scopes.size) (base : Nat) :
    (s.newChild base).1.scopeAt j = s.scopeAt j := by
  simp only [scopeAt, newChild, Array.getElem?_push_lt hj, Array.getElem?_eq_getElem hj]

theorem scopeAt_newChild_self (s : Store) (base : Nat) : (s.newChild base).1.scopeAt s.scopes.size =
      { base := some base, names := [], table := (s.scopeAt base).table, global := false,
        looping := true, strict := false, lastError := none, input := 0 } := by
  simp [scopeAt, newChild]

theorem scopeAt_newChild_of_gt (hj : s.scopes.size < j) (base : Nat) :
    (s.newChild base).1.scopeAt j = s.scopeAt j := by
  have h₁ : (s.newChild base).1.scopes.size ≤ j := by
    simp only [newChild, Array.size_push]
    omega
  simp only [scopeAt, Array.getElem?_eq_none h₁, Array.getElem?_eq_none (Nat.le_of_lt hj)]

@[simp] theorem scopeAt_setCell (s : Store) (c : Nat) (v : Value) (k : Nat) :
    (s.setCell c v).scopeAt k = s.scopeAt k := rfl

@[simp] theorem size_cells_setCell (s : Store) (c : Nat) (v : Value) :
    (s.setCell c v).cells.size = s.cells.size := by
  simp [setCell]

@[simp] theorem size_scopes_modifyScope (s : Store) (k : Nat) (f : Scope → Scope) :
    (s.modifyScope k f).scopes.size = s.scopes.size := by
  simp [modifyScope]

/-! ### Writing variables -/

/-- **Writing a variable** writes the cell of the scope's own name if it has one, takes over the
cell of its base if only the base itself has the name, and makes a new cell otherwise. -/
theorem define_cases (s : Store) (k : Nat) (name : String) (v : Value) :
    (∃ c, findName name (s.scopeAt k).names = some c ∧ s.define k name v = (s.setCell c v, c)) ∨
    (∃ c, findName name (s.scopeAt k).names = none ∧ s.inherited? k name = some c ∧
      s.define k name v = ((s.bind k name c).setCell c v, c)) ∨
    (findName name (s.scopeAt k).names = none ∧ s.inherited? k name = none ∧
      s.define k name v = ((s.newCell v).1.bind k name s.cells.size, s.cells.size)) := by
  cases hown : findName name (s.scopeAt k).names with
  | some c => exact .inl ⟨c, rfl, by rw [define, hown]⟩
  | none =>
    right
    cases hbase : s.inherited? k name with
    | some c => exact .inl ⟨c, rfl, rfl, by rw [define, hown, hbase]⟩
    | none => exact .inr ⟨rfl, rfl, by rw [define, hown, hbase]; rfl⟩

/-- A cell that is taken over is a cell of the base. -/
theorem inherited?_eq_some (h : s.inherited? k name = some c) :
    ∃ b, (s.scopeAt k).base = some b ∧ findName name (s.scopeAt b).names = some c := by
  unfold inherited? at h
  split at h
  · next b hb => exact ⟨b, hb, h⟩
  · cases h

/-- What is known after a variable of the scope `k` has been written: `c` is its cell. -/
structure Defined (s : Store) (k : Nat) (name : String) (v : Value) (s' : Store) (c : Nat) :
    Prop where
  /-- The cell is the scope's own, or the one it takes over, or a new one. -/
  place : (findName name (s.scopeAt k).names).or (s.inherited? k name) = some c ∨
    (findName name (s.scopeAt k).names).or (s.inherited? k name) = none ∧ c = s.cells.size
  bound : findName name (s'.scopeAt k).names = some c
  others : ∀ other ≠ name, findName other (s'.scopeAt k).names = findName other (s.scopeAt k).names
  base : (s'.scopeAt k).base = (s.scopeAt k).base
  outside : ∀ j ≠ k, s'.scopeAt j = s.scopeAt j
  scopes : s'.scopes.size = s.scopes.size
  written : s'.cellValue c = v
  cells : ∀ d < s.cells.size, d ≠ c → s'.cellValue d = s.cellValue d
  size : s.cells.size ≤ s'.cells.size ∧ c < s'.cells.size
  captured : s'.captured = s.captured

theorem cellValue_setCell_self (hc : c < s.cells.size) (v : Value) :
    (s.setCell c v).cellValue c = v := by
  simp [cellValue, setCell, hc]

theorem cellValue_setCell_of_ne {d : Nat} (hd : d ≠ c) (v : Value) :
    (s.setCell c v).cellValue d = s.cellValue d := by
  simp [cellValue, setCell, Array.getElem?_setIfInBounds_ne (Ne.symm hd)]

/-- Writing a cell of the scope's own. -/
theorem Defined.own (h : s.WellFormed) (v : Value) (hc : findName name (s.scopeAt k).names = some c) :
    Defined s k name v (s.setCell c v) c where
  place := .inl (by rw [hc]; rfl)
  bound := hc
  others _ _ := rfl
  base := rfl
  outside _ _ := rfl
  scopes := rfl
  written := cellValue_setCell_self (h.findName_lt hc) v
  cells _ _ hd := cellValue_setCell_of_ne hd v
  size := by simpa using h.findName_lt hc
  captured := rfl

/-- Giving a scope a new name, for a cell that then holds the value. -/
theorem Defined.of_bind (hk : k < s.scopes.size) {v : Value}
    (hown : findName name (s.scopeAt k).names = none)
    (place : s.inherited? k name = some c ∨ s.inherited? k name = none ∧ c = s.cells.size)
    {cells : Array Value} (hsize : s.cells.size ≤ cells.size) (hc : cells[c]? = some v)
    (hcells : ∀ d < s.cells.size, d ≠ c → cells[d]? = s.cells[d]?) :
    Defined s k name v { s.bind k name c with cells } c := by
  have hnames : ({ s.bind k name c with cells }.scopeAt k).names =
      (s.scopeAt k).names ++ [(name, c)] := congrArg Scope.names (scopeAt_bind_self hk name c)
  refine ⟨?_, ?_, ?_, ?_, ?_, ?_, ?_, ?_, ?_, rfl⟩
  · rw [hown]
    exact place
  · rw [hnames, findName_append, hown]
    simp [findName]
  · intro other hother
    rw [hnames, findName_append, findName, if_neg (Ne.symm hother)]
    exact Option.or_none
  · exact (congrArg Scope.base (scopeAt_bind_self hk name c)).trans rfl
  · exact fun j hj => scopeAt_bind_of_ne hj name c
  · exact size_scopes_modifyScope s k _
  · rw [cellValue, hc]
    rfl
  · intro d hd hne
    rw [cellValue, cellValue, hcells d hd hne]
  · obtain ⟨hlt, -⟩ := Array.getElem?_eq_some_iff.mp hc
    exact ⟨hsize, hlt⟩

/-- **Writing a variable** of a scope that is there. -/
theorem define_spec (h : s.WellFormed) (hk : k < s.scopes.size) (name : String) (v : Value) :
    Defined s k name v (s.define k name v).1 (s.define k name v).2 := by
  rcases define_cases s k name v with ⟨c, hc, hdef⟩ | ⟨c, hown, hbase, hdef⟩ | ⟨hown, hbase, hdef⟩
  · rw [hdef]
    exact .own h v hc
  · rw [hdef]
    obtain ⟨b, -, hb⟩ := inherited?_eq_some hbase
    have hc := h.findName_lt hb
    refine .of_bind hk hown (.inl hbase) (by simp [bind, modifyScope]) ?_ ?_
    · simp [bind, modifyScope, hc]
    · intro d hd hne
      simp [bind, modifyScope, Array.getElem?_setIfInBounds_ne (Ne.symm hne)]
  · rw [hdef]
    have hcells (d : Nat) (hd : d < s.cells.size) (hne : d ≠ s.cells.size) :
        (s.cells.push v)[d]? = s.cells[d]? := by simp [Array.getElem?_push, hne]
    have hsize : s.cells.size ≤ (s.cells.push v).size := by simp
    exact .of_bind hk hown (.inr ⟨hbase, rfl⟩) hsize Array.getElem?_push_size hcells

/-! ### Lookups -/

/-- A lookup depends on the bases of the scopes up to the one where it begins, and on what the name
stands for in each of them. -/
theorem findFrom_congr (h : s.WellFormed)
    (hbase : ∀ j ≤ k, (s'.scopeAt j).base = (s.scopeAt j).base)
    (hnames : ∀ j ≤ k, findName name (s'.scopeAt j).names = findName name (s.scopeAt j).names)
    (n : Nat) : s'.findFrom n k name = s.findFrom n k name := by
  induction n generalizing k with
  | zero => rw [findFrom, findFrom, hnames k (Nat.le_refl k)]
  | succ n ih =>
    rw [findFrom, findFrom, hnames k (Nat.le_refl k), hbase k (Nat.le_refl k)]
    cases findName name (s.scopeAt k).names with
    | some c => rfl
    | none =>
      cases hb : (s.scopeAt k).base with
      | none => rfl
      | some b =>
        have hlt := h.base hb
        exact ih (fun j hj => hbase j (by omega)) (fun j hj => hnames j (by omega))

theorem find?_congr_name (h : s.WellFormed)
    (hbase : ∀ j ≤ k, (s'.scopeAt j).base = (s.scopeAt j).base)
    (hnames : ∀ j ≤ k, findName name (s'.scopeAt j).names = findName name (s.scopeAt j).names) :
    s'.find? k name = s.find? k name :=
  findFrom_congr h hbase hnames k

theorem find?_congr {s : Store} (h : s.WellFormed) {k : Nat}
    (hbase : ∀ j ≤ k, (s'.scopeAt j).base = (s.scopeAt j).base)
    (hnames : ∀ j ≤ k, (s'.scopeAt j).names = (s.scopeAt j).names) (name : String) :
    s'.find? k name = s.find? k name :=
  find?_congr_name h hbase fun j hj => congrArg (findName name) (hnames j hj)

/-- A name of the scope itself is found there. -/
theorem find?_of_findName (h : findName name (s.scopeAt k).names = some c) :
    s.find? k name = some c := by
  unfold find?
  cases k with
  | zero | succ k => rw [findFrom, h]

theorem valueOf?_of_findName (h : findName name (s.scopeAt k).names = some c) :
    s.valueOf? k name = some (s.cellValue c) := by
  rw [valueOf?, find?_of_findName h]
  rfl

/-- The address of a scope bounds the number of scopes around it. -/
theorem findFrom_eq_find? (h : s.WellFormed) {n : Nat} (hk : k ≤ n) (name : String) :
    s.findFrom n k name = s.find? k name := by
  unfold find?
  induction k using Nat.strongRecOn generalizing n with
  | ind k ih =>
    cases n with
    | zero =>
      obtain rfl : k = 0 := by omega
      rfl
    | succ n =>
      rw [findFrom]
      cases k with
      | zero =>
        rw [findFrom]
        cases findName name (s.scopeAt 0).names with
        | some c => rfl
        | none =>
          cases hb : (s.scopeAt 0).base with
          | none => rfl
          | some b => exact absurd (h.base hb) (Nat.not_lt_zero b)
      | succ k =>
        rw [findFrom]
        cases findName name (s.scopeAt (k + 1)).names with
        | some c => rfl
        | none =>
          cases hb : (s.scopeAt (k + 1)).base with
          | none => rfl
          | some b =>
            -- Both searches go on at the base, with bounds that are large enough.
            have hlt := h.base hb
            exact (ih b hlt (by omega)).trans (ih b hlt (by omega)).symm

/-- A name is looked for in the scope itself and then from its base on. -/
theorem find?_eq (h : s.WellFormed) (k : Nat) (name : String) : s.find? k name =
      (findName name (s.scopeAt k).names).or ((s.scopeAt k).base.bind fun b => s.find? b name) := by
  rw [← findFrom_eq_find? h (Nat.le_succ k), findFrom]
  cases findName name (s.scopeAt k).names with
  | some c => rfl
  | none =>
    cases hb : (s.scopeAt k).base with
    | none => rfl
    | some b =>
      have hlt := h.base hb
      exact findFrom_eq_find? h (Nat.le_of_lt hlt) name

/-- A name that is found stands for a cell that is there. -/
theorem WellFormed.find?_lt (h : s.WellFormed) (hc : s.find? k name = some c) :
    c < s.cells.size := by
  have hfrom (n : Nat) : ∀ k, s.findFrom n k name = some c → c < s.cells.size := by
    induction n with
    | zero => exact fun k hk => h.findName_lt hk
    | succ n ih =>
      intro k hk
      rw [findFrom] at hk
      split at hk
      · next d hd =>
        cases hk
        exact h.findName_lt hd
      · split at hk
        · exact ih _ hk
        · cases hk
  exact hfrom k k hc

/-! ### Services -/

/-- A service that is made known to a scope is known to it. -/
theorem service?_setService (hk : (s.scopeAt k).table < s.tables.size) (name : String)
    (service : Service) :
    (s.setService k name service).service? k name = some service := by
  have hput (entries : List (String × Service)) :
      ((putService name service entries).find? fun e => e.1 == name).map Prod.snd =
        some service := by
    induction entries with
    | nil => simp [putService]
    | cons e entries ih =>
      obtain ⟨m, old⟩ := e
      by_cases hm : m = name
      · simp [putService, hm]
      · simpa [putService, hm] using ih
  have hscope : (s.setService k name service).scopeAt k = s.scopeAt k := rfl
  have htables : (s.setService k name service).tables[(s.scopeAt k).table]? =
      some (putService name service s.tables[(s.scopeAt k).table]) := by
    rw [setService, Array.getElem?_modify, if_pos rfl, Array.getElem?_eq_getElem hk]
    rfl
  rw [service?, servicesOf, hscope, htables]
  exact hput _

/-- A scope that knows a service has a table of services. -/
theorem table_lt_of_service? {service : Service} (h : s.service? k name = some service) :
    (s.scopeAt k).table < s.tables.size := by
  rcases Nat.lt_or_ge (s.scopeAt k).table s.tables.size with hsize | hsize
  · exact hsize
  · rw [service?, servicesOf, Array.getElem?_eq_none hsize] at h
    cases h

end Parley.Store
