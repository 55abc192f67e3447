import Parley.Proofs.Eval.Assignment
import Parley.Proofs.Store.Loading

/-!
# Variables that are declared one after the other

A scope whose variables all have cells of their own (`Store.Tidy`) stays so when variables are
written, and then a write changes no other variable. So a scope in which variables are declared one
after the other ends up with all of them, each with the data it was declared with
(`Store.Rebuilt`).
-/

namespace Parley.Store

open List

variable {s s' : Store} {k : Nat} {name other : String} {v : Value}

/-! ### Scopes and cells after a write -/

/-- A write gives the scope at most a new name. -/
theorem scopeAt_define (s : Store) (hk : k < s.scopes.size) (name : String) (v : Value) :
    (s.define k name v).1.scopeAt k = { s.scopeAt k with
        names := (s.scopeAt k).names ++ if (findName name (s.scopeAt k).names).isSome then []
          else [(name, (s.define k name v).2)] } := by
  rcases define_cases s k name v with ⟨c, hown, hdef⟩ | ⟨c, hown, -, hdef⟩ | ⟨hown, -, hdef⟩
  · rw [hdef, hown]
    simp
  · rw [hdef, hown, scopeAt_setCell, scopeAt_bind_self hk]
    simp
  · rw [hdef, hown, scopeAt_bind_self (s := (s.newCell v).1) hk]
    rfl

theorem arrays_define (s : Store) (k : Nat) (name : String) (v : Value) :
    (s.define k name v).1.arrays = s.arrays := by
  rcases define_cases s k name v with ⟨c, -, hdef⟩ | ⟨c, -, -, hdef⟩ | ⟨-, -, hdef⟩ <;>
    rw [hdef] <;> rfl

theorem objects_define (s : Store) (k : Nat) (name : String) (v : Value) :
    (s.define k name v).1.objects = s.objects := by
  rcases define_cases s k name v with ⟨c, -, hdef⟩ | ⟨c, -, -, hdef⟩ | ⟨-, -, hdef⟩ <;>
    rw [hdef] <;> rfl

section

variable (h : s.WellFormed) (hk : k < s.scopes.size)

include h hk

theorem find?_define_self (name : String) (v : Value) :
    (s.define k name v).1.find? k name = some (s.define k name v).2 :=
  find?_of_findName (define_spec h hk name v).bound

theorem find?_define_of_ne (hne : other ≠ name) (v : Value) :
    (s.define k name v).1.find? k other = s.find? k other := by
  have hdef := define_spec h hk name v
  rw [find?_eq (h.define k name v), find?_eq h, hdef.others other hne, hdef.base]
  cases hb : (s.scopeAt k).base with
  | none => rfl
  | some b =>
    -- The base lies before the scope, where nothing has changed.
    have hlt := h.base hb
    have hbase (j : Nat) (hj : j ≤ b) : (s.define k name v).1.scopeAt j = s.scopeAt j :=
      hdef.outside j (by omega)
    have hfind : (s.define k name v).1.find? b other = s.find? b other :=
      find?_congr h (fun j hj => by rw [hbase j hj]) (fun j hj => by rw [hbase j hj]) other
    exact congrArg _ hfind

/-- The cell that is written is that of the variable, or a new one. -/
theorem define_snd (name : String) (v : Value) :
    s.find? k name = some (s.define k name v).2 ∨ s.cells.size = (s.define k name v).2 := by
  rcases (define_spec h hk name v).place with hplace | ⟨-, hnew⟩
  · left
    rw [find?_eq h]
    cases hown : findName name (s.scopeAt k).names with
    | some c => rwa [hown] at hplace
    | none =>
      rw [hown] at hplace
      obtain ⟨b, hb, hc⟩ := inherited?_eq_some hplace
      rw [hb]
      exact find?_of_findName hc
  · exact .inr hnew.symm

end

/-! ### Variables with cells of their own -/

/-- The cell is there, and no variable that can be seen from the scope `k` has it. -/
def Free (s : Store) (k c : Nat) : Prop :=
  c < s.cells.size ∧ ∀ name, s.find? k name ≠ some c

/-- The scope `k` is there, and no two names stand for the same cell in it. -/
structure Tidy (s : Store) (k : Nat) : Prop where
  wellFormed : s.WellFormed
  scope : k < s.scopes.size
  separate : ∀ {m n c}, s.find? k m = some c → s.find? k n = some c → m = n

namespace Tidy

theorem define (h : s.Tidy k) (name : String) (v : Value) : (s.define k name v).1.Tidy k where
  wellFormed := h.wellFormed.define k name v
  scope := (define_spec h.wellFormed h.scope name v).scopes ▸ h.scope
  separate {m n c} hm hn := by
    -- The cell of the variable belongs to no other name.
    have hself {n : String} (hn : (s.define k name v).1.find? k n = some (s.define k name v).2) :
        n = name := by
      by_contra hne
      rw [find?_define_of_ne h.wellFormed h.scope hne] at hn
      rcases define_snd h.wellFormed h.scope name v with hc | hc
      · exact hne (h.separate hn hc)
      · exact absurd (h.wellFormed.find?_lt hn) (by omega)
    have hfound := find?_define_self h.wellFormed h.scope name v
    by_cases hmname : m = name
    · subst hmname
      obtain rfl := Option.some.inj (hfound.symm.trans hm)
      exact (hself hn).symm
    · by_cases hnname : n = name
      · subst hnname
        obtain rfl := Option.some.inj (hfound.symm.trans hn)
        exact hself hm
      · rw [find?_define_of_ne h.wellFormed h.scope hmname] at hm
        rw [find?_define_of_ne h.wellFormed h.scope hnname] at hn
        exact h.separate hm hn

variable (h : s.Tidy k)

include h

theorem undisturbed (hkept : s.Undisturbed s') (hwf : s'.WellFormed) :
    s'.Tidy k where
  wellFormed := hwf
  scope := hkept.scopes ▸ h.scope
  separate hm hn := by
    rw [hkept.find?_eq h.wellFormed] at hm hn
    exact h.separate hm hn

/-- A write changes no other variable. -/
theorem valueOf?_define_of_ne (hne : other ≠ name) (v : Value) :
    (s.define k name v).1.valueOf? k other = s.valueOf? k other := by
  rw [valueOf?, valueOf?, find?_define_of_ne h.wellFormed h.scope hne]
  cases hc : s.find? k other with
  | none => rfl
  | some c =>
    have hlt := h.wellFormed.find?_lt hc
    refine congrArg some ((define_spec h.wellFormed h.scope name v).cells c hlt ?_)
    rintro rfl
    rcases define_snd h.wellFormed h.scope name v with hself | hnew
    · exact hne (h.separate hc hself)
    · omega

/-- A write spares the cells that belong to no variable. -/
theorem spares_define (name : String) (v : Value) :
    Spares (s.Free k) ((s.define k name v).1.Free k) s (s.define k name v).1 where
  arrays hr := by rwa [arrays_define]
  objects hr := by rwa [objects_define]
  cells {c} hc := by
    have hdef := define_spec h.wellFormed h.scope name v
    have hne : c ≠ (s.define k name v).2 := by
      rintro rfl
      rcases define_snd h.wellFormed h.scope name v with hself | hnew
      · exact hc.2 name hself
      · exact absurd hc.1 (by omega)
    refine ⟨⟨Nat.lt_of_lt_of_le hc.1 hdef.size.1, fun n hn => ?_⟩, hdef.cells c hc.1 hne⟩
    by_cases hname : n = name
    · rw [hname, find?_define_self h.wellFormed h.scope] at hn
      exact hne (Option.some.inj hn).symm
    · rw [find?_define_of_ne h.wellFormed h.scope hname] at hn
      exact hc.2 n hn

/-- Additions spare the cells that belong to no variable. -/
theorem spares_undisturbed (hkept : s.Undisturbed s') : Spares (s.Free k) (s'.Free k) s s' := by
  refine hkept.spares fun c hc => ?_
  refine ⟨hc.1, Nat.lt_of_lt_of_le hc.1 hkept.size_cells_le, fun n hn => ?_⟩
  rw [hkept.find?_eq h.wellFormed] at hn
  exact hc.2 n hn

/-- New cells belong to no variable. -/
theorem free_of_newCell (hkept : s.Undisturbed s') {c : Nat} (hc : NewCell s s' c) :
    s'.Free k c := by
  refine ⟨hc.2, fun n hn => ?_⟩
  rw [hkept.find?_eq h.wellFormed] at hn
  exact absurd (h.wellFormed.find?_lt hn) (Nat.not_lt.mpr hc.1)

end Tidy

/-! ### Declarations of data -/

theorem scopes_newCells (s : Store) (vs : List Value) : (s.newCells vs).1.scopes = s.scopes := by
  induction vs generalizing s with
  | nil => rfl
  | cons v vs ih => exact ih (s.newCell v).1

mutual

theorem scopes_load (s : Store) : ∀ shape : Shape, (s.load shape).1.scopes = s.scopes
  | .leaf _ => rfl
  | .array es => (scopes_newCells (s.loadAll es).1 _).trans (scopes_loadAll s es)
  | .object ps => (scopes_newCells (s.loadNamed ps).1 _).trans (scopes_loadNamed s ps)

theorem scopes_loadAll (s : Store) : ∀ es : List Shape, (s.loadAll es).1.scopes = s.scopes
  | [] => rfl
  | e :: es => (scopes_loadAll (s.load e).1 es).trans (scopes_load s e)

theorem scopes_loadNamed (s : Store) :
    ∀ ps : List (String × Shape), (s.loadNamed ps).1.scopes = s.scopes
  | [] => rfl
  | (_, e) :: ps => (scopes_loadNamed (s.load e).1 ps).trans (scopes_load s e)

end

variable {shape : Shape} {declared : List (String × Shape)}

/-- A declaration of a variable in the scope `k` with data on its right side: the variable is null
while the data are put into the store, and then it has them as its value. They are the last result,
too. -/
def declare (s : Store) (k : Nat) (name : String) (shape : Shape) : Store :=
  let loaded := (s.define k name .null).1.load shape
  ((loaded.1.define k name loaded.2).1.define k World.resultName loaded.2).1

theorem Tidy.load (h : s.Tidy k) (shape : Shape) : (s.load shape).1.Tidy k := by
  have hreach : s.Reaches (s.load shape).1 := Tolerant.load s shape
  exact h.undisturbed (Tolerant.load s shape) (hreach.wellFormed h.wellFormed)

theorem Tidy.declare (h : s.Tidy k) (name : String) (shape : Shape) :
    (s.declare k name shape).Tidy k :=
  (((h.define name .null).load shape).define name _).define World.resultName _

/-! ### The names of a scope -/

/-- The names of a scope in the order in which they were made, that of the last result apart. -/
def ownNames (s : Store) (k : Nat) : List String :=
  ((s.scopeAt k).names.map Prod.fst).filter (· ≠ World.resultName)

theorem findName_isSome_iff (name : String) (names : List (String × Nat)) :
    (findName name names).isSome ↔ name ∈ names.map Prod.fst := by
  induction names with
  | nil => simp [findName]
  | cons p names ih =>
    rw [findName, map_cons, mem_cons, ← ih]
    split
    · next hp => simp [hp]
    · next hp => simp [Ne.symm hp]

/-- A write adds its name to those of the scope, unless it is there. -/
theorem ownNames_define (s : Store) (hk : k < s.scopes.size) (name : String) (v : Value) :
    (s.define k name v).1.ownNames k =
      if name = World.resultName ∨ name ∈ s.ownNames k then s.ownNames k
      else s.ownNames k ++ [name] := by
  rw [ownNames, scopeAt_define s hk, map_append, filter_append, ← ownNames]
  have hmem : name ∈ s.ownNames k ↔
      (findName name (s.scopeAt k).names).isSome ∧ name ≠ World.resultName := by
    rw [findName_isSome_iff, ownNames, mem_filter, decide_eq_true_eq]
  by_cases hresult : name = World.resultName
  · split <;> simp [hresult]
  · by_cases hown : (findName name (s.scopeAt k).names).isSome
    · have hpos : name = World.resultName ∨ name ∈ s.ownNames k := .inr (hmem.mpr ⟨hown, hresult⟩)
      rw [if_pos hpos, if_pos hown]
      simp
    · have hneg : ¬ (name = World.resultName ∨ name ∈ s.ownNames k) :=
        not_or.mpr ⟨hresult, fun h => hown (hmem.mp h).1⟩
      rw [if_neg hneg, if_neg hown]
      simp [hresult]

theorem ownNames_load (s : Store) (shape : Shape) (k : Nat) :
    (s.load shape).1.ownNames k = s.ownNames k := by
  rw [ownNames, scopeAt, scopes_load]
  rfl

/-- A declaration adds its name to those of the scope. -/
theorem Tidy.ownNames_declare (h : s.Tidy k) (name : String) (hname : name ∉ s.ownNames k)
    (shape : Shape) :
    (s.declare k name shape).ownNames k = s.ownNames k ++ [name].filter (· ≠ World.resultName) := by
  have hdefined := h.define name .null
  have hloaded := hdefined.load shape
  rw [Store.declare, ownNames_define _ (hloaded.define name _).scope, ownNames_define _ hloaded.scope, ownNames_load, ownNames_define s h.scope]
  by_cases hresult : name = World.resultName
  · simp [hresult]
  · simp [hresult, hname]

/-- A declaration changes nothing but the names of its scope. -/
theorem Tidy.exists_scopeAt_declare (h : s.Tidy k) (name : String) (shape : Shape) :
    ∃ names, (s.declare k name shape).scopeAt k = { s.scopeAt k with names } := by
  have hdefined := h.define name .null
  have hloaded := hdefined.load shape
  have hscope : ((s.define k name .null).1.load shape).1.scopeAt k =
      (s.define k name .null).1.scopeAt k := by rw [scopeAt, scopes_load]; rfl
  rw [Store.declare, scopeAt_define _ (hloaded.define name _).scope, scopeAt_define _ hloaded.scope,
    hscope, scopeAt_define s h.scope]
  exact ⟨_, rfl⟩

/-! ### The data of variables -/

/-- The variable has these data as its value, in cells that belong to no variable. -/
def Has (s : Store) (k : Nat) (name : String) (shape : Shape) : Prop :=
  ∃ v, s.valueOf? k name = some v ∧ s.Represents (s.Free k) shape v

theorem Has.define {shape : Shape} (h : s.Has k other shape) (ht : s.Tidy k) (hne : other ≠ name)
    (v : Value) : (s.define k name v).1.Has k other shape := by
  obtain ⟨u, hu, hrep⟩ := h
  exact ⟨u, (ht.valueOf?_define_of_ne hne v).trans hu, hrep.spared (ht.spares_define name v)⟩

theorem has_define_self (ht : s.Tidy k) (h : s.Represents (s.Free k) shape v) (name : String) :
    (s.define k name v).1.Has k name shape :=
  ⟨v, valueOf?_define_self ht.wellFormed ht.scope name v, h.spared (ht.spares_define name v)⟩

theorem Has.undisturbed (h : s.Has k name shape) (ht : s.Tidy k) (hkept : s.Undisturbed s') :
    s'.Has k name shape := by
  obtain ⟨u, hu, hrep⟩ := h
  exact ⟨u, (hkept.valueOf?_eq ht.wellFormed k name).trans hu,
    hrep.spared (ht.spares_undisturbed hkept)⟩

/-- A declaration leaves the other variables alone. -/
theorem Has.declare {more : Shape} (h : s.Has k other shape) (ht : s.Tidy k) (hne : other ≠ name)
    (hresult : other ≠ World.resultName) :
    (s.declare k name more).Has k other shape := by
  have hdefined := ht.define name .null
  have hloaded := hdefined.load more
  have hkept := (h.define ht hne _).undisturbed hdefined (Tolerant.load _ more)
  exact (hkept.define hloaded hne _).define (hloaded.define name _) hresult _

/-- A declaration gives its variable the data. -/
theorem has_declare_self (ht : s.Tidy k) (h : shape.Saveable) (hresult : name ≠ World.resultName) :
    (s.declare k name shape).Has k name shape := by
  have hdefined := ht.define name .null
  have hloaded := hdefined.load shape
  have hkept : (s.define k name .null).1.Undisturbed ((s.define k name .null).1.load shape).1 :=
    Tolerant.load _ shape
  have hspares : Spares (NewCell (s.define k name .null).1 ((s.define k name .null).1.load shape).1)
      (((s.define k name .null).1.load shape).1.Free k)
      ((s.define k name .null).1.load shape).1 ((s.define k name .null).1.load shape).1 :=
    ⟨id, id, fun hc => ⟨hdefined.free_of_newCell hkept hc, rfl⟩⟩
  have hrep := (represents_load h.madeOf (s.define k name .null).1).spared hspares
  exact (has_define_self hloaded hrep name).define (hloaded.define name _) hresult _

theorem parts_define (s : Store) (k : Nat) (name : String) (v : Value) :
    (s.define k name v).1.parts = s.parts := by
  rw [parts, arrays_define, objects_define, ← parts]

theorem height_add_parts_le_declare (s : Store) (k : Nat) (name : String) (shape : Shape) :
    shape.height + s.parts ≤ (s.declare k name shape).parts := by
  rw [declare, parts_define, parts_define, ← parts_define s k name .null]
  exact height_add_parts_le _ shape

/-! ### Sessions that are built up again -/

/-- The values that reading a saved session relies on. -/
def steady : List (String × Value) :=
  [ ("null", .null), ("true", .constant (.bool true)), ("false", .constant (.bool false)),
    ("*prompt", .setting "$ ") ]

theorem resultName_not_mem_steady : World.resultName ∉ steady.map Prod.fst := by
  decide

/-- These variables have been declared in the scope `k`, in this order and with these data. What the
last result is does not count. -/
structure Rebuilt (s : Store) (k : Nat) (declared : List (String × Shape)) : Prop where
  tidy : s.Tidy k
  steady : ∀ p ∈ steady, s.valueOf? k p.1 = some p.2
  names : s.ownNames k = (declared.map Prod.fst).filter (· ≠ World.resultName)
  data : ∀ p ∈ declared, p.1 ≠ World.resultName → s.Has k p.1 p.2
  room : ∀ p ∈ declared, p.2.height ≤ s.parts

theorem Tidy.valueOf?_declare_of_ne (h : s.Tidy k) (hne : other ≠ name)
    (hresult : other ≠ World.resultName) (shape : Shape) :
    (s.declare k name shape).valueOf? k other = s.valueOf? k other := by
  have hdefined := h.define name .null
  have hloaded := hdefined.load shape
  have hkept : (s.define k name .null).1.Undisturbed ((s.define k name .null).1.load shape).1 :=
    Tolerant.load _ shape
  rw [Store.declare, (hloaded.define name _).valueOf?_define_of_ne hresult,
    hloaded.valueOf?_define_of_ne hne, hkept.valueOf?_eq hdefined.wellFormed,
    h.valueOf?_define_of_ne hne]

/-- **One declaration more.** -/
theorem Rebuilt.declare (h : s.Rebuilt k declared) (hshape : shape.Saveable)
    (hname : name ∉ declared.map Prod.fst) (hsteady : name ∉ Store.steady.map Prod.fst) :
    (s.declare k name shape).Rebuilt k (declared ++ [(name, shape)]) where
  tidy := h.tidy.declare name shape
  steady p hp := by
    have hmem := mem_map_of_mem (f := Prod.fst) hp
    have hne : p.1 ≠ name := fun heq => hsteady (heq ▸ hmem)
    have hresult : p.1 ≠ World.resultName := fun heq => resultName_not_mem_steady (heq ▸ hmem)
    rw [h.tidy.valueOf?_declare_of_ne hne hresult, h.steady p hp]
  names := by
    have hown : name ∉ s.ownNames k := by
      rw [h.names]
      exact fun hmem => hname (mem_of_mem_filter hmem)
    rw [h.tidy.ownNames_declare name hown, h.names, map_append, filter_append]
    rfl
  data := by
    refine forall_mem_append.mpr ⟨fun p hp hresult => ?_, ?_⟩
    · have hne : p.1 ≠ name := fun heq => hname (heq ▸ mem_map_of_mem hp)
      exact (h.data p hp hresult).declare h.tidy hne hresult
    · exact forall_mem_singleton.mpr fun hresult => has_declare_self h.tidy hshape hresult
  room := by
    have hle := height_add_parts_le_declare s k name shape
    refine forall_mem_append.mpr ⟨fun p hp => ?_, forall_mem_singleton.mpr ?_⟩
    · have hold := h.room p hp
      omega
    · show shape.height ≤ _
      omega

/-- Additions do not count. -/
theorem Rebuilt.undisturbed (h : s.Rebuilt k declared) (hkept : s.Undisturbed s')
    (hwf : s'.WellFormed) (hparts : s.parts ≤ s'.parts) :
    s'.Rebuilt k declared where
  tidy := h.tidy.undisturbed hkept hwf
  steady p hp := by rw [hkept.valueOf?_eq h.tidy.wellFormed, h.steady p hp]
  names := by rw [ownNames, (hkept.alike k).names, ← h.names, ownNames]
  data p hp hresult := (h.data p hp hresult).undisturbed h.tidy hkept
  room p hp := Nat.le_trans (h.room p hp) hparts

/-- Neither does what is noted in a scope besides its names. -/
theorem Rebuilt.modifyScope (h : s.Rebuilt k declared) (j : Nat) {f : Scope → Scope}
    (hf : ∀ sc, (f sc).Alike sc) : (s.modifyScope j f).Rebuilt k declared := by
  have hflags : s.Addition (s.modifyScope j f) := .flags s j f hf
  exact h.undisturbed (.of_addition hflags) (h.tidy.wellFormed.addition hflags) (Nat.le_refl _)

/-- The variables of a scope with their data, the last result apart. -/
def variableShapes (s : Store) (k : Nat) : List (String × Shape) :=
  ((s.scopeAt k).names.filter (·.1 != World.resultName)).map
    fun p => (p.1, s.shape (s.cellValue p.2))

/-- Names that occur once among those other than that of the last result are found where they
stand. -/
theorem findName_of_mem_filter {names : List (String × Nat)}
    (hnodup : ((names.filter (·.1 != World.resultName)).map Prod.fst).Nodup) {p : String × Nat}
    (hp : p ∈ names.filter (·.1 != World.resultName)) : findName p.1 names = some p.2 := by
  induction names with
  | nil => cases hp
  | cons q names ih =>
    rw [findName]
    by_cases hq : q.1 = World.resultName
    · have hskip : (q :: names).filter (·.1 != World.resultName) =
          names.filter (·.1 != World.resultName) := filter_cons_of_neg (by simp [hq])
      rw [hskip] at hnodup hp
      have hne : q.1 ≠ p.1 := by
        intro heq
        have hresult := (mem_filter.mp hp).2
        simp [← heq, hq] at hresult
      rw [if_neg hne]
      exact ih hnodup hp
    · have hkeep : (q :: names).filter (·.1 != World.resultName) =
          q :: names.filter (·.1 != World.resultName) := filter_cons_of_pos (by simp [hq])
      rw [hkeep] at hnodup hp
      rw [map_cons, nodup_cons] at hnodup
      rcases mem_cons.mp hp with rfl | hp
      · rw [if_pos rfl]
      · have hne : q.1 ≠ p.1 := fun heq => hnodup.1 (heq ▸ mem_map_of_mem hp)
        rw [if_neg hne]
        exact ih hnodup.2 hp

/-- Named things are what they should be if their names are and each agrees with its namesakes. -/
theorem map_eq_of_names {α β : Type} {f : α → β} {xs : List (String × α)} {ys : List (String × β)}
    (hnames : xs.map Prod.fst = ys.map Prod.fst)
    (h : ∀ x ∈ xs, ∀ y ∈ ys, x.1 = y.1 → f x.2 = y.2) : xs.map (fun x => (x.1, f x.2)) = ys := by
  induction xs generalizing ys with
  | nil =>
    rw [map_nil, eq_comm, map_eq_nil_iff] at hnames
    exact hnames.symm
  | cons x xs ih =>
    cases ys with
    | nil => cases hnames
    | cons y ys =>
      obtain ⟨hname, hrest⟩ := cons.inj hnames
      have hvalue := h x mem_cons_self y mem_cons_self hname
      rw [map_cons, ih hrest fun x hx y hy =>
        h x (mem_cons_of_mem _ hx) y (mem_cons_of_mem _ hy), hname, hvalue]

/-- The variables of the scope have the shapes that they were declared with. -/
theorem Rebuilt.variableShapes_eq (h : s.Rebuilt k declared)
    (hnodup : (declared.map Prod.fst).Nodup) :
    s.variableShapes k = declared.filter (·.1 != World.resultName) := by
  have hnames : ((s.scopeAt k).names.filter (·.1 != World.resultName)).map Prod.fst =
      (declared.filter (·.1 != World.resultName)).map Prod.fst := by
    have hfilter {α : Type} (xs : List (String × α)) :
        (xs.filter (·.1 != World.resultName)).map Prod.fst =
          (xs.map Prod.fst).filter (· ≠ World.resultName) := by
      rw [filter_map]
      congr 1
      exact filter_congr fun x _ => by simp [bne, BEq.beq]
    rw [hfilter, hfilter, ← h.names, ownNames]
  have honce : (((s.scopeAt k).names.filter (·.1 != World.resultName)).map Prod.fst).Nodup := by
    rw [hnames]
    exact hnodup.sublist (filter_sublist.map Prod.fst)
  refine map_eq_of_names (f := fun c => s.shape (s.cellValue c)) hnames fun p hp q hq hpq => ?_
  obtain ⟨hq, hresult⟩ := mem_filter.mp hq
  obtain ⟨v, hv, hrep⟩ := h.data q hq (by simpa using hresult)
  rw [← hpq, valueOf?_of_findName (findName_of_mem_filter honce hp)] at hv
  rw [Option.some.inj hv]
  exact hrep.shape_eq (h.room q hq)

end Parley.Store
