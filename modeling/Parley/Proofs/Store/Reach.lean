import Mathlib.Logic.Relation
import Parley.Proofs.Store.Scopes

/-!
# The changes of the store

Whatever the interpreter does to the store it does in steps of a few kinds (`Store.Step`): it adds
something, writes a cell or a variable, opens a scope, lets a function literal capture a scope,
replaces tables of services, or forgets the variables of a scope. So a property that every such step
keeps is kept by every run. Two of them are proved here: a well-formed store stays well formed, and
what has been captured stays captured.
-/

namespace Parley.Store

open List

variable {s s' : Store}

/-- One change of the store. -/
inductive Step : Store → Store → Prop
  | add {s s' : Store} (h : Addition s s') : Step s s'
  | write (s : Store) (c : Nat) (v : Value) : Step s (s.setCell c v)
  | define (s : Store) (k : Nat) (name : String) (v : Value) : Step s (s.define k name v).1
  | child (s : Store) (base : Nat) (h : base < s.scopes.size) : Step s (s.newChild base).1
  | capture (s : Store) (site k : Nat) (hk : k < s.scopes.size)
      (hsite : s.captured.lookup site = none) :
      Step s { s with captured := (site, k) :: s.captured }
  | tables (s : Store) (tables : Array (List (String × Service))) : Step s { s with tables }
  | forget (s : Store) (k table : Nat) :
      Step s (s.modifyScope k fun sc => { sc with names := [], table })

/-- Any number of changes of the store. -/
abbrev Reaches : Store → Store → Prop :=
  Relation.ReflTransGen Step

/-! ### Well-formed stores stay well formed -/

/-- A store with one empty scope is well formed. -/
theorem wellFormed_newRoot_empty : empty.newRoot.1.WellFormed := by
  -- There is one scope, with neither base nor names, and no address leads to another one.
  have hscope (k : Nat) : (empty.newRoot.1.scopeAt k).base = none ∧
      (empty.newRoot.1.scopeAt k).names = [] := by
    cases k <;> exact ⟨rfl, rfl⟩
  constructor
  · intro k b hb
    rw [(hscope k).1] at hb
    cases hb
  · intro k name c hc
    rw [(hscope k).2] at hc
    cases hc
  · intro site k hk
    cases hk

/-- A change that keeps the bases of scopes and what literals have captured, and gives scopes no
names but for cells that are there. -/
theorem WellFormed.of_names (h : s.WellFormed)
    (hbase : ∀ j, (s'.scopeAt j).base = (s.scopeAt j).base)
    (hnames : ∀ j, ∀ p ∈ (s'.scopeAt j).names, p ∈ (s.scopeAt j).names ∨ p.2 < s'.cells.size)
    (hcells : s.cells.size ≤ s'.cells.size) (hcaptured : s'.captured = s.captured)
    (hscopes : s.scopes.size ≤ s'.scopes.size) : s'.WellFormed where
  base hb := h.base (hbase _ ▸ hb)
  cell hc := by
    rcases hnames _ _ hc with hold | hnew
    · exact Nat.lt_of_lt_of_le (h.cell hold) hcells
    · exact hnew
  captured hsite := Nat.lt_of_lt_of_le (h.captured (hcaptured ▸ hsite)) hscopes

/-- A change of a scope that keeps its base and gives it no names but for cells that are there. -/
theorem WellFormed.modifyScope (h : s.WellFormed) (k : Nat) {f : Scope → Scope}
    (hbase : (f (s.scopeAt k)).base = (s.scopeAt k).base)
    (hnames : ∀ p ∈ (f (s.scopeAt k)).names, p ∈ (s.scopeAt k).names ∨ p.2 < s.cells.size) :
    (s.modifyScope k f).WellFormed := by
  refine h.of_names ?_ ?_ (Nat.le_refl _) rfl (by simp)
  · intro j
    rw [scopeAt_modifyScope]
    split
    · next hj => rw [hj.1, hbase]
    · rfl
  · intro j p hp
    rw [scopeAt_modifyScope] at hp
    split at hp
    · next hj =>
      rw [hj.1] at hp ⊢
      exact hnames p hp
    · exact .inl hp

theorem WellFormed.setCell (h : s.WellFormed) (c : Nat) (v : Value) : (s.setCell c v).WellFormed :=
  h.of_names (fun _ => rfl) (fun _ _ hp => .inl hp) (by simp) rfl (Nat.le_refl _)

theorem WellFormed.bind (h : s.WellFormed) (k : Nat) (name : String) {c : Nat}
    (hc : c < s.cells.size) : (s.bind k name c).WellFormed := by
  refine h.modifyScope k rfl ?_
  intro p hp
  rcases mem_append.mp hp with hold | hnew
  · exact .inl hold
  · rw [mem_singleton.mp hnew]
    exact .inr hc

theorem WellFormed.addition (h : s.WellFormed) (hadd : Addition s s') : s'.WellFormed := by
  cases hadd with
  | cell v =>
    have hsize : s.cells.size ≤ (s.cells.push v).size := by simp
    exact h.of_names (fun _ => rfl) (fun _ _ hp => .inl hp) hsize rfl (Nat.le_refl _)
  | array r | object r | services r | fresh n =>
    exact h.of_names (fun _ => rfl) (fun _ _ hp => .inl hp) (Nat.le_refl _) rfl (Nat.le_refl _)
  | flags k f hf =>
    have halike := hf (s.scopeAt k)
    exact h.modifyScope k halike.base fun p hp => .inl (halike.names ▸ hp)

theorem WellFormed.define {s : Store} (h : s.WellFormed) (k : Nat) (name : String) (v : Value) :
    (s.define k name v).1.WellFormed := by
  rcases define_cases s k name v with ⟨c, -, hdef⟩ | ⟨c, -, hc, hdef⟩ | ⟨-, -, hdef⟩
  · rw [hdef]
    exact h.setCell c v
  · rw [hdef]
    obtain ⟨b, -, hb⟩ := inherited?_eq_some hc
    exact (h.bind k name (h.findName_lt hb)).setCell c v
  · rw [hdef]
    have hnew := h.addition (.cell s v)
    exact hnew.bind k name (by simp)

theorem WellFormed.newChild (h : s.WellFormed) {base : Nat} (hbase : base < s.scopes.size) :
    (s.newChild base).1.WellFormed := by
  -- The new scope has the base it was made in and no names; the others are as they were.
  have hscope (j : Nat) : ((s.newChild base).1.scopeAt j).base = (s.scopeAt j).base ∧
      ((s.newChild base).1.scopeAt j).names = (s.scopeAt j).names ∨
      j = s.scopes.size ∧ ((s.newChild base).1.scopeAt j).base = some base ∧
        ((s.newChild base).1.scopeAt j).names = [] := by
    rcases Nat.lt_trichotomy j s.scopes.size with hlt | rfl | hgt
    · rw [scopeAt_newChild_of_lt hlt]
      exact .inl ⟨rfl, rfl⟩
    · rw [scopeAt_newChild_self]
      exact .inr ⟨rfl, rfl, rfl⟩
    · rw [scopeAt_newChild_of_gt hgt]
      exact .inl ⟨rfl, rfl⟩
  constructor
  · intro j b hb
    rcases hscope j with ⟨hold, -⟩ | ⟨rfl, hnew, -⟩
    · exact h.base (hold ▸ hb)
    · rw [hnew] at hb
      exact Option.some.inj hb ▸ hbase
  · intro j name c hc
    rcases hscope j with ⟨-, hold⟩ | ⟨-, -, hnew⟩
    · exact h.cell (hold ▸ hc)
    · rw [hnew] at hc
      cases hc
  · intro site j hj
    have hsize : (s.newChild base).1.scopes.size = s.scopes.size + 1 := by simp [Store.newChild]
    have hlt := h.captured hj
    omega

theorem Step.wellFormed (hstep : Step s s') (h : s.WellFormed) : s'.WellFormed := by
  cases hstep with
  | add hadd => exact h.addition hadd
  | write c v => exact h.setCell c v
  | define k name v => exact h.define k name v
  | child base hbase => exact h.newChild hbase
  | capture site k hk hsite =>
    refine ⟨h.base, h.cell, ?_⟩
    intro site' k' hk'
    rw [lookup_cons] at hk'
    split at hk'
    · exact Option.some.inj hk' ▸ hk
    · exact h.captured hk'
  | tables t =>
    exact h.of_names (fun _ => rfl) (fun _ _ hp => .inl hp) (Nat.le_refl _) rfl (Nat.le_refl _)
  | forget k table => exact h.modifyScope k rfl (fun p hp => absurd hp not_mem_nil)

/-! ### What no change takes away -/

/-- Cells and scopes are not removed, and a literal keeps the scope that it has captured. -/
structure Grows (s s' : Store) : Prop where
  cells : s.cells.size ≤ s'.cells.size
  scopes : s.scopes.size ≤ s'.scopes.size
  captured : ∀ {site k}, s.captured.lookup site = some k → s'.captured.lookup site = some k

theorem Grows.refl (s : Store) : Grows s s :=
  ⟨Nat.le_refl _, Nat.le_refl _, id⟩

theorem Grows.trans {a b c : Store} (h₁ : Grows a b) (h₂ : Grows b c) : Grows a c :=
  ⟨Nat.le_trans h₁.cells h₂.cells, Nat.le_trans h₁.scopes h₂.scopes,
    fun h => h₂.captured (h₁.captured h)⟩

theorem Step.grows (hstep : Step s s') : Grows s s' := by
  cases hstep with
  | add hadd =>
    cases hadd with
    | cell v => exact ⟨by simp, Nat.le_refl _, id⟩
    | array r | object r | services r | fresh n => exact ⟨Nat.le_refl _, Nat.le_refl _, id⟩
    | flags k f hf => exact ⟨Nat.le_refl _, by simp, id⟩
  | write c v => exact ⟨by simp, Nat.le_refl _, id⟩
  | define k name v =>
    rcases define_cases s k name v with ⟨c, -, hdef⟩ | ⟨c, -, -, hdef⟩ | ⟨-, -, hdef⟩
    · rw [hdef]
      exact ⟨by simp, Nat.le_refl _, id⟩
    · rw [hdef]
      exact ⟨by simp [bind, modifyScope], by simp [bind, setCell], id⟩
    · rw [hdef]
      exact ⟨by simp [newCell, bind, modifyScope], by simp [newCell, bind], id⟩
  | child base hbase => exact ⟨Nat.le_refl _, by simp [newChild], id⟩
  | capture site k hk hsite =>
    refine ⟨Nat.le_refl _, Nat.le_refl _, ?_⟩
    intro site' k' h
    have hne : site' ≠ site := by
      rintro rfl
      rw [hsite] at h
      cases h
    rwa [lookup_cons, beq_false_of_ne hne]
  | tables t => exact ⟨Nat.le_refl _, Nat.le_refl _, id⟩
  | forget k table => exact ⟨Nat.le_refl _, by simp, id⟩

theorem Reaches.wellFormed (hreach : s.Reaches s') (h : s.WellFormed) : s'.WellFormed := by
  induction hreach with
  | refl => exact h
  | tail _ hstep ih => exact hstep.wellFormed ih

theorem Reaches.grows (hreach : s.Reaches s') : Grows s s' := by
  induction hreach with
  | refl => exact Grows.refl s
  | tail _ hstep ih => exact ih.trans hstep.grows

instance : Tolerant Reaches where
  refl _ := .refl
  trans h₁ h₂ := h₁.trans h₂
  add h := .single (.add h.addition)

/-! ### Changes from within a scope -/

/-- From a well-formed store in which the scope `k` is there, only steps lead on. -/
def Within (k : Nat) (s s' : Store) : Prop :=
  s.WellFormed → k < s.scopes.size → s.Reaches s'

end Parley.Store
