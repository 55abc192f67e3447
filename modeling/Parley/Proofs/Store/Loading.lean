import Parley.Proofs.Eval.Undisturbed
import Parley.Proofs.Grammar.Declarations

/-!
# Data in the store

Data that are put into the store are spread over its cells, arrays and objects. A value represents
data (`Store.Represents`) if following the addresses from it on leads to them again, by way of cells
of a certain kind only. Changes that spare these cells (`Store.Spares`) leave the data alone,
whatever else they do, and so a value goes on representing the same data while other variables are
written.
-/

namespace Parley

open List

/-! ### Heights -/

variable {α β γ : Type} {es : List Shape} {ps : List (String × Shape)} {free free' : Nat → Prop}
  {leaf : Constant → Prop} {names : List String → Prop}

namespace Shape

mutual

/-- How deeply arrays and objects are inside each other. -/
def height : Shape → Nat
  | .leaf _ => 0
  | .array es => heightAll es + 1
  | .object ps => heightNamed ps + 1

/-- The greatest height of several shapes. -/
def heightAll : List Shape → Nat
  | [] => 0
  | e :: es => max (height e) (heightAll es)

/-- The greatest height of named shapes. -/
def heightNamed : List (String × Shape) → Nat
  | [] => 0
  | (_, e) :: ps => max (height e) (heightNamed ps)

end

theorem height_le_heightAll {e : Shape} (h : e ∈ es) : e.height ≤ heightAll es :=
  le_of_cons (fun _ _ => rfl) h

theorem height_le_heightNamed {p : String × Shape} (h : p ∈ ps) : p.2.height ≤ heightNamed ps :=
  le_of_cons (f := fun p => height p.2) (fun _ _ => rfl) h

/-- Constants of a kind, and arrays and objects of such data; something may be asked of the names of
the properties of an object. -/
inductive MadeOf (leaf : Constant → Prop) (names : List String → Prop) : Shape → Prop
  | leaf (c : Constant) (h : leaf c) : MadeOf leaf names (.leaf (.constant c))
  | array (es : List Shape) (h : ∀ e ∈ es, MadeOf leaf names e) : MadeOf leaf names (.array es)
  | object (ps : List (String × Shape)) (hnames : names (ps.map Prod.fst))
      (h : ∀ p ∈ ps, MadeOf leaf names p.2) : MadeOf leaf names (.object ps)

theorem Saveable.madeOf {s : Shape} (h : s.Saveable) : s.MadeOf (fun _ => True) fun _ => True := by
  induction h with
  | null | bool | int | text => exact .leaf _ trivial
  | array es _ ih => exact .array es ih
  | object ps _ _ _ ih => exact .object ps trivial ih

end Shape

namespace Store

variable {s s' s₀ : Store} {shape : Shape} {v : Value}

/-! ### Representation -/

/-- The value leads to the data, by way of cells of the kind `free` only. -/
inductive Represents (s : Store) (free : Nat → Prop) : Shape → Value → Prop
  | constant (c : Constant) : Represents s free (.leaf (.constant c)) (.constant c)
  | array {a : Nat} {r : ArrayRecord} {es : List Shape} (hr : s.arrays[a]? = some r)
      (hlength : r.cells.length = es.length) (hfree : ∀ p ∈ r.cells.zip es, free p.1)
      (hparts : ∀ p ∈ r.cells.zip es, Represents s free p.2 (s.cellValue p.1)) :
      Represents s free (.array es) (.array a)
  | object {o : Nat} {r : ObjectRecord} {ps : List (String × Shape)} (hr : s.objects[o]? = some r)
      (hlength : r.cells.length = ps.length) (hfree : ∀ p ∈ r.cells.zip ps, free p.1.2)
      (hnames : ∀ p ∈ r.cells.zip ps, p.1.1 = p.2.1)
      (hparts : ∀ p ∈ r.cells.zip ps, Represents s free p.2.2 (s.cellValue p.1.2)) :
      Represents s free (.object ps) (.object o)

/-- Arrays, objects and the cells of the kind `free` are as they were, and the latter are then of
the kind `free'`. -/
structure Spares (free free' : Nat → Prop) (s s' : Store) : Prop where
  arrays : ∀ {a : Nat} {r}, s.arrays[a]? = some r → s'.arrays[a]? = some r
  objects : ∀ {o : Nat} {r}, s.objects[o]? = some r → s'.objects[o]? = some r
  cells : ∀ {c}, free c → free' c ∧ s'.cellValue c = s.cellValue c

theorem Represents.spared (h : s.Represents free shape v) (hspares : Spares free free' s s') :
    s'.Represents free' shape v := by
  induction h with
  | constant c => exact .constant c
  | array hr hlength hfree _ ih =>
    refine .array (hspares.arrays hr) hlength (fun p hp => (hspares.cells (hfree p hp)).1) ?_
    intro p hp
    rw [(hspares.cells (hfree p hp)).2]
    exact ih p hp
  | object hr hlength hfree hnames _ ih =>
    refine .object (hspares.objects hr) hlength (fun p hp => (hspares.cells (hfree p hp)).1)
      hnames ?_
    intro p hp
    rw [(hspares.cells (hfree p hp)).2]
    exact ih p hp

/-- What is kept in place is kept. -/
theorem getElem?_of_kept {xs ys : Array α} (h : ∀ i < xs.size, ys[i]? = xs[i]?) {i : Nat} {x : α}
    (hx : xs[i]? = some x) : ys[i]? = some x := by
  obtain ⟨hlt, -⟩ := Array.getElem?_eq_some_iff.mp hx
  exact (h i hlt).trans hx

theorem Undisturbed.spares (h : s.Undisturbed s')
    (hfree : ∀ c, free c → c < s.cells.size ∧ free' c) : Spares free free' s s' where
  arrays := getElem?_of_kept h.arrays
  objects := getElem?_of_kept h.objects
  cells {c} hc := ⟨(hfree c hc).2, h.cellValue_eq (hfree c hc).1⟩

/-- A value has the shape that it represents, if the bound on the depth allows for it. -/
theorem Represents.shapeFrom_eq (h : s.Represents free shape v) {depth : Nat}
    (hdepth : shape.height ≤ depth) :
    s.shapeFrom depth v = shape := by
  induction h generalizing depth with
  | constant c => cases depth <;> rfl
  | @array a r es hr hlength _ _ ih =>
    obtain ⟨depth, rfl⟩ := Nat.exists_eq_add_of_le' (Nat.le_of_add_left_le hdepth)
    have hat : s.arrayAt a = r := by rw [arrayAt, hr]; rfl
    rw [shapeFrom, hat]
    have hparts : Forall₂ (fun c e => s.shapeFrom depth (s.cellValue c) = e) r.cells es := by
      refine forall₂_iff_zip.mpr ⟨hlength, fun {c e} hp => ih (c, e) hp ?_⟩
      have hle := Shape.height_le_heightAll (of_mem_zip hp).2
      exact Nat.le_trans hle (Nat.le_of_succ_le_succ hdepth)
    exact congrArg Shape.array (forall₂_eq_eq_eq ▸ forall₂_map_left_iff.mpr hparts)
  | @object o r ps hr hlength _ hnames _ ih =>
    obtain ⟨depth, rfl⟩ := Nat.exists_eq_add_of_le' (Nat.le_of_add_left_le hdepth)
    have hat : s.objectAt o = r := by rw [objectAt, hr]; rfl
    rw [shapeFrom, hat]
    have hparts : Forall₂ (fun p q => (p.1, s.shapeFrom depth (s.cellValue p.2)) = q)
        r.cells ps := by
      refine forall₂_iff_zip.mpr ⟨hlength, fun {p q} hp => ?_⟩
      have hle := Shape.height_le_heightNamed (of_mem_zip hp).2
      exact Prod.ext (hnames (p, q) hp)
        (ih (p, q) hp (Nat.le_trans hle (Nat.le_of_succ_le_succ hdepth)))
    exact congrArg Shape.object (forall₂_eq_eq_eq ▸ forall₂_map_left_iff.mpr hparts)

/-- The number of arrays and objects, which bounds the depth of shapes. -/
def parts (s : Store) : Nat :=
  s.arrays.size + s.objects.size

/-- A value has the shape that it represents. -/
theorem Represents.shape_eq (h : s.Represents free shape v) (hheight : shape.height ≤ s.parts) :
    s.shape v = shape :=
  h.shapeFrom_eq (Nat.le_succ_of_le hheight)

/-! ### Loading -/

/-- The cells that are new in `s'`. -/
def NewCell (s s' : Store) (c : Nat) : Prop :=
  s.cells.size ≤ c ∧ c < s'.cells.size

theorem Undisturbed.size_cells_le (h : s.Undisturbed s') : s.cells.size ≤ s'.cells.size := by
  by_contra hlt
  have hcell := h.cells s'.cells.size (by omega)
  rw [Array.getElem?_eq_none (Nat.le_refl _), Array.getElem?_eq_getElem (by omega)] at hcell
  cases hcell

/-- What has been put into new cells stays while more is added. -/
theorem Represents.undisturbed {first : Store} (h : s.Represents (NewCell first s) shape v)
    (hkept : s.Undisturbed s') (hfirst : s₀.cells.size ≤ first.cells.size) :
    s'.Represents (NewCell s₀ s') shape v := by
  have hsize := hkept.size_cells_le
  refine h.spared (hkept.spares fun c hc => ⟨hc.2, ?_, ?_⟩)
  · exact Nat.le_trans hfirst hc.1
  · exact Nat.lt_of_lt_of_le hc.2 hsize

/-- New cells hold the values they were made for. -/
theorem newCells_spec (s : Store) (vs : List Value) :
    Forall₂ (fun c v => NewCell s (s.newCells vs).1 c ∧ (s.newCells vs).1.cellValue c = v)
      (s.newCells vs).2 vs := by
  induction vs generalizing s with
  | nil => exact .nil
  | cons v vs ih =>
    have hkept : (s.newCell v).1.Undisturbed (s.newCells (v :: vs)).1 := Tolerant.newCells _ vs
    have hsize : (s.newCell v).1.cells.size = s.cells.size + 1 := Array.size_push v
    have hle := hkept.size_cells_le
    refine .cons ⟨⟨Nat.le_refl _, ?_⟩, ?_⟩ ((ih (s.newCell v).1).imp fun c d hc => ?_)
    · omega
    · rw [hkept.cellValue_eq (by rw [hsize]; exact Nat.lt_succ_self _)]
      show ((s.cells.push v)[s.cells.size]?).getD .null = v
      rw [Array.getElem?_push_size]
      rfl
    · have hlower := hc.1.1
      exact ⟨⟨by omega, hc.1.2⟩, hc.2⟩

/-- Two lists side by side with a third one between them. -/
theorem forall₂_comp {R : α → β → Prop} {S : β → γ → Prop} {T : α → γ → Prop}
    (h : ∀ a b c, R a b → S b c → T a c) {as : List α} {bs : List β} {cs : List γ}
    (hab : Forall₂ R as bs) (hbc : Forall₂ S bs cs) : Forall₂ T as cs := by
  induction hab generalizing cs with
  | nil =>
    cases hbc
    exact .nil
  | cons ha _ ih =>
    cases hbc with
    | cons hb hbc => exact .cons (h _ _ _ ha hb) (ih hbc)

/-- Names are put back beside what stands for the rest. -/
theorem forall₂_zip_fst {R : β → γ → Prop} {vs : List (α × γ)} {cs : List β}
    (h : Forall₂ R cs (vs.map Prod.snd)) :
    Forall₂ (fun p v => p.1 = v.1 ∧ R p.2 v.2) ((vs.map Prod.fst).zip cs) vs := by
  induction vs generalizing cs with
  | nil => exact .nil
  | cons v vs ih =>
    cases h with
    | cons hv h => exact .cons ⟨rfl, hv⟩ (ih h)

/-- A new array represents what its elements do. -/
theorem represents_newArray (hsize : s₀.cells.size ≤ s.cells.size) {vs : List Value}
    (h : Forall₂ (fun v e => s.Represents (NewCell s₀ s) e v) vs es) :
    (s.newArray true vs).1.Represents (NewCell s₀ (s.newArray true vs).1) (.array es)
      (s.newArray true vs).2 := by
  have hkept : s.Undisturbed (s.newArray true vs).1 := Tolerant.newArray s true vs
  have hcells := forall₂_comp (T := fun c e => NewCell s₀ (s.newArray true vs).1 c ∧
    (s.newArray true vs).1.Represents (NewCell s₀ (s.newArray true vs).1) e
      ((s.newArray true vs).1.cellValue c)) ?_ (newCells_spec s vs) h
  · obtain ⟨hlength, hparts⟩ := forall₂_iff_zip.mp hcells
    exact .array Array.getElem?_push_size hlength (fun p hp => (hparts hp).1)
      fun p hp => (hparts hp).2
  · rintro c v e ⟨hnew, rfl⟩ he
    exact ⟨⟨Nat.le_trans hsize hnew.1, hnew.2⟩, he.undisturbed hkept (Nat.le_refl _)⟩

/-- A new object represents what its properties do. -/
theorem represents_newObject (hsize : s₀.cells.size ≤ s.cells.size) {vs : List (String × Value)}
    (h : Forall₂ (fun v p => v.1 = p.1 ∧ s.Represents (NewCell s₀ s) p.2 v.2) vs ps) :
    (s.newObject true vs .null).1.Represents (NewCell s₀ (s.newObject true vs .null).1) (.object ps)
      (s.newObject true vs .null).2 := by
  have hkept : s.Undisturbed (s.newObject true vs .null).1 := Tolerant.newObject s true vs .null
  have hcells := forall₂_comp (T := fun c p => c.1 = p.1 ∧
    NewCell s₀ (s.newObject true vs .null).1 c.2 ∧ (s.newObject true vs .null).1.Represents
      (NewCell s₀ (s.newObject true vs .null).1) p.2
      ((s.newObject true vs .null).1.cellValue c.2)) ?_
    (forall₂_zip_fst (newCells_spec s (vs.map Prod.snd))) h
  · obtain ⟨hlength, hparts⟩ := forall₂_iff_zip.mp hcells
    exact .object Array.getElem?_push_size hlength (fun p hp => (hparts hp).2.1)
      (fun p hp => (hparts hp).1) fun p hp => (hparts hp).2.2
  · rintro c ⟨name, v⟩ p ⟨hname, hnew, rfl⟩ ⟨rfl, hp⟩
    exact ⟨hname, ⟨Nat.le_trans hsize hnew.1, hnew.2⟩, hp.undisturbed hkept (Nat.le_refl _)⟩

/-- The data of a list that is put into the store are represented there if those of its members
are. -/
theorem represents_loadAll
    (h : ∀ e ∈ es, ∀ s : Store, (s.load e).1.Represents (NewCell s (s.load e).1) e (s.load e).2)
    (s : Store) :
    Forall₂ (fun v e => (s.loadAll es).1.Represents (NewCell s (s.loadAll es).1) e v)
      (s.loadAll es).2 es := by
  induction es generalizing s with
  | nil => exact .nil
  | cons e es ih =>
    obtain ⟨he, hes⟩ := forall_mem_cons.mp h
    have hfirst : s.Undisturbed (s.load e).1 := Tolerant.load s e
    have hmore : (s.load e).1.Undisturbed (s.loadAll (e :: es)).1 := Tolerant.loadAll _ es
    refine .cons ((he s).undisturbed hmore (Nat.le_refl _)) ?_
    exact (ih hes (s.load e).1).imp fun v d hd => hd.undisturbed (.refl _) hfirst.size_cells_le

/-- `represents_loadAll` for named data. -/
theorem represents_loadNamed (h : ∀ p ∈ ps, ∀ s : Store,
      (s.load p.2).1.Represents (NewCell s (s.load p.2).1) p.2 (s.load p.2).2) (s : Store) :
    Forall₂ (fun v p => v.1 = p.1 ∧
        (s.loadNamed ps).1.Represents (NewCell s (s.loadNamed ps).1) p.2 v.2)
      (s.loadNamed ps).2 ps := by
  induction ps generalizing s with
  | nil => exact .nil
  | cons p ps ih =>
    obtain ⟨hp, hps⟩ := forall_mem_cons.mp h
    have hfirst : s.Undisturbed (s.load p.2).1 := Tolerant.load s p.2
    have hmore : (s.load p.2).1.Undisturbed (s.loadNamed (p :: ps)).1 := Tolerant.loadNamed _ ps
    refine .cons ⟨rfl, (hp s).undisturbed hmore (Nat.le_refl _)⟩ ?_
    exact (ih hps (s.load p.2).1).imp fun v q hq =>
      ⟨hq.1, hq.2.undisturbed (.refl _) hfirst.size_cells_le⟩

/-- **Data that are put into the store** are represented there, by way of new cells. -/
theorem represents_load (h : shape.MadeOf leaf names) (s : Store) :
    (s.load shape).1.Represents (NewCell s (s.load shape).1) shape (s.load shape).2 := by
  induction h generalizing s with
  | leaf c _ => exact .constant c
  | array es _ ih =>
    have hkept : s.Undisturbed (s.loadAll es).1 := Tolerant.loadAll s es
    exact represents_newArray hkept.size_cells_le (represents_loadAll ih s)
  | object ps _ _ ih =>
    have hkept : s.Undisturbed (s.loadNamed ps).1 := Tolerant.loadNamed s ps
    exact represents_newObject hkept.size_cells_le (represents_loadNamed ih s)

/-! ### Room for shapes -/

@[simp] theorem parts_newCells (s : Store) (vs : List Value) :
    (s.newCells vs).1.parts = s.parts := by
  induction vs generalizing s with
  | nil => rfl
  | cons v vs ih => exact ih (s.newCell v).1

theorem parts_newArray (s : Store) (evaluated : Bool) (vs : List Value) :
    (s.newArray evaluated vs).1.parts = s.parts + 1 := by
  rw [← parts_newCells s vs]
  simp only [newArray, parts, Array.size_push]
  omega

theorem parts_newObject (s : Store) (evaluated : Bool) (vs : List (String × Value))
    (description : Data) : (s.newObject evaluated vs description).1.parts = s.parts + 1 := by
  rw [← parts_newCells s (vs.map Prod.snd)]
  simp only [newObject, parts, Array.size_push]
  omega

mutual

/-- Data bring their arrays and objects along, and so there is room for their height. -/
theorem height_add_parts_le (s : Store) :
    ∀ shape : Shape, shape.height + s.parts ≤ (s.load shape).1.parts
  | .leaf _ => by simp [Shape.height, load]
  | .array es => by
    have hle := heightAll_add_parts_le s es
    show _ ≤ ((s.loadAll es).1.newArray true (s.loadAll es).2).1.parts
    rw [parts_newArray, Shape.height]
    omega
  | .object ps => by
    have hle := heightNamed_add_parts_le s ps
    show _ ≤ ((s.loadNamed ps).1.newObject true (s.loadNamed ps).2 .null).1.parts
    rw [parts_newObject, Shape.height]
    omega

theorem heightAll_add_parts_le (s : Store) :
    ∀ es : List Shape, Shape.heightAll es + s.parts ≤ (s.loadAll es).1.parts
  | [] => by simp [Shape.heightAll, loadAll]
  | e :: es => by
    have hfirst := height_add_parts_le s e
    have hmore := heightAll_add_parts_le (s.load e).1 es
    show _ ≤ ((s.load e).1.loadAll es).1.parts
    rw [Shape.heightAll]
    omega

theorem heightNamed_add_parts_le (s : Store) :
    ∀ ps : List (String × Shape), Shape.heightNamed ps + s.parts ≤ (s.loadNamed ps).1.parts
  | [] => by simp [Shape.heightNamed, loadNamed]
  | (k, e) :: ps => by
    have hfirst := height_add_parts_le s e
    have hmore := heightNamed_add_parts_le (s.load e).1 ps
    show _ ≤ ((s.load e).1.loadNamed ps).1.parts
    rw [Shape.heightNamed]
    omega

end

/-- What is put into the store has the shape that it had. -/
theorem shape_load (h : shape.MadeOf leaf names) (s : Store) :
    (s.load shape).1.shape (s.load shape).2 = shape :=
  (represents_load h s).shape_eq (Nat.le_of_add_right_le (height_add_parts_le s shape))

end Store

end Parley
