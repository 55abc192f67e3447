import Parley.Proofs.Session.Survival

/-!
# Arrays and objects keep their form

An array has as many elements, and an object the properties, as it was made with. Elements and
properties are cells, and what is written is written into the cells: no change of the store touches
the record of an array or object that is there (`Store.Step.retains`). So this holds of every run,
however arrays and objects are shared between variables, functions and other arrays and objects.
-/

namespace Parley

/-- What stays the same of an array or object whatever is written into it. -/
inductive Form where
  /-- An array with this number of elements. -/
  | elements (count : Nat)
  /-- An object with properties of these names, in this order. -/
  | properties (names : List String)
  deriving DecidableEq, Repr

namespace Store

/-- The form of an array or object that is in the store. -/
def form? (s : Store) : Value → Option Form
  | .array a => s.arrays[a]?.map fun r => .elements r.cells.length
  | .object o => s.objects[o]?.map fun r => .properties (r.cells.map Prod.fst)
  | _ => none

/-- The cells of an array or object. -/
def cellsOf (s : Store) : Value → List Nat
  | .array a => (s.arrayAt a).cells
  | .object o => (s.objectAt o).cells.map Prod.snd
  | _ => []

/-- The arrays and objects that are in the first store are in the second, each with the record that
it had. -/
structure Retains (s s' : Store) : Prop where
  arrays : ∀ {a : Nat} {r}, s.arrays[a]? = some r → s'.arrays[a]? = some r
  objects : ∀ {o : Nat} {r}, s.objects[o]? = some r → s'.objects[o]? = some r

namespace Retains

variable {s s' : Store} {v : Value} {f : Form}

theorem refl (s : Store) : s.Retains s :=
  ⟨id, id⟩

theorem trans {a b c : Store} (h₁ : a.Retains b) (h₂ : b.Retains c) : a.Retains c :=
  ⟨fun h => h₂.arrays (h₁.arrays h), fun h => h₂.objects (h₁.objects h)⟩

/-- An array or object that is there keeps its form. -/
theorem form (h : s.Retains s') (hf : s.form? v = some f) : s'.form? v = some f := by
  cases v with
  | array a =>
    obtain ⟨r, hr, rfl⟩ := Option.map_eq_some_iff.mp hf
    rw [form?, h.arrays hr]
    rfl
  | object o =>
    obtain ⟨r, hr, rfl⟩ := Option.map_eq_some_iff.mp hf
    rw [form?, h.objects hr]
    rfl
  | _ => cases hf

/-- An array or object that is there keeps its cells. -/
theorem cellsOf (h : s.Retains s') (hf : s.form? v = some f) : s'.cellsOf v = s.cellsOf v := by
  cases v with
  | array a =>
    obtain ⟨r, hr, -⟩ := Option.map_eq_some_iff.mp hf
    rw [cellsOf, cellsOf, arrayAt, arrayAt, hr, h.arrays hr]
  | object o =>
    obtain ⟨r, hr, -⟩ := Option.map_eq_some_iff.mp hf
    rw [cellsOf, cellsOf, objectAt, objectAt, hr, h.objects hr]
  | _ => cases hf

end Retains

/-! ### The changes of the store -/

/-- A new entry leaves those that are there in their places. -/
theorem getElem?_push_of_some {α : Type} {xs : Array α} {i : Nat} {x : α} (h : xs[i]? = some x)
    (y : α) : (xs.push y)[i]? = some x := by
  obtain ⟨hi, -⟩ := Array.getElem?_eq_some_iff.mp h
  rw [Array.getElem?_push_lt hi, ← h, Array.getElem?_eq_getElem hi]

/-- Writing a variable is a matter of cells and scopes. -/
theorem retains_define (s : Store) (k : Nat) (name : String) (v : Value) :
    s.Retains (s.define k name v).1 := by
  rcases define_cases s k name v with ⟨c, -, hdef⟩ | ⟨c, -, -, hdef⟩ | ⟨-, -, hdef⟩
  all_goals
    rw [hdef]
    exact ⟨id, id⟩

/-- **A change of the store** leaves the records of arrays and objects as they are. -/
theorem Step.retains {s s' : Store} (hstep : Step s s') : s.Retains s' := by
  cases hstep with
  | add hadd =>
    cases hadd with
    | array r => exact ⟨fun h => getElem?_push_of_some h r, id⟩
    | object r => exact ⟨id, fun h => getElem?_push_of_some h r⟩
    | _ => exact ⟨id, id⟩
  | define k name v => exact retains_define s k name v
  | write | child | capture | tables | forget => exact ⟨id, id⟩

/-- **No run of changes** touches the record of an array or object. -/
theorem Reaches.retains {s s' : Store} (hreach : s.Reaches s') : s.Retains s' := by
  induction hreach with
  | refl => exact Retains.refl s
  | tail _ hstep ih => exact ih.trans hstep.retains

end Store

/-! ### Tasks and rounds -/

namespace Act

open Store (Reaches Retains)

variable {depth k n : Nat} {w w' : World} {pending pending' : List Token}

/-- A round of the loop keeps to the steps of the store. -/
theorem readRound_reached (depth : Nat) (pending : List Token) (s₀ : Store) :
    Keeps (Holding (Reached s₀ k)) (readRound (interpret depth) k pending) :=
  @readRound_keeps (stepFrame s₀) () _ k (runs_reached s₀ depth) pending

theorem Rounds.retains (h : Rounds (interpret depth) k w pending n w' pending')
    (hwf : w.store.WellFormed) (hk : k < w.store.scopes.size) : w.store.Retains w'.store :=
  (h.holds (readRound_reached depth · _) ⟨.refl, hwf, hk⟩).reaches.retains

end Act

/-- At the start the store is well formed, and the scope of the session is there. -/
theorem Surroundings.reached_start (x : Surroundings) (stream : Nat) :
    let w := (World.start x).readFrom stream
    Act.Reached w.store w.session w.store := by
  have hwf := x.wellFormed_store
  have hscope : x.store.2.1 < x.store.1.scopes.size := by
    rw [store]
    simp [Store.newChild]
  dsimp only [World.start, World.readFrom]
  refine ⟨.refl, ?_, ?_⟩
  · exact hwf.addition (.flags _ _ _ fun _ => ⟨rfl, rfl, rfl⟩)
  · simpa using hscope

open Act

/-- **Arrays and objects keep their form.** In every session, whatever its surroundings are and
whatever statements it reads, take an array or object that is there at some time, and its number of
elements, or the names of its properties in their order. It has this form, and the same cells for
its parts, ever after: after more rounds of the loop, after a round that fails, and after every task
in any scope, whether it succeeds or fails. Everything that happens on the way is a change of the
store of one of a few kinds (`Store.Step`), and the form stays in each single one of them. -/
theorem session_keeps_forms (x : Surroundings) (stream depth : Nat) {n : Nat} {w : World}
    {pending : List Token} :
    let w₀ := (World.start x).readFrom stream
    let k := w₀.session
    Rounds (interpret depth) k w₀ [] n w pending → ∀ {v f}, w.store.form? v = some f →
      let same (s : Store) := s.form? v = some f ∧ s.cellsOf v = w.store.cellsOf v
      (∀ {m w' pending'}, Rounds (interpret depth) k w pending m w' pending' → same w'.store) ∧
      same (w.perform (readRound (interpret depth) k pending)).2.store ∧
      (∀ depth' (task : Task), task.scope < w.store.scopes.size →
        same (w.perform (interpret depth' task)).2.store) ∧
      w₀.store.Reaches w.store ∧ ∀ {s}, w.store.Reaches s → same s := by
  intro w₀ k hrounds v f hf same
  have hw : Reached w₀.store k w.store :=
    hrounds.holds (readRound_reached depth · _) (x.reached_start stream)
  have hsame {s : Store} (h : w.store.Retains s) : same s := ⟨h.form hf, h.cellsOf hf⟩
  have hself : Reached w.store k w.store := ⟨.refl, hw.wellFormed, hw.scope⟩
  refine ⟨fun hmore => hsame (hmore.retains hw.wellFormed hw.scope), ?_, ?_, hw.reaches, ?_⟩
  · exact hsame ((readRound_reached depth pending _).holds hself).reaches.retains
  · exact fun depth' task hscope => hsame (interpret_within depth' task _ hw.wellFormed hscope).retains
  · exact fun hreach => hsame hreach.retains

/-- A session with two arguments, the first of which is replaced. -/
def replacing : Surroundings :=
  { typedIn [some "set(var: args[0], value: 5)\n"] with args := ["a", "b"] }

/-- The array of the arguments has two elements before its first one is replaced, and after that. -/
theorem session_keeps_forms_replacing :
    let w₀ := (World.start replacing).readFrom 0
    let k := w₀.session
    let w := (w₀.perform (readRound (interpret 3) k [])).2
    Rounds (interpret 3) k w₀ [] 0 w₀ [] ∧ w₀.store.form? (.array 0) = some (.elements 2) ∧
      ((w.store.shape (.array 0)).write .shown).result.toOption = some "[ 5, \"b\" ]" ∧
      w.store.form? (.array 0) = some (.elements 2) ∧
      w.store.cellsOf (.array 0) = w₀.store.cellsOf (.array 0) := by
  have hform : ((World.start replacing).readFrom 0).store.form? (.array 0) =
      some (.elements 2) := by decide +kernel
  obtain ⟨-, ⟨hafter, hcells⟩, -⟩ := session_keeps_forms replacing 0 3 .start hform
  exact ⟨.start, hform, by decide +kernel, hafter, hcells⟩

end Parley
