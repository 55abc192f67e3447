import Parley.Proofs.Session.Going
import Parley.Proofs.Store.Rebuilding

/-!
# The session of a shell that has just been started

At the start all variables are in the base scope, each with a cell of its own, and the scope of the
session inside it has none. The names of the constants mean the constants. All that the loop of the
session relies on is there.
-/

namespace Parley

open List
open Act (Going)
open Store (Tidy Tolerant)

theorem Store.Tidy.newObject {s : Store} {k : Nat} (h : s.Tidy k) (evaluated : Bool)
    (properties : List (String × Value)) (description : Data) :
    (s.newObject evaluated properties description).1.Tidy k := by
  have hreach : s.Reaches (s.newObject evaluated properties description).1 :=
    Tolerant.newObject s evaluated properties description
  exact h.undisturbed (Tolerant.newObject s evaluated properties description)
    (hreach.wellFormed h.wellFormed)

namespace Surroundings

variable {s : Store} {k : Nat} {name : String} {names : List String}

/-! ### Definitions of many variables -/

section

variable (h : s.Tidy k)

include h

theorem tidy_defineAll (vars : List (String × Value)) : (defineAll k s vars).Tidy k := by
  induction vars generalizing s with
  | nil => exact h
  | cons p vars ih => exact ih (h.define p.1 p.2)

variable {vars : List (String × Value)} {modules : List (String × List (String × Value) × String)}

theorem valueOf?_defineAll_of_not_mem (hname : name ∉ vars.map Prod.fst) :
    (defineAll k s vars).valueOf? k name = s.valueOf? k name := by
  induction vars generalizing s with
  | nil => rfl
  | cons p vars ih =>
    obtain ⟨hne, hname⟩ := not_or.mp fun h' => hname (mem_cons.mpr h')
    exact (ih (h.define p.1 p.2) hname).trans (h.valueOf?_define_of_ne hne p.2)

/-- Variables that are defined have the values that they are defined with. -/
theorem valueOf?_defineAll_of_mem
    (hnodup : (vars.map Prod.fst).Nodup) {p : String × Value} (hp : p ∈ vars) :
    (defineAll k s vars).valueOf? k p.1 = some p.2 := by
  induction vars generalizing s with
  | nil => cases hp
  | cons q vars ih =>
    rw [map_cons, nodup_cons] at hnodup
    rcases mem_cons.mp hp with rfl | hp
    · exact (valueOf?_defineAll_of_not_mem (h.define p.1 p.2) hnodup.1).trans
        (Store.valueOf?_define_self h.wellFormed h.scope p.1 p.2)
    · exact ih (h.define q.1 q.2) hnodup.2 hp

theorem tidy_defineModules (n : Nat) : (defineModules k (s, n) modules).1.Tidy k := by
  induction modules generalizing s n with
  | nil => exact h
  | cons m modules ih => exact ih ((h.newObject _ _ _).define m.1 _) _

theorem valueOf?_defineModules (n : Nat) (hname : name ∉ modules.map Prod.fst) :
    (defineModules k (s, n) modules).1.valueOf? k name = s.valueOf? k name := by
  induction modules generalizing s n with
  | nil => rfl
  | cons m modules ih =>
    obtain ⟨hne, hname⟩ := not_or.mp fun h' => hname (mem_cons.mpr h')
    have hobject := h.newObject false m.2.1 (.str m.2.2)
    have hkept : s.Undisturbed (s.newObject false m.2.1 (.str m.2.2)).1 :=
      Tolerant.newObject s false m.2.1 (.str m.2.2)
    exact (ih (hobject.define m.1 _) _ hname).trans
      ((hobject.valueOf?_define_of_ne hne _).trans (hkept.valueOf?_eq h.wellFormed k name))

end

/-! ### The base scope -/

theorem tidy_newRoot_empty : Store.empty.newRoot.1.Tidy 0 where
  wellFormed := Store.wellFormed_newRoot_empty
  scope := Nat.zero_lt_one
  separate hm := by cases hm

/-- The arguments and the process environment come first, then the constants and the functions. -/
theorem exists_base_eq (x : Surroundings) :
    ∃ s : Store, s.Tidy 0 ∧
      x.base = defineModules 0 (defineAll 0 s (constants ++ standing), 0) modules := by
  have hargs := tidy_newRoot_empty.load (.array (x.args.map fun a => .leaf (.text a)))
  have henv := hargs.load (.object (x.environment.map fun p => (p.1, .leaf (.text p.2))))
  rw [base]
  exact ⟨_, tidy_defineAll henv _, rfl⟩

theorem tidy_base (x : Surroundings) : x.base.1.Tidy 0 := by
  obtain ⟨s, hs, hbase⟩ := x.exists_base_eq
  rw [hbase]
  exact tidy_defineModules (tidy_defineAll hs _) 0

/-- The names of the constants mean the constants. -/
theorem valueOf?_base (x : Surroundings) {p : String × Value} (hp : p ∈ constants) :
    x.base.1.valueOf? 0 p.1 = some p.2 := by
  obtain ⟨s, hs, hbase⟩ := x.exists_base_eq
  have hnodup : ((constants ++ standing).map Prod.fst).Nodup := by decide
  have hmodules : ∀ name ∈ constants.map Prod.fst, name ∉ modules.map Prod.fst := by decide
  rw [hbase, valueOf?_defineModules (tidy_defineAll hs _) 0 (hmodules _ (mem_map_of_mem hp)),
    valueOf?_defineAll_of_mem hs hnodup (mem_append_left _ hp)]

/-! ### What the loop relies on -/

theorem rooted_newRoot_empty : Store.empty.newRoot.1.Rooted [] where
  wellFormed := Store.wellFormed_newRoot_empty
  root := Nat.zero_lt_one
  inside hpos hlt := absurd hlt (Nat.not_lt.mpr hpos)
  names _ hname := absurd hname not_mem_nil
  lenient k := by cases k <;> rfl

theorem rooted_defineAll (h : s.Rooted names)
    (vars : List (String × Value)) : (defineAll k s vars).Rooted names := by
  induction vars generalizing s with
  | nil => exact h
  | cons p vars ih => exact ih (h.define k p.1 p.2)

theorem rooted_defineModules {modules : List (String × List (String × Value) × String)}
    (h : s.Rooted names) (n : Nat) :
    (defineModules k (s, n) modules).1.Rooted names := by
  induction modules generalizing s n with
  | nil => exact h
  | cons m modules ih => exact ih ((h.newObject false m.2.1 (.str m.2.2)).define k m.1 _) _

/-- The base scope has the names that the loop looks up. -/
theorem rooted_base (x : Surroundings) : x.base.1.Rooted Store.loopNames := by
  have hload := (rooted_newRoot_empty.load (.array (x.args.map fun a => .leaf (.text a)))).load
    (.object (x.environment.map fun p => (p.1, .leaf (.text p.2))))
  have hbase : x.base.1.Rooted [] :=
    rooted_defineModules (rooted_defineAll (rooted_defineAll hload _) _) 0
  refine hbase.of_find? fun name hname => ?_
  have hconstants : ∀ name ∈ Store.loopNames, ∃ v, (name, v) ∈ constants := by
    simp [Store.loopNames, constants]
  obtain ⟨v, hv⟩ := hconstants name hname
  obtain ⟨c, hc, -⟩ := Option.map_eq_some_iff.mp (x.valueOf?_base hv)
  exact ⟨c, hc⟩

end Surroundings

/-! ### The scope of the session -/

namespace Store

variable {s : Store} {base : Nat}

/-- A scope that has just been made sees what its base sees. -/
theorem find?_newChild (h : s.WellFormed) (hbase : base < s.scopes.size) (name : String) :
    (s.newChild base).1.find? s.scopes.size name = s.find? base name := by
  have hold (j : Nat) (hj : j ≤ base) : (s.newChild base).1.scopeAt j = s.scopeAt j :=
    scopeAt_newChild_of_lt (by omega) base
  rw [find?_eq (h.newChild hbase), scopeAt_newChild_self]
  exact find?_congr h (fun j hj => by rw [hold j hj]) (fun j hj => by rw [hold j hj]) name

/-- Nothing has been declared in a scope that has just been made. -/
theorem Tidy.rebuilt_newChild (h : s.Tidy base)
    (hsteady : ∀ p ∈ steady, s.valueOf? base p.1 = some p.2) :
    (s.newChild base).1.Rebuilt s.scopes.size [] where
  tidy :=
    { wellFormed := h.wellFormed.newChild h.scope
      scope := by simp [newChild]
      separate := by
        intro m n c hm hn
        rw [find?_newChild h.wellFormed h.scope] at hm hn
        exact h.separate hm hn }
  steady p hp := by
    rw [← hsteady p hp, valueOf?, find?_newChild h.wellFormed h.scope]
    rfl
  names := by
    rw [ownNames, scopeAt_newChild_self]
    rfl
  data p hp := absurd hp not_mem_nil
  room p hp := absurd hp not_mem_nil

end Store

variable (x : Surroundings)

include x

/-- **Nothing has been declared** in the session of a shell that has just been started. -/
theorem Surroundings.rebuilt_store : x.store.1.Rebuilt x.store.2.1 [] := by
  have hsteady : Store.steady ⊆ constants := by simp [Store.steady, constants]
  have hchild := x.tidy_base.rebuilt_newChild fun p hp => x.valueOf?_base (hsteady hp)
  rw [store]
  generalize x.base = base at hchild
  exact hchild.modifyScope _ fun _ => ⟨rfl, rfl, rfl⟩

theorem Surroundings.looping_store : (x.store.1.scopeAt x.store.2.1).looping = true := by
  rw [store]
  generalize x.base = base
  show (Store.scopeAt (Store.modifyScope (base.1.newChild 0).1 _ _) base.1.scopes.size).looping = _
  rw [Store.scopeAt_modifyScope, Store.scopeAt_newChild_self]
  split <;> rfl

/-- The loop of the session is ready to go, if the shell is not debugged. -/
theorem Surroundings.going_store (hx : x.debugging = false) : Going none x.store.2.1 x.store.1 := by
  have hbase := x.rooted_base
  rw [store, hx]
  generalize x.base = base at hbase
  refine ⟨?_, hbase.root, ?_, fun l hl => nomatch hl⟩
  · have hchild := hbase.newChild hbase.root
    exact hchild.modifyScope _ (fun _ => rfl) (fun _ _ => rfl) fun _ => .inl rfl
  · simp [Store.newChild]

/-- **The loop of the session is ready to go**, whatever stream it reads. -/
theorem Surroundings.going_start (hx : x.debugging = false) (stream : Nat) :
    let w := (World.start x).readFrom stream
    Going none w.session w.store ∧ (w.store.scopeAt w.session).looping = true := by
  have hgoing := x.going_store hx
  have hlooping := x.looping_store
  dsimp only [World.start, World.readFrom]
  generalize x.store = start at hgoing hlooping
  refine ⟨⟨?_, hgoing.pos, ?_, fun l hl => nomatch hl⟩, ?_⟩
  · exact hgoing.rooted.modifyScope _ (fun _ => rfl) (fun _ h => h) fun _ => .inl rfl
  · simpa using hgoing.scope
  · rwa [Store.scopeAt_modifyScope, if_pos ⟨rfl, hgoing.scope⟩]

end Parley
