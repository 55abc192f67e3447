import Parley.Session

/-!
# Carrying out actions

What an action comes to, operation by operation: `World.perform` of a sequence, of an action that
catches faults, and of the operations on the store. A fault leaves the world as it was when it
happened, so every equation says what the world is in both cases.

Most actions put something new into the store at most. The changes of this kind are described here,
and the relations between stores that allow any number of them; what whole actions do is the subject
of `Parley.Proofs.World.Frame`.
-/

namespace Parley

theorem exists_of_bind_eq_ok {α β : Type} {x : Except Fault α} {f : α → Except Fault β} {b : β}
    (h : x >>= f = .ok b) : ∃ a, x = .ok a ∧ f a = .ok b := by
  cases x with
  | error e => cases h
  | ok a => exact ⟨a, rfl, h⟩

namespace Act

variable {α β : Type} (w : World) {w' : World} {x : Act α} {name : String}

@[simp] theorem perform_pure (a : α) : w.perform (pure a : Act α) = (.ok a, w) := rfl

/-- A sequence ends with the first fault. -/
theorem perform_bind (x : Act α) (f : α → Act β) : w.perform (x >>= f) = match w.perform x with
      | (.ok a, w') => w'.perform (f a)
      | (.error e, w') => (.error e, w') := by
  show ((ExceptT.bindCont f (w.perform x).1 : StateM World (Except Fault β)) (w.perform x).2) = _
  rcases w.perform x with ⟨_ | _, w'⟩
  · rfl
  · rfl

theorem perform_bind_ok {w : World} {a : α} (h : w.perform x = (.ok a, w'))
    (f : α → Act β) : w.perform (x >>= f) = w'.perform (f a) := by
  rw [perform_bind, h]

/-- A sequence succeeds if its two parts do, one after the other. -/
theorem perform_bind_eq_ok_iff {w : World} {f : α → Act β} {b : β} :
    w.perform (x >>= f) = (.ok b, w') ↔
      ∃ a w₁, w.perform x = (.ok a, w₁) ∧ w₁.perform (f a) = (.ok b, w') := by
  rw [perform_bind]
  constructor
  · intro h
    rcases hx : w.perform x with ⟨e | a, w₁⟩
    · rw [hx] at h
      cases h
    · rw [hx] at h
      exact ⟨a, w₁, rfl, h⟩
  · rintro ⟨a, w₁, hx, h⟩
    rwa [hx]

/-- What catches a fault goes on in the world that the fault has left. -/
theorem perform_tryCatch (x : Act α) (handler : Fault → Act α) : w.perform (tryCatch x handler) =
      match w.perform x with
      | (.ok a, w') => (.ok a, w')
      | (.error e, w') => w'.perform (handler e) := by
  unfold World.perform StateT.run ExceptT.run
  simp only [tryCatch, tryCatchThe, MonadExceptOf.tryCatch, ExceptT.tryCatch, ExceptT.mk, Bind.bind,
    StateT.bind]
  rcases x w with ⟨_ | _, w'⟩
  · rfl
  · rfl

/-- An action that catches every fault and goes on does not fail. -/
theorem exists_perform_tryCatch (x : Act α) (handler : Fault → α) :
    ∃ a, (w.perform (tryCatch x fun f => pure (handler f))).1 = .ok a := by
  rw [perform_tryCatch]
  rcases w.perform x with ⟨_ | a, w'⟩
  · exact ⟨_, rfl⟩
  · exact ⟨a, rfl⟩

@[simp] theorem perform_get : w.perform (get : Act World) = (.ok w, w) := rfl

@[simp] theorem perform_modifyGet (f : World → α × World) :
    w.perform (modifyGet f : Act α) = (.ok (f w).1, (f w).2) := rfl

@[simp] theorem perform_getStore (f : Store → α) :
    w.perform (getStore f) = (.ok (f w.store), w) := rfl

@[simp] theorem perform_modifyStore (f : Store → Store) :
    w.perform (modifyStore f) = (.ok (), { w with store := f w.store }) := rfl

@[simp] theorem perform_withStore (f : Store → Store × α) :
    w.perform (withStore f) = (.ok (f w.store).2, { w with store := (f w.store).1 }) := rfl

@[simp] theorem perform_deref (a : Answer) : w.perform (deref a) = (.ok (w.store.deref a), w) := rfl

@[simp] theorem perform_scopeAt (k : Nat) :
    w.perform (scopeAt k) = (.ok (w.store.scopeAt k), w) := rfl

/-! Such operations at the beginning of a sequence. -/

theorem perform_get_bind (f : World → Act β) : w.perform (get >>= f) = w.perform (f w) := rfl

theorem perform_getStore_bind (g : Store → α) (f : α → Act β) :
    w.perform (getStore g >>= f) = w.perform (f (g w.store)) := rfl

theorem perform_withStore_bind (g : Store → Store × α) (f : α → Act β) :
    w.perform (withStore g >>= f) =
      { w with store := (g w.store).1 }.perform (f (g w.store).2) := rfl

theorem perform_deref_bind (a : Answer) (f : Value → Act β) :
    w.perform (deref a >>= f) = w.perform (f (w.store.deref a)) := rfl

/-- A name that stands for a cell is looked up in silence. -/
theorem perform_find {w : World} {k c : Nat} (h : w.store.find? k name = some c) :
    w.perform (lookup k name) = (.ok c, w) := by
  rw [lookup, perform_getStore_bind, h]
  rfl

theorem perform_lookupValue {w : World} {k c : Nat} (h : w.store.find? k name = some c) :
    w.perform (lookupValue k name) = (.ok (w.store.cellValue c), w) :=
  perform_bind_ok (perform_find h) _

end Act

/-- What has no parts in the store is its own shape. -/
theorem Store.shape_of_leaf (s : Store) {v : Value} (harray : ∀ a, v ≠ .array a)
    (hobject : ∀ o, v ≠ .object o) : s.shape v = .leaf v := by
  cases v with
  | array a => exact absurd rfl (harray a)
  | object o => exact absurd rfl (hobject o)
  | _ => cases s.arrays.size + s.objects.size <;> rfl

theorem Store.shape_constant (s : Store) (c : Constant) :
    s.shape (.constant c) = .leaf (.constant c) := by
  apply s.shape_of_leaf <;> intro _ h <;> cases h

/-- Names and services are looked up in both scopes in the same way. -/
@[grind] structure Scope.Alike (a b : Scope) : Prop where
  base : a.base = b.base
  names : a.names = b.names
  table : a.table = b.table

/-- A change that leaves everything in the store as it was: something new is put in, or something is
noted that has no say in what variables, arrays and objects hold. -/
inductive Store.Addition : Store → Store → Prop
  | cell (s : Store) (v : Value) : Addition s { s with cells := s.cells.push v }
  | array (s : Store) (r : ArrayRecord) : Addition s { s with arrays := s.arrays.push r }
  | object (s : Store) (r : ObjectRecord) : Addition s { s with objects := s.objects.push r }
  | services (s : Store) (services : Array ServiceRecord) : Addition s { s with services }
  | fresh (s : Store) (fresh : Nat) : Addition s { s with fresh }
  | flags (s : Store) (k : Nat) (f : Scope → Scope) (h : ∀ sc, (f sc).Alike sc) :
      Addition s (s.modifyScope k f)

/-- An addition that leaves the flags of scopes alone: something new is put in, or an error is noted
in a scope. -/
inductive Store.Deposit : Store → Store → Prop
  | cell (s : Store) (v : Value) : Deposit s { s with cells := s.cells.push v }
  | array (s : Store) (r : ArrayRecord) : Deposit s { s with arrays := s.arrays.push r }
  | object (s : Store) (r : ObjectRecord) : Deposit s { s with objects := s.objects.push r }
  | services (s : Store) (services : Array ServiceRecord) : Deposit s { s with services }
  | fresh (s : Store) (fresh : Nat) : Deposit s { s with fresh }
  | note (s : Store) (k : Nat) (message : String) :
      Deposit s (s.modifyScope k fun sc => { sc with lastError := some message })

theorem Store.Deposit.addition {s s' : Store} (h : Deposit s s') : Addition s s' := by
  cases h with
  | cell v => exact .cell s v
  | array r => exact .array s r
  | object r => exact .object s r
  | services r => exact .services s r
  | fresh n => exact .fresh s n
  | note k message => exact .flags s k _ fun _ => ⟨rfl, rfl, rfl⟩

/-- A relation between stores that allows deposits, any number of them. -/
class Store.Tolerant (R : Store → Store → Prop) : Prop where
  refl : ∀ s, R s s
  trans : ∀ {a b c}, R a b → R b c → R a c
  add : ∀ {s s'}, Store.Deposit s s' → R s s'

namespace Store.Tolerant

variable {R : Store → Store → Prop} [Tolerant R]

theorem newCells (s : Store) (values : List Value) : R s (s.newCells values).1 := by
  induction values generalizing s with
  | nil => exact refl s
  | cons v values ih => exact trans (add (.cell s v)) (ih _)

theorem newArray (s : Store) (evaluated : Bool) (values : List Value) :
    R s (s.newArray evaluated values).1 :=
  trans (newCells s values) (add (.array _ _))

theorem newObject (s : Store) (evaluated : Bool) (properties : List (String × Value))
    (description : Data) : R s (s.newObject evaluated properties description).1 :=
  trans (newCells s _) (add (.object _ _))

mutual

theorem load (s : Store) : ∀ shape : Shape, R s (s.load shape).1
  | .leaf _ => refl s
  | .array es => trans (loadAll s es) (newArray _ _ _)
  | .object ps => trans (loadNamed s ps) (newObject _ _ _ _)

theorem loadAll (s : Store) : ∀ shapes : List Shape, R s (s.loadAll shapes).1
  | [] => refl s
  | e :: rest => trans (load s e) (loadAll _ rest)

theorem loadNamed (s : Store) : ∀ shapes : List (String × Shape), R s (s.loadNamed shapes).1
  | [] => refl s
  | (_, e) :: rest => trans (load s e) (loadNamed _ rest)

end

end Store.Tolerant

end Parley
