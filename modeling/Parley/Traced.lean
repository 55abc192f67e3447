/-!
# Traced results

A computation that can fail, together with the notes it takes on its way. The notes are what the
shell prints when it is asked to show its own work; they have no say in the result, which is what
`result_bind` states.
-/

namespace Parley

/-- A result or a failure, and the notes taken until then. -/
structure Traced (ε α : Type) where
  result : Except ε α
  notes : List String

namespace Traced

variable {ε α β : Type}

/-- A result without notes. -/
protected def pure (a : α) : Traced ε α :=
  ⟨.ok a, []⟩

/-- A failure without notes. -/
def fail (e : ε) : Traced ε α :=
  ⟨.error e, []⟩

/-- One thing after another: a failure ends it, the notes stay. -/
protected def bind (x : Traced ε α) (f : α → Traced ε β) : Traced ε β :=
  match x.result with
  | .ok a => ⟨(f a).result, x.notes ++ (f a).notes⟩
  | .error e => ⟨.error e, x.notes⟩

instance : Monad (Traced ε) where
  pure := Traced.pure
  bind := Traced.bind

/-- Takes a note. -/
def note (line : String) : Traced ε Unit :=
  ⟨.ok (), [line]⟩

/-- Goes on after success and after failure alike; the notes stay. -/
def handle (x : Traced ε α) (onOk : α → Traced ε β) (onError : ε → Traced ε β) : Traced ε β :=
  match x.result with
  | .ok a => ⟨(onOk a).result, x.notes ++ (onOk a).notes⟩
  | .error e => ⟨(onError e).result, x.notes ++ (onError e).notes⟩

/-- A result or failure without notes. -/
def ofExcept (r : Except ε α) : Traced ε α :=
  ⟨r, []⟩

/-- The notes have no say in the result. -/
@[simp] theorem result_bind (x : Traced ε α) (f : α → Traced ε β) :
    (x >>= f).result = x.result.bind fun a => (f a).result := by
  show (Traced.bind x f).result = _
  unfold Traced.bind
  cases x.result <;> rfl

theorem result_bind_of_ok {x : Traced ε α} {a : α} (h : x.result = .ok a) (f : α → Traced ε β) :
    (x >>= f).result = (f a).result := by
  rw [result_bind, h]
  rfl

/-- Two things succeed one after the other if the second succeeds on what the first gives. -/
theorem result_bind_eq_ok_iff {x : Traced ε α} {f : α → Traced ε β} {b : β} :
    (x >>= f).result = .ok b ↔ ∃ a, x.result = .ok a ∧ (f a).result = .ok b := by
  rw [result_bind]
  cases x.result with
  | ok a =>
    constructor
    · intro h
      exact ⟨a, rfl, h⟩
    · rintro ⟨a', ha, h⟩
      obtain rfl := Except.ok.inj ha
      exact h
  | error e =>
    constructor
    · rintro ⟨⟩
    · rintro ⟨a, ha, -⟩
      cases ha

/-- Which way `handle` goes depends on the result alone. -/
theorem result_handle (x : Traced ε α) (onOk : α → Traced ε β) (onError : ε → Traced ε β) :
    (x.handle onOk onError).result =
      match x.result with
      | .ok a => (onOk a).result
      | .error e => (onError e).result := by
  unfold handle
  cases x.result <;> rfl

theorem handle_of_ok {x : Traced ε α} {a : α} (h : x.result = .ok a) (onOk : α → Traced ε β)
    (onError : ε → Traced ε β) :
    x.handle onOk onError = ⟨(onOk a).result, x.notes ++ (onOk a).notes⟩ := by
  rw [handle, h]

theorem handle_of_error {x : Traced ε α} {e : ε} (h : x.result = .error e)
    (onOk : α → Traced ε β) (onError : ε → Traced ε β) :
    x.handle onOk onError = ⟨(onError e).result, x.notes ++ (onError e).notes⟩ := by
  rw [handle, h]

/-- One thing after another is to go on after success and to fail after failure. -/
theorem bind_eq_handle (x : Traced ε α) (f : α → Traced ε β) : x >>= f = x.handle f fail := by
  show Traced.bind x f = _
  unfold Traced.bind handle
  cases x.result with
  | ok a => rfl
  | error e => simp [fail]

@[simp] theorem result_pure (a : α) : (pure a : Traced ε α).result = .ok a := rfl

@[simp] theorem result_fail (e : ε) : (fail e : Traced ε α).result = .error e := rfl

@[simp] theorem result_note (line : String) : (note line : Traced ε Unit).result = .ok () := rfl

@[simp] theorem result_ofExcept (r : Except ε α) : (ofExcept r).result = r := rfl

end Traced

end Parley
