import Parley.Proofs.World.Frame

/-!
# Actions that only write on the console

Titles, colours and the notes that the shell takes of its own work go to the console. Such actions
always succeed, and leave everything else in the world as it was.
-/

namespace Parley

/-- Between the two worlds something may have been written on the console or set down in the
transcript, and that is all. -/
structure World.Said (w w' : World) : Prop where
  silent : w'.silent = w.silent

namespace World.Said

theorem refl (w : World) : w.Said w :=
  ⟨rfl⟩

theorem trans {a b c : World} (h₁ : a.Said b) (h₂ : b.Said c) : a.Said c :=
  ⟨h₂.silent.trans h₁.silent⟩

variable {w w' : World}

theorem store (h : w.Said w') : w'.store = w.store :=
  store_eq_of_silent h.silent

theorem streams (h : w.Said w') : w'.streams = w.streams := by
  have hstreams : w'.silent.streams = w.silent.streams := by rw [h.silent]
  exact hstreams

theorem disk (h : w.Said w') : w'.disk = w.disk := by
  have hdisk : w'.silent.disk = w.silent.disk := by rw [h.silent]
  exact hdisk

theorem network (h : w.Said w') : w'.network = w.network := by
  have hnetwork : w'.silent.network = w.silent.network := by rw [h.silent]
  exact hnetwork

end World.Said

namespace Act

/-- The action succeeds and does nothing but output. -/
def Prints (x : Act Unit) : Prop :=
  ∀ w : World, ∃ w', w.perform x = (.ok (), w') ∧ w.Said w'

theorem prints_pure : Prints (pure ()) :=
  fun w => ⟨w, rfl, .refl w⟩

theorem Prints.bind {x y : Act Unit} (hx : Prints x) (hy : Prints y) :
    Prints (x >>= fun _ => y) := by
  intro w
  obtain ⟨w₁, hw₁, hsaid₁⟩ := hx w
  obtain ⟨w₂, hw₂, hsaid₂⟩ := hy w₁
  exact ⟨w₂, (perform_bind_ok hw₁ _).trans hw₂, hsaid₁.trans hsaid₂⟩

theorem prints_write (text : String) : Prints (write text) :=
  fun _ => ⟨_, rfl, ⟨rfl⟩⟩

theorem prints_command (c : Terminal.Command) : Prints (command c) :=
  fun _ => ⟨_, rfl, ⟨rfl⟩⟩

theorem prints_reset : Prints reset :=
  fun w => ((prints_write (Terminal.reset w.console.terminal)).bind (prints_command .reset)) w

theorem prints_title (text : String) : Prints (title text) :=
  fun w => prints_write (Terminal.setTitle w.console.terminal text) w

theorem prints_print (line : String) : Prints (print line) :=
  prints_write _

theorem prints_background {name : String}
    (h : ∀ terminal, ∃ code, Terminal.setBackground terminal name = .ok code) :
    Prints (background name) := by
  intro w
  obtain ⟨code, hcode⟩ := h w.console.terminal
  rw [background, perform_get_bind, hcode]
  exact ((prints_write code).bind (prints_command _)) w

theorem prints_trace (note : String) : Prints (trace note) := by
  intro w
  have hpurple : Prints (background "purple") :=
    prints_background fun terminal => by cases terminal <;> exact ⟨_, rfl⟩
  rw [trace, perform_get_bind]
  split
  · exact (hpurple.bind ((prints_write _).bind (prints_reset.bind (prints_print _)))) w
  · exact prints_pure w

theorem prints_traceAll (notes : List String) : Prints (traceAll notes) := by
  induction notes with
  | nil => exact prints_pure
  | cons note notes ih => exact (prints_trace note).bind ih

/-- The notes of a traced result are shown before anything comes of it. -/
theorem perform_ofTraced {α : Type} (t : Traced Fault α) (w : World) :
    ∃ w', w.perform (ofTraced t) = (t.result, w') ∧ w.Said w' := by
  obtain ⟨w₁, hw₁, hsaid⟩ := prints_traceAll t.notes w
  refine ⟨w₁, ?_, hsaid⟩
  rw [ofTraced, perform_bind_ok hw₁]
  cases t.result <;> rfl

theorem perform_ofTraced_of_ok {α : Type} {t : Traced Fault α} {a : α} (h : t.result = .ok a)
    (w : World) : ∃ w', w.perform (ofTraced t) = (.ok a, w') ∧ w.Said w' :=
  h ▸ perform_ofTraced t w

theorem prints_foreground {name : String}
    (h : ∀ terminal, ∃ code, Terminal.setForeground terminal name = .ok code) :
    Prints (foreground name) := by
  intro w
  obtain ⟨code, hcode⟩ := h w.console.terminal
  rw [foreground, perform_get_bind, hcode]
  exact ((prints_write code).bind (prints_command _)) w

theorem prints_red : Prints (foreground "red") :=
  prints_foreground fun terminal => by cases terminal <;> exact ⟨_, rfl⟩

theorem prints_yellow : Prints (foreground "yellow") :=
  prints_foreground fun terminal => by cases terminal <;> exact ⟨_, rfl⟩

/-- An error is a failure with its message. -/
theorem exists_perform_error (α : Type) (w : World) (k : Nat) (message : String) :
    ∃ u, w.perform (error k message : Act α) = (.error (.evaluation message), u) := by
  obtain ⟨w₁, hw₁, -⟩ := prints_red w
  rw [error, perform_bind_ok hw₁]
  exact ⟨_, rfl⟩

/-! ### Actions that may fail -/

section OnlyPrints

variable {α β : Type} {x : Act α} {f : α → Act β}

/-- The action comes to the same in every world, and does nothing but output. -/
def Fixed (x : Act α) : Prop :=
  ∃ r, ∀ w : World, ∃ w', w.perform x = (r, w') ∧ w.Said w'

theorem fixed_pure (a : α) : Fixed (pure a) :=
  ⟨.ok a, fun w => ⟨w, rfl, .refl w⟩⟩

theorem fixed_ofResult (r : Except Fault α) : Fixed (ofResult r) := by
  refine ⟨r, fun w => ⟨w, ?_, .refl w⟩⟩
  cases r <;> rfl

theorem Prints.fixed {x : Act Unit} (h : Prints x) : Fixed x :=
  ⟨.ok (), h⟩

theorem Fixed.bind (hx : Fixed x) (hf : ∀ a, Fixed (f a)) : Fixed (x >>= f) := by
  obtain ⟨r, hr⟩ := hx
  cases r with
  | error e =>
    refine ⟨.error e, fun w => ?_⟩
    obtain ⟨w₁, hw₁, hsaid⟩ := hr w
    exact ⟨w₁, by rw [perform_bind, hw₁], hsaid⟩
  | ok a =>
    obtain ⟨r, hr'⟩ := hf a
    refine ⟨r, fun w => ?_⟩
    obtain ⟨w₁, hw₁, hsaid₁⟩ := hr w
    obtain ⟨w₂, hw₂, hsaid₂⟩ := hr' w₁
    exact ⟨w₂, (perform_bind_ok hw₁ f).trans hw₂, hsaid₁.trans hsaid₂⟩

theorem fixed_ofTraced (t : Traced Fault α) : Fixed (ofTraced t) :=
  (prints_traceAll t.notes).fixed.bind fun _ => fixed_ofResult _

/-- The action does nothing but output, whatever it comes to. -/
def OnlyPrints (x : Act α) : Prop :=
  ∀ w : World, w.Said (w.perform x).2

theorem Fixed.onlyPrints (h : Fixed x) : OnlyPrints x := by
  obtain ⟨r, hr⟩ := h
  intro w
  obtain ⟨w₁, hw₁, hsaid⟩ := hr w
  rwa [hw₁]

theorem onlyPrints_throw (f : Fault) : OnlyPrints (throw f : Act α) :=
  fun w => .refl w

theorem onlyPrints_getStore (f : Store → α) : OnlyPrints (getStore f) :=
  fun w => .refl w

theorem OnlyPrints.bind (hx : OnlyPrints x) (hf : ∀ a, OnlyPrints (f a)) :
    OnlyPrints (x >>= f) := by
  intro w
  have hsaid := hx w
  rw [perform_bind]
  rcases hrun : w.perform x with ⟨e | a, w₁⟩
  · rwa [hrun] at hsaid
  · rw [hrun] at hsaid
    exact hsaid.trans (hf a w₁)

theorem onlyPrints_written (style : Style) (v : Value) : OnlyPrints (written style v) :=
  (onlyPrints_getStore _).bind fun _ => (fixed_ofTraced _).onlyPrints

end OnlyPrints

section AndThen

variable {α : Type} {w w₁ w₂ : World} {x : Act α} {r : Except Fault α} {last : Act Unit}

/-- What is done after an action does not change what has come of the action. -/
theorem perform_andThen_of_ok (hx : w.perform x = (r, w₁)) (hlast : w₁.perform last = (.ok (), w₂)) :
    w.perform (andThen x last) = (r, w₂) := by
  have htry : w.perform (tryCatch (do let a ← x; pure (Except.ok a)) fun f => pure (.error f)) =
      (.ok r, w₁) := by
    rw [perform_tryCatch, perform_bind, hx]
    cases r <;> rfl
  rw [andThen, perform_bind_ok htry, perform_bind_ok hlast]
  cases r <;> rfl

theorem perform_andThen (hx : w.perform x = (r, w₁)) (hlast : Prints last) :
    ∃ w₂, w.perform (andThen x last) = (r, w₂) ∧ w₁.Said w₂ := by
  obtain ⟨w₂, hw₂, hsaid⟩ := hlast w₁
  exact ⟨w₂, perform_andThen_of_ok hx hw₂, hsaid⟩

end AndThen

end Act

end Parley
