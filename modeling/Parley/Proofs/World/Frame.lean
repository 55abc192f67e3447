import Parley.Proofs.World.Perform

/-!
# What actions keep

An action *keeps* a relation between worlds if it comes to the same in any two worlds that are so
related, and leaves worlds that are so related, whether it succeeds or fails (`Act.Keeps`). The
relations in question are *tame* (`Act.Tame`): worlds that are related differ in what has been
written at most, and stay related if the same is done to both of them, as long as it is something
that a quiet action does. A quiet action that chooses a colour of the terminal resets it; a relation
that is kept without that, too, is a *frame* (`Act.Frame`).

Two kinds of statements come out of this. With a frame between worlds that differ in their output it
is said that what has been written has no say in what happens. With a frame that relates a world to
itself alone, on the condition that its store has some property, or has come from another store in
some way, it is said what happens to the store (`Act.Holding`, `Act.Makes`).

Actions that neither look at the store nor change it keep more than that: for them the stores of
worlds that are related can differ (`Act.Outer`). What is written is kept in either case
(`Act.Subdued`).

Actions that keep a relation can be put together freely, which is what the lemmas of this module say;
they are marked for `grind`, so that for most actions their text is all the proof there is.
-/

namespace Parley

/-- What is there of a network from the first to the last: the token of the session, and whether there
is a broker. -/
def Network.site (n : Network) : String × Bool :=
  (n.token, n.broker.isNone)

theorem Network.site_nextReply (n : Network) : n.nextReply.1.site = n.site := by
  unfold nextReply
  split <;> rfl

namespace World

/-- A world without what has been written in it. -/
def silent (w : World) : World :=
  { w with
    console := { w.console with written := "", commands := [] }
    transcript := { opening := none, entries := [] } }

@[simp, grind =] theorem silent_terminal (w : World) :
    w.silent.console.terminal = w.console.terminal := rfl

@[simp, grind =] theorem silent_width (w : World) : w.silent.console.width = w.console.width := rfl

@[simp, grind =] theorem silent_tracing (w : World) :
    w.silent.console.tracing = w.console.tracing := rfl

@[simp, grind =] theorem silent_disk (w : World) : w.silent.disk = w.disk := rfl

@[simp, grind =] theorem silent_settings (w : World) : w.silent.settings = w.settings := rfl

@[simp, grind =] theorem silent_now (w : World) : w.silent.now = w.now := rfl

@[simp, grind =] theorem silent_store (w : World) : w.silent.store = w.store := rfl

/-- A world without its store, and without what has been written in it. -/
def bare (w : World) : World :=
  { w.silent with store := .empty }

@[simp, grind =] theorem bare_terminal (w : World) :
    w.bare.console.terminal = w.console.terminal := rfl

@[simp, grind =] theorem bare_network (w : World) : w.bare.network = w.network := rfl

@[simp, grind =] theorem bare_disk (w : World) : w.bare.disk = w.disk := rfl

@[simp, grind =] theorem bare_now (w : World) : w.bare.now = w.now := rfl

/-- The world after a text has been written. -/
def saying (w : World) (text : String) : World :=
  { w with console := { w.console with written := w.console.written ++ text } }

/-- The world after a command about colours has been given. -/
def given (w : World) (c : Terminal.Command) : World :=
  { w with console := { w.console with commands := c :: w.console.commands } }

/-- The two worlds have the same store, and the same has been written in them. -/
structure SameVoice (w w' : World) : Prop where
  store : w'.store = w.store
  console : w'.console = w.console
  transcript : w'.transcript = w.transcript

theorem store_eq_of_silent {w w' : World} (h : w.silent = w'.silent) : w.store = w'.store := by
  have hstore : w.silent.store = w'.silent.store := by rw [h]
  exact hstore

/-- Nothing is missing in a silent world but what has been written. -/
theorem eq_of_silent {w w' : World} (h : w.silent = w'.silent) (hconsole : w.console = w'.console)
    (htranscript : w.transcript = w'.transcript) : w = w' := by
  cases w
  simp_all [silent]

end World

namespace Act

open Store (Tolerant Deposit)

variable {α β : Type} {E : World → World → Prop} {x : Act α} {f : α → Act β} {c : Prop}

/-- In any two worlds that `E` relates the action comes to the same, and it leaves worlds that `E`
relates. -/
def Keeps (E : World → World → Prop) (x : Act α) : Prop :=
  ∀ ⦃w w' : World⦄, E w w' → (w.perform x).1 = (w'.perform x).1 ∧ E (w.perform x).2 (w'.perform x).2

/-- Worlds with the store `s` that are related by `E` stay so if they get the store `s'`. -/
def Allows (E : World → World → Prop) (s s' : Store) : Prop :=
  ∀ ⦃w w' : World⦄, w.store = s → E w w' → E { w with store := s' } { w' with store := s' }

/-- A relation that quiet actions keep: if they choose a colour they go back to the usual ones. -/
class Tame (E : World → World → Prop) : Prop where
  silent : ∀ {w w'}, E w w' → w.silent = w'.silent
  allows : ∀ {s s'}, Deposit s s' → Allows E s s'
  write : ∀ {w w'} (text : String), E w w' → E (w.saying text) (w'.saying text)
  coloured : ∀ {w w'} (c : Terminal.Command), E w w' →
    E ((w.given c).given .reset) ((w'.given c).given .reset)
  mark : ∀ {w w'}, E w w' → E w.mark w'.mark
  outside : ∀ {w w' v v'}, E w w' → w.SameVoice v → w'.SameVoice v' → v.silent = v'.silent → E v v'

/-- A relation that is kept whatever colour is chosen, too. -/
class Frame (E : World → World → Prop) : Prop extends Tame E where
  command : ∀ {w w'} (c : Terminal.Command), E w w' → E (w.given c) (w'.given c)
  coloured c h := command .reset (command c h)

/-- A relation that actions keep which neither look at the store nor change it, read no lines and
stay on the network they are on. -/
class Outer (E : World → World → Prop) : Prop where
  bare : ∀ {w w'}, E w w' → w.bare = w'.bare
  write : ∀ {w w'} (text : String), E w w' → E (w.saying text) (w'.saying text)
  command : ∀ {w w'} (c : Terminal.Command), E w w' → E (w.given c) (w'.given c)
  outside : ∀ {w w' v v'}, E w w' → w.SameVoice v → w'.SameVoice v' → v.bare = v'.bare →
    v.streams = w.streams → v.network.site = w.network.site → E v v'

instance [Frame E] : Outer E where
  bare h := congrArg (fun w : World => { w with store := .empty }) (Tame.silent h)
  write := Tame.write
  command := Frame.command
  outside {w w' v v'} h hv hv' hbare _ _ := by
    have hstore : v.store = v'.store := by
      rw [hv.store, hv'.store, World.store_eq_of_silent (Tame.silent h)]
    have hsilent : { v.bare with store := v.store } = { v'.bare with store := v'.store } := by
      rw [hbare, hstore]
    exact Tame.outside h hv hv' hsilent

/-- A relation that actions keep which write, and go back to the usual colours if they choose one. -/
class Subdued (E : World → World → Prop) : Prop where
  bare : ∀ {w w'}, E w w' → w.bare = w'.bare
  write : ∀ {w w'} (text : String), E w w' → E (w.saying text) (w'.saying text)
  coloured : ∀ {w w'} (c : Terminal.Command), E w w' →
    E ((w.given c).given .reset) ((w'.given c).given .reset)

instance [Outer E] : Subdued E where
  bare := Outer.bare
  write := Outer.write
  coloured c h := Outer.command .reset (Outer.command c h)

instance [Tame E] : Subdued E where
  bare h := congrArg (fun w : World => { w with store := .empty }) (Tame.silent h)
  write := Tame.write
  coloured := Tame.coloured

instance [Tame E] : Tolerant (Allows E) where
  refl s := by
    rintro w w' rfl h
    have hstore := World.store_eq_of_silent (Tame.silent h)
    have hsame : { w' with store := w.store } = w' := by rw [hstore]
    exact hsame.symm ▸ h
  trans h₁ h₂ w w' hw h := by
    have hfirst := h₁ hw h
    have hsecond := h₂ rfl hfirst
    exact hsecond
  add := Tame.allows

/-! ### Changes of the store -/

section Allows

variable [Tame E] (s : Store)

@[grind .] theorem allows_services (services : Array ServiceRecord) :
    Allows E s { s with services } :=
  Tame.allows (.services s services)

@[grind .] theorem allows_fresh (fresh : Nat) : Allows E s { s with fresh } :=
  Tame.allows (.fresh s fresh)

theorem allows_note (k : Nat) (message : String) :
    Allows E s (s.modifyScope k fun sc => { sc with lastError := some message }) :=
  Tame.allows (.note s k message)

@[grind .] theorem allows_newArray (evaluated : Bool) (values : List Value) :
    Allows E s (s.newArray evaluated values).1 :=
  Tolerant.newArray s evaluated values

@[grind .] theorem allows_newObject (evaluated : Bool) (properties : List (String × Value))
    (description : Data) : Allows E s (s.newObject evaluated properties description).1 :=
  Tolerant.newObject s evaluated properties description

@[grind .] theorem allows_load (shape : Shape) : Allows E s (s.load shape).1 :=
  Tolerant.load s shape

end Allows

@[grind ←] theorem Keeps.withStore [Tame E] {f : Store → Store × α}
    (h : ∀ s, Allows E s (f s).1) : Keeps E (withStore f) := by
  intro w w' hE
  have hstore := World.store_eq_of_silent (Tame.silent hE)
  rw [perform_withStore, perform_withStore, ← hstore]
  exact ⟨rfl, h w.store rfl hE⟩

@[grind ←] theorem Keeps.modifyStore [Tame E] {f : Store → Store} (h : ∀ s, Allows E s (f s)) :
    Keeps E (modifyStore f) :=
  Keeps.withStore (f := fun s => (f s, ())) h

/-! ### Putting actions together -/

@[grind .] theorem Keeps.pure (a : α) : Keeps E (Pure.pure a) :=
  fun _ _ h => ⟨rfl, h⟩

@[grind .] theorem Keeps.throw (f : Fault) : Keeps E (MonadExcept.throw f : Act α) :=
  fun _ _ h => ⟨rfl, h⟩

/-- The action gives the same in both worlds. -/
theorem Keeps.same (hx : Keeps E x) {w w' : World} (hE : E w w') :
    ∃ r u u', w.perform x = (r, u) ∧ w'.perform x = (r, u') ∧ E u u' := by
  obtain ⟨hsame, hE₁⟩ := hx hE
  exact ⟨_, (w.perform x).2, (w'.perform x).2, rfl, Prod.ext hsame.symm rfl, hE₁⟩

@[grind ←] theorem Keeps.bind (hx : Keeps E x) (hf : ∀ a, Keeps E (f a)) : Keeps E (x >>= f) := by
  intro w w' hE
  obtain ⟨r, u, u', hw, hw', hE₁⟩ := hx.same hE
  rw [perform_bind, perform_bind, hw, hw']
  cases r with
  | ok a => exact hf a hE₁
  | error e => exact ⟨rfl, hE₁⟩

/-- Two branches of an action that go on in the same way. -/
theorem Keeps.branch [Decidable c] {y : Act α} {rest : α → Act β} (hx : Keeps E x)
    (hy : Keeps E y) (hrest : ∀ a, Keeps E (rest a)) :
    Keeps E (if c then x >>= rest else y >>= rest) := by
  split
  · exact hx.bind hrest
  · exact hy.bind hrest

/-- A step of an action that is taken only under some condition. -/
theorem Keeps.optional [Decidable c] {x : Act Unit} {rest : Unit → Act β}
    (hx : Keeps E x) (hrest : ∀ u, Keeps E (rest u)) :
    Keeps E (if c then x >>= rest else rest ()) := by
  split
  · exact hx.bind hrest
  · exact hrest ()

@[grind ←] theorem Keeps.tryCatch {handler : Fault → Act α} (hx : Keeps E x)
    (hh : ∀ f, Keeps E (handler f)) : Keeps E (MonadExcept.tryCatch x handler) := by
  intro w w' hE
  obtain ⟨r, u, u', hw, hw', hE₁⟩ := hx.same hE
  rw [perform_tryCatch, perform_tryCatch, hw, hw']
  cases r with
  | ok a => exact ⟨rfl, hE₁⟩
  | error e => exact hh e hE₁

/-- A property that actions have if the actions have it that they are made of. -/
structure Composes (P : ∀ {α : Type}, Act α → Prop) : Prop where
  pure : ∀ {α : Type} (a : α), P (Pure.pure a)
  bind : ∀ {α β : Type} {x : Act α} {f : α → Act β}, P x → (∀ a, P (f a)) → P (x >>= f)

namespace Composes

variable {P : ∀ {α : Type}, Act α → Prop} (hP : Composes P)

include hP

theorem forM {f : α → Act Unit} (h : ∀ a, P (f a)) (l : List α) : P (l.forM f) := by
  induction l with
  | nil => exact hP.pure ()
  | cons a l ih => exact hP.bind (h a) fun _ => ih

theorem mapM {f : α → Act β} {l : List α} (h : ∀ a ∈ l, P (f a)) : P (l.mapM f) := by
  induction l with
  | nil => exact hP.pure []
  | cons a l ih =>
    rw [List.mapM_cons]
    have hl := ih fun b hb => h b (List.mem_cons_of_mem a hb)
    exact hP.bind (h a List.mem_cons_self) fun _ => hP.bind hl fun _ => hP.pure _

end Composes

theorem composes_keeps (E : World → World → Prop) : Composes (Keeps E) :=
  ⟨Keeps.pure, Keeps.bind⟩

@[grind ←] theorem Keeps.forM {f : α → Act Unit} (h : ∀ a, Keeps E (f a)) (l : List α) :
    Keeps E (l.forM f) :=
  (composes_keeps E).forM h l

@[grind ←] theorem Keeps.mapM {l : List α} (h : ∀ a ∈ l, Keeps E (f a)) : Keeps E (l.mapM f) :=
  (composes_keeps E).mapM h

@[grind ←] theorem Keeps.filterM {f : α → Act Bool} (h : ∀ a, Keeps E (f a)) (l : List α) :
    Keeps E (l.filterM f) := by
  have chosen : ∀ acc : List α, Keeps E (l.filterAuxM f acc) := by
    induction l with
    | nil => exact fun acc => Keeps.pure acc
    | cons a l ih => exact fun acc => (h a).bind fun _ => ih _
  exact (chosen []).bind fun _ => Keeps.pure _

/-! ### Looking at the world and changing it -/

/-- An action may look at everything outside of the store but what has been written. -/
@[grind ←] theorem Keeps.look_bind [Subdued E] {f : World → Act β} (hf : ∀ w, f w = f w.bare)
    (h : ∀ w, Keeps E (f w)) : Keeps E (get >>= f) := by
  intro w w' hE
  have hsame : f w = f w' := by rw [hf w, Subdued.bare hE, ← hf w']
  rw [perform_get_bind, perform_get_bind, ← hsame]
  exact h w hE

/-- An action may change everything outside of the store but what has been written, what can be read
and where the network is, if it does not depend on the store and on what has been written. -/
theorem Keeps.apart [Outer E] {f : World → α × World} (hvoice : ∀ w : World, w.SameVoice (f w).2)
    (hstreams : ∀ w : World, (f w).2.streams = w.streams)
    (hsite : ∀ w : World, (f w).2.network.site = w.network.site)
    (hf : ∀ w, f w.bare = ((f w).1, (f w).2.bare)) : Keeps E (modifyGet f : Act α) := by
  intro w w' hE
  have hsame := hf w
  rw [Outer.bare hE, hf w'] at hsame
  obtain ⟨hvalue, hbare⟩ := Prod.mk.inj hsame
  rw [perform_modifyGet, perform_modifyGet, hvalue]
  exact ⟨rfl, Outer.outside hE (hvoice w) (hvoice w') hbare.symm (hstreams w) (hsite w)⟩

section Tame

variable [Tame E]

/-- An action may look at everything in the world but what has been written. -/
@[grind ←] theorem Keeps.get_bind {f : World → Act β} (hf : ∀ w, f w = f w.silent)
    (h : ∀ w, Keeps E (f w)) : Keeps E (get >>= f) := by
  intro w w' hE
  have hsame : f w = f w' := by rw [hf w, Tame.silent hE, ← hf w']
  rw [perform_get_bind, perform_get_bind, ← hsame]
  exact h w hE

@[grind .] theorem Keeps.getStore (f : Store → α) : Keeps E (getStore f) :=
  Keeps.get_bind (fun _ => rfl) fun _ => Keeps.pure _

/-- What an action sees of the store is that of some world in the frame. -/
theorem Keeps.getStore_bind {g : Store → α} {f : α → Act β}
    (h : ∀ ⦃w w' : World⦄, E w w' → Keeps E (f (g w.store))) : Keeps E (Act.getStore g >>= f) := by
  intro w w' hE
  have hstore := World.store_eq_of_silent (Tame.silent hE)
  rw [perform_getStore_bind, perform_getStore_bind, ← hstore]
  exact h hE hE

/-- An action may change everything in the world but the store and what has been written, if it does
not depend on the latter. -/
theorem Keeps.outside {f : World → α × World} (hvoice : ∀ w : World, w.SameVoice (f w).2)
    (hf : ∀ w, f w.silent = ((f w).1, (f w).2.silent)) : Keeps E (modifyGet f : Act α) := by
  intro w w' hE
  have hsame := hf w
  rw [Tame.silent hE, hf w'] at hsame
  obtain ⟨hvalue, hsilent⟩ := Prod.mk.inj hsame
  rw [perform_modifyGet, perform_modifyGet, hvalue]
  exact ⟨rfl, Tame.outside hE (hvoice w) (hvoice w') hsilent.symm⟩

end Tame

/-! ### Properties of the store -/

section Holding

variable {P : Store → Prop} {R : Store → Store → Prop}

/-- The worlds are the same, and their store has the property `P`. -/
def Holding (P : Store → Prop) (w w' : World) : Prop :=
  w = w' ∧ P w.store

theorem allows_holding {s s' : Store} (h : P s → P s') : Allows (Holding P) s s' := by
  rintro w _ rfl ⟨rfl, hP⟩
  exact ⟨rfl, h hP⟩

theorem frame_holding (h : ∀ {s s'}, Deposit s s' → P s → P s') : Frame (Holding P) where
  silent := fun ⟨hsame, _⟩ => congrArg _ hsame
  allows hdeposit := allows_holding (h hdeposit)
  write := by
    rintro w _ text ⟨rfl, hP⟩
    exact ⟨rfl, hP⟩
  command := by
    rintro w _ c ⟨rfl, hP⟩
    exact ⟨rfl, hP⟩
  mark := by
    rintro w _ ⟨rfl, hP⟩
    exact ⟨rfl, hP⟩
  outside := by
    rintro w _ v v' ⟨rfl, hP⟩ hv hv' hsilent
    have hsame : v = v' := World.eq_of_silent hsilent (hv.console.trans hv'.console.symm)
      (hv.transcript.trans hv'.transcript.symm)
    exact ⟨hsame, hv.store ▸ hP⟩

theorem Keeps.holds (h : Keeps (Holding P) x) {w : World} (hw : P w.store) :
    P (w.perform x).2.store :=
  (h ⟨rfl, hw⟩).2.2

/-- The action makes only changes of the store that `R` allows. -/
def Makes (R : Store → Store → Prop) (x : Act α) : Prop :=
  ∀ w : World, R w.store (w.perform x).2.store

variable [Tolerant R]

instance (s : Store) : Frame (Holding (R s)) :=
  frame_holding fun hdeposit h => Tolerant.trans h (Tolerant.add hdeposit)

theorem makes_of_keeps (h : ∀ s, Keeps (Holding (R s)) x) : Makes R x :=
  fun w => (h w.store).holds (Tolerant.refl w.store)

end Holding

end Act

end Parley
