import Parley.Proofs.Store.Hidden

/-!
# Worlds that differ in the last result

Two worlds are twins if they differ in what the cell of the last result holds, and in what has been
written, at most, and if nothing hidden is reached in them from what is not hidden. An action that
keeps twins (`Act.Keeps`) does not depend on the last result. This module goes through the actions
that the evaluation of code is made of, as `Parley.Proofs.World.Quiet` does for the frames, and says
of each what it gives (`Act.Gives`): answers that lead to nothing hidden.

## Main results

* `Act.Veils`: what is asked of a relation so that the last result has no say, and that twins are so
  related.
* `Act.lookup_gives`, `Act.assign_gives`, `Act.member_gives`, `Act.element_gives`: the actions on
  variables and the parts of values.
-/

namespace Parley

open List
open Store (Lasting)

/-- The world in which a cell holds another value. -/
def World.put (w : World) (c : Nat) (v : Value) : World :=
  { w with store := w.store.setCell c v }

/-- The second world is the first one with another value for the last result, but for what has been
written. The property `Q` of the store is one that lasts as long as the scopes stay as they are. -/
structure Hidden.Twins (H : Hidden) (Q : Store → Prop) (streams : Array (List (Option String)))
    (v : Value) (w w' : World) : Prop where
  sound : H.Sound w.store
  holds : Q w.store
  input : 0 < streams.size
  streams : w.streams = streams
  silent : w'.silent = (w.put H.last v).silent

namespace Hidden.Twins

variable {H : Hidden} {Q : Store → Prop} {streams : Array (List (Option String))} {v : Value}
  {w w' : World}

theorem store (h : H.Twins Q streams v w w') : w'.store = w.store.setCell H.last v :=
  World.store_eq_of_silent h.silent

theorem of_store {s : Store} {Q' : Store → Prop} (h : H.Twins Q streams v w w') (hs : H.Sound s)
    (hQ : Q' s) :
    H.Twins Q' streams v { w with store := s } { w' with store := s.setCell H.last v } :=
  ⟨hs, hQ, h.input, h.streams, congrArg (fun u : World => { u with store := s.setCell H.last v }) h.silent⟩

instance : Act.Outer (H.Twins Q streams v) where
  bare h := (congrArg (fun u : World => { u with store := .empty }) h.silent).symm
  write _ h := ⟨h.sound, h.holds, h.input, h.streams, h.silent⟩
  command _ h := ⟨h.sound, h.holds, h.input, h.streams, h.silent⟩
  outside {w w' u u'} h hu hu' hbare hstreams _ := by
    refine ⟨hu.store ▸ h.sound, hu.store ▸ h.holds, h.input, hstreams.trans h.streams, ?_⟩
    have hstore : u'.store = u.store.setCell H.last v := by rw [hu'.store, h.store, hu.store]
    have hsilent : { u'.bare with store := u'.store } =
        { u.bare with store := u.store.setCell H.last v } := by rw [hbare, hstore]
    exact hsilent

end Hidden.Twins

namespace Act

variable {α β : Type} {E : World → World → Prop} {P : α → Prop} {Q : β → Prop} {x : Act α}
  {f : α → Act β}

/-! ### Actions that give something with a property -/

/-- The action keeps the relation, and what it gives has the property. -/
structure Gives (E : World → World → Prop) (P : α → Prop) (x : Act α) : Prop where
  keeps : Keeps E x
  gives : ∀ {w w' a}, E w w' → (w.perform x).1 = .ok a → P a

theorem Gives.bind (hx : Gives E P x) (hf : ∀ a, P a → Gives E Q (f a)) : Gives E Q (x >>= f) := by
  have hstep {w w' : World} (hE : E w w') : ((w.perform (x >>= f)).1 = (w'.perform (x >>= f)).1 ∧
        E (w.perform (x >>= f)).2 (w'.perform (x >>= f)).2) ∧
      ∀ b, (w.perform (x >>= f)).1 = .ok b → Q b := by
    obtain ⟨r, u, u', hw, hw', hE₁⟩ := hx.keeps.same hE
    rw [perform_bind, perform_bind, hw, hw']
    cases r with
    | ok a =>
      have hnext := hf a (hx.gives hE (congrArg Prod.fst hw))
      exact ⟨hnext.keeps hE₁, fun b => hnext.gives hE₁⟩
    | error e => exact ⟨⟨rfl, hE₁⟩, nofun⟩
  exact ⟨fun _ _ hE => (hstep hE).1, fun hE => (hstep hE).2 _⟩

theorem Keeps.gives (hx : Keeps E x) : Gives E (fun _ => True) x :=
  ⟨hx, fun _ _ => trivial⟩

/-- What an action gives can be used by the next one. -/
theorem Gives.keeps_bind (hx : Gives E P x) (hf : ∀ a, P a → Keeps E (f a)) : Keeps E (x >>= f) :=
  (hx.bind fun a ha => (hf a ha).gives).keeps

/-- What an action gives is what its last step gives. -/
@[grind ←] theorem Keeps.bind_gives (hx : Keeps E x)
    (hf : ∀ a, Gives E Q (f a)) : Gives E Q (x >>= f) :=
  hx.gives.bind fun a _ => hf a

@[grind ←] theorem Gives.pure {a : α} (ha : P a) : Gives E P (Pure.pure a) :=
  ⟨Keeps.pure a, fun _ h => Except.ok.inj h ▸ ha⟩

@[grind .] theorem Gives.throw (f : Fault) : Gives E P (MonadExcept.throw f : Act α) :=
  ⟨Keeps.throw f, fun _ h => nomatch h⟩

@[grind ←] theorem Gives.tryCatch {handler : Fault → Act α} (hx : Gives E P x)
    (hh : ∀ f, Gives E P (handler f)) : Gives E P (MonadExcept.tryCatch x handler) := by
  refine ⟨hx.keeps.tryCatch fun f => (hh f).keeps, fun {w w' a} hE ha => ?_⟩
  obtain ⟨r, u, u', hw, -, hE₁⟩ := hx.keeps.same hE
  rw [perform_tryCatch, hw] at ha
  cases r with
  | ok a => exact hx.gives hE ((congrArg Prod.fst hw).trans ha)
  | error e => exact (hh e).gives hE₁ ha

theorem ofResult_gives (r : Except Fault α) : Gives E (fun a => r = .ok a) (ofResult r) := by
  cases r with
  | ok a => exact Gives.pure rfl
  | error f => exact Gives.throw f

theorem Gives.mono {P' : α → Prop} (hx : Gives E P x) (h : ∀ a, P a → P' a) : Gives E P' x :=
  ⟨hx.keeps, fun hE ha => h _ (hx.gives hE ha)⟩

@[grind ←] theorem Gives.look_bind [Subdued E] {f : World → Act β} (hf : ∀ w, f w = f w.bare)
    (h : ∀ w, Gives E Q (f w)) : Gives E Q (get >>= f) :=
  ⟨Keeps.look_bind hf fun w => (h w).keeps, fun {w _ _} hE hb => (h w).gives hE hb⟩

/-- An action after which, in any case, another one is carried out. -/
@[grind ←] theorem Gives.andThen {last : Act Unit} (hx : Gives E P x) (hlast : Keeps E last) :
    Gives E P (andThen x last) := by
  refine Gives.bind (P := fun r => ∀ a, r = .ok a → P a) (Gives.tryCatch ?_ fun f => ?_) fun r hr => ?_
  · exact hx.bind fun a ha => Gives.pure fun b hb => Except.ok.inj hb ▸ ha
  · exact Gives.pure nofun
  · exact hlast.bind_gives fun _ => (ofResult_gives r).mono hr

/-- The results of an action for all elements of a list. -/
theorem Gives.mapM {l : List α} (h : ∀ a ∈ l, Gives E Q (f a)) :
    Gives E (fun bs => ∀ b ∈ bs, Q b) (l.mapM f) := by
  induction l with
  | nil => exact Gives.pure fun b hb => absurd hb not_mem_nil
  | cons a l ih =>
    rw [mapM_cons]
    refine (h a mem_cons_self).bind fun b hb => ?_
    refine (ih fun a' ha' => h a' (mem_cons_of_mem a ha')).bind fun bs hbs => ?_
    exact Gives.pure (forall_mem_cons.mpr ⟨hb, hbs⟩)

/-! ### The store -/

/-- A relation between worlds that the last result does not break: the operations of the store that
are blind to it keep the relation, and so does a look at the store that does not see it. -/
class Veils (H : outParam Hidden) (E : World → World → Prop) : Prop extends Outer E where
  withStore : ∀ {α : Type} {P : α → Prop} {f : Store → Store × α},
    H.Blind P f → Gives E P (withStore f)
  getStore : ∀ {α : Type} {P : α → Prop} {f : Store → α},
    (∀ {s} (v : Value), H.Sound s → f (s.setCell H.last v) = f s) →
    (∀ {s}, H.Sound s → P (f s)) → Gives E P (getStore f)

/-- **Twins** stay twins under everything that is blind to the last result. -/
instance {H : Hidden} {Q : Store → Prop} [Lasting Q] {streams : Array (List (Option String))}
    {v : Value} : Veils H (H.Twins Q streams v) where
  withStore h := by
    refine ⟨fun w w' hE => ?_, fun hE ha => Except.ok.inj ha ▸ h.gives hE.sound⟩
    rw [perform_withStore, perform_withStore, hE.store, h.setCell v hE.sound]
    exact ⟨rfl, hE.of_store (h.sound hE.sound) (Lasting.steady (h.steady hE.sound) hE.holds)⟩
  getStore h hP := by
    refine ⟨fun w w' hE => ?_, fun hE ha => Except.ok.inj ha ▸ hP hE.sound⟩
    rw [perform_getStore, perform_getStore, hE.store, h v hE.sound]
    exact ⟨rfl, hE⟩

section Veils

variable {H : Hidden} {x : Act Value} {f : Value → Act β}

/-- A value that an action gives leads to nothing hidden, and the next action may use that. -/
@[grind ←] theorem Gives.bind_value [Veils H E]
    (hx : Gives E (H.spares ·) x) (hf : ∀ y, H.spares y → Gives E Q (f y)) : Gives E Q (x >>= f) :=
  hx.bind hf

@[grind ←] theorem Gives.bind_answer [Veils H E] {x : Act Answer} {f : Answer → Act β}
    (hx : Gives E H.Fair x) (hf : ∀ a, H.Fair a → Gives E Q (f a)) : Gives E Q (x >>= f) :=
  hx.bind hf

@[grind ←] theorem Keeps.bind_value [Veils H E]
    (hx : Gives E (H.spares ·) x) (hf : ∀ y, H.spares y → Keeps E (f y)) : Keeps E (x >>= f) :=
  hx.keeps_bind hf

variable [hE : Veils H E] {k : Nat} {name : String} {x : Value}

include hE

theorem modifyStore_twins {f : Store → Store} (h : H.Blind (fun _ => True) fun s => (f s, ())) :
    Keeps E (modifyStore f) :=
  (Veils.withStore h).keeps

theorem getStore_twins {f : Store → α}
    (h : ∀ {s} (v : Value), H.Sound s → f (s.setCell H.last v) = f s) : Keeps E (getStore f) :=
  (Veils.getStore (P := fun _ => True) h fun _ => trivial).keeps

@[grind .] theorem scopeAt_twins (k : Nat) : Keeps E (scopeAt k) :=
  getStore_twins fun _ _ => rfl

@[grind .] theorem deref_gives {a : Answer} (ha : H.Fair a) : Gives E (H.spares ·) (deref a) := by
  refine Veils.getStore (fun {s} v _ => ?_) fun hs => hs.spares_deref ha
  cases a with
  | value x => rfl
  | cell c => exact Store.cellValue_setCell_of_ne (Hidden.ne_last ha) v

theorem cell_gives {c : Nat} (hc : c ∉ H.cells) : Gives E (H.spares ·) (deref (.cell c)) :=
  deref_gives hc

@[grind .] theorem written_twins (style : Style) (hx : H.spares x) : Keeps E (written style x) :=
  Keeps.bind (getStore_twins fun v h => h.shape_setCell v hx) fun _ => Keeps.ofTraced _

@[grind .] theorem data_twins (hx : H.spares x) : Keeps E (data x) :=
  Keeps.bind (getStore_twins fun v h => h.shape_setCell v hx) fun _ => Keeps.ofTraced _

/-- The cells of an array. -/
theorem cells_gives (a : Nat) :
    Gives E (fun r => ∀ c ∈ r.cells, c ∉ H.cells) (getStore fun s => s.arrayAt a) :=
  Veils.getStore (fun _ _ => rfl) fun h _ => h.array

@[grind .] theorem load_gives (d : Data) : Gives E (H.spares ·) (load d) :=
  (ofResult_gives _).bind fun _ hshape => Veils.withStore (Hidden.blind_load hshape)

theorem note_twins (k : Nat) (message : String) : Keeps E
    (modifyStore fun s => s.modifyScope k fun sc => { sc with lastError := some message }) :=
  modifyStore_twins (Hidden.blind_modifyScope k fun _ => ⟨rfl, rfl⟩)

/-- An error gives nothing. -/
@[grind .] theorem error_gives (k : Nat) (message : String) :
    Gives E P (error k message : Act α) := by
  exact (Keeps.foreground "red").bind_gives fun _ => (Keeps.print _).bind_gives fun _ =>
    Keeps.reset.bind_gives fun _ => (note_twins k _).bind_gives fun _ => Gives.throw _

@[grind .] theorem error_twins (k : Nat) (message : String) : Keeps E (error k message : Act α) :=
  (error_gives (P := fun _ => True) k message).keeps

/-- A value that is not what it should be is shown in the error. -/
theorem complaint_gives (style : Style) (k : Nat) (message : String → String) (hx : H.spares x) :
    Gives E P (written style x >>= fun text => error k (message text) : Act α) :=
  (written_twins style hx).bind_gives fun _ => error_gives k _

/-! ### Variables -/

/-- Where a variable is found does not depend on what it holds. -/
theorem lookup_found {P : Nat → Prop} (k : Nat) (name : String)
    (h : ∀ {s c}, H.Sound s → s.find? k name = some c → P c) :
    Gives E P (lookup k name) := by
  refine Gives.bind (P := fun found => ∀ c, found = some c → P c)
    (Veils.getStore (fun {s} v _ => s.find?_setCell _ v k name) fun hs _ => h hs) fun found hfound => ?_
  split
  · exact Gives.pure (hfound _ rfl)
  · exact Keeps.bind_gives (getStore_twins fun {s} v _ => s.root_setCell _ v k) fun _ =>
      error_gives _ _

/-- Names that are not hidden lead to cells that are not hidden. -/
theorem lookup_gives (k : Nat) (hname : name ∉ H.names) : Gives E (· ∉ H.cells) (lookup k name) :=
  lookup_found k name fun hs hc => hs.name (Store.bound_of_find? hc) hname

@[grind .] theorem lookupValue_gives (k : Nat) (hname : name ∉ H.names) :
    Gives E (H.spares ·) (lookupValue k name) :=
  (lookup_gives k hname).bind fun _ hc => deref_gives hc

theorem assign_gives (k : Nat) (hname : name ∉ H.names) (hx : H.spares x) :
    Gives E (· ∉ H.cells) (assign k name x) :=
  Veils.withStore (Hidden.blind_define k hname hx)

/-! ### Members and elements -/

omit hE in
/-- A value that leads to nothing hidden is no call of a service, so its parameters are its own. -/
@[grind .] theorem paramsOf_twins (k : Nat) (hx : H.spares x) : Keeps E (paramsOf k x) := by
  cases x with
  | method | remote | service => cases hx
  | _ => exact Keeps.pure _

/-- The properties of an object that is not hidden are not hidden. -/
@[grind .] theorem member_gives (k : Nat) (hx : H.spares x) (name : String) :
    Gives E H.Fair (member k x name) := by
  unfold Act.member
  split
  · next address =>
    have ho : address ∉ H.objects := by simpa [Hidden.spares] using hx
    refine Gives.bind (P := fun r => ∀ p ∈ r.cells, p.2 ∉ H.cells)
      (Veils.getStore (fun _ _ => rfl) fun h _ hp => h.object ho hp) fun r hr => ?_
    split
    · next c hc => exact Gives.pure (hr _ (Store.mem_of_findName hc))
    · exact error_gives _ _
  · cases hx
  · exact Gives.pure hx
  · split
    · exact (paramsOf_twins k hx).bind_gives fun d =>
        (load_gives d).bind fun y hy => Gives.pure hy
    · exact complaint_gives _ k (· ++ " has no member " ++ name) hx

/-- The elements of an array are not hidden. -/
@[grind .] theorem element_gives (k : Nat) {array index : Value} (harray : H.spares array)
    (hindex : H.spares index) :
    Gives E H.Fair (element k array index) := by
  unfold element
  split
  · refine (cells_gives _).bind fun r hr => ?_
    dsimp only
    split
    · exact error_gives _ _
    · split
      · next c hc => exact Gives.pure (hr c (mem_of_getElem? hc))
      · exact error_gives _ _
  · exact complaint_gives _ k (· ++ " cannot be used as a subscript") hindex
  · exact complaint_gives _ k (· ++ " is not subscriptable") harray

@[grind .] theorem treeValue_gives (e : Expr) : Gives E (H.spares ·) (treeValue e) :=
  (Veils.withStore (P := fun _ => True) (Hidden.blind_fresh (f := fun n => (n + 1, n))
    fun _ => trivial)).bind fun _ _ => Gives.pure rfl

@[grind .] theorem capture_twins (k site : Nat) : Keeps E (capture k site) :=
  modifyStore_twins (Hidden.blind_capture k site)

@[grind .] theorem stopLoop_twins (k : Nat) : Keeps E (stopLoop k) :=
  modifyStore_twins (Hidden.blind_modifyScope k fun _ => ⟨rfl, rfl⟩)

/-- A write through a cell that is not hidden. -/
@[grind .] theorem assignTo_twins {target value : Answer} (htarget : H.Fair target) (hvalue : H.Fair value) :
    Keeps E (assignTo target value) := by
  unfold assignTo
  split
  · exact (deref_gives hvalue).keeps_bind fun y hy =>
      modifyStore_twins (Hidden.blind_setCell htarget hy)
  · exact Keeps.throw _

end Veils

end Act

end Parley
