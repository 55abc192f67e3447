import Parley.Proofs.Eval.Parameters
import Parley.Proofs.Store.Loading
import Parley.Proofs.World.Output

/-!
# Data and values

What comes from outside, such as a response, comes as data and is put into the store as a value;
what goes out is a value that is turned into data. Of what documents hold nothing is lost on the
way, whichever way is taken first: kinds, order and names are the same at every depth.

Both ways follow the structure, and they meet at the shape of a value. A shape and a datum that are
turned into each other (`Shape.Mirrors`) are put together from parts that are, and so every datum
without bytes and sets has its shape, and every shape of the constants that documents know has its
datum. That a value in the store has the shape that was put there is `Store.shape_load`.
-/

namespace Parley

open List

/-- The constants that documents know: all but instants, sets and the place of a text. -/
def Constant.Basic : Constant → Prop
  | .null | .bool _ | .int _ | .float _ | .text _ => True
  | .noText | .time _ | .set _ => False

/-- Null, truth values, numbers and texts, and lists and dictionaries of such data. -/
inductive Data.Plain : Data → Prop
  | null : Plain .null
  | bool (b : Bool) : Plain (.bool b)
  | int (n : Int) : Plain (.int n)
  | float (x : Float) : Plain (.float x)
  | str (s : String) : Plain (.str s)
  | list (ds : List Data) (h : ∀ d ∈ ds, Plain d) : Plain (.list ds)
  | dict (es : Data.Entries) (h : ∀ e ∈ es, Plain e.2) : Plain (.dict es)

/-! ### Shapes and data -/

namespace Shape

/-- The datum of the shape is this one, and so is the shape of the datum. -/
structure Mirrors (s : Shape) (d : Data) : Prop where
  data : s.data = pure d
  ofData : ofData d = .ok s

theorem mirrors_constant {c : Constant} (h : c.Basic) : Mirrors (.leaf (.constant c)) c.data := by
  cases c with
  | null | bool | int | float | text => exact ⟨rfl, rfl⟩
  | noText | time | set => cases h

theorem mirrors_array {es : List Shape} {ds : List Data} (h : Forall₂ Mirrors es ds) :
    Mirrors (.array es) (.list ds) := by
  have hall : dataAll es = pure ds ∧ ofDataAll ds = .ok es := by
    induction h with
    | nil => exact ⟨rfl, rfl⟩
    | cons hd _ ih =>
      refine ⟨?_, ?_⟩
      · rw [dataAll, hd.data, ih.1]
        rfl
      · rw [ofDataAll, hd.ofData, ih.2]
        rfl
  refine ⟨?_, ?_⟩
  · rw [data, hall.1]
    rfl
  · rw [ofData, hall.2]
    rfl

theorem mirrors_object {ps : List (String × Shape)} {es : Data.Entries}
    (h : Forall₂ (fun p e => p.1 = e.1 ∧ Mirrors p.2 e.2) ps es) :
    Mirrors (.object ps) (.dict es) := by
  have hall : dataProperties ps = pure es ∧ ofDataEntries es = .ok ps := by
    induction h with
    | nil => exact ⟨rfl, rfl⟩
    | @cons p e _ _ hd _ ih =>
      obtain ⟨k, s⟩ := p
      obtain ⟨rfl, hd⟩ := hd
      refine ⟨?_, ?_⟩
      · rw [dataProperties, hd.data, ih.1]
        rfl
      · rw [ofDataEntries, hd.ofData, ih.2]
        rfl
  refine ⟨?_, ?_⟩
  · rw [data, hall.1]
    rfl
  · rw [ofData, hall.2]
    rfl

/-- If each member of a list has a counterpart, the list has a list of counterparts. -/
theorem exists_counterparts {α β : Type} {R : α → β → Prop} {as : List α}
    (h : ∀ a ∈ as, ∃ b, R a b) : ∃ bs, Forall₂ R as bs := by
  induction as with
  | nil => exact ⟨[], .nil⟩
  | cons a as ih =>
    obtain ⟨⟨b, hb⟩, has⟩ := forall_mem_cons.mp h
    obtain ⟨bs, hbs⟩ := ih has
    exact ⟨b :: bs, .cons hb hbs⟩

/-- **Every shape of basic constants** has its datum. -/
theorem exists_mirrors {names : List String → Prop} {s : Shape}
    (h : s.MadeOf Constant.Basic names) : ∃ d, s.Mirrors d := by
  induction h with
  | leaf c hc => exact ⟨c.data, mirrors_constant hc⟩
  | array es _ ih =>
    obtain ⟨ds, hds⟩ := exists_counterparts ih
    exact ⟨.list ds, mirrors_array hds⟩
  | object ps _ _ ih =>
    obtain ⟨es, hes⟩ : ∃ es : Data.Entries,
        Forall₂ (fun p e => p.1 = e.1 ∧ Mirrors p.2 e.2) ps es :=
      exists_counterparts fun p hp => by
        obtain ⟨d, hd⟩ := ih p hp
        exact ⟨(p.1, d), rfl, hd⟩
    exact ⟨.dict es, mirrors_object hes⟩

end Shape

/-- **Every plain datum** has its shape, which is one of basic constants. -/
theorem Data.Plain.exists_mirrors {d : Data} (h : d.Plain) :
    ∃ s : Shape, s.MadeOf Constant.Basic (fun _ => True) ∧ s.Mirrors d := by
  induction h with
  | null => exact ⟨_, .leaf .null trivial, Shape.mirrors_constant trivial⟩
  | bool b => exact ⟨_, .leaf (.bool b) trivial, Shape.mirrors_constant trivial⟩
  | int n => exact ⟨_, .leaf (.int n) trivial, Shape.mirrors_constant trivial⟩
  | float x => exact ⟨_, .leaf (.float x) trivial, Shape.mirrors_constant trivial⟩
  | str s => exact ⟨_, .leaf (.text s) trivial, Shape.mirrors_constant trivial⟩
  | list ds _ ih =>
    obtain ⟨ss, hss⟩ := Shape.exists_counterparts ih
    obtain ⟨hmade, hmirrors⟩ := (forall₂_and_left _ _).mp hss.flip
    exact ⟨.array ss, .array ss hmade, Shape.mirrors_array hmirrors⟩
  | dict es _ ih =>
    obtain ⟨ps, hps⟩ : ∃ ps : List (String × Shape), Forall₂ (fun e p =>
        p.2.MadeOf Constant.Basic (fun _ => True) ∧ p.1 = e.1 ∧ p.2.Mirrors e.2) es ps :=
      Shape.exists_counterparts fun e he => by
        obtain ⟨s, hmade, hs⟩ := ih e he
        exact ⟨(e.1, s), hmade, rfl, hs⟩
    obtain ⟨hmade, hmirrors⟩ := (forall₂_and_left _ _).mp hps.flip
    exact ⟨.object ps, .object ps trivial hmade, Shape.mirrors_object hmirrors⟩

namespace Act

theorem perform_load {d : Data} {s : Shape} (h : Shape.ofData d = .ok s) (w : World) :
    w.perform (load d) = (.ok (w.store.load s).2, { w with store := (w.store.load s).1 }) := by
  rw [load, h]
  exact perform_bind_ok (perform_pure w s) _

theorem perform_data {d : Data} {v : Value} {w : World} (h : (w.store.shape v).data = pure d) :
    w.perform (data v) = (.ok d, w) := by
  rw [data, perform_getStore_bind, h]
  rfl

/-- **Putting data into the store and turning values into data are inverse.** Data without bytes and
sets can be put into the store, and the value that they become is turned into the same data; a value
made of basic constants can be turned into data, and what they become in the store has the shape of
the value. -/
theorem load_data_inverse (w : World) :
    (∀ d : Data, d.Plain → ∃ v w', w.perform (load d) = (.ok v, w') ∧
      w'.perform (data v) = (.ok d, w')) ∧
    (∀ v, (w.store.shape v).MadeOf Constant.Basic (fun _ => True) →
      ∃ d, w.perform (data v) = (.ok d, w) ∧ ∃ v' w', w.perform (load d) = (.ok v', w') ∧
        w'.store.shape v' = w.store.shape v) := by
  refine ⟨fun d hd => ?_, fun v hv => ?_⟩
  · obtain ⟨s, hs, hmirrors⟩ := hd.exists_mirrors
    refine ⟨_, _, perform_load hmirrors.ofData w, perform_data ?_⟩
    rw [Store.shape_load hs, hmirrors.data]
  · obtain ⟨d, hmirrors⟩ := Shape.exists_mirrors hv
    exact ⟨d, perform_data hmirrors.data, _, _, perform_load hmirrors.ofData w,
      Store.shape_load hv w.store⟩

/-- An object with a list in it, as data and as a value. -/
theorem load_data_inverse_object :
    let d := Data.dict [("a", .list [.null, .float 0.5, .str "x"]), ("b", .dict [])]
    let w := (World.blank.perform (load d)).2
    d.Plain ∧ (w.store.shape (.object 1)).MadeOf Constant.Basic (fun _ => True) ∧
      (∃ v w', World.blank.perform (load d) = (.ok v, w') ∧ w'.perform (data v) = (.ok d, w')) ∧
      ∃ d', w.perform (data (.object 1)) = (.ok d', w) ∧ ∃ v' w',
        w.perform (load d') = (.ok v', w') ∧ w'.store.shape v' = w.store.shape (.object 1) := by
  intro d w
  have hd : d.Plain := by
    refine .dict _ (forall_mem_cons.mpr ⟨.list _ ?_, forall_mem_singleton.mpr ?_⟩)
    · simp [Data.Plain.null, Data.Plain.float, Data.Plain.str]
    · exact .dict [] nofun
  have hv : (w.store.shape (.object 1)).MadeOf Constant.Basic (fun _ => True) := by
    refine .object [("a", .array _), ("b", .object [])] trivial
      (forall_mem_cons.mpr ⟨.array _ ?_, forall_mem_singleton.mpr ?_⟩)
    · exact forall_mem_cons.mpr ⟨.leaf .null trivial, forall_mem_cons.mpr
        ⟨.leaf (.float 0.5) trivial, forall_mem_singleton.mpr (.leaf (.text "x") trivial)⟩⟩
    · exact .object [] trivial nofun
  exact ⟨hd, hv, (load_data_inverse World.blank).1 d hd, (load_data_inverse w).2 _ hv⟩

end Act

end Parley
