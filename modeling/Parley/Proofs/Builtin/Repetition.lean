import Mathlib.Logic.Relation
import Parley.Proofs.Eval.Reporting
import Parley.Proofs.Store.Conversion

/-!
# Calling a function again and again

The function `do` calls another one until it gives something that is not true. It does not ask as
`if` does: it looks at the datum of the value, and an empty datum ends the repetition. So there are
values that are true for `if` and end a repetition nevertheless, such as the empty text, an object
without properties, and every service (`Store.Hollow`). A value that contains itself has no datum, and
makes `do` fail (`Store.Endless`).

## Main results

* `Store.data_truthy`: which values have an empty datum.
* `Store.Endless.exists_fault`: values that contain themselves have none.
* `Act.do_ends_iff`: when a repetition ends, goes on and fails.
-/

namespace Parley

open List Traced

/-! ### Values with empty data -/

namespace Shape

variable {es : List Shape} {ds : List Data} {ps : List (String × Shape)}

theorem isEmpty_dataAll (h : (dataAll es).result = .ok ds) : ds.isEmpty = es.isEmpty := by
  cases es with
  | nil => cases h; rfl
  | cons e es =>
    obtain ⟨d, -, h⟩ := result_bind_eq_ok_iff.mp h
    obtain ⟨more, -, h⟩ := result_bind_eq_ok_iff.mp h
    cases h
    rfl

theorem isEmpty_dataProperties {es : Data.Entries}
    (h : (dataProperties ps).result = .ok es) : es.isEmpty = ps.isEmpty := by
  cases ps with
  | nil => cases h; rfl
  | cons p ps =>
    obtain ⟨d, -, h⟩ := result_bind_eq_ok_iff.mp h
    obtain ⟨more, -, h⟩ := result_bind_eq_ok_iff.mp h
    cases h
    rfl

/-- Values have data together only if each of them has one. -/
theorem exists_data_of_dataAll
    (h : (dataAll es).result = .ok ds) : ∀ e ∈ es, ∃ d, e.data.result = .ok d := by
  induction es generalizing ds with
  | nil => exact fun e he => absurd he not_mem_nil
  | cons e es ih =>
    obtain ⟨d, hd, h⟩ := result_bind_eq_ok_iff.mp h
    obtain ⟨more, hmore, -⟩ := result_bind_eq_ok_iff.mp h
    exact forall_mem_cons.mpr ⟨⟨d, hd⟩, ih hmore⟩

/-- Properties have data together only if each of them has one. -/
theorem exists_data_of_dataProperties {es : Data.Entries}
    (h : (dataProperties ps).result = .ok es) : ∀ p ∈ ps, ∃ d, p.2.data.result = .ok d := by
  induction ps generalizing es with
  | nil => exact fun p hp => absurd hp not_mem_nil
  | cons p ps ih =>
    obtain ⟨d, hd, h⟩ := result_bind_eq_ok_iff.mp h
    obtain ⟨more, hmore, -⟩ := result_bind_eq_ok_iff.mp h
    exact forall_mem_cons.mpr ⟨⟨d, hd⟩, ih hmore⟩

end Shape

namespace Store

variable {s : Store} {v : Value} {d : Data}

/-- The value counts as true, but its datum is empty. -/
def Hollow (s : Store) : Value → Prop
  | .constant (.text text) => text = ""
  | .constant .noText => True
  | .constant (.time t) => t.spaced = ""
  | .constant (.set members) => members = []
  | .setting _ => True
  | .object o => (s.objectAt o).cells = []
  | .service _ _ => True
  | .tree _ e => (e.write .shown).result = .ok ""
  | _ => False

theorem Hollow.truthy (h : s.Hollow v) : s.truthy v = true := by
  cases v with
  | constant c => cases c <;> first | rfl | cases h
  | array a => cases h
  | _ => rfl

/-- The datum of an array is a list with as many elements. -/
theorem data_truthy_array {a : Nat} (h : (s.shape (.array a)).data.result = .ok d) :
    d.truthy = false ↔ (s.arrayAt a).cells = [] := by
  obtain ⟨ds, hds, hd⟩ := result_bind_eq_ok_iff.mp h
  cases hd
  have hempty := Shape.isEmpty_dataAll hds
  simpa [Data.truthy] using congrArg (· = true) hempty

/-- The datum of an object is a dictionary with as many entries. -/
theorem data_truthy_object {o : Nat} (h : (s.shape (.object o)).data.result = .ok d) :
    d.truthy = false ↔ (s.objectAt o).cells = [] := by
  obtain ⟨es, hes, hd⟩ := result_bind_eq_ok_iff.mp h
  cases hd
  have hempty := Shape.isEmpty_dataProperties hes
  simpa [Data.truthy] using congrArg (· = true) hempty

/-- **What is empty as a datum**: what does not count as true, and what is hollow. -/
theorem data_truthy (h : (s.shape v).data.result = .ok d) :
    d.truthy = false ↔ s.truthy v = false ∨ s.Hollow v := by
  cases v with
  | constant c =>
    cases h
    cases c <;> simp [Hollow, truthy, Value.truthyLeaf, Constant.truthy, Constant.data,
      Data.truthy]
  | array a =>
    rw [data_truthy_array h]
    simp [Hollow, truthy]
  | object o =>
    rw [data_truthy_object h]
    simp [Hollow, truthy, Value.truthyLeaf]
  | setting text | service a name =>
    cases h
    exact iff_of_true rfl (.inr trivial)
  | tree number e =>
    obtain ⟨text, htext, hd⟩ := result_bind_eq_ok_iff.mp h
    cases hd
    have htext : (e.write .shown).result = .ok text := htext
    simp [Hollow, truthy, Value.truthyLeaf, Data.truthy, htext]
  | closure site params body =>
    obtain ⟨text, htext, hd⟩ := result_bind_eq_ok_iff.mp h
    obtain ⟨inner, -, htext⟩ := result_bind_eq_ok_iff.mp htext
    cases htext
    cases hd
    simp [Hollow, truthy, Value.truthyLeaf, Data.truthy, Expr.closureText]
  | builtin f copy | method a service m | remote a service call =>
    cases h
    simp [Hollow, truthy, Value.truthyLeaf, Data.truthy]

/-- What ends a repetition has a datum. -/
theorem exists_data (h : s.truthy v = false ∨ s.Hollow v) :
    ∃ d, (s.shape v).data.result = .ok d := by
  cases v with
  | constant c => exact ⟨c.data, by rfl⟩
  | array a =>
    have hcells : (s.arrayAt a).cells = [] := by simpa [truthy, Hollow] using h
    exact ⟨.list [], by rw [shape, shapeFrom, hcells]; rfl⟩
  | object o =>
    have hcells : (s.objectAt o).cells = [] := by
      simpa [truthy, Value.truthyLeaf, Hollow] using h
    exact ⟨.dict [], by rw [shape, shapeFrom, hcells]; rfl⟩
  | setting text | service a name =>
    exact ⟨_, rfl⟩
  | tree number e =>
    have htext : (e.write .shown).result = .ok "" := by
      simpa [truthy, Value.truthyLeaf, Hollow] using h
    exact ⟨.str "", result_bind_of_ok htext _⟩
  | _ => simp [truthy, Value.truthyLeaf, Hollow] at h

/-! ### Values that contain themselves -/

/-- The second value is an element or a property of the first one. -/
inductive HasPart (s : Store) : Value → Value → Prop
  | element {a c : Nat} (h : c ∈ (s.arrayAt a).cells) : HasPart s (.array a) (s.cellValue c)
  | property {o : Nat} {p : String × Nat} (h : p ∈ (s.objectAt o).cells) :
      HasPart s (.object o) (s.cellValue p.2)

/-- Somewhere in the value there is one that contains itself. -/
def Endless (s : Store) (v : Value) : Prop :=
  ∃ u, Relation.TransGen s.HasPart v u ∧ Relation.TransGen s.HasPart u u

/-- What is in an endless value and leads on to the one that contains itself is endless, too. -/
theorem Endless.exists_part (h : s.Endless v) : ∃ u, s.HasPart v u ∧ s.Endless u := by
  obtain ⟨u, hv, hu⟩ := h
  obtain ⟨x, hx, hxu⟩ := Relation.TransGen.head'_iff.mp hv
  exact ⟨x, hx, u, hu.trans_right hxu, hu⟩

/-- However far an endless value is followed, its contents have no datum. -/
theorem Endless.data_shapeFrom (h : s.Endless v) (depth : Nat) (d : Data) :
    (s.shapeFrom depth v).data.result ≠ .ok d := by
  intro hd
  obtain ⟨u, hvu, hu⟩ := h.exists_part
  induction depth generalizing v d u with
  | zero => cases hvu <;> cases hd
  | succ depth ih =>
    obtain ⟨x, hux, hx⟩ := hu.exists_part
    cases hvu with
    | element hc =>
      obtain ⟨ds, hds, -⟩ := result_bind_eq_ok_iff.mp hd
      obtain ⟨d', hd'⟩ := Shape.exists_data_of_dataAll hds _ (mem_map_of_mem hc)
      exact ih hu d' hd' x hux hx
    | property hp =>
      obtain ⟨es, hes, -⟩ := result_bind_eq_ok_iff.mp hd
      obtain ⟨d', hd'⟩ := Shape.exists_data_of_dataProperties hes _ (mem_map_of_mem hp)
      exact ih hu d' hd' x hux hx

/-- **An endless value has no datum.** -/
theorem Endless.exists_fault (h : s.Endless v) : ∃ f, (s.shape v).data.result = .error f := by
  cases hd : (s.shape v).data.result with
  | error f => exact ⟨f, rfl⟩
  | ok d => exact absurd hd (h.data_shapeFrom _ d)

end Store

/-! ### Rounds -/

namespace Act

variable {run : Run} {scope depth n : Nat} {f : Value} {w w₁ w₂ w₃ : World} {a : Answer}
  {vs : List Value} {args : Args}

/-- The function has been called and gave these values, and the repetition goes on. -/
inductive Repeats (run : Run) (scope : Nat) (f : Value) : List Value → World → World → Prop
  | start (w : World) : Repeats run scope f [] w w
  | again {vs : List Value} {w w₁ w₂ w₃ : World} {a : Answer} {d : Data}
      (h : Repeats run scope f vs w w₁)
      (hcall : w₁.perform (run (.apply scope f [])) = (.ok a, w₂))
      (hdata : w₂.perform (data (w₂.store.deref a)) = (.ok d, w₃)) (hd : d.truthy = true) :
      Repeats run scope f (vs ++ [w₂.store.deref a]) w w₃

/-- **One round**: the datum of what the function gives decides. -/
theorem perform_round {d : Data} (hcall : w₁.perform (run (.apply scope f [])) = (.ok a, w₂))
    (hdata : w₂.perform (data (w₂.store.deref a)) = (.ok d, w₃)) (rounds : Nat) :
    w₁.perform (repeatWhile run scope f (rounds + 1)) =
      if d.truthy then w₃.perform (repeatWhile run scope f rounds) else (.ok (), w₃) := by
  rw [repeatWhile, perform_bind_ok hcall, perform_deref_bind, perform_bind_ok hdata]
  split <;> rfl

/-- Rounds that have been gone through can be left out. -/
theorem Repeats.perform (h : Repeats run scope f vs w w₁) (rounds : Nat) :
    w.perform (repeatWhile run scope f (vs.length + rounds)) =
      w₁.perform (repeatWhile run scope f rounds) := by
  induction h generalizing rounds with
  | start w => rw [length_nil, Nat.zero_add]
  | again h hcall hdata hd ih =>
    rw [length_append, length_singleton, Nat.add_assoc, Nat.add_comm 1, ih,
      perform_round hcall hdata, if_pos hd]

/-- What `do` comes to, when it has gone through some rounds. -/
theorem perform_do {g : Answer} (hg : args.lookup "fn" = some g) (hgf : w.store.deref g = f)
    (hf : f.isFunction = true) (h : Repeats (interpret depth) scope f vs w w₁)
    (hlimit : vs.length < roundLimit) :
    ∃ rounds, w.perform (body (interpret depth) scope args (.core .repeatWhile)) =
      w₁.perform (repeatWhile (interpret depth) scope f (rounds + 1) >>= fun _ =>
        pure nothing) := by
  obtain ⟨rounds, hrounds⟩ : ∃ rounds, roundLimit = vs.length + (rounds + 1) :=
    ⟨roundLimit - vs.length - 1, by omega⟩
  have hfunction : w.perform (argFunction args "fn") = (.ok f, w) := by
    rw [argFunction, perform_bind_ok (perform_argValue hg), hgf, hf]
    rfl
  refine ⟨rounds, ?_⟩
  rw [body, core, bind_assoc, perform_bind_ok hfunction, bind_assoc, hrounds, perform_bind,
    h.perform, perform_bind]
  rfl

/-- The datum of a value, with output at most. -/
theorem exists_perform_data (w : World) (v : Value) :
    ∃ w', w.Said w' ∧ w.perform (data v) = ((w.store.shape v).data.result, w') := by
  obtain ⟨w', hw', hsaid⟩ := perform_ofTraced (w.store.shape v).data w
  exact ⟨w', hsaid, (perform_getStore_bind ..).trans hw'⟩

/-- **When a repetition ends.** Let `do` have called the function some times, and let the next call
give a value. If the value does not count as true or is hollow, this call is the last one, and `do`
gives null. If it is neither, the repetition goes on, unless the value has no datum, which makes
`do` fail; a value has none if it contains itself, or something that does. A condition with the same value takes its second branch only if the value does not count as
true, and hollow values do: so `do` and `if` agree about all values but the hollow ones. -/
theorem do_ends_iff {g : Answer} (hg : args.lookup "fn" = some g) (hgf : w.store.deref g = f)
    (hf : f.isFunction = true) (h : Repeats (interpret depth) scope f vs w w₁)
    (hlimit : vs.length < roundLimit)
    (hcall : w₁.perform (interpret depth (.apply scope f [])) = (.ok a, w₂)) :
    let v := w₂.store.deref a
    let applied := w.perform (interpret (depth + 1)
      (.apply scope (.builtin (.core .repeatWhile) n) args))
    ((w₂.store.truthy v = false ∨ w₂.store.Hollow v) →
      ∃ w₃, w₂.Said w₃ ∧ applied = (.ok nothing, w₃)) ∧
    (w₂.store.truthy v = true → ¬ w₂.store.Hollow v → ∀ d, (w₂.store.shape v).data.result = .ok d →
      ∃ w₃, w₂.Said w₃ ∧ Repeats (interpret depth) scope f (vs ++ [v]) w w₃) ∧
    (∀ fault, (w₂.store.shape v).data.result = .error fault →
      ∃ fault' w₃, applied = (.error fault', w₃)) ∧
    (w₂.store.Endless v → ∃ fault w₃, applied = (.error fault, w₃)) ∧
    (w₂.store.Hollow v → w₂.store.truthy v = true) ∧
    ∀ (w₀ : World) (c yes no : Expr),
      w₀.perform (interpret depth (.evaluate scope c)) = (.ok a, w₂) →
      w₀.perform (interpret (depth + 1) (.evaluate scope (.ifThen c yes no))) =
        w₂.perform (interpret depth (.evaluate scope (if w₂.store.truthy v then yes else no))) := by
  intro v applied
  obtain ⟨w₃, hsaid, hdata⟩ := exists_perform_data w₂ v
  obtain ⟨rounds, hbody⟩ := perform_do hg hgf hf h hlimit
  have hfails (fault : Fault) (hd : (w₂.store.shape v).data.result = .error fault) :
      ∃ fault' w₃, applied = (.error fault', w₃) := by
    rw [hd] at hdata
    have hround : w₁.perform (repeatWhile (interpret depth) scope f (rounds + 1)) =
        (.error fault, w₃) := by
      rw [repeatWhile, perform_bind_ok hcall, perform_deref_bind, perform_bind, hdata]
    exact runBuiltin_of_error rfl (hbody.trans (by rw [perform_bind, hround]))
  refine ⟨fun hstop => ?_, fun htrue hfull d hd => ?_, hfails, fun hendless => ?_,
    Store.Hollow.truthy, fun w₀ c yes no hc => ?_⟩
  · obtain ⟨d, hd⟩ := Store.exists_data hstop
    rw [hd] at hdata
    have hround := perform_round hcall hdata rounds
    rw [(Store.data_truthy hd).mpr hstop] at hround
    exact ⟨w₃, hsaid, runBuiltin_of_ok rfl (hbody.trans (perform_bind_ok hround _))⟩
  · rw [hd] at hdata
    have hgoes : d.truthy = true := by
      rw [← Bool.not_eq_false, Store.data_truthy hd, htrue]
      simpa using hfull
    exact ⟨w₃, hsaid, h.again hcall hdata hgoes⟩
  · obtain ⟨fault, hd⟩ := hendless.exists_fault
    exact hfails fault hd
  · have hvalue : w₀.perform (evaluateValue (interpret depth) scope c) = (.ok v, w₂) :=
      perform_evaluateValue hc
    refine (perform_bind_ok hvalue _).trans ((perform_getStore_bind ..).trans ?_)
    cases w₂.store.truthy v <;> rfl

/-- A function that always gives the empty text is called once by `do`, and the empty text is true
for `if`. -/
theorem do_ends_iff_empty : let literal := Expr.closure 0 [] (.constant (.text ""))
    let w := (World.blank.perform (interpret 1 (.evaluate 0 literal))).2
    let f := Value.closure 0 [] (.constant (.text ""))
    let w₂ := (w.perform (interpret 2 (.apply 0 f []))).2
    (∃ w₃, w₂.Said w₃ ∧ w.perform (interpret (2 + 1)
      (.apply 0 (.builtin (.core .repeatWhile) 0) [("fn", .value f)])) = (.ok nothing, w₃)) ∧
      w₂.store.truthy (.text "") = true := by
  intro literal w f w₂
  have hcall : w.perform (interpret 2 (.apply 0 f [])) = (.ok (.value (.text "")), w₂) := rfl
  have hfn : List.lookup "fn" [("fn", Answer.value f)] = some (.value f) := rfl
  obtain ⟨hends, -, -, -, htrue, -⟩ :=
    do_ends_iff hfn rfl rfl (.start w) (by decide) hcall
  exact ⟨hends (.inr rfl), htrue rfl⟩

end Act

end Parley
