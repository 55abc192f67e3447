import Parley.Proofs.Store.Rebuilding
import Parley.Proofs.World.Output

/-!
# Evaluating declarations of data

The tree of data is evaluated to the data: what the evaluation does to the store is to put them
there (`Store.load`). So a declaration with data on its right side does to the store what
`Store.declare` says, whatever else there is in the world.
-/

namespace Parley

open List Traced

variable {es : List Shape} {style : Style} {ps : List (String × Shape)} {s : Store}
  {p : String × Value}

namespace Shape

/-! ### The tree of data -/

mutual

/-- There is no function literal in the tree of data that could be numbered. -/
theorem placed_tree (n : Nat) : ∀ s : Shape, s.tree.placed n = (s.tree, n)
  | .leaf v => by
    cases v with
    | constant c => cases c <;> rfl
    | _ => rfl
  | .array es => by
    rw [tree, Expr.placed, placedAll_treeAll n es]
  | .object ps => by
    rw [tree, Expr.placed, placedArgs_treeNamed n ps]

theorem placedAll_treeAll (n : Nat) :
    ∀ es : List Shape, Expr.placedAll n (treeAll es) = (treeAll es, n)
  | [] => rfl
  | e :: es => by
    rw [treeAll, Expr.placedAll, placed_tree n e]
    dsimp only
    rw [placedAll_treeAll n es]

theorem placedArgs_treeNamed (n : Nat) :
    ∀ ps : List (String × Shape), Expr.placedArgs n (treeNamed ps) = (treeNamed ps, n)
  | [] => rfl
  | (k, e) :: ps => by
    rw [treeNamed, Expr.placedArgs, placed_tree n e]
    dsimp only
    rw [placedArgs_treeNamed n ps]

end

theorem exists_writeAll_treeAll (h : ∀ e ∈ es, ∃ text, (e.tree.write style).result = .ok text) :
    ∃ parts, (Expr.writeAll style (treeAll es)).result = .ok parts := by
  induction es with
  | nil => exact ⟨[], rfl⟩
  | cons e es ih =>
    obtain ⟨⟨text, htext⟩, hes⟩ := forall_mem_cons.mp h
    obtain ⟨parts, hparts⟩ := ih hes
    exact ⟨text :: parts, result_bind_eq_ok_iff.mpr ⟨text, htext, result_bind_of_ok hparts _⟩⟩

theorem exists_writeArgs_treeNamed (put : String → String → String)
    (h : ∀ p ∈ ps, ∃ text, (p.2.tree.write style).result = .ok text) :
    ∃ parts, (Expr.writeArgs style put (treeNamed ps)).result = .ok parts := by
  induction ps with
  | nil => exact ⟨[], rfl⟩
  | cons p ps ih =>
    obtain ⟨⟨text, htext⟩, hps⟩ := forall_mem_cons.mp h
    obtain ⟨parts, hparts⟩ := ih hps
    exact ⟨put p.1 text :: parts, result_bind_eq_ok_iff.mpr ⟨text, htext,
      result_bind_of_ok hparts _⟩⟩

/-- The tree of data can be written in every style. -/
theorem Saveable.exists_write_tree {s : Shape} (h : s.Saveable) (style : Style) :
    ∃ text, (s.tree.write style).result = .ok text := by
  induction h generalizing style with
  | null => exact ⟨"null", rfl⟩
  | bool b => exact ⟨_, rfl⟩
  | int n hn =>
    have hwrite : ((Expr.constant (.int n)).write style).result = Constant.intText n := by
      cases style <;>
        simp only [Expr.write, Constant.write, Constant.shown, Constant.pasted, Constant.json,
          result_ofExcept]
    exact ⟨n.repr, hwrite.trans (Token.intText_natCast hn)⟩
  | text s _ _ _ => cases style <;> exact ⟨_, rfl⟩
  | array es _ ih =>
    obtain ⟨parts, hparts⟩ := exists_writeAll_treeAll fun e he => ih e he style.ofElements
    exact ⟨_, result_bind_of_ok hparts _⟩
  | object ps _ _ _ ih =>
    obtain ⟨shown, hshown⟩ :=
      exists_writeArgs_treeNamed Expr.shownProperty fun p hp => ih p hp .shown
    obtain ⟨json, hjson⟩ := exists_writeArgs_treeNamed Expr.jsonProperty fun p hp => ih p hp .json
    cases style with
    | shown => exact ⟨_, result_bind_of_ok hshown _⟩
    | pasted | json => exact ⟨_, result_bind_of_ok hjson _⟩

end Shape

namespace Store

/-- The store is well formed, and in the scope `k` the names of constants mean the constants. -/
structure Grounded (s : Store) (k : Nat) : Prop where
  wellFormed : s.WellFormed
  steady : ∀ p ∈ steady, s.valueOf? k p.1 = some p.2

theorem Grounded.load {k : Nat} (h : s.Grounded k) (shape : Shape) :
    (s.load shape).1.Grounded k := by
  have hreach : s.Reaches (s.load shape).1 := Tolerant.load s shape
  have hkept : s.Undisturbed (s.load shape).1 := Tolerant.load s shape
  refine ⟨hreach.wellFormed h.wellFormed, fun p hp => ?_⟩
  rw [hkept.valueOf?_eq h.wellFormed, h.steady p hp]

theorem Grounded.exists_cell {k : Nat} (h : s.Grounded k) (hp : p ∈ Store.steady) :
    ∃ c, s.find? k p.1 = some c ∧ s.cellValue c = p.2 := by
  have hvalue := h.steady p hp
  rwa [valueOf?, Option.map_eq_some_iff] at hvalue

end Store

namespace Act

variable {run : Run} {k depth : Nat} {w : World} {shape : Shape} {name : String}

/-! ### Evaluation -/

/-- The evaluation of the tree comes to putting the data into the store. -/
def Loads (run : Run) (k : Nat) (w : World) (shape : Shape) : Prop :=
  ∃ a, w.perform (run (.evaluate k shape.tree)) =
      (.ok a, { w with store := (w.store.load shape).1 }) ∧
    (w.store.load shape).1.deref a = (w.store.load shape).2

theorem Loads.perform_evaluateValue (h : Loads run k w shape) :
    w.perform (evaluateValue run k shape.tree) =
      (.ok (w.store.load shape).2, { w with store := (w.store.load shape).1 }) := by
  obtain ⟨a, ha, hderef⟩ := h
  rw [Act.perform_evaluateValue ha]
  exact congrArg (fun v => (Except.ok v, _)) hderef

/-- A constant that is written by its name. -/
theorem loads_lookup (hw : w.store.Grounded k) (hp : p ∈ Store.steady)
    (htree : shape.tree = .lookup p.1) (hload : w.store.load shape = (w.store, p.2)) (depth : Nat) :
    Loads (interpret (depth + 1)) k w shape := by
  obtain ⟨c, hc, hvalue⟩ := hw.exists_cell hp
  refine ⟨.cell c, ?_, ?_⟩
  · rw [htree, hload]
    exact perform_lookup hc depth
  · rwa [hload]

/-- Several trees of data, one after the other. -/
theorem perform_treeAll (h : ∀ e ∈ es, ∀ w : World, w.store.Grounded k → Loads run k w e)
    (w : World) (hw : w.store.Grounded k) :
    w.perform ((Shape.treeAll es).mapM (evaluateValue run k)) =
      (.ok (w.store.loadAll es).2, { w with store := (w.store.loadAll es).1 }) := by
  induction es generalizing w with
  | nil => rfl
  | cons e es ih =>
    obtain ⟨he, hes⟩ := forall_mem_cons.mp h
    have hrest := ih hes { w with store := (w.store.load e).1 } (hw.load e)
    rw [Shape.treeAll, mapM_cons, perform_bind_ok (he w hw).perform_evaluateValue,
      perform_bind_ok hrest]
    rfl

/-- `perform_treeAll` for named data. -/
theorem perform_treeNamed (h : ∀ p ∈ ps, ∀ w : World, w.store.Grounded k → Loads run k w p.2)
    (w : World) (hw : w.store.Grounded k) :
    w.perform (evaluateNamed run k (Shape.treeNamed ps)) =
      (.ok (w.store.loadNamed ps).2, { w with store := (w.store.loadNamed ps).1 }) := by
  induction ps generalizing w with
  | nil => rfl
  | cons p ps ih =>
    obtain ⟨hp, hps⟩ := forall_mem_cons.mp h
    have hrest := ih hps { w with store := (w.store.load p.2).1 } (hw.load p.2)
    rw [Shape.treeNamed, evaluateNamed,
      perform_bind_ok (hp w hw).perform_evaluateValue, perform_bind_ok hrest]
    rfl

/-- **The tree of data** is evaluated by putting the data into the store. -/
theorem loads_tree (h : shape.Saveable) (hdepth : shape.height < depth) (w : World)
    (hw : w.store.Grounded k) :
    Loads (interpret depth) k w shape := by
  induction h generalizing depth w with
  | null =>
    obtain ⟨depth, rfl⟩ := Nat.exists_eq_add_of_lt hdepth
    exact loads_lookup hw (p := ("null", .null)) (by simp [Store.steady]) rfl rfl _
  | bool b =>
    obtain ⟨depth, rfl⟩ := Nat.exists_eq_add_of_lt hdepth
    cases b with
    | true =>
      exact loads_lookup hw (p := ("true", .constant (.bool true))) (by simp [Store.steady]) rfl
        rfl _
    | false =>
      exact loads_lookup hw (p := ("false", .constant (.bool false))) (by simp [Store.steady])
        rfl rfl _
  | int n | text s =>
    obtain ⟨depth, rfl⟩ := Nat.exists_eq_add_of_lt hdepth
    exact ⟨.value _, rfl, rfl⟩
  | array es _ ih =>
    obtain ⟨depth, rfl⟩ := Nat.exists_eq_add_of_lt hdepth
    have hparts : ∀ e ∈ es, ∀ w : World, w.store.Grounded k →
        Loads (interpret (Shape.heightAll es + 1 + depth)) k w e := by
      intro e he w hw
      have hle := Shape.height_le_heightAll he
      exact ih e he (by omega) w hw
    refine ⟨.value (w.store.load (.array es)).2, ?_, rfl⟩
    exact perform_bind_ok (perform_treeAll hparts w hw) _
  | object ps _ _ _ ih =>
    obtain ⟨depth, rfl⟩ := Nat.exists_eq_add_of_lt hdepth
    have hparts : ∀ p ∈ ps, ∀ w : World, w.store.Grounded k →
        Loads (interpret (Shape.heightNamed ps + 1 + depth)) k w p.2 := by
      intro p hp w hw
      have hle := Shape.height_le_heightNamed hp
      exact ih p hp (by omega) w hw
    refine ⟨.value (w.store.load (.object ps)).2, ?_, rfl⟩
    exact perform_bind_ok (perform_treeNamed hparts w hw) _

/-! ### Statements -/

/-- A value that is written somewhere is still the value it was. -/
theorem deref_setCell_deref (s : Store) (c : Nat) (a : Answer) :
    (s.setCell c (s.deref a)).deref a = s.deref a := by
  cases a with
  | value v => rfl
  | cell d =>
    show (s.setCell c (s.cellValue d)).cellValue d = s.cellValue d
    by_cases hd : d = c
    · subst hd
      by_cases hlt : d < s.cells.size
      · exact Store.cellValue_setCell_self hlt _
      · simp [Store.cellValue, hlt]
    · exact Store.cellValue_setCell_of_ne hd _

/-- A name that a scope has already is written in its place. -/
theorem define_of_findName {c : Nat} (h : Store.findName name (s.scopeAt k).names = some c)
    (v : Value) :
    (s.define k name v).1 = s.setCell c v := by
  rw [Store.define, h]

/-- A declaration with data on its right side, up to the last result. -/
theorem perform_declaration (ht : w.store.Tidy k) (h : shape.Saveable)
    (hw : (w.store.define k name .null).1.Grounded k) (hdepth : shape.height + 1 < depth) :
    let loaded := (w.store.define k name .null).1.load shape
    ∃ a, w.perform (interpret depth (.evaluate k (.assign (.define name) shape.tree))) =
        (.ok a, { w with store := (loaded.1.define k name loaded.2).1 }) ∧
      (loaded.1.define k name loaded.2).1.deref a = loaded.2 := by
  intro loaded
  obtain ⟨depth, rfl⟩ : ∃ d, depth = d + 2 := ⟨depth - 2, by omega⟩
  obtain ⟨a, ha, hderef⟩ := loads_tree h (show shape.height < depth + 1 by omega)
    { w with store := (w.store.define k name .null).1 } hw
  have hdef := Store.define_spec ht.wellFormed ht.scope name .null
  -- The name is the scope's own, and loading the data has not changed that.
  have hown : Store.findName name (loaded.1.scopeAt k).names =
      some (w.store.define k name .null).2 := by
    rw [Store.scopeAt, Store.scopes_load]
    exact hdef.bound
  have hstore := define_of_findName hown loaded.2
  have hderef' : loaded.1.deref a = loaded.2 := hderef
  refine ⟨a, ?_, ?_⟩
  · rw [perform_assign (perform_define w ht.wellFormed ht.scope name depth), andWrite,
      perform_bind_ok ha, hstore, ← hderef']
    rfl
  · rw [hstore, ← hderef']
    exact deref_setCell_deref loaded.1 _ a

/-- The value of a declaration is not shown. -/
theorem perform_showResult (w : World) (k : Nat) {e : Expr} (he : e.printable = false)
    (a : Answer) : w.perform (showResult k e a) = (.ok (), w) := by
  have hshows : w.perform (showsResult k e) = (.ok false, w) := by
    rw [showsResult, perform_get_bind, perform_bind_ok (perform_scopeAt w k), he, Bool.and_false]
    rfl
  rw [showResult, perform_bind_ok hshows]
  rfl

/-- **A declaration as a statement**: the variable gets the data, and so does the last result. -/
theorem perform_runStatement (ht : w.store.Tidy k) (h : shape.Saveable)
    (hw : (w.store.define k name .null).1.Grounded k) (hdepth : shape.height + 1 < depth) :
    ∃ w', w.perform (runStatement (interpret depth) k (.assign (.define name) shape.tree)) =
        (.ok (), w') ∧
      w'.store = w.store.declare k name shape ∧ w'.streams = w.streams := by
  obtain ⟨right, hright⟩ := h.exists_write_tree .pasted
  have hshown : (Expr.shown (.assign (.define name) shape.tree)).result =
      .ok ("let " ++ name ++ " = " ++ right) :=
    result_bind_eq_ok_iff.mpr ⟨_, rfl, result_bind_of_ok hright _⟩
  obtain ⟨w₁, hw₁, hsaid₁⟩ := perform_ofTraced_of_ok hshown w
  obtain ⟨w₂, hw₂, hsaid₂⟩ :=
    prints_title (String.ofList (("let " ++ name ++ " = " ++ right).toList.take 30)) w₁
  have hsaid := hsaid₁.trans hsaid₂
  rw [← hsaid.store] at ht hw
  obtain ⟨a, ha, hderef⟩ := perform_declaration ht h hw hdepth
  refine ⟨{ w₂ with store := w₂.store.declare k name shape }, ?_, ?_, hsaid.streams⟩
  · rw [runStatement, perform_bind_ok hw₁, perform_bind_ok hw₂,
      perform_bind_ok ha, perform_bind_ok (perform_showResult _ k rfl a),
      perform_deref_bind, hderef]
    rfl
  · rw [hsaid.store]

end Act

end Parley
