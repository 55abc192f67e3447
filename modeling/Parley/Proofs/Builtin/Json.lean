import Parley.Proofs.Data.Json
import Parley.Proofs.Eval.Checking
import Parley.Proofs.Store.Conversion

/-!
# There and back through JSON

`tojson` writes a value as JSON and `parsejson` reads it. Null, truth values, integers with not too
many digits, texts, and arrays and objects of them come back as they were, if no text in them has a
character that would have to be escaped and is not. In names of properties nothing is escaped.

By induction on the value, its text renders the datum that the value has (`exists_documents`), so
the reader gives that datum, and in the store it becomes a value of the same shape. For a single
text the condition is necessary, too (`Json.parse_encoded_iff`).
-/

namespace Parley

open List Traced
open Json

/-! ### What is written -/

namespace Json

/-- The constants that come through when they are written as JSON and read again. -/
def Leaf : Constant → Prop
  | .null | .bool _ => True
  | .int n => n.natAbs.repr.length ≤ Number.digitLimit
  | .text s => ∀ c ∈ s.toList, Safe c
  | .float _ | .noText | .time _ | .set _ => False

/-- Names of properties that come through: they are different, as the names of an object are, and
nothing in them would have to be escaped. -/
def Names (names : List String) : Prop :=
  names.Nodup ∧ ∀ name ∈ names, ∀ c ∈ name.toList, Raw c

end Json

/-- Line feeds are escaped first, and then tabs. -/
theorem encoded_eq (cs : List Char) :
    encoded cs = (cs.flatMap fun c => if c = '\n' then ['\\', 'n'] else [c]).flatMap
      fun c => if c = '\t' then ['\\', 't'] else [c] := by
  rw [flatMap_assoc]
  refine congrArg (cs.flatMap ·) (funext fun c => ?_)
  by_cases hline : c = '\n'
  · rw [if_pos hline, if_pos hline]
    rfl
  · rw [if_neg hline, if_neg hline]
    exact (append_nil _).symm

/-- A text is written in quotes, with line feeds and tabs escaped. -/
theorem exists_json_text (s : String) : ∃ text, (Constant.text s).json.result = .ok text ∧
    text.toList = '"' :: (encoded s.toList ++ ['"']) := by
  refine ⟨_, rfl, ?_⟩
  have hlines : (Text.replaceAll "\n" "\\n" s).toList =
      s.toList.flatMap fun c => if c = '\n' then ['\\', 'n'] else [c] := by
    rw [Text.replaceAll_eq, String.toList_ofList]
    exact Text.replaced_singleton '\n' ['\\', 'n'] s.toList
  have hinner : (Text.replaceAll "\t" "\\t" (Text.replaceAll "\n" "\\n" s)).toList =
      encoded s.toList := by
    rw [Text.replaceAll_eq, String.toList_ofList, encoded_eq, ← hlines]
    exact Text.replaced_singleton '\t' ['\\', 't'] _
  rw [String.toList_append, String.toList_append, hinner]
  rfl

/-- The text of a value is read as its datum. -/
def Shape.Documents (s : Shape) (text : String) (d : Data) : Prop :=
  (s.write .json).result = .ok text ∧ s.Mirrors d ∧ Renders text.toList d

theorem documents_leaf {c : Constant} (h : Leaf c) :
    ∃ text d, Shape.Documents (.leaf (.constant c)) text d := by
  cases c with
  | null => exact ⟨"null", .null, rfl, ⟨rfl, rfl⟩, renders_null⟩
  | bool b => exact ⟨_, .bool b, rfl, ⟨rfl, rfl⟩, renders_bool b⟩
  | int n =>
    have htext : (Shape.write .json (.leaf (.constant (.int n)))).result = .ok (toString n) := by
      simp only [Shape.write, Shape.writeLeaf, Constant.write, Constant.json, Constant.shown,
        result_ofExcept, Token.intText_of_length_le h]
    exact ⟨toString n, .int n, htext, ⟨rfl, rfl⟩, renders_int h⟩
  | text s =>
    obtain ⟨text, hresult, htext⟩ := exists_json_text s
    refine ⟨text, .str s, hresult, ⟨rfl, rfl⟩, ?_⟩
    rw [htext]
    exact renders_text h
  | float | noText | time | set => cases h

theorem documents_array {es : List Shape} (h : ∀ e ∈ es, ∃ text d, e.Documents text d) :
    ∃ text d, (Shape.array es).Documents text d := by
  obtain ⟨parts, ds, hparts, hmirrors, hrenders⟩ : ∃ parts ds,
      (Shape.writeAll .json es).result = .ok parts ∧ Forall₂ Shape.Mirrors es ds ∧
        Forall₂ Renders (parts.map String.toList) ds := by
    induction es with
    | nil => exact ⟨[], [], rfl, .nil, .nil⟩
    | cons e es ih =>
      obtain ⟨⟨text, d, htext, hmirrors, hrenders⟩, hes⟩ := forall_mem_cons.mp h
      obtain ⟨parts, ds, hparts, hall, hall'⟩ := ih hes
      exact ⟨text :: parts, d :: ds, result_bind_eq_ok_iff.mpr ⟨text, htext,
        result_bind_of_ok hparts _⟩, .cons hmirrors hall,
        .cons hrenders hall'⟩
  refine ⟨_, .list ds, result_bind_of_ok hparts _, Shape.mirrors_array hmirrors, ?_⟩
  have hrender := renders_list hrenders
  rw [← toList_joinWith] at hrender
  simpa [Expr.arrayText] using hrender

theorem documents_object {ps : List (String × Shape)} (hnames : Names (ps.map Prod.fst))
    (h : ∀ p ∈ ps, ∃ text d, p.2.Documents text d) :
    ∃ text d, (Shape.object ps).Documents text d := by
  obtain ⟨hdistinct, hraw⟩ := hnames
  obtain ⟨parts, css, es, hparts, hcss, hmirrors, hrenders⟩ :
      ∃ (parts : List String) (css : List (String × List Char)) (es : Data.Entries),
        (Shape.writeProperties .json Expr.jsonProperty ps).result = .ok parts ∧
        parts.map String.toList = css.map (fun p => entryText p.1 p.2) ∧
        Forall₂ (fun p e => p.1 = e.1 ∧ Shape.Mirrors p.2 e.2) ps es ∧
        Forall₂ RendersEntry css es := by
    clear hdistinct
    induction ps with
    | nil => exact ⟨[], [], [], rfl, rfl, .nil, .nil⟩
    | cons p ps ih =>
      obtain ⟨⟨text, d, htext, hmirrors, hrenders⟩, hps⟩ := forall_mem_cons.mp h
      obtain ⟨hname, hraw⟩ := forall_mem_cons.mp hraw
      obtain ⟨parts, css, es, hparts, hcss, hall, hall'⟩ := ih hps hraw
      refine ⟨Expr.jsonProperty p.1 text :: parts, (p.1, text.toList) :: css, (p.1, d) :: es,
        result_bind_eq_ok_iff.mpr ⟨text, htext, result_bind_of_ok hparts _⟩, ?_,
        .cons ⟨rfl, hmirrors⟩ hall, .cons ⟨rfl, hname, hrenders⟩ hall'⟩
      rw [map_cons, hcss]
      simp [Expr.jsonProperty, entryText]
  have hkeys : ps.map Prod.fst = es.map Prod.fst := by
    rw [← forall₂_eq_eq_eq, forall₂_map_left_iff, forall₂_map_right_iff]
    exact hmirrors.imp fun _ _ h => h.1
  refine ⟨_, .dict es, result_bind_of_ok hparts _, Shape.mirrors_object hmirrors, ?_⟩
  have hrender := renders_dict hrenders (hkeys ▸ hdistinct)
  rw [entriesText, ← hcss, ← toList_joinWith] at hrender
  simpa [Expr.objectText] using hrender

/-- **What comes through** is written in such a way that it is read as its datum. -/
theorem exists_documents {s : Shape} (h : s.MadeOf Leaf Names) :
    ∃ text d, s.Documents text d := by
  induction h with
  | leaf c hc => exact documents_leaf hc
  | array es _ ih => exact documents_array ih
  | object ps hnames _ ih => exact documents_object hnames ih

/-! ### The two functions -/

/-- Whatever has a shape of constants fits every parameter that takes anything. -/
theorem hasType_any_of_madeOf {leaf : Constant → Prop} {names : List String → Prop} {s : Store}
    {v : Value} (h : (s.shape v).MadeOf leaf names) : v.hasType "any" = true := by
  cases v with
  | setting text =>
    cases h
  | _ => rfl

namespace Act

variable {w w₁ : World} {scope depth : Nat} {e : Expr} {a : Answer} {text : String}

/-- `tojson` gives the text of its argument. -/
theorem perform_tojson (he : w.perform (interpret (depth + 1) (.evaluate scope e)) = (.ok a, w₁))
    (hname : w₁.store.Means scope "tojson" (.core .tojson))
    (htype : (w₁.store.deref a).hasType "any" = true)
    (htext : ((w₁.store.shape (w₁.store.deref a)).write .json).result = .ok text) :
    ∃ w₂, w₁.Said w₂ ∧ w.perform (interpret (depth + 2)
      (.evaluate scope (.call (.lookup "tojson") [("val", e)]))) =
        (.ok (.value (.text text)), w₂) := by
  have hparams : CoreFunction.tojson.params = [("val", "any")] := rfl
  refine perform_call_core rfl hparams (by decide) he hname htype fun w₂ hstore => ?_
  rw [← hstore] at htext
  obtain ⟨w₃, hw₃, hsaid⟩ := perform_ofTraced_of_ok htext w₂
  have hwritten : w₂.perform (written .json (w₂.store.deref a)) = (.ok text, w₃) := by
    rw [written, perform_getStore_bind, hw₃]
  exact ⟨w₃, hsaid, (perform_bind_ok (perform_argValue rfl) _).trans
    (perform_bind_ok hwritten _)⟩

/-- `parsejson` puts the datum of a text into the store, or fails if the text is refused. -/
theorem perform_parsejson
    (he : w.perform (interpret (depth + 1) (.evaluate scope e)) = (.ok (.value (.text text)), w₁))
    (hname : w₁.store.Means scope "parsejson" (.core .parsejson)) :
    (∀ d s, Json.parse text = .ok d → Shape.ofData d = .ok s →
      ∃ w₂, w₂.store = (w₁.store.load s).1 ∧ w.perform (interpret (depth + 2)
        (.evaluate scope (.call (.lookup "parsejson") [("str", e)]))) =
          (.ok (.value (w₁.store.load s).2), w₂)) ∧
    (∀ problem, Json.parse text = .error problem → ∃ fault w₂, w.perform (interpret (depth + 2)
        (.evaluate scope (.call (.lookup "parsejson") [("str", e)]))) = (.error fault, w₂)) := by
  obtain ⟨w₂, hsaid, hcall⟩ :=
    perform_call_builtin rfl (by decide) he hname rfl
  have hcore : w₂.perform (core (interpret depth) scope .parsejson [("str", .value (.text text))]) =
      w₂.perform (ofResult (Json.read text) >>= fun d => load d >>= fun v => pure (.value v)) := rfl
  refine ⟨fun d s hparse hs => ?_, fun problem hparse => ?_⟩
  · have hread : Json.read text = .ok d := by rw [Json.read, hparse]
    have hload := perform_load hs w₂
    have hok : w₂.perform (core (interpret depth) scope .parsejson [("str", .value (.text text))]) =
        (.ok (.value (w₂.store.load s).2), { w₂ with store := (w₂.store.load s).1 }) := by
      rw [hcore, hread]
      exact perform_bind_ok hload _
    have hbody : w₂.perform (body (interpret depth) scope [("str", .value (.text text))]
        (.core .parsejson)) =
        (.ok (.value (w₂.store.load s).2), { w₂ with store := (w₂.store.load s).1 }) :=
      perform_bind_ok hok _
    obtain ⟨w₄, hsaid', hw₄⟩ := hcall _ _ (runBuiltin_of_ok rfl hbody)
    rw [hsaid.store] at hsaid' hw₄
    exact ⟨w₄, hsaid'.store, hw₄⟩
  · have hread : Json.read text = .error (problem.toFault text) := by rw [Json.read, hparse]
    have hfail : w₂.perform (core (interpret depth) scope .parsejson
        [("str", .value (.text text))]) = (.error (problem.toFault text), w₂) := by
      rw [hcore, hread]
      rfl
    have hbody : w₂.perform (body (interpret depth) scope [("str", .value (.text text))]
        (.core .parsejson)) = (.error (problem.toFault text), w₂) := by
      rw [body, perform_bind, hfail]
    obtain ⟨fault, w₃, hrun⟩ := runBuiltin_of_error rfl hbody
    obtain ⟨w₄, -, hw₄⟩ := hcall _ _ hrun
    exact ⟨fault, w₄, hw₄⟩

/-- `parsejson(str: tojson(val: e))`. -/
def jsonTrip (e : Expr) : Expr :=
  .call (.lookup "parsejson") [("str", .call (.lookup "tojson") [("val", e)])]

/-- **Which values come back from JSON.** Take an expression that gives a value made of null, truth
values, integers with not too many digits and texts, in which quotes, backslashes and the control
characters other than line feeds and tabs do not occur, with no control character at all in the
names of properties. Written as JSON and read again, the value has the same shape as before. A
single text comes back as it was only if it is of this kind. -/
theorem json_round_trip (he : w.perform (interpret (depth + 1) (.evaluate scope e)) = (.ok a, w₁))
    (hwriter : w₁.store.Means scope "tojson" (.core .tojson))
    (hreader : w₁.store.Means scope "parsejson" (.core .parsejson)) :
    ((w₁.store.shape (w₁.store.deref a)).MadeOf Json.Leaf Json.Names →
      ∃ v w₂, w.perform (interpret (depth + 3) (.evaluate scope (jsonTrip e))) =
        (.ok (.value v), w₂) ∧ w₂.store.shape v = w₁.store.shape (w₁.store.deref a)) ∧
    (∀ s, w₁.store.deref a = .text s →
      ((∃ w₂, w.perform (interpret (depth + 3) (.evaluate scope (jsonTrip e))) =
        (.ok (.value (.text s)), w₂)) ↔ ∀ c ∈ s.toList, Json.Safe c)) := by
  refine ⟨fun hmade => ?_, fun s hs => ?_⟩
  · obtain ⟨text, d, htext, hmirrors, hrenders⟩ := exists_documents hmade
    obtain ⟨w₂, hsaid, hw₂⟩ := perform_tojson he hwriter (hasType_any_of_madeOf hmade) htext
    rw [← hsaid.store] at hreader
    obtain ⟨w₃, hstore, hw₃⟩ := (perform_parsejson hw₂ hreader).1 d _ (parse_of_renders hrenders)
      hmirrors.ofData
    refine ⟨_, w₃, hw₃, ?_⟩
    rw [hstore]
    exact Store.shape_load hmade w₂.store
  · obtain ⟨text, htext, hquoted⟩ := exists_json_text s
    have hwrite : ((w₁.store.shape (w₁.store.deref a)).write .json).result = .ok text := by
      rwa [hs]
    obtain ⟨w₂, hsaid, hw₂⟩ := perform_tojson he hwriter (by rw [hs]; rfl) hwrite
    rw [← hsaid.store] at hreader
    obtain ⟨hgood, hbad⟩ := perform_parsejson hw₂ hreader
    rw [← parse_encoded_iff hquoted]
    constructor
    · rintro ⟨w₃, hw₃⟩
      cases hparse : Json.parse text with
      | error problem =>
        obtain ⟨fault, w₄, hw₄⟩ := hbad problem hparse
        cases hw₄.symm.trans hw₃
      | ok d =>
        obtain ⟨s', rfl⟩ := exists_str_of_parse hquoted hparse
        obtain ⟨w₄, -, hw₄⟩ := hgood _ _ hparse rfl
        cases hw₄.symm.trans hw₃
        rfl
    · intro hparse
      obtain ⟨w₃, -, hw₃⟩ := hgood _ _ hparse rfl
      exact ⟨w₃, hw₃⟩

/-- A world in which the two functions have their names. -/
def jsonWorld : World :=
  let named := World.blank.store.define 0 "tojson" (.builtin (.core .tojson) 0)
  { World.blank with store := (named.1.define 0 "parsejson" (.builtin (.core .parsejson) 0)).1 }

/-- An array with an object in it comes back, and a quote does not. -/
theorem json_round_trip_array :
    let e := Expr.array [.constant (.int (-5)), .object [("k", .constant (.text "x\ny"))]]
    let w := (jsonWorld.perform (interpret 3 (.evaluate 0 e))).2
    (w.store.shape (.array 0)).MadeOf Json.Leaf Json.Names ∧
      (∃ v w', jsonWorld.perform (interpret 5 (.evaluate 0 (jsonTrip e))) = (.ok (.value v), w') ∧
        w'.store.shape v = w.store.shape (.array 0)) ∧
      ¬ ∃ w', jsonWorld.perform (interpret 5 (.evaluate 0 (jsonTrip (.constant (.text "\""))))) =
        (.ok (.value (.text "\"")), w') := by
  intro e w
  have he : jsonWorld.perform (interpret (2 + 1) (.evaluate 0 e)) =
      (.ok (.value (.array 0)), w) := rfl
  have hquote : jsonWorld.perform (interpret (2 + 1) (.evaluate 0 (.constant (.text "\"")))) =
      (.ok (.value (.text "\"")), jsonWorld) := rfl
  have hmade : (w.store.shape (.array 0)).MadeOf Json.Leaf Json.Names := by
    refine .array [.leaf (.constant (.int (-5))), .object [("k", .leaf (.text "x\ny"))]]
      (forall_mem_cons.mpr ⟨.leaf _ ?_, forall_mem_singleton.mpr (.object _ ?_ ?_)⟩)
    · show (5).repr.length ≤ Number.digitLimit
      decide
    · exact ⟨by decide, by decide⟩
    · refine forall_mem_singleton.mpr (.leaf (.text "x\ny") ?_)
      show ∀ c ∈ "x\ny".toList, Json.Safe c
      decide
  refine ⟨hmade, (json_round_trip he ⟨0, rfl⟩ ⟨0, rfl⟩).1 hmade, fun h => ?_⟩
  have hsafe := ((json_round_trip hquote ⟨0, rfl⟩ ⟨0, rfl⟩).2 "\"" rfl).mp h
  exact absurd (hsafe '"' (by decide)) (by decide)

end Act

end Parley
