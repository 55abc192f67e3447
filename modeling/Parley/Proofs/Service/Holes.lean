import Parley.Proofs.Pattern.Literal
import Parley.Service.Template

/-!
# The holes of a template

Every parameter of a call has holes in the templates of the call: its name between dollar signs.
`fillHoles` fills the holes of all of them, as the declaration of the parameters promises. What
`fillTemplate` does is less. It always starts from the segment as it was written, so that of all the
parameters only the last one leaves its mark, and the holes of the others stay as they are
(`fillLast`). The two agree as long as a template has no hole but those of the last parameter.
-/

namespace Parley.Service

open List
open Parley.Text

/-- The hole of a parameter. -/
def hole (name : String) : String :=
  "$" ++ name ++ "$"

/-- The text that an argument gives; nothing if it has none. -/
def textOf (args : ArgTexts) (name : String) : String :=
  (argText args name).result.toOption.getD ""

/-- A segment with the holes of one parameter filled. -/
def fillHole (args : ArgTexts) (segment name : String) : String :=
  replaceAll (hole name) (textOf args name) segment

/-- A segment with the holes of all parameters filled. -/
def fillHoles (args : ArgTexts) (names : List String) (segment : String) : String :=
  names.foldl (fillHole args) segment

/-- A segment with the holes of the last parameter filled. -/
def fillLast (args : ArgTexts) (names : List String) (segment : String) : String :=
  (names.getLast?.map (fillHole args segment)).getD segment

/-- The parameter has a name of word characters, and its argument a text that stands for itself
when it is put in place of a hole. -/
structure Fillable (args : ArgTexts) (name : String) : Prop where
  word : ∀ c ∈ name.toList, isWord c = true
  given : ∃ text, (argText args name).result = .ok text ∧ '$' ∉ text.toList ∧ '\\' ∉ text.toList

variable {args : ArgTexts} {names : List String}

theorem result_fillSegment (h : ∀ name ∈ names, Fillable args name) (segment done : String) :
    (fillSegment args segment done names).result =
      .ok ((names.getLast?.map (fillHole args segment)).getD done) := by
  induction names generalizing done with
  | nil => rfl
  | cons name names ih =>
    obtain ⟨hword, text, htext, -, hplain⟩ := h name mem_cons_self
    have hfilled : Pattern.replace ("\\$" ++ name ++ "\\$") text segment =
        .ok (fillHole args segment name) := by
      rw [Pattern.replace_hole hword hplain, fillHole, textOf, htext]
      rfl
    rw [fillSegment, Traced.result_bind, htext]
    show (Traced.ofExcept _ >>= _ : Traced Fault String).result = _
    rw [hfilled]
    show (fillSegment args segment (fillHole args segment name) names).result = _
    rw [ih fun name hname => h name (mem_cons_of_mem _ hname)]
    cases names with
    | nil => rfl
    | cons name' names =>
      rfl

theorem result_fillSegments {params : List (String × Data)} (hnames : params.map Prod.fst = names)
    (h : ∀ name ∈ names, Fillable args name) (segments : List String) :
    (fillSegments args (.dict params) segments).result =
      .ok (segments.map (fillLast args names)) := by
  induction segments with
  | nil => rfl
  | cons segment segments ih =>
    show (fillSegment args segment segment (params.map Prod.fst) >>= _ : Traced _ _).result = _
    rw [hnames, Traced.result_bind, result_fillSegment h]
    show (fillSegments args (.dict params) segments >>= _ : Traced _ _).result = _
    rw [Traced.result_bind, ih]
    rfl

theorem occurs_append (before inner after : List Char) :
    Data.occurs inner (before ++ inner ++ after) = true := by
  induction before with
  | nil =>
    have hbegins : beginsWith inner (inner ++ after) = true := beginsWith_iff.mpr ⟨after, rfl⟩
    cases h : inner ++ after with
    | nil =>
      obtain ⟨rfl, rfl⟩ := append_eq_nil_iff.mp h
      rfl
    | cons c cs => rw [nil_append, h, Data.occurs, ← h, hbegins, Bool.true_or]
  | cons c before ih => rw [cons_append, cons_append, Data.occurs, ih, Bool.or_true]

/-- A hole that does not occur leaves the segment as it is. -/
theorem fillHole_of_not_occurs {segment name : String}
    (h : Data.occurs (hole name).toList segment.toList = false) :
    fillHole args segment name = segment := by
  rw [fillHole, replaceAll_eq, replaced_eq_self, String.ofList_toList]
  intro before after hsegment
  rw [hsegment, occurs_append] at h
  cases h

theorem fillHoles_eq_fillLast {segment : String}
    (h : ∀ name ∈ names.dropLast, Data.occurs (hole name).toList segment.toList = false) :
    fillHoles args names segment = fillLast args names segment := by
  cases hlast : names.getLast? with
  | none =>
    obtain rfl := getLast?_eq_none_iff.mp hlast
    rfl
  | some last =>
    obtain ⟨before, rfl⟩ := getLast?_eq_some_iff.mp hlast
    rw [dropLast_concat] at h
    have hbefore : before.foldl (fillHole args) segment = segment := by
      clear hlast
      induction before with
      | nil => rfl
      | cons name before ih =>
        rw [foldl_cons, fillHole_of_not_occurs (h name mem_cons_self)]
        exact ih fun name hname => h name (mem_cons_of_mem _ hname)
    rw [fillHoles, foldl_append, hbefore, fillLast, hlast]
    rfl

/-- **Of all the parameters only the last one is filled in.** If all parameters have names of word
characters, and arguments whose texts have no dollar sign and no backslash, then the template is cut
at `$$`, in every segment the holes of the last parameter are filled from left to right, and the
segments are joined by single dollar signs. So what has been promised, the filling of the holes of
all parameters, is done if no hole of another parameter occurs. -/
theorem fillTemplate_last (template : String) (params : List (String × Data)) (args : ArgTexts)
    (h : ∀ name ∈ params.map Prod.fst, Fillable args name) :
    (fillTemplate (.str template) (.dict params) args).result =
        .ok (joinWith "$" ((cutText "$$" template).map (fillLast args (params.map Prod.fst)))) ∧
      ((∀ segment ∈ cutText "$$" template, ∀ name ∈ (params.map Prod.fst).dropLast,
          Data.occurs (hole name).toList segment.toList = false) →
        (fillTemplate (.str template) (.dict params) args).result = .ok (joinWith "$"
            ((cutText "$$" template).map (fillHoles args (params.map Prod.fst))))) := by
  have hlast : (fillTemplate (.str template) (.dict params) args).result =
      .ok (joinWith "$" ((cutText "$$" template).map (fillLast args (params.map Prod.fst)))) := by
    show (fillSegments args (.dict params) (cutText "$$" template) >>= _ : Traced _ _).result = _
    rw [Traced.result_bind, result_fillSegments rfl h]
    rfl
  refine ⟨hlast, fun hholes => ?_⟩
  rw [hlast, map_congr_left fun segment hsegment =>
    (fillHoles_eq_fillLast (hholes segment hsegment)).symm]

/-- The template `$a$/$b$` with the arguments `1` and `2`: the hole of `a` stays as it is. -/
theorem fillTemplate_last_two :
    (∀ name ∈ ["a", "b"], Fillable [("a", pure "1"), ("b", pure "2")] name) ∧
      (fillTemplate (.str "$a$/$b$") (.dict [("a", .str "string"), ("b", .str "string")])
        [("a", pure "1"), ("b", pure "2")]).result = .ok "$a$/2" := by
  have hfillable : ∀ name ∈ ["a", "b"], Fillable [("a", pure "1"), ("b", pure "2")] name := by
    intro name hname
    rcases mem_cons.mp hname with rfl | hname
    · exact ⟨by decide, "1", rfl, by decide, by decide⟩
    · obtain rfl := mem_singleton.mp hname
      exact ⟨by decide, "2", rfl, by decide, by decide⟩
  have hlast := fillTemplate_last "$a$/$b$" [("a", .str "string"), ("b", .str "string")]
    [("a", pure "1"), ("b", pure "2")] hfillable
  exact ⟨hfillable, hlast.1.trans (congrArg Except.ok (by decide +kernel))⟩

end Parley.Service
