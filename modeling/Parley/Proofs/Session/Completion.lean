import Parley.Completion
import Parley.Proofs.Eval.Parameters
import Parley.Proofs.World.Voice

/-!
# Completion of paths

A path of names leads from a variable through objects, and after its last point a word is being
typed. One would expect to be offered the properties of the last object that begin like the word.
This is what happens if there is no name between the variable and the word. Otherwise a property has
to be looked up on the way. What is found is the cell of the property, and a cell has neither
properties nor a way to look them up: completion fails, says so in the middle of the line that is
being typed, and offers nothing.
-/

namespace Parley

open List

namespace Completion

variable {c : Char}

theorem all_of_isName {cs : List Char} (h : isName cs = true) (hc : c ∈ cs) :
    (c == '_' || c.isAlphanum) = true := by
  cases cs with
  | nil => cases hc
  | cons d cs =>
    obtain ⟨hstart, hmore⟩ := Bool.and_eq_true_iff.mp h
    rcases mem_cons.mp hc with rfl | hc
    · simp only [beginsName, Bool.or_eq_true] at hstart
      simp only [Bool.or_eq_true, Char.isAlphanum]
      exact hstart.imp_right .inl
    · exact all_eq_true.mp hmore c hc

/-- A part of a path: a name, or nothing at all. -/
def IsPart (part : String) : Prop :=
  part = "" ∨ isName part.toList = true

theorem IsPart.not_mem {part : String} (h : IsPart part)
    (hc : (c == '_' || c.isAlphanum) = false) : c ∉ part.toList := by
  rcases h with rfl | h
  · exact not_mem_nil
  · intro hmem
    rw [all_of_isName h hmem] at hc
    cases hc

/-- Names with points between them hold no other characters. -/
theorem not_mem_intercalate {parts : List (List Char)} (hne : c ≠ '.')
    (h : ∀ part ∈ parts, c ∉ part) : c ∉ ['.'].intercalate parts := by
  induction parts with
  | nil => exact not_mem_nil
  | cons part parts ih =>
    obtain ⟨hpart, hparts⟩ := forall_mem_cons.mp h
    cases parts with
    | nil => simpa using hpart
    | cons next parts =>
      simp [hpart, hne, ih hparts]

/-- **A path is taken apart into its names.** -/
theorem pathIn?_joinWith {v : String} (hv : isName v.toList = true) {parts : List String}
    (hparts : ∀ part ∈ parts, IsPart part) :
    pathIn? (Text.joinWith "." (v :: parts)) = some (v :: parts) := by
  have hall : ∀ part ∈ v :: parts, IsPart part := forall_mem_cons.mpr ⟨.inr hv, hparts⟩
  have hmem {c : Char} (hc : (c == '_' || c.isAlphanum) = false) :
      ∀ part ∈ (v :: parts).map String.toList, c ∉ part := by
    simpa using fun part hpart => (hall part hpart).not_mem hc
  have hlist : (Text.joinWith "." (v :: parts)).toList =
      ['.'].intercalate ((v :: parts).map String.toList) := String.toList_intercalate
  have hcut : Text.cutAt '.' (['.'].intercalate ((v :: parts).map String.toList)) =
      (v :: parts).map String.toList := by
    rw [Text.cutAt_eq_splitOn]
    exact splitOn_intercalate '.' (hmem (by decide)) (by simp)
  have hfeed := not_mem_intercalate (c := '\n') (by decide) (hmem (by decide))
  rw [pathIn?, hlist]
  generalize hcs : ['.'].intercalate ((v :: parts).map String.toList) = cs at *
  have hpath : isPath cs = true := by
    rw [isPath, hcut]
    simp only [map_cons, hv, Bool.true_and, all_map, all_eq_true]
    intro part hpart
    rcases hparts part hpart with rfl | hname
    · rfl
    · simp [hname]
  cases cs with
  | nil => cases hpath
  | cons c cs =>
    have hend : ∀ rest, (c :: cs).reverse ≠ '\n' :: rest := by
      intro rest hrest
      exact hfeed (mem_reverse.mp (hrest ▸ mem_cons_self))
    split
    · next rest hrest => exact absurd hrest (hend rest)
    · rw [pathEnding?, if_pos hpath, Option.map_some, hcut]
      simp

end Completion

/-! ### What is expected -/

namespace Store

/-- The names lead from one object to another: each is the name of a property that holds the next
object. -/
inductive Leads (s : Store) : Nat → List String → Nat → Prop
  | here (o : Nat) : Leads s o [] o
  | through {o c next last : Nat} {p : String} {ps : List String}
      (hp : findName p (s.objectAt o).cells = some c) (hc : s.cellValue c = .object next)
      (h : Leads s next ps last) : Leads s o (p :: ps) last

/-- The properties of an object that begin like a word, each with the path before it. -/
def offers (s : Store) (path : List String) (o : Nat) (word : String) : List String :=
  (((s.objectAt o).cells.map Prod.fst).filter fun n => Text.beginsWith word.toList n.toList).map
    fun n => Text.joinWith "." path ++ "." ++ n

end Store

namespace Act

open Completion (isName IsPart)

variable {w : World} {scope o last c : Nat} {v q p : String} {ps : List String}

/-- What a cell is asked for in vain: the names of its properties, or the next one of them. -/
def askedOfCell : List String → String
  | [] => "properties"
  | _ => "get"

theorem memberOf_object (hp : Store.findName p (w.store.objectAt o).cells = some c) :
    w.perform (memberOf scope (.value (.object o)) p) = (.ok (.cell c), w) := by
  show w.perform (getStore (fun s => s.objectAt o) >>= _) = _
  rw [perform_getStore_bind, hp]
  rfl

/-- **Suggestions behind a variable.** -/
theorem perform_suggestions_variable
    (hpath : Completion.pathIn? (Text.joinWith "." [v, q]) = some [v, q])
    (hv : w.store.valueOf? scope v = some (.object o)) :
    w.perform (suggestions scope (Text.joinWith "." [v, q])) =
      (.ok (w.store.offers [v] o q), w) := by
  obtain ⟨c, hc, hvalue⟩ := Option.map_eq_some_iff.mp hv
  rw [suggestions, perform_bind_ok (perform_scopeAt ..), hpath]
  rw [perform_bind_ok (perform_lookupValue hc), hvalue]
  rfl

/-- **Suggestions behind a property.** -/
theorem perform_suggestions_property
    (hpath : Completion.pathIn? (Text.joinWith "." (v :: p :: (ps ++ [q]))) =
      some (v :: p :: (ps ++ [q])))
    (hv : w.store.valueOf? scope v = some (.object o))
    (hp : Store.findName p (w.store.objectAt o).cells = some c) (hne : ∀ name ∈ p :: ps, name ≠ "") :
    w.perform (suggestions scope (Text.joinWith "." (v :: p :: (ps ++ [q])))) =
      (.error (.noAttribute "Cell" (askedOfCell ps)), w) := by
  obtain ⟨d, hd, hvalue⟩ := Option.map_eq_some_iff.mp hv
  have hinner : (p :: (ps ++ [q])).dropLast = p :: ps := by
    rw [← cons_append, dropLast_concat]
  obtain ⟨hhead, htail⟩ := forall_mem_cons.mp hne
  rw [suggestions, perform_bind_ok (perform_scopeAt ..), hpath]
  dsimp only
  rw [perform_bind_ok (perform_lookupValue hd), hvalue, hinner, followPath,
    if_neg (by simpa using hhead), bind_assoc, perform_bind_ok (memberOf_object hp)]
  -- The cell that has been found is as far as the path goes.
  cases ps with
  | nil => rfl
  | cons next ps =>
    rw [followPath, if_neg (by simpa using htail next mem_cons_self)]
    rfl

theorem perform_completions (text : String) :
    w.perform (completions scope text) = match w.perform (suggestions scope text) with
      | (.ok names, w') => (.ok names, w')
      | (.error fault, w') => (.ok [], w'.saying ("ex: " ++ fault.message ++ "\n")) := by
  rw [completions, perform_bind, perform_tryCatch, perform_bind]
  rcases w.perform (suggestions scope text) with ⟨_ | names, w'⟩ <;> rfl

/-- **Completion works behind a variable and nowhere else.** For a path of names that leads from a
variable through objects, what is offered for a word is the properties of the last object that begin
like it, in their order and with the path before them, and nothing is printed, exactly if there is
no property on the path. If there is one, nothing is offered, and a message about a cell is printed. -/
theorem completions_path_iff (hname : isName v.toList = true)
    (hps : ∀ p ∈ ps, isName p.toList = true) (hq : IsPart q)
    (hv : w.store.valueOf? scope v = some (.object o)) (hleads : w.store.Leads o ps last) :
    let found := w.perform (completions scope (Text.joinWith "." (v :: (ps ++ [q]))))
    (found = (.ok (w.store.offers (v :: ps) last q), w) ↔ ps = []) ∧
      ∀ p more, ps = p :: more → found = (.ok [], w.saying
        ("ex: 'Cell' object has no attribute '" ++ askedOfCell more ++ "'\n")) := by
  intro found
  have hparts : ∀ part ∈ ps ++ [q], IsPart part :=
    forall_mem_append.mpr ⟨fun p hp => .inr (hps p hp), forall_mem_singleton.mpr hq⟩
  have hpath := Completion.pathIn?_joinWith hname hparts
  cases hleads with
  | here =>
    refine ⟨iff_of_true ?_ rfl, fun _ _ h => by cases h⟩
    show w.perform (completions scope (Text.joinWith "." [v, q])) = _
    rw [perform_completions, perform_suggestions_variable hpath hv]
  | @through _ c next _ p more hp hc hleads =>
    have hne : ∀ name ∈ p :: more, name ≠ "" := by
      rintro _ hmem rfl
      cases hps "" hmem
    have hfound : found = (.ok [], w.saying
        ("ex: 'Cell' object has no attribute '" ++ askedOfCell more ++ "'\n")) := by
      show w.perform (completions scope (Text.joinWith "." (v :: p :: (more ++ [q])))) = _
      rw [perform_completions, perform_suggestions_property hpath hv hp hne]
      cases more <;> rfl
    refine ⟨iff_of_false ?_ (cons_ne_nil p more), ?_⟩
    · intro hexpected
      have hsame := congrArg World.output (congrArg Prod.snd (hfound.symm.trans hexpected))
      rw [World.output_saying] at hsame
      simp at hsame
    · rintro _ _ ⟨⟩
      exact hfound

/-- A variable holds an object with a property `a` that is an object with a property `b`. The
properties of the variable are offered, and those of its property are not. -/
theorem completions_path_nested :
    let w := (World.blank.perform (interpret 4 (.evaluate 0 (.assign (.define "v")
      (.object [("a", .object [("b", .constant (.int 1))])]))))).2
    w.perform (completions 0 "v.") = (.ok ["v.a"], w) ∧ w.perform (completions 0 "v.a.b") =
        (.ok [], w.saying "ex: 'Cell' object has no attribute 'properties'\n") := by
  intro w
  have hv : w.store.valueOf? 0 "v" = some (.object 1) := rfl
  have hleads : w.store.Leads 1 ["a"] 0 := .through rfl rfl (.here 0)
  have hnone := (completions_path_iff rfl (by simp) (.inl rfl) hv (.here 1)).1.mpr rfl
  have hone := (completions_path_iff (q := "b") rfl (by decide) (.inr rfl) hv hleads).2 "a" [] rfl
  exact ⟨hnone, hone⟩

end Act

end Parley
