import Parley.Proofs.Eval.Checking
import Parley.Proofs.Session.Saving
import Parley.Proofs.Store.Conversion

/-!
# Files that are written and read

A file holds what has been written to it, with everything that has been appended behind it. It is
read line by line. The lines keep their line feeds, and are then joined with line feeds, so that a
line feed is read as two of them unless nothing follows it.
-/

namespace Parley

open List

/-! ### Line feeds -/

variable {name : String} {texts : List (String × String)}

namespace Text

/-- The text with its line feeds written twice, but for one at the end. -/
def doubleFeeds : List Char → List Char
  | [] => []
  | [c] => [c]
  | c :: d :: rest => (if c = '\n' then [c, c] else [c]) ++ doubleFeeds (d :: rest)

theorem linesOf_ne_nil (c : Char) (cs : List Char) : linesOf (c :: cs) ≠ [] := by
  intro h
  cases h ▸ flatten_linesOf (c :: cs)

/-- The lines of a text, with line feeds between them. -/
theorem intercalate_linesOf (cs : List Char) :
    intercalate ['\n'] (linesOf cs) = doubleFeeds cs := by
  fun_induction doubleFeeds cs with
  | case1 => rfl
  | case2 c =>
    rw [linesOf]
    split
    · next hc => rw [hc]; rfl
    · rfl
  | case3 c d rest ih =>
    obtain ⟨line, lines, hlines⟩ := exists_cons_of_ne_nil (linesOf_ne_nil d rest)
    rw [hlines] at ih
    rw [linesOf, hlines]
    split
    · next hc =>
      rw [intercalate_cons_cons, ih, hc]
      rfl
    · rw [← ih]
      simp

theorem length_le_doubleFeeds (cs : List Char) : cs.length ≤ (doubleFeeds cs).length := by
  fun_induction doubleFeeds cs with
  | case1 | case2 c => exact Nat.le_refl _
  | case3 c d rest ih => grind

/-- A text without line feeds before its end stays as it is, and no other does. -/
theorem doubleFeeds_eq_self_iff (cs : List Char) : doubleFeeds cs = cs ↔ '\n' ∉ cs.dropLast := by
  fun_induction doubleFeeds cs with
  | case1 | case2 c => simp
  | case3 c d rest ih =>
    have hlength := length_le_doubleFeeds (d :: rest)
    split
    · next hc =>
      grind
    · next hc => simp [ih, Ne.symm hc]

end Text

theorem Act.joinedLines_eq (text : String) :
    joinedLines text = String.ofList (Text.doubleFeeds text.toList) := by
  rw [joinedLines, Text.joinWith, ← String.toList_inj, ← Text.intercalate_linesOf]
  simp

/-! ### Calls of the functions -/

/-- In the scope `file` is an object with the functions on files. -/
def Store.KnowsFiles (s : Store) (scope : Nat) : Prop :=
  ∃ address, s.valueOf? scope "file" = some (.object address) ∧
    ∀ f : FileFunction, ∃ c copy, findName f.name (s.objectAt address).cells = some c ∧
      s.cellValue c = .builtin (.file f) copy

namespace Act

variable {w w₁ : World} {scope : Nat} {path text : String} {d : Disk} {args : Args}

/-- Texts as the arguments of a call. -/
def textArgs (texts : List (String × String)) : Args :=
  texts.map fun t => (t.1, .value (.text t.2))

/-- The tree of a call of a function on files, with texts as its arguments. -/
def fileCall (f : FileFunction) (texts : List (String × String)) : Expr :=
  .call (.member (.lookup "file") f.name) (texts.map fun t => (t.1, .constant (.text t.2)))

/-- The function is found behind the point. -/
theorem perform_fileFunction (h : w.store.KnowsFiles scope) (f : FileFunction) (depth : Nat) :
    ∃ copy, w.perform (evaluateValue (interpret (depth + 2)) scope
      (.member (.lookup "file") f.name)) = (.ok (.builtin (.file f) copy), w) := by
  obtain ⟨address, hfile, hmembers⟩ := h
  obtain ⟨cell, hcell, hobject⟩ := Option.map_eq_some_iff.mp hfile
  obtain ⟨c, copy, hc, hvalue⟩ := hmembers f
  have hwhole : w.perform (evaluateValue (interpret (depth + 1)) scope (.lookup "file")) =
      (.ok (.object address), w) := by
    rw [perform_evaluateValue (perform_lookup hcell depth), ← hobject]
    rfl
  have hmember : w.perform (member scope (.object address) f.name) = (.ok (.cell c), w) := by
    rw [member, perform_getStore_bind, hc]
    rfl
  refine ⟨copy, ?_⟩
  rw [perform_evaluateValue ((perform_bind_ok hwhole _).trans hmember), ← hvalue]
  rfl

theorem perform_textArgs (texts : List (String × String)) (depth : Nat) (w : World) :
    w.perform (evaluateArgs (interpret (depth + 1)) scope
      (texts.map fun t => (t.1, .constant (.text t.2)))) = (.ok (textArgs texts), w) := by
  induction texts with
  | nil => rfl
  | cons t texts ih =>
    have ht : w.perform (interpret (depth + 1) (.evaluate scope (.constant (.text t.2)))) =
      (.ok (.value (.text t.2)), w) := rfl
    exact (perform_bind_ok ht _).trans (perform_bind_ok ih _)

theorem exists_lookup_textArgs (h : name ∈ texts.map Prod.fst) :
    ∃ text, (textArgs texts).lookup name = some (.value (.text text)) := by
  induction texts with
  | nil => cases h
  | cons t texts ih =>
    rw [textArgs, map_cons, lookup_cons]
    split
    · exact ⟨t.2, rfl⟩
    · next hne => exact ih ((mem_cons.mp h).resolve_left (by simpa using hne))

/-- A function on files that succeeds is called with success, and there is output at most besides
what it does. -/
theorem perform_fileCall (h : w.store.KnowsFiles scope) {f : FileFunction}
    (htexts : f.params = texts.map fun t => (t.1, "string")) (depth : Nat) :
    ∃ w₁, w.Said w₁ ∧ ∀ a w₂, w₁.perform (fileAction f (textArgs texts)) = (.ok a, w₂) →
      ∃ w₃, w₂.Said w₃ ∧
        w.perform (interpret (depth + 3) (.evaluate scope (fileCall f texts))) = (.ok a, w₃) := by
  obtain ⟨copy, hfunction⟩ := perform_fileFunction h f depth
  have hfits : ∀ p ∈ f.params, (textArgs texts).Fits w.store p := by
    rw [htexts, forall_mem_map]
    intro t ht
    obtain ⟨text, htext⟩ := exists_lookup_textArgs (mem_map_of_mem ht)
    have hstring : Params.wanted "string" = "string" := by decide
    refine Args.fits_of_lookup htext ?_
    rw [hstring]
    rfl
  obtain ⟨w₁, hsaid, hcall⟩ := perform_calls_builtin (.call ..) (perform_textArgs texts _ w)
    hfunction (by cases f <;> decide) hfits
  exact ⟨w₁, hsaid, fun a w₂ hrun => hcall _ _ (runBuiltin_of_ok rfl hrun)⟩

theorem perform_argPath (h : args.lookup name = some (.value (.text text))) :
    w.perform (argPath args name) = (.ok text, w) := by
  have hdata : (w.store.shape (.text text)).data = pure (.str text) := by
    rfl
  rw [argPath, perform_bind_ok (perform_argValue h)]
  exact perform_bind_ok (perform_data hdata) _

/-- The function that writes a file, or writes on behind its text. -/
def writer (after : Bool) : FileFunction :=
  if after then .append else .write

/-- The call that writes a file, or writes on behind its text. -/
def writing (after : Bool) (path text : String) : Expr :=
  fileCall (writer after) [("file", path), ("text", text)]

/-- The call that reads a file. -/
def reading (path : String) : Expr :=
  fileCall .read [("file", path)]

/-- **Writing**: what is on the disk is changed as asked for, and the store is not. -/
theorem perform_writing (h : w.store.KnowsFiles scope) {after : Bool}
    (hwrite : w.disk.write after path text = .ok d) (depth : Nat) :
    ∃ w', w'.store = w.store ∧ w'.disk = d ∧
      w.perform (interpret (depth + 3) (.evaluate scope (writing after path text))) =
        (.ok nothing, w') := by
  let texts := [("file", path), ("text", text)]
  have htexts : (writer after).params = texts.map fun t => (t.1, "string") := by
    cases after <;> rfl
  have hfile : (textArgs texts).lookup "file" = some (.value (.text path)) := rfl
  obtain ⟨w₁, hsaid, hcall⟩ := perform_fileCall h htexts depth
  have hrun : w₁.perform (fileAction (writer after) (textArgs texts)) =
      (.ok nothing, { w₁ with disk := d }) := by
    rw [fileAction, perform_bind_ok (perform_argPath hfile)]
    rw [← hsaid.disk] at hwrite
    cases after with
    | false | true =>
      exact (perform_bind_ok (perform_argPath rfl) _).trans
        (perform_bind_ok (perform_writeFile_eq_ok_iff.mpr ⟨d, hwrite, rfl⟩) _)
  obtain ⟨w₂, hsaid', hw₂⟩ := hcall _ _ hrun
  exact ⟨w₂, hsaid'.store.trans hsaid.store, hsaid'.disk, hw₂⟩

/-- **Reading**: the text of the file comes with its line feeds doubled. -/
theorem perform_readBack (h : w.store.KnowsFiles scope) (hread : w.disk.read path = .ok text)
    (depth : Nat) :
    ∃ w', w.Said w' ∧ w.perform (interpret (depth + 3) (.evaluate scope (reading path))) =
      (.ok (constant (.text (String.ofList (Text.doubleFeeds text.toList)))), w') := by
  let texts := [("file", path)]
  have htexts : FileFunction.read.params = texts.map fun t => (t.1, "string") := rfl
  have hpath : (textArgs texts).lookup "file" = some (.value (.text path)) := rfl
  obtain ⟨w₁, hsaid, hcall⟩ := perform_fileCall h htexts depth
  have hfile : w₁.perform (readFile path) = (.ok text, w₁) := by
    rw [readFile, perform_get_bind, hsaid.disk, hread]
    rfl
  have hrun : w₁.perform (fileAction .read (textArgs texts)) =
      (.ok (constant (.text (joinedLines text))), w₁) := by
    rw [fileAction, perform_bind_ok (perform_argPath hpath)]
    rw [perform_bind, perform_tryCatch, perform_bind_ok hfile]
    rfl
  obtain ⟨w₂, hsaid', hw₂⟩ := hcall _ _ hrun
  rw [joinedLines_eq] at hw₂
  exact ⟨w₂, hsaid.trans hsaid', hw₂⟩

/-- What is appended comes behind what has been written, in the order of the calls. -/
theorem perform_appends {d₀ : Disk} (hpath : d₀.Writable path) (us : List String)
    (h : w.store.KnowsFiles scope) (hdisk : w.disk = d₀.put path text) (last : Answer)
    (depth : Nat) :
    ∃ (w' : World) (last' : Answer), w'.store = w.store ∧
      w'.disk = d₀.put path (text ++ String.join us) ∧
      ∀ e, w.perform (evaluateBlock (interpret (depth + 3)) scope last
        (us.map (writing true path) ++ [e])) =
        w'.perform (evaluateBlock (interpret (depth + 3)) scope last' [e]) := by
  induction us generalizing w text last with
  | nil =>
    rw [String.join_nil, String.append_empty]
    exact ⟨w, last, rfl, hdisk, fun e => rfl⟩
  | cons u us ih =>
    have hwrite := hpath.append text u
    rw [← hdisk] at hwrite
    obtain ⟨w₁, hstore, hdisk₁, hw₁⟩ := perform_writing h hwrite depth
    obtain ⟨w', last', hstore', hdisk', hw'⟩ := ih (hstore ▸ h) hdisk₁ nothing
    rw [String.join_cons, ← String.append_assoc]
    exact ⟨w', last', hstore'.trans hstore, hdisk', fun e =>
      (perform_bind_ok hw₁ _).trans (hw' e)⟩

/-- **What is read is what has been written, with its line feeds doubled.** A text that is written
to a file and others that are appended are on the disk in order. If there is no carriage return in
them, they are read, too, but every line feed that is not the last character of all is read as two;
so what is read is what has been written if and only if there is no such line feed. -/
theorem reading_doubles_feeds (h : w.store.KnowsFiles scope) (hpath : w.disk.Writable path)
    (t : String) (us : List String) (hreturn : '\r' ∉ (t ++ String.join us).toList) (depth : Nat) :
    let whole := t ++ String.join us
    let read := String.ofList (Text.doubleFeeds whole.toList)
    (∃ w', w'.disk = w.disk.put path whole ∧ w.perform (interpret (depth + 4) (.evaluate scope
        (.block (writing false path t :: us.map (writing true path) ++ [reading path])))) =
          (.ok (constant (.text read)), w')) ∧
      (read = whole ↔ '\n' ∉ whole.toList.dropLast) := by
  intro whole read
  refine ⟨?_, ?_⟩
  · obtain ⟨w₁, hstore, hdisk, hw₁⟩ := perform_writing h (hpath.write t) depth
    obtain ⟨w₂, last, hstore', hdisk', hw₂⟩ :=
      perform_appends hpath us (hstore ▸ h) hdisk nothing depth
    have hread : w₂.disk.read path = .ok whole := by
      rw [hdisk', hpath.read, unifyNewlines_of_not_mem hreturn, String.ofList_toList]
    obtain ⟨w₃, hsaid, hw₃⟩ := perform_readBack (hstore' ▸ hstore ▸ h) hread depth
    refine ⟨w₃, hsaid.disk.trans hdisk', ?_⟩
    exact (perform_bind_ok hw₁ _).trans ((hw₂ _).trans (perform_bind_ok hw₃ _))
  · rw [← Text.doubleFeeds_eq_self_iff, ← String.toList_inj, String.toList_ofList]

/-- A world in which the functions on files are known. -/
def filesWorld : World :=
  let functions := FileFunction.all.map fun f => (f.name, Value.builtin (.file f) 0)
  let made := World.blank.store.newObject true functions .null
  { World.blank with store := (made.1.define 0 "file" made.2).1 }

/-- Two lines that are written one after the other are read as three. -/
theorem reading_doubles_feeds_lines :
    ∃ w', w'.disk = filesWorld.disk.put "f" "a\nb\n" ∧
      filesWorld.perform (interpret (0 + 4) (.evaluate 0
        (.block (writing false "f" "a\n" :: ["b\n"].map (writing true "f") ++ [reading "f"])))) =
          (.ok (constant (.text "a\n\nb\n")), w') := by
  have hfiles : filesWorld.store.KnowsFiles 0 :=
    ⟨0, rfl, fun f => by cases f <;> exact ⟨_, 0, rfl, rfl⟩⟩
  have hpath : filesWorld.disk.Writable "f" := ⟨by decide, by decide, by decide⟩
  exact (reading_doubles_feeds hfiles hpath "a\n" ["b\n"] (by decide) 0).1

end Act

end Parley
