import Parley.Proofs.Eval.Declaration
import Parley.Proofs.Session.Rounds
import Parley.Proofs.Session.Saving
import Parley.Proofs.Session.Start

/-!
# Opening a saved session again

A session that has been saved is opened again by reading its file, one line after the other. The
first line is a comment. Each of the others is read as the declaration that it was written for, and
evaluating it adds the variable to those that are there already (`Resuming`). When all lines are
read, the session has the variables that were saved, in the same order and with the same data.
-/

namespace Parley

open List
open Grammar Token

/-! ### Lines and their tokens -/

variable {cs : List Char} {p : String × Shape} {depth rounds : Nat} {ts : List Token} {w' : World}
  {line : String}

theorem withoutLineFeed_of_toList (h : line.toList = cs ++ ['\n']) :
    Act.withoutLineFeed line = String.ofList cs := by
  rw [Act.withoutLineFeed, h]
  simp

/-- The line has these tokens, with or without the line feed at its end. -/
def HasTokens (line : String) (ts : List Token) : Prop :=
  scan line = .ok ts ∧ scan (Act.withoutLineFeed line) = .ok ts

/-- The line of a declaration has the tokens of the declaration. -/
theorem Declares.exists_tokens (h : Declares line p) :
    ∃ ts, Forall₂ TokenAlike (declarationTokens p) ts ∧ HasTokens line ts := by
  obtain ⟨cs, hcs, ⟨ts, halike, hscans⟩, -⟩ := h
  refine ⟨ts, halike, ?_, ?_⟩
  · have hscan := hscans ['\n'] [] (by decide) (scans_nil.blank (by decide))
    rwa [← hcs, append_nil] at hscan
  · have hscan := hscans [] [] rfl scans_nil
    rw [append_nil, append_nil] at hscan
    rwa [withoutLineFeed_of_toList hcs, scan_eq_ok_iff, String.toList_ofList]

/-- A declaration is read as one. -/
theorem Declares.exists_parse (h : Declares line p) (hp : p.2.Saveable) :
    ∃ ts, ts ≠ [] ∧ HasTokens line ts ∧
      (parse ts).result = .ok (.assign (.define p.1) p.2.tree) := by
  obtain ⟨ts, halike, hholds⟩ := h.exists_tokens
  refine ⟨ts, ?_, hholds, ?_⟩
  · rintro rfl
    cases halike
  · rw [← parse_alike halike]
    exact parse_declaration rfl rfl rfl (gives_of_saveable hp)

theorem scan_comment {s : String} (h : s.toList = '#' :: cs) : scan s = .ok [] := by
  rw [scan, h]
  show scanFrom ('#' :: cs) = .ok []
  rw [scanFrom]
  rfl

theorem hasTokens_sessionHead : HasTokens Act.sessionHead [] :=
  ⟨scan_comment rfl, scan_comment rfl⟩

namespace Act

/-! ### One round of the loop -/

variable {w : World} {k stream : Nat}

/-- A statement that is a declaration of data is read and evaluated. -/
theorem perform_takeTokens (ht : w.store.Tidy k) {name : String} {shape : Shape}
    (h : shape.Saveable) (hw : (w.store.define k name .null).1.Grounded k)
    (hdepth : shape.height + 1 < depth) (pending : List Token)
    (hparse : (parse ts).result = .ok (.assign (.define name) shape.tree)) :
    ∃ w', w.perform (takeTokens (interpret depth) k pending ts) = (.ok [], w') ∧
      w'.store = w.store.declare k name shape ∧ w'.streams = w.streams := by
  obtain ⟨w₁, hw₁, hsaid⟩ := prints_traceAll (parse ts).notes w
  rw [← hsaid.store] at ht hw
  obtain ⟨w₂, hw₂, hstore, hstreams⟩ := perform_runStatement ht h hw hdepth
  refine ⟨w₂, ?_, by rw [hstore, hsaid.store], hstreams.trans hsaid.streams⟩
  have hplaced (n : Nat) : (Expr.assign (.define name) shape.tree).placed n =
      (.assign (.define name) shape.tree, n) := by
    simp only [Expr.placed, Shape.placed_tree]
  have htry : w₁.perform (tryStatement (interpret depth) k (.assign (.define name) shape.tree)) =
      (.ok (), w₂) := by
    rw [tryStatement, perform_tryCatch, hw₂]
  rw [takeTokens, perform_bind_ok hw₁, hparse]
  rw [perform_withStore_bind]
  simp only [hplaced]
  rw [perform_bind_ok htry]
  rfl

/-- The session in the scope `k` is being built up again: these variables have been declared, and
these lines are left in the stream that it reads. -/
structure Resuming (w : World) (k stream : Nat) (lines : List String)
    (declared : List (String × Shape)) : Prop where
  rebuilt : w.store.Rebuilt k declared
  looping : (w.store.scopeAt k).looping = true
  input : (w.store.scopeAt k).input = stream
  lines : w.streams[stream]? = some (lines.map some)

variable {lines : List String} {declared : List (String × Shape)}

theorem Resuming.prompt (h : Resuming w k stream lines declared) :
    w.store.valueOf? k "*prompt" = some (.setting "$ ") :=
  h.rebuilt.steady ("*prompt", .setting "$ ") (by simp [Store.steady])

/-- Output changes nothing about it. -/
theorem Resuming.said (h : Resuming w k stream lines declared) (hsaid : w.Said w') :
    Resuming w' k stream lines declared := by
  obtain ⟨hrebuilt, hlooping, hinput, hlines⟩ := h
  rw [← hsaid.store] at hrebuilt hlooping hinput
  rw [← hsaid.streams] at hlines
  exact ⟨hrebuilt, hlooping, hinput, hlines⟩

/-- Reading a line takes it from the stream. -/
theorem Resuming.passed (h : Resuming w k stream (line :: lines) declared)
    (hpassed : w.Passed k w') : Resuming w' k stream lines declared := by
  refine ⟨hpassed.store ▸ h.rebuilt, hpassed.store ▸ h.looping, hpassed.store ▸ h.input, ?_⟩
  rw [hpassed.streams, h.input, Array.getElem?_modify, if_pos rfl, h.lines]
  rfl

/-- A round reads a line: the prompt can be written. -/
theorem Resuming.perform_readRound (h : Resuming w k stream lines declared) :
    ∃ w', w.Passed k w' ∧ ∀ run, w.perform (readRound run k []) =
      w'.perform (dealWith run k [] (w.reading k [])) := by
  obtain ⟨c, hc, -⟩ := Option.map_eq_some_iff.mp h.prompt
  have hprompt : w.prompt k [] = .ok "$ " := by
    rw [World.prompt, show World.promptName [] = "*prompt" from rfl, h.prompt]
    rfl
  have hname : w.store.find? k (World.promptName []) = some c := hc
  rcases perform_readRound_cases hname with ⟨f, w₁, hmute, -⟩ | ⟨-, hround⟩
  · cases hprompt.symm.trans hmute.2
  · exact hround

theorem Resuming.reading_line (h : Resuming w k stream (line :: lines) declared)
    (hline : HasTokens line ts) : w.reading k [] = .tokens ts := by
  have hleft : w.linesLeft k = some line :: lines.map some := by
    rw [World.linesLeft, h.input, h.lines]
    rfl
  have hscan : scan (if (w.store.scopeAt k).input = 0 then withoutLineFeed line else line) =
      .ok ts := by
    split
    · exact hline.2
    · exact hline.1
  rw [World.reading, World.nextLine, hleft]
  dsimp only
  rw [hscan]
  rfl

theorem Resuming.reading_atEnd (h : Resuming w k stream [] declared) : w.reading k [] = .atEnd := by
  rw [World.reading, World.nextLine, World.linesLeft, h.input, h.lines]
  rfl

/-- A line without tokens is passed over. -/
theorem perform_readRound_comment (h : Resuming w k stream (line :: lines) declared)
    (hline : HasTokens line []) (run : Run) :
    ∃ w', w.perform (readRound run k []) = (.ok [], w') ∧ Resuming w' k stream lines declared := by
  obtain ⟨w₁, hpassed, hround⟩ := h.perform_readRound
  obtain ⟨w₂, hw₂, hsaid⟩ := prints_trace ("tokenized: [" ++ Text.joinWith ", " [] ++ "]") w₁
  refine ⟨w₂, ?_, (h.passed hpassed).said hsaid⟩
  rw [hround, h.reading_line hline]
  exact perform_bind_ok hw₂ _

/-- **One line more**: a declaration is read and adds its variable to the session. -/
theorem perform_readRound_declaration (h : Resuming w k stream (line :: lines) declared)
    (hline : Declares line p) (hp : p.2.Saveable) (hname : p.1 ∉ declared.map Prod.fst)
    (hsteady : p.1 ∉ Store.steady.map Prod.fst) (hdepth : p.2.height + 1 < depth) :
    ∃ w', w.perform (readRound (interpret depth) k []) = (.ok [], w') ∧
      Resuming w' k stream lines (declared ++ [p]) := by
  obtain ⟨ts, hne, hholds, hparse⟩ := hline.exists_parse hp
  obtain ⟨w₁, hpassed, hround⟩ := h.perform_readRound
  obtain ⟨w₂, hw₂, hsaid⟩ :=
    prints_trace ("tokenized: [" ++ Text.joinWith ", " (ts.map Token.shown) ++ "]") w₁
  have h₂ := (h.passed hpassed).said hsaid
  have htidy := h₂.rebuilt.tidy
  have hgrounded : (w₂.store.define k p.1 .null).1.Grounded k := by
    refine ⟨(htidy.define p.1 .null).wellFormed, fun q hq => ?_⟩
    have hq' : q.1 ≠ p.1 := fun heq => hsteady (heq ▸ mem_map_of_mem hq)
    rw [htidy.valueOf?_define_of_ne hq', h₂.rebuilt.steady q hq]
  obtain ⟨w₃, hw₃, hstore, hstreams⟩ := perform_takeTokens htidy hp hgrounded hdepth [] hparse
  obtain ⟨names, hscope⟩ := htidy.exists_scopeAt_declare p.1 p.2
  refine ⟨w₃, ?_, ?_, ?_, ?_, ?_⟩
  · rw [hround, h.reading_line hholds, dealWith, perform_bind_ok hw₂,
      if_neg (by simpa using hne), hw₃]
  · rw [hstore]
    exact h₂.rebuilt.declare hp hname hsteady
  · rw [hstore, hscope]
    exact h₂.looping
  · rw [hstore, hscope]
    exact h₂.input
  · rw [hstreams]
    exact h₂.lines

/-- At the end of the input the loop is stopped. -/
theorem perform_readRound_atEnd (h : Resuming w k stream [] declared) (run : Run) :
    ∃ w', w.perform (readRound run k []) = (.ok [], w') ∧
      w'.store = w.store.modifyScope k fun sc => { sc with looping := false } := by
  obtain ⟨w₁, hpassed, hround⟩ := h.perform_readRound
  refine ⟨{ w₁ with store := w₁.store.modifyScope k fun sc => { sc with looping := false } },
    ?_, ?_⟩
  · rw [hround, h.reading_atEnd]
    rfl
  · rw [hpassed.store]

/-! ### The whole loop -/

/-- The end of the input ends the loop. -/
theorem perform_readStatements_atEnd (h : Resuming w k stream [] declared) (run : Run)
    (hrounds : 2 ≤ rounds) :
    ∃ w', w.perform (readStatements run k rounds []) = (.ok (), w') ∧
      w'.store.Rebuilt k declared := by
  obtain ⟨rounds, rfl⟩ := Nat.exists_eq_add_of_le' hrounds
  obtain ⟨w₁, hw₁, hstore⟩ := perform_readRound_atEnd h run
  have hlt := h.rebuilt.tidy.scope
  refine ⟨w₁, ?_, ?_⟩
  · have hstopped : (w₁.store.scopeAt k).looping = false := by
      rw [hstore, Store.scopeAt_modifyScope, if_pos ⟨rfl, hlt⟩]
    rw [perform_readStatements_round h.looping hw₁, readStatements, loopWith,
      perform_bind_ok (perform_scopeAt w₁ k), hstopped]
    rfl
  · rw [hstore]
    exact h.rebuilt.modifyScope k fun _ => ⟨rfl, rfl, rfl⟩

/-- **All lines that are left**: the session gets their variables. -/
theorem perform_readStatements {vars : List (String × Shape)}
    (h : Resuming w k stream lines declared) (hlines : Forall₂ Declares lines vars)
    (hdata : ∀ p ∈ vars, p.2.Saveable ∧ p.2.height + 1 < depth)
    (hsteady : ∀ p ∈ vars, p.1 ∉ Store.steady.map Prod.fst)
    (hnodup : ((declared ++ vars).map Prod.fst).Nodup) (hrounds : lines.length + 2 ≤ rounds) :
    ∃ w', w.perform (readStatements (interpret depth) k rounds []) = (.ok (), w') ∧
      w'.store.Rebuilt k (declared ++ vars) := by
  induction hlines generalizing w declared rounds with
  | nil =>
    rw [append_nil]
    exact perform_readStatements_atEnd h _ hrounds
  | @cons line p lines vars hline _ ih =>
    obtain ⟨⟨hp, hdepth⟩, hdata⟩ := forall_mem_cons.mp hdata
    obtain ⟨hps, hsteady⟩ := forall_mem_cons.mp hsteady
    rw [length_cons] at hrounds
    obtain ⟨rounds, rfl⟩ : ∃ n, rounds = n + 1 := ⟨rounds - 1, by omega⟩
    have hname : p.1 ∉ declared.map Prod.fst := by
      rw [map_append, nodup_append'] at hnodup
      exact fun hmem => hnodup.2.2 hmem mem_cons_self
    obtain ⟨w₁, hw₁, h₁⟩ := perform_readRound_declaration h hline hp hname hps hdepth
    have happend : declared ++ p :: vars = declared ++ [p] ++ vars := by simp
    rw [happend] at hnodup ⊢
    rw [perform_readStatements_round h.looping hw₁]
    exact ih h₁ hdata hsteady hnodup (by omega)

end Act

/-! ### Saved sessions -/

/-- A shell that has just been started and reads its statements from a stream. -/
theorem resuming_start (x : Surroundings) {streams : Array (List (Option String))} {stream : Nat}
    {lines : List String} (h : streams[stream]? = some (lines.map some)) :
    Act.Resuming ({ World.start x with streams }.readFrom stream) (World.start x).session stream
      lines [] := by
  have hrebuilt := x.rebuilt_store
  have hlooping := x.looping_store
  unfold World.start
  generalize x.store = start at hrebuilt hlooping
  have hscope : ((start.1.modifyScope start.2.1 fun sc => { sc with input := stream }).scopeAt
      start.2.1) = { start.1.scopeAt start.2.1 with input := stream } := by
    rw [Store.scopeAt_modifyScope, if_pos ⟨rfl, hrebuilt.tidy.scope⟩]
  refine ⟨hrebuilt.modifyScope _ fun _ => ⟨rfl, rfl, rfl⟩, ?_, ?_, h⟩
  · exact (congrArg Scope.looping hscope).trans hlooping
  · exact congrArg Scope.input hscope

/-- What is saved has the name of no constant, unless there is a variable of that name. -/
theorem not_mem_steady_of_mem_savedVariables {s : Store} {k : Nat}
    (h : ∀ name ∈ ["null", "true", "false"], s.hasName k name = false) :
    ∀ p ∈ s.savedVariables k, p.1 ∉ Store.steady.map Prod.fst := by
  intro p hp hsteady
  obtain ⟨q, hq, rfl⟩ := mem_map.mp hp
  obtain ⟨hq, hname⟩ := mem_filter.mp hq
  have hprompt : q.1 ≠ "*prompt" := by
    intro heq
    rw [heq] at hname
    cases hname
  have hconstant : q.1 ∈ ["null", "true", "false"] := by
    have hmem : q.1 ∈ ["null", "true", "false"] ++ ["*prompt"] := hsteady
    rcases mem_append.mp hmem with hmem | hmem
    · exact hmem
    · exact absurd (mem_singleton.mp hmem) hprompt
  have hfree := h q.1 hconstant
  rw [Store.hasName, (Store.findName_isSome_iff q.1 _).mpr (mem_map_of_mem hq)] at hfree
  cases hfree

/-- **A saved session can be opened again.** Suppose the file of the session can be made, and the
scope of the session has no services, no variable called null, true or false, and behind every
proper name data that can be saved. Then the session is saved, and a shell that has just been
started and reads the lines of the file ends up with the variables that were saved, in the same
order and with the same data; the last result is its own. -/
theorem reopened_session {w w₁ : World} {scope : Nat} {args : Args} {path : String}
    (hbegin : w.perform (Act.beginSession scope args) = (.ok path, w₁))
    (hsaved : w₁.store.SavedAsData (Act.sessionScope w₁.store scope scope))
    (hnodup : ((w₁.store.scopeAt (Act.sessionScope w₁.store scope scope)).names.map Prod.fst).Nodup)
    (hconstants : ∀ name ∈ ["null", "true", "false"],
      w₁.store.hasName (Act.sessionScope w₁.store scope scope) name = false) :
    let saved := w₁.store.savedVariables (Act.sessionScope w₁.store scope scope)
    ∃ w₂ text, w.perform (Act.saveSession scope args) = (.ok (), w₂) ∧ w₂.store = w₁.store ∧
      w₂.disk.read path = .ok text ∧
      ∀ (x : Surroundings) (streams : Array (List (Option String))) (stream : Nat),
        streams[stream]? = some ((Text.linesOf text.toList).map (some ∘ String.ofList)) →
        ∀ depth rounds, (∀ p ∈ saved, p.2.height + 1 < depth) → saved.length + 3 ≤ rounds →
          ∃ w₃, ({ World.start x with streams }.readFrom stream).perform
              (Act.readStatements (Act.interpret depth) (World.start x).session rounds []) =
                (.ok (), w₃) ∧
            w₃.store.variableShapes (World.start x).session =
              saved.filter (·.1 != World.resultName) := by
  intro saved
  obtain ⟨w₂, text, lines, hsave, hstore, hread, htext, hlines⟩ :=
    Act.perform_saveSession hbegin hsaved
  refine ⟨w₂, text, hsave, hstore, hread, ?_⟩
  intro x streams stream hstream depth rounds hdepth hrounds
  have hnames : (saved.map Prod.fst).Nodup := by
    show ((w₁.store.savedVariables _).map Prod.fst).Nodup
    rw [Store.savedVariables, map_map]
    exact hnodup.sublist (filter_sublist.map Prod.fst)
  have hsteady := not_mem_steady_of_mem_savedVariables hconstants
  -- The first line is passed over, and the others are declarations.
  rw [← map_map, htext] at hstream
  have hstart := resuming_start x hstream
  obtain ⟨w', hw', hresuming⟩ :=
    Act.perform_readRound_comment hstart hasTokens_sessionHead (Act.interpret depth)
  obtain ⟨rounds, rfl⟩ : ∃ n, rounds = n + 1 := ⟨rounds - 1, by omega⟩
  have hlength : lines.length = saved.length := hlines.length_eq
  obtain ⟨w₃, hw₃, hrebuilt⟩ := Act.perform_readStatements hresuming hlines
    (fun p hp => ⟨hsaved.data p hp, hdepth p hp⟩) hsteady hnames
    (show lines.length + 2 ≤ rounds by omega)
  refine ⟨w₃, ?_, hrebuilt.variableShapes_eq hnames⟩
  rw [Act.perform_readStatements_round hstart.looping hw', hw₃]

/-! ### An example: the variable `a` is `[ \x7b k: "x\ny" \x7d, true, 7 ]` -/

/-- A scope with this variable, which is the last result, too. -/
def listScope : Scope where
  base := none
  names := [("a", 0), (World.resultName, 0)]
  table := 0
  global := true
  looping := true
  strict := false
  lastError := none
  input := 0

/-- A store with this scope. The last object holds the name of the session. -/
def listStore : Store where
  cells := #[.array 0, .object 0, .constant (.bool true), .constant (.int 7), .text "x\ny",
    .text "mine"]
  arrays := #[⟨true, [1, 2, 3]⟩]
  objects := #[⟨true, [("k", 4)], .null⟩, ⟨true, [("current", 5)], .null⟩]
  services := #[]
  scopes := #[listScope]
  tables := #[[]]
  captured := []
  fresh := 0

/-- A world with this store and an empty disk. -/
def listWorld : World :=
  { World.blank with
    store := listStore
    settings := 1
    disk := { root := "", working := "/", home := "/home", files := [], folders := [] } }

/-- The data of the variable. -/
def listShape : Shape :=
  .array [.object [("k", .leaf (.text "x\ny"))], .leaf (.constant (.bool true)),
    .leaf (.constant (.int (7 : Nat)))]

theorem saveable_listShape : listShape.Saveable := by
  have hk : IsName "k".toList := ⟨⟨'k', [], rfl, rfl, by decide⟩, rfl⟩
  have hseven : 7 < Number.tenTo Number.digitLimit := (lt_tenTo_iff (by decide)).mpr (by decide)
  have htext : Shape.Saveable (.leaf (.text "x\ny")) := .text _ (by decide) (by decide) (by decide)
  have hobject : Shape.Saveable (.object [("k", .leaf (.text "x\ny"))]) := by
    refine .object _ ?_ (by decide) ?_
    · exact forall_mem_singleton.mpr (scan_eq_name_iff.mpr hk)
    · exact forall_mem_singleton.mpr htext
  refine .array _ ?_
  simp only [forall_mem_cons]
  exact ⟨hobject, .bool true, .int 7 hseven, fun e he => absurd he not_mem_nil⟩

theorem savedAsData_listStore : listStore.SavedAsData 0 := by
  have hsaved : listStore.savedVariables 0 = [("a", listShape), (World.resultName, listShape)] :=
    rfl
  have ha : IsName "a".toList := ⟨⟨'a', [], rfl, rfl, by decide⟩, rfl⟩
  have hresult : IsName World.resultName.toList :=
    ⟨⟨'_', "_result".toList, rfl, rfl, by decide⟩, rfl⟩
  refine ⟨rfl, ?_, ?_⟩
  · rw [hsaved]
    simp only [forall_mem_cons]
    exact ⟨scan_eq_name_iff.mpr ha, scan_eq_name_iff.mpr hresult, fun p hp => absurd hp not_mem_nil⟩
  · rw [hsaved]
    simp only [forall_mem_cons]
    exact ⟨saveable_listShape, saveable_listShape, fun p hp => absurd hp not_mem_nil⟩

theorem reopened_session_list :
    ∃ w₁, listWorld.perform (Act.beginSession 0 []) = (.ok "/home/.restsh/mine.sess", w₁) ∧
      w₁.store = listStore ∧ listStore.SavedAsData 0 ∧
      ∃ w₂ text, listWorld.perform (Act.saveSession 0 []) = (.ok (), w₂) ∧
        w₂.disk.read "/home/.restsh/mine.sess" = .ok text ∧
        ∀ x : Surroundings, let lines := (Text.linesOf text.toList).map (some ∘ String.ofList)
          ∃ w₃, ({ World.start x with streams := #[lines] }.readFrom 0).perform
              (Act.readStatements (Act.interpret 4) (World.start x).session 5 []) = (.ok (), w₃) ∧
            w₃.store.variableShapes (World.start x).session = [("a", listShape)] := by
  have hbegin : listWorld.perform (Act.beginSession 0 []) =
      (.ok "/home/.restsh/mine.sess", (listWorld.perform (Act.beginSession 0 [])).2) := rfl
  obtain ⟨w₂, text, hsave, -, hread, hopen⟩ :=
    reopened_session hbegin savedAsData_listStore (by decide) (by decide)
  refine ⟨_, hbegin, rfl, savedAsData_listStore, w₂, text, hsave, hread, fun x => ?_⟩
  refine hopen x _ 0 rfl 4 5 ?_ (by decide)
  have hheight : listShape.height + 1 < 4 := by decide
  exact forall_mem_cons.mpr ⟨hheight, forall_mem_singleton.mpr hheight⟩

end Parley
