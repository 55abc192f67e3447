import Parley.Proofs.Eval.Checking
import Parley.Proofs.Session.Going

/-!
# The input of a scope after a file has been read

Two functions read the statements of a file in the scope that calls them: `source` reads any file,
`session.open` the file of a saved session. For that time the file is the input of the scope, and at
the end of the file its loop is stopped. After that both set the loop going again, whatever has
become of the statements; but only `session.open` gives the scope the input that it had. After
`source` the scope reads from the standard input. So a script that calls it is not read any further,
unless there was no file to read.
-/

namespace Parley

open Store (Tolerant WellFormed)

variable {w : World}

/-- The scopes are the same ones, and their loops are as they were. -/
structure Store.SameLoops (s s' : Store) : Prop where
  wellFormed : s.WellFormed → s'.WellFormed
  size : s'.scopes.size = s.scopes.size
  input : ∀ k, (s'.scopeAt k).input = (s.scopeAt k).input
  looping : ∀ k, (s'.scopeAt k).looping = (s.scopeAt k).looping

namespace Store.SameLoops

theorem refl (s : Store) : s.SameLoops s :=
  ⟨id, rfl, fun _ => rfl, fun _ => rfl⟩

theorem trans {a b c : Store} (h₁ : a.SameLoops b) (h₂ : b.SameLoops c) : a.SameLoops c :=
  ⟨fun h => h₂.wellFormed (h₁.wellFormed h), h₂.size.trans h₁.size,
    fun k => (h₂.input k).trans (h₁.input k), fun k => (h₂.looping k).trans (h₁.looping k)⟩

theorem of_deposit {s s' : Store} (h : Deposit s s') : s.SameLoops s' := by
  have hwf (hwf : s.WellFormed) : s'.WellFormed := hwf.addition h.addition
  cases h with
  | note k message =>
    refine ⟨hwf, by simp, fun j => ?_, fun j => ?_⟩
    · rw [scopeAt_modifyScope]
      split <;> rfl
    · rw [scopeAt_modifyScope]
      split <;> rfl
  | _ => exact ⟨hwf, rfl, fun _ => rfl, fun _ => rfl⟩

instance : Tolerant SameLoops := ⟨refl, trans, of_deposit⟩

theorem setCell (s : Store) (c : Nat) (v : Value) : s.SameLoops (s.setCell c v) :=
  ⟨fun h => h.setCell c v, rfl, fun _ => rfl, fun _ => rfl⟩

end Store.SameLoops

/-- The argument `file` is the name of a file that can be read. -/
def World.FindsFile (w : World) (args : Args) : Prop :=
  ∃ a path text, args.lookup "file" = some a ∧ w.store.deref a = .text path ∧
    w.disk.read (w.disk.expandHome path) = .ok text

theorem World.Said.findsFile_iff {w₁ : World} (h : w.Said w₁) (args : Args) :
    w₁.FindsFile args ↔ w.FindsFile args := by
  rw [World.FindsFile, World.FindsFile, h.store, h.disk]

namespace Act

open Store (SameLoops)

variable {α β : Type} {scope input depth : Nat} {args : Args} {x : Act α} {f rest : α → Act β}

/-- What leaves loops alone may come last. -/
theorem sameLoops_bind (x : Act α) (hf : ∀ a, Makes SameLoops (f a)) (w : World) :
    (w.perform x).2.store.SameLoops (w.perform (x >>= f)).2.store := by
  rw [perform_bind]
  rcases w.perform x with ⟨fault | a, w₁⟩
  · exact .refl _
  · exact hf a w₁

/-! ### Putting a loop right -/

/-- The loop of a scope is set going, with an input that has been chosen for it. -/
theorem perform_setLoop {rest : Act β} (hrest : Makes SameLoops rest)
    (hscope : scope < w.store.scopes.size) :
    let after := (w.perform (do
      modifyScope scope fun sc => { sc with input, looping := true }
      rest)).2.store.scopeAt scope
    after.input = input ∧ after.looping = true := by
  let w₁ : World :=
    { w with store := w.store.modifyScope scope fun sc => { sc with input, looping := true } }
  have hset : w₁.store.scopeAt scope = { w.store.scopeAt scope with input, looping := true } := by
    rw [Store.scopeAt_modifyScope, if_pos ⟨rfl, hscope⟩]
  have hloops : w₁.store.SameLoops (w₁.perform rest).2.store := hrest w₁
  exact ⟨(hloops.input scope).trans (by rw [hset]), (hloops.looping scope).trans (by rw [hset])⟩

/-- **A loop is put right** after an action that does not fail, whatever it has done. -/
theorem perform_restored (hx : ∀ s₀, Keeps (Holding (Reached s₀ scope)) x)
    (hsafe : ∀ w : World, ∃ a, (w.perform x).1 = .ok a) (hrest : ∀ a, Makes SameLoops (rest a))
    (hwf : w.store.WellFormed) (hscope : scope < w.store.scopes.size) :
    let after := (w.perform (do
      let a ← x
      modifyScope scope fun sc => { sc with input, looping := true }
      rest a)).2.store.scopeAt scope
    after.input = input ∧ after.looping = true := by
  obtain ⟨a, ha⟩ := hsafe w
  have hthere := ((hx w.store).holds ⟨.refl, hwf, hscope⟩).scope
  have hw₁ : w.perform x = (.ok a, (w.perform x).2) := Prod.ext ha rfl
  rw [perform_bind_ok hw₁]
  exact perform_setLoop (hrest a) hthere

/-- Whatever comes of the action, the scope has the input back that it had, and its loop is going if
it was. -/
def GivesBack (scope input : Nat) (x : Act α) : Prop :=
  ∀ w : World, w.store.WellFormed → scope < w.store.scopes.size →
    (w.store.scopeAt scope).input = input →
    let after := (w.perform x).2.store.scopeAt scope
    after.input = input ∧ ((w.store.scopeAt scope).looping = true → after.looping = true)

/-- An action that leaves loops alone may come first. -/
theorem GivesBack.after (hx : Makes SameLoops x)
    (hf : ∀ a, GivesBack scope input (f a)) : GivesBack scope input (x >>= f) := by
  intro w hwf hscope hinput
  have hloops := hx w
  rw [perform_bind]
  rcases hrun : w.perform x with ⟨fault | a, w₁⟩
  · rw [hrun] at hloops
    exact ⟨(hloops.input scope).trans hinput, (hloops.looping scope).trans⟩
  · rw [hrun] at hloops
    have hafter := hf a w₁ (hloops.wellFormed hwf) (hloops.size ▸ hscope)
      ((hloops.input scope).trans hinput)
    exact ⟨hafter.1, fun h => hafter.2 ((hloops.looping scope).trans h)⟩

/-- The input that the scope had is chosen. -/
theorem GivesBack.restored (hx : ∀ s₀, Keeps (Holding (Reached s₀ scope)) x)
    (hsafe : ∀ w : World, ∃ a, (w.perform x).1 = .ok a) (hrest : ∀ a, Makes SameLoops (rest a)) :
    GivesBack scope input (do
      let a ← x
      modifyScope scope fun sc => { sc with input, looping := true }
      rest a) := by
  intro w hwf hscope _
  obtain ⟨hinput, hlooping⟩ := perform_restored hx hsafe hrest hwf hscope
  exact ⟨hinput, fun _ => hlooping⟩

theorem makes_setCell (c : Nat) (v : Value) :
    Makes SameLoops (modifyStore fun s => s.setCell c v) :=
  fun w => .setCell w.store c v

/-! ### Sessions that are opened -/

/-- **A session that is opened gives the input back**, whatever becomes of its statements. -/
theorem openSession_givesBack (depth : Nat) (args : Args) :
    GivesBack scope input (openSession (interpret depth) scope args) := by
  refine .after (makes_of_keeps fun _ => Keeps.argValue args "name") fun v => ?_
  refine .after (makes_of_keeps fun _ => Keeps.sessionName v) fun name => ?_
  refine .after (makes_of_keeps fun _ => Keeps.sessionPath name) fun path => ?_
  intro w hwf hscope hinput
  rw [perform_bind_ok (perform_scopeAt ..), hinput]
  have hread (s₀ : Store) : Keeps (Holding (Reached s₀ scope)) (do
      let text ← readFile path
      let stream ← openText text
      modifyScope scope fun sc => { sc with input := stream }
      let _ ← interpret depth (.session scope)) := by
    have frame : Frame (Holding (Reached s₀ scope)) := (stepFrame s₀).frame () scope
    refine (Keeps.readFile path).bind fun text => (Keeps.openText text).bind fun stream => ?_
    refine Keeps.bind (Keeps.setInput (F := stepFrame s₀) (i := ()) stream) fun _ => ?_
    exact ((runs_reached s₀ depth).session () scope).bind fun _ => Keeps.pure _
  refine GivesBack.after (makes_of_keeps fun _ => Keeps.currentSession scope) (fun current => ?_)
    w hwf hscope hinput
  refine .after (makes_setCell current (.text name)) fun _ => ?_
  exact .restored (fun s₀ => (hread s₀).tryCatch fun _ => Keeps.pure _)
    (exists_perform_tryCatch · _ _) fun _ => makes_of_keeps fun _ => Keeps.pure _

/-! ### Files that are read -/

/-- **A file that is read leaves the standard input**, whatever becomes of its statements. -/
theorem perform_sourceFile {path text : String}
    (hread : w.disk.read (w.disk.expandHome path) = .ok text) (hwf : w.store.WellFormed)
    (hscope : scope < w.store.scopes.size) :
    let after := (w.perform (sourceFile (interpret depth) scope path)).2.store.scopeAt scope
    after.input = 0 ∧ after.looping = true := by
  have htext : w.perform (ofResult (w.disk.read (w.disk.expandHome path))) = (.ok text, w) := by
    rw [hread]
    rfl
  rw [sourceFile, perform_get_bind]
  rw [perform_bind_ok htext, openText,
    perform_bind_ok (perform_modifyGet ..), andThen, ← bind_assoc]
  refine perform_restored (fun s₀ => ?_) (fun w => ?_)
    (fun r => makes_of_keeps fun _ => Keeps.ofResult r) hwf hscope
  · refine Keeps.bind (Keeps.setInput (F := stepFrame s₀) (i := ()) _) fun _ => ?_
    refine Keeps.tryCatch ?_ fun f => Keeps.pure _
    exact ((runs_reached s₀ depth).session () scope).bind fun a => Keeps.pure _
  · exact exists_perform_tryCatch _ _ _

/-- The text of an argument is given without anything else being done, or it is a failure. -/
theorem perform_argString (args : Args) (name : String) (w : World) :
    (∃ a path, args.lookup name = some a ∧ w.store.deref a = .text path ∧
      w.perform (argString args name) = (.ok path, w)) ∨
    (∀ a path, args.lookup name = some a → w.store.deref a ≠ .text path) ∧
      ∃ fault, w.perform (argString args name) = (.error fault, w) := by
  cases ha : args.lookup name with
  | none =>
    refine .inr ⟨nofun, .missingKey name, ?_⟩
    rw [argString, argValue, argument, ha]
    rfl
  | some a =>
    rw [argString, perform_bind_ok (perform_argValue ha)]
    by_cases htext : ∃ path, w.store.deref a = .text path
    · obtain ⟨path, hpath⟩ := htext
      refine .inl ⟨a, path, rfl, hpath, ?_⟩
      rw [hpath]
      rfl
    · refine .inr ⟨?_, ?_⟩
      · rintro b path ⟨⟩ hpath
        exact htext ⟨path, hpath⟩
      · unfold textValue
        split
        · next path hpath => exact absurd ⟨path, hpath⟩ htext
        · exact ⟨_, rfl⟩
        · exact ⟨_, rfl⟩

/-- If there is no file to read, nothing is done. -/
theorem perform_source_of_not_findsFile (run : Run) (h : ¬ w.FindsFile args) :
    ∃ fault, w.perform (body run scope args (.core .source)) = (.error fault, w) := by
  have hcore : ∃ fault, w.perform (core run scope .source args) = (.error fault, w) := by
    rw [core]
    rcases perform_argString args "file" w with ⟨a, path, ha, hpath, hrun⟩ | ⟨-, fault, hrun⟩
    · rw [perform_bind_ok hrun, sourceFile, perform_get_bind]
      cases hread : w.disk.read (w.disk.expandHome path) with
      | ok text => exact absurd ⟨a, path, text, ha, hpath, hread⟩ h
      | error fault =>
        refine ⟨fault, ?_⟩
        dsimp only
        rw [hread]
        rfl
    · exact ⟨fault, by rw [perform_bind, hrun]⟩
  obtain ⟨fault, hcore⟩ := hcore
  exact ⟨fault, by rw [body, perform_bind, hcore]⟩

theorem perform_source_of_findsFile (h : w.FindsFile args) (hwf : w.store.WellFormed)
    (hscope : scope < w.store.scopes.size) :
    let after := (w.perform (body (interpret depth) scope args (.core .source))).2.store
    (after.scopeAt scope).input = 0 ∧ (after.scopeAt scope).looping = true := by
  obtain ⟨a, path, text, ha, hpath, hread⟩ := h
  rcases perform_argString args "file" w with ⟨b, path', hb, hpath', hrun⟩ | ⟨hnone, -⟩
  · obtain rfl := Option.some.inj (ha.symm.trans hb)
    obtain rfl : path = path' := Constant.text.inj (Value.constant.inj (hpath.symm.trans hpath'))
    have hcore : w.perform (core (interpret depth) scope .source args) =
        w.perform (sourceFile (interpret depth) scope path) :=
      perform_bind_ok hrun _
    have hloops : (w.perform (core (interpret depth) scope .source args)).2.store.SameLoops
        (w.perform (body (interpret depth) scope args (.core .source))).2.store :=
      sameLoops_bind _
        (fun a => makes_of_keeps fun _ => (Keeps.deref a).bind fun _ => Keeps.pure _) w
    obtain ⟨hinput, hlooping⟩ := hcore ▸ perform_sourceFile hread hwf hscope
    exact ⟨(hloops.input scope).trans hinput, (hloops.looping scope).trans hlooping⟩
  · exact absurd hpath (hnone a path ha)

/-! ### Calls -/

/-- To report a failure does nothing to loops. -/
theorem runBuiltin_sameLoops {f : Builtin} (hf : f.guarded) (run : Run) (scope : Nat) (args : Args)
    (w : World) :
    (w.perform (body run scope args f)).2.store.SameLoops
      (w.perform (runBuiltin run scope f args)).2.store := by
  rcases hbody : w.perform (body run scope args f) with ⟨fault | a, w₁⟩
  · rcases perform_runBuiltin hf hbody with hrun | ⟨m, -, hrun⟩
    · rw [hrun]
      have hreport : Makes SameLoops (reportFault scope fault : Act Answer) :=
        makes_of_keeps fun _ => Keeps.reportFault scope fault
      exact hreport w₁
    · rw [hrun]
      exact .refl _
  · rw [runBuiltin_of_ok hf hbody]
    exact .refl _

/-- **A call of a builtin function** is, as far as loops go, what the body of the function is, if
the arguments fit, and nothing otherwise. -/
theorem invoke_sameLoops {f : Builtin} (hf : f.guarded) (htypes : f.params.Ordinary) (copy : Nat)
    (depth scope : Nat) (args : Args) (w : World) :
    let after := (w.perform (invoke (interpret (depth + 1)) scope (.builtin f copy) args)).2.store
    ((Value.builtin f copy).Takes w.store f.params args → ∃ w₁, w.Said w₁ ∧
      (w₁.perform (body (interpret depth) scope args f)).2.store.SameLoops after) ∧
    (¬ (Value.builtin f copy).Takes w.store f.params args → w.store.SameLoops after) := by
  have hparams : (Value.builtin f copy).isFunction = true →
      ∃ d, (w.perform (paramsOf scope (.builtin f copy))).1 = .ok d ∧ f.params.DeclaredBy d :=
    fun _ => ⟨Params.toData f.params, rfl, .inl rfl⟩
  obtain ⟨htakes, hrefuses⟩ :=
    @perform_invoke args scope w f.params (.builtin f copy) hparams htypes
  intro after
  refine ⟨fun h => ?_, fun h => ?_⟩
  · obtain ⟨w₁, hsaid, hinvoke⟩ := htakes h
    refine ⟨w₁, hsaid, ?_⟩
    obtain ⟨w₂, hw₂, hsaid₂⟩ := perform_andThen
      (x := interpret (depth + 1) (.apply scope (.builtin f copy) args)) rfl prints_reset
    have hafter : after = (w₁.perform (runBuiltin (interpret depth) scope f args)).2.store := by
      dsimp only [after]
      rw [hinvoke, hw₂]
      exact hsaid₂.store
    rw [hafter]
    exact runBuiltin_sameLoops hf _ scope args w₁
  · obtain ⟨fault, w', -, hinvoke⟩ := hrefuses h
    -- The function does not get to work, so it may be taken for one that fails.
    have hidle : Makes SameLoops
        (invoke (fun _ => throw .nestedTooDeeply) scope (.builtin f copy) args) :=
      makes_of_keeps fun _ => Keeps.invoke (Keeps.throw _)
    have hloops := hidle w
    rw [hinvoke] at hloops
    dsimp only [after]
    rwa [hinvoke]

/-- A call of `session.open` gives the input back. -/
theorem invoke_open_givesBack (depth copy : Nat) (args : Args) : GivesBack scope input
      (invoke (interpret (depth + 1)) scope (.builtin (.session .open) copy) args) := by
  intro w hwf hscope hinput
  obtain ⟨htakes, hrefuses⟩ :=
    @invoke_sameLoops (.session .open) rfl (by decide) copy depth scope args w
  by_cases h : (Value.builtin (.session .open) copy).Takes w.store
      (Builtin.session .open).params args
  · obtain ⟨w₁, hsaid, hafter⟩ := htakes h
    have hbody : (w₁.perform (openSession (interpret depth) scope args)).2.store.SameLoops
        (w₁.perform (body (interpret depth) scope args (.session .open))).2.store :=
      sameLoops_bind _ (fun _ => makes_of_keeps fun _ => Keeps.pure _) w₁
    have hloops := hbody.trans hafter
    rw [← hsaid.store] at hwf hscope hinput
    obtain ⟨hback, hgoing⟩ := openSession_givesBack depth args w₁ hwf hscope hinput
    rw [← hsaid.store]
    exact ⟨(hloops.input scope).trans hback,
      fun hlooping => (hloops.looping scope).trans (hgoing hlooping)⟩
  · have hloops := hrefuses h
    exact ⟨(hloops.input scope).trans hinput, (hloops.looping scope).trans⟩

/-- A call of `source` leaves the standard input if there is a file to read, and does nothing to
loops otherwise. -/
theorem perform_invoke_source (depth copy : Nat) (args : Args) (hwf : w.store.WellFormed)
    (hscope : scope < w.store.scopes.size) :
    let call := invoke (interpret (depth + 1)) scope (.builtin (.core .source) copy) args
    let after := (w.perform call).2.store
    (w.FindsFile args → (after.scopeAt scope).input = 0 ∧ (after.scopeAt scope).looping = true) ∧
    (¬ w.FindsFile args → w.store.SameLoops after) := by
  obtain ⟨htakes, hrefuses⟩ :=
    @invoke_sameLoops (.core .source) rfl (by decide) copy depth scope args w
  refine ⟨fun h => ?_, fun h => ?_⟩
  · have hfits : (Value.builtin (.core .source) copy).Takes w.store
        (Builtin.core .source).params args := by
      obtain ⟨a, path, -, ha, hpath, -⟩ := h
      refine ⟨rfl, List.forall_mem_singleton.mpr ⟨.inl (by rw [ha]; rfl), fun b hb => ?_⟩⟩
      rw [← Option.some.inj (ha.symm.trans hb), hpath]
      rfl
    obtain ⟨w₁, hsaid, hloops⟩ := htakes hfits
    rw [← hsaid.store] at hwf hscope
    obtain ⟨hinput, hlooping⟩ :=
      perform_source_of_findsFile ((hsaid.findsFile_iff args).mpr h) hwf hscope
    exact ⟨(hloops.input scope).trans hinput, (hloops.looping scope).trans hlooping⟩
  · by_cases hfits : (Value.builtin (.core .source) copy).Takes w.store
        (Builtin.core .source).params args
    · obtain ⟨w₁, hsaid, hloops⟩ := htakes hfits
      have hmissing : ¬ w₁.FindsFile args := mt (hsaid.findsFile_iff args).mp h
      obtain ⟨fault, hbody⟩ := perform_source_of_not_findsFile (interpret depth) hmissing
      rwa [hbody, hsaid.store] at hloops
    · exact hrefuses hfits

/-- **When the input is given back.** Consider a call, in any scope, that gets as far as a function,
in the world `v`. If the function is `session.open`, the scope has the input afterwards that it had
then, and its loop is going if it was, whatever has become of the statements in the file, and of the
call itself. If the function is `source`, the loop is going as well; but if there is a file to read,
the scope reads from the standard input afterwards. So the input is given back if and only if it was
the standard input or there is no such file. -/
theorem input_given_back_iff {f : Builtin} {copy : Nat} {function : Expr}
    {arguments : List (String × Expr)} {w u v : World} (hwf : w.store.WellFormed)
    (hscope : scope < w.store.scopes.size)
    (hargs : w.perform (evaluateArgs (interpret (depth + 1)) scope arguments) = (.ok args, u))
    (hfunction : u.perform (evaluateValue (interpret (depth + 1)) scope function) =
      (.ok (.builtin f copy), v)) :
    let before := v.store.scopeAt scope
    let after := (w.perform (interpret (depth + 2)
      (.evaluate scope (.call function arguments)))).2.store.scopeAt scope
    (f = .session .open ∨ f = .core .source → before.looping = true → after.looping = true) ∧
    (f = .session .open → after.input = before.input) ∧
    (f = .core .source → (v.FindsFile args → after.input = 0) ∧
      (after.input = before.input ↔ before.input = 0 ∨ ¬ v.FindsFile args)) := by
  have hreached : Reached w.store scope v.store := by
    have hrun := runs_reached w.store (depth + 1)
    have frame : Frame (Holding (Reached w.store scope)) := (stepFrame w.store).frame () scope
    have hfirst := ((composes_keeps _).evaluateArgs fun p (_ : p ∈ arguments) =>
      hrun.evaluate () scope p.2).holds ⟨.refl, hwf, hscope⟩
    rw [hargs] at hfirst
    have hsecond := (Keeps.evaluateValue (E := Holding (Reached w.store scope))
      (hrun.evaluate () scope function)).holds hfirst
    rwa [hfunction] at hsecond
  have hcall : w.perform (interpret (depth + 2) (.evaluate scope (.call function arguments))) =
      v.perform (invoke (interpret (depth + 1)) scope (.builtin f copy) args) :=
    (perform_bind_ok hargs _).trans (perform_bind_ok hfunction _)
  rw [hcall]
  intro before after
  refine ⟨?_, ?_, ?_⟩
  · rintro (rfl | rfl) hlooping
    · obtain ⟨-, hgoing⟩ :=
        invoke_open_givesBack depth copy args v hreached.wellFormed hreached.scope rfl
      exact hgoing hlooping
    · obtain ⟨hfinds, hmissing⟩ :=
        perform_invoke_source depth copy args hreached.wellFormed hreached.scope
      by_cases h : v.FindsFile args
      · exact (hfinds h).2
      · exact ((hmissing h).looping scope).trans hlooping
  · rintro rfl
    exact (invoke_open_givesBack depth copy args v hreached.wellFormed hreached.scope rfl).1
  · rintro rfl
    obtain ⟨hfinds, hmissing⟩ :=
      perform_invoke_source depth copy args hreached.wellFormed hreached.scope
    by_cases h : v.FindsFile args
    · have hinput : after.input = 0 := (hfinds h).1
      simp [hinput, h, eq_comm]
    · have hinput : after.input = before.input := (hmissing h).input scope
      simp [hinput, h]

/-- A shell that reads a script, the second stream, and has a file to read besides. -/
def scriptWorld : World :=
  { World.blank with
    store := (World.blank.store.define 0 "source" (.builtin (.core .source) 0)).1.modifyScope 0
      fun sc => { sc with input := 1 }
    disk := { World.blank.disk with files := [("a.rsh", "1\n")] }
    streams := #[[], [some "42\n"]] }

/-- After `source(file: "a.rsh")` the script is not read any further. -/
theorem input_given_back_iff_script :
    let call := Expr.call (.lookup "source") [("file", .constant (.text "a.rsh"))]
    let after := (scriptWorld.perform (interpret 5 (.evaluate 0 call))).2.store.scopeAt 0
    (scriptWorld.store.scopeAt 0).input = 1 ∧ (scriptWorld.store.scopeAt 0).looping = true ∧
      after.input = 0 ∧ after.looping = true := by
  have hwf : scriptWorld.store.WellFormed :=
    ((Store.Step.define _ 0 "source" _).wellFormed Store.wellFormed_newRoot_empty).addition
      (.flags _ _ _ fun _ => ⟨rfl, rfl, rfl⟩)
  have hscope : 0 < scriptWorld.store.scopes.size := by decide
  have hargs : scriptWorld.perform (evaluateArgs (interpret (3 + 1)) 0
      [("file", .constant (.text "a.rsh"))]) =
      (.ok [("file", .value (.text "a.rsh"))], scriptWorld) := rfl
  have hfunction : scriptWorld.perform (evaluateValue (interpret (3 + 1)) 0 (.lookup "source")) =
      (.ok (.builtin (.core .source) 0), scriptWorld) := rfl
  have hfinds : scriptWorld.FindsFile [("file", .value (.text "a.rsh"))] :=
    ⟨_, "a.rsh", "1\n", rfl, rfl, rfl⟩
  obtain ⟨hlooping, -, hsource⟩ := input_given_back_iff hwf hscope hargs hfunction
  exact ⟨rfl, rfl, (hsource rfl).1 hfinds, hlooping (.inr rfl) rfl⟩

end Act

end Parley
