import Parley.Proofs.Eval.Avoiding
import Parley.Proofs.Session.Rounds
import Parley.Proofs.Store.Rebuilding

/-!
# The statements of a text and the last result

A text that is evaluated is read line by line, in a scope of its own, and what it gives is what the
last result is there in the end. Each statement of the text that gives a value makes it the last
result of that scope; if none does, the last result is that of the scope around it. For a text whose
statements avoid what is hidden this is all that the last result has to do with it: in worlds that
differ in nothing else the text is read in the same way, and the same statements fail.

## Main results

* `statementsIn`: the statements in a text, as the loop finds them.
* `Act.evalText_leads`: reading a text comes to the same for twins, and gives the cell of what is the
  last result in its scope in the end.
-/

namespace Parley

open List
open Grammar (parse)
open Store (findName)

/-! ### The statements in lines -/

/-- What a line comes to, with the tokens that are pending before it. -/
def lineReading (pending : List Token) (line : String) : Act.Reading :=
  match Token.scan line with
  | .ok tokens => .tokens (pending ++ tokens)
  | .error f => .refused f.message

namespace Act.Reading

/-- The statement that has been read, if it is a finished one. -/
def statement? : Reading → Option Expr
  | .tokens all => if all.isEmpty then none else (parse all).result.toOption
  | _ => none

/-- The tokens that are pending after it: those of a statement that has only begun. -/
def held : Reading → List Token
  | .tokens all =>
    match (parse all).result with
    | .error (.unfinished _) => all
    | _ => []
  | _ => []

theorem held_nil : held (.tokens []) = [] := by
  rw [held]
  split <;> rfl

end Act.Reading

/-- The statements in lines, with the tokens that are pending before them. -/
def statementsOf (pending : List Token) : List String → List Expr
  | [] => []
  | line :: lines =>
    (lineReading pending line).statement?.toList ++
      statementsOf (lineReading pending line).held lines

/-- The lines of a text. -/
def textLines (text : String) : List String :=
  (Text.linesOf text.toList).map String.ofList

/-- The statements in a text. -/
def statementsIn (text : String) : List Expr :=
  statementsOf [] (textLines text)

/-! ### The scope of the text -/

/-- The scope `r` is there and has no last result of its own. -/
structure Store.Bare (r : Nat) (s : Store) : Prop where
  there : r < s.scopes.size
  none : findName World.resultName (s.scopeAt r).names = none

/-- The store while a text is read in the scope `n`, which lies in the scope `r` and reads the stream
`i`, which is not the first one. The last result of the scope `n`, if there is one, is not in the cell
`c`. -/
structure Store.Reads (r n i c : Nat) (s : Store) : Prop where
  file : i ≠ 0
  bare : s.Bare r
  around : r < n
  there : n < s.scopes.size
  base : (s.scopeAt n).base = some r
  input : (s.scopeAt n).input = i
  own : findName World.resultName (s.scopeAt n).names ≠ some c

namespace Store

variable {s : Store} {r n i c k : Nat} {name : String}

instance : Lasting fun _ => True where
  steady _ _ := trivial

instance : Lasting (Bare r) where
  steady h hQ := ⟨Nat.lt_of_lt_of_le hQ.there h.size, (congrArg (·.2.2) (h.gist hQ.there)).trans hQ.none⟩

instance : Lasting (Reads r n i c) where
  steady h hQ :=
    { file := hQ.file
      bare := Lasting.steady h hQ.bare
      around := hQ.around
      there := Nat.lt_of_lt_of_le hQ.there h.size
      base := (congrArg (·.1) (h.gist hQ.there)).trans hQ.base
      input := (congrArg (·.2.1) (h.gist hQ.there)).trans hQ.input
      own := fun hc => hQ.own ((congrArg (·.2.2) (h.gist hQ.there)).symm.trans hc) }

/-- Writing a variable changes one scope at most. -/
theorem scopes_define (s : Store) (k : Nat) (name : String) (v : Value) :
    (s.define k name v).1.scopes.size = s.scopes.size ∧
      ∀ j ≠ k, (s.define k name v).1.scopeAt j = s.scopeAt j := by
  rcases define_cases s k name v with ⟨d, -, hdef⟩ | ⟨d, -, -, hdef⟩ | ⟨-, -, hdef⟩
  · rw [hdef]
    exact ⟨rfl, fun j _ => rfl⟩
  · rw [hdef]
    exact ⟨size_scopes_modifyScope s k _, fun j hj => scopeAt_bind_of_ne hj name d⟩
  · rw [hdef]
    exact ⟨size_scopes_modifyScope s k _, fun j hj => scopeAt_bind_of_ne hj name _⟩

/-- The scope that is written to has the name then. -/
theorem findName_define (hk : k < s.scopes.size) (v : Value) :
    findName name ((s.define k name v).1.scopeAt k).names = some (s.define k name v).2 := by
  rw [scopeAt_define s hk]
  rcases define_cases s k name v with ⟨d, hown, hdef⟩ | ⟨d, hown, -, hdef⟩ | ⟨hown, -, hdef⟩
  · simp [hown, hdef]
  · simp [hown, findName_append, findName]
  · simp [hown, findName_append, findName]

namespace Reads

variable (h : Reads r n i c s)

include h

/-- The scope of the text does not take over a last result from the scope around it. -/
theorem place_ne : (findName World.resultName (s.scopeAt n).names).or
      (s.inherited? n World.resultName) ≠ some c := by
  have hinherited : s.inherited? n World.resultName = none := by
    rw [inherited?, h.base]
    exact h.bare.none
  rw [hinherited, Option.or_none]
  exact h.own

/-- A statement of the text has given a result. -/
theorem define (hc : c < s.cells.size) (x : Value) :
    Reads r n i c (s.define n World.resultName x).1 := by
  obtain ⟨hsize, houtside⟩ := s.scopes_define n World.resultName x
  have hscope := scopeAt_define s h.there World.resultName x
  have hbare := houtside r (Nat.ne_of_lt h.around) ▸ h.bare.none
  refine ⟨h.file, ⟨hsize ▸ h.bare.there, hbare⟩, h.around, hsize ▸ h.there, hscope ▸ h.base,
    hscope ▸ h.input, ?_⟩
  rw [findName_define h.there]
  intro hlast
  rcases Hidden.define_snd s n World.resultName x with hplace | hnew
  · exact h.place_ne (hplace.trans hlast)
  · have heq := Option.some.inj hlast
    omega

end Reads

end Store

/-- Twins while a text is read. -/
abbrev Hidden.Inside (H : Hidden) (r n i : Nat) (streams : Array (List (Option String))) (v : Value) :
    World → World → Prop :=
  H.Twins (Store.Reads r n i H.last) streams v

/-- Twins, with whatever there is to read. -/
def Hidden.Around (H : Hidden) (v : Value) (w w' : World) : Prop :=
  ∃ streams, H.Twins (fun _ => True) streams v w w'

theorem Hidden.Twins.around {H : Hidden} {streams : Array (List (Option String))}
    {Q : Store → Prop} {v : Value} {w w' : World} (h : H.Twins Q streams v w w') :
    H.Around v w w' :=
  ⟨streams, { h with holds := trivial }⟩

namespace Act

variable {α β : Type} {E : World → World → Prop} {F : α → World → World → Prop}
  {tokens : List Token} {k : Nat} {w w' u : World} {lines : List String}
  {r : Except Fault α × World} {x : Act α}

/-- Both runs give the same and lead to related worlds, or both fail in the same way. -/
inductive Abreast (F : α → World → World → Prop) :
    Except Fault α × World → Except Fault α × World → Prop
  | ok {a : α} {u u' : World} (h : F a u u') : Abreast F (.ok a, u) (.ok a, u')
  | error {f : Fault} {u u' : World} : Abreast F (.error f, u) (.error f, u')

theorem Abreast.exists_ok {a : α}
    (h : Abreast F (.ok a, u) r) : ∃ u', r = (.ok a, u') ∧ F a u u' := by
  cases h with
  | ok h => exact ⟨_, rfl, h⟩

theorem Abreast.exists_error {f : Fault}
    (h : Abreast F (.error f, u) r) : ∃ u', r = (.error f, u') := by
  cases h
  exact ⟨_, rfl⟩

/-- In related worlds the action comes to the same, and leads to related worlds. -/
def Leads (E : World → World → Prop) (F : α → World → World → Prop) (x : Act α) : Prop :=
  ∀ ⦃w w' : World⦄, E w w' → Abreast F (w.perform x) (w'.perform x)

theorem Leads.bind {G : β → World → World → Prop} {f : α → Act β}
    (hx : Leads E F x) (hf : ∀ a, Leads (F a) G (f a)) : Leads E G (x >>= f) := by
  intro w w' hE
  have hstep := hx hE
  rw [perform_bind, perform_bind]
  generalize w.perform x = r, w'.perform x = r' at hstep
  cases hstep with
  | ok h => exact hf _ h
  | error => exact .error

theorem Leads.throw (f : Fault) : Leads E F (MonadExcept.throw f : Act α) :=
  fun _ _ _ => .error

theorem Gives.leads {P : α → Prop} (hx : Gives E P x) : Leads E (fun a u u' => P a ∧ E u u') x := by
  intro w w' hE
  obtain ⟨r, u, u', hw, hw', hE₁⟩ := hx.keeps.same hE
  rw [hw, hw']
  cases r with
  | ok a => exact .ok ⟨hx.gives hE (congrArg Prod.fst hw), hE₁⟩
  | error f => exact .error

variable {H : Hidden} {Q : Store → Prop} {r n i : Nat}
  {streams : Array (List (Option String))} {v : Value} {depth : Nat}
  {pending : List Token}

/-! ### One statement -/

theorem showResult_twins [Veils H E] (k : Nat) (e : Expr) {a : Answer} (ha : H.Fair a) :
    Keeps E (showResult k e a) := by
  have hshows : Keeps E (showsResult k e) :=
    Keeps.look_bind (fun _ => rfl) fun w => (scopeAt_twins k).bind fun sc => Keeps.pure _
  have hcolour : Keeps E (resultColour k) := by
    have hname : "*resultcolor" ∉ H.names := H.serving _ (by simp [servingNames])
    exact (lookupValue_gives k hname).keeps.bind fun x => by grind
  refine hshows.bind fun shows => ?_
  split
  · exact hcolour.bind fun colour => (Keeps.foreground colour).bind fun _ =>
      (deref_gives ha).keeps_bind fun x hx => (written_twins _ hx).bind fun text =>
        (Keeps.print text).bind fun _ => Keeps.reset
  · exact Keeps.pure _

@[grind .] theorem complain_twins [Outer E] (message : String) : Keeps E (complain message) :=
  (Keeps.foreground "red").bind fun _ => (Keeps.print message).bind fun _ => Keeps.reset

section Code

/-- **A result of the text** is not written into the cell of the last result around it. -/
theorem assign_result_twins {x : Value} (hx : H.spares x) :
    Keeps (H.Inside r n i streams v) (assign n World.resultName x) := by
  intro w w' hE
  have hlast := hE.sound.last
  rw [assign, perform_withStore, perform_withStore, hE.store,
    Store.define_setCell hlast hE.holds.place_ne v x]
  exact ⟨rfl, hE.of_store (hE.sound.define hx) (hE.holds.define hlast x)⟩

/-- A statement of the text, whether it gives a value or fails. -/
theorem tryStatement_twins {e : Expr} (he : e.avoids H.names) :
    Keeps (H.Inside r n i streams v) (tryStatement (interpret depth) n e) := by
  have hrun : Keeps (H.Inside r n i streams v) (runStatement (interpret depth) n e) := by
    refine (Keeps.ofTraced _).bind fun text => (Keeps.title _).bind fun _ => ?_
    refine ((avoiding_interpret depth).evaluate _ he).keeps_bind fun a ha => ?_
    exact (showResult_twins _ e ha).bind fun _ => (deref_gives ha).keeps_bind fun x hx =>
      (assign_result_twins hx).bind fun _ => Keeps.pure _
  exact hrun.tryCatch fun f => by unfold afterFailure; grind

theorem takeTokens_twins (h : ∀ e, (parse tokens).result = .ok e → e.avoids H.names) :
    Keeps (H.Inside r n i streams v) (takeTokens (interpret depth) n pending tokens) := by
  refine (Keeps.traceAll _).bind fun _ => ?_
  split
  · next e he =>
    have hplaced : H.Blind (fun e' : Expr => e'.avoids H.names) fun s =>
        ({ s with fresh := (e.placed s.fresh).2 }, (e.placed s.fresh).1) :=
      Hidden.blind_fresh (f := fun n => (e.placed n).swap) fun n => (e.avoids_placed n).trans (h e he)
    exact (Veils.withStore hplaced).keeps_bind fun e' he' =>
      (tryStatement_twins he').bind fun _ => Keeps.pure _
  all_goals grind

/-- What is pending after some tokens depends on them alone. -/
theorem pending_of_takeTokens {run : Run} {pending₁ : List Token} (hne : tokens ≠ [])
    (h : (w.perform (takeTokens run k pending tokens)).1 = .ok pending₁) :
    pending₁ = Reading.held (.tokens tokens) := by
  rw [Reading.held]
  cases hparse : (parse tokens).result with
  | ok e =>
    rcases @perform_takeTokens_ok k pending tokens e hparse run w with
      ⟨w₁, hw₁⟩ | ⟨f, w₁, hw₁, -⟩
    · rw [hw₁] at h
      exact (Except.ok.inj h).symm
    · rw [hw₁] at h
      cases h
  | error failure =>
    obtain ⟨w₁, -, ⟨inside, rfl, hw₁⟩ | ⟨inside, expected, rfl, hw₁⟩ |
      ⟨t, -, -, -, rfl, hw₁⟩⟩ := @perform_takeTokens_error k pending tokens _ hparse hne w
    · rw [hw₁ run] at h
      exact (Except.ok.inj h).symm
    · rw [hw₁ run] at h
      exact (Except.ok.inj h).symm
    · rw [hw₁ run] at h
      cases h

/-! ### One round -/

/-- What a round does with what has been read, and what is pending then. -/
theorem dealWith_twins (reading : Reading)
    (h : ∀ e, reading.statement? = some e → e.avoids H.names) :
    Gives (H.Inside r n i streams v) (· = reading.held)
      (dealWith (interpret depth) n pending reading) := by
  cases reading with
  | interrupted => exact (Keeps.print "").bind_gives fun _ => Gives.pure rfl
  | refused message => exact (Keeps.print message).bind_gives fun _ => Gives.pure rfl
  | atEnd =>
    have hstop : Keeps (H.Inside r n i streams v)
        (modifyScope n fun sc => { sc with looping := false }) :=
      stopLoop_twins n
    rw [dealWith]
    split
    · exact hstop.bind_gives fun _ => Gives.pure rfl
    · exact (Keeps.print "").bind_gives fun _ => Gives.pure rfl
  | tokens tokens =>
    refine (Keeps.trace _).bind_gives fun _ => ?_
    by_cases hempty : tokens.isEmpty
    · obtain rfl := List.isEmpty_iff.mp hempty
      exact Gives.pure Reading.held_nil.symm
    · rw [if_neg hempty]
      have hne : tokens ≠ [] := fun hnil => hempty (hnil ▸ rfl)
      refine ⟨takeTokens_twins fun e he => h e ?_, fun _ hp => pending_of_takeTokens hne hp⟩
      rw [Reading.statement?, if_neg hempty, he]
      rfl

/-- Twins read the same. -/
theorem reading_twins (h : H.Twins Q streams v w w') (k : Nat) :
    w'.reading k pending = w.reading k pending := by
  have hscope : w'.store.scopeAt k = w.store.scopeAt k := by rw [h.store, Store.scopeAt_setCell]
  have hstreams : w'.silent.streams = w.streams := by rw [h.silent]; rfl
  change w'.streams = w.streams at hstreams
  rw [World.reading, World.reading, World.nextLine, World.nextLine, World.linesLeft,
    World.linesLeft, hscope, hstreams]

/-- A line that twins read. -/
theorem passed_twins {u u' : World} (h : H.Inside r n i streams v w w')
    (hu : w.Passed n u) (hu' : w'.Passed n u') :
    H.Inside r n i (streams.modify i tail) v u u' := by
  refine ⟨hu.store ▸ h.sound, hu.store ▸ h.holds, by rw [Array.size_modify]; exact h.input, ?_, ?_⟩
  · rw [hu.streams, h.streams, h.holds.input]
  · have hput : (u.put H.last v).silent = ((w.withoutLine n).put H.last v).silent :=
      congrArg (World.put · H.last v) hu.silent
    have hline : ((w.withoutLine n).put H.last v).silent =
        ((w.put H.last v).withoutLine n).silent := rfl
    rw [hput, hline, hu'.silent, World.silent_withoutLine, World.silent_withoutLine, h.silent]

/-- Reading a line of a file. -/
theorem perform_readTokens_file (hfile : (w.store.scopeAt k).input ≠ 0) (pending : List Token) :
    ∃ u, w.perform (readTokens k pending) = (.ok (w.reading k pending), u) ∧ w.Passed k u := by
  obtain ⟨u, hu, hline⟩ := w.exists_readLine k
  exact ⟨u, perform_readTokens_of_file hfile hu, World.passed_of_line hline⟩

/-- **One round** of the loop over the text: what is read, what is done with it and what is pending
then is the same for twins. -/
theorem readRound_leads {reading : Reading}
    (hreading : ∀ ⦃w w'⦄, H.Inside r n i streams v w w' → w.reading n pending = reading)
    (h : ∀ e, reading.statement? = some e → e.avoids H.names) : Leads (H.Inside r n i streams v)
    (fun pending₁ u u' => pending₁ = reading.held ∧ H.Inside r n i (streams.modify i List.tail) v u
    u') (readRound (interpret depth) n pending) := by
  refine (Keeps.title "restsh").gives.leads.bind fun _ => ?_
  rintro w w' ⟨-, hE⟩
  have hfile : (w.store.scopeAt n).input ≠ 0 := hE.holds.input ▸ hE.holds.file
  have hfile' : (w'.store.scopeAt n).input ≠ 0 := by rwa [hE.store]
  obtain ⟨u, hu, hpassed⟩ := perform_readTokens_file hfile pending
  obtain ⟨u', hu', hpassed'⟩ := perform_readTokens_file hfile' pending
  rw [perform_bind_ok hu, perform_bind_ok hu', reading_twins hE, hreading hE]
  exact (dealWith_twins reading h).leads (passed_twins hE hpassed hpassed')

/-! ### The loop -/

/-- What the scope of the text reads next. -/
theorem reading_of_lines (hlines : streams[i]?.getD [] = lines.map some)
    ⦃w w' : World⦄ (h : H.Inside r n i streams v w w') :
    w.reading n pending = lines.head?.elim .atEnd (lineReading pending) := by
  have hleft : w.linesLeft n = lines.map some := by
    rw [World.linesLeft, h.holds.input, h.streams, hlines]
  rw [World.reading, World.nextLine, hleft, h.holds.input]
  cases lines with
  | nil => rfl
  | cons line lines =>
    show (match Token.scan (if i = 0 then withoutLineFeed line else line) with
      | .ok tokens => Reading.tokens (pending ++ tokens)
      | .error f => .refused f.message) = lineReading pending line
    rw [if_neg h.holds.file, lineReading]

theorem modify_tail_lines {streams : Array (List (Option String))} {stream : Nat}
    (hlines : streams[stream]?.getD [] = lines.map some) :
    (streams.modify stream tail)[stream]?.getD [] = lines.tail.map some := by
  rw [Array.getElem?_modify, if_pos rfl]
  cases hs : streams[stream]? with
  | none =>
    rw [hs] at hlines
    have hnil : lines = [] := by simpa using hlines.symm
    rw [hnil]
    rfl
  | some l =>
    rw [hs] at hlines
    obtain rfl : l = lines.map some := hlines
    exact map_tail.symm

/-- **The loop over the text**, line by line: it comes to the same for twins, whatever the lines are,
as long as the statements in them avoid what is hidden. -/
theorem readStatements_leads (rounds : Nat) (hlines : streams[i]?.getD [] = lines.map some)
    (havoids : ∀ e ∈ statementsOf pending lines, e.avoids H.names) : Leads
    (H.Inside r n i streams v) (fun _ u u' => ∃ streams, H.Inside r n i streams v u u')
    (readStatements (interpret depth) n rounds pending) := by
  induction rounds generalizing streams pending lines with
  | zero => exact Leads.throw _
  | succ rounds ih =>
    refine (scopeAt_twins n).gives.leads.bind fun sc => ?_
    rintro w w' ⟨-, hE⟩
    split
    · let reading : Reading := lines.head?.elim .atEnd (lineReading pending)
      have hread : ∀ e, reading.statement? = some e → e.avoids H.names := by
        intro e he
        cases lines with
        | nil => cases he
        | cons line lines => exact havoids e (mem_append_left _ (Option.mem_toList.mpr he))
      -- What is left of the lines has the rest of the statements.
      have hrest : ∀ e ∈ statementsOf reading.held lines.tail, e.avoids H.names := by
        cases lines with
        | nil => exact fun e he => absurd he not_mem_nil
        | cons line lines => exact fun e he => havoids e (mem_append_right _ he)
      refine (readRound_leads (reading_of_lines hlines) hread).bind (fun pending₁ => ?_) hE
      rintro u u' ⟨rfl, hE⟩
      exact ih (modify_tail_lines hlines) hrest hE
    · exact .ok ⟨streams, hE⟩

/-! ### The text as a whole -/

/-- A name that has been looked up stands for the cell. -/
theorem find?_of_perform_lookup {u : World} {k c : Nat} {name : String}
    (h : w.perform (lookup k name) = (.ok c, u)) : w.store.find? k name = some c ∧ u = w := by
  cases hfind : w.store.find? k name with
  | some d =>
    rw [perform_find hfind] at h
    cases h
    exact ⟨rfl, rfl⟩
  | none =>
    obtain ⟨t, ht⟩ := exists_perform_error Nat w (w.store.root k) ("Undefined variable: '" ++ name ++ "'")
    rw [lookup, perform_getStore_bind, hfind] at h
    cases ht.symm.trans h

/-- Reading the text gives the cell of what is the last result in its scope in the end. -/
theorem session_leads (depth : Nat) (hlines : streams[i]?.getD [] = lines.map some)
    (havoids : ∀ e ∈ statementsOf [] lines, e.avoids H.names) : Leads (H.Inside r n i streams v)
    (fun a u u' => (∃ c, u.store.find? n World.resultName = some c ∧ a = .cell c) ∧ ∃ streams,
    H.Inside r n i streams v u u') (interpret depth (.session n)) := by
  cases depth with
  | zero => exact Leads.throw _
  | succ depth =>
    refine (readStatements_leads roundLimit hlines havoids).bind fun _ => ?_
    rintro u u' ⟨streams, hE⟩
    have hlook : Keeps (H.Inside r n i streams v) (lookup n World.resultName) :=
      (lookup_found (P := fun _ => True) n World.resultName fun _ _ => trivial).keeps
    obtain ⟨res, t, t', ht, ht', hT⟩ := hlook.same hE
    rw [perform_bind, perform_bind, ht, ht']
    cases res with
    | error f => exact .error
    | ok c =>
      obtain ⟨hfind, rfl⟩ := find?_of_perform_lookup ht
      exact .ok ⟨⟨c, hfind, rfl⟩, streams, hT⟩

end Code

end Act

/-! ### Opening a text -/

/-- The store with a scope for a text, which is read from the stream `i`. -/
def Store.opening (s : Store) (k i : Nat) : Store :=
  (s.newChild k).1.modifyScope s.scopes.size fun sc => { sc with input := i }

/-- The world in which a text is read, in a scope of its own. -/
def World.reads (w : World) (k : Nat) (text : String) : World :=
  { w with
    store := w.store.opening k w.streams.size
    streams := w.streams.push ((textLines text).map some) }

namespace Act

variable {H : Hidden} {Q : Store → Prop} {r : Nat} {streams : Array (List (Option String))}
  {v : Value} {w w' : World} {s : Store}

theorem perform_evalText (run : Run) (k : Nat) (text : String) (w : World) :
    w.perform (evalText run k (.constant (.text text))) =
      (w.reads k text).perform (run (.session w.store.scopes.size)) := by
  have hlines : (Text.linesOf text.toList).map (some ∘ String.ofList) = (textLines text).map some :=
    (map_map).symm
  rw [evalText, openText, hlines]
  rfl

/-- The store in which a text begins to be read. -/
theorem reads_opening {r i : Nat} (h : s.Bare r) (hi : i ≠ 0) (c : Nat) :
    Store.Reads r s.scopes.size i c (s.opening r i) := by
  have hsize : (s.newChild r).1.scopes.size = s.scopes.size + 1 := Array.size_push _
  have hcount : (s.opening r i).scopes.size = s.scopes.size + 1 :=
    (Store.size_scopes_modifyScope ..).trans hsize
  have hscope := (s.newChild r).1.scopeAt_modifyScope s.scopes.size s.scopes.size
    fun sc => { sc with input := i }
  rw [if_pos ⟨rfl, hsize ▸ Nat.lt_succ_self _⟩, Store.scopeAt_newChild_self] at hscope
  have hbefore : (s.opening r i).scopeAt r = s.scopeAt r := by
    rw [Store.opening, Store.scopeAt_modifyScope, if_neg fun hr => Nat.ne_of_lt h.there hr.1,
      Store.scopeAt_newChild_of_lt h.there]
  have hbare : (s.opening r i).Bare r := ⟨hcount ▸ Nat.lt_succ_of_lt h.there, hbefore ▸ h.none⟩
  refine ⟨hi, hbare, h.there, hcount ▸ Nat.lt_succ_self _, ?_, ?_, ?_⟩
  · exact congrArg Scope.base hscope
  · exact congrArg Scope.input hscope
  · rw [Store.opening, hscope]
    exact nofun

theorem sound_opening (h : H.Sound s) (r i : Nat) : H.Sound (s.opening r i) := by
  refine (h.newChild r).of_bound rfl rfl rfl fun hm => .inl ?_
  exact Store.bound_modifyScope (f := fun sc => { sc with input := i })
    (fun _ => List.Subset.refl _) hm

/-- **The text as a whole**: it comes to the same for twins, and what it gives is the cell of what is
the last result in its scope in the end. -/
theorem evalText_leads (depth : Nat) (hE : H.Twins Q streams v w w') (hbare : w.store.Bare r)
    {text : String} (havoids : ∀ e ∈ statementsIn text, e.avoids H.names) : Abreast (fun a u u' =>
    (∃ c, u.store.find? w.store.scopes.size World.resultName = some c ∧ a = .cell c) ∧ ∃ streams',
    H.Inside r w.store.scopes.size streams.size streams' v u u')
    (w.perform (evalText (interpret depth) r (.constant (.text text))))
    (w'.perform (evalText (interpret depth) r (.constant (.text text)))) := by
  have hsize : w'.store.scopes.size = w.store.scopes.size := by rw [hE.store]; rfl
  have hlines : (streams.push ((textLines text).map some))[streams.size]?.getD [] =
      (textLines text).map some := by
    rw [Array.getElem?_push_size]
    rfl
  have hbegin : H.Inside r w.store.scopes.size streams.size (streams.push ((textLines text).map some)) v
      (w.reads r text) (w'.reads r text) := by
    refine ⟨sound_opening hE.sound r _, ?_, Array.size_push _ ▸ Nat.succ_pos _,
      congrArg (Array.push · _) hE.streams, congrArg (World.reads · r text) hE.silent⟩
    rw [World.reads, hE.streams]
    exact reads_opening hbare (Nat.ne_of_gt hE.input) _
  rw [perform_evalText, perform_evalText, hsize]
  exact session_leads depth hlines havoids hbegin

end Act

end Parley
