import Parley.Proofs.Session.Host
import Parley.Proofs.Session.Start

/-!
# What ends a session

Lines that cannot be read as tokens, tokens that are no statement and statements that fail end
nothing but themselves. In a shell that is not debugged the loop of a session fails in two cases
only (`Act.Deadly`): a line holds an integer with more digits than are read, or the prompt has been
replaced by a value that cannot be written, an integer that is too long or something that contains
itself. Besides, the machine below may object to something (`Host.objection`). Otherwise every round
leaves the loop going with nothing pending but a statement that has been begun, and the loop is
stopped by the end of the input or by an `exit` that has been executed (`Act.Dealt`).

## Main results

* `Act.readRound_dealt`: what a round does if it is not deadly.
* `Act.Deadly.fails`: the deadly rounds fail.
* `session_survives`: what ends a session, on any machine.
-/

namespace Parley

open List

namespace Act

open Grammar (parse)
open Store (loopNames)

/-- A round of the loop fails: the prompt cannot be written, or the line makes for an integer with
too many digits. -/
inductive Deadly (w : World) (k : Nat) (pending : List Token) : Fault → Prop
  | prompt {f : Fault} (h : w.PromptFails k pending f) : Deadly w k pending f
  | digits {tokens : List Token} {t : Token} (hprompt : ∀ f, ¬ w.PromptFails k pending f)
      (hread : w.reading k pending = .tokens tokens)
      (ht : t ∈ tokens) (hkind : t.kind = .integer) (hlength : Number.digitLimit < t.text.length)
      (hparse : (parse tokens).result = .error (.fault (.tooManyDigits t.text.length))) :
      Deadly w k pending (.tooManyDigits t.text.length)

/-- What has been read is no statement, and none has begun. -/
inductive NoStatement (pending : List Token) : Reading → Prop
  | interrupted : NoStatement pending .interrupted
  | refused (message : String) : NoStatement pending (.refused message)
  | atEnd (h : pending ≠ []) : NoStatement pending .atEnd
  | blank : NoStatement pending (.tokens [])
  | rejected {tokens : List Token} {inside : Option Grammar.Production}
      {expected : List Grammar.Part} (hne : tokens ≠ [])
      (h : (parse tokens).result = .error (.rejected inside expected false)) :
      NoStatement pending (.tokens tokens)

/-- An `exit` is executed in a round: if it did nothing, the round would come to something else. -/
def ExitExecuted (depth k : Nat) (w : World) (pending : List Token) : Prop :=
  w.perform (readRound (interpret depth) k pending) ≠
    w.perform (readRound (interpretWith (fun _ => pure ()) depth) k pending)

/-- What a round of the loop does with the line that it reads: what is pending after it, and the
world that it leaves. -/
inductive Dealt (depth k : Nat) (w : World) (pending : List Token) : List Token → World → Prop
  /-- The end of the input stops the loop if nothing is pending. -/
  | stopped {w' : World} (hread : w.reading k pending = .atEnd) (hpending : pending = [])
      (h : w.Passed k w') :
      Dealt depth k w pending []
        { w' with store := w'.store.modifyScope k fun sc => { sc with looping := false } }
  /-- What is no statement is given up, with all that is pending. -/
  | givenUp {w' : World} (hread : NoStatement pending (w.reading k pending))
      (h : w.Passed k w') : Dealt depth k w pending [] w'
  /-- A statement that has begun is kept. -/
  | begun {tokens : List Token} {inside : Grammar.Production} {w' : World}
      (hread : w.reading k pending = .tokens tokens)
      (hparse : (parse tokens).result = .error (.unfinished inside)) (h : w.Passed k w') :
      Dealt depth k w pending tokens w'
  /-- A statement is evaluated, and whatever comes of it, nothing is pending after it. The loop goes
  on, unless an `exit` is executed, and reads the same input as before or the standard input. -/
  | evaluated {tokens : List Token} {e : Expr} {w' : World}
      (hread : w.reading k pending = .tokens tokens) (hparse : (parse tokens).result = .ok e)
      (hgoing : (w'.store.scopeAt k).looping = true ∨ ExitExecuted depth k w pending)
      (hinput : (w'.store.scopeAt k).input = (w.store.scopeAt k).input ∨
        (w'.store.scopeAt k).input = 0) :
      Dealt depth k w pending [] w'

variable {depth k : Nat} {w w' w₀ : World} {pending tokens : List Token}

/-! ### One round -/

theorem promptName_mem (pending : List Token) : World.promptName pending ∈ loopNames := by
  unfold World.promptName
  split <;> simp [loopNames]

/-- Taking tokens leaves the loop its input, and what it relies on. -/
theorem takeTokens_input (depth : Nat) (pending tokens : List Token) (h : Going none k w.store) :
    Going (some ⟨k, (w.store.scopeAt k).input, false⟩) k
      (w.perform (takeTokens (interpret depth) k pending tokens)).2.store := by
  let loop : Loop := ⟨k, (w.store.scopeAt k).input, false⟩
  have hloop : Unsure (some loop) := by simp [Unsure, loop]
  have hkeeps : Keeps (Holding (Going (some loop) k))
      (takeTokens (interpret depth) k pending tokens) :=
    @takeTokens_keeps inputFrame ⟨some loop, hloop⟩ _ k (runs_input depth) pending tokens
  exact hkeeps.holds (h.own (by simp))

/-- Taking tokens leaves a loop going, if `exit` does nothing. -/
theorem takeTokens_going (depth : Nat) (pending tokens : List Token) (h : Going none k w.store)
    (hgoing : (w.store.scopeAt k).looping = true) :
    Going (some ⟨k, (w.store.scopeAt k).input, true⟩) k (w.perform
        (takeTokens (interpretWith (fun _ => pure ()) depth) k pending tokens)).2.store := by
  let loop : Loop := ⟨k, (w.store.scopeAt k).input, true⟩
  have hkeeps : Keeps (Holding (Going (some loop) k))
      (takeTokens (interpretWith (fun _ => pure ()) depth) k pending tokens) :=
    @takeTokens_keeps goingFrame (some loop) _ k (runs_going depth) pending tokens
  exact hkeeps.holds (h.own fun _ => hgoing)

/-- A finished statement is evaluated, whatever comes of it. -/
theorem perform_takeTokens_going (depth : Nat) (pending : List Token) {e : Expr}
    (h : Going none k w.store) (hgoing : (w.store.scopeAt k).looping = true)
    (hparse : (parse tokens).result = .ok e) :
    ∃ w', w.perform (takeTokens (interpret depth) k pending tokens) = (.ok [], w') ∧
      ((w'.store.scopeAt k).looping = true ∨
        w.perform (takeTokens (interpret depth) k pending tokens) ≠
          w.perform (takeTokens (interpretWith (fun _ => pure ()) depth) k pending tokens)) ∧
      ((w'.store.scopeAt k).input = (w.store.scopeAt k).input ∨
        (w'.store.scopeAt k).input = 0) := by
  have hinput := takeTokens_input depth pending tokens h
  rcases perform_takeTokens_ok hparse (interpret depth) w with ⟨w', hw'⟩ | ⟨f, w', hw', hstrict⟩
  · rw [hw'] at hinput
    refine ⟨w', hw', ?_, (hinput.loop _ rfl).input⟩
    rw [hw', or_iff_not_imp_right, not_not]
    -- Nothing else would have happened if `exit` did nothing.
    intro hsame
    have hloop := takeTokens_going depth pending tokens h hgoing
    rw [← hsame] at hloop
    exact (hloop.loop _ rfl).looping rfl
  · rw [hw'] at hinput
    rw [hinput.rooted.lenient k] at hstrict
    cases hstrict

/-- **One round of the loop** deals with the line that it reads, or one of the two deadly cases has
come. -/
theorem readRound_dealt (depth : Nat) (pending : List Token) (h : Going none k w.store)
    (hgoing : (w.store.scopeAt k).looping = true) :
    (∃ f w', w.perform (readRound (interpret depth) k pending) = (.error f, w') ∧
      Deadly w k pending f) ∨
    ∃ pending' w', w.perform (readRound (interpret depth) k pending) = (.ok pending', w') ∧
      Dealt depth k w pending pending' w' := by
  obtain ⟨c, hc⟩ := h.rooted.exists_find? h.scope (promptName_mem pending)
  rcases perform_readRound_cases hc with ⟨f, w₁, hfails, hround⟩ | ⟨hprompt, w₁, hpassed, hround⟩
  · exact .inl ⟨f, w₁, hround _, .prompt hfails⟩
  cases hread : w.reading k pending with
  | interrupted =>
    obtain ⟨w₂, hw₂, hsaid⟩ := prints_print "" w₁
    refine .inr ⟨[], w₂, ?_, .givenUp (hread ▸ .interrupted) (hpassed.said hsaid)⟩
    rw [hround, hread, dealWith, perform_bind_ok hw₂]
    rfl
  | refused message =>
    obtain ⟨w₂, hw₂, hsaid⟩ := prints_print message w₁
    refine .inr ⟨[], w₂, ?_, .givenUp (hread ▸ .refused message) (hpassed.said hsaid)⟩
    rw [hround, hread, dealWith, perform_bind_ok hw₂]
    rfl
  | atEnd =>
    cases pending with
    | nil =>
      refine .inr ⟨[], _, ?_, .stopped hread rfl hpassed⟩
      rw [hround, hread]
      rfl
    | cons t pending =>
      obtain ⟨w₂, hw₂, hsaid⟩ := prints_print "" w₁
      refine .inr ⟨[], w₂, ?_, .givenUp (hread ▸ .atEnd (cons_ne_nil t pending))
        (hpassed.said hsaid)⟩
      rw [hround, hread, dealWith, isEmpty_cons, if_neg Bool.false_ne_true, perform_bind_ok hw₂]
      rfl
  | tokens tokens =>
    obtain ⟨w₂, hw₂, hsaid₂⟩ := prints_trace
      ("tokenized: [" ++ Text.joinWith ", " (tokens.map Token.shown) ++ "]") w₁
    have hpassed₂ := hpassed.said hsaid₂
    cases tokens with
    | nil =>
      refine .inr ⟨[], w₂, ?_, .givenUp (hread ▸ .blank) hpassed₂⟩
      rw [hround, hread, dealWith, perform_bind_ok hw₂]
      rfl
    | cons t ts =>
      have htake (run : Run) : w.perform (readRound run k pending) =
          w₂.perform (takeTokens run k pending (t :: ts)) := by
        rw [hround, hread, dealWith, perform_bind_ok hw₂, isEmpty_cons,
          if_neg Bool.false_ne_true]
      cases hparse : (parse (t :: ts)).result with
      | error failure =>
        obtain ⟨w₃, hsaid₃, hcases⟩ :=
          perform_takeTokens_error hparse (cons_ne_nil t ts) w₂
        have hpassed₃ := hpassed₂.said hsaid₃
        rcases hcases with ⟨inside, rfl, hbegun⟩ | ⟨inside, expected, rfl, hrejected⟩ |
          ⟨d, hd, hkind, hlength, rfl, hfault⟩
        · exact .inr ⟨_, w₃, (htake _).trans (hbegun _), .begun hread hparse hpassed₃⟩
        · exact .inr ⟨_, w₃, (htake _).trans (hrejected _),
            .givenUp (hread ▸ .rejected (cons_ne_nil t ts) hparse) hpassed₃⟩
        · exact .inl ⟨_, w₃, (htake _).trans (hfault _),
            .digits hprompt hread hd hkind hlength hparse⟩
      | ok e =>
        obtain ⟨w₃, hw₃, hexit, hinput⟩ := perform_takeTokens_going depth pending
          (hpassed₂.store ▸ h) (hpassed₂.store ▸ hgoing) hparse
        refine .inr ⟨[], w₃, (htake _).trans hw₃, .evaluated hread hparse ?_ ?_⟩
        · rwa [ExitExecuted, htake, htake]
        · rwa [← hpassed₂.store]

/-- In the deadly cases the round fails. -/
theorem Deadly.fails {run : Run} {f : Fault} (h : Deadly w k pending f) {c : Nat}
    (hfind : w.store.find? k (World.promptName pending) = some c) :
    ∃ w', w.perform (readRound run k pending) = (.error f, w') := by
  rcases perform_readRound_cases hfind with ⟨g, w₁, hfails, hround⟩ | ⟨hprompt, w₁, hpassed, hround⟩
  · cases h with
    | prompt hf =>
      obtain rfl := Except.error.inj (hfails.2.symm.trans hf.2)
      exact ⟨w₁, hround run⟩
    | digits hprompt => exact absurd hfails (hprompt g)
  · cases h with
    | prompt hf => exact absurd hf (hprompt f)
    | @digits tokens t _ hread ht hkind hlength hparse =>
      have hne := ne_nil_of_mem ht
      obtain ⟨w₂, hw₂, -⟩ := prints_trace
        ("tokenized: [" ++ Text.joinWith ", " (tokens.map Token.shown) ++ "]") w₁
      obtain ⟨w₃, -, hcases⟩ := perform_takeTokens_error hparse hne w₂
      rcases hcases with ⟨inside, hfailure, -⟩ | ⟨inside, expected, hfailure, -⟩ |
        ⟨d, -, -, -, hfailure, hfault⟩
      · cases hfailure
      · cases hfailure
      · refine ⟨w₃, ?_⟩
        rw [hround, hread, dealWith, perform_bind_ok hw₂, if_neg (by simpa using hne),
          hfault run, ← Fault.tooManyDigits.inj (Grammar.Failure.fault.inj hfailure)]

/-! ### A whole session -/

/-- What the loop relies on stays, round after round. -/
theorem Rounds.going {pending₀ : List Token} {n : Nat}
    (h : Rounds (interpret depth) k w₀ pending₀ n w pending) (hw₀ : Going none k w₀.store) :
    Going none k w.store := by
  have hnone : Unsure none := fun _ hl => nomatch hl
  have hkeeps (pending : List Token) :
      Keeps (Holding (Going none k)) (readRound (interpret depth) k pending) :=
    @readRound_keeps inputFrame ⟨none, hnone⟩ _ k (runs_input depth) pending
  exact h.holds hkeeps hw₀

/-- The loop is stopped by the end of the input, or by an `exit` that has been executed. -/
theorem Dealt.stops {pending' : List Token} (h : Dealt depth k w pending pending' w')
    (hgoing : (w.store.scopeAt k).looping = true) (hstop : (w'.store.scopeAt k).looping = false) :
    w.reading k pending = .atEnd ∧ pending = [] ∨ ExitExecuted depth k w pending := by
  have hpassed (hp : w.Passed k w') : False := by
    rw [hp.store, hgoing] at hstop
    cases hstop
  cases h with
  | stopped hread hpending => exact .inl ⟨hread, hpending⟩
  | givenUp _ hp | begun _ _ hp => exact (hpassed hp).elim
  | evaluated _ _ hexit =>
    refine .inr (hexit.resolve_left fun hlooping => ?_)
    rw [hlooping] at hstop
    cases hstop

/-- A session on a host. -/
def sessionOn (host : Host) (depth k : Nat) : Act Answer := do
  loopWith (roundOn host (interpret depth) k) k roundLimit []
  return .cell (← lookup k World.resultName)

theorem sessionOn_unlimited (depth k : Nat) :
    sessionOn .unlimited depth k = interpret (depth + 1) (.session k) := by
  have hrounds : roundOn .unlimited (interpret depth) k = readRound (interpret depth) k :=
    funext (roundOn_unlimited _ k)
  rw [sessionOn, hrounds]
  rfl

/-- A round on a host is fatal: the host objects to it, or else it is a deadly one. -/
def Fatal (host : Host) (depth k : Nat) (w : World) (pending : List Token) (f : Fault) : Prop :=
  host.objection (interpret depth) k w pending = some f ∨
    host.objection (interpret depth) k w pending = none ∧ Deadly w k pending f

/-- How a session on a host ends, after `n` rounds that have come to the world `w`. -/
inductive SessionEnd (host : Host) (depth k : Nat) (w₀ : World) (n : Nat) (w : World)
    (pending : List Token) : Except Fault Answer × World → Prop
  /-- The last round has stopped the loop, by the end of the input or by `exit`. -/
  | stopped {m c : Nat} {v : World} {before : List Token} (hrounds : n = m + 1)
      (hlast : Rounds (interpret depth) k w₀ [] m v before)
      (hstop : v.reading k before = .atEnd ∧ before = [] ∨ ExitExecuted depth k v before)
      (hfind : w.store.find? k World.resultName = some c) :
      SessionEnd host depth k w₀ n w pending (.ok (.cell c), w)
  /-- No more rounds are counted. -/
  | spent (hrounds : n = roundLimit) :
      SessionEnd host depth k w₀ n w pending (.error .nestedTooDeeply, w)
  /-- The next round is a fatal one. -/
  | killed {f : Fault} {w' : World} (h : Fatal host depth k w pending f) :
      SessionEnd host depth k w₀ n w pending (.error f, w')

section Hosted

variable {host : Host} (h : Going none k w.store) (hgoing : (w.store.scopeAt k).looping = true)

include h hgoing

/-- **One round on a host** fails if it is fatal, and else it is a round of the loop and deals with
the line that it reads. -/
theorem roundOn_dealt (host : Host) (depth : Nat) (pending : List Token) :
    (∃ f w', w.perform (roundOn host (interpret depth) k pending) = (.error f, w') ∧
      Fatal host depth k w pending f) ∨
    ∃ pending' w', w.perform (roundOn host (interpret depth) k pending) = (.ok pending', w') ∧
      w.perform (readRound (interpret depth) k pending) = (.ok pending', w') ∧
      Dealt depth k w pending pending' w' := by
  obtain ⟨c, hc⟩ := h.rooted.exists_find? h.scope (promptName_mem pending)
  have hheeds := perform_roundOn host (interpret depth) hc
  cases hobjects : host.objection (interpret depth) k w pending with
  | some f =>
    obtain ⟨w', hw'⟩ := hheeds.fails f hobjects
    exact .inl ⟨f, w', hw', .inl hobjects⟩
  | none =>
    rw [hheeds.same hobjects]
    rcases readRound_dealt depth pending h hgoing with ⟨f, w', hw', hdeadly⟩ | ⟨p, w', hw', hdealt⟩
    · exact .inl ⟨f, w', hw', .inr ⟨hobjects, hdeadly⟩⟩
    · exact .inr ⟨p, w', hw', hw', hdealt⟩

theorem roundOn_fails_iff (f : Fault) :
    (∃ w', w.perform (roundOn host (interpret depth) k pending) = (.error f, w')) ↔
      Fatal host depth k w pending f := by
  constructor
  · rintro ⟨w', hw'⟩
    rcases roundOn_dealt h hgoing host depth pending with ⟨g, w₁, hw₁, hfatal⟩ | ⟨p, w₁, hw₁, -⟩
    · obtain rfl := Except.error.inj (Prod.mk.inj (hw₁.symm.trans hw')).1
      exact hfatal
    · cases hw₁.symm.trans hw'
  · obtain ⟨c, hc⟩ := h.rooted.exists_find? h.scope (promptName_mem pending)
    have hheeds := perform_roundOn host (interpret depth) hc
    rintro (hobjects | ⟨hnone, hdeadly⟩)
    · exact hheeds.fails f hobjects
    · rw [hheeds.same hnone]
      exact hdeadly.fails hc

end Hosted

theorem exists_sessionEnd (host : Host) (depth : Nat) (h : Going none k w₀.store)
    (hgoing : (w₀.store.scopeAt k).looping = true) :
    ∃ n w pending, Rounds (interpret depth) k w₀ [] n w pending ∧
      SessionEnd host depth k w₀ n w pending (w₀.perform (sessionOn host depth k)) := by
  obtain ⟨n, w, pending, hrounds, hend⟩ := exists_loopEnd w₀ roundLimit
    fun {n w pending p w₁} hrounds hgoing hw₁ => by
      rcases roundOn_dealt (hrounds.going h) hgoing host depth pending with
        ⟨f, w', hw', -⟩ | ⟨p', w', hw', hshell, -⟩
      · cases hw'.symm.trans hw₁
      · cases hw'.symm.trans hw₁
        exact hshell
  refine ⟨n, w, pending, hrounds, ?_⟩
  have hw := hrounds.going h
  rw [sessionOn, perform_bind]
  rcases hloop : w₀.perform (loopWith (roundOn host (interpret depth) k) k roundLimit []) with
    ⟨r, w₁⟩
  rw [hloop] at hend
  cases hend with
  | spent hspent => exact .spent hspent
  | failed hgoing hfail => exact .killed ((roundOn_fails_iff hw hgoing _).mp ⟨_, hfail⟩)
  | stopped hstop =>
    obtain ⟨c, hc⟩ := hw.rooted.exists_find? hw.scope
      (show World.resultName ∈ loopNames by simp [loopNames])
    dsimp only
    rw [perform_bind_ok (perform_find hc)]
    cases hrounds with
    | start =>
      rw [hgoing] at hstop
      cases hstop
    | @next m v _ before _ hlast hgoing hround =>
      refine .stopped rfl hlast ?_ hc
      rcases readRound_dealt depth before (hlast.going h) hgoing with
        ⟨g, w', hw', -⟩ | ⟨p, w', hw', hdealt⟩
      · cases hw'.symm.trans hround
      · cases hw'.symm.trans hround
        exact hdealt.stops hgoing hstop

end Act

open Act

/-- **Nothing that is typed in ends a session**, but for two deadly cases and what the machine below
objects to. In a shell that is not debugged, whatever its surroundings are, whatever lines it reads
and on any host (the shell itself is the session on a host without objections):

* a round fails in the fatal cases and in no other, and else it deals with its line (`Act.Dealt`):
  what is no statement is given up with all that is pending, a statement is evaluated whatever comes
  of it, and the loop goes on until the end of the input is read with nothing pending, or an `exit`
  is executed;
* so the session ends in this way, or else in a fatal round. -/
theorem session_survives (x : Surroundings) (hx : x.debugging = false) (stream depth : Nat)
    (host : Host) :
    let w₀ := (World.start x).readFrom stream
    let k := w₀.session
    sessionOn .unlimited depth k = interpret (depth + 1) (.session k) ∧
    (∀ n w pending, Rounds (interpret depth) k w₀ [] n w pending →
      (w.store.scopeAt k).looping = true →
      (∀ f, (∃ w', w.perform (roundOn host (interpret depth) k pending) = (.error f, w')) ↔
        Fatal host depth k w pending f) ∧
      ((∀ f, ¬ Fatal host depth k w pending f) →
        ∃ pending' w', w.perform (roundOn host (interpret depth) k pending) = (.ok pending', w') ∧
          w.perform (readRound (interpret depth) k pending) = (.ok pending', w') ∧
          Dealt depth k w pending pending' w')) ∧
    ∃ n w pending, Rounds (interpret depth) k w₀ [] n w pending ∧
      SessionEnd host depth k w₀ n w pending (w₀.perform (sessionOn host depth k)) := by
  intro w₀ k
  obtain ⟨hstart, hlooping⟩ := x.going_start hx stream
  refine ⟨sessionOn_unlimited depth k, fun n w pending hrounds hgoing => ?_,
    exists_sessionEnd host depth hstart hlooping⟩
  have hw := hrounds.going hstart
  refine ⟨roundOn_fails_iff hw hgoing, fun hsafe => ?_⟩
  exact (roundOn_dealt hw hgoing host depth pending).resolve_left fun ⟨f, _, _, hf⟩ => hsafe f hf

/-- Plain surroundings, for a session that is typed in. -/
def typedIn (lines : List (Option String)) : Surroundings where
  args := []
  environment := []
  terminal := false
  width := 80
  debugging := false
  disk := { root := "", working := "/", home := "/home", files := [], folders := [] }
  network := { replies := [], broker := none, asked := 0, ticks := 0, sent := [], token := "" }
  streams := [lines]
  now := ⟨0⟩

/-- What is no statement, an interrupt in the middle of one, a name without a meaning, and the end. -/
def mishaps : List (Option String) :=
  [some "1 + )\n", some "[1,\n", none, some "x\n", some "exit\n"]

/-- A machine with little room, and without a code for letters beyond the first 128. -/
def smallHost : Host where
  reads tokens := if 5 < tokens.length then some .nestedTooDeeply else none
  shows text := if text.toList.all fun c => c.toNat < 128 then none else some .nestedTooDeeply

/-- Even on that machine the session ends as it should. -/
theorem session_survives_mishaps :
    (typedIn mishaps).debugging = false ∧ let w₀ := (World.start (typedIn mishaps)).readFrom 0
      let k := w₀.session
      (w₀.perform (sessionOn smallHost 2 k)).1.isOk = true ∧
        ∃ n w pending, Rounds (interpret 2) k w₀ [] n w pending ∧
          (w.reading k pending = .atEnd ∧ pending = [] ∨ ExitExecuted 2 k w pending) := by
  refine ⟨rfl, ?_⟩
  intro w₀ k
  have hok : (w₀.perform (sessionOn smallHost 2 k)).1.isOk = true := by decide +kernel
  refine ⟨hok, ?_⟩
  obtain ⟨-, -, n, w, pending, -, hend⟩ := session_survives (typedIn mishaps) rfl 0 2 smallHost
  generalize w₀.perform (sessionOn smallHost 2 k) = result at hok hend
  cases hend with
  | stopped _ hlast hstop => exact ⟨_, _, _, hlast, hstop⟩
  | spent | killed => cases hok

end Parley
