import Parley.Proofs.Grammar.Failures
import Parley.Proofs.Store.Scopes
import Parley.Proofs.World.Output

/-!
# The rounds of the loop of a session

A round of the loop reads a line, and what it does then depends on what has been read
(`World.reading`): it stops the loop, gives up what is pending, or takes the tokens that are pending
together with those of the line. Up to that point nothing has happened but that the line has been
read and something has been written (`World.Passed`). The loop as a whole is one round after the
other (`Act.Rounds`): it ends when it is stopped, when a round fails, or when the rounds that it is
given are spent.
-/

namespace Parley

/-! ### Reading a line -/

namespace World

/-- The lines that are left in the input of a scope. -/
def linesLeft (w : World) (k : Nat) : List (Option String) :=
  w.streams[(w.store.scopeAt k).input]?.getD []

/-- The next line of the input of a scope. -/
def nextLine (w : World) (k : Nat) : Line :=
  match w.linesLeft k with
  | [] => .atEnd
  | none :: _ => .interrupted
  | some line :: _ => .text line

/-- What reading a line comes to: the tokens that are pending and those of the line, if it is a line
of tokens. -/
def reading (w : World) (k : Nat) (pending : List Token) : Act.Reading :=
  match w.nextLine k with
  | .atEnd => .atEnd
  | .interrupted => .interrupted
  | .text line =>
    match Token.scan (if (w.store.scopeAt k).input = 0 then Act.withoutLineFeed line else line) with
    | .ok tokens => .tokens (pending ++ tokens)
    | .error f => .refused f.message

/-- The name of the prompt. -/
def promptName (pending : List Token) : String :=
  if pending.isEmpty then "*prompt" else "*continue"

/-- The text of the prompt, or the reason why there is none. -/
def prompt (w : World) (k : Nat) (pending : List Token) : Except Fault String :=
  match w.store.valueOf? k (promptName pending) with
  | some v => ((w.store.shape v).write .pasted).result
  | none => .ok ""

/-- The prompt cannot be written for this reason. -/
def PromptFails (w : World) (k : Nat) (pending : List Token) (f : Fault) : Prop :=
  (w.store.scopeAt k).input = 0 ∧ w.prompt k pending = .error f

/-- Without the next line of the input of a scope. -/
def withoutLine (w : World) (k : Nat) : World :=
  { w with streams := w.streams.modify (w.store.scopeAt k).input List.tail }

/-- Between the two worlds the next line of the input of a scope has been read, something may have
been written, and that is all. -/
structure Passed (w : World) (k : Nat) (w' : World) : Prop where
  silent : w'.silent = (w.withoutLine k).silent

variable {w w' w'' : World} {k stream : Nat}

theorem silent_withoutLine (w : World) (k : Nat) :
    (w.withoutLine k).silent = w.silent.withoutLine k := rfl

theorem Passed.store (h : w.Passed k w') : w'.store = w.store :=
  (store_eq_of_silent h.silent).trans rfl

theorem Passed.streams (h : w.Passed k w') :
    w'.streams = w.streams.modify (w.store.scopeAt k).input List.tail :=
  congrArg World.streams h.silent

theorem Passed.said (h : w.Passed k w') (hsaid : w'.Said w'') : w.Passed k w'' :=
  ⟨hsaid.silent.trans h.silent⟩

/-- What has been written has no say in what is read. -/
theorem Said.passed (hsaid : w.Said w') (h : w'.Passed k w'') : w.Passed k w'' := by
  refine ⟨h.silent.trans ?_⟩
  rw [silent_withoutLine, silent_withoutLine, hsaid.silent]

theorem Said.reading_eq (hsaid : w.Said w') (pending : List Token) :
    w'.reading k pending = w.reading k pending := by
  unfold reading nextLine linesLeft
  rw [hsaid.store, hsaid.streams]

theorem Said.prompt_eq (hsaid : w.Said w') (pending : List Token) :
    w'.prompt k pending = w.prompt k pending := by
  rw [prompt, prompt, hsaid.store]

/-- Taking the first line from a stream. -/
theorem modify_tail {streams : Array (List (Option String))}
    {line : Option String} {rest : List (Option String)}
    (h : streams[stream]?.getD [] = line :: rest) :
    streams.modify stream List.tail = streams.setIfInBounds stream rest := by
  refine Array.ext_getElem? fun j => ?_
  rw [Array.getElem?_modify]
  by_cases hj : stream = j
  · subst hj
    cases hs : streams[stream]? with
    | none =>
      rw [hs] at h
      cases h
    | some lines =>
      rw [hs] at h
      obtain rfl : lines = line :: rest := h
      obtain ⟨hlt, -⟩ := Array.getElem?_eq_some_iff.mp hs
      simp [hlt]
  · simp [hj]

theorem modify_tail_of_nil {streams : Array (List (Option String))}
    (h : streams[stream]?.getD [] = []) : streams.modify stream List.tail = streams := by
  refine Array.ext_getElem? fun j => ?_
  rw [Array.getElem?_modify]
  by_cases hj : stream = j
  · subst hj
    cases hs : streams[stream]? with
    | none => simp
    | some lines =>
      rw [hs] at h
      obtain rfl : lines = [] := h
      simp
  · simp [hj]

/-- **Reading a line** takes it from the input, and may begin a new entry of the transcript. -/
theorem exists_readLine (w : World) (k : Nat) :
    ∃ w', w.perform (Act.readLine (w.store.scopeAt k).input) = (.ok (w.nextLine k), w') ∧
      (w' = w.withoutLine k ∨ w' = (w.withoutLine k).mark) := by
  rw [Act.readLine, Act.perform_modifyGet, nextLine]
  cases hlines : w.linesLeft k with
  | nil =>
    rw [linesLeft] at hlines
    refine ⟨w, by simp only [hlines], .inl ?_⟩
    rw [withoutLine, modify_tail_of_nil hlines]
  | cons line rest =>
    rw [linesLeft] at hlines
    simp only [hlines]
    refine ⟨_, by cases line <;> rfl, ?_⟩
    rw [withoutLine, modify_tail hlines]
    split
    · exact .inr rfl
    · exact .inl rfl

theorem passed_of_line (h : w' = w.withoutLine k ∨ w' = (w.withoutLine k).mark) :
    w.Passed k w' := by
  rcases h with rfl | rfl
  · exact ⟨rfl⟩
  · exact ⟨rfl⟩

end World

namespace Act

open Grammar (parse)

open World (promptName)

variable {w w' : World} {k c : Nat} {pending tokens pending₀ : List Token} {run : Run} {f : Fault}
  {e : Expr}

theorem prints_complain (message : String) : Prints (complain message) :=
  prints_red.bind ((prints_print message).bind prints_reset)

/-! ### The prompt -/

/-- The prompt is written if it has a text. -/
theorem perform_writePrompt (hfind : w.store.find? k (promptName pending) = some c) :
    ∃ w', w.perform (writePrompt k pending) = ((w.prompt k pending).map fun _ => (), w') ∧
      w.Said w' := by
  have hvalue : w.store.valueOf? k (promptName pending) = some (w.store.cellValue c) := by
    rw [Store.valueOf?, hfind]
    rfl
  obtain ⟨w₁, hw₁, hsaid⟩ := perform_ofTraced ((w.store.shape (w.store.cellValue c)).write .pasted) w
  have hpasted : w.perform (pasted (w.store.cellValue c)) = (w.prompt k pending, w₁) := by
    rw [pasted, written, perform_getStore_bind, hw₁, World.prompt, hvalue]
  show ∃ w', w.perform (lookupValue k (promptName pending) >>= fun v => pasted v >>= write) = _ ∧ _
  rw [perform_bind_ok (perform_lookupValue hfind), perform_bind, hpasted]
  cases w.prompt k pending with
  | ok text =>
    obtain ⟨w₂, hw₂, hsaid₂⟩ := prints_write text w₁
    exact ⟨w₂, hw₂, hsaid.trans hsaid₂⟩
  | error f => exact ⟨w₁, rfl, hsaid⟩

/-- What a line that has been read comes to. -/
theorem perform_reading (w w' : World) (k : Nat) (pending : List Token) :
    w'.perform (match w.nextLine k with
      | .atEnd => pure .atEnd
      | .interrupted => pure .interrupted
      | .text line =>
        match Token.scan (if (w.store.scopeAt k).input = 0 then withoutLineFeed line else line) with
        | .ok tokens => pure (.tokens (pending ++ tokens))
        | .error f => pure (.refused f.message)) = (.ok (w.reading k pending), w') := by
  rw [World.reading]
  cases w.nextLine k with
  | text line =>
    dsimp only
    cases Token.scan _ <;> rfl
  | _ => rfl

/-- Only the standard input has a prompt. -/
theorem perform_readTokens_of_file (hfile : (w.store.scopeAt k).input ≠ 0)
    (hline : w.perform (readLine (w.store.scopeAt k).input) = (.ok (w.nextLine k), w')) :
    w.perform (readTokens k pending) = (.ok (w.reading k pending), w') := by
  rw [readTokens, perform_bind_ok (perform_scopeAt w k)]
  rw [if_neg hfile, perform_bind_ok hline]
  exact perform_reading w w' k pending

/-- Reading goes on as soon as the prompt has been written. -/
theorem perform_readTokens_of_prompt (hprompt : (w.store.scopeAt k).input = 0 →
      ∃ w₁, w.perform (writePrompt k pending) = (.ok (), w₁) ∧ w.Said w₁) :
    ∃ w', w.perform (readTokens k pending) = (.ok (w.reading k pending), w') ∧ w.Passed k w' := by
  by_cases hzero : (w.store.scopeAt k).input = 0
  · obtain ⟨w₁, hw₁, hsaid⟩ := hprompt hzero
    obtain ⟨w', hw', hline⟩ := w₁.exists_readLine k
    have hnext : w₁.nextLine k = w.nextLine k := by
      rw [World.nextLine, World.nextLine, World.linesLeft, World.linesLeft, hsaid.store,
        hsaid.streams]
    rw [hsaid.store, hnext] at hw'
    refine ⟨w', ?_, hsaid.passed (World.passed_of_line hline)⟩
    rw [readTokens, perform_bind_ok (perform_scopeAt w k)]
    rw [if_pos hzero, perform_bind_ok hw₁, perform_bind_ok hw']
    exact perform_reading w w' k pending
  · obtain ⟨w', hw', hline⟩ := w.exists_readLine k
    exact ⟨w', perform_readTokens_of_file hzero hw', World.passed_of_line hline⟩

/-- Without a prompt nothing is read. -/
theorem perform_readTokens_of_fault (hzero : (w.store.scopeAt k).input = 0)
    (hprompt : w.perform (writePrompt k pending) = (.error f, w')) :
    w.perform (readTokens k pending) = (.error f, w') := by
  rw [readTokens, perform_bind_ok (perform_scopeAt w k)]
  rw [if_pos hzero, perform_bind, hprompt]

/-! ### One round -/

/-- **The first half of a round** reads a line, unless the prompt cannot be written. -/
theorem perform_readTokens_cases (hfind : w.store.find? k (promptName pending) = some c) :
    ∃ w₀, w.perform (title "restsh") = (.ok (), w₀) ∧ w.Said w₀ ∧
      ((∃ f w₁, w.PromptFails k pending f ∧ w₀.perform (readTokens k pending) = (.error f, w₁)) ∨
        (∀ f, ¬ w.PromptFails k pending f) ∧ ∃ w₁, w.Passed k w₁ ∧
          w₀.perform (readTokens k pending) = (.ok (w.reading k pending), w₁)) := by
  obtain ⟨w₀, hw₀, hsaid₀⟩ := prints_title "restsh" w
  refine ⟨w₀, hw₀, hsaid₀, ?_⟩
  rw [← hsaid₀.store] at hfind
  obtain ⟨w₁, hw₁, hsaid₁⟩ := perform_writePrompt hfind
  by_cases hfails : ∃ f, w.PromptFails k pending f
  · obtain ⟨f, hzero, hprompt⟩ := hfails
    refine .inl ⟨f, w₁, ⟨hzero, hprompt⟩, perform_readTokens_of_fault (hsaid₀.store ▸ hzero) ?_⟩
    rw [hw₁, hsaid₀.prompt_eq, hprompt]
    rfl
  · have hprompt (hzero : (w₀.store.scopeAt k).input = 0) :
        ∃ w₁, w₀.perform (writePrompt k pending) = (.ok (), w₁) ∧ w₀.Said w₁ := by
      cases hprompt : w₀.prompt k pending with
      | ok text => exact ⟨w₁, by rw [hw₁, hprompt]; rfl, hsaid₁⟩
      | error f =>
        rw [hsaid₀.store] at hzero
        rw [hsaid₀.prompt_eq] at hprompt
        exact absurd ⟨f, hzero, hprompt⟩ hfails
    obtain ⟨w₂, hw₂, hpassed⟩ := perform_readTokens_of_prompt hprompt
    rw [hsaid₀.reading_eq] at hw₂
    exact .inr ⟨not_exists.mp hfails, w₂, hsaid₀.passed hpassed, hw₂⟩

/-- **A round of the loop** reads a line and deals with it, unless the prompt cannot be written. -/
theorem perform_readRound_cases (hfind : w.store.find? k (promptName pending) = some c) :
    (∃ f w₁, w.PromptFails k pending f ∧
      ∀ run, w.perform (readRound run k pending) = (.error f, w₁)) ∨
    (∀ f, ¬ w.PromptFails k pending f) ∧ ∃ w₁, w.Passed k w₁ ∧
      ∀ run, w.perform (readRound run k pending) =
        w₁.perform (dealWith run k pending (w.reading k pending)) := by
  obtain ⟨w₀, hw₀, -, hcases⟩ := perform_readTokens_cases hfind
  refine hcases.imp ?_ (And.imp_right ?_)
  · rintro ⟨f, w₁, hfails, hw₁⟩
    refine ⟨f, w₁, hfails, fun run => ?_⟩
    rw [readRound, perform_bind_ok hw₀, perform_bind, hw₁]
  · rintro ⟨w₁, hpassed, hw₁⟩
    refine ⟨w₁, hpassed, fun run => ?_⟩
    rw [readRound, perform_bind_ok hw₀, perform_bind_ok hw₁]

/-! ### Taking tokens -/

/-- Tokens that are no finished statement are kept if more can follow, and given up otherwise. -/
theorem perform_takeTokens_error {failure : Grammar.Failure}
    (hparse : (parse tokens).result = .error failure) (hne : tokens ≠ []) (w : World) :
    ∃ w₁, w.Said w₁ ∧ ((∃ inside, failure = .unfinished inside ∧
          ∀ run, w.perform (takeTokens run k pending tokens) = (.ok tokens, w₁)) ∨
        (∃ inside expected, failure = .rejected inside expected false ∧
          ∀ run, w.perform (takeTokens run k pending tokens) = (.ok [], w₁)) ∨
        ∃ t ∈ tokens, t.kind = .integer ∧ Number.digitLimit < t.text.length ∧
          failure = .fault (.tooManyDigits t.text.length) ∧
          ∀ run, w.perform (takeTokens run k pending tokens) =
            (.error (.tooManyDigits t.text.length), w₁)) := by
  obtain ⟨w₁, hw₁, hsaid₁⟩ := prints_traceAll (parse tokens).notes w
  rcases Grammar.parse_ordinary hne hparse with ⟨inside, expected, rfl⟩ | ⟨inside, rfl⟩ |
    ⟨t, ht, hkind, hlen, rfl⟩
  · obtain ⟨w₂, hw₂, hsaid₂⟩ := prints_complain
      ("parse error, expected one of: " ++ Text.joinWith ", " (expectedNames expected)) w₁
    refine ⟨w₂, hsaid₁.trans hsaid₂, .inr (.inl ⟨inside, expected, rfl, fun run => ?_⟩)⟩
    rw [takeTokens, perform_bind_ok hw₁, hparse]
    exact perform_bind_ok hw₂ _
  · refine ⟨w₁, hsaid₁, .inl ⟨inside, rfl, fun run => ?_⟩⟩
    rw [takeTokens, perform_bind_ok hw₁, hparse]
    rfl
  · refine ⟨w₁, hsaid₁, .inr (.inr ⟨t, ht, hkind, hlen, rfl, fun run => ?_⟩)⟩
    rw [takeTokens, perform_bind_ok hw₁, hparse]
    rfl

/-- What is done about the failure of a statement is said on the console. This fails in turn only if
the scope is strict. -/
theorem perform_afterFailure (k : Nat) (g : Fault) (w : World) :
    w.Said (w.perform (afterFailure k g)).2 ∧
      ∀ f w', w.perform (afterFailure k g) = (.error f, w') → (w'.store.scopeAt k).strict = true := by
  unfold afterFailure
  split
  · rw [perform_bind_ok (perform_scopeAt w k)]
    split
    · obtain ⟨w₁, hw₁, hsaid⟩ := prints_red.bind prints_reset w
      rw [hw₁]
      exact ⟨hsaid, by rintro _ _ ⟨⟩⟩
    · exact ⟨.refl w, by rintro _ _ ⟨⟩⟩
  · obtain ⟨w₁, hw₁, hsaid⟩ := prints_complain ("INTERNAL INTERPRETER ERROR: " ++ g.message) w
    rw [perform_bind_ok hw₁, perform_bind_ok (perform_scopeAt w₁ k)]
    split
    · next hstrict => exact ⟨hsaid, by rintro _ _ ⟨⟩; exact hstrict⟩
    · exact ⟨hsaid, by rintro _ _ ⟨⟩⟩

/-- A statement ends nothing but itself, unless its scope is strict. -/
theorem strict_of_tryStatement (h : w.perform (tryStatement run k e) = (.error f, w')) :
    (w'.store.scopeAt k).strict = true := by
  rw [tryStatement, perform_tryCatch] at h
  rcases hrun : w.perform (runStatement run k e) with ⟨g | _, w₁⟩
  · rw [hrun] at h
    exact (perform_afterFailure k g w₁).2 f w' h
  · rw [hrun] at h
    cases h

/-- A finished statement is evaluated, whatever comes of it, unless its scope is strict. -/
theorem perform_takeTokens_ok (hparse : (parse tokens).result = .ok e) (run : Run) (w : World) :
    (∃ w', w.perform (takeTokens run k pending tokens) = (.ok [], w')) ∨
      ∃ f w', w.perform (takeTokens run k pending tokens) = (.error f, w') ∧
        (w'.store.scopeAt k).strict = true := by
  obtain ⟨w₁, hw₁, -⟩ := prints_traceAll (parse tokens).notes w
  rw [takeTokens, perform_bind_ok hw₁, hparse]
  rw [perform_withStore_bind, perform_bind]
  split
  · next w' _ => exact .inl ⟨w', rfl⟩
  · next f w' htry => exact .inr ⟨f, w', rfl, strict_of_tryStatement htry⟩

/-! ### One round after the other -/

/-- The loop has gone through some rounds: the world it has come to, and what is pending then. -/
inductive Rounds (run : Run) (k : Nat) (w₀ : World) (pending₀ : List Token) :
    Nat → World → List Token → Prop
  | start : Rounds run k w₀ pending₀ 0 w₀ pending₀
  | next {n : Nat} {w w₁ : World} {pending pending₁ : List Token}
      (h : Rounds run k w₀ pending₀ n w pending) (hgoing : (w.store.scopeAt k).looping = true)
      (hround : w.perform (readRound run k pending) = (.ok pending₁, w₁)) :
      Rounds run k w₀ pending₀ (n + 1) w₁ pending₁

/-- What every round keeps of the store is kept by one round after the other. -/
theorem Rounds.holds {P : Store → Prop}
    (hround : ∀ pending, Keeps (Holding P) (readRound run k pending)) {w₀ : World}
    {n : Nat} (h : Rounds run k w₀ pending₀ n w pending)
    (hw₀ : P w₀.store) : P w.store := by
  induction h with
  | start => exact hw₀
  | @next _ _ _ pending _ _ _ heq ih =>
    have hkept := (hround pending).holds ih
    rwa [heq] at hkept

theorem perform_readStatements_round {w₁ : World} {pending₁ : List Token}
    (hgoing : (w.store.scopeAt k).looping = true)
    (h : w.perform (readRound run k pending) = (.ok pending₁, w₁)) (rounds : Nat) :
    w.perform (readStatements run k (rounds + 1) pending) =
      w₁.perform (readStatements run k rounds pending₁) := by
  rw [readStatements, loopWith, perform_bind_ok (perform_scopeAt w k), if_pos hgoing, perform_bind_ok h]

/-- How the loop ends after some rounds: it is stopped, its rounds are spent, or a round fails. -/
inductive LoopEnd (round : List Token → Act (List Token)) (k n rounds : Nat) (w : World)
    (pending : List Token) : Except Fault Unit × World → Prop
  | stopped (h : (w.store.scopeAt k).looping = false) :
      LoopEnd round k n rounds w pending (.ok (), w)
  | spent (h : n = rounds) : LoopEnd round k n rounds w pending (.error .nestedTooDeeply, w)
  | failed {f : Fault} {w' : World} (hgoing : (w.store.scopeAt k).looping = true)
      (h : w.perform (round pending) = (.error f, w')) :
      LoopEnd round k n rounds w pending (.error f, w')

/-- **The loop ends after some rounds**, and they are rounds of the shell, if its rounds are those of
the shell as long as they do not fail. -/
theorem exists_loopEnd {k : Nat} (w₀ : World) {round : List Token → Act (List Token)} (rounds : Nat)
    (hround : ∀ {n w pending pending₁ w₁}, Rounds run k w₀ pending₀ n w pending →
      (w.store.scopeAt k).looping = true → w.perform (round pending) = (.ok pending₁, w₁) →
      w.perform (readRound run k pending) = (.ok pending₁, w₁)) :
    ∃ n w pending, Rounds run k w₀ pending₀ n w pending ∧
      LoopEnd round k n rounds w pending (w₀.perform (loopWith round k rounds pending₀)) := by
  -- The rounds that are left are counted down, and those that have been gone through up.
  have hleft (left : Nat) : ∀ {n w pending}, Rounds run k w₀ pending₀ n w pending →
      ∃ n' w' pending', Rounds run k w₀ pending₀ n' w' pending' ∧
        LoopEnd round k n' (n + left) w' pending' (w.perform (loopWith round k left pending)) := by
    induction left with
    | zero => exact fun {n w pending} h => ⟨n, w, pending, h, .spent rfl⟩
    | succ left ih =>
      intro n w pending h
      rw [loopWith, perform_bind_ok (perform_scopeAt w k)]
      cases hgoing : (w.store.scopeAt k).looping with
      | false => exact ⟨n, w, pending, h, .stopped hgoing⟩
      | true =>
        rw [if_pos rfl, perform_bind]
        rcases hw₁ : w.perform (round pending) with ⟨f | pending₁, w₁⟩
        · exact ⟨n, w, pending, h, .failed hgoing hw₁⟩
        · rw [Nat.add_comm left 1, ← Nat.add_assoc]
          exact ih (h.next hgoing (hround h hgoing hw₁))
  have hall := hleft rounds .start
  rwa [Nat.zero_add] at hall

end Act

end Parley
