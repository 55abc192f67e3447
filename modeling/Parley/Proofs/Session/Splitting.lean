import Parley.Proofs.Session.Survival
import Parley.Proofs.World.Voice

/-!
# Lines that make up one statement

A statement may be written on one line or on several. The tokens of lines that are no finished
statement are kept, and parsed again together with those of the next line; blank lines and comments
add nothing to them. So it does not matter how the tokens of a statement are split into lines
(`Act.Splits`): the statement is evaluated once, when its last line has been read, in a world in
which nothing has happened but that the lines have been read and something has been written.

What has been written does differ: for every line the loop sets the title of the window and notes what
it has read (`Act.preface`). On a console that is no terminal, in a shell that is not debugged, this
is nothing.
-/

namespace Parley

open List

/-- The lines that are left in the input of a scope are replaced. -/
def World.feed (w : World) (k : Nat) (lines : List String) : World :=
  { w with streams := w.streams.setIfInBounds (w.store.scopeAt k).input (lines.map some) }

namespace World

variable {w v : World} {k : Nat} {line : String} {lines : List String}

theorem linesLeft_feed (hopen : (w.store.scopeAt k).input < w.streams.size) (lines : List String) :
    (w.feed k lines).linesLeft k = lines.map some := by
  simp [linesLeft, feed, hopen]

theorem withoutLine_feed (hopen : (w.store.scopeAt k).input < w.streams.size) (line : String)
    (lines : List String) : (w.feed k (line :: lines)).withoutLine k = w.feed k lines := by
  have hlines : (w.feed k (line :: lines)).linesLeft k = some line :: lines.map some :=
    linesLeft_feed hopen _
  rw [withoutLine, modify_tail hlines]
  simp [feed]

end World

namespace Act

open Grammar (parse)

/-! ### The lines of a statement -/

/-- The tokens of a line. -/
def lineTokens (line : String) : List Token :=
  (Token.scan line).toOption.getD []

/-- The tokens of several lines. -/
def tokensOf (lines : List String) : List Token :=
  lines.flatMap lineTokens

theorem tokensOf_cons (line : String) (lines : List String) :
    tokensOf (line :: lines) = lineTokens line ++ tokensOf lines :=
  flatMap_cons

theorem tokensOf_append (before after : List String) :
    tokensOf (before ++ after) = tokensOf before ++ tokensOf after :=
  flatMap_append

/-- The tokens are none, or the beginning of a statement. -/
def Open (tokens : List Token) : Prop :=
  tokens = [] ∨ ∃ inside, (parse tokens).result = .error (.unfinished inside)

/-- The lines can be read as tokens, which are `tokens` all together; and up to each line but the last
they are none, or the beginning of a statement. -/
structure Splits (lines : List String) (tokens : List Token) : Prop where
  scans : ∀ line ∈ lines, ∃ ts, Token.scan line = .ok ts
  tokens : tokensOf lines = tokens
  begun : ∀ n < lines.length, Open (tokensOf (lines.take n))

instance (tokens : List Token) : Decidable (Open tokens) :=
  decidable_of_iff
    (tokens = [] ∨ (match (parse tokens).result with
      | .error (.unfinished _) => true
      | _ => false) = true) <| by
    refine or_congr_right ⟨fun h => ?_, fun ⟨inside, h⟩ => by rw [h]⟩
    split at h
    · next inside heq => exact ⟨inside, heq⟩
    · cases h

instance (lines : List String) (tokens : List Token) : Decidable (Splits lines tokens) :=
  decidable_of_iff
    ((∀ line ∈ lines, (Token.scan line).isOk = true) ∧ tokensOf lines = tokens ∧
      ∀ n < lines.length, Open (tokensOf (lines.take n))) <| by
    have hscan (line : String) : (Token.scan line).isOk = true ↔ ∃ ts, Token.scan line = .ok ts := by
      cases Token.scan line <;> simp [Except.isOk, Except.toBool]
    simp only [hscan]
    exact ⟨fun ⟨hscans, htokens, hbegun⟩ => ⟨hscans, htokens, hbegun⟩,
      fun h => ⟨h.scans, h.tokens, h.begun⟩⟩

/-- The note about the tokens that have been read. -/
def tokenNote (tokens : List Token) : String :=
  "tokenized: [" ++ Text.joinWith ", " (tokens.map Token.shown) ++ "]"

/-- What is written in a round that leads to no statement: the title of the window, and notes about
the tokens and the attempt to parse them. -/
def roundText (w : World) (tokens : List Token) : String :=
  Terminal.setTitle w.console.terminal "restsh" ++ w.note (tokenNote tokens) ++
    if tokens.isEmpty then "" else String.join ((parse tokens).notes.map w.note)

/-- What is written for lines that lead to no statement, with the given tokens pending. -/
def linesText (w : World) : List Token → List String → String
  | _, [] => ""
  | pending, line :: lines =>
    roundText w (pending ++ lineTokens line) ++ linesText w (pending ++ lineTokens line) lines

/-- What is written for the lines before the last one of a statement; for all lines if there is no
statement. -/
def preface (w : World) (lines : List String) : String :=
  linesText w [] (if (tokensOf lines).isEmpty then lines else lines.dropLast)

/-- Nothing is written on a console that is no terminal, in a shell that is not debugged. -/
theorem linesText_eq_empty {w : World} (hterminal : w.console.terminal = false)
    (htracing : w.console.tracing = false) (pending : List Token) (lines : List String) :
    linesText w pending lines = "" := by
  have hnote (text : String) : w.note text = "" := by simp [World.note, htracing]
  have hnotes (texts : List String) : String.join (texts.map w.note) = "" := by
    induction texts with
    | nil => rfl
    | cons text texts ih => rw [map_cons, String.join_cons, hnote, ih, String.empty_append]
  have hround (tokens : List Token) : roundText w tokens = "" := by
    simp [roundText, Terminal.setTitle, hterminal, hnote, hnotes]
  induction lines generalizing pending with
  | nil => rfl
  | cons line lines ih => rw [linesText, hround, ih, String.empty_append]

/-! ### One line more -/

variable {w v : World} {k : Nat} {pending tokens : List Token} {line : String}

/-- From the world `v` the next line has been read, and the text has been written. -/
structure Read (v : World) (k : Nat) (text : String) (v' : World) : Prop where
  silent : v'.silent = (v.withoutLine k).silent
  output : v'.output = v.output ++ text
  orderly : v'.Orderly

theorem Read.uttered {text more : String} {v' u : World} (h : Read v k text v')
    (huttered : v'.Uttered more u) : Read v k (text ++ more) u :=
  ⟨huttered.silent.trans h.silent, by rw [huttered.output, h.output, String.append_assoc],
    huttered.orderly h.orderly⟩

/-- Reading a line writes nothing. -/
theorem exists_read (hv : v.Orderly) :
    ∃ v', v.perform (readLine (v.store.scopeAt k).input) = (.ok (v.nextLine k), v') ∧
      Read v k "" v' := by
  obtain ⟨v', hv', rfl | rfl⟩ := v.exists_readLine k
  · exact ⟨_, hv', rfl, String.append_empty.symm, hv⟩
  · refine ⟨_, hv', rfl, ?_, World.orderly_mark _⟩
    rw [World.output_mark (show (v.withoutLine k).Orderly from hv), String.append_empty]
    rfl

/-- A round that reads a line of tokens from a file. -/
theorem readRound_of_file (hfile : (v.store.scopeAt k).input ≠ 0) (hv : v.Orderly)
    (hline : v.nextLine k = .text line) (hscan : Token.scan line = .ok tokens)
    (pending : List Token) :
    ∃ v', Read v k (Terminal.setTitle v.console.terminal "restsh") v' ∧
      ∀ run, v.perform (readRound run k pending) =
        v'.perform (dealWith run k pending (.tokens (pending ++ tokens))) := by
  let titled := v.saying (Terminal.setTitle v.console.terminal "restsh")
  obtain ⟨v', hv', hread⟩ := exists_read (v := titled) hv
  have hreading : titled.reading k pending = .tokens (pending ++ tokens) := by
    have hnext : titled.nextLine k = .text line := hline
    have hinput : (titled.store.scopeAt k).input ≠ 0 := hfile
    rw [World.reading, hnext]
    simp only [hinput, if_false, hscan]
  refine ⟨v', ⟨hread.silent, ?_, hread.orderly⟩, fun run => ?_⟩
  · rw [hread.output, String.append_empty, World.output_saying]
  · rw [readRound, perform_bind_ok (perform_title v "restsh"),
      perform_bind_ok (perform_readTokens_of_file (w := titled) hfile hv'), hreading]

/-- Tokens that are no finished statement are kept. -/
theorem perform_dealWith_open (hopen : Open tokens) (k : Nat) (pending : List Token) (v : World) :
    ∃ v', v.Uttered (v.note (tokenNote tokens) ++
        if tokens.isEmpty then "" else String.join ((parse tokens).notes.map v.note)) v' ∧
      ∀ run, v.perform (dealWith run k pending (.tokens tokens)) = (.ok tokens, v') := by
  obtain ⟨v₁, hv₁, huttered₁⟩ := perform_trace v (tokenNote tokens)
  rcases hopen with rfl | ⟨inside, hparse⟩
  · refine ⟨v₁, ?_, fun run => perform_bind_ok hv₁ _⟩
    rwa [isEmpty_nil, if_pos rfl, String.append_empty]
  · have hne : tokens.isEmpty = false := by
      cases tokens with
      | nil => cases hparse
      | cons t ts => rfl
    obtain ⟨v₂, hv₂, huttered₂⟩ := perform_traceAll v₁ (parse tokens).notes
    rw [show v₁.note = v.note from funext (World.note_of_silent huttered₁.silent)] at huttered₂
    refine ⟨v₂, ?_, fun run => ?_⟩
    · rw [hne]
      exact huttered₁.trans huttered₂
    · refine (perform_bind_ok hv₁ _).trans ?_
      rw [hne, if_neg Bool.false_ne_true, takeTokens, perform_bind_ok hv₂, hparse]
      rfl

/-! ### The lines before the last -/

/-- From the world `w`, with other lines in the input of the scope, some lines are left, and the text
has been written. -/
structure Awaits (w : World) (k : Nat) (lines : List String) (text : String) (v : World) : Prop where
  silent : v.silent = (w.feed k lines).silent
  output : v.output = w.output ++ text
  orderly : v.Orderly

/-- The input of the scope is a file that is there, and its loop is going. -/
structure ReadsFile (w : World) (k : Nat) : Prop where
  going : (w.store.scopeAt k).looping = true
  file : (w.store.scopeAt k).input ≠ 0
  there : (w.store.scopeAt k).input < w.streams.size

variable {lines more : List String} {text : String}

section

variable (h : Awaits w k lines text v)

include h

theorem Awaits.store : v.store = w.store :=
  (World.store_eq_of_silent h.silent).trans rfl

theorem Awaits.note : v.note = w.note :=
  funext fun note => World.note_of_silent h.silent note

theorem Awaits.terminal : v.console.terminal = w.console.terminal := by
  show v.silent.console.terminal = w.console.terminal
  rw [h.silent]
  rfl

end

section

variable (h : Awaits w k (line :: lines) text v) (hw : ReadsFile w k)

include h hw

theorem Awaits.nextLine : v.nextLine k = .text line := by
  have hlines : v.linesLeft k = some line :: lines.map some := by
    have hstreams : v.silent.streams = (w.feed k (line :: lines)).streams := by
      rw [h.silent]
      rfl
    change v.streams = _ at hstreams
    rw [World.linesLeft, h.store, hstreams]
    exact World.linesLeft_feed hw.there (line :: lines)
  rw [World.nextLine, hlines]

/-- The next line has been read. -/
theorem Awaits.read {more : String} {v' : World} (hread : Read v k more v') :
    Awaits w k lines (text ++ more) v' where
  silent := by
    rw [hread.silent, World.silent_withoutLine, h.silent, ← World.silent_withoutLine,
      World.withoutLine_feed hw.there]
  output := by rw [hread.output, h.output, String.append_assoc]
  orderly := hread.orderly

/-- **A line that finishes no statement** is kept. -/
theorem Awaits.round (hscan : Token.scan line = .ok tokens) (hopen : Open (pending ++ tokens)) :
    ∃ v', Awaits w k lines (text ++ roundText w (pending ++ tokens)) v' ∧
      ∀ run, v.perform (readRound run k pending) = (.ok (pending ++ tokens), v') := by
  have hfile : (v.store.scopeAt k).input ≠ 0 := h.store ▸ hw.file
  obtain ⟨v₁, hread, hround⟩ := readRound_of_file hfile h.orderly (h.nextLine hw) hscan pending
  have hawaits := h.read hw hread
  obtain ⟨v₂, huttered, hdeal⟩ := perform_dealWith_open hopen k pending v₁
  refine ⟨v₂, ?_, fun run => (hround run).trans (hdeal run)⟩
  have htext := h.read hw (hread.uttered huttered)
  rw [hawaits.note, h.terminal] at htext
  rwa [roundText, String.append_assoc]

end

/-- **Lines that finish no statement** are kept, one after the other. -/
theorem Awaits.rounds (h : Awaits w k (lines ++ more) text v) (hw : ReadsFile w k)
    (hscans : ∀ line ∈ lines, ∃ ts, Token.scan line = .ok ts)
    (hopen : ∀ n ≤ lines.length, Open (pending ++ tokensOf (lines.take n))) :
    ∃ v', Awaits w k more (text ++ linesText w pending lines) v' ∧
      ∀ run m, v.perform (readStatements run k (lines.length + m) pending) =
        v'.perform (readStatements run k m (pending ++ tokensOf lines)) := by
  induction lines generalizing pending text v with
  | nil =>
    refine ⟨v, ⟨h.silent, ?_, h.orderly⟩, fun run m => ?_⟩
    · rw [linesText, String.append_empty]
      exact h.output
    · rw [length_nil, Nat.zero_add, tokensOf, flatMap_nil, append_nil]
  | cons line lines ih =>
    obtain ⟨⟨ts, hts⟩, hscans⟩ := forall_mem_cons.mp hscans
    have htokens : lineTokens line = ts := by rw [lineTokens, hts]; rfl
    have hfirst : Open (pending ++ ts) := by
      have hone := hopen 1 (by simp)
      rwa [take_succ_cons, take_zero, tokensOf, flatMap_singleton, htokens] at hone
    obtain ⟨v₁, hv₁, hround⟩ := h.round hw hts hfirst
    have hrest (n : Nat) (hn : n ≤ lines.length) :
        Open (pending ++ ts ++ tokensOf (lines.take n)) := by
      have hmore := hopen (n + 1) (Nat.succ_le_succ hn)
      rwa [take_succ_cons, tokensOf_cons, htokens, ← append_assoc] at hmore
    obtain ⟨v', hv', hrounds⟩ := ih hv₁ hscans hrest
    have hgoing : (v.store.scopeAt k).looping = true := h.store ▸ hw.going
    refine ⟨v', ?_, fun run m => ?_⟩
    · rwa [linesText, htokens, ← String.append_assoc]
    · rw [length_cons, Nat.add_right_comm, perform_readStatements_round hgoing (hround run),
        hrounds, tokensOf_cons, htokens, append_assoc]

/-! ### The last line -/

/-- What is done with the tokens of a statement once they have all been read. -/
def taking (run : Run) (k : Nat) (tokens : List Token) : Act (List Token) :=
  if tokens.isEmpty then pure [] else dealWith run k [] (.tokens tokens)

/-- What was pending before has no say in what is done with tokens. -/
theorem dealWith_eq_taking (hne : tokens ≠ []) (run : Run) (k : Nat) (pending : List Token) :
    dealWith run k pending (.tokens tokens) = taking run k tokens := by
  have htake : takeTokens run k pending tokens = takeTokens run k [] tokens := by
    rw [takeTokens, takeTokens]
    cases hparse : (parse tokens).result with
    | ok e => rfl
    | error failure =>
      rcases Grammar.parse_ordinary hne hparse with ⟨inside, expected, rfl⟩ | ⟨inside, rfl⟩ |
        ⟨t, -, -, -, rfl⟩ <;> rfl
  rw [taking, if_neg (by simpa using hne), dealWith, dealWith, htake]

theorem perform_bind_congr {α β : Type} {x y : Act α} {v v' : World}
    (h : v.perform x = v'.perform y) (f : α → Act β) :
    v.perform (x >>= f) = v'.perform (y >>= f) := by
  rw [perform_bind, perform_bind, h]

/-- **The lines of a statement lead to its evaluation**, and to nothing before that but what is
written. -/
theorem exists_taking (hw : ReadsFile w k) (horderly : w.Orderly) (h : Splits lines tokens)
    (rest : List String) :
    ∃ u, Awaits w k rest (preface w lines ++
        if tokens.isEmpty then "" else Terminal.setTitle w.console.terminal "restsh") u ∧
      ∀ run m, (w.feed k (lines ++ rest)).perform (readStatements run k (lines.length + m) []) =
        u.perform (taking run k tokens >>= readStatements run k m) := by
  have hstart (more : List String) : Awaits w k more "" (w.feed k more) :=
    ⟨rfl, String.append_empty.symm, horderly⟩
  obtain ⟨hscans, rfl, hbegun⟩ := h
  rcases eq_nil_or_concat lines with rfl | ⟨init, last, rfl⟩
  · refine ⟨w.feed k rest, hstart rest, fun run m => ?_⟩
    rw [length_nil, Nat.zero_add]
    rfl
  rw [concat_eq_append] at hscans hbegun ⊢
  by_cases hnone : tokensOf (init ++ [last]) = []
  · -- All of the lines are blank.
    have hopen (n : Nat) (_ : n ≤ (init ++ [last]).length) :
        Open ([] ++ tokensOf ((init ++ [last]).take n)) := by
      rw [← take_append_drop n (init ++ [last]), tokensOf_append] at hnone
      exact .inl (append_eq_nil_iff.mp hnone).1
    obtain ⟨u, hu, hrounds⟩ := (hstart _).rounds hw hscans hopen
    refine ⟨u, ?_, fun run m => ?_⟩
    · rw [preface, hnone, isEmpty_nil, if_pos rfl, if_pos rfl, String.append_empty]
      rwa [String.empty_append] at hu
    · rw [hrounds, hnone]
      rfl
  · have hinit (n : Nat) (hn : n ≤ init.length) : Open ([] ++ tokensOf (init.take n)) := by
      have hn' := hbegun n (by simp; omega)
      rwa [take_append_of_le_length hn] at hn'
    have hlines : init ++ [last] ++ rest = init ++ last :: rest := by simp
    obtain ⟨v, hv, hrounds⟩ := (hstart (init ++ last :: rest)).rounds hw
      (fun line hline => hscans line (mem_append_left _ hline)) hinit
    obtain ⟨ts, hts⟩ := hscans last (by simp)
    have htokens : tokensOf (init ++ [last]) = tokensOf init ++ ts := by
      rw [tokensOf_append, tokensOf, tokensOf, flatMap_singleton, lineTokens, hts]
      rfl
    have hfile : (v.store.scopeAt k).input ≠ 0 := hv.store ▸ hw.file
    have hgoing : (v.store.scopeAt k).looping = true := hv.store ▸ hw.going
    obtain ⟨u, hread, hround⟩ :=
      readRound_of_file hfile hv.orderly (hv.nextLine hw) hts (tokensOf init)
    refine ⟨u, ?_, fun run m => ?_⟩
    · have hu := hv.read hw hread
      rw [hv.terminal] at hu
      rwa [preface, isEmpty_eq_false_iff.mpr hnone, dropLast_concat]
    · have hlast : v.perform (readRound run k (tokensOf init)) =
          u.perform (taking run k (tokensOf (init ++ [last]))) := by
        rw [hround, ← htokens, dealWith_eq_taking hnone]
      rw [hlines, length_append, length_singleton, Nat.add_assoc, hrounds,
        Nat.add_comm 1 m, readStatements, loopWith, perform_bind_ok (perform_scopeAt v k),
        if_pos hgoing]
      exact perform_bind_congr hlast _

theorem taking_keeps {F : ScopeFrame} {i : F.Index} {run : Run} (hrun : Runs F run)
    (tokens : List Token) : Keeps (F.rel i k) (taking run k tokens) := by
  have htake := @takeTokens_keeps F i run k hrun []
  unfold taking dealWith
  grind

/-! ### Rounds that are not spent -/

/-- One round more at the beginning. -/
theorem Rounds.cons {run : Run} {n : Nat} {w₀ w₁ : World} {pending₀ pending₁ : List Token}
    (hgoing : (w₀.store.scopeAt k).looping = true)
    (hround : w₀.perform (readRound run k pending₀) = (.ok pending₁, w₁))
    (h : Rounds run k w₁ pending₁ n w pending) : Rounds run k w₀ pending₀ (n + 1) w pending := by
  induction h with
  | start => exact .next .start hgoing hround
  | next _ hgoing' hround' ih => exact .next ih hgoing' hround'

/-- A loop that does not go through all of its rounds does not need more of them. -/
theorem perform_readStatements_of_not_spent {run : Run} {rounds : Nat}
    (h : ∀ u p, ¬ Rounds run k w pending rounds u p) (more : Nat) :
    w.perform (readStatements run k (rounds + more) pending) =
      w.perform (readStatements run k rounds pending) := by
  induction rounds generalizing w pending with
  | zero => exact absurd .start (h w pending)
  | succ rounds ih =>
    rw [Nat.succ_add, readStatements, loopWith, loopWith, perform_bind_ok (perform_scopeAt w k),
      perform_bind_ok (perform_scopeAt w k)]
    cases hgoing : (w.store.scopeAt k).looping with
    | false => rfl
    | true =>
      rw [if_pos rfl, if_pos rfl, perform_bind, perform_bind]
      cases hround : w.perform (readRound run k pending) with
      | mk r w₁ =>
        cases r with
        | error f => rfl
        | ok pending₁ => exact ih fun u p hrest => h u p (hrest.cons hgoing hround)

/-! ### Two ways to split a statement -/

/-- Both runs come to the same: the same result, and the same world but for what has been written.
This is first what is written for the lines before the last one, and then the same. -/
structure SameRun {α : Type} (w : World) (first second : List String)
    (r r' : Except Fault α × World) : Prop where
  result : r.1 = r'.1
  silent : r.2.silent = r'.2.silent
  output : ∃ text, r.2.output = w.output ++ preface w first ++ text ∧
    r'.2.output = w.output ++ preface w second ++ text
  plain : w.console.terminal = false → w.console.tracing = false → r.2.output = r'.2.output

theorem Keeps.sameRun {α : Type} {first second : List String} {u u' : World} {x : Act α}
    (hx : Keeps (World.Prefaced (w.output ++ preface w first) (w.output ++ preface w second)) x)
    (hu : World.Prefaced (w.output ++ preface w first) (w.output ++ preface w second) u u') :
    SameRun w first second (u.perform x) (u'.perform x) := by
  obtain ⟨hresult, hsilent, ⟨text, hout, hout'⟩, -⟩ := hx hu
  refine ⟨hresult, hsilent, ⟨text, hout, hout'⟩, fun hterminal htracing => ?_⟩
  rw [hout, hout', preface, preface, linesText_eq_empty hterminal htracing,
    linesText_eq_empty hterminal htracing]

end Act

open Act

/-- **How a statement is split into lines does not matter.** Let a loop read a file, and let two lists
of lines make up the same tokens, and up to each of their lines but the last either no tokens or the
beginning of a statement. Then, whatever lines come after them:

* either list leads to the evaluation of these tokens in a world that is the world from before, with
  the lines read and something written;
* the rest of the loop comes to the same, after as many rounds as are given to it;
* so does the session, if neither loop runs out of rounds.

What has been written differs in the titles and the notes for the lines before the last one, and does
not differ on a console that is no terminal, in a shell that is not debugged (`Act.SameRun`). -/
theorem split_lines {w : World} {k : Nat} {first second : List String} {tokens : List Token}
    (hw : ReadsFile w k) (horderly : w.Orderly) (hfirst : Splits first tokens)
    (hsecond : Splits second tokens) (rest : List String) (depth : Nat) :
    let v := w.feed k (first ++ rest)
    let v' := w.feed k (second ++ rest)
    (∃ u u' : World, u.silent = (w.feed k rest).silent ∧ u'.silent = (w.feed k rest).silent ∧
      ∀ run rounds,
        v.perform (readStatements run k (first.length + rounds) []) =
          u.perform (taking run k tokens >>= readStatements run k rounds) ∧
        v'.perform (readStatements run k (second.length + rounds) []) =
          u'.perform (taking run k tokens >>= readStatements run k rounds)) ∧
    (∀ rounds, SameRun w first second
      (v.perform (readStatements (interpret depth) k (first.length + rounds) []))
      (v'.perform (readStatements (interpret depth) k (second.length + rounds) []))) ∧
    ((∀ u p, ¬ Rounds (interpret depth) k v [] roundLimit u p) →
      (∀ u p, ¬ Rounds (interpret depth) k v' [] roundLimit u p) →
      SameRun w first second (v.perform (interpret (depth + 1) (.session k)))
        (v'.perform (interpret (depth + 1) (.session k)))) := by
  intro v v'
  obtain ⟨u, hu, hrun⟩ := exists_taking hw horderly hfirst rest
  obtain ⟨u', hu', hrun'⟩ := exists_taking hw horderly hsecond rest
  let a := w.output ++ preface w first
  let b := w.output ++ preface w second
  have hprefaced : World.Prefaced a b u u' := by
    let titles := if tokens.isEmpty then "" else Terminal.setTitle w.console.terminal "restsh"
    refine ⟨hu.silent.trans hu'.silent.symm, ⟨titles, ?_, ?_⟩, hu.orderly, hu'.orderly⟩
    · rw [hu.output, ← String.append_assoc]
    · rw [hu'.output, ← String.append_assoc]
  -- What has been written before has no say in any task.
  have hruns := runs_everywhere (World.Prefaced.allows a b) depth
  have hkeeps (rounds : Nat) : Keeps (World.Prefaced a b)
      (taking (interpret depth) k tokens >>= readStatements (interpret depth) k rounds) :=
    Keeps.bind (@taking_keeps k _ () _ hruns tokens) fun pending =>
      @readStatements_keeps _ () _ k hruns rounds pending
  refine ⟨⟨u, u', hu.silent, hu'.silent, fun run rounds => ⟨hrun run rounds, hrun' run rounds⟩⟩,
    fun rounds => ?_, fun hspent hspent' => ?_⟩
  · rw [hrun, hrun']
    exact (hkeeps rounds).sameRun hprefaced
  · -- Neither loop needs more rounds than it has, so both can be given the rounds that they share.
    have hloop : v.perform (readStatements (interpret depth) k roundLimit []) =
        u.perform (taking (interpret depth) k tokens >>=
          readStatements (interpret depth) k roundLimit) := by
      rw [← hrun, ← perform_readStatements_of_not_spent hspent first.length, Nat.add_comm]
    have hloop' : v'.perform (readStatements (interpret depth) k roundLimit []) =
        u'.perform (taking (interpret depth) k tokens >>=
          readStatements (interpret depth) k roundLimit) := by
      rw [← hrun', ← perform_readStatements_of_not_spent hspent' second.length, Nat.add_comm]
    have hlast : Keeps (World.Prefaced a b) (lookup k World.resultName >>= fun c =>
        pure (Answer.cell c)) :=
      (Keeps.lookup k World.resultName).bind fun c => Keeps.pure _
    have hsession := ((hkeeps roundLimit).bind fun _ => hlast).sameRun hprefaced
    have hv := perform_bind_congr hloop fun _ => lookup k World.resultName >>= fun c =>
      pure (Answer.cell c)
    have hv' := perform_bind_congr hloop' fun _ => lookup k World.resultName >>= fun c =>
      pure (Answer.cell c)
    rwa [← hv, ← hv'] at hsession

/-- A shell whose session reads a file. -/
def readingFile (terminal : Bool) : World :=
  (World.start { typedIn [] with terminal, streams := [[], []] }).readFrom 1

/-- An array on one line, and on several with a blank line and a comment among them. -/
theorem split_lines_array :
    let w := readingFile true
    let k := w.session
    let first := ["let xs = [1,", "", "# the others", "2, 3]"]
    let second := ["let xs = [1, 2, 3]"]
    let rest := ["xs[1]"]
    Splits first (tokensOf second) ∧ Splits second (tokensOf second) ∧
      SameRun w first second
        ((w.feed k (first ++ rest)).perform (readStatements (interpret 5) k 7 []))
        ((w.feed k (second ++ rest)).perform (readStatements (interpret 5) k 4 [])) := by
  have hfirst : Splits ["let xs = [1,", "", "# the others", "2, 3]"]
      (tokensOf ["let xs = [1, 2, 3]"]) := by decide +kernel
  have hsecond : Splits ["let xs = [1, 2, 3]"] (tokensOf ["let xs = [1, 2, 3]"]) := by
    decide +kernel
  have hw : ReadsFile (readingFile true) (readingFile true).session :=
    ⟨by decide +kernel, by decide +kernel, by decide +kernel⟩
  obtain ⟨-, hsame, -⟩ := split_lines hw (fun _ => rfl) hfirst hsecond ["xs[1]"] 5
  exact ⟨hfirst, hsecond, hsame 3⟩

/-- On a terminal more is written for two lines than for one. -/
theorem split_lines_titles :
    let w := readingFile true
    let k := w.session
    Splits ["let x =", "1"] (tokensOf ["let x = 1"]) ∧
      Splits ["let x = 1"] (tokensOf ["let x = 1"]) ∧
      ((w.feed k ["let x =", "1"]).perform (interpret 5 (.session k))).2.output ≠
        ((w.feed k ["let x = 1"]).perform (interpret 5 (.session k))).2.output := by
  decide +kernel

end Parley
