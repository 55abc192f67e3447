import Parley.Proofs.World.Output

/-!
# What has been written

The texts that titles and notes put on the console, and what becomes of them: all that has been
written in a world (`World.output`) grows at its end, and setting down an entry of the transcript
leaves it as it is. Two worlds that differ in what has been written up to some moment, and in nothing
else, go on writing the same (`World.Prefaced`), since no action looks at what has been written.
-/

namespace Parley

open String

namespace World

variable {w w' : World}

theorem saying_saying (w : World) (a b : String) : (w.saying a).saying b = w.saying (a ++ b) := by
  simp [saying, append_assoc]

theorem output_saying (w : World) (text : String) : (w.saying text).output = w.output ++ text := by
  simp [saying, output, append_assoc]

/-- As long as the transcript has no opening it has no entries. -/
def Orderly (w : World) : Prop :=
  w.transcript.opening = none → w.transcript.entries = []

theorem orderly_mark (w : World) : w.mark.Orderly := by
  intro hnone
  unfold mark at hnone
  cases hopening : w.transcript.opening <;> simp [hopening] at hnone

/-- What has been written stays written if an entry is set down. -/
theorem output_mark (h : w.Orderly) : w.mark.output = w.output := by
  unfold mark output
  cases hopening : w.transcript.opening with
  | none => simp [h hopening]
  | some text => simp [hopening, entry, append_assoc]

/-- The text of a note that the shell takes of its own work, if it shows such notes. -/
def note (w : World) (text : String) : String :=
  if w.console.tracing then
    (Terminal.setBackground w.console.terminal "purple").toOption.getD "" ++ "   " ++
      Terminal.reset w.console.terminal ++ (" " ++ text ++ "\n")
  else ""

/-- The world after an error has been reported: its message is written, in red on a terminal, and
remembered in the scope. -/
def erring (w : World) (scope : Nat) (message : String) : World :=
  let red := (Terminal.setForeground w.console.terminal "red").toOption.getD ""
  let text := red ++ ("error: " ++ message ++ "\n" ++ Terminal.reset w.console.terminal)
  { ((w.saying text).given (.foreground "red")).given .reset with
    store := w.store.modifyScope scope fun sc => { sc with lastError := some message } }

/-- Between the two worlds the text has been written, perhaps with commands about colours, and that is
all. -/
structure Uttered (w : World) (text : String) (w' : World) : Prop where
  silent : w'.silent = w.silent
  output : w'.output = w.output ++ text
  orderly : w.Orderly → w'.Orderly

theorem uttered_saying (w : World) (text : String) : w.Uttered text (w.saying text) :=
  ⟨rfl, w.output_saying text, id⟩

theorem uttered_given (w : World) (c : Terminal.Command) : w.Uttered "" (w.given c) :=
  ⟨rfl, append_empty.symm, id⟩

theorem Uttered.trans {u : World} {a b : String} (h₁ : w.Uttered a w') (h₂ : w'.Uttered b u) :
    w.Uttered (a ++ b) u :=
  ⟨h₂.silent.trans h₁.silent, by rw [h₂.output, h₁.output, append_assoc],
    fun h => h₂.orderly (h₁.orderly h)⟩

theorem note_of_silent (h : w'.silent = w.silent) (text : String) : w'.note text = w.note text := by
  have hterminal : w'.silent.console.terminal = w.silent.console.terminal := by rw [h]
  have htracing : w'.silent.console.tracing = w.silent.console.tracing := by rw [h]
  rw [silent_terminal, silent_terminal] at hterminal
  rw [silent_tracing, silent_tracing] at htracing
  rw [note, note, hterminal, htracing]

end World

namespace Act

variable (w : World)

theorem perform_title (text : String) :
    w.perform (title text) = (.ok (), w.saying (Terminal.setTitle w.console.terminal text)) := rfl

theorem perform_foreground {name code : String}
    (h : Terminal.setForeground w.console.terminal name = .ok code) :
    w.perform (foreground name) = (.ok (), (w.saying code).given (.foreground name)) := by
  rw [foreground, perform_get_bind, h]
  rfl

theorem perform_background {name code : String}
    (h : Terminal.setBackground w.console.terminal name = .ok code) :
    w.perform (background name) = (.ok (), (w.saying code).given (.background name)) := by
  rw [background, perform_get_bind, h]
  rfl

theorem perform_reset : w.perform reset =
    (.ok (), (w.saying (Terminal.reset w.console.terminal)).given .reset) := rfl

/-- An error is reported, and then it is a failure with its message. -/
theorem perform_error (α : Type) (scope : Nat) (message : String) :
    w.perform (error scope message : Act α) =
      (.error (.evaluation message), w.erring scope message) := by
  obtain ⟨code, hcode⟩ : ∃ code, Terminal.setForeground w.console.terminal "red" = .ok code := by
    cases w.console.terminal <;> exact ⟨_, rfl⟩
  have htext : w.saying (code ++ ("error: " ++ message ++ "\n" ++ Terminal.reset w.console.terminal)) =
      ((w.saying code).saying ("error: " ++ message ++ "\n")).saying
        (Terminal.reset w.console.terminal) := by
    rw [World.saying_saying, World.saying_saying]
  rw [error, perform_bind_ok (perform_foreground w hcode), World.erring, hcode]
  exact congrArg (fun u : World => (Except.error (Fault.evaluation message),
    { (u.given (.foreground "red")).given .reset with
      store := w.store.modifyScope scope fun sc => { sc with lastError := some message } })) htext.symm

/-- A note is written as it is, if notes are shown. -/
theorem perform_trace (text : String) :
    ∃ w', w.perform (trace text) = (.ok (), w') ∧ w.Uttered (w.note text) w' := by
  rw [trace, perform_get_bind, World.note]
  split
  · obtain ⟨code, hcode⟩ : ∃ code, Terminal.setBackground w.console.terminal "purple" = .ok code := by
      cases w.console.terminal <;> exact ⟨_, rfl⟩
    rw [perform_bind_ok (perform_background w hcode), hcode]
    refine ⟨_, rfl, ?_⟩
    have huttered := (((((w.uttered_saying code).trans (World.uttered_given _ (.background "purple"))).trans
      (World.uttered_saying _ "   ")).trans (World.uttered_saying _ (Terminal.reset w.console.terminal))).trans
      (World.uttered_given _ .reset)).trans (World.uttered_saying _ (" " ++ text ++ "\n"))
    rwa [append_empty, append_empty] at huttered
  · exact ⟨w, rfl, rfl, append_empty.symm, id⟩

theorem perform_traceAll (texts : List String) :
    ∃ w', w.perform (traceAll texts) = (.ok (), w') ∧
      w.Uttered (join (texts.map w.note)) w' := by
  induction texts generalizing w with
  | nil => exact ⟨w, rfl, rfl, append_empty.symm, id⟩
  | cons text texts ih =>
    obtain ⟨w₁, hw₁, huttered₁⟩ := perform_trace w text
    obtain ⟨w₂, hw₂, huttered₂⟩ := ih w₁
    have hnote : w₁.note = w.note := funext (World.note_of_silent huttered₁.silent)
    rw [hnote] at huttered₂
    refine ⟨w₂, (perform_bind_ok hw₁ _).trans hw₂, ?_⟩
    rw [List.map_cons, join_cons]
    exact huttered₁.trans huttered₂

end Act

/-! ### Worlds that go on writing the same -/

namespace World

/-- The two worlds differ in what has been written at most: in one of them the text `a` and then some
text, in the other the text `b` and then the same. -/
structure Prefaced (a b : String) (w w' : World) : Prop where
  silent : w.silent = w'.silent
  output : ∃ text, w.output = a ++ text ∧ w'.output = b ++ text
  orderly : w.Orderly ∧ w'.Orderly

theorem SameVoice.output {w v : World} (h : w.SameVoice v) : v.output = w.output := by
  unfold World.output
  rw [h.console, h.transcript]

/-- What has been written is not in the store. -/
theorem Prefaced.allows (a b : String) (s s' : Store) : Act.Allows (Prefaced a b) s s' :=
  fun _ _ _ h =>
    ⟨congrArg (fun v : World => { v with store := s' }) h.silent, h.output, h.orderly⟩

instance (a b : String) : Act.Frame (Prefaced a b) where
  silent h := h.silent
  allows _ := Prefaced.allows a b _ _
  write := by
    rintro w w' more ⟨hsilent, ⟨text, hw, hw'⟩, horderly⟩
    refine ⟨hsilent, ⟨text ++ more, ?_, ?_⟩, horderly⟩
    · exact (output_saying w more).trans (by rw [hw, append_assoc])
    · exact (output_saying w' more).trans (by rw [hw', append_assoc])
  command _ h := ⟨h.silent, h.output, h.orderly⟩
  mark := by
    rintro w w' ⟨hsilent, ⟨text, hw, hw'⟩, horderly⟩
    refine ⟨?_, ⟨text, ?_, ?_⟩, orderly_mark w, orderly_mark w'⟩
    · exact hsilent
    · rw [output_mark horderly.1, hw]
    · rw [output_mark horderly.2, hw']
  outside := by
    rintro w w' v v' ⟨-, ⟨text, hw, hw'⟩, horderly⟩ hv hv' hsilent
    refine ⟨hsilent, ⟨text, hv.output.trans hw, hv'.output.trans hw'⟩, ?_, ?_⟩
    · unfold Orderly
      rw [hv.transcript]
      exact horderly.1
    · unfold Orderly
      rw [hv'.transcript]
      exact horderly.2

end World

end Parley
