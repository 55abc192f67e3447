import Parley.Proofs.Eval.Parameters

/-!
# Waiting for a message

A call through a queue asks the queue once a tick until it has a message, and looks at the clock
after every question, before it looks at what it has been given. So with a clock that counts ticks
exactly, ten to a second, a limit of `seconds` leaves room for `10 * seconds` questions: a message
that comes with one of them is the answer, and with the next question the time is up, whatever the
question brings to light.

Nothing is assumed about the clock but that it counts exactly while the call waits. The clock of the
shell reads doubles and does so for a call that begins with the session; for a later call the
difference of two readings can be off by the last digit, and the time is up one question early.
-/

namespace Parley

/-- What the queue gives when it is asked again after a number of questions. -/
def Network.answer (n : Network) (questions : Nat) : Option String :=
  { n with asked := n.asked + questions }.poll.2

/-- The world after a number of questions, with a tick for each of them. -/
def World.waited (w : World) (questions : Nat) : World :=
  { w with
    console := { w.console with
      written := w.console.written ++ String.join (List.replicate questions "waiting\n") }
    network := { w.network with
      asked := w.network.asked + questions
      ticks := w.network.ticks + questions } }

namespace World

variable (w : World)

theorem waited_zero : w.waited 0 = w := by
  simp [waited]

theorem waited_waited (m n : Nat) : (w.waited m).waited n = w.waited (m + n) := by
  have hjoin : String.join (List.replicate (m + n) "waiting\n") =
      String.join (List.replicate m "waiting\n") ++ String.join (List.replicate n "waiting\n") := by
    rw [List.replicate_add, String.join_append]
  simp only [waited, hjoin, Nat.add_assoc, String.append_assoc]

theorem answer_waited (m n : Nat) : (w.waited m).network.answer n = w.network.answer (m + n) := by
  simp only [waited, Network.answer, Network.poll, Nat.add_assoc]

end World

namespace Act

/-- While a call with a limit in seconds waits from a tick on, the clock says exactly when more than
that has passed: ten ticks are a second. -/
def CountsExactly (isUp : Nat → Except Fault Bool) (start seconds : Nat) : Prop :=
  ∀ ticks ≤ 10 * seconds + 1, isUp (start + ticks) = .ok (decide (10 * seconds < ticks))

/-- The clock of the shell reads doubles: a call that begins after 1.2 s is taken to have lasted
more than a second when it has lasted just that. -/
example : (timeIsUp 12 22 (.int 1)).toOption = some true := by decide +kernel

/-- What is to come of waiting in the world `w`. If the queue gives a message to a question and none
before, the message is the answer if and only if it comes with one of the first `10 * seconds`
questions, and no further question is asked. In every other case, be it that the message comes later
or never, the time is up after `10 * seconds + 1` questions; a message that comes with the last of
them is thrown away. -/
structure Timely (w : World) (seconds : Nat) (outcome : Except Fault String × World) : Prop where
  message : ∀ silent text, (∀ asked < silent, w.network.answer asked = none) →
    w.network.answer silent = some text →
    (outcome.1 = .ok text ↔ silent + 1 ≤ 10 * seconds) ∧
    (silent + 1 ≤ 10 * seconds → outcome = (.ok text, w.waited (silent + 1)))
  timeout : (∀ asked < 10 * seconds, w.network.answer asked = none) →
    outcome = (.error (.timedOut (Data.int seconds).text), w.waited (10 * seconds + 1))

variable {isUp : Nat → Except Fault Bool} {limit : Data} {w : World} {fuel seconds questions : Nat}

/-- A question puts its line on the console, and takes a tick. -/
theorem perform_question (w : World) : w.perform (print "waiting" >>= fun _ => poll) =
    (.ok (w.network.answer 0), w.waited 1) := by
  rfl

theorem perform_awaitMessage (isUp : Nat → Except Fault Bool) (limit : Data) (fuel : Nat)
    (w : World) :
    w.perform (awaitMessage isUp limit (fuel + 1)) =
      (w.waited 1).perform (ofResult (isUp (w.network.ticks + 1)) >>= fun up =>
        if up then throw (.timedOut limit.text)
        else (w.network.answer 0).elim (awaitMessage isUp limit fuel) pure) := by
  rw [awaitMessage, ← bind_assoc, perform_bind_ok (perform_question w)]
  cases w.network.answer 0 <;> rfl

/-- When the time is up, what the question has brought does not count. -/
theorem perform_awaitMessage_up (hup : isUp (w.network.ticks + 1) = .ok true) :
    w.perform (awaitMessage isUp limit (fuel + 1)) =
      (.error (.timedOut limit.text), w.waited 1) := by
  rw [perform_awaitMessage, hup]
  rfl

theorem perform_awaitMessage_some {text : String} (hup : isUp (w.network.ticks + 1) = .ok false)
    (htext : w.network.answer 0 = some text) :
    w.perform (awaitMessage isUp limit (fuel + 1)) = (.ok text, w.waited 1) := by
  rw [perform_awaitMessage, hup, htext]
  rfl

theorem perform_awaitMessage_none (hup : isUp (w.network.ticks + 1) = .ok false)
    (hnone : w.network.answer 0 = none) :
    w.perform (awaitMessage isUp limit (fuel + 1)) =
      (w.waited 1).perform (awaitMessage isUp limit fuel) := by
  rw [perform_awaitMessage, hup, hnone]
  rfl

/-- **Questions without an answer**: as long as the time is not up, the loop is where it was, but
for the questions and the ticks. -/
theorem perform_awaitMessage_silent
    (hup : ∀ ticks ≤ questions, isUp (w.network.ticks + ticks) = .ok false)
    (hsilent : ∀ asked < questions, w.network.answer asked = none) :
    w.perform (awaitMessage isUp limit (questions + fuel)) =
      (w.waited questions).perform (awaitMessage isUp limit fuel) := by
  induction questions generalizing w with
  | zero => rw [Nat.zero_add, w.waited_zero]
  | succ questions ih =>
    have hfirst : isUp (w.network.ticks + 1) = .ok false := hup 1 (Nat.le_add_left 1 _)
    rw [Nat.succ_add, perform_awaitMessage_none hfirst (hsilent 0 (Nat.succ_pos _)),
      ih (fun ticks hticks => ?_) fun asked hasked => ?_, w.waited_waited, Nat.add_comm 1]
    · rw [← hup (1 + ticks) (by omega), ← Nat.add_assoc]
      rfl
    · rw [w.answer_waited]
      exact hsilent (1 + asked) (by omega)

theorem CountsExactly.not_up {start : Nat} (hclock : CountsExactly isUp start seconds)
    (h : questions ≤ 10 * seconds) :
    ∀ ticks ≤ questions, isUp (start + ticks) = .ok false := by
  intro ticks hticks
  rw [hclock ticks (by omega), decide_eq_false (by omega)]

section

variable (hclock : CountsExactly isUp w.network.ticks seconds) (hfuel : 10 * seconds + 1 ≤ fuel)

include hclock hfuel

/-- A message that comes in time is the answer. -/
theorem perform_awaitMessage_early {silent : Nat} {text : String}
    (hsilent : ∀ asked < silent, w.network.answer asked = none)
    (htext : w.network.answer silent = some text) (hin : silent + 1 ≤ 10 * seconds) :
    w.perform (awaitMessage isUp limit fuel) = (.ok text, w.waited (silent + 1)) := by
  obtain ⟨rest, rfl⟩ : ∃ rest, fuel = silent + (rest + 1) := ⟨fuel - silent - 1, by omega⟩
  rw [perform_awaitMessage_silent (hclock.not_up (Nat.le_of_succ_le hin)) hsilent,
    perform_awaitMessage_some (hclock.not_up hin (silent + 1) (Nat.le_refl _))
      ((w.answer_waited silent 0).trans htext), w.waited_waited]

/-- If no message comes in time, the time is up with the question after that. -/
theorem perform_awaitMessage_late
    (hsilent : ∀ asked < 10 * seconds, w.network.answer asked = none) :
    w.perform (awaitMessage isUp limit fuel) =
      (.error (.timedOut limit.text), w.waited (10 * seconds + 1)) := by
  obtain ⟨rest, rfl⟩ : ∃ rest, fuel = 10 * seconds + (rest + 1) :=
    ⟨fuel - 10 * seconds - 1, by omega⟩
  have hup : isUp (w.network.ticks + (10 * seconds + 1)) = .ok true := by
    rw [hclock _ (Nat.le_refl _), decide_eq_true (Nat.lt_succ_self _)]
  rw [perform_awaitMessage_silent (hclock.not_up (Nat.le_refl _)) hsilent,
    perform_awaitMessage_up hup, w.waited_waited]

/-- The bound on the number of questions has no say if it allows for more than come in time. -/
theorem timely_awaitMessage :
    Timely w seconds (w.perform (awaitMessage isUp (.int seconds) fuel)) := by
  refine ⟨fun silent text hsilent htext => ⟨⟨fun h => ?_, fun hin => ?_⟩, fun hin => ?_⟩,
    perform_awaitMessage_late hclock hfuel⟩
  · by_contra hout
    rw [perform_awaitMessage_late hclock hfuel fun asked hasked => hsilent asked (by omega)] at h
    cases h
  · rw [perform_awaitMessage_early hclock hfuel hsilent htext hin]
  · exact perform_awaitMessage_early hclock hfuel hsilent htext hin

end

/-- **Whether a message is the answer to a call**, for a limit of whole seconds and a clock that
counts ticks exactly: it is if and only if it comes in time. The loop comes to its end for every
number of questions that it is allowed, if only there are more of them than come in time; and so
does the wait of a call that begins now, if the shell's own clock counts exactly. -/
theorem message_in_time_iff (w : World) (seconds : Nat) :
    (∀ isUp fuel, CountsExactly isUp w.network.ticks seconds → 10 * seconds + 1 ≤ fuel →
      Timely w seconds (w.perform (awaitMessage isUp (.int seconds) fuel))) ∧
    (CountsExactly (fun now => timeIsUp w.network.ticks now (.int seconds)) w.network.ticks
        seconds →
      Timely w seconds (w.perform (awaitReply w.network.ticks (.int seconds)))) := by
  refine ⟨fun isUp fuel hclock hfuel => timely_awaitMessage hclock hfuel, fun hclock => ?_⟩
  have hbound : 10 * seconds + 1 ≤ questionBound (.int seconds) + w.network.silence := by
    show 10 * seconds + 1 ≤ 10 * seconds + 10 + w.network.silence
    omega
  exact timely_awaitMessage hclock hbound

/-- A world at its beginning, with a queue that gives a message after a number of questions. -/
def pongWorld (silent : Nat) : World :=
  { World.blank with
    network := { World.blank.network with broker := some ⟨some "pong", silent⟩ } }

/-- The clock of the shell counts exactly for the first second of a session: with a limit of a
second the message is the answer if the queue has to be asked nine times before, and it is thrown
away if it has to be asked once more. -/
theorem message_in_time_iff_second :
    CountsExactly (fun now => timeIsUp 0 now (.int (1 : Nat))) 0 1 ∧
      (pongWorld 9).perform (awaitReply 0 (.int (1 : Nat))) =
        (.ok "pong", (pongWorld 9).waited (9 + 1)) ∧
      (pongWorld 10).perform (awaitReply 0 (.int (1 : Nat))) =
        (.error (.timedOut (Data.int (1 : Nat)).text), (pongWorld 10).waited (10 * 1 + 1)) := by
  have hclock : CountsExactly (fun now => timeIsUp 0 now (.int (1 : Nat))) 0 1 := by
    have hread : ∀ ticks ≤ 11, (timeIsUp 0 (0 + ticks) (.int (1 : Nat))).toOption =
        some (decide (10 < ticks)) := by
      decide +kernel
    intro ticks hticks
    have h := hread ticks hticks
    revert h
    show (timeIsUp 0 (0 + ticks) (.int (1 : Nat))).toOption = _ →
      timeIsUp 0 (0 + ticks) (.int (1 : Nat)) = _
    generalize timeIsUp 0 (0 + ticks) (.int (1 : Nat)) = r
    cases r <;> simp [Except.toOption]
  refine ⟨hclock, ?_, ?_⟩
  · have hmain := (message_in_time_iff (pongWorld 9) 1).2 hclock
    exact (hmain.message 9 "pong" (by decide) rfl).2 (by decide)
  · have hmain := (message_in_time_iff (pongWorld 10) 1).2 hclock
    exact hmain.timeout (by decide)

end Act

end Parley
