import Parley.Data.Basic
import Parley.Fault

/-!
# The network

What is sent, in order, and what comes back: a list of replies to requests, one after the other, and
a queue that answers after it has been asked a number of times. Waiting is counted in ticks of a
tenth of a second.

Servers and brokers are no part of the shell. What they do is given in advance here, as part of the
world, and what is said of the shell is said for all replies and all brokers of this kind.
-/

namespace Parley

/-- What comes back for a request. -/
inductive Reply where
  | response (status : Int) (reason : String) (headers : List (String × String))
      (body : List UInt8)
  /-- A reply that reports a failure. -/
  | refused (code : Int) (reason : String) (body : List UInt8)
  /-- No reply, for a reason that is a text. -/
  | unreachable (reason : String)
  /-- No reply, since the system below has failed: a connection that is not made, an address that
  cannot be sent, a reply that breaks off. What such a failure carries need not be text. -/
  | failed (label : String) (items : List Particular) (message : String)

/-- Something that was sent. -/
inductive Sent where
  | request (url method : String) (headers : Data.Entries) (body : Option String)
      (timeout : Data) (lenient : Bool)
  | connect (host : Data) (auth : Data.Entries)
  | declare (queue : String)
  | publish (body : Option String) (replyTo : String) (queue : Data) (headers : Data.Entries)
  | close

/-- The queue: the message it will give, and how often it has to be asked before. -/
structure Broker where
  body : Option String
  polls : Nat

/-- The network. -/
structure Network where
  replies : List Reply
  broker : Option Broker
  /-- How often the queue has been asked. -/
  asked : Nat
  /-- The ticks that have passed. -/
  ticks : Nat
  sent : List Sent
  /-- Tells the queues of this session from those of others. -/
  token : String

namespace Network

/-- Records something sent. -/
def record (n : Network) (s : Sent) : Network :=
  { n with sent := n.sent ++ [s] }

/-- The next reply. -/
def nextReply (n : Network) : Network × Reply :=
  match n.replies with
  | [] => (n, .unreachable "no response")
  | r :: rest => ({ n with replies := rest }, r)

/-- Asks the queue. -/
def poll (n : Network) : Network × Option String :=
  let message :=
    match n.broker with
    | some b => if n.asked < b.polls then none else b.body
    | none => none
  ({ n with asked := n.asked + 1 }, message)

/-- How many questions the queue has still to be asked before it can give its message. -/
def silence (n : Network) : Nat :=
  match n.broker with
  | some b => b.polls - n.asked
  | none => 0

/-- Waits for a tick. -/
def wait (n : Network) : Network :=
  { n with ticks := n.ticks + 1 }

end Network

end Parley
