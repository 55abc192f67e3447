import Parley.Service.Request

/-!
# Calls through a queue

A call is published to a queue together with the name of the queue for the answer, which is then
asked again and again, once every tick, until it has a message or the time is up.

The time is looked at after every question. So a message that comes with the last question is
fetched and then thrown away.
-/

namespace Parley

/-- The seconds of a number of ticks. -/
def secondsOf (ticks : Nat) : Float :=
  ((Number.ofFraction? false ticks 10).getD 0.0)

/-- Is a number of seconds greater than a limit? -/
def exceeds (seconds : Float) (limit : Data) : Except Fault Bool :=
  match limit with
  | .int n => .ok (Number.compareIntFloat n seconds == some .lt)
  | .float x => .ok (seconds > x)
  | .bool b => .ok (seconds > if b then 1.0 else 0.0)
  | d => .error (.notComparable ">" "float" d.kind)

/-- Has more time passed between two ticks than a limit? -/
def timeIsUp (start now : Nat) (limit : Data) : Except Fault Bool :=
  exceeds (secondsOf now - secondsOf start) limit

namespace Act

/-- Records something sent. -/
def record (s : Sent) : Act Unit :=
  modify fun w => { w with network := w.network.record s }

/-- Asks the queue and waits for a tick. -/
def poll : Act (Option String) :=
  modifyGet fun w =>
    let (network, message) := w.network.poll
    (message, { w with network := network.wait })

/-- Waits for a message. What the clock says is a matter of `isUp`: it is told how many ticks have
passed, and says whether the time is up. The last argument bounds the number of questions. -/
def awaitMessage (isUp : Nat → Except Fault Bool) (limit : Data) : Nat → Act String
  | 0 => throw .nestedTooDeeply
  | fuel + 1 => do
    print "waiting"
    let message ← poll
    if ← ofResult (isUp (← get).network.ticks) then
      throw (.timedOut limit.text)
    match message with
    | some text => return text
    | none => awaitMessage isUp limit fuel

/-- More questions than can be asked within a limit. -/
def questionBound (limit : Data) : Nat :=
  match limit with
  | .int n => 10 * n.toNat + 10
  | .float x => 10 * ((Number.truncate? x).getD 0).toNat + 20
  | _ => 20

/-- Waits for the answer to a call that began at a given tick. There may be no limit to speak of, so
the questions that the queue will not answer are counted besides. -/
def awaitReply (start : Nat) (limit : Data) : Act String := do
  let silence := (← get).network.silence
  awaitMessage (fun now => timeIsUp start now limit) limit (questionBound limit + silence)

/-- Fills the templates among the headers of a message. -/
def fillMessageHeaders (params : Data) (args : Service.ArgTexts) :
    Data.Entries → Act Data.Entries
  | [] => return []
  | (name, value) :: rest => do
    let value ←
      match value with
      | .str _ => do
        let text ← ofTraced (Service.fillTemplate value params args)
        pure (Data.str text)
      | d => pure d
    let more ← fillMessageHeaders params args rest
    return (name, value) :: more

/-- The name of the queue for the answer. -/
def replyQueue : Act String := do
  return "REPLY_restsh_" ++ (← get).network.token

/-- Calls a service through a queue. -/
def callQueue (s : Service) (name : String) (args : Service.ArgTexts) : Act Data := do
  if (← get).network.broker.isNone then throw (.noPackage "amqp")
  let start := (← get).network.ticks
  let call ← ofResult (s.call name)
  let limit ← ofResult (call.part "timeout")
  let params ← ofResult (s.params name)
  let queue ← ofResult (call.getOr "queue" .null)
  let type ← ofResult (s.responsePart name "type")
  let template ← ofResult (call.getOr "body" (.str ""))
  let body ← fillOptional template params args
  let auth ←
    if (← ofResult (s.needsAuth name)).truthy then ofResult (s.authSettings [])
    else pure []
  let headers ← ofResult (call.part "headers")
  let entries ← ofResult (headers.entries "items")
  let headers ← fillMessageHeaders params args entries
  let reply ← replyQueue
  record (.connect s.host auth)
  record (.declare reply)
  print ("publishing message:  " ++ body.getD "None")
  record (.publish body reply queue headers)
  let text ← awaitReply start limit
  printBelow "response" "<message>"
  record .close
  let result ← readResponse type text
  return .dict [("response", result)]

/-- Calls a service. One that cannot be called answers nothing. -/
def callService (s : Service) (name : String) (args : Service.ArgTexts) : Act Data :=
  match s.transport with
  | .http => callHttp s name args
  | .queue => callQueue s name args
  | .none => return .null

end Act

end Parley
