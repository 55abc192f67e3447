import Parley.Builtin.Guard
import Parley.Service.Request

/-!
# The functions that send requests

Each sends a request to an address and gives the text of the reply. A reply whose status is not in
the hundreds or two hundreds is an error.
-/

namespace Parley.Act

/-- The method of a request. -/
def HttpFunction.method : HttpFunction → String
  | .get => "GET"
  | .post => "POST"
  | .head => "HEAD"
  | .delete => "DELETE"
  | .options => "OPTIONS"

/-- The status, the reason and the text of a reply. All functions but `head` also take the text of
a reply that reports a failure, and print it. -/
def replyParts (f : HttpFunction) (reply : Reply) : Act (Int × String × String) := do
  match reply with
  | .response status reason _ body => return (status, reason, ← ofResult (Text.decodeUtf8 body))
  | .refused code reason body =>
    match f with
    | .head => throw (.http code reason)
    | _ =>
      let text ← ofResult (Text.decodeUtf8 body)
      print text
      return (code, reason, text)
  | .unreachable reason => throw (.remote reason)
  | .failed label items message => throw (.system label items message)

/-- What a function that sends requests does. -/
def httpAction (scope : Nat) (f : HttpFunction) (args : Args) : Act Answer := do
  let url ← argString args "url"
  let body ←
    match f with
    | .post => pure (some (← argString args "data"))
    | _ => pure none
  let reply ← send url (.str (HttpFunction.method f)) agent body .null false
  let (status, reason, text) ← replyParts f reply
  let group := status.fdiv 100
  if group != 1 && group != 2 then
    let method :=
      match f with
      | .head => "POST"
      | f => HttpFunction.method f
    error scope s!"HTTP {method} failed: {group} {reason}"
  printBelow "status:" (toString group)
  printBelow "reason:" reason
  return constant (.text text)

/-- Carries out a function that sends requests. -/
def runHttp (scope : Nat) (f : HttpFunction) (args : Args) : Act Answer :=
  reportAll scope (httpAction scope f args)

end Parley.Act
