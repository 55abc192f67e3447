import Parley.Data.Json
import Parley.Service.Auth
import Parley.Service.Template
import Parley.Service.Url
import Parley.World.Basic

/-!
# Requests

Sending a request and reading the reply, and calling a service that is reached in this way.
-/

namespace Parley.Act

/-- Headers as they are sent: names begin with a capital, the rest of them is small. -/
def sentHeaders (headers : Data.Entries) : Data.Entries :=
  headers.foldl (fun acc h => Data.put (Text.capitalize h.1) h.2 acc) []

/-- What every request says about who sends it. -/
def agent : Data.Entries :=
  [("User-Agent", .str "restsh/1.0")]

/-- The method of a request: the one asked for, or the usual one. -/
def methodOf (method : Data) (body : Option String) : String :=
  if method.truthy then method.text else if body.isSome then "POST" else "GET"

/-- Prints something below its name. -/
def printBelow (name text : String) : Act Unit :=
  print (name ++ "\n " ++ text)

/-- Sends a request and gives the reply. -/
def send (url : String) (method : Data) (headers : Data.Entries) (body : Option String)
    (timeout : Data) (lenient : Bool) : Act Reply := do
  let target ← ofResult (Url.target url)
  printBelow "request:" "<request>"
  let sent := Sent.request target (methodOf method body) (sentHeaders headers) body timeout lenient
  modifyGet fun w =>
    let (network, reply) := (w.network.record sent).nextReply
    (reply, { w with network })

/-- The status, the headers and the text of a reply; a failure is a fault. -/
def successOf (reply : Reply) : Act (Int × List (String × String) × String) := do
  match reply with
  | .response status _ headers body =>
    let text ← ofResult (Text.decodeUtf8 body)
    return (status, headers, text)
  | .refused code reason _ => throw (.http code reason)
  | .unreachable reason => throw (.remote reason)
  | .failed label items message => throw (.system label items message)

/-- What a response of a given type means. -/
def readResponse (type : Data) (text : String) : Act Data := do
  match type with
  | .str "json" => ofResult (Json.read text)
  | .str "text" => return .str text
  | _ => return .str ""

/-- Fills a template that may be missing. -/
def fillOptional (template params : Data) (args : Service.ArgTexts) : Act (Option String) := do
  match template with
  | .null => return none
  | t => return some (← ofTraced (Service.fillTemplate t params args))

/-- Fills the templates of headers. -/
def fillHeaders (params : Data) (args : Service.ArgTexts) (headers : Data.Entries) :
    Data.Entries → Act Data.Entries
  | [] => return headers
  | (name, value) :: rest => do
    let text ← ofTraced (Service.fillTemplate (.str value.text) params args)
    fillHeaders params args (Data.put name (.str text) headers) rest

/-- Calls a service by a request. -/
def callHttp (s : Service) (name : String) (args : Service.ArgTexts) : Act Data := do
  let call ← ofResult (s.call name)
  let timeout ← ofResult (call.part "timeout")
  let params ← ofResult (s.params name)
  let method ← ofResult (call.getOr "method" (.str "GET"))
  let path ← ofResult (call.getOr "path" (.str "/"))
  let query ← ofResult (call.getOr "query" .null)
  let fragment ← ofResult (call.getOr "fragment" .null)
  let type ← ofResult (s.responsePart name "type")
  let body ← ofResult (call.getOr "body" .null)
  let headers ←
    if (← ofResult (s.needsAuth name)).truthy then ofResult (s.authHeaders agent)
    else pure agent
  if s.lenient.truthy then print "Ignoring TLS errors"
  let path ← ofTraced (Service.fillTemplate path params args)
  printBelow "path is" path
  let query ← fillOptional query params args
  let fragment ← fillOptional fragment params args
  let body ← fillOptional body params args
  printBelow "data is" (body.getD "None")
  let more ← ofResult (call.part "headers")
  let entries ← ofResult (more.entries "items")
  let headers ← fillHeaders params args headers entries
  let url ← ofResult (Url.compose s.protocol s.host path query fragment)
  let reply ← send url method headers body timeout s.lenient.truthy
  let (status, replyHeaders, text) ← successOf reply
  print text
  let result ← readResponse type text
  let headerData := replyHeaders.foldl (fun acc h => Data.put h.1 (.str h.2) acc) []
  return .dict [("response", result), ("status", .int status), ("headers", .dict headerData)]

end Parley.Act
