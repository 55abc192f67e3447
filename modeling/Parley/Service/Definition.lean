import Parley.Data.Access
import Parley.Data.Sets

/-!
# Service definitions

A service is described by a document: where it is, how it is spoken to, how one proves who one is,
and the calls it understands. Everything the document leaves out about a call is filled in with
`callDefaults`, and nothing the document says is changed by that.
-/

namespace Parley

/-- How a service is reached. -/
inductive Transport where
  | http
  | queue
  /-- A service that can be described but not called. -/
  | none
  deriving DecidableEq, Repr

/-- The name of a transport. -/
def Transport.label : Transport → String
  | .http => "HttpService"
  | .queue => "AmqpService"
  | .none => "Service"

/-- A service. -/
structure Service where
  transport : Transport
  host : Data
  protocol : Data
  description : Data
  authType : Data
  authData : Data
  /-- Whether faulty certificates are to be accepted. -/
  lenient : Data
  calls : Data.Entries

namespace Service

mutual

/-- Completes `target` with the entries of `template` that it lacks. Where both have an entry and
the template's is a dictionary, the entry itself is completed. -/
def fillIn (target : Data) : Data → Except Fault Data
  | .dict es => fillEntries target es
  | _ => .ok target

/-- `fillIn` for the entries of a template. -/
def fillEntries (target : Data) : List (String × Data) → Except Fault Data
  | [] => .ok target
  | (key, value) :: rest => do
    let there ← target.holds key
    if there then
      match value with
      | .dict es =>
        let old ← target.part key
        let new ← fillEntries old es
        let target ← target.write key new
        fillEntries target rest
      | _ => fillEntries target rest
    else
      let target ← target.write key value
      fillEntries target rest

end

/-- What a call has unless its definition says otherwise. -/
def callDefaults : Data :=
  .dict
    [ ("timeout", .int 60), ("description", .null), ("params", .dict []), ("headers", .dict []),
      ("response",
        .dict [("type", .str "text"), ("transform", .null), ("error", .null)]) ]

/-- Adds a call to those of a service. -/
def addCall (calls : Data.Entries) (definition : Data) : Except Fault Data.Entries := do
  let filled ← fillIn definition callDefaults
  let name ← filled.part "name"
  if name.hashable then .ok (Data.put name.text filled calls)
  else .error (.unhashable name.kind)

/-- Adds calls one after the other. -/
def addCalls (calls : Data.Entries) : List Data → Except Fault Data.Entries
  | [] => .ok calls
  | d :: rest => do
    let calls ← addCall calls d
    addCalls calls rest

/-- Reads the authentication of a definition: its type and its data. -/
def readAuth (definition : Data) : Except Fault (Data × Data) := do
  if ← definition.holds "authentication" then
    let auth ← definition.part "authentication"
    let type ← auth.getOr "type" .null
    let data ← auth.getOr "data" .null
    .ok (type, data)
  else .ok (.null, .null)

/-- Reads a definition. -/
def ofData (transport : Transport) (definition : Data) : Except Fault Service := do
  let host ← definition.getOr "host" (.str "localhost")
  let protocol ← definition.part "protocol"
  let description ← definition.getOr "description" .null
  let (authType, authData) ← readAuth definition
  let list ← definition.part "call"
  let items ← list.items
  let calls ← addCalls [] items
  let lenient ← definition.getOr "ignoreTlsErrors" (.bool false)
  .ok { transport, host, protocol, description, authType, authData, lenient, calls }

/-- The transport for a document's protocol. -/
def transportOf (document : Data) : Except Fault Transport := do
  match ← document.part "protocol" with
  | .str "http" | .str "https" => .ok .http
  | .str "amqp" => .ok .queue
  | .str name => .error (.unsupportedProtocol name)
  | d => .error (.addition "str" d.kind)

/-- Reads the definition in a document of any protocol. -/
def ofDocument (document : Data) : Except Fault Service := do
  let transport ← transportOf document
  ofData transport document

/-! ### Questions about a service -/

/-- Has the service a call of this name? -/
def has (s : Service) (name : String) : Bool :=
  Data.hasKey name s.calls

/-- The names of the calls. -/
def callNames (s : Service) : List String :=
  s.calls.map Prod.fst

/-- The definition of a call. -/
def call (s : Service) (name : String) : Except Fault Data :=
  (Data.dict s.calls).part name

/-- The parameters of a call, with their types. -/
def params (s : Service) (name : String) : Except Fault Data := do
  (← s.call name).getOr "params" (.dict [])

/-- A part of what a call's definition says about responses. -/
def responsePart (s : Service) (name part : String) : Except Fault Data := do
  let definition ← s.call name
  let response ← definition.part "response"
  response.part part

/-- Has a call to show who calls? -/
def needsAuth (s : Service) (name : String) : Except Fault Data :=
  match s.authType with
  | .null => .ok (.bool false)
  | _ => do (← s.call name).getOr "authenticated" (.bool true)

end Service

end Parley
