import Parley.Service.Definition
import Parley.Text.Base64
import Parley.Text.Utf8

/-!
# Proving who calls

How the authentication of a service goes into a request: as a cookie, as a name and password in
base 64, or as a token; and into a connection to a queue, as a name and a password.
-/

namespace Parley.Service

/-- Exactly two parts of a text between colons. -/
def twoParts (s : String) : Except Fault (String × String) :=
  match Text.cutText ":" s with
  | [a, b] => .ok (a, b)
  | [_] => .error (.tooFewParts 2 1)
  | _ => .error (.tooManyParts 2)

/-- Does a text begin with a word? -/
def begins (word s : String) : Bool :=
  Text.beginsWith word.toList s.toList

/-- Text behind other text, which must be text too. -/
def appendText (s : String) (d : Data) : Except Fault String :=
  match d with
  | .str t => .ok (s ++ t)
  | d => .error (.addition "str" d.kind)

/-- Adds the headers that show who calls. -/
def authHeaders (s : Service) (headers : Data.Entries) : Except Fault Data.Entries := do
  match s.authType, s.authData with
  | .null, _ | _, .null => .ok headers
  | type, data =>
    let type ← type.asText "startswith"
    if begins "cookie" type then
      let (_, cookie) ← twoParts type
      .ok (Data.put "set-cookie" (.str (cookie ++ "=" ++ data.text)) headers)
    else if begins "basic" type then
      let text ← data.asText "encode"
      let code := String.ofList (Text.encodeBase64 (Text.utf8 text))
      .ok (Data.put "authorization" (.bytes (Text.utf8 ("basic " ++ code))) headers)
    else
      let value ← appendText (type ++ " ") data
      .ok (Data.put "authorization" (.str value) headers)

/-- Adds the settings of a connection that show who calls. -/
def authSettings (s : Service) (settings : Data.Entries) : Except Fault Data.Entries := do
  match s.authType, s.authData with
  | .str "basic", .null => .ok settings
  | .str "basic", data =>
    let text ← data.asText "split"
    let (user, password) ← twoParts text
    .ok (Data.put "password" (.str password) (Data.put "userid" (.str user) settings))
  | _, _ => .ok settings

/-- Adds what shows who calls, in the way of the transport. -/
def addAuth (s : Service) (entries : Data.Entries) : Except Fault Data.Entries :=
  match s.transport with
  | .http => s.authHeaders entries
  | .queue => s.authSettings entries
  | .none => .error (.noAttribute s.transport.label "addAuth")

end Parley.Service
