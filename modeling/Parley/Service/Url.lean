import Parley.Data.Access

/-!
# Addresses

Putting an address together from its parts, and looking at one before a request is sent to it: it
must say how to get there, and what follows the last `#` is kept apart.
-/

namespace Parley.Url

/-- The protocols whose addresses name a host. -/
def hostProtocols : List String :=
  [ "", "ftp", "http", "gopher", "nntp", "telnet", "imap", "wais", "file", "mms", "https",
    "shttp", "snews", "prospero", "rtsp", "rtspu", "rsync", "svn", "svn+ssh", "sftp", "nfs",
    "git", "git+ssh", "ws", "wss" ]

/-- A part of an address that must be text unless it is empty. -/
def partText (d : Data) : Except Fault String :=
  match d with
  | .str s => .ok s
  | d => if d.truthy then .error .mixedParts else .ok ""

/-- An address from its parts. -/
def compose (protocol host : Data) (path : String) (query fragment : Option String) :
    Except Fault String := do
  let host ← partText host
  let protocol ← partText protocol
  let slashes := Text.beginsWith ['/', '/'] path.toList
  let path :=
    if !host.isEmpty || (!protocol.isEmpty && hostProtocols.contains protocol && !slashes) then
      let rooted := path.isEmpty || Text.beginsWith ['/'] path.toList
      "//" ++ host ++ (if rooted then path else "/" ++ path)
    else path
  let url := if protocol.isEmpty then path else protocol ++ ":" ++ path
  let url :=
    match query with
    | some q => if q.isEmpty then url else url ++ "?" ++ q
    | none => url
  let url :=
    match fragment with
    | some f => if f.isEmpty then url else url ++ "#" ++ f
    | none => url
  .ok url

/-- An address without the brackets and words that it may be wrapped in. -/
def unwrap (url : List Char) : List Char :=
  let url := Text.trimBlanks url
  let url :=
    if url.head? == some '<' && url.getLast? == some '>' then
      Text.trimBlanks ((url.drop 1).dropLast)
    else url
  match Text.dropBeginning? "URL:".toList url with
  | some rest => Text.trimBlanks rest
  | none => url

/-- What stands before and after the last `#`. -/
def splitFragment (url : List Char) : List Char × Option (List Char) :=
  let after := url.reverse.takeWhile (· != '#')
  if after.length == url.length then (url, none)
  else (url.take (url.length - after.length - 1), some after.reverse)

/-- Does an address say how to get there? -/
def hasProtocol (url : List Char) : Bool :=
  let name := url.takeWhile fun c => c != '/' && c != ':'
  !name.isEmpty && (url.drop name.length).head? == some ':'

/-- The address that a request is sent to. -/
def target (url : String) : Except Fault String :=
  let (main, fragment) := splitFragment (unwrap url.toList)
  let full :=
    match fragment with
    | some (c :: rest) => String.ofList (main ++ '#' :: c :: rest)
    | _ => String.ofList main
  if hasProtocol main then .ok full else .error (.unknownUrl full)

end Parley.Url
