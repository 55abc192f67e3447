import Parley.Eval.Member
import Parley.Eval.Task
import Parley.Service.Queue

/-!
# Calls of services

A call of a service sends the request and then looks at the response with the two expressions that
the definition of the call can hold: one that says whether the call has failed, and one that makes
the result out of the response. Both are evaluated by whatever the variable `eval` holds, in a scope
where the parts of the response are variables.
-/

namespace Parley.Act

/-- The texts of arguments. -/
def argTexts (args : List (String × Value)) : Act Service.ArgTexts := do
  let store := (← get).store
  return args.map fun a => (a.1, (store.shape a.2).write .pasted)

/-- The values of arguments. -/
def argValues : Args → Act (List (String × Value))
  | [] => return []
  | (name, a) :: rest => do
    let v ← deref a
    let more ← argValues rest
    return (name, v) :: more

/-- Makes the parts of a response variables of a scope. -/
def bindResponse (scope : Nat) : Data.Entries → Act Unit
  | [] => return
  | (name, d) :: rest => do
    let v ← load d
    let _ ← assign scope name v
    bindResponse scope rest

/-- What an expression makes of a response. -/
def transformed (run : Run) (scope : Nat) (evaluator : Value) (response code : Data) :
    Act Value := do
  match evaluator with
  | .builtin _ _ | .method _ _ _ =>
    let inner ← withStore fun s => s.newChild scope
    let entries ← ofResult (response.entries "items")
    bindResponse inner entries
    let text ← load code
    deref (← run (.apply inner evaluator [("code", .value text)]))
  | v => throw (.noAttribute v.label "func")

/-- Sends the request of a call; gives the response, the code for the result and the code for
failures. -/
def asked (service : Service) (call : String) (args : List (String × Value)) :
    Act (Data × Data × Data) := do
  let texts ← argTexts args
  let response ← callService service call texts
  let transform ← ofResult (service.responsePart call "transform")
  let failure ← ofResult (service.responsePart call "error")
  return (response, transform, failure)

/-- Looks for a failure: a call has failed if the code for failures says so. -/
def judged (run : Run) (scope : Nat) (evaluator : Value) (response failure : Data) : Act Unit := do
  if failure.truthy then
    match ← transformed run scope evaluator response failure with
    | .constant (.bool true) => error scope "remote call failed"
    | _ => pure ()

/-- Makes the result. -/
def made (run : Run) (scope : Nat) (evaluator : Value) (response transform : Data) :
    Act Value := do
  if transform.truthy then transformed run scope evaluator response transform
  else
    let result ← ofResult (response.part "response")
    load result

/-- Sends the request of a call and looks at the response with the given function. -/
def callWith (run : Run) (scope : Nat) (evaluator : Value) (service : Service) (call : String)
    (args : List (String × Value)) : Act Value := do
  let parts ← asked service call args
  judged run scope evaluator parts.1 parts.2.2
  made run scope evaluator parts.1 parts.2.1

/-- Sends the request of a call and looks at the response. -/
def callAndTransform (run : Run) (scope : Nat) (service : Service) (call : String)
    (args : List (String × Value)) : Act Value := do
  callWith run scope (← lookupValue scope "eval") service call args

/-- Calls a service. Whatever goes wrong on the way is reported as an error of the call. -/
def applyRemote (run : Run) (scope : Nat) (name call : String) (args : Args) : Act Answer := do
  let service ← serviceOf scope name
  let args ← argValues args
  try return .value (← callAndTransform run scope service call args)
  catch
    | .evaluation m => throw (.evaluation m)
    | f => error scope ("Error in remote call: " ++ f.shown)

/-- Changes a service that the scope knows. -/
def modifyService (scope : Nat) (name : String) (f : Service → Service) : Act Unit := do
  let service ← serviceOf scope name
  modifyStore fun s => s.setService scope name (f service)

/-- The datum of a constant; other values have none in this sense. -/
def constantData : Value → Act Data
  | .constant (.time _) => return .null
  | .constant c => return c.data
  | v => throw (.noAttribute v.label "getValue")

/-- Carries out a method of a service. The host must be given as a value, not as a cell. -/
def applyMethod (scope address : Nat) (name : String) (m : ServiceMethod) (args : Args) :
    Act Answer := do
  match m with
  | .setHost =>
    let host ← argument args "host"
    let text ← pasted (← deref host)
    trace ("Setting host " ++ text)
    let _ ← serviceOf scope name
    match host with
    | .cell _ => throw (.noAttribute "Cell" "getValue")
    | .value v =>
      let d ← constantData v
      modifyService scope name fun s => { s with host := d }
  | .setAuthentication =>
    let v ← argValue args "auth"
    let _ ← serviceOf scope name
    let d ← constantData v
    modifyService scope name fun s => { s with authData := d }
  return .value (.service address name)

end Parley.Act
