import Parley.World.Basic

/-!
# Members of values

The parameters of functions, and what stands behind a point: the properties of objects, the calls
and methods of services, and the parameters of functions.
-/

namespace Parley

/-- Parameters as a dictionary from names to types. -/
def Params.toData (ps : Params) : Data :=
  .dict (ps.map fun p => (p.1, .str p.2))

namespace Act

/-- A service that the scope knows. -/
def serviceOf (scope : Nat) (name : String) : Act Service := do
  match ← getStore fun s => s.service? scope name with
  | some service => return service
  | none => throw (.missingKey name)

/-- The parameters of a function, with their types. Those of a service's call are what its
definition says, whatever that is. -/
def paramsOf (scope : Nat) : Value → Act Data
  | .closure _ params _ => return .dict (params.foldl (fun es p => Data.put p (.str "any") es) [])
  | .builtin f _ => return Params.toData f.params
  | .method _ _ m => return Params.toData m.params
  | .remote _ service call => do
    let s ← serviceOf scope service
    ofResult (s.params call)
  | _ => return .dict []

/-- The call of a service, remembered with what help says about it when it is first asked for. -/
def serviceCall (scope address : Nat) (service call : String) : Act Value := do
  let record ← getStore fun s => s.serviceAt address
  if record.calls.any fun c => c.1 == call then return .remote address service call
  else
    let s ← serviceOf scope service
    let definition ← ofResult (s.call call)
    let description ← ofResult (definition.part "description")
    modifyStore fun s =>
      { s with
        services := s.services.modify address fun r =>
          { r with calls := r.calls ++ [(call, description)] } }
    return .remote address service call

/-- The member of a value with a given name; only objects and functions have members. -/
def member (scope : Nat) (v : Value) (name : String) : Act Answer := do
  match v with
  | .object address =>
    match Store.findName name (← getStore fun s => s.objectAt address).cells with
    | some cell => return .cell cell
    | none => error scope ("Object has no property '" ++ name ++ "'")
  | .service address service =>
    let s ← serviceOf scope service
    if s.has name then return .value (← serviceCall scope address service name)
    else
      match ServiceMethod.all.find? fun m => m.name == name with
      | some m => return .value (.method address service m)
      | none => error scope (service ++ " has no defined call named " ++ name)
  | .tree _ (.bare .object) => return .value v
  | v =>
    if name == "parameters" then return .value (← load (← paramsOf scope v))
    else
      let text ← pasted v
      error scope (text ++ " has no member " ++ name)

/-- The names of the properties of a value; `none` if it can have none. -/
def propertyNames (v : Value) : Act (Option (List String)) := do
  match v with
  | .object address => return some ((← getStore fun s => s.objectAt address).cells.map Prod.fst)
  | .service address _ =>
    let calls := (← getStore fun s => s.serviceAt address).calls.map Prod.fst
    return some (calls ++ ServiceMethod.all.map ServiceMethod.name)
  | .tree _ (.bare .object) => return some []
  | v => return if v.isFunction then some ["parameters"] else none

/-- What help says about a value. -/
def descriptionOf : Value → Act Data
  | .object address => return (← getStore fun s => s.objectAt address).description
  | .service address _ => return (← getStore fun s => s.serviceAt address).description
  | .builtin f _ =>
    return match f.description with
      | some s => .str s
      | none => .null
  | .method _ _ m =>
    return match m.description with
      | some s => .str s
      | none => .null
  | .remote address _ call =>
    return (Data.find? call (← getStore fun s => s.serviceAt address).calls).getD .null
  | _ => return .null

end Act

end Parley
