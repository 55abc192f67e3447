import Parley.Proofs.Store.Scopes
import Parley.Proofs.World.Output

/-!
# The methods of a service

A service has two methods: one sets the host, the other the data of the authentication. This module
says what they do to the world. The first one writes down what it is about to do; apart from that,
either nothing happens or the one datum of the service is replaced.
-/

namespace Parley.Act

variable {scope : Nat} {name : String} {service : Service} {args : Args} {w : World}

/-! ### Looking a service up -/

theorem perform_serviceOf (h : w.store.service? scope name = some service) :
    w.perform (serviceOf scope name) = (.ok service, w) := by
  rw [serviceOf, perform_getStore_bind, h]
  rfl

theorem service?_of_serviceOf {w₁ : World}
    (h : w.perform (serviceOf scope name) = (.ok service, w₁)) :
    w.store.service? scope name = some service := by
  cases hfound : w.store.service? scope name with
  | none =>
    rw [serviceOf, perform_getStore_bind, hfound] at h
    cases (Prod.mk.inj h).1
  | some found =>
    rw [perform_serviceOf hfound] at h
    rw [Except.ok.inj (Prod.mk.inj h).1]

theorem onlyPrints_serviceOf (scope : Nat) (name : String) : OnlyPrints (serviceOf scope name) := by
  refine (onlyPrints_getStore _).bind fun found => ?_
  cases found with
  | some service => exact (fixed_pure _).onlyPrints
  | none => exact onlyPrints_throw _

theorem perform_modifyService (h : w.store.service? scope name = some service)
    (f : Service → Service) :
    w.perform (modifyService scope name f) =
      (.ok (), { w with store := w.store.setService scope name (f service) }) := by
  rw [modifyService, perform_bind_ok (perform_serviceOf h)]
  rfl

/-! ### Constants -/

theorem exists_constantData (c : Constant) : ∃ d, constantData (.constant c) = pure d := by
  cases c <;> exact ⟨_, rfl⟩

/-- A constant is written without a look at the store. -/
theorem fixed_pasted_constant (c : Constant) : Fixed (pasted (.constant c)) := by
  obtain ⟨r, hr⟩ := fixed_ofTraced (c.write .pasted)
  refine ⟨r, fun w => ?_⟩
  exact hr w

/-! ### The host -/

section SetHost

variable {u : World} (address : Nat) {text : String}

/-- Takes a datum for the host, if it is one. -/
def takeHost (scope address : Nat) (name : String) : Answer → Act Answer
  | .cell _ => throw (.noAttribute "Cell" "getValue")
  | .value v => do
    let d ← constantData v
    modifyService scope name fun s => { s with host := d }
    return .value (.service address name)

/-- The method that sets the host writes what it is about to do, and looks the service up. -/
theorem perform_setHost {a : Answer} (hlookup : args.lookup "host" = some a)
    (htext : w.perform (pasted (w.store.deref a)) = (.ok text, u))
    (hservice : w.store.service? scope name = some service) :
    ∃ w₁ : World, w.Said w₁ ∧ w.perform (applyMethod scope address name .setHost args) =
      w₁.perform (takeHost scope address name a) := by
  have hpasted : w.Said u := by
    have hsaid := onlyPrints_written .pasted (w.store.deref a) w
    rwa [show w.perform (written .pasted (w.store.deref a)) = _ from htext] at hsaid
  obtain ⟨w₁, hw₁, htrace⟩ := prints_trace ("Setting host " ++ text) u
  have hsaid := hpasted.trans htrace
  have hargument : argument args "host" = pure a := by rw [argument, hlookup]
  have hfound := perform_serviceOf (hsaid.store.symm ▸ hservice)
  refine ⟨w₁, hsaid, ?_⟩
  rw [applyMethod, hargument, pure_bind, perform_deref_bind,
    perform_bind_ok htext, perform_bind_ok hw₁, perform_bind_ok hfound]
  cases a <;> rfl

/-- A host that is given as a value is set. -/
theorem perform_setHost_value {v : Value} {d : Data} (hlookup : args.lookup "host" = some (.value v))
    (htext : w.perform (pasted v) = (.ok text, u))
    (hservice : w.store.service? scope name = some service) (hdata : constantData v = pure d) :
    ∃ w₁ : World, w.Said w₁ ∧ w.perform (applyMethod scope address name .setHost args) =
      (.ok (.value (.service address name)),
        { w₁ with store := w.store.setService scope name { service with host := d } }) := by
  obtain ⟨w₁, hsaid, hrun⟩ := perform_setHost address hlookup htext hservice
  have hmodify := perform_modifyService (hsaid.store.symm ▸ hservice) fun s => { s with host := d }
  refine ⟨w₁, hsaid, ?_⟩
  rw [hrun, takeHost, hdata, pure_bind, perform_bind_ok hmodify, hsaid.store]
  rfl

/-- If the host is not taken, nothing happens but output. -/
theorem onlyPrints_setHost {a : Answer} (hlookup : args.lookup "host" = some a)
    (h : OnlyPrints (takeHost scope address name a)) :
    OnlyPrints (applyMethod scope address name .setHost args) := by
  rw [applyMethod, argument, hlookup, pure_bind]
  refine (onlyPrints_getStore _).bind fun v => (onlyPrints_written _ v).bind fun text => ?_
  refine (prints_trace _).fixed.onlyPrints.bind fun _ => (onlyPrints_serviceOf _ _).bind fun s => ?_
  cases a <;> exact h

/-- What comes of it is settled by the arguments, if the scope knows the service: either nothing is
changed, or the host becomes a certain datum. -/
theorem setHost_cases (scope : Nat) (name : String) (args : Args) :
    OnlyPrints (applyMethod scope address name .setHost args) ∨
      ∃ d, ∀ (w : World) (s : Service), w.store.service? scope name = some s →
        ∃ w₁ : World, w.Said w₁ ∧ (w.perform (applyMethod scope address name .setHost args)).2 =
          { w₁ with store := w.store.setService scope name { s with host := d } } := by
  cases hlookup : args.lookup "host" with
  | none =>
    left
    rw [applyMethod, argument, hlookup]
    exact onlyPrints_throw _
  | some a =>
    cases a with
    | cell c => exact .inl (onlyPrints_setHost address hlookup (onlyPrints_throw _))
    | value v =>
      cases v with
      | constant c =>
        -- Whether the constant can be written does not depend on the world.
        obtain ⟨r, hr⟩ := fixed_pasted_constant c
        cases r with
        | error e =>
          left
          intro w
          obtain ⟨w₁, hw₁, hsaid⟩ := hr w
          rwa [applyMethod, argument, hlookup, pure_bind, perform_deref_bind, Store.deref,
            perform_bind, hw₁]
        | ok text =>
          obtain ⟨d, hd⟩ := exists_constantData c
          refine .inr ⟨d, fun w s hs => ?_⟩
          obtain ⟨w₁, hw₁, -⟩ := hr w
          obtain ⟨w₂, hsaid, hrun⟩ := perform_setHost_value address hlookup hw₁ hs hd
          exact ⟨w₂, hsaid, by rw [hrun]⟩
      | _ => exact .inl (onlyPrints_setHost address hlookup (onlyPrints_throw _))

end SetHost

/-! ### The data of the authentication -/

/-- The data of the authentication are set, or nothing happens at all. -/
theorem setAuthentication_cases (address : Nat) (args : Args)
    (hservice : w.store.service? scope name = some service) :
    (w.perform (applyMethod scope address name .setAuthentication args)).2 = w ∨
      ∃ d, (w.perform (applyMethod scope address name .setAuthentication args)).2 =
        { w with store := w.store.setService scope name { service with authData := d } } := by
  have hfound := perform_serviceOf hservice
  rw [applyMethod, argValue, argument]
  cases args.lookup "auth" with
  | none => exact .inl rfl
  | some a =>
    rw [pure_bind, perform_deref_bind, perform_bind_ok hfound]
    cases w.store.deref a with
    | constant c =>
      obtain ⟨d, hd⟩ := exists_constantData c
      have hmodify := perform_modifyService hservice fun s => { s with authData := d }
      rw [hd, pure_bind, perform_bind_ok hmodify]
      exact .inr ⟨d, rfl⟩
    | _ => exact .inl rfl

end Parley.Act
