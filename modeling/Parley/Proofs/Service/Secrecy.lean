import Mathlib.Data.List.Forall2
import Parley.Proofs.Eval.Parameters
import Parley.Proofs.Service.Methods
import Parley.Proofs.Service.Sending

/-!
# Credentials stay out of calls that do not show them

The data of the authentication stand in the same record as everything that messages are made of, and
the method that sets them can be called at any time. This module says that calls which do not show
who calls send nothing that depends on these data: whatever has been done with a service before, two
histories that differ in the data only lead to the same messages.

The argument is one about two runs. Two worlds are counterparts if they know the same service but for
the data, and are at the same site. Everything that is done with a service leads from counterparts to
counterparts, and in counterparts a call that does not show who calls sends the same.
-/

namespace Parley

open Data (find?)

namespace Service

/-- The call shows who calls. -/
def Shows (s : Service) (call : String) : Prop :=
  ∃ d, s.needsAuth call = .ok d ∧ d.truthy = true

/-! ### Documents that differ in the data of the authentication -/

/-- The two descriptions of an authentication differ in the data at most. -/
def AlikeAuth (a a' : Data) : Prop :=
  a = a' ∨ ∃ es es', a = .dict es ∧ a' = .dict es' ∧ ∀ key, key ≠ "data" → find? key es = find? key es'

/-- The two documents differ in the data of the authentication at most. -/
def Alike (document document' : Data) : Prop :=
  ∃ es es', document = .dict es ∧ document' = .dict es' ∧
    (∀ key, key ≠ "authentication" → find? key es = find? key es') ∧
    Option.Rel AlikeAuth (find? "authentication" es) (find? "authentication" es')

variable {es es' : Data.Entries} {document document' : Data} {s : Service}

theorem part_congr {key : String} (h : find? key es = find? key es') :
    (Data.dict es).part key = (Data.dict es').part key := by
  rw [Data.part, Data.part, h]

theorem getOr_congr {key : String} (h : find? key es = find? key es') (default : Data) :
    (Data.dict es).getOr key default = (Data.dict es').getOr key default := by
  rw [Data.getOr, Data.getOr, h]

theorem readAuth_dict (es : Data.Entries) :
    readAuth (.dict es) = match find? "authentication" es with
      | none => .ok (.null, .null)
      | some auth => auth.getOr "type" .null >>= fun type =>
        auth.getOr "data" .null >>= fun data => .ok (type, data) := by
  cases h : find? "authentication" es with
  | none => simp [readAuth, Data.holds, Data.hasKey, h, bind, Except.bind]
  | some auth => simp [readAuth, Data.holds, Data.hasKey, Data.part, h, bind, Except.bind]

/-- The type of the authentication is the same. -/
theorem readAuth_alike
    (h : Option.Rel AlikeAuth (find? "authentication" es) (find? "authentication" es')) :
    readAuth (.dict es) = readAuth (.dict es') ∨
      ∃ type data data', readAuth (.dict es) = pure (type, data) ∧
        readAuth (.dict es') = pure (type, data') := by
  rw [readAuth_dict, readAuth_dict]
  generalize find? "authentication" es = auth, find? "authentication" es' = auth' at h
  cases h with
  | none => exact .inl rfl
  | some h =>
    rcases h with rfl | ⟨fs, fs', rfl, rfl, hsame⟩
    · exact .inl rfl
    · refine .inr ⟨(find? "type" fs).getD .null, (find? "data" fs).getD .null,
        (find? "data" fs').getD .null, rfl, ?_⟩
      rw [hsame "type" (by decide)]
      rfl

/-- If the first reading succeeds, so does the second, and the services differ in the data of the
authentication only. -/
def ReadAlike (r r' : Except Fault Service) : Prop :=
  ∀ s, r = .ok s → ∃ data, r' = .ok { s with authData := data }

theorem ReadAlike.refl (r : Except Fault Service) : ReadAlike r r :=
  fun s hs => ⟨s.authData, hs⟩

theorem ReadAlike.bind {α : Type} (x : Except Fault α) {f f' : α → Except Fault Service}
    (h : ∀ a, ReadAlike (f a) (f' a)) : ReadAlike (x >>= f) (x >>= f') := by
  cases x with
  | error e => exact nofun
  | ok a => exact h a

/-- **Alike documents** describe services that differ in the data of the authentication only. -/
theorem ofDocument_alike (halike : Alike document document') :
    ReadAlike (ofDocument document) (ofDocument document') := by
  obtain ⟨es, es', rfl, rfl, hsame, hauth⟩ := halike
  have hpart {key : String} (h : key ≠ "authentication") := part_congr (hsame key h)
  have hgetOr {key : String} (h : key ≠ "authentication") := getOr_congr (hsame key h)
  have hdata (transport : Transport) :
      ReadAlike (ofData transport (.dict es)) (ofData transport (.dict es')) := by
    unfold ofData
    rw [hgetOr (by decide : "host" ≠ _), hgetOr (by decide : "description" ≠ _),
      hgetOr (by decide : "ignoreTlsErrors" ≠ _), hpart (by decide : "protocol" ≠ _),
      hpart (by decide : "call" ≠ _)]
    iterate 3 refine .bind _ fun _ => ?_
    rcases readAuth_alike hauth with h | ⟨type, data, data', h, h'⟩
    · rw [h]
      exact .refl _
    · rw [h, h', pure_bind]
      iterate 4 refine .bind _ fun _ => ?_
      rintro s ⟨⟩
      exact ⟨data', rfl⟩
  unfold ofDocument transportOf
  rw [hpart (by decide : "protocol" ≠ _)]
  exact .bind _ hdata

/-- The type of a service's authentication is what the document says about it. -/
theorem readAuth_of_ofDocument (hs : ofDocument document = .ok s) :
    ∃ data, readAuth document = .ok (s.authType, data) := by
  obtain ⟨transport, -, hs⟩ := exists_of_bind_eq_ok hs
  obtain ⟨host, -, hs⟩ := exists_of_bind_eq_ok hs
  obtain ⟨protocol, -, hs⟩ := exists_of_bind_eq_ok hs
  obtain ⟨description, -, hs⟩ := exists_of_bind_eq_ok hs
  obtain ⟨⟨type, data⟩, hauth, hs⟩ := exists_of_bind_eq_ok hs
  obtain ⟨list, -, hs⟩ := exists_of_bind_eq_ok hs
  obtain ⟨items, -, hs⟩ := exists_of_bind_eq_ok hs
  obtain ⟨calls, -, hs⟩ := exists_of_bind_eq_ok hs
  obtain ⟨lenient, -, hs⟩ := exists_of_bind_eq_ok hs
  cases hs
  exact ⟨data, hauth⟩

/-- A service without an authentication has no call that shows who calls. -/
theorem not_shows_of_not_holds (hs : ofDocument document = .ok s)
    (h : document.holds "authentication" = .ok false) (call : String) : ¬ s.Shows call := by
  obtain ⟨data, hauth⟩ := readAuth_of_ofDocument hs
  rw [readAuth, h] at hauth
  have htype : Data.null = s.authType := (Prod.mk.inj (Except.ok.inj hauth)).1
  rintro ⟨d, hneeds, htruthy⟩
  rw [needsAuth, ← htype] at hneeds
  cases hneeds
  cases htruthy

/-! ### Histories -/

/-- Something that is done with a service. -/
inductive Operation where
  | setHost (args : Args)
  | setAuthentication (args : Args)
  | call (name : String) (args : ArgTexts)

/-- The two operations are the same, or both set the data of the authentication. -/
inductive Operation.Alike : Operation → Operation → Prop
  | setHost (args : Args) : Alike (.setHost args) (.setHost args)
  | setAuthentication (args args' : Args) :
      Alike (.setAuthentication args) (.setAuthentication args')
  | call (name : String) (args : ArgTexts) : Alike (.call name args) (.call name args)

/-- Carries out an operation on a service of this name. -/
def Operation.act (scope address : Nat) (name : String) : Operation → Act Unit
  | .setHost args => do let _ ← Act.applyMethod scope address name .setHost args
  | .setAuthentication args => do let _ ← Act.applyMethod scope address name .setAuthentication args
  | .call request args => do
    let s ← Act.serviceOf scope name
    let _ ← Act.callService s request args

end Service

open Service (Operation)

/-- The world after some operations. When one of them fails, the next one is carried out all the
same. -/
def World.afterAll (w : World) (scope address : Nat) (name : String) (ops : List Operation) : World :=
  ops.foldl (fun w op => (w.perform (op.act scope address name)).2) w

/-- The messages that have been sent from one world to a later one. -/
def World.sentUntil (w later : World) : List Sent :=
  later.network.messages.drop w.network.messages.length

theorem World.perform_discard {α : Type} (w : World) (x : Act α) :
    (w.perform (x >>= fun _ => pure ())).2 = (w.perform x).2 := by
  rw [Act.perform_bind]
  rcases w.perform x with ⟨e | a, w₁⟩ <;> rfl

theorem Network.Sends.sentUntil {w later : World} {l : List Sent}
    (h : Sends w.network later.network l) : w.sentUntil later = l := by
  rw [World.sentUntil, h.messages, List.drop_left]

/-- The worlds know the same service, but for the data of its authentication, and are at the same
site. It is the service `s`, perhaps with another host. -/
structure World.Counterpart (s : Service) (scope : Nat) (name : String) (w w' : World) : Prop where
  service : ∃ host data data',
    w.store.service? scope name = some { s with host := host, authData := data } ∧
    w'.store.service? scope name = some { s with host := host, authData := data' }
  site : w.network.site = w'.network.site

namespace Act

open Network (Sends)

variable {s : Service} {scope : Nat} {name : String} {w w' : World} {op op' : Operation}
  {ops ops' : List Operation}

/-- A call that does not show who calls makes nothing of the data. -/
theorem callService_eq_of_not_shows {call : String} (h : ¬ s.Shows call) (data : Data)
    (args : Service.ArgTexts) :
    callService { s with authData := data } call args = callService s call args := by
  have hneeds : Service.needsAuth { s with authData := data } call = s.needsAuth call := rfl
  have hskip {β : Type} (x y : Act β) :
      (ofResult (s.needsAuth call) >>= fun d => if d.truthy then x else y) =
        ofResult (s.needsAuth call) >>= fun _ => y := by
    cases hauth : s.needsAuth call with
    | error f => rfl
    | ok d =>
      have hd : ¬ d.truthy = true := fun ht => h ⟨d, hauth, ht⟩
      exact if_neg hd
  have hhttp : callHttp { s with authData := data } call args = callHttp s call args := by
    unfold callHttp
    simp only [hneeds, hskip]
    rfl
  have hqueue : callQueue { s with authData := data } call args = callQueue s call args := by
    unfold callQueue
    simp only [hneeds, hskip]
    rfl
  unfold callService
  rw [hhttp, hqueue]

/-! ### What an operation does -/

section Operation

variable {t : Service} (address : Nat)

/-- Setting the host replaces it or leaves it, as the arguments have it, and does nothing else. -/
theorem setHost_act (scope : Nat) (name : String) (args : Args) :
    ∃ change : Data → Data, ∀ (w : World) (t : Service), w.store.service? scope name = some t →
      (w.perform (Operation.act scope address name (.setHost args))).2.store.service? scope name =
          some { t with host := change t.host } ∧
        (w.perform (Operation.act scope address name (.setHost args))).2.network = w.network := by
  rcases setHost_cases address scope name args with honly | ⟨d, hset⟩
  · refine ⟨id, fun w t ht => ?_⟩
    rw [Operation.act, World.perform_discard, (honly w).store, (honly w).network]
    exact ⟨ht, rfl⟩
  · refine ⟨fun _ => d, fun w t ht => ?_⟩
    obtain ⟨w₁, hsaid, hw₁⟩ := hset w t ht
    rw [Operation.act, World.perform_discard, hw₁]
    exact ⟨Store.service?_setService (Store.table_lt_of_service? ht) name _, hsaid.network⟩

/-- Setting the data of the authentication replaces them or leaves them, and does nothing else. -/
theorem setAuthentication_act (ht : w.store.service? scope name = some t) (args : Args) :
    ∃ data, (w.perform (Operation.act scope address name (.setAuthentication args))).2.store.service?
          scope name = some { t with authData := data } ∧
      (w.perform (Operation.act scope address name (.setAuthentication args))).2.network =
        w.network := by
  rw [Operation.act, World.perform_discard]
  rcases setAuthentication_cases address args ht with hsame | ⟨d, hset⟩
  · rw [hsame]
    exact ⟨t.authData, ht, rfl⟩
  · rw [hset]
    exact ⟨d, Store.service?_setService (Store.table_lt_of_service? ht) name _, rfl⟩

theorem perform_act_call (ht : w.store.service? scope name = some t) (call : String)
    (args : Service.ArgTexts) :
    (w.perform (Operation.act scope address name (.call call args))).2 =
      (w.perform (callService t call args)).2 := by
  rw [Operation.act, perform_bind_ok (perform_serviceOf ht), World.perform_discard]

variable (h : w.Counterpart s scope name w')

include h

/-- **Every operation** leads from counterparts to counterparts. -/
theorem counterpart_act (halike : op.Alike op') :
    (w.perform (op.act scope address name)).2.Counterpart s scope name
      (w'.perform (op'.act scope address name)).2 := by
  obtain ⟨⟨host, data, data', ht, ht'⟩, hsite⟩ := h
  cases halike with
  | setHost args =>
    obtain ⟨change, hchange⟩ := setHost_act address scope name args
    obtain ⟨hhost, hnetwork⟩ := hchange w _ ht
    obtain ⟨hhost', hnetwork'⟩ := hchange w' _ ht'
    exact ⟨⟨change host, data, data', hhost, hhost'⟩, by rw [hnetwork, hnetwork', hsite]⟩
  | setAuthentication args args' =>
    obtain ⟨d, hd, hnetwork⟩ := setAuthentication_act address ht args
    obtain ⟨d', hd', hnetwork'⟩ := setAuthentication_act address ht' args'
    exact ⟨⟨host, d, d', hd, hd'⟩, by rw [hnetwork, hnetwork', hsite]⟩
  | call call args =>
    -- The two calls may send different messages, but neither touches the store.
    rw [perform_act_call address ht, perform_act_call address ht']
    obtain ⟨hstore, hstays⟩ := perform_callService_site _ call args w
    obtain ⟨hstore', hstays'⟩ := perform_callService_site _ call args w'
    exact ⟨⟨host, data, data', hstore.symm ▸ ht, hstore'.symm ▸ ht'⟩,
      by rw [hstays, hstays', hsite]⟩

/-- **In counterparts** an operation sends the same, unless it is a call that shows who calls. -/
theorem sends_act (halike : op.Alike op')
    (hshows : ∀ call args, op = .call call args → ¬ s.Shows call) :
    ∃ l, Sends w.network (w.perform (op.act scope address name)).2.network l ∧
      Sends w'.network (w'.perform (op'.act scope address name)).2.network l := by
  obtain ⟨⟨host, data, data', ht, ht'⟩, hsite⟩ := h
  cases halike with
  | setHost args =>
    obtain ⟨change, hchange⟩ := setHost_act address scope name args
    rw [(hchange w _ ht).2, (hchange w' _ ht').2]
    exact ⟨[], .refl _, .refl _⟩
  | setAuthentication args args' =>
    obtain ⟨-, -, hnetwork⟩ := setAuthentication_act address ht args
    obtain ⟨-, -, hnetwork'⟩ := setAuthentication_act address ht' args'
    rw [hnetwork, hnetwork']
    exact ⟨[], .refl _, .refl _⟩
  | call call args =>
    have hsame : callService { s with host := host, authData := data' } call args =
        callService { s with host := host, authData := data } call args :=
      callService_eq_of_not_shows (s := { s with host := host, authData := data })
        (hshows call args rfl) data' args
    rw [perform_act_call address ht, perform_act_call address ht', hsame]
    exact callService_sendAlike _ call args w w' hsite

/-- **Alike histories** lead from counterparts to counterparts. -/
theorem counterpart_after (halike : List.Forall₂ Operation.Alike ops ops') :
    (w.afterAll scope address name ops).Counterpart s scope name
      (w'.afterAll scope address name ops') := by
  induction halike generalizing w w' with
  | nil => exact h
  | cons hop _ ih => exact ih (counterpart_act address h hop)

/-- **Alike histories** send the same, if no call of them shows who calls. -/
theorem sends_after (halike : List.Forall₂ Operation.Alike ops ops')
    (hshows : ∀ call args, .call call args ∈ ops → ¬ s.Shows call) :
    ∃ l, Sends w.network (w.afterAll scope address name ops).network l ∧
      Sends w'.network (w'.afterAll scope address name ops').network l := by
  induction halike generalizing w w' with
  | nil => exact ⟨[], .refl _, .refl _⟩
  | cons hop _ ih =>
    obtain ⟨l, hl, hl'⟩ := sends_act address h hop fun call args hcall =>
      hshows call args (hcall ▸ List.mem_cons_self)
    obtain ⟨m, hm, hm'⟩ := ih (counterpart_act address h hop) fun call args hmem =>
      hshows call args (List.mem_cons_of_mem _ hmem)
    exact ⟨l ++ m, hl.trans hm, hl'.trans hm'⟩

end Operation

end Act

namespace Service

open Act

/-- **Credentials stay out of calls that do not show who calls.** Let two documents differ in the data
of the authentication at most. If the first one describes a service, the second one describes the same
service but for these data. Take any two worlds, the one with the first service and the other with the
second, on networks with the same token that both have a broker or both have none; nothing else needs
to be the same, not even what comes back for a request. And take any two histories of operations on the
services that differ in the data given to the authentication at most. Then

* a call that does not show who calls, carried out after the two histories, sends the same messages:
  the same request with its address, method, headers, body and time, or the same connection and the
  same message with its headers;
* if the histories have no call that shows who calls, they send the same messages throughout;
* so they do if the document says nothing about an authentication. -/
theorem secret_unsent {document document' : Data} {s : Service} (halike : Alike document document')
    (hs : ofDocument document = .ok s) :
    ∃ data, ofDocument document' = .ok { s with authData := data } ∧
      ∀ (scope address : Nat) (name : String) (w w' : World) (ops ops' : List Operation),
        w.store.service? scope name = some s →
        w'.store.service? scope name = some { s with authData := data } →
        w.network.site = w'.network.site → List.Forall₂ Operation.Alike ops ops' →
        let u := w.afterAll scope address name ops
        let u' := w'.afterAll scope address name ops'
        (∀ call args, ¬ s.Shows call →
          u.sentUntil (u.afterAll scope address name [.call call args]) =
            u'.sentUntil (u'.afterAll scope address name [.call call args])) ∧
        ((∀ call args, .call call args ∈ ops → ¬ s.Shows call) → w.sentUntil u = w'.sentUntil u') ∧
        (document.holds "authentication" = .ok false → w.sentUntil u = w'.sentUntil u') := by
  obtain ⟨data, hs'⟩ := ofDocument_alike halike s hs
  refine ⟨data, hs', ?_⟩
  intro scope address name w w' ops ops' hw hw' hsite hops u u'
  have hstart : w.Counterpart s scope name w' := ⟨⟨s.host, s.authData, data, hw, hw'⟩, hsite⟩
  have hall (hshows : ∀ call args, .call call args ∈ ops → ¬ s.Shows call) :
      w.sentUntil u = w'.sentUntil u' := by
    obtain ⟨l, hl, hl'⟩ := sends_after address hstart hops hshows
    rw [hl.sentUntil, hl'.sentUntil]
  refine ⟨fun call args hcall => ?_, hall, fun hnone => ?_⟩
  · have hone : List.Forall₂ Operation.Alike [.call call args] [.call call args] :=
      .cons (.call _ _) .nil
    obtain ⟨l, hl, hl'⟩ := sends_after address (counterpart_after address hstart hops) hone
      fun c a hmem => by
        cases List.mem_singleton.mp hmem
        exact hcall
    rw [hl.sentUntil, hl'.sentUntil]
  · exact hall fun call _ _ => not_shows_of_not_holds hs hnone call

/-- A document with a call that is open to everybody and one that is not. -/
def mixedDocument (data : String) : Data :=
  .dict [ ("authentication", .dict [("data", .str data), ("type", .str "basic")]),
      ("protocol", .str "http"), ("host", .str "h"),
      ("call", .list
        [ .dict [("name", .str "open"), ("path", .str "/o"), ("authenticated", .bool false)],
          .dict [("name", .str "closed"), ("path", .str "/c")] ]) ]

/-- The service that it describes. -/
def mixedService (data : String) : Service where
  transport := .http
  host := .str "h"
  protocol := .str "http"
  description := .null
  authType := .str "basic"
  authData := .str data
  lenient := .bool false
  calls :=
    let rest := [("timeout", .int 60), ("description", .null), ("params", .dict []),
      ("headers", .dict []),
      ("response", .dict [("type", .str "text"), ("transform", .null), ("error", .null)])]
    [ ("open", .dict
        ([("name", .str "open"), ("path", .str "/o"), ("authenticated", .bool false)] ++ rest)),
      ("closed", .dict ([("name", .str "closed"), ("path", .str "/c")] ++ rest)) ]

/-- A world that knows the service. -/
def mixedWorld (data : String) : World :=
  { World.blank with store := World.blank.store.setService 0 "s" (mixedService data) }

/-- A history in which the data are set and shown, and then the host is set. -/
def mixedHistory (data : String) : List Operation :=
  [ .setAuthentication [("auth", .value (.constant (.text data)))], .call "closed" [],
    .setHost [("host", .value (.constant (.text "k")))] ]

set_option maxRecDepth 1000 in
/-- After histories with other data, for a document with other data, the open call sends the same
request. -/
theorem secret_unsent_mixed : let u := (mixedWorld "u:p").afterAll 0 0 "s" (mixedHistory "a:b")
    let u' := (mixedWorld "v:q").afterAll 0 0 "s" (mixedHistory "c:d")
    Alike (mixedDocument "u:p") (mixedDocument "v:q") ∧
      ofDocument (mixedDocument "u:p") = .ok (mixedService "u:p") ∧
      ¬ (mixedService "u:p").Shows "open" ∧
      u.sentUntil (u.afterAll 0 0 "s" [.call "open" []]) =
        [ .request "http://k/o" "GET" [("User-agent", .str "restsh/1.0")] none (.int 60) false ] ∧
      u'.sentUntil (u'.afterAll 0 0 "s" [.call "open" []]) =
        [ .request "http://k/o" "GET" [("User-agent", .str "restsh/1.0")] none (.int 60) false ] := by
  intro u u'
  have halike : Alike (mixedDocument "u:p") (mixedDocument "v:q") := by
    refine ⟨_, _, rfl, rfl, fun key hkey => ?_, .some (.inr ⟨_, _, rfl, rfl, fun key hkey => ?_⟩)⟩
    · exact (if_neg hkey.symm).trans (if_neg hkey.symm).symm
    · exact (if_neg hkey.symm).trans (if_neg hkey.symm).symm
  have hread : ofDocument (mixedDocument "u:p") = .ok (mixedService "u:p") := rfl
  have hshows : ¬ (mixedService "u:p").Shows "open" := by
    rintro ⟨d, hd, htruthy⟩
    cases hd
    cases htruthy
  have hops : List.Forall₂ Operation.Alike (mixedHistory "a:b") (mixedHistory "c:d") :=
    .cons (.setAuthentication _ _) (.cons (.call _ _) (.cons (.setHost _) .nil))
  have hsent : u.sentUntil (u.afterAll 0 0 "s" [.call "open" []]) =
      [ .request "http://k/o" "GET" [("User-agent", .str "restsh/1.0")] none (.int 60) false ] := rfl
  obtain ⟨data, hread', hblind⟩ := secret_unsent halike hread
  obtain rfl : Data.str "v:q" = data := congrArg authData (Except.ok.inj hread')
  have hsame := (hblind 0 0 "s" (mixedWorld "u:p") (mixedWorld "v:q") _ _ rfl rfl rfl hops).1
  exact ⟨halike, hread, hshows, hsent, (hsame "open" [] hshows).symm.trans hsent⟩

end Service

end Parley
