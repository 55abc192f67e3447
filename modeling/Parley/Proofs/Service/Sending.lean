import Parley.Proofs.World.Output
import Parley.Proofs.World.Quiet

/-!
# What a call of a service sends

A call of a service puts its messages together and sends them before anything comes back. So what it
sends depends on the service, the name of the call and the texts of the arguments, and of the world
it depends on the site of the network alone: not on what else has been sent, not on the replies, not
on the time, and not on the store. What does depend on the replies is whether a connection to a queue
is closed in the end; that is not counted as a message.

Statements of this kind are about two runs. Two actions send alike if, in worlds at the same site,
they send the same messages and stay at the site. The calls are taken apart into the steps that come
before the messages, which come to the same in every world, the messages, and the steps after them,
which send none.
-/

namespace Parley

open List

/-- Does it carry something? To close a connection does not. -/
def Sent.isMessage : Sent → Bool
  | .close => false
  | _ => true

namespace Network

/-- The messages that have been sent. -/
def messages (n : Network) : List Sent :=
  n.sent.filter Sent.isMessage

/-- The second network comes from the first one by sending these messages. -/
structure Sends (n n' : Network) (l : List Sent) : Prop where
  site : n'.site = n.site
  messages : n'.messages = n.messages ++ l

variable {a b c : Network} {l m : List Sent}

theorem Sends.refl (n : Network) : Sends n n [] :=
  ⟨rfl, (append_nil _).symm⟩

theorem Sends.trans (h₁ : Sends a b l) (h₂ : Sends b c m) : Sends a c (l ++ m) :=
  ⟨h₂.site.trans h₁.site, by rw [h₂.messages, h₁.messages, append_assoc]⟩

theorem sends_record (n : Network) (s : Sent) : Sends n (n.record s) ([s].filter Sent.isMessage) :=
  ⟨rfl, filter_append ..⟩

theorem sends_nextReply (n : Network) : Sends n n.nextReply.1 [] := by
  refine ⟨n.site_nextReply, ?_⟩
  rw [append_nil, nextReply]
  split <;> rfl

end Network

theorem World.Said.sends {w w' : World} (h : w.Said w') : Network.Sends w.network w'.network [] := by
  rw [h.network]
  exact .refl _

namespace Act

open Network (Sends)

variable {α β γ : Type} {x y : Act α} {f : α → Act β} {c : Prop} {g : α → Act γ}

/-! ### Actions that send nothing -/

/-- The action sends nothing, whatever it comes to. -/
def Offline (x : Act α) : Prop :=
  ∀ w : World, Sends w.network (w.perform x).2.network []

theorem OnlyPrints.offline (h : OnlyPrints x) : Offline x :=
  fun w => (h w).sends

theorem Fixed.offline (h : Fixed x) : Offline x :=
  h.onlyPrints.offline

theorem offline_get : Offline (get : Act World) :=
  fun w => .refl w.network

theorem Offline.bind (hx : Offline x) (hf : ∀ a, Offline (f a)) : Offline (x >>= f) := by
  intro w
  have hsends := hx w
  rw [perform_bind]
  rcases hrun : w.perform x with ⟨e | a, w₁⟩
  · rwa [hrun] at hsends
  · rw [hrun] at hsends
    exact hsends.trans (hf a w₁)

theorem offline_poll : Offline poll :=
  fun _ => ⟨rfl, (append_nil _).symm⟩

theorem offline_close : Offline (record .close) :=
  fun w => w.network.sends_record .close

/-- To wait for an answer is to ask for it, again and again, and asking is not sending. -/
theorem offline_awaitMessage (isUp : Nat → Except Fault Bool) (limit : Data) (fuel : Nat) :
    Offline (awaitMessage isUp limit fuel) := by
  induction fuel with
  | zero => exact (onlyPrints_throw _).offline
  | succ fuel ih =>
    refine Offline.bind (prints_print _).fixed.offline fun _ => offline_poll.bind fun message => ?_
    refine offline_get.bind fun w => (fixed_ofResult _).offline.bind fun up => ?_
    cases up with
    | true => exact (onlyPrints_throw _).offline
    | false =>
      cases message with
      | some text => exact (fixed_pure _).offline
      | none => exact ih

theorem offline_awaitReply (start : Nat) (limit : Data) : Offline (awaitReply start limit) :=
  offline_get.bind fun _ => offline_awaitMessage _ limit _

theorem offline_successOf (reply : Reply) : Offline (successOf reply) := by
  cases reply with
  | response status reason headers body =>
    exact ((fixed_ofResult _).bind fun _ => fixed_pure _).offline
  | _ => exact (onlyPrints_throw _).offline

theorem fixed_readResponse (type : Data) (text : String) : Fixed (readResponse type text) := by
  unfold readResponse
  split
  · exact fixed_ofResult _
  · exact fixed_pure _
  · exact fixed_pure _

/-- What a call does with the answer to a message. -/
theorem offline_answer (start : Nat) (limit type : Data) : Offline (do
    let text ← awaitReply start limit
    printBelow "response" "<message>"
    record .close
    let result ← readResponse type text
    return Data.dict [("response", result)]) :=
  (offline_awaitReply _ _).bind fun _ => (prints_print _).fixed.offline.bind fun _ =>
    offline_close.bind fun _ => ((fixed_readResponse _ _).bind fun _ => fixed_pure _).offline

/-! ### Actions that send the same -/

/-- In worlds at the same site the two actions send the same messages. -/
def SendAlike (x : Act α) (y : Act β) : Prop :=
  ∀ w w' : World, w.network.site = w'.network.site →
    ∃ l, Sends w.network (w.perform x).2.network l ∧ Sends w'.network (w'.perform y).2.network l

theorem Offline.sendAlike {y : Act β} (hx : Offline x) (hy : Offline y) : SendAlike x y :=
  fun w w' _ => ⟨[], hx w, hy w'⟩

/-- A step that comes to the same in every world. -/
theorem SendAlike.bind (hx : Fixed x)
    (hfg : ∀ a, SendAlike (f a) (g a)) : SendAlike (x >>= f) (x >>= g) := by
  obtain ⟨r, hr⟩ := hx
  intro w w' hsite
  obtain ⟨w₁, hw₁, hsaid⟩ := hr w
  obtain ⟨w₁', hw₁', hsaid'⟩ := hr w'
  rw [perform_bind, perform_bind, hw₁, hw₁']
  cases r with
  | error e => exact ⟨[], hsaid.sends, hsaid'.sends⟩
  | ok a =>
    obtain ⟨l, hl, hl'⟩ := hfg a w₁ w₁' (by rw [hsaid.network, hsaid'.network, hsite])
    exact ⟨l, hsaid.network ▸ hl, hsaid'.network ▸ hl'⟩

theorem SendAlike.ite [Decidable c] {x' y' : Act β} (hx : SendAlike x x')
    (hy : SendAlike y y') : SendAlike (if c then x else y) (if c then x' else y') := by
  split
  · exact hx
  · exact hy

/-- Two branches that go on in the same way. -/
theorem SendAlike.branch [Decidable c]
    (hx : Fixed x) (hy : Fixed y) (hfg : ∀ a, SendAlike (f a) (g a)) :
    SendAlike (if c then x >>= f else y >>= f) (if c then x >>= g else y >>= g) :=
  .ite (.bind hx hfg) (.bind hy hfg)

/-- A step that is taken only under some condition. -/
theorem SendAlike.optional [Decidable c] {x : Act Unit} {f : Unit → Act β}
    {g : Unit → Act γ} (hx : Fixed x) (hfg : ∀ u, SendAlike (f u) (g u)) :
    SendAlike (if c then x >>= f else f ()) (if c then x >>= g else g ()) :=
  .ite (.bind hx hfg) (hfg ())

/-- The two actions may look at the world, each at its own. -/
theorem SendAlike.get_bind {f : World → Act α} {g : World → Act β}
    (hfg : ∀ w w' : World, w.network.site = w'.network.site → SendAlike (f w) (g w')) :
    SendAlike (get >>= f) (get >>= g) := by
  intro w w' hsite
  exact hfg w w' hsite w w' hsite

/-- The name of the queue for the answer comes from the token. -/
theorem SendAlike.replyQueue_bind {f : String → Act α} {g : String → Act β}
    (hfg : ∀ queue, SendAlike (f queue) (g queue)) :
    SendAlike (replyQueue >>= f) (replyQueue >>= g) := by
  intro w w' hsite
  have htoken : w.network.token = w'.network.token := (Prod.mk.inj hsite).1
  have hqueue (u : World) :
      u.perform replyQueue = (.ok ("REPLY_restsh_" ++ u.network.token), u) := rfl
  rw [perform_bind_ok (hqueue w), perform_bind_ok (hqueue w'), htoken]
  exact hfg _ w w' hsite

/-- Both send the same message first. -/
theorem SendAlike.record_bind (s : Sent) {f : Unit → Act α} {g : Unit → Act β}
    (hfg : SendAlike (f ()) (g ())) : SendAlike (record s >>= f) (record s >>= g) := by
  intro w w' hsite
  obtain ⟨l, hl, hl'⟩ := hfg { w with network := w.network.record s }
    { w' with network := w'.network.record s } hsite
  exact ⟨_, (w.network.sends_record s).trans hl, (w'.network.sends_record s).trans hl'⟩

/-- A request is sent, and after that nothing. -/
theorem sends_request (sent : Sent) {f : Reply → Act α} (hf : ∀ reply, Offline (f reply)) (w : World) :
    Sends w.network (w.perform ((modifyGet fun u : World =>
      ((u.network.record sent).nextReply.2,
        { u with network := (u.network.record sent).nextReply.1 })) >>= f)).2.network
      ([sent].filter Sent.isMessage) := by
  have hnext := (w.network.sends_record sent).trans (Network.sends_nextReply _)
  have hrest := hf (w.network.record sent).nextReply.2
    { w with network := (w.network.record sent).nextReply.1 }
  have hall := hnext.trans hrest
  rwa [append_nil, append_nil] at hall

theorem SendAlike.send_bind (url : String) (method : Data) (headers : Data.Entries)
    (body : Option String) (timeout : Data) (lenient : Bool) {f : Reply → Act α}
    (hf : ∀ reply, Offline (f reply)) :
    SendAlike (send url method headers body timeout lenient >>= f)
      (send url method headers body timeout lenient >>= f) := by
  unfold send
  rw [bind_assoc]
  refine .bind (fixed_ofResult _) fun target => ?_
  rw [bind_assoc]
  refine .bind (prints_print _).fixed fun _ => fun w w' _ => ?_
  exact ⟨_, sends_request _ hf w, sends_request _ hf w'⟩

/-! ### Calls -/

theorem fixed_fillOptional (template params : Data) (args : Service.ArgTexts) :
    Fixed (fillOptional template params args) := by
  unfold fillOptional
  split
  · exact fixed_pure _
  · exact (fixed_ofTraced _).bind fun _ => fixed_pure _

theorem fixed_fillHeaders (params : Data) (args : Service.ArgTexts)
    (headers more : Data.Entries) : Fixed (fillHeaders params args headers more) := by
  induction more generalizing headers with
  | nil => exact fixed_pure _
  | cons h more ih => exact (fixed_ofTraced _).bind fun _ => ih _

theorem fixed_fillMessageHeaders (params : Data) (args : Service.ArgTexts)
    (headers : Data.Entries) : Fixed (fillMessageHeaders params args headers) := by
  induction headers with
  | nil => exact fixed_pure _
  | cons h headers ih =>
    obtain ⟨name, value⟩ := h
    have hrest (d : Data) : Fixed (fillMessageHeaders params args headers >>= fun more =>
        pure ((name, d) :: more)) :=
      ih.bind fun _ => fixed_pure _
    cases value with
    | str text => exact (fixed_ofTraced _).bind fun _ => hrest _
    | _ => exact hrest _

variable (s : Service) (name : String) (args : Service.ArgTexts)

/-- **A request** is put together without a look at the world. -/
theorem callHttp_sendAlike : SendAlike (callHttp s name args) (callHttp s name args) := by
  iterate 10 refine .bind (fixed_ofResult _) fun _ => ?_
  refine .branch (fixed_ofResult _) (fixed_pure _) fun headers => ?_
  refine .optional (prints_print _).fixed fun _ => ?_
  refine .bind (fixed_ofTraced _) fun path => .bind (prints_print _).fixed fun _ => ?_
  iterate 3 refine .bind (fixed_fillOptional _ _ _) fun _ => ?_
  refine .bind (prints_print _).fixed fun _ => ?_
  iterate 2 refine .bind (fixed_ofResult _) fun _ => ?_
  refine .bind (fixed_fillHeaders _ _ _ _) fun _ => .bind (fixed_ofResult _) fun url => ?_
  refine .send_bind _ _ _ _ _ _ fun reply => (offline_successOf reply).bind fun r => ?_
  exact (prints_print _).fixed.offline.bind fun _ =>
    ((fixed_readResponse _ _).bind fun _ => fixed_pure _).offline

/-- **A message** too, but for the name of the queue for the answer. The time is looked at in the
beginning, but it counts only when the message has been sent. -/
theorem callQueue_sendAlike : SendAlike (callQueue s name args) (callQueue s name args) := by
  refine .get_bind fun w w' hsite => ?_
  have hbroker : w.network.broker.isNone = w'.network.broker.isNone := (Prod.mk.inj hsite).2
  rw [hbroker]
  refine .optional ⟨_, fun u => ⟨u, rfl, .refl u⟩⟩ fun _ => ?_
  refine .get_bind fun u u' _ => ?_
  iterate 6 refine .bind (fixed_ofResult _) fun _ => ?_
  refine .bind (fixed_fillOptional _ _ _) fun body => .bind (fixed_ofResult _) fun _ => ?_
  refine .branch (fixed_ofResult _) (fixed_pure _) fun auth => ?_
  iterate 2 refine .bind (fixed_ofResult _) fun _ => ?_
  refine .bind (fixed_fillMessageHeaders _ _ _) fun headers => ?_
  refine .replyQueue_bind fun reply => .record_bind _ (.record_bind _ ?_)
  refine .bind (prints_print _).fixed fun _ => .record_bind _ ?_
  exact (offline_answer _ _ _).sendAlike (offline_answer _ _ _)

theorem callService_sendAlike : SendAlike (callService s name args) (callService s name args) := by
  unfold callService
  split
  · exact callHttp_sendAlike s name args
  · exact callQueue_sendAlike s name args
  · exact (fixed_pure _).offline.sendAlike (fixed_pure _).offline

/-- The worlds are the same, with a given store and at a given site. -/
def Staying (s : Store) (site : String × Bool) (w w' : World) : Prop :=
  w = w' ∧ w.store = s ∧ w.network.site = site

instance (s : Store) (site : String × Bool) : Outer (Staying s site) where
  bare h := congrArg World.bare h.1
  write text h := ⟨by rw [h.1], h.2.1, h.2.2⟩
  command c h := ⟨by rw [h.1], h.2.1, h.2.2⟩
  outside {w w' v v'} h hv hv' hbare _ hsite := by
    obtain ⟨rfl, hstore, hat⟩ := h
    have hsilent : { v.bare with store := v.store } = { v'.bare with store := v'.store } := by
      rw [hbare, hv.store, hv'.store]
    have hsame : v = v' := World.eq_of_silent hsilent (hv.console.trans hv'.console.symm)
      (hv.transcript.trans hv'.transcript.symm)
    exact ⟨hsame, hv.store.trans hstore, hsite.trans hat⟩

/-- A call leaves the store as it is and stays where it is, whatever it sends. -/
theorem perform_callService_site (w : World) :
    (w.perform (callService s name args)).2.store = w.store ∧
      (w.perform (callService s name args)).2.network.site = w.network.site :=
  (Keeps.callService (E := Staying w.store w.network.site) s name args ⟨rfl, rfl, rfl⟩).2.2

end Act

end Parley
