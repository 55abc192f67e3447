import Parley.Proofs.Eval.Checking
import Parley.Proofs.Service.Secrecy

/-!
# A name and a password

A service of the type `basic` has a name and a password, with a colon between them. A request shows
them in base 64, and the password may have colons itself. A connection to a queue takes the text
apart at its colons, and that fails if there is more than one of them.

That a call shows who calls, and does not fail on account of it, is said by comparing it with the
call of the same service without the data of the authentication (`Act.Matches`): where that one sends
a request or connects to a queue, this one does so too, with the header or the settings on top.

* `Text.decodeBase64_encodeBase64`: decoding gives what has been encoded.
* `Service.twoParts_append`: which names and passwords can be told apart.
* `Service.Knows.callHttp_matches`, `Service.callQueue_matches`: calls with the data and without.
-/

namespace Parley

open List

variable {body : Option String} {e : String × Data}

namespace Text

/-! ### Base 64 -/

theorem base64Char_spec : ∀ n < 64, base64Value? (base64Char n) = some n ∧
    (base64Char n == '=') = false ∧ (base64Char n).toNat < 128 := by
  decide +kernel

theorem byteOf_eq {n : Nat} {b : UInt8} (h : n = b.toNat) : byteOf n = b := by
  rw [h, byteOf, UInt8.ofNat_toNat]

section Decoding

variable {n left pads : Nat} {b : UInt8} {done : List UInt8} {rest : List Char} (h : n < 64)

include h

/-! Six bits after another: after the first six there is a byte with every further character. -/

theorem decodeBase64From_zero : decodeBase64From 0 left pads done (base64Char n :: rest) =
    decodeBase64From 1 n 0 done rest := by
  rw [decodeBase64From, (base64Char_spec n h).1, (base64Char_spec n h).2.1]
  rfl

theorem decodeBase64From_one (hb : left * 4 + n / 16 = b.toNat) :
    decodeBase64From 1 left pads done (base64Char n :: rest) =
      decodeBase64From 2 (n % 16) 0 (b :: done) rest := by
  rw [decodeBase64From, (base64Char_spec n h).1, (base64Char_spec n h).2.1, ← byteOf_eq hb]
  rfl

theorem decodeBase64From_two (hb : left * 16 + n / 4 = b.toNat) :
    decodeBase64From 2 left pads done (base64Char n :: rest) =
      decodeBase64From 3 (n % 4) 0 (b :: done) rest := by
  rw [decodeBase64From, (base64Char_spec n h).1, (base64Char_spec n h).2.1, ← byteOf_eq hb]
  rfl

theorem decodeBase64From_three (hb : left * 64 + n = b.toNat) :
    decodeBase64From 3 left pads done (base64Char n :: rest) =
      decodeBase64From 0 0 0 (b :: done) rest := by
  rw [decodeBase64From, (base64Char_spec n h).1, (base64Char_spec n h).2.1, ← byteOf_eq hb]
  rfl

end Decoding

theorem decodeBase64From_encodeBase64 (bytes done : List UInt8) :
    decodeBase64From 0 0 0 done (encodeBase64 bytes) = .ok (done.reverse ++ bytes) := by
  fun_induction encodeBase64 bytes generalizing done with
  | case1 =>
    rw [append_nil]
    rfl
  | case2 a =>
    have ha := a.toNat_lt
    rw [decodeBase64From_zero (by omega), decodeBase64From_one (b := a) (by omega) (by omega)]
    simp [decodeBase64From]
  | case3 a b =>
    have ha := a.toNat_lt
    have hb := b.toNat_lt
    rw [decodeBase64From_zero (by omega), decodeBase64From_one (b := a) (by omega) (by omega),
      decodeBase64From_two (b := b) (by omega) (by omega)]
    simp [decodeBase64From]
  | case4 a b c rest ih =>
    have ha := a.toNat_lt
    have hb := b.toNat_lt
    have hc := c.toNat_lt
    rw [decodeBase64From_zero (by omega), decodeBase64From_one (b := a) (by omega) (by omega),
      decodeBase64From_two (b := b) (by omega) (by omega),
      decodeBase64From_three (b := c) (by omega) (by omega), ih]
    simp

theorem toNat_encodeBase64 (bytes : List UInt8) : ∀ c ∈ encodeBase64 bytes, c.toNat < 128 := by
  have hchar (n : Nat) : (base64Char n).toNat < 128 := by
    by_cases h : n < 64
    · exact (base64Char_spec n h).2.2
    · rw [base64Char, getElem?_eq_none (Nat.le_of_not_lt h)]
      decide
  fun_induction encodeBase64 bytes <;> simp_all

/-- **Decoding** gives the bytes that have been encoded. -/
theorem decodeBase64_encodeBase64 (bytes : List UInt8) :
    decodeBase64 (String.ofList (encodeBase64 bytes)) = .ok bytes := by
  rw [decodeBase64, String.toList_ofList, if_pos, decodeBase64From_encodeBase64]
  · rfl
  · simpa using toNat_encodeBase64 bytes

/-! ### Cutting at a character -/

section Cut

variable {sep : Char} {cs : List Char}

theorem cutFrom_of_not_mem (h : sep ∉ cs) (fuel : Nat) (part : List Char) :
    cutFrom [sep] fuel part cs = [part.reverse ++ cs] := by
  induction cs generalizing fuel part with
  | nil => cases fuel <;> simp [cutFrom]
  | cons c cs ih =>
    have hc := ne_of_not_mem_cons h
    have hcs := not_mem_of_not_mem_cons h
    cases fuel with
    | zero => rfl
    | succ fuel => simp [cutFrom, dropBeginning?, hc, ih hcs]

theorem cutFrom_append (h : sep ∉ cs) (rest part : List Char) (fuel : Nat) :
    cutFrom [sep] (cs.length + 1 + fuel) part (cs ++ sep :: rest) =
      (part.reverse ++ cs) :: cutFrom [sep] fuel [] rest := by
  induction cs generalizing part with
  | nil => simp [Nat.add_comm 1, cutFrom, dropBeginning?]
  | cons c cs ih =>
    have hc := ne_of_not_mem_cons h
    have hcs := not_mem_of_not_mem_cons h
    have hfuel : (c :: cs).length + 1 + fuel = (cs.length + 1 + fuel) + 1 := by
      rw [length_cons]
      omega
    rw [hfuel, cons_append, cutFrom]
    simp [dropBeginning?, hc, ih hcs]

theorem cut_of_not_mem (h : sep ∉ cs) : cut [sep] cs = [cs] := by
  rw [cut, cutFrom_of_not_mem h]
  rfl

theorem cut_append (h : sep ∉ cs) (rest : List Char) :
    cut [sep] (cs ++ sep :: rest) = cs :: cut [sep] rest := by
  have hfuel : (cs ++ sep :: rest).length + 1 = cs.length + 1 + (rest.length + 1) := by
    rw [length_append, length_cons]
    omega
  rw [cut, hfuel, cutFrom_append h]
  rfl

theorem cut_ne_nil (sep : Char) (cs : List Char) : cut [sep] cs ≠ [] := by
  by_cases h : sep ∈ cs
  · obtain ⟨a, b, rfl, ha⟩ := eq_append_cons_of_mem h
    rw [cut_append ha]
    exact cons_ne_nil _ _
  · rw [cut_of_not_mem h]
    exact cons_ne_nil _ _

end Cut

end Text

namespace Service

open Text

variable {s : Service} {u p : String}

/-- **Name and password** can be told apart if and only if there is no colon in the password. -/
theorem twoParts_append (hu : ':' ∉ u.toList) :
    (':' ∉ p.toList → twoParts (u ++ ":" ++ p) = .ok (u, p)) ∧
      (':' ∈ p.toList → twoParts (u ++ ":" ++ p) = .error (.tooManyParts 2)) := by
  have hcut : cutText ":" (u ++ ":" ++ p) = u :: (cut [':'] p.toList).map String.ofList := by
    have hlist : (u ++ ":" ++ p).toList = u.toList ++ ':' :: p.toList := by simp
    rw [cutText, hlist]
    show (cut [':'] (u.toList ++ ':' :: p.toList)).map String.ofList = _
    rw [cut_append hu, map_cons, String.ofList_toList]
  rw [twoParts, hcut]
  refine ⟨fun hp => ?_, fun hp => ?_⟩
  · rw [cut_of_not_mem hp, map_singleton, String.ofList_toList]
  · obtain ⟨a, b, hab, ha⟩ := eq_append_cons_of_mem hp
    obtain ⟨c, cs, hc⟩ := exists_cons_of_ne_nil (cut_ne_nil ':' b)
    rw [hab, cut_append ha, hc]
    rfl

/-- The service shows this name and this password. -/
structure Knows (s : Service) (u p : String) : Prop where
  type : s.authType = .str "basic"
  data : s.authData = .str (u ++ ":" ++ p)

/-- The code of a name and a password. -/
def basicCode (u p : String) : String :=
  String.ofList (encodeBase64 (utf8 (u ++ ":" ++ p)))

/-- The header that shows them. -/
def basicHeader (u p : String) : Data :=
  .bytes (utf8 ("basic " ++ basicCode u p))

theorem Knows.authHeaders (h : s.Knows u p) (headers : Data.Entries) :
    s.authHeaders headers = .ok (Data.put "authorization" (basicHeader u p) headers) := by
  rw [Service.authHeaders, h.type, h.data]
  rfl

theorem Knows.authSettings (h : s.Knows u p) (hu : ':' ∉ u.toList) :
    (':' ∉ p.toList → s.authSettings [] = .ok [("userid", .str u), ("password", .str p)]) ∧
      (':' ∈ p.toList → s.authSettings [] = .error (.tooManyParts 2)) := by
  obtain ⟨hpart, hparts⟩ := twoParts_append (p := p) hu
  rw [Service.authSettings, h.type, h.data]
  refine ⟨fun hp => ?_, fun hp => ?_⟩
  · simp [Data.asText, hpart hp, bind, Except.bind, Data.put]
  · simp [Data.asText, hparts hp, bind, Except.bind]

end Service

namespace Act

open Network (Sends)

variable {α β : Type} {L : List Sent → List Sent → Prop} {x : Act α} {f : α → Act β}

/-! ### What is sent -/

theorem ofResult_ok_bind (a : α) (f : α → Act β) : ofResult (.ok a) >>= f = f a :=
  rfl

/-- In every world the two actions send messages that are related, or else both fail before they
have sent anything. -/
def Matches (L : List Sent → List Sent → Prop) (x y : Act α) : Prop :=
  ∀ w : World, (Denies w x ∧ Denies w y) ∨ ∃ l l', Sends w.network (w.perform x).2.network l ∧
      Sends w.network (w.perform y).2.network l' ∧ L l l'

/-- Both actions begin with the same step, which sends nothing. -/
theorem Matches.bind {g : α → Act β} (hx : OnlyPrints x) (hfg : ∀ a, Matches L (f a) (g a)) :
    Matches L (x >>= f) (x >>= g) := by
  intro w
  rcases hrun : w.perform x with ⟨fault | a, w₁⟩
  · have hfails (f : α → Act β) : Denies w (x >>= f) :=
      hx.denies fun a w' h => by cases hrun.symm.trans h
    exact .inl ⟨hfails f, hfails g⟩
  · have hdenies {f : α → Act β} (h : Denies w₁ (f a)) : Denies w (x >>= f) := by
      refine hx.denies fun a' w' h' => ?_
      cases hrun.symm.trans h'
      exact h
    have hsends {f : α → Act β} {l : List Sent}
        (h : Sends w₁.network (w₁.perform (f a)).2.network l) :
        Sends w.network (w.perform (x >>= f)).2.network l := by
      have hfirst := hx.offline w
      rw [hrun] at hfirst
      rw [perform_bind_ok hrun]
      exact hfirst.trans h
    rcases hfg a w₁ with ⟨hf, hg⟩ | ⟨l, l', hf, hg, hL⟩
    · exact .inl ⟨hdenies hf, hdenies hg⟩
    · exact .inr ⟨l, l', hsends hf, hsends hg, hL⟩

/-- A step that is taken only under some condition. -/
theorem Matches.optional {c : Prop} [Decidable c] {x : Act Unit} {f g : Unit → Act β}
    (hx : OnlyPrints x) (hfg : Matches L (f ()) (g ())) :
    Matches L (if c then x >>= f else f ()) (if c then x >>= g else g ()) := by
  split
  · exact .bind hx fun _ => hfg
  · exact hfg

/-- Two requests, which differ in their headers. -/
theorem Matches.send_bind {url : String} {method timeout : Data} {headers headers' : Data.Entries}
    {lenient : Bool} {f : Reply → Act β} (hf : ∀ reply, Offline (f reply))
    (h : ∀ target, L [.request target (methodOf method body) (sentHeaders headers) body timeout
      lenient] [.request target (methodOf method body) (sentHeaders headers') body timeout
      lenient]) :
    Matches L (send url method headers body timeout lenient >>= f)
      (send url method headers' body timeout lenient >>= f) := by
  unfold send
  rw [bind_assoc, bind_assoc]
  refine .bind (fixed_ofResult _).onlyPrints fun target => ?_
  rw [bind_assoc, bind_assoc]
  refine .bind (prints_print _).fixed.onlyPrints fun _ w => ?_
  exact .inr ⟨_, _, sends_request _ hf w, sends_request _ hf w, h target⟩

/-- A message, and then what comes after it. -/
theorem sends_record_bind {m : Sent} {l : List Sent} (hm : m.isMessage = true) {f : Unit → Act α}
    (hf : ∀ w : World, Sends w.network (w.perform (f ())).2.network l) (w : World) :
    Sends w.network (w.perform (record m >>= f)).2.network (m :: l) := by
  have hsends := (w.network.sends_record m).trans (hf { w with network := w.network.record m })
  rwa [filter_cons_of_pos hm] at hsends

/-- A connection, and a message by it. -/
def conversation (host : Data) (reply : String) (body : Option String) (queue : Data)
    (headers auth : Data.Entries) : List Sent :=
  [.connect host auth, .declare reply, .publish body reply queue headers]

theorem sends_conversation (host queue : Data) (auth headers : Data.Entries) (reply text : String)
    {f : Unit → Act α} (hf : Offline (f ())) (w : World) :
    Sends w.network (w.perform (record (.connect host auth) >>= fun _ =>
      record (.declare reply) >>= fun _ => print text >>= fun _ =>
      record (.publish body reply queue headers) >>= f)).2.network
      (conversation host reply body queue headers auth) := by
  refine sends_record_bind rfl (sends_record_bind rfl fun w₂ => ?_) w
  obtain ⟨w₃, hw₃, hsaid⟩ := prints_print text w₂
  rw [perform_bind_ok hw₃, ← hsaid.network]
  exact sends_record_bind rfl hf w₃

theorem onlyPrints_get : OnlyPrints (get : Act World) :=
  fun w => .refl w

/-! ### The headers of a request -/

section Headers

variable {name key : String} {value : Data} {headers headers' : Data.Entries}

/-- There is a header that is sent under this name, and all of them have this value. -/
def Carries (name : String) (value : Data) (headers : Data.Entries) : Prop :=
  (∃ h ∈ headers, Text.capitalize h.1 = name) ∧
    ∀ h ∈ headers, Text.capitalize h.1 = name → h.2 = value

theorem find?_foldl_put {P : Data → Prop}
    (hall : ∀ h ∈ headers, Text.capitalize h.1 = name → P h.2) (acc : Data.Entries)
    (hstart : (∃ v ∈ Data.find? name acc, P v) ∨ ∃ h ∈ headers, Text.capitalize h.1 = name) :
    ∃ v ∈ Data.find? name
      (headers.foldl (fun acc h => Data.put (Text.capitalize h.1) h.2 acc) acc), P v := by
  induction headers generalizing acc with
  | nil => exact hstart.resolve_right (by simp)
  | cons h headers ih =>
    obtain ⟨hh, hrest⟩ := forall_mem_cons.mp hall
    refine ih hrest (Data.put _ _ acc) ?_
    by_cases hname : Text.capitalize h.1 = name
    · exact .inl ⟨h.2, by rw [hname]; exact Data.find?_put_self .., hh hname⟩
    · rcases hstart with ⟨v, hv, hP⟩ | ⟨h', hmem, hname'⟩
      · exact .inl ⟨v, (Data.find?_put_of_ne (Ne.symm hname) ..).trans hv, hP⟩
      · rcases mem_cons.mp hmem with rfl | hmem
        · exact absurd hname' hname
        · exact .inr ⟨h', hmem, hname'⟩

theorem Carries.find?_sentHeaders (h : Carries name value headers) :
    Data.find? name (sentHeaders headers) = some value := by
  obtain ⟨v, hv, rfl⟩ := find?_foldl_put (P := (· = value)) h.2 [] (.inr h.1)
  exact hv

theorem find?_sentHeaders_ne_none (h : ∃ e ∈ headers, Text.capitalize e.1 = name) :
    Data.find? name (sentHeaders headers) ≠ none := by
  obtain ⟨v, hv, -⟩ := find?_foldl_put (P := fun _ => True) (fun _ _ _ => trivial) [] (.inr h)
  rw [sentHeaders, hv]
  exact Option.some_ne_none v

theorem mem_put_of_ne (h : e ∈ headers) (hne : e.1 ≠ key) (v : Data) :
    e ∈ Data.put key v headers := by
  induction headers with
  | nil => cases h
  | cons e' headers ih => grind [Data.put]

theorem mem_put_self (key : String) (v : Data) (headers : Data.Entries) :
    (key, v) ∈ Data.put key v headers := by
  induction headers with
  | nil => simp [Data.put]
  | cons e headers ih => grind [Data.put]

/-- A header under another name changes nothing. -/
theorem Carries.put (h : Carries name value headers) (hkey : Text.capitalize key ≠ name)
    (v : Data) : Carries name value (Data.put key v headers) := by
  obtain ⟨⟨h₀, hmem, hname⟩, hall⟩ := h
  refine ⟨⟨h₀, mem_put_of_ne hmem (by rintro rfl; exact hkey hname) v, hname⟩, ?_⟩
  intro e he hename
  rcases mem_put he with rfl | he
  · exact absurd hename hkey
  · exact hall e he hename

/-- Headers of a call, put over others. -/
def putAll (own headers : Data.Entries) : Data.Entries :=
  own.foldl (fun acc e => Data.put e.1 e.2 acc) headers

/-- Two lists of headers, of which the second has one more: after others are put over both, it is
still there, unless one of them has its name. -/
theorem carries_putAll (own headers : Data.Entries)
    (h : (∃ e ∈ headers, Text.capitalize e.1 = name) ∨ Carries name value headers') :
    (∃ e ∈ putAll own headers, Text.capitalize e.1 = name) ∨
      Carries name value (putAll own headers') := by
  induction own generalizing headers headers' with
  | nil => exact h
  | cons e own ih =>
    refine ih _ ?_
    by_cases he : Text.capitalize e.1 = name
    · exact .inl ⟨e, mem_put_self .., he⟩
    · rcases h with ⟨e', hmem, hname⟩ | h
      · exact .inl ⟨e', mem_put_of_ne hmem (by rintro heq; exact he (heq ▸ hname)) _, hname⟩
      · exact .inr (h.put he _)

/-- The headers of a call do not depend on those they are put over. -/
theorem Matches.fillHeaders_bind {params : Data} {args : Service.ArgTexts}
    {more : Data.Entries} {f g : Data.Entries → Act β}
    (hfg : ∀ own, Matches L (f (putAll own headers)) (g (putAll own headers'))) :
    Matches L (fillHeaders params args headers more >>= f)
      (fillHeaders params args headers' more >>= g) := by
  induction more generalizing headers headers' with
  | nil => exact hfg []
  | cons e more ih =>
    rw [fillHeaders, fillHeaders, bind_assoc, bind_assoc]
    refine .bind (fixed_ofTraced _).onlyPrints fun text => ih fun own => ?_
    exact hfg ((e.1, .str text) :: own)

end Headers

end Act

namespace Service

open Act

variable {s : Service} {u p name : String}

/-- The service before it has been given a name and a password. -/
def nameless (s : Service) : Service :=
  { s with authData := .null }

/-- A request, and the same with this authorization, unless the call has one of its own. -/
def Authorizes (auth : Data) (l l' : List Sent) : Prop :=
  ∃ url method own body timeout lenient, let headers := sentHeaders (putAll own agent)
    let headers' := sentHeaders (putAll own (agent ++ [("authorization", auth)]))
    l = [.request url method headers body timeout lenient] ∧
      l' = [.request url method headers' body timeout lenient] ∧
      (Data.find? "Authorization" headers = none → Data.find? "Authorization" headers' = some auth)

/-- A message by a connection without settings, and the same with these. -/
def Connects (host : Data) (auth : Data.Entries) (l l' : List Sent) : Prop :=
  ∃ reply body queue headers, l = conversation host reply body queue headers [] ∧
    l' = conversation host reply body queue headers auth

theorem Knows.callHttp_matches (h : s.Knows u p) (hshows : s.Shows name) (args : ArgTexts) :
    Matches (Authorizes (basicHeader u p)) (callHttp s.nameless name args)
      (callHttp s name args) := by
  obtain ⟨needs, hneeds, htrue⟩ := hshows
  have hneeds' : s.nameless.needsAuth name = .ok needs := hneeds
  have hnone : s.nameless.authHeaders agent = .ok agent := by
    rw [Service.authHeaders, nameless, h.type]
  have hcarries : Carries "Authorization" (basicHeader u p)
      (agent ++ [("authorization", basicHeader u p)]) := by
    refine ⟨⟨("authorization", basicHeader u p), by simp, ?_⟩, ?_⟩
    · show Text.capitalize "authorization" = _
      decide
    simp only [agent, cons_append, nil_append, mem_cons, not_mem_nil, or_false]
    rintro e (rfl | rfl) hname
    · exact absurd hname (by decide)
    · rfl
  iterate 9 refine .bind (fixed_ofResult _).onlyPrints fun _ => ?_
  rw [hneeds, hneeds', hnone, h.authHeaders]
  simp only [ofResult_ok_bind, htrue, if_true]
  refine .optional (prints_print _).fixed.onlyPrints ?_
  refine .bind (fixed_ofTraced _).onlyPrints fun path => ?_
  refine .bind (prints_print _).fixed.onlyPrints fun _ => ?_
  iterate 3 refine .bind (fixed_fillOptional _ _ _).onlyPrints fun _ => ?_
  refine .bind (prints_print _).fixed.onlyPrints fun _ => ?_
  iterate 2 refine .bind (fixed_ofResult _).onlyPrints fun _ => ?_
  refine .fillHeaders_bind fun own => .bind (fixed_ofResult _).onlyPrints fun url => ?_
  refine .send_bind (fun reply => (offline_successOf reply).bind fun r => ?_)
    fun target => ⟨_, _, own, _, _, _, rfl, rfl, fun hnone => ?_⟩
  · exact (prints_print _).fixed.offline.bind fun _ =>
      ((fixed_readResponse _ _).bind fun _ => fixed_pure _).offline
  · have hown := carries_putAll own agent (.inr hcarries)
    exact (hown.resolve_left fun h => find?_sentHeaders_ne_none h hnone).find?_sentHeaders

section Queue

variable (hshows : s.Shows name) (args : ArgTexts)

include hshows

theorem callQueue_matches {auth : Data.Entries} (hnone : s.nameless.authSettings [] = .ok [])
    (hauth : s.authSettings [] = .ok auth) :
    Matches (Connects s.host auth) (callQueue s.nameless name args) (callQueue s name args) := by
  obtain ⟨needs, hneeds, htrue⟩ := hshows
  have hneeds' : s.nameless.needsAuth name = .ok needs := hneeds
  refine .bind onlyPrints_get fun w => .optional (onlyPrints_throw _) ?_
  refine .bind onlyPrints_get fun w' => ?_
  iterate 6 refine .bind (fixed_ofResult _).onlyPrints fun _ => ?_
  refine .bind (fixed_fillOptional _ _ _).onlyPrints fun body => ?_
  rw [hneeds, hneeds', hnone, hauth]
  simp only [ofResult_ok_bind, htrue]
  iterate 2 refine .bind (fixed_ofResult _).onlyPrints fun _ => ?_
  refine .bind (fixed_fillMessageHeaders _ _ _).onlyPrints fun headers => ?_
  refine .bind (onlyPrints_get.bind fun _ => (fixed_pure _).onlyPrints) fun reply w => ?_
  exact .inr ⟨_, _, sends_conversation _ _ _ _ _ _ (offline_answer _ _ _) w,
    sends_conversation _ _ _ _ _ _ (offline_answer _ _ _) w, _, _, _, _, rfl, rfl⟩

/-- A call whose settings cannot be made fails before it connects. -/
theorem callQueue_denies {fault : Fault} (hauth : s.authSettings [] = .error fault) (w : World) :
    Denies w (callQueue s name args) := by
  obtain ⟨needs, hneeds, htrue⟩ := hshows
  have hfails {β : Type} (fault : Fault) (f : β → Act Data) (w : World) :
      Denies w (throw fault >>= f) :=
    ⟨fault, w, rfl, rfl⟩
  unfold callQueue
  rw [hneeds, hauth]
  simp only [ofResult_ok_bind]
  refine onlyPrints_get.denies fun w₀ w₁ _ => ?_
  split
  · exact hfails _ _ w₁
  · refine onlyPrints_get.denies fun _ _ _ => ?_
    iterate 6 refine (fixed_ofResult _).onlyPrints.denies fun _ _ _ => ?_
    exact (fixed_fillOptional _ _ _).onlyPrints.denies fun _ w₂ _ => hfails fault _ w₂

end Queue

/-- **Both ways to call**, for a name without a colon and any password. Without the data of the
authentication, a request or a message is sent, or the call fails for reasons of its own. With them:

* the request has one header more, and its code decodes to the name and the password. It is sent
  whenever the other one is, and the header goes by the name `Authorization`, unless the call has a
  header of this name itself;
* if there is no colon in the password, the connection is made with the name and the password, and
  whenever it is made without them;
* if there is one, then the settings cannot be made, and the call fails before it connects. -/
theorem basic_credentials (hu : ':' ∉ u.toList) (h : s.Knows u p) (hshows : s.Shows name)
    (args : ArgTexts) :
    (Text.decodeBase64 (basicCode u p) = .ok (Text.utf8 (u ++ ":" ++ p)) ∧
      s.authHeaders agent = .ok (agent ++ [("authorization", basicHeader u p)]) ∧
      Matches (Authorizes (basicHeader u p)) (callHttp s.nameless name args)
        (callHttp s name args)) ∧
    (':' ∉ p.toList → s.authSettings [] = .ok [("userid", .str u), ("password", .str p)] ∧
      Matches (Connects s.host [("userid", .str u), ("password", .str p)])
        (callQueue s.nameless name args) (callQueue s name args)) ∧
    (':' ∈ p.toList → s.authSettings [] = .error (.tooManyParts 2) ∧
      ∀ w, Denies w (callQueue s name args)) := by
  obtain ⟨hpart, hparts⟩ := h.authSettings hu
  have hnone : s.nameless.authSettings [] = .ok [] := by
    rw [nameless, h.type]
    rfl
  refine ⟨⟨Text.decodeBase64_encodeBase64 _, h.authHeaders agent, h.callHttp_matches hshows args⟩,
    fun hp => ⟨hpart hp, ?_⟩, fun hp => ⟨hparts hp, ?_⟩⟩
  · exact callQueue_matches hshows args hnone (hpart hp)
  · exact callQueue_denies hshows args (hparts hp)

/-- A service with one call, which does not say how long it waits. -/
def untimedService (data : String) : Service :=
  { mixedService data with
    calls := [("c", .dict [("timeout", .null), ("params", .dict []), ("headers", .dict []),
      ("response", .dict [("type", .str "text")])])] }

/-- A world with a broker that never answers. -/
def brokerWorld : World :=
  { World.blank with
    network := { World.blank.network with broker := some { body := none, polls := 0 } } }

/-- With the password `p:q` a request is sent and shows it, and no connection is made; with the
password `pq` one is made. -/
theorem basic_credentials_colon :
    (∃ url method headers body timeout lenient, Network.Sends brokerWorld.network
        (brokerWorld.perform (callHttp (untimedService "u:p:q") "c" [])).2.network
        [.request url method headers body timeout lenient] ∧
      Data.find? "Authorization" headers = some (basicHeader "u" "p:q")) ∧
    (∀ w, Denies w (callQueue (untimedService "u:p:q") "c" [])) ∧
    ∃ reply body queue headers, Network.Sends brokerWorld.network
      (brokerWorld.perform (callQueue (untimedService "u:pq") "c" [])).2.network
      (conversation (.str "h") reply body queue headers
        [("userid", .str "u"), ("password", .str "pq")]) := by
  have hshows (data : String) : (untimedService data).Shows "c" := ⟨.bool true, rfl, rfl⟩
  have hcolon := basic_credentials (s := untimedService "u:p:q") (u := "u") (p := "p:q") (by decide)
    ⟨rfl, rfl⟩ (hshows _) []
  have hplain := basic_credentials (u := "u") (p := "pq") (by decide) ⟨rfl, rfl⟩ (hshows _) []
  -- An action that has sent something does not fail before it sends.
  have hsent {x : Act Data} (h : (brokerWorld.perform x).2.network.sent.isEmpty = false) :
      ¬ Denies brokerWorld x := by
    rintro ⟨f, w', hfail, hnetwork⟩
    rw [hfail, hnetwork] at h
    cases h
  refine ⟨?_, (hcolon.2.2 (by decide)).2, ?_⟩
  · obtain ⟨l, l', hbare, hsends, url, method, own, body, timeout, lenient, rfl, rfl, hfind⟩ :=
      (hcolon.1.2.2 brokerWorld).resolve_left fun h => hsent (by decide +kernel) h.2
    have hnone : [.request "http://h/" "GET" [("User-agent", .str "restsh/1.0")] none .null false] =
        [Sent.request url method (sentHeaders (putAll own agent)) body timeout lenient] :=
      hbare.messages
    injection hnone with hrequest _
    injection hrequest with _ _ hheaders _ _ _
    exact ⟨url, method, _, body, timeout, lenient, hsends, hfind (hheaders ▸ rfl)⟩
  · obtain ⟨l, l', -, hsends, reply, body, queue, headers, -, rfl⟩ :=
      ((hplain.2.1 (by decide)).2 brokerWorld).resolve_left fun h => hsent (by decide +kernel) h.2
    exact ⟨reply, body, queue, headers, hsends⟩

end Service

end Parley
