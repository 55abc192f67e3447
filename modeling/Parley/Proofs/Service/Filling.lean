import Mathlib.Data.List.Nodup
import Parley.Service.Definition

/-!
# Completing a document

`Service.fillIn` completes a document with what a template has besides. What it does is said here
for paths of keys (`Data.Completes`): a path leads where it led in the document, if it led anywhere,
and otherwise where it leads in the template. A dictionary of the document can so get more entries,
but nothing else that the document says is changed. To complete a document once more changes nothing.

It is required that the two can be laid over each other (`Data.Admits`): where the template has a
dictionary with entries, the document has a dictionary or nothing at all. For the definition of a
call this comes down to its response.

The proofs go through the template. What happens at one of its keys depends on the entry of the
document for that key alone, since the keys of a dictionary are distinct; that is the subject of
`Filled`, one level of the template.
-/

namespace Parley

open List

namespace Data

/-- Is the datum a dictionary? -/
def isDict : Data → Bool
  | .dict _ => true
  | _ => false

/-- What a datum has under a key. Only dictionaries have anything there. -/
def child? : Data → String → Option Data
  | .dict es, key => find? key es
  | _, _ => none

/-- Where a path of keys leads. -/
def at? : Data → List String → Option Data
  | d, [] => some d
  | d, key :: path => (d.child? key).bind fun x => x.at? path

/-- The keys of a dictionary are distinct, and so are those of every dictionary inside. -/
inductive Keyed : Data → Prop
  | dict {es : Entries} (hes : (es.map Prod.fst).Nodup) (h : ∀ p ∈ es, Keyed p.2) : Keyed (.dict es)
  | other {d : Data} (h : d.isDict = false) : Keyed d

/-- Where the template has a dictionary with entries, the document has a dictionary, if it has
anything there. -/
def Admits (d t : Data) : Prop :=
  ∀ path e es x, t.at? path = some (.dict (e :: es)) → d.at? path = some x → x.isDict = true

/-- `r` is the document `d` completed with the template `t`. -/
structure Completes (d t r : Data) : Prop where
  /-- A path leads where it led in the document, but a dictionary can have got more entries. -/
  kept : ∀ path x, d.at? path = some x →
    ∃ y, r.at? path = some y ∧ y.isDict = x.isDict ∧ (x.isDict = false → y = x)
  /-- A path that led nowhere leads where it leads in the template. -/
  added : ∀ path, d.at? path = none → r.at? path = t.at? path

/-! ### Entries -/

section Entries

variable {key : String} {x : Data} {es : Entries}

theorem find?_of_mem {p : String × Data} (h : (es.map Prod.fst).Nodup) (hp : p ∈ es) :
    find? p.1 es = some p.2 := by
  induction es with
  | nil => cases hp
  | cons e es ih =>
    obtain ⟨hfresh, hes⟩ := nodup_cons.mp h
    rcases mem_cons.mp hp with rfl | hp
    · exact if_pos rfl
    · have hne : e.1 ≠ p.1 := fun he => hfresh (he ▸ mem_map_of_mem hp)
      rw [find?, if_neg hne, ih hes hp]

theorem mem_of_find? (h : find? key es = some x) : (key, x) ∈ es := by
  induction es with
  | nil => cases h
  | cons e es ih =>
    rw [find?] at h
    split at h
    · next he =>
      cases h
      exact he ▸ mem_cons_self
    · exact mem_cons_of_mem e (ih h)

theorem find?_eq_none (h : key ∉ es.map Prod.fst) : find? key es = none :=
  Option.eq_none_iff_forall_ne_some.mpr fun _ hx => h (mem_map_of_mem (mem_of_find? hx))

/-- To write what is there changes nothing. -/
theorem put_of_find? (h : find? key es = some x) : put key x es = es := by
  induction es with
  | nil => cases h
  | cons e es ih =>
    rw [find?] at h
    rw [put]
    split at h
    · next he => rw [if_pos he, ← Option.some.inj h]
    · next he => rw [if_neg he, ih h]

end Entries

/-! ### Paths -/

section Paths

variable {d t r x y : Data} {key : String}

theorem at?_cons (hx : d.child? key = some x) (path : List String) :
    d.at? (key :: path) = x.at? path := by
  rw [at?, hx]
  rfl

theorem at?_cons_of_none (h : d.child? key = none) (path : List String) :
    d.at? (key :: path) = none := by
  rw [at?, h]
  rfl

theorem at?_congr (h : r.child? key = d.child? key) (path : List String) :
    r.at? (key :: path) = d.at? (key :: path) := by
  rw [at?, at?, h]

theorem Admits.child (h : d.Admits t) (hd : d.child? key = some x) (ht : t.child? key = some y) :
    x.Admits y := by
  intro path e es z hy hx
  exact h (key :: path) e es z ((at?_cons ht path).trans hy) ((at?_cons hd path).trans hx)

theorem child?_of_isDict (h : t.isDict = false) (key : String) : t.child? key = none := by
  cases t with
  | dict es => cases h
  | _ => rfl

theorem admits_of_isDict (h : t.isDict = false) : d.Admits t := by
  intro path e es x ht
  cases path with
  | nil =>
    cases ht
    cases h
  | cons key path => cases (at?_cons_of_none (child?_of_isDict h key) path).symm.trans ht

theorem admits_empty : d.Admits (.dict [])
  | [], _, _, _, h, _ => nomatch h
  | _ :: _, _, _, _, h, _ => nomatch h

theorem admits_dict {es ts : Entries} (h : ∀ p ∈ ts, ∀ x, find? p.1 es = some x → x.Admits p.2) :
    (dict es).Admits (.dict ts) := by
  intro path e inner z ht hz
  cases path with
  | nil =>
    cases hz
    rfl
  | cons key path =>
    obtain ⟨y, hy, hpath⟩ := Option.bind_eq_some_iff.mp ht
    obtain ⟨x, hx, hpath'⟩ := Option.bind_eq_some_iff.mp hz
    exact h (key, y) (mem_of_find? hy) x hx path e inner z hpath hpath'

/-- A template in which there is nothing adds nothing. -/
theorem completes_self (h : ∀ key, t.child? key = none) : d.Completes t d where
  kept _ x hx := ⟨x, hx, rfl, fun _ => rfl⟩
  added
    | [], hpath => nomatch hpath
    | key :: path, hpath => hpath.trans (at?_cons_of_none (h key) path).symm

/-- All that the template has is there. -/
theorem Completes.present (h : d.Completes t r) {path : List String} (ht : t.at? path = some x) :
    ∃ y, r.at? path = some y ∧ (d.at? path = none → y = x) := by
  cases hd : d.at? path with
  | none => exact ⟨x, (h.added path hd).trans ht, fun _ => rfl⟩
  | some z =>
    obtain ⟨y, hy, -⟩ := h.kept path z hd
    exact ⟨y, hy, nofun⟩

end Paths

end Data

namespace Service

open Data

/-! ### One level -/

variable {t d : Data}

section Level

variable {key : String} {value x : Data} {es ts rs rest : Entries}

theorem fillEntries_cons_of_none (h : find? key es = none) :
    fillEntries (.dict es) ((key, value) :: rest) =
      fillEntries (.dict (put key value es)) rest := by
  rw [fillEntries.eq_def]
  simp only [holds, hasKey, h]
  cases value <;> rfl

theorem fillEntries_cons_of_some (h : find? key es = some x) :
    fillEntries (.dict es) ((key, value) :: rest) =
      fillIn x value >>= fun y => fillEntries (.dict (put key y es)) rest := by
  rw [fillEntries.eq_def]
  simp only [holds, hasKey, h, part]
  cases value with
  | dict inner => rfl
  | _ => exact congrArg (fun entries => fillEntries (.dict entries) rest) (put_of_find? h).symm

/-- What has been made of the entries `es` of a document and the entries `ts` of a template, key by
key. -/
structure Filled (es ts rs : Entries) : Prop where
  other : ∀ key, key ∉ ts.map Prod.fst → find? key rs = find? key es
  new : ∀ p ∈ ts, find? p.1 es = none → find? p.1 rs = some p.2
  both : ∀ p ∈ ts, ∀ x, find? p.1 es = some x → ∃ y, fillIn x p.2 = .ok y ∧ find? p.1 rs = some y

/-- The entry for a key is written, and has no part in what is done about the other keys. -/
theorem Filled.cons {y : Data} (hfresh : key ∉ ts.map Prod.fst)
    (hnew : find? key es = none → y = value)
    (hboth : ∀ x, find? key es = some x → fillIn x value = .ok y)
    (h : Filled (put key y es) ts rs) : Filled es ((key, value) :: ts) rs := by
  have hkey : find? key rs = some y := (h.other key hfresh).trans (find?_put_self key y es)
  have hothers {p : String × Data} (hp : p ∈ ts) : find? p.1 (put key y es) = find? p.1 es := by
    refine find?_put_of_ne ?_ y es
    rintro rfl
    exact hfresh (mem_map_of_mem hp)
  refine ⟨fun other hother => ?_, forall_mem_cons.mpr ⟨fun hnone => ?_, fun p hp hnone => ?_⟩,
    forall_mem_cons.mpr ⟨fun x hx => ⟨y, hboth x hx, hkey⟩, fun p hp x hx => ?_⟩⟩
  · obtain ⟨hne, hts⟩ : other ≠ key ∧ other ∉ ts.map Prod.fst := by simpa using hother
    rw [h.other other hts, find?_put_of_ne hne]
  · rw [hkey, hnew hnone]
  · exact h.new p hp ((hothers hp).trans hnone)
  · exact h.both p hp x ((hothers hp).trans hx)

/-- **One level of the template**: if what both have can be completed, so can the whole. -/
theorem exists_filled (hts : (ts.map Prod.fst).Nodup)
    (hboth : ∀ p ∈ ts, ∀ x, find? p.1 es = some x → ∃ y, fillIn x p.2 = .ok y) :
    ∃ rs, fillEntries (.dict es) ts = .ok (.dict rs) ∧ Filled es ts rs := by
  induction ts generalizing es with
  | nil => exact ⟨es, rfl, fun _ _ => rfl, nofun, nofun⟩
  | cons p ts ih =>
    obtain ⟨key, value⟩ := p
    obtain ⟨hfresh, hts⟩ := nodup_cons.mp hts
    obtain ⟨hfirst, hrest⟩ := forall_mem_cons.mp hboth
    have hgo (y : Data) : ∃ rs, fillEntries (.dict (put key y es)) ts = .ok (.dict rs) ∧
          Filled (put key y es) ts rs := by
      refine ih hts fun p hp x hx => hrest p hp x ?_
      rwa [find?_put_of_ne fun he => hfresh (mem_map.mpr ⟨p, hp, he⟩)] at hx
    cases hkey : find? key es with
    | none =>
      obtain ⟨rs, hrs, hfilled⟩ := hgo value
      refine ⟨rs, (fillEntries_cons_of_none hkey).trans hrs,
        hfilled.cons hfresh (fun _ => rfl) fun x hx => ?_⟩
      cases hkey.symm.trans hx
    | some x =>
      obtain ⟨y, hy⟩ := hfirst x hkey
      obtain ⟨rs, hrs, hfilled⟩ := hgo y
      refine ⟨rs, ?_, hfilled.cons hfresh (fun hnone => ?_) fun x' hx' => ?_⟩
      · rwa [fillEntries_cons_of_some hkey, hy]
      · cases hkey.symm.trans hnone
      · rwa [← Option.some.inj (hkey.symm.trans hx')]

/-- Entries that are complete stay as they are. -/
theorem fillEntries_of_complete (h : ∀ p ∈ ts, ∃ x, find? p.1 rs = some x ∧ fillIn x p.2 = .ok x) :
    fillEntries (.dict rs) ts = .ok (.dict rs) := by
  induction ts with
  | nil => rfl
  | cons p ts ih =>
    obtain ⟨⟨x, hx, hfill⟩, hts⟩ := forall_mem_cons.mp h
    rw [fillEntries_cons_of_some hx, hfill]
    show fillEntries (.dict (put p.1 x rs)) ts = _
    rw [put_of_find? hx, ih hts]

end Level

/-! ### The whole template -/

theorem fillIn_of_isDict (h : t.isDict = false) (d : Data) : fillIn d t = .ok d := by
  cases t with
  | dict es => cases h
  | _ => rfl

/-- A document is complete by itself. -/
theorem fillIn_self (ht : t.Keyed) : fillIn t t = .ok t := by
  induction ht with
  | dict hts _ ih => exact fillEntries_of_complete fun p hp => ⟨p.2, find?_of_mem hts hp, ih p hp⟩
  | other h => exact fillIn_of_isDict h _

/-- What one level comes to for paths, if it is known what the levels below come to. -/
theorem Filled.completes {es ts rs : Entries} (h : Filled es ts rs) (hts : (ts.map Prod.fst).Nodup)
    (hboth : ∀ p ∈ ts, ∀ x y, find? p.1 es = some x → fillIn x p.2 = .ok y → x.Completes p.2 y) :
    (dict es).Completes (.dict ts) (.dict rs) := by
  let d := dict es
  let t := dict ts
  let r := dict rs
  -- At a key: the template has nothing, or the document has nothing, or both have something.
  have hkey (key : String) : (t.child? key = none ∧ r.child? key = d.child? key) ∨
      (d.child? key = none ∧ r.child? key = t.child? key) ∨
      ∃ x u y, d.child? key = some x ∧ t.child? key = some u ∧ r.child? key = some y ∧
        x.Completes u y := by
    by_cases hmem : key ∈ ts.map Prod.fst
    · obtain ⟨p, hp, rfl⟩ := mem_map.mp hmem
      have ht := find?_of_mem hts hp
      cases hx : find? p.1 es with
      | none => exact .inr (.inl ⟨hx, (h.new p hp hx).trans ht.symm⟩)
      | some x =>
        obtain ⟨y, hfill, hy⟩ := h.both p hp x hx
        exact .inr (.inr ⟨x, p.2, y, hx, ht, hy, hboth p hp x y hx hfill⟩)
    · exact .inl ⟨find?_eq_none hmem, h.other key hmem⟩
  refine ⟨fun path z hz => ?_, fun path hnone => ?_⟩
  · cases path with
    | nil =>
      cases hz
      exact ⟨.dict rs, rfl, rfl, nofun⟩
    | cons key path =>
      rcases hkey key with ⟨-, hr⟩ | ⟨hd, -⟩ | ⟨x, u, y, hx, -, hy, hcompletes⟩
      · exact ⟨z, (at?_congr hr path).trans hz, rfl, fun _ => rfl⟩
      · cases (at?_cons_of_none hd path).symm.trans hz
      · rw [at?_cons hy]
        exact hcompletes.kept path z ((at?_cons hx path).symm.trans hz)
  · cases path with
    | nil => cases hnone
    | cons key path =>
      rcases hkey key with ⟨ht, hr⟩ | ⟨-, hr⟩ | ⟨x, u, y, hx, hu, hy, hcompletes⟩
      · rw [at?_cons_of_none ht]
        exact (at?_congr hr path).trans hnone
      · exact at?_congr hr path
      · rw [at?_cons hy, at?_cons hu]
        exact hcompletes.added path ((at?_cons hx path).symm.trans hnone)

/-- **A document is completed**: this succeeds, it comes to what is said about paths, and once more
it changes nothing. -/
theorem exists_fillIn (ht : t.Keyed) (h : d.Admits t) :
    ∃ r, fillIn d t = .ok r ∧ d.Completes t r ∧ fillIn r t = .ok r := by
  induction ht generalizing d with
  | other hleaf =>
    exact ⟨d, fillIn_of_isDict hleaf d, completes_self (child?_of_isDict hleaf),
      fillIn_of_isDict hleaf d⟩
  | @dict ts hts hinner ih =>
    cases ts with
    | nil => exact ⟨d, rfl, completes_self fun _ => rfl, rfl⟩
    | cons e ts =>
      obtain ⟨es, rfl⟩ : ∃ es, d = .dict es := by
        have hdict := h [] e ts d rfl rfl
        cases d with
        | dict es => exact ⟨es, rfl⟩
        | _ => cases hdict
      have hbelow (p : String × Data) (hp : p ∈ e :: ts) (x : Data) (hx : find? p.1 es = some x) :
          ∃ y, fillIn x p.2 = .ok y ∧ x.Completes p.2 y ∧ fillIn y p.2 = .ok y :=
        ih p hp (h.child hx (find?_of_mem hts hp))
      obtain ⟨rs, hrs, hfilled⟩ := exists_filled hts fun p hp x hx =>
        let ⟨y, hy, _⟩ := hbelow p hp x hx
        ⟨y, hy⟩
      refine ⟨.dict rs, hrs, hfilled.completes hts fun p hp x y hx hfill => ?_, ?_⟩
      · obtain ⟨y', hy', hcompletes, -⟩ := hbelow p hp x hx
        obtain rfl := Except.ok.inj (hfill.symm.trans hy')
        exact hcompletes
      · refine fillEntries_of_complete fun p hp => ?_
        cases hx : find? p.1 es with
        | none => exact ⟨p.2, hfilled.new p hp hx, fillIn_self (hinner p hp)⟩
        | some x =>
          obtain ⟨y, hfill, hy⟩ := hfilled.both p hp x hx
          obtain ⟨y', hy', -, hagain⟩ := hbelow p hp x hx
          obtain rfl := Except.ok.inj (hfill.symm.trans hy')
          exact ⟨y, hy, hagain⟩

/-! ### Definitions of calls -/

theorem keyed_callDefaults : callDefaults.Keyed := by
  have hempty : Keyed (.dict []) := .dict nodup_nil (forall_mem_nil _)
  refine .dict (by decide) ?_
  simp only [forall_mem_cons]
  refine ⟨.other rfl, .other rfl, hempty, hempty, .dict (by decide) ?_, forall_mem_nil _⟩
  simp only [forall_mem_cons]
  exact ⟨.other rfl, .other rfl, .other rfl, forall_mem_nil _⟩

/-- The definition of a call can be completed if what it says about the response, if anything, is a
dictionary. -/
theorem admits_callDefaults {es : Entries}
    (h : ∀ x, find? "response" es = some x → x.isDict = true) :
    (dict es).Admits callDefaults := by
  have hparts {x : Data} (hx : find? "response" es = some x) :
      x.Admits (.dict [("type", .str "text"), ("transform", .null), ("error", .null)]) := by
    cases x with
    | dict inner =>
      refine admits_dict ?_
      simp only [forall_mem_cons]
      exact ⟨fun _ _ => admits_of_isDict rfl, fun _ _ => admits_of_isDict rfl,
        fun _ _ => admits_of_isDict rfl, forall_mem_nil _⟩
    | _ => cases h _ hx
  refine admits_dict ?_
  simp only [forall_mem_cons]
  exact ⟨fun _ _ => admits_of_isDict rfl, fun _ _ => admits_of_isDict rfl,
    fun _ _ => admits_empty, fun _ _ => admits_empty, fun _ hx => hparts hx, forall_mem_nil _⟩

theorem part_of_at? {x : Data} {key : String} (h : d.at? [key] = some x) : d.part key = .ok x := by
  obtain ⟨y, hy, hyx⟩ := Option.bind_eq_some_iff.mp h
  obtain rfl := Option.some.inj hyx
  cases d with
  | dict es =>
    change find? key es = some y at hy
    simp only [part, hy]
  | _ => cases hy

theorem responsePart_of_at? {s : Service} {name part : String} {filled x : Data}
    (hcall : find? name s.calls = some filled) (hx : filled.at? ["response", part] = some x) :
    s.responsePart name part = .ok x := by
  obtain ⟨response, hresponse, hpart⟩ := Option.bind_eq_some_iff.mp hx
  have hcall' : s.call name = .ok filled :=
    part_of_at? (Option.bind_eq_some_iff.mpr ⟨filled, hcall, rfl⟩)
  have hresponse' : filled.part "response" = .ok response :=
    part_of_at? (Option.bind_eq_some_iff.mpr ⟨response, hresponse, rfl⟩)
  simp only [responsePart, hcall', hresponse', part_of_at? hpart, bind, Except.bind]

theorem isDict_of_hashable (h : d.hashable = true) : d.isDict = false := by
  cases d with
  | dict es => cases h
  | _ => rfl

/-- **Completing a document is a merge that prefers the document.** For every document and every
template with distinct keys that can be laid over it, a path leads where it led in the document if
it led anywhere, a dictionary having got more entries at most; every other path leads where it leads
in the template; and to complete the result changes nothing. So the definition of a call that has a
name becomes, under that name, one in which everything is present that calls have unless it is said
otherwise, the parts for the response in particular, and in which nothing that it says has been
overwritten. -/
theorem fillIn_completes :
    (∀ d t : Data, t.Keyed → d.Admits t →
      ∃ r, fillIn d t = .ok r ∧ d.Completes t r ∧ fillIn r t = .ok r) ∧
    (∀ (calls es : Entries) (name : Data), find? "name" es = some name → name.hashable = true →
      (∀ x, find? "response" es = some x → x.isDict = true) →
      ∃ filled, addCall calls (.dict es) = .ok (put name.text filled calls) ∧
        (∀ path x, (Data.dict es).at? path = some x → x.isDict = false → filled.at? path = some x) ∧
        (∀ path x, callDefaults.at? path = some x →
          ∃ y, filled.at? path = some y ∧ ((Data.dict es).at? path = none → y = x)) ∧
        ∀ s : Service, s.calls = put name.text filled calls →
          ∀ part ∈ ["type", "transform", "error"], ∃ x, s.responsePart name.text part = .ok x) := by
  refine ⟨fun d t ht h => exists_fillIn ht h, fun calls es name hname hhash hresponse => ?_⟩
  obtain ⟨filled, hfill, hcompletes, -⟩ :=
    exists_fillIn keyed_callDefaults (admits_callDefaults hresponse)
  have hsaid (path : List String) (x : Data) (hx : (Data.dict es).at? path = some x)
      (hleaf : x.isDict = false) : filled.at? path = some x := by
    obtain ⟨y, hy, -, hkept⟩ := hcompletes.kept path x hx
    rw [hy, hkept hleaf]
  refine ⟨filled, ?_, hsaid, fun path x hx => hcompletes.present hx, fun s hs part hpart => ?_⟩
  · have hnamed : filled.part "name" = .ok name :=
      part_of_at? (hsaid ["name"] name (Option.bind_eq_some_iff.mpr ⟨name, hname, rfl⟩)
        (isDict_of_hashable hhash))
    simp only [addCall, hfill, hnamed, hhash, if_true, bind, Except.bind]
  · have hdefault : ∃ x, callDefaults.at? ["response", part] = some x := by
      simp only [mem_cons, not_mem_nil, or_false] at hpart
      rcases hpart with rfl | rfl | rfl <;> exact ⟨_, rfl⟩
    obtain ⟨x, hx⟩ := hdefault
    obtain ⟨y, hy, -⟩ := hcompletes.present hx
    refine ⟨y, responsePart_of_at? ?_ hy⟩
    rw [hs, find?_put_self]

/-- A call whose definition says something about headers and about the response. -/
def pingEntries : Entries :=
  [ ("name", .str "ping"), ("headers", .dict [("Accept", .str "*/*")]),
    ("response", .dict [("type", .str "json")]) ]

theorem fillIn_completes_ping :
    (∃ r, fillIn (.dict pingEntries) callDefaults = .ok r ∧ fillIn r callDefaults = .ok r) ∧
    ∃ filled, addCall [] (.dict pingEntries) = .ok [("ping", filled)] ∧
      filled.at? ["headers", "Accept"] = some (.str "*/*") ∧
      filled.at? ["response", "type"] = some (.str "json") ∧
      filled.at? ["response", "error"] = some .null ∧ filled.at? ["timeout"] = some (.int 60) := by
  have hresponse : ∀ x, find? "response" pingEntries = some x → x.isDict = true := by
    rintro x ⟨⟩
    rfl
  obtain ⟨r, hr, -, hagain⟩ :=
    fillIn_completes.1 (.dict pingEntries) callDefaults keyed_callDefaults
      (admits_callDefaults hresponse)
  obtain ⟨filled, hadd, hsaid, hpresent, -⟩ :=
    fillIn_completes.2 [] pingEntries (.str "ping") rfl rfl hresponse
  obtain ⟨error, herror, hnull⟩ := hpresent ["response", "error"] .null rfl
  obtain ⟨timeout, htimeout, hsixty⟩ := hpresent ["timeout"] (.int 60) rfl
  refine ⟨⟨r, hr, hagain⟩, filled, hadd, hsaid _ _ rfl rfl, hsaid _ _ rfl rfl, ?_, ?_⟩
  · rw [herror, hnull rfl]
  · rw [htimeout, hsixty rfl]

end Service

end Parley
