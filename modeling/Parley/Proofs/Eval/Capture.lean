import Parley.Proofs.Eval.Parameters

/-!
# What a function literal captures

A function literal remembers the scope of its **first** evaluation, and no later evaluation changes
that. So all functions that a literal gives rise to are one and the same function: its calls look
names up from that first scope on, whatever scope the literal has been evaluated in since.

For a literal inside another function, such as the inner one of `\n. \x. n`, the first scope is that
of the first call of the outer function. The function then sees the first argument for ever, unless
the parameter is no variable of the call (`Parley.Proofs.Eval.Parameters`): if the scope around has
a variable of its name, every call writes its argument there, and the last one is seen.
-/

namespace Parley

namespace Store

/-! ### Calls with one argument -/

/-- The store `s'` after a call has opened its scope inside `outer` and has written its only
parameter there; `c` is the cell of the parameter. -/
structure Entered (s : Store) (outer : Nat) (p : String) (v : Value) (s' : Store) (c : Nat) :
    Prop where
  wellFormed : s'.WellFormed
  captured : s'.captured = s.captured
  scopes : s'.scopes.size = s.scopes.size + 1
  outside : ∀ k < s.scopes.size, s'.scopeAt k = s.scopeAt k
  base : (s'.scopeAt s.scopes.size).base = some outer
  bound : findName p (s'.scopeAt s.scopes.size).names = some c
  others : ∀ y ≠ p, findName y (s'.scopeAt s.scopes.size).names = none
  /-- The cell is the one of `outer` if that has the name, and a new one otherwise. -/
  place : c = (findName p (s.scopeAt outer).names).getD s.cells.size
  written : s'.cellValue c = v
  cells : ∀ d < s.cells.size, d ≠ c → s'.cellValue d = s.cellValue d
  size : c < s'.cells.size

theorem entered {s : Store} (hwf : s.WellFormed) {outer : Nat} (houter : outer < s.scopes.size)
    (p : String) (v : Value) :
    Entered s outer p v ((s.newChild outer).1.define s.scopes.size p v).1
      ((s.newChild outer).1.define s.scopes.size p v).2 := by
  have hsize : (s.newChild outer).1.scopes.size = s.scopes.size + 1 := by simp [newChild]
  have hnew := scopeAt_newChild_self s outer
  have hlt : s.scopes.size < (s.newChild outer).1.scopes.size := by
    rw [hsize]
    exact Nat.lt_succ_self _
  have hdef := define_spec (hwf.newChild houter) hlt p v
  have hinherited : (s.newChild outer).1.inherited? s.scopes.size p =
      findName p (s.scopeAt outer).names := by
    rw [inherited?, hnew]
    exact congrArg (fun sc => findName p sc.names) (scopeAt_newChild_of_lt houter outer)
  refine ⟨(hwf.newChild houter).define .., hdef.captured, hdef.scopes.trans hsize, ?_, ?_,
    hdef.bound, ?_, ?_, hdef.written, hdef.cells, hdef.size.2⟩
  · intro k hk
    rw [hdef.outside k (Nat.ne_of_lt hk), scopeAt_newChild_of_lt hk]
  · rw [hdef.base, hnew]
  · intro y hy
    rw [hdef.others y hy, hnew]
    rfl
  · have hplace := hdef.place
    rw [hnew, hinherited] at hplace
    rcases hplace with hc | ⟨hnone, hc⟩
    · change findName p (s.scopeAt outer).names = _ at hc
      rw [hc]
      rfl
    · change findName p (s.scopeAt outer).names = none at hnone
      rwa [hnone]

namespace Entered

variable {s s' : Store} {outer : Nat} {p : String} {v : Value} {c : Nat}

/-- A name that is not the parameter is looked up from `outer` on. -/
theorem find?_eq (h : Entered s outer p v s' c) {y : String} (hy : y ≠ p) :
    s'.find? s.scopes.size y = s'.find? outer y := by
  rw [Store.find?_eq h.wellFormed, h.others y hy, h.base]
  rfl

/-- **Two calls one after the other.** The cell of the first call's parameter keeps the first
argument, unless it is the cell of a variable of `outer`, which both calls write. -/
theorem cellValue_again (h : Entered s outer p v s' c) (houter : outer < s.scopes.size)
    {t t' : Store} {u : Value} {d : Nat} (hagain : Entered t outer p u t' d)
    (hcells : t.cells = s'.cells) (hscopes : t.scopes = s'.scopes) :
    t'.cellValue c = if s.hasName outer p then u else v := by
  have hscope : t.scopeAt outer = s.scopeAt outer := by
    rw [scopeAt, hscopes]
    exact h.outside outer houter
  have hplace := h.place
  have hplace' := hagain.place
  rw [hscope] at hplace'
  unfold hasName
  cases hown : findName p (s.scopeAt outer).names with
  | some e =>
    rw [hown] at hplace hplace'
    have hcd : c = d := hplace.trans hplace'.symm
    rw [hcd, hagain.written]
    rfl
  | none =>
    rw [hown] at hplace'
    have hlt : c < t.cells.size := hcells ▸ h.size
    have hcd : c ≠ d := Nat.ne_of_lt (hplace' ▸ hlt)
    rw [hagain.cells c hlt hcd, cellValue, hcells]
    exact h.written

end Entered

end Store

namespace Act

open Store (Entered findName)

/-! ### Evaluating a function literal -/

theorem perform_literal (w : World) (site : Nat) (params : List String) (body : Expr)
    (depth k : Nat) :
    w.perform (interpret (depth + 1) (.evaluate k (.closure site params body))) =
      (.ok (.value (.closure site params body)), { w with
          store :=
            if (w.store.captured.lookup site).isSome then w.store
            else { w.store with captured := (site, k) :: w.store.captured } }) :=
  rfl

variable {w : World} {site outer : Nat}

/-- The first evaluation of a function literal captures its scope. -/
theorem perform_literal_first (hsite : w.store.captured.lookup site = none)
    (params : List String) (body : Expr) (depth k : Nat) :
    w.perform (interpret (depth + 1) (.evaluate k (.closure site params body))) =
      (.ok (.value (.closure site params body)),
        { w with store := { w.store with captured := (site, k) :: w.store.captured } }) := by
  rw [perform_literal, hsite]
  rfl

/-- **Every later evaluation of a function literal changes nothing** and gives the same function. -/
theorem perform_literal_again
    (hsite : w.store.captured.lookup site = some outer) (params : List String) (body : Expr)
    (depth k : Nat) :
    w.perform (interpret (depth + 1) (.evaluate k (.closure site params body))) =
      (.ok (.value (.closure site params body)), w) := by
  rw [perform_literal, hsite]
  rfl

/-! ### Calling what it has given -/

/-- Calls of a function look every name that is no parameter up from `k` on. -/
def ResolvesFrom (w : World) (site : Nat) (params : List String) (k : Nat) : Prop :=
  ∀ args, w.store.Supplies args params → ∀ y ∉ params,
    (bodyStore w site params args).find? w.store.scopes.size y = w.store.find? k y

/-- A function looks names up from the captured scope on, and so from another one only if that comes
to the same. -/
theorem resolvesFrom_iff (hwf : w.store.WellFormed)
    (hsite : w.store.captured.lookup site = some outer) (params : List String) (k : Nat) :
    ResolvesFrom w site params k ↔ ∀ y ∉ params, w.store.find? outer y = w.store.find? k y := by
  have hresolves (args : Args) (hargs : w.store.Supplies args params) (y : String)
      (hy : y ∉ params) :
      (bodyStore w site params args).find? w.store.scopes.size y = w.store.find? outer y := by
    obtain ⟨-, hwf', hbinding, hnames⟩ := bodyStore_spec hwf hsite hargs
    exact hbinding.find?_inner hwf hwf' (hwf.captured hsite) (hnames y hy)
  constructor
  · intro h y hy
    have hargs := w.store.supplies_giveAll .null params
    rw [← hresolves _ hargs y hy, h _ hargs y hy]
  · intro h args hargs y hy
    rw [hresolves args hargs y hy, h y hy]

/-- A call with one argument. -/
theorem perform_call_one (hwf : w.store.WellFormed)
    (hsite : w.store.captured.lookup site = some outer) (p : String) (v : Value) (body : Expr)
    (depth scope : Nat) :
    ∃ s' c, w.perform (interpret (depth + 1)
          (.apply scope (.closure site [p] body) [(p, .value v)])) =
        { w with store := s' }.perform (interpret depth (.evaluate w.store.scopes.size body)) ∧
      Entered w.store outer p v s' c := by
  have hargs : w.store.Supplies [(p, .value v)] [p] := w.store.supplies_giveAll v [p]
  have hlookup : List.lookup p [(p, Answer.value v)] = some (.value v) :=
    Store.lookup_giveAll v (List.mem_singleton.mpr rfl)
  have hstore : bodyStore w site [p] [(p, .value v)] =
      ((w.store.newChild outer).1.define w.store.scopes.size p v).1 := by
    rw [bodyStore, hsite]
    dsimp only
    rw [bindParams, perform_bind_ok (perform_argValue hlookup)]
    rfl
  refine ⟨_, _, ?_, Store.entered hwf (hwf.captured hsite) p v⟩
  rw [perform_call hwf hsite hargs, hstore]

/-! ### Functions that make functions -/

variable {a b : Nat}

/-- A call of what such a function makes gives the variable `p` of the captured scope. -/
theorem perform_made (hwf : w.store.WellFormed) {k : Nat}
    (hb : w.store.captured.lookup b = some k) {p q : String} (hpq : p ≠ q) {c : Nat}
    (hp : findName p (w.store.scopeAt k).names = some c)
    (hq : findName q (w.store.scopeAt k).names = none) (v : Value) (depth scope : Nat) :
    let call := w.perform (interpret (depth + 2)
      (.apply scope (.closure b [q] (.lookup p)) [(q, .value v)]))
    call.1.map call.2.store.deref = .ok (w.store.cellValue c) := by
  intro call
  obtain ⟨s, d, hcall, hentered⟩ :=
    perform_call_one hwf hb q v (.lookup p) (depth + 1) scope
  have hfound : s.find? w.store.scopes.size p = some c := by
    rw [hentered.find?_eq hpq]
    exact Store.find?_of_findName (by rwa [hentered.outside k (hwf.captured hb)])
  have hcall' : call = (.ok (.cell c), { w with store := s }) :=
    hcall.trans (perform_lookup hfound depth)
  have hd : d = w.store.cells.size := by
    rw [hentered.place, hq]
    rfl
  have hc := hwf.findName_lt hp
  rw [hcall']
  exact congrArg Except.ok (hentered.cells c hc (hd ▸ Nat.ne_of_lt hc))

/-- **A function that makes functions.** The literal inside `\p. \q. p` is evaluated in each call,
but both calls give the same function, and that sees the argument of the first call; or that of the
last one, if the scope around has a variable `p`. -/
theorem perform_make_twice (hwf : w.store.WellFormed)
    (ha : w.store.captured.lookup a = some outer) (hb : w.store.captured.lookup b = none)
    {p q : String} (hpq : p ≠ q) (u v x : Value) (depth scope : Nat) :
    let made := Value.closure b [q] (.lookup p)
    let maker := Value.closure a [p] (.closure b [q] (.lookup p))
    let first := w.perform (interpret (depth + 2) (.apply scope maker [(p, .value u)]))
    let second := first.2.perform (interpret (depth + 2) (.apply scope maker [(p, .value v)]))
    let call := second.2.perform (interpret (depth + 2) (.apply scope made [(q, .value x)]))
    first.1 = .ok (.value made) ∧ second.1 = .ok (.value made) ∧
      call.1.map call.2.store.deref = .ok (if w.store.hasName outer p then v else u) := by
  intro made maker first second call
  -- The scope of the first call is captured; `c` is the cell of its parameter.
  obtain ⟨s, c, hcall₁, h₁⟩ :=
    perform_call_one hwf ha p u (.closure b [q] (.lookup p)) (depth + 1) scope
  have hfirst : first = (.ok (.value made),
      { w with store := { s with captured := (b, w.store.scopes.size) :: s.captured } }) :=
    hcall₁.trans (perform_literal_first (h₁.captured ▸ hb) ..)
  have hk : w.store.scopes.size < s.scopes.size := h₁.scopes ▸ Nat.lt_succ_self _
  have hcapture := Store.Step.capture s b w.store.scopes.size hk (h₁.captured ▸ hb)
  have ha₁ := hcapture.grows.captured (h₁.captured ▸ ha)
  have hwf₁ : first.2.store.WellFormed := by
    rw [hfirst]
    exact hcapture.wellFormed h₁.wellFormed
  have hb₁ : first.2.store.captured.lookup b = some w.store.scopes.size := by
    rw [hfirst]
    exact List.lookup_cons_self
  -- The second call leaves that scope as it is.
  obtain ⟨t, d, hcall₂, h₂⟩ := perform_call_one hwf₁ (by rwa [hfirst]) p v
    (.closure b [q] (.lookup p)) (depth + 1) scope
  have hsecond : second = (.ok (.value made), { first.2 with store := t }) := hcall₂.trans
    (perform_literal_again (h₂.captured ▸ hb₁) ..)
  rw [hfirst] at h₂
  have hscope : t.scopeAt w.store.scopes.size = s.scopeAt w.store.scopes.size := h₂.outside _ hk
  have hcall := perform_made (w := { first.2 with store := t }) (b := b) h₂.wellFormed
    (h₂.captured ▸ List.lookup_cons_self) hpq (hscope ▸ h₁.bound)
    (hscope ▸ h₁.others q hpq.symm) x depth scope
  refine ⟨by rw [hfirst], by rw [hsecond], ?_⟩
  have hcall' : call.1.map call.2.store.deref = .ok (t.cellValue c) := by
    show ((second.2.perform _).1.map (second.2.perform _).2.store.deref) = _
    rwa [hsecond]
  rw [hcall', h₁.cellValue_again (hwf.captured ha) h₂ rfl rfl]

/-- **A function literal keeps the scope of its first evaluation.** Let a literal be evaluated for
the first time, in the scope `k`. However the store changes from there on, and every task changes it
in steps of this kind: another evaluation of the literal, in whatever scope, changes nothing and
gives the same function; and calls of the function look names up from another scope exactly if that
comes to the same as looking them up from `k`. So of two functions that `\p. \q. p` makes one after
the other, both see the argument of the first call, or, if the scope around has a variable `p`, both
see that of the second. -/
theorem literal_keeps_first_scope (w : World) (hwf : w.store.WellFormed) :
    (∀ site k depth params body, w.store.captured.lookup site = none → k < w.store.scopes.size →
      let first := w.perform (interpret (depth + 1) (.evaluate k (.closure site params body)))
      first.1 = .ok (.value (.closure site params body)) ∧
      ∀ later : World, first.2.store.Reaches later.store → (∀ depth' k', later.perform
            (interpret (depth' + 1) (.evaluate k' (.closure site params body))) =
          (.ok (.value (.closure site params body)), later)) ∧
        (∀ args, later.store.Supplies args params → ∀ depth' scope,
          later.perform (interpret (depth' + 1) (.apply scope (.closure site params body) args)) =
            { later with store := bodyStore later site params args }.perform
              (interpret depth' (.evaluate later.store.scopes.size body))) ∧
        (∀ k', ResolvesFrom later site params k' ↔
          ∀ y ∉ params, later.store.find? k y = later.store.find? k' y) ∧
        ∀ depth' (task : Task), task.scope < later.store.scopes.size →
          first.2.store.Reaches (later.perform (interpret depth' task)).2.store) ∧
    (∀ a b outer p q u v x depth scope, w.store.captured.lookup a = some outer →
      w.store.captured.lookup b = none → p ≠ q →
      let made := Value.closure b [q] (.lookup p)
      let maker := Value.closure a [p] (.closure b [q] (.lookup p))
      let first := w.perform (interpret (depth + 2) (.apply scope maker [(p, .value u)]))
      let second := first.2.perform (interpret (depth + 2) (.apply scope maker [(p, .value v)]))
      let call := second.2.perform (interpret (depth + 2) (.apply scope made [(q, .value x)]))
      first.1 = .ok (.value made) ∧ second.1 = .ok (.value made) ∧
        call.1.map call.2.store.deref = .ok (if w.store.hasName outer p then v else u)) := by
  refine ⟨?_, fun a b outer p q u v x depth scope ha hb hpq =>
    perform_make_twice hwf ha hb hpq u v x depth scope⟩
  intro site k depth params body hsite hk
  rw [perform_literal_first hsite]
  refine ⟨rfl, fun later hlater => ?_⟩
  have hcapture := Store.Step.capture w.store site k hk hsite
  have hwf' := hlater.wellFormed (hcapture.wellFormed hwf)
  have hsite' : later.store.captured.lookup site = some k :=
    hlater.grows.captured List.lookup_cons_self
  exact ⟨perform_literal_again hsite' params body,
    fun _ hargs depth' scope => perform_call hwf' hsite' hargs body depth' scope,
    resolvesFrom_iff hwf' hsite' params,
    fun depth' task htask => hlater.trans (interpret_within depth' task later hwf' htask)⟩

/-- The function `\n. \x. n` is called with 1 and then with 2: what the second call makes gives 1. If
its inner literal is evaluated by itself, it looks names up from the scope where that was. -/
theorem literal_keeps_first_scope_maker : let w := (World.blank.perform
      (interpret 1 (.evaluate 0 (.closure 0 ["n"] (.closure 1 ["x"] (.lookup "n")))))).2
    let made := Value.closure 1 ["x"] (.lookup "n")
    let maker := Value.closure 0 ["n"] (.closure 1 ["x"] (.lookup "n"))
    let first := w.perform (interpret (0 + 2) (.apply 0 maker [("n", .value (.constant (.int 1)))]))
    let second := first.2.perform
      (interpret (0 + 2) (.apply 0 maker [("n", .value (.constant (.int 2)))]))
    let call := second.2.perform
      (interpret (0 + 2) (.apply 0 made [("x", .value (.constant (.int 0)))]))
    let alone := w.perform (interpret (0 + 1) (.evaluate 0 (.closure 1 ["x"] (.lookup "n"))))
    w.store.WellFormed ∧ w.store.captured.lookup 0 = some 0 ∧ w.store.captured.lookup 1 = none ∧
      (first.1 = .ok (.value made) ∧ second.1 = .ok (.value made) ∧
        call.1.map call.2.store.deref = .ok (.constant (.int 1))) ∧
      ∀ k, ResolvesFrom alone.2 1 ["x"] k ↔
        ∀ y ∉ ["x"], alone.2.store.find? 0 y = alone.2.store.find? k y := by
  intro w
  have hwf : w.store.WellFormed :=
    interpret_wellFormed _ _ Store.wellFormed_newRoot_empty Nat.zero_lt_one
  have hkeeps := literal_keeps_first_scope w hwf
  have halone := hkeeps.1 1 0 0 ["x"] (.lookup "n") rfl Nat.zero_lt_one
  have hmade := hkeeps.2 0 1 0 "n" "x" (.constant (.int 1)) (.constant (.int 2))
    (.constant (.int 0)) 0 0 rfl rfl (by decide)
  exact ⟨hwf, rfl, rfl, hmade, (halone.2 _ .refl).2.2.1⟩

end Act

end Parley
