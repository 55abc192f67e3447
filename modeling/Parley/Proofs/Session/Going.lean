import Parley.Proofs.Eval.Interpret

/-!
# The loop of a session goes on

What the loop of a session relies on is kept by every task. The names it looks up are those of the
first scope, in which every scope lies and whose variables are never forgotten; and no scope is
strict (`Store.Rooted`). A task in a scope whose loop is going leaves the loop going, with the input
that it had or with the standard input, if `exit` does nothing (`Act.Going`, `Act.goingFrame`).
-/

namespace Parley

/-! ### What the loop relies on -/

namespace Store

/-- All scopes lie in the first one, which has the given names, and no scope is strict. -/
structure Rooted (names : List String) (s : Store) : Prop where
  wellFormed : s.WellFormed
  root : 0 < s.scopes.size
  inside : ∀ {k}, 0 < k → k < s.scopes.size → (s.scopeAt k).base ≠ none
  names : ∀ name ∈ names, findName name (s.scopeAt 0).names ≠ none
  lenient : ∀ k, (s.scopeAt k).strict = false

/-- The names that the loop of a session looks up. -/
def loopNames : List String :=
  ["*prompt", "*continue", World.resultName]

namespace Rooted

variable {names : List String} {s s' : Store} {k : Nat}

/-- The names of the first scope are found in all scopes. -/
theorem exists_find? (h : Rooted names s) (hk : k < s.scopes.size) {name : String}
    (hname : name ∈ names) : ∃ c, s.find? k name = some c := by
  induction k using Nat.strongRecOn with
  | ind k ih =>
    rw [find?_eq h.wellFormed]
    cases hown : findName name (s.scopeAt k).names with
    | some c => exact ⟨c, rfl⟩
    | none =>
      rcases Nat.eq_zero_or_pos k with rfl | hpos
      · exact absurd hown (h.names name hname)
      · obtain ⟨b, hb⟩ := Option.ne_none_iff_exists'.mp (h.inside hpos hk)
        have hlt := h.wellFormed.base hb
        obtain ⟨c, hc⟩ := ih b hlt (Nat.lt_trans hlt hk)
        exact ⟨c, by rwa [hb]⟩

/-- The first scope lies in no other, so what is found in it is there. -/
theorem of_find? (h : Rooted [] s) (hfound : ∀ name ∈ names, ∃ c, s.find? 0 name = some c) :
    Rooted names s where
  wellFormed := h.wellFormed
  root := h.root
  inside := h.inside
  names name hname hown := by
    obtain ⟨c, hc⟩ := hfound name hname
    cases hbase : (s.scopeAt 0).base with
    | none =>
      rw [find?_eq h.wellFormed, hown, hbase] at hc
      cases hc
    | some b => exact absurd (h.wellFormed.base hbase) (Nat.not_lt_zero b)
  lenient := h.lenient

/-- A change that leaves scopes in their bases, makes none strict, and takes no name from the base
scope. -/
theorem of_scopes (h : Rooted names s) (hwf : s'.WellFormed)
    (hsize : s'.scopes.size = s.scopes.size)
    (hbase : ∀ j, (s'.scopeAt j).base = (s.scopeAt j).base)
    (hstrict : ∀ j, (s.scopeAt j).strict = false → (s'.scopeAt j).strict = false)
    (hnames : ∀ name, findName name (s.scopeAt 0).names ≠ none →
      findName name (s'.scopeAt 0).names ≠ none) : Rooted names s' where
  wellFormed := hwf
  root := hsize ▸ h.root
  inside hpos hlt := by
    rw [hbase]
    exact h.inside hpos (hsize ▸ hlt)
  names name hname := hnames name (h.names name hname)
  lenient j := hstrict j (h.lenient j)

theorem modifyScope (h : Rooted names s) (k : Nat) {f : Scope → Scope}
    (hbase : ∀ sc, (f sc).base = sc.base)
    (hstrict : ∀ sc, sc.strict = false → (f sc).strict = false)
    (hnames : ∀ sc, (f sc).names = sc.names ∨ 0 < k ∧ (f sc).names = []) :
    Rooted names (s.modifyScope k f) := by
  refine h.of_scopes (h.wellFormed.modifyScope k (hbase _) fun p hp => ?_) (by simp) ?_ ?_ ?_
  · rcases hnames (s.scopeAt k) with hsame | ⟨-, hnone⟩
    · exact .inl (hsame ▸ hp)
    · rw [hnone] at hp
      cases hp
  · intro j
    rw [scopeAt_modifyScope]
    split
    · exact hbase _
    · rfl
  · intro j
    rw [scopeAt_modifyScope]
    split
    · exact hstrict _
    · exact id
  · intro name hname
    rw [scopeAt_modifyScope]
    split
    · next hzero =>
      rcases hnames (s.scopeAt 0) with hsame | ⟨hpos, -⟩
      · rwa [hsame]
      · omega
    · exact hname

theorem deposit (h : Rooted names s) (hdeposit : Deposit s s') : Rooted names s' := by
  have hwf := h.wellFormed.addition hdeposit.addition
  cases hdeposit with
  | note j message => exact h.modifyScope j (fun _ => rfl) (fun _ h => h) fun _ => .inl rfl
  | _ => exact h.of_scopes hwf rfl (fun _ => rfl) (fun _ h => h) fun _ hname => hname

instance : Tolerant fun s s' => Rooted names s → Rooted names s' where
  refl _ h := h
  trans h₁ h₂ h := h₂ (h₁ h)
  add hdeposit h := h.deposit hdeposit

theorem load (h : Rooted names s) (shape : Shape) : Rooted names (s.load shape).1 :=
  Tolerant.load (R := fun s s' => Rooted names s → Rooted names s') s shape h

theorem newObject (h : Rooted names s) (evaluated : Bool) (properties : List (String × Value))
    (description : Data) : Rooted names (s.newObject evaluated properties description).1 :=
  Tolerant.newObject (R := fun s s' => Rooted names s → Rooted names s') s evaluated properties
    description h

theorem setCell (h : Rooted names s) (c : Nat) (v : Value) : Rooted names (s.setCell c v) :=
  h.of_scopes (h.wellFormed.setCell c v) rfl (fun _ => rfl) (fun _ h => h) fun _ hname => hname

/-- A scope gets at most a name more. -/
theorem bind (h : Rooted names s) (k : Nat) (name : String) {c : Nat} (hc : c < s.cells.size) :
    Rooted names (s.bind k name c) := by
  have hscope (j : Nat) : (s.bind k name c).scopeAt j = s.scopeAt j ∨ (s.bind k name c).scopeAt j =
        { s.scopeAt j with names := (s.scopeAt j).names ++ [(name, c)] } := by
    rw [Store.bind, scopeAt_modifyScope]
    split
    · exact .inr rfl
    · exact .inl rfl
  refine h.of_scopes (h.wellFormed.bind k name hc) (by simp [Store.bind]) ?_ ?_ ?_
  · intro j
    rcases hscope j with hj | hj <;> rw [hj]
  · intro j
    rcases hscope j with hj | hj <;> rw [hj] <;> exact id
  · intro other hother
    rcases hscope 0 with hzero | hzero
    · rwa [hzero]
    · rw [hzero, findName_append]
      obtain ⟨d, hd⟩ := Option.ne_none_iff_exists'.mp hother
      rw [hd]
      exact Option.some_ne_none d

theorem define (h : Rooted names s) (k : Nat) (name : String) (v : Value) :
    Rooted names (s.define k name v).1 := by
  rcases define_cases s k name v with ⟨c, -, hdef⟩ | ⟨c, -, hc, hdef⟩ | ⟨-, -, hdef⟩
  · rw [hdef]
    exact h.setCell c v
  · rw [hdef]
    obtain ⟨b, -, hb⟩ := inherited?_eq_some hc
    exact (h.bind k name (h.wellFormed.findName_lt hb)).setCell c v
  · rw [hdef]
    exact (h.deposit (.cell s v)).bind k name (by simp)

theorem newChild (h : Rooted names s) {base : Nat} (hbase : base < s.scopes.size) :
    Rooted names (s.newChild base).1 where
  wellFormed := h.wellFormed.newChild hbase
  root := by simp [Store.newChild]
  inside {j} hpos hlt := by
    rcases Nat.lt_or_ge j s.scopes.size with hold | hnew
    · rw [scopeAt_newChild_of_lt hold]
      exact h.inside hpos hold
    · obtain rfl : j = s.scopes.size := by
        simp only [Store.newChild, Array.size_push] at hlt
        omega
      rw [scopeAt_newChild_self]
      exact Option.some_ne_none base
  names name hname := by
    rw [scopeAt_newChild_of_lt h.root]
    exact h.names name hname
  lenient j := by
    rcases Nat.lt_trichotomy j s.scopes.size with hlt | rfl | hgt
    · rw [scopeAt_newChild_of_lt hlt]
      exact h.lenient j
    · rw [scopeAt_newChild_self]
    · rw [scopeAt_newChild_of_gt hgt]
      exact h.lenient j

end Rooted

end Store

/-! ### Loops that are going -/

/-- What is known about a loop: the scope it reads statements for, the stream that they come from,
and whether it is going. -/
structure Loop where
  scope : Nat
  input : Nat
  going : Bool

/-- The loop reads the stream that is known or the standard input, and is going if that is known. -/
structure Store.HasLoop (s : Store) (l : Loop) : Prop where
  scope : l.scope < s.scopes.size
  looping : l.going = true → (s.scopeAt l.scope).looping = true
  input : (s.scopeAt l.scope).input = l.input ∨ (s.scopeAt l.scope).input = 0

namespace Act

open Store (Rooted HasLoop Deposit loopNames)

/-- For a task in the scope `k`: what loops rely on is there, and so is a loop, if one is given. -/
structure Going (loop : Option Loop) (k : Nat) (s : Store) : Prop where
  rooted : s.Rooted loopNames
  pos : 0 < k
  scope : k < s.scopes.size
  loop : ∀ l ∈ loop, s.HasLoop l

namespace Going

variable {loop : Option Loop} {k : Nat} {s s' : Store}

/-- What can be said about the loop of the scope itself. -/
theorem own (h : Going none k s) {going : Bool}
    (hgoing : going = true → (s.scopeAt k).looping = true) :
    Going (some ⟨k, (s.scopeAt k).input, going⟩) k s where
  rooted := h.rooted
  pos := h.pos
  scope := h.scope
  loop l hl := by
    obtain rfl := Option.mem_some_iff.mp hl
    exact ⟨h.scope, hgoing, .inl rfl⟩

/-- A change that leaves the loop in question alone. -/
theorem of_scopeAt (h : Going loop k s) (hrooted : Rooted loopNames s')
    (hsize : s'.scopes.size = s.scopes.size)
    (hloop : ∀ l ∈ loop, (s'.scopeAt l.scope).looping = (s.scopeAt l.scope).looping ∧
      (s'.scopeAt l.scope).input = (s.scopeAt l.scope).input) : Going loop k s' where
  rooted := hrooted
  pos := h.pos
  scope := hsize ▸ h.scope
  loop l hl := by
    obtain ⟨hlooping, hinput⟩ := hloop l hl
    have hbefore := h.loop l hl
    exact ⟨hsize ▸ hbefore.scope, hlooping ▸ hbefore.looping, hinput ▸ hbefore.input⟩

/-- A change of a scope that is no change of the loop. -/
theorem modifyScope (h : Going loop k s) {j : Nat} {f : Scope → Scope}
    (hrooted : Rooted loopNames (s.modifyScope j f))
    (hloop : ∀ l ∈ loop, l.scope = j →
      ∀ sc, (f sc).looping = sc.looping ∧ (f sc).input = sc.input) :
    Going loop k (s.modifyScope j f) := by
  refine h.of_scopeAt hrooted (by simp) fun l hl => ?_
  rw [Store.scopeAt_modifyScope]
  split
  · next hj => exact hloop l hl hj.1 _
  · exact ⟨rfl, rfl⟩

theorem deposit (hdeposit : Deposit s s') (h : Going loop k s) : Going loop k s' := by
  have hrooted := h.rooted.deposit hdeposit
  cases hdeposit with
  | note j message => exact h.modifyScope hrooted fun _ _ _ _ => ⟨rfl, rfl⟩
  | _ => exact h.of_scopeAt hrooted rfl fun _ _ => ⟨rfl, rfl⟩

theorem setCell (h : Going loop k s) (c : Nat) (v : Value) : Going loop k (s.setCell c v) :=
  h.of_scopeAt (h.rooted.setCell c v) rfl fun _ _ => ⟨rfl, rfl⟩

theorem define (h : Going loop k s) (j : Nat) (name : String) (v : Value) :
    Going loop k (s.define j name v).1 := by
  have hrooted := h.rooted.define j name v
  rcases Store.define_cases s j name v with ⟨c, -, hdef⟩ | ⟨c, -, -, hdef⟩ | ⟨-, -, hdef⟩
  · rw [hdef]
    exact h.setCell c v
  · rw [hdef] at hrooted ⊢
    refine h.of_scopeAt hrooted (by simp [Store.setCell, Store.bind]) fun l _ => ?_
    rw [Store.scopeAt_setCell, Store.bind, Store.scopeAt_modifyScope]
    split <;> exact ⟨rfl, rfl⟩
  · rw [hdef] at hrooted ⊢
    exact (deposit (.cell s v) h).modifyScope hrooted fun _ _ _ _ => ⟨rfl, rfl⟩

end Going

/-- What is left to say about a loop while the statements of the scope `k` are read. -/
def apartFrom (loop : Option Loop) (k : Nat) : Option Loop :=
  loop.filter fun l => l.scope != k

theorem mem_apartFrom {loop : Option Loop} {k : Nat} {l : Loop} :
    l ∈ apartFrom loop k ↔ l ∈ loop ∧ l.scope ≠ k := by
  simp [apartFrom]

/-- The frame of a scope for loops. -/
def goingFrame : ScopeFrame where
  Index := Option Loop
  rel loop k := Holding (Going loop k)
  within := apartFrom
  frame _ _ := frame_holding Going.deposit
  write _ _ s c v := allows_holding fun h => h.setCell c v
  define _ k s name v := allows_holding fun h => h.define k name v
  capture _ k s site hsite := allows_holding fun h => by
    have hwf := (Store.Step.capture s site k h.scope hsite).wellFormed h.rooted.wellFormed
    have hrooted : Rooted loopNames { s with captured := (site, k) :: s.captured } :=
      h.rooted.of_scopes hwf rfl (fun _ => rfl) (fun _ h => h) fun _ hname => hname
    exact h.of_scopeAt hrooted rfl fun _ _ => ⟨rfl, rfl⟩
  tables _ _ s tables := allows_holding fun h => by
    have hwf := (Store.Step.tables s tables).wellFormed h.rooted.wellFormed
    have hrooted : Rooted loopNames { s with tables } :=
      h.rooted.of_scopes hwf rfl (fun _ => rfl) (fun _ h => h) fun _ hname => hname
    exact h.of_scopeAt hrooted rfl fun _ _ => ⟨rfl, rfl⟩
  forget _ k s table := allows_holding fun h =>
    h.modifyScope (h.rooted.modifyScope k (fun _ => rfl) (fun _ h => h) fun _ => .inr ⟨h.pos, rfl⟩)
      fun _ _ _ _ => ⟨rfl, rfl⟩
  input loop k s input := allows_holding fun h =>
    h.modifyScope (h.rooted.modifyScope k (fun _ => rfl) (fun _ h => h) fun _ => .inl rfl)
      fun _ hl hk => absurd hk (mem_apartFrom.mp hl).2
  stop loop k s := allows_holding fun h =>
    h.modifyScope (h.rooted.modifyScope k (fun _ => rfl) (fun _ h => h) fun _ => .inl rfl)
      fun _ hl hk => absurd hk (mem_apartFrom.mp hl).2
  enter := fun ⟨hsame, h⟩ =>
    ⟨hsame, { h with loop := fun l hl => h.loop l (mem_apartFrom.mp hl).1 }⟩
  leave := by
    rintro loop k w _ input hinput ⟨rfl, h⟩
    refine ⟨rfl, h.rooted.modifyScope k (fun _ => rfl) (fun _ h => h) fun _ => .inl rfl, h.pos,
      by simpa using h.scope, fun l hl => ?_⟩
    by_cases hk : l.scope = k
    · -- The loop of the scope itself has just been set going.
      refine ⟨by simpa [hk] using h.scope, fun _ => ?_, ?_⟩
      · rw [Store.scopeAt_modifyScope, if_pos ⟨hk, h.scope⟩]
      · rw [Store.scopeAt_modifyScope, if_pos ⟨hk, h.scope⟩]
        rcases hinput with rfl | ⟨v, -, ⟨rfl, hv⟩, rfl⟩
        · exact .inr rfl
        · exact hk ▸ (hv.loop l hl).input
    · have hbefore := h.loop l (mem_apartFrom.mpr ⟨hl, hk⟩)
      refine ⟨by simpa using hbefore.scope, ?_, ?_⟩
      · rw [Store.scopeAt_modifyScope, if_neg fun hj => hk hj.1]
        exact hbefore.looping
      · rw [Store.scopeAt_modifyScope, if_neg fun hj => hk hj.1]
        exact hbefore.input
  child := by
    rintro loop k w _ base ⟨rfl, h⟩ hbase
    have hthere : base < w.store.scopes.size := by
      rcases hbase with rfl | ⟨site, hsite⟩
      · exact h.scope
      · exact h.rooted.wellFormed.captured hsite
    refine ⟨⟨rfl, h.rooted.newChild hthere, Nat.lt_trans h.pos h.scope, by simp [Store.newChild],
      fun l hl => ?_⟩, fun ⟨hsame, hinner⟩ => ⟨hsame, hinner.rooted, h.pos,
        Nat.lt_trans h.scope hinner.scope, fun l hl => ?_⟩⟩
    · have hbefore := h.loop l hl
      have hold := Store.scopeAt_newChild_of_lt hbefore.scope base
      refine ⟨?_, hold ▸ hbefore.looping, hold ▸ hbefore.input⟩
      simp only [Store.newChild, Array.size_push]
      exact Nat.lt_succ_of_lt hbefore.scope
    · -- The scope that has been opened is a new one.
      exact hinner.loop l (mem_apartFrom.mpr ⟨hl, Nat.ne_of_lt (h.loop l hl).scope⟩)

/-- **Tasks leave loops going**, if `exit` does nothing. -/
theorem runs_going (depth : Nat) : Runs goingFrame (interpretWith (fun _ => pure ()) depth) :=
  runs_interpretWith (fun _ _ => Keeps.pure ()) depth

/-- It is not known whether the loop is going. -/
def Unsure (loop : Option Loop) : Prop :=
  ∀ l ∈ loop, l.going = false

/-- The frame of a scope for loops of which it is not known whether they are going. -/
def inputFrame : ScopeFrame :=
  goingFrame.restrict Unsure fun _ _ h l hl => h l (mem_apartFrom.mp hl).1

theorem stopLoop_keeps {loop : Option Loop} (hloop : Unsure loop) (k : Nat) :
    Keeps (Holding (Going loop k)) (stopLoop k) := by
  have frame : Frame (Holding (Going loop k)) := frame_holding Going.deposit
  refine Keeps.modifyStore fun s => allows_holding fun h => ?_
  refine ⟨h.rooted.modifyScope k (fun _ => rfl) (fun _ h => h) fun _ => .inl rfl, h.pos,
    by simpa using h.scope, fun l hl => ?_⟩
  have hbefore := h.loop l hl
  refine ⟨by simpa using hbefore.scope, fun hgoing => ?_, ?_⟩
  · rw [hloop l hl] at hgoing
    cases hgoing
  · rw [Store.scopeAt_modifyScope]
    split <;> exact hbefore.input

/-- **Tasks leave loops their inputs**, and what loops rely on. -/
theorem runs_input (depth : Nat) : Runs inputFrame (interpret depth) :=
  runs_interpret (fun (loop : { l // Unsure l }) k => stopLoop_keeps loop.2 k) depth

end Act

end Parley
