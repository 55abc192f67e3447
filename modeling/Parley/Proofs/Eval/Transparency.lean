import Parley.Proofs.Eval.Arguments
import Parley.Proofs.Eval.Assignment
import Parley.Proofs.World.Voice

/-!
# Calls do not tell cells from values

A call that gives a cell as an argument comes to the same as one that gives the value in the cell.
For most functions this is `Parley.Proofs.Eval.Arguments`. Here are the others, and the check of
arguments before a call.

A function literal writes its parameters one after the other, and one that is named like a variable
of the captured scope is written into that variable. If the cell of that variable is also the
argument of a later parameter, the later parameter gets the new value. Arguments are *untangled* if
this does not happen.

The check looks at the values of arguments, too. Only what it says about an argument of the wrong
type depends on whether it is a cell; and a parameter that is declared to be a cell asks for one.
-/

namespace Parley

open List

variable {s₀ t : Store} {outer site : Nat} {a b : Answer} {es : Data.Entries} {f : Value}
  {p q : String}

namespace Store

/-- If the variable that a parameter is written into is the argument of a later one, it is so in both
lists of arguments. -/
def Untangled (s : Store) (outer : Nat) (args args' : Args) (params : List String) : Prop :=
  params.Pairwise fun p q => ∀ c, findName p (s.scopeAt outer).names = some c →
    (args.lookup q = some (.cell c) ↔ args'.lookup q = some (.cell c))

/-- Two arguments with the same value have the same value after a parameter has been written, if the
cell of that parameter is not one of them only. -/
theorem Binding.deref_define {s : Store} (h : Binding s₀ outer s t) (hwf : s.WellFormed)
    (houter : outer < s₀.scopes.size) (p : String) (v : Value) (ha : s₀.Holds a) (hb : s₀.Holds b)
    (hsame : s.deref a = s.deref b)
    (hcell : ∀ c, findName p (s₀.scopeAt outer).names = some c → (a = .cell c ↔ b = .cell c)) :
    (s.define s₀.scopes.size p v).1.deref a = (s.define s₀.scopes.size p v).1.deref b := by
  have hinner : s₀.scopes.size < s.scopes.size := by rw [h.inner]; exact Nat.lt_succ_self _
  have hdef := define_spec hwf hinner p v
  have hkeeps {x : Answer} (hx : s₀.Holds x) (hne : x ≠ .cell (s.define s₀.scopes.size p v).2) :
      (s.define s₀.scopes.size p v).1.deref x = s.deref x := by
    cases x with
    | value u => rfl
    | cell c =>
      refine hdef.cells c (Nat.lt_of_lt_of_le hx h.size.2) ?_
      rintro rfl
      exact hne rfl
  have hiff : a = .cell (s.define s₀.scopes.size p v).2 ↔
      b = .cell (s.define s₀.scopes.size p v).2 := by
    rcases h.place houter hdef with hc | ⟨-, hnew⟩
    · exact hcell _ hc
    · -- A cell that is new is no argument.
      have hnot {x : Answer} (hx : s₀.Holds x) : x ≠ .cell (s.define s₀.scopes.size p v).2 := by
        rintro rfl
        exact absurd hx (Nat.not_lt.mpr hnew)
      exact iff_of_false (hnot ha) (hnot hb)
  by_cases hc : a = .cell (s.define s₀.scopes.size p v).2
  · rw [hc, hiff.mp hc]
  · rw [hkeeps ha hc, hkeeps hb fun hb' => hc (hiff.mpr hb'), hsame]

end Store

namespace Act

open Store (Binding)

variable {s : Store} {args args' : Args} {run : Run} {scope : Nat} {params type : Data} {w : World}

/-! ### Function literals -/

/-- **Writing the parameters** comes to the same for both lists of arguments. -/
theorem perform_bindParams_alike (hwf₀ : s₀.WellFormed) (houter : outer < s₀.scopes.size)
    (halike : args.Alike s₀ args') {params : List String}
    (hparams : s₀.Untangled outer args args' params) (hwf : w.store.WellFormed)
    (h : Binding s₀ outer w.store t)
    (hvalues : ∀ q ∈ params, ∀ a b, args.lookup q = some a → args'.lookup q = some b →
      w.store.deref a = w.store.deref b) :
    w.perform (bindParams s₀.scopes.size args params) =
      w.perform (bindParams s₀.scopes.size args' params) := by
  -- Both runs are in the same world before each parameter, where the arguments that are still to
  -- come have the same values.
  induction params generalizing w t with
  | nil => rfl
  | cons p params ih =>
    obtain ⟨huntangled, hparams⟩ := pairwise_cons.mp hparams
    rw [bindParams, bindParams]
    rcases halike.lookup p with ⟨hnone, hnone'⟩ | ⟨a, b, ha, hb, -, hholds, -⟩
    · rw [argValue, argValue, argument, argument, hnone, hnone']
      rfl
    have hvalue := hvalues p mem_cons_self a b ha hb
    rw [perform_bind_ok (perform_argValue ha), perform_bind_ok (perform_argValue hb),
      ← hvalue]
    refine ih hparams (hwf.define ..) (h.define hwf hwf₀ houter ha hholds) ?_
    intro q hq a' b' ha' hb'
    have hsame := hvalues q (mem_cons_of_mem p hq) a' b' ha' hb'
    obtain ⟨hholds', hholds''⟩ := halike.holds ha' hb'
    refine h.deref_define hwf houter p _ hholds' hholds'' hsame fun c hc => ?_
    have hcells := huntangled q hq c hc
    rw [ha', hb'] at hcells
    simpa using hcells

/-- **Function literals**, if the arguments are untangled. -/
theorem SameAt.applyClosure (hwf : s.WellFormed) (halike : args.Alike s args') (site : Nat)
    {params : List String} (body : Expr)
    (h : ∀ outer, s.captured.lookup site = some outer → s.Untangled outer args args' params) :
    SameAt s (applyClosure run scope site params body args)
      (applyClosure run scope site params body args') := by
  intro w hw
  subst hw
  rw [applyClosure, applyClosure, perform_getStore_bind, perform_getStore_bind]
  cases hsite : w.store.captured.lookup site with
  | none => rfl
  | some outer =>
    have houter := hwf.captured hsite
    have hbind := perform_bindParams_alike hwf houter halike (h outer hsite)
      (w := { w with store := (w.store.newChild outer).1 }) (hwf.newChild houter)
      (Binding.newChild w.store outer) fun q _ a b ha hb => halike.deref_eq ha hb
    rw [perform_withStore_bind, perform_withStore_bind, perform_bind,
      perform_bind, show (w.store.newChild outer).2 = w.store.scopes.size from rfl, hbind]

/-! ### The check of arguments -/

/-- What two actions come to is the same, or both fail with an error that they report in the same
world, perhaps in other words. -/
def AlikeButWording {α : Type} (scope : Nat) (r r' : Except Fault α × World) : Prop :=
  r = r' ∨ ∃ (w : World) (m m' : String), r = (.error (.evaluation m), w.erring scope m) ∧
    r' = (.error (.evaluation m'), w.erring scope m')

theorem AlikeButWording.bind {α β : Type} {x y : Act α} {f g : α → Act β}
    (h : AlikeButWording scope (w.perform x) (w.perform y))
    (hfg : ∀ a w₁, w.perform x = (.ok a, w₁) →
      AlikeButWording scope (w₁.perform (f a)) (w₁.perform (g a))) :
    AlikeButWording scope (w.perform (x >>= f)) (w.perform (y >>= g)) := by
  rw [perform_bind, perform_bind]
  rcases h with heq | ⟨u, m, m', hx, hy⟩
  · rw [← heq]
    rcases hx : w.perform x with ⟨e | a, w₁⟩
    · exact .inl rfl
    · exact hfg a w₁ hx
  · rw [hx, hy]
    exact .inr ⟨u, m, m', rfl, rfl⟩

theorem label_ne_empty (v : Value) : v.label ≠ "" := by
  have hconstant (c : Constant) : c.label ≠ "" := by cases c <;> simp [Constant.label]
  have htree (e : Expr) : e.label ≠ "" := by
    cases e with
    | constant c => exact hconstant c
    | bare k => cases k <;> simp [Expr.label]
    | _ => simp [Expr.label]
  cases v with
  | constant c => exact hconstant c
  | tree n e => exact htree e
  | _ => simp [Value.label]

theorem typeName_ne_empty (v : Value) : v.typeName ≠ "" := by
  unfold Value.typeName Value.typeWord
  split
  · decide
  · decide
  · decide
  · decide
  · intro hempty
    have hlist := congrArg String.toList hempty
    rw [String.toList_ofList] at hlist
    exact label_ne_empty v (String.toList_inj.mp (map_eq_nil_iff.mp hlist))

theorem exists_article {word : String} (h : word ≠ "") : ∃ noun, Help.article word = .ok noun := by
  unfold Help.article
  split
  · next hnil => exact absurd (String.toList_inj.mp hnil) h
  · exact ⟨_, rfl⟩

/-- There is always a noun for the kind of an argument. -/
theorem exists_argKind (a : Answer) :
    ∃ kind noun, argTypeName a = pure kind ∧ Help.article kind = .ok noun := by
  cases a with
  | cell c => exact ⟨"cell", _, rfl, rfl⟩
  | value v =>
    obtain ⟨noun, hnoun⟩ := exists_article (typeName_ne_empty v)
    exact ⟨v.typeName, noun, rfl, hnoun⟩

/-- **The check of one type** looks at the value, and names the kind in its complaint. -/
theorem checkType_alike (h : w.store.deref a = w.store.deref b) (param : String) (wanted : Data) :
    AlikeButWording scope (w.perform (checkType scope param wanted a))
      (w.perform (checkType scope param wanted b)) := by
  obtain ⟨kind, noun, hkind, hnoun⟩ := exists_argKind a
  obtain ⟨kind', noun', hkind', hnoun'⟩ := exists_argKind b
  rw [checkType, checkType, perform_deref_bind, perform_deref_bind, ← h, hkind, hkind']
  refine AlikeButWording.bind (.inl rfl) fun word w₁ _ => ?_
  split
  · refine AlikeButWording.bind (.inl rfl) fun wantedNoun w₂ _ => ?_
    refine AlikeButWording.bind (.inl rfl) fun text w₃ _ => ?_
    rw [pure_bind, pure_bind, hnoun, hnoun']
    exact .inr ⟨w₃, _, _, perform_error w₃ _ scope _, perform_error w₃ _ scope _⟩
  · exact .inl rfl

/-- Some parameter is declared to be a cell. -/
def AsksCell (params : Data) : Prop :=
  ∃ es param, params = .dict es ∧ (param, .str "cell") ∈ es

theorem checkArg_alike (h : args.Alike w.store args') (param : String) (htype : type ≠ .str "cell") :
    AlikeButWording scope (w.perform (checkArg scope args param type))
      (w.perform (checkArg scope args' param type)) := by
  rcases h.lookup param with ⟨hnone, hnone'⟩ | ⟨a, b, ha, hb, hvalue, -⟩
  · rw [checkArg, checkArg, hnone, hnone']
    exact .inl rfl
  · rw [checkArg, checkArg, ha, hb]
    refine AlikeButWording.bind (.inl rfl) fun optional w₁ hw₁ => ?_
    have hstore := leaves_ofResult _ w w₁ optional hw₁
    simp only
    exact checkType_alike (by rw [hstore, hvalue]) param _

@[grind .] theorem leaves_checkType (scope : Nat) (param : String) (wanted : Data) (a : Answer) :
    Leaves (checkType scope param wanted a) := by
  unfold checkType typeText argTypeName deref shown
  cases wanted <;> cases a <;> grind

@[grind .] theorem leaves_checkArg (scope : Nat) (args : Args) (param : String)
    (htype : type ≠ .str "cell") : Leaves (checkArg scope args param type) := by
  unfold checkArg
  grind

theorem checkEach_alike (h : args.Alike w.store args') {params : Data.Entries}
    (hparams : ∀ p ∈ params, p.2 ≠ .str "cell") :
    AlikeButWording scope (w.perform (checkEach scope args params))
      (w.perform (checkEach scope args' params)) := by
  induction params generalizing w with
  | nil => exact .inl rfl
  | cons p params ih =>
    obtain ⟨param, type⟩ := p
    obtain ⟨htype, hparams⟩ := forall_mem_cons.mp hparams
    refine (checkArg_alike h param htype).bind fun _ w₁ hw₁ => ?_
    have hstore := leaves_checkArg scope args param htype w w₁ _ hw₁
    exact ih (by rwa [hstore]) hparams

theorem leaves_checkEach (scope : Nat) (args : Args) {params : Data.Entries}
    (hparams : ∀ p ∈ params, p.2 ≠ .str "cell") : Leaves (checkEach scope args params) := by
  induction params with
  | nil => exact leaves_pure ()
  | cons p params ih =>
    obtain ⟨htype, hparams⟩ := forall_mem_cons.mp hparams
    exact (leaves_checkArg scope args p.1 htype).bind fun _ => ih hparams

theorem ne_cell_of_not_asksCell (h : ¬ AsksCell (.dict es)) : ∀ p ∈ es, p.2 ≠ .str "cell" := by
  intro p hp htype
  refine h ⟨es, p.1, rfl, ?_⟩
  rwa [← htype]

/-- **The check of the arguments**, if no parameter asks for a cell. -/
theorem checkArgs_alike (scope : Nat) (h : args.Alike w.store args') (hparams : ¬ AsksCell params) :
    AlikeButWording scope (w.perform (checkArgs scope args params))
      (w.perform (checkArgs scope args' params)) := by
  cases params with
  | dict es => exact checkEach_alike h (ne_cell_of_not_asksCell hparams)
  | _ => exact .inl rfl

theorem leaves_checkArgs (scope : Nat) (args : Args) (hparams : ¬ AsksCell params) :
    Leaves (checkArgs scope args params) := by
  cases params with
  | dict es => exact leaves_checkEach scope args (ne_cell_of_not_asksCell hparams)
  | _ =>
    unfold checkArgs
    grind

theorem leaves_paramsOf (scope : Nat) (f : Value) : Leaves (paramsOf scope f) := by
  unfold paramsOf
  grind

theorem mem_put {e : String × Data} {key : String} {value : Data} (h : e ∈ Data.put key value es) :
    e = (key, value) ∨ e ∈ es := by
  induction es with
  | nil => exact .inl (mem_singleton.mp h)
  | cons e' es ih => grind [Data.put]

/-- The parameters of a function literal can be anything. -/
theorem not_asksCell_names (names : List String) :
    ¬ AsksCell (.dict (names.foldl (fun es p => Data.put p (.str "any") es) [])) := by
  rintro ⟨es, param, hes, hmem⟩
  cases hes
  have hfold (names : List String) (es : Data.Entries) (hes : (param, .str "cell") ∉ es) :
      (param, Data.str "cell") ∉ names.foldl (fun es p => Data.put p (.str "any") es) es := by
    induction names generalizing es with
    | nil => exact hes
    | cons name names ih => exact ih _ fun hmem => (mem_put hmem).elim (by simp) hes
  exact hfold names [] not_mem_nil hmem

theorem not_asksCell_toData {params : Params} (h : ∀ p ∈ params, p.2 ≠ "cell") :
    ¬ AsksCell params.toData := by
  rintro ⟨es, param, hes, hmem⟩
  cases hes
  obtain ⟨p, hp, heq⟩ := mem_map.mp hmem
  exact h p hp (Data.str.inj (Prod.mk.inj heq).2)

theorem builtin_params_ne_cell (f : Builtin) : ∀ p ∈ f.params, p.2 ≠ "cell" := by
  cases f with
  | core f | operator f | http f | time f | file f | session f | set f => cases f <;> decide

/-- Only calls of services can ask for a cell. -/
theorem not_asksCell_of_paramsOf {w₁ : World}
    (hremote : ∀ address service name definition params, f = .remote address service name →
      w.store.service? scope service = some definition → definition.params name = .ok params →
      ¬ AsksCell params) (h : w.perform (paramsOf scope f) = (.ok params, w₁)) :
    ¬ AsksCell params := by
  cases f with
  | remote address service name =>
    obtain ⟨definition, w₂, hservice, hparams⟩ := perform_bind_eq_ok_iff.mp h
    have hfound := service?_of_serviceOf hservice
    refine hremote address service name definition params rfl hfound ?_
    cases hread : definition.params name with
    | error e =>
      rw [hread] at hparams
      cases (Prod.mk.inj hparams).1
    | ok es =>
      rw [hread] at hparams
      exact (Prod.mk.inj hparams).1
  | builtin f copy =>
    obtain rfl := Except.ok.inj (Prod.mk.inj h).1
    exact not_asksCell_toData (builtin_params_ne_cell f)
  | method address service m =>
    obtain rfl := Except.ok.inj (Prod.mk.inj h).1
    exact not_asksCell_toData (by cases m <;> decide)
  | closure site names body =>
    obtain rfl := Except.ok.inj (Prod.mk.inj h).1
    exact not_asksCell_names names
  | _ =>
    obtain rfl := Except.ok.inj (Prod.mk.inj h).1
    exact not_asksCell_names []

end Act

/-! ### Calls -/

/-- The function has to do with the values of the arguments only: it is not the one that writes
variables; if it is the method that sets a host, the host is not a cell in one of the two lists only;
and if it is a function literal, the arguments are untangled. -/
def Value.Open (s : Store) (args args' : Args) : Value → Prop
  | .builtin f _ => f ≠ .core .set
  | .method _ _ .setHost => ∀ c, args.lookup "host" = some (.cell c) ↔ args'.lookup "host" = some (.cell c)
  | .closure site params _ =>
    ∀ outer, s.captured.lookup site = some outer → s.Untangled outer args args' params
  | _ => True

namespace Act

open Store (Binding)

variable {s : Store} {args args' : Args} {run : Run} {scope : Nat} {w : World}

theorem SameAt.setHost (halike : args.Alike s args') {address : Nat} {service : String}
    (h : ∀ c, args.lookup "host" = some (.cell c) ↔ args'.lookup "host" = some (.cell c)) :
    SameAt s (applyMethod scope address service .setHost args)
      (applyMethod scope address service .setHost args') := by
  have hargument : argument args "host" = argument args' "host" := by
    rw [argument, argument]
    rcases halike.lookup "host" with ⟨hnone, hnone'⟩ | ⟨a, b, ha, hb, hvalue, -⟩
    · rw [hnone, hnone']
    · -- Two cells are the same, and so are two values.
      have hab : a = b := by
        cases a with
        | cell c =>
          rw [(h c).mp ha] at hb
          exact Option.some.inj hb
        | value v =>
          cases b with
          | cell c =>
            rw [(h c).mpr hb] at ha
            cases ha
          | value u => exact congrArg Answer.value hvalue
      rw [ha, hb, hab]
  unfold applyMethod
  rw [hargument]
  exact .refl _

/-- **All functions** but for those that are not open to the arguments. -/
theorem SameAt.apply (hwf : s.WellFormed) (halike : args.Alike s args') (hf : f.Open s args args') :
    SameAt s (apply run scope f args) (apply run scope f args') := by
  cases f with
  | closure site params body => exact .applyClosure hwf halike site body hf
  | builtin f copy => exact .runBuiltin halike hf
  | method address service m =>
    cases m with
    | setHost => exact .setHost halike hf
    | setAuthentication => exact .setAuthentication halike address service
  | remote address service call => exact .applyRemote halike service call
  | tree n e =>
    cases e with
    | bare k => cases k <;> exact .refl _
    | _ => exact .refl _
  | _ => exact .refl _

/-- **Calls with a check** come to the same, but for the wording of complaints. -/
theorem invoke_alike {depth : Nat} (hwf : w.store.WellFormed)
    (halike : args.Alike w.store args') (hf : f.Open w.store args args')
    (hcell : ∀ params w₁, w.perform (paramsOf scope f) = (.ok params, w₁) → ¬ AsksCell params) :
    AlikeButWording scope (w.perform (invoke (interpret (depth + 1)) scope f args))
      (w.perform (invoke (interpret (depth + 1)) scope f args')) := by
  have happly : SameAt w.store (andThen (interpret (depth + 1) (.apply scope f args)) reset)
      (andThen (interpret (depth + 1) (.apply scope f args')) reset) :=
    (((SameAt.apply hwf halike hf).then _).tryCatch _).then _
  unfold invoke
  split
  · -- What is no function is refused, whatever the arguments are.
    refine AlikeButWording.bind (.inl rfl) fun text w₁ _ => ?_
    refine AlikeButWording.bind (.inl rfl) fun _ w₂ hw₂ => ?_
    rw [perform_error] at hw₂
    cases (Prod.mk.inj hw₂).1
  · refine AlikeButWording.bind (.inl rfl) fun params w₁ hw₁ => ?_
    have hstore₁ := leaves_paramsOf scope f w w₁ params hw₁
    have hparams := hcell params w₁ hw₁
    have halike₁ : args.Alike w₁.store args' := by rwa [hstore₁]
    refine (checkArgs_alike scope halike₁ hparams).bind fun _ w₂ hw₂ => ?_
    refine AlikeButWording.bind (.inl rfl) fun _ w₃ hw₃ => .inl (happly w₃ ?_)
    rw [prints_yellow.leaves w₂ w₃ _ hw₃, leaves_checkArgs scope args hparams w₁ w₂ _ hw₂, hstore₁]

/-! ### The exceptions -/

/-- Writing two parameters. -/
theorem bodyStore_pair (hsite : w.store.captured.lookup site = some outer)
    (ha : args.lookup p = some a) (hb : args.lookup q = some b) {s₁ : Store}
    (hs₁ : s₁ = ((w.store.newChild outer).1.define w.store.scopes.size p (w.store.deref a)).1) :
    bodyStore w site [p, q] args = (s₁.define w.store.scopes.size q (s₁.deref b)).1 := by
  have hfirst : { w with store := (w.store.newChild outer).1 }.perform
      (bindParams w.store.scopes.size args [p, q]) =
      { w with store := s₁ }.perform (bindParams w.store.scopes.size args [q]) := by
    rw [bindParams, perform_bind_ok (perform_argValue ha), hs₁]
    exact perform_withStore_bind ..
  have hsecond : { w with store := s₁ }.perform (bindParams w.store.scopes.size args [q]) =
      (.ok (), { w with store := (s₁.define w.store.scopes.size q (s₁.deref b)).1 }) := by
    rw [bindParams, perform_bind_ok (perform_argValue hb)]
    exact perform_withStore_bind ..
  rw [bodyStore, hsite]
  dsimp only
  rw [hfirst, hsecond]

/-- A function literal that gives back its second parameter, where the first one is written into a
variable of the captured scope: it gives what the second argument is worth after that. -/
theorem perform_second (hwf : w.store.WellFormed)
    (hsite : w.store.captured.lookup site = some outer) {c : Nat}
    (hp : Store.findName p (w.store.scopeAt outer).names = some c) (ha : args.lookup p = some a)
    (hb : args.lookup q = some b) (hholds : w.store.Holds a) (hholds' : w.store.Holds b)
    (depth scope : Nat) :
    ∃ (d : Nat) (w₁ : World), w.perform (interpret (depth + 2) (.apply scope
        (.closure site [p, q] (.lookup q)) args)) = (.ok (.cell d), w₁) ∧
      w₁.store.cellValue d = (w.store.setCell c (w.store.deref a)).deref b := by
  have houter := hwf.captured hsite
  have hargs : w.store.Supplies args [p, q] := by
    intro r hr
    rcases mem_cons.mp hr with rfl | hr
    · exact ⟨a, ha, hholds⟩
    · rw [mem_singleton.mp hr]
      exact ⟨b, hb, hholds'⟩
  obtain ⟨s₁, hs₁⟩ : ∃ s₁, s₁ =
      ((w.store.newChild outer).1.define w.store.scopes.size p (w.store.deref a)).1 := ⟨_, rfl⟩
  have hbinding : Binding w.store outer s₁ (w.store.overwrite args outer p) := by
    rw [hs₁]
    exact (Binding.newChild w.store outer).define (hwf.newChild houter) hwf houter ha hholds
  have hwf₁ : s₁.WellFormed := by
    rw [hs₁]
    exact (hwf.newChild houter).define ..
  have hinner : w.store.scopes.size < s₁.scopes.size := by
    rw [hbinding.inner]
    exact Nat.lt_succ_self _
  have hdef := Store.define_spec hwf₁ hinner q (s₁.deref b)
  have hvalue : s₁.deref b = (w.store.setCell c (w.store.deref a)).deref b := by
    rw [hbinding.deref_eq hholds', Store.overwrite_of_own hp ha]
  obtain ⟨s₂, hs₂⟩ : ∃ s₂, s₂ = (s₁.define w.store.scopes.size q (s₁.deref b)).1 := ⟨_, rfl⟩
  have hbody := (bodyStore_pair hsite ha hb hs₁).trans hs₂.symm
  rw [← hs₂] at hdef
  have hcall := perform_call hwf hsite hargs (.lookup q) (depth + 1) scope
  have hlookup := perform_lookup (w := { w with store := s₂ }) (Store.find?_of_findName hdef.bound) depth
  rw [hbody, hlookup] at hcall
  exact ⟨_, _, hcall, hdef.written.trans hvalue⟩

/-- **Calls do not tell cells from values**, with two exceptions. Let two lists of arguments be alike:
they differ in that one gives a cell where the other gives the value in it.

A call of a function that is open to them comes to the same for both, in its result or failure and in
everything it does. If no parameter is declared to be a cell, which only the calls of services can
do, the same holds of a call with the check before it, but for the wording of a complaint.

The method that sets the host of a service is not open to a host that is a cell: it fails and leaves
the service as it is, while the value would be set. And a function literal is not open to a cell that
is overwritten by an earlier parameter: it gets the argument of the earlier parameter in its place. -/
theorem call_transparent (depth scope : Nat) (w : World) (hwf : w.store.WellFormed) (f : Value)
    (args args' : Args) (halike : args.Alike w.store args') :
    let call a := w.perform (interpret (depth + 2) (.apply scope f a))
    let checked a := w.perform (invoke (interpret (depth + 2)) scope f a)
    (f.Open w.store args args' → call args = call args' ∧
      ((∀ address service name definition params, f = .remote address service name →
          w.store.service? scope service = some definition → definition.params name = .ok params →
          ¬ AsksCell params) →
        AlikeButWording scope (checked args) (checked args'))) ∧
    (∀ address name c service text u, f = .method address name .setHost →
      args.lookup "host" = some (.cell c) → args'.lookup "host" = some (.value (w.store.cellValue c)) →
      w.store.service? scope name = some service →
      w.perform (pasted (w.store.cellValue c)) = (.ok text, u) →
      (∃ w₁ : World, w.Said w₁ ∧ call args = (.error (.noAttribute "Cell" "getValue"), w₁)) ∧
      ∀ d, constantData (w.store.cellValue c) = pure d →
        ∃ w₁ : World, w.Said w₁ ∧ call args' = (.ok (.value (.service address name)),
          { w₁ with store := w.store.setService scope name { service with host := d } })) ∧
    (∀ site outer p q c a, f = .closure site [p, q] (.lookup q) →
      w.store.captured.lookup site = some outer →
      Store.findName p (w.store.scopeAt outer).names = some c → args.lookup p = some a →
      args.lookup q = some (.cell c) → args'.lookup q = some (.value (w.store.cellValue c)) →
      (∃ (d : Nat) (w₁ : World), call args = (.ok (.cell d), w₁) ∧
        w₁.store.cellValue d = w.store.deref a) ∧
      ∃ (d : Nat) (w₁ : World), call args' = (.ok (.cell d), w₁) ∧
        w₁.store.cellValue d = w.store.cellValue c) := by
  refine ⟨?_, ?_, ?_⟩
  · intro hf
    refine ⟨SameAt.apply hwf halike hf w rfl, fun hremote => ?_⟩
    exact invoke_alike hwf halike hf fun params w₁ => not_asksCell_of_paramsOf hremote
  · rintro address name c service text u rfl hc hv hservice htext
    refine ⟨perform_setHost address hc htext hservice, fun d hd => ?_⟩
    exact perform_setHost_value address hv htext hservice hd
  · rintro site outer p q c a rfl hsite hp ha hq hq'
    rcases halike.lookup p with ⟨hnone, -⟩ | ⟨a₁, b, ha₁, hb, hvalue, hholds, hholds'⟩
    · rw [ha] at hnone
      cases hnone
    obtain rfl := Option.some.inj (ha.symm.trans ha₁)
    have hcell := (halike.holds hq hq').1
    obtain ⟨d, w₁, hcall, hd⟩ := perform_second hwf hsite hp ha hq hholds hcell depth scope
    obtain ⟨d', w₁', hcall', hd'⟩ := perform_second hwf hsite hp hb hq' hholds' trivial depth scope
    refine ⟨⟨d, w₁, hcall, hd.trans ?_⟩, d', w₁', hcall', hd'⟩
    exact Store.cellValue_setCell_self hcell _

/-- Where the variable `x` has the value 1, `tojson(val: x)` comes to the same as `tojson(val: 1)`. But
of `\x, y. y` the call with `x: 5, y: x` gives 5, and the call with `x: 5, y: 1` gives 1. -/
theorem call_transparent_tangled : let one := Value.constant (.int 1)
    let five := Value.constant (.int 5)
    let w := (World.blank.perform (interpret 3 (.evaluate 0 (.block
      [.assign (.define "x") (.constant (.int 1)), .closure 0 ["x", "y"] (.lookup "y")])))).2
    let second args := w.perform (interpret (0 + 2) (.apply 0
      (.closure 0 ["x", "y"] (.lookup "y")) args))
    let tojson args := w.perform (interpret (0 + 2) (.apply 0 (.builtin (.core .tojson) 0) args))
    w.store.WellFormed ∧ w.store.cellValue 0 = one ∧
      tojson [("val", .cell 0)] = tojson [("val", .value one)] ∧
      (∃ (d : Nat) (w₁ : World), second [("x", .value five), ("y", .cell 0)] = (.ok (.cell d), w₁) ∧
        w₁.store.cellValue d = five) ∧
      ∃ (d : Nat) (w₁ : World), second [("x", .value five), ("y", .value one)] = (.ok (.cell d), w₁) ∧
        w₁.store.cellValue d = one := by
  intro one five w second tojson
  have hwf : w.store.WellFormed :=
    interpret_wellFormed _ _ Store.wellFormed_newRoot_empty Nat.zero_lt_one
  have hcell : w.store.Holds (.cell 0) := show 0 < w.store.cells.size from Nat.zero_lt_one
  have hval : Args.Alike w.store [("val", .cell 0)] [("val", .value one)] :=
    .cons ⟨rfl, rfl, hcell, trivial⟩ .nil
  have hxy : Args.Alike w.store [("x", .value five), ("y", .cell 0)]
      [("x", .value five), ("y", .value one)] :=
    .cons ⟨rfl, rfl, trivial, trivial⟩ (.cons ⟨rfl, rfl, hcell, trivial⟩ .nil)
  have hopen := (call_transparent 0 0 w hwf (.builtin (.core .tojson) 0) _ _ hval).1
  have htangled := (call_transparent 0 0 w hwf (.closure 0 ["x", "y"] (.lookup "y")) _ _ hxy).2.2
  exact ⟨hwf, rfl, (hopen nofun).1, htangled 0 0 "x" "y" 0 (.value five) rfl rfl rfl rfl rfl rfl⟩

end Act

end Parley
