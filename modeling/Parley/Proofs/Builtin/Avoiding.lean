import Parley.Proofs.Eval.Builtins
import Parley.Proofs.World.Twins

/-!
# Builtin functions that do not see the last result

A builtin function that is given neither the name of a variable nor the text of statements
(`Builtin.blind`) sees its arguments and what they lead to. If they lead to nothing hidden, the last
result has no say in what the function does and gives, and what it gives leads to nothing hidden,
either. Functions that call a function do so by the given means, of which the same is assumed.

## Main results

* `Act.invoke_gives`: a call, with the check of its arguments.
* `Act.runBuiltin_gives`: every builtin function that is blind.
-/

namespace Parley

open List

/-- The arguments lead to nothing hidden. -/
def Hidden.FairArgs (H : Hidden) (args : Args) : Prop :=
  ∀ p ∈ args, H.Fair p.2

@[grind =] theorem Hidden.spares_constant (H : Hidden) (c : Constant) : H.spares (.constant c) = true :=
  rfl

@[grind .] theorem Hidden.spares_text (H : Hidden) (s : String) : H.spares (.text s) :=
  rfl

@[grind =] theorem Hidden.fair_value (H : Hidden) (x : Value) : H.Fair (.value x) ↔ H.spares x :=
  .rfl

@[grind .] theorem Hidden.fair_constant (H : Hidden) (c : Constant) : H.Fair (Act.constant c) :=
  rfl

@[grind .] theorem Hidden.fair_nothing (H : Hidden) : H.Fair Act.nothing :=
  rfl

namespace Act

variable {α : Type} {H : Hidden} {E : World → World → Prop} [hE : Veils H E] {x : Value} {args : Args}
  {k : Nat} {run : Run} {P : α → Prop}

/-! ### Arguments and reports -/

section Arguments

variable (hargs : H.FairArgs args) (name : String)

include hargs

@[grind →] theorem fair_of_lookup {a : Answer} (ha : args.lookup name = some a) : H.Fair a := by
  obtain ⟨before, after, rfl, -⟩ := lookup_eq_some_iff.mp ha
  exact hargs (name, a) (mem_append_right _ mem_cons_self)

omit hE in
@[grind .] theorem argument_gives : Gives E H.Fair (argument args name) := by
  unfold argument; grind

@[grind .] theorem argValue_gives : Gives E (H.spares ·) (argValue args name) := by
  unfold argValue; grind

@[grind .] theorem argValue_twins : Keeps E (argValue args name) :=
  (argValue_gives hargs name).keeps

@[grind .] theorem argString_twins : Keeps E (argString args name) := by
  unfold argString; grind

theorem argCells_gives : Gives E (fun cells => ∀ c ∈ cells, c ∉ H.cells) (argCells args name) := by
  refine (argValue_gives hargs name).bind fun y hy => ?_
  split
  · exact (cells_gives _).bind fun r hr => Gives.pure hr
  · exact Gives.throw _

@[grind .] theorem argPath_twins : Keeps E (argPath args name) := by
  unfold argPath; grind

end Arguments

section Reports

include hE

@[grind .] theorem reportFault_gives (k : Nat) (f : Fault) : Gives E P (reportFault k f) := by
  unfold reportFault; grind

@[grind ←] theorem Gives.reportAll {x : Act α} (hx : Gives E P x) (k : Nat) :
    Gives E P (reportAll k x) := by
  unfold Act.reportAll; grind

@[grind ←] theorem Gives.reportOthers {x : Act α} (hx : Gives E P x) (k : Nat) :
    Gives E P (reportOthers k x) := by
  unfold Act.reportOthers; grind

end Reports

omit hE in
/-- A value that an action gives, as an answer. -/
theorem Gives.value {x : Act Value} (hx : Gives E (H.spares ·) x) :
    Gives E H.Fair (x >>= fun y => Pure.pure (Answer.value y)) :=
  hx.bind fun _ hy => Gives.pure hy

/-! ### The check of arguments -/

theorem checkArg_twins (hargs : H.FairArgs args) (k : Nat) (param : String) (type : Data) :
    Keeps E (checkArg k args param type) := by
  have hcell : Keeps E (checkCell k param (args.lookup param)) := by
    unfold checkCell pasted; grind
  have htype (wanted : Data) {a : Answer} (ha : args.lookup param = some a) :
      Keeps E (checkType k param wanted a) := by
    unfold checkType shown; grind
  unfold checkArg
  grind

@[grind .] theorem checkArgs_twins (hargs : H.FairArgs args) (k : Nat) (params : Data) :
    Keeps E (checkArgs k args params) := by
  have each (es : Data.Entries) : Keeps E (checkEach k args es) := by
    induction es with
    | nil => exact Keeps.pure ()
    | cons e es ih => exact Keeps.bind (checkArg_twins hargs k e.1 e.2) fun _ => ih
  unfold checkArgs; grind

/-- **A call** of a function that leads to nothing hidden, after its arguments have been checked. -/
theorem invoke_gives {f : Value} (hf : H.spares f) (hargs : H.FairArgs args)
    (hrun : Gives E H.Fair (run (.apply k f args))) :
    Gives E H.Fair (invoke run k f args) := by
  unfold invoke pasted; grind

/-! ### Operators, times, files, sets and requests -/

omit hE in
theorem operate_gives (o : Operator) (l r : Value) : Gives E (H.spares ·) (operate o l r) := by
  have hlogic (b : Bool) : Gives E (H.spares ·) (logicSides b l r) := by
    unfold logicSides; grind
  cases o <;> unfold operate <;> grind

theorem runOperator_gives (hargs : H.FairArgs args) (k : Nat) (o : Operator) :
    Gives E H.Fair (runOperator k o args) :=
  (argValue_twins hargs "left").bind_gives fun l => (argValue_twins hargs "right").bind_gives fun r =>
    ((operate_gives o l r).reportOthers k).value

theorem runTime_gives (hargs : H.FairArgs args) (f : TimeFunction) :
    Gives E H.Fair (runTime f args) := by
  have htime (name : String) : Keeps E (argTime args name) := by unfold argTime; grind
  have hcivil : Keeps E (argCivil args) := by unfold argCivil civilIn; grind
  cases f <;> unfold runTime <;> grind

theorem runHttp_gives (hargs : H.FairArgs args) (k : Nat) (f : HttpFunction) :
    Gives E H.Fair (runHttp k f args) := by
  have hparts (reply : Reply) : Keeps E (replyParts f reply) := by
    unfold replyParts; grind
  refine Gives.reportAll ((argString_twins hargs "url").bind_gives fun url => ?_) k
  cases f with
  | post => exact (argString_twins hargs "data").bind_gives fun s => by unfold printBelow; grind
  | _ => unfold printBelow; grind

theorem runFile_gives (hargs : H.FairArgs args) (k : Nat) (f : FileFunction) :
    Gives E H.Fair (runFile k f args) := by
  have hwrite (after : Bool) (path text : String) : Keeps E (writeFile after path text) := by
    refine Keeps.look_bind (fun _ => rfl) fun w => Keeps.bind (Keeps.ofResult _) fun disk => ?_
    exact Keeps.apart (fun _ => ⟨rfl, rfl, rfl⟩) (fun _ => rfl) (fun _ => rfl) fun _ => rfl
  refine Gives.reportAll ((argPath_twins hargs "file").bind_gives fun path => ?_) k
  cases f with
  | read =>
    have hread : Keeps E (readFile path) := by unfold readFile; grind
    refine Gives.bind (P := fun r => ∀ a, r = .ok a ∨ r = .error a → H.Fair a)
      (Gives.tryCatch ?_ fun f => ?_) fun r hr => ?_
    · exact hread.bind_gives fun text => Gives.pure (by grind)
    · grind
    · cases r <;> grind
  | write | append => grind

theorem runSet_gives (hargs : H.FairArgs args) (k : Nat) (f : SetFunction) :
    Gives E H.Fair (runSet k f args) := by
  have hload (ds : List Data) : Gives E (fun vs => ∀ y ∈ vs, H.spares y) (loadAll ds) := by
    induction ds with
    | nil => exact Gives.pure fun y hy => absurd hy not_mem_nil
    | cons d ds ih =>
      exact (load_gives d).bind fun y hy => ih.bind fun vs hvs =>
        Gives.pure (forall_mem_cons.mpr ⟨hy, hvs⟩)
  refine Gives.reportAll ?_ k
  cases f with
  | create => unfold setAction; grind
  | array =>
    refine (argValue_twins hargs "set").bind_gives fun y => ?_
    split
    · exact (hload _).bind fun vs hvs => (Veils.withStore (Hidden.blind_newArray false hvs)).value
    · exact Gives.throw _

/-! ### Functions that call functions -/

section Calling

variable {f : Value}
  (hrun : ∀ args, H.FairArgs args → Gives E H.Fair (run (.apply k f args)))

include hrun

omit hE in
/-- A function is called with values that lead to nothing hidden. -/
theorem callItem_gives (hx : H.spares x) (index : Nat) :
    Gives E H.Fair (callItem run k f x index) :=
  hrun _ (forall_mem_cons.mpr ⟨hx, forall_mem_singleton.mpr rfl⟩)

variable {cells : List Nat}

theorem mapCells_gives (hcells : ∀ c ∈ cells, c ∉ H.cells) (index : Nat) :
    Gives E (fun vs => ∀ y ∈ vs, H.spares y) (mapCells run k f index cells) := by
  induction cells generalizing index with
  | nil => exact Gives.pure fun y hy => absurd hy not_mem_nil
  | cons c cells ih =>
    obtain ⟨hc, hrest⟩ := forall_mem_cons.mp hcells
    refine (cell_gives hc).bind fun item hitem => (callItem_gives hrun hitem index).bind fun a ha => ?_
    refine (deref_gives ha).bind fun y hy => (ih hrest _).bind fun vs hvs => ?_
    exact Gives.pure (forall_mem_cons.mpr ⟨hy, hvs⟩)

theorem filterCells_gives (hcells : ∀ c ∈ cells, c ∉ H.cells) (index : Nat) :
    Gives E (fun vs => ∀ y ∈ vs, H.spares y) (filterCells run k f index cells) := by
  induction cells generalizing index with
  | nil => exact Gives.pure fun y hy => absurd hy not_mem_nil
  | cons c cells ih =>
    obtain ⟨hc, hrest⟩ := forall_mem_cons.mp hcells
    have hmore {kept : List Value} (hkept : ∀ y ∈ kept, H.spares y) :
        Gives E (fun vs => ∀ y ∈ vs, H.spares y)
          (filterCells run k f (index + 1) cells >>= fun more => pure (kept ++ more)) :=
      (ih hrest _).bind fun vs hvs => Gives.pure fun y hy =>
        (mem_append.mp hy).elim (hkept y) (hvs y)
    refine (cell_gives hc).bind fun item hitem => (callItem_gives hrun hitem index).bind fun a ha => ?_
    refine (deref_gives ha).bind fun keep _ => Keeps.bind_gives (getStore_twins fun _ _ => rfl) fun b => ?_
    split
    · exact (cell_gives hc).bind fun y hy => hmore (forall_mem_singleton.mpr hy)
    · exact hmore fun y hy => absurd hy not_mem_nil

theorem reduceCells_gives {accum : Answer} (haccum : H.Fair accum)
    (hcells : ∀ c ∈ cells, c ∉ H.cells) (index : Nat) :
    Gives E H.Fair (reduceCells run k f accum index cells) := by
  induction cells generalizing accum index with
  | nil => exact Gives.pure haccum
  | cons c cells ih =>
    obtain ⟨hc, hrest⟩ := forall_mem_cons.mp hcells
    refine (deref_gives haccum).bind fun sofar hsofar => (cell_gives hc).bind fun item hitem => ?_
    refine (hrun _ ?_).bind fun next hnext => ih hnext hrest _
    exact forall_mem_cons.mpr ⟨hsofar, forall_mem_cons.mpr ⟨hitem, forall_mem_singleton.mpr rfl⟩⟩

theorem repeatWhile_twins (rounds : Nat) : Keeps E (repeatWhile run k f rounds) := by
  induction rounds with
  | zero => exact Keeps.throw _
  | succ rounds ih =>
    refine (hrun [] fun p hp => absurd hp not_mem_nil).keeps_bind fun a ha => ?_
    refine (deref_gives ha).keeps_bind fun y hy => (data_twins hy).bind fun d => ?_
    split
    · exact ih
    · exact Keeps.pure _

end Calling

/-! ### The functions that stand alone -/

@[grind .] theorem sizeOf_gives (k : Nat) (hx : H.spares x) :
    Gives E (H.spares ·) (sizeOf k x) := by
  have hnull : Gives E (H.spares ·) (lookupValue k "null") :=
    lookupValue_gives k (H.serving "null" (by simp [servingNames]))
  have hnames : Keeps E (propertyNames x) := by
    unfold propertyNames
    split
    · exact Keeps.bind (getStore_twins fun _ _ => rfl) fun _ => Keeps.pure _
    · exact Keeps.bind (getStore_twins fun _ _ => rfl) fun _ => Keeps.pure _
    · exact Keeps.pure _
    · exact Keeps.pure _
  unfold sizeOf
  cases x with
  | service => cases hx
  | array => exact Keeps.bind_gives (getStore_twins fun _ _ => rfl) fun _ => Gives.pure rfl
  | _ => grind

section Builtins

variable (hargs : H.FairArgs args)
  (hrun : ∀ {f args}, H.spares f → H.FairArgs args → Gives E H.Fair (run (.apply k f args)))

include hargs hrun

/-- **A function that stands alone** and is given neither names nor statements. -/
theorem core_gives {f : CoreFunction} (hf : (Builtin.core f).blind) :
    Gives E H.Fair (core run k f args) := by
  have hvalue (name : String) : Gives E (H.spares ·) (argValue args name) :=
    argValue_gives hargs name
  cases f with
  | eval | source | set | defOperator => cases hf
  | map =>
    refine (argCells_gives hargs "arr").bind fun cells hcells => (hvalue "fn").bind fun g hg => ?_
    exact (mapCells_gives (fun _ => hrun hg) hcells 0).bind fun vs hvs =>
      (Veils.withStore (Hidden.blind_newArray false hvs)).value
  | filter =>
    refine (argCells_gives hargs "arr").bind fun cells hcells => (hvalue "fn").bind fun g hg => ?_
    exact (filterCells_gives (fun _ => hrun hg) hcells 0).bind fun vs hvs =>
      (Veils.withStore (Hidden.blind_newArray false hvs)).value
  | reduce | rreduce =>
    refine (hvalue "arr").bind fun array harray => (hvalue "fn").bind fun g hg => ?_
    refine (hvalue "base").bind fun base hbase => ?_
    have hfair : H.FairArgs [("arr", .value array)] := forall_mem_singleton.mpr harray
    have hbase : H.Fair (.value base) := hbase
    refine (argCells_gives hfair "arr").bind fun cells hcells => ?_
    exact reduceCells_gives (fun _ => hrun hg) hbase (by simpa using hcells) 0
  | repeatWhile =>
    have hfunction : Gives E (H.spares ·) (argFunction args "fn") := by
      refine (hvalue "fn").bind fun g hg => ?_
      split
      · exact Gives.pure hg
      · exact Gives.throw _
    exact hfunction.bind fun g hg =>
      (repeatWhile_twins (fun _ => hrun hg) roundLimit).bind_gives fun _ => Gives.pure rfl
  | string =>
    refine (hvalue "value").bind fun y hy => Gives.value ?_
    unfold toText shown; grind
  | boolean =>
    exact (hvalue "value").bind fun y _ => Keeps.bind_gives (getStore_twins fun _ _ => rfl) fun _ =>
      Gives.pure rfl
  | split =>
    refine (hvalue "text").bind fun text _ => (argString_twins hargs "on").bind_gives fun pattern => ?_
    refine (Keeps.ofResult _).bind_gives fun regex => (Keeps.textValue _).bind_gives fun s => ?_
    refine (Veils.withStore (Hidden.blind_newArray false fun y hy => ?_)).value
    obtain ⟨piece, -, rfl⟩ := mem_map.mp hy
    cases piece <;> rfl
  | join =>
    refine (argString_twins hargs "with").bind_gives fun joint => ?_
    refine (argCells_gives hargs "arr").bind fun cells hcells => ?_
    have htexts : Keeps E (cellTexts cells) := by
      induction cells with
      | nil => exact Keeps.pure []
      | cons c cells ih =>
        obtain ⟨hc, hrest⟩ := forall_mem_cons.mp hcells
        exact (cell_gives hc).keeps_bind fun y hy => (written_twins _ hy).bind fun _ =>
          (ih hrest).bind fun _ => Keeps.pure _
    exact htexts.bind_gives fun _ => Gives.pure rfl
  | grep =>
    have hcase : Keeps E (caseMatters args) := by unfold caseMatters; grind
    unfold core; grind
  | _ => unfold core; grind

theorem runCore_gives {f : CoreFunction} (hf : (Builtin.core f).blind) :
    Gives E H.Fair (runCore run k f args) := by
  have hcore := core_gives hargs hrun hf
  unfold runCore
  split
  · cases hf
  · exact (hcore.bind fun a ha => (deref_gives ha).value).reportOthers k

/-- **Every builtin function that is blind** does the same whatever the last result is. -/
theorem runBuiltin_gives {f : Builtin} (hf : f.blind) : Gives E H.Fair (runBuiltin run k f args) := by
  cases f with
  | core f => exact runCore_gives hargs hrun hf
  | operator o => exact runOperator_gives hargs k o
  | http f => exact runHttp_gives hargs k f
  | time f => exact runTime_gives hargs f
  | file f => exact runFile_gives hargs k f
  | session f => cases hf
  | set f => exact runSet_gives hargs k f

end Builtins

end Act

end Parley
