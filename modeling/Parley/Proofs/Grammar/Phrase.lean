import Parley.Proofs.Grammar.Derivation

/-!
# Trees that can be read again

The kinds of trees that have a written form that can be read again (`Expr.reprintable`), and the
derivations in which no list of arguments names one of them twice; of two arguments with one name
the tree keeps only the later one.
-/

namespace Parley

/-- Does the tree keep its quotes and braces when it stands before a point or after `try`? Texts and
objects do not. -/
def Expr.staysWhole : Expr → Bool
  | .constant (.text _) | .object _ => false
  | _ => true

mutual

/-- Can the text of the tree be read again? It consists of variables, integers with not too many
digits, texts without quotes and backslashes, arrays, objects, functions, blocks, groups, calls,
operators other than the equals sign, properties and `try`; the last two are not applied to a text
or an object. -/
def Expr.reprintable : Expr → Bool
  | .lookup name => name != "="
  | .constant (.int n) => n.natAbs < Number.tenTo Number.digitLimit
  | .constant (.text s) => !s.toList.contains '"' && !s.toList.contains '\\'
  | .array es | .block es => Expr.reprintableAll es
  | .object ps => Expr.reprintableNamed ps
  | .closure _ _ body => body.reprintable
  | .member whole _ => whole.reprintable && whole.staysWhole
  | .attempt body => body.reprintable && body.staysWhole
  | .call f args => f.reprintable && Expr.reprintableNamed args
  | .opCall op left right => op.reprintable && left.reprintable && right.reprintable
  | .group inner => inner.reprintable
  | _ => false

/-- `Expr.reprintable` for several trees. -/
def Expr.reprintableAll : List Expr → Bool
  | [] => true
  | e :: es => e.reprintable && Expr.reprintableAll es

/-- `Expr.reprintable` for named trees. -/
def Expr.reprintableNamed : List (String × Expr) → Bool
  | [] => true
  | (_, e) :: ps => e.reprintable && Expr.reprintableNamed ps

end

/-- `Expr.reprintable` for the lists, too, that such trees are put together from. -/
def Expr.reprintablePart : Expr → Bool
  | .elementList es => Expr.reprintableAll es
  | .paramList _ => true
  | .arg _ e => e.reprintable
  | .argList as => Expr.reprintableNamed as
  | e => e.reprintable

theorem Expr.reprintableAll_append (es : List Expr) (e : Expr) :
    Expr.reprintableAll (es ++ [e]) = (Expr.reprintableAll es && e.reprintable) := by
  induction es with
  | nil => simp [Expr.reprintableAll]
  | cons e' es ih => simp [Expr.reprintableAll, ih, Bool.and_assoc]

theorem Expr.reprintableNamed_append (ps : List (String × Expr)) (p : String × Expr) :
    Expr.reprintableNamed (ps ++ [p]) = (Expr.reprintableNamed ps && p.2.reprintable) := by
  induction ps with
  | nil => simp [Expr.reprintableNamed]
  | cons p' ps ih => simp [Expr.reprintableNamed, ih, Bool.and_assoc]

theorem Expr.reprintablePart_of_reprintable {e : Expr} (h : e.reprintable = true) :
    e.reprintablePart = true := by
  cases e <;> first | exact h | cases h

theorem Expr.reprintablePart_block (es : List Expr) :
    (Expr.block es).reprintablePart = Expr.reprintableAll es := by
  simp only [Expr.reprintablePart, Expr.reprintable]

theorem Expr.putArg_of_not_mem {name : String} {args : List (String × Expr)}
    (h : name ∉ args.map Prod.fst) (value : Expr) :
    Expr.putArg name value args = args ++ [(name, value)] := by
  induction args with
  | nil => rfl
  | cons p args ih =>
    obtain ⟨hne, hargs⟩ := not_or.mp fun h' => h (List.mem_cons.mpr h')
    rw [Expr.putArg, if_neg (Ne.symm hne), ih hargs]
    rfl

namespace Grammar

/-! ### Names that occur once -/

/-- Is the argument that a rule adds to a list new there? -/
def Action.addsNew : Action → List Item → Bool
  | .argList, [.tree (.argList args), _, .tree (.arg name _)] => !(args.map Prod.fst).contains name
  | _, _ => true

mutual

/-- In no list of arguments of the derivation does a name occur twice. -/
def Derivation.distinctKeys {p : Production} {e : Expr} : Derivation p e → Bool
  | .via _ child => child.distinctKeys
  | @Derivation.parts _ action _ items _ _ children _ =>
    children.distinctKeys && action.addsNew items

/-- `Derivation.distinctKeys` for children. -/
def Children.distinctKeys {parts : List Part} {items : List Item} : Children parts items → Bool
  | .nil => true
  | .production child rest => child.distinctKeys && rest.distinctKeys
  | .token _ rest => rest.distinctKeys
  | .tree _ child rest => child.distinctKeys && rest.distinctKeys

end

end Grammar

end Parley
