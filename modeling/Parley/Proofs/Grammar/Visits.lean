import Parley.Proofs.Grammar.Termination

/-!
# Where a reading stops inside a construct

The reader tries many rules of which only a few are in the tree that it gives. To see that it does
*not* stop for more input, one has to know all that it tries. This is what visits are: a production
that is read off a stack, or a rule of which some parts are left. Every visit follows from the one
before in one of a few ways (`Visit.Leads`), none of which speaks of budgets, of the rules that are
under way or of the results of other rules.

A reading that ends with `Failure.unfinished` has visited a rule with parts left, something opened
and nothing on the stack (`stops_of_parse`). So an invariant of visits that rules this out rules out
the failure.
-/

namespace Parley.Grammar

/-- What the reader is trying: a production, or the parts that are left of a rule. -/
inductive Visit where
  | production (p : Production) (stack : Stack)
  | parts (parts : List Part) (stack : Stack) (opened : Bool)

namespace Visit

/-- What the reader may try next. -/
inductive Leads : Visit → Visit → Prop
  | via {p q : Production} (stack : Stack) (h : Rule.via q ∈ p.rules) :
      Leads (.production p stack) (.production q stack)
  | rule {p : Production} {action : Action} {parts : List Part} (stack : Stack)
      (h : Rule.parts action parts ∈ p.rules) :
      Leads (.production p stack) (.parts parts stack false)
  | again {p : Production} {stack rest : Stack} {e : Expr} (h : Picks p stack e rest) :
      Leads (.production p stack) (.production p (.tree e :: rest))
  | enter (q : Production) (parts : List Part) {stack : Stack} (opened : Bool) (h : stack ≠ []) :
      Leads (.parts (.production q :: parts) stack opened) (.production q stack)
  | leave {q : Production} (parts : List Part) {stack rest : Stack} {e : Expr} (opened : Bool)
      (h : Reads q stack e rest) :
      Leads (.parts (.production q :: parts) stack opened) (.parts parts rest opened)
  | token (t : Token) (parts : List Part) (stack : Stack) (opened : Bool) :
      Leads (.parts (.token t.kind :: parts) (.token t :: stack) opened)
        (.parts parts stack (opened || t.kind.opens))
  | tree {shape : Shape} {e : Expr} (parts : List Part) (stack : Stack) (opened : Bool)
      (h : shape.fits e = true) :
      Leads (.parts (.tree shape :: parts) (.tree e :: stack) opened) (.parts parts stack opened)

/-- From here the end of the input is reached inside a construct. -/
def Stops (v : Visit) : Prop :=
  ∃ part parts, Relation.ReflTransGen Leads v (.parts (part :: parts) [] true)

theorem Stops.of_leads {v v' : Visit} (hleads : Leads v v') (h : Stops v') : Stops v := by
  obtain ⟨part, parts, hpath⟩ := h
  exact ⟨part, parts, .head hleads hpath⟩

/-- An invariant of visits that rules out the end of the input inside a construct. -/
theorem not_stops_of_invariant (holds : Visit → Prop)
    (hleads : ∀ v v', holds v → Leads v v' → holds v')
    (hend : ∀ part parts, ¬ holds (.parts (part :: parts) [] true)) {v : Visit} (hv : holds v) :
    ¬ Stops v := by
  have hpath {v' : Visit} (h : Relation.ReflTransGen Leads v v') : holds v' := by
    induction h with
    | refl => exact hv
    | tail _ hstep ih => exact hleads _ _ ih hstep
  rintro ⟨part, parts, h⟩
  exact hend part parts (hpath h)

end Visit

end Parley.Grammar
