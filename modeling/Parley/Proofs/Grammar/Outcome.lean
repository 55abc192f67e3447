import Parley.Proofs.Grammar.Failures

/-!
# What an attempt comes to

For the question which tokens are read, the reader's messages and notes have no say. What is left of
an attempt is whether it finds something, is refused, or halts the whole reading (`Outcome`). The
parts of the reader have plain equations for their outcomes.

Two things that steer the reader matter less than it seems. The budget only decides whether there is
an outcome at all: any two attempts that do not halt agree (`readOutcome_unique`). And of the rules
under way only those matter that can be met before anything is taken off the stack
(`readOutcome_congr_seen`).
-/

namespace Parley.Grammar

open List

/-- What an attempt comes to: a tree and what is left, nothing, or the end of all reading. -/
inductive Outcome where
  | found (f : Found)
  | refused
  | halted

/-- What an attempt comes to. -/
def outcome (x : Attempt Found) : Outcome :=
  match x.result with
  | .ok f => .found f
  | .error (.rejected _ _ _) | .error (.ended _) => .refused
  | .error _ => .halted

namespace Outcome

/-- Goes on after something was found and after nothing was. -/
def next (o : Outcome) (onFound : Found → Outcome) (onRefused : Outcome) : Outcome :=
  match o with
  | .found f => onFound f
  | .refused => onRefused
  | .halted => .halted

/-- What has been built so far, as an outcome. -/
def ofLast : Option Found → Outcome
  | some f => .found f
  | none => .refused

@[simp] theorem next_found (f : Found) (onFound : Found → Outcome) (onRefused : Outcome) :
    (found f).next onFound onRefused = onFound f := rfl

@[simp] theorem next_refused (onFound : Found → Outcome) (onRefused : Outcome) :
    refused.next onFound onRefused = onRefused := rfl

@[simp] theorem next_halted (onFound : Found → Outcome) (onRefused : Outcome) :
    halted.next onFound onRefused = .halted := rfl

end Outcome

variable {p : Production} {seen seen' : Seen} {f : Found} {o other y : Outcome} {b b' : Nat}
  {stack : Stack}

/-! ### The outcomes of the parts of the reader -/

def readOutcome (b : Nat) (p : Production) (stack : Stack) (seen : Seen) : Outcome :=
  outcome (read b p stack seen)

def extendOutcome (b : Nat) (p : Production) (stack : Stack) (seen : Seen) (last : Option Found) :
    Outcome :=
  outcome (extend b p stack seen last)

def chooseOutcome (b : Nat) (p : Production) (stack : Stack) (seen : Seen) (index : Nat)
    (rules : List Rule) (best : Option Found) : Outcome :=
  outcome (choose b p stack seen index rules best [] false)

def ruleOutcome (b : Nat) (p : Production) (rule : Rule) (stack : Stack) (seen : Seen) : Outcome :=
  outcome (tryRule b p rule stack seen)

def matchOutcome (b : Nat) (p : Production) (action : Action) (parts : List Part) (stack : Stack)
    (seen : Seen) (opened : Bool) (taken : List Item) : Outcome :=
  outcome (matchParts b p action parts stack seen opened taken)

theorem outcome_fail (f : Failure) : outcome (Traced.fail f) = match f with
      | .rejected _ _ _ | .ended _ => .refused
      | _ => .halted := by
  cases f <;> rfl

/-- Where an attempt goes on after its result, its outcome goes on, too. -/
theorem outcome_handle {x : Attempt Found} {onOk : Found → Attempt Found}
    {onError : Failure → Attempt Found}
    (hrejected : ∀ inside expected atEnd, x.result = .error (.rejected inside expected atEnd) →
        outcome (onError (.rejected inside expected atEnd)) = other)
    (hended : ∀ inside, x.result = .error (.ended inside) →
      outcome (onError (.ended inside)) = other)
    (hfatal : ∀ f, outcome (Traced.fail f) = .halted → outcome (onError f) = .halted) :
    outcome (x.handle onOk onError) = (outcome x).next (fun f => outcome (onOk f)) other := by
  have hside : outcome (x.handle onOk onError) = match x.result with
      | .ok f => outcome (onOk f)
      | .error f => outcome (onError f) := by
    unfold outcome
    rw [Traced.result_handle]
    cases x.result <;> rfl
  rw [hside]
  cases hx : x.result with
  | ok f => simp [outcome, hx]
  | error f =>
    cases f with
    | rejected => simpa [outcome, hx] using hrejected _ _ _ hx
    | ended => simpa [outcome, hx] using hended _ hx
    | unfinished | fault | spent => simpa [outcome, hx] using hfatal _ rfl

/-! ### Their equations -/

section Equations

variable (b : Nat) (p : Production) (stack : Stack) (seen : Seen) (index : Nat) (rule : Rule)
  (rules : List Rule) (best : Option Found)

theorem readOutcome_cons (item : Item) :
    readOutcome (b + 1) p (item :: stack) seen = extendOutcome b p (item :: stack) seen none := rfl

theorem extendOutcome_succ {stack : Stack} (hne : stack ≠ []) (seen : Seen) (last : Option Found) :
    extendOutcome (b + 1) p stack seen last = (chooseOutcome b p stack seen 0 p.rules none).next
        (fun f => extendOutcome b p (.tree f.1 :: f.2) seen (some f)) (.ofLast last) := by
  rw [extendOutcome, extend, outcome_handle]
  · rfl
  · intro _ _ _ _
    cases last <;> rfl
  · intro inside h
    cases ordinary_of_choose hne (fun _ hr => hr) h
  · intro f hf
    cases f with
    | rejected | ended => cases hf
    | unfinished | fault | spent => rfl

/-- The rules that are tried one after the other, given that what has been expected so far has no
say in the later ones. -/
theorem outcome_choose_cons {b p stack seen index rules} (htail : ∀ best expected atEnd,
      outcome (choose b p stack seen (index + 1) rules best expected atEnd) =
        chooseOutcome b p stack seen (index + 1) rules best) (rule : Rule) (best : Option Found)
    (expected : List Part) (atEnd : Bool) :
    outcome (choose (b + 1) p stack seen index (rule :: rules) best expected atEnd) =
      if seen.contains (p, index) then chooseOutcome b p stack seen (index + 1) rules best
      else (ruleOutcome b p rule stack ((p, index) :: seen)).next
        (fun f => chooseOutcome b p stack seen (index + 1) rules (some (better best f)))
        (chooseOutcome b p stack seen (index + 1) rules best) := by
  rw [choose_cons]
  split
  · exact htail _ _ _
  · rw [outcome_handle]
    · simp only [htail]
      rfl
    · intro _ _ _ _
      exact htail _ _ _
    · intro _ _
      exact htail _ _ _
    · intro f hf
      cases f with
      | rejected | ended => cases hf
      | unfinished | fault | spent => rfl

/-- What has been expected so far has no say in the choice of a rule. -/
theorem outcome_choose (expected : List Part) (atEnd : Bool) :
    outcome (choose b p stack seen index rules best expected atEnd) =
      chooseOutcome b p stack seen index rules best := by
  induction rules generalizing b index best expected atEnd with
  | nil => cases b <;> cases best <;> rfl
  | cons rule rules ih =>
    cases b with
    | zero => rfl
    | succ b =>
      have htail best expected atEnd := ih b (index + 1) best expected atEnd
      rw [chooseOutcome, outcome_choose_cons htail, outcome_choose_cons htail]

@[simp] theorem chooseOutcome_nil :
    chooseOutcome (b + 1) p stack seen index [] best = .ofLast best := by
  cases best <;> rfl

theorem chooseOutcome_cons :
    chooseOutcome (b + 1) p stack seen index (rule :: rules) best =
      if seen.contains (p, index) then chooseOutcome b p stack seen (index + 1) rules best
      else (ruleOutcome b p rule stack ((p, index) :: seen)).next
        (fun f => chooseOutcome b p stack seen (index + 1) rules (some (better best f)))
        (chooseOutcome b p stack seen (index + 1) rules best) :=
  outcome_choose_cons (outcome_choose b p stack seen (index + 1) rules) rule best [] false

variable {b p stack seen index rule rules best}

/-- A rule under way is not tried. -/
theorem chooseOutcome_skip (h : (p, index) ∈ seen) :
    chooseOutcome (b + 1) p stack seen index (rule :: rules) best =
      chooseOutcome b p stack seen (index + 1) rules best := by
  rw [chooseOutcome_cons, if_pos (contains_iff_mem.mpr h)]

/-- Any other rule is. -/
theorem chooseOutcome_try (h : (p, index) ∉ seen) :
    chooseOutcome (b + 1) p stack seen index (rule :: rules) best =
      (ruleOutcome b p rule stack ((p, index) :: seen)).next
        (fun f => chooseOutcome b p stack seen (index + 1) rules (some (better best f)))
        (chooseOutcome b p stack seen (index + 1) rules best) := by
  rw [chooseOutcome_cons, if_neg (by simpa using h)]

end Equations

section Match

variable (b : Nat) (p : Production) (action : Action) (parts : List Part) (stack : Stack)
  (seen : Seen) (opened : Bool) (taken : List Item)

@[simp] theorem ruleOutcome_via (q : Production) :
    ruleOutcome b p (.via q) stack seen = readOutcome b q stack seen := rfl

@[simp] theorem ruleOutcome_parts : ruleOutcome b p (.parts action parts) stack seen =
      matchOutcome b p action parts stack seen false [] := rfl

/-- All parts have been matched. -/
theorem matchOutcome_nil : matchOutcome (b + 1) p action [] stack seen opened taken =
      match (action.build taken.reverse).result with
      | .ok e => .found (e, stack)
      | .error _ => .halted := by
  rw [matchOutcome, matchParts, finish]
  cases (action.build taken.reverse).result <;> rfl

theorem matchOutcome_production (q : Production) (item : Item) :
    matchOutcome (b + 1) p action (.production q :: parts) (item :: stack) seen opened taken =
      (readOutcome b q (item :: stack) seen).next
        (fun f => matchOutcome b p action parts f.2 seen opened (.tree f.1 :: taken)) .refused := by
  rw [matchOutcome, matchParts, Traced.bind_eq_handle, outcome_handle]
  · rfl
  · intro _ _ _ _
    rfl
  · intro _ _
    rfl
  · intro f hf
    exact hf
  · simp

theorem matchOutcome_token (kind : Token.Kind) (t : Token) :
    matchOutcome (b + 1) p action (.token kind :: parts) (.token t :: stack) seen opened taken =
      if t.kind = kind then
        matchOutcome b p action parts stack [] (opened || kind.opens) (.token t :: taken)
      else .refused := by
  rw [matchOutcome, matchParts]
  split <;> rfl

theorem matchOutcome_tree (shape : Shape) (e : Expr) :
    matchOutcome (b + 1) p action (.tree shape :: parts) (.tree e :: stack) seen opened taken =
      if shape.fits e then matchOutcome b p action parts stack [] opened (.tree e :: taken)
      else .refused := by
  rw [matchOutcome, matchParts]
  split <;> rfl

end Match

/-! ### The budget and the rules under way -/

/-- The second outcome is the first, unless that is a halt. -/
def Outcome.Stays (o o' : Outcome) : Prop :=
  o ≠ .halted → o' = o

namespace Outcome.Stays

theorem rfl : o.Stays o :=
  fun _ => Eq.refl o

theorem halted (o : Outcome) : halted.Stays o :=
  fun h => absurd (Eq.refl _) h

theorem antisymm {o' : Outcome} (h : o.Stays o') (h' : o'.Stays o) : o = o' := by
  by_cases hne : o = .halted
  · by_contra hdiff
    exact hdiff (h' fun hne' => hdiff (hne.trans hne'.symm))
  · exact (h hne).symm

theorem next {o o' other other' : Outcome} {onFound onFound' : Found → Outcome} (h : o.Stays o')
    (hfound : ∀ f, (onFound f).Stays (onFound' f)) (hother : other.Stays other') :
    (o.next onFound other).Stays (o'.next onFound' other') := by
  cases o with
  | found f =>
    rw [h (by simp)]
    exact hfound f
  | refused =>
    rwa [h (by simp)]
  | halted => exact .halted _

end Outcome.Stays

/-- The productions that are read before anything is taken off the stack. -/
def leading : List Part → List Production
  | .production q :: parts => q :: leading parts
  | _ => []

def Rule.leading : Rule → List Production
  | .via q => [q]
  | .parts _ body => Grammar.leading body

/-- The two lists of rules under way are the same for the productions of an area, and no rule of the
area that may be tried begins with a production outside of it. -/
def SeenAlike (area : Production → Bool) (seen seen' : Seen) : Prop :=
  ∀ q ∈ Production.all, area q = true → ∀ x ∈ q.rules.zipIdx, ((q, x.2) ∈ seen ↔ (q, x.2) ∈ seen') ∧
      ((q, x.2) ∉ seen → ∀ r ∈ x.1.leading, area r = true)

instance (area : Production → Bool) (seen seen' : Seen) : Decidable (SeenAlike area seen seen') :=
  inferInstanceAs (Decidable (∀ q ∈ Production.all, _))

namespace SeenAlike

variable {area : Production → Bool}

theorem refl (seen : Seen) : SeenAlike (fun _ => true) seen seen :=
  fun _ _ _ _ _ => ⟨.rfl, fun _ _ _ => rfl⟩

theorem symm (h : SeenAlike area seen seen') : SeenAlike area seen' seen := by
  intro q hq harea x hx
  obtain ⟨hsame, hclosed⟩ := h q hq harea x hx
  exact ⟨hsame.symm, fun hsite => hclosed (mt hsame.mp hsite)⟩

theorem cons (h : SeenAlike area seen seen') (site : Production × Nat) :
    SeenAlike area (site :: seen) (site :: seen') := by
  intro q hq harea x hx
  obtain ⟨hsame, hclosed⟩ := h q hq harea x hx
  constructor
  · rw [mem_cons, mem_cons, hsame]
  · intro hsite
    exact hclosed fun hmem => hsite (mem_cons_of_mem _ hmem)

end SeenAlike

theorem mem_all (p : Production) : p ∈ Production.all := by
  cases p <;> decide

mutual

/-- **With any larger budget an attempt that does not halt comes to the same.** Of the rules under
way only those matter whose productions can be met before anything is taken off the stack. -/
theorem readOutcome_stays {area p seen seen'} (h : SeenAlike area seen seen') (hp : area p = true)
    (more b stack) : (readOutcome b p stack seen).Stays (readOutcome (more + b) p stack seen') := by
  match b, stack with
  | 0, _ | _ + 1, [] => exact .halted _
  | b + 1, item :: stack => exact extendOutcome_stays h hp more b none (cons_ne_nil _ _)

theorem extendOutcome_stays {area p stack seen seen'} (h : SeenAlike area seen seen')
    (hp : area p = true) (more b last) (hne : stack ≠ []) :
    (extendOutcome b p stack seen last).Stays (extendOutcome (more + b) p stack seen' last) := by
  match b with
  | 0 => exact .halted _
  | b + 1 =>
    rw [← Nat.add_assoc, extendOutcome_succ b p hne, extendOutcome_succ (more + b) p hne]
    refine .next (chooseOutcome_stays h hp more b stack none fun _ hx => hx) (fun f => ?_) .rfl
    exact extendOutcome_stays h hp more b (some f) (cons_ne_nil _ _)

theorem chooseOutcome_stays {area p seen seen' index rules} (h : SeenAlike area seen seen')
    (hp : area p = true) (more b stack best)
    (hrules : ∀ x ∈ rules.zipIdx index, x ∈ p.rules.zipIdx) :
    (chooseOutcome b p stack seen index rules best).Stays
      (chooseOutcome (more + b) p stack seen' index rules best) := by
  match b, rules with
  | 0, _ => exact .halted _
  | _ + 1, [] => exact .rfl
  | b + 1, rule :: rules =>
    rw [zipIdx_cons, forall_mem_cons] at hrules
    obtain ⟨hrule, htail⟩ := hrules
    obtain ⟨hsame, hclosed⟩ := h p (mem_all p) hp (rule, index) hrule
    have hnext best := chooseOutcome_stays h hp more b stack best htail
    rw [← Nat.add_assoc]
    by_cases hsite : (p, index) ∈ seen
    · rw [chooseOutcome_skip (h := hsite), chooseOutcome_skip (h := hsame.mp hsite)]
      exact hnext best
    · rw [chooseOutcome_try (h := hsite), chooseOutcome_try (h := mt hsame.mpr hsite)]
      refine .next ?_ (fun f => hnext _) (hnext best)
      cases rule with
      | via q =>
        exact readOutcome_stays (h.cons _) (hclosed hsite q (mem_singleton_self q)) more b stack
      | parts action parts => exact matchOutcome_stays (h.cons _) more b (hclosed hsite)

theorem matchOutcome_stays {area p action parts stack seen seen' opened taken}
    (h : SeenAlike area seen seen') (more b) (hparts : ∀ q ∈ leading parts, area q = true) :
    (matchOutcome b p action parts stack seen opened taken).Stays
      (matchOutcome (more + b) p action parts stack seen' opened taken) := by
  match b, parts, stack with
  | 0, _, _ => exact .halted _
  | _ + 1, [], _ | _ + 1, _ :: _, [] => exact .rfl
  | b + 1, .production q :: parts, item :: stack =>
    rw [leading, forall_mem_cons] at hparts
    rw [← Nat.add_assoc, matchOutcome_production, matchOutcome_production]
    refine .next (readOutcome_stays h hparts.1 more b _) (fun f => ?_) .rfl
    exact matchOutcome_stays h more b hparts.2
  | _ + 1, .token _ :: _, .tree _ :: _ | _ + 1, .tree _ :: _, .token _ :: _ => exact .rfl
  -- Whatever is taken off the stack, all rules may be tried again.
  | b + 1, .token kind :: parts, .token t :: stack =>
    rw [← Nat.add_assoc, matchOutcome_token, matchOutcome_token]
    split
    · exact matchOutcome_stays (.refl []) more b fun _ _ => rfl
    · exact .rfl
  | b + 1, .tree shape :: parts, .tree e :: stack =>
    rw [← Nat.add_assoc, matchOutcome_tree, matchOutcome_tree]
    split
    · exact matchOutcome_stays (.refl []) more b fun _ _ => rfl
    · exact .rfl

end

/-- **Which rules under way matter.** -/
theorem readOutcome_congr_seen (area : Production → Bool) (h : SeenAlike area seen seen')
    (hp : area p = true) (b : Nat) (stack : Stack) :
    readOutcome b p stack seen = readOutcome b p stack seen' := by
  have hstays := readOutcome_stays h hp 0 b stack
  have hback := readOutcome_stays h.symm hp 0 b stack
  rw [Nat.zero_add] at hstays hback
  exact hstays.antisymm hback

/-- **Outcomes do not depend on the budget**: two attempts that do not halt come to the same. -/
theorem readOutcome_unique (h : readOutcome b p stack seen ≠ .halted)
    (h' : readOutcome b' p stack seen ≠ .halted) :
    readOutcome b p stack seen = readOutcome b' p stack seen := by
  rcases Nat.le_total b b' with hle | hle
  · obtain ⟨more, rfl⟩ := Nat.exists_eq_add_of_le' hle
    exact (readOutcome_stays (.refl seen) rfl more b stack h).symm
  · obtain ⟨more, rfl⟩ := Nat.exists_eq_add_of_le' hle
    exact readOutcome_stays (.refl seen) rfl more b' stack h'

/-- What is found once is found with any budget that lasts. -/
theorem readOutcome_of_found (h : readOutcome b p stack seen = .found f) (b' : Nat) :
    readOutcome b' p stack seen = .halted ∨ readOutcome b' p stack seen = .found f := by
  by_cases hb' : readOutcome b' p stack seen = .halted
  · exact .inl hb'
  · exact .inr ((readOutcome_unique hb' (by simp [h])).trans h)

/-! ### What is left -/

/-- What is found leaves a suffix of the stack, with fewer tokens. -/
theorem picks_of_chooseOutcome
    (h : chooseOutcome b p stack seen 0 p.rules none = .found f) : Picks p stack f.1 f.2 := by
  unfold chooseOutcome outcome at h
  split at h
  · next f' hf =>
    cases h
    exact picks_of_choose (fun _ hr => hr) (by simp) hf
  all_goals cases h

theorem reads_of_readOutcome (h : readOutcome b p stack seen = .found f) :
    Reads p stack f.1 f.2 := by
  unfold readOutcome outcome at h
  split at h
  · next f' hf =>
    cases h
    exact reads_of_read hf
  all_goals cases h

/-- There is nothing to be found on a tree alone. -/
theorem chooseOutcome_lone (b : Nat) (p : Production) (e : Expr) (seen : Seen) :
    chooseOutcome b p [.tree e] seen 0 p.rules none = .refused ∨
      chooseOutcome b p [.tree e] seen 0 p.rules none = .halted := by
  cases h : chooseOutcome b p [.tree e] seen 0 p.rules none with
  | found f => exact absurd (picks_of_chooseOutcome h).suffix.2 (by simp [tokenCount])
  | refused => exact .inl rfl
  | halted => exact .inr rfl

/-- The reading halts, or what it finds leaves at most `n` items. -/
def Outcome.Within (n : Nat) (y : Outcome) : Prop :=
  y = .halted ∨ ∃ f, y = .found f ∧ f.2.length ≤ n

theorem Outcome.Within.mono {n m : Nat} (h : y.Within n) (hle : n ≤ m) : y.Within m :=
  h.imp_right fun ⟨f, hf, hn⟩ => ⟨f, hf, hn.trans hle⟩

theorem Outcome.Within.next {n m : Nat} {onFound : Found → Outcome}
    (h : y.Within n) (hnext : ∀ f : Found, f.2.length ≤ n → (onFound f).Within m) :
    (y.next onFound other).Within m := by
  rcases h with rfl | ⟨f, rfl, hle⟩
  · exact .inl rfl
  · exact hnext f hle

/-- A production that has built something does not leave more than it had left. -/
theorem extendOutcome_le (b : Nat) (p : Production) (seen : Seen) (f : Found) :
    (extendOutcome b p (.tree f.1 :: f.2) seen (some f)).Within f.2.length := by
  induction b generalizing f with
  | zero => exact .inl rfl
  | succ b ih =>
    rw [extendOutcome_succ b p (cons_ne_nil _ _)]
    cases h : chooseOutcome b p (.tree f.1 :: f.2) seen 0 p.rules none with
    | found f' =>
      obtain ⟨hsuffix, hcount⟩ := (picks_of_chooseOutcome h).suffix
      have hlen := length_lt_of_suffix hsuffix hcount
      rw [length_cons] at hlen
      exact (ih f').mono (by omega)
    | refused => exact .inr ⟨f, rfl, Nat.le_refl _⟩
    | halted => exact .inl rfl

end Parley.Grammar
