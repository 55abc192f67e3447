import Parley.Expr.Text
import Parley.Proofs.Grammar.Alike
import Parley.Proofs.Grammar.Phrase
import Parley.Proofs.Token.Literals

/-!
# Printing and reading

A statement that has been read and is shown can be read again, and gives the same tree.

Nothing is put in parentheses when a tree is shown, so this does not follow from a grammar of the
texts that are shown. It holds since a tree is shown with the tokens it was read from: in the same
order, and apart from texts and integers each written as before. The blanks and line feeds between
them are those that end a token whatever it is, and the tokens that differ are not told apart by any
rule, so that the reader takes the same steps again.
-/

namespace Parley.Grammar

open List Traced
open Parley.Text Parley.Token

variable {t : Token} {a b cs : List Char} {ts ts' : List Token} {c : Char} {sep text : String}
  {parts : List String} {e : Expr} {kind : Kind} {style : Style} {es : List Expr}
  {args : List (String × Expr)} {texts : Traced Fault (List String)} {n : Int} {name dot : Token}
  {body : Expr} {action : Action}

/-! ### Texts and their tokens -/

/-- The text is read as tokens that stand for the given ones, whatever comes after it, as long as
that ends a token. -/
def Spells (cs : List Char) (ts : List Token) : Prop :=
  ∃ ts', Forall₂ TokenAlike ts ts' ∧
    ∀ rest more, closes rest = true → Scans rest more → Scans (cs ++ rest) (ts' ++ more)

theorem spells_nil : Spells [] [] :=
  ⟨[], .nil, fun _ _ _ h => h⟩

theorem spells_of_legible {t' : Token} (halike : TokenAlike t t') (h : t'.Legible) :
    Spells t'.text.toList [t] :=
  ⟨[t'], .cons halike .nil, fun _ _ hrest hscans => h.scans hscans hrest⟩

theorem spells_name (ht : t.Readable) (hkind : t.kind = .name) : Spells t.text.toList [t] := by
  have hlegible := legible_name (ht.isName hkind)
  rw [← hkind] at hlegible
  exact spells_of_legible (.same t) hlegible

theorem Spells.blank (h : Spells cs ts) (hc : isBlank c = true) : Spells (c :: cs) ts := by
  obtain ⟨ts', halike, hscans⟩ := h
  exact ⟨ts', halike, fun rest more hrest hmore => (hscans rest more hrest hmore).blank hc⟩

theorem Spells.mark (h : Spells cs ts) (ht : t.Readable) (hc : mark? c = some t.kind) :
    Spells (c :: cs) (t :: ts) := by
  obtain ⟨ts', halike, hscans⟩ := h
  refine ⟨t :: ts', .cons (.same t) halike, fun rest more hrest hmore => ?_⟩
  rw [ht.eq_mark hc]
  exact (hscans rest more hrest hmore).mark hc

/-- One text after another, if the second ends the last token of the first. -/
theorem Spells.append (ha : Spells a ts) (hb : Spells b ts')
    (hcloses : ∀ rest, closes rest = true → closes (b ++ rest) = true) :
    Spells (a ++ b) (ts ++ ts') := by
  obtain ⟨tsa, halikea, hscansa⟩ := ha
  obtain ⟨tsb, halikeb, hscansb⟩ := hb
  refine ⟨tsa ++ tsb, rel_append halikea halikeb, fun rest more hrest hmore => ?_⟩
  rw [append_assoc, append_assoc]
  exact hscansa _ _ (hcloses rest hrest) (hscansb rest more hrest hmore)

/-- One text after another, if the second begins with a character that ends every token. -/
theorem Spells.followed (ha : Spells a ts) (hb : Spells (c :: b) ts') (hc : c ∈ closers) :
    Spells (a ++ c :: b) (ts ++ ts') :=
  ha.append hb fun rest _ => closes_of_mem hc (b ++ rest)

/-- The text of a list grows by a separator and one more part. -/
theorem Spells.joined (h : Spells (joinWith sep parts).toList ts) (hparts : parts ≠ [])
    (hsep : sep.toList = [c, ' ']) (hc : c ∈ closers) (ht : t.Readable)
    (hmark : mark? c = some t.kind) (htext : Spells text.toList ts') :
    Spells (joinWith sep (parts ++ [text])).toList (ts ++ t :: ts') := by
  have hlast : Spells (c :: ' ' :: text.toList) (t :: ts') :=
    (htext.blank (by decide)).mark ht hmark
  have hjoin : (joinWith sep (parts ++ [text])).toList
      = (joinWith sep parts).toList ++ c :: ' ' :: text.toList := by
    rw [joinWith, String.intercalate_append_of_ne_nil hparts (cons_ne_nil _ _),
      String.toList_append, String.toList_append, hsep,
      append_assoc]
    rfl
  rw [hjoin]
  exact h.followed hlast hc

theorem spells_joinWith_singleton (h : Spells text.toList ts) :
    Spells (joinWith sep [text]).toList ts := by
  rwa [joinWith]

/-! ### How trees are shown -/

theorem writeAll_append (hes : (Expr.writeAll style es).result = .ok parts)
    (he : (e.write style).result = .ok text) :
    (Expr.writeAll style (es ++ [e])).result = .ok (parts ++ [text]) := by
  induction es generalizing parts with
  | nil =>
    cases hes
    exact result_bind_of_ok he _
  | cons e' es ih =>
    obtain ⟨first, hfirst, hes⟩ := result_bind_eq_ok_iff.mp hes
    obtain ⟨others, hothers, hparts⟩ := result_bind_eq_ok_iff.mp hes
    cases hparts
    exact result_bind_eq_ok_iff.mpr ⟨first, hfirst,
      result_bind_eq_ok_iff.mpr ⟨_, ih hothers, rfl⟩⟩

theorem writeArgs_append {put : String → String → String} {k : String}
    (hargs : (Expr.writeArgs style put args).result = .ok parts)
    (he : (e.write style).result = .ok text) :
    (Expr.writeArgs style put (args ++ [(k, e)])).result = .ok (parts ++ [put k text]) := by
  induction args generalizing parts with
  | nil =>
    cases hargs
    exact result_bind_of_ok he _
  | cons arg args ih =>
    obtain ⟨first, hfirst, hargs⟩ := result_bind_eq_ok_iff.mp hargs
    obtain ⟨others, hothers, hparts⟩ := result_bind_eq_ok_iff.mp hargs
    cases hparts
    exact result_bind_eq_ok_iff.mpr ⟨first, hfirst,
      result_bind_eq_ok_iff.mpr ⟨_, ih hothers, rfl⟩⟩

/-- Apart from texts and objects, a tree is pasted as it is shown. -/
theorem write_pasted (he : e.reprintable = true) (hwhole : e.staysWhole = true) :
    e.write .pasted = e.write .shown := by
  cases e with
  | constant c =>
    cases c with
    | int n => rfl
    | text s => cases hwhole
    | _ => cases he
  | object ps => cases hwhole
  | _ => rfl

/-- The tree is written with the given tokens. -/
def Written (style : Style) (e : Expr) (ts : List Token) : Prop :=
  ∃ text, (e.write style).result = .ok text ∧ Spells text.toList ts

/-- The texts, joined by the separator, are read as the given tokens. -/
def Joins (sep : String) (texts : Traced Fault (List String)) (ts : List Token) : Prop :=
  ∃ parts, texts.result = .ok parts ∧ Spells (joinWith sep parts).toList ts

/-- There are such texts, and at least one. -/
def Lists (sep : String) (texts : Traced Fault (List String)) (ts : List Token) : Prop :=
  ∃ parts, texts.result = .ok parts ∧ parts ≠ [] ∧ Spells (joinWith sep parts).toList ts

theorem Lists.joins (h : Lists sep texts ts) : Joins sep texts ts := by
  obtain ⟨parts, hparts, -, hspells⟩ := h
  exact ⟨parts, hparts, hspells⟩

theorem joins_nil (h : texts.result = .ok []) : Joins sep texts [] :=
  ⟨[], h, spells_nil⟩

/-- The tree is shown with the given tokens. The lists that trees are put together from have no text
of their own; what counts there are the texts of the parts, and for arguments both the form in a
call and the form in an object. -/
def Reprints : Expr → List Token → Prop
  | .elementList es, ts => Lists ", " (Expr.writeAll .shown es) ts
  | .paramList params, ts => Lists ", " (pure params) ts
  | .arg k e, ts =>
    ∃ text, (e.write .shown).result = .ok text ∧
      ∀ put ∈ [Expr.argText, Expr.shownProperty], Spells (put k text).toList ts
  | .argList args, ts =>
    ∀ put ∈ [Expr.argText, Expr.shownProperty], Lists ", " (Expr.writeArgs .shown put args) ts
  | .block es, ts => Lists "; " (Expr.writeAll .shown es) ts
  | e, ts => ∃ text, (e.write .shown).result = .ok text ∧ Spells text.toList ts

theorem Reprints.shown (h : Reprints e ts) (he : e.reprintable = true) : Written .shown e ts := by
  cases e with
  | block es =>
    obtain ⟨parts, hparts, -, hspells⟩ := h
    exact ⟨_, result_bind_of_ok hparts _, hspells⟩
  | _ => first | exact h | cases he

theorem Written.pasted (h : Written .shown e ts) (he : e.reprintable = true)
    (hwhole : e.staysWhole = true) : Written .pasted e ts := by
  rwa [Written, write_pasted he hwhole]

theorem Lists.single (htexts : texts.result = .ok [text]) (h : Spells text.toList ts) :
    Lists sep texts ts :=
  ⟨[text], htexts, cons_ne_nil _ _, spells_joinWith_singleton h⟩

/-- One more part after a comma or a semicolon. -/
theorem Lists.next {texts texts' : Traced Fault (List String)} (h : Lists sep texts ts)
    (htexts : ∀ parts, texts.result = .ok parts → texts'.result = .ok (parts ++ [text]))
    (hsep : sep.toList = [c, ' ']) (hc : c ∈ closers) (ht : t.Readable)
    (hmark : mark? c = some t.kind) (htext : Spells text.toList ts') :
    Lists sep texts' (ts ++ t :: ts') := by
  obtain ⟨parts, hparts, hne, hspells⟩ := h
  exact ⟨parts ++ [text], htexts parts hparts, append_ne_nil_of_left_ne_nil hne _,
    hspells.joined hne hsep hc ht hmark htext⟩

/-- A list between brackets: on the left there is a blank, on the right whatever ends a token. -/
theorem Spells.enclosed {more : List Char} {d : Char} {left right : Token} (h : Spells cs ts)
    (hleft : left.Readable) (hc : mark? c = some left.kind) (hmore : Spells (d :: more) [right])
    (hd : d ∈ closers) :
    Spells (c :: ' ' :: (cs ++ d :: more)) (left :: (ts ++ [right])) :=
  ((h.followed hmore hd).blank (by decide)).mark hleft hc

/-- A token that comes from a text and is of the given kind. -/
structure OfKind (t : Token) (kind : Kind) : Prop where
  readable : t.Readable
  kind_eq : t.kind = kind

theorem OfKind.mark?_eq (h : OfKind t kind) (hc : mark? c = some kind) : mark? c = some t.kind := by
  rw [h.kind_eq, hc]

theorem OfKind.spells_name (h : OfKind t .name) : Spells t.text.toList [t] :=
  Grammar.spells_name h.readable h.kind_eq

theorem Spells.after (h : Spells cs ts) (ht : OfKind t kind) (hc : mark? c = some kind) :
    Spells (c :: cs) (t :: ts) :=
  h.mark ht.readable (ht.mark?_eq hc)

theorem Written.single (h : Written .shown e ts) : Lists sep (Expr.writeAll .shown [e]) ts := by
  obtain ⟨text, htext, hspells⟩ := h
  exact .single (result_bind_of_ok htext _) hspells

/-- One more tree after a comma or a semicolon. -/
theorem Lists.tree (h : Lists sep (Expr.writeAll .shown es) ts) (hsep : sep.toList = [c, ' '])
    (hc : c ∈ closers) (ht : OfKind t kind) (hmark : mark? c = some kind)
    (he : Written .shown e ts') :
    Lists sep (Expr.writeAll .shown (es ++ [e])) (ts ++ t :: ts') := by
  obtain ⟨text, htext, hspells⟩ := he
  exact h.next (fun parts hparts => writeAll_append hparts htext) hsep hc ht.readable
    (ht.mark?_eq hmark) hspells

/-! ### Trees of each kind -/

theorem exists_natCast_of_readInteger {digits : String} (h : readInteger digits = .ok n) :
    ∃ m : Nat, n = m := by
  rw [readInteger] at h
  split at h
  · exact ⟨_, (Except.ok.inj h).symm⟩
  · cases h

theorem reprints_constant {c : Constant} (hshown : c.shown = .ok text)
    (halike : TokenAlike t ⟨t.kind, text⟩) (hlegible : Legible ⟨t.kind, text⟩) :
    Reprints (.constant c) [t] := by
  have hwrite : ((Expr.constant c).write .shown).result = .ok text := by
    rwa [Expr.write]
  exact ⟨text, hwrite, spells_of_legible halike hlegible⟩

theorem reprints_text (hkind : t.kind = .text)
    (he : (Expr.constant (.text (unquote t.text))).reprintable = true) :
    Reprints (.constant (.text (unquote t.text))) [t] := by
  obtain ⟨kind, text⟩ := t
  subst hkind
  rw [Expr.reprintable] at he
  have hquotes : '"' ∉ (unquote text).toList ∧ '\\' ∉ (unquote text).toList := by
    simpa using he
  obtain ⟨hquote, hback⟩ := hquotes
  have hshown : Constant.shown (.text (unquote text)) = .ok (Constant.quotedText (unquote text)) :=
    rfl
  exact reprints_constant hshown (.text (unquote_quotedText hback).symm)
    (legible_quotedText hquote hback)

theorem reprints_integer (hkind : t.kind = .integer) (hn : readInteger t.text = .ok n)
    (he : (Expr.constant (.int n)).reprintable = true) :
    Reprints (.constant (.int n)) [t] := by
  obtain ⟨kind, text⟩ := t
  subst hkind
  obtain ⟨m, rfl⟩ := exists_natCast_of_readInteger hn
  have hm : m < Number.tenTo Number.digitLimit := by
    rwa [Expr.reprintable, decide_eq_true_eq] at he
  have hshown : Constant.shown (.int m) = .ok m.repr := by
    exact intText_natCast hm
  exact reprints_constant hshown (.integer (hn.trans (readInteger_repr hm).symm)) (legible_repr m)

theorem closes_point_name {name : List Char} (h : IsName name) (rest : List Char) :
    closes ('.' :: name ++ rest) = true := by
  obtain ⟨c, cs, rfl, hstart, -⟩ := h.form
  have hdigit : c.isDigit = false := by
    rw [Bool.eq_false_iff]
    intro hdigit
    rw [isNameStart_of_isDigit hdigit] at hstart
    cases hstart
  rw [cons_append, closes_point]
  simp [hdigit]

/-- A property or an argument after its name. -/
theorem spells_put {colon : Token} (hname : OfKind name .name) (hcolon : OfKind colon .colon)
    (h : Spells text.toList ts) :
    ∀ put ∈ [Expr.argText, Expr.shownProperty],
      Spells (put name.text text).toList (name :: colon :: ts) := by
  have hvalue : Spells (':' :: ' ' :: text.toList) (colon :: ts) :=
    (h.blank (by decide)).after hcolon rfl
  have harg : Spells (name.text.toList ++ ':' :: ' ' :: text.toList) (name :: colon :: ts) :=
    hname.spells_name.followed hvalue (by decide)
  have hline : Spells (name.text.toList ++ ':' :: ' ' :: text.toList ++ ['\n'])
      (name :: colon :: ts ++ []) :=
    harg.followed (spells_nil.blank (by decide)) (by decide)
  intro put hput
  simp only [mem_cons, not_mem_nil, or_false] at hput
  rcases hput with rfl | rfl
  · simpa [Expr.argText] using harg
  · simpa [Expr.shownProperty] using hline

section Trees

variable {left right : Token}

theorem written_lookup (hkind : kind = .name ∨ kind = .operator) (ht : OfKind t kind)
    (heq : t.text ≠ "=") : Written .shown (.lookup t.text) [t] := by
  refine ⟨t.text, rfl, ?_⟩
  rcases hkind with rfl | rfl
  · exact ht.spells_name
  · exact spells_of_legible (.same t) (ht.readable.legible_operator ht.kind_eq heq)

theorem Written.member {whole : Expr} (h : Written .pasted whole ts) (hdot : OfKind dot .dot)
    (hname : OfKind name .name) :
    Written .shown (.member whole name.text) (ts ++ [dot, name]) := by
  obtain ⟨text, htext, hspells⟩ := h
  refine ⟨_, result_bind_of_ok htext _, ?_⟩
  have hlast := hname.spells_name.after (c := '.') hdot rfl
  -- The point begins no fraction, since a name follows it.
  have hcloses : ∀ rest, closes rest = true → closes ('.' :: name.text.toList ++ rest) = true := by
    intro rest _
    exact closes_point_name (hname.readable.isName hname.kind_eq) rest
  simpa using hspells.append hlast hcloses

theorem Joins.array {es : List Expr} (h : Joins ", " (Expr.writeAll .shown es) ts)
    (hleft : OfKind left .leftBracket) (hright : OfKind right .rightBracket) :
    Written .shown (.array es) (left :: (ts ++ [right])) := by
  obtain ⟨parts, hparts, hspells⟩ := h
  refine ⟨_, result_bind_of_ok hparts _, ?_⟩
  have hend : Spells [' ', ']'] [right] := (spells_nil.after hright rfl).blank (by decide)
  have henclosed :=
    hspells.enclosed (c := '[') hleft.readable (hleft.mark?_eq rfl) hend (by decide)
  simpa [Expr.arrayText] using henclosed

theorem Written.closure {params : List String} {slash : Token}
    (hparams : Joins ", " (pure params) ts) (hbody : Written .shown body ts')
    (hslash : OfKind slash .backslash) (hdot : OfKind dot .dot) :
    Written .shown (.closure 0 params body) (slash :: (ts ++ dot :: ts')) := by
  obtain ⟨parts, hparts, hspells⟩ := hparams
  cases hparts
  obtain ⟨text, htext, hspells'⟩ := hbody
  refine ⟨_, result_bind_of_ok htext _, ?_⟩
  have hrest : Spells (' ' :: '.' :: ' ' :: text.toList) (dot :: ts') :=
    ((hspells'.blank (by decide)).after hdot rfl).blank (by decide)
  have hwhole := ((hspells.followed hrest (by decide)).blank (c := ' ') (by decide)).after
    (c := '\\') hslash rfl
  simpa [Expr.closureText] using hwhole

theorem Joins.object {ps : List (String × Expr)}
    (h : Joins ", " (Expr.writeArgs .shown Expr.shownProperty ps) ts)
    (hleft : OfKind left .leftBrace) (hright : OfKind right .rightBrace) :
    Written .shown (.object ps) (left :: (ts ++ [right])) := by
  obtain ⟨parts, hparts, hspells⟩ := h
  refine ⟨_, result_bind_of_ok hparts _, ?_⟩
  have hend := spells_nil.after (c := '\x7d') hright rfl
  have henclosed :=
    hspells.enclosed (c := '\x7b') hleft.readable (hleft.mark?_eq rfl) hend (by decide)
  simpa [Expr.objectText] using henclosed

theorem Written.call {f : Expr} (hf : Written .shown f ts)
    (hargs : Joins ", " (Expr.writeArgs .shown Expr.argText args) ts')
    (hleft : OfKind left .leftParen) (hright : OfKind right .rightParen) :
    Written .shown (.call f args) (ts ++ left :: (ts' ++ [right])) := by
  obtain ⟨text, htext, hspells⟩ := hf
  obtain ⟨parts, hparts, hspells'⟩ := hargs
  refine ⟨_, result_bind_eq_ok_iff.mpr ⟨text, htext, result_bind_of_ok hparts _⟩, ?_⟩
  have hend := spells_nil.after (c := ')') hright rfl
  have hlist := (hspells'.followed hend (by decide)).after (c := '(') hleft rfl
  simpa using hspells.followed hlist (by decide)

theorem Written.opCall {op e' : Expr} {ts'' : List Token} (hop : Written .shown op ts')
    (he : Written .shown e ts) (he' : Written .shown e' ts'') :
    Written .shown (.opCall op e e') (ts ++ (ts' ++ ts'')) := by
  obtain ⟨o, ho, hspells'⟩ := hop
  obtain ⟨l, hl, hspells⟩ := he
  obtain ⟨r, hr, hspells''⟩ := he'
  refine ⟨_, result_bind_eq_ok_iff.mpr ⟨l, hl, result_bind_eq_ok_iff.mpr ⟨o, ho,
    result_bind_of_ok hr _⟩⟩, ?_⟩
  have hlast := hspells'.followed (hspells''.blank (c := ' ') (by decide)) (by decide)
  simpa using hspells.followed (hlast.blank (by decide)) (by decide)

theorem Written.attempt {word : Token} (h : Written .pasted body ts)
    (hword : OfKind word .tryWord) : Written .shown (.attempt body) (word :: ts) := by
  obtain ⟨text, htext, hspells⟩ := h
  refine ⟨_, result_bind_of_ok htext _, ?_⟩
  have hlegible : Legible ⟨.tryWord, "try"⟩ := legible_keyword rfl rfl
  have htry := spells_of_legible (.same _) hlegible
  have hmem : ("try".toList, word.kind) ∈ keywords := by
    rw [hword.kind_eq]
    decide
  have heq : word = ⟨.tryWord, "try"⟩ := by
    rw [hword.readable.eq_keyword hmem, hword.kind_eq, String.ofList_toList]
  simpa [heq] using htry.followed (hspells.blank (by decide)) (by decide)

theorem Written.group {inner : Expr} (h : Written .shown inner ts) (hleft : OfKind left .leftParen)
    (hright : OfKind right .rightParen) :
    Written .shown (.group inner) (left :: (ts ++ [right])) := by
  obtain ⟨text, htext, hspells⟩ := h
  refine ⟨_, result_bind_of_ok htext _, ?_⟩
  have hend := spells_nil.after (c := ')') hright rfl
  simpa using (hspells.followed hend (by decide)).after hleft rfl

end Trees

/-! ### What a rule builds is shown with the tokens of its parts -/

/-- The tree is shown with the given tokens, if it is of a kind that can be read again. -/
def Faithful (e : Expr) (ts : List Token) : Prop :=
  e.reprintablePart = true → Reprints e ts

theorem Faithful.shown (h : Faithful e ts) (he : e.reprintable = true) : Written .shown e ts :=
  (h (Expr.reprintablePart_of_reprintable he)).shown he

/-- A property of the items that the parts of a rule take, and of the tokens of these. -/
def ForItems : List Part → (List Item → List Token → Prop) → Prop
  | [], P => P [] []
  | .token kind :: parts, P =>
    ∀ t, OfKind t kind → ForItems parts fun items ts => P (.token t :: items) (t :: ts)
  | .tree _ :: parts, P | .production _ :: parts, P =>
    ∀ e ts', Faithful e ts' → ForItems parts fun items ts => P (.tree e :: items) (ts' ++ ts)

/-- What the rule builds is shown with the tokens of its parts. -/
def Keeps (action : Action) (parts : List Part) : Prop :=
  ForItems parts fun items ts =>
    action.addsNew items = true → ∀ e, (action.build items).result = .ok e → Faithful e ts

theorem ForItems.intro {P : List Item → List Token → Prop} (h : ∀ items ts, P items ts)
    (parts : List Part) : ForItems parts P := by
  induction parts generalizing P with
  | nil => exact h [] []
  | cons part parts ih =>
    cases part with
    | token => exact fun t _ => ih fun items ts => h (.token t :: items) (t :: ts)
    | tree | production => exact fun e ts' _ => ih fun items ts => h (.tree e :: items) (ts' ++ ts)

section Rules

variable {shape : Shape} {q q' : Production}

theorem exists_of_build_integer (h : (Action.build .integer [.token t]).result = .ok e) :
    ∃ n, readInteger t.text = .ok n ∧ e = .constant (.int n) := by
  obtain ⟨n, hn, he⟩ := result_bind_eq_ok_iff.mp h
  exact ⟨n, hn, (Except.ok.inj he).symm⟩

@[simp] theorem keeps_text : Keeps .text [.token .text] := by
  intro t ht _ e hbuild he
  cases hbuild
  exact reprints_text ht.kind_eq he

@[simp] theorem keeps_integer : Keeps .integer [.token .integer] := by
  intro t ht _ e hbuild he
  obtain ⟨n, hn, rfl⟩ := exists_of_build_integer hbuild
  exact reprints_integer ht.kind_eq hn he

@[simp] theorem keeps_lookup (hkind : kind = .name ∨ kind = .operator) :
    Keeps .lookup [.token kind] := by
  intro t ht _ e hbuild he
  cases hbuild
  have heq : t.text ≠ "=" := by simpa [Expr.reprintablePart, Expr.reprintable] using he
  exact written_lookup hkind ht heq

@[simp] theorem keeps_member : Keeps .member [.tree shape, .token .dot, .token .name] := by
  intro whole _ hwhole dot hdot name hname _ e hbuild he
  cases hbuild
  simp only [Expr.reprintablePart, Expr.reprintable, Bool.and_eq_true] at he
  exact ((hwhole.shown he.1).pasted he.1 he.2).member hdot hname

@[simp] theorem keeps_nextElement :
    Keeps .elementList [.tree shape, .token .comma, .production q] := by
  intro list _ hlist comma hcomma e' _ he' _ e hbuild he
  cases list with
  | elementList es =>
    cases hbuild
    rw [Expr.reprintablePart, Expr.reprintableAll_append, Bool.and_eq_true] at he
    rw [append_nil]
    exact Lists.tree (hlist he.1) rfl (by decide) hcomma rfl (he'.shown he.2)
  | _ => cases hbuild

@[simp] theorem keeps_firstElement : Keeps .elementList [.production q] := by
  intro e' _ he' _ e hbuild he
  rw [append_nil]
  cases e' with
  | elementList es =>
    cases hbuild
    exact he' he
  | _ =>
    cases hbuild
    rw [Expr.reprintablePart, Expr.reprintableAll, Bool.and_eq_true] at he
    exact (he'.shown he.1).single

@[simp] theorem keeps_array :
    Keeps .array [.token .leftBracket, .production q, .token .rightBracket] := by
  intro left hleft list _ hlist right hright _ e hbuild he
  cases list with
  | elementList es =>
    cases hbuild
    exact (Lists.joins (hlist he)).array hleft hright
  | _ => cases hbuild

@[simp] theorem keeps_emptyArray : Keeps .array [.token .leftBracket, .token .rightBracket] := by
  intro left hleft right hright _ e hbuild he
  cases hbuild
  have hnone : Joins ", " (Expr.writeAll .shown []) [] := joins_nil rfl
  exact hnone.array hleft hright

@[simp] theorem keeps_nextParam : Keeps .paramList [.tree shape, .token .comma, .token .name] := by
  intro list _ hlist comma hcomma name hname _ e hbuild he
  cases list with
  | paramList params =>
    cases hbuild
    refine Lists.next (hlist rfl) (fun parts hparts => ?_) rfl (by decide) hcomma.readable
      (hcomma.mark?_eq rfl) hname.spells_name
    cases hparts
    rfl
  | _ => cases hbuild

@[simp] theorem keeps_firstParam : Keeps .paramList [.token .name] := by
  intro name hname _ e hbuild he
  cases hbuild
  exact .single rfl hname.spells_name

@[simp] theorem keeps_closure :
    Keeps .closure [.token .backslash, .production q, .token .dot, .production q'] := by
  intro slash hslash list _ hlist dot hdot body _ hbody _ e hbuild he
  cases list with
  | paramList params =>
    cases hbuild
    rw [append_nil]
    exact (hbody.shown he).closure (Lists.joins (hlist rfl)) hslash hdot
  | _ => cases hbuild

@[simp] theorem keeps_thunk : Keeps .closure [.token .backslash, .token .dot, .production q] := by
  intro slash hslash dot hdot body _ hbody _ e hbuild he
  cases hbuild
  rw [append_nil]
  exact (hbody.shown he).closure (joins_nil rfl) hslash hdot

@[simp] theorem keeps_arg : Keeps .arg [.token .name, .token .colon, .production q] := by
  intro name hname colon hcolon e' _ he' _ e hbuild he
  cases hbuild
  rw [append_nil]
  obtain ⟨text, htext, hspells⟩ := he'.shown he
  exact ⟨text, htext, spells_put hname hcolon hspells⟩

@[simp] theorem keeps_nextArg : Keeps .argList [.tree shape, .token .comma, .production q] := by
  intro list _ hlist comma hcomma a _ ha hnew e hbuild he
  cases list with
  | argList args =>
    cases a with
    | arg k e' =>
      cases hbuild
      have hk : k ∉ args.map Prod.fst := by simpa [Action.addsNew] using hnew
      rw [Expr.putArg_of_not_mem hk] at he ⊢
      rw [Expr.reprintablePart, Expr.reprintableNamed_append, Bool.and_eq_true] at he
      rw [append_nil]
      obtain ⟨text, htext, hspells⟩ := ha he.2
      intro put hput
      exact Lists.next (hlist he.1 put hput) (fun parts hparts => writeArgs_append hparts htext)
        rfl (by decide) hcomma.readable (hcomma.mark?_eq rfl) (hspells put hput)
    | _ => cases hbuild
  | _ => cases hbuild

@[simp] theorem keeps_firstArg : Keeps .argList [.production q] := by
  intro a _ ha _ e hbuild he
  cases a with
  | arg k e' =>
    cases hbuild
    rw [Expr.reprintablePart, Expr.reprintableNamed, Bool.and_eq_true] at he
    rw [append_nil]
    obtain ⟨text, htext, hspells⟩ := ha he.1
    intro put hput
    exact .single (result_bind_of_ok htext _) (hspells put hput)
  | _ => cases hbuild

@[simp] theorem keeps_object :
    Keeps .object [.token .leftBrace, .production q, .token .rightBrace] := by
  intro left hleft list _ hlist right hright _ e hbuild he
  cases list with
  | argList args =>
    cases hbuild
    exact (hlist he Expr.shownProperty (by simp)).joins.object hleft hright
  | _ => cases hbuild

@[simp] theorem keeps_emptyObject : Keeps .object [.token .leftBrace, .token .rightBrace] := by
  intro left hleft right hright _ e hbuild he
  cases hbuild
  have hnone : Joins ", " (Expr.writeArgs .shown Expr.shownProperty []) [] := joins_nil rfl
  exact hnone.object hleft hright

@[simp] theorem keeps_call :
    Keeps .call [.production q, .token .leftParen, .production q', .token .rightParen] := by
  intro f _ hf left hleft list _ hlist right hright _ e hbuild he
  cases list with
  | argList args =>
    cases hbuild
    simp only [Expr.reprintablePart, Expr.reprintable, Bool.and_eq_true] at he
    have hargs := (hlist he.2 Expr.argText (by simp)).joins
    exact (hf.shown he.1).call hargs hleft hright
  | _ => cases hbuild

@[simp] theorem keeps_emptyCall :
    Keeps .call [.production q, .token .leftParen, .token .rightParen] := by
  intro f _ hf left hleft right hright _ e hbuild he
  cases hbuild
  simp only [Expr.reprintablePart, Expr.reprintable, Bool.and_eq_true] at he
  have hnone : Joins ", " (Expr.writeArgs .shown Expr.argText []) [] := joins_nil rfl
  exact (hf.shown he.1).call hnone hleft hright

@[simp] theorem keeps_opCall : Keeps .opCall [.tree shape, .production q, .production q'] := by
  intro left _ hleft op _ hop right _ hright _ e hbuild he
  cases hbuild
  simp only [Expr.reprintablePart, Expr.reprintable, Bool.and_eq_true] at he
  obtain ⟨⟨heop, heleft⟩, heright⟩ := he
  rw [append_nil]
  exact (hop.shown heop).opCall (hleft.shown heleft) (hright.shown heright)

@[simp] theorem keeps_attempt : Keeps .attempt [.token .tryWord, .production q] := by
  intro word hword body _ hbody _ e hbuild he
  cases hbuild
  simp only [Expr.reprintablePart, Expr.reprintable, Bool.and_eq_true] at he
  rw [append_nil]
  exact ((hbody.shown he.1).pasted he.1 he.2).attempt hword

@[simp] theorem keeps_group :
    Keeps .group [.token .leftParen, .production q, .token .rightParen] := by
  intro left hleft inner _ hinner right hright _ e hbuild he
  cases hbuild
  exact (hinner.shown he).group hleft hright

@[simp] theorem keeps_block : Keeps .block [.tree shape, .token .semicolon, .production q] := by
  intro left _ hleft mark hmark right _ hright _ e hbuild he
  rw [append_nil]
  cases left with
  | block es =>
    cases hbuild
    rw [Expr.reprintablePart_block, Expr.reprintableAll_append, Bool.and_eq_true] at he
    exact Lists.tree (hleft (by rw [Expr.reprintablePart_block, he.1])) rfl (by decide) hmark rfl
      (hright.shown he.2)
  | _ =>
    cases hbuild
    rw [Expr.reprintablePart_block, Expr.reprintableAll, Expr.reprintableAll,
      Bool.and_eq_true, Bool.and_eq_true] at he
    exact (hleft.shown he.1).single.tree rfl (by decide) hmark rfl (hright.shown he.2.1)

/-- The other rules build trees of other kinds. -/
@[simp] theorem keeps_of_foreign (parts : List Part)
    (h : action ∈ [.decimal, .negate, .subscript, .ifThen, .define, .help, .exit, .importName,
      .assign]) : Keeps action parts := by
  refine ForItems.intro (fun items ts _ e hbuild he => ?_) parts
  have hother : e.reprintablePart = false := by
    unfold Action.build at hbuild
    split at hbuild
    all_goals first
      | exact absurd h (by decide)
      | cases hbuild <;> rfl
  rw [hother] at he
  cases he

/-- Every rule does. -/
theorem keeps_of_rule {p : Production} {parts : List Part}
    (hrule : Rule.parts action parts ∈ p.rules) : Keeps action parts := by
  cases p <;> simp only [Production.rules, mem_cons, not_mem_nil, or_false, reduceCtorEq] at hrule
  all_goals
    try casesm* _ ∨ _
    all_goals
      obtain ⟨rfl, rfl⟩ := hrule
      simp

end Rules

mutual

/-- A tree is shown with the leaves of each derivation of it. -/
theorem Derivation.faithful {p : Production} {e : Expr} :
    (d : Derivation p e) → (∀ t ∈ d.leaves, t.Readable) → d.distinctKeys = true →
      Faithful e d.leaves
  | .via _ child, hts, hkeys => by
    exact child.faithful hts hkeys
  | .parts hrule children hbuild, hts, hkeys => by
    rw [Derivation.distinctKeys, Bool.and_eq_true] at hkeys
    exact children.forItems hts hkeys.1 (keeps_of_rule hrule) hkeys.2 e hbuild

theorem Children.forItems {parts : List Part} {items : List Item}
    {P : List Item → List Token → Prop} : (children : Children parts items) →
      (∀ t ∈ children.leaves, t.Readable) → children.distinctKeys = true → ForItems parts P →
      P items children.leaves
  | .nil, _, _, h => h
  | .production child rest, hts, hkeys, h => by
    rw [Children.distinctKeys, Bool.and_eq_true] at hkeys
    obtain ⟨hchild, hrest⟩ := forall_mem_append.mp hts
    exact rest.forItems hrest hkeys.2 (h _ _ (child.faithful hchild hkeys.1))
  | .token t rest, hts, hkeys, h => by
    obtain ⟨ht, hrest⟩ := forall_mem_cons.mp hts
    exact rest.forItems hrest hkeys (h t ⟨ht, rfl⟩)
  | .tree _ child rest, hts, hkeys, h => by
    rw [Children.distinctKeys, Bool.and_eq_true] at hkeys
    obtain ⟨hchild, hrest⟩ := forall_mem_append.mp hts
    exact rest.forItems hrest hkeys.2 (h _ _ (child.faithful hchild hkeys.1))

end

/-- **Printing and reading agree.** A statement that is read from tokens of a text, is of the kinds
that can be shown and read again, and names no argument and no property twice, is read again from
the text that it is shown as. -/
theorem parse_shown {ts : List Token} {e : Expr} (hts : ∀ t ∈ ts, t.Readable)
    (hparse : (parse ts).result = .ok e) (he : e.reprintable = true)
    (hkeys : ∃ d : Derivation .statement e, d.leaves = ts ∧ d.distinctKeys = true) :
    ∃ text ts', e.shown.result = .ok text ∧ scan text = .ok ts' ∧ (parse ts').result = .ok e := by
  obtain ⟨d, rfl, hdistinct⟩ := hkeys
  obtain ⟨text, htext, ts', halike, hscans⟩ := (d.faithful hts hdistinct).shown he
  have hscan := hscans [] [] rfl scans_nil
  rw [append_nil, append_nil] at hscan
  refine ⟨text, ts', htext, scan_eq_ok_iff.mpr hscan, ?_⟩
  rw [← parse_alike halike, hparse]

/-! ### An example: `f(x: 007) + g` is shown as `f(x: 7) + g` -/

/-- The tokens of `f(x: 007) + g`. -/
def sumTokens : List Token :=
  [⟨.name, "f"⟩, ⟨.leftParen, "("⟩, ⟨.name, "x"⟩, ⟨.colon, ":"⟩, ⟨.integer, "007"⟩,
    ⟨.rightParen, ")"⟩, ⟨.operator, "+"⟩, ⟨.name, "g"⟩]

/-- The tree of `f(x: 007) + g`. -/
def sumTree : Expr :=
  .opCall (.lookup "+") (.call (.lookup "f") [("x", .constant (.int 7))]) (.lookup "g")

/-- A variable as an expression. -/
def variableDerivation (name : String) : Derivation .expression (.lookup name) :=
  .via (show Rule.via .variableName ∈ Production.rules .expression by decide)
    (.parts (show Rule.parts .lookup [.token .name] ∈ Production.rules .variableName by decide)
      (.token ⟨.name, name⟩ .nil) rfl)

/-- A derivation of `f(x: 007) + g`. -/
def sumDerivation : Derivation .statement sumTree :=
  let seven : Derivation .expression (.constant (.int 7)) :=
    .via (show Rule.via .constant ∈ Production.rules .expression by decide)
      (.parts (show Rule.parts .integer [.token .integer] ∈ Production.rules .constant by decide)
        (.token ⟨.integer, "007"⟩ .nil) rfl)
  let args : Derivation .argList (.argList [("x", .constant (.int 7))]) :=
    .parts (show Rule.parts .argList [.production .arg] ∈ Production.rules .argList by decide)
      (.production
        (.parts (show Rule.parts .arg [.token .name, .token .colon, .production .expression] ∈
            Production.rules .arg by decide)
          (.token ⟨.name, "x"⟩ (.token ⟨.colon, ":"⟩ (.production seven .nil))) rfl) .nil) rfl
  let call : Derivation .call (.call (.lookup "f") [("x", .constant (.int 7))]) :=
    .parts (show Rule.parts .call [.production .expression, .token .leftParen, .production .argList,
          .token .rightParen] ∈ Production.rules .call by decide)
      (.production (variableDerivation "f") (.token ⟨.leftParen, "("⟩ (.production args
        (.token ⟨.rightParen, ")"⟩ .nil)))) rfl
  let plus : Derivation .operator (.lookup "+") :=
    .parts (show Rule.parts .lookup [.token .operator] ∈ Production.rules .operator by decide)
      (.token ⟨.operator, "+"⟩ .nil) rfl
  .via (show Rule.via .expression ∈ Production.rules .statement by decide)
    (.via (show Rule.via .opcall ∈ Production.rules .expression by decide)
      (.parts (show Rule.parts .opCall
          [.tree .any, .production .operator, .production .expression] ∈
          Production.rules .opcall by decide)
        (.tree rfl call (.production plus (.production (variableDerivation "g") .nil))) rfl))

theorem readable_sumTokens : ∀ t ∈ sumTokens, t.Readable := by
  simp only [sumTokens, forall_mem_cons]
  refine ⟨?_, ?_, ?_, ?_, ?_, ?_, ?_, ?_, fun _ h => absurd h not_mem_nil⟩ <;>
    exact readable_of_lexeme rfl rfl (by decide) rfl

theorem reprintable_sumTree : sumTree.reprintable = true := by
  have hseven : 7 < Number.tenTo Number.digitLimit := (lt_tenTo_iff (by decide)).mpr (by decide)
  simp only [sumTree, Expr.reprintable, Expr.reprintableNamed, Bool.and_true, Bool.and_eq_true,
    decide_eq_true_eq]
  exact ⟨⟨by decide, by decide, hseven⟩, by decide⟩

theorem parse_shown_sum :
    (parse sumTokens).result = .ok sumTree ∧ sumTree.reprintable = true ∧
      ∃ text ts', sumTree.shown.result = .ok text ∧ scan text = .ok ts' ∧
        (parse ts').result = .ok sumTree :=
  ⟨rfl, reprintable_sumTree,
    parse_shown readable_sumTokens rfl reprintable_sumTree ⟨sumDerivation, rfl, rfl⟩⟩

end Parley.Grammar
