import Parley.Proofs.Grammar.Declarations
import Parley.Proofs.Grammar.Reprint
import Parley.Proofs.World.Output

/-!
# Saving a session

The file that a session is saved in: a comment, and for every variable a line that declares it. Data
are written in such a way that they can be read again (`exists_flat_of_saveable`): the text has the
tokens of the data, and no line feed in it, so that each declaration stays on its line.
-/

namespace Parley

open List Traced
open Grammar Token

variable {name text : String} {parts lines : List String} {tss : List (List Token)} {cs : List Char}
  {ts : List Token} {after : Bool}

/-! ### The texts of data -/

/-- The text is read as the given tokens, and it is a part of one line. -/
structure Writes (cs : List Char) (ts : List Token) : Prop where
  spells : Spells cs ts
  plain : ∀ c ∈ cs, c ≠ '\n' ∧ c ≠ '\r'

theorem writes_name (h : IsName name.toList) : Writes name.toList [⟨.name, name⟩] := by
  refine ⟨spells_of_legible (.same ⟨.name, name⟩) (legible_name h), fun c hc => ?_⟩
  have hblank : Text.isBlank c = false := (special_of_isNamePart (h.isNamePart c hc)).1
  constructor <;> rintro rfl <;> cases hblank

theorem writes_repr (n : Nat) : Writes n.repr.toList [⟨.integer, n.repr⟩] := by
  have hspells := spells_of_legible (TokenAlike.same ⟨.integer, n.repr⟩) (legible_repr n)
  refine ⟨hspells, fun c hc => ?_⟩
  rw [Nat.toList_repr] at hc
  have hdigit := Nat.isDigit_of_mem_toDigits (by decide) (by decide) hc
  constructor <;> rintro rfl <;> cases hdigit

theorem writes_quotedText {s : String} (hquote : '"' ∉ s.toList) (hback : '\\' ∉ s.toList)
    (hreturn : '\r' ∉ s.toList) :
    Writes (Constant.quotedText s).toList [⟨.text, Constant.quotedText s⟩] := by
  have hspells := spells_of_legible (TokenAlike.same ⟨.text, Constant.quotedText s⟩)
    (legible_quotedText hquote hback)
  refine ⟨hspells, ?_⟩
  -- Line feeds are written out, and there are no carriage returns.
  have hescaped : ∀ c ∈ escaped s.toList, c ≠ '\n' ∧ c ≠ '\r' := by
    intro c hc
    obtain ⟨d, hd, hc⟩ := mem_flatMap.mp hc
    split at hc
    · constructor <;> rintro rfl <;> simp at hc
    · next hline =>
      obtain rfl := mem_singleton.mp hc
      exact ⟨hline, fun heq => hreturn (heq ▸ hd)⟩
  rw [toList_quotedText, forall_mem_cons, forall_mem_append]
  exact ⟨by decide, hescaped, by decide⟩

section

variable (h : List.Forall₂ (fun part ts => Writes part.toList ts) parts tss)

include h

/-- A list of texts after the first one, each with a comma before it. -/
theorem writes_further :
    Writes (parts.flatMap fun part => ',' :: ' ' :: part.toList)
      (tss.flatMap (Token.comma :: ·)) := by
  induction h with
  | nil => exact ⟨spells_nil, by simp⟩
  | @cons part ts parts tss hpart hrest ih =>
    have hcloses : ∀ rest, closes rest = true →
        closes ((parts.flatMap fun part => ',' :: ' ' :: part.toList) ++ rest) = true := by
      intro rest hrest'
      cases hrest with
      | nil => exact hrest'
      | cons => exact closes_of_mem (by decide) _
    have hcomma : Token.comma.Readable := readable_mark rfl rfl
    constructor
    · exact ((hpart.spells.append ih.spells hcloses).blank (by decide)).mark hcomma rfl
    · have hplain := hpart.plain
      have hmore := ih.plain
      rw [flatMap_cons, forall_mem_append]
      exact ⟨by simpa using hplain, hmore⟩

/-- Texts with commas between them. -/
theorem writes_separated : Writes (Text.joinWith ", " parts).toList (Token.separated tss) := by
  cases h with
  | nil => exact ⟨spells_nil, by simp [Text.joinWith]⟩
  | @cons part ts parts tss hpart hrest =>
    have hfurther := writes_further hrest
    rw [Text.toList_joinWith_cons]
    refine ⟨hpart.spells.append hfurther.spells ?_,
      forall_mem_append.mpr ⟨hpart.plain, hfurther.plain⟩⟩
    intro rest hrest'
    cases hrest with
    | nil => exact hrest'
    | cons => exact closes_of_mem (by decide) _

end

/-- Texts between brackets. -/
theorem Writes.enclosed (h : Writes cs ts) {c d : Char} {l r : Token} (hl : l.text.toList = [c])
    (hc : mark? c = some l.kind) (hr : r.text.toList = [d]) (hd : mark? d = some r.kind) :
    Writes (c :: ' ' :: (cs ++ [' ', d])) (l :: (ts ++ [r])) := by
  have hend : Spells [' ', d] [r] := (spells_nil.mark (readable_mark hr hd) hd).blank (by decide)
  have hmark {c : Char} {kind : Kind} (hc : mark? c = some kind) : c ≠ '\n' ∧ c ≠ '\r' := by
    constructor <;> rintro rfl <;> cases hc
  refine ⟨h.spells.enclosed (readable_mark hl hc) hc hend (by decide), ?_⟩
  simp only [forall_mem_cons, forall_mem_append, not_mem_nil, false_imp_iff, implies_true, and_true]
  exact ⟨hmark hc, by decide, h.plain, by decide, hmark hd⟩

/-- A property. -/
theorem Writes.property (h : Writes text.toList ts) (hname : IsName name.toList) :
    Writes (name ++ ": " ++ text).toList (⟨.name, name⟩ :: ⟨.colon, ":"⟩ :: ts) := by
  have hwritten := writes_name hname
  have hcolon : Readable ⟨.colon, ":"⟩ := readable_mark rfl rfl
  have hvalue : Spells (':' :: ' ' :: text.toList) (⟨.colon, ":"⟩ :: ts) :=
    (h.spells.blank (by decide)).mark hcolon rfl
  have hplain := hwritten.plain
  have hmore := h.plain
  constructor
  · simpa using hwritten.spells.followed hvalue (by decide)
  · simp only [String.toList_append, forall_mem_append]
    exact ⟨⟨hplain, by decide⟩, hmore⟩

theorem exists_flatAll {es : List Shape}
    (h : ∀ e ∈ es, ∃ text, e.flat.result = .ok text ∧ Writes text.toList e.tokens) :
    ∃ parts, (Shape.flatAll es).result = .ok parts ∧
      List.Forall₂ (fun part ts => Writes part.toList ts) parts (Shape.tokensAll es) := by
  induction es with
  | nil => exact ⟨[], rfl, .nil⟩
  | cons e es ih =>
    obtain ⟨⟨text, htext, hwrites⟩, hes⟩ := forall_mem_cons.mp h
    obtain ⟨parts, hparts, hall⟩ := ih hes
    exact ⟨text :: parts, result_bind_eq_ok_iff.mpr ⟨text, htext,
      result_bind_of_ok hparts _⟩, .cons hwrites hall⟩

theorem exists_flatProperties {ps : List (String × Shape)} (hnames : ∀ p ∈ ps, IsName p.1.toList)
    (h : ∀ p ∈ ps, ∃ text, p.2.flat.result = .ok text ∧ Writes text.toList p.2.tokens) :
    ∃ parts, (Shape.flatProperties ps).result = .ok parts ∧
      List.Forall₂ (fun part ts => Writes part.toList ts) parts (Shape.tokensNamed ps) := by
  induction ps with
  | nil => exact ⟨[], rfl, .nil⟩
  | cons p ps ih =>
    obtain ⟨hname, hnames⟩ := forall_mem_cons.mp hnames
    obtain ⟨⟨text, htext, hwrites⟩, hps⟩ := forall_mem_cons.mp h
    obtain ⟨parts, hparts, hall⟩ := ih hnames hps
    exact ⟨(p.1 ++ ": " ++ text) :: parts, result_bind_eq_ok_iff.mpr ⟨text, htext,
      result_bind_of_ok hparts _⟩, .cons (hwrites.property hname) hall⟩

/-- **Data are saved** as a text with their tokens, on one line. -/
theorem exists_flat_of_saveable {s : Shape} (h : s.Saveable) :
    ∃ text, s.flat.result = .ok text ∧ Writes text.toList s.tokens := by
  induction h with
  | null =>
    have hname : IsName "null".toList := ⟨⟨'n', "ull".toList, rfl, rfl, by decide⟩, rfl⟩
    exact ⟨"null", rfl, writes_name hname⟩
  | bool b =>
    have htrue : IsName "true".toList := ⟨⟨'t', "rue".toList, rfl, rfl, by decide⟩, rfl⟩
    have hfalse : IsName "false".toList := ⟨⟨'f', "alse".toList, rfl, rfl, by decide⟩, rfl⟩
    cases b with
    | true => exact ⟨"true", rfl, writes_name htrue⟩
    | false => exact ⟨"false", rfl, writes_name hfalse⟩
  | int n hn =>
    have hflat : (Shape.leaf (.constant (.int n))).flat.result = Constant.intText n := by
      simp only [Shape.flat, Shape.writeLeaf, Constant.write, Constant.shown, result_ofExcept]
    exact ⟨n.repr, hflat.trans (intText_natCast hn), writes_repr n⟩
  | text s hquote hback hreturn =>
    exact ⟨Constant.quotedText s, rfl, writes_quotedText hquote hback hreturn⟩
  | array es _ ih =>
    obtain ⟨parts, hparts, hall⟩ := exists_flatAll ih
    refine ⟨_, result_bind_of_ok hparts _, ?_⟩
    have hwrites := (writes_separated hall).enclosed (l := ⟨.leftBracket, "["⟩)
      (r := ⟨.rightBracket, "]"⟩) (c := '[') (d := ']') rfl rfl rfl rfl
    simpa [Expr.arrayText, Shape.tokens] using hwrites
  | object ps hnames _ _ ih =>
    obtain ⟨parts, hparts, hall⟩ :=
      exists_flatProperties (fun p hp => scan_eq_name_iff.mp (hnames p hp)) ih
    refine ⟨_, result_bind_of_ok hparts _, ?_⟩
    have hwrites := (writes_separated hall).enclosed (l := ⟨.leftBrace, "\x7b"⟩)
      (r := ⟨.rightBrace, "\x7d"⟩) (c := '\x7b') (d := '\x7d') rfl rfl rfl rfl
    simpa [Shape.tokens] using hwrites

/-! ### Declarations on lines -/

/-- The tokens of the declaration of a variable. -/
def declarationTokens (p : String × Shape) : List Token :=
  ⟨.letWord, "let"⟩ :: ⟨.name, p.1⟩ :: ⟨.eq, "="⟩ :: p.2.tokens

/-- The line declares the variable with its data. -/
def Declares (line : String) (p : String × Shape) : Prop :=
  ∃ cs, line.toList = cs ++ ['\n'] ∧ Writes cs (declarationTokens p)

/-- An equals sign with a blank after it assigns. -/
theorem Grammar.Spells.assigned (h : Spells cs ts) :
    Spells ('=' :: ' ' :: cs) (⟨.eq, "="⟩ :: ts) := by
  obtain ⟨ts', halike, hscans⟩ := h
  refine ⟨⟨.eq, "="⟩ :: ts', .cons (.same _) halike, fun rest more hrest hmore => ?_⟩
  have hblank := (hscans rest more hrest hmore).blank (c := ' ') (by decide)
  have hlex : lexeme? '=' ([] ++ ' ' :: (cs ++ rest)) = some (.eq, 0) := rfl
  exact hblank.lexeme (by decide) (by decide) hlex

theorem declares_line {shape : Shape} (hname : IsName name.toList)
    (h : Writes text.toList shape.tokens) :
    Declares ("let " ++ name ++ " = " ++ text ++ "\n") (name, shape) := by
  have hlet : Legible ⟨.letWord, "let"⟩ := legible_keyword rfl rfl
  have hwritten := writes_name hname
  have hvalue := h.spells.assigned.blank (c := ' ') (by decide)
  have hnamed := (hwritten.spells.followed hvalue (by decide)).blank (c := ' ') (by decide)
  have hspells := (spells_of_legible (TokenAlike.same _) hlet).followed hnamed (by decide)
  refine ⟨("let " ++ name ++ " = " ++ text).toList, String.toList_append, ?_, ?_⟩
  · simpa [declarationTokens] using hspells
  · simp only [String.toList_append, forall_mem_append]
    exact ⟨⟨⟨by decide, hwritten.plain⟩, by decide⟩, h.plain⟩

/-! ### Files -/

namespace Disk

theorem lookup_putFile (full text : String) (files : List (String × String)) :
    (putFile full text files).lookup full = some text := by
  induction files with
  | nil => simp [putFile]
  | cons f files ih =>
    rw [putFile]
    split
    · next hf => simp [hf]
    · next hf => rw [lookup_cons, beq_false_of_ne (Ne.symm hf), ih]

theorem mem_putFile (full text : String) (files : List (String × String)) (name : String) :
    name ∈ (putFile full text files).map Prod.fst ↔ name = full ∨ name ∈ files.map Prod.fst := by
  induction files with
  | nil => simp [putFile]
  | cons f files ih =>
    rw [putFile]
    split
    · next hf => simp [hf]
    · next hf =>
      rw [map_cons, mem_cons, map_cons, mem_cons]
      tauto

theorem not_encloses_self (full : String) : encloses full full = false := by
  rw [encloses, Bool.eq_false_iff, ne_eq, Text.beginsWith_iff]
  rintro ⟨rest, hrest⟩
  have hlength := congrArg List.length hrest
  simp at hlength

/-- A file makes folders of the names that enclose its own. -/
theorem isFolder_put (d : Disk) (path text name : String) :
    (d.put path text).isFolder name = (d.isFolder name || encloses name (d.resolve path)) := by
  have hany : ((putFile (d.resolve path) text d.files).map Prod.fst).any (encloses name) =
      ((d.files.map Prod.fst).any (encloses name) || encloses name (d.resolve path)) := by
    rw [Bool.eq_iff_iff, Bool.or_eq_true, any_eq_true, any_eq_true]
    simp only [mem_putFile]
    constructor
    · rintro ⟨other, rfl | hother, h⟩
      · exact .inr h
      · exact .inl ⟨other, hother, h⟩
    · rintro (⟨other, hother, h⟩ | h)
      · exact ⟨other, .inr hother, h⟩
      · exact ⟨_, .inl rfl, h⟩
  simp only [isFolder, put, any_append, hany]
  cases encloses name (d.resolve path) <;> simp

theorem resolve_put (d : Disk) (path text other : String) :
    (d.put path text).resolve other = d.resolve other := rfl

theorem textOf?_put (d : Disk) (path text : String) :
    (d.put path text).textOf? (d.resolve path) = some text :=
  lookup_putFile _ _ _

theorem putFile_putFile (full a b : String) (files : List (String × String)) :
    putFile full b (putFile full a files) = putFile full b files := by
  induction files with
  | nil => simp [putFile]
  | cons f files ih =>
    by_cases hf : f.1 = full
    · simp [putFile, hf]
    · simp [putFile, hf, ih]

theorem put_put (d : Disk) (path a b : String) : (d.put path a).put path b = d.put path b :=
  congrArg (fun files => { d with files }) (putFile_putFile ..)

/-- The name is that of a file, which need not be there, in a folder. -/
def Writable (d : Disk) (path : String) : Prop :=
  path.isEmpty = false ∧ d.isFolder (d.resolve path) = false ∧
    d.isFolder (parent (d.resolve path)) = true

section Writable

variable {d d' : Disk} {path a b : String}

/-- When and how a file is written. -/
theorem write_eq_ok_iff : d.write after path a = .ok d' ↔ d.Writable path ∧
      d.put path ((if after then (d.textOf? (d.resolve path)).getD "" else "") ++ a) = d' := by
  rw [write, Writable]
  cases path.isEmpty with
  | true => simp
  | false =>
    cases d.isFolder (d.resolve path) with
    | true => simp
    | false =>
      cases d.isFolder (parent (d.resolve path)) with
      | true => simp [put]
      | false => simp

section

variable (h : d.Writable path)

include h

theorem Writable.put (a : String) : (d.put path a).Writable path := by
  obtain ⟨hpath, hfolder, hparent⟩ := h
  refine ⟨hpath, ?_, ?_⟩
  · rw [resolve_put, isFolder_put, hfolder, not_encloses_self]
    rfl
  · rw [resolve_put, isFolder_put, hparent]
    rfl

theorem Writable.write (a : String) : d.write false path a = .ok (d.put path a) :=
  write_eq_ok_iff.mpr ⟨h, by rw [if_neg Bool.false_ne_true, String.empty_append]⟩

/-- What is appended comes behind what has been written. -/
theorem Writable.append (a b : String) :
    (d.put path a).write true path b = .ok (d.put path (a ++ b)) := by
  refine write_eq_ok_iff.mpr ⟨h.put a, ?_⟩
  rw [put_put, resolve_put, textOf?_put]
  rfl

theorem Writable.read (a : String) :
    (d.put path a).read path = .ok (String.ofList (Text.unifyNewlines a.toList)) := by
  rw [Disk.read, h.1, resolve_put, textOf?_put]
  rfl

end

/-- A file that has been written can be written on and read. -/
theorem write_after_write (h : d.write false path a = .ok d') (b : String) :
    ∃ d'', d'.write true path b = .ok d'' ∧
      d''.read path = .ok (String.ofList (Text.unifyNewlines (a ++ b).toList)) := by
  obtain ⟨hwritable, rfl⟩ := write_eq_ok_iff.mp h
  exact ⟨_, hwritable.append a b, hwritable.read _⟩

end Writable

end Disk

theorem unifyNewlines_of_not_mem (h : '\r' ∉ cs) : Text.unifyNewlines cs = cs := by
  induction cs with
  | nil => rfl
  | cons c cs ih =>
    obtain ⟨hc, hcs⟩ := not_or.mp fun h' => h (mem_cons.mpr h')
    rw [Text.unifyNewlines, ih hcs]
    · rintro rest rfl
      exact absurd rfl hc
    · rintro rfl
      exact absurd rfl hc

/-! ### Lines -/

/-- The text is one line, with the line feed at its end. -/
def IsLine (line : String) : Prop :=
  ∃ cs, line.toList = cs ++ ['\n'] ∧ ∀ c ∈ cs, c ≠ '\n' ∧ c ≠ '\r'

theorem Declares.isLine {line : String} {p : String × Shape} (h : Declares line p) :
    IsLine line := by
  obtain ⟨cs, hcs, hwrites⟩ := h
  exact ⟨cs, hcs, hwrites.plain⟩

theorem linesOf_append (h : ∀ c ∈ cs, c ≠ '\n') (rest : List Char) :
    Text.linesOf (cs ++ '\n' :: rest) = (cs ++ ['\n']) :: Text.linesOf rest := by
  induction cs with
  | nil => simp [Text.linesOf]
  | cons c cs ih =>
    obtain ⟨hc, hcs⟩ := forall_mem_cons.mp h
    rw [cons_append, Text.linesOf, if_neg hc, ih hcs]
    rfl

/-- Lines that are put together can be told apart again. -/
theorem linesOf_join (h : ∀ line ∈ lines, IsLine line) :
    (Text.linesOf (String.join lines).toList).map String.ofList = lines := by
  induction lines with
  | nil => rfl
  | cons line lines ih =>
    obtain ⟨⟨cs, hcs, hplain⟩, hlines⟩ := forall_mem_cons.mp h
    have hsplit : (String.join (line :: lines)).toList =
        cs ++ '\n' :: (String.join lines).toList := by
      rw [String.join_cons, String.toList_append, hcs, append_assoc]
      rfl
    rw [hsplit, linesOf_append fun c hc => (hplain c hc).1, map_cons, ih hlines, ← hcs,
      String.ofList_toList]

theorem return_not_mem_join (h : ∀ line ∈ lines, IsLine line) :
    '\r' ∉ (String.join lines).toList := by
  induction lines with
  | nil => simp
  | cons line lines ih =>
    obtain ⟨⟨cs, hcs, hplain⟩, hlines⟩ := forall_mem_cons.mp h
    rw [String.join_cons, String.toList_append, hcs]
    simp only [mem_append, not_or]
    exact ⟨⟨fun hmem => (hplain _ hmem).2 rfl, by decide⟩, ih hlines⟩

/-! ### What is saved -/

/-- The variables of a scope that are saved, with their data. -/
def Store.savedVariables (s : Store) (k : Nat) : List (String × Shape) :=
  ((s.scopeAt k).names.filter fun p => Help.isNameText p.1).map
    fun p => (p.1, s.shape (s.cellValue p.2))

/-- The scope can be saved: it knows no services, and every variable with a proper name has one that
is read as a name, and holds data. -/
structure Store.SavedAsData (s : Store) (k : Nat) : Prop where
  services : s.servicesOf k = []
  names : ∀ p ∈ s.savedVariables k, Token.scan p.1 = .ok [⟨.name, p.1⟩]
  data : ∀ p ∈ s.savedVariables k, p.2.Saveable

namespace Act

theorem flattenable_of_saveable {s : Store} {v : Value} (h : (s.shape v).Saveable) :
    flattenable v = true := by
  by_contra hv
  have hleaf : s.shape v = .leaf v := by
    refine s.shape_of_leaf ?_ ?_ <;> rintro _ rfl <;> exact hv rfl
  rw [hleaf] at h
  cases h <;> exact hv rfl

/-- The lines that are written for variables. -/
theorem perform_definitionLines (w : World) {names : List (String × Nat)}
    (hnames : ∀ p ∈ names, Help.isNameText p.1 = true →
      IsName p.1.toList ∧ (w.store.shape (w.store.cellValue p.2)).Saveable) :
    ∃ lines w', w.perform (definitionLines names) = (.ok (lines, none), w') ∧ w.Said w' ∧
      List.Forall₂ Declares lines ((names.filter fun p => Help.isNameText p.1).map
        fun p => (p.1, w.store.shape (w.store.cellValue p.2))) := by
  induction names generalizing w with
  | nil => exact ⟨[], w, rfl, .refl w, .nil⟩
  | cons p names ih =>
    obtain ⟨hp, hrest⟩ := forall_mem_cons.mp hnames
    rw [definitionLines, perform_deref_bind]
    by_cases hname : Help.isNameText p.1 = true
    · obtain ⟨hisName, hsaveable⟩ := hp hname
      obtain ⟨text, htext, hwrites⟩ := exists_flat_of_saveable hsaveable
      -- The notes are shown first, and leave the store alone.
      obtain ⟨w₁, hw₁, hsaid₁⟩ := prints_traceAll
        (w.store.shape (w.store.cellValue p.2)).flat.notes w
      obtain ⟨lines, w₂, hw₂, hsaid₂, hlines⟩ := ih w₁ (by rwa [hsaid₁.store])
      rw [hsaid₁.store] at hlines
      refine ⟨("let " ++ p.1 ++ " = " ++ text ++ "\n") :: lines, w₂, ?_, hsaid₁.trans hsaid₂, ?_⟩
      · have hderef : w.store.deref (.cell p.2) = w.store.cellValue p.2 := rfl
        have hkept : (Help.isNameText p.1 && flattenable (w.store.cellValue p.2)) = true := by
          rw [hname, flattenable_of_saveable hsaveable]
          rfl
        rw [hderef, if_pos hkept, perform_getStore_bind]
        rw [perform_bind_ok hw₁, htext]
        exact perform_bind_ok hw₂ _
      · rw [filter_cons_of_pos (p := fun q : String × Nat => Help.isNameText q.1) hname]
        exact .cons (declares_line hisName hwrites) hlines
    · obtain ⟨lines, w₁, hw₁, hsaid₁, hlines⟩ := ih w hrest
      refine ⟨lines, w₁, ?_, hsaid₁, ?_⟩
      · rwa [if_neg (by simp [hname])]
      · rwa [filter_cons_of_neg (p := fun q : String × Nat => Help.isNameText q.1) hname]

/-- Begins to save a session: makes its file with nothing but the first line, and gives the name of
the file. -/
def beginSession (scope : Nat) (args : Args) : Act String := do
  let path ← sessionTarget scope args
  writeFile false path sessionHead
  return path

theorem perform_writeFile_eq_ok_iff {w w' : World} {path : String} :
    w.perform (writeFile after path text) = (.ok (), w') ↔
      ∃ disk, w.disk.write after path text = .ok disk ∧ { w with disk } = w' := by
  rw [writeFile, perform_get_bind]
  cases w.disk.write after path text with
  | ok disk =>
    show (Except.ok (), { w with disk }) = (Except.ok (), w') ↔ _
    simp
  | error f =>
    show (Except.error f, w) = (Except.ok (), w') ↔ _
    simp

theorem isLine_sessionHead : IsLine sessionHead :=
  ⟨"# Maybe don't edit this file ;-)".toList, rfl, by decide⟩

/-- **What is in the file** after a session has been saved: the first line, and a declaration for
every variable. -/
theorem perform_saveSession {w w₁ : World} {scope : Nat} {args : Args} {path : String}
    (hbegin : w.perform (beginSession scope args) = (.ok path, w₁))
    (h : w₁.store.SavedAsData (sessionScope w₁.store scope scope)) :
    ∃ w₂ text lines, w.perform (saveSession scope args) = (.ok (), w₂) ∧ w₂.store = w₁.store ∧
      w₂.disk.read path = .ok text ∧
      (Text.linesOf text.toList).map String.ofList = sessionHead :: lines ∧
      Forall₂ Declares lines
        (w₁.store.savedVariables (sessionScope w₁.store scope scope)) := by
  obtain ⟨path', w₀, htarget, hbegin⟩ := perform_bind_eq_ok_iff.mp hbegin
  obtain ⟨⟨⟩, w', hwrite, hpure⟩ := perform_bind_eq_ok_iff.mp hbegin
  obtain ⟨rfl, rfl⟩ : path' = path ∧ w' = w₁ := by simpa using hpure
  obtain ⟨disk, hdisk, rfl⟩ := perform_writeFile_eq_ok_iff.mp hwrite
  -- The scope of the session is the same before and after the first line is written.
  generalize hglobal : sessionScope w₀.store scope scope = global at h ⊢
  have hnames : ∀ p ∈ (w₀.store.scopeAt global).names, Help.isNameText p.1 = true →
      IsName p.1.toList ∧ (w₀.store.shape (w₀.store.cellValue p.2)).Saveable := by
    intro p hp hname
    have hmem : (p.1, w₀.store.shape (w₀.store.cellValue p.2)) ∈ w₀.store.savedVariables global :=
      mem_map_of_mem (mem_filter.mpr ⟨hp, hname⟩)
    exact ⟨scan_eq_name_iff.mp (h.names _ hmem), h.data _ hmem⟩
  obtain ⟨lines, w₂, hw₂, hsaid, hlines⟩ := perform_definitionLines { w₀ with disk } hnames
  obtain ⟨disk', hdisk', hread⟩ := Disk.write_after_write hdisk (String.join lines)
  have hall : ∀ line ∈ sessionHead :: lines, IsLine line := by
    refine forall_mem_cons.mpr ⟨isLine_sessionHead, fun line hline => ?_⟩
    obtain ⟨i, hi, rfl⟩ := mem_iff_getElem.mp hline
    exact (hlines.get hi (hlines.length_eq ▸ hi)).isLine
  have hjoin : sessionHead ++ String.join lines = String.join (sessionHead :: lines) :=
    String.join_cons.symm
  rw [hjoin, unifyNewlines_of_not_mem (return_not_mem_join hall), String.ofList_toList] at hread
  refine ⟨{ w₂ with disk := disk' }, _, lines, ?_, hsaid.store, hread, linesOf_join hall, hlines⟩
  have hwrite' : w₂.perform (writeFile true path' (String.join lines)) =
      (.ok (), { w₂ with disk := disk' }) :=
    perform_writeFile_eq_ok_iff.mpr ⟨disk', by rw [hsaid.disk]; exact hdisk', rfl⟩
  have hservices : ({ w₀ with disk } : World).store.servicesOf global = [] := h.services
  rw [saveSession, perform_bind_ok htarget, perform_getStore_bind, hglobal,
    perform_bind_ok hwrite, perform_getStore_bind,
    hservices, perform_bind_ok (perform_scopeAt _ _), perform_bind_ok hw₂]
  exact perform_bind_ok hwrite' _

end Act

end Parley
