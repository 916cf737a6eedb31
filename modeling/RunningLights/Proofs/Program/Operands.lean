import RunningLights.Proofs.Expr.Parsing
import RunningLights.Proofs.Expr.Spelling
import RunningLights.Proofs.Program.Scanning

/-!
# The texts of operands

The text of an expression has nothing in it that a scanner of program text stops at:

* `Tame` — nested and quiet text;
* `Grammar.Level.tame` — the text of an expression is tame, and no comma stands outside of its brackets;
* `Operand.Printed` — an operand that is an expression, written in one line.
-/

namespace RunningLights

open Procedure Text

/-! ### Tame text -/

namespace Procedure

/-- Nested text in which no comment and no quote starts. -/
structure Tame (p : Char → Prop) (cs : List Char) : Prop where
  nested : Nested p cs
  quiet : isQuiet cs

/-- The characters that scanners of program text look at. -/
def marks : List Char := ['(', ')', '[', ']', '\x7b', '\x7d', ',', ';', '"', '\'', '#', '/']

/-- The marks that stand between operands or end a statement. -/
def separators : List Char := [',', ';', '\x7b', '\x7d']

/-- The characters that end an operand in a line, outside of brackets. -/
def breaks : List Char := '\n' :: separators

/-- The characters that end a statement, outside of brackets. -/
def stops : List Char := ['\n', ';', '\x7b', '\x7d']

/-- A class of characters to which none of the given ones belongs. -/
theorem not_mem_of_class {p : Char → Bool} {ds : List Char} (h : ∀ d ∈ ds, p d = false) {c : Char}
    (hc : p c = true) : c ∉ ds := by
  intro hm
  rw [h c hm] at hc
  cases hc

namespace Tame

variable {p q : Char → Prop} {cs ds : List Char}

theorem append (h : Tame p cs) (h' : Tame p ds) : Tame p (cs ++ ds) :=
  ⟨h.nested.append h'.nested, isQuiet_append h.quiet h'.quiet⟩

theorem mono (h : Tame p cs) (hpq : ∀ c ∈ cs, p c → q c) : Tame q cs := ⟨h.nested.mono hpq, h.quiet⟩

theorem of_forall (h : ∀ c ∈ cs, c ∉ marks) (hp : ∀ c ∈ cs, p c) : Tame p cs := by
  have hmarks {ds : List Char} (hd : ∀ d ∈ ds, d ∈ marks) : ∀ c ∈ cs, c ∉ ds := fun c hc hm => h c hc (hd c hm)
  exact ⟨.of_forall fun c hc => ⟨bracketStep_eq_zero (hmarks (by decide) c hc), hp c hc⟩,
    isQuiet_of_forall (hmarks (by decide))⟩

theorem stops (h : Tame (· ∉ breaks) cs) : Tame (· ∉ stops) cs :=
  h.mono fun c _ hc hs => hc ((by decide : ∀ d ∈ Procedure.stops, d ∈ breaks) c hs)

theorem of_marks (h : ∀ c ∈ cs, c ∉ marks) : Tame (· ∉ separators) cs :=
  .of_forall h fun c hc hs => h c hc ((by decide : ∀ d ∈ separators, d ∈ marks) c hs)

theorem parens (h : Tame (fun _ => True) cs) : Tame p ('(' :: cs ++ [')']) :=
  ⟨.parens h.nested .nil, isQuiet_append (isQuiet_cons.2 ⟨by decide, nofun, h.quiet⟩) rfl⟩

theorem brackets (h : Tame (fun _ => True) cs) : Tame p ('[' :: cs ++ [']']) :=
  ⟨.brackets h.nested .nil, isQuiet_append (isQuiet_cons.2 ⟨by decide, nofun, h.quiet⟩) rfl⟩

/-- A division by a text that is tame itself. -/
theorem slash (h : Tame (· ∉ separators) cs) (hd : divides cs) : Tame (· ∉ separators) ('/' :: cs) :=
  ⟨.char rfl (by decide) h.nested, isQuiet_slash h.quiet hd⟩

end Tame

theorem tame_of_blank {cs : List Char} (h : ∀ c ∈ cs, isBlank c = true) : Tame (· ∉ separators) cs :=
  .of_marks fun c hc => not_mem_of_class (by decide) (h c hc)

theorem tame_of_word {cs : List Char} (h : Token.Word cs) : Tame (· ∉ separators) cs :=
  .of_marks fun c hc =>
    not_mem_of_class (p := fun c => Token.isNameChar c || ['.', '-', '>'].contains c) (by decide) (h.chars c hc)

end Procedure

variable {l : Nat} {t : Token} {ts us : List Token} {op : BinaryOp} {cs : List Char} {e : Expr} {es : List Expr}

/-! ### The texts of tokens -/

theorem Operator.written (h : Operator l t op) (hw : t.Written cs) : cs = ['/'] ∨ ∀ c ∈ cs, c ∉ marks := by
  cases h <;> cases hw
  case div => exact .inl rfl
  all_goals exact .inr (by decide)

/-- A character that does not go on with the sign of an assignment, of a comparison or of a comment. -/
def Procedure.isHead (c : Char) : Bool := !isBlank c && !(['=', '*', '/'].contains c)

theorem isHead_of_word {cs : List Char} (h : Token.Word cs) : ∃ c ds, cs = c :: ds ∧ isHead c = true := by
  obtain ⟨⟨c, hc, hs⟩, -⟩ := h
  cases cs with
  | nil => cases hc
  | cons d ds =>
    cases hc
    have hm : c ∉ ['=', '*', '/'] :=
      not_mem_of_class (p := fun c => Token.isNumberChar c || Token.isNameStart c) (by decide) hs
    have hb : isBlank c = false := by
      simp only [Token.isNumberChar, Bool.or_eq_true, beq_iff_eq, or_assoc] at hs
      rcases hs with hs | rfl | hs
      · exact Token.isBlank_of_isNameChar (by simp [Token.isNameChar, Char.isAlphanum, hs])
      · decide
      · exact Token.isBlank_of_isNameChar (Token.isNameChar_of_isNameStart hs)
    exact ⟨c, ds, rfl, by simpa [isHead, hb] using hm⟩

namespace Grammar

theorem Starts.written (h : Starts t) (hw : t.Written cs) : ∃ c ds, cs = c :: ds ∧ isHead c = true := by
  cases h with
  | opens h => cases h <;> cases hw <;> first | exact isHead_of_word ‹_› | exact ⟨_, _, rfl, by decide⟩
  | _ =>
    cases hw
    exact ⟨_, _, rfl, by decide⟩

/-- The text of an expression behind the blanks that it starts with. -/
theorem Starts.spelled (h : Starts t) (hs : Token.Spelled (t :: ts) cs) :
    ∃ c ds, trimLeft cs = c :: ds ∧ isHead c = true := by
  cases hs with
  | @cons blanks _ sp _ rest hb hw _ =>
    obtain ⟨c, ds, rfl, hc⟩ := h.written hw
    refine ⟨c, ds ++ rest, ?_, hc⟩
    rw [trimLeft, List.append_assoc, List.dropWhile_append_of_pos hb]
    simp only [isHead, Bool.and_eq_true, Bool.not_eq_true'] at hc
    simp [hc.1]

theorem Starts.divides (h : Starts t) (hs : Token.Spelled (t :: ts) cs) : divides cs := by
  obtain ⟨c, ds, hcs, hc⟩ := h.spelled hs
  cases cs with
  | nil => cases hcs
  | cons d cs =>
    rw [trimLeft, List.dropWhile_cons] at hcs
    split at hcs
    · rename_i hd
      have hd := not_mem_of_class (by decide : ∀ d ∈ ['*', '/'], isBlank d = false) hd
      simp [Procedure.divides] at hd ⊢
      simp [hd]
    · cases hcs
      simp [Procedure.divides, isHead] at hc ⊢
      simp [hc]

/-! ### The texts of expressions -/

structure TameTokens (p : Char → Prop) (ts : List Token) : Prop where
  text {cs : List Char} : Token.Spelled ts cs → Tame p cs

namespace TameTokens

variable {p q : Char → Prop}

theorem mono (h : TameTokens p ts) (hpq : ∀ c, p c → q c) : TameTokens q ts :=
  ⟨fun hs => (h.text hs).mono fun c _ => hpq c⟩

theorem nil : TameTokens (· ∉ separators) [] where
  text hs := by
    cases hs with
    | nil hb => exact tame_of_blank hb

theorem append (h : TameTokens p ts) (h' : TameTokens p us) : TameTokens p (ts ++ us) where
  text hs := by
    obtain ⟨cs₁, cs₂, rfl, h₁, h₂⟩ := hs.of_append
    exact (h.text h₁).append (h'.text h₂)

theorem cons (ht : ∀ {cs}, t.Written cs → Tame (· ∉ separators) cs) (h : TameTokens (· ∉ separators) ts) :
    TameTokens (· ∉ separators) (t :: ts) where
  text hs := by
    cases hs with
    | cons hb hw hrest => exact ((tame_of_blank hb).append (ht hw)).append (h.text hrest)

theorem enclosed {l r : Token} {a b : Char} (hl : ∀ {cs}, l.Written cs → cs = [a])
    (hr : ∀ {cs}, r.Written cs → cs = [b])
    (henclose : ∀ {cs}, Tame (fun _ => True) cs → Tame (· ∉ separators) (a :: cs ++ [b]))
    (h : TameTokens (fun _ => True) ts) : TameTokens (· ∉ separators) (l :: ts ++ [r]) where
  text hs := by
    cases hs with
    | cons hb hw hrest =>
      obtain rfl := hl hw
      obtain ⟨cs₁, cs₂, rfl, h₁, h₂⟩ := hrest.of_append
      cases h₂ with
      | cons hb' hw' hrest' =>
        obtain rfl := hr hw'
        have hinner := (h.text h₁).append ((tame_of_blank hb').mono fun _ _ _ => trivial)
        simpa using (tame_of_blank hb).append ((henclose hinner).append (nil.text hrest'))

theorem parens (h : TameTokens (fun _ => True) ts) : TameTokens (· ∉ separators) (.lparen :: ts ++ [.rparen]) :=
  h.enclosed (fun hw => by cases hw; rfl) (fun hw => by cases hw; rfl) Tame.parens

theorem brackets (h : TameTokens (fun _ => True) ts) :
    TameTokens (· ∉ separators) (.lbracket :: ts ++ [.rbracket]) :=
  h.enclosed (fun hw => by cases hw; rfl) (fun hw => by cases hw; rfl) Tame.brackets

theorem comma (h : TameTokens (fun _ => True) ts) (h' : TameTokens (fun _ => True) us) :
    TameTokens (fun _ => True) (ts ++ .comma :: us) := by
  refine h.append ⟨fun hs => ?_⟩
  cases hs with
  | cons hb hw hrest =>
    cases hw
    have hb := (tame_of_blank hb).mono (q := fun _ => True) fun _ _ _ => trivial
    exact (hb.append ⟨.char rfl trivial .nil, rfl⟩).append (h'.text hrest)

/-- An operator.  A division is no comment, because an expression follows. -/
theorem binary (h : TameTokens (· ∉ separators) ts) (ho : Operator l t op) (hs : ∃ t' us', us = t' :: us' ∧ Starts t')
    (h' : TameTokens (· ∉ separators) us) : TameTokens (· ∉ separators) (ts ++ t :: us) := by
  obtain ⟨t', us, rfl, ht⟩ := hs
  refine h.append ⟨fun hs => ?_⟩
  cases hs with
  | cons hb hw hrest =>
    rw [List.append_assoc]
    refine (tame_of_blank hb).append ?_
    rcases ho.written hw with rfl | hm
    · exact (h'.text hrest).slash (ht.divides hrest)
    · exact (Tame.of_marks hm).append (h'.text hrest)

end TameTokens

mutual

theorem Level.tame : ∀ {l : Nat} {ts : List Token} {e : Expr}, Level l ts e → TameTokens (· ∉ separators) ts
  | _, _, _, .operand h => h.tame
  | _, _, _, .tighter _ h => h.tame
  | _, _, _, .binary h ho h' => h.tame.binary ho h'.starts h'.tame

theorem Signed.tame : ∀ {ts : List Token} {e : Expr}, Signed ts e → TameTokens (· ∉ separators) ts
  | _, _, .not h => h.tame.cons fun hw => by cases hw; exact .of_marks (by decide)
  | _, _, .minus h => h.tame.cons fun hw => by cases hw; exact .of_marks (by decide)
  | _, _, .plus h => h.tame.cons fun hw => by cases hw; exact .of_marks (by decide)
  | _, _, .unsigned h => h.tame

theorem Postfixed.tame : ∀ {ts : List Token} {e : Expr}, Postfixed ts e → TameTokens (· ∉ separators) ts
  | _, _, .primary h => h.tame
  | _, _, .index h h' => h.tame.append h'.tame

theorem Indices.tame : ∀ {ts : List Token} {es : List Expr}, Indices ts es → TameTokens (· ∉ separators) ts
  | _, _, .nil => .nil
  | _, _, .cons h h' => by
    rw [List.append_cons]
    exact (TameTokens.brackets (h.tame.mono fun _ _ => trivial)).append h'.tame

theorem Primary.tame : ∀ {ts : List Token} {e : Expr}, Primary ts e → TameTokens (· ∉ separators) ts
  | _, _, .number _ => TameTokens.nil.cons fun hw => by cases hw; exact tame_of_word ‹_›
  | _, _, .true => TameTokens.nil.cons fun hw => by cases hw; exact tame_of_word ‹_›
  | _, _, .false => TameTokens.nil.cons fun hw => by cases hw; exact tame_of_word ‹_›
  | _, _, .name _ => TameTokens.nil.cons fun hw => by cases hw; exact tame_of_word ‹_›
  | _, _, .call _ h => h.tame.parens.cons fun hw => by cases hw; exact tame_of_word ‹_›
  | _, _, .group h => (h.tame.mono fun _ _ => trivial).parens

theorem Arguments.tame : ∀ {ts : List Token} {es : List Expr}, Arguments ts es → TameTokens (fun _ => True) ts
  | _, _, .none => TameTokens.nil.mono fun _ _ => trivial
  | _, _, .some h => h.tame

theorem Items.tame : ∀ {ts : List Token} {es : List Expr}, Items ts es → TameTokens (fun _ => True) ts
  | _, _, .last h => h.tame.mono fun _ _ => trivial
  | _, _, .cons h h' => (h.tame.mono fun _ _ => trivial).comma h'.tame

end

end Grammar

/-! ### Text without blanks around it -/

namespace Text

/-- The text starts and ends with characters that are no blanks. -/
structure Solid (cs : List Char) : Prop where
  head : ∃ c ds, cs = c :: ds ∧ isBlank c = false
  last : ∃ ds c, cs = ds ++ [c] ∧ isBlank c = false

theorem head_of_dropWhile {p : Char → Bool} {c : Char} {cs : List Char} (h : (c :: cs).dropWhile p = c :: cs) :
    p c = false := by
  rw [List.dropWhile_cons] at h
  split at h
  · have hle := Token.length_dropWhile_le p cs
    rw [h, List.length_cons] at hle
    omega
  · rename_i hc
    simpa using hc

theorem trimLeft_cons {c : Char} (h : isBlank c = false) (cs : List Char) : trimLeft (c :: cs) = c :: cs :=
  List.dropWhile_cons_of_neg (by simp [h])

theorem trimLeft_append_of_blank {bs : List Char} (h : ∀ c ∈ bs, isBlank c = true) (cs : List Char) :
    trimLeft (bs ++ cs) = trimLeft cs :=
  List.dropWhile_append_of_pos h

theorem trimLeft_trimLeft (cs : List Char) : trimLeft (trimLeft cs) = trimLeft cs := by
  induction cs with
  | nil => rfl
  | cons c cs ih =>
    cases hc : isBlank c with
    | true =>
      have htrim : trimLeft (c :: cs) = trimLeft cs := List.dropWhile_cons_of_pos hc
      rw [htrim, ih]
    | false => rw [trimLeft_cons hc, trimLeft_cons hc]

namespace Solid

variable {ds : List Char}

theorem trimLeft (h : Solid cs) (rest : List Char) : trimLeft (cs ++ rest) = cs ++ rest := by
  obtain ⟨c, ds, rfl, hc⟩ := h.head
  exact trimLeft_cons hc _

theorem trimRight (h : Solid cs) (before : List Char) : trimRight (before ++ cs) = before ++ cs := by
  obtain ⟨ds, c, rfl, hc⟩ := h.last
  rw [Text.trimRight, ← List.append_assoc, List.reverse_append, List.reverse_singleton, List.singleton_append,
    List.dropWhile_cons_of_neg (by simp [hc]), List.reverse_cons, List.reverse_reverse]

theorem trim (h : Solid cs) : trim cs = cs := by
  have hl := h.trimLeft []
  have hr := h.trimRight []
  rw [List.append_nil] at hl
  rw [Text.trim, hl]
  exact hr

theorem ne_nil (h : Solid cs) : cs ≠ [] := by
  obtain ⟨c, ds, rfl, -⟩ := h.head
  exact List.cons_ne_nil c ds

theorem around (h : Solid cs) (mid : List Char) (h' : Solid ds) : Solid (cs ++ mid ++ ds) where
  head := by
    obtain ⟨c, cs', rfl, hc⟩ := h.head
    exact ⟨c, _, rfl, hc⟩
  last := by
    obtain ⟨ds', c, rfl, hc⟩ := h'.last
    exact ⟨cs ++ mid ++ ds', c, (List.append_assoc ..).symm, hc⟩

theorem trim_append (h : Solid cs) {bs : List Char} (hb : ∀ c ∈ bs, isBlank c = true) : Text.trim (cs ++ bs) = cs := by
  have hrev : (cs ++ bs).reverse.dropWhile isBlank = cs.reverse.dropWhile isBlank := by
    rw [List.reverse_append]
    exact trimLeft_append_of_blank (fun c hc => hb c (List.mem_reverse.1 hc)) _
  rw [Text.trim, h.trimLeft, Text.trimRight, hrev]
  exact h.trimRight []

theorem of_forall (hne : cs ≠ []) (h : ∀ c ∈ cs, isBlank c = false) : Solid cs where
  head := by
    cases cs with
    | nil => exact absurd rfl hne
    | cons c cs => exact ⟨c, cs, rfl, h c List.mem_cons_self⟩
  last := ⟨_, _, (List.dropLast_concat_getLast hne).symm, h _ (List.getLast_mem hne)⟩

theorem of_trim (h : Text.trim cs = cs) (hne : cs ≠ []) : Solid cs := by
  have hl : (Text.trimLeft cs).length ≤ cs.length := Token.length_dropWhile_le _ _
  have hr (ds : List Char) : (Text.trimRight ds).length ≤ ds.length := by
    have := Token.length_dropWhile_le isBlank ds.reverse
    simpa [Text.trimRight] using this
  have hleft : Text.trimLeft cs = cs := by
    refine (List.dropWhile_suffix isBlank).eq_of_length_le ?_
    have := hr (Text.trimLeft cs)
    rw [← Text.trim, h] at this
    exact this
  have hright : cs.reverse.dropWhile isBlank = cs.reverse := by
    rw [Text.trim, hleft] at h
    rw [← List.reverse_inj, List.reverse_reverse]
    exact h
  constructor
  · cases cs with
    | nil => exact absurd rfl hne
    | cons c cs => exact ⟨c, cs, rfl, head_of_dropWhile hleft⟩
  · cases hrev : cs.reverse with
    | nil => exact absurd (List.reverse_eq_nil_iff.1 hrev) hne
    | cons c ds =>
      rw [hrev] at hright
      refine ⟨ds.reverse, c, ?_, head_of_dropWhile hright⟩
      rw [← List.reverse_cons, ← hrev, List.reverse_reverse]

end Solid

end Text

/-! ### Operands -/

/-- An operand that is written as an expression, in one line. -/
structure Operand.Printed (o : Operand) : Prop where
  expression : ∃ ts e, Token.scan o.text = .ok ts ∧ Grammar.Level 0 ts e
  read : Operand.ofText o.text = o
  line : '\n' ∉ o.text.toList

namespace Operand.Printed

variable {o : Operand} (h : o.Printed)
include h

theorem trim : Text.trim o.text.toList = o.text.toList := by
  have hr : String.ofList (Text.trim o.text.toList) = o.text := congrArg Operand.text h.read
  rw [← String.toList_inj, String.toList_ofList] at hr
  exact hr

/-- The text is that of an expression. -/
theorem spelled : ∃ t ts e, Token.Spelled (t :: ts) o.text.toList ∧ Grammar.Level 0 (t :: ts) e ∧
    Grammar.Starts t := by
  obtain ⟨ts, e, hs, hl⟩ := h.expression
  obtain ⟨t, us, rfl, ht⟩ := hl.starts
  exact ⟨t, us, e, Token.spelled_of_scan hs, hl, ht⟩

theorem solid : Solid o.text.toList := by
  refine .of_trim h.trim fun hnil => ?_
  obtain ⟨t, ts, e, hs, -, ht⟩ := h.spelled
  obtain ⟨c, ds, hcs, -⟩ := ht.spelled hs
  rw [hnil] at hcs
  cases hcs

/-- The text of an operand behind a space. -/
theorem trimLeft_blank : trimLeft (' ' :: o.text.toList) = o.text.toList := by
  have hl := h.solid.trimLeft []
  rw [List.append_nil] at hl
  exact (trimLeft_append_of_blank (by decide : ∀ c ∈ [' '], isBlank c = true) _).trans hl

/-- An operand does not begin with a sign that another sign goes on with. -/
theorem head : ∃ c ds, o.text.toList = c :: ds ∧ isHead c = true := by
  obtain ⟨t, ts, e, hs, -, ht⟩ := h.spelled
  obtain ⟨c, ds, hcs, hc⟩ := ht.spelled hs
  have hl := h.solid.trimLeft []
  rw [List.append_nil] at hl
  exact ⟨c, ds, hl.symm.trans hcs, hc⟩

/-- No separator and no line end stands outside of the brackets of an operand. -/
theorem tame : Tame (· ∉ breaks) o.text.toList := by
  obtain ⟨t, ts, e, hs, hl, -⟩ := h.spelled
  refine (hl.tame.text hs).mono fun c hc hm => ?_
  rw [breaks, List.mem_cons]
  rintro (rfl | hsep)
  · exact h.line hc
  · exact hm hsep

/-- The operand is read from its text, whatever blanks stand around it. -/
theorem ofChars {cs : List Char} (hcs : Text.trim cs = o.text.toList) : Operand.ofChars cs = o := by
  have hr := h.read
  rw [Operand.ofText, Operand.ofChars, h.trim] at hr
  rw [Operand.ofChars, hcs]
  exact hr

omit h in
/-- A text that parses is the text of an expression. -/
theorem of_tree {text : String} (ht : (Operand.ofText text).tree.isSome) (hs : (Operand.ofText text).text = text)
    (hl : '\n' ∉ text.toList) : (Operand.ofText text).Printed := by
  refine ⟨?_, congrArg Operand.ofText hs, hs.symm ▸ hl⟩
  obtain ⟨e, he⟩ := Option.isSome_iff_exists.1 ht
  change (Expr.parse .permissive (Operand.ofText text).text).toOption = some e at he
  rw [hs] at he ⊢
  cases hp : Expr.parse .permissive text with
  | error err =>
    rw [hp] at he
    cases he
  | ok e' =>
    obtain ⟨ts, hts, hread⟩ := Except.bind_eq_ok_iff.1 hp
    exact ⟨ts, e', hts, Expr.ofTokens_sound hread⟩

omit h in
/-- A token of one character is an operand by itself. -/
theorem of_char {text : String} {c : Char} {t : Token} {e : Expr} (htext : text.toList = [c])
    (hc : isBlank c = false) (hscan : Token.scanOne 0 c [] = .ok (t, [])) (ht : Grammar.Primary [t] e) :
    (Operand.ofText text).Printed := by
  have hsame : (Operand.ofText text).text = text := by
    have htrim : Text.trim text.toList = text.toList := by
      rw [htext]
      exact (Solid.of_forall (by simp) (by simpa using hc)).trim
    change String.ofList (Text.trim text.toList) = text
    rw [htrim, String.ofList_toList]
  have htokens : Token.scan text = .ok [t] := by
    rw [Token.scan, htext]
    exact Token.scanFrom_cons hc hscan (Token.scanFrom_nil _)
  have hlevel : Grammar.Level 0 [t] e :=
    .tighter (by decide) (.tighter (by decide) (.tighter (by decide) (.tighter (by decide) (.tighter (by decide)
      (.tighter (by decide) (.operand (.unsigned (.primary ht))))))))
  refine ⟨⟨[t], e, by rw [hsame, htokens], hlevel⟩, congrArg Operand.ofText hsame, ?_⟩
  rw [hsame, htext, List.mem_singleton]
  rintro rfl
  cases hc

end Operand.Printed

end RunningLights
