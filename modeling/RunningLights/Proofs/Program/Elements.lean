import RunningLights.Proofs.Program.Rendering

/-!
# Assignments to elements

The indices of an assignment are read up to the first closing bracket, whatever has been opened before it:

* `Grammar.Completed` — in an expression, every bracket is closed again, and every arithmetic sign is followed by an
  operand;
* `blocked_of_spelled` — behind a closing bracket inside an index, no operator of an assignment is found;
* `Command.ofSource_element` — an assignment to an element is read if no index has an index in it, and else it is
  skipped;
* `Command.not_ofSource_element` — so that some are skipped.
-/

namespace RunningLights

open Procedure Text

/-! ### What comes behind a token -/

/-- The signs of arithmetic, which an assignment may carry too. -/
def Token.isArithmetic : Token → Bool
  | .plus | .minus | .star | .slash | .percent => Bool.true
  | _ => Bool.false

namespace Grammar

/-- The tokens start with one that starts an expression. -/
def OperandNext (ts : List Token) : Prop := ∃ t us, ts = t :: us ∧ Starts t

/-- Behind every opening bracket of indices comes a closing one, and behind every sign of arithmetic an operand. -/
def Completed : List Token → Prop
  | [] => True
  | t :: ts => (t = .lbracket → .rbracket ∈ ts) ∧ (t.isArithmetic → OperandNext ts) ∧ Completed ts

variable {l : Nat} {t : Token} {ts us : List Token} {e : Expr} {es : List Expr}

namespace Completed

theorem append (h : Completed ts) (h' : Completed us) : Completed (ts ++ us) := by
  induction ts with
  | nil => exact h'
  | cons t ts ih =>
    obtain ⟨hclose, hnext, hts⟩ := h
    refine ⟨fun ht => List.mem_append_left _ (hclose ht), fun ht => ?_, ih hts⟩
    obtain ⟨t', vs, rfl, hstarts⟩ := hnext ht
    exact ⟨t', vs ++ us, rfl, hstarts⟩

theorem of_append (h : Completed (ts ++ us)) : Completed us := by
  induction ts with
  | nil => exact h
  | cons t ts ih => exact ih h.2.2

/-- A token that is neither a sign of arithmetic nor a bracket of indices. -/
theorem cons (ht : t ≠ .lbracket) (ha : t.isArithmetic = false) (h : Completed ts) : Completed (t :: ts) :=
  ⟨fun he => absurd he ht, fun hs => absurd (ha.symm.trans hs) nofun, h⟩

theorem sign (ht : t ≠ .lbracket) (hs : OperandNext ts) (h : Completed ts) : Completed (t :: ts) :=
  ⟨fun he => absurd he ht, fun _ => hs, h⟩

theorem single (ht : t ≠ .lbracket) (ha : t.isArithmetic = false) : Completed [t] := cons ht ha trivial

theorem parens (h : Completed ts) : Completed (.lparen :: ts ++ [.rparen]) :=
  cons nofun rfl (h.append (single nofun rfl))

theorem brackets (h : Completed ts) : Completed (.lbracket :: ts ++ [.rbracket]) :=
  ⟨fun _ => List.mem_append_right _ (List.mem_singleton.2 rfl), nofun, h.append (single nofun rfl)⟩

end Completed

mutual

theorem Level.completed : ∀ {l : Nat} {ts : List Token} {e : Expr}, Level l ts e → Completed ts
  | _, _, _, .operand h => h.completed
  | _, _, _, .tighter _ h => h.completed
  | _, _, _, .binary h ho h' =>
    h.completed.append (.sign (by rintro rfl; cases ho) h'.starts h'.completed)

theorem Signed.completed : ∀ {ts : List Token} {e : Expr}, Signed ts e → Completed ts
  | _, _, .not h => .cons nofun rfl h.completed
  | _, _, .minus h => .sign nofun h.starts h.completed
  | _, _, .plus h => .sign nofun h.starts h.completed
  | _, _, .unsigned h => h.completed

theorem Postfixed.completed : ∀ {ts : List Token} {e : Expr}, Postfixed ts e → Completed ts
  | _, _, .primary h => h.completed
  | _, _, .index h h' => h.completed.append h'.completed

theorem Indices.completed : ∀ {ts : List Token} {es : List Expr}, Indices ts es → Completed ts
  | _, _, .nil => trivial
  | _, _, .cons h h' => by
    rw [List.append_cons]
    exact h.completed.brackets.append h'.completed

theorem Primary.completed : ∀ {ts : List Token} {e : Expr}, Primary ts e → Completed ts
  | _, _, .number _ => .single nofun rfl
  | _, _, .true => .single nofun rfl
  | _, _, .false => .single nofun rfl
  | _, _, .name _ => .single nofun rfl
  | _, _, .call _ h => .cons nofun rfl h.completed.parens
  | _, _, .group h => h.completed.parens

theorem Arguments.completed : ∀ {ts : List Token} {es : List Expr}, Arguments ts es → Completed ts
  | _, _, .none => trivial
  | _, _, .some h => h.completed

theorem Items.completed : ∀ {ts : List Token} {es : List Expr}, Items ts es → Completed ts
  | _, _, .last h => h.completed
  | _, _, .cons h h' => h.completed.append (.cons nofun rfl h'.completed)

end

end Grammar

/-! ### The first closing bracket -/

theorem Token.Written.rbracket_or {t : Token} {cs : List Char} (h : t.Written cs) :
    (t = .rbracket ∧ cs = [']']) ∨ ']' ∉ cs := by
  have hword {cs : List Char} (h : Token.Word cs) : ']' ∉ cs := fun hm => absurd (h.chars _ hm) (by decide)
  cases h with
  | rbracket => exact .inl ⟨rfl, rfl⟩
  | number _ h => exact .inr (hword h)
  | ident _ h => exact .inr (hword h)
  | true h => exact .inr (hword h)
  | false h => exact .inr (hword h)
  | _ => exact .inr (by decide)

/-- A text of tokens up to its first closing bracket of indices, and behind that. -/
theorem Token.Spelled.split {ts : List Token} {cs : List Char} (h : Token.Spelled ts cs) :
    (']' ∉ cs ∧ .rbracket ∉ ts) ∨
    ∃ before us behind, cs = before ++ ']' :: behind ∧ ']' ∉ before ∧ Token.Spelled us behind ∧
      ∃ ts', ts = ts' ++ .rbracket :: us := by
  have hblank {blanks : List Char} (hb : ∀ c ∈ blanks, isBlank c = Bool.true) : ']' ∉ blanks := fun hm =>
    absurd (hb _ hm) (by decide)
  induction h with
  | nil hb => exact .inl ⟨hblank hb, nofun⟩
  | @cons blanks t sp ts rest hb hw hrest ih =>
    rcases hw.rbracket_or with ⟨rfl, rfl⟩ | hsp
    · exact .inr ⟨blanks, ts, rest, by simp, hblank hb, hrest, [], rfl⟩
    · have ht : Token.rbracket ≠ t := by
        rintro rfl
        cases hw
        exact hsp (by decide)
      rcases ih with ⟨hno, hnone⟩ | ⟨before, us, behind, rfl, hbefore, hspelled, ts', rfl⟩
      · exact .inl ⟨by simp [hblank hb, hsp, hno], by simp [ht, hnone]⟩
      · refine .inr ⟨blanks ++ sp ++ before, us, behind, by simp, ?_, hspelled, t :: ts', rfl⟩
        simp [hblank hb, hsp, hbefore]

/-! ### Where no operator is found -/

namespace Procedure

/-- The signs that the operator of an assignment starts with. -/
def operatorSigns : List Char := ['=', '+', '-', '*', '/', '%']

theorem assignOperator?_of_not_mem {c : Char} (h : c ∉ operatorSigns) (cs : List Char) :
    assignOperator? (c :: cs) = none := by
  rw [assignOperator?.eq_def]
  split
  · rename_i hc
    obtain ⟨rfl, -⟩ := List.cons.inj hc
    exact absurd (by decide) h
  · rename_i hc
    obtain ⟨rfl, -⟩ := List.cons.inj hc
    have hsign : c ∉ ['+', '-', '*', '/', '%'] := fun hm => h (List.mem_cons_of_mem _ hm)
    rw [if_neg (by simpa using hsign)]
  · rfl

theorem assignOperator?_of_ne {c d : Char} (hc : c ≠ '=') (hd : d ≠ '=') (cs : List Char) :
    assignOperator? (c :: d :: cs) = none := by
  rw [assignOperator?.eq_def]
  split
  · rename_i h
    exact absurd (List.cons.inj h).1 hc
  · rename_i h
    exact absurd (List.cons.inj (List.cons.inj h).2).1 hd
  · rfl

/-- No operator of an assignment comes behind the bracket groups, if not one that goes on with an equals sign. -/
def Blocked (cs : List Char) : Prop :=
  ∀ found rest, assignOperator? (bracketGroups (trimLeft cs)).2 = some (found, rest) → ∃ behind, rest = '=' :: behind

namespace Blocked

variable {c : Char} {cs : List Char}

theorem of_none (hb : c ≠ '[') (hc : isBlank c = false) (h : assignOperator? (c :: cs) = none) : Blocked (c :: cs) := by
  intro found rest hfound
  rw [trimLeft_cons hc, bracketGroups_of_ne hb, h] at hfound
  cases hfound

/-- Another character comes next. -/
theorem of_not_mem (hc : isBlank c = false) (h : c ∉ '[' :: operatorSigns) (cs : List Char) : Blocked (c :: cs) :=
  of_none (fun hb => h (hb ▸ List.mem_cons_self)) hc
    (assignOperator?_of_not_mem (fun hm => h (List.mem_cons_of_mem _ hm)) cs)

theorem equals (cs : List Char) : Blocked ('=' :: '=' :: cs) := by
  intro found rest hfound
  rw [trimLeft_cons (by decide), bracketGroups_of_ne (by decide)] at hfound
  cases hfound
  exact ⟨cs, rfl⟩

/-- A sign comes next that does not go on with an equals sign. -/
theorem sign {d : Char} (hb : c ≠ '[') (hc : isBlank c = false) (he : c ≠ '=') (hd : d ≠ '=') (cs : List Char) :
    Blocked (c :: d :: cs) := of_none hb hc (assignOperator?_of_ne he hd cs)

theorem blanks {bs : List Char} (hb : ∀ c ∈ bs, isBlank c = true) (h : Blocked cs) : Blocked (bs ++ cs) := by
  unfold Blocked
  rw [trimLeft_append_of_blank hb]
  exact h

theorem group {inner : List Char} (hinner : ']' ∉ inner) (h : Blocked cs) : Blocked ('[' :: (inner ++ ']' :: cs)) := by
  unfold Blocked
  rw [trimLeft_cons (by decide), bracketGroups_cons hinner]
  exact h

theorem word {sp : List Char} (h : Token.Word sp) (rest : List Char) : Blocked (sp ++ rest) := by
  obtain ⟨c, ds, rfl, hhead⟩ := isHead_of_word h
  obtain ⟨⟨d, hd, hstart⟩, -⟩ := h
  cases hd
  have hblank : isBlank c = false := by
    simp only [isHead, Bool.and_eq_true, Bool.not_eq_true'] at hhead
    exact hhead.1
  have hsigns : c ∉ '[' :: operatorSigns :=
    not_mem_of_class (p := fun c => Token.isNumberChar c || Token.isNameStart c) (by decide) hstart
  exact .of_not_mem hblank hsigns _

/-- A sign comes next, and then an operand. -/
theorem operand {c : Char} {ts : List Token} {cs : List Char} (hc : isBlank c = false) (hb : c ≠ '[') (he : c ≠ '=')
    (hs : Grammar.OperandNext ts) (hcs : Token.Spelled ts cs) (tail : List Char) : Blocked (c :: (cs ++ tail)) := by
  obtain ⟨t, us, rfl, ht⟩ := hs
  obtain ⟨e, es, htrim, hhead⟩ := ht.spelled hcs
  cases cs with
  | nil => cases htrim
  | cons d ds =>
    refine .sign hb hc he ?_ _
    rintro rfl
    rw [trimLeft_cons (by decide)] at htrim
    obtain ⟨rfl, -⟩ := List.cons.inj htrim
    exact absurd hhead (by decide)

end Blocked

end Procedure

/-- Inside an index, behind the closing bracket of one in it, no operator of an assignment is found.  The induction is
on the tokens that are left, as a bracket group may take several of them. -/
theorem blocked_of_spelled {ts : List Token} {cs : List Char} (hc : Grammar.Completed ts) (hs : Token.Spelled ts cs)
    (tail : List Char) : Blocked (cs ++ ']' :: tail) := by
  induction hn : ts.length using Nat.strongRecOn generalizing ts cs with
  | ind n ih =>
  cases hs with
  | nil hb => exact .blanks hb (.of_not_mem (by decide) (by decide) tail)
  | @cons blanks t sp ts rest hb hw hrest =>
    obtain ⟨hclose, hnext, hts⟩ := hc
    rw [List.append_assoc, List.append_assoc]
    refine .blanks hb ?_
    cases hw with
    | number _ h => exact .word h _
    | ident _ h => exact .word h _
    | true h => exact .word h _
    | false h => exact .word h _
    | lbracket =>
      obtain ⟨before, us, behind, rfl, hbefore, hspelled, ts', rfl⟩ :=
        hrest.split.resolve_left fun h => h.2 (hclose rfl)
      have hlt : us.length < n := by
        rw [← hn, List.length_cons, List.length_append, List.length_cons]
        omega
      simpa using (ih _ hlt hts.of_append.2.2 hspelled rfl).group hbefore
    | plus | minus | star | slash | percent =>
      exact .operand (by decide) (by decide) (by decide) (hnext rfl) hrest (']' :: tail)
    | eqEq | eqEqEq => exact .equals _
    | _ => exact .of_not_mem (by decide) (by decide) _

/-! ### Assignments to elements -/

/-- Blanks are taken from behind the last character that is none. -/
theorem trimRight_append_cons {c : Char} (hc : isBlank c = false) (before behind : List Char) :
    ∃ ds, trimRight (before ++ c :: behind) = before ++ c :: ds := by
  have hrev : (before ++ c :: behind).reverse = behind.reverse ++ c :: before.reverse := by simp
  rw [trimRight, hrev, List.dropWhile_append]
  split
  · rw [List.dropWhile_cons_of_neg (by simp [hc])]
    exact ⟨[], by simp⟩
  · exact ⟨(behind.reverse.dropWhile isBlank).reverse, by simp⟩

section Elements

variable {indices : List Operand}

/-- No operator is found behind indices of which one has an index in it. -/
theorem blocked_of_nested (hi : ∀ o ∈ indices, o.Printed) (hn : ¬ ∀ o ∈ indices, ']' ∉ o.text.toList)
    (tail : List Char) : Blocked ((bracketed (indices.map Operand.text)).toList ++ tail) := by
  induction indices with
  | nil => exact absurd nofun hn
  | cons o os ih =>
    obtain ⟨ho, hos⟩ := List.forall_mem_cons.1 hi
    rw [List.map_cons, toList_bracketed_cons]
    by_cases hclosed : ']' ∈ o.text.toList
    · obtain ⟨t, ts, e, hs, hl, -⟩ := ho.spelled
      obtain ⟨before, us, behind, htext, hbefore, hspelled, ts', hts⟩ := hs.split.resolve_left fun h => h.1 hclosed
      have hcompleted := hl.completed
      rw [hts] at hcompleted
      rw [htext]
      simpa using (blocked_of_spelled hcompleted.of_append.2.2 hspelled
        ((bracketed (os.map Operand.text)).toList ++ tail)).group hbefore
    · have hnested : ¬ ∀ o ∈ os, ']' ∉ o.text.toList := fun h => hn (List.forall_mem_cons.2 ⟨hclosed, h⟩)
      simpa using (ih hos hnested).group hclosed

variable {target : String} (h : Identifier target)
include h

/-- No call has an index in its name. -/
theorem splitCall?_bracket (rest : List Char) : splitCall? (target.toList ++ '[' :: rest) = none := by
  have hparen : ∀ c ∈ target.toList ++ ['['], (c != '(') = true := by
    intro c hc
    rw [bne_iff_ne]
    rintro rfl
    rcases List.mem_append.1 hc with hc | hc
    · exact absurd (h.chars _ hc) (by decide)
    · exact absurd hc (by decide)
  have htake : (target.toList ++ '[' :: rest).takeWhile (· != '(') =
      target.toList ++ '[' :: rest.takeWhile (· != '(') := by
    rw [List.append_cons, List.takeWhile_append_of_pos hparen, ← List.append_cons]
  obtain ⟨ds, hds⟩ := trimRight_append_cons (c := '[') (by decide) target.toList (rest.takeWhile (· != '('))
  have hcallee : (target.toList ++ '[' :: ds).all isCalleeChar = false := by
    rw [List.all_eq_false]
    exact ⟨'[', by simp, by decide⟩
  unfold splitCall?
  simp only
  split
  · rfl
  · rw [htake, hds, hcallee, Bool.and_false, if_neg Bool.false_ne_true]

/-- What is blocked is no assignment, as a value does not start with an equals sign. -/
theorem properAssignment?_of_blocked {d : Char} (hd : isWord d = false) {rest : List Char} (hb : Blocked (d :: rest)) :
    properAssignment? (target.toList ++ d :: rest) = none := by
  rw [properAssignment?, h.assignment? rest hd rfl]
  cases hop : assignOperator? (bracketGroups (trimLeft (d :: rest))).2 with
  | none => rfl
  | some x =>
    obtain ⟨found, behind⟩ := x
    obtain ⟨value, rfl⟩ := hb found behind hop
    obtain ⟨ds, hds⟩ := trimRight_append_cons (c := '=') (by decide) [] value
    have hsame : trimLeft ('=' :: value) = '=' :: value := trimLeft_cons (by decide) value
    have hhead : (trim ('=' :: value)).head? = some '=' := by
      rw [trim, hsame, ← List.nil_append ('=' :: value), hds]
      rfl
    simp [hsame, nonempty?, hhead]

/-- An assignment to an element is skipped if one of its indices has an index in it. -/
theorem ofStatement_nested (op : AssignOp) (hi : ∀ o ∈ indices, o.Printed)
    (hn : ¬ ∀ o ∈ indices, ']' ∉ o.text.toList) (value : Operand) :
    Command.ofStatement (target ++ bracketed (indices.map Operand.text) ++ " " ++ op.sign ++ " " ++ value.text).toList =
      [] := by
  cases indices with
  | nil => exact absurd nofun hn
  | cons o os =>
    have htext : (target ++ bracketed ((o :: os).map Operand.text) ++ " " ++ op.sign ++ " " ++ value.text).toList =
        target.toList ++ ((bracketed ((o :: os).map Operand.text)).toList ++
          ' ' :: (op.sign.toList ++ ' ' :: value.text.toList)) := by
      simp
    have hspace : ' ' ∈ trimLeft (' ' :: (op.sign.toList ++ ' ' :: value.text.toList)) := by
      have hblank := trimLeft_append_of_blank (by decide : ∀ c ∈ [' '], isBlank c = true)
        (op.sign.toList ++ ' ' :: value.text.toList)
      rw [List.singleton_append, op.solid_sign.trimLeft] at hblank
      simp [hblank]
    have hblocked := blocked_of_nested hi hn (' ' :: (op.sign.toList ++ ' ' :: value.text.toList))
    obtain ⟨hreturn, hdeclaration, hcounting⟩ := start_of_indexed h (o :: os) hspace htext
    rw [Command.ofStatement, hreturn, hdeclaration, hcounting, htext]
    rw [List.map_cons, toList_bracketed_cons, List.cons_append] at hblocked ⊢
    simp only [properAssignment?_of_blocked h (by decide) hblocked, splitCall?_bracket h]

end Elements

/-- **An assignment to an element** is read from its text if no index has an index in it, and else it is skipped. -/
theorem Command.ofSource_element {name : String} (h : Identifier name) {indices : List Operand}
    (hi : ∀ o ∈ indices, o.Printed) {op : AssignOp} (hop : op ∉ [AssignOp.increment, .decrement]) {value : Operand}
    (hv : value.Printed) :
    Command.ofSource (name ++ bracketed (indices.map Operand.text) ++ " " ++ op.sign ++ " " ++ value.text ++ ";") =
      if ∀ o ∈ indices, ']' ∉ o.text.toList then [.act (.assign name indices op (some value))] else [] := by
  have hread : Command.ofStatement
      (name ++ bracketed (indices.map Operand.text) ++ " " ++ op.sign ++ " " ++ value.text).toList =
        if ∀ o ∈ indices, ']' ∉ o.text.toList then [.act (.assign name indices op (some value))] else [] := by
    split
    · exact ofStatement_assign h hop hi ‹_› hv
    · exact ofStatement_nested h op hi ‹_› value
  have hline := Reader.ReadsAs.statement (Phrase.indexed h hv hi hread)
  exact hline.ofSource (.cons [] (List.forall_mem_nil _) .nil) (List.forall_mem_nil _) (by simp)

/-- Indices that are sums and calls are read, and the value may have indices. -/
theorem Command.ofSource_element_table :
    Command.ofSource "table[row + 1][next(row, 2)] += limits[0] * 2;" =
      [.act (.assign "table" [.ofText "row + 1", .ofText "next(row, 2)"] .add (some (.ofText "limits[0] * 2")))] := by
  have hname : Identifier "table" := ⟨by decide, by decide, by decide⟩
  have hrow : (Operand.ofText "row + 1").Printed := .of_tree (by decide +kernel) (by decide +kernel) (by decide)
  have hnext : (Operand.ofText "next(row, 2)").Printed := .of_tree (by decide +kernel) (by decide +kernel) (by decide)
  have hvalue : (Operand.ofText "limits[0] * 2").Printed := .of_tree (by decide +kernel) (by decide +kernel) (by decide)
  have hadd : AssignOp.add ∉ [AssignOp.increment, .decrement] := by decide
  have hread := Command.ofSource_element hname (List.forall_mem_cons.2 ⟨hrow, List.forall_mem_singleton.2 hnext⟩) hadd
    hvalue
  have hflat : ∀ o ∈ [Operand.ofText "row + 1", .ofText "next(row, 2)"], ']' ∉ o.text.toList := by decide +kernel
  rw [if_pos hflat] at hread
  exact hread

/-- An element of a table may be an index, but the assignment to the element at it is skipped. -/
theorem Command.not_ofSource_element :
    ¬ ∀ (name : String) (indices : List Operand) (op : AssignOp) (value : Operand), Identifier name →
      indices ≠ [] → indices.length ≤ 2 → (∀ o ∈ indices, o.Printed) → op ∉ [AssignOp.increment, .decrement] →
      value.Printed →
      Command.ofSource (name ++ bracketed (indices.map Operand.text) ++ " " ++ op.sign ++ " " ++ value.text ++ ";") =
        [.act (.assign name indices op (some value))] := by
  intro h
  have hname : Identifier "a" := ⟨by decide, by decide, by decide⟩
  have hindex : (Operand.ofText "b[0]").Printed := .of_tree (by decide +kernel) (by decide +kernel) (by decide)
  have hvalue : (Operand.ofText "1").Printed := .of_tree (by decide +kernel) (by decide +kernel) (by decide)
  have hread := h "a" [.ofText "b[0]"] .set (.ofText "1") hname (by simp) (by simp) (List.forall_mem_singleton.2 hindex)
    (by decide) hvalue
  have hskipped : (Command.ofSource ("a" ++ bracketed ["b[0]"] ++ " = 1;")).length = 0 := by decide +kernel
  have hlength := congrArg List.length hread
  exact absurd (hlength.symm.trans hskipped) (by simp)

end RunningLights
