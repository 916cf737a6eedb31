import RunningLights.Proofs.Program.Names

/-!
# Statements are read from their texts

* `splitTop_listed` — operands are read again from their list;
* `bracketed` — indices, and `ofStatement_assign` — an assignment with flat ones is read again;
* `Phrase` — the text of a statement, what it is read as, and that no scanner stops in it;
* `Action.phrase`, `phrase_return`, `phrase_return_value` — the statements that open no block.
-/

namespace RunningLights

open Procedure Text

/-! ### Lists of operands -/

theorem Operand.Printed.nonempty?_blank {o : Operand} (h : o.Printed) :
    nonempty? (trimLeft (' ' :: o.text.toList)) = some o.text.toList := by
  rw [h.trimLeft_blank, nonempty?, if_neg (by simpa using h.solid.ne_nil)]

theorem trim_cons_of_blank {c : Char} (hc : isBlank c = true) (cs : List Char) : trim (c :: cs) = trim cs := by
  rw [trim, trimLeft, List.dropWhile_cons_of_pos hc]
  rfl

theorem ofChars_cons_of_blank {c : Char} (hc : isBlank c = true) (cs : List Char) :
    Operand.ofChars (c :: cs) = Operand.ofChars cs := by
  rw [Operand.ofChars, trim_cons_of_blank hc]
  rfl

theorem solid_listed {s : String} {ss : List String} (h : ∀ t ∈ s :: ss, Solid t.toList) :
    Solid (listed (s :: ss)).toList := by
  induction ss generalizing s with
  | nil => exact h s List.mem_cons_self
  | cons s' ss ih =>
    obtain ⟨hs, hss⟩ := List.forall_mem_cons.1 h
    simpa only [listed, String.toList_append] using hs.around ", ".toList (ih hss)

theorem splitAtDepth_listed {o : Operand} {os : List Operand} (h : ∀ o' ∈ o :: os, o'.Printed) :
    (splitAtDepth ',' 0 (listed ((o :: os).map Operand.text)).toList).map Operand.ofChars = o :: os := by
  induction os generalizing o with
  | nil =>
    have ho := h o List.mem_cons_self
    have hs := ho.tame.nested.splitAtDepth_end (.inl rfl) fun c hc hm => hc (by rw [hm]; decide)
    simp [listed, hs, ho.ofChars ho.trim]
  | cons o' os ih =>
    obtain ⟨ho, hos⟩ := List.forall_mem_cons.1 h
    have hrest := ih hos
    obtain ⟨part, parts, hparts, hpart, hos'⟩ := List.map_eq_cons_iff.1 hrest
    have hs := ho.tame.nested.splitAtDepth (.inl rfl) (fun c hc hm => hc (by rw [hm]; decide))
      (splitAtDepth_separator (.inl rfl) hparts)
    have hl : (listed ((o :: o' :: os).map Operand.text)).toList =
        o.text.toList ++ ',' :: ' ' :: (listed ((o' :: os).map Operand.text)).toList := by
      simp [listed]
    rw [hl, hs, List.append_nil, List.map_cons, List.map_cons, ho.ofChars ho.trim, ofChars_cons_of_blank rfl, hpart,
      hos']

theorem splitTop_listed {args : List Operand} (h : ∀ o ∈ args, o.Printed) :
    (splitTop ',' (listed (args.map Operand.text)).toList).map Operand.ofChars = args := by
  cases args with
  | nil => rfl
  | cons o os =>
    have hs : Solid (listed ((o :: os).map Operand.text)).toList := by
      refine solid_listed fun t ht => ?_
      rw [← List.map_cons, List.mem_map] at ht
      obtain ⟨o', ho', rfl⟩ := ht
      exact (h o' ho').solid
    rw [splitTop, hs.trim, if_neg (by simpa using hs.ne_nil)]
    exact splitAtDepth_listed h

/-! ### Calls -/

section Calls

variable {name : String} (h : Identifier name)
include h

theorem splitCall?_applied {p : Char → Prop} {inner : List Char} (hi : Nested p inner) :
    splitCall? (name.toList ++ '(' :: (inner ++ [')'])) = some (name.toList, inner) := by
  have hparen : ∀ c ∈ name.toList, (c != '(') = true := fun c hc => by
    rw [bne_iff_ne]
    rintro rfl
    exact absurd (h.chars _ hc) (by decide)
  have hcallee : name.toList.all isCalleeChar = true := List.all_eq_true.2 fun c hc => by
    simp [isCalleeChar, h.chars c hc]
  have htrim := h.solid.trimRight []
  rw [List.nil_append] at htrim
  simp [splitCall?, takeWhile_append_cons hparen, dropWhile_append_cons hparen, htrim, h.start, hcallee,
    splitGroup_of_nested hi]

theorem assignment?_paren (rest : List Char) : assignment? (name.toList ++ '(' :: rest) = none := by
  have hgroups : bracketGroups (trimLeft ('(' :: rest)) = ([], '(' :: rest) := bracketGroups_of_ne (by decide) rest
  rw [h.assignment? rest (by decide) hgroups, assignOperator?.eq_def]
  split
  · rename_i hc
    cases hc
  · rename_i hc
    obtain ⟨rfl, -⟩ := List.cons.inj hc
    rfl
  · rfl

/-- A name with operands in parentheses is a call. -/
theorem ofStatement_applied {args : List Operand} (ha : ∀ o ∈ args, o.Printed) : ∃ parts,
    Command.ofStatement (applied name (args.map Operand.text)).toList = callCommands name parts ∧
      parts.map Operand.ofChars = args := by
  refine ⟨_, ?_, splitTop_listed ha⟩
  have hi : Nested (· ∉ stops) (listed (args.map Operand.text)).toList := (tame_listed fun s hs => by
    obtain ⟨o, ho, rfl⟩ := List.mem_map.1 hs
    exact (ha o ho).tame).nested
  have hcs : (applied name (args.map Operand.text)).toList =
      name.toList ++ '(' :: ((listed (args.map Operand.text)).toList ++ [')']) := by
    simp [applied]
  rw [hcs, Command.ofStatement, h.return? _ (by decide), h.declaration? _ (by decide), h.counting? _ (by decide),
    trimLeft_cons (by decide)]
  simp [properAssignment?, assignment?_paren h, splitCall?_applied h hi]

end Calls

theorem Name.callCommands {name : String} (h : Name name) (parts : List (List Char)) :
    callCommands name parts = [.act (.callUser name (parts.map Operand.ofChars))] := by
  have hgiven {given : String} (hm : given ∈ givenNames) : name ≠ given := fun he => h.own (he ▸ hm)
  have hcolon : ¬ name.toList.contains ':' = true := fun hm =>
    absurd (h.chars ':' (List.contains_iff_mem.1 hm)) (by decide)
  have hbuiltin : Builtin.ofName? name = none := by
    rw [Builtin.ofName?, List.find?_eq_none]
    intro b hb
    rw [beq_iff_eq]
    exact fun he => hgiven (by simp [givenNames, List.mem_map_of_mem hb]) he.symm
  unfold Procedure.callCommands
  simp only
  split
  case h_8 => rw [hbuiltin, if_neg hcolon]
  all_goals exact absurd rfl (hgiven (by decide))

/-! ### Assignments -/

theorem ofStatement_of_counting {target : String} (h : Identifier target) {d : Char} {rest : List Char} {up : Bool}
    (hd : Token.isNameChar d = false) (hcount : counting? (target.toList ++ d :: rest) = some (target.toList, up)) :
    Command.ofStatement (target.toList ++ d :: rest) =
      [.act (.assign target [] (if up then .increment else .decrement) none)] := by
  rw [Command.ofStatement, h.return? _ hd, h.declaration? _ hd, hcount]
  simp

/-- The double signs count a name up or down. -/
theorem ofStatement_count {target : String} (h : Identifier target) {op : AssignOp}
    (hop : op ∈ [AssignOp.increment, .decrement]) :
    Command.ofStatement (target ++ op.sign).toList = [.act (.assign target [] op none)] := by
  rw [String.toList_append]
  simp only [List.mem_cons, List.not_mem_nil, or_false] at hop
  rcases hop with rfl | rfl
  · exact @ofStatement_of_counting _ h '+' _ true rfl (h.counting? ['+'] (by decide))
  · exact @ofStatement_of_counting _ h '-' _ false rfl (h.counting? ['-'] (by decide))

/-- The signs that assign a value. -/
theorem AssignOp.sign_eq {op : AssignOp} (hop : op ∉ [AssignOp.increment, .decrement]) : ∃ e ts found,
    op.sign.toList = e :: ts ∧ isBlank e = false ∧ e ≠ '[' ∧ AssignOp.ofSign found = op ∧
      ∀ rest, assignOperator? (e :: (ts ++ ' ' :: rest)) = some (found, ' ' :: rest) := by
  cases op
  case set => exact ⟨'=', [], none, rfl, by decide, by decide, rfl, fun _ => rfl⟩
  case add => exact ⟨'+', ['='], some '+', rfl, by decide, by decide, rfl, fun _ => rfl⟩
  case sub => exact ⟨'-', ['='], some '-', rfl, by decide, by decide, rfl, fun _ => rfl⟩
  case mul => exact ⟨'*', ['='], some '*', rfl, by decide, by decide, rfl, fun _ => rfl⟩
  case div => exact ⟨'/', ['='], some '/', rfl, by decide, by decide, rfl, fun _ => rfl⟩
  case rem => exact ⟨'%', ['='], some '%', rfl, by decide, by decide, rfl, fun _ => rfl⟩
  all_goals exact absurd (by decide) hop

/-- Texts in brackets. -/
def bracketed : List String → String
  | [] => ""
  | s :: ss => "[" ++ s ++ "]" ++ bracketed ss

theorem toList_bracketed_cons (s : String) (ss : List String) :
    (bracketed (s :: ss)).toList = '[' :: (s.toList ++ ']' :: (bracketed ss).toList) := by
  simp [bracketed]

section Indexed

variable {indices : List Operand}

/-- The indices are found again if no index has an index in it. -/
theorem bracketGroups_bracketed (h : ∀ o ∈ indices, ']' ∉ o.text.toList) {e : Char} (he : isBlank e = false)
    (hb : e ≠ '[') (ts : List Char) :
    bracketGroups (trimLeft ((bracketed (indices.map Operand.text)).toList ++ ' ' :: e :: ts)) =
      (indices.map (·.text.toList), e :: ts) := by
  induction indices with
  | nil =>
    have htrim : trimLeft (' ' :: e :: ts) = e :: ts := trimLeft_cons he ts
    exact (congrArg bracketGroups htrim).trans (bracketGroups_of_ne hb ts)
  | cons o os ih =>
    obtain ⟨ho, hos⟩ := List.forall_mem_cons.1 h
    rw [List.map_cons, toList_bracketed_cons, List.cons_append, List.append_assoc, List.cons_append,
      trimLeft_cons (by decide), bracketGroups_cons ho, ih hos, List.map_cons]

/-- The text behind a name starts with a bracket, or with the space before the sign. -/
theorem bracketed_next (indices : List Operand) (ts : List Char) : ∃ d rest,
    (bracketed (indices.map Operand.text)).toList ++ ' ' :: ts = d :: rest ∧ d ∈ ['[', ' '] := by
  cases indices with
  | nil => exact ⟨' ', ts, rfl, by decide⟩
  | cons o os =>
    rw [List.map_cons, toList_bracketed_cons]
    exact ⟨'[', _, rfl, by decide⟩

variable {target : String} (h : Identifier target)
include h

/-- A name with indices and a text behind a space is an assignment or a call, if it is a statement at all. -/
theorem start_of_indexed (indices : List Operand) {ts : List Char} (hs : ' ' ∈ trimLeft (' ' :: ts)) {cs : List Char}
    (hcs : cs = target.toList ++ ((bracketed (indices.map Operand.text)).toList ++ ' ' :: ts)) :
    return? cs = none ∧ declaration? cs = none ∧ counting? cs = none := by
  have hspace : ' ' ∈ trimLeft ((bracketed (indices.map Operand.text)).toList ++ ' ' :: ts) := by
    cases indices with
    | nil => exact hs
    | cons o os =>
      rw [List.map_cons, toList_bracketed_cons, List.cons_append, trimLeft_cons (by decide)]
      simp
  obtain ⟨d, rest, hnext, hd⟩ := bracketed_next indices ts
  have hname : Token.isNameChar d = false := (by decide : ∀ d ∈ ['[', ' '], Token.isNameChar d = false) d hd
  have hword : isWord d = false := (by decide : ∀ d ∈ ['[', ' '], isWord d = false) d hd
  rw [hnext] at hcs hspace
  subst hcs
  exact ⟨h.return? _ hname, h.declaration? _ hname, h.counting?_none _ hword hspace⟩

theorem ofStatement_assign {op : AssignOp} (hop : op ∉ [AssignOp.increment, .decrement])
    (hi : ∀ i ∈ indices, i.Printed) (hflat : ∀ i ∈ indices, ']' ∉ i.text.toList) {o : Operand} (ho : o.Printed) :
    Command.ofStatement (target ++ bracketed (indices.map Operand.text) ++ " " ++ op.sign ++ " " ++ o.text).toList =
      [.act (.assign target indices op (some o))] := by
  obtain ⟨e, ts, found, hsign, he, hbracket, rfl, hoperator⟩ := AssignOp.sign_eq hop
  obtain ⟨c, ds, hcs, hc⟩ := ho.head
  have hproper : (trim o.text.toList).head? ≠ some '=' := by
    rw [ho.trim, hcs]
    rintro ⟨⟩
    exact absurd hc (by decide)
  have hindices : (indices.map (·.text.toList)).map Operand.ofChars = indices := by
    rw [List.map_map]
    exact (List.map_congr_left fun i hm => (hi i hm).ofChars (hi i hm).trim).trans (List.map_id' indices)
  have htrim : trimLeft (' ' :: e :: (ts ++ ' ' :: o.text.toList)) = e :: (ts ++ ' ' :: o.text.toList) :=
    trimLeft_cons he _
  have htext : (target ++ bracketed (indices.map Operand.text) ++ " " ++ (AssignOp.ofSign found).sign ++ " " ++
      o.text).toList = target.toList ++
        ((bracketed (indices.map Operand.text)).toList ++ ' ' :: e :: (ts ++ ' ' :: o.text.toList)) := by
    simp [hsign]
  have hassign : assignment? (target.toList ++ ((bracketed (indices.map Operand.text)).toList ++
      ' ' :: e :: (ts ++ ' ' :: o.text.toList))) =
        some ⟨target.toList, indices.map (·.text.toList), found, o.text.toList⟩ := by
    have hgroups := bracketGroups_bracketed hflat he hbracket (ts ++ ' ' :: o.text.toList)
    obtain ⟨d, rest, hnext, hd⟩ := bracketed_next indices (e :: (ts ++ ' ' :: o.text.toList))
    rw [hnext] at hgroups ⊢
    rw [h.assignment? rest ((by decide : ∀ d ∈ ['[', ' '], isWord d = false) d hd) hgroups, hoperator]
    simp [ho.nonempty?_blank]
  obtain ⟨hreturn, hdeclaration, hcounting⟩ := start_of_indexed h indices (by simp [htrim]) htext
  rw [Command.ofStatement, hreturn, hdeclaration, hcounting, htext]
  simp [properAssignment?, hassign, hproper, assignmentCommand, hindices, ho.ofChars ho.trim]

end Indexed

/-! ### Phrases -/

/-- A statement without its semicolon. -/
structure Phrase (cs : List Char) (commands : List Command) : Prop where
  headed : ∃ w, Headed w (cs ++ [';']) ∧ w ∉ blockWords
  solid : Solid cs
  tame : Tame (· ∉ stops) cs
  reads : Command.ofStatement cs = commands

theorem Phrase.applied {name : String} (h : Identifier name) (args : List Operand) (ha : ∀ o ∈ args, o.Printed)
    {commands : List Command}
    (hc : ∀ parts : List (List Char), parts.map Operand.ofChars = args → callCommands name parts = commands) :
    Phrase (applied name (args.map Operand.text)).toList commands := by
  obtain ⟨parts, hread, hparts⟩ := ofStatement_applied h ha
  have hcs : (RunningLights.applied name (args.map Operand.text)).toList =
      name.toList ++ '(' :: (listed (args.map Operand.text)).toList ++ [')'] := by
    simp [RunningLights.applied]
  refine ⟨⟨name, ?_, h.not_mem_blockWords⟩, ?_, ?_, hread.trans (hc parts hparts)⟩
  · rw [hcs]
    exact ((h.headed (by decide) _).append _).append _
  · rw [hcs]
    exact h.solid.around _ (.of_forall (by decide) (by decide))
  · refine tame_applied (tame_of_name h.chars).stops fun s hs => ?_
    obtain ⟨o, ho, rfl⟩ := List.mem_map.1 hs
    exact (ha o ho).tame

theorem AssignOp.tame_sign (op : AssignOp) : Tame (· ∉ breaks) op.sign.toList := by
  cases op <;> exact ⟨.of_forall (by decide), by decide⟩

theorem AssignOp.solid_sign (op : AssignOp) : Solid op.sign.toList := by
  cases op <;> exact .of_forall (by decide) (by decide)

theorem tame_bracketed {indices : List Operand} (hi : ∀ i ∈ indices, i.Printed) :
    Tame (· ∉ breaks) (bracketed (indices.map Operand.text)).toList := by
  induction indices with
  | nil => exact ⟨.nil, rfl⟩
  | cons i is ih =>
    obtain ⟨hi, his⟩ := List.forall_mem_cons.1 hi
    rw [List.map_cons, toList_bracketed_cons]
    simpa using (hi.tame.mono (q := fun _ => True) fun _ _ _ => trivial).brackets.append (ih his)

section Signed

variable {name : String} (h : Identifier name) {o : Operand} (ho : o.Printed)
include h ho

/-- A name, a sign and an operand with spaces between them. -/
theorem tame_signed {sign : List Char} (hs : Tame (· ∉ breaks) sign) :
    Tame (· ∉ breaks) (name.toList ++ ' ' :: (sign ++ ' ' :: o.text.toList)) := by
  have hspace : Tame (· ∉ breaks) [' '] := ⟨.of_forall (by decide), by decide⟩
  exact (tame_of_name h.chars).append (hspace.append (hs.append (hspace.append ho.tame)))

theorem solid_signed (sign : List Char) : Solid (name.toList ++ ' ' :: (sign ++ ' ' :: o.text.toList)) := by
  simpa using h.solid.around (' ' :: (sign ++ [' '])) ho.solid

/-- A name with indices, a sign and an operand, whatever that is read as. -/
theorem Phrase.indexed {indices : List Operand} (hi : ∀ i ∈ indices, i.Printed) {op : AssignOp}
    {commands : List Command} (hread : Command.ofStatement
      (name ++ bracketed (indices.map Operand.text) ++ " " ++ op.sign ++ " " ++ o.text).toList = commands) :
    Phrase (name ++ bracketed (indices.map Operand.text) ++ " " ++ op.sign ++ " " ++ o.text).toList commands := by
  have hspace : Tame (· ∉ breaks) [' '] := ⟨.of_forall (by decide), by decide⟩
  obtain ⟨d, rest, hnext, hd⟩ := bracketed_next indices (op.sign.toList ++ ' ' :: o.text.toList)
  have hcallee : isCalleeChar d = false := (by decide : ∀ d ∈ ['[', ' '], isCalleeChar d = false) d hd
  have hcs : (name ++ bracketed (indices.map Operand.text) ++ " " ++ op.sign ++ " " ++ o.text).toList =
      name.toList ++ d :: rest := by
    simp [← hnext]
  have hsolid := h.solid.around ((bracketed (indices.map Operand.text)).toList ++ ' ' :: (op.sign.toList ++ [' ']))
    ho.solid
  have htame := (tame_of_name h.chars).append <| (tame_bracketed hi).append <| hspace.append <| op.tame_sign.append <|
    hspace.append ho.tame
  refine ⟨⟨name, ?_, h.not_mem_blockWords⟩, ?_, ?_, hread⟩
  · rw [hcs]
    exact (h.headed hcallee rest).append _
  · simpa using hsolid
  · simpa using htame.stops

theorem Phrase.assign {op : AssignOp} (hop : op ∉ [AssignOp.increment, .decrement]) :
    Phrase (name ++ " " ++ op.sign ++ " " ++ o.text).toList [.act (.assign name [] op (some o))] := by
  have hread := ofStatement_assign h hop (List.forall_mem_nil _) (List.forall_mem_nil _) ho
  simpa [bracketed] using Phrase.indexed h ho (List.forall_mem_nil _) hread

end Signed

theorem Phrase.count {target : String} (h : Identifier target) {op : AssignOp}
    (hop : op ∈ [AssignOp.increment, .decrement]) :
    Phrase (target ++ op.sign).toList [.act (.assign target [] op none)] := by
  refine ⟨⟨target, ?_, h.not_mem_blockWords⟩, ?_, ?_, ofStatement_count h hop⟩
  all_goals
    rw [String.toList_append]
    simp only [List.mem_cons, List.not_mem_nil, or_false] at hop
  · rcases hop with rfl | rfl
    · exact (h.headed (d := '+') (by decide) ['+']).append _
    · exact (h.headed (d := '-') (by decide) ['-']).append _
  · simpa using h.solid.around [] op.solid_sign
  · exact ((tame_of_name h.chars).append op.tame_sign).stops

/-- **An action is read from its text.** -/
theorem Action.phrase {a : Action} (h : a.Written) : Phrase a.code.toList [.act a] := by
  cases a with
  | set channel state =>
    have hset : Identifier "set" := ⟨by decide, by decide, by decide⟩
    refine .applied hset [channel, state] ?_ fun parts hp => ?_
    · simpa [Written] using h
    · simp [callCommands, hp]
  | sleep delay =>
    have hsleep : Identifier "sleep" := ⟨by decide, by decide, by decide⟩
    refine .applied hsleep delay.toList ?_ fun parts hp => ?_
    · simpa [Written] using h
    · simp [callCommands, hp]
  | allOn =>
    have hon : Identifier "on" := ⟨by decide, by decide, by decide⟩
    refine .applied hon [] nofun fun parts hp => ?_
    simp [callCommands, hp]
  | allOff =>
    have hoff : Identifier "off" := ⟨by decide, by decide, by decide⟩
    refine .applied hoff [] nofun fun parts hp => ?_
    simp [callCommands, hp]
  | declare d => cases h
  | assign target indices op value =>
    obtain ⟨hname, rfl, hvalue, ho⟩ := h
    cases value with
    | none => exact .count hname.toIdentifier (hvalue.1 rfl)
    | some o => exact .assign hname.toIdentifier (ho o rfl) fun hm => nomatch hvalue.2 hm
  | callBuiltin b args => cases h
  | callUser name args =>
    refine .applied h.1.toIdentifier args h.2 fun parts hp => ?_
    rw [h.1.callCommands, hp]

theorem phrase_return : Phrase "return".toList [.ret none] :=
  ⟨⟨"return", ⟨by decide, by decide, ';', [], rfl, by decide⟩, by decide⟩,
    .of_forall (by decide) (by decide), (tame_of_name (by decide)).stops, rfl⟩

theorem phrase_return_value {o : Operand} (ho : o.Printed) : Phrase ("return " ++ o.text).toList [.ret (some o)] := by
  have hcs : ("return " ++ o.text).toList = "return".toList ++ ' ' :: o.text.toList := by simp
  rw [hcs]
  refine ⟨⟨"return", ⟨by decide, by decide, ' ', o.text.toList ++ [';'], by simp, by decide⟩, by decide⟩, ?_, ?_, ?_⟩
  · have hr : Solid "return".toList := .of_forall (by decide) (by decide)
    simpa using hr.around [' '] ho.solid
  · have hspace : Tame (· ∉ breaks) [' '] := ⟨.of_forall (by decide), by decide⟩
    exact ((tame_of_name (by decide)).append (hspace.append ho.tame)).stops
  · have hr : return? ("return".toList ++ ' ' :: o.text.toList) = some (some o) := by
      have hread : return? ("return".toList ++ ' ' :: o.text.toList) =
          some (some (Operand.ofChars (' ' :: o.text.toList))) := rfl
      rw [hread, ofChars_cons_of_blank (by decide), ho.ofChars ho.trim]
    rw [Command.ofStatement, hr]

end RunningLights
