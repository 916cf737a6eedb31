import RunningLights.Proofs.Program.Statements

/-!
# Heads of blocks are read from their texts

* `LoopHeader.ofChars?_code` — the header of a counted loop, of which the parts are found between semicolons;
* `paramNames_listed` — a parameter list;
* `lambdaHead?_code`, `functionHead?_code` — the heads of lambdas and functions.
-/

namespace RunningLights

open Procedure Text

/-! ### Headers of counted loops -/

theorem leadingWord?_int {words : List String} (hint : "int" ∈ words) {rest : List Char}
    (hrest : trimLeft rest = rest) : leadingWord? words ("int".toList ++ ' ' :: rest) = some ("int", rest) := by
  have hw : ∀ c ∈ "int".toList, (!isBlank c) = true := by decide
  rw [leadingWord?, takeWhile_append_cons hw (by decide), dropWhile_append_cons hw (by decide)]
  have hblank : afterBlanks? (' ' :: rest) = some rest := by
    have htrim : trimLeft (' ' :: rest) = trimLeft rest := List.dropWhile_cons_of_pos (by decide)
    rw [afterBlanks?, if_pos (by rfl), htrim, hrest]
  simp [hint, hblank]

section Parts

variable {name : String} (h : Identifier name) {o : Operand} (ho : o.Printed)
include h ho

theorem loopInit?_code : loopInit? ("int".toList ++ ' ' :: (name.toList ++ ' ' :: '=' :: ' ' :: o.text.toList)) =
    some (name.toList, o.text.toList) := by
  have hn : name ∉ counterTypes := fun hm => h.free (by simp [keywords, hm])
  have hwords : leadingWords counterTypes ("int".toList ++ ' ' :: (name.toList ++ ' ' :: '=' :: ' ' :: o.text.toList)) =
      [(["int"], name.toList ++ ' ' :: '=' :: ' ' :: o.text.toList),
        ([], "int".toList ++ ' ' :: (name.toList ++ ' ' :: '=' :: ' ' :: o.text.toList))] := by
    rw [leadingWords_of_some (leadingWord?_int (by decide) (h.solid.trimLeft _)),
      leadingWords_of_none (leadingWord?_none (by decide) h.chars hn (by decide) _)]
    rfl
  have hsign : trimLeft (' ' :: '=' :: ' ' :: o.text.toList) = '=' :: ' ' :: o.text.toList := rfl
  have hafter : after? "=" ('=' :: ' ' :: o.text.toList) = some (' ' :: o.text.toList) := rfl
  rw [loopInit?, hwords]
  simp [h.name? _ (d := ' ') (by decide), hsign, hafter, ho.nonempty?_blank]

theorem solid_init : Solid ("int".toList ++ ' ' :: (name.toList ++ ' ' :: '=' :: ' ' :: o.text.toList)) := by
  have hint : Solid "int".toList := .of_forall (by decide) (by decide)
  simpa using hint.around [' '] (solid_signed h ho ['='])

/-- A comparison is recognised by its sign, behind which a space stands. -/
theorem loopTest?_code {sign : List Char} {below inclusive : Bool} (hs : Solid sign)
    (hsign : ∀ {rest bound}, nonempty? (trimLeft (' ' :: rest)) = some bound →
      comparison? (sign ++ ' ' :: rest) = some (below, inclusive, bound)) :
    loopTest? (name.toList ++ ' ' :: (sign ++ ' ' :: o.text.toList)) =
      some ⟨name.toList, below, inclusive, o.text.toList⟩ := by
  have ht : trimLeft (' ' :: (sign ++ ' ' :: o.text.toList)) = sign ++ ' ' :: o.text.toList := hs.trimLeft _
  rw [loopTest?, h.name? _ (by decide)]
  simp [ht, hsign ho.nonempty?_blank]

theorem loopStep?_code {op : AssignOp} (hop : op = .add ∨ op = .sub) :
    loopStep? name.toList (name.toList ++ ' ' :: (op.sign.toList ++ ' ' :: o.text.toList)) =
      some ⟨name.toList, op == .add, some o.text.toList⟩ := by
  have ht : trimLeft (' ' :: (op.sign.toList ++ ' ' :: o.text.toList)) = op.sign.toList ++ ' ' :: o.text.toList :=
    op.solid_sign.trimLeft _
  have hcount := h.counting?_none (op.sign.toList ++ ' ' :: o.text.toList) (d := ' ') (by decide) (by simp [ht])
  have hamount (up : Bool) : (nonempty? (trimLeft (' ' :: o.text.toList))).map
      (fun amount => (⟨name.toList, up, some amount⟩ : LoopStep)) = some ⟨name.toList, up, some o.text.toList⟩ := by
    rw [ho.nonempty?_blank, Option.map_some]
  have hshort : shortStep? (name.toList ++ ' ' :: (op.sign.toList ++ ' ' :: o.text.toList)) =
      some ⟨name.toList, op == .add, some o.text.toList⟩ := by
    rw [shortStep?, h.name? _ (by decide)]
    simp only [Option.bind_eq_bind, Option.bind_some, ht]
    rcases hop with rfl | rfl
    · exact hamount true
    · exact hamount false
  rw [loopStep?, hcount]
  simp [hshort]

end Parts

namespace Direction

theorem solid_comparison (d : Direction) (inclusive : Bool) : Solid (d.comparison inclusive).toList := by
  cases d <;> cases inclusive <;> exact .of_forall (by decide) (by decide)

theorem tame_comparison (d : Direction) (inclusive : Bool) : Tame (· ∉ breaks) (d.comparison inclusive).toList := by
  cases d <;> cases inclusive <;> exact .of_forall (by decide) (by decide)

theorem comparison?_code (d : Direction) (inclusive : Bool) {rest bound : List Char}
    (hb : nonempty? (trimLeft (' ' :: rest)) = some bound) :
    comparison? ((d.comparison inclusive).toList ++ ' ' :: rest) = some (d == .forward, inclusive, bound) := by
  cases d <;> cases inclusive <;> simp [comparison, comparison?, hb]

end Direction

/-- Three texts with semicolons and spaces between them. -/
theorem splitTop_semicolons {cs₁ cs₂ cs₃ : List Char} {p : Char → Prop} (hp : ∀ c, p c → c ≠ ';')
    (h₁ : Nested p cs₁) (h₂ : Nested p cs₂) (h₃ : Nested p cs₃) (hs₁ : Solid cs₁) (hs₃ : Solid cs₃) :
    splitTop ';' (cs₁ ++ ';' :: ' ' :: (cs₂ ++ ';' :: ' ' :: cs₃)) = [cs₁, ' ' :: cs₂, ' ' :: cs₃] := by
  have hs : Solid (cs₁ ++ ';' :: ' ' :: (cs₂ ++ ';' :: ' ' :: cs₃)) := by
    simpa using hs₁.around (';' :: ' ' :: (cs₂ ++ [';', ' '])) hs₃
  have hthird := h₃.splitAtDepth_end (.inr rfl) hp
  have hsecond := h₂.splitAtDepth (.inr rfl) hp (splitAtDepth_separator (.inr rfl) hthird)
  have hfirst := h₁.splitAtDepth (.inr rfl) hp (splitAtDepth_separator (.inr rfl) hsecond)
  rw [splitTop, hs.trim, if_neg (by simp), hfirst]
  simp

namespace LoopHeader

theorem toList_code (h : LoopHeader) : h.code.toList =
    ("int".toList ++ ' ' :: (h.var.toList ++ ' ' :: '=' :: ' ' :: h.start.text.toList)) ++ ';' :: ' ' ::
      ((h.var.toList ++ ' ' :: ((h.direction.comparison h.inclusive).toList ++ ' ' :: h.bound.text.toList)) ++
        ';' :: ' ' :: (h.var.toList ++ ' ' :: (h.direction.advance.sign.toList ++ ' ' :: h.step.text.toList))) := by
  unfold LoopHeader.code
  simp only [String.toList_append, List.append_assoc, List.cons_append]
  rfl

variable {h : LoopHeader} (hw : h.Written)
include hw

theorem tame_init : Tame (· ∉ breaks)
    ("int".toList ++ ' ' :: (h.var.toList ++ ' ' :: '=' :: ' ' :: h.start.text.toList)) := by
  have hint : Tame (· ∉ breaks) "int ".toList := ⟨.of_forall (by decide), by decide⟩
  have hset : Tame (· ∉ breaks) ['='] := ⟨.of_forall (by decide), by decide⟩
  exact hint.append (tame_signed hw.var.toIdentifier hw.start hset)

theorem tame_test : Tame (· ∉ breaks)
    (h.var.toList ++ ' ' :: ((h.direction.comparison h.inclusive).toList ++ ' ' :: h.bound.text.toList)) :=
  tame_signed hw.var.toIdentifier hw.bound (h.direction.tame_comparison h.inclusive)

theorem tame_step : Tame (· ∉ breaks)
    (h.var.toList ++ ' ' :: (h.direction.advance.sign.toList ++ ' ' :: h.step.text.toList)) :=
  tame_signed hw.var.toIdentifier hw.step h.direction.advance.tame_sign

theorem tame_code : Tame (fun _ => True) h.code.toList := by
  have hplain {cs : List Char} (h : Tame (· ∉ breaks) cs) : Tame (fun _ => True) cs := h.mono fun _ _ _ => trivial
  have hnext : Tame (fun _ => True) [';', ' '] := ⟨.of_forall (by decide), by decide⟩
  rw [toList_code]
  exact (hplain (tame_init hw)).append (hnext.append ((hplain (tame_test hw)).append
    (hnext.append (hplain (tame_step hw)))))

theorem splitTop_code : splitTop ';' h.code.toList =
    ["int".toList ++ ' ' :: (h.var.toList ++ ' ' :: '=' :: ' ' :: h.start.text.toList),
      ' ' :: (h.var.toList ++ ' ' :: ((h.direction.comparison h.inclusive).toList ++ ' ' :: h.bound.text.toList)),
      ' ' :: (h.var.toList ++ ' ' :: (h.direction.advance.sign.toList ++ ' ' :: h.step.text.toList))] := by
  rw [toList_code]
  exact splitTop_semicolons (fun c hc hm => hc (by rw [hm]; decide)) (tame_init hw).nested (tame_test hw).nested
    (tame_step hw).nested (solid_init hw.var.toIdentifier hw.start) (solid_signed hw.var.toIdentifier hw.step _)

theorem ofChars?_code : ofChars? h.code.toList = some h := by
  have hname := hw.var.toIdentifier
  have hinit := loopInit?_code hname hw.start
  have htest := loopTest?_code hname hw.bound (h.direction.solid_comparison h.inclusive)
    (h.direction.comparison?_code h.inclusive)
  have hadvance : h.direction.advance = .add ∨ h.direction.advance = .sub := by
    cases h.direction <;> simp [Direction.advance]
  have hstep := loopStep?_code hname hw.step hadvance
  have hup : (h.direction.advance == AssignOp.add) = (h.direction == .forward) := by
    cases h.direction <;> rfl
  have hdirection : (if h.direction = .forward then Direction.forward else .reverse) = h.direction := by
    cases h.direction <;> rfl
  rw [ofChars?, splitTop_code hw]
  simp only
  rw [(solid_init hname hw.start).trim, trim_cons_of_blank rfl, (solid_signed hname hw.bound _).trim,
    trim_cons_of_blank rfl, (solid_signed hname hw.step _).trim, hinit, htest]
  simp [hstep, hup, hdirection, hw.start.ofChars hw.start.trim, hw.bound.ofChars hw.bound.trim,
    hw.step.ofChars hw.step.trim]

end LoopHeader

/-! ### Parameter lists -/

theorem splitAll_append {separator : Char} {cs rest part : List Char} {parts : List (List Char)} (hcs : separator ∉ cs)
    (h : splitAll separator rest = part :: parts) : splitAll separator (cs ++ rest) = (cs ++ part) :: parts := by
  induction cs with
  | nil => exact h
  | cons c cs ih =>
    simp only [List.mem_cons, not_or] at hcs
    rw [List.cons_append, splitAll, if_neg (by simpa using Ne.symm hcs.1), ih hcs.2]
    rfl

theorem paramName?_int {param : String} (h : Identifier param) (bs : List Char) (hb : ∀ c ∈ bs, isBlank c = true) :
    paramName? (bs ++ ("int".toList ++ ' ' :: param.toList)) = some param := by
  have hint : Solid "int".toList := .of_forall (by decide) (by decide)
  have hset : ∀ c ∈ bs ++ ("int".toList ++ ' ' :: param.toList), (c != '=') = true := by
    intro c hc
    rw [bne_iff_ne]
    rintro rfl
    simp only [List.mem_append, List.mem_cons] at hc
    rcases hc with hc | hc | hc | hc
    · exact absurd (hb _ hc) (by decide)
    · exact absurd hc (by decide)
    · cases hc
    · exact absurd (h.chars _ hc) (by decide)
  have htake : (bs ++ ("int".toList ++ ' ' :: param.toList)).takeWhile (· != '=') =
      bs ++ ("int".toList ++ ' ' :: param.toList) := by
    rw [← List.append_nil (bs ++ _), List.takeWhile_append_of_pos hset, List.takeWhile_nil]
  have htrim : trim (bs ++ ("int".toList ++ ' ' :: param.toList)) = "int".toList ++ ' ' :: param.toList := by
    have hs : Solid ("int".toList ++ ' ' :: param.toList) := by simpa using hint.around [' '] h.solid
    have ht := hs.trim
    rw [trim] at ht ⊢
    rw [trimLeft_append_of_blank hb, ht]
  have hlast : ∀ c ∈ param.toList.reverse, Token.isNameChar c = true := fun c hc => h.chars c (List.mem_reverse.1 hc)
  have hdeclared : (dropBracketPairs ("int".toList ++ ' ' :: param.toList).reverse).dropWhile isBlank =
      param.toList.reverse ++ ' ' :: "int".toList.reverse := by
    have hrev : ("int".toList ++ ' ' :: param.toList).reverse =
        param.toList.reverse ++ ' ' :: "int".toList.reverse := by
      simp
    rw [hrev]
    cases hr : param.toList.reverse with
    | nil => exact absurd (List.reverse_eq_nil_iff.1 hr) h.solid.ne_nil
    | cons c r =>
      have hc : Token.isNameChar c = true := hlast c (by simp [hr])
      have hdrop : dropBracketPairs (c :: (r ++ ' ' :: "int".toList.reverse)) =
          c :: (r ++ ' ' :: "int".toList.reverse) := by
        rw [dropBracketPairs]
        rintro _ hcons
        rw [(List.cons.inj hcons).1] at hc
        cases hc
      rw [List.cons_append, hdrop]
      exact List.dropWhile_cons_of_neg (by simp [Token.isBlank_of_isNameChar hc])
  unfold paramName?
  simp only [htake, htrim, hdeclared, takeWhile_append_cons hlast (by decide : Token.isNameChar ' ' = false)]
  rw [if_neg (by simpa using h.solid.ne_nil)]
  simp

theorem toList_int (param : String) : ("int " ++ param).toList = "int".toList ++ ' ' :: param.toList := by
  rw [String.toList_append]
  rfl

theorem mem_parameters {params : List String} (h : ∀ param ∈ params, Name param) :
    ∀ s ∈ parameters params, ∀ c ∈ s.toList, (Token.isNameChar c || c == ' ') = true := by
  intro s hs c hc
  obtain ⟨param, hparam, rfl⟩ := List.mem_map.1 hs
  rw [toList_int, List.mem_append, List.mem_cons] at hc
  rcases hc with hc | rfl | hc
  · rw [(by decide : ∀ c ∈ "int".toList, Token.isNameChar c = true) c hc, Bool.true_or]
  · rfl
  · rw [(h param hparam).chars c hc, Bool.true_or]

theorem splitAll_listed {s : String} {ss : List String} (h : ∀ t ∈ s :: ss, ',' ∉ t.toList) :
    splitAll ',' (listed (s :: ss)).toList = s.toList :: ss.map fun t => ' ' :: t.toList := by
  induction ss generalizing s with
  | nil =>
    have hs : splitAll ',' (s.toList ++ []) = [s.toList ++ []] := splitAll_append (h s List.mem_cons_self) rfl
    rw [List.append_nil] at hs
    exact hs
  | cons s' ss ih =>
    obtain ⟨hs, hss⟩ := List.forall_mem_cons.1 h
    have hrest : splitAll ',' (',' :: ' ' :: (listed (s' :: ss)).toList) =
        [] :: (' ' :: s'.toList) :: ss.map fun t => ' ' :: t.toList := by
      simp [splitAll, ih hss]
    have hl : (listed (s :: s' :: ss)).toList = s.toList ++ ',' :: ' ' :: (listed (s' :: ss)).toList := by
      simp [listed]
    rw [hl, splitAll_append hs hrest, List.append_nil, List.map_cons]

theorem filterMap_paramName? {params : List String} (h : ∀ param ∈ params, Name param) :
    ((parameters params).map fun t => ' ' :: t.toList).filterMap paramName? = params := by
  induction params with
  | nil => rfl
  | cons param params ih =>
    obtain ⟨hp, hps⟩ := List.forall_mem_cons.1 h
    have hfirst : paramName? (' ' :: ("int " ++ param).toList) = some param := by
      rw [toList_int]
      exact paramName?_int hp.toIdentifier [' '] (by decide)
    rw [parameters, List.map_cons, List.map_cons, List.filterMap_cons, hfirst]
    exact congrArg (param :: ·) (ih hps)

theorem paramNames_listed {params : List String} (h : ∀ param ∈ params, Name param) :
    paramNames (listed (parameters params)).toList = params := by
  have hcomma : ∀ s ∈ parameters params, ',' ∉ s.toList := fun s hs hc =>
    absurd (mem_parameters h s hs ',' hc) (by decide)
  cases params with
  | nil => rfl
  | cons param params =>
    obtain ⟨hp, hps⟩ := List.forall_mem_cons.1 h
    have hfirst : paramName? ("int " ++ param).toList = some param := by
      rw [toList_int]
      exact paramName?_int hp.toIdentifier [] nofun
    rw [paramNames, parameters, List.map_cons, splitAll_listed hcomma, List.filterMap_cons, hfirst]
    exact congrArg (param :: ·) (filterMap_paramName? hps)

/-! ### Heads of lambdas and functions -/

/-- A text between brackets that does not have the closing one in it. -/
theorem between?_append {opening closing : Char} {cs : List Char} (h : closing ∉ cs) (rest : List Char) :
    between? opening closing (opening :: (cs ++ closing :: rest)) = some (cs, rest) := by
  have hcs : ∀ c ∈ cs, (c != closing) = true := fun c hc => by
    rw [bne_iff_ne]
    rintro rfl
    exact h hc
  simp [between?, takeWhile_append_cons hcs, dropWhile_append_cons hcs]

section Heads

variable {name : String} (h : Identifier name)
include h

theorem lambdaHead?_code {capture params : List Char} (hcapture : ']' ∉ capture) (hparams : ')' ∉ params) :
    lambdaHead? ("auto".toList ++ ' ' :: (name.toList ++ ' ' :: '=' :: ' ' :: '[' :: (capture ++
      ']' :: '(' :: (params ++ [')'])))) = some ⟨name.toList, capture, params⟩ := by
  have hafter (rest : List Char) : after? "auto" ("auto".toList ++ rest) = some rest := rfl
  have hset (rest : List Char) : after? "=" (trimLeft (' ' :: '=' :: rest)) = some rest := rfl
  have hopen (rest : List Char) : trimLeft (' ' :: '[' :: rest) = '[' :: rest := rfl
  have hparen (rest : List Char) : trimLeft ('(' :: rest) = '(' :: rest := rfl
  have htail : isLambdaTail [] = true := rfl
  simp only [lambdaHead?, hafter, h.afterBlanks?_space, h.name? _ (by decide : isWord ' ' = false), hset, hopen,
    between?_append hcapture, hparen, between?_append hparams, htail, Option.bind_eq_bind, Option.bind_some, if_true]

theorem functionHead?_code {params : List Char} (hclose : ')' ∉ params) (hopen : '(' ∉ params) :
    functionHead? ("int".toList ++ ' ' :: (name.toList ++ '(' :: (params ++ [')']))) = some ⟨name.toList, params⟩ := by
  obtain ⟨c, cs, hcs, hc⟩ := h.head
  have hnone :
      leadingWord? functionModifiers ("int".toList ++ ' ' :: (name.toList ++ '(' :: (params ++ [')']))) = none :=
    leadingWord?_none (by decide) (by decide) (by decide) (by decide) _
  have hmodifiers := leadingWords_of_none hnone
  have hword : ∀ c ∈ "int".toList, isAsciiWord c = true := by decide
  have hspace : isAsciiWord ' ' = false := by decide
  have htype (rest : List Char) : afterResultType ("int".toList ++ ' ' :: rest) = [' ' :: rest] := by
    rw [afterResultType, takeWhile_append_cons hword hspace, dropWhile_append_cons hword hspace]
    rfl
  have hblanks : afterBlanks? (' ' :: (name.toList ++ '(' :: (params ++ [')']))) =
      some (name.toList ++ '(' :: (params ++ [')'])) := h.afterBlanks?_space _
  have hgap : afterTypeGap? (' ' :: (name.toList ++ '(' :: (params ++ [')']))) =
      some (name.toList ++ '(' :: (params ++ [')'])) := by
    rw [afterTypeGap?]
    split
    · rename_i hstar
      rw [h.trimLeft_space, hcs] at hstar
      rw [(List.cons.inj hstar).1] at hc
      cases hc
    · rename_i hreference
      rw [h.trimLeft_space, hcs] at hreference
      rw [(List.cons.inj hreference).1] at hc
      cases hc
    · exact hblanks
  have hqualified : ∀ c ∈ name.toList, isQualifiedChar c = true := fun c hc => by
    rw [isQualifiedChar, isWord_of_isNameChar (h.chars c hc), Bool.true_or]
  have hparen : trimLeft ('(' :: (params ++ [')'])) = '(' :: (params ++ [')']) := rfl
  have hnamed : namedParams? (name.toList ++ '(' :: (params ++ [')'])) = some ⟨name.toList, params⟩ := by
    have hstart : Token.startsWith Token.isNameStart (name.toList ++ '(' :: (params ++ [')'])) = true := by
      rw [hcs]
      exact hc
    have htail : isFunctionTail [] = true := rfl
    simp [namedParams?, hstart, takeWhile_append_cons hqualified (by decide : isQualifiedChar '(' = false),
      dropWhile_append_cons hqualified (by decide : isQualifiedChar '(' = false), hparen, between?_append hclose, hopen,
      htail]
  simp only [functionHead?, hmodifiers, List.findSome?_singleton, htype, hgap, Option.bind_some, hnamed]

end Heads

/-- A head of a lambda or of a function, and the command that it is read as. -/
structure HeadPhrase (cs : List Char) (opener : Command) : Prop where
  headed : ∃ w, Headed w cs ∧ w ∉ blockWords
  solid : Solid cs
  tame : Tame (· ∉ stops) cs
  reads : (∃ l, lambdaHead? cs = some l ∧ opener =
      .lambdaStart (String.ofList l.name) (String.ofList (trim l.capture)) (paramNames l.params)) ∨
    (lambdaHead? cs = none ∧ ∃ f, functionHead? cs = some f ∧ opener =
      .functionStart (String.ofList f.name) (paramNames f.params))

section HeadPhrases

variable {name : String} (hname : Name name) {params : List String} (hparams : ∀ param ∈ params, Name param)
include hparams

theorem not_mem_parameters {c : Char} (hc : c = '(' ∨ c = ')') : c ∉ (listed (parameters params)).toList := by
  intro hm
  rcases mem_listed hm with ⟨s, hs, hcs⟩ | hcs
  · have hclass := mem_parameters hparams s hs c hcs
    rcases hc with rfl | rfl <;> cases hclass
  · rcases hc with rfl | rfl <;> exact absurd hcs (by decide)

theorem tame_parameters : ∀ s ∈ parameters params, Tame (· ∉ breaks) s.toList := fun s hs => by
  have hc := mem_parameters hparams s hs
  exact .of_forall (fun c h => not_mem_of_class (p := fun c => Token.isNameChar c || c == ' ') (by decide) (hc c h))
    fun c h => not_mem_of_class (p := fun c => Token.isNameChar c || c == ' ') (by decide) (hc c h)

include hname

theorem headPhrase_lambda {capture : String} (hcapture : Capture capture) :
    HeadPhrase (applied ("auto " ++ name ++ " = [" ++ capture ++ "]") (parameters params)).toList
      (.lambdaStart name capture params) := by
  have hclass {ds : List Char} (h : ∀ d ∈ ds, (Token.isNameChar d || [' ', ',', '&', '='].contains d) = false) :
      ∀ c ∈ capture.toList, c ∉ ds := fun c hc => not_mem_of_class h (hcapture.chars c hc)
  have hcs : (applied ("auto " ++ name ++ " = [" ++ capture ++ "]") (parameters params)).toList =
      "auto".toList ++ ' ' :: (name.toList ++ ' ' :: '=' :: ' ' :: '[' :: (capture.toList ++
        ']' :: '(' :: ((listed (parameters params)).toList ++ [')']))) := by
    simp [applied]
  have hauto : Solid "auto".toList := .of_forall (by decide) (by decide)
  have hend : Solid [')'] := .of_forall (by decide) (by decide)
  have hread := lambdaHead?_code hname.toIdentifier (fun hm => hclass (by decide) ']' hm (List.mem_singleton.2 rfl))
    (not_mem_parameters hparams (.inr rfl))
  rw [← hcs] at hread
  constructor
  case headed =>
    rw [hcs]
    exact ⟨"auto", ⟨by decide, by decide, ' ', _, rfl, by decide⟩, by decide⟩
  case solid =>
    rw [hcs]
    simpa using hauto.around (' ' :: (name.toList ++ ' ' :: '=' :: ' ' :: '[' :: (capture.toList ++
        ']' :: '(' :: (listed (parameters params)).toList))) hend
  case tame =>
    refine tame_applied ?_ (tame_parameters hparams)
    have hplain : Tame (fun _ => True) capture.toList :=
      ⟨.of_forall fun c hc => ⟨bracketStep_eq_zero (hclass (by decide) c hc), trivial⟩,
        isQuiet_of_forall (hclass (by decide))⟩
    have hfirst : Tame (· ∉ stops) "auto ".toList := ⟨.of_forall (by decide), by decide⟩
    have hset : Tame (· ∉ stops) " = ".toList := ⟨.of_forall (by decide), by decide⟩
    have hall := (hfirst.append (tame_of_name hname.chars).stops).append (hset.append hplain.brackets)
    simpa using hall
  case reads => exact .inl ⟨_, hread, by simp [hcapture.trim, paramNames_listed hparams]⟩

theorem headPhrase_function :
    HeadPhrase (applied ("int " ++ name) (parameters params)).toList (.functionStart name params) := by
  have hcs : (applied ("int " ++ name) (parameters params)).toList =
      "int".toList ++ ' ' :: (name.toList ++ '(' :: ((listed (parameters params)).toList ++ [')'])) := by
    simp [applied]
  have hint : Solid "int".toList := .of_forall (by decide) (by decide)
  have hend : Solid [')'] := .of_forall (by decide) (by decide)
  have hread := functionHead?_code hname.toIdentifier (not_mem_parameters hparams (.inr rfl))
    (not_mem_parameters hparams (.inl rfl))
  rw [← hcs] at hread
  constructor
  case headed =>
    rw [hcs]
    exact ⟨"int", ⟨by decide, by decide, ' ', _, rfl, by decide⟩, by decide⟩
  case solid =>
    rw [hcs]
    simpa using hint.around (' ' :: (name.toList ++ '(' :: (listed (parameters params)).toList)) hend
  case tame =>
    refine tame_applied ?_ (tame_parameters hparams)
    have hfirst : Tame (· ∉ stops) "int ".toList := ⟨.of_forall (by decide), by decide⟩
    simpa using hfirst.append (tame_of_name hname.chars).stops
  case reads =>
    have hnone : lambdaHead? (applied ("int " ++ name) (parameters params)).toList = none := by
      rw [hcs]
      rfl
    exact .inr ⟨hnone, _, hread, by simp [paramNames_listed hparams]⟩

end HeadPhrases

end RunningLights
