import RunningLights.Proofs.Program.Pieces

/-!
# The commands of a program are those of its pieces

* `Determined` — what a part of the reader does is the same for all texts that show the same pieces;
* `exists_step`, `exists_run` — so is what a step and a run of it do;
* `exists_ofSource` — so are the commands of a program; those of its statements are among them, in their order, and no
  others of their kind.
-/

namespace RunningLights

open Procedure Text

def Command.isSimple : Command → Bool
  | .act _ | .ret _ => true
  | _ => false

namespace Procedure

/-! ### Parts of the reader -/

def simple (cs : List Command) : List Command := cs.filter Command.isSimple

def statements (ps : List Piece) : List Command := ps.flatMap Piece.commands

/-- What a statement is read as opens and closes no block. -/
theorem simple_ofStatement (cs : List Char) : simple (Command.ofStatement cs) = Command.ofStatement cs := by
  rw [simple, List.filter_eq_self]
  intro c hc
  have hflat := flat_ofStatement cs c hc []
  cases c with
  | act | ret => rfl
  | _ => cases hflat

theorem simple_append (cs ds : List Command) : simple (cs ++ ds) = simple cs ++ simple ds := List.filter_append ..

theorem statements_cons (p : Piece) (ps : List Piece) : statements (p :: ps) = p.commands ++ statements ps := rfl

theorem statements_afterSemicolon (ps : List Piece) : statements (afterSemicolon ps) = statements ps := by
  unfold afterSemicolon
  split <;> rfl

/-- Where a text shows `ps`, the part `f` of the reader opens and closes the same blocks and writes the same commands
whatever the text is, and the text behind shows the same pieces again.  The simple commands, with those of the
statements that are to come, are `all`. -/
def Determined (all : List Command) (ps : List Piece) (f : List Char → Array Command → Reader) : Prop :=
  ∃ qs blocks more, qs.length ≤ ps.length ∧ simple more ++ statements qs = all ∧ ∀ cs, Shows ps cs →
    ∃ rest, rest.length ≤ cs.length ∧ Shows qs rest ∧ ∀ before, f cs before = ⟨rest, blocks, before ++ more⟩

theorem append_nil (before : Array Command) : before ++ ([] : List Command) = before := by
  rw [← Array.toList_inj]
  simp

theorem append_singleton (before : Array Command) (c : Command) : before ++ [c] = before.push c := by
  rw [← Array.toList_inj]
  simp

namespace Determined

variable {all : List Command} {ps qs : List Piece} {g : List Char → Array Command → Reader}

theorem stay (ps : List Piece) (blocks : List Block) :
    Determined (statements ps) ps fun cs before => ⟨cs, blocks, before⟩ :=
  ⟨ps, blocks, [], Nat.le_refl _, rfl, fun cs h => ⟨cs, Nat.le_refl _, h, fun before => by rw [append_nil]⟩⟩

/-- A part that goes over to another one once it has written commands. -/
theorem through (f : List Char → Array Command → Reader) (more : List Command) (hg : Determined all qs g)
    (hlen : qs.length ≤ ps.length) (h : ∀ cs, Shows ps cs → ∃ rest, rest.length ≤ cs.length ∧ Shows qs rest ∧
      ∀ before, f cs before = g rest (before ++ more)) : Determined (simple more ++ all) ps f := by
  obtain ⟨qs', blocks, more', hlen', hall, hread⟩ := hg
  refine ⟨qs', blocks, more ++ more', by omega, ?_, ?_⟩
  · rw [simple_append, List.append_assoc, hall]
  · intro cs hcs
    obtain ⟨rest, hrest, hs, hf⟩ := h cs hcs
    obtain ⟨rest', hrest', hs', hg⟩ := hread rest hs
    refine ⟨rest', by omega, hs', fun before => ?_⟩
    rw [hf, hg, append_append]

end Determined

/-- The end of a block is the same in all texts that show the pieces. -/
theorem exists_close (b : Block) (ps : List Piece) : ∃ qs more, qs.length ≤ ps.length ∧ simple more = [] ∧
    statements qs = statements ps ∧ ∀ cs, Shows ps cs →
      (b.close cs).1 = more ∧ Shows qs (b.close cs).2 ∧ (b.close cs).2.length ≤ cs.length := by
  obtain ⟨kind, braced⟩ := b
  cases kind with
  | doLoop =>
    rcases header_or .tested ps with ⟨inner, rest, rfl⟩ | hnone
    · refine ⟨afterSemicolon rest, [.doEnd (some (Operand.ofChars inner))], ?_, rfl, ?_, ?_⟩
      · have := length_afterSemicolon_le rest
        rw [List.length_cons]
        omega
      · rw [statements_afterSemicolon]
        rfl
      · intro cs h
        have hnext : comesNext "while" cs = true := h.comesNext (by decide)
        cases h with
        | @header _ _ rest _ _ hh hg hlen hs =>
          have hclose : Block.close ⟨.doLoop, braced⟩ cs =
              ([.doEnd (some (Operand.ofChars inner))], dropSemicolon rest) := by
            have hgroup : group (dropKeyword "while" cs) = (some inner, rest) := hg
            simp only [Block.close, hnext, if_true, hgroup, Option.map_some]
          obtain ⟨hs', hlen'⟩ := hs.dropSemicolon
          have htrim := length_trimLeft_le cs
          have hle : (dropSemicolon rest).length ≤ cs.length := by omega
          rw [hclose]
          exact ⟨rfl, hs', hle⟩
    · refine ⟨ps, [.doEnd none], Nat.le_refl _, rfl, rfl, fun cs h => ?_⟩
      have hnext : comesNext "while" cs = false := hnone cs h
      have hclose : Block.close ⟨.doLoop, braced⟩ cs = ([.doEnd none], cs) := by
        simp only [Block.close, hnext, Bool.false_eq_true, if_false]
      rw [hclose]
      exact ⟨rfl, h, Nat.le_refl _⟩
  | branch depth =>
    refine ⟨ps, List.replicate depth .ifEnd, Nat.le_refl _, ?_, rfl, fun cs h => ⟨rfl, h, Nat.le_refl _⟩⟩
    simp [simple, Command.isSimple]
  | loop | function | group => exact ⟨ps, _, Nat.le_refl _, rfl, rfl, fun cs h => ⟨rfl, h, Nat.le_refl _⟩⟩

theorem determined_closeBare (blocks : List Block) (ps : List Piece) :
    Determined (statements ps) ps fun cs before => closeBare cs before blocks := by
  induction blocks generalizing ps with
  | nil => exact .stay ps []
  | cons b bs ih =>
    obtain ⟨v, hv⟩ := exists_goesOn b ps
    by_cases hopen : b.braced || v
    · obtain ⟨qs, blocks, more, hlen, hall, hread⟩ := Determined.stay ps (b :: bs)
      refine ⟨qs, blocks, more, hlen, hall, fun cs h => ?_⟩
      obtain ⟨rest, hrest, hs, hstay⟩ := hread cs h
      refine ⟨rest, hrest, hs, fun before => ?_⟩
      rw [← hstay before]
      show closeBare cs before (b :: bs) = _
      rw [closeBare, hv cs h, if_pos hopen]
    · obtain ⟨qs, more, hlen, hsimple, hstatements, hclose⟩ := exists_close b ps
      have hthrough := (ih qs).through (fun cs before => closeBare cs before (b :: bs)) more hlen fun cs h => by
          obtain ⟨hmore, hs, hrest⟩ := hclose cs h
          refine ⟨(b.close cs).2, hrest, hs, fun before => ?_⟩
          show closeBare cs before (b :: bs) = _
          rw [closeBare, hv cs h, if_neg hopen, ← hmore]
      rwa [hsimple, hstatements, List.nil_append] at hthrough

theorem exists_closeAll (blocks : List Block) (ps : List Piece) : ∃ more, simple more = [] ∧
    ∀ cs, Shows ps cs → ∀ before, closeAll cs before blocks = before ++ more := by
  induction blocks generalizing ps with
  | nil => exact ⟨[], rfl, fun _ _ before => (append_nil before).symm⟩
  | cons b bs ih =>
    obtain ⟨qs, more, -, hsimple, -, hclose⟩ := exists_close b ps
    obtain ⟨more', hsimple', hall⟩ := ih qs
    refine ⟨more ++ more', by rw [simple_append, hsimple, hsimple', List.nil_append], fun cs h before => ?_⟩
    obtain ⟨hmore, hs, -⟩ := hclose cs h
    rw [closeAll, ← hmore, ← append_append]
    exact hall _ hs _

namespace Reader

/-- Once blocks have been closed, a braced one that does not go on is closed too, with the blocks around it. -/
theorem determined_closeBrace (blocks : List Block) (ps : List Piece) :
    Determined (statements ps) ps fun cs before => closeBrace ⟨cs, blocks, before⟩ := by
  obtain ⟨qs, blocks', more, hlen, hall, hbare⟩ := determined_closeBare blocks ps
  have hafter {cs rest : List Char} {before : Array Command}
      (h : closeBare cs before blocks = ⟨rest, blocks', before ++ more⟩) :
      afterStatement ⟨cs, blocks, before⟩ = ⟨rest, blocks', before ++ more⟩ := h
  have hstay (hend : ∀ cs, Shows qs cs → ∀ cs' before, closeBare cs' before blocks = ⟨cs, blocks', before ++ more⟩ →
      closeBrace ⟨cs', blocks, before⟩ = ⟨cs, blocks', before ++ more⟩) :
      Determined (statements ps) ps fun cs before => closeBrace ⟨cs, blocks, before⟩ := by
    refine ⟨qs, blocks', more, hlen, hall, fun cs h => ?_⟩
    obtain ⟨rest, hrest, hs, hread⟩ := hbare cs h
    exact ⟨rest, hrest, hs, fun before => hend rest hs cs before (hread before)⟩
  cases blocks' with
  | nil =>
    refine hstay fun cs _ cs' before hread => ?_
    rw [closeBrace, hafter hread]
  | cons b bs =>
    obtain ⟨v, hv⟩ := exists_goesOn b qs
    by_cases hopen : !b.braced || v
    · refine hstay fun cs hs cs' before hread => ?_
      rw [closeBrace, hafter hread]
      simp only [hv cs hs, hopen, if_true]
    · obtain ⟨qs', more', hlen', hsimple, hstatements, hclose⟩ := exists_close b qs
      have hbehind := determined_closeBare bs (afterSemicolon qs')
      rw [statements_afterSemicolon, hstatements] at hbehind
      have hle : (afterSemicolon qs').length ≤ ps.length := by
        have := length_afterSemicolon_le qs'
        omega
      have hthrough := hbehind.through (fun cs before => closeBrace ⟨cs, blocks, before⟩) (more ++ more') hle
        fun cs h => by
          obtain ⟨rest, hrest, hs, hread⟩ := hbare cs h
          obtain ⟨hmore, hs', hrest'⟩ := hclose rest hs
          obtain ⟨hs'', hrest''⟩ := hs'.dropSemicolon
          refine ⟨dropSemicolon (b.close rest).2, by omega, hs'', fun before => ?_⟩
          show closeBrace ⟨cs, blocks, before⟩ = _
          rw [closeBrace, hafter (hread before), ← append_append, ← hmore]
          simp only [hv rest hs, hopen, Bool.false_eq_true, if_false]
      rwa [simple_append, hsimple, List.append_nil, hall] at hthrough

theorem determined_beginBody (kind : BlockKind) (blocks : List Block) (ps : List Piece) :
    Determined (statements ps) ps fun cs before => beginBody kind cs blocks before := by
  have hbare (h : ∀ cs, Shows ps cs → ∀ before,
      beginBody kind cs blocks before = ⟨trimLeft cs, ⟨kind, false⟩ :: blocks, before⟩) :
      Determined (statements ps) ps fun cs before => beginBody kind cs blocks before := by
    refine ⟨ps, ⟨kind, false⟩ :: blocks, [], Nat.le_refl _, rfl, fun cs hcs => ?_⟩
    exact ⟨trimLeft cs, length_trimLeft_le cs, hcs.trimLeft, fun before => by rw [append_nil]; exact h cs hcs before⟩
  match ps with
  | [] =>
    refine hbare fun cs hcs before => ?_
    cases hcs with
    | nil hnil => rw [beginBody, hnil]
  | .opening :: ps =>
    refine (Determined.stay ps (⟨kind, true⟩ :: blocks)).through _ [] (Nat.le_succ _) fun cs hcs => ?_
    cases hcs with
    | @opening _ _ rest h hs =>
      have hlen := length_trimLeft_le cs
      rw [h, List.length_cons] at hlen
      refine ⟨rest, by omega, hs, fun before => ?_⟩
      simp only [append_nil, beginBody, h]
  | .semicolon :: ps =>
    refine (determined_closeBare (⟨kind, false⟩ :: blocks) ps).through _ [] (Nat.le_succ _) fun cs hcs => ?_
    cases hcs with
    | @semicolon _ _ rest h hs =>
      have hlen := length_trimLeft_le cs
      rw [h, List.length_cons] at hlen
      refine ⟨rest, by omega, hs, fun before => ?_⟩
      simp only [append_nil, beginBody, h]
  | .statement .. :: _ | .header .. :: _ | .alternative :: _ | .doStart :: _ | .named _ :: _ | .closing :: _ =>
    refine hbare fun cs hcs before => ?_
    obtain ⟨c, ds, hc, hopen, -, hsemi⟩ := hcs.first
    have hopen : c ≠ '\x7b' := by simp [hopen]
    have hsemi : c ≠ ';' := by simp [hsemi]
    rw [beginBody, hc]
    split
    · rename_i heq
      exact absurd (List.cons.inj heq).1 hopen
    · rename_i heq
      exact absurd (List.cons.inj heq).1 hsemi
    · rfl

/-- An alternative depends on the innermost block, and on whether a condition comes next. -/
theorem determined_readElse (blocks : List Block) (ps : List Piece) :
    Determined (statements ps) ps fun cs before => readElse ⟨[], blocks, before⟩ cs := by
  have hgroup (h : ∀ cs before, readElse ⟨[], blocks, before⟩ cs = openBlock ⟨[], blocks, before⟩ .group cs []) :
      Determined (statements ps) ps fun cs before => readElse ⟨[], blocks, before⟩ cs := by
    refine (determined_beginBody .group blocks ps).through _ [] (Nat.le_refl _) fun cs hcs => ?_
    exact ⟨cs, Nat.le_refl _, hcs, fun before => h cs before⟩
  match blocks with
  | ⟨.branch depth, braced⟩ :: bs =>
    rcases header_or .branch ps with ⟨inner, rest, rfl⟩ | hnone
    · refine (determined_beginBody (.branch (depth + 1)) bs rest).through _
        [.elseMark, .ifStart (Operand.ofChars inner)] (Nat.le_succ _) fun cs hcs => ?_
      have hnext : comesNext "if" cs = true := hcs.comesNext (by decide)
      cases hcs with
      | @header _ _ rest _ _ hh hg hlen hs =>
        have htrim := length_trimLeft_le cs
        refine ⟨rest, by omega, hs, fun before => ?_⟩
        have hcondition : condition (dropKeyword "if" cs) = (Operand.ofChars inner, rest) := by
          have hif : group (dropKeyword "if" cs) = (some inner, rest) := hg
          rw [condition, hif]
          rfl
        have hpush : before ++ [Command.elseMark, .ifStart (Operand.ofChars inner)] =
            (before.push .elseMark).push (.ifStart (Operand.ofChars inner)) := by
          rw [← append_singleton, ← append_singleton, append_append]
          rfl
        rw [hpush]
        simp only [readElse, hnext, if_true, hcondition]
    · refine (determined_beginBody (.branch depth) bs ps).through _ [.elseMark] (Nat.le_refl _) fun cs hcs => ?_
      have hnext : comesNext "if" cs = false := hnone cs hcs
      refine ⟨cs, Nat.le_refl _, hcs, fun before => ?_⟩
      rw [append_singleton]
      simp only [readElse, hnext, Bool.false_eq_true, if_false]
  | [] | ⟨.loop, _⟩ :: _ | ⟨.doLoop, _⟩ :: _ | ⟨.function, _⟩ :: _ | ⟨.group, _⟩ :: _ => exact hgroup fun _ _ => rfl

/-! ### Steps and runs -/

theorem dropKeyword_trimLeft (k : String) (cs : List Char) : dropKeyword k (trimLeft cs) = dropKeyword k cs := by
  rw [dropKeyword, dropKeyword, trimLeft_trimLeft]

theorem comesNext_of_word {cs : List Char} (h : trimLeft cs = cs) : comesNext (String.ofList (word cs)) cs = true := by
  refine comesNext_iff.2 ⟨cs.dropWhile isCalleeChar, ?_, ?_⟩
  · rw [h, String.toList_ofList, word, List.takeWhile_append_dropWhile]
  · have hnext := List.head?_dropWhile_not isCalleeChar cs
    generalize cs.dropWhile isCalleeChar = rest at hnext
    cases rest with
    | nil => rfl
    | cons c rest =>
      have hc : isCalleeChar c = false := hnext
      rw [isCalleeChar, Bool.or_eq_false_iff] at hc
      exact hc.1

theorem length_dropKeyword_lt {k : String} {cs : List Char} (h : Headed k (trimLeft cs)) :
    (dropKeyword k cs).length < cs.length := by
  obtain ⟨d, ds, hcs, -⟩ := h.next
  have hpos : 0 < k.toList.length := List.length_pos_of_ne_nil h.ne_empty
  have hle := length_trimLeft_le cs
  have hlen := congrArg List.length hcs
  rw [List.length_append, List.length_cons] at hlen
  rw [dropKeyword, List.length_drop, ← String.length_toList]
  omega

/-- Where no mark and no word of a block comes next, there is a statement or a head. -/
theorem step_of_plain {cs : List Char} (h : Plain cs) (blocks : List Block) (before : Array Command) :
    step ⟨trimLeft cs, blocks, before⟩ = readPlain ⟨trimLeft cs, blocks, before⟩ := by
  obtain ⟨c, ds, hcs, hc⟩ := h.head
  simp only [List.mem_cons, List.not_mem_nil, or_false, not_or] at hc
  have hitem : readItem ⟨trimLeft cs, blocks, before⟩ = readPlain ⟨trimLeft cs, blocks, before⟩ := by
    have hword : String.ofList (word (trimLeft cs)) ∉ blockWords := fun hm => by
      have hnext := comesNext_of_word (trimLeft_trimLeft cs)
      rw [comesNext_trimLeft, h.words _ hm] at hnext
      cases hnext
    unfold readItem
    split
    case h_7 => rfl
    all_goals
      rename_i hw
      exact absurd (hw ▸ hword) (by decide)
  rw [← hitem]
  unfold step
  split
  case h_5 => rfl
  all_goals
    rename_i hrest
    rw [hcs] at hrest
    simp_all

theorem step_of_header {cs rest inner : List Char} {w : HeaderWord} (hh : Headed w.text (trimLeft cs))
    (hg : group (dropKeyword w.text cs) = (some inner, rest)) (blocks : List Block) (before : Array Command) :
    step ⟨trimLeft cs, blocks, before⟩ =
      beginBody (headerBlock w inner).1 rest blocks (before ++ (headerBlock w inner).2) := by
  rw [← dropKeyword_trimLeft] at hg
  rw [step_of_headed before hh]
  cases w with
  | loop =>
    simp only [HeaderWord.text] at hh hg
    simp only [readItem, hh.word, String.ofList_toList, readFor, hg, Option.getD_some, headerBlock]
    cases LoopHeader.ofChars? inner <;> rfl
  | branch | tested | switched =>
    simp only [HeaderWord.text] at hh hg
    simp only [readItem, hh.word, String.ofList_toList, condition, hg, headerBlock]
    rfl

/-- Behind its first piece the reader goes on in the same way in all texts that show the pieces. -/
theorem exists_step (p : Piece) (ps : List Piece) (blocks : List Block) : ∃ g more, Determined (statements ps) ps g ∧
    simple more = p.commands ∧ ∀ cs, Shows (p :: ps) cs → ∃ rest, rest.length < cs.length ∧ Shows ps rest ∧
      ∀ before, step ⟨trimLeft cs, blocks, before⟩ = g rest (before ++ more) := by
  have hlt {cs rest : List Char} (h : rest.length < (trimLeft cs).length) : rest.length < cs.length :=
    Nat.lt_of_lt_of_le h (length_trimLeft_le cs)
  cases p with
  | statement text ended =>
    refine ⟨_, Command.ofStatement text, determined_closeBare blocks ps, simple_ofStatement text, fun cs h => ?_⟩
    cases h with
    | @statement _ _ rest _ _ hp hlen hread hs =>
      exact ⟨rest, hlt hlen, hs, fun before => (step_of_plain hp _ _).trans (hread blocks before)⟩
  | named head =>
    refine ⟨_, (headBlock head).2, .stay ps (⟨(headBlock head).1, true⟩ :: blocks), ?_, fun cs h => ?_⟩
    · unfold headBlock
      split
      · rfl
      · split <;> rfl
    · cases h with
      | @named _ _ rest _ hp hlen hread hs =>
        exact ⟨rest, hlt hlen, hs, fun before => (step_of_plain hp _ _).trans (hread blocks before)⟩
  | opening =>
    refine ⟨_, [], .stay ps (⟨.group, true⟩ :: blocks), rfl, fun cs h => ?_⟩
    cases h with
    | @opening _ _ rest h hs =>
      refine ⟨rest, hlt (by simp [h]), hs, fun before => ?_⟩
      rw [h]
      rfl
  | closing =>
    refine ⟨_, [], determined_closeBrace blocks ps, rfl, fun cs h => ?_⟩
    cases h with
    | @closing _ _ rest h hs =>
      refine ⟨rest, hlt (by simp [h]), hs, fun before => ?_⟩
      rw [h, append_nil]
      rfl
  | semicolon =>
    refine ⟨_, [], .stay ps blocks, rfl, fun cs h => ?_⟩
    cases h with
    | @semicolon _ _ rest h hs =>
      refine ⟨rest, hlt (by simp [h]), hs, fun before => ?_⟩
      rw [h, append_nil]
      rfl
  | header w inner =>
    refine ⟨_, (headerBlock w inner).2, determined_beginBody (headerBlock w inner).1 blocks ps, ?_, fun cs h => ?_⟩
    · unfold headerBlock
      split
      · split <;> rfl
      all_goals rfl
    · cases h with
      | @header _ _ rest _ _ hh hg hlen hs => exact ⟨rest, hlt hlen, hs, fun before => step_of_header hh hg _ _⟩
  | alternative =>
    refine ⟨_, [], determined_readElse blocks ps, rfl, fun cs h => ?_⟩
    cases h with
    | alternative hh hs =>
      refine ⟨dropKeyword "else" cs, length_dropKeyword_lt hh, hs, fun before => ?_⟩
      rw [step_of_headed before hh, append_nil]
      simp only [readItem, hh.word, String.ofList_toList, dropKeyword_trimLeft]
      rfl
  | doStart =>
    refine ⟨_, [.doStart], determined_beginBody .doLoop blocks ps, rfl, fun cs h => ?_⟩
    cases h with
    | doStart hh hs =>
      refine ⟨dropKeyword "do" cs, length_dropKeyword_lt hh, hs, fun before => ?_⟩
      rw [step_of_headed before hh]
      simp only [readItem, hh.word, String.ofList_toList, dropKeyword_trimLeft]
      rfl

theorem exists_run_nil (blocks : List Block) : ∃ more, simple more = [] ∧ ∀ cs, Shows [] cs → ∀ fuel before,
    run fuel ⟨cs, blocks, before⟩ = before ++ more := by
  obtain ⟨more, hsimple, hclose⟩ := exists_closeAll blocks []
  refine ⟨more, hsimple, fun cs h fuel before => ?_⟩
  cases fuel with
  | zero => exact hclose cs h before
  | succ fuel =>
    cases h with
    | nil hnil =>
      rw [run_of_end hnil]
      exact hclose [] (.nil rfl) before

/-- Texts that show the same pieces have the same commands, and the simple ones among these are those of the
statements, in their order. -/
theorem exists_run (n : Nat) (ps : List Piece) (hn : ps.length ≤ n) (blocks : List Block) :
    ∃ more, simple more = statements ps ∧ ∀ cs, Shows ps cs → ∀ fuel, cs.length ≤ fuel → ∀ before,
      run fuel ⟨cs, blocks, before⟩ = before ++ more := by
  induction n generalizing ps blocks with
  | zero =>
    obtain rfl := List.length_eq_zero_iff.1 (Nat.le_zero.1 hn)
    obtain ⟨more, hsimple, hrun⟩ := exists_run_nil blocks
    exact ⟨more, hsimple, fun cs h fuel _ => hrun cs h fuel⟩
  | succ n ih =>
    cases ps with
    | nil =>
      obtain ⟨more, hsimple, hrun⟩ := exists_run_nil blocks
      exact ⟨more, hsimple, fun cs h fuel _ => hrun cs h fuel⟩
    | cons p ps =>
      obtain ⟨g, more, ⟨qs, blocks', more', hlen, hall, hread⟩, hsimple, hstep⟩ := exists_step p ps blocks
      obtain ⟨more'', hsimple', hrun⟩ := ih qs (by simp only [List.length_cons] at hn; omega) blocks'
      refine ⟨more ++ (more' ++ more''), ?_, fun cs h fuel hfuel before => ?_⟩
      · rw [simple_append, simple_append, hsimple, hsimple', hall, statements_cons]
      · obtain ⟨rest, hlt, hs, hg⟩ := hstep cs h
        obtain ⟨rest', hle, hs', hreads⟩ := hread rest hs
        cases fuel with
        | zero => omega
        | succ fuel =>
          rw [run_of_piece h.ne_nil]
          simp only
          rw [hg, hreads, hrun rest' hs' fuel (by omega), append_append, append_append]

end Reader

/-- **The commands of a program are those of its pieces**, whatever text shows them. -/
theorem exists_ofSource (ps : List Piece) : ∃ commands, simple commands = statements ps ∧
    ∀ source, Shows ps (blankComments source.toList) → Command.ofSource source = commands := by
  obtain ⟨more, hsimple, hrun⟩ := Reader.exists_run ps.length ps (Nat.le_refl _) []
  refine ⟨more, hsimple, fun source h => ?_⟩
  rw [Command.ofSource, hrun _ h _ (Nat.le_refl _) #[]]
  simp

end Procedure

end RunningLights
