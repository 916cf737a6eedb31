import RunningLights.Procedure.Program

/-!
# Well-nested commands

What a flat list of commands has to look like for every opener to have its own closer:

* `Commands.Block`, `Commands.Item` — the grammar of well-nested lists;
* `Commands.nest?` — the openers that are open behind a list, if no closer in it is misplaced;
* `Commands.block_iff` — the lists of the grammar are those that leave nothing open;
* `Program.Builder.takesAll_iff` — they are also those of which no command is dropped when the program is built, and
  no block is closed by anything but its own closer.
-/

namespace RunningLights

open Program

namespace Commands

/-! ### The grammar -/

mutual

/-- Blocks are sequences of items. -/
inductive Block : List Command → Prop
  | nil : Block []
  | cons {item rest : List Command} : Item item → Block rest → Block (item ++ rest)

/-- Items are simple commands and blocks between an opener and its closer.  A condition has one alternative at the
most. -/
inductive Item : List Command → Prop
  | act (a : Action) : Item [.act a]
  | ret (value : Option Operand) : Item [.ret value]
  | loop (header : LoopHeader) {body : List Command} : Block body → Item (.loopStart header :: body ++ [.loopEnd])
  | branch (c : Operand) {yes : List Command} : Block yes → Item (.ifStart c :: yes ++ [.ifEnd])
  | branchElse (c : Operand) {yes no : List Command} :
      Block yes → Block no → Item (.ifStart c :: yes ++ .elseMark :: no ++ [.ifEnd])
  | doLoop (c : Option Operand) {body : List Command} : Block body → Item (.doStart :: body ++ [.doEnd c])
  | lambda (name capture : String) (params : List String) {body : List Command} :
      Block body → Item (.lambdaStart name capture params :: body ++ [.functionEnd])
  | function (name : String) (params : List String) {body : List Command} :
      Block body → Item (.functionStart name params :: body ++ [.functionEnd])

end

/-! ### Open blocks -/

/-- What is open: a block that waits for its closer. -/
inductive Open where
  | loop
  /-- A condition without an alternative so far. -/
  | yes
  /-- The alternative of a condition. -/
  | no
  | doLoop
  | function
  deriving Repr, DecidableEq, Inhabited

end Commands

/-- What is open behind a command, the innermost first, if the command may stand there. -/
def Command.nest? : Command → List Commands.Open → Option (List Commands.Open)
  | .act _, s => some s
  | .ret _, s => some s
  | .loopStart _, s => some (.loop :: s)
  | .loopEnd, .loop :: s => some s
  | .ifStart _, s => some (.yes :: s)
  | .elseMark, .yes :: s => some (.no :: s)
  | .ifEnd, .yes :: s => some s
  | .ifEnd, .no :: s => some s
  | .doStart, s => some (.doLoop :: s)
  | .doEnd _, .doLoop :: s => some s
  | .lambdaStart .., s => some (.function :: s)
  | .functionStart .., s => some (.function :: s)
  | .functionEnd, .function :: s => some s
  | _, _ => none

namespace Commands

/-- What is open behind commands. -/
def nest? : List Command → List Open → Option (List Open)
  | [], s => some s
  | c :: cs, s => (c.nest? s).bind (nest? cs)

theorem nest?_append (cs ds : List Command) (s : List Open) : nest? (cs ++ ds) s = (nest? cs s).bind (nest? ds) := by
  induction cs generalizing s with
  | nil => rfl
  | cons c cs ih =>
    simp only [List.cons_append, nest?]
    cases c.nest? s with
    | none => rfl
    | some t => exact ih t

theorem nest?_cons {c : Command} {cs : List Command} {s t : List Open} (h : c.nest? s = some t) :
    nest? (c :: cs) s = nest? cs t := by
  rw [nest?, h]
  rfl

/-- What is open behind an opener, what follows it and a closer. -/
theorem nest?_between {c d : Command} {body : List Command} {s t u v : List Open} (hc : c.nest? s = some t)
    (hb : nest? body t = some u) (hd : d.nest? u = some v) : nest? (c :: body ++ [d]) s = some v := by
  rw [List.cons_append, nest?_cons hc, nest?_append, hb]
  exact nest?_cons hd

mutual

theorem Block.nest? {cs : List Command} : Block cs → ∀ s, Commands.nest? cs s = some s
  | .nil, _ => rfl
  | .cons hi hr, s => by
    rw [nest?_append, hi.nest? s]
    exact hr.nest? s

theorem Item.nest? {cs : List Command} : Item cs → ∀ s, Commands.nest? cs s = some s
  | .act _, _ => rfl
  | .ret _, _ => rfl
  | .loop _ hb, _ => nest?_between rfl (hb.nest? _) rfl
  | .branch _ hb, _ => nest?_between rfl (hb.nest? _) rfl
  | .branchElse _ hy hn, s => by
    refine nest?_between rfl (?_ : Commands.nest? (_ ++ .elseMark :: _) (.yes :: s) = some (.no :: s)) rfl
    rw [nest?_append, hy.nest? _]
    exact hn.nest? _
  | .doLoop _ hb, _ => nest?_between rfl (hb.nest? _) rfl
  | .lambda _ _ _ hb, _ => nest?_between rfl (hb.nest? _) rfl
  | .function _ _ hb, _ => nest?_between rfl (hb.nest? _) rfl

end

/-! ### From what is open to the grammar -/

/-- What is left of an item behind its opener, up to its closer. -/
inductive Tail : Open → List Command → Prop
  | loop {b : List Command} : Block b → Tail .loop (b ++ [.loopEnd])
  | yes {b : List Command} : Block b → Tail .yes (b ++ [.ifEnd])
  | yesElse {b t : List Command} : Block b → Tail .no t → Tail .yes (b ++ .elseMark :: t)
  | no {b : List Command} : Block b → Tail .no (b ++ [.ifEnd])
  | doLoop (c : Option Operand) {b : List Command} : Block b → Tail .doLoop (b ++ [.doEnd c])
  | function {b : List Command} : Block b → Tail .function (b ++ [.functionEnd])

/-- The commands close all that is open, and are well nested besides. -/
def Completes : List Open → List Command → Prop
  | [], cs => Block cs
  | o :: s, cs => ∃ t rest, cs = t ++ rest ∧ Tail o t ∧ Completes s rest

theorem Tail.prepend {o : Open} {item t : List Command} (hi : Item item) (ht : Tail o t) : Tail o (item ++ t) := by
  cases ht with
  | loop hb =>
    rw [← List.append_assoc]
    exact .loop (.cons hi hb)
  | yes hb =>
    rw [← List.append_assoc]
    exact .yes (.cons hi hb)
  | yesElse hb ht =>
    rw [← List.append_assoc]
    exact .yesElse (.cons hi hb) ht
  | no hb =>
    rw [← List.append_assoc]
    exact .no (.cons hi hb)
  | doLoop c hb =>
    rw [← List.append_assoc]
    exact .doLoop c (.cons hi hb)
  | function hb =>
    rw [← List.append_assoc]
    exact .function (.cons hi hb)

theorem Completes.prepend {s : List Open} {item cs : List Command} (hi : Item item) (hc : Completes s cs) :
    Completes s (item ++ cs) := by
  cases s with
  | nil => exact .cons hi hc
  | cons o s =>
    obtain ⟨t, rest, rfl, ht, hrest⟩ := hc
    exact ⟨item ++ t, rest, (List.append_assoc _ _ _).symm, ht.prepend hi, hrest⟩

/-- An opener in front of the rest of its item makes the item. -/
theorem Completes.opened {o : Open} {s : List Open} {c : Command} {cs : List Command}
    (hi : ∀ {t}, Tail o t → Item (c :: t)) (hc : Completes (o :: s) cs) : Completes s (c :: cs) := by
  obtain ⟨t, rest, rfl, ht, hrest⟩ := hc
  exact hrest.prepend (hi ht)

/-- A closer is the rest of an item whose body ends here. -/
theorem Completes.closed {o : Open} {s : List Open} {c : Command} {cs : List Command} (ht : Tail o [c])
    (hc : Completes s cs) : Completes (o :: s) (c :: cs) :=
  ⟨[c], cs, rfl, ht, hc⟩

/-- **A command that may stand where it does** keeps what is to come complete. -/
theorem completes_of_nest? {c : Command} {s t : List Open} {cs : List Command} (h : c.nest? s = some t)
    (hc : Completes t cs) : Completes s (c :: cs) := by
  unfold Command.nest? at h
  split at h <;> simp only [Option.some_inj, reduceCtorEq] at h <;> subst h
  · exact hc.prepend (.act _)
  · exact hc.prepend (.ret _)
  · exact hc.opened fun | .loop hb => .loop _ hb
  · exact hc.closed (.loop .nil)
  · refine hc.opened fun ht => ?_
    cases ht with
    | yes hb => exact .branch _ hb
    | yesElse hb ht =>
      cases ht with
      | no hn =>
        have hi := Item.branchElse ‹Operand› hb hn
        rw [List.append_assoc] at hi
        exact hi
  · obtain ⟨t, rest, rfl, ht, hrest⟩ := hc
    exact ⟨.elseMark :: t, rest, rfl, .yesElse .nil ht, hrest⟩
  · exact hc.closed (.yes .nil)
  · exact hc.closed (.no .nil)
  · exact hc.opened fun | .doLoop _ hb => .doLoop _ hb
  · exact hc.closed (.doLoop _ .nil)
  · exact hc.opened fun | .function hb => .lambda _ _ _ hb
  · exact hc.opened fun | .function hb => .function _ _ hb
  · exact hc.closed (.function .nil)

theorem completes_of_nest?_eq {cs : List Command} : ∀ {s : List Open}, nest? cs s = some [] → Completes s cs := by
  induction cs with
  | nil =>
    intro s h
    cases h
    exact .nil
  | cons c cs ih =>
    intro s h
    obtain ⟨t, hc, hcs⟩ := Option.bind_eq_some_iff.1 h
    exact completes_of_nest? hc (ih hcs)

/-- **The lists of the grammar are those that leave nothing open.** -/
theorem block_iff {cs : List Command} : Block cs ↔ nest? cs [] = some [] :=
  ⟨fun h => h.nest? [], fun h => completes_of_nest?_eq h⟩

end Commands

/-! ### Programs that are built from well-nested commands -/

def Command.closer? : Command → Option Builder.Closer
  | .loopEnd => some .loopEnd
  | .elseMark => some .elseMark
  | .ifEnd => some .ifEnd
  | .doEnd c => some (.doEnd c)
  | .functionEnd => some .functionEnd
  | _ => none

namespace Program

/-- What the opener of a block leaves open. -/
def Opener.opens : Opener → Commands.Open
  | .loop _ => .loop
  | .yes _ => .yes
  | .no _ _ => .no
  | .doLoop => .doLoop
  | .lambda _ _ _ => .function
  | .function _ _ => .function

namespace Builder

/-- What is open in a program that is being built. -/
def opens (b : Builder) : List Commands.Open := b.pending.map fun p => p.opener.opens

/-- The command is no closer, or the innermost block is the one that it closes. -/
def Takes (b : Builder) (c : Command) : Prop :=
  ∀ k, c.closer? = some k → ∃ p ps, b.pending = p :: ps ∧ k.ends p.opener = true

/-- Every closer of a list closes the innermost block, and no block is left open behind the list. -/
def TakesAll : Builder → List Command → Prop
  | b, [] => b.pending = []
  | b, c :: cs => b.Takes c ∧ TakesAll (b.push c) cs

theorem opens_addStmt (b : Builder) (s : Stmt) : (b.addStmt s).opens = b.opens := by
  unfold addStmt opens
  split
  · rfl
  · rename_i p ps hp
    rw [hp]
    rfl

theorem opens_complete (b : Builder) (p : Pending) (c : Option Operand) : (b.complete p c).opens = b.opens := by
  unfold complete
  split
  case h_6 => rfl
  all_goals exact opens_addStmt _ _

theorem push_of_closer {c : Command} {k : Closer} (h : c.closer? = some k) (b : Builder) : b.push c = b.close k := by
  cases c <;> cases h <;> rfl

theorem opens_closeWith {k : Closer} (hk : k ≠ .elseMark) (b : Builder) (p : Pending) :
    (b.closeWith p k).opens = b.opens := by
  unfold closeWith
  split
  · exact absurd rfl hk
  · exact opens_complete _ _ _

theorem nest?_of_ends {b : Builder} {c : Command} {k : Closer} {p : Pending} {ps : List Pending}
    (hc : c.closer? = some k) (hb : b.pending = p :: ps) (hk : k.ends p.opener = true) :
    c.nest? b.opens = some (b.push c).opens := by
  obtain ⟨pending, latest, functions⟩ := b
  obtain rfl : pending = p :: ps := hb
  obtain ⟨opener, body⟩ := p
  rw [push_of_closer hc, close_of_ends hk]
  cases c with
  | loopEnd =>
    cases hc
    rw [opens_closeWith (by simp)]
    cases opener <;> first | rfl | cases hk
  | elseMark =>
    cases hc
    cases opener <;> first | rfl | cases hk
  | ifEnd =>
    cases hc
    rw [opens_closeWith (by simp)]
    cases opener <;> first | rfl | cases hk
  | doEnd c =>
    cases hc
    rw [opens_closeWith (by simp)]
    cases opener <;> first | rfl | cases hk
  | functionEnd =>
    cases hc
    rw [opens_closeWith (by simp)]
    cases opener <;> first | rfl | cases hk
  | _ => cases hc

theorem nest?_of_not_closer {c : Command} (hc : c.closer? = none) (b : Builder) :
    c.nest? b.opens = some (b.push c).opens := by
  cases c with
  | act a => exact congrArg some (opens_addStmt b _).symm
  | ret value => exact congrArg some (opens_addStmt b _).symm
  | loopEnd => cases hc
  | elseMark => cases hc
  | ifEnd => cases hc
  | doEnd c => cases hc
  | functionEnd => cases hc
  | _ => rfl

/-- A command that is taken leaves open what it leaves open among the commands. -/
theorem Takes.nest? {b : Builder} {c : Command} (h : b.Takes c) : c.nest? b.opens = some (b.push c).opens := by
  cases hc : c.closer? with
  | none => exact nest?_of_not_closer hc b
  | some k =>
    obtain ⟨p, ps, hb, hk⟩ := h k hc
    exact nest?_of_ends hc hb hk

theorem takes_of_nest? {b : Builder} {c : Command} {s : List Commands.Open} (h : c.nest? b.opens = some s) :
    b.Takes c := by
  intro k hc
  obtain ⟨pending, latest, functions⟩ := b
  cases pending with
  | nil => cases c <;> cases hc <;> cases h
  | cons p ps =>
    refine ⟨p, ps, rfl, ?_⟩
    obtain ⟨opener, body⟩ := p
    cases c <;> cases hc <;> cases opener <;> first | rfl | cases h

/-- **What a program is built from without a loss.**  No closer of a list is dropped and none closes a block that is
not its own exactly if the list closes what is open. -/
theorem takesAll_iff {cs : List Command} : ∀ {b : Builder}, b.TakesAll cs ↔ Commands.nest? cs b.opens = some [] := by
  induction cs with
  | nil =>
    intro b
    show b.pending = [] ↔ some b.opens = some []
    simp [opens]
  | cons c cs ih =>
    intro b
    refine ⟨fun ⟨hc, hcs⟩ => ?_, fun h => ?_⟩
    · rw [Commands.nest?_cons hc.nest?]
      exact ih.1 hcs
    · obtain ⟨s, hs, -⟩ := Option.bind_eq_some_iff.1 h
      have hc : b.Takes c := takes_of_nest? hs
      rw [Commands.nest?_cons hc.nest?] at h
      exact ⟨hc, ih.2 h⟩

end Builder

end Program

end RunningLights
