import Mathlib.Data.List.Basic
import RunningLights.Proofs.Program.Blocks

/-!
# The pieces of a program text

The reader of a program takes its text piece by piece: a statement, a word or a head of a block, a brace, a semicolon.

* `Piece` — the pieces, and `Piece.commands` — the commands of a statement;
* `Shows` — a text shows pieces: at each place, the reader finds the next one of them;
* `Shows.comesNext`, `Shows.first`, `Shows.dropSemicolon` — what comes next in a text depends on its pieces only.
-/

namespace RunningLights

open Procedure Text

namespace Procedure

/-! ### Pieces -/

inductive HeaderWord where
  | loop
  | branch
  | tested
  | switched
  deriving Repr, DecidableEq

def HeaderWord.text : HeaderWord → String
  | .loop => "for"
  | .branch => "if"
  | .tested => "while"
  | .switched => "switch"

inductive Piece where
  /-- A simple statement, with a semicolon if it is `ended`. -/
  | statement (text : List Char) (ended : Bool)
  | header (word : HeaderWord) (inner : List Char)
  | alternative
  | doStart
  /-- Any other head of a block, and its opening brace. -/
  | named (head : List Char)
  | opening
  | closing
  | semicolon
  deriving Repr, DecidableEq

namespace Piece

/-- The word that the piece starts with, if that starts a block. -/
def word? : Piece → Option String
  | header w _ => some w.text
  | alternative => some "else"
  | doStart => some "do"
  | _ => none

def commands : Piece → List Command
  | statement cs _ => Command.ofStatement cs
  | _ => []

end Piece

/-- The kind of the block behind a head that is no header, and the command that opens it. -/
def headBlock (head : List Char) : BlockKind × List Command :=
  match lambdaHead? (trim head) with
  | some l => (.function, [.lambdaStart (String.ofList l.name) (String.ofList (trim l.capture)) (paramNames l.params)])
  | none =>
    match functionHead? (trim head) with
    | some f => (.function, [.functionStart (String.ofList f.name) (paramNames f.params)])
    | none => (.group, [])

/-- The kind of the block behind a header, and the command that opens it. -/
def headerBlock : HeaderWord → List Char → BlockKind × List Command
  | .loop, inner =>
    match LoopHeader.ofChars? inner with
    | some h => (.loop, [.loopStart h])
    | none => (.group, [])
  | .branch, inner => (.branch 1, [.ifStart (Operand.ofChars inner)])
  | .tested, _ | .switched, _ => (.group, [])

/-! ### Texts that show pieces -/

/-- The text starts with no brace, no semicolon and no word of a block. -/
structure Plain (cs : List Char) : Prop where
  head : ∃ c ds, trimLeft cs = c :: ds ∧ c ∉ ['\x7b', '\x7d', ';']
  words : ∀ k ∈ blockWords, comesNext k cs = false

/-- The reader finds the pieces in the text, one behind the other.  It finds a statement or a head where it reads one,
whatever is written there. -/
inductive Shows : List Piece → List Char → Prop
  | nil {cs : List Char} : trimLeft cs = [] → Shows [] cs
  | opening {ps : List Piece} {cs rest : List Char} : trimLeft cs = '\x7b' :: rest → Shows ps rest →
      Shows (.opening :: ps) cs
  | closing {ps : List Piece} {cs rest : List Char} : trimLeft cs = '\x7d' :: rest → Shows ps rest →
      Shows (.closing :: ps) cs
  | semicolon {ps : List Piece} {cs rest : List Char} : trimLeft cs = ';' :: rest → Shows ps rest →
      Shows (.semicolon :: ps) cs
  | header {ps : List Piece} {cs rest : List Char} {w : HeaderWord} {inner : List Char} :
      Headed w.text (trimLeft cs) → group (dropKeyword w.text cs) = (some inner, rest) →
      rest.length < (trimLeft cs).length → Shows ps rest → Shows (.header w inner :: ps) cs
  | alternative {ps : List Piece} {cs : List Char} : Headed "else" (trimLeft cs) →
      Shows ps (dropKeyword "else" cs) → Shows (.alternative :: ps) cs
  | doStart {ps : List Piece} {cs : List Char} : Headed "do" (trimLeft cs) →
      Shows ps (dropKeyword "do" cs) → Shows (.doStart :: ps) cs
  | named {ps : List Piece} {cs rest head : List Char} : Plain cs → rest.length < (trimLeft cs).length →
      (∀ blocks before, Reader.readPlain ⟨trimLeft cs, blocks, before⟩ =
        ⟨rest, ⟨(headBlock head).1, true⟩ :: blocks, before ++ (headBlock head).2⟩) →
      Shows ps rest → Shows (.named head :: ps) cs
  | statement {ps : List Piece} {cs rest text : List Char} {ended : Bool} : Plain cs →
      rest.length < (trimLeft cs).length →
      (∀ blocks before, Reader.readPlain ⟨trimLeft cs, blocks, before⟩ =
        closeBare rest (before ++ Command.ofStatement text) blocks) →
      Shows ps rest → Shows (.statement text ended :: ps) cs

theorem length_trimLeft_le (cs : List Char) : (trimLeft cs).length ≤ cs.length := Token.length_dropWhile_le _ _

theorem comesNext_trimLeft (k : String) (cs : List Char) : comesNext k (trimLeft cs) = comesNext k cs :=
  comesNext_congr (trimLeft_trimLeft cs) k

namespace Shows

variable {p : Piece} {ps : List Piece} {cs cs' rest : List Char}

theorem congr (h : Shows ps cs) (heq : trimLeft cs = trimLeft cs') : Shows ps cs' := by
  have hwords {k : String} : comesNext k cs = comesNext k cs' := comesNext_congr heq k
  have hdrop {k : String} : dropKeyword k cs = dropKeyword k cs' := by rw [dropKeyword, dropKeyword, heq]
  have hplain (hp : Plain cs) : Plain cs' := ⟨heq ▸ hp.head, fun k hk => hwords ▸ hp.words k hk⟩
  cases h with
  | nil h => exact .nil (heq ▸ h)
  | opening h hs => exact .opening (heq ▸ h) hs
  | closing h hs => exact .closing (heq ▸ h) hs
  | semicolon h hs => exact .semicolon (heq ▸ h) hs
  | header hh hg hlen hs => exact .header (heq ▸ hh) (hdrop ▸ hg) (heq ▸ hlen) hs
  | alternative hh hs => exact .alternative (heq ▸ hh) (hdrop ▸ hs)
  | doStart hh hs => exact .doStart (heq ▸ hh) (hdrop ▸ hs)
  | named hp hlen hread hs => exact .named (hplain hp) (heq ▸ hlen) (heq ▸ hread) hs
  | statement hp hlen hread hs => exact .statement (hplain hp) (heq ▸ hlen) (heq ▸ hread) hs

theorem trimLeft (h : Shows ps cs) : Shows ps (trimLeft cs) := h.congr (trimLeft_trimLeft cs).symm

theorem ne_nil (h : Shows (p :: ps) cs) : Text.trimLeft cs ≠ [] := by
  intro hnil
  cases h with
  | opening h | closing h | semicolon h => simp [hnil] at h
  | header hh | alternative hh | doStart hh =>
    obtain ⟨c, ds, hcs, -⟩ := hh.head
    simp [hnil] at hcs
  | named hp | statement hp =>
    obtain ⟨c, ds, hcs, -⟩ := hp.head
    simp [hnil] at hcs

end Shows

/-! ### What comes next -/

theorem comesNext_iff {k : String} {cs : List Char} : comesNext k cs = true ↔
    ∃ rest, trimLeft cs = k.toList ++ rest ∧ Token.startsWith Token.isNameChar rest = false := by
  rw [comesNext]
  constructor
  · intro h
    split at h
    · rename_i rest hafter
      exact ⟨rest, (List.isPrefixOf?_eq_some_iff_append_eq.1 hafter).symm, by simpa using h⟩
    · cases h
  · rintro ⟨rest, hcs, hrest⟩
    have hafter : after? k (trimLeft cs) = some rest := List.isPrefixOf?_eq_some_iff_append_eq.2 hcs.symm
    simp only [hafter, hrest, Bool.not_false]

def leadingWord (ps : List Piece) : Option String := ps.head?.bind Piece.word?

theorem comesNext_of_mark {cs rest : List Char} {c : Char} (h : trimLeft cs = c :: rest)
    (hc : c ∈ ['\x7b', '\x7d', ';']) {k : String} (hk : k ∈ blockWords) : comesNext k cs = false := by
  simp only [blockWords, List.mem_cons, List.not_mem_nil, or_false] at hk hc
  rw [comesNext, h]
  rcases hc with rfl | rfl | rfl
  all_goals rcases hk with rfl | rfl | rfl | rfl | rfl | rfl <;> rfl

theorem comesNext_of_headed {cs : List Char} {w k : String} (h : Headed w (trimLeft cs)) (hk : k ∈ blockWords) :
    comesNext k cs = (some w == some k) := by
  rw [← comesNext_trimLeft]
  by_cases hw : w = k
  · rw [hw] at h ⊢
    rw [h.comesNext_self]
    exact (beq_self_eq_true _).symm
  · have hchars : ∀ k ∈ blockWords, ∀ c ∈ k.toList, Token.isNameChar c = true := by decide
    rw [h.comesNext (hchars k hk) hw]
    exact (beq_false_of_ne fun he => hw (Option.some.inj he)).symm

/-- The word of a block comes next where the pieces start with it. -/
theorem Shows.comesNext {ps : List Piece} {cs : List Char} (h : Shows ps cs) {k : String} (hk : k ∈ blockWords) :
    comesNext k cs = (leadingWord ps == some k) := by
  cases h with
  | nil h =>
    rw [Procedure.comesNext, h]
    simp only [blockWords, List.mem_cons, List.not_mem_nil, or_false] at hk
    rcases hk with rfl | rfl | rfl | rfl | rfl | rfl <;> rfl
  | opening h | closing h | semicolon h => exact comesNext_of_mark h (by decide) hk
  | header hh | alternative hh | doStart hh => exact comesNext_of_headed hh hk
  | named hp | statement hp => exact hp.words k hk

/-- A header comes next in all texts that show the pieces, or in none. -/
theorem header_or (w : HeaderWord) (ps : List Piece) : (∃ inner rest, ps = .header w inner :: rest) ∨
    ∀ cs, Shows ps cs → comesNext w.text cs = false := by
  have hw : w.text ∈ blockWords := by cases w <;> decide
  by_cases hlead : leadingWord ps = some w.text
  · left
    match ps, hlead with
    | .header v inner :: rest, hlead =>
      have hv : v = w := by
        have heq : v.text = w.text := Option.some.inj hlead
        revert heq
        cases v <;> cases w <;> decide
      exact ⟨inner, rest, by rw [hv]⟩
    | .alternative :: _, hlead | .doStart :: _, hlead =>
      have heq := Option.some.inj hlead
      cases w <;> exact absurd heq (by decide)
  · right
    intro cs h
    rw [h.comesNext hw]
    exact beq_false_of_ne hlead

/-- An alternative comes next in all texts that show the pieces, or in none. -/
theorem exists_goesOn (b : Block) (ps : List Piece) : ∃ v, ∀ cs, Shows ps cs → b.goesOn cs = v := by
  obtain ⟨kind, braced⟩ := b
  cases kind with
  | branch depth => exact ⟨_, fun cs h => h.comesNext (by decide)⟩
  | _ => exact ⟨false, fun _ _ => rfl⟩

def afterSemicolon : List Piece → List Piece
  | .semicolon :: ps => ps
  | ps => ps

theorem length_afterSemicolon_le (ps : List Piece) : (afterSemicolon ps).length ≤ ps.length := by
  unfold afterSemicolon
  split <;> simp

/-- The text starts with a mark exactly if its first piece is that mark. -/
theorem Shows.first {p : Piece} {ps : List Piece} {cs : List Char} (h : Shows (p :: ps) cs) :
    ∃ c ds, Text.trimLeft cs = c :: ds ∧ (c = '\x7b' ↔ p = .opening) ∧ (c = '\x7d' ↔ p = .closing) ∧
      (c = ';' ↔ p = .semicolon) := by
  cases h with
  | opening h | closing h | semicolon h => exact ⟨_, _, h, by decide, by decide, by decide⟩
  | header hh | alternative hh | doStart hh =>
    obtain ⟨c, ds, hcs, hc⟩ := hh.head
    have hne {d : Char} (hd : Token.isNameChar d = false) : c ≠ d := by
      rintro rfl
      rw [hc] at hd
      cases hd
    have hopen : c ≠ '\x7b' := hne (by decide)
    have hclose : c ≠ '\x7d' := hne (by decide)
    have hsemi : c ≠ ';' := hne (by decide)
    exact ⟨c, ds, hcs, by simp [hopen], by simp [hclose], by simp [hsemi]⟩
  | named hp | statement hp =>
    obtain ⟨c, ds, hcs, hc⟩ := hp.head
    simp only [List.mem_cons, List.not_mem_nil, or_false, not_or] at hc
    refine ⟨c, ds, hcs, ?_⟩
    simp [hc]

theorem dropSemicolon_of_ne {cs ds : List Char} {c : Char} (h : trimLeft cs = c :: ds) (hc : c ≠ ';') :
    dropSemicolon cs = trimLeft cs := by
  unfold dropSemicolon
  split
  · rename_i hcs
    rw [h] at hcs
    exact absurd (List.cons.inj hcs).1 hc
  · rfl

theorem Shows.dropSemicolon {ps : List Piece} {cs : List Char} (h : Shows ps cs) :
    Shows (afterSemicolon ps) (dropSemicolon cs) ∧ (Procedure.dropSemicolon cs).length ≤ cs.length := by
  have hlen := length_trimLeft_le cs
  match ps with
  | [] =>
    cases h with
    | nil hnil =>
      have hdrop : Procedure.dropSemicolon cs = [] := by rw [Procedure.dropSemicolon, hnil]
      rw [hdrop]
      exact ⟨.nil rfl, Nat.zero_le _⟩
  | .semicolon :: ps =>
    cases h with
    | @semicolon _ _ rest hcs hs =>
      have hdrop : Procedure.dropSemicolon cs = rest := by simp only [Procedure.dropSemicolon, hcs]
      rw [hcs, List.length_cons] at hlen
      rw [hdrop]
      exact ⟨hs, by omega⟩
  | .statement .. :: _ | .header .. :: _ | .alternative :: _ | .doStart :: _ | .named _ :: _ | .opening :: _
  | .closing :: _ =>
    obtain ⟨c, ds, hcs, -, -, hsemi⟩ := h.first
    rw [dropSemicolon_of_ne hcs (by simp [hsemi])]
    exact ⟨h.trimLeft, hlen⟩

end Procedure

end RunningLights
