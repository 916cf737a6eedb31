import Mathlib.Data.List.Flatten
import RunningLights.Proofs.Program.Determinacy
import RunningLights.Proofs.Program.Lines

/-!
# Statements without semicolons

A statement may end with its line instead of a semicolon.  The reader looks for the head of a block there first, and it
looks beyond the line: from a statement without a semicolon it may come to the brace of a later block, and then all up
to the brace is a head that it does not understand.

* `behind` — the pieces behind the brace that the reader comes to, and `SetOut.behindHead?` — it comes to that brace;
* `losesStatement` — there is a statement without a semicolon from which the reader comes to a brace;
* `SetOut.seen` — what the text of the pieces shows;
* `Command.ofSource_lines` — a program has the same commands as with all semicolons if, and in general only if, no
  statement is lost.
-/

namespace RunningLights

open Procedure Text

namespace Procedure

/-! ### The search for a brace -/

/-- The pieces behind the first brace that a head may stand before, if nothing before it ends the search: a semicolon,
a closing brace or a value in braces. -/
def behind : List Piece → Option (List Piece)
  | .opening :: ps | .named _ :: ps => some ps
  | .statement cs false :: ps => if opensValue cs then none else behind ps
  | .header .. :: ps | .alternative :: ps | .doStart :: ps => behind ps
  | _ => none

section Search

variable {ps : List Piece} {cs rest : List Char}

theorem endsOpen_of_isComplete (h : isComplete cs.reverse) : endsOpen cs = false := by
  rw [isComplete] at h
  rw [endsOpen, lastInk, trimLeft]
  split at h
  · cases h
  · rename_i hlast
    rw [hlast]
    rfl
  · rename_i hlast
    rw [hlast]
    rfl
  · rename_i c ds _ _ hlast
    rw [hlast]
    have hc : c ∉ continuationChars := by simpa using h
    exact opensBrace_eq_false (by decide) hc

theorem opensValue_of_passesHead (h : passesHead cs) : opensValue cs = false := by
  have hsplit := splitHead_append h []
  rw [List.append_nil] at hsplit
  rw [opensValue]
  simp only [hsplit, splitHead]

/-- The reader finds the brace that the pieces tell of. -/
theorem SetOut.behindHead? (h : SetOut ps cs) : match behind ps with
    | some qs => ∃ rest, Procedure.behindHead? cs = some rest ∧ SetOut qs rest
    | none => Procedure.behindHead? cs = none := by
  have hnil : passesHead [] := rfl
  induction h with
  | nil => rfl
  | @blank ps c rest hc _ ih =>
    have hfound := (Clear.blank hc).behindHead?_append rest
    rw [List.singleton_append] at hfound
    rwa [hfound]
  | @ended _ _ rest hs _ _ => exact hs.behindHead?_semicolon rest
  | @line ps cs rest hs hc _ _ ih =>
    rcases hs.value with hpass | hvalue
    · have hclear : Clear cs := ⟨hpass, endsOpen_of_isComplete hc⟩
      rw [behind, opensValue_of_passesHead hpass, hclear.behindHead?_append]
      exact ih
    · rw [behind, hvalue]
      exact behindHead?_of_opensValue hvalue rest
  | @header ps w blanks inner rest hb hi _ ih =>
    have hclear := ((Clear.keyword w.chars).append (Clear.blanks hb)).append hi.clear
    have htext : w.text.toList ++ (blanks ++ '(' :: (inner ++ ')' :: rest)) =
        w.text.toList ++ blanks ++ '(' :: (inner ++ [')']) ++ rest := by simp
    rw [htext, hclear.behindHead?_append]
    exact ih
  | alternative _ _ ih | doStart _ _ ih =>
    rw [(Clear.keyword (by decide)).behindHead?_append]
    exact ih
  | @named ps head blanks rest hh hb hs _ =>
    have hclear := hh.clear.append (Clear.blanks hb)
    exact ⟨rest, by rw [← List.append_assoc, behindHead?_head hclear], hs⟩
  | @opening _ rest hs _ => exact ⟨rest, behindHead?_head (Clear.blanks (List.forall_mem_nil _)) rest, hs⟩
  | @closing _ rest _ _ => exact behindHead?_of_ends hnil rfl (by decide) rest
  | @semicolon _ rest _ _ => exact behindHead?_of_ends hnil rfl (by decide) rest

end Search

/-! ### Lost statements -/

/-- A statement without a semicolon is lost: from there, the reader comes to a brace that a head may stand before. -/
def losesStatement : List Piece → Bool
  | [] => false
  | .statement cs false :: ps => (behind (.statement cs false :: ps)).isSome || losesStatement ps
  | _ :: ps => losesStatement ps

/-- The pieces that the reader keeps.  A statement that is lost takes all up to the brace with it, which is where the
reader is if it is `lost`. -/
def kept : (lost : Bool) → List Piece → List Piece
  | _, [] => []
  | true, .opening :: ps | true, .named _ :: ps => kept false ps
  | true, _ :: ps => kept true ps
  | false, .statement cs false :: ps =>
    if (behind (.statement cs false :: ps)).isSome then kept true ps else .statement cs false :: kept false ps
  | false, p :: ps => p :: kept false ps

/-- The piece, with a semicolon if it is a statement. -/
def Piece.close : Piece → Piece
  | statement cs _ => statement cs true
  | p => p

/-- What the text shows: the statements that are kept, and the pieces themselves if no statement is lost. -/
def Seen (ps : List Piece) (cs : List Char) : Prop :=
  ∃ qs, Shows qs cs ∧ statements qs = statements (kept false ps) ∧ (losesStatement ps = false → qs = ps)

section Seen

variable {p : Piece} {ps qs : List Piece} {cs rest : List Char}

theorem kept_true (h : behind ps = some qs) : kept true ps = kept false qs := by
  fun_induction behind ps with
  | case1 | case2 =>
    obtain rfl := Option.some.inj h
    rfl
  | case3 cs ps hvalue => cases h
  | case4 cs ps hvalue ih => exact ih h
  | case5 _ _ _ ih | case6 _ ih | case7 _ ih => exact ih h
  | case8 => cases h

theorem Seen.cons (h : Seen ps rest) (hkept : kept false (p :: ps) = p :: kept false ps)
    (hloses : losesStatement (p :: ps) = losesStatement ps) (hs : ∀ {qs}, Shows qs rest → Shows (p :: qs) cs) :
    Seen (p :: ps) cs := by
  obtain ⟨qs, hqs, hstatements, heq⟩ := h
  refine ⟨p :: qs, hs hqs, ?_, fun hl => ?_⟩
  · rw [hkept, statements_cons, statements_cons, hstatements]
  · rw [heq (hloses ▸ hl)]

theorem Seen.line (h : Seen ps rest) (hs : IsStatement cs) (hc : isComplete cs.reverse) (hl : endsLine rest)
    (hbehind : behind (.statement cs false :: ps) = none) (hnone : behindHead? (cs ++ rest) = none) :
    Seen (.statement cs false :: ps) (cs ++ rest) := by
  refine h.cons ?_ ?_ fun hqs => hs.shows_line hc hl hnone hqs
  · rw [kept, hbehind]
    rfl
  · rw [losesStatement, hbehind]
    rfl

theorem Seen.lost {inside : List Char} (h : Seen qs inside) (hs : IsStatement cs) (hl : endsLine rest)
    (hbehind : behind (.statement cs false :: ps) = some qs) (hinside : behindHead? (cs ++ rest) = some inside) :
    Seen (.statement cs false :: ps) (cs ++ rest) := by
  obtain ⟨rs, hrs, hstatements, -⟩ := h
  obtain ⟨head, hshows⟩ := hs.shows_lost hl hinside hrs
  have hlost : kept true ps = kept false qs := by
    rw [← kept_true hbehind]
    rfl
  refine ⟨_, hshows, ?_, fun hloses => ?_⟩
  · rw [statements_cons, hstatements, kept, hbehind]
    simp only [Option.isSome_some, if_true, hlost]
    rfl
  · rw [losesStatement, hbehind] at hloses
    cases hloses

theorem length_lt_of_behindHead? (h : behindHead? cs = some rest) : rest.length < cs.length := by
  obtain ⟨head, hsplit, -⟩ := behindHead?_eq_some h
  have htext := congrArg List.length (splitHead_eq 0 cs)
  rw [hsplit, List.length_append, List.length_cons] at htext
  omega

/-- The reader sees the pieces of a text, but for what is lost.  Behind a lost statement it goes on inside of the
block, so the induction is on the length of the text. -/
theorem SetOut.seen (h : SetOut ps cs) : Seen ps cs := by
  induction hn : cs.length using Nat.strong_induction_on generalizing ps cs with
  | _ n ih =>
    subst hn
    cases h with
    | nil => exact ⟨[], .nil rfl, rfl, fun _ => rfl⟩
    | @blank _ c rest hc hrest =>
      obtain ⟨qs, hqs, hseen⟩ := ih _ (by simp) hrest rfl
      exact ⟨qs, hqs.congr (List.dropWhile_cons_of_pos hc).symm, hseen⟩
    | ended hs hrest =>
      exact (ih _ (by simp; omega) hrest rfl).cons rfl rfl fun hqs => hs.shows_semicolon true hqs
    | @line ps cs rest hs hc hl hrest =>
      have hlt : rest.length < (cs ++ rest).length := by
        rw [List.length_append]
        exact Nat.lt_add_of_pos_left (List.length_pos_of_ne_nil hs.solid.ne_nil)
      have hfound := (SetOut.line hs hc hl hrest).behindHead?
      cases hbehind : behind (.statement cs false :: ps) with
      | none =>
        rw [hbehind] at hfound
        exact (ih _ hlt hrest rfl).line hs hc hl hbehind hfound
      | some qs =>
        rw [hbehind] at hfound
        obtain ⟨inside, hinside, hset⟩ := hfound
        exact (ih _ (length_lt_of_behindHead? hinside) hset rfl).lost hs hl hbehind hinside
    | header hb hi hrest => exact (ih _ (by simp; omega) hrest rfl).cons rfl rfl fun hqs => hi.shows _ hb hqs
    | alternative hc hrest =>
      refine (ih _ (by simp) hrest rfl).cons rfl rfl fun hqs => ?_
      obtain ⟨hheaded, hshows⟩ := shows_keyword (k := "else") (by decide) (by decide) hc hqs
      exact .alternative hheaded hshows
    | doStart hc hrest =>
      refine (ih _ (by simp) hrest rfl).cons rfl rfl fun hqs => ?_
      obtain ⟨hheaded, hshows⟩ := shows_keyword (k := "do") (by decide) (by decide) hc hqs
      exact .doStart hheaded hshows
    | named hh hb hrest => exact (ih _ (by simp; omega) hrest rfl).cons rfl rfl fun hqs => hh.shows hb hqs
    | opening hrest => exact (ih _ (by simp) hrest rfl).cons rfl rfl fun hqs => .opening rfl hqs
    | closing hrest => exact (ih _ (by simp) hrest rfl).cons rfl rfl fun hqs => .closing rfl hqs
    | semicolon hrest => exact (ih _ (by simp) hrest rfl).cons rfl rfl fun hqs => .semicolon rfl hqs

end Seen

/-! ### Semicolons -/

section Close

variable {ps : List Piece} {cs : List Char}

theorem statements_close (ps : List Piece) : statements (ps.map Piece.close) = statements ps := by
  induction ps with
  | nil => rfl
  | cons p ps ih =>
    rw [List.map_cons, statements_cons, statements_cons, ih]
    cases p <;> rfl

theorem losesStatement_close (ps : List Piece) : losesStatement (ps.map Piece.close) = false := by
  induction ps with
  | nil => rfl
  | cons p ps ih => cases p <;> exact ih

/-- The reader does not tell a statement that has been ended by its line from one that has been ended by a
semicolon. -/
theorem Shows.close (h : Shows ps cs) : Shows (ps.map Piece.close) cs := by
  induction h with
  | nil h => exact .nil h
  | opening h _ ih => exact .opening h ih
  | closing h _ ih => exact .closing h ih
  | semicolon h _ ih => exact .semicolon h ih
  | header hh hg hlen _ ih => exact .header hh hg hlen ih
  | alternative hh _ ih => exact .alternative hh ih
  | doStart hh _ ih => exact .doStart hh ih
  | named hp hlen hread _ ih => exact .named hp hlen hread ih
  | statement hp hlen hread _ ih => exact .statement hp hlen hread ih

theorem kept_sublist (lost : Bool) (ps : List Piece) : (kept lost ps).Sublist ps := by
  fun_induction kept lost ps with
  | case1 => exact .slnil
  | case2 _ ih | case3 _ _ ih | case4 _ _ _ _ ih => exact ih.cons _
  | case5 _ _ _ ih => exact ih.cons _
  | case6 _ _ _ ih | case7 _ _ _ ih => exact ih.cons_cons _

theorem length_statements_kept_le (lost : Bool) (ps : List Piece) :
    (statements (kept lost ps)).length ≤ (statements ps).length :=
  ((kept_sublist lost ps).flatMap Piece.commands).length_le

theorem length_statements_kept_lt (hloses : losesStatement ps)
    (hread : ∀ cs, .statement cs false ∈ ps → Command.ofStatement cs ≠ []) :
    (statements (kept false ps)).length < (statements ps).length := by
  fun_induction losesStatement ps with
  | case1 => cases hloses
  | case2 cs ps ih =>
    rw [kept, statements_cons, List.length_append]
    split
    · have hpos : 0 < (Command.ofStatement cs).length :=
        List.length_pos_of_ne_nil (hread cs List.mem_cons_self)
      have hle := length_statements_kept_le true ps
      simp only [Piece.commands]
      omega
    · rename_i hnone
      have hps : losesStatement ps := by
        rw [Bool.or_eq_true] at hloses
        exact hloses.resolve_left hnone
      have hlt := ih hps fun ds hds => hread ds (List.mem_cons_of_mem _ hds)
      rw [statements_cons, List.length_append]
      omega
  | case3 p ps hne ih =>
    have hlt := ih hloses fun ds hds => hread ds (List.mem_cons_of_mem _ hds)
    have hkept : kept false (p :: ps) = p :: kept false ps := by
      rw [kept]
      exact hne
    rw [hkept, statements_cons, statements_cons, List.length_append, List.length_append]
    omega

end Close

end Procedure

/-- **A line ends a statement, unless the reader comes to a brace from there.**  The simple commands of a program are
those of the statements that are kept.  If no statement is lost, the program has the same commands as with all
semicolons; and where each statement without a semicolon has a command, only then. -/
theorem Command.ofSource_lines {ps : List Piece} {source closed : String}
    (h : SetOut ps (blankComments source.toList)) (h' : SetOut (ps.map Piece.close) (blankComments closed.toList)) :
    simple (ofSource source) = statements (kept false ps) ∧
    simple (ofSource closed) = statements ps ∧
    (losesStatement ps = false → ofSource source = ofSource closed) ∧
    ((∀ cs, .statement cs false ∈ ps → ofStatement cs ≠ []) →
      (ofSource source = ofSource closed ↔ losesStatement ps = false)) := by
  obtain ⟨qs, hqs, hstatements, heq⟩ := h.seen
  obtain ⟨rs, hrs, -, heq'⟩ := h'.seen
  obtain rfl := heq' (losesStatement_close ps)
  obtain ⟨commands, hsimple, hread⟩ := exists_ofSource qs
  obtain ⟨commands', hsimple', hread'⟩ := exists_ofSource (ps.map Piece.close)
  have hsource : simple (ofSource source) = statements (kept false ps) := by
    rw [hread source hqs, hsimple, hstatements]
  have hclosed : simple (ofSource closed) = statements ps := by
    rw [hread' closed hrs, hsimple', statements_close]
  have hsame (hl : losesStatement ps = false) : ofSource source = ofSource closed := by
    rw [hread' closed hrs, hread' source (heq hl ▸ hqs).close]
  refine ⟨hsource, hclosed, hsame, fun hcommands => ⟨fun hofSource => ?_, hsame⟩⟩
  cases hl : losesStatement ps with
  | false => rfl
  | true =>
    have hlt := length_statements_kept_lt hl hcommands
    rw [← hsource, ← hclosed, hofSource] at hlt
    exact absurd hlt (Nat.lt_irrefl _)

/-- A lambda and its call, with no semicolon at all. -/
theorem Command.ofSource_lines_blink :
    Command.ofSource "auto blink = [&](int n) \x7b\n  on()\n\x7d\nblink(2)" =
      Command.ofSource "auto blink = [&](int n) \x7b\n  on();\n\x7d\nblink(2);" := by
  have hblink : Name "blink" := ⟨⟨by decide, by decide, by decide⟩, by decide⟩
  have hn : Name "n" := ⟨⟨by decide, by decide, by decide⟩, by decide⟩
  have hcapture : Capture "&" := ⟨by decide, by decide⟩
  have hhead : IsHead "auto blink = [&](int n)".toList :=
    (headPhrase_lambda hblink (List.forall_mem_singleton.2 hn) hcapture).isHead
  have hon : IsStatement "on()".toList := (Action.phrase (a := .allOn) trivial).isStatement
  have hcount : (Operand.ofText "2").Printed := .of_tree (by decide +kernel) (by decide +kernel) (by decide)
  have hcall : IsStatement "blink(2)".toList :=
    (Action.phrase (a := .callUser "blink" [.ofText "2"]) ⟨hblink, List.forall_mem_singleton.2 hcount⟩).isStatement
  have hspace : ∀ c ∈ [' '], isBlank c = true := by decide
  have hlines : SetOut [.named "auto blink = [&](int n)".toList, .statement "on()".toList false, .closing,
      .statement "blink(2)".toList false] "auto blink = [&](int n) \x7b\n  on()\n\x7d\nblink(2)".toList :=
    .named hhead hspace <| .blank rfl <| .blank rfl <| .blank rfl <| .line hon rfl rfl <| .blank rfl <| .closing <|
      .blank rfl <| .line hcall rfl rfl .nil
  have hclosed : SetOut [.named "auto blink = [&](int n)".toList, .statement "on()".toList true, .closing,
      .statement "blink(2)".toList true] "auto blink = [&](int n) \x7b\n  on();\n\x7d\nblink(2);".toList :=
    .named hhead hspace <| .blank rfl <| .blank rfl <| .blank rfl <| .ended hon <| .blank rfl <| .closing <|
      .blank rfl <| .ended hcall .nil
  have hread := Command.ofSource_lines (hlines.of_isQuiet (by decide)) (hclosed.of_isQuiet (by decide))
  exact hread.2.2.1 rfl

/-- A statement before a condition, of which nothing is left without its semicolon. -/
theorem Command.not_ofSource_lines :
    ¬ ∀ (ps : List Piece) (source closed : String), SetOut ps (blankComments source.toList) →
      SetOut (ps.map Piece.close) (blankComments closed.toList) →
      Command.ofSource source = Command.ofSource closed := by
  intro h
  have hon : IsStatement "on()".toList := (Action.phrase (a := .allOn) trivial).isStatement
  have hoff : IsStatement "off()".toList := (Action.phrase (a := .allOff) trivial).isStatement
  have hspace : ∀ c ∈ [' '], isBlank c = true := by decide
  have hone : Nested (fun _ => True) ['1'] := .char rfl trivial .nil
  have hbody : SetOut [.opening, .statement "off()".toList true, .closing] "\x7b\n  off();\n\x7d".toList :=
    .opening (.blank rfl (.blank rfl (.blank rfl (.ended hoff (.blank rfl (.closing .nil))))))
  have hbranch : SetOut [.header .branch ['1'], .opening, .statement "off()".toList true, .closing]
      "\nif (1) \x7b\n  off();\n\x7d".toList :=
    .blank rfl (.header (w := .branch) hspace (.of_nested hone) (.blank rfl hbody))
  have hline : SetOut (.statement "on()".toList false :: _) "on()\nif (1) \x7b\n  off();\n\x7d".toList :=
    .line hon rfl rfl hbranch
  have hclosed : SetOut (.statement "on()".toList true :: _) "on();\nif (1) \x7b\n  off();\n\x7d".toList :=
    .ended hon hbranch
  have hread := h _ _ _ (hline.of_isQuiet (by decide)) (hclosed.of_isQuiet (by decide))
  have hlength := congrArg List.length hread
  exact absurd hlength (by decide +kernel)

end RunningLights
