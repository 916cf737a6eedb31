import Mathlib
import RunningLights.Proofs.Expr.Separation

/-!
# Printing tokens

Every token but a float has a spelling that is read back as this token, and so has a text that keeps the spellings of
several tokens apart:

* `Token.spelling`, `Token.Spells` — the shortest spelling of a token, and every one;
* `Token.print` — tokens in their shortest spellings, with single spaces between them;
* `Token.IsPath` — names that are joined by points and arrows;
* `Token.Printable` — the tokens that have a spelling of their own;
* `Token.Renders` — texts of tokens, with blanks between the spellings;
* `Token.tokens?_of_renders` — such a text has these tokens;
* `Token.printable_of_scanFrom` — what is read of a text is printable, floats apart.
-/

namespace RunningLights.Token

open Text

/-! ### Spellings -/

/-- The spelling of a token, the shortest one where there are several. -/
def spelling : Token → String
  | .number v => v.text
  | .ident name => name
  | .true => "true"
  | .false => "false"
  | .lparen => "("
  | .rparen => ")"
  | .lbracket => "["
  | .rbracket => "]"
  | .comma => ","
  | .plus => "+"
  | .minus => "-"
  | .star => "*"
  | .slash => "/"
  | .percent => "%"
  | .bang => "!"
  | .lt => "<"
  | .gt => ">"
  | .le => "<="
  | .ge => ">="
  | .eqEq => "=="
  | .notEq => "!="
  | .andAnd => "&&"
  | .orOr => "||"

/-- The longer spelling of an operator that has two. -/
def strictSpelling? : Token → Option String
  | .eqEq => some "==="
  | .notEq => some "!=="
  | _ => none

/-- The characters that spell a token.  A number may start with zeros and have the letters of a type behind it. -/
inductive Spells : Token → List Char → Prop
  | short {t : Token} : Spells t t.spelling.toList
  | strict {t : Token} {s : String} : t.strictSpelling? = some s → Spells t s.toList
  | suffixed {n : Int64} {ds sx : List Char} : ds ≠ [] → (∀ d ∈ ds, d.isDigit = Bool.true) →
      (∀ c ∈ sx, isSuffixChar c = Bool.true) → n.toInt = Number.digitsValue ds → Spells (.number (.int n)) (ds ++ sx)

/-- The tokens in their spellings, with single spaces between them. -/
def print (ts : List Token) : String := " ".intercalate (ts.map spelling)

/-! ### Paths of names -/

def IsName (cs : List Char) : Prop := startsWith isNameStart cs = Bool.true ∧ ∀ c ∈ cs, isNameChar c = Bool.true

/-- Names that are joined by points and arrows. -/
inductive IsPath : List Char → Prop
  | name {cs : List Char} : IsName cs → IsPath cs
  | point {cs ds : List Char} : IsName cs → IsPath ds → IsPath (cs ++ '.' :: ds)
  | arrow {cs ds : List Char} : IsName cs → IsPath ds → IsPath (cs ++ '-' :: '>' :: ds)

theorem isName_singleton {c : Char} (h : isNameStart c = Bool.true) : IsName [c] :=
  ⟨h, fun d hd => by
    obtain rfl := List.mem_singleton.1 hd
    exact isNameChar_of_isNameStart h⟩

theorem startsWith_append {p : Char → Bool} {cs : List Char} (h : startsWith p cs = Bool.true) (ds : List Char) :
    startsWith p (cs ++ ds) = Bool.true := by
  cases cs with
  | nil => cases h
  | cons c cs => exact h

theorem IsPath.startsWith {cs : List Char} (h : IsPath cs) : startsWith isNameStart cs = Bool.true := by
  cases h with
  | name h => exact h.1
  | point h _ => exact startsWith_append h.1 _
  | arrow h _ => exact startsWith_append h.1 _

theorem splitPath_nameChars {cs : List Char} (h : ∀ c ∈ cs, isNameChar c = Bool.true) (ds : List Char) :
    splitPath (cs ++ ds) = (cs ++ (splitPath ds).1, (splitPath ds).2) := by
  induction cs with
  | nil => rfl
  | cons c cs ih =>
    obtain ⟨hc, hcs⟩ := List.forall_mem_cons.1 h
    rw [List.cons_append, splitPath_of_isNameChar hc, ih hcs]
    rfl

theorem splitPath_joint {cs : List Char} (h : Token.startsWith isNameStart cs = Bool.true) :
    splitPath ('.' :: cs) = ('.' :: (splitPath cs).1, (splitPath cs).2) ∧
      splitPath ('-' :: '>' :: cs) = ('-' :: '>' :: (splitPath cs).1, (splitPath cs).2) := by
  cases cs with
  | nil => cases h
  | cons c cs =>
    have hc : isNameStart c = Bool.true := h
    exact ⟨by rw [splitPath, if_pos hc], by rw [splitPath, if_pos hc]⟩

theorem IsPath.splitPath_eq {cs : List Char} (h : IsPath cs) : splitPath cs = (cs, []) := by
  induction h with
  | name h =>
    have := splitPath_nameChars h.2 []
    rwa [List.append_nil, splitPath, List.append_nil] at this
  | point h hds ih => rw [splitPath_nameChars h.2, (splitPath_joint hds.startsWith).1, ih]
  | arrow h hds ih => rw [splitPath_nameChars h.2, (splitPath_joint hds.startsWith).2, ih]

/-- What is taken behind a name is a path with it. -/
theorem isPath_append_splitPath {a : List Char} (ha : IsName a) (cs : List Char) : IsPath (a ++ (splitPath cs).1) := by
  have stop : IsPath (a ++ []) := by
    rw [List.append_nil]
    exact .name ha
  unfold splitPath
  split
  next c cs =>
    split
    next hc =>
      have hpath := isPath_append_splitPath (isName_singleton hc) cs
      rw [splitPath_of_isNameChar (isNameChar_of_isNameStart hc)]
      exact .arrow ha hpath
    · exact stop
  next c cs =>
    split
    next hc =>
      have hpath := isPath_append_splitPath (isName_singleton hc) cs
      rw [splitPath_of_isNameChar (isNameChar_of_isNameStart hc)]
      exact .point ha hpath
    · exact stop
  next c cs _ _ =>
    split
    next hc =>
      -- The character belongs to the name that has been begun, and is taken into it.
      have hname : IsName (a ++ [c]) :=
        ⟨startsWith_append ha.1 _, List.forall_mem_append.2 ⟨ha.2, List.forall_mem_singleton.2 hc⟩⟩
      have hpath := isPath_append_splitPath hname cs
      rwa [List.append_assoc] at hpath
    · exact stop
  · exact stop
termination_by cs.length

/-! ### Printable tokens -/

/-- The tokens that have a spelling of their own: integers from zero on, paths of names other than the two words, and
all operators, brackets and words. -/
def Printable : Token → Prop
  | .number (.int n) => 0 ≤ n.toInt
  | .number _ => False
  | .ident name => IsPath name.toList ∧ name ≠ "true" ∧ name ≠ "false"
  | _ => True

def IsFloat : Token → Prop
  | .number (.float _) => True
  | _ => False

theorem toList_text_int {n : Int64} (h : 0 ≤ n.toInt) : (Value.int n).text.toList = Nat.toDigits 10 n.toInt.toNat := by
  obtain ⟨k, hk⟩ := Int.eq_ofNat_of_zero_le h
  have htext : (Value.int n).text = toString (k : Int) := congrArg toString hk
  rw [htext, hk]
  simp [toString, Int.repr]

theorem tokens?_text_int {n : Int64} (h : 0 ≤ n.toInt) :
    tokens? (Value.int n).text.toList = some [.number (.int n)] := by
  rw [toList_text_int h]
  refine tokens?_of_digits Nat.toDigits_ne_nil
    (fun d hd => Nat.isDigit_of_mem_toDigits (by decide) (by decide) hd) ?_
  have hvalue : Number.digitsValue (Nat.toDigits 10 n.toInt.toNat) = n.toInt.toNat :=
    Nat.ofDigitChars_toDigits (by decide) (by decide)
  rw [hvalue, Int.toNat_of_nonneg h]

theorem startsNumber_of_isNameStart {c : Char} (h : isNameStart c = Bool.true) (cs : List Char) :
    startsNumber (c :: cs) = Bool.false := by
  rw [startsNumber.eq_2, isDigit_of_isNameStart h]
  rintro rfl
  exact absurd h (by decide)

theorem tokens?_ident {name : String} (h : IsPath name.toList) (ht : name ≠ "true") (hf : name ≠ "false") :
    tokens? name.toList = some [.ident name] := by
  have hstart := h.startsWith
  have hsplit := h.splitPath_eq
  cases hname : name.toList with
  | nil =>
    rw [hname] at hstart
    cases hstart
  | cons c cs =>
    rw [hname] at hstart hsplit
    have hc : isNameStart c = Bool.true := hstart
    have hchar := isNameChar_of_isNameStart hc
    rw [splitPath_of_isNameChar hchar] at hsplit
    have hcs : splitPath cs = (cs, []) := by
      obtain ⟨hpath, hrest⟩ := Prod.mk.inj hsplit
      exact Prod.ext (List.cons.inj hpath).2 hrest
    have hofPath : ofPath (c :: cs) = .ident name := by
      rw [ofPath, ← hname, String.ofList_toList]
      simp [ht, hf]
    refine tokens?_of_next? (isBlank_of_isNameChar hchar) ?_
    rw [next?, scanOne, startsNumber_of_isNameStart hc, if_neg Bool.false_ne_true, if_pos hc, hcs, ← hofPath]
    rfl

/-- Each spelling of a token is read as this token. -/
theorem tokens?_of_spells {t : Token} {cs : List Char} (ht : t.Printable) (h : Spells t cs) :
    tokens? cs = some [t] := by
  cases h with
  | strict h =>
    cases t <;> cases h
    all_goals exact tokens?_of_next? (by decide) rfl
  | suffixed hne hds hsx hn => exact tokens?_of_suffixed hne hds hsx hn
  | short =>
    cases t with
    | number v =>
      cases v with
      | int n => exact tokens?_text_int ht
      | float x => exact ht.elim
      | bool b => exact ht.elim
    | ident name => exact tokens?_ident ht.1 ht.2.1 ht.2.2
    | true | false | lparen | rparen | lbracket | rbracket | comma | plus | minus | star | slash | percent | bang | lt
    | gt | le | ge | eqEq | notEq | andAnd | orOr => exact tokens?_of_next? (by decide) rfl

/-! ### Texts of tokens -/

/-- The text starts with a blank, if it is not empty. -/
def StartsBlank (cs : List Char) : Prop := cs.head?.all isBlank = Bool.true

/-- Tokens and a text of them: their spellings in order, blanks between all of them, and perhaps blanks around. -/
inductive Renders : List Token → List Char → Prop
  | nil : Renders [] []
  | blank {c : Char} {ts : List Token} {cs : List Char} : isBlank c = Bool.true → Renders ts cs → Renders ts (c :: cs)
  | token {t : Token} {ts : List Token} {sp cs : List Char} :
      Spells t sp → StartsBlank cs → Renders ts cs → Renders (t :: ts) (sp ++ cs)

theorem StartsBlank.startsApart {cs : List Char} (h : StartsBlank cs) : StartsApart cs := by
  intro c hc
  have hblank : isBlank c = Bool.true := by
    rw [Option.mem_def] at hc
    rwa [StartsBlank, hc] at h
  rw [isEdge, hblank]
  rfl

/-- **A text that keeps spellings apart has their tokens.** -/
theorem tokens?_of_renders {ts : List Token} {cs : List Char} (h : Renders ts cs) (hp : ∀ t ∈ ts, t.Printable) :
    tokens? cs = some ts := by
  induction h with
  | nil => exact tokens?_nil
  | blank hc _ ih => rw [tokens?_blank hc, ih hp]
  | @token t ts sp cs hsp hcs _ ih =>
    obtain ⟨ht, hts⟩ := List.forall_mem_cons.1 hp
    exact (hcs.startsApart.joins sp).eq_some_iff.2 ⟨[t], ts, tokens?_of_spells ht hsp, ih hts, rfl⟩

theorem renders_print (ts : List Token) : Renders ts (print ts).toList := by
  rw [print, String.toList_intercalate, List.map_map]
  induction ts with
  | nil => exact .nil
  | cons t ts ih =>
    cases ts with
    | nil =>
      have h : Renders [t] (t.spelling.toList ++ []) := .token .short rfl .nil
      rw [List.append_nil] at h
      rwa [List.map_singleton, List.intercalate_singleton]
    | cons u us =>
      rw [List.map_cons, List.map_cons, List.intercalate_cons_cons, List.append_assoc]
      exact .token .short rfl (.blank (by decide) ih)

/-! ### Tokens of texts -/

theorem numberValue?_digits {ds : List Char} {v : Value} (h : numberValue? ds = some v) :
    (Token.number v).Printable ∨ (Token.number v).IsFloat := by
  unfold numberValue? at h
  split at h
  · obtain ⟨x, -, rfl⟩ := Option.map_eq_some_iff.1 h
    exact .inr trivial
  · obtain ⟨n, hn, rfl⟩ := Option.map_eq_some_iff.1 h
    refine .inl ?_
    show 0 ≤ n.toInt
    rw [Number.fit?_eq_some_iff.1 hn]
    exact Int.natCast_nonneg _

theorem printable_ofPath {path : List Char} (h : IsPath path) : (ofPath path).Printable := by
  unfold ofPath
  simp only [beq_iff_eq]
  split
  · trivial
  · split
    · trivial
    · exact ⟨by rwa [String.toList_ofList], ‹_›, ‹_›⟩

theorem printable_of_scanOperator {cs rest : List Char} {t : Token} (h : scanOperator? cs = some (t, rest)) :
    t.Printable := by
  unfold scanOperator? at h
  split at h <;> cases h <;> trivial

theorem printable_of_scanOne {offset : Nat} {c : Char} {cs rest : List Char} {t : Token}
    (h : scanOne offset c cs = .ok (t, rest)) : t.Printable ∨ t.IsFloat := by
  unfold scanOne at h
  split at h
  · unfold scanNumber at h
    simp only at h
    split at h
    · cases h
    · split at h
      next hv =>
        cases h
        exact numberValue?_digits hv
      · cases h
  · split at h
    next hc =>
      cases h
      exact .inl (printable_ofPath (isPath_append_splitPath (isName_singleton hc) cs))
    · split at h
      next hop =>
        cases h
        exact .inl (printable_of_scanOperator hop)
      · cases h

/-- **What is read of a text is printable**, floats apart. -/
theorem printable_of_scanFrom {total : Nat} {cs : List Char} {ts : List Token} (h : scanFrom total cs = .ok ts) :
    ∀ t ∈ ts, t.Printable ∨ t.IsFloat := by
  fun_induction scanFrom total cs generalizing ts with
  | case1 =>
    cases h
    exact List.forall_mem_nil _
  | case2 c cs hb ih => exact ih h
  | case3 => cases h
  | case4 => cases h
  | case5 c cs hb t rest hone hlt us hrest ih =>
    cases h
    exact List.forall_mem_cons.2 ⟨printable_of_scanOne hone, ih hrest⟩

/-! ### Reading and printing -/

theorem scan_of_renders {ts : List Token} {text : String} (h : Renders ts text.toList) (hp : ∀ t ∈ ts, t.Printable) :
    scan text = .ok ts :=
  scan_eq_ok_iff.2 (tokens?_of_renders h hp)

/-- **Reading inverts printing**: every text of printable tokens that keeps their spellings apart by blanks is read as
these tokens, and the tokens of any text without floats are read again of what is printed of them. -/
theorem scan_inverts_print :
    (∀ (ts : List Token) (text : String), (∀ t ∈ ts, t.Printable) → Renders ts text.toList → scan text = .ok ts) ∧
      ∀ (text : String) (ts : List Token), scan text = .ok ts → (∀ t ∈ ts, ¬ t.IsFloat) →
        scan (print ts) = .ok ts := by
  refine ⟨fun ts text hp h => scan_of_renders h hp, fun text ts h hf => ?_⟩
  have hp : ∀ t ∈ ts, t.Printable := fun t ht => (printable_of_scanFrom h t ht).resolve_right (hf t ht)
  exact scan_of_renders (renders_print ts) hp

/-- A comparison of a path, spread over two lines in its longer spelling, with a type behind the number; and a text
without any blanks, where the spellings meet. -/
theorem scan_inverts_print_comparison :
    ((∀ t ∈ [.ident "pin->count", .notEq, .number (.int 30)], Printable t) ∧
        Renders [.ident "pin->count", .notEq, .number (.int 30)] "pin->count\t!==\n 030UL".toList ∧
        scan "pin->count\t!==\n 030UL" = .ok [.ident "pin->count", .notEq, .number (.int 30)]) ∧
      scan "x-1L===y" = .ok [.ident "x", .minus, .number (.int 1), .eqEq, .ident "y"] ∧
        (∀ t ∈ [.ident "x", .minus, .number (.int 1), .eqEq, .ident "y"], ¬ IsFloat t) ∧
        scan "x - 1 == y" = .ok [.ident "x", .minus, .number (.int 1), .eqEq, .ident "y"] := by
  have hpin : IsName ['p', 'i', 'n'] := ⟨rfl, List.all_eq_true.1 rfl⟩
  have hcount : IsName ['c', 'o', 'u', 'n', 't'] := ⟨rfl, List.all_eq_true.1 rfl⟩
  have hpath : IsPath "pin->count".toList := .arrow hpin (.name hcount)
  have hprintable : ∀ t ∈ [.ident "pin->count", .notEq, .number (.int 30)], Printable t := by
    simp only [List.forall_mem_cons]
    exact ⟨⟨hpath, by decide, by decide⟩, trivial, (by decide : (0 : Int) ≤ (30 : Int64).toInt), nofun⟩
  have hrenders : Renders [.ident "pin->count", .notEq, .number (.int 30)] "pin->count\t!==\n 030UL".toList := by
    show Renders _ ("pin->count".toList ++ '\t' :: ("!==".toList ++ '\n' :: ' ' :: ("030UL".toList ++ [])))
    have hdigits : ∀ d ∈ ['0', '3', '0'], d.isDigit = Bool.true := List.all_eq_true.1 rfl
    have hsuffix : ∀ c ∈ ['U', 'L'], isSuffixChar c = Bool.true := List.all_eq_true.1 rfl
    have hspells : Spells (.number (.int 30)) "030UL".toList :=
      .suffixed (List.cons_ne_nil _ _) hdigits hsuffix rfl
    have hnumber : Renders [.number (.int 30)] ("030UL".toList ++ []) := .token hspells rfl .nil
    have hsign : Renders [.notEq, .number (.int 30)] ("!==".toList ++ '\n' :: ' ' :: ("030UL".toList ++ [])) :=
      .token (.strict rfl) rfl (.blank rfl (.blank rfl hnumber))
    exact .token .short rfl (.blank rfl hsign)
  have hscan : scan "x-1L===y" = .ok [.ident "x", .minus, .number (.int 1), .eqEq, .ident "y"] := by cbv
  have hfloats : ∀ t ∈ [.ident "x", .minus, .number (.int 1), .eqEq, .ident "y"], ¬ IsFloat t := by
    simp [IsFloat]
  exact ⟨⟨hprintable, hrenders, scan_inverts_print.1 _ _ hprintable hrenders⟩, hscan, hfloats,
    scan_inverts_print.2 _ _ hscan hfloats⟩

end RunningLights.Token
