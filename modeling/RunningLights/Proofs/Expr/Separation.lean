import Mathlib.Data.List.TakeWhile
import RunningLights.Proofs.Expr.Spelling

/-!
# Where the tokens of a text come apart

A blank and a parenthesis end every token, and no token starts before them and goes on behind them:

* `isEdge` — blanks and parentheses;
* `tokens?` — the tokens of a text, wherever the text stands;
* `StartsApart.next?_append` — what comes behind an edge has no part in the token before it;
* `tokens?_of_suffixed` — digits are a number, also with a type behind them;
* `StartsApart.joins`, `EndsApart.joins` — where two texts meet at an edge, the tokens of both are those of the one and
  then those of the other.
-/

namespace RunningLights.Token

open Text

/-! ### Edges -/

/-- Blanks and parentheses. -/
def isEdge (c : Char) : Bool := isBlank c || c == '(' || c == ')'

theorem isEdge_of_toNat {c : Char} (h : 32 < c.toNat ∧ c.toNat < 128) (hl : c ≠ '(') (hr : c ≠ ')') :
    isEdge c = Bool.false := by
  rw [isEdge, isBlank_of_toNat h, beq_false_of_ne hl, beq_false_of_ne hr]
  rfl

theorem isEdge_of_isNameChar {c : Char} (h : isNameChar c = Bool.true) : isEdge c = Bool.false := by
  have hc := toNat_of_isNameChar h
  refine isEdge_of_toNat (by omega) ?_ ?_ <;> rintro rfl <;> exact absurd h (by decide)

theorem isEdge_of_isNameStart {c : Char} (h : isNameStart c = Bool.true) : isEdge c = Bool.false :=
  isEdge_of_isNameChar (isNameChar_of_isNameStart h)

theorem isEdge_of_isDigit {c : Char} (h : c.isDigit = Bool.true) : isEdge c = Bool.false :=
  isEdge_of_isNameChar (by simp [isNameChar, Char.isAlphanum, h])

theorem isEdge_of_isNumberChar {c : Char} (h : isNumberChar c = Bool.true) : isEdge c = Bool.false := by
  simp only [isNumberChar, Bool.or_eq_true, beq_iff_eq] at h
  rcases h with h | rfl
  · exact isEdge_of_isDigit h
  · decide

/-- The letters of type suffixes are neither edges nor part of the digits. -/
theorem apart_of_isSuffixChar {c : Char} (h : isSuffixChar c = Bool.true) :
    isEdge c = Bool.false ∧ isNumberChar c = Bool.false := by
  simp only [isSuffixChar, Bool.or_eq_true, beq_iff_eq, or_assoc] at h
  rcases h with rfl | rfl | rfl | rfl | rfl | rfl <;> decide

/-- The text is empty or starts with an edge. -/
def StartsApart (cs : List Char) : Prop := ∀ c ∈ cs.head?, isEdge c = Bool.true

def EndsApart (cs : List Char) : Prop := ∀ c ∈ cs.getLast?, isEdge c = Bool.true

theorem splitPath_of_isNameChar {c : Char} {cs : List Char} (h : isNameChar c = Bool.true) :
    splitPath (c :: cs) = (c :: (splitPath cs).1, (splitPath cs).2) := by
  rw [splitPath, if_pos h]
  all_goals
    rintro d ds rfl
    exact absurd h (by decide)

/-- A path ends where it goes on neither with a character of a name nor with another name. -/
theorem splitPath_stop {c : Char} {cs : List Char} (h : ¬ isNameChar c = Bool.true)
    (harrow : ∀ d ds, c = '-' → cs = '>' :: d :: ds → isNameStart d = Bool.false)
    (hpoint : ∀ d ds, c = '.' → cs = d :: ds → isNameStart d = Bool.false) :
    splitPath (c :: cs) = ([], c :: cs) := by
  unfold splitPath
  split
  next d ds heq =>
    obtain ⟨rfl, rfl⟩ := List.cons.inj heq
    simp [harrow d ds rfl rfl]
  next d ds heq =>
    obtain ⟨rfl, rfl⟩ := List.cons.inj heq
    simp [hpoint d ds rfl rfl]
  next heq =>
    obtain ⟨rfl, rfl⟩ := List.cons.inj heq
    rw [if_neg h]
  next heq => cases heq

namespace StartsApart

variable {b : List Char} (hb : StartsApart b)
include hb

theorem ne_cons {c : Char} (hc : isEdge c = Bool.false) (cs : List Char) : b ≠ c :: cs := by
  rintro rfl
  exact absurd (hb c rfl) (by simp [hc])

theorem startsWith {p : Char → Bool} (hp : ∀ c, p c = Bool.true → isEdge c = Bool.false) :
    startsWith p b = Bool.false := by
  cases b with
  | nil => rfl
  | cons c cs => exact Bool.eq_false_iff.2 fun hpc => hb.ne_cons (hp c hpc) cs rfl

theorem startsWith_append {p : Char → Bool} (hp : ∀ c, p c = Bool.true → isEdge c = Bool.false) (a : List Char) :
    Token.startsWith p (a ++ b) = Token.startsWith p a := by
  cases a with
  | nil => exact hb.startsWith hp
  | cons c cs => rfl

theorem takeWhile_append {p : Char → Bool} (hp : ∀ c, p c = Bool.true → isEdge c = Bool.false) (a : List Char) :
    (a ++ b).takeWhile p = a.takeWhile p := by
  induction a with
  | nil =>
    cases b with
    | nil => rfl
    | cons c cs => exact List.takeWhile_cons_of_neg (Bool.not_eq_true _ ▸ hb.startsWith hp)
  | cons c a ih => rw [List.cons_append, List.takeWhile_cons, List.takeWhile_cons, ih]

theorem dropWhile_append {p : Char → Bool} (hp : ∀ c, p c = Bool.true → isEdge c = Bool.false) (a : List Char) :
    (a ++ b).dropWhile p = a.dropWhile p ++ b := by
  induction a with
  | nil =>
    cases b with
    | nil => rfl
    | cons c cs => exact List.dropWhile_cons_of_neg (Bool.not_eq_true _ ▸ hb.startsWith hp)
  | cons c a ih =>
    rw [List.cons_append, List.dropWhile_cons, List.dropWhile_cons, ih]
    split <;> rfl

/-! ### Single tokens before an edge -/

theorem startsNumber_append (c : Char) (a : List Char) :
    startsNumber (c :: (a ++ b)) = startsNumber (c :: a) := by
  by_cases hc : c = '.'
  · subst hc
    exact hb.startsWith_append (fun _ => isEdge_of_isDigit) a
  · simp [startsNumber]

theorem scanNumber_append (a : List Char) :
    (scanNumber (a ++ b)).toOption = (scanNumber a).toOption.map fun x => (x.1, x.2 ++ b) := by
  unfold scanNumber
  simp only [hb.takeWhile_append fun _ => isEdge_of_isNumberChar, hb.dropWhile_append fun _ => isEdge_of_isNumberChar,
    hb.dropWhile_append fun _ hc => (apart_of_isSuffixChar hc).1, hb.startsWith_append fun _ => isEdge_of_isNameChar]
  split
  · rfl
  · cases numberValue? (a.takeWhile isNumberChar) <;> rfl

theorem splitPath_append (a : List Char) : splitPath (a ++ b) = ((splitPath a).1, (splitPath a).2 ++ b) := by
  fun_induction splitPath a with
  | case1 c cs hc path rest hpath ih =>
    rw [hpath] at ih
    simpa [splitPath, hc] using congrArg (fun x => ('-' :: '>' :: x.1, x.2)) ih
  | case2 c cs hc => simp [splitPath, hc]
  | case3 c cs hc path rest hpath ih =>
    rw [hpath] at ih
    simpa [splitPath, hc] using congrArg (fun x => ('.' :: x.1, x.2)) ih
  | case4 c cs hc => simp [splitPath, hc]
  | case5 c cs _ _ hc path rest hpath ih =>
    rw [hpath] at ih
    rw [List.cons_append, splitPath_of_isNameChar hc, ih]
  | case6 c cs harrow hpoint hc =>
    rw [List.cons_append]
    refine splitPath_stop hc ?_ ?_
    · rintro d ds rfl hcs
      match cs with
      | [] => exact absurd hcs (hb.ne_cons (by decide) _)
      | [x] =>
        obtain ⟨rfl, rfl⟩ := List.cons.inj hcs
        exact hb.startsWith fun _ => isEdge_of_isNameStart
      | x :: y :: ys =>
        obtain ⟨rfl, -⟩ := List.cons.inj hcs
        exact absurd rfl (harrow y ys rfl)
    · rintro d ds rfl hcs
      match cs with
      | [] =>
        obtain rfl : b = d :: ds := hcs
        exact hb.startsWith fun _ => isEdge_of_isNameStart
      | y :: ys => exact absurd rfl (hpoint y ys rfl)
  | case7 =>
    match b with
    | [] => rfl
    | c :: cs =>
      have hedge : isEdge c = Bool.true := hb c rfl
      refine splitPath_stop (fun hc => ?_) ?_ ?_
      · rw [isEdge_of_isNameChar hc] at hedge
        cases hedge
      all_goals
        rintro d ds rfl
        exact absurd hedge (by decide)

omit hb in
theorem append_ne_cons_of_ne_nil {c : Char} {a : List Char} (hnil : a ≠ []) (ha : ∀ cs, a = c :: cs → False)
    (cs : List Char) : a ++ b = c :: cs → False := by
  cases a with
  | nil => exact absurd rfl hnil
  | cons d a =>
    rintro ⟨⟩
    exact ha a rfl

theorem append_ne_cons {c : Char} (hc : isEdge c = Bool.false) {a : List Char} (ha : ∀ cs, a = c :: cs → False)
    (cs : List Char) : a ++ b = c :: cs → False := by
  cases a with
  | nil => exact hb.ne_cons hc cs
  | cons d a => exact append_ne_cons_of_ne_nil (List.cons_ne_nil d a) ha cs

theorem append_ne_cons_cons {c d : Char} (hc : isEdge c = Bool.false) (hd : isEdge d = Bool.false) {a : List Char}
    (ha : ∀ cs, a = c :: d :: cs → False) (cs : List Char) : a ++ b = c :: d :: cs → False := by
  cases a with
  | nil => exact hb.ne_cons hc (d :: cs)
  | cons x a =>
    intro h
    obtain ⟨rfl, hrest⟩ := List.cons.inj h
    exact hb.append_ne_cons hd (fun cs hcs => ha cs (congrArg _ hcs)) cs hrest

/-- No spelling of an operator has an edge behind its first character. -/
theorem scanOperator?_append {a : List Char} (ha : a ≠ []) :
    scanOperator? (a ++ b) = (scanOperator? a).map fun x => (x.1, x.2 ++ b) := by
  have heq : isEdge '=' = Bool.false := by decide
  have hand : isEdge '&' = Bool.false := by decide
  have hor : isEdge '|' = Bool.false := by decide
  have one {c : Char} := append_ne_cons_of_ne_nil (b := b) (c := c) ha
  fun_cases scanOperator? a
  case case3 cs h => exact scanOperator?.eq_3 _ (hb.append_ne_cons heq h)
  case case4 cs h => exact scanOperator?.eq_4 _ (hb.append_ne_cons heq h)
  case case9 cs h => exact scanOperator?.eq_9 _ (hb.append_ne_cons heq h)
  case case10 cs h => exact scanOperator?.eq_10 _ (hb.append_ne_cons heq h)
  case case11 cs _ h =>
    exact scanOperator?.eq_11 _ (fun cs' => hb.append_ne_cons heq h _) (hb.append_ne_cons heq h)
  case case22 _ _ heqs _ _ _ hands hors hlt hgt hbang hplus hminus hstar hslash hpercent hl hr hl' hr' hcomma =>
    have heqs' := hb.append_ne_cons_cons heq heq heqs
    exact scanOperator?.eq_22 _ (fun _ => heqs' _) (fun _ => one hbang _) heqs' (fun _ => one hbang _)
      (fun _ => one hlt _) (fun _ => one hgt _) (hb.append_ne_cons_cons hand hand hands)
      (hb.append_ne_cons_cons hor hor hors) (one hlt) (one hgt) (one hbang) (one hplus) (one hminus) (one hstar)
      (one hslash) (one hpercent) (one hl) (one hr) (one hl') (one hr') (one hcomma)
  all_goals rfl

end StartsApart

/-! ### The tokens of a text -/

/-- The token that starts at a character, and the text behind it. -/
def next? (c : Char) (cs : List Char) : Option (Token × List Char) := (scanOne 0 c cs).toOption

/-- Its place matters only for errors. -/
theorem toOption_scanOne (offset : Nat) (c : Char) (cs : List Char) : (scanOne offset c cs).toOption = next? c cs := by
  unfold next? scanOne
  split
  · rfl
  · split
    · rfl
    · split <;> rfl

theorem StartsApart.next?_append {b : List Char} (hb : StartsApart b) (c : Char) (a : List Char) :
    next? c (a ++ b) = (next? c a).map fun x => (x.1, x.2 ++ b) := by
  unfold next? scanOne
  rw [hb.startsNumber_append, hb.splitPath_append]
  split
  · exact hb.scanNumber_append (c :: a)
  · split
    · rfl
    · have hoperator : scanOperator? (c :: (a ++ b)) = _ := hb.scanOperator?_append (List.cons_ne_nil c a)
      rw [hoperator]
      cases scanOperator? (c :: a) <;> rfl

theorem length_next? {c : Char} {cs rest : List Char} {t : Token} (h : next? c cs = some (t, rest)) :
    rest.length < (c :: cs).length := by
  unfold next? at h
  cases hone : scanOne 0 c cs with
  | error e =>
    rw [hone] at h
    cases h
  | ok x =>
    rw [hone] at h
    cases h
    exact length_scanOne hone

def tokens? (cs : List Char) : Option (List Token) := (scanFrom 0 cs).toOption

theorem toOption_scanFrom_blank (total : Nat) {c : Char} (hc : isBlank c = Bool.true) (cs : List Char) :
    (scanFrom total (c :: cs)).toOption = (scanFrom total cs).toOption := by
  rw [scanFrom, if_pos hc]

theorem toOption_scanFrom_cons (total : Nat) {c : Char} (hc : isBlank c = Bool.false) (cs : List Char) :
    (scanFrom total (c :: cs)).toOption =
      (next? c cs).bind fun x => (scanFrom total x.2).toOption.map (x.1 :: ·) := by
  rw [scanFrom, if_neg (by simp [hc])]
  split
  · rename_i e h
    have hnext : next? c cs = none := by rw [← toOption_scanOne, h]; rfl
    rw [hnext]
    rfl
  · rename_i t rest h
    have hnext : next? c cs = some (t, rest) := by rw [← toOption_scanOne, h]; rfl
    rw [hnext]
    dsimp only [Option.bind_some]
    cases scanFrom total rest <;> rfl

/-- The place of a text does not matter for its tokens. -/
theorem toOption_scanFrom (total : Nat) (cs : List Char) : (scanFrom total cs).toOption = tokens? cs := by
  match cs with
  | [] => rw [tokens?, scanFrom_nil, scanFrom_nil]
  | c :: cs =>
    rw [tokens?]
    cases hc : isBlank c with
    | true =>
      rw [toOption_scanFrom_blank total hc, toOption_scanFrom_blank 0 hc]
      exact toOption_scanFrom total cs
    | false =>
      rw [toOption_scanFrom_cons total hc, toOption_scanFrom_cons 0 hc]
      cases hnext : next? c cs with
      | none => rfl
      | some x =>
        have := length_next? hnext
        rw [Option.bind_some, Option.bind_some, toOption_scanFrom total x.2]
        rfl
termination_by cs.length
decreasing_by
  all_goals
    simp only [List.length_cons] at *
    omega

theorem scan_eq_ok_iff {text : String} {ts : List Token} : scan text = .ok ts ↔ tokens? text.toList = some ts := by
  rw [scan, ← toOption_scanFrom text.toList.length]
  cases scanFrom text.toList.length text.toList with
  | error e => exact ⟨nofun, nofun⟩
  | ok us => exact ⟨fun h => congrArg some (Except.ok.inj h), fun h => congrArg Except.ok (Option.some.inj h)⟩

theorem tokens?_nil : tokens? [] = some [] := by
  rw [tokens?, scanFrom_nil]
  rfl

theorem tokens?_blank {c : Char} (hc : isBlank c = Bool.true) (cs : List Char) : tokens? (c :: cs) = tokens? cs :=
  toOption_scanFrom_blank 0 hc cs

theorem tokens?_cons {c : Char} (hc : isBlank c = Bool.false) (cs : List Char) :
    tokens? (c :: cs) = (next? c cs).bind fun x => (tokens? x.2).map (x.1 :: ·) :=
  toOption_scanFrom_cons 0 hc cs

theorem tokens?_of_next? {c : Char} {cs : List Char} {t : Token} (hc : isBlank c = Bool.false)
    (h : next? c cs = some (t, [])) : tokens? (c :: cs) = some [t] := by
  rw [tokens?_cons hc, h, Option.bind_some, tokens?_nil]
  rfl

/-! ### Texts of digits -/

/-- Digits and the letters of a type behind them come apart. -/
theorem span_suffixed {ds sx : List Char} (h : ∀ d ∈ ds, d.isDigit = Bool.true)
    (hsx : ∀ c ∈ sx, isSuffixChar c = Bool.true) :
    (ds ++ sx).takeWhile isNumberChar = ds ∧ (ds ++ sx).dropWhile isNumberChar = sx := by
  have hnumber : ∀ d ∈ ds, isNumberChar d = Bool.true := fun d hd => by simp [isNumberChar, h d hd]
  rw [List.takeWhile_append_of_pos hnumber, List.dropWhile_append_of_pos hnumber]
  cases sx with
  | nil => simp
  | cons c sx =>
    have hc := (apart_of_isSuffixChar (hsx c List.mem_cons_self)).2
    simp [hc]

theorem next?_of_suffixed {c : Char} {cs sx : List Char} {n : Int64} (h : ∀ d ∈ c :: cs, d.isDigit = Bool.true)
    (hsx : ∀ c ∈ sx, isSuffixChar c = Bool.true) (hn : n.toInt = Number.digitsValue (c :: cs)) :
    next? c (cs ++ sx) = some (.number (.int n), []) := by
  obtain ⟨htake, hdrop⟩ := span_suffixed h hsx
  have hrest : sx.dropWhile isSuffixChar = [] := List.dropWhile_eq_nil_iff.2 hsx
  have hpoint : '.' ∉ c :: cs := fun hmem => absurd (h _ hmem) (by decide)
  have hstart : startsNumber (c :: (cs ++ sx)) = Bool.true := by
    rw [startsNumber.eq_2]
    · exact h c List.mem_cons_self
    · rintro rfl
      exact hpoint List.mem_cons_self
  have hvalue : numberValue? (c :: cs) = some (.int n) := by
    rw [numberValue?, if_neg (by simpa using hpoint), Number.fit?_eq_some_iff.2 hn]
    rfl
  rw [next?, scanOne, if_pos hstart, scanNumber, ← List.cons_append, htake, hdrop, hrest, hvalue]
  rfl

/-- Digits are a number as long as it fits, whatever type is written behind them. -/
theorem tokens?_of_suffixed {ds sx : List Char} {n : Int64} (hne : ds ≠ []) (h : ∀ d ∈ ds, d.isDigit = Bool.true)
    (hsx : ∀ c ∈ sx, isSuffixChar c = Bool.true) (hn : n.toInt = Number.digitsValue ds) :
    tokens? (ds ++ sx) = some [.number (.int n)] := by
  obtain ⟨c, cs, rfl⟩ := List.exists_cons_of_ne_nil hne
  have hdigit : c.isDigit = Bool.true := h c List.mem_cons_self
  exact tokens?_of_next? (isBlank_of_isNameChar (by simp [isNameChar, Char.isAlphanum, hdigit]))
    (next?_of_suffixed h hsx hn)

theorem tokens?_of_digits {ds : List Char} {n : Int64} (hne : ds ≠ []) (h : ∀ d ∈ ds, d.isDigit = Bool.true)
    (hn : n.toInt = Number.digitsValue ds) : tokens? ds = some [.number (.int n)] := by
  have htokens : tokens? (ds ++ []) = some [.number (.int n)] := tokens?_of_suffixed hne h nofun hn
  rwa [List.append_nil] at htokens

/-! ### Texts that meet at an edge -/

/-- The tokens of both texts are those of the one and then those of the other. -/
def Joins (a b : List Char) : Prop :=
  tokens? (a ++ b) = (tokens? a).bind fun us => (tokens? b).map (us ++ ·)

theorem StartsApart.joins {b : List Char} (hb : StartsApart b) (a : List Char) : Joins a b := by
  match a with
  | [] =>
    rw [Joins, tokens?_nil, List.nil_append, Option.bind_some]
    exact Option.map_id'.symm
  | c :: a =>
    rw [Joins, List.cons_append]
    cases hc : isBlank c with
    | true =>
      rw [tokens?_blank hc, tokens?_blank hc]
      exact hb.joins a
    | false =>
      rw [tokens?_cons hc, tokens?_cons hc, hb.next?_append]
      cases hnext : next? c a with
      | none => rfl
      | some x =>
        have := length_next? hnext
        have hrest : Joins x.2 b := hb.joins x.2
        simp only [Option.map_some, Option.bind_some]
        rw [hrest]
        cases tokens? x.2 with
        | none => rfl
        | some us => cases tokens? b <;> rfl
termination_by a.length
decreasing_by
  all_goals
    simp only [List.length_cons] at *
    omega

/-- An edge leaves no trace or one token, whatever comes behind it. -/
theorem exists_tokens_edge {c : Char} (hc : isEdge c = Bool.true) :
    ∃ us, ∀ b, tokens? (c :: b) = (tokens? b).map (us ++ ·) := by
  simp only [isEdge, Bool.or_eq_true, beq_iff_eq] at hc
  rcases hc with (hc | rfl) | rfl
  · exact ⟨[], fun b => (tokens?_blank hc b).trans Option.map_id'.symm⟩
  · exact ⟨[.lparen], fun b => (tokens?_cons (by decide) b).trans rfl⟩
  · exact ⟨[.rparen], fun b => (tokens?_cons (by decide) b).trans rfl⟩

theorem EndsApart.joins {a : List Char} (ha : EndsApart a) (b : List Char) : Joins a b := by
  rcases List.eq_nil_or_concat a with rfl | ⟨a, c, rfl⟩
  · rw [Joins, tokens?_nil, List.nil_append, Option.bind_some]
    exact Option.map_id'.symm
  · have hc : isEdge c = Bool.true := ha c (by simp)
    obtain ⟨us, hus⟩ := exists_tokens_edge hc
    have behind (b : List Char) : Joins a (c :: b) := StartsApart.joins (fun d hd => by cases hd; exact hc) a
    rw [Joins, List.concat_eq_append, List.append_assoc, List.singleton_append, behind b, behind [], hus, hus,
      tokens?_nil]
    cases tokens? a with
    | none => rfl
    | some vs => cases tokens? b <;> simp

theorem Joins.eq_some_iff {a b : List Char} (h : Joins a b) {ts : List Token} :
    tokens? (a ++ b) = some ts ↔ ∃ us vs, tokens? a = some us ∧ tokens? b = some vs ∧ us ++ vs = ts := by
  rw [h, Option.bind_eq_some_iff]
  simp only [Option.map_eq_some_iff]
  constructor
  · rintro ⟨us, hus, vs, hvs, rfl⟩
    exact ⟨us, vs, hus, hvs, rfl⟩
  · rintro ⟨us, vs, hus, hvs, rfl⟩
    exact ⟨us, hus, vs, hvs, rfl⟩

end RunningLights.Token
