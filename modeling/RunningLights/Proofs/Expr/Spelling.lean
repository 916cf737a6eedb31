import RunningLights.Expr.Token

/-!
# The spelling of tokens

How the tokens of a text are written in it:

* `Token.Written` — a token and its characters;
* `Token.Spelled` — tokens and their text, with blanks between them;
* `Token.spelled_of_scan` — the tokens of a text are spelled by it.
-/

namespace RunningLights.Token

open Text

/-! ### Characters of names -/

theorem toNat_of_isNameChar {c : Char} (h : isNameChar c = Bool.true) : 47 < c.toNat ∧ c.toNat < 128 := by
  unfold isNameChar Char.isAlphanum Char.isAlpha Char.isUpper Char.isLower Char.isDigit at h
  simp only [Bool.or_eq_true, Bool.and_eq_true, decide_eq_true_eq, beq_iff_eq, ge_iff_le,
    UInt32.le_iff_toNat_le] at h
  simp only [Char.toNat]
  rcases h with ((h | h) | h) | rfl
  · change 65 ≤ _ ∧ _ ≤ 90 at h
    omega
  · change 97 ≤ _ ∧ _ ≤ 122 at h
    omega
  · change 48 ≤ _ ∧ _ ≤ 57 at h
    omega
  · decide

theorem isBlank_of_toNat {c : Char} (h : 32 < c.toNat ∧ c.toNat < 128) : isBlank c = Bool.false := by
  have hs : c ≠ ' ' := by
    rintro rfl
    exact absurd h (by decide)
  have hr : ¬ c ≤ '\r' := by
    simp only [Char.le_def, UInt32.le_iff_toNat_le]
    simp only [Char.toNat] at h
    change ¬ _ ≤ 13
    omega
  simp [isBlank, h.2, isAsciiBlank, hs, hr]

theorem isBlank_of_isNameChar {c : Char} (h : isNameChar c = Bool.true) : isBlank c = Bool.false := by
  have hc := toNat_of_isNameChar h
  exact isBlank_of_toNat (by omega)

theorem isNameChar_of_isNameStart {c : Char} (h : isNameStart c = Bool.true) : isNameChar c = Bool.true := by
  simp only [isNameStart, Bool.or_eq_true] at h
  simp only [isNameChar, Char.isAlphanum, Bool.or_eq_true]
  exact h.imp .inl id

theorem isDigit_of_isNameStart {c : Char} (h : isNameStart c = Bool.true) : c.isDigit = Bool.false := by
  unfold isNameStart Char.isAlpha Char.isUpper Char.isLower at h
  simp only [Bool.or_eq_true, Bool.and_eq_true, decide_eq_true_eq, beq_iff_eq, ge_iff_le,
    UInt32.le_iff_toNat_le] at h
  rw [Bool.eq_false_iff]
  simp only [Char.isDigit, ne_eq, Bool.and_eq_true, decide_eq_true_eq, ge_iff_le, UInt32.le_iff_toNat_le]
  change ¬ (48 ≤ _ ∧ _ ≤ 57)
  rcases h with (h | h) | rfl
  · change 65 ≤ _ ∧ _ ≤ 90 at h
    omega
  · change 97 ≤ _ ∧ _ ≤ 122 at h
    omega
  · decide

/-! ### Spelled tokens -/

/-- Numbers and names: they start with a digit, a point, a letter or an underscore, and go on with these and with the
arrows of paths. -/
structure Word (cs : List Char) : Prop where
  start : ∃ c, cs.head? = some c ∧ (isNumberChar c || isNameStart c) = Bool.true
  chars : ∀ c ∈ cs, (isNameChar c || ['.', '-', '>'].contains c) = Bool.true

inductive Written : Token → List Char → Prop
  | number (v : Value) {cs : List Char} : Word cs → Written (.number v) cs
  | ident (name : String) {cs : List Char} : Word cs → Written (.ident name) cs
  | true {cs : List Char} : Word cs → Written .true cs
  | false {cs : List Char} : Word cs → Written .false cs
  | lparen : Written .lparen ['(']
  | rparen : Written .rparen [')']
  | lbracket : Written .lbracket ['[']
  | rbracket : Written .rbracket [']']
  | comma : Written .comma [',']
  | plus : Written .plus ['+']
  | minus : Written .minus ['-']
  | star : Written .star ['*']
  | slash : Written .slash ['/']
  | percent : Written .percent ['%']
  | bang : Written .bang ['!']
  | lt : Written .lt ['<']
  | gt : Written .gt ['>']
  | le : Written .le ['<', '=']
  | ge : Written .ge ['>', '=']
  | eqEq : Written .eqEq ['=', '=']
  | eqEqEq : Written .eqEq ['=', '=', '=']
  | notEq : Written .notEq ['!', '=']
  | notEqEq : Written .notEq ['!', '=', '=']
  | andAnd : Written .andAnd ['&', '&']
  | orOr : Written .orOr ['|', '|']

/-- Tokens and a text of them. -/
inductive Spelled : List Token → List Char → Prop
  | nil {blanks : List Char} : (∀ c ∈ blanks, isBlank c = Bool.true) → Spelled [] blanks
  | cons {blanks : List Char} {t : Token} {cs : List Char} {ts : List Token} {rest : List Char} :
      (∀ c ∈ blanks, isBlank c = Bool.true) → Written t cs → Spelled ts rest →
        Spelled (t :: ts) (blanks ++ cs ++ rest)

theorem Spelled.of_append {ts us : List Token} {cs : List Char} (h : Spelled (ts ++ us) cs) :
    ∃ cs₁ cs₂, cs = cs₁ ++ cs₂ ∧ Spelled ts cs₁ ∧ Spelled us cs₂ := by
  induction ts generalizing cs with
  | nil => exact ⟨[], cs, rfl, .nil nofun, h⟩
  | cons t ts ih =>
    cases h with
    | cons hb ht hrest =>
      obtain ⟨cs₁, cs₂, rfl, h₁, h₂⟩ := ih hrest
      exact ⟨_, cs₂, (List.append_assoc ..).symm, .cons hb ht h₁, h₂⟩

/-! ### The tokens of a text -/

theorem written_of_scanOperator {cs rest : List Char} {t : Token} (h : scanOperator? cs = some (t, rest)) :
    ∃ sp, cs = sp ++ rest ∧ Written t sp := by
  unfold scanOperator? at h
  split at h <;> cases h
  · exact ⟨_, rfl, .eqEqEq⟩
  · exact ⟨_, rfl, .notEqEq⟩
  all_goals exact ⟨_, rfl, by constructor⟩

theorem isNumberChar_or_isSuffixChar {c : Char} (h : isNumberChar c = Bool.true ∨ isSuffixChar c = Bool.true) :
    (isNameChar c || ['.', '-', '>'].contains c) = Bool.true := by
  rcases h with h | h
  · simp only [isNumberChar, Bool.or_eq_true, beq_iff_eq] at h
    rcases h with h | rfl
    · simp [isNameChar, Char.isAlphanum, h]
    · decide
  · simp only [isSuffixChar, Bool.or_eq_true, beq_iff_eq, or_assoc] at h
    rcases h with rfl | rfl | rfl | rfl | rfl | rfl <;> decide

theorem startsNumber_cons {cs : List Char} (h : startsNumber cs = Bool.true) :
    ∃ c ds, cs = c :: ds ∧ isNumberChar c = Bool.true := by
  unfold startsNumber at h
  split at h
  · exact ⟨_, _, rfl, by decide⟩
  · exact ⟨_, _, rfl, by simp [isNumberChar, h]⟩
  · cases h

theorem written_of_scanNumber {cs rest : List Char} {t : Token} (hs : startsNumber cs = Bool.true)
    (h : scanNumber cs = .ok (t, rest)) : ∃ sp, cs = sp ++ rest ∧ Written t sp := by
  have hword : Word (cs.takeWhile isNumberChar ++ (cs.dropWhile isNumberChar).takeWhile isSuffixChar) := by
    refine ⟨?_, fun c hc => isNumberChar_or_isSuffixChar ?_⟩
    · obtain ⟨c, ds, rfl, hc⟩ := startsNumber_cons hs
      exact ⟨c, by rw [List.takeWhile_cons_of_pos hc]; rfl, by simp [hc]⟩
    · exact (List.mem_append.1 hc).imp (List.all_eq_true.1 List.all_takeWhile c)
        (List.all_eq_true.1 List.all_takeWhile c)
  have hcs : cs = (cs.takeWhile isNumberChar ++ (cs.dropWhile isNumberChar).takeWhile isSuffixChar) ++
      (cs.dropWhile isNumberChar).dropWhile isSuffixChar := by
    rw [List.append_assoc, List.takeWhile_append_dropWhile, List.takeWhile_append_dropWhile]
  unfold scanNumber at h
  simp only at h
  split at h
  · cases h
  · split at h
    · cases h
      exact ⟨_, hcs, .number _ hword⟩
    · cases h

theorem splitPath_eq (cs : List Char) : (splitPath cs).1 ++ (splitPath cs).2 = cs := by
  fun_induction splitPath cs <;> simp_all

theorem splitPath_chars (cs : List Char) :
    ∀ c ∈ (splitPath cs).1, (isNameChar c || ['.', '-', '>'].contains c) = Bool.true := by
  fun_induction splitPath cs <;> simp_all

theorem written_ofPath {path : List Char} (h : Word path) : Written (ofPath path) path := by
  unfold ofPath
  simp only
  split
  · exact .true h
  · split
    · exact .false h
    · exact .ident _ h

theorem written_of_scanOne {offset : Nat} {c : Char} {cs rest : List Char} {t : Token}
    (h : scanOne offset c cs = .ok (t, rest)) : ∃ sp, c :: cs = sp ++ rest ∧ Written t sp := by
  unfold scanOne at h
  split at h
  · exact written_of_scanNumber ‹_› h
  · split at h
    · rename_i hc
      cases h
      have hstart : (isNameChar c || ['.', '-', '>'].contains c) = Bool.true := by
        rw [isNameChar_of_isNameStart hc, Bool.true_or]
      refine ⟨c :: (splitPath cs).1, ?_, written_ofPath ⟨⟨c, rfl, ?_⟩, ?_⟩⟩
      · rw [List.cons_append, splitPath_eq]
      · simp [hc]
      · exact List.forall_mem_cons.2 ⟨hstart, splitPath_chars cs⟩
    · split at h
      · cases h
        exact written_of_scanOperator ‹_›
      · cases h

theorem Spelled.blank {c : Char} {ts : List Token} {cs : List Char} (hc : isBlank c = Bool.true)
    (h : Spelled ts cs) : Spelled ts (c :: cs) := by
  cases h with
  | nil hb => exact .nil (List.forall_mem_cons.2 ⟨hc, hb⟩)
  | cons hb ht hrest =>
    exact .cons (List.forall_mem_cons.2 ⟨hc, hb⟩) ht hrest

theorem spelled_of_scanFrom {total : Nat} {cs : List Char} {ts : List Token} (h : scanFrom total cs = .ok ts) :
    Spelled ts cs := by
  fun_induction scanFrom total cs generalizing ts with
  | case1 =>
    cases h
    exact .nil nofun
  | case2 c cs hb ih => exact (ih h).blank hb
  | case3 => cases h
  | case4 => cases h
  | case5 c cs hb t rest hone hlt us hrest ih =>
    cases h
    obtain ⟨sp, hsp, ht⟩ := written_of_scanOne hone
    have hspelled : Spelled (t :: us) ([] ++ sp ++ rest) := .cons nofun ht (ih hrest)
    rw [hsp]
    exact hspelled

theorem scanFrom_nil (total : Nat) : scanFrom total [] = .ok [] := by
  rw [scanFrom]

theorem scanFrom_cons {total : Nat} {c : Char} {cs rest : List Char} {t : Token} {ts : List Token}
    (hc : isBlank c = Bool.false) (h : scanOne (total - (cs.length + 1)) c cs = .ok (t, rest))
    (hrest : scanFrom total rest = .ok ts) : scanFrom total (c :: cs) = .ok (t :: ts) := by
  rw [scanFrom, if_neg (by simp [hc])]
  split
  · rename_i he
    rw [h] at he
    cases he
  · rename_i he
    rw [h] at he
    cases he
    simp only [hrest]

/-- **The tokens of a text are spelled by it.** -/
theorem spelled_of_scan {text : String} {ts : List Token} (h : scan text = .ok ts) : Spelled ts text.toList :=
  spelled_of_scanFrom h

end RunningLights.Token
