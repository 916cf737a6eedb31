import RunningLights.Json.Parser
import RunningLights.Json.Printer

/-!
# Reading back what was written

A document of whole numbers and of strings that have a text is read back from its compact text:

* `scanString_escapeChar`, `stringText?_quoted` — an escape is read as the character that it stands for;
* `numberLiteral?_toDigits` — a whole number is read up to the sign behind it;
* `Json.Plain` — the documents that are read back;
* `Json.value?_compact`, `Json.parse?_compact` — the round trip, inside a text and as a text of its own.
-/

namespace RunningLights.Json

/-! ### Strings -/

section

variable (cs : List Char)

theorem scanString_short {c e : Char} (he : escaped? c = some e) (hu : c ≠ 'u') :
    scanString ('\\' :: c :: cs) = (scanString cs).map fun (us, rest) => (e.toNat :: us, rest) := by
  rw [scanString.eq_3 c cs (fun _ _ _ _ _ h _ => hu h), he]
  cases scanString cs <;> rfl

theorem scanString_plain {c : Char} (hq : c ≠ '"') (hb : c ≠ '\\') (hc : ¬ c.toNat < 32) :
    scanString (c :: cs) = (scanString cs).map fun (us, rest) => (c.toNat :: us, rest) := by
  rw [scanString.eq_4 c cs hq (fun _ _ _ _ _ h _ => hb h) (fun _ _ h _ => hb h), if_neg hc]
  cases scanString cs <;> rfl

theorem unicodeEscape_eq {n : Nat} (hn : n < 32) :
    ∃ c d, unicodeEscape n = ['\\', 'u', '0', '0', c, d] ∧ codeUnit? '0' '0' c d = some n := by
  refine ⟨_, _, rfl, ?_⟩
  decide +revert

theorem scanString_unicodeEscape {n : Nat} (hn : n < 32) :
    scanString (unicodeEscape n ++ cs) = (scanString cs).map fun (us, rest) => (n :: us, rest) := by
  obtain ⟨c, d, heq, hu⟩ := unicodeEscape_eq hn
  rw [heq]
  simp only [List.cons_append, List.nil_append, scanString, hu]
  cases scanString cs <;> rfl

/-- Whatever stands for a character inside quotes is read as that character. -/
theorem scanString_escapeChar (c : Char) :
    scanString (escapeChar c ++ cs) = (scanString cs).map fun (us, rest) => (c.toNat :: us, rest) := by
  have of_toNat {n : Nat} (h : (c.toNat == n) = true) : c = Char.ofNat n := by
    rw [← eq_of_beq h, Char.ofNat_toNat]
  fun_cases escapeChar c with
  | case1 h => rw [eq_of_beq h]; exact scanString_short cs rfl (by decide)
  | case2 _ h => rw [eq_of_beq h]; exact scanString_short cs rfl (by decide)
  | case3 _ _ h => rw [eq_of_beq h]; exact scanString_short cs rfl (by decide)
  | case4 _ _ _ h => rw [eq_of_beq h]; exact scanString_short cs rfl (by decide)
  | case5 _ _ _ _ h => rw [eq_of_beq h]; exact scanString_short cs rfl (by decide)
  | case6 _ _ _ _ _ h => rw [of_toNat h]; exact scanString_short cs rfl (by decide)
  | case7 _ _ _ _ _ _ h => rw [of_toNat h]; exact scanString_short cs rfl (by decide)
  | case8 _ _ _ _ _ _ _ h => exact scanString_unicodeEscape cs h
  | case9 hq hb _ _ _ _ _ h => exact scanString_plain cs (by simpa using hq) (by simpa using hb) h

theorem scanString_flatMap (rest : List Char) :
    scanString (cs.flatMap escapeChar ++ '"' :: rest) = some (cs.map Char.toNat, rest) := by
  induction cs with
  | nil => rfl
  | cons c cs ih =>
    rw [List.flatMap_cons, List.append_assoc, scanString_escapeChar, ih]
    rfl

/-- No character is half of a pair. -/
theorem decodeUnits_map : decodeUnits (cs.map Char.toNat) = some cs := by
  induction cs with
  | nil => rfl
  | cons c cs ih =>
    have hvalid : c.toNat < 0xD800 ∨ 0xDFFF < c.toNat ∧ c.toNat < 0x110000 := c.valid
    have hhigh : isHighUnit c.toNat = false := by simp [isHighUnit]; omega
    have hlow : isLowUnit c.toNat = false := by simp [isLowUnit]; omega
    rw [List.map_cons]
    unfold decodeUnits
    simp [hhigh, hlow, ih, Char.ofNat_toNat]

end

theorem stringText?_quoted (s : String) (rest : List Char) :
    ∃ cs, quoted s.toList ++ rest = '"' :: cs ∧ stringText? cs = some (some s, rest) := by
  refine ⟨s.toList.flatMap escapeChar ++ '"' :: rest, by simp [quoted], ?_⟩
  simp [stringText?, scanString_flatMap, decodeUnits_map]

/-! ### Numbers -/

/-- A value ends where the text does, or at a sign that stands behind one. -/
def Ends (rest : List Char) : Prop := ∀ c ∈ rest.head?, c = ',' ∨ c = ']' ∨ c = '\x7d'

theorem ends_nil : Ends [] := nofun

theorem ends_cons {c : Char} {rest : List Char} : Ends (c :: rest) ↔ c = ',' ∨ c = ']' ∨ c = '\x7d' := by
  simp [Ends]

theorem isDigit_of_mem_toDigits {n : Nat} : ∀ c ∈ Nat.toDigits 10 n, c.isDigit = true :=
  fun _ hc => Nat.isDigit_of_mem_toDigits (by decide) (by decide) hc

theorem digitChar_ne_zero : ∀ n < 10, 0 < n → n.digitChar ≠ '0' := by decide

/-- Only zero is spelled with a zero in front. -/
theorem toDigits_eq_cons (n : Nat) :
    ∃ c cs, Nat.toDigits 10 n = c :: cs ∧ c.isDigit = true ∧ (0 < n → c ≠ '0') := by
  induction n using Nat.strongRecOn with
  | ind n ih =>
    have hdigits := Nat.toDigits_eq_if (n := n) (b := 10) (by decide)
    split at hdigits
    · rename_i hlt
      have hmem : n.digitChar ∈ Nat.toDigits 10 n := hdigits ▸ List.mem_singleton_self _
      exact ⟨_, _, hdigits, isDigit_of_mem_toDigits _ hmem, digitChar_ne_zero n hlt⟩
    · obtain ⟨c, cs, heq, hc, hzero⟩ := ih (n / 10) (by omega)
      exact ⟨c, cs ++ [(n % 10).digitChar], by rw [hdigits, heq]; rfl, hc, fun _ => hzero (by omega)⟩

section

variable {rest : List Char}

theorem Ends.eq_or (h : Ends rest) : rest = [] ∨ ∃ c cs, rest = c :: cs ∧ (c = ',' ∨ c = ']' ∨ c = '\x7d') := by
  cases rest with
  | nil => exact .inl rfl
  | cons c cs => exact .inr ⟨c, cs, rfl, ends_cons.1 h⟩

theorem digits?_toDigits (n : Nat) (h : Ends rest) :
    digits? (Nat.toDigits 10 n ++ rest) = some (Nat.toDigits 10 n, rest) := by
  have hrest : rest.takeWhile Char.isDigit = [] ∧ rest.dropWhile Char.isDigit = rest := by
    rcases h.eq_or with rfl | ⟨c, cs, rfl, rfl | rfl | rfl⟩ <;> exact ⟨rfl, rfl⟩
  simp only [digits?, List.takeWhile_append_of_pos isDigit_of_mem_toDigits,
    List.dropWhile_append_of_pos isDigit_of_mem_toDigits, hrest, List.append_nil, List.isEmpty_iff,
    Nat.toDigits_ne_nil, if_false]

theorem wholePart?_toDigits (n : Nat) (h : Ends rest) :
    wholePart? (Nat.toDigits 10 n ++ rest) = some (Nat.toDigits 10 n, rest) := by
  rcases Nat.eq_zero_or_pos n with rfl | hn
  · rcases h.eq_or with rfl | ⟨c, cs, rfl, rfl | rfl | rfl⟩ <;> rfl
  · obtain ⟨c, cs, heq, -, hzero⟩ := toDigits_eq_cons n
    have hhead : ∀ cs', Nat.toDigits 10 n ++ rest ≠ '0' :: cs' := by
      intro cs' h
      rw [heq] at h
      exact hzero hn (List.cons.inj h).1
    rw [wholePart?.eq_2 _ hhead, digits?_toDigits n h]

theorem fractionPart?_of_ends (h : Ends rest) : fractionPart? rest = some ([], rest) := by
  rcases h.eq_or with rfl | ⟨c, cs, rfl, rfl | rfl | rfl⟩ <;> rfl

theorem exponentPart?_of_ends (h : Ends rest) : exponentPart? rest = some ([], rest) := by
  rcases h.eq_or with rfl | ⟨c, cs, rfl, rfl | rfl | rfl⟩ <;> rfl

theorem numberLiteral?_toDigits (n : Nat) (h : Ends rest) :
    numberLiteral? (Nat.toDigits 10 n ++ rest) = some (Nat.toDigits 10 n, rest) := by
  have hsign : ∀ cs, Nat.toDigits 10 n ++ rest ≠ '-' :: cs := by
    obtain ⟨c, cs, heq, hc, -⟩ := toDigits_eq_cons n
    intro cs' h
    rw [heq] at h
    rw [(List.cons.inj h).1] at hc
    cases hc
  unfold numberLiteral?
  split
  rename_i hmatch
  split at hmatch
  · exact absurd ‹_› (hsign _)
  · cases hmatch
    simp [wholePart?_toDigits n h, fractionPart?_of_ends h, exponentPart?_of_ends h]

end

/-! ### Documents -/

/-- A document of whole numbers and of strings and keys that have a text. -/
inductive Plain : Json → Prop
  | null : Plain .null
  | bool (b : Bool) : Plain (.bool b)
  | whole (n : Nat) : Plain (.number (Nat.toDigits 10 n))
  | text (s : String) : Plain (.string (some s))
  | array {js : List Json} (h : ∀ j ∈ js, Plain j) : Plain (.array js)
  | object {ms : List (Option String × Json)} (hk : ∀ m ∈ ms, m.1.isSome = true) (h : ∀ m ∈ ms, Plain m.2) :
    Plain (.object ms)

/-- The document is read from its compact text, whatever stands behind it. -/
def Reads (j : Json) : Prop :=
  ∀ {fuel : Nat} {rest : List Char}, Ends rest → 2 * j.compact.length ≤ fuel + 1 →
    value? (fuel + 1) (j.compact ++ rest) = some (j, rest)

theorem skipGaps_cons {c : Char} (h : isGap c = false) (cs : List Char) : skipGaps (c :: cs) = c :: cs := by
  simp [skipGaps, h]

theorem isGap_of_isDigit {c : Char} (h : c.isDigit = true) : isGap c = false := by
  cases hgap : isGap c with
  | false => rfl
  | true =>
    simp only [isGap, Bool.or_eq_true, beq_iff_eq] at hgap
    rcases hgap with ((rfl | rfl) | rfl) | rfl <;> cases h

/-- A document starts neither with a blank nor as an array ends. -/
theorem Plain.compact_eq_cons {j : Json} (h : j.Plain) :
    ∃ c cs, j.compact = c :: cs ∧ isGap c = false ∧ c ≠ ']' := by
  cases h with
  | null => exact ⟨_, _, rfl, rfl, by decide⟩
  | bool b => cases b <;> exact ⟨_, _, rfl, rfl, by decide⟩
  | whole n =>
    obtain ⟨c, cs, heq, hc, -⟩ := toDigits_eq_cons n
    refine ⟨c, cs, by simpa only [compact] using heq, isGap_of_isDigit hc, ?_⟩
    rintro rfl
    cases hc
  | text s => exact ⟨_, _, rfl, rfl, by decide⟩
  | @array js _ => cases js <;> exact ⟨_, _, rfl, rfl, by decide⟩
  | @object ms _ _ => cases ms <;> exact ⟨_, _, rfl, rfl, by decide⟩

section

variable {fuel : Nat} {c : Char} {cs rest : List Char}

theorem value?_digit (hc : c.isDigit = true) :
    value? (fuel + 1) (c :: cs) = (numberLiteral? (c :: cs)).map fun (literal, rest) => (.number literal, rest) := by
  unfold value?
  rw [skipGaps_cons (isGap_of_isDigit hc)]
  split
  case h_7 => rfl
  -- every other form starts with a sign that is no digit
  all_goals
    rename_i h
    rw [(List.cons.inj h).1] at hc
    cases hc

theorem value?_quoted (s : String) : value? (fuel + 1) (quoted s.toList ++ rest) = some (.string (some s), rest) := by
  obtain ⟨cs, heq, htext⟩ := stringText?_quoted s rest
  simp [heq, value?, skipGaps_cons, isGap, htext]

theorem value?_array {js : List Json} (hgap : isGap c = false) (hc : c ≠ ']')
    (h : items fuel (c :: cs) = some (js, rest)) : value? (fuel + 1) ('[' :: c :: cs) = some (.array js, rest) := by
  have hopen : isGap '[' = false := rfl
  simp [value?, skipGaps_cons hopen, skipGaps_cons hgap, hc, h]

theorem value?_object {ms : List (Option String × Json)} (h : members fuel ('"' :: cs) = some (ms, rest)) :
    value? (fuel + 1) ('\x7b' :: '"' :: cs) = some (.object ms, rest) := by
  simp [value?, skipGaps_cons, isGap, h]

theorem items_last {j : Json} (h : value? fuel cs = some (j, ']' :: rest)) :
    items (fuel + 1) cs = some ([j], rest) := by
  simp [items, h, skipGaps_cons, isGap]

theorem items_more {j : Json} {js : List Json} {cs' : List Char} (h : value? fuel cs = some (j, ',' :: cs'))
    (hjs : items fuel cs' = some (js, rest)) : items (fuel + 1) cs = some (j :: js, rest) := by
  simp [items, h, skipGaps_cons, isGap, hjs]

theorem members_last {k : String} {j : Json} (h : value? fuel cs = some (j, '\x7d' :: rest)) :
    members (fuel + 1) (quoted k.toList ++ ':' :: cs) = some ([(some k, j)], rest) := by
  obtain ⟨text, heq, htext⟩ := stringText?_quoted k (':' :: cs)
  simp [heq, members, htext, h, skipGaps_cons, isGap]

theorem members_more {k : String} {j : Json} {ms : List (Option String × Json)} {cs' : List Char}
    (h : value? fuel cs = some (j, ',' :: cs')) (hms : members fuel cs' = some (ms, rest)) :
    members (fuel + 1) (quoted k.toList ++ ':' :: cs) = some ((some k, j) :: ms, rest) := by
  obtain ⟨text, heq, htext⟩ := stringText?_quoted k (':' :: cs)
  simp [heq, members, htext, h, skipGaps_cons, isGap, hms]

theorem items_compact {j : Json} {js : List Json} (h : ∀ x ∈ j :: js, x.Reads)
    (hf : 2 * (j.compact ++ compactItems js).length + 2 ≤ fuel) :
    items fuel (j.compact ++ (compactItems js ++ ']' :: rest)) = some (j :: js, rest) := by
  obtain ⟨fuel, rfl⟩ : ∃ f, fuel = f + 2 := ⟨fuel - 2, by omega⟩
  have hj : j.Reads := h j List.mem_cons_self
  induction js generalizing j fuel with
  | nil =>
    simp only [compactItems, List.append_nil] at hf
    exact items_last (hj (ends_cons.2 (.inr (.inl rfl))) (by omega))
  | cons k ks ih =>
    simp only [compactItems, List.cons_append, List.append_assoc, List.length_append, List.length_cons] at hf ih ⊢
    obtain ⟨fuel, rfl⟩ : ∃ f, fuel = f + 1 := ⟨fuel - 1, by omega⟩
    have htail : ∀ x ∈ k :: ks, x.Reads := fun x hx => h x (List.mem_cons_of_mem _ hx)
    exact items_more (hj (ends_cons.2 (.inl rfl)) (by omega)) (ih htail fuel (by omega) (htail k List.mem_cons_self))

/-- Members whose keys have a text and whose values are read one by one are read as the members of an object. -/
theorem members_compact {k : String} {j : Json} {ms : List (Option String × Json)}
    (hk : ∀ m ∈ ms, m.1.isSome = true) (h : ∀ m ∈ (some k, j) :: ms, m.2.Reads)
    (hf : 2 * (quoted k.toList ++ ':' :: j.compact ++ compactMembers ms).length + 2 ≤ fuel) :
    members fuel (quoted k.toList ++ ':' :: (j.compact ++ (compactMembers ms ++ '\x7d' :: rest))) =
      some ((some k, j) :: ms, rest) := by
  obtain ⟨fuel, rfl⟩ : ∃ f, fuel = f + 2 := ⟨fuel - 2, by omega⟩
  have hj : j.Reads := h (some k, j) List.mem_cons_self
  simp only [List.append_assoc, List.cons_append, List.length_append, List.length_cons] at hf
  induction ms generalizing k j fuel with
  | nil => exact members_last (hj (ends_cons.2 (.inr (.inr rfl))) (by omega))
  | cons m ms ih =>
    obtain ⟨hkey, hkeys⟩ := List.forall_mem_cons.1 hk
    obtain ⟨key, j'⟩ := m
    obtain ⟨k', rfl⟩ := Option.isSome_iff_exists.1 hkey
    simp only [compactMembers, Option.getD_some, List.cons_append, List.append_assoc, List.length_append,
      List.length_cons] at hf ⊢
    obtain ⟨fuel, rfl⟩ : ∃ f, fuel = f + 1 := ⟨fuel - 1, by omega⟩
    have htail : ∀ m ∈ (some k', j') :: ms, m.2.Reads := fun m hm => h m (List.mem_cons_of_mem _ hm)
    exact members_more (hj (ends_cons.2 (.inl rfl)) (by omega))
      (ih hkeys htail fuel (htail (some k', j') List.mem_cons_self) (by omega))

end

/-- **A plain document is read from its compact text.** -/
theorem Plain.reads {j : Json} (h : j.Plain) : j.Reads := by
  induction h with
  | null => exact fun _ _ => rfl
  | bool b => cases b <;> exact fun _ _ => rfl
  | whole n =>
    intro fuel rest hrest _
    obtain ⟨c, cs, heq, hc, -⟩ := toDigits_eq_cons n
    have hread := numberLiteral?_toDigits n hrest
    simp only [compact]
    rw [heq, List.cons_append] at hread ⊢
    rw [value?_digit hc, hread]
    rfl
  | text s => exact fun _ _ => value?_quoted s
  | @array js hjs ih =>
    intro fuel rest _ hf
    cases js with
    | nil => rfl
    | cons j js =>
      obtain ⟨c, cs, heq, hgap, hc⟩ := (hjs j List.mem_cons_self).compact_eq_cons
      simp only [compact, List.length_cons, List.length_append, List.length_nil] at hf
      have hitems : items fuel (j.compact ++ (compactItems js ++ ']' :: rest)) = some (j :: js, rest) :=
        items_compact ih (by simp only [List.length_append]; omega)
      simp only [compact, List.cons_append, List.append_assoc, List.nil_append, heq] at hitems ⊢
      exact value?_array hgap hc hitems
  | @object ms hk hms ih =>
    intro fuel rest _ hf
    cases ms with
    | nil => rfl
    | cons m ms =>
      obtain ⟨hkey, hkeys⟩ := List.forall_mem_cons.1 hk
      obtain ⟨key, j⟩ := m
      obtain ⟨k, rfl⟩ := Option.isSome_iff_exists.1 hkey
      simp only [compact, Option.getD_some, List.length_cons, List.length_append, List.length_nil] at hf
      have hmembers : members fuel (quoted k.toList ++ ':' :: (j.compact ++ (compactMembers ms ++ '\x7d' :: rest))) =
          some ((some k, j) :: ms, rest) :=
        members_compact hkeys ih (by simp only [List.length_append, List.length_cons]; omega)
      simp only [compact, Option.getD_some, quoted, List.cons_append, List.append_assoc, List.nil_append] at hmembers ⊢
      exact value?_object hmembers

/-- **The round trip of a document.** -/
theorem parse?_compact {j : Json} (h : j.Plain) : parse? j.compact = some j := by
  have hread : value? (2 * j.compact.length + 1 + 1) (j.compact ++ []) = some (j, []) := h.reads ends_nil (by omega)
  rw [List.append_nil] at hread
  simp [parse?, hread, skipGaps]

end RunningLights.Json
