import RunningLights.Frame.Json
import RunningLights.Proofs.Json.RoundTrip

/-!
# Frames and their texts

* `Frame.InMillis` — the frames that a text can tell: the delay is so many whole milliseconds, within a 64-bit word;
* `ofJson?_toJson` — such a frame is read from its document;
* `ofJson?_inMillis` — no other frame is read from any document;
* `ofJson?_arranged`, `decode?_arranged` — neither the order of the members nor unknown ones make a difference;
* `Frame.decode?_encode` — the round trips of frames and of texts.
-/

namespace RunningLights

/-! ### The values of members -/

namespace Json

theorem word?_toDigits {n : Nat} (hn : n < Number.wordBound) : (number (Nat.toDigits 10 n)).word? = some n := by
  have hall : (Nat.toDigits 10 n).all Char.isDigit = true := List.all_eq_true.2 isDigit_of_mem_toDigits
  have hvalue : Nat.ofDigitChars 10 (Nat.toDigits 10 n) 0 = n := Nat.ofDigitChars_toDigits (by decide) (by decide)
  rw [Nat.ofDigitChars] at hvalue
  simp only [word?, hall, if_true, hvalue, hn]

theorem word?_lt {j : Json} {n : Nat} (h : j.word? = some n) : n < Number.wordBound := by
  unfold word? at h
  split at h
  · split at h
    · dsimp only at h
      split at h
      · cases h
        assumption
      · cases h
    · cases h
  · cases h

theorem items?_bool (bs : List Bool) : (array (bs.map .bool)).items? bool? = some bs := by
  induction bs with
  | nil => rfl
  | cons b bs ih =>
    simp only [items?, List.map_cons, List.mapM_cons] at ih ⊢
    simp [bool?, ih]

end Json

namespace Frame

/-- The delay is a whole number of milliseconds that fits a 64-bit word. -/
def InMillis (f : Frame) : Prop := ∃ ms < Number.wordBound, f.delay = .ofMillis ms

/-! ### The document of a frame -/

theorem plain_toJson (f : Frame) : f.toJson.Plain := by
  have hchannels : (Json.array (f.channels.toList.map .bool)).Plain := by
    refine .array fun j hj => ?_
    obtain ⟨b, -, rfl⟩ := List.mem_map.1 hj
    exact .bool b
  cases hlabel : f.label <;> rw [toJson, hlabel] <;> refine .object ?_ ?_ <;>
    simp [Json.Plain.text, Json.Plain.whole, hchannels]

theorem ofJson?_toJson {f : Frame} (h : f.InMillis) : ofJson? f.toJson = some f := by
  obtain ⟨ms, hms, hdelay⟩ := h
  obtain ⟨id, channels, delay, label⟩ := f
  dsimp only at hdelay
  have hword : (Json.number (Nat.toDigits 10 delay.millis)).word? = some ms := by
    rw [hdelay, Duration.millis_ofMillis hms, Json.word?_toDigits hms]
  have hitems := Json.items?_bool channels.toList
  cases label <;> simp [ofJson?, ofMembers?, toJson, member?, ofValues?, labelOf?, Json.text?, hword, hitems, ← hdelay]

/-! ### What is read -/

theorem ofValues?_inMillis {id channels delay : Json} {label : Option Json} {f : Frame}
    (h : ofValues? id channels delay label = some f) : f.InMillis := by
  simp only [ofValues?, Option.bind_eq_bind, Option.bind_eq_some_iff, Option.pure_def] at h
  obtain ⟨_, -, _, -, ms, hms, h⟩ := h
  refine ⟨ms, Json.word?_lt hms, ?_⟩
  cases label with
  | none =>
    cases h
    rfl
  | some j =>
    obtain ⟨_, -, h⟩ := Option.bind_eq_some_iff.1 h
    cases h
    rfl

theorem ofMembers?_inMillis {members : List (Option String × Json)} {f : Frame} (h : ofMembers? members = some f) :
    f.InMillis := by
  simp only [ofMembers?, Option.bind_eq_bind, Option.bind_eq_some_iff] at h
  obtain ⟨_, -, _, -, _, -, _, -, _, -, _, -, _, -, h⟩ := h
  exact ofValues?_inMillis h

/-- Only milliseconds are read. -/
theorem ofJson?_inMillis {j : Json} {f : Frame} (h : ofJson? j = some f) : f.InMillis := by
  unfold ofJson? at h
  split at h
  · split at h
    · exact ofMembers?_inMillis h
    · cases h
  · exact ofValues?_inMillis h
  · exact ofValues?_inMillis h
  · cases h

section

variable {name : String} {members members' : List (Option String × Json)}

theorem member?_perm (h : members.Perm members') : member? name members = member? name members' := by
  have hfilter := h.filter fun m => m.1 == some name
  unfold member?
  generalize members.filter _ = l at hfilter
  generalize members'.filter _ = l' at hfilter
  match l with
  | [] => rw [hfilter.nil_eq]
  | [m] => rw [List.singleton_perm.1 hfilter]
  | _ :: _ :: _ =>
    match l' with
    | [] => cases hfilter.length_eq
    | [_] => cases hfilter.length_eq
    | _ :: _ :: _ => rfl

theorem member?_append (h : ∀ m ∈ members', m.1 ≠ some name) :
    member? name (members ++ members') = member? name members := by
  have hfilter : (members'.filter fun m => m.1 == some name) = [] := by simpa using h
  unfold member?
  rw [List.filter_append, hfilter, List.append_nil]

/-- The key is a text that names no member of a frame. -/
def Unknown (key : Option String) : Prop := ∃ k, key = some k ∧ k ∉ ["id", "channels", "delay_ms", "label"]

/-- Neither the order of the members nor unknown ones make a difference. -/
theorem ofJson?_arranged {extra : List (Option String × Json)} (hperm : members'.Perm (members ++ extra))
    (hextra : ∀ m ∈ extra, Unknown m.1) : ofJson? (.object members') = ofJson? (.object members) := by
  have hmember {name : String} (hname : name ∈ ["id", "channels", "delay_ms", "label"]) :
      member? name members' = member? name members := by
    refine (member?_perm hperm).trans (member?_append fun m hm heq => ?_)
    obtain ⟨k, hk, hunknown⟩ := hextra m hm
    exact hunknown (Option.some.inj (hk.symm.trans heq) ▸ hname)
  have hkeys : (members'.all fun m => m.1.isSome) = members.all fun m => m.1.isSome := by
    have hknown : (extra.all fun m => m.1.isSome) = true := by
      refine List.all_eq_true.2 fun m hm => ?_
      obtain ⟨k, hk, -⟩ := hextra m hm
      rw [hk, Option.isSome_some]
    rw [hperm.all_eq, List.all_append, hknown, Bool.and_true]
  simp only [ofJson?, ofMembers?, hkeys]
  rw [hmember (by simp), hmember (by simp), hmember (by simp), hmember (by simp)]

end

/-! ### The round trips -/

theorem decode?_compact {j : Json} (h : j.Plain) : decode? (String.ofList j.compact) = ofJson? j := by
  simp [decode?, Json.parse?_compact h]

theorem decode?_arranged {f : Frame} (h : f.InMillis) {members members' extra : List (Option String × Json)}
    (hf : f.toJson = .object members) (hperm : members'.Perm (members ++ extra))
    (hextra : ∀ m ∈ extra, Unknown m.1 ∧ m.2.Plain) :
    decode? (String.ofList (Json.object members').compact) = some f := by
  have hmembers : ∀ m ∈ members, m.1.isSome = true ∧ m.2.Plain := by
    have hplain := f.plain_toJson
    rw [hf] at hplain
    cases hplain with
    | object hk h => exact fun m hm => ⟨hk m hm, h m hm⟩
  have hall : ∀ m ∈ members', m.1.isSome = true ∧ m.2.Plain := by
    intro m hm
    rcases List.mem_append.1 (hperm.mem_iff.1 hm) with hm | hm
    · exact hmembers m hm
    · obtain ⟨⟨k, hk, -⟩, hplain⟩ := hextra m hm
      exact ⟨hk ▸ Option.isSome_some, hplain⟩
  have hplain : (Json.object members').Plain := .object (fun m hm => (hall m hm).1) fun m hm => (hall m hm).2
  rw [decode?_compact hplain, ofJson?_arranged hperm fun m hm => (hextra m hm).1, ← hf, ofJson?_toJson h]

/-- **Round trips.**  A frame whose delay is a whole number of milliseconds within 64 bits is read back from its text,
whatever its channels and the characters of its id and its label.  The frame that any text holds, with its members in
any order or as an array, with unknown members or without a label, is read back from the text written for it. -/
theorem decode?_encode :
    (∀ (f : Frame) (ms : Nat), ms < Number.wordBound → f.delay = .ofMillis ms → decode? (encode f) = some f) ∧
    (∀ (text : String) (f : Frame), decode? text = some f → decode? (encode f) = some f) := by
  have hround {f : Frame} (h : f.InMillis) : decode? (encode f) = some f :=
    (decode?_compact f.plain_toJson).trans (ofJson?_toJson h)
  refine ⟨fun f ms hms hdelay => hround ⟨ms, hms, hdelay⟩, fun text f h => ?_⟩
  obtain ⟨j, -, hj⟩ := Option.bind_eq_some_iff.1 h
  exact hround (ofJson?_inMillis hj)

/-- A frame with the longest delay, and quotes, a control and a character of two code units in its texts. -/
def oddFrame : Frame := ⟨"\"a\"\u0001", #[true, false], .ofMillis (Number.wordBound - 1), some "𝄞\n"⟩

/-- The text of a frame in an order of its own, with an unknown member in which a key has no text. -/
def oddText : String :=
  "\x7b\"label\":null, \"x\":[1.5,\x7b\"\\ud800\":0\x7d], " ++
    "\"delay_ms\":20, \"channels\":[true], \"id\":\"\\ud834\\udd1e\"\x7d"

theorem decode?_encode_odd :
    decode? (encode oddFrame) = some oddFrame ∧
    decode? oddText = some ⟨"𝄞", #[true], .ofMillis 20, none⟩ ∧
    decode? (encode ⟨"𝄞", #[true], .ofMillis 20, none⟩) = some ⟨"𝄞", #[true], .ofMillis 20, none⟩ := by
  have htext : decode? oddText = some ⟨"𝄞", #[true], .ofMillis 20, none⟩ := by decide +kernel
  exact ⟨decode?_encode.1 oddFrame (Number.wordBound - 1) (by decide) rfl, htext, decode?_encode.2 oddText _ htext⟩

end Frame

end RunningLights
