/-!
# Bindings of names

A finite map from names to what they stand for.  A name that is bound again keeps its place.

* `get?_set` — a name stands for what it was bound to last;
* `get?_modify` — a change under one name is seen under that name only;
* `forall_get?_set`, `forall_get?_modify` — what holds of all that is bound still does.
-/

namespace RunningLights.Procedure

/-- What names stand for. -/
abbrev Bindings (α : Type) := List (String × α)

namespace Bindings

variable {α : Type}

/-- What the name stands for. -/
def get? : Bindings α → String → Option α
  | [], _ => none
  | (n, a) :: rest, name => if n = name then some a else get? rest name

/-- The name stands for something. -/
def binds (b : Bindings α) (name : String) : Bool := (b.get? name).isSome

/-- Binds a name. -/
def set : Bindings α → String → α → Bindings α
  | [], name, a => [(name, a)]
  | (n, b) :: rest, name, a => if n = name then (n, a) :: rest else (n, b) :: set rest name a

/-- Changes what a name stands for. -/
def modify : Bindings α → String → (α → α) → Bindings α
  | [], _, _ => []
  | (n, a) :: rest, name, f => if n = name then (n, f a) :: rest else (n, a) :: modify rest name f

theorem get?_set (b : Bindings α) (name n : String) (a : α) :
    (b.set name a).get? n = if name = n then some a else b.get? n := by
  induction b with
  | nil => rfl
  | cons e b ih =>
    obtain ⟨m, c⟩ := e
    unfold set
    by_cases h : m = name
    · subst h
      by_cases hn : m = n <;> simp [get?, hn]
    · by_cases hn : m = n
      · subst hn
        simp [get?, h, Ne.symm h]
      · simp [get?, h, hn, ih]

theorem get?_modify (b : Bindings α) (name n : String) (f : α → α) :
    (b.modify name f).get? n = if name = n then (b.get? n).map f else b.get? n := by
  induction b with
  | nil => simp [modify, get?]
  | cons e b ih =>
    obtain ⟨m, c⟩ := e
    unfold modify
    by_cases h : m = name
    · subst h
      by_cases hn : m = n <;> simp [get?, hn]
    · by_cases hn : m = n
      · subst hn
        simp [get?, h, Ne.symm h]
      · simp [get?, h, hn, ih]

theorem forall_get?_set {p : String → α → Prop} {b : Bindings α} (h : ∀ n c, b.get? n = some c → p n c)
    {name : String} {a : α} (ha : p name a) : ∀ n c, (b.set name a).get? n = some c → p n c := by
  intro n c hc
  rw [get?_set] at hc
  split at hc
  · subst ‹name = n›
    cases hc
    exact ha
  · exact h n c hc

theorem forall_get?_modify {p : String → α → Prop} {b : Bindings α} (h : ∀ n c, b.get? n = some c → p n c)
    {name : String} {f : α → α} (hf : ∀ c, p name c → p name (f c)) :
    ∀ n c, (b.modify name f).get? n = some c → p n c := by
  intro n c hc
  rw [get?_modify] at hc
  split at hc
  · subst ‹name = n›
    obtain ⟨d, hd, rfl⟩ := Option.map_eq_some_iff.1 hc
    exact hf d (h _ d hd)
  · exact h n c hc

end Bindings

end RunningLights.Procedure
