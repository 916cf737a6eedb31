import RunningLights.Expr.Value

/-!
# Parameters

Named values that are written into the slots of a pattern.  They are kept in the order of their names.
-/

namespace RunningLights

/-- The value of a parameter. -/
inductive ParamValue where
  | number (x : Float)
  | bool (b : Bool)
  deriving Inhabited

namespace ParamValue

/-- The number is whole and small enough to be written digit by digit. -/
def isPlainInteger (x : Float) : Bool :=
  x.isFinite && Number.truncate x == x && x.abs < 1e15

/-- The text that is written into a slot. -/
def text : ParamValue → String
  | .number x => if isPlainInteger x then toString (Number.wordOf x).toInt else Number.plainLayout.write x
  | .bool b => if b then "true" else "false"

end ParamValue

/-- Parameters by name, in ascending order of the names. -/
structure Parameters where
  entries : List (String × ParamValue)
  deriving Inhabited

namespace Parameters

def empty : Parameters := ⟨[]⟩

/-- The value of the name. -/
def get? (ps : Parameters) (name : String) : Option ParamValue := List.lookup name ps.entries

/-- Gives the name a value in a list ordered by name. -/
def insertEntry (name : String) (v : ParamValue) : List (String × ParamValue) → List (String × ParamValue)
  | [] => [(name, v)]
  | (n, w) :: rest =>
    if name < n then (name, v) :: (n, w) :: rest
    else if name = n then (name, v) :: rest
    else (n, w) :: insertEntry name v rest

/-- Gives the name a value, in the place of the one it had. -/
def insert (ps : Parameters) (name : String) (v : ParamValue) : Parameters :=
  ⟨insertEntry name v ps.entries⟩

def ofList (entries : List (String × ParamValue)) : Parameters :=
  entries.foldl (fun ps e => ps.insert e.1 e.2) empty

theorem lookup_entry (n m : String) (v : ParamValue) (es : List (String × ParamValue)) :
    List.lookup n ((m, v) :: es) = if n = m then some v else List.lookup n es := by
  by_cases h : n = m
  · subst h
    simp
  · have : (n == m) = false := by simpa using h
    simp [List.lookup_cons, this, h]

theorem lookup_insertEntry (name n : String) (v : ParamValue) (es : List (String × ParamValue)) :
    List.lookup n (insertEntry name v es) = if n = name then some v else List.lookup n es := by
  induction es with
  | nil => rw [insertEntry, lookup_entry]
  | cons e es ih =>
    obtain ⟨m, w⟩ := e
    unfold insertEntry
    by_cases h₁ : name < m
    · rw [if_pos h₁, lookup_entry]
    · by_cases h₂ : name = m
      · subst h₂
        rw [if_neg h₁, if_pos rfl, lookup_entry, lookup_entry]
        split <;> simp_all
      · rw [if_neg h₁, if_neg h₂, lookup_entry, lookup_entry, ih]
        by_cases h : n = name
        · subst h
          simp [h₂]
        · simp [h]

/-- A name has the value it was given last. -/
theorem get?_insert (ps : Parameters) (name n : String) (v : ParamValue) :
    (ps.insert name v).get? n = if n = name then some v else ps.get? n :=
  lookup_insertEntry name n v ps.entries

end Parameters

end RunningLights
