import RunningLights.Number.Checked

/-!
# Durations

A duration is a whole number of nanoseconds.  Delays are written in milliseconds, whole ones, in a 64-bit word.
-/

namespace RunningLights

/-- A length of time in nanoseconds. -/
structure Duration where
  nanos : Nat
  deriving Repr, DecidableEq, Inhabited

namespace Duration

def ofMillis (ms : Nat) : Duration := ⟨ms * 1000000⟩

def ofSeconds (s : Nat) : Duration := ⟨s * 1000000000⟩

instance : Add Duration := ⟨fun a b => ⟨a.nanos + b.nanos⟩⟩

/-- The whole milliseconds. -/
def wholeMillis (d : Duration) : Nat := d.nanos / 1000000

/-- The whole milliseconds as a 64-bit word. -/
def millis (d : Duration) : Nat := d.wholeMillis % Number.wordBound

theorem millis_ofMillis {ms : Nat} (h : ms < Number.wordBound) : (ofMillis ms).millis = ms := by
  unfold millis wholeMillis ofMillis
  rw [Nat.mul_div_cancel _ (by decide), Nat.mod_eq_of_lt h]

end Duration

end RunningLights
