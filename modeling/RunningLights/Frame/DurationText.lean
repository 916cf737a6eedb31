import RunningLights.Frame.Duration
import RunningLights.Text.Blank

/-!
# Durations as text

A duration is written as spans such as `2h 30m`: numbers, perhaps with a fraction, each followed by a unit.  The text
is read one character at a time; blanks may stand anywhere but inside a unit.  What is read has to fit a 64-bit
number of seconds.

* `Duration.read` — the duration of a text, or why it is none;
* `Duration.text` — a duration in its largest units.
-/

namespace RunningLights

/-- A unit of time. -/
inductive TimeUnit where
  | nanosecond
  | microsecond
  | millisecond
  | second
  | minute
  | hour
  | day
  | week
  | month
  | year
  deriving Repr, DecidableEq

/-- Why a text is no duration.  Offsets count bytes. -/
inductive DurationError where
  | empty
  | numberExpected (offset : Nat)
  | invalidCharacter (offset : Nat)
  | unknownUnit (unit : String) (value : Nat)
  | overflow
  deriving Repr, DecidableEq

namespace TimeUnit

/-- The names of a unit. -/
def names : TimeUnit → List String
  | nanosecond => ["nanos", "nsec", "ns"]
  | microsecond => ["usec", "us", "µs"]
  | millisecond => ["millis", "msec", "ms"]
  | second => ["seconds", "second", "secs", "sec", "s"]
  | minute => ["minutes", "minute", "mins", "min", "m"]
  | hour => ["hours", "hour", "hrs", "hr", "h"]
  | day => ["days", "day", "d"]
  | week => ["weeks", "week", "wks", "wk", "w"]
  | month => ["months", "month", "M"]
  | year => ["years", "year", "yrs", "yr", "y"]

def all : List TimeUnit :=
  [nanosecond, microsecond, millisecond, second, minute, hour, day, week, month, year]

def ofName? (s : String) : Option TimeUnit := all.find? fun u => u.names.contains s

/-- The length of a unit as a multiple of the step that its numbers are counted in.  Up to the millisecond whole
numbers are counted in nanoseconds, from the second on in seconds. -/
def length : TimeUnit → Nat
  | nanosecond => 1
  | microsecond => 1000
  | millisecond => 1000000
  | second => 1
  | minute => 60
  | hour => 3600
  | day => 86400
  | week => 604800
  | month => 2630016
  | year => 31557600

/-- Whole numbers of the unit are counted in nanoseconds. -/
def isFine : TimeUnit → Bool
  | nanosecond | microsecond | millisecond => true
  | _ => false

end TimeUnit

/-- The wording of an error of a duration. -/
def DurationError.message : DurationError → String
  | empty => "value was empty"
  | numberExpected offset => s!"expected number at {offset}"
  | invalidCharacter offset => s!"invalid character at {offset}"
  | unknownUnit "" value => s!"time unit needed, for example {value}sec or {value}ms"
  | unknownUnit unit _ =>
    "unknown time unit \"" ++ unit ++ "\", supported units: ns, us/µs, ms, sec, min, hours, days, weeks, " ++
      "months, years (and few variations)"
  | overflow =>
    "number is too large or cannot be represented without a lack of precision (values below 1ns are not supported)"

namespace Duration

/-! ### Spans -/

/-- The number, if it fits 64 bits. -/
def bounded (n : Nat) : Except DurationError Nat := if n < Number.wordBound then .ok n else .error .overflow

/-- The part `numerator / denominator` of a number, which has to be whole. -/
def wholePart (n numerator denominator : Nat) : Except DurationError Nat := do
  let scaled ← bounded (numerator * n)
  if scaled % denominator = 0 then .ok (scaled / denominator) else .error .overflow

/-- A duration longer by some seconds and nanoseconds. -/
def extend (d : Duration) (seconds nanos : Nat) : Except DurationError Duration := do
  let _ ← bounded (d.nanos % 1000000000 + nanos)
  let total := d.nanos + seconds * 1000000000 + nanos
  let _ ← bounded (total / 1000000000)
  .ok ⟨total⟩

/-- A fraction as its digits were read. -/
structure Fraction where
  numerator : Nat
  denominator : Nat
  deriving Repr

/-- A duration longer by a fraction of a unit.  A fraction of an hour or more is counted in seconds, any other in
nanoseconds, of which none are parts. -/
def extendFraction (d : Duration) (u : TimeUnit) (f : Fraction) : Except DurationError Duration :=
  match u with
  | .nanosecond => .error .overflow
  | .microsecond | .millisecond => do d.extend 0 (← wholePart u.length f.numerator f.denominator)
  | .second | .minute => do d.extend 0 (← wholePart (u.length * 1000000000) f.numerator f.denominator)
  | _ => do d.extend (← wholePart u.length f.numerator f.denominator) 0

/-- A duration longer by a number of units, which are given by name. -/
def extendSpan (d : Duration) (n : Nat) (fraction : Option Fraction) (unit : List Char) :
    Except DurationError Duration := do
  match TimeUnit.ofName? (String.ofList unit) with
  | none => .error (.unknownUnit (String.ofList unit) n)
  | some u => do
    let whole ← bounded (n * u.length)
    let d ← if u.isFine then d.extend 0 whole else d.extend whole 0
    match fraction with
    | none => .ok d
    | some f => d.extendFraction u f

/-! ### Reading -/

/-- What is being read. -/
inductive Phase where
  /-- The first digit of a number, looked for since an offset. -/
  | seek (since : Nat)
  | number (n : Nat)
  /-- The digits behind a point.  Nothing valid has been read since the offset. -/
  | fraction (n : Nat) (f : Fraction) (since : Nat)
  /-- A unit, the last letter first. -/
  | unit (n : Nat) (f : Option Fraction) (letters : List Char)

/-- The state of reading: the offset, the spans that are complete, and what is being read. -/
structure Reading where
  offset : Nat
  sum : Duration
  /-- No number has begun yet. -/
  fresh : Bool
  phase : Phase

/-- A letter of a unit. -/
def isUnitLetter (c : Char) : Bool := c.isAlpha || c == 'µ'

/-- The value of a digit. -/
def digit (c : Char) : Nat := c.toNat - '0'.toNat

/-- One more character. -/
def readChar (r : Reading) (c : Char) : Except DurationError Reading := do
  let behind := r.offset + c.utf8Size
  let go (phase : Phase) : Reading := ⟨behind, r.sum, false, phase⟩
  match r.phase with
  | .seek since =>
    if c.isDigit then .ok (go (.number (digit c)))
    else if Text.isBlank c then .ok { r with offset := behind }
    else .error (.numberExpected since)
  | .number n =>
    if c.isDigit then return go (.number (← bounded (10 * n + digit c)))
    else if Text.isBlank c then .ok (go r.phase)
    else if isUnitLetter c then .ok (go (.unit n none [c]))
    else if c = '.' then .ok (go (.fraction n ⟨0, 1⟩ r.offset))
    else .error (.invalidCharacter r.offset)
  | .fraction n f since =>
    if c.isDigit then
      return go (.fraction n ⟨← bounded (10 * f.numerator + digit c), ← bounded (10 * f.denominator)⟩ behind)
    else if Text.isBlank c then .ok (go (.fraction n f behind))
    else if isUnitLetter c ∧ f.denominator ≠ 1 then .ok (go (.unit n (some f) [c]))
    else .error (.invalidCharacter since)
  | .unit n f letters =>
    if c.isDigit then return ⟨behind, ← r.sum.extendSpan n f letters.reverse, false, .number (digit c)⟩
    else if Text.isBlank c then return ⟨behind, ← r.sum.extendSpan n f letters.reverse, false, .seek behind⟩
    else if isUnitLetter c then .ok (go (.unit n f (c :: letters)))
    else .error (.invalidCharacter r.offset)

/-- The end of the text. -/
def readEnd (r : Reading) : Except DurationError Duration :=
  match r.phase with
  | .seek _ => if r.fresh then .error .empty else .ok r.sum
  | .number n => r.sum.extendSpan n none []
  | .fraction n f since =>
    if f.denominator = 1 then .error (.invalidCharacter since) else r.sum.extendSpan n (some f) []
  | .unit n f letters => r.sum.extendSpan n f letters.reverse

/-- The duration that is written by spans.  A zero needs no unit if it stands alone. -/
def read (text : List Char) : Except DurationError Duration :=
  if text = ['0'] then .ok ⟨0⟩
  else do readEnd (← text.foldlM readChar ⟨0, ⟨0⟩, true, .seek 0⟩)

/-! ### Writing -/

/-- A number of units, nothing if there are none. -/
def span (n : Nat) (unit : String) : List String := if n = 0 then [] else [toString n ++ unit]

/-- A number of units whose name has a plural. -/
def pluralSpan (n : Nat) (unit : String) : List String := span n (if n = 1 then unit else unit ++ "s")

/-- The duration in its largest units. -/
def text (d : Duration) : String :=
  let seconds := d.nanos / 1000000000
  let inYear := seconds % 31557600
  let inMonth := inYear % 2630016
  let inDay := inMonth % 86400
  let spans := pluralSpan (seconds / 31557600) "year" ++ pluralSpan (inYear / 2630016) "month" ++
    pluralSpan (inMonth / 86400) "day" ++ span (inDay / 3600) "h" ++ span (inDay % 3600 / 60) "m" ++
    span (inDay % 60) "s" ++ span (d.nanos % 1000000000 / 1000000) "ms" ++
    span (d.nanos % 1000000 / 1000) "us" ++ span (d.nanos % 1000) "ns"
  if d.nanos = 0 then "0s" else " ".intercalate spans

end Duration

end RunningLights
