import RunningLights.Number.Binary

/-!
# The shortest decimal of a float

A float is written with the fewest decimal digits that read back to it.  The search asks, for 1, 2, … 17 digits,
whether one of the two neighbours of the exact value on that decimal grid lies in the interval of reals that
round to it; all comparisons are between integers.

* `Decimal` — digits and a power of ten;
* `Binary.readsBack` — the decimal rounds to the float;
* `Binary.shortest` — the first grid with a hit, and the nearer hit on it.
-/

namespace RunningLights.Number

/-- The decimal `digits * 10 ^ exp`. -/
structure Decimal where
  digits : Nat
  exp : Int
  deriving Repr, DecidableEq

/-- The order of `a * 10 ^ i` and `n * 2 ^ j`. -/
def compareScaled (a : Nat) (i : Int) (n : Nat) (j : Int) : Ordering :=
  compare (a * Nat.pow 10 i.toNat * Nat.pow 2 (-j).toNat) (n * Nat.pow 2 j.toNat * Nat.pow 10 (-i).toNat)

/-- The decimal is one of the reals that round to `x`, the ends of the interval included when `m` is even. -/
def Binary.readsBack (x : Binary) (d : Decimal) : Bool :=
  let below := if x.narrowBelow then 4 * x.m - 1 else 4 * x.m - 2
  let closed := x.m % 2 == 0
  let low := compareScaled d.digits d.exp below (x.q - 2)
  let high := compareScaled d.digits d.exp (4 * x.m + 2) (x.q - 2)
  (low == .gt || (closed && low == .eq)) && (high == .lt || (closed && high == .eq))

/-- The value divided by `10 ^ e`, rounded down. -/
def Binary.floorAt (x : Binary) (e : Int) : Nat :=
  (x.m * Nat.pow 2 x.q.toNat * Nat.pow 10 (-e).toNat) / (Nat.pow 2 (-x.q).toNat * Nat.pow 10 e.toNat)

/-- The least `k` from `guess` on with `m * 2 ^ q < 10 ^ k`, looking at most `tries` steps ahead. -/
def Binary.scaleFrom (x : Binary) : (tries : Nat) → (guess : Int) → Int
  | 0, k => k
  | t + 1, k => if compareScaled 1 k x.m x.q == .gt then k else x.scaleFrom t (k + 1)

/-- The least `k` with `m * 2 ^ q < 10 ^ k`. -/
def Binary.scale (x : Binary) : Int :=
  x.scaleFrom 4 (((x.m.log2 : Int) + x.q) * 30103 / 100000)

/-- The neighbour of `x` on the grid `10 ^ e` that reads back; the nearer of two, and of two equally near ones the
upper. -/
def Binary.onGrid (x : Binary) (e : Int) : Option Decimal :=
  let low := x.floorAt e
  let down : Decimal := ⟨low, e⟩
  let up : Decimal := ⟨low + 1, e⟩
  match x.readsBack down, x.readsBack up with
  | true, true => if compareScaled (2 * low + 1) e x.m (x.q + 1) == .gt then some down else some up
  | true, false => some down
  | false, true => some up
  | false, false => none

/-- Moves the zeros that end the digits into the exponent. -/
def Decimal.strip : (fuel : Nat) → Decimal → Decimal
  | 0, d => d
  | f + 1, d => if d.digits ≠ 0 ∧ d.digits % 10 = 0 then strip f ⟨d.digits / 10, d.exp + 1⟩ else d

/-- The exact decimal value of `x`. -/
def Binary.exact (x : Binary) : Decimal :=
  if 0 ≤ x.q then ⟨x.m * Nat.pow 2 x.q.toNat, 0⟩ else ⟨x.m * Nat.pow 5 (-x.q).toNat, x.q⟩

/-- The decimal with the fewest digits that reads back to `x`. -/
def Binary.shortest (x : Binary) : Decimal :=
  if x.m = 0 then ⟨0, 0⟩
  else
    let k := x.scale
    let found := (List.range 17).findSome? fun (n : Nat) => x.onGrid (k - (n + 1))
    let d := found.getD x.exact
    d.strip ((Nat.toDigits 10 d.digits).length)

end RunningLights.Number
