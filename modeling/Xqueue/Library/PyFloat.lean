import Xqueue.Library.PyText

/-!
# PyFloat — Python `float` as an exact double

A Python float is an IEEE 754 double.  It is modelled by its exact value, so that reading a
decimal literal (round to nearest, ties to even), `int(x)` and the shortest text that reads
back as the same double are plain arithmetic on natural numbers.
-/

namespace Xqueue
namespace Library

/-- Not a number, an infinity, or `± mantissa * 2 ^ exponent`. -/
inductive PyFloat where
  | nan
  | infinity (negative : Bool)
  | finite (negative : Bool) (mantissa : Nat) (exponent : Int)
  deriving DecidableEq, Repr

namespace PyFloat

/-- `num / den` rounded to the nearest natural number, ties to even. -/
def roundDiv (num den : Nat) : Nat :=
  let q := num / den
  let r := num % den
  if den < 2 * r ∨ (den = 2 * r ∧ q % 2 = 1) then q + 1 else q

/-- The positive rational `num / den` as a mantissa of at most 53 bits and an exponent. -/
def ofRatio (negative : Bool) (num den : Nat) : PyFloat :=
  -- `num / den` lies between 2 ^ (guess + 52) and 2 ^ (guess + 54)
  let guess : Int := (Nat.log2 num : Int) - Nat.log2 den - 53
  let scale (e : Int) : Nat × Nat := (num * 2 ^ (-e).toNat, den * 2 ^ e.toNat)
  let exact := (scale guess).1 / (scale guess).2
  -- below the normal range the exponent stays and the mantissa gets shorter
  let e := max (if 2 ^ 53 ≤ exact then guess + 1 else guess) (-1074)
  let m := roundDiv (scale e).1 (scale e).2
  -- rounding up may carry into the next power of two
  let (m, e) := if m = 2 ^ 53 then (2 ^ 52, e + 1) else (m, e)
  if 971 < e then .infinity negative else .finite negative m e

/-- The double that the literal `± digits * 10 ^ exp10` denotes. -/
def ofDecimal (negative : Bool) (digits : Nat) (exp10 : Int) : PyFloat :=
  if digits = 0 then .finite negative 0 0
  else ofRatio negative (digits * 10 ^ exp10.toNat) (10 ^ (-exp10).toNat)

/-- `x * n`, rounded to a double. -/
def scaled (n : Nat) : PyFloat → PyFloat
  | .nan => .nan
  | .infinity negative => .infinity negative
  | .finite negative mantissa exponent =>
      ofRatio negative (mantissa * n * 2 ^ exponent.toNat) (2 ^ (-exponent).toNat)

/-- `int(x)` of a finite double: truncation toward zero. -/
def truncate (negative : Bool) (mantissa : Nat) (exponent : Int) : Int :=
  let n : Nat := mantissa * 2 ^ exponent.toNat / 2 ^ (-exponent).toNat
  if negative then -(n : Int) else n

/-! ## `float.__repr__` -/

/-- The largest `k ≤ fuel - 1 + start` steps down from `start` with `10 ^ k ≤ num / den`. -/
def log10From (num den : Nat) : Nat → Int → Int
  | 0, p => p
  | fuel + 1, p =>
      if den * 10 ^ p.toNat ≤ num * 10 ^ (-p).toNat then p else log10From num den fuel (p - 1)

/-- The fewest significant digits that read back as the same double, at most 17. -/
def shortest (num den : Nat) (top : Int) (x : PyFloat) (negative : Bool) :
    Nat → Nat → Nat × Int
  | 0, _ => (0, 0)
  | fuel + 1, k =>
      let p : Int := top - k + 1
      -- the two candidates with `k` digits, just below the value and just above it
      let scaledNum := num * 10 ^ (-p).toNat
      let scaledDen := den * 10 ^ p.toNat
      let low := scaledNum / scaledDen
      let r := scaledNum % scaledDen
      let lowOk := decide (ofDecimal negative low p = x)
      let highOk := decide (ofDecimal negative (low + 1) p = x)
      if lowOk && (!highOk || 2 * r ≤ scaledDen) then (low, p)
      else if highOk then (low + 1, p)
      else shortest num den top x negative fuel (k + 1)

/-- Lay out significant digits whose decimal point stands after `point` of them. -/
def layout (ds : PyStr) (point : Int) : PyStr :=
  if -4 < point ∧ point ≤ 16 then
    if point ≤ 0 then py "0." ++ List.replicate (-point).toNat (ch '0') ++ ds
    else if (ds.length : Int) ≤ point then
      ds ++ List.replicate (point.toNat - ds.length) (ch '0') ++ py ".0"
    else ds.take point.toNat ++ py "." ++ ds.drop point.toNat
  else
    -- scientific notation, with at least two digits of exponent
    let e := point - 1
    let digits := PyStr.ofNat e.natAbs
    ds.take 1 ++ (if 1 < ds.length then py "." ++ ds.drop 1 else []) ++
      (if e < 0 then py "e-" else py "e+") ++
      (if digits.length < 2 then py "0" ++ digits else digits)

/-- The digits without the zeros at their end. -/
def trimZeros (digits : PyStr) : PyStr :=
  (digits.reverse.dropWhile (fun c => c = ch '0')).reverse

def repr : PyFloat → PyStr
  | .nan => py "nan"
  | .infinity negative => if negative then py "-inf" else py "inf"
  | .finite negative m e =>
      let sign := if negative then py "-" else []
      if m = 0 then sign ++ py "0.0"
      else
        let num := m * 2 ^ e.toNat
        let den := 2 ^ (-e).toNat
        let top := log10From num den 640 309
        let dp := shortest num den top (.finite negative m e) negative 17 1
        sign ++ layout (trimZeros (PyStr.ofNat dp.1)) ((PyStr.ofNat dp.1).length + dp.2)

end PyFloat

end Library
end Xqueue
