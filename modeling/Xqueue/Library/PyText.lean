import Mathlib.Algebra.Order.Ring.Nat
import Mathlib.Data.List.Basic
import Mathlib.Data.List.Infix

/-!
# PyText — Python `str` as a list of code points

A Python string is a sequence of Unicode code points, lone surrogates included, so it is
modelled as `List (Fin 0x110000)`: `len` is `List.length`, `s[:n]` is `List.take n`, `+` is
`++` and `in` is `List.IsInfix`.  This file also provides decimal text, the built-in
`int(str)`, and the texts a UTF-8 codec can encode.
-/

namespace Xqueue
namespace Library

abbrev PyChar : Type := Fin 0x110000

abbrev PyStr : Type := List PyChar

def ch (c : Char) : PyChar :=
  ⟨c.toNat, by
    have h := c.valid
    simp only [UInt32.isValidChar, Nat.isValidChar, Char.toNat] at *
    omega⟩

/-- A literal of the source. -/
def py (s : String) : PyStr :=
  s.toList.map ch

theorem ch_val (c : Char) : (ch c).val = c.toNat :=
  rfl

theorem ch_injective : Function.Injective ch := by
  intro a b h
  have hval : (ch a).val = (ch b).val := by rw [h]
  exact Char.ext (UInt32.toNat_inj.1 hval)

namespace PyStr

/-! ## Encodable texts -/

/-- A code point that UTF-8 can encode, that is, not a lone surrogate. -/
def Scalar (c : PyChar) : Prop :=
  c.val < 0xD800 ∨ 0xDFFF < c.val

instance (c : PyChar) : Decidable (Scalar c) :=
  inferInstanceAs (Decidable (_ ∨ _))

/-- `str.encode('utf-8')` does not raise. -/
def Encodable (s : PyStr) : Prop :=
  ∀ c ∈ s, Scalar c

-- Not by quantifying over `PyChar`: that would enumerate every code point.
instance (s : PyStr) : Decidable (Encodable s) :=
  decidable_of_iff (s.all (fun c => decide (Scalar c)) = true) (by simp [Encodable])

theorem scalar_of_lt {c : PyChar} (h : c.val < 0xD800) : Scalar c :=
  Or.inl h

theorem encodable_nil : Encodable [] := by
  simp [Encodable]

theorem encodable_cons {c : PyChar} {s : PyStr} :
    Encodable (c :: s) ↔ Scalar c ∧ Encodable s := by
  simp [Encodable]

theorem encodable_append {s t : PyStr} : Encodable (s ++ t) ↔ Encodable s ∧ Encodable t := by
  simp [Encodable, or_imp, forall_and]

theorem Encodable.take {s : PyStr} (h : Encodable s) (n : Nat) : Encodable (s.take n) :=
  fun c hc => h c (List.mem_of_mem_take hc)

/-! ## Decimal text -/

def isDigit (c : PyChar) : Bool :=
  48 ≤ c.val && c.val ≤ 57

/-- `str(n)` of a natural number. -/
def ofNat (n : Nat) : PyStr :=
  (Nat.toDigits 10 n).map ch

/-- `str(n)` of an integer. -/
def ofInt : Int → PyStr
  | .ofNat n => ofNat n
  | .negSucc n => ch '-' :: ofNat (n + 1)

/-- The number a run of decimal digits denotes. -/
def digitsValue (ds : PyStr) : Nat :=
  ds.foldl (fun v c => 10 * v + (c.val - 48)) 0

theorem digitsValue_ofNat (n : Nat) : digitsValue (ofNat n) = n := by
  calc
    digitsValue (ofNat n) = Nat.ofDigitChars 10 (Nat.toDigits 10 n) 0 := by
      simp [Nat.ofDigitChars_eq_foldl, digitsValue, ofNat, List.foldl_map, ch_val]
    _ = n := Nat.ofDigitChars_ten_toDigits

theorem ofNat_injective : Function.Injective ofNat := by
  intro m n h
  rw [← digitsValue_ofNat m, ← digitsValue_ofNat n, h]

theorem ofNat_ne_nil (n : Nat) : ofNat n ≠ [] := by
  simp [ofNat, Nat.toDigits_ne_nil]

theorem length_ofNat_le {n k : Nat} (hk : 0 < k) (h : n < 10 ^ k) : (ofNat n).length ≤ k := by
  rw [ofNat, List.length_map]
  exact (Nat.length_toDigits_le_iff (by decide) hk).2 h

theorem isDigit_of_mem_ofNat {n : Nat} {c : PyChar} (h : c ∈ ofNat n) : isDigit c = true := by
  rcases List.mem_map.1 h with ⟨d, hd, rfl⟩
  have hdigit := Nat.isDigit_of_mem_toDigits (by decide) (by decide) hd
  simp only [Char.isDigit, Bool.and_eq_true, decide_eq_true_eq] at hdigit
  rcases hdigit with ⟨hlo, hhi⟩
  have hlo' : 48 ≤ d.toNat := UInt32.le_iff_toNat_le.1 hlo
  have hhi' : d.toNat ≤ 57 := UInt32.le_iff_toNat_le.1 hhi
  simp [isDigit, ch_val, hlo', hhi']

theorem encodable_of_digits {s : PyStr} (h : ∀ c ∈ s, isDigit c = true) : Encodable s := by
  intro c hc
  have := h c hc
  simp only [isDigit, Bool.and_eq_true, decide_eq_true_eq] at this
  exact scalar_of_lt (by omega)

/-- Only zero is written with a leading zero. -/
theorem head_ofNat_ne_zero : ∀ {n : Nat}, 0 < n → ∃ c cs, ofNat n = c :: cs ∧ c ≠ ch '0' := by
  intro n
  -- the leading digits of `n` are those of `n / 10`
  induction n using Nat.strongRecOn with
  | ind n ih =>
      intro hpos
      by_cases hlt : n < 10
      · refine ⟨ch n.digitChar, [], by simp [ofNat, Nat.toDigits_of_lt_base hlt], ?_⟩
        intro h
        have hchar : n.digitChar = '0' := ch_injective h
        have hzero := Nat.toNat_digitChar_sub_48_of_lt_ten hlt
        rw [hchar] at hzero
        exact Nat.ne_of_lt hpos hzero
      · have hge : 10 ≤ n := by omega
        rcases ih (n / 10) (by omega) (by omega) with ⟨c, cs, hcs, hne⟩
        refine ⟨c, cs ++ [ch (n % 10).digitChar], ?_, hne⟩
        have hsplit := Nat.toDigits_of_base_le (b := 10) (by decide) hge
        rw [ofNat, hsplit, List.map_append]
        rw [ofNat] at hcs
        rw [hcs]
        simp

/-! ## The built-in `int(str)` -/

/-- White space in the sense of `str.isspace`. -/
def isSpace (c : PyChar) : Bool :=
  (9 ≤ c.val && c.val ≤ 13) || (28 ≤ c.val && c.val ≤ 32) || c.val == 0x85 || c.val == 0xA0 ||
    c.val == 0x1680 || (0x2000 ≤ c.val && c.val ≤ 0x200A) || c.val == 0x2028 ||
    c.val == 0x2029 || c.val == 0x202F || c.val == 0x205F || c.val == 0x3000

/-- The code points of the decimal zeros; the ten digits of a script follow its zero. -/
def decimalZeros : List Nat :=
  [0x30, 0x660, 0x6F0, 0x7C0, 0x966, 0x9E6, 0xA66, 0xAE6, 0xB66, 0xBE6, 0xC66, 0xCE6, 0xD66,
    0xDE6, 0xE50, 0xED0, 0xF20, 0x1040, 0x1090, 0x17E0, 0x1810, 0x1946, 0x19D0, 0x1A80, 0x1A90,
    0x1B50, 0x1BB0, 0x1C40, 0x1C50, 0xA620, 0xA8D0, 0xA900, 0xA9D0, 0xA9F0, 0xAA50, 0xABF0,
    0xFF10, 0x104A0, 0x10D30, 0x11066, 0x110F0, 0x11136, 0x111D0, 0x112F0, 0x11450, 0x114D0,
    0x11650, 0x116C0, 0x11730, 0x118E0, 0x11950, 0x11C50, 0x11D50, 0x11DA0, 0x11F50, 0x16A60,
    0x16AC0, 0x16B50, 0x1D7CE, 0x1D7D8, 0x1D7E2, 0x1D7EC, 0x1D7F6, 0x1E140, 0x1E2F0, 0x1E4F0,
    0x1E950, 0x1FBF0]

/-- The decimal value of a digit of any script. -/
def decimal? (c : PyChar) : Option Nat :=
  (decimalZeros.find? (fun z => z ≤ c.val && c.val ≤ z + 9)).map (fun z => c.val - z)

/-- `sys.int_info.default_max_str_digits`: `int()` reads no longer runs of digits. -/
def maxStrDigits : Nat :=
  4300

/-- White space around an integer: that of ASCII, and beyond ASCII that of `str.isspace`.  The
separators U+001C to U+001F are white space in the latter sense only. -/
def isIntSpace (c : PyChar) : Bool :=
  (9 ≤ c.val && c.val ≤ 13) || c.val == 32 || (127 ≤ c.val && isSpace c)

def strip (s : PyStr) : PyStr :=
  ((s.dropWhile isIntSpace).reverse.dropWhile isIntSpace).reverse

/-- Digits with single underscores between them; `after` tells that a digit was just read. -/
def digits? : Bool → Nat → PyStr → Option Nat
  | after, v, [] => if after then some v else none
  | after, v, c :: cs =>
      match decimal? c with
      | some d => digits? true (10 * v + d) cs
      | none => if c = ch '_' ∧ after then digits? false v cs else none

/-- A run of digits as `int()` reads it; underscores do not count as digits. -/
def intDigits? (s : PyStr) : Option Nat :=
  if maxStrDigits < s.countP (fun c => c ≠ ch '_') then none else digits? false 0 s

/-- `int(s)`; `none` where Python raises `ValueError`. -/
def toInt? (s : PyStr) : Option Int :=
  match strip s with
  | [] => none
  | c :: cs =>
      if c = ch '-' then (intDigits? cs).map (fun n => -(n : Int))
      else if c = ch '+' then (intDigits? cs).map (fun n => (n : Int))
      else (intDigits? (c :: cs)).map (fun n => (n : Int))

example : toInt? (py " -1_000\n") = some (-1000) := by decide
example : toInt? (py "1__0") = none := by decide

end PyStr

end Library
end Xqueue
