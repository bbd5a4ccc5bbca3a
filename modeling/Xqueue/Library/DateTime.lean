import Mathlib.Order.Basic
import Mathlib.Order.Lattice
import Xqueue.Library.PyText

/-!
# DateTime — an aware UTC `datetime` and its text

A `DateTime` is a number of microseconds from 0001-01-01 00:00:00 that stays below the year
10000, as Python's type does.  `civil` is the algorithm of the standard library's `datetime`;
`str` is `str(dt)`, which omits the fraction of a whole second.  The result the users of this
file need is that `str` followed by the text of a number loses nothing: `str_append_inj`.
-/

namespace Xqueue
namespace Library

structure DateTime where
  micros : Nat
  inRange : micros < 315537897600000000
  deriving DecidableEq

namespace DateTime

theorem micros_injective : Function.Injective micros := by
  rintro ⟨m, _⟩ ⟨n, _⟩ h
  cases h
  rfl

instance : LinearOrder DateTime :=
  LinearOrder.lift' micros micros_injective

theorem le_iff {s t : DateTime} : s ≤ t ↔ s.micros ≤ t.micros :=
  Iff.rfl

theorem lt_iff {s t : DateTime} : s < t ↔ s.micros < t.micros :=
  Iff.rfl

/-! ## The calendar -/

/-- Days before the first of a month in a year that is not a leap year. -/
def daysBefore : Nat → Nat
  | 1 => 0
  | 2 => 31
  | 3 => 59
  | 4 => 90
  | 5 => 120
  | 6 => 151
  | 7 => 181
  | 8 => 212
  | 9 => 243
  | 10 => 273
  | 11 => 304
  | 12 => 334
  | _ => 365

def daysBeforeIn (leap : Bool) (month : Nat) : Nat :=
  daysBefore month + if leap && 2 < month then 1 else 0

/-- Month and day of month from the day of the year, both counted from the estimate
`(n + 50) / 32`, which is exact or one too high. -/
def monthDay (leap : Bool) (n : Nat) : Nat × Nat :=
  let month := (n + 50) / 32
  let month := if n < daysBeforeIn leap month then month - 1 else month
  (month, n - daysBeforeIn leap month + 1)

/-- Year, month and day of a day number counted from 0001-01-01. -/
def civil (days : Nat) : Nat × Nat × Nat :=
  let n400 := days / 146097
  let n100 := days % 146097 / 36524
  let n4 := days % 146097 % 36524 / 1461
  let n1 := days % 146097 % 36524 % 1461 / 365
  let n := days % 146097 % 36524 % 1461 % 365
  let year := n400 * 400 + n100 * 100 + n4 * 4 + n1 + 1
  if n1 = 4 ∨ n100 = 4 then (year - 1, 12, 31)
  else (year, monthDay (n1 = 3 && (n4 ≠ 24 || n100 = 3)) n)

def isLeap (year : Nat) : Bool :=
  year % 4 = 0 && (year % 100 ≠ 0 || year % 400 = 0)

/-- The day number of a date. -/
def ordinal (year month day : Nat) : Nat :=
  (year - 1) * 365 + (year - 1) / 4 - (year - 1) / 100 + (year - 1) / 400 +
    daysBeforeIn (isLeap year) month + (day - 1)

theorem monthDay_spec : ∀ leap : Bool, ∀ n < 365,
    daysBeforeIn leap (monthDay leap n).1 + ((monthDay leap n).2 - 1) = n ∧
      (monthDay leap n).1 < 100 ∧ (monthDay leap n).2 < 100 := by
  decide +kernel

theorem isLeap_split {a b c e : Nat} (hb : b < 4) (hc : c < 25) (he : e < 4) :
    isLeap (a * 400 + b * 100 + c * 4 + e + 1) = (e = 3 && (c ≠ 24 || b = 3)) := by
  rw [Bool.eq_iff_iff]
  simp only [isLeap, Bool.and_eq_true, Bool.or_eq_true, decide_eq_true_eq, ne_eq, decide_not,
    Bool.not_eq_true', decide_eq_false_iff_not]
  omega

/-- Years before a date contribute whole cycles of 400, 100, 4 and 1 years. -/
theorem yearDays_split {a b c e : Nat} (hb : b < 4) (hc : c < 25) (he : e < 4) :
    (a * 400 + b * 100 + c * 4 + e) * 365 + (a * 400 + b * 100 + c * 4 + e) / 4 -
      (a * 400 + b * 100 + c * 4 + e) / 100 + (a * 400 + b * 100 + c * 4 + e) / 400 =
      a * 146097 + b * 36524 + c * 1461 + e * 365 := by
  have h4 : (a * 400 + b * 100 + c * 4 + e) / 4 = a * 100 + b * 25 + c := by omega
  have h100 : (a * 400 + b * 100 + c * 4 + e) / 100 = a * 4 + b := by omega
  have h400 : (a * 400 + b * 100 + c * 4 + e) / 400 = a := by omega
  omega

theorem ordinal_split {a b c e : Nat} (hb : b < 4) (hc : c < 25) (he : e < 4) (month day : Nat) :
    ordinal (a * 400 + b * 100 + c * 4 + e + 1) month day =
      a * 146097 + b * 36524 + c * 1461 + e * 365 +
        daysBeforeIn (e = 3 && (c ≠ 24 || b = 3)) month + (day - 1) := by
  rw [ordinal, isLeap_split hb hc he, Nat.add_sub_cancel, yearDays_split hb hc he]

/-- The last day of a leap year. -/
theorem ordinal_yearEnd {a b c : Nat} (hb : b < 4) (hc : c < 25) (hleap : c ≠ 24 ∨ b = 3) :
    ordinal (a * 400 + b * 100 + c * 4 + 4) 12 31 =
      a * 146097 + b * 36524 + c * 1461 + 4 * 365 := by
  have hdays : daysBeforeIn true 12 = 335 := by decide
  have hflag : (decide (3 = 3) && (decide (c ≠ 24) || decide (b = 3))) = true := by simpa using hleap
  rw [ordinal_split (e := 3) hb hc (by omega) 12 31, hflag, hdays]

theorem ordinal_civil (days : Nat) :
    ordinal (civil days).1 (civil days).2.1 (civil days).2.2 = days := by
  obtain ⟨a, b, c, e, n, ha, hb, hc, he, hn⟩ : ∃ a b c e n : Nat, days / 146097 = a ∧
      days % 146097 / 36524 = b ∧ days % 146097 % 36524 / 1461 = c ∧
      days % 146097 % 36524 % 1461 / 365 = e ∧ days % 146097 % 36524 % 1461 % 365 = n :=
    ⟨_, _, _, _, _, rfl, rfl, rfl, rfl, rfl⟩
  have hdays : days = a * 146097 + b * 36524 + c * 1461 + e * 365 + n := by omega
  have hc25 : c < 25 := by omega
  by_cases hlast : e = 4 ∨ b = 4
  · -- the last day of a leap year, which the divisions put into a year that does not exist
    have hciv : civil days = (a * 400 + b * 100 + c * 4 + e, 12, 31) := by
      simp [civil, ha, hb, hc, he, hlast]
    rw [hciv, hdays]
    by_cases hb4 : b = 4
    · -- Day 146096 of a cycle of 400 years: no shorter cycle is complete after it.
      have hzero : c = 0 ∧ e = 0 ∧ n = 0 := by omega
      have hend := ordinal_yearEnd (a := a) (b := 3) (c := 24) (by omega) (by omega) (Or.inr rfl)
      have hcycle : 3 * 36524 + 24 * 1461 + 4 * 365 = 4 * 36524 := by decide
      simp only [hend, hb4, hzero, Nat.zero_mul, Nat.add_zero, Nat.add_assoc, hcycle]
    · obtain ⟨rfl, rfl⟩ : e = 4 ∧ n = 0 := by omega
      have hend := ordinal_yearEnd (a := a) (b := b) (by omega) hc25 (Or.inl (by omega))
      simp only [hend]
  · have hb4 : b < 4 := by omega
    have he4 : e < 4 := by omega
    have hciv : civil days = (a * 400 + b * 100 + c * 4 + e + 1,
        monthDay (e = 3 && (c ≠ 24 || b = 3)) n) := by
      simp [civil, ha, hb, hc, he, hn, hlast]
    have hspec := (monthDay_spec (e = 3 && (c ≠ 24 || b = 3)) n (by omega)).1
    rw [hciv]
    dsimp only
    rw [ordinal_split hb4 hc25 he4, hdays]
    omega

theorem civil_lt {days : Nat} (h : days < 3652059) :
    (civil days).1 < 10000 ∧ (civil days).2.1 < 100 ∧ (civil days).2.2 < 100 := by
  have hn365 : days % 146097 % 36524 % 1461 % 365 < 365 := by omega
  unfold civil
  dsimp only
  split_ifs with hlast
  · dsimp only
    omega
  · refine ⟨?_, (monthDay_spec _ _ hn365).2⟩
    dsimp only
    omega

/-! ## The text -/

/-- The last `width` decimal digits of `n`. -/
def pad : Nat → Nat → PyStr
  | 0, _ => []
  | width + 1, n => pad width (n / 10) ++ [ch (n % 10).digitChar]

@[simp] theorem length_pad (width n : Nat) : (pad width n).length = width := by
  induction width generalizing n with
  | zero => rfl
  | succ width ih => simp [pad, ih]

theorem digitChar_inj : ∀ i < 10, ∀ j < 10, ch i.digitChar = ch j.digitChar → i = j := by
  decide

theorem pad_inj {width m n : Nat} (h : pad width m = pad width n) (hm : m < 10 ^ width)
    (hn : n < 10 ^ width) : m = n := by
  induction width generalizing m n with
  | zero => omega
  | succ width ih =>
      rcases List.append_inj' h rfl with ⟨hinit, hlast⟩
      have hdiv : m / 10 = n / 10 := by
        refine ih hinit ?_ ?_ <;> rw [Nat.div_lt_iff_lt_mul (by decide)] <;>
          simpa [Nat.pow_succ] using by assumption
      have hmod : m % 10 = n % 10 :=
        digitChar_inj _ (Nat.mod_lt m (by decide)) _ (Nat.mod_lt n (by decide)) (by simpa using hlast)
      omega

def date (t : DateTime) : Nat × Nat × Nat :=
  civil (t.micros / 86400000000)

/-- `YYYY-MM-DD HH:MM:SS`. -/
def seconds (t : DateTime) : PyStr :=
  pad 4 t.date.1 ++ (ch '-' :: pad 2 t.date.2.1) ++ (ch '-' :: pad 2 t.date.2.2) ++
    (ch ' ' :: pad 2 (t.micros / 3600000000 % 24)) ++
    (ch ':' :: pad 2 (t.micros / 60000000 % 60)) ++ (ch ':' :: pad 2 (t.micros / 1000000 % 60))

/-- `.ffffff`, or nothing for a whole second. -/
def fraction (t : DateTime) : PyStr :=
  if t.micros % 1000000 = 0 then [] else ch '.' :: pad 6 (t.micros % 1000000)

/-- `str(t)` of an aware UTC datetime. -/
def str (t : DateTime) : PyStr :=
  t.seconds ++ t.fraction ++ py "+00:00"

example : str ⟨63838015322000042, by decide⟩ = py "2023-12-12 22:02:02.000042+00:00" := by
  decide +kernel

theorem seconds_inj {s t : DateTime} (h : s.seconds = t.seconds) :
    s.micros / 1000000 = t.micros / 1000000 := by
  rcases List.append_inj' h rfl with ⟨h, hsec⟩
  rcases List.append_inj' h rfl with ⟨h, hmin⟩
  rcases List.append_inj' h rfl with ⟨h, hhour⟩
  rcases List.append_inj' h rfl with ⟨h, hday⟩
  rcases List.append_inj' h rfl with ⟨hyear, hmonth⟩
  have hs : s.micros / 86400000000 < 3652059 := by have := s.inRange; omega
  have ht : t.micros / 86400000000 < 3652059 := by have := t.inRange; omega
  rcases civil_lt hs with ⟨hsy, hsm, hsd⟩
  rcases civil_lt ht with ⟨hty, htm, htd⟩
  -- equal dates are equal day numbers
  have hdays : s.micros / 86400000000 = t.micros / 86400000000 := by
    rw [← ordinal_civil (s.micros / 86400000000), ← ordinal_civil (t.micros / 86400000000)]
    have h1 : s.date.1 = t.date.1 := pad_inj hyear hsy hty
    have h2 : s.date.2.1 = t.date.2.1 := pad_inj (List.cons.inj hmonth).2 hsm htm
    have h3 : s.date.2.2 = t.date.2.2 := pad_inj (List.cons.inj hday).2 hsd htd
    rw [date] at h1 h2 h3
    rw [h1, h2, h3]
    rfl
  have hh := pad_inj (List.cons.inj hhour).2 (by omega) (by omega)
  have hm := pad_inj (List.cons.inj hmin).2 (by omega) (by omega)
  have hsec' := pad_inj (List.cons.inj hsec).2 (by omega) (by omega)
  omega

theorem length_seconds (t : DateTime) : t.seconds.length = 19 := by
  simp [seconds]

theorem digitChar_encodable : ∀ i < 10, PyStr.Scalar (ch i.digitChar) := by
  decide

theorem encodable_pad {width n : Nat} : PyStr.Encodable (pad width n) := by
  induction width generalizing n with
  | zero => exact PyStr.encodable_nil
  | succ width ih =>
      refine PyStr.encodable_append.2 ⟨ih, PyStr.encodable_cons.2 ⟨?_, PyStr.encodable_nil⟩⟩
      exact digitChar_encodable _ (Nat.mod_lt n (by decide))

/-- The text is ASCII, so it can be encoded. -/
theorem encodable_str {t : DateTime} : PyStr.Encodable t.str := by
  have hpad : ∀ {c : PyChar} {width n : Nat}, PyStr.Scalar c → PyStr.Encodable (c :: pad width n) :=
    fun hc => PyStr.encodable_cons.2 ⟨hc, encodable_pad⟩
  have hfraction : PyStr.Encodable t.fraction := by
    rw [fraction]
    split
    · exact PyStr.encodable_nil
    · exact hpad (by decide)
  simp only [str, seconds, PyStr.encodable_append]
  exact ⟨⟨⟨⟨⟨⟨⟨encodable_pad, hpad (by decide)⟩, hpad (by decide)⟩, hpad (by decide)⟩,
    hpad (by decide)⟩, hpad (by decide)⟩, hfraction⟩, by decide⟩

/-- A time and a number are determined by the text `str(t) + str(n)`. -/
theorem str_append_inj {s t : DateTime} {m n : Nat}
    (h : s.str ++ PyStr.ofNat m = t.str ++ PyStr.ofNat n) : s = t ∧ m = n := by
  simp only [str, List.append_assoc] at h
  rcases List.append_inj h (by rw [length_seconds, length_seconds]) with ⟨hsec, htail⟩
  have hwhole := seconds_inj hsec
  have hzone : py "+00:00" = ch '+' :: py "00:00" := by decide
  -- what follows the seconds tells a whole second from one with a fraction
  have hne : ch '+' ≠ ch '.' := by decide
  by_cases hs : s.micros % 1000000 = 0 <;> by_cases ht : t.micros % 1000000 = 0
  · simp only [fraction, hs, ht, if_true, List.nil_append, List.append_cancel_left_eq] at htail
    refine ⟨micros_injective (by omega), PyStr.ofNat_injective htail⟩
  · simp only [fraction, hs, ht, if_true, if_false, List.nil_append, hzone, List.cons_append] at htail
    exact absurd (List.cons.inj htail).1 hne
  · simp only [fraction, hs, ht, if_true, if_false, List.nil_append, hzone, List.cons_append] at htail
    exact absurd (List.cons.inj htail).1.symm hne
  · simp only [fraction, hs, ht, if_false, List.cons_append, List.cons.injEq, true_and] at htail
    rcases List.append_inj htail (by simp) with ⟨hfrac, hid⟩
    have hmicros := pad_inj hfrac (by omega) (by omega)
    refine ⟨micros_injective (by omega), PyStr.ofNat_injective ?_⟩
    simpa using hid

end DateTime

end Library
end Xqueue
