/-
Berth.Lease.Decimal — decimal numbers and fixed-width conversions as Go's
`strconv` and `int32(v)` compute them.

`parseDecimal` is the parser without a range check; `parseInt`,
`parseInt32` and `atoi` add that of their width.
-/
import Berth.Lease.Record

namespace Berth.Lease

/-- `strconv.FormatInt(v, 10)`. -/
def formatInt (v : Int) : String :=
  if v < 0 then String.ofList ('-' :: Nat.toDigits 10 v.natAbs)
  else String.ofList (Nat.toDigits 10 v.natAbs)

/-- A nonempty run of decimal digits. -/
def parseDigits (cs : List Char) : Option Nat :=
  if cs ≠ [] ∧ cs.all Char.isDigit = true then some (Nat.ofDigitChars 10 cs 0) else none

/-- `strconv.ParseInt(s, 10, _)`, without its range check. -/
def parseDecimal (s : String) : Option Int :=
  match s.toList with
  | '-' :: cs => (parseDigits cs).map fun n => -Int.ofNat n
  | '+' :: cs => (parseDigits cs).map Int.ofNat
  | cs => (parseDigits cs).map Int.ofNat

/-- The conversion `int32(v)`. -/
def toInt32 (v : Int) : Int := (v + 2147483648) % 4294967296 - 2147483648

/-- `strconv.ParseInt(s, 10, 32)`. -/
def parseInt32 (s : String) : Option Int :=
  (parseDecimal s).filter fun v => -maxInt32 - 1 ≤ v && v ≤ maxInt32

/-- The largest `int64`. -/
def maxInt64 : Int := 9223372036854775807

/-- The conversion `int64(v)`, which is also how a sum or product of two
`int64` is cut off. -/
def toInt64 (v : Int) : Int := (v + 9223372036854775808) % 18446744073709551616 - 9223372036854775808

/-- `strconv.ParseInt(s, 10, 64)`. -/
def parseInt (s : String) : Option Int :=
  (parseDecimal s).filter fun v => -maxInt64 - 1 ≤ v && v ≤ maxInt64

/-- `strconv.Atoi`, where an `int` has 64 bits. -/
def atoi (s : String) : Option Int := parseInt s

theorem parseDigits_toDigits (n : Nat) : parseDigits (Nat.toDigits 10 n) = some n := by
  have hall : (Nat.toDigits 10 n).all Char.isDigit = true := by
    rw [List.all_eq_true]
    intro c hc
    exact Nat.isDigit_of_mem_toDigits (by decide) (by decide) hc
  rw [parseDigits, if_pos ⟨Nat.toDigits_ne_nil, hall⟩, Nat.ofDigitChars_ten_toDigits]

theorem parseDecimal_formatInt {v : Int} (h : 0 ≤ v) : parseDecimal (formatInt v) = some v := by
  have hfmt : (formatInt v).toList = Nat.toDigits 10 v.natAbs := by
    rw [formatInt, if_neg (by omega), String.toList_ofList]
  have hparse := parseDigits_toDigits v.natAbs
  have hdigit : ∀ c ∈ Nat.toDigits 10 v.natAbs, c.isDigit = true :=
    fun c hc => Nat.isDigit_of_mem_toDigits (by decide) (by decide) hc
  unfold parseDecimal
  rw [hfmt]
  split
  · next cs heq =>
    -- a digit is not a sign
    have := hdigit '-' (heq ▸ List.mem_cons_self)
    exact absurd this (by decide)
  · next cs heq =>
    have := hdigit '+' (heq ▸ List.mem_cons_self)
    exact absurd this (by decide)
  · rw [hparse, Option.map_some, Int.ofNat_eq_natCast, Int.natAbs_of_nonneg h]

theorem parseInt32_formatInt {v : Int} (h₀ : -maxInt32 - 1 ≤ v) (h₁ : v ≤ maxInt32) :
    parseInt32 (formatInt v) = some v := by
  have hparse : parseDecimal (formatInt v) = some v := by
    by_cases hneg : v < 0
    · have hfmt : (formatInt v).toList = '-' :: Nat.toDigits 10 v.natAbs := by
        rw [formatInt, if_pos hneg, String.toList_ofList]
      unfold parseDecimal
      rw [hfmt]
      simp only [parseDigits_toDigits, Option.map_some, Option.some.injEq, Int.ofNat_eq_natCast]
      omega
    · exact parseDecimal_formatInt (by omega)
  rw [parseInt32, hparse, Option.filter_some, if_pos]
  simp [h₀, h₁]

/-- Whatever is converted is in range. -/
theorem toInt32_range (v : Int) : -maxInt32 - 1 ≤ toInt32 v ∧ toInt32 v ≤ maxInt32 := by
  unfold maxInt32 toInt32
  omega

/-- Inside its range the conversion changes nothing. -/
theorem toInt32_of_range {v : Int} (h₀ : 0 ≤ v) (h₁ : v ≤ maxInt32) : toInt32 v = v := by
  unfold maxInt32 at h₁
  unfold toInt32
  omega

theorem toInt64_of_range {v : Int} (h₀ : -maxInt64 - 1 ≤ v) (h₁ : v ≤ maxInt64) :
    toInt64 v = v := by
  unfold maxInt64 at h₀ h₁
  unfold toInt64
  omega

theorem toInt64_le (v : Int) : toInt64 v ≤ maxInt64 := by
  unfold maxInt64 toInt64
  omega

theorem parseInt_formatInt {v : Int} (h₀ : 0 ≤ v) (h₁ : v ≤ maxInt64) :
    parseInt (formatInt v) = some v := by
  have hlow : -maxInt64 - 1 ≤ v := Int.le_trans (by decide) h₀
  rw [parseInt, parseDecimal_formatInt h₀, Option.filter_some, if_pos]
  simp [hlow, h₁]

theorem parseInt_le {s : String} {v : Int} (h : parseInt s = some v) : v ≤ maxInt64 := by
  have hrange := (Option.filter_eq_some_iff.mp h).2
  simp only [Bool.and_eq_true, decide_eq_true_eq] at hrange
  exact hrange.2

end Berth.Lease
