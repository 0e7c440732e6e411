/-
Berth.Calendar.Text — instants as text.

An instant is its number of nanoseconds since the first of January 1970,
UTC. A layout says what stands between date and time of day, how many
digits of a second are written at most, and whether the zone is written:
`format` writes UTC and leaves out what the fraction ends in zeros, as a
layout of nines does. `parse` reads any number of digits of a second, also
where the layout has none, an hour of one digit, and several spaces for
one.

What is written in a layout is read back in it, up to the digits that
were not written, and cannot be read in a layout with another separator
or with a zone where there is none.
-/
import Berth.Calendar.Civil
import Mathlib.Data.List.DropRight

namespace Berth.Calendar

structure Layout where
  sep : Char
  digits : Nat
  zone : Bool
  deriving DecidableEq, Repr

/-! ## Digits -/

def digitChar (d : Nat) : Char := Char.ofNat ('0'.toNat + d % 10)

def digit? (c : Char) : Option Nat :=
  if '0' ≤ c ∧ c ≤ '9' then some (c.toNat - '0'.toNat) else none

theorem digit?_digitChar (d : Nat) : digit? (digitChar d) = some (d % 10) := by
  have h : ∀ d < 10, digit? (Char.ofNat ('0'.toNat + d)) = some d := by decide
  exact h (d % 10) (Nat.mod_lt d (by decide))

/-- The last `w` digits of a number. -/
def pad : Nat → Nat → List Char
  | 0, _ => []
  | w + 1, n => digitChar (n / 10 ^ w) :: pad w n

/-- A number of exactly `w` digits. -/
def number? : Nat → List Char → Option (Nat × List Char)
  | 0, cs => some (0, cs)
  | _ + 1, [] => none
  | w + 1, c :: cs =>
    match digit? c, number? w cs with
    | some d, some (n, rest) => some (d * 10 ^ w + n, rest)
    | _, _ => none

theorem number?_pad {w n : Nat} (h : n < 10 ^ w) (rest : List Char) :
    number? w (pad w n ++ rest) = some (n, rest) := by
  have hmod : ∀ w, number? w (pad w n ++ rest) = some (n % 10 ^ w, rest) := by
    intro w
    induction w with
    | zero => simp [number?, pad, Nat.mod_one]
    | succ w ih =>
      simp only [pad, List.cons_append, number?, digit?_digitChar, ih, Nat.mod_pow_succ]
      rw [Nat.add_comm, Nat.mul_comm]
  rw [hmod, Nat.mod_eq_of_lt h]

/-- A number of one or two digits. -/
def upTo2? (cs : List Char) : Option (Nat × List Char) :=
  match number? 2 cs with
  | some x => some x
  | none => number? 1 cs

/-! ## Fractions -/

/-- The value of a fraction in units of `10 ^ (-w)`; further digits do not
count. -/
def fraction : Nat → List Char → Nat
  | 0, _ => 0
  | _ + 1, [] => 0
  | w + 1, c :: cs => (digit? c).getD 0 * 10 ^ w + fraction w cs

theorem fraction_nil (w : Nat) : fraction w [] = 0 := by cases w <;> rfl

theorem fraction_zeros (w : Nat) {cs : List Char} (h : ∀ c ∈ cs, c = '0') : fraction w cs = 0 := by
  induction cs generalizing w with
  | nil => exact fraction_nil w
  | cons c cs ih =>
    cases w with
    | zero => rfl
    | succ w =>
      have hc : digit? c = some 0 := by
        rw [h c List.mem_cons_self]
        decide
      simp [fraction, hc, ih w fun c' hc' => h c' (List.mem_cons_of_mem c hc')]

/-- Zeros at the end do not count. -/
theorem fraction_append_zeros (w : Nat) (cs : List Char) {zs : List Char} (h : ∀ c ∈ zs, c = '0') :
    fraction w (cs ++ zs) = fraction w cs := by
  induction cs generalizing w with
  | nil => rw [List.nil_append, fraction_zeros w h, fraction_nil]
  | cons c cs ih =>
    cases w with
    | zero => rfl
    | succ w => simp only [List.cons_append, fraction, ih]

/-- Leave out the zeros at the end. -/
def trimZeros (cs : List Char) : List Char := cs.rdropWhile (· == '0')

theorem trimZeros_append (cs : List Char) :
    ∃ zs, cs = trimZeros cs ++ zs ∧ ∀ c ∈ zs, c = '0' := by
  refine ⟨cs.rtakeWhile (· == '0'), (List.rdropWhile_append_rtakeWhile).symm, fun c hc => ?_⟩
  simpa using List.mem_rtakeWhile_imp hc

theorem fraction_trimZeros (w : Nat) (cs : List Char) :
    fraction w (trimZeros cs) = fraction w cs := by
  obtain ⟨zs, hcs, hzs⟩ := trimZeros_append cs
  conv_rhs => rw [hcs, fraction_append_zeros w _ hzs]

/-- The first `k` digits of a fraction of `w` digits. -/
theorem fraction_take_pad (k : Nat) {w n : Nat} (h : n < 10 ^ w) :
    fraction w ((pad w n).take k) = n - n % 10 ^ (w - k) := by
  have hmod : ∀ w k, fraction w ((pad w n).take k) = n % 10 ^ w - n % 10 ^ (w - k) := by
    intro w
    induction w with
    | zero => intro k; simp [fraction]
    | succ w ih =>
      intro k
      cases k with
      | zero => simp [fraction]
      | succ k =>
        simp only [pad, List.take_succ_cons, fraction, digit?_digitChar, Option.getD_some, ih,
          Nat.mod_pow_succ, Nat.add_sub_add_right]
        have hle : n % 10 ^ (w - k) ≤ n % 10 ^ w := by
          rw [← Nat.mod_mod_of_dvd n (Nat.pow_dvd_pow 10 (Nat.sub_le w k))]
          exact Nat.mod_le _ _
        rw [Nat.mul_comm]
        omega
  rw [hmod, Nat.mod_eq_of_lt h]

/-! ## Writing -/

/-- The day and the nanosecond of the day. -/
def dayNumber (t : Int) : Int := t / 86400000000000

def nanoOfDay (t : Int) : Nat := (t % 86400000000000).toNat

def date (t : Int) : Date := ofDays (dayNumber t)

/-- At least four digits. -/
def formatYear (y : Int) : List Char :=
  (if y < 0 then ['-'] else []) ++
    if y.natAbs ≤ 9999 then pad 4 y.natAbs else (toString y.natAbs).toList

def formatFraction (digits nanos : Nat) : List Char :=
  match trimZeros ((pad 9 nanos).take digits) with
  | [] => []
  | cs => '.' :: cs

def formatDate (d : Date) : List Char :=
  formatYear d.year ++ '-' :: (pad 2 d.month ++ '-' :: pad 2 d.day)

/-- Hours, minutes and seconds of a nanosecond of the day. -/
def formatClock (n : Nat) : List Char :=
  pad 2 (n / 3600000000000) ++ ':' :: (pad 2 (n / 60000000000 % 60) ++ ':' ::
    pad 2 (n / 1000000000 % 60))

def format (l : Layout) (t : Int) : List Char :=
  formatDate (date t) ++ l.sep :: (formatClock (nanoOfDay t) ++
    (formatFraction l.digits (nanoOfDay t % 1000000000) ++ if l.zone then ['Z'] else []))

/-! ## Reading -/

/-- One character that has to be there. -/
def lit? (c : Char) : List Char → Option (List Char)
  | [] => none
  | c' :: cs => if c' = c then some cs else none

/-- What stands between date and time of day: a space of the layout takes
any number of them. -/
def sep? (c : Char) (cs : List Char) : Option (List Char) :=
  (lit? c cs).map fun rest => if c = ' ' then rest.dropWhile (· == ' ') else rest

/-- The fraction of a second, if there is one. -/
def fraction? (cs : List Char) : Nat × List Char :=
  match cs with
  | p :: c :: rest =>
    if (p = '.' ∨ p = ',') ∧ (digit? c).isSome then
      (fraction 9 ((c :: rest).takeWhile fun c => (digit? c).isSome),
        (c :: rest).dropWhile fun c => (digit? c).isSome)
    else (0, cs)
  | _ => (0, cs)

/-- `Z`, or an offset in minutes. -/
def zone? : List Char → Option (Int × List Char)
  | 'Z' :: cs => some (0, cs)
  | sign :: cs => do
    let (hour, cs) ← number? 2 cs
    let cs ← lit? ':' cs
    let (minute, cs) ← number? 2 cs
    if 24 < hour ∨ 60 < minute then none
    else if sign = '+' then some (hour * 60 + minute, cs)
    else if sign = '-' then some (-(hour * 60 + minute), cs)
    else none
  | [] => none

def date? (cs : List Char) : Option (Date × List Char) := do
  let (year, cs) ← number? 4 cs
  let cs ← lit? '-' cs
  let (month, cs) ← number? 2 cs
  let cs ← lit? '-' cs
  let (day, cs) ← number? 2 cs
  some (⟨year, month, day⟩, cs)

/-- Hours, minutes and seconds. -/
structure Clock where
  hour : Nat
  minute : Nat
  sec : Nat

def clock? (cs : List Char) : Option (Clock × List Char) := do
  let (hour, cs) ← upTo2? cs
  let cs ← lit? ':' cs
  let (minute, cs) ← number? 2 cs
  let cs ← lit? ':' cs
  let (sec, cs) ← number? 2 cs
  some (⟨hour, minute, sec⟩, cs)

/-- The instant a date and a time of day make, if they exist. -/
def instant (d : Date) (c : Clock) (nanos : Nat) (offset : Int) : Option Int :=
  if d.Valid ∧ c.hour < 24 ∧ c.minute < 60 ∧ c.sec < 60 then
    some ((((d.toDays * 24 + c.hour) * 60 + c.minute - offset) * 60 + c.sec) * 1000000000 + nanos)
  else none

def parse (l : Layout) (cs : List Char) : Option Int := do
  let (d, cs) ← date? cs
  let cs ← sep? l.sep cs
  let (c, cs) ← clock? cs
  let (nanos, cs) := fraction? cs
  let (offset, cs) ← if l.zone then zone? cs else some (0, cs)
  if cs = [] then instant d c nanos offset else none

/-! ## Reading what was written -/

@[simp] theorem lit?_self (c : Char) (cs : List Char) : lit? c (c :: cs) = some cs := by simp [lit?]

theorem upTo2?_pad {n : Nat} (h : n < 100) (rest : List Char) :
    upTo2? (pad 2 n ++ rest) = some (n, rest) := by
  rw [upTo2?, number?_pad h]

/-- Digits are digits. -/
theorem isSome_digit?_pad {w n : Nat} : ∀ c ∈ pad w n, (digit? c).isSome = true := by
  induction w with
  | zero => simp [pad]
  | succ w ih =>
    intro c hc
    simp only [pad, List.mem_cons] at hc
    rcases hc with rfl | hc
    · simp [digit?_digitChar]
    · exact ih c hc

/-- What follows a fraction does not continue it. -/
theorem fraction?_formatFraction (digits : Nat) {nanos : Nat} (h : nanos < 1000000000) (z : Bool) :
    fraction? (formatFraction digits nanos ++ if z then ['Z'] else []) =
      (nanos - nanos % 10 ^ (9 - digits), if z then ['Z'] else []) := by
  have hval := fraction_take_pad digits (show nanos < 10 ^ 9 from h)
  rw [← fraction_trimZeros] at hval
  have hdig : ∀ c ∈ trimZeros ((pad 9 nanos).take digits), (digit? c).isSome = true := by
    intro c hc
    exact isSome_digit?_pad c (List.mem_of_mem_take ((List.rdropWhile_prefix _ _).subset hc))
  unfold formatFraction
  cases hcs : trimZeros ((pad 9 nanos).take digits) with
  | nil =>
    rw [hcs, fraction_nil] at hval
    simp only [List.nil_append, ← hval]
    cases z <;> rfl
  | cons c cs =>
    rw [hcs] at hval hdig
    have hall : ∀ c' ∈ c :: cs, (digit? c').isSome = true := hdig
    have hz : ∀ c' ∈ (if z then ['Z'] else [] : List Char).head?, (digit? c').isSome = false := by
      cases z with
      | false => simp
      | true =>
        intro c' hc
        cases hc
        decide
    simp only [List.cons_append, fraction?, hall c List.mem_cons_self, true_or, and_self, if_true]
    rw [← List.cons_append, List.takeWhile_append_of_pos hall, List.dropWhile_append_of_pos hall]
    cases z with
    | false => simp [hval]
    | true => simp [hval, digit?]

/-- The parts of the day make the nanosecond of the day. -/
theorem nanoOfDay_parts (n : Nat) :
    ((n / 3600000000000 * 60 + n / 60000000000 % 60) * 60 + n / 1000000000 % 60) * 1000000000 +
      n % 1000000000 = n := by omega

/-- The time of day of an instant. -/
def clockOf (n : Nat) : Clock := ⟨n / 3600000000000, n / 60000000000 % 60, n / 1000000000 % 60⟩

theorem instant_date {t : Int} (k : Nat) (hk : k ≤ nanoOfDay t % 1000000000) :
    instant (date t) (clockOf (nanoOfDay t)) (nanoOfDay t % 1000000000 - k) 0 = some (t - k) := by
  have hn : (nanoOfDay t : Int) = t - dayNumber t * 86400000000000 ∧
      nanoOfDay t < 86400000000000 := by
    unfold nanoOfDay dayNumber
    omega
  have hparts := nanoOfDay_parts (nanoOfDay t)
  have hclock : (date t).Valid ∧ (clockOf (nanoOfDay t)).hour < 24 ∧
      (clockOf (nanoOfDay t)).minute < 60 ∧ (clockOf (nanoOfDay t)).sec < 60 := by
    refine ⟨valid_ofDays _, ?_⟩
    simp only [clockOf]
    omega
  rw [instant, if_pos hclock, Option.some.injEq, date, toDays_ofDays]
  simp only [clockOf]
  generalize nanoOfDay t / 3600000000000 = h at *
  generalize nanoOfDay t / 60000000000 % 60 = m at *
  generalize nanoOfDay t / 1000000000 % 60 = s at *
  generalize nanoOfDay t % 1000000000 = r at *
  omega

theorem date?_formatDate {d : Date} (hd : d.Valid) (h0 : 0 ≤ d.year) (h : d.year ≤ 9999)
    (rest : List Char) : date? (formatDate d ++ rest) = some (d, rest) := by
  have hyear : formatYear d.year = pad 4 d.year.natAbs := by
    rw [formatYear, if_neg (by omega), if_pos (by omega), List.nil_append]
  have habs : (d.year.natAbs : Int) = d.year := by omega
  have hday : d.day ≤ 31 := by
    refine Nat.le_trans hd.day_le ?_
    unfold daysIn
    split
    · split <;> decide
    · split <;> decide
  have hmonth : d.month ≤ 12 := hd.month_le
  simp only [date?, formatDate, hyear, List.append_assoc, List.cons_append, Option.bind_eq_bind,
    number?_pad (show d.year.natAbs < 10 ^ 4 by omega),
    number?_pad (show d.month < 10 ^ 2 by omega), number?_pad (show d.day < 10 ^ 2 by omega),
    Option.bind_some, lit?_self, habs]

theorem clock?_formatClock {n : Nat} (h : n < 86400000000000) (rest : List Char) :
    clock? (formatClock n ++ rest) = some (clockOf n, rest) := by
  simp only [clock?, formatClock, clockOf, List.append_assoc, List.cons_append, Option.bind_eq_bind,
    upTo2?_pad (show n / 3600000000000 < 100 by omega),
    number?_pad (show n / 60000000000 % 60 < 10 ^ 2 by omega),
    number?_pad (show n / 1000000000 % 60 < 10 ^ 2 by omega), Option.bind_some, lit?_self]

/-- One separator is written, and a time of day begins with a digit. -/
theorem sep?_formatClock (c : Char) (n : Nat) (rest : List Char) :
    sep? c (c :: (formatClock n ++ rest)) = some (formatClock n ++ rest) := by
  have hdigit : ∀ d < 10, (Char.ofNat ('0'.toNat + d) == ' ') = false := by decide
  have hfirst : (digitChar (n / 3600000000000 / 10) == ' ') = false :=
    hdigit _ (Nat.mod_lt _ (by decide))
  simp [sep?, formatClock, pad, hfirst]

/-- The nanoseconds that the layout has no digits for. -/
def dropped (l : Layout) (t : Int) : Nat := nanoOfDay t % 1000000000 % 10 ^ (9 - l.digits)

/-- What is written in one layout, read in another: they have to agree on
the separator and the zone. -/
theorem parse_format {l l' : Layout} {t : Int} (h0 : 0 ≤ (date t).year) (h : (date t).year ≤ 9999) :
    parse l' (format l t) =
      if l'.sep = l.sep ∧ l'.zone = l.zone then some (t - dropped l t) else none := by
  have hn : nanoOfDay t < 86400000000000 := by
    unfold nanoOfDay
    omega
  have hfrac := fraction?_formatFraction l.digits
    (show nanoOfDay t % 1000000000 < 1000000000 by omega) l.zone
  have hinst := instant_date (dropped l t) (Nat.mod_le _ _)
  have hutc : zone? ['Z'] = some (0, []) := rfl
  have hnone : zone? [] = none := rfl
  rw [dropped] at hinst
  have hdate := date?_formatDate (d := date t) (valid_ofDays _) h0 h
  simp only [parse, format, hdate, Option.bind_eq_bind, Option.bind_some]
  by_cases hsep : l'.sep = l.sep
  · simp only [hsep, sep?_formatClock, Option.bind_some, clock?_formatClock hn, hfrac, true_and]
    cases hz : l.zone <;> cases hz' : l'.zone <;> simp [hutc, hnone, dropped, hinst]
  have hlit : ∀ cs, sep? l'.sep (l.sep :: cs) = none := by
    intro cs
    simp [sep?, lit?, Ne.symm hsep]
  simp [hsep, hlit]

end Berth.Calendar
