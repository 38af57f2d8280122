import CodingDemo.Text.Ascii
import CodingDemo.Text.Decimal
import Mathlib.Algebra.BigOperators.Intervals
import Mathlib.Algebra.Group.Action.Defs
import Mathlib.Algebra.Order.BigOperators.Group.Finset

/-!
# Calendar time

The seconds since the Epoch as a date and a time of day in the Gregorian calendar, and the texts
that are printed of them. No two seconds have the same text.

## Main definitions

* `gmtime`, `timegm`: the date and the time of a number of seconds, and the way back
* `padded`: a numeral with zeros in front
* `stamp`: a date and a time as a text
* `UtcTime`: a time before the year 10000

## Main results

* `timegm_gmtime`: the seconds of the date and the time of a number of seconds
* `stamp_injective`: the text determines the seconds
-/

namespace CodingDemo

open Finset (Ico)

/-! ## Dates -/

/-- A date and a time of day. The years are counted from 1900, the months from 0. -/
structure Tm where
  tm_year : ℕ
  tm_mon : ℕ
  tm_mday : ℕ
  tm_hour : ℕ
  tm_min : ℕ
  tm_sec : ℕ
  deriving DecidableEq

def isLeap (year : ℕ) : Bool := year % 4 = 0 ∧ (year % 100 ≠ 0 ∨ year % 400 = 0)

def yearDays (year : ℕ) : ℕ := if isLeap year then 366 else 365

/-- The days of a month. January is month 0. -/
def monthDays (year : ℕ) : ℕ → ℕ
  | 1 => if isLeap year then 29 else 28
  | 3 | 5 | 8 | 10 => 30
  | _ => 31

/-- Parts of different lengths, one after the other from the part `i` on: the part in which `n`
is, and the rest. -/
def peel (len : ℕ → ℕ) : ℕ → ℕ → ℕ → ℕ × ℕ
  | 0, i, n => (i, n)
  | parts + 1, i, n => if n < len i then (i, n) else peel len parts (i + 1) (n - len i)

def gmtime (seconds : ℕ) : Tm :=
  let days := seconds / 86400
  let second := seconds % 86400
  let year := peel yearDays (days / 365) 1970 days
  let month := peel (monthDays year.1) 11 0 year.2
  { tm_year := year.1 - 1900
    tm_mon := month.1
    tm_mday := month.2 + 1
    tm_hour := second / 3600
    tm_min := second % 3600 / 60
    tm_sec := second % 60 }

/-- The seconds of a date and a time. -/
def timegm (tm : Tm) : ℕ :=
  let days := ∑ year ∈ Ico 1970 (tm.tm_year + 1900), yearDays year +
    ∑ month ∈ Ico 0 tm.tm_mon, monthDays (tm.tm_year + 1900) month + (tm.tm_mday - 1)
  ((days * 24 + tm.tm_hour) * 60 + tm.tm_min) * 60 + tm.tm_sec

/-- The fields are in their ranges. -/
structure Tm.Valid (tm : Tm) : Prop where
  year : 70 ≤ tm.tm_year
  mon : tm.tm_mon < 12
  mday : 1 ≤ tm.tm_mday ∧ tm.tm_mday ≤ 31
  hour : tm.tm_hour < 24
  min : tm.tm_min < 60
  sec : tm.tm_sec < 60

variable {len : ℕ → ℕ} {parts i n year seconds seconds' : ℕ}

/-- The part in which `n` is, the rest, and the parts before. -/
theorem peel_spec (hn : n < ∑ k ∈ Ico i (i + parts + 1), len k) :
    (i ≤ (peel len parts i n).1 ∧ (peel len parts i n).1 ≤ i + parts) ∧
      (peel len parts i n).2 < len (peel len parts i n).1 ∧
      ∑ k ∈ Ico i (peel len parts i n).1, len k + (peel len parts i n).2 = n := by
  induction parts generalizing i n with
  | zero =>
    rw [Nat.add_zero, Nat.Ico_succ_singleton, Finset.sum_singleton] at hn
    exact ⟨⟨le_rfl, le_rfl⟩, hn, by simp [peel]⟩
  | succ parts ih =>
    rw [peel]
    split_ifs with hlt
    · exact ⟨⟨le_rfl, by omega⟩, hlt, by simp⟩
    · rw [Finset.sum_eq_sum_Ico_succ_bot (by omega)] at hn
      have hrest : n - len i < ∑ k ∈ Ico (i + 1) (i + 1 + parts + 1), len k := by
        rw [show i + 1 + parts + 1 = i + (parts + 1) + 1 by omega]
        omega
      obtain ⟨⟨hmin, hmax⟩, hlt', hsum⟩ := ih hrest
      refine ⟨⟨by omega, by omega⟩, hlt', ?_⟩
      rw [Finset.sum_eq_sum_Ico_succ_bot (by omega), Nat.add_assoc, hsum]
      omega

theorem le_yearDays (year : ℕ) : 365 ≤ yearDays year := by
  unfold yearDays
  split_ifs <;> omega

theorem monthDays_le (year month : ℕ) : monthDays year month ≤ 31 := by
  unfold monthDays
  split <;> (try split_ifs) <;> omega

/-- The months of a year. -/
theorem sum_monthDays (year : ℕ) : ∑ month ∈ Ico 0 12, monthDays year month = yearDays year := by
  simp only [monthDays, yearDays, Finset.sum_Ico_succ_top, Nat.zero_le, Finset.Ico_self,
    Finset.sum_empty]
  split_ifs <;> rfl

/-- There are enough years. -/
theorem lt_sum_yearDays (days : ℕ) :
    days < ∑ year ∈ Ico 1970 (1970 + days / 365 + 1), yearDays year := by
  have hsum : (Ico 1970 (1970 + days / 365 + 1)).card • 365 ≤
      ∑ year ∈ Ico 1970 (1970 + days / 365 + 1), yearDays year :=
    Finset.card_nsmul_le_sum _ _ _ fun year _ => le_yearDays year
  rw [Nat.card_Ico, smul_eq_mul] at hsum
  omega

theorem gmtime_spec (seconds : ℕ) : (gmtime seconds).Valid ∧ timegm (gmtime seconds) = seconds := by
  have hyear := peel_spec (lt_sum_yearDays (seconds / 86400))
  set year := peel yearDays (seconds / 86400 / 365) 1970 (seconds / 86400)
  obtain ⟨⟨hmin, -⟩, hrest, hdays⟩ := hyear
  rw [← sum_monthDays] at hrest
  have hmonth := @peel_spec (monthDays year.1) 11 0 year.2 hrest
  set month := peel (monthDays year.1) 11 0 year.2
  obtain ⟨⟨-, hmax⟩, hday, hsum⟩ := hmonth
  have hle := monthDays_le year.1 month.1
  have heq : gmtime seconds =
      { tm_year := year.1 - 1900
        tm_mon := month.1
        tm_mday := month.2 + 1
        tm_hour := seconds % 86400 / 3600
        tm_min := seconds % 86400 % 3600 / 60
        tm_sec := seconds % 86400 % 60 } := rfl
  rw [heq]
  refine ⟨⟨by simp only; omega, by simp only; omega, ⟨Nat.succ_pos _, by simp only; omega⟩,
    by simp only; omega, by simp only; omega, by simp only; omega⟩, ?_⟩
  simp only [timegm]
  rw [show year.1 - 1900 + 1900 = year.1 by omega, Nat.add_sub_cancel, Nat.add_assoc, hsum, hdays]
  omega

/-- The seconds of the date and the time of a number of seconds. -/
theorem timegm_gmtime (seconds : ℕ) : timegm (gmtime seconds) = seconds := (gmtime_spec seconds).2

theorem valid_gmtime (seconds : ℕ) : (gmtime seconds).Valid := (gmtime_spec seconds).1

/-! ## Texts -/

/-- A numeral with zeros in front, `%0wd`. -/
def padded (width n : ℕ) : List UInt8 :=
  List.replicate (width - (decimal n).length) (digitByte 0) ++ decimal n

/-- The text `%m%d-%H%M%S.`. -/
def Tm.afterYear (tm : Tm) : List UInt8 :=
  padded 2 (tm.tm_mon + 1) ++ padded 2 tm.tm_mday ++ [45] ++ padded 2 tm.tm_hour ++
    padded 2 tm.tm_min ++ padded 2 tm.tm_sec ++ [46]

/-- The text `.%Y%m%d-%H%M%S.`. -/
def stamp (seconds : ℕ) : List UInt8 :=
  [46] ++ decimal ((gmtime seconds).tm_year + 1900) ++ (gmtime seconds).afterYear

/-- A time before the year 10000. -/
structure UtcTime where
  seconds : ℕ
  year_lt : (gmtime seconds).tm_year + 1900 < 10000

theorem length_padded {width : ℕ} (hpos : 0 < width) (h : n < 10 ^ width) :
    (padded width n).length = width := by
  have hle := length_decimal_le hpos h
  rw [padded, List.length_append, List.length_replicate]
  omega

theorem decimalValue_padded (width n : ℕ) : decimalValue (padded width n) = n := by
  have hzeros : ∀ k, (List.replicate k (digitByte 0)).foldl
      (fun m b => 10 * m + (b.toNat - 48)) 0 = 0 := by
    intro k
    induction k with
    | zero => rfl
    | succ k ih =>
      rw [List.replicate_succ, List.foldl_cons]
      exact ih
  rw [padded, decimalValue, List.foldl_append, hzeros]
  exact decimalValue_decimal n

theorem padded_injective (width : ℕ) : Function.Injective (padded width) :=
  Function.LeftInverse.injective (decimalValue_padded width)

theorem decimal_injective : Function.Injective decimal :=
  Function.LeftInverse.injective decimalValue_decimal

theorem length_decimal_of_lt (hmin : 1000 ≤ n) (hmax : n < 10000) : (decimal n).length = 4 := by
  have hle := @length_decimal_le n 4 (by decide) hmax
  have hlt : 3 < (Nat.digits 10 n).length := (Nat.lt_digits_length_iff (by decide) n).mpr hmin
  rw [decimal, if_neg (by omega), List.length_map, List.length_reverse] at hle ⊢
  omega

variable {tm tm' : Tm}

theorem Tm.Valid.length_padded (h : tm.Valid) :
    (padded 2 (tm.tm_mon + 1)).length = 2 ∧ (padded 2 tm.tm_mday).length = 2 ∧
      (padded 2 tm.tm_hour).length = 2 ∧ (padded 2 tm.tm_min).length = 2 ∧
      (padded 2 tm.tm_sec).length = 2 := by
  obtain ⟨-, hmon, ⟨-, hmday⟩, hhour, hmin, hsec⟩ := h
  refine ⟨?_, ?_, ?_, ?_, ?_⟩ <;> exact CodingDemo.length_padded (by decide) (by omega)

theorem Tm.Valid.length_afterYear (h : tm.Valid) : tm.afterYear.length = 12 := by
  obtain ⟨hmon, hmday, hhour, hmin, hsec⟩ := h.length_padded
  simp only [afterYear, List.length_append, hmon, hmday, hhour, hmin, hsec, List.length_singleton]

/-- The text after the year determines the date in the year and the time of day. -/
theorem Tm.Valid.eq_of_afterYear_eq (h : tm.Valid) (h' : tm'.Valid)
    (hyear : tm.tm_year = tm'.tm_year) (heq : tm.afterYear = tm'.afterYear) : tm = tm' := by
  obtain ⟨-, hmday, hhour, hmin, hsec⟩ := h.length_padded
  obtain ⟨-, hmday', hhour', hmin', hsec'⟩ := h'.length_padded
  obtain ⟨heq, -⟩ := List.append_inj' heq rfl
  obtain ⟨heq, hsec⟩ := List.append_inj' heq (hsec.trans hsec'.symm)
  obtain ⟨heq, hmin⟩ := List.append_inj' heq (hmin.trans hmin'.symm)
  obtain ⟨heq, hhour⟩ := List.append_inj' heq (hhour.trans hhour'.symm)
  obtain ⟨heq, -⟩ := List.append_inj' heq rfl
  obtain ⟨hmon, hmday⟩ := List.append_inj' heq (hmday.trans hmday'.symm)
  have hmon := Nat.succ_injective (padded_injective 2 hmon)
  have hmday := padded_injective 2 hmday
  have hhour := padded_injective 2 hhour
  have hmin := padded_injective 2 hmin
  have hsec := padded_injective 2 hsec
  cases tm
  cases tm'
  simp only [Tm.mk.injEq]
  exact ⟨hyear, hmon, hmday, hhour, hmin, hsec⟩

/-- The text determines the seconds. -/
theorem stamp_injective : Function.Injective stamp := by
  intro seconds seconds' heq
  have hvalid := valid_gmtime seconds
  have hvalid' := valid_gmtime seconds'
  obtain ⟨hyear, hrest⟩ :=
    List.append_inj' heq (hvalid.length_afterYear.trans hvalid'.length_afterYear.symm)
  have hyear := Nat.add_right_cancel (decimal_injective (List.append_cancel_left hyear))
  rw [← timegm_gmtime seconds, ← timegm_gmtime seconds',
    hvalid.eq_of_afterYear_eq hvalid' hyear hrest]

theorem length_decimal_year (t : UtcTime) :
    (decimal ((gmtime t.seconds).tm_year + 1900)).length = 4 := by
  have hyear := (valid_gmtime t.seconds).year
  exact length_decimal_of_lt (by omega) t.year_lt

theorem length_stamp (t : UtcTime) : (stamp t.seconds).length = 17 := by
  rw [stamp, List.length_append, List.length_append, length_decimal_year,
    (valid_gmtime t.seconds).length_afterYear]
  rfl

-- a leap day, and the last second of a year
example : gmtime 951782400 = ⟨100, 1, 29, 0, 0, 0⟩ := by decide

example : stamp 946684799 = asciiBytes ".19991231-235959." := by decide

end CodingDemo
