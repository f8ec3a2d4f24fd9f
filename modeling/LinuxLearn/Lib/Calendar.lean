import LinuxLearn.Lib.Text

/-!
# Calendar — broken-down times and their text

`gmtime` splits a count of seconds since 1970 into the fields of the proleptic Gregorian calendar,
and `asctime` writes them as `"Www Mmm dd hh:mm:ss yyyy\n"`.  `asctime_lt_iff` says in which order
these texts stand when they are compared byte by byte: names of weekdays and months count
alphabetically and come before the day, and the year comes last.
-/

namespace LinuxLearn
namespace Lib

/-- `struct tm`, with the full year. -/
structure Tm where
  sec : Fin 60
  min : Fin 60
  hour : Fin 24
  mday : Fin 32
  mon : Fin 12
  year : Int
  wday : Fin 7
  deriving DecidableEq, Repr

/-! ## From seconds to fields -/

/-- The date of a day, counted from 1970-01-01: year, month from 0, and day of the month.  The
computation runs in eras of 400 years, centuries and four-year cycles of years that begin in
March; the last of each may be a day longer than the others. -/
def civilFromDays (days : Int) : Int × Nat × Nat :=
  let z := days + 719468
  let dayOfEra := (z % 146097).toNat
  let century := min 3 (dayOfEra / 36524)
  let dayOfCentury := dayOfEra - century * 36524
  let cycle := dayOfCentury / 1461
  let dayOfCycle := dayOfCentury - cycle * 1461
  let year := min 3 (dayOfCycle / 365)
  let dayOfYear := dayOfCycle - year * 365
  let month := (5 * dayOfYear + 2) / 153
  let mday := dayOfYear - (153 * month + 2) / 5 + 1
  let mon := if month < 10 then month + 2 else month - 10
  let marchYear : Int := z / 146097 * 400 + century * 100 + cycle * 4 + year
  (if mon < 2 then marchYear + 1 else marchYear, mon, mday)

theorem civilFromDays_range (days : Int) :
    (civilFromDays days).2.1 < 12 ∧ (civilFromDays days).2.2 < 32 := by
  have hera : ((days + 719468) % 146097).toNat < 146097 := by omega
  simp only [civilFromDays]
  generalize ((days + 719468) % 146097).toNat = dayOfEra at hera
  have hcentury : dayOfEra - min 3 (dayOfEra / 36524) * 36524 ≤ 36524 := by omega
  generalize dayOfEra - min 3 (dayOfEra / 36524) * 36524 = dayOfCentury at hcentury
  have hcycle : dayOfCentury - dayOfCentury / 1461 * 1461 ≤ 1460 := by omega
  generalize dayOfCentury - dayOfCentury / 1461 * 1461 = dayOfCycle at hcycle
  have hyear : dayOfCycle - min 3 (dayOfCycle / 365) * 365 ≤ 365 := by omega
  generalize dayOfCycle - min 3 (dayOfCycle / 365) * 365 = dayOfYear at hyear
  refine ⟨?_, ?_⟩
  · split <;> omega
  · omega

def gmtime (t : Int) : Tm :=
  let days := t / 86400
  let s := (t % 86400).toNat
  let date := civilFromDays days
  { sec := ⟨s % 60, Nat.mod_lt _ (by decide)⟩
    min := ⟨s / 60 % 60, Nat.mod_lt _ (by decide)⟩
    hour := ⟨s / 3600 % 24, Nat.mod_lt _ (by decide)⟩
    mday := ⟨date.2.2, (civilFromDays_range days).2⟩
    mon := ⟨date.2.1, (civilFromDays_range days).1⟩
    year := date.1
    wday := ⟨((days + 4) % 7).toNat, by omega⟩ }

-- The leap day of 2000, a Tuesday.
example : gmtime 951782400 = ⟨0, 0, 0, 29, 1, 2000, 2⟩ := by decide

/-! ## The text of a time -/

def wdayName (i : Fin 7) : Text :=
  ascii (["Sun", "Mon", "Tue", "Wed", "Thu", "Fri", "Sat"].get i)

def monName (i : Fin 12) : Text :=
  ascii (["Jan", "Feb", "Mar", "Apr", "May", "Jun", "Jul", "Aug", "Sep", "Oct", "Nov", "Dec"].get i)

/-- `%.2d` of a number below 100 -/
def twoDigits (n : Nat) : Text :=
  [digit (n / 10), digit (n % 10)]

/-- `%3d` of a number below 100 -/
def threeWide (n : Nat) : Text :=
  [32, if n < 10 then 32 else digit (n / 10), digit (n % 10)]

/-- `"%.3s %.3s%3d %.2d:%.2d:%.2d %d\n"` -/
def asctime (tm : Tm) : Text :=
  wdayName tm.wday ++ 32 :: (monName tm.mon ++ (threeWide tm.mday ++ 32 :: (twoDigits tm.hour ++
    58 :: (twoDigits tm.min ++ 58 :: (twoDigits tm.sec ++ 32 :: (decimal tm.year ++ [10]))))))

-- The text of the epoch.
example : asctime (gmtime 0) = ascii "Thu Jan  1 00:00:00 1970\n" := by decide

/-! ## The order of the texts -/

/-- The place of a weekday in the alphabet. -/
def wdayRank (i : Fin 7) : Nat :=
  [3, 1, 5, 6, 4, 0, 2].get i

/-- The place of a month in the alphabet. -/
def monRank (i : Fin 12) : Nat :=
  [4, 3, 7, 0, 8, 6, 5, 1, 11, 10, 9, 2].get i

/-- The fields of `a` come before those of `b` in the order in which they are written: weekday and
month by the alphabet, then day, hour, minute and second, and the digits of the year last. -/
def Tm.WrittenBefore (a b : Tm) : Prop :=
  wdayRank a.wday < wdayRank b.wday ∨ a.wday = b.wday ∧
    (monRank a.mon < monRank b.mon ∨ a.mon = b.mon ∧
      (a.mday < b.mday ∨ a.mday = b.mday ∧
        (a.hour < b.hour ∨ a.hour = b.hour ∧
          (a.min < b.min ∨ a.min = b.min ∧
            (a.sec < b.sec ∨ a.sec = b.sec ∧ decimal a.year < decimal b.year)))))

instance (a b : Tm) : Decidable (a.WrittenBefore b) := by
  unfold Tm.WrittenBefore
  infer_instance

/-- Texts that begin with fields of one width are compared by these fields first. -/
theorem append_lt_append_iff {n : Nat} {a a' : Text} (ha : a.length = n) (ha' : a'.length = n)
    (b b' : Text) : a ++ b < a' ++ b' ↔ a < a' ∨ a = a' ∧ b < b' := by
  induction a generalizing n a' with
  | nil =>
      have hnil : a' = [] := List.eq_nil_of_length_eq_zero (ha'.trans ha.symm)
      simp [hnil]
  | cons c a ih =>
      cases a' with
      | nil => cases ha.trans ha'.symm
      | cons c' a' =>
          have hrest := ih rfl (Nat.succ.inj (ha'.trans ha.symm))
          simp only [List.cons_append, List.cons_lt_cons_iff, hrest, List.cons.injEq]
          tauto

/-- A terminator below all other bytes does not change the order. -/
theorem append_lt_append_right_iff {z : UInt8} {a b : Text} (ha : ∀ c ∈ a, z < c)
    (hb : ∀ c ∈ b, z < c) : a ++ [z] < b ++ [z] ↔ a < b := by
  induction a generalizing b with
  | nil =>
      cases b with
      | nil => simp
      | cons d b =>
          have hzd : z < d := hb d List.mem_cons_self
          simp only [List.nil_append, List.cons_append, List.cons_lt_cons_iff, hzd, true_or,
            List.nil_lt_cons]
  | cons c a ih =>
      cases b with
      | nil =>
          have hzc : z < c := ha c List.mem_cons_self
          have hcz : ¬ c < z := fun h => absurd (UInt8.lt_trans hzc h) (UInt8.lt_irrefl z)
          have hne : ¬ c = z := fun h => UInt8.lt_irrefl z (h ▸ hzc)
          simp only [List.nil_append, List.cons_append, List.cons_lt_cons_iff, hcz, hne, false_and,
            or_self, List.not_lt_nil]
      | cons d b =>
          have hrest := ih (fun e he => ha e (List.mem_cons_of_mem c he))
            fun e he => hb e (List.mem_cons_of_mem d he)
          simp only [List.cons_append, List.cons_lt_cons_iff, hrest]

/-- A field, and a separator behind it. -/
theorem field_lt_iff {n : Nat} {a a' : Text} (ha : a.length = n) (ha' : a'.length = n) (c : UInt8)
    (b b' : Text) : a ++ c :: b < a' ++ c :: b' ↔ a < a' ∨ a = a' ∧ b < b' := by
  rw [append_lt_append_iff ha ha']
  simp

theorem length_wdayName : ∀ i : Fin 7, (wdayName i).length = 3 := by
  decide

theorem length_monName : ∀ i : Fin 12, (monName i).length = 3 := by
  decide

theorem length_threeWide (n : Nat) : (threeWide n).length = 3 := rfl

theorem length_twoDigits (n : Nat) : (twoDigits n).length = 2 := rfl

theorem wdayName_lt_iff : ∀ i j : Fin 7, wdayName i < wdayName j ↔ wdayRank i < wdayRank j := by
  decide

theorem wdayName_eq_iff : ∀ i j : Fin 7, wdayName i = wdayName j ↔ i = j := by
  decide

theorem monName_lt_iff : ∀ i j : Fin 12, monName i < monName j ↔ monRank i < monRank j := by
  decide

theorem monName_eq_iff : ∀ i j : Fin 12, monName i = monName j ↔ i = j := by
  decide

theorem toNat_digit {d : Nat} (hd : d < 10) : (digit d).toNat = 48 + d := by
  interval_cases d <;> rfl

section TwoDigits

variable {n : Nat} (hn : n ≤ 100) (i j : Fin n)

theorem toNat_twoDigits {m : Nat} (hm : m < 100) :
    (digit (m / 10)).toNat = 48 + m / 10 ∧ (digit (m % 10)).toNat = 48 + m % 10 :=
  ⟨toNat_digit (by omega), toNat_digit (by omega)⟩

include hn

theorem twoDigits_lt_iff : twoDigits i < twoDigits j ↔ i < j := by
  have hi := toNat_twoDigits (m := i) (by omega)
  have hj := toNat_twoDigits (m := j) (by omega)
  simp only [twoDigits, List.cons_lt_cons_iff, UInt8.lt_iff_toNat_lt, ← UInt8.toNat_inj,
    List.lt_irrefl, and_false, or_false, hi.1, hi.2, hj.1, hj.2, Fin.lt_def]
  omega

theorem twoDigits_eq_iff : twoDigits i = twoDigits j ↔ i = j := by
  have hi := toNat_twoDigits (m := i) (by omega)
  have hj := toNat_twoDigits (m := j) (by omega)
  simp only [twoDigits, List.cons.injEq, ← UInt8.toNat_inj, and_true, hi.1, hi.2, hj.1, hj.2,
    Fin.ext_iff]
  omega

end TwoDigits

theorem threeWide_lt_iff : ∀ m n : Fin 32, threeWide m < threeWide n ↔ m < n := by
  decide

theorem threeWide_eq_iff : ∀ m n : Fin 32, threeWide m = threeWide n ↔ m = n := by
  decide

/-- The characters of a number are no control characters. -/
theorem lt_of_mem_decimal {n : Int} {c : UInt8} (hc : c ∈ decimal n) : 10 < c := by
  have hdigit : ∀ m, c ∈ decimalNat m → 10 < c := by
    intro m hm
    have hrange := isDigit_of_mem_decimalNat hm
    simp only [isDigit, decide_eq_true_eq] at hrange
    rw [UInt8.lt_iff_toNat_lt]
    exact Nat.lt_of_lt_of_le (by decide) hrange.1
  cases n with
  | ofNat m => exact hdigit m hc
  | negSucc m =>
      rcases List.mem_cons.1 hc with hminus | hm
      · rw [hminus]
        decide
      · exact hdigit (m + 1) hm

/-- The order of the texts is the one of the fields as they are written. -/
theorem asctime_lt_iff (a b : Tm) : asctime a < asctime b ↔ a.WrittenBefore b := by
  have hyear : decimal a.year ++ [10] < decimal b.year ++ [10] ↔ decimal a.year < decimal b.year :=
    append_lt_append_right_iff (fun _ => lt_of_mem_decimal) fun _ => lt_of_mem_decimal
  have hsixty : 60 ≤ 100 := by decide
  have hday : 24 ≤ 100 := by decide
  unfold asctime Tm.WrittenBefore
  -- Field by field from the left; all of them but the year have one width.
  rw [field_lt_iff (length_wdayName a.wday) (length_wdayName b.wday),
    append_lt_append_iff (length_monName a.mon) (length_monName b.mon),
    field_lt_iff (length_threeWide a.mday) (length_threeWide b.mday),
    field_lt_iff (length_twoDigits a.hour) (length_twoDigits b.hour),
    field_lt_iff (length_twoDigits a.min) (length_twoDigits b.min),
    field_lt_iff (length_twoDigits a.sec) (length_twoDigits b.sec), hyear]
  rw [wdayName_lt_iff, wdayName_eq_iff, monName_lt_iff, monName_eq_iff, threeWide_lt_iff,
    threeWide_eq_iff, twoDigits_lt_iff hday, twoDigits_eq_iff hday, twoDigits_lt_iff hsixty,
    twoDigits_eq_iff hsixty, twoDigits_lt_iff hsixty, twoDigits_eq_iff hsixty]

/-! ## The characters of the texts -/

theorem digit_ne_quote {d : Nat} (hd : d < 10) : digit d ≠ 39 := by
  interval_cases d <;> decide

theorem quote_notMem_twoDigits {n : Nat} (hn : n < 100) : 39 ∉ twoDigits n := by
  have hten := digit_ne_quote (d := n / 10) (by omega)
  have hone := digit_ne_quote (d := n % 10) (by omega)
  simp [twoDigits, hten.symm, hone.symm]

theorem quote_notMem_threeWide {n : Nat} (hn : n < 100) : 39 ∉ threeWide n := by
  have hten := digit_ne_quote (d := n / 10) (by omega)
  have hone := digit_ne_quote (d := n % 10) (by omega)
  unfold threeWide
  split <;> simp [hten.symm, hone.symm]

theorem quote_notMem_decimal (n : Int) : 39 ∉ decimal n := by
  have hdigits : ∀ m, 39 ∉ decimalNat m := by
    intro m hm
    cases isDigit_of_mem_decimalNat hm
  cases n with
  | ofNat m => exact hdigits m
  | negSucc m => simp [decimal, hdigits (m + 1)]

/-- There is no quote in the text of a time. -/
theorem quote_notMem_asctime (tm : Tm) : 39 ∉ asctime tm := by
  have hwday : ∀ i, 39 ∉ wdayName i := by decide
  have hmon : ∀ i, 39 ∉ monName i := by decide
  have hmday := quote_notMem_threeWide (n := tm.mday) (by omega)
  have hhour := quote_notMem_twoDigits (n := tm.hour) (by omega)
  have hmin := quote_notMem_twoDigits (n := tm.min) (by omega)
  have hsec := quote_notMem_twoDigits (n := tm.sec) (by omega)
  have hyear := quote_notMem_decimal tm.year
  simp [asctime, hwday, hmon, hmday, hhour, hmin, hsec, hyear]

end Lib
end LinuxLearn
