import PieceEmu.Lib.Decimal
import PieceEmu.Soc.CalendarFreeze
import PieceEmu.Soc.CalendarSetting

/-!
# A pinned date

A regression run has its date from the command line, so that it can be repeated: a text such
as `2024-06-15T10:00:00` is read with `sscanf`, turned into a number of seconds, and given to
the clock timer as the clock of the host. The program in the emulator reads a number of days
and the time of the day from the registers, and finds the date by the loops of `days_to_ymd`.

| step | what is settled | theorem |
|---|---|---|
| the days | the two conversions count the days of the calendar, 2000 to 2099 | `calendar_counts` |
| the seconds | the clock of the host goes second by second | `realHostSecondsSince2000_later` |
| the text | six numbers, in whatever digits | `scanIso_isoText` |
| the registers | the date of the text is there, unless the timer is stopped | `date_shown` |

The calendar is stated apart from the code, as the date after a date (`CivilDate.next`).
-/

open CText

/-! ### The calendar -/

/-- A date. -/
structure CivilDate where
  year : ℕ
  month : ℕ
  day : ℕ
  deriving DecidableEq

namespace CivilDate

/-- The leap years of the Gregorian calendar. -/
def isLeap (y : ℕ) : Bool := y % 4 = 0 && (y % 100 ≠ 0 || y % 400 = 0)

/-- The days of a month. -/
def monthLength (leap : Bool) (m : ℕ) : ℕ :=
  if m = 2 then if leap then 29 else 28
  else if m = 4 ∨ m = 6 ∨ m = 9 ∨ m = 11 then 30
  else 31

/-- The date after a date. -/
def next (d : CivilDate) : CivilDate :=
  if d.day < monthLength (isLeap d.year) d.month then { d with day := d.day + 1 }
  else if d.month < 12 then ⟨d.year, d.month + 1, 1⟩
  else ⟨d.year + 1, 1, 1⟩

/-- A date from 2000 on. -/
structure Valid (d : CivilDate) : Prop where
  year : 2000 ≤ d.year
  month : 1 ≤ d.month ∧ d.month ≤ 12
  day : 1 ≤ d.day ∧ d.day ≤ monthLength (isLeap d.year) d.month

theorem one_le_monthLength (leap : Bool) (m : ℕ) : 1 ≤ monthLength leap m := by
  unfold monthLength
  split_ifs <;> omega

theorem Valid.next {d : CivilDate} (h : d.Valid) : d.next.Valid := by
  obtain ⟨hy, hm, hd⟩ := h
  unfold CivilDate.next
  split_ifs with hday hmonth
  · exact ⟨hy, hm, by dsimp only; omega⟩
  · exact ⟨hy, by dsimp only; omega, le_rfl, one_le_monthLength _ _⟩
  · exact ⟨by dsimp only; omega, by dsimp only; omega, le_rfl, one_le_monthLength _ _⟩

end CivilDate

/-! ### The days since 2000 -/

/-- `days_from_2000_local`, the copy in the front end. -/
def daysFrom2000Local (yy mm dd : ℤ) : ℤ :=
  Tm.daysFrom2000 yy (Fin.ofNat 12 (mm - 1).toNat) dd

/-- `ytbl`, at `(y - 2000) & 3`. -/
def ytbl (y : ℤ) : ℤ := if (y - 2000) % 4 = 0 then 366 else 365

/-- The loop of `days_to_ymd` over the `k` years to 2100: the year, and the days left. -/
def yearLoop : ℕ → ℤ → ℤ × ℤ
  | 0, n => (2100, n)
  | k + 1, n =>
    let y : ℤ := 2100 - (k + 1)
    if n < ytbl y then (y, n) else yearLoop k (n - ytbl y)

/-- The table of the months of a year. -/
def monthTable (leap : Bool) : Fin 12 → ℤ := if leap then Tm.mtblu else Tm.mtbl

/-- The loop over the months: the index of the month that day `n` is in. -/
def monthLoop (leap : Bool) (n : ℤ) : Fin 12 :=
  ((List.finRange 11).find? fun i => n < monthTable leap i.succ).elim 11 Fin.castSucc

/-- `days_to_ymd`. -/
def daysToYmd (days : ℤ) : ℤ × ℤ × ℤ :=
  let (y, n) := yearLoop 100 days
  let leap : Bool := (y - 2000) % 4 = 0
  let m := monthLoop leap n
  (y, m.val + 1, n - monthTable leap m + 1)

/-- The days before a year. -/
def daysBefore (y : ℤ) : ℤ := (y - 2000) * 365 + (y - 2000 + 3) / 4

/-- **The year is found**, from any year the loop may be at. -/
theorem yearLoop_eq {y r : ℤ} (hr : 0 ≤ r) (hlt : r < ytbl y) (hy : y < 2100) (k : ℕ)
    (hk : 2100 - (k : ℤ) ≤ y) :
    yearLoop k (daysBefore y - daysBefore (2100 - k) + r) = (y, r) := by
  induction k with
  | zero => omega
  | succ k ih =>
    have hcast : ((k + 1 : ℕ) : ℤ) = (k : ℤ) + 1 := rfl
    unfold yearLoop
    rw [hcast] at hk ⊢
    dsimp only
    by_cases heq : y = 2100 - (k + 1)
    · rw [← heq, sub_self, zero_add, if_pos hlt]
    · have hnext : daysBefore (2100 - k) = daysBefore (2100 - (k + 1)) + ytbl (2100 - (k + 1)) := by
        unfold daysBefore ytbl
        split_ifs <;> omega
      have hmono : daysBefore (2100 - k) ≤ daysBefore y := by
        unfold daysBefore
        omega
      rw [if_neg (by omega)]
      refine (congrArg (yearLoop k) ?_).trans (ih (by omega))
      omega

/-- **The month is found.** -/
theorem monthLoop_eq (leap : Bool) (m : Fin 12) (d : Fin 31)
    (h : d.val < CivilDate.monthLength leap (m.val + 1)) :
    monthLoop leap (monthTable leap m + d.val) = m := by
  revert leap m d
  decide +kernel

/-- A year does not end before its last month. -/
theorem monthTable_add_lt (leap : Bool) (m : Fin 12) :
    0 ≤ monthTable leap m ∧
      monthTable leap m + CivilDate.monthLength leap (m.val + 1) ≤ if leap then 366 else 365 := by
  revert leap m
  decide +kernel

/-- The next month starts where a month ends. -/
theorem monthTable_succ (leap : Bool) (m : Fin 11) :
    monthTable leap m.succ =
      monthTable leap m.castSucc + CivilDate.monthLength leap (m.val + 1) := by
  revert leap m
  decide +kernel

namespace CivilDate

/-- The index of the month of a date. -/
def monthIndex (d : CivilDate) : Fin 12 := Fin.ofNat 12 (d.month - 1)

/-- `days_from_2000`, of a date. -/
def days (d : CivilDate) : ℤ := Tm.daysFrom2000 d.year d.monthIndex d.day

variable {d : CivilDate}

theorem Valid.monthIndex_add_one (h : d.Valid) : d.monthIndex.val + 1 = d.month := by
  have := h.month
  show (d.month - 1) % 12 + 1 = d.month
  omega

theorem Valid.day_le (h : d.Valid) : d.day ≤ 31 := by
  have hday := h.day.2
  unfold monthLength at hday
  split_ifs at hday <;> omega

/-- In these years every fourth is a leap year. -/
theorem isLeap_eq {y : ℕ} (hlow : 2000 ≤ y) (hhigh : y < 2100) :
    isLeap y = decide (((y : ℤ) - 2000) % 4 = 0) := by
  unfold isLeap
  rw [Bool.eq_iff_iff]
  simp only [Bool.and_eq_true, Bool.or_eq_true, decide_eq_true_iff]
  omega

/-- The days before the year, the month and the day. -/
theorem Valid.days_eq (h : d.Valid) (hy : d.year < 2100) :
    d.days = daysBefore d.year + (monthTable (isLeap d.year) d.monthIndex + (d.day - 1)) := by
  rw [isLeap_eq h.year hy]
  unfold days Tm.daysFrom2000 daysBefore monthTable
  dsimp only
  simp only [decide_eq_true_eq]
  split_ifs <;> omega

/-- The day of the year. -/
theorem Valid.day_of_year (h : d.Valid) :
    0 ≤ monthTable (isLeap d.year) d.monthIndex + ((d.day : ℤ) - 1) ∧
      monthTable (isLeap d.year) d.monthIndex + ((d.day : ℤ) - 1) <
        if isLeap d.year then 366 else 365 := by
  obtain ⟨hlow, hhigh⟩ := monthTable_add_lt (isLeap d.year) d.monthIndex
  have hday := h.day
  rw [h.monthIndex_add_one] at hhigh
  constructor
  · omega
  · omega

/-- The days since the start of 2000 fit in the counter of the days. -/
theorem Valid.exists_days (h : d.Valid) (hy : d.year < 2100) :
    ∃ n : ℕ, d.days = n ∧ n < 2 ^ 16 := by
  obtain ⟨hlow, hhigh⟩ := h.day_of_year
  have hyear := h.year
  have hdays := h.days_eq hy
  have hle : (if isLeap d.year then (366 : ℤ) else 365) ≤ 366 := by
    split_ifs <;> omega
  unfold daysBefore at hdays
  refine ⟨d.days.toNat, (Int.toNat_of_nonneg ?_).symm, ?_⟩
  · omega
  · omega

/-- **The date is read back from its days.** -/
theorem Valid.daysToYmd_days (h : d.Valid) (hy : d.year < 2100) :
    daysToYmd d.days = (↑d.year, ↑d.month, ↑d.day) := by
  have hleap := isLeap_eq h.year hy
  obtain ⟨hlow, hhigh⟩ := h.day_of_year
  have hyear : yearLoop 100 d.days =
      (↑d.year, monthTable (isLeap d.year) d.monthIndex + ((d.day : ℤ) - 1)) := by
    have hstart : daysBefore (2100 - (100 : ℕ)) = 0 := by decide
    have hlt : monthTable (isLeap d.year) d.monthIndex + ((d.day : ℤ) - 1) < ytbl d.year := by
      rw [hleap] at hhigh
      simpa [hleap, ytbl] using hhigh
    have := h.year
    rw [← yearLoop_eq hlow hlt (by omega) 100 (by omega), hstart, sub_zero, h.days_eq hy]
  have hday : ((d.day - 1 : ℕ) : ℤ) = (d.day : ℤ) - 1 := by
    have := h.day.1
    omega
  have hmonth : monthLoop (isLeap d.year)
      (monthTable (isLeap d.year) d.monthIndex + ((d.day : ℤ) - 1)) = d.monthIndex := by
    have hlen := h.day
    have := h.day_le
    rw [← hday]
    refine monthLoop_eq (isLeap d.year) d.monthIndex ⟨d.day - 1, by omega⟩ ?_
    rw [h.monthIndex_add_one]
    dsimp only
    omega
  have hindex : ((d.monthIndex.val : ℤ) + 1) = d.month := by
    have := h.monthIndex_add_one
    omega
  unfold daysToYmd
  rw [hyear]
  dsimp only
  rw [← hleap, hmonth, hindex]
  congr 2
  omega

/-- The first of a month starts where the month before ends. -/
theorem Valid.monthTable_first (h : d.Valid) (hdec : d.month < 12) (leap : Bool) :
    monthTable leap (monthIndex ⟨d.year, d.month + 1, 1⟩) =
      monthTable leap d.monthIndex + monthLength leap d.month := by
  have hmonth := h.month
  have hsucc := monthTable_succ leap ⟨d.month - 1, by omega⟩
  have hthis : (⟨d.month - 1, by omega⟩ : Fin 11).castSucc = d.monthIndex := by
    apply Fin.ext
    show d.month - 1 = (d.month - 1) % 12
    omega
  have hthat : (⟨d.month - 1, by omega⟩ : Fin 11).succ =
      monthIndex ⟨d.year, d.month + 1, 1⟩ := by
    apply Fin.ext
    show d.month - 1 + 1 = (d.month + 1 - 1) % 12
    omega
  rwa [hthis, hthat, Nat.sub_add_cancel hmonth.1] at hsucc

/-- The last day of a year. -/
theorem Valid.last_day (h : d.Valid) (hlast : ¬d.day < monthLength (isLeap d.year) d.month)
    (hdec : ¬d.month < 12) : d.month = 12 ∧ d.day = 31 := by
  have hmonth := h.month
  have hday := h.day
  have hdecember : d.month = 12 := by omega
  have hlen : monthLength (isLeap d.year) 12 = 31 := rfl
  rw [hdecember] at hday hlast
  exact ⟨hdecember, by omega⟩

/-- The days to the last day of a year, and to the first day of the next. -/
theorem Valid.daysBefore_succ (h : d.Valid) (hy : d.year < 2100) :
    daysBefore ↑(d.year + 1) = daysBefore d.year + monthTable (isLeap d.year) 11 + 31 := by
  have hlow := h.year
  have hdec : monthTable (isLeap d.year) 11 = if isLeap d.year then 335 else 334 := by
    cases isLeap d.year <;> rfl
  rw [hdec, isLeap_eq hlow hy]
  unfold daysBefore
  simp only [decide_eq_true_eq]
  split_ifs <;> omega

/-- **The next date is one day later.** -/
theorem Valid.days_next (h : d.Valid) (hy : d.next.year < 2100) : d.next.days = d.days + 1 := by
  have hnext := h.next.days_eq hy
  have hyear : d.year < 2100 := by
    refine Nat.lt_of_le_of_lt ?_ hy
    unfold CivilDate.next
    split_ifs <;> simp
  rw [hnext, h.days_eq hyear]
  have hday := h.day
  unfold CivilDate.next at hy ⊢
  split_ifs at hy ⊢ with hlast hdec
  · simp only [monthIndex]
    omega
  · dsimp only
    rw [h.monthTable_first hdec]
    omega
  · obtain ⟨hm, hd⟩ := h.last_day hlast hdec
    have hindex : d.monthIndex = 11 := by
      unfold monthIndex
      rw [hm]
      rfl
    have hjanuary (leap : Bool) : monthTable leap (monthIndex ⟨d.year + 1, 1, 1⟩) = 0 := by
      cases leap <;> rfl
    dsimp only
    rw [hjanuary, hindex, hd, h.daysBefore_succ hyear]
    omega

/-- The dates after 2099 are too late. -/
theorem Valid.days_of_last (h : d.Valid) (hy : d.year < 2100) (hnext : 2100 ≤ d.next.year) :
    d.days = 36524 := by
  unfold CivilDate.next at hnext
  split_ifs at hnext with hlast hdec
  · exact absurd hy (Nat.not_lt.mpr hnext)
  · exact absurd hy (Nat.not_lt.mpr hnext)
  · obtain ⟨hm, hd⟩ := h.last_day hlast hdec
    have hyear : d.year = 2099 := Nat.le_antisymm (Nat.lt_succ_iff.mp hy)
      (Nat.le_of_succ_le_succ hnext)
    unfold days monthIndex
    rw [hm, hd, hyear]
    decide

/-- **`days_from_2000` and `days_to_ymd` count the days of the calendar**: for every day of
the hundred years from 2000 on, the date that many days after 2000-01-01 is the one that
`days_from_2000` gives this number, and the one that `days_to_ymd` makes of it. -/
theorem calendar_counts (n : ℕ) (hn : n < 36525) :
    let d := CivilDate.next^[n] ⟨2000, 1, 1⟩
    d.Valid ∧ d.year < 2100 ∧ d.days = n ∧ daysToYmd n = (↑d.year, ↑d.month, ↑d.day) := by
  intro d
  suffices h : d.Valid ∧ d.year < 2100 ∧ d.days = n by
    obtain ⟨hvalid, hyear, hdays⟩ := h
    refine ⟨hvalid, hyear, hdays, ?_⟩
    rw [← hdays]
    exact hvalid.daysToYmd_days hyear
  induction n with
  | zero => exact ⟨⟨by decide, by decide, by decide⟩, by decide, by decide⟩
  | succ n ih =>
    obtain ⟨hvalid, hyear, hdays⟩ := ih (by omega)
    have hd : d = (CivilDate.next^[n] ⟨2000, 1, 1⟩).next := Function.iterate_succ_apply' ..
    have hnext : d.year < 2100 := by
      by_contra hlate
      rw [hd] at hlate
      have := hvalid.days_of_last hyear (Nat.not_lt.mp hlate)
      omega
    rw [hd] at hnext ⊢
    refine ⟨hvalid.next, hnext, ?_⟩
    rw [hvalid.days_next hnext, hdays]
    rfl

/-- The first leap day. -/
theorem calendar_counts_59 :
    (59 : ℕ) < 36525 ∧
      let d := CivilDate.next^[59] ⟨2000, 1, 1⟩
      d.Valid ∧ d.year < 2100 ∧ d.days = (59 : ℕ) ∧
        daysToYmd (59 : ℕ) = (↑d.year, ↑d.month, ↑d.day) :=
  ⟨by decide, calendar_counts 59 (by decide)⟩

end CivilDate

/-! ### The seconds of the host -/

/-- A local time: a date and a second of the day. -/
structure LocalTime where
  date : CivilDate
  second : ℕ

namespace LocalTime

variable (t : LocalTime)

/-- A time of the years 2000 to 2099. -/
structure InRange : Prop where
  valid : t.date.Valid
  year : t.date.year < 2100
  second : t.second < 86400

/-- `localtime_r`. -/
def tm : Tm where
  year := t.date.year - 1900
  mon := t.date.monthIndex
  mday := t.date.day
  hour := (t.second / 3600 : ℕ)
  min := (t.second % 3600 / 60 : ℕ)
  sec := (t.second % 60 : ℕ)

/-- A second later, where the clock is not changed. -/
def next : LocalTime :=
  if t.second + 1 < 86400 then { t with second := t.second + 1 } else ⟨t.date.next, 0⟩

variable {t}

/-- The days and the second of the day: no year is clamped. -/
theorem InRange.realHostSecondsSince2000_eq (h : t.InRange) :
    t.tm.realHostSecondsSince2000 = t.date.days * 86400 + t.second := by
  have hlow := h.valid.year
  have hhigh := h.year
  have hyear : t.tm.year + 1900 = t.date.year := by
    change (t.date.year : ℤ) - 1900 + 1900 = t.date.year
    omega
  have hdays : Tm.daysFrom2000 t.date.year t.tm.mon t.tm.mday = t.date.days := rfl
  unfold Tm.realHostSecondsSince2000
  dsimp only
  rw [hyear, if_neg (by omega), if_neg (by omega), hdays]
  change t.date.days * 86400 + (t.second / 3600 : ℕ) * 3600 + (t.second % 3600 / 60 : ℕ) * 60 +
    (t.second % 60 : ℕ) = _
  omega

/-- **The clock of the host goes second by second**: a second later it is one further, through
the years 2000 to 2099 and as long as nobody changes it. -/
theorem realHostSecondsSince2000_next (h : t.InRange) (hnext : t.next.date.year < 2100) :
    t.next.InRange ∧
      t.next.tm.realHostSecondsSince2000 = t.tm.realHostSecondsSince2000 + 1 := by
  have hrange : t.next.InRange := by
    unfold next at hnext ⊢
    split_ifs at hnext ⊢ with hsecond
    · exact ⟨h.valid, h.year, hsecond⟩
    · exact ⟨h.valid.next, hnext, (by decide : 0 < 86400)⟩
  refine ⟨hrange, ?_⟩
  rw [hrange.realHostSecondsSince2000_eq, h.realHostSecondsSince2000_eq]
  have hlast := h.second
  unfold next at hnext ⊢
  split_ifs at hnext ⊢ with hsecond
  · push_cast
    omega
  · rw [h.valid.days_next hnext]
    push_cast
    omega

/-- So it does over any number of seconds. -/
theorem realHostSecondsSince2000_later (h : t.InRange) (n : ℕ)
    (hyear : ∀ k ≤ n, (next^[k] t).date.year < 2100) :
    (next^[n] t).InRange ∧
      (next^[n] t).tm.realHostSecondsSince2000 = t.tm.realHostSecondsSince2000 + n := by
  induction n with
  | zero => exact ⟨h, (add_zero _).symm⟩
  | succ n ih =>
    obtain ⟨hrange, hseconds⟩ := ih fun k hk => hyear k (Nat.le_succ_of_le hk)
    have hlast := hyear (n + 1) le_rfl
    rw [Function.iterate_succ_apply'] at hlast ⊢
    obtain ⟨hrange', hnext⟩ := realHostSecondsSince2000_next hrange hlast
    refine ⟨hrange', ?_⟩
    rw [hnext, hseconds]
    push_cast
    omega

end LocalTime

/-! ### The text -/

/-- The six numbers of a date and time. -/
structure IsoFields where
  year : ℤ
  month : ℤ
  day : ℤ
  hour : ℤ
  min : ℤ
  sec : ℤ

/-- `sscanf` with `%d-%d-%dT%d:%d:%d`, if it converts all six. -/
def scanIso (s : List U8) : Option IsoFields := do
  let (year, s) ← scanDec s
  let s ← scanChar '-' s
  let (month, s) ← scanDec s
  let s ← scanChar '-' s
  let (day, s) ← scanDec s
  let s ← scanChar 'T' s
  let (hour, s) ← scanDec s
  let s ← scanChar ':' s
  let (min, s) ← scanDec s
  let s ← scanChar ':' s
  let (sec, _) ← scanDec s
  return ⟨year, month, day, hour, min, sec⟩

/-- `parse_iso8601_to_sec2000`. -/
def parseIso8601ToSec2000 (s : List U8) : Except (List U8) ℤ :=
  match scanIso s with
  | none => .error (str "invalid --rtc-fixed: " ++ s)
  | some t =>
    if t.year < 2000 ∨ 2099 < t.year ∨ t.month < 1 ∨ 12 < t.month ∨ t.day < 1 ∨ 31 < t.day then
      .error (str "--rtc-fixed out of range: " ++ s)
    else
      .ok (daysFrom2000Local t.year t.month t.day * 86400 + t.hour * 3600 + t.min * 60 + t.sec)

/-- The text of six numbers. -/
def isoText (year month day hour min sec : List U8) : List U8 :=
  year ++ ch '-' :: (month ++ ch '-' :: (day ++ ch 'T' ::
    (hour ++ ch ':' :: (min ++ ch ':' :: sec))))

/-- **The six numbers are read**, with or without zeroes in front. -/
theorem scanIso_isoText {tY tM tD th tm ts : List U8} {y m d hour min sec : ℕ}
    (hY : DigitsOf tY y) (hM : DigitsOf tM m) (hD : DigitsOf tD d) (hh : DigitsOf th hour)
    (hm : DigitsOf tm min) (hs : DigitsOf ts sec)
    (hint : ∀ n ∈ [y, m, d, hour, min, sec], n < 2 ^ 31) :
    scanIso (isoText tY tM tD th tm ts) = some ⟨y, m, d, hour, min, sec⟩ := by
  have hdash : isDigit (ch '-') = false := by decide
  have hT : isDigit (ch 'T') = false := by decide
  have hcolon : isDigit (ch ':') = false := by decide
  simp only [List.mem_cons, List.not_mem_nil, or_false, forall_eq_or_imp, forall_eq] at hint
  obtain ⟨hy, hmo, hd, hho, hmi, hse⟩ := hint
  have hend : scanDec ts = some (↑sec, []) := by
    have := scanDec_append hs hse [] rfl
    rwa [List.append_nil] at this
  unfold scanIso isoText
  simp only [scanDec_cons hY hy hdash, scanDec_cons hM hmo hdash, scanDec_cons hD hd hT,
    scanDec_cons hh hho hcolon, scanDec_cons hm hmi hcolon, scanChar_cons, hend,
    Option.bind_eq_bind, Option.bind_some, Option.pure_def]

/-- **The text of a date is accepted**, for the seconds from 2000 on. -/
theorem parseIso8601ToSec2000_isoText {d : CivilDate} (hd : d.Valid) (hy : d.year < 2100)
    {n hour min sec : ℕ} (hn : d.days = n) {tY tM tD th tm ts : List U8}
    (hY : DigitsOf tY d.year) (hM : DigitsOf tM d.month) (hD : DigitsOf tD d.day)
    (hh : DigitsOf th hour) (hm : DigitsOf tm min) (hs : DigitsOf ts sec)
    (hhour : hour < 24) (hmin : min < 60) (hsec : sec < 60) :
    parseIso8601ToSec2000 (isoText tY tM tD th tm ts) =
      .ok ↑(n * 86400 + hour * 3600 + min * 60 + sec) := by
  have hyear := hd.year
  have hmonth := hd.month
  have hday := hd.day
  have hday_le := hd.day_le
  have hlocal : daysFrom2000Local d.year d.month d.day = n := by
    rw [← hn]
    unfold daysFrom2000Local CivilDate.days CivilDate.monthIndex
    congr 2
    omega
  unfold parseIso8601ToSec2000
  have hint : ∀ k ∈ [d.year, d.month, d.day, hour, min, sec], k < 2 ^ 31 := by
    simp only [List.mem_cons, List.not_mem_nil, or_false, forall_eq_or_imp, forall_eq]
    exact ⟨by omega, by omega, by omega, by omega, by omega, by omega⟩
  rw [scanIso_isoText hY hM hD hh hm hs hint]
  dsimp only
  rw [if_neg (by omega), hlocal]
  refine congrArg Except.ok ?_
  omega

/-! ### The registers -/

namespace Calendar

/-- `set_fixed_epoch`. -/
def setFixedEpoch (r : Calendar) (sec : ℤ) : Calendar :=
  { r with fixedMode := true, fixedEpoch := sec }

/-- A reset, or a write that does not stop the timer. -/
def KeepsRunning : Event → Prop
  | .write _ w => ∀ v, stopValue w = some v → v.getLsbD 1 = false
  | .reset _ => True

/-- A timer that runs on a pinned clock. -/
structure Pinned (sec : ℤ) (r : Calendar) : Prop where
  fixedMode : r.fixedMode = true
  fixedEpoch : r.fixedEpoch = sec
  frozen : r.frozen = false
  offsetSec : r.offsetSec = 0
  running : r.rtcstop.getLsbD 1 = false

variable {sec : ℤ} {r : Calendar}

/-- **A timer that is not stopped stays pinned.** -/
theorem Pinned.next (h : Pinned sec r) {e : Event} (he : KeepsRunning e) :
    Pinned sec (r.next e) := by
  cases e with
  | reset clk =>
    have hrunning : (0x01 : U8).getLsbD 1 = false := by decide
    exact ⟨h.fixedMode, h.fixedEpoch, rfl, rfl, hrunning⟩
  | write tm w =>
    unfold Calendar.next
    dsimp only
    cases hv : stopValue w with
    | none =>
      have hkept : r.KeepsTime (r.write tm w) := keepsTime_write hv
      exact ⟨hkept.fixedMode.trans h.fixedMode, hkept.fixedEpoch.trans h.fixedEpoch,
        hkept.frozen.trans h.frozen, hkept.offsetSec.trans h.offsetSec,
        (congrArg (BitVec.getLsbD · 1) hkept.rtcstop).trans h.running⟩
    | some v =>
      have hgo : v.getLsbD 1 = false := he v hv
      rw [write_of_stopValue hv]
      have hwrite : r.writeRtcstop tm v = { r with rtcstop := v } := by
        unfold writeRtcstop
        dsimp only
        rw [hgo, h.running, Bool.and_false, if_neg (by decide), if_neg (by decide)]
      rw [hwrite]
      exact ⟨h.fixedMode, h.fixedEpoch, h.frozen, h.offsetSec, hgo⟩

theorem Pinned.run (h : Pinned sec r) {events : List Event}
    (hevents : ∀ e ∈ events, KeepsRunning e) :
    Pinned sec (ActionRun.exec Calendar.next r events) :=
  ActionRun.exec_invariant (C := fun _ e => KeepsRunning e)
    (fun (_ : Calendar) (_ : Event) hp he => hp.next he) h (ActionRun.along_of_mem hevents _)

theorem pinned_setFixedEpoch (sec : ℤ) : Pinned sec (setFixedEpoch {} sec) :=
  have hrunning : (0x01 : U8).getLsbD 1 = false := by decide
  ⟨rfl, rfl, rfl, rfl, hrunning⟩

/-- What a pinned timer shows. -/
theorem Pinned.dateTime {n : ℕ} (h : Pinned n r) (tm : Tm) : r.dateTime tm = .after n := by
  rw [dateTime_eq, ← DateTime.ofSeconds_natCast]
  unfold currentSecondsSince2000 hostSecondsSince2000
  rw [h.frozen, h.fixedMode, h.fixedEpoch, h.offsetSec, if_neg (by decide), if_pos rfl, add_zero]

theorem DateTime.toNat_after (n : ℕ) :
    (after n).sec.toNat = n % 60 ∧ (after n).min.toNat = n / 60 % 60 ∧
      (after n).hour.toNat = n / 3600 % 24 ∧ (after n).day.toNat = n / 86400 % 2 ^ 16 := by
  unfold after
  simp only [BitVec.toNat_ofNat]
  refine ⟨?_, ?_, ?_, trivial⟩
  · exact Nat.mod_eq_of_lt (by omega)
  · exact Nat.mod_eq_of_lt (by omega)
  · exact Nat.mod_eq_of_lt (by omega)

/-- The fields are those of the number of seconds. -/
theorem DateTime.toNat_after_sum {n hour min sec : ℕ} (hn : n < 2 ^ 16) (hhour : hour < 24)
    (hmin : min < 60) (hsec : sec < 60) :
    let shown := after (n * 86400 + hour * 3600 + min * 60 + sec)
    shown.sec.toNat = sec ∧ shown.min.toNat = min ∧ shown.hour.toNat = hour ∧
      shown.day.toNat = n := by
  obtain ⟨hs, hm, hh, hd⟩ := toNat_after (n * 86400 + hour * 3600 + min * 60 + sec)
  dsimp only
  rw [hs, hm, hh, hd]
  exact ⟨by omega, by omega, by omega, by omega⟩

/-- **A pinned date is the date that is shown.** For every date of the hundred years from 2000
on, every time of the day, and every text of the six numbers: the text is accepted, and at
whatever time of the host a program reads the registers of a timer with that clock, after
any writes that do not stop the timer and any resets, it finds the second, the minute and
the hour of the text, and days of which `days_to_ymd` makes the date of the text. -/
theorem date_shown (d : CivilDate) (hvalid : d.Valid) (hyear : d.year < 2100)
    (hour min second : ℕ) (hhour : hour < 24) (hmin : min < 60) (hsecond : second < 60)
    {tY tM tD th tm ts : List U8} (hY : DigitsOf tY d.year) (hM : DigitsOf tM d.month)
    (hD : DigitsOf tD d.day) (hh : DigitsOf th hour) (hm : DigitsOf tm min)
    (hs : DigitsOf ts second) :
    ∃ epoch, parseIso8601ToSec2000 (isoText tY tM tD th tm ts) = .ok epoch ∧
      ∀ events : List Event, (∀ e ∈ events, KeepsRunning e) → ∀ host : Tm,
        let shown := (ActionRun.exec Calendar.next (setFixedEpoch {} epoch) events).dateTime host
        shown.sec.toNat = second ∧ shown.min.toNat = min ∧ shown.hour.toNat = hour ∧
          daysToYmd shown.day.toNat = (↑d.year, ↑d.month, ↑d.day) := by
  obtain ⟨n, hn, hbound⟩ := hvalid.exists_days hyear
  refine ⟨_, parseIso8601ToSec2000_isoText hvalid hyear hn hY hM hD hh hm hs hhour hmin
    hsecond, ?_⟩
  intro events hevents host
  have hrun := (pinned_setFixedEpoch
    ((n * 86400 + hour * 3600 + min * 60 + second : ℕ) : ℤ)).run hevents
  have hdate := hvalid.daysToYmd_days hyear
  rw [hn] at hdate
  obtain ⟨hs', hm', hh', hd'⟩ := DateTime.toNat_after_sum hbound hhour hmin hsecond
  dsimp only
  rw [hrun.dateTime, hs', hm', hh', hd']
  exact ⟨rfl, rfl, rfl, hdate⟩

/-- A date with a zero in front of the month. -/
theorem date_shown_june :
    ∃ epoch, parseIso8601ToSec2000 (isoText (str "2024") (str "06") (str "15") (str "10")
        (str "00") (str "00")) = .ok epoch ∧
      ∀ events : List Event, (∀ e ∈ events, KeepsRunning e) → ∀ host : Tm,
        let shown := (ActionRun.exec Calendar.next (setFixedEpoch {} epoch) events).dateTime host
        shown.sec.toNat = 0 ∧ shown.min.toNat = 0 ∧ shown.hour.toNat = 10 ∧
          daysToYmd shown.day.toNat = (↑(2024 : ℕ), ↑(6 : ℕ), ↑(15 : ℕ)) :=
  date_shown ⟨2024, 6, 15⟩ ⟨by decide, by decide, by decide⟩ (by decide) 10 0 0 (by decide)
    (by decide) (by decide) ⟨by decide, by decide, by decide⟩ ⟨by decide, by decide, by decide⟩
    ⟨by decide, by decide, by decide⟩ ⟨by decide, by decide, by decide⟩
    ⟨by decide, by decide, by decide⟩ ⟨by decide, by decide, by decide⟩

end Calendar
