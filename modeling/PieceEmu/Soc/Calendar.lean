import PieceEmu.Soc.Schedules

/-!
# The calendar of the clock timer

`Calendar` is the whole of the class `ClockTimer`: its schedule, which is the `ClockTimer`
of `Schedules`, and the date and time. These are not counted but read from the clock of the
host, to which an offset is added. Stopped, the timer keeps the second it was stopped in,
and the registers that are written then are latched; set going again, it takes the offset
for which the latched values are the present.

The host's clock comes in as the local time `Tm` at which a register is accessed. Its
seconds are 64-bit integers in the code, far from their end; here they are integers. As
there, division rounds toward 0, and the bytes of a negative number are those of its
two's complement.
-/

/-- The fields of `std::tm` that are read. -/
structure Tm where
  year : ℤ
  mon : Fin 12
  mday : ℤ
  hour : ℤ
  min : ℤ
  sec : ℤ

namespace Tm

/-- `mtbl`: the days of a year before a month. -/
def mtbl : Fin 12 → ℤ := ![0, 31, 59, 90, 120, 151, 181, 212, 243, 273, 304, 334]

/-- `mtblu`: those of a leap year. -/
def mtblu : Fin 12 → ℤ := ![0, 31, 60, 91, 121, 152, 182, 213, 244, 274, 305, 335]

/-- `days_from_2000`, of a year from 2000 on; the month counts from 0. -/
def daysFrom2000 (yy : ℤ) (mon : Fin 12) (dd : ℤ) : ℤ :=
  let y := yy - 2000
  y * 365 + (y + 3) / 4 + (if y % 4 = 0 then mtblu mon else mtbl mon) + (dd - 1)

/-- `real_host_seconds_since_2000`. -/
def realHostSecondsSince2000 (tm : Tm) : ℤ :=
  let yy := tm.year + 1900
  let yy := if yy < 2000 then 2000 else yy
  let yy := if 2099 < yy then 2099 else yy
  daysFrom2000 yy tm.mon tm.mday * 86400 + tm.hour * 3600 + tm.min * 60 + tm.sec

end Tm

/-- The halfword registers of the clock timer. -/
inductive CalendarReg
  /-- 0x040150: a dummy, and `rRTCSTOP`. -/
  | stop
  /-- 0x040152: `rRTCALMC` and `rRTCSUB`. -/
  | almcSub
  /-- 0x040154: `rRTCSEC` and `rRTCMIN`. -/
  | secMin
  /-- 0x040156: `rRTCHOUR` and `rRTCDAYL`. -/
  | hourDayl
  /-- 0x040158: `rRTCDAYH` and `rRTCALMM`. -/
  | dayhAlmm
  /-- 0x04015A: `rRTCALMH` and `rRTCALMD`. -/
  | almhAlmd
  deriving DecidableEq

/-- A write to a register, of a halfword or of one of its two bytes. -/
inductive CalendarWrite
  | half (reg : CalendarReg) (v : U16)
  | byte (reg : CalendarReg) (odd : Bool) (v : U8)

/-- `ClockTimer`, with its calendar. -/
structure Calendar extends ClockTimer where
  alarmc : U8 := 0
  alarmMi : U8 := 0
  alarmHh : U8 := 0
  alarmD : U8 := 0
  setMi : U8 := 0
  setHh : U8 := 0
  setDayLo : U8 := 0
  setDayHi : U8 := 0
  /-- `offset_sec_`. -/
  offsetSec : ℤ := 0
  frozen : Bool := false
  frozenSec : ℤ := 0
  /-- `fixed_mode_`: the clock of the host is pinned to `fixed_epoch_`. -/
  fixedMode : Bool := false
  fixedEpoch : ℤ := 0

namespace Calendar

/-- The low byte of an integer, as `static_cast<uint8_t>` has it. -/
def byteOf (n : ℤ) : U8 := BitVec.ofInt 8 n

/-- A halfword of two bytes. -/
def halfword (lo hi : U8) : U16 := lo.setWidth 16 ||| hi.setWidth 16 <<< 8

/-- The low byte of a halfword. -/
def lo (v : U16) : U8 := v.setWidth 8

/-- The high byte of a halfword. -/
def hi (v : U16) : U8 := (v >>> 8).setWidth 8

variable (r : Calendar) (tm : Tm)

/-! ### The time -/

/-- `host_seconds_since_2000`. -/
def hostSecondsSince2000 : ℤ :=
  if r.fixedMode then r.fixedEpoch else tm.realHostSecondsSince2000

/-- `current_seconds_since_2000`. -/
def currentSecondsSince2000 : ℤ :=
  if r.frozen then r.frozenSec else r.hostSecondsSince2000 tm + r.offsetSec

/-- The second that is latched, `set_sec`. -/
def setSec : ℤ :=
  let day := r.setDayHi.toNat <<< 8 ||| r.setDayLo.toNat
  ↑(day * 86400 + r.setHh.toNat * 3600 + r.setMi.toNat * 60)

/-- `apply_set_to_offset`. -/
def applySetToOffset : Calendar :=
  { r with offsetSec := r.setSec - r.hostSecondsSince2000 tm, prescaler := 0, frozen := false }

/-- The second `s` is frozen, and latched. -/
def latch (s : ℤ) : Calendar :=
  let dayTotal := s.tdiv 86400
  let tod := s - dayTotal * 86400
  { r with
    setHh := byteOf (tod.tdiv 3600)
    setMi := byteOf ((tod.tmod 3600).tdiv 60)
    setDayLo := byteOf dayTotal
    setDayHi := byteOf (dayTotal >>> (8 : ℕ)) }

/-- `write_rtcstop`. -/
def writeRtcstop (written : U8) : Calendar :=
  let prev := r.rtcstop
  let r := { r with rtcstop := written }
  let r :=
    if written.getLsbD 1 then
      let r :=
        if !prev.getLsbD 1 then
          { r with frozen := true, frozenSec := r.hostSecondsSince2000 tm + r.offsetSec }
        else r
      r.latch r.frozenSec
    else r
  if written.getLsbD 0 && prev.getLsbD 1 then r.applySetToOffset tm else r

/-- `reset`: the pinned clock of the host stays. -/
def reset (clk : ClockControl) : Calendar :=
  { toClockTimer := ClockTimer.reset clk, fixedMode := r.fixedMode, fixedEpoch := r.fixedEpoch }

/-! ### The registers -/

/-- The read handlers. -/
def read : CalendarReg → U16
  | .stop => r.rtcstop.setWidth 16 <<< 8
  | .almcSub => halfword r.alarmc r.prescaler
  | .secMin =>
    let s := r.currentSecondsSince2000 tm
    let tod := s - s.tdiv 86400 * 86400
    halfword (byteOf (tod.tmod 60)) (byteOf ((tod.tdiv 60).tmod 60))
  | .hourDayl =>
    let s := r.currentSecondsSince2000 tm
    let dayTotal := s.tdiv 86400
    let tod := s - dayTotal * 86400
    halfword (byteOf (tod.tdiv 3600)) (byteOf dayTotal)
  | .dayhAlmm =>
    let s := r.currentSecondsSince2000 tm
    let dayTotal := s.tdiv 86400
    halfword (byteOf (dayTotal >>> (8 : ℕ))) r.alarmMi
  | .almhAlmd => halfword r.alarmHh r.alarmD

/-- The write handlers. `rRTCALMC` has none for bytes, so that its halfword handler gets
them, with the address. -/
def write : CalendarWrite → Calendar
  | .half .stop v => r.writeRtcstop tm (hi v)
  | .byte .stop odd v => if odd then r.writeRtcstop tm v else r
  | .half .almcSub v => { r with alarmc := lo v }
  | .byte .almcSub odd v => if odd then r else { r with alarmc := v }
  | .half .secMin v => { r with setMi := hi v }
  | .byte .secMin odd v => if odd then { r with setMi := v } else r
  | .half .hourDayl v => { r with setHh := lo v, setDayLo := hi v }
  | .byte .hourDayl odd v => if odd then { r with setDayLo := v } else { r with setHh := v }
  | .half .dayhAlmm v => { r with setDayHi := lo v, alarmMi := hi v }
  | .byte .dayhAlmm odd v => if odd then { r with alarmMi := v } else { r with setDayHi := v }
  | .half .almhAlmd v => { r with alarmHh := lo v, alarmD := hi v }
  | .byte .almhAlmd odd v => if odd then { r with alarmD := v } else { r with alarmHh := v }

/-! ### The schedule -/

/-- **The calendar runs on the schedule** of `ClockTimer`: the stop register does to it what
it does there. -/
theorem toClockTimer_writeRtcstop (written : U8) :
    (r.writeRtcstop tm written).toClockTimer = r.toClockTimer.writeRtcstop written := by
  unfold writeRtcstop ClockTimer.writeRtcstop latch applySetToOffset
  dsimp only
  split_ifs <;> simp_all

/-- The other registers have no part in it. -/
theorem toClockTimer_write (w : CalendarWrite) :
    (r.write tm w).toClockTimer = r.toClockTimer ∨
      ∃ written, (r.write tm w).toClockTimer = r.toClockTimer.writeRtcstop written := by
  cases w with
  | half reg v =>
    cases reg with
    | stop => exact .inr ⟨hi v, r.toClockTimer_writeRtcstop tm (hi v)⟩
    | _ => exact .inl rfl
  | byte reg odd v =>
    cases odd with
    | false => cases reg <;> exact .inl rfl
    | true =>
      cases reg with
      | stop => exact .inr ⟨v, r.toClockTimer_writeRtcstop tm v⟩
      | _ => exact .inl rfl

/-! ### What a write does -/

/-- The value a write brings to `rRTCSTOP`. -/
def stopValue : CalendarWrite → Option U8
  | .half .stop v => some (hi v)
  | .byte .stop true v => some v
  | _ => none

/-- What the time depends on. -/
structure KeepsTime (r r' : Calendar) : Prop where
  rtcstop : r'.rtcstop = r.rtcstop
  offsetSec : r'.offsetSec = r.offsetSec
  frozen : r'.frozen = r.frozen
  frozenSec : r'.frozenSec = r.frozenSec
  fixedMode : r'.fixedMode = r.fixedMode
  fixedEpoch : r'.fixedEpoch = r.fixedEpoch

variable {r tm}

theorem KeepsTime.trans {r' r'' : Calendar} (h : r.KeepsTime r') (h' : r'.KeepsTime r'') :
    r.KeepsTime r'' where
  rtcstop := h'.rtcstop.trans h.rtcstop
  offsetSec := h'.offsetSec.trans h.offsetSec
  frozen := h'.frozen.trans h.frozen
  frozenSec := h'.frozenSec.trans h.frozenSec
  fixedMode := h'.fixedMode.trans h.fixedMode
  fixedEpoch := h'.fixedEpoch.trans h.fixedEpoch

theorem write_of_stopValue {w : CalendarWrite} {v : U8} (h : stopValue w = some v) :
    r.write tm w = r.writeRtcstop tm v := by
  unfold stopValue at h
  split at h
  · rw [← Option.some.inj h]
    rfl
  · rw [← Option.some.inj h]
    rfl
  · exact absurd h (Option.some_ne_none v).symm

/-- The stop register keeps what is written. -/
theorem rtcstop_writeRtcstop (v : U8) : (r.writeRtcstop tm v).rtcstop = v := by
  unfold writeRtcstop latch applySetToOffset
  dsimp only
  split_ifs <;> rfl

/-- **Only `rRTCSTOP` has a part in the time** that is read; all others latch. -/
theorem keepsTime_write {w : CalendarWrite} (h : stopValue w = none) :
    r.KeepsTime (r.write tm w) := by
  have hsame : r.KeepsTime r := ⟨rfl, rfl, rfl, rfl, rfl, rfl⟩
  cases w with
  | half reg v =>
    cases reg with
    | stop => exact absurd h (Option.some_ne_none _)
    | _ => exact ⟨rfl, rfl, rfl, rfl, rfl, rfl⟩
  | byte reg odd v =>
    cases odd with
    | false =>
      cases reg with
      | stop => exact hsame
      | _ => exact ⟨rfl, rfl, rfl, rfl, rfl, rfl⟩
    | true =>
      cases reg with
      | stop => exact absurd h (Option.some_ne_none _)
      | _ => exact ⟨rfl, rfl, rfl, rfl, rfl, rfl⟩

/-! ### What is read back -/

variable (r tm)

/-- A date and time, as the registers have it. -/
structure DateTime where
  sec : U8
  min : U8
  hour : U8
  day : U16
  deriving DecidableEq

/-- The date and time that are read back. -/
def dateTime : DateTime where
  sec := lo (r.read tm .secMin)
  min := hi (r.read tm .secMin)
  hour := lo (r.read tm .hourDayl)
  day := halfword (hi (r.read tm .hourDayl)) (lo (r.read tm .dayhAlmm))

variable {r tm}

@[simp] theorem lo_halfword (a b : U8) : lo (halfword a b) = a := Words.lane_false_pair a b

@[simp] theorem hi_halfword (a b : U8) : hi (halfword a b) = b := Words.lane_true_pair a b

/-- The date and time that a second is read back as. -/
def DateTime.ofSeconds (s : ℤ) : DateTime :=
  let dayTotal := s.tdiv 86400
  let tod := s - dayTotal * 86400
  { sec := byteOf (tod.tmod 60)
    min := byteOf ((tod.tdiv 60).tmod 60)
    hour := byteOf (tod.tdiv 3600)
    day := halfword (byteOf dayTotal) (byteOf (dayTotal >>> (8 : ℕ))) }

theorem dateTime_eq : r.dateTime tm = .ofSeconds (r.currentSecondsSince2000 tm) := by
  unfold dateTime read DateTime.ofSeconds
  simp only [lo_halfword, hi_halfword]

end Calendar
