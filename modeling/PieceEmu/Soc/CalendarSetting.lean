import PieceEmu.Lib.Run
import PieceEmu.Soc.Calendar

/-!
# Setting the clock timer

The kernel sets the date by stopping the timer, writing the minute, the hour and the two
bytes of the day, and starting it again. Each write latches its bytes and nothing else, so
that it does not matter in which order they come, or whether they come as bytes or as
halfwords: what counts is the last value of each (`CalendarWrite.latched`). The start takes
the offset for which the latched second is the present one, and from then on the registers
go with the clock of the host (`Calendar.dateTime_set`).
-/

namespace Calendar

/-! ### The calendar of a second -/

namespace DateTime

/-- The date and time a number of seconds after the beginning of day 0. -/
def after (n : ℕ) : DateTime where
  sec := BitVec.ofNat 8 (n % 60)
  min := BitVec.ofNat 8 (n / 60 % 60)
  hour := BitVec.ofNat 8 (n / 3600 % 24)
  day := BitVec.ofNat 16 (n / 86400)

theorem halfword_ofNat (n : ℕ) :
    halfword (BitVec.ofNat 8 n) (BitVec.ofNat 8 (n >>> 8)) = BitVec.ofNat 16 n := by
  apply BitVec.eq_of_getLsbD_eq
  intro i hi'
  unfold halfword
  simp only [BitVec.getLsbD_or, BitVec.getLsbD_setWidth, BitVec.getLsbD_shiftLeft,
    BitVec.getLsbD_ofNat, Nat.testBit_shiftRight, hi', decide_true, Bool.true_and]
  rcases Nat.lt_or_ge i 8 with h | h
  · simp [h]
  · simp [Nat.not_lt.mpr h, Nat.add_sub_cancel' h, show i - 8 < 8 by omega,
      show i - 8 < 16 by omega]

theorem byteOf_natCast (n : ℕ) : byteOf n = BitVec.ofNat 8 n := BitVec.ofInt_natCast ..

/-- **The decomposition of a second** that is not negative is its calendar. -/
theorem ofSeconds_natCast (n : ℕ) : ofSeconds n = after n := by
  have hdiv (m k : ℕ) : (m : ℤ).tdiv k = ↑(m / k) := rfl
  have hmod (m k : ℕ) : (m : ℤ).tmod k = ↑(m % k) := rfl
  have hday : (n : ℤ).tdiv 86400 = ↑(n / 86400) := hdiv n 86400
  have htod : (n : ℤ) - ↑(n / 86400) * 86400 = ↑(n % 86400) := by omega
  have hsec : n % 86400 % 60 = n % 60 := by omega
  have hmin : n % 86400 / 60 % 60 = n / 60 % 60 := by omega
  have hhour : n % 86400 / 3600 = n / 3600 % 24 := by omega
  unfold ofSeconds after
  dsimp only
  rw [hday, htod]
  congr 1
  · rw [← hsec]
    exact byteOf_natCast (n % 86400 % 60)
  · rw [← hmin]
    exact byteOf_natCast (n % 86400 / 60 % 60)
  · rw [← hhour]
    exact byteOf_natCast (n % 86400 / 3600)
  · rw [← halfword_ofNat (n / 86400)]
    exact congrArg₂ halfword (byteOf_natCast _) (byteOf_natCast _)

/-- A date and time is the calendar of its own second. -/
theorem after_setting {mi hh : U8} (day : U16) (hmi : mi.toNat < 60) (hhh : hh.toNat < 24) :
    after (day.toNat * 86400 + hh.toNat * 3600 + mi.toNat * 60) =
      { sec := 0, min := mi, hour := hh, day := day } := by
  have hsec : (day.toNat * 86400 + hh.toNat * 3600 + mi.toNat * 60) % 60 = 0 := by omega
  have hmin : (day.toNat * 86400 + hh.toNat * 3600 + mi.toNat * 60) / 60 % 60 = mi.toNat := by
    omega
  have hhour : (day.toNat * 86400 + hh.toNat * 3600 + mi.toNat * 60) / 3600 % 24 = hh.toNat := by
    omega
  have hday : (day.toNat * 86400 + hh.toNat * 3600 + mi.toNat * 60) / 86400 = day.toNat := by
    omega
  unfold after
  rw [hsec, hmin, hhour, hday, BitVec.ofNat_toNat, BitVec.ofNat_toNat, BitVec.ofNat_toNat,
    BitVec.setWidth_eq, BitVec.setWidth_eq, BitVec.setWidth_eq]
  rfl

end DateTime

/-! ### The latches -/

/-- The registers that are latched until the timer is started. -/
inductive Latch
  | mi
  | hh
  | dayLo
  | dayHi

/-- A latch. -/
def latchOf (r : Calendar) : Latch → U8
  | .mi => r.setMi
  | .hh => r.setHh
  | .dayLo => r.setDayLo
  | .dayHi => r.setDayHi

/-- The value a write brings to a latch. -/
def latchValue : CalendarWrite → Latch → Option U8
  | .half .secMin v, .mi => some (hi v)
  | .byte .secMin true v, .mi => some v
  | .half .hourDayl v, .hh => some (lo v)
  | .byte .hourDayl false v, .hh => some v
  | .half .hourDayl v, .dayLo => some (hi v)
  | .byte .hourDayl true v, .dayLo => some v
  | .half .dayhAlmm v, .dayHi => some (lo v)
  | .byte .dayhAlmm false v, .dayHi => some v
  | _, _ => none

/-- The last value a list of writes brings to a latch. -/
def latched (l : Latch) : List (Tm × CalendarWrite) → Option U8
  | [] => none
  | w :: ws => (latched l ws).or (latchValue w.2 l)

/-- Writes, each at its local time. -/
def writes (r : Calendar) (ws : List (Tm × CalendarWrite)) : Calendar :=
  ActionRun.exec (fun r w => r.write w.1 w.2) r ws

variable {r : Calendar} {tm : Tm}

theorem latchOf_write {w : CalendarWrite} (h : stopValue w = none) (l : Latch) :
    (r.write tm w).latchOf l = (latchValue w l).getD (r.latchOf l) := by
  cases w with
  | half reg v =>
    cases reg with
    | stop => exact absurd h (Option.some_ne_none _)
    | _ => cases l <;> rfl
  | byte reg odd v =>
    cases odd with
    | false => cases reg <;> cases l <;> rfl
    | true =>
      cases reg with
      | stop => exact absurd h (Option.some_ne_none _)
      | _ => cases l <;> rfl

/-- **Writes to a stopped timer** latch the last value of each register, and nothing
else. -/
theorem writes_spec {ws : List (Tm × CalendarWrite)} (h : ∀ w ∈ ws, stopValue w.2 = none) :
    r.KeepsTime (r.writes ws) ∧
      ∀ l, (r.writes ws).latchOf l = (latched l ws).getD (r.latchOf l) := by
  induction ws generalizing r with
  | nil => exact ⟨⟨rfl, rfl, rfl, rfl, rfl, rfl⟩, fun _ => rfl⟩
  | cons w ws ih =>
    obtain ⟨hw, hws⟩ := List.forall_mem_cons.mp h
    have hfirst : r.KeepsTime (r.write w.1 w.2) := keepsTime_write hw
    obtain ⟨hrest, hlatch⟩ := ih hws (r := r.write w.1 w.2)
    refine ⟨hfirst.trans hrest, fun l => (hlatch l).trans ?_⟩
    rw [latchOf_write hw, latched]
    cases latched l ws with
    | none => rfl
    | some v => rfl

/-! ### The start -/

theorem toNat_lo (v : U16) : (lo v).toNat = v.toNat % 2 ^ 8 := BitVec.toNat_setWidth ..

theorem toNat_hi (v : U16) : (hi v).toNat = v.toNat / 2 ^ 8 := by
  have hlt := v.isLt
  unfold hi
  rw [BitVec.toNat_setWidth, BitVec.toNat_ushiftRight, Nat.shiftRight_eq_div_pow]
  omega

/-- The second that is latched, of a day in two bytes. -/
theorem setSec_eq {day : U16} (hlo : r.setDayLo = lo day) (hhi : r.setDayHi = hi day) :
    r.setSec = ↑(day.toNat * 86400 + r.setHh.toNat * 3600 + r.setMi.toNat * 60) := by
  have hday : (hi day).toNat <<< 8 ||| (lo day).toNat = day.toNat := by
    rw [← Nat.shiftLeft_add_eq_or_of_lt (lo day).isLt, Nat.shiftLeft_eq, toNat_lo, toNat_hi]
    omega
  unfold setSec
  rw [hlo, hhi, hday]

theorem KeepsTime.hostSecondsSince2000 {r' : Calendar} (h : r.KeepsTime r') (tm : Tm) :
    r'.hostSecondsSince2000 tm = r.hostSecondsSince2000 tm := by
  unfold Calendar.hostSecondsSince2000
  rw [h.fixedMode, h.fixedEpoch]

/-- The clock of the host is not the timer's. -/
theorem hostSecondsSince2000_writeRtcstop (v : U8) (tm' : Tm) :
    (r.writeRtcstop tm v).hostSecondsSince2000 tm' = r.hostSecondsSince2000 tm' := by
  unfold writeRtcstop latch applySetToOffset
  dsimp only
  split_ifs <;> rfl

/-- The start of a stopped timer makes what is latched the present. -/
theorem writeRtcstop_run {v : U8} (hstopped : r.rtcstop.getLsbD 1 = true)
    (hrun : v.getLsbD 0 = true) (hgo : v.getLsbD 1 = false) :
    r.writeRtcstop tm v = ({ r with rtcstop := v } : Calendar).applySetToOffset tm := by
  unfold writeRtcstop
  dsimp only
  rw [hstopped, hrun, hgo, if_neg Bool.false_ne_true, Bool.and_true, if_pos rfl]

/-- A latched date and time, when the timer is started: the registers go on from it with the
clock of the host. -/
theorem dateTime_writeRtcstop {v mi hh : U8} {day : U16} (hstopped : r.rtcstop.getLsbD 1 = true)
    (hmi : r.setMi = mi) (hhh : r.setHh = hh) (hlo : r.setDayLo = lo day)
    (hhi : r.setDayHi = hi day) (hrun : v.getLsbD 0 = true) (hgo : v.getLsbD 1 = false)
    {tm' : Tm} {t : ℕ} (ht : r.hostSecondsSince2000 tm' = r.hostSecondsSince2000 tm + t) :
    (r.writeRtcstop tm v).dateTime tm' =
      .after (day.toNat * 86400 + hh.toNat * 3600 + mi.toNat * 60 + t) := by
  have hcurrent : (r.writeRtcstop tm v).currentSecondsSince2000 tm' =
      r.hostSecondsSince2000 tm' + (r.setSec - r.hostSecondsSince2000 tm) := by
    rw [writeRtcstop_run hstopped hrun hgo]
    rfl
  have hsec : r.hostSecondsSince2000 tm' + (r.setSec - r.hostSecondsSince2000 tm) =
      ↑(day.toNat * 86400 + hh.toNat * 3600 + mi.toNat * 60 + t) := by
    rw [ht, setSec_eq hlo hhi, hmi, hhh]
    omega
  rw [dateTime_eq, hcurrent, hsec, DateTime.ofSeconds_natCast]

/-- **Setting the clock**: the timer is stopped, the minute, the hour and the day are
written, in any order, and the timer is started. What is read back then, `t` seconds of the
host's clock later, is the date and time `t` seconds after the one written; and at once,
exactly that. The host's clock is its local time as a number of seconds: it goes second by
second in the years 2000 to 2099, but follows every change of the local time, and outside of
these years it is clamped. -/
theorem dateTime_set (r : Calendar) (tm₀ tm₁ : Tm) (stop run : CalendarWrite)
    (ws : List (Tm × CalendarWrite)) (vs vr mi hh : U8) (day : U16)
    (hstop : stopValue stop = some vs) (hvs : vs.getLsbD 1 = true)
    (hrun : stopValue run = some vr) (hvr : vr.getLsbD 0 = true) (hgo : vr.getLsbD 1 = false)
    (hws : ∀ w ∈ ws, stopValue w.2 = none) (hmi : latched .mi ws = some mi)
    (hhh : latched .hh ws = some hh) (hlo : latched .dayLo ws = some (lo day))
    (hhi : latched .dayHi ws = some (hi day)) (hmi60 : mi.toNat < 60) (hhh24 : hh.toNat < 24) :
    let r' := ((r.write tm₀ stop).writes ws).write tm₁ run
    (∀ tm, r.hostSecondsSince2000 tm = r.hostSecondsSince2000 tm₁ →
        r'.dateTime tm = { sec := 0, min := mi, hour := hh, day := day }) ∧
      ∀ (tm : Tm) (t : ℕ), r.hostSecondsSince2000 tm = r.hostSecondsSince2000 tm₁ + t →
        r'.dateTime tm =
          .after (day.toNat * 86400 + hh.toNat * 3600 + mi.toNat * 60 + t) := by
  rw [write_of_stopValue hstop, write_of_stopValue hrun]
  -- what the stop leaves and the writes latch
  obtain ⟨hkept, hlatch⟩ := writes_spec (r := r.writeRtcstop tm₀ vs) hws
  have hstopped : ((r.writeRtcstop tm₀ vs).writes ws).rtcstop.getLsbD 1 = true := by
    rw [hkept.rtcstop, rtcstop_writeRtcstop]
    exact hvs
  have hhost (tm : Tm) : ((r.writeRtcstop tm₀ vs).writes ws).hostSecondsSince2000 tm =
      r.hostSecondsSince2000 tm := by
    rw [hkept.hostSecondsSince2000, hostSecondsSince2000_writeRtcstop]
  have hlater (tm : Tm) (t : ℕ) (ht : r.hostSecondsSince2000 tm = r.hostSecondsSince2000 tm₁ + t) :
      (((r.writeRtcstop tm₀ vs).writes ws).writeRtcstop tm₁ vr).dateTime tm =
        .after (day.toNat * 86400 + hh.toNat * 3600 + mi.toNat * 60 + t) := by
    refine dateTime_writeRtcstop hstopped ?_ ?_ ?_ ?_ hvr hgo ?_
    · exact (hlatch .mi).trans (congrArg (Option.getD · _) hmi)
    · exact (hlatch .hh).trans (congrArg (Option.getD · _) hhh)
    · exact (hlatch .dayLo).trans (congrArg (Option.getD · _) hlo)
    · exact (hlatch .dayHi).trans (congrArg (Option.getD · _) hhi)
    · rw [hhost, hhost, ht]
  refine ⟨fun tm htm => ?_, hlater⟩
  have hnow := hlater tm 0 (by omega)
  rw [Nat.add_zero, DateTime.after_setting day hmi60 hhh24] at hnow
  exact hnow

/-- The order of the kernel, `pceTimeSet`, at 12:34 on the day 8932; the host has 10:00. -/
theorem dateTime_set_kernel :
    let tm : Tm := { year := 124, mon := 5, mday := 15, hour := 10, min := 0, sec := 0 }
    let r' := (((({} : Calendar).write tm (.byte .stop true 0x02)).writes
      [(tm, .byte .secMin true 34), (tm, .byte .hourDayl false 12),
        (tm, .byte .hourDayl true (lo 8932)), (tm, .byte .dayhAlmm false (hi 8932))]).write tm
      (.byte .stop true 0x01))
    (∀ tm', ({} : Calendar).hostSecondsSince2000 tm' = ({} : Calendar).hostSecondsSince2000 tm →
        r'.dateTime tm' = { sec := 0, min := 34, hour := 12, day := 8932 }) ∧
      ∀ (tm' : Tm) (t : ℕ), ({} : Calendar).hostSecondsSince2000 tm' =
          ({} : Calendar).hostSecondsSince2000 tm + t →
        r'.dateTime tm' = .after (8932 * 86400 + 12 * 3600 + 34 * 60 + t) := by
  intro tm r'
  exact dateTime_set {} tm tm (.byte .stop true 0x02) (.byte .stop true 0x01) _ 0x02 0x01 34 12
    8932 rfl rfl rfl rfl rfl (by decide) rfl rfl rfl rfl (by decide) (by decide)

end Calendar
