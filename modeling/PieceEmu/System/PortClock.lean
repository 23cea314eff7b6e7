import PieceEmu.Lib.Run
import PieceEmu.System.RegisterAccess

/-!
# The oscillator and its pin

`P07` is kept twice: as bit 7 of the data register of port 0, and as `p07_slow_` in the
clock control, which the port controller tells of a change. Every register write keeps
the two equal, by bytes and by halfwords, and so does a cold start. A hot start puts the
clock control back to the slow oscillator and leaves the ports as they are: the two are
then equal only if the pin selected the slow oscillator already
(`PortAction.inSync_iff`).
-/

open ActionRun

/-- What happens to the ports and the clock control: register writes, by bytes or by
halfwords, and the two kinds of reset of the peripherals. -/
inductive PortAction
  | write8 (addr : U32) (v : U8)
  | write16 (addr : U32) (v : U16)
  | reset (cold : Bool)
  deriving DecidableEq

namespace PortAction

variable (o : OtherDevices) (fe : Frontend)

/-- One action. -/
def act (m : Machine PiecePeripherals) : PortAction → Machine PiecePeripherals
  | write8 addr v => m.write8 (o.attach fe) addr v
  | write16 addr v => m.write16 (o.attach fe) addr v
  | reset cold => m.resetPeripherals cold

/-- A hot start finds `P07` at the slow oscillator. -/
def KeepsSlow (m : Machine PiecePeripherals) : PortAction → Prop
  | reset false => m.periph.portctrl.p07 = true
  | _ => True

end PortAction

/-- The clock control agrees with `P07`. -/
def PiecePeripherals.InSync (p : PiecePeripherals) : Prop := p.clk.p07Slow = p.portctrl.p07

instance (p : PiecePeripherals) : Decidable p.InSync := inferInstanceAs (Decidable (_ = _))

/-! ### Register writes -/

namespace PortCtrl

/-- A pair of port registers other than the first leaves the data register of port 0
alone. -/
theorem setPair_of_ne (a : ℕ → U8) {i : ℕ} (hi : i ≠ 0) (v : U16) : setPair a i v 1 = a 1 := by
  unfold setPair
  rw [Function.update_of_ne (by omega), Function.update_of_ne (by omega)]

theorem setPairByte_of_ne (a : ℕ → U8) {i : ℕ} (hi : i ≠ 0) (addr : U32) (v : U8) :
    setPairByte a i addr v 1 = a 1 := by
  unfold setPairByte
  split_ifs
  · exact Function.update_of_ne (by omega) _ _
  · exact Function.update_of_ne (by omega) _ _

end PortCtrl

namespace PortReg

/-- Only the halfword of port 0 that is told to the clock control holds `P07`. -/
theorem write_p07 (addr : U32) (v : U16) (p : PortCtrl) {r : PortReg} (hr : r ≠ pport 0) :
    (r.write addr v p).pport 1 = p.pport 1 := by
  cases r with
  | k5 =>
    change (p.writeK5 addr v).pport 1 = p.pport 1
    unfold PortCtrl.writeK5
    split_ifs <;> rfl
  | k6Func | k6 | pint i => rfl
  | pport i =>
    exact PortCtrl.setPair_of_ne p.pport (fun h => hr (congrArg pport (Fin.ext h))) v

theorem writeByte_p07 (addr : U32) (v : U8) (p : PortCtrl) {r : PortReg} (hr : r ≠ pport 0)
    {f : U32 → U8 → PortCtrl → PortCtrl} (hf : r.writeByte = some f) :
    (f addr v p).pport 1 = p.pport 1 := by
  cases r with
  | k5 | k6 => cases hf
  | k6Func =>
    cases hf
    change (p.writeK6FuncByte addr v).pport 1 = p.pport 1
    unfold PortCtrl.writeK6FuncByte
    split_ifs <;> rfl
  | pint i =>
    cases hf
    rfl
  | pport i =>
    cases hf
    exact PortCtrl.setPairByte_of_ne p.pport (fun h => hr (congrArg pport (Fin.ext h))) addr v

/-- Bit 7 of a byte, taken out with a mask. -/
theorem and_0x80_ne_zero (x : U8) : x &&& 0x80 ≠ 0 ↔ x.getLsbD 7 = true := by
  revert x
  decide

/-- **A write to the ports keeps the two in agreement**: the halfword of port 0 tells the
clock control what `P07` has become, the others do not touch it. -/
theorem notifying_inSync (fe : Frontend) (f : PortCtrl → PortCtrl) (b : Bus PiecePeripherals)
    (r : PortReg) (hf : r ≠ pport 0 → (f b.dev.portctrl).pport 1 = b.dev.portctrl.pport 1)
    (h : b.dev.InSync) : (r.notifying fe f b).dev.InSync := by
  have hsync : b.dev.clk.p07Slow = (b.dev.portctrl.pport 1).getLsbD 7 := h
  unfold notifying PiecePeripherals.InSync PortCtrl.p07 PortCtrl.pd
  dsimp only
  split_ifs with hr
  · unfold p07Notify
    dsimp only
    split_ifs with hchanged
    · -- the bit has changed, and is told
      rw [Frontend.clkWrite_clk, Frontend.clkWrite_portctrl, ClockControl.setP07_p07Slow]
      have hbit := and_0x80_ne_zero ((f b.dev.portctrl).pport 1)
      rw [Bool.eq_iff_iff, decide_eq_true_iff]
      exact hbit
    · -- the bit is what it was
      have hsame : (b.dev.portctrl.pport 1 ^^^ (f b.dev.portctrl).pport 1).getLsbD 7 = false := by
        rw [← Bool.not_eq_true, ← and_0x80_ne_zero]
        exact hchanged
      rw [BitVec.getLsbD_xor, bne_eq_false_iff_eq] at hsame
      exact hsync.trans hsame
  · exact hsync.trans (congrArg (BitVec.getLsbD · 7) (hf hr).symm)

end PortReg

/-- **The agreement is an invariant of the registers** of the board. -/
theorem PiecePeripherals.inSync_invariant (fe : Frontend) :
    ControlInvariant fe fun b _ => b.dev.InSync where
  congr := by
    intro b b' t hsame h
    change b'.dev.clk.p07Slow = (b'.dev.portctrl.pport 1).getLsbD 7
    rw [hsame.clk, hsame.pport]
    exact h
  clk := by
    intro reg v b t h
    change (fe.clkWrite _ b).dev.clk.p07Slow = (fe.clkWrite _ b).dev.portctrl.p07
    rw [Frontend.clkWrite_clk, Frontend.clkWrite_portctrl, ClockControl.writeSingle_p07Slow]
    exact h
  port := by
    intro addr v b t r h
    exact r.notifying_inSync fe _ b (PortReg.write_p07 addr v b.dev.portctrl) h
  portByte := by
    intro addr v b t r f hf h
    exact r.notifying_inSync fe _ b
      (fun hr => PortReg.writeByte_p07 addr v b.dev.portctrl hr hf) h
  bcu := by
    intro v b t r h
    cases r <;> exact h

/-! ### Runs -/

namespace PortAction

variable (o : OtherDevices) (fe : Frontend) {m : Machine PiecePeripherals}

/-- **The step**: every write keeps the agreement, and a reset keeps it unless it is a hot
start with `P07` at the fast oscillator. -/
theorem act_inSync_iff (a : PortAction) (h : m.periph.InSync) :
    (a.act o fe m).periph.InSync ↔ a.KeepsSlow m := by
  have hP := (PiecePeripherals.inSync_invariant fe).attach o
  cases a with
  | write8 addr v => exact iff_of_true (hP.write8 (t := m.cpu.ttbr) h addr v) trivial
  | write16 addr v => exact iff_of_true (hP.write16 (t := m.cpu.ttbr) h addr v) trivial
  | reset cold =>
    cases cold with
    | true =>
      refine iff_of_true ?_ trivial
      change true = PortCtrl.reset.p07
      decide
    | false =>
      change true = m.periph.portctrl.p07 ↔ m.periph.portctrl.p07 = true
      exact eq_comm

/-- **The oscillator follows its pin** in every state of a run if and only if every hot
start of the run finds the data bit of `P07` at 1: over every sequence of byte and halfword
writes to the registers and of hot and cold resets, from the peripherals as they are
attached. -/
theorem inSync_iff (hm : m.periph = ({} : PiecePeripherals).attach) (as : List PortAction) :
    (∀ bs, bs <+: as → (exec (act o fe) m bs).periph.InSync) ↔
      Along (act o fe) KeepsSlow m as := by
  have h0 : m.periph.InSync := by
    rw [hm]
    decide
  exact along_iff_forall_prefix (I := fun m : Machine PiecePeripherals => m.periph.InSync)
    (fun m a h => act_inSync_iff o fe a h) h0

/-- A program that switches to the fast oscillator, and a cold start. -/
theorem inSync_iff_cold :
    (∀ bs, bs <+: [write8 0x0402D1 0, reset true] →
        (exec (act .absent .cpuRunner) (Machine.boardOfRom []) bs).periph.InSync) ↔
      Along (act .absent .cpuRunner) KeepsSlow (Machine.boardOfRom [])
        [write8 0x0402D1 0, reset true] :=
  inSync_iff .absent .cpuRunner rfl _

/-- **After a hot start the two differ**: a program has switched to the fast oscillator. -/
theorem not_inSync_hot :
    ¬(exec (act .absent .cpuRunner) (Machine.boardOfRom [])
      [write8 0x0402D1 0, reset false]).periph.InSync := by
  decide +kernel

end PortAction
