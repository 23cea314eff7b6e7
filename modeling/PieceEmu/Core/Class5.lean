import PieceEmu.Core.Machine

/-!
# Class 5: special registers, bits, multiplication

The handlers of class 5, with the repeated multiply-accumulate `mac` and its three
execution paths: the analytic sum over open bus (`Machine.macOpenBus`), the direct
walk over SRAM (`Machine.macSram`), and the loop of halfword reads
(`Machine.macSlow`) that the other two stand for.
-/

namespace Machine

variable {D : Type} (io : IoSpace D) (m : Machine D) (insn : Insn)

/-! ### Class 5A -/

/-- `special_reg`, read. -/
def specialReg (n : BitVec 4) : U32 :=
  match (n &&& 3).toNat with
  | 0 => m.cpu.psr.raw
  | 1 => m.cpu.sp
  | 2 => m.cpu.alr
  | _ => m.cpu.ahr

/-- `special_reg`, assigned. -/
def setSpecialReg (n : BitVec 4) (v : U32) : Machine D :=
  match (n &&& 3).toNat with
  | 0 => m.setPsr ⟨v⟩
  | 1 => m.setSp v
  | 2 => m.mapCpu ({ · with alr := v })
  | _ => m.mapCpu ({ · with ahr := v })

/-- `ld.w %sd, %rs`: to a special register. -/
def hLdWSdRs : Machine D :=
  let m := m.flushExt
  m.setSpecialReg insn.rd (m.cpu.r insn.rs)

/-- `ld.w %rd, %ss`: from a special register. -/
def hLdWRdSs : Machine D :=
  let m := m.flushExt
  m.setR insn.rd (m.specialReg insn.rs)

/-- `btst [%rb], imm3`: `Z` says that the bit is clear. -/
def hBtst : Machine D :=
  let ea := m.cpu.r insn.rb + m.cpu.extRb
  let (v, m) := m.flushExt.read8 io ea
  m.setPsr (m.cpu.psr.setZ !v.getLsbD insn.imm3)

/-- The common body of `h_bclr`, `h_bset` and `h_bnot`: a byte of memory combined
with the bit the instruction selects. -/
def doBit (f : U8 → U8 → U8) : Machine D :=
  let ea := m.cpu.r insn.rb + m.cpu.extRb
  let (v, m) := m.flushExt.read8 io ea
  m.write8 io ea (f v (1#8 <<< insn.imm3))

/-- `bclr [%rb], imm3`. -/
def hBclr : Machine D := m.doBit io insn fun v bit => v &&& ~~~bit
/-- `bset [%rb], imm3`. -/
def hBset : Machine D := m.doBit io insn (· ||| ·)
/-- `bnot [%rb], imm3`. -/
def hBnot : Machine D := m.doBit io insn (· ^^^ ·)

/-- `adc %rd, %rs`: the sum with the carry. -/
def hAdc : Machine D :=
  let m := m.flushExt
  let a := m.cpu.r insn.rd
  let b := m.cpu.r insn.rs
  let r : U64 := a.setWidth 64 + b.setWidth 64 + if m.cpu.psr.c then 1 else 0
  (m.setR insn.rd (r.setWidth 32)).setPsr (m.cpu.psr.setNzvcAdd a b r)

/-- `sbc %rd, %rs`: the difference with the borrow. -/
def hSbc : Machine D :=
  let m := m.flushExt
  let a := m.cpu.r insn.rd
  let b := m.cpu.r insn.rs
  let r : U64 := a.setWidth 64 - b.setWidth 64 - if m.cpu.psr.c then 1 else 0
  (m.setR insn.rd (r.setWidth 32)).setPsr (m.cpu.psr.setNzvcSub a b r)

/-! ### Class 5B -/

/-- The common body of the register extensions. -/
def doExtend (f : U32 → U32) : Machine D :=
  let m := m.flushExt
  m.setR insn.rd (f (m.cpu.r insn.rs))

/-- `ld.b %rd, %rs`. -/
def hLdBRdRs2 : Machine D := m.doExtend insn fun v => (v.setWidth 8).signExtend 32
/-- `ld.ub %rd, %rs`. -/
def hLdUbRdRs2 : Machine D := m.doExtend insn (· &&& 0xFF)
/-- `ld.h %rd, %rs`. -/
def hLdHRdRs2 : Machine D := m.doExtend insn fun v => (v.setWidth 16).signExtend 32
/-- `ld.uh %rd, %rs`. -/
def hLdUhRdRs2 : Machine D := m.doExtend insn (· &&& 0xFFFF)

/-! ### Class 5C: multiplication -/

/-- The 64-bit accumulator `{AHR, ALR}`, assigned. -/
def setAcc (v : U64) : Machine D :=
  m.mapCpu fun s => { s with alr := v.setWidth 32, ahr := (v >>> 32).setWidth 32 }

/-- The common body of the multiplications: the two operands widened to 64 bits. -/
def doMlt (widen : U32 → U64) : Machine D :=
  let m := m.flushExt
  m.setAcc (widen (m.cpu.r insn.rd) * widen (m.cpu.r insn.rs))

/-- `mlt.h %rd, %rs`: signed halfwords. -/
def hMltH : Machine D := m.doMlt insn fun v => (v.setWidth 16).signExtend 64
/-- `mltu.h %rd, %rs`: unsigned halfwords. -/
def hMltuH : Machine D := m.doMlt insn fun v => (v &&& 0xFFFF).setWidth 64
/-- `mlt.w %rd, %rs`: signed words. -/
def hMltW : Machine D := m.doMlt insn (BitVec.signExtend 64)
/-- `mltu.w %rd, %rs`: unsigned words. -/
def hMltuW : Machine D := m.doMlt insn (BitVec.setWidth 64)

/-! ### Class 5C: multiply and accumulate -/

/-- The 64-bit accumulator `{AHR, ALR}`. -/
def acc : U64 := m.cpu.ahr.setWidth 64 <<< 32 ||| m.cpu.alr.setWidth 64

/-- The sign bits say that adding `x` to `acc` overflowed a signed 64-bit sum. -/
def macOverflow (acc x : U64) : Bool := (~~~(acc ^^^ x) &&& (acc ^^^ (acc + x))).msb

/-- The sticky `MO` flag after `x` was added to `acc`. -/
def macFlag (psr : Psr) (acc x : U64) : Psr :=
  if !psr.mo && macOverflow acc x then psr.setMo true else psr

/-- The signed product of two halfwords. -/
def macProduct (h1 h2 : U16) : U64 := h1.signExtend 64 * h2.signExtend 64

/-- One turn of the slow loop. -/
def macStep (rsN : BitVec 4) (uacc : U64) : U64 × Machine D :=
  let (h1, m) := m.read16 io (m.cpu.r (rsN + 1))
  let (h2, m) := m.read16 io (m.cpu.r (rsN + 2))
  let x := macProduct h1 h2
  let m := m.setPsr (macFlag m.cpu.psr uacc x)
  let m := m.setR (rsN + 1) (m.cpu.r (rsN + 1) + 2)
  let m := m.setR (rsN + 2) (m.cpu.r (rsN + 2) + 2)
  (uacc + x, m.setR rsN (m.cpu.r rsN - 1))

/-- `k` turns of the slow loop. -/
def macLoop (rsN : BitVec 4) : ℕ → U64 → Machine D → U64 × Machine D
  | 0, uacc, m => (uacc, m)
  | k + 1, uacc, m =>
    let (uacc, m) := m.macStep io rsN uacc
    macLoop rsN k uacc m

/-- The slow path: a halfword read for each operand. -/
def macSlow (rsN : BitVec 4) : Machine D :=
  let (uacc, m) := macLoop io rsN (m.cpu.r rsN).toNat m.acc m
  m.setAcc uacc

/-- Fast path A: every product is `(-1) * (-1)`. -/
def macOpenBus (rsN : BitVec 4) : Machine D :=
  let count := m.cpu.r rsN
  let delta : U64 := count.setWidth 64
  let m' := (m.setPsr (macFlag m.cpu.psr m.acc delta)).setAcc (m.acc + delta)
  let m' := m'.setR (rsN + 1) (m'.cpu.r (rsN + 1) + count * 2)
  let m' := m'.setR (rsN + 2) (m'.cpu.r (rsN + 2) + count * 2)
  m'.setR rsN 0

/-- `k` turns of the loop of fast path B over the SRAM bytes. -/
def macSramLoop (sram : ℕ → U8) : ℕ → U32 → U32 → U64 → Psr → U64 × Psr
  | 0, _, _, uacc, psr => (uacc, psr)
  | k + 1, off1, off2, uacc, psr =>
    let x := macProduct (Words.le16 sram off1.toNat) (Words.le16 sram off2.toNat)
    macSramLoop sram k (off1 + 2) (off2 + 2) (uacc + x) (macFlag psr uacc x)

/-- Fast path B: both operand arrays read from the SRAM bytes, the cycles charged
at the end. -/
def macSram (rsN : BitVec 4) : Machine D :=
  let count := m.cpu.r rsN
  let off1 := Bus.mask28 (m.cpu.r (rsN + 1)) - Bus.sramBase
  let off2 := Bus.mask28 (m.cpu.r (rsN + 2)) - Bus.sramBase
  let (uacc, psr) := macSramLoop m.bus.sram count.toNat off1 off2 m.acc m.cpu.psr
  let m := { m with bus := m.bus.charge (m.bus.extReadCycles m.bus.sramWait * 2 * count.toNat) }
  let m := m.setR (rsN + 1) (Bus.sramBase + (off1 + 2 * count))
  let m := m.setR (rsN + 2) (Bus.sramBase + (off2 + 2 * count))
  let m := m.setR rsN 0
  (m.setPsr psr).setAcc uacc

/-- An operand array has both its ends at or above the end of the flash, which is
computed in 32 bits. -/
def macAboveFlash (flashSize : ℕ) (count p : U32) : Bool :=
  let flashEnd := Bus.flashBase + BitVec.ofNat 32 flashSize
  flashEnd ≤ Bus.mask28 p && flashEnd ≤ Bus.mask28 p + (count - 1) * 2

/-- An operand array ends within SRAM, its end computed in 32 bits. -/
def macWithinSram (sramSize : ℕ) (count p : U32) : Bool :=
  (Bus.mask28 p - Bus.sramBase + count * 2).toNat ≤ sramSize

/-- Fast path A is taken. -/
def macTakesOpenBus (rsN : BitVec 4) : Bool :=
  macAboveFlash m.bus.flash.size (m.cpu.r rsN) (m.cpu.r (rsN + 1)) &&
    macAboveFlash m.bus.flash.size (m.cpu.r rsN) (m.cpu.r (rsN + 2)) && !m.bus.hasWatchpoints

/-- Fast path B is taken, when A is not. -/
def macTakesSram (rsN : BitVec 4) : Bool :=
  macWithinSram m.bus.sramSize (m.cpu.r rsN) (m.cpu.r (rsN + 1)) &&
    macWithinSram m.bus.sramSize (m.cpu.r rsN) (m.cpu.r (rsN + 2)) && !m.bus.hasWatchpoints

/-- `mac %rs`: `%rs` counts, and the two registers behind it point to the operands. A count of 0
does nothing; the fast paths are tried before the slow loop. -/
def hMac : Machine D :=
  let m := m.flushExt
  if m.cpu.r insn.rs = 0 then m
  else if m.macTakesOpenBus insn.rs then m.macOpenBus insn.rs
  else if m.macTakesSram insn.rs then m.macSram insn.rs
  else m.macSlow io insn.rs

end Machine
