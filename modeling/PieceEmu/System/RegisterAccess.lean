import Mathlib.Data.List.Nodup
import PieceEmu.Core.FlatView
import PieceEmu.System.RegisterMap

/-!
# Accesses to the registers of the board

No two halfwords are registered at one address, so an access finds the handler of its
own (`OtherDevices.attach_write` and its companions). An address *names* a register byte
when it lies in the register windows and is folded onto it (`Bus.Names`); through such an
address `write8` calls the byte handler of the halfword, or the halfword handler with the
byte, and `write16` the halfword handler.

An invariant of the devices is checked slot by slot (`ControlInvariant.attach`).
-/

/-! ### Looking up a handler -/

namespace RegSlot

/-- The index of the handler of a slot. -/
def index (s : RegSlot) : ℕ := Bus.ioIndex s.addr

theorem mem_all (s : RegSlot) : s ∈ all := by
  cases s with
  | intc i =>
    revert i
    decide +kernel
  | clk r => cases r <;> decide +kernel
  | t8 ch r =>
    revert ch
    cases r <;> decide +kernel
  | t16 ch r =>
    revert ch
    cases r <;> decide +kernel
  | port r =>
    cases r with
    | pint i | pport i =>
      revert i
      decide +kernel
    | _ => decide +kernel
  | bcu r => cases r <;> decide +kernel
  | wdt => decide +kernel
  | hsdma ch r =>
    revert ch
    cases r <;> decide +kernel

/-- No two slots have one address. -/
theorem index_nodup : (all.map index).Nodup := by decide +kernel

theorem index_injective : Function.Injective index := fun s s' h =>
  List.inj_on_of_nodup_map index_nodup s.mem_all s'.mem_all h

/-- Every slot lies in the span of the handler table. -/
theorem index_lt (s : RegSlot) : s.index < Bus.iohandlerSpan / 2 := by
  have hall : ∀ s ∈ all, s.index < Bus.iohandlerSpan / 2 := by decide +kernel
  exact hall s s.mem_all

end RegSlot

namespace IoSpace

variable {D : Type} (io : IoSpace D) (a : U32) (h : IoHandler D)

theorem registerIo_of_ne {i : ℕ} (hi : i ≠ Bus.ioIndex a) :
    (io.registerIo a h).read i = io.read i ∧ (io.registerIo a h).write i = io.write i ∧
      (io.registerIo a h).writeByte i = io.writeByte i :=
  ⟨Function.update_of_ne hi _ _, Function.update_of_ne hi _ _, Function.update_of_ne hi _ _⟩

theorem registerIo_self :
    (io.registerIo a h).read (Bus.ioIndex a) = some h.read ∧
      (io.registerIo a h).write (Bus.ioIndex a) = some h.write ∧
      (io.registerIo a h).writeByte (Bus.ioIndex a) = h.writeByte :=
  ⟨Function.update_self _ _ _, Function.update_self _ _ _, Function.update_self _ _ _⟩

end IoSpace

namespace OtherDevices

variable (o : OtherDevices) (fe : Frontend)

/-- Registering a list of slots leaves every other halfword alone. -/
theorem foldl_registerIo_of_ne (l : List RegSlot) (io : IoSpace PiecePeripherals) {i : ℕ}
    (hi : ∀ s ∈ l, i ≠ s.index) :
    let io' := l.foldl (fun io s => io.registerIo s.addr (s.handler fe)) io
    io'.read i = io.read i ∧ io'.write i = io.write i ∧ io'.writeByte i = io.writeByte i := by
  induction l generalizing io with
  | nil => exact ⟨rfl, rfl, rfl⟩
  | cons x l ih =>
    obtain ⟨hr, hw, hb⟩ := ih (io.registerIo x.addr (x.handler fe))
      fun s hs => hi s (List.mem_cons_of_mem x hs)
    obtain ⟨hr', hw', hb'⟩ :=
      io.registerIo_of_ne x.addr (x.handler fe) (hi x List.mem_cons_self)
    exact ⟨hr.trans hr', hw.trans hw', hb.trans hb'⟩

/-- Registering a list of slots installs the handler of each of them. -/
theorem foldl_registerIo_of_mem (l : List RegSlot) (io : IoSpace PiecePeripherals)
    {s : RegSlot} (hs : s ∈ l) :
    let io' := l.foldl (fun io s => io.registerIo s.addr (s.handler fe)) io
    io'.read s.index = some (s.handler fe).read ∧ io'.write s.index = some (s.handler fe).write ∧
      io'.writeByte s.index = (s.handler fe).writeByte := by
  induction l generalizing io with
  | nil => cases hs
  | cons x l ih =>
    by_cases hmem : s ∈ l
    · exact ih _ hmem
    · obtain rfl : s = x := by
        rcases List.mem_cons.mp hs with h | h
        · exact h
        · exact absurd h hmem
      obtain ⟨hr, hw, hb⟩ := foldl_registerIo_of_ne fe l (io.registerIo s.addr (s.handler fe))
        fun x hx he => hmem ((RegSlot.index_injective he : s = x) ▸ hx)
      obtain ⟨hr', hw', hb'⟩ := io.registerIo_self s.addr (s.handler fe)
      exact ⟨hr.trans hr', hw.trans hw', hb.trans hb'⟩

variable (s : RegSlot)

theorem attach_read : (o.attach fe).read s.index = some (s.handler fe).read :=
  (foldl_registerIo_of_mem fe RegSlot.all o.io s.mem_all).1

theorem attach_write : (o.attach fe).write s.index = some (s.handler fe).write :=
  (foldl_registerIo_of_mem fe RegSlot.all o.io s.mem_all).2.1

theorem attach_writeByte : (o.attach fe).writeByte s.index = (s.handler fe).writeByte :=
  (foldl_registerIo_of_mem fe RegSlot.all o.io s.mem_all).2.2

/-- **What is installed at a halfword**: the handler of a slot, or what another device
installed there. -/
theorem attach_cases (i : ℕ) :
    (∃ s : RegSlot, (o.attach fe).read i = some (s.handler fe).read ∧
      (o.attach fe).write i = some (s.handler fe).write ∧
      (o.attach fe).writeByte i = (s.handler fe).writeByte) ∨
    ((o.attach fe).read i = o.io.read i ∧ (o.attach fe).write i = o.io.write i ∧
      (o.attach fe).writeByte i = o.io.writeByte i) := by
  by_cases h : ∃ s : RegSlot, i = s.index
  · obtain ⟨s, rfl⟩ := h
    exact .inl ⟨s, o.attach_read fe s, o.attach_write fe s, o.attach_writeByte fe s⟩
  · exact .inr (foldl_registerIo_of_ne fe RegSlot.all o.io fun s _ he => h ⟨s, he⟩)

end OtherDevices

/-! ### Accesses through an address -/

/-- The address of one of the two bytes of a slot. -/
def RegSlot.byteAddr (s : RegSlot) (odd : Bool) : U32 := s.addr + if odd then 1 else 0

namespace Bus

/-- An address lies in the register windows, and is folded onto a register byte. -/
structure Names (addr reg : U32) : Prop where
  window : 0x30000 ≤ (mask28 addr).toNat ∧ (mask28 addr).toNat < 0x80000
  normalize : normalizeIo (mask28 addr) = reg

instance (addr reg : U32) : Decidable (Names addr reg) :=
  decidable_of_iff (_ ∧ _) ⟨fun h => ⟨h.1, h.2⟩, fun h => ⟨h.1, h.2⟩⟩

variable {D : Type} (b : Bus D) {addr reg : U32}

theorem Names.classify (h : Names addr reg) : b.classify addr = .io := by
  have hwin := h.window
  unfold Bus.classify
  rw [regionOf_eq, if_neg (by omega), if_neg (by omega), if_pos hwin]

/-- Folding a register address keeps its lowest bit. -/
theorem getLsbD_normalizeIo (a : U32) : (normalizeIo a).getLsbD 0 = a.getLsbD 0 := by
  unfold normalizeIo
  split_ifs
  · have h1 : ioregBase.getLsbD 0 = false := by decide
    have h2 : (ioregSize - 1).getLsbD 0 = true := by decide
    rw [BitVec.getLsbD_or, BitVec.getLsbD_and, h1, h2, Bool.false_or, Bool.and_true]
  · rfl

theorem getLsbD_mask28 (a : U32) : (mask28 a).getLsbD 0 = a.getLsbD 0 := by
  have h : (0x0FFFFFFF : U32).getLsbD 0 = true := by decide
  unfold mask28
  rw [BitVec.getLsbD_and, h, Bool.and_true]

/-- The parity of an address in the register windows is that of the register byte. -/
theorem Names.getLsbD_zero (h : Names addr reg) : reg.getLsbD 0 = addr.getLsbD 0 := by
  rw [← h.normalize, getLsbD_normalizeIo, getLsbD_mask28]

/-- The halfword an address lies in names the halfword its register byte lies in. -/
theorem Names.down (h : Names addr reg) : Names (down 1 addr) (reg &&& ~~~1) := by
  obtain ⟨hwin, rfl⟩ := h
  have hdown := toNat_down 1 addr
  have hnat : (semihostBase).toNat = 0x60000 := by decide
  constructor
  · rw [mask28_down, hdown]
    omega
  · rw [mask28_down]
    have hlt : Bus.down 1 addr < semihostBase ↔ mask28 addr < semihostBase := by
      rw [BitVec.lt_def, BitVec.lt_def, hdown, hnat]
      omega
    unfold normalizeIo
    simp only [hlt]
    split_ifs
    · have hbase : ioregBase &&& ~~~1 = ioregBase := by decide
      unfold Bus.down
      rw [BitVec.and_or_distrib_right, hbase, BitVec.and_assoc, BitVec.and_assoc,
        BitVec.and_comm (~~~_) (ioregSize - 1)]
      rfl
    · rfl

end Bus

namespace RegSlot

variable (s : RegSlot) (odd : Bool)

/-- The register byte at an address of a slot is registered where the slot is. -/
theorem byteAddr_facts :
    Bus.ioIndex (s.byteAddr odd) = s.index ∧
      ((s.byteAddr odd - Bus.ioregBase) / 2).toNat = s.index ∧
      s.byteAddr odd &&& ~~~1 = s.addr ∧ (s.byteAddr odd).getLsbD 0 = odd := by
  have hall : ∀ s ∈ all, ∀ odd,
      Bus.ioIndex (s.byteAddr odd) = s.index ∧
        ((s.byteAddr odd - Bus.ioregBase) / 2).toNat = s.index ∧
        s.byteAddr odd &&& ~~~1 = s.addr ∧ (s.byteAddr odd).getLsbD 0 = odd := by
    decide +kernel
  exact hall s s.mem_all odd

@[simp] theorem byteAddr_even : s.byteAddr false = s.addr := BitVec.add_zero _

theorem getLsbD_addr : s.addr.getLsbD 0 = false := by
  have h := (s.byteAddr_facts false).2.2.2
  rwa [byteAddr_even] at h

end RegSlot

namespace OtherDevices

variable (o : OtherDevices) (fe : Frontend) (s : RegSlot) (b : Bus PiecePeripherals)
  {addr : U32} {odd : Bool}

/-- **A byte written to a slot** reaches its byte handler, or its halfword handler with
the byte. -/
theorem write8_slot (h : Bus.Names addr (s.byteAddr odd)) (v : U8) :
    b.write8 (o.attach fe) addr v =
      match (s.handler fe).writeByte with
      | some f => f (s.byteAddr odd) v b
      | none => (s.handler fe).write (s.byteAddr odd) (v.setWidth 16) b := by
  obtain ⟨-, hidx, -, -⟩ := s.byteAddr_facts odd
  have hc : b.classify (Bus.mask28 addr) = .io := by
    rw [← h.classify b]
    exact Bus.regionOf_mask28 _
  unfold Bus.write8
  dsimp only
  rw [hc]
  dsimp only
  rw [h.normalize, hidx, if_pos s.index_lt, o.attach_write, o.attach_writeByte]
  cases (s.handler fe).writeByte <;> rfl

/-- **A halfword written to a slot** reaches its halfword handler, with the address rounded
down and, where the access was misaligned, the fault raised. -/
theorem write16_slot (h : Bus.Names addr (s.byteAddr odd)) (v : U16) :
    b.write16 (o.attach fe) addr v =
      (s.handler fe).write (Bus.down 1 addr) v (b.flagged (Bus.misaligned 1 addr)) := by
  obtain ⟨-, hidx, hdown, -⟩ := s.byteAddr_facts odd
  have hnames := h.down
  rw [hdown] at hnames
  rw [Bus.write16_align]
  generalize b.flagged (Bus.misaligned 1 addr) = b'
  unfold Bus.write16
  rw [show (1 : U32) = BitVec.ofNat 32 (2 ^ 1 - 1) from rfl, Bus.alignTo_down]
  dsimp only
  have hreg : Bus.normalizeIo (Bus.down 1 addr) = s.addr := by
    rw [← hnames.normalize, Bus.mask28_down]
  have hidx' : ((s.addr - Bus.ioregBase) / 2).toNat = s.index := by
    have := (s.byteAddr_facts false).2.1
    rwa [RegSlot.byteAddr_even] at this
  rw [hnames.classify b']
  dsimp only
  rw [hreg, hidx', if_pos s.index_lt, o.attach_write]

/-- **A byte read from a slot** is one of the two bytes its read handler returns. -/
theorem read8_slot (h : Bus.Names addr (s.byteAddr odd)) :
    (b.read8 (o.attach fe) addr).1 =
      Words.lane odd ((s.handler fe).read s.addr b).1 := by
  obtain ⟨-, -, hdown, hodd⟩ := s.byteAddr_facts odd
  have hdown : s.byteAddr odd &&& ~~~1#32 = s.addr := hdown
  have hc : b.classify (Bus.mask28 addr) = .io := by
    rw [← h.classify b]
    exact Bus.regionOf_mask28 _
  have hidx : ((Bus.normalizeIo s.addr - Bus.ioregBase) / 2).toNat = s.index := rfl
  have hread : b.ioRead (o.attach fe) s.addr =
      some (((s.handler fe).read s.addr b).1,
        { b with dev := ((s.handler fe).read s.addr b).2 }) := by
    unfold Bus.ioRead
    dsimp only
    rw [hidx, if_pos s.index_lt, o.attach_read]
    rfl
  unfold Bus.read8
  dsimp only
  rw [hc]
  dsimp only
  rw [h.normalize, hdown, hread]
  have hbit : (Bus.mask28 addr).getLsbD 0 = odd := by
    rw [← Bus.getLsbD_normalizeIo, h.normalize, hodd]
  have hparity : Bus.mask28 addr &&& 1 ≠ 0 ↔ odd = true := by
    rw [Ne, Bus.and_one_eq_zero_iff, ← hbit, BitVec.getLsbD, Nat.testBit_zero, decide_eq_true_iff]
    omega
  simp only [hparity]
  cases odd with
  | false => exact if_neg Bool.false_ne_true
  | true => exact if_pos rfl

end OtherDevices

/-! ### The callback of the clock control -/

namespace Frontend

variable (fe : Frontend) (newHz : U32) (b : Bus PiecePeripherals)

@[simp] theorem askedWake_clk (p : PiecePeripherals) : p.askedWake.clk = p.clk := by
  unfold PiecePeripherals.askedWake
  split_ifs <;> rfl

@[simp] theorem askedWake_portctrl (p : PiecePeripherals) :
    p.askedWake.portctrl = p.portctrl := by
  unfold PiecePeripherals.askedWake
  split_ifs <;> rfl

@[simp] theorem askedWake_bcuArea (p : PiecePeripherals) : p.askedWake.bcuArea = p.bcuArea := by
  unfold PiecePeripherals.askedWake
  split_ifs <;> rfl

@[simp] theorem onClockChange_clk : (fe.onClockChange newHz b).dev.clk = b.dev.clk := by
  cases fe with
  | cpuRunner => exact askedWake_clk b.dev
  | libretro => rfl

@[simp] theorem onClockChange_portctrl :
    (fe.onClockChange newHz b).dev.portctrl = b.dev.portctrl := by
  cases fe with
  | cpuRunner => exact askedWake_portctrl b.dev
  | libretro => rfl

@[simp] theorem onClockChange_bcuArea :
    (fe.onClockChange newHz b).dev.bcuArea = b.dev.bcuArea := by
  cases fe with
  | cpuRunner => exact askedWake_bcuArea b.dev
  | libretro => rfl

variable (f : ClockControl → ClockControl × Option U32)

/-- A register write of the clock control leaves in it what the write makes of it. -/
@[simp] theorem clkWrite_clk : (fe.clkWrite f b).dev.clk = (f b.dev.clk).1 := by
  unfold clkWrite
  cases h : (f b.dev.clk).2 with
  | none => simp [h]
  | some newHz => simp [h]

@[simp] theorem clkWrite_portctrl : (fe.clkWrite f b).dev.portctrl = b.dev.portctrl := by
  unfold clkWrite
  cases h : (f b.dev.clk).2 with
  | none => simp [h]
  | some newHz => simp [h]

@[simp] theorem clkWrite_bcuArea : (fe.clkWrite f b).dev.bcuArea = b.dev.bcuArea := by
  unfold clkWrite
  cases h : (f b.dev.clk).2 with
  | none => simp [h]
  | some newHz => simp [h]

end Frontend

/-- A write to the ports has no part in the area registers. -/
@[simp] theorem PortReg.notifying_bcuArea (fe : Frontend) (f : PortCtrl → PortCtrl)
    (b : Bus PiecePeripherals) (r : PortReg) :
    (r.notifying fe f b).dev.bcuArea = b.dev.bcuArea := by
  unfold notifying p07Notify
  dsimp only
  split_ifs
  · exact Frontend.clkWrite_bcuArea fe _ _
  · rfl
  · rfl

/-! ### Invariants of the devices, slot by slot -/

/-- The handlers of a halfword keep a predicate of the bus and the trap table base. -/
structure IoHandler.Keeps {D : Type} (h : IoHandler D) (P : Bus D → U32 → Prop) : Prop where
  read : ∀ addr (b : Bus D) t, P b t → P { b with dev := (h.read addr b).2 } t
  write : ∀ addr v (b : Bus D) t, P b t →
    P (h.write addr v b).1 ((h.write addr v b).2.ttbr.getD t)
  writeByte : ∀ f, h.writeByte = some f → ∀ addr v (b : Bus D) t, P b t →
    P (f addr v b).1 ((f addr v b).2.ttbr.getD t)

/-- **What is installed keeps a predicate** when the handlers of every slot do, and those of
the other devices. -/
theorem OtherDevices.attach_invariant {o : OtherDevices} {fe : Frontend}
    {P : Bus PiecePeripherals → U32 → Prop} (hslot : ∀ s : RegSlot, (s.handler fe).Keeps P)
    (ho : DeviceInvariant o.io P) : DeviceInvariant (o.attach fe) P where
  congr := ho.congr
  flashWrite := ho.flashWrite
  read := by
    intro i h hf addr b t hb
    rcases o.attach_cases fe i with ⟨s, hr, -, -⟩ | ⟨hr, -, -⟩
    · obtain rfl := Option.some.inj (hr.symm.trans hf)
      exact (hslot s).read addr b t hb
    · exact ho.read (hr ▸ hf) addr b t hb
  write := by
    intro i h hf addr v b t hb
    rcases o.attach_cases fe i with ⟨s, -, hw, -⟩ | ⟨-, hw, -⟩
    · obtain rfl := Option.some.inj (hw.symm.trans hf)
      exact (hslot s).write addr v b t hb
    · exact ho.write (hw ▸ hf) addr v b t hb
  writeByte := by
    intro i h hf addr v b t hb
    rcases o.attach_cases fe i with ⟨s, -, -, hw⟩ | ⟨-, -, hw⟩
    · exact (hslot s).writeByte h (hw.symm.trans hf) addr v b t hb
    · exact ho.writeByte (hw ▸ hf) addr v b t hb

namespace ClkReg

variable {fe : Frontend} {P : Bus PiecePeripherals → U32 → Prop}
  (hclk : ∀ reg v b t, P b t → P (fe.clkWrite (·.writeSingle reg v) b) t)
include hclk

theorem keeps_writeLow (reg addr : U32) (v : U16) (b : Bus PiecePeripherals) (t : U32)
    (h : P b t) : P (writeLow fe reg addr v b) t := by
  unfold writeLow
  split_ifs
  · exact h
  · exact hclk reg _ b t h

theorem keeps_write (r : ClkReg) (addr : U32) (v : U16) (b : Bus PiecePeripherals) (t : U32)
    (h : P b t) : P (r.write fe addr v b) t := by
  have hpair (reg : U32) : P (write.writePair fe v b reg) t := hclk _ _ _ t (hclk _ _ b t h)
  cases r with
  | clkselT8_45 => exact keeps_writeLow hclk 0x040140 addr v b t h
  | clkctlT8_45 => exact hclk 0x040145 _ b t h
  | clkselT8 => exact hpair 0x040146
  | clkctlT16_1 => exact hpair 0x040148
  | clkctlT16_3 => exact hpair 0x04014A
  | clkctlT16_5 => exact hpair 0x04014C
  | clkctlT8_23 => exact keeps_writeLow hclk 0x04014E addr v b t h
  | pwrctl => exact keeps_writeLow hclk 0x040180 addr v b t h

theorem keeps_writeByte (r : ClkReg) {f : U32 → U8 → Bus PiecePeripherals → Bus PiecePeripherals}
    (hf : r.writeByte fe = some f) (addr : U32) (v : U8) (b : Bus PiecePeripherals) (t : U32)
    (h : P b t) : P (f addr v b) t := by
  cases r with
  | clkselT8_45 | clkctlT8_23 | pwrctl => cases hf
  | clkctlT8_45 =>
    cases hf
    dsimp only
    split_ifs
    · exact hclk 0x040145 v b t h
    · exact h
  | clkselT8 | clkctlT16_1 | clkctlT16_3 | clkctlT16_5 =>
    cases hf
    exact hclk addr v b t h

/-- The handlers of the clock control keep what a write to one of its registers keeps. -/
theorem keeps_handler (r : ClkReg) : ((RegSlot.clk r).handler fe).Keeps P := by
  refine ⟨fun _ _ _ h => h, fun addr v b t h => keeps_write hclk r addr v b t h, ?_⟩
  intro f hf addr v b t h
  obtain ⟨g, hg, rfl⟩ := Option.map_eq_some_iff.mp hf
  exact keeps_writeByte hclk r hg addr v b t h

end ClkReg

/-- **What a predicate of the clock control, the ports, the area registers and the
divisor has to stand** to be an invariant of the board: the register writes of the clock
control, the writes to the ports, and the writes to the area registers. -/
structure ControlInvariant (fe : Frontend) (P : Bus PiecePeripherals → U32 → Prop) : Prop where
  congr : ∀ {b b' t}, Bus.SameControl b b' → P b t → P b' t
  clk : ∀ reg v b t, P b t → P (fe.clkWrite (·.writeSingle reg v) b) t
  port : ∀ addr v b t r, P b t → P (PortReg.notifying fe (PortReg.write addr v · r) b r) t
  portByte : ∀ addr v b t r f, PortReg.writeByte r = some f → P b t →
    P (PortReg.notifying fe (f addr v) b r) t
  bcu : ∀ v b t r, P b t → P (BcuReg.write v b r).1 ((BcuReg.write v b r).2.ttbr.getD t)

namespace ControlInvariant

variable {fe : Frontend} {P : Bus PiecePeripherals → U32 → Prop} (hP : ControlInvariant fe P)
include hP

/-- A handler that changes other devices alone keeps the predicate. -/
theorem writing {V : Type} {f : U32 → V → PiecePeripherals → PiecePeripherals}
    (hclk : ∀ addr v p, (f addr v p).clk = p.clk)
    (hport : ∀ addr v p, (f addr v p).portctrl.pport = p.portctrl.pport)
    (hbcu : ∀ addr v p, (f addr v p).bcuArea = p.bcuArea) (addr : U32) (v : V)
    (b : Bus PiecePeripherals) (t : U32) (h : P b t) :
    P (PiecePeripherals.writing f addr v b).1
      ((PiecePeripherals.writing f addr v b).2.ttbr.getD t) :=
  hP.congr ⟨hclk addr v b.dev, hport addr v b.dev, hbcu addr v b.dev, rfl⟩ h

/-- The handlers of every slot keep the predicate. -/
theorem handler (s : RegSlot) : (s.handler fe).Keeps P := by
  cases s with
  | intc i =>
    refine ⟨fun _ _ _ h => h, hP.writing (by intros; rfl) (by intros; rfl) (by intros; rfl), ?_⟩
    rintro f ⟨⟩
    exact hP.writing (by intros; rfl) (by intros; rfl) (by intros; rfl)
  | clk r => exact ClkReg.keeps_handler hP.clk r
  | t8 ch r =>
    cases r with
    | ctl =>
      refine ⟨fun _ _ _ h => h, hP.writing (by intros; rfl) (by intros; rfl) (by intros; rfl), ?_⟩
      rintro f ⟨⟩
      exact hP.writing (by intros; rfl) (by intros; rfl) (by intros; rfl)
    | ptd => exact ⟨fun _ _ _ h => h, fun _ _ _ _ h => h, fun _ hf => by cases hf⟩
  | t16 ch r =>
    exact ⟨fun _ _ _ h => h, hP.writing (by intros; rfl) (by intros; rfl) (by intros; rfl),
      fun _ hf => by cases hf⟩
  | port r =>
    refine ⟨fun _ _ _ h => h, fun addr v b t h => hP.port addr v b t r h, ?_⟩
    intro f hf addr v b t h
    obtain ⟨g, hg, rfl⟩ := Option.map_eq_some_iff.mp hf
    exact hP.portByte addr v b t r g hg h
  | bcu r =>
    exact ⟨fun _ _ _ h => h, fun _ v b t h => hP.bcu v b t r h, fun _ hf => by cases hf⟩
  | wdt =>
    refine ⟨fun _ _ _ h => h, hP.writing (by intros; rfl) (by intros; rfl) (by intros; rfl), ?_⟩
    rintro f ⟨⟩
    exact hP.writing (by intros; rfl) (by intros; rfl) (by intros; rfl)
  | hsdma ch r =>
    exact ⟨fun _ _ _ h => h, hP.writing (by intros; rfl) (by intros; rfl) (by intros; rfl),
      fun _ hf => by cases hf⟩

/-- **Such a predicate is an invariant** of the registers of the board, whatever the other
devices are. -/
theorem attach (o : OtherDevices) : DeviceInvariant (o.attach fe) P :=
  OtherDevices.attach_invariant hP.handler
    { congr := fun h hdev hdiv _ => hP.congr ⟨by rw [hdev], by rw [hdev], by rw [hdev], hdiv⟩ h
      flashWrite := fun {b t} h offset v =>
        hP.congr (show Bus.SameControl b (b.flashWrite16 offset v) from ⟨rfl, rfl, rfl, rfl⟩) h
      read := fun hf addr b _ hb => hP.congr (o.read hf addr b) hb
      write := by
        intro i h hf addr v b t hb
        obtain ⟨hsame, hreq⟩ := o.write hf addr v b
        rw [hreq]
        exact hP.congr hsame hb
      writeByte := by
        intro i h hf addr v b t hb
        obtain ⟨hsame, hreq⟩ := o.writeByte hf addr v b
        rw [hreq]
        exact hP.congr hsame hb }

end ControlInvariant
