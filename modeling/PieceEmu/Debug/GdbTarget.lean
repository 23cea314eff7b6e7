import Mathlib.Data.Set.Insert
import PieceEmu.Core.FlatView
import PieceEmu.Debug.GdbTransfer

/-!
# What the debugger sees of the target

A debugger that only inspects and changes the target (it does not run the CPU) sees three
things: twenty-one registers, one flat byte memory, and a set of break and watchpoints.
`Target` is that view, `Target.answer` what a request gets for an answer and does, and
`GdbRsp.session_refines` says that the server is this target: over any sequence of the
packets `g`, `G`, `p`, `P`, `m`, `M`, `Z` and `z`, in any order, it sends the answers of the
target, one a packet, and is left as the target is left.

The numbers of a packet may have any number of digits, in either case.

| part of the server | part of the target | one packet |
|---|---|---|
| the switches over register numbers | `Target.reg` | `RspM.run_G` |
| `read8` and `write8` of the bus | `Target.memory` | `RspM.run_m`, `RspM.run_M` |
| a set and a vector | `Target.points` | `RspM.run_point` |
-/

open CText

/-! ### The digits of a number -/

namespace CText

theorem isHex_ne_separator (c : U8) (h : isHex c = true) : c ≠ ch ',' ∧ c ≠ ch ':' := by
  revert c
  decide +kernel

/-- The digits of a word. -/
structure WordText (ds : List U8) (v : U32) : Prop where
  nonempty : ds ≠ []
  digits : ∀ c ∈ ds, isHex c = true
  value : ofDigits ds = v.toNat

/-- What ends a number: it is no digit, and no `x` behind a `0`. -/
def EndsNumber (rest : List U8) : Prop :=
  ∀ c ∈ rest.head?, isHex c = false ∧ c ≠ ch 'x' ∧ c ≠ ch 'X'

theorem endsNumber_nil : EndsNumber [] := nofun

theorem endsNumber_comma (rest : List U8) : EndsNumber (ch ',' :: rest) := by
  rintro _ ⟨⟩
  decide

theorem endsNumber_colon (rest : List U8) : EndsNumber (ch ':' :: rest) := by
  rintro _ ⟨⟩
  decide

variable {ds rest : List U8} {v : U32}

theorem hasHexPrefix_append (hds : ∀ c ∈ ds, isHex c = true) (hne : ds ≠ [])
    (hrest : EndsNumber rest) : hasHexPrefix (ds ++ rest) = false := by
  match ds with
  | [] => exact absurd rfl hne
  | [c] =>
    cases rest with
    | nil => exact hasHexPrefix_of_isHex hds
    | cons d rest =>
      obtain ⟨-, hx, hX⟩ := hrest d rfl
      simp [hasHexPrefix, hx, hX]
  | c :: d :: ds =>
    obtain ⟨-, -, -, hx, hX, -⟩ := isHex_distinct d (hds d (by simp))
    simp [hasHexPrefix, hx, hX]

/-- **`%x` reads digits** up to what ends them. -/
theorem scanHex_digits (hne : ds ≠ []) (hds : ∀ c ∈ ds, isHex c = true)
    (hrest : EndsNumber rest) : scanHex (ds ++ rest) = some (⟨false, ofDigits ds⟩, rest) := by
  have hstop : rest.takeWhile isHex = [] ∧ rest.dropWhile isHex = rest := by
    cases rest with
    | nil => exact ⟨rfl, rfl⟩
    | cons d rest =>
      have hd : ¬isHex d = true := by simp [(hrest d rfl).1]
      exact ⟨List.takeWhile_cons_of_neg hd, List.dropWhile_cons_of_neg hd⟩
  have hsign : splitSign ((ds ++ rest).dropWhile isSpace) = (false, ds ++ rest) := by
    obtain ⟨c, t, rfl⟩ := List.exists_cons_of_ne_nil hne
    obtain ⟨hspace, hminus, hplus, -⟩ := isHex_distinct c (hds c List.mem_cons_self)
    rw [List.cons_append, List.dropWhile_cons_of_neg (by rw [hspace]; exact Bool.false_ne_true)]
    simp only [splitSign, if_neg hminus, if_neg hplus]
  have htake : (ds ++ rest).takeWhile isHex = ds := by
    rw [List.takeWhile_append_of_pos hds, hstop.1, List.append_nil]
  have hdrop : (ds ++ rest).dropWhile isHex = rest := by
    rw [List.dropWhile_append_of_pos hds, hstop.2]
  simp only [scanHex, hsign, hasHexPrefix_append hds hne hrest, Bool.false_eq_true, if_false,
    htake, hdrop, if_neg hne]

namespace WordText

theorem scanHex (h : WordText ds v) (hrest : EndsNumber rest) :
    CText.scanHex (ds ++ rest) = some (⟨false, v.toNat⟩, rest) := by
  rw [scanHex_digits h.nonempty h.digits hrest, h.value]

end WordText

theorem toWord_toNat (v : U32) : (Num.mk false v.toNat).toWord 32 = v := by
  rw [Num.toWord, if_pos (by have := v.isLt; simp only; omega)]
  exact BitVec.ofInt_natCast .. |>.trans (BitVec.ofNat_toNat ..) |>.trans (BitVec.setWidth_eq ..)

/-- **Two words with a comma between them.** -/
theorem scanHexPair_digits {as bs : List U8} {a b : U32} (ha : WordText as a)
    (hb : WordText bs b) (hrest : EndsNumber rest) :
    scanHexPair (as ++ ch ',' :: (bs ++ rest)) = (a, b) := by
  rw [scanHexPair, ha.scanHex (endsNumber_comma _)]
  simp only [List.head?_cons, List.tail_cons, if_true, hb.scanHex hrest, toWord_toNat]

/-- **The two digits of a byte**, in either case. -/
theorem scanHexByte_digits {b : U8} (h : ds.map lower = formatHex8 b) (rest : List U8) :
    scanHexByte (ds ++ rest) = b := by
  obtain ⟨c, ds, rfl, hc, h⟩ := List.map_eq_cons_iff.mp h
  obtain ⟨d, ds, rfl, hd, h⟩ := List.map_eq_cons_iff.mp h
  obtain rfl := List.map_eq_nil_iff.mp h
  have hcv : hexVal c = some (b.toNat / 16) := by
    rw [← hexVal_lower, hc, hexVal_hexDigit (by have := b.isLt; omega)]
  have hdv : hexVal d = some (b.toNat % 16) := by
    rw [← hexVal_lower, hd, hexVal_hexDigit (by omega)]
  have hhex : ∀ x ∈ [c, d], isHex x = true := by
    simp [isHex, hcv, hdv]
  obtain ⟨hspace, -⟩ := isHex_distinct c (hhex c List.mem_cons_self)
  have hvalue : ofDigits [c, d] = b.toNat := by
    simp only [ofDigits, List.foldl_cons, List.foldl_nil, hcv, hdv, Option.getD_some]
    omega
  have hscan : CText.scanHex [c, d] = some (⟨false, b.toNat⟩, []) := by
    have := scanHex_digits (List.cons_ne_nil c [d]) hhex endsNumber_nil
    rwa [List.append_nil, hvalue] at this
  rw [scanHexByte, List.cons_append, List.dropWhile_cons_of_neg (by simp [hspace])]
  simp only [List.cons_append, List.nil_append, List.take_succ_cons, List.take_zero, hscan]
  rw [Num.toWord, if_pos (by have := b.isLt; simp only; omega)]
  exact BitVec.ofInt_natCast .. |>.trans (BitVec.ofNat_toNat ..) |>.trans (BitVec.setWidth_eq ..)

end CText

/-! ### The target -/

/-- What the debugger sees of the target. -/
structure Target where
  reg : Fin 21 → U32
  memory : FlatMemory
  points : Set ZPoint

/-- What a debugger asks for. -/
inductive TargetRequest
  | readRegs
  | writeRegs (vals : Fin 21 → U32)
  | readReg (n : Fin 21)
  | writeReg (n : Fin 21) (val : U32)
  | readMem (addr len : U32)
  | writeMem (addr : U32) (bytes : List U8)
  | insert (pt : ZPoint)
  | remove (pt : ZPoint)

namespace FlatMemory

/-- Bytes from an address on. -/
def readBytes (m : FlatMemory) (addr : U32) (n : ℕ) : List U8 :=
  (List.range n).map fun i => m.bytes (Bus.flatIndex (addr + BitVec.ofNat 32 i))

/-- Bytes, stored one after the other. -/
def writeBytes (m : FlatMemory) (addr : U32) : List U8 → FlatMemory
  | [] => m
  | v :: vs =>
    (m.store (Function.update m.bytes (Bus.flatIndex addr) v)).writeBytes (addr + 1) vs

theorem add_ofNat_succ (addr : U32) (i : ℕ) :
    addr + BitVec.ofNat 32 (i + 1) = addr + 1 + BitVec.ofNat 32 i := by
  rw [Nat.add_comm, BitVec.ofNat_add, ← BitVec.add_assoc]
  rfl

theorem readBytes_succ (m : FlatMemory) (addr : U32) (n : ℕ) :
    m.readBytes addr (n + 1) = m.bytes (Bus.flatIndex addr) :: m.readBytes (addr + 1) n := by
  rw [readBytes, List.range_succ_eq_map, List.map_cons, List.map_map, BitVec.add_zero]
  refine congrArg (_ :: ·) (List.map_congr_left fun i _ => ?_)
  rw [Function.comp_apply, Nat.succ_eq_add_one, add_ofNat_succ]

end FlatMemory

/-- The target after bytes are stored. -/
def Target.store (t : Target) (addr : U32) (bytes : List U8) : Target :=
  { t with memory := t.memory.writeBytes addr bytes }

/-- **The answer of the target**, and the target afterwards. -/
def Target.answer (t : Target) : TargetRequest → List U8 × Target
  | .readRegs => ((List.finRange 21).flatMap fun n => toHex32 (t.reg n), t)
  | .writeRegs vals => (str "OK", { t with reg := vals })
  | .readReg n => (toHex32 (t.reg n), t)
  | .writeReg n val => (str "OK", { t with reg := Function.update t.reg n val })
  | .readMem addr len => ((t.memory.readBytes addr len.toNat).flatMap toHex8, t)
  | .writeMem addr bytes => (str "OK", t.store addr bytes)
  | .insert pt => (str "OK", { t with points := insert pt t.points })
  | .remove pt => (str "OK", { t with points := t.points \ {pt} })

/-- The fields of a packet about a point: its type, its address and its kind. -/
def PointText (fields : List U8) (pt : ZPoint) : Prop :=
  ∃ t addrText kindText addr kind,
    fields = t :: ch ',' :: addrText ++ ch ',' :: kindText ∧
    WordText addrText addr ∧ WordText kindText kind ∧
    ZPoint.ofType (t.toInt - '0'.toNat) addr (if kind = 0 then 4 else kind) = some pt

/-- **The packet of a request.** The index of a digit has 32 bits, so the bytes of one
packet are at most `2 ^ 31`. -/
def TargetRequest.IsText (pkt : List U8) : TargetRequest → Prop
  | readRegs => pkt = str "g"
  | writeRegs vals => ∃ digits, pkt = ch 'G' :: digits ∧
      digits.map lower = (List.finRange 21).flatMap fun n => toHex32 (vals n)
  | readReg n => ∃ num, pkt = ch 'p' :: num ∧ NumberText num n
  | writeReg n val => ∃ num digits, pkt = ch 'P' :: num ++ ch '=' :: digits ∧
      NumberText num n ∧ digits.map lower = toHex32 val
  | readMem addr len => ∃ addrText lenText, pkt = ch 'm' :: addrText ++ ch ',' :: lenText ∧
      WordText addrText addr ∧ WordText lenText len
  | writeMem addr bytes => ∃ addrText lenText digits,
      pkt = ch 'M' :: addrText ++ ch ',' :: lenText ++ ch ':' :: digits ∧
      WordText addrText addr ∧ WordText lenText (BitVec.ofNat 32 bytes.length) ∧
      digits.map lower = bytes.flatMap toHex8 ∧ bytes.length ≤ 2 ^ 31
  | insert pt => ∃ fields, pkt = ch 'Z' :: fields ∧ PointText fields pt
  | remove pt => ∃ fields, pkt = ch 'z' :: fields ∧ PointText fields pt

/-- The memory a request is about: what it reads is mapped, what it writes is RAM. -/
def TargetRequest.OnMemory {D : Type} (b : Bus D) : TargetRequest → Prop
  | readMem addr len => ∀ i < len.toNat, b.Mapped (addr + BitVec.ofNat 32 i)
  | writeMem addr bytes => ∀ i < bytes.length, b.InRam (addr + BitVec.ofNat 32 i)
  | _ => True

/-! ### The server as the target -/

namespace GdbRsp

variable {D : Type} (io : IoSpace D) (g : GdbRsp D)

/-- The break and watchpoints of the server. -/
def points : Set ZPoint :=
  {pt | match pt with
    | .breakpoint addr => g.breakpoints addr = true
    | .watchpoint wp => wp ∈ g.machine.bus.watchpoints}

/-- **What the debugger sees of the server.** -/
def target : Target := ⟨g.machine.cpu.reg, g.machine.bus.flat, g.points⟩

theorem target_writeReg (n : Fin 21) (v : U32) :
    (g.act io (.writeReg n v)).target =
      { g.target with reg := Function.update g.target.reg n v } := by
  have hreg : (g.machine.cpu.regWriteN n v).reg = Function.update g.machine.cpu.reg n v := by
    funext m
    rw [CpuState.reg_regWriteN, Function.update_apply]
  exact congrArg (fun reg => (⟨reg, g.machine.bus.flat, g.points⟩ : Target)) hreg

/-- A point that is inserted. -/
theorem target_insert (pt : ZPoint) :
    (g.act io (.insert pt)).target = { g.target with points := insert pt g.points } := by
  have hpoints : (g.act io (.insert pt)).points = insert pt g.points := by
    ext q
    cases pt with
    | breakpoint addr =>
      cases q with
      | breakpoint a => by_cases h : a = addr <;> simp [act, points, Function.update_apply, h]
      | watchpoint wp => simp [act, points]
    | watchpoint w =>
      cases q with
      | breakpoint a => simp [act, points, mapWatchpoints]
      | watchpoint wp => simp [act, points, mapWatchpoints, or_comm]
  cases pt with
  | breakpoint addr => exact congrArg (Target.mk g.machine.cpu.reg g.machine.bus.flat) hpoints
  | watchpoint w => exact congrArg (Target.mk g.machine.cpu.reg g.machine.bus.flat) hpoints

/-- A point that is removed, however often it was inserted. -/
theorem target_remove (pt : ZPoint) :
    (g.act io (.remove pt)).target = { g.target with points := g.points \ {pt} } := by
  have hpoints : (g.act io (.remove pt)).points = g.points \ {pt} := by
    ext q
    cases pt with
    | breakpoint addr =>
      cases q with
      | breakpoint a => by_cases h : a = addr <;> simp [act, points, Function.update_apply, h]
      | watchpoint wp => simp [act, points]
    | watchpoint w =>
      cases q with
      | breakpoint a => simp [act, points, mapWatchpoints]
      | watchpoint wp => simp [act, points, mapWatchpoints]
  cases pt with
  | breakpoint addr => exact congrArg (Target.mk g.machine.cpu.reg g.machine.bus.flat) hpoints
  | watchpoint w => exact congrArg (Target.mk g.machine.cpu.reg g.machine.bus.flat) hpoints

end GdbRsp

namespace Bus

variable {D : Type} (io : IoSpace D) {b : Bus D} {addr : U32}

/-- A write to RAM asks nothing of the CPU and leaves the watchpoints alone. -/
theorem write8_inRam_rest (v : U8) (hm : b.InRam addr) :
    (b.write8 io addr v).2 = {} ∧ (b.write8 io addr v).1.watchpoints = b.watchpoints := by
  have hclass : b.classify (mask28 addr) = b.classify addr := regionOf_mask28 _
  rw [write8]
  dsimp only
  rw [hclass]
  rcases hm with h | h
  · rw [h]
    exact ⟨rfl, rfl⟩
  · rw [h]
    dsimp only
    split_ifs
    · obtain ⟨calls, shadow, heq⟩ := (b.charge (b.extWriteCycles b.sramWait)).noteSramWrite_eq
        (mask28 addr) (v.setWidth 32) 1
      rw [heq]
      exact ⟨rfl, rfl⟩
    · exact ⟨rfl, rfl⟩

theorem Mapped.of_keeps {b' : Bus D} (h : b.Mapped addr) (hk : b'.Keeps b) : b'.Mapped addr := by
  unfold Mapped classify at h ⊢
  rwa [hk.2]

theorem InRam.of_keeps {b' : Bus D} (h : b.InRam addr) (hk : b'.Keeps b) : b'.InRam addr := by
  unfold InRam classify at h ⊢
  rwa [hk.2]

theorem Keeps.trans {b₁ b₂ b₃ : Bus D} (h : b₂.Keeps b₁) (h' : b₃.Keeps b₂) : b₃.Keeps b₁ :=
  ⟨h'.1.trans h.1, h'.2.trans h.2⟩

end Bus

theorem TargetRequest.OnMemory.of_keeps {D : Type} {b b' : Bus D} {r : TargetRequest}
    (h : r.OnMemory b) (hk : b'.Keeps b) : r.OnMemory b' := by
  cases r with
  | readMem addr len => exact fun i hi => (h i hi).of_keeps hk
  | writeMem addr bytes => exact fun i hi => (h i hi).of_keeps hk
  | readRegs | writeRegs | readReg | writeReg | insert | remove => trivial

namespace RspM

variable {D : Type} (io : IoSpace D) (run : Bool → GdbRsp D → Option (GdbRsp D × List U8))

/-- **The bytes of `m`** are those of the memory. -/
theorem run_readMem_mapped (n : ℕ) (addr : U32) (s : RspSession D)
    (hm : ∀ i < n, s.server.machine.bus.Mapped (addr + BitVec.ofNat 32 i)) :
    ∃ s', (readMem io n addr).run s =
        .ok ((s.server.machine.bus.flat.readBytes addr n).flatMap toHex8) s' ∧
      s'.replies = s.replies ∧ s'.server.target = s.server.target ∧
      s'.server.machine.bus.Keeps s.server.machine.bus := by
  induction n generalizing addr s with
  | zero => exact ⟨s, rfl, rfl, rfl, rfl, rfl⟩
  | succ n ih =>
    have hfirst : s.server.machine.bus.Mapped addr := by
      have := hm 0 (Nat.succ_pos n)
      rwa [BitVec.add_zero] at this
    obtain ⟨hval, hflat, hkeeps⟩ := Bus.read8_mapped io _ hfirst
    have hwp := (s.server.machine.bus.read8_kept io addr).2
    have htarget : (s.load8 io addr).server.target = s.server.target := by
      have hpoints : (s.load8 io addr).server.points = s.server.points := by
        ext q
        cases q with
        | breakpoint a => rfl
        | watchpoint wp => exact iff_of_eq (congrArg (wp ∈ ·) hwp)
      exact congrArg₂ (Target.mk s.server.machine.cpu.reg) hflat hpoints
    obtain ⟨s', hrun, hreplies, htarget', hkeeps'⟩ := ih (addr + 1) (s.load8 io addr)
      fun i hi => by
        have := hm (i + 1) (Nat.succ_lt_succ hi)
        rw [FlatMemory.add_ofNat_succ] at this
        exact this.of_keeps hkeeps
    refine ⟨s', ?_, hreplies, htarget'.trans htarget, hkeeps.trans hkeeps'⟩
    have hmem : (s.load8 io addr).server.machine.bus.flat = s.server.machine.bus.flat := hflat
    rw [readMem, run_bind_ok (run_read8 ..), run_bind_ok hrun, hmem, FlatMemory.readBytes_succ,
      List.flatMap_cons,
      show (s.server.machine.read8 io addr).1 = s.server.machine.bus.flat.bytes _ from hval]
    rfl

/-- One byte of `M`. -/
theorem target_act_writeMem (s : RspSession D) {addr : U32} (v : U8)
    (hb : s.server.machine.bus.WellSized) (hm : s.server.machine.bus.InRam addr) :
    (s.act io (.writeMem addr v)).server.target =
        s.server.target.store addr [v] ∧
      (s.act io (.writeMem addr v)).server.machine.bus.Keeps s.server.machine.bus := by
  obtain ⟨hflat, hkeeps⟩ := Bus.write8_inRam io _ hb v hm
  obtain ⟨hreq, hwp⟩ := Bus.write8_inRam_rest io v hm
  refine ⟨?_, hkeeps⟩
  have hcpu : (s.act io (.writeMem addr v)).server.machine.cpu = s.server.machine.cpu := by
    change (Machine.request _ _).cpu = _
    rw [hreq, Machine.request]
    simp
  have hpoints : (s.act io (.writeMem addr v)).server.points = s.server.points := by
    ext q
    cases q with
    | breakpoint a => rfl
    | watchpoint wp => exact iff_of_eq (congrArg (wp ∈ ·) hwp)
  unfold GdbRsp.target
  rw [hcpu, hpoints]
  exact congrArg (Target.mk s.server.machine.cpu.reg · s.server.points) hflat

theorem length_flatMap_toHex8 (bytes : List U8) :
    (bytes.flatMap toHex8).length = 2 * bytes.length := by
  induction bytes with
  | nil => rfl
  | cons b bytes ih =>
    rw [List.flatMap_cons, List.length_append, ih, List.length_cons, Nat.mul_succ, Nat.add_comm]
    rfl

/-- **The bytes of `M`**, from the `k`th on, are stored in the memory. -/
theorem run_writeMem_digits (addr : U32) {digits bytes : List U8}
    (hdigits : digits.map lower = bytes.flatMap toHex8) (hlen : bytes.length ≤ 2 ^ 31)
    (n k : ℕ) (hk : k + n = bytes.length) (s : RspSession D)
    (hb : s.server.machine.bus.WellSized)
    (hm : ∀ i < bytes.length, s.server.machine.bus.InRam (addr + BitVec.ofNat 32 i)) :
    ∃ s', (writeMem io addr digits n (BitVec.ofNat 32 k)).run s = .ok () s' ∧
      s'.replies = s.replies ∧
      s'.server.target = s.server.target.store (addr + BitVec.ofNat 32 k) (bytes.drop k) ∧
      s'.server.machine.bus.Keeps s.server.machine.bus := by
  induction n generalizing k s with
  | zero =>
    refine ⟨s, rfl, rfl, ?_, rfl, rfl⟩
    rw [List.drop_eq_nil_of_le (by omega)]
    rfl
  | succ n ih =>
    have hlt : k < bytes.length := by omega
    have hlength : digits.length = 2 * bytes.length := by
      rw [← List.length_map lower, hdigits, length_flatMap_toHex8]
    have hindex : (BitVec.ofNat 32 k * 2).toNat = 2 * k := by bv_omega
    -- the two digits of the byte `k`
    obtain ⟨front, back, hsplit, hfront⟩ := exists_split_flatMap (f := toHex8) (w := 2)
      (fun _ => rfl) (List.getElem?_eq_getElem hlt)
    have hpair : ((digits.drop (2 * k)).take 2).map lower = toHex8 bytes[k] := by
      rw [List.map_take, List.map_drop, hdigits, hsplit, List.append_assoc,
        List.drop_left' hfront]
      exact List.take_left' rfl
    have hbyte : scanHexByte (digits.drop (2 * k)) = bytes[k] := by
      rw [← List.take_append_drop 2 (digits.drop (2 * k))]
      exact scanHexByte_digits hpair _
    obtain ⟨htarget, hkeeps⟩ := target_act_writeMem io s bytes[k] hb (hm k hlt)
    obtain ⟨s', hrun, hreplies, htarget', hkeeps'⟩ := ih (k + 1) (by omega)
      (s.act io (.writeMem (addr + BitVec.ofNat 32 k) bytes[k])) (hb.of_keeps hkeeps)
      fun i hi => (hm i hi).of_keeps hkeeps
    refine ⟨s', ?_, hreplies, ?_, hkeeps.trans hkeeps'⟩
    · have hnext : (BitVec.ofNat 32 k : U32) + 1 = BitVec.ofNat 32 (k + 1) := by
        rw [BitVec.ofNat_add]
        rfl
      rw [writeMem, hindex, if_pos (by bv_omega), run_lift_bind (cStr_of_le (by omega)),
        hbyte, run_bind_ok (run_act ..), hnext, hrun]
    · have hnext : addr + BitVec.ofNat 32 (k + 1) = addr + BitVec.ofNat 32 k + 1 :=
        (congrArg (addr + ·) (BitVec.ofNat_add ..)).trans (BitVec.add_assoc ..).symm
      rw [htarget', htarget, List.drop_eq_getElem_cons hlt, hnext]
      rfl

/-- **The registers of `G`**, from the `i`th on, are set. -/
theorem run_writeRegs_values {hex : List U8} {vals : Fin 21 → U32}
    (hhex : ∀ n : Fin 21, fromHex32 hex (8 * n) = .ok (vals n)) (n i : ℕ) (hi : i + n = 21)
    (s : RspSession D) :
    ∃ s', (writeRegs io hex n i).run s = .ok () s' ∧ s'.replies = s.replies ∧
      s'.server.target =
        { s.server.target with
          reg := fun m => if i ≤ m.val then vals m else s.server.target.reg m } ∧
      s'.server.machine.bus = s.server.machine.bus := by
  induction n generalizing i s with
  | zero =>
    refine ⟨s, rfl, rfl, ?_, rfl⟩
    refine congrArg (fun reg => ({ s.server.target with reg } : Target)) (funext fun m => ?_)
    exact (if_neg (by omega)).symm
  | succ n ih =>
    have hlt : i < 21 := by omega
    obtain ⟨s', hrun, hreplies, htarget, hbus⟩ := ih (i + 1) (by omega)
      (s.act io (.writeReg i (vals ⟨i, hlt⟩)))
    refine ⟨s', ?_, hreplies, ?_, hbus⟩
    · rw [writeRegs, run_lift_bind (hhex ⟨i, hlt⟩), run_bind_ok (run_act ..), hrun]
    · have hact : (s.act io (.writeReg i (vals ⟨i, hlt⟩))).server.target =
          { s.server.target with
            reg := Function.update s.server.target.reg ⟨i, hlt⟩ (vals ⟨i, hlt⟩) } :=
        s.server.target_writeReg io ⟨i, hlt⟩ _
      rw [htarget, hact]
      refine congrArg (fun reg => ({ s.server.target with reg } : Target)) (funext fun m => ?_)
      rcases lt_trichotomy i m.val with h | h | h
      · rw [if_pos (show i + 1 ≤ m.val from h), if_pos h.le]
      · obtain rfl : m = ⟨i, hlt⟩ := Fin.ext h.symm
        rw [if_neg (by simp), if_pos le_rfl]
        exact Function.update_self ..
      · rw [if_neg (by omega), if_neg (by omega)]
        exact Function.update_of_ne (fun heq => h.ne (congrArg Fin.val heq)) ..

/-- `G`. -/
theorem run_G {digits : List U8} {vals : Fin 21 → U32}
    (hdigits : digits.map lower = (List.finRange 21).flatMap fun n => toHex32 (vals n))
    (s : RspSession D) :
    ∃ s', (handlePacket io run (ch 'G' :: digits)).run s = .ok () s' ∧
      s'.replies = s.replies ++ [rspPacket (str "OK")] ∧
      s'.server.target = { s.server.target with reg := vals } ∧
      s'.server.machine.bus = s.server.machine.bus := by
  have hhex (n : Fin 21) : fromHex32 digits (8 * n) = .ok (vals n) := by
    obtain ⟨front, back, hsplit, hfront⟩ := exists_split_flatMap
      (fun n => length_toHex32 (vals n)) (show (List.finRange 21)[n.val]? = some n by simp)
    rw [hsplit] at hdigits
    obtain ⟨as, rest, rfl, has, -⟩ := List.map_eq_append_iff.mp hdigits
    obtain ⟨front', mid, rfl, hfront', hmid⟩ := List.map_eq_append_iff.mp has
    rw [← hfront, ← hfront', List.length_map]
    exact fromHex32_digits hmid front' rest
  have hlength : digits.length = 21 * 8 := by
    rw [← List.length_map lower, hdigits]
    simp only [List.length_flatMap, length_toHex32]
    rfl
  obtain ⟨s', hrun, hreplies, htarget, hbus⟩ := run_writeRegs_values io hhex 21 0 rfl s
  refine ⟨s'.answered (str "OK"), ?_, congrArg (· ++ _) hreplies, htarget.trans ?_, hbus⟩
  · change (handleG io (ch 'G' :: digits)).run s = _
    rw [handleG, run_lift_bind (GdbRsp.substr_body _ _), regWriteAll, if_neg (by omega),
      run_bind_ok hrun]
    rfl
  · simp

/-- `m`. -/
theorem run_m {addrText lenText : List U8} {addr len : U32} (haddr : WordText addrText addr)
    (hlen : WordText lenText len) (s : RspSession D)
    (hm : ∀ i < len.toNat, s.server.machine.bus.Mapped (addr + BitVec.ofNat 32 i)) :
    ∃ s', (handlePacket io run (ch 'm' :: addrText ++ ch ',' :: lenText)).run s = .ok () s' ∧
      s'.replies = s.replies ++
        [rspPacket ((s.server.machine.bus.flat.readBytes addr len.toNat).flatMap toHex8)] ∧
      s'.server.target = s.server.target ∧
      s'.server.machine.bus.Keeps s.server.machine.bus := by
  obtain ⟨s', hrun, hreplies, htarget, hkeeps⟩ := run_readMem_mapped io len.toNat addr s hm
  refine ⟨s'.answered _, ?_, congrArg (· ++ _) hreplies, htarget, hkeeps⟩
  have hpair : scanHexPair (addrText ++ ch ',' :: lenText) = (addr, len) := by
    have := scanHexPair_digits haddr hlen endsNumber_nil
    rwa [List.append_nil] at this
  change (handleReadMem io (ch 'm' :: (addrText ++ ch ',' :: lenText))).run s = _
  rw [handleReadMem, run_lift_bind (cStr_of_le (by simp)), List.drop_succ_cons, List.drop_zero,
    hpair, run_bind_ok hrun]
  rfl

/-- `M`. -/
theorem run_M {addrText lenText digits bytes : List U8} {addr : U32}
    (haddr : WordText addrText addr)
    (hlen : WordText lenText (BitVec.ofNat 32 bytes.length))
    (hdigits : digits.map lower = bytes.flatMap toHex8) (hle : bytes.length ≤ 2 ^ 31)
    (s : RspSession D) (hb : s.server.machine.bus.WellSized)
    (hm : ∀ i < bytes.length, s.server.machine.bus.InRam (addr + BitVec.ofNat 32 i)) :
    ∃ s', (handlePacket io run
        (ch 'M' :: addrText ++ ch ',' :: lenText ++ ch ':' :: digits)).run s = .ok () s' ∧
      s'.replies = s.replies ++ [rspPacket (str "OK")] ∧
      s'.server.target = s.server.target.store addr bytes ∧
      s'.server.machine.bus.Keeps s.server.machine.bus := by
  obtain ⟨s', hrun, hreplies, htarget, hkeeps⟩ :=
    run_writeMem_digits io addr hdigits hle bytes.length 0 (Nat.zero_add _) s hb hm
  refine ⟨s'.answered _, ?_, congrArg (· ++ _) hreplies, ?_, hkeeps⟩
  · set front := ch 'M' :: addrText ++ ch ',' :: lenText with hfront
    have hnot : ch ':' ∉ front := by
      simp only [hfront, List.cons_append, List.mem_cons, List.mem_append, not_or]
      refine ⟨by decide, fun h => ?_, by decide, fun h => ?_⟩
      · exact (isHex_ne_separator _ (haddr.digits _ h)).2 rfl
      · exact (isHex_ne_separator _ (hlen.digits _ h)).2 rfl
    have htext : (front ++ ch ':' :: digits).drop 1 =
        addrText ++ ch ',' :: (lenText ++ ch ':' :: digits) := by
      simp [hfront]
    have hdata : substr (front ++ ch ':' :: digits) (front.length + 1) none = .ok digits := by
      rw [substr_of_le (by simp)]
      refine congrArg Except.ok ?_
      rw [Option.elim_none, List.append_cons, List.drop_left' (by simp)]
    have hcount : (BitVec.ofNat 32 bytes.length).toNat = bytes.length := by
      rw [BitVec.toNat_ofNat, Nat.mod_eq_of_lt (by omega)]
    change (handleWriteMem io (front ++ ch ':' :: digits)).run s = _
    rw [handleWriteMem, run_lift_bind (cStr_of_le (by simp [hfront])), htext,
      scanHexPair_digits haddr hlen (endsNumber_colon _), findFrom_append hnot]
    dsimp only
    rw [run_lift_bind hdata, hcount]
    exact run_bind_ok hrun _
  · exact htarget.trans (congrArg (s.server.target.store · bytes) (BitVec.add_zero addr))

/-- `Z` and `z`. -/
theorem run_point (action : ZPoint → RspAction) (cmd : U8) {fields : List U8} {pt : ZPoint}
    (hfields : PointText fields pt) (s : RspSession D) :
    (handlePoint io action (cmd :: fields)).run s =
      .ok () ((s.act io (action pt)).answered (str "OK")) := by
  obtain ⟨t, addrText, kindText, addr, kind, rfl, haddr, hkind, hpt⟩ := hfields
  have hpair : scanHexPair (addrText ++ ch ',' :: kindText) = (addr, kind) := by
    have := scanHexPair_digits haddr hkind endsNumber_nil
    rwa [List.append_nil] at this
  rw [handlePoint, run_lift_bind (charAt_of_le (by simp)), run_lift_bind (cStr_of_le (by simp))]
  simp only [List.cons_append, List.drop_succ_cons, List.drop_zero, List.getD_cons_succ,
    List.getD_cons_zero, hpair, hpt]
  rfl

/-- **One packet.** -/
theorem run_text {r : TargetRequest} {pkt : List U8} (htext : r.IsText pkt) (s : RspSession D)
    (hb : s.server.machine.bus.WellSized) (hon : r.OnMemory s.server.machine.bus) :
    ∃ s', (handlePacket io run pkt).run s = .ok () s' ∧
      s'.replies = s.replies ++ [rspPacket (s.server.target.answer r).1] ∧
      s'.server.target = (s.server.target.answer r).2 ∧
      s'.server.machine.bus.Keeps s.server.machine.bus := by
  cases r with
  | readRegs =>
    obtain rfl := htext
    refine ⟨_, run_g io run s, ?_, rfl, rfl, rfl⟩
    rw [CpuState.regReadAll_eq]
    rfl
  | readReg n =>
    obtain ⟨num, rfl, hnum⟩ := htext
    exact ⟨_, run_p io run s hnum, rfl, rfl, rfl, rfl⟩
  | writeReg n val =>
    obtain ⟨num, digits, rfl, hnum, hdigits⟩ := htext
    exact ⟨_, run_P io run s hnum hdigits, rfl, s.server.target_writeReg io n val, rfl, rfl⟩
  | writeRegs vals =>
    obtain ⟨digits, rfl, hdigits⟩ := htext
    obtain ⟨s', hrun, hreplies, htarget, hbus⟩ := run_G io run hdigits s
    exact ⟨s', hrun, hreplies, htarget, by rw [hbus], by rw [hbus]⟩
  | readMem addr len =>
    obtain ⟨addrText, lenText, rfl, haddr, hlen⟩ := htext
    exact run_m io run haddr hlen s hon
  | writeMem addr bytes =>
    obtain ⟨addrText, lenText, digits, rfl, haddr, hlen, hdigits, hle⟩ := htext
    exact run_M io run haddr hlen hdigits hle s hb hon
  | insert pt =>
    obtain ⟨fields, rfl, hfields⟩ := htext
    exact ⟨_, run_point io .insert _ hfields s, rfl, s.server.target_insert io pt,
      by cases pt <;> rfl, by cases pt <;> rfl⟩
  | remove pt =>
    obtain ⟨fields, rfl, hfields⟩ := htext
    exact ⟨_, run_point io .remove _ hfields s, rfl, s.server.target_remove io pt,
      by cases pt <;> rfl, by cases pt <;> rfl⟩

end RspM

namespace GdbRsp

open RspM

/-- **A debugger that does not run the CPU sees a target of registers, bytes and points.**
Over any sequence of requests about the registers, about memory that is mapped (for a
write: RAM) and about break and watchpoints, however their packets spell the numbers, no
packet throws or goes unanswered: the server sends, packet by packet, the answers of the
target, and is left as the target is left. -/
theorem session_refines {D : Type} (io : IoSpace D)
    (run : Bool → GdbRsp D → Option (GdbRsp D × List U8)) (s : RspSession D)
    (packets : List (TargetRequest × List U8)) (hb : s.server.machine.bus.WellSized)
    (htext : ∀ p ∈ packets, p.1.IsText p.2)
    (hon : ∀ p ∈ packets, p.1.OnMemory s.server.machine.bus) :
    ∃ s', (packets.forM fun p => handlePacket io run p.2).run s = .ok () s' ∧
      s'.replies = s.replies ++
        (ActionRun.answers Target.answer s.server.target (packets.map (·.1))).map rspPacket ∧
      s'.server.target = ActionRun.exec (fun t r => (t.answer r).2) s.server.target
        (packets.map (·.1)) := by
  induction packets generalizing s with
  | nil => exact ⟨s, rfl, (List.append_nil _).symm, rfl⟩
  | cons p packets ih =>
    obtain ⟨s₁, hrun₁, hreplies₁, htarget₁, hkeeps₁⟩ := run_text io run
      (htext p List.mem_cons_self) s hb (hon p List.mem_cons_self)
    obtain ⟨s', hrun, hreplies, htarget⟩ := ih s₁ (hb.of_keeps hkeeps₁)
      (fun q hq => htext q (List.mem_cons_of_mem _ hq))
      fun q hq => (hon q (List.mem_cons_of_mem _ hq)).of_keeps hkeeps₁
    refine ⟨s', ?_, ?_, ?_⟩
    · exact (run_bind_ok hrun₁ _).trans hrun
    · rw [hreplies, hreplies₁, htarget₁, List.append_assoc]
      rfl
    · rw [htarget, htarget₁]
      rfl

/-- The server of a board with 256 KB of SRAM. -/
def board : GdbRsp Unit where
  machine := { bare.machine with bus := Bus.board }

/-- `M` in capital letters, at the end of the internal RAM and into its mirror; `m` of the
three bytes from the one before; `Z0`. -/
def boardPackets : List (TargetRequest × List U8) :=
  [(.writeMem 0x1FFF [0xAB, 0x01], str "M1FFF,2:AB01"), (.readMem 0x1FFE 3, str "m1ffe,3"),
    (.insert (.breakpoint 0xC02000), str "Z0,c02000,2")]

theorem session_refines_board : ∃ s',
    (boardPackets.forM fun p => handlePacket (.empty Unit) (fun _ _ => none) p.2).run
        { server := board } = .ok () s' ∧
      s'.replies = [str "OK", str "00ab01", str "OK"].map rspPacket ∧
      s'.server.target.points = {.breakpoint 0xC02000} := by
  obtain ⟨s', hrun, hreplies, htarget⟩ := session_refines (.empty Unit) (fun _ _ => none)
    { server := board } boardPackets
    { sramSize_mod := by decide
      sramSize_le := by decide
      flash_pow := ⟨19, by decide, by decide⟩ }
    (List.forall_mem_cons.mpr
      ⟨⟨str "1FFF", str "2", str "AB01", rfl, ⟨by decide, by decide, by decide⟩,
        ⟨by decide, by decide, by decide⟩, by decide, by decide⟩,
      List.forall_mem_cons.mpr
        ⟨⟨str "1ffe", str "3", rfl, ⟨by decide, by decide, by decide⟩,
          ⟨by decide, by decide, by decide⟩⟩,
        List.forall_mem_cons.mpr
          ⟨⟨str "0,c02000,2", rfl, ch '0', str "c02000", str "2", 0xC02000, 2, rfl,
            ⟨by decide, by decide, by decide⟩, ⟨by decide, by decide, by decide⟩, by decide⟩,
          nofun⟩⟩⟩)
    (List.forall_mem_cons.mpr
      ⟨fun i hi => .inl (by revert i; decide),
      List.forall_mem_cons.mpr
        ⟨fun i hi => .inl (by revert i; decide), List.forall_mem_cons.mpr ⟨trivial, nofun⟩⟩⟩)
  refine ⟨s', hrun, hreplies.trans ?_, ?_⟩
  · decide +kernel
  · rw [htarget]
    have hnone : board.points = ∅ := by
      refine Set.eq_empty_iff_forall_notMem.mpr fun pt hpt => ?_
      cases pt with
      | breakpoint addr => exact absurd hpt Bool.false_ne_true
      | watchpoint wp => exact absurd hpt List.not_mem_nil
    exact (congrArg (insert _) hnone).trans (insert_empty_eq _)

end GdbRsp
