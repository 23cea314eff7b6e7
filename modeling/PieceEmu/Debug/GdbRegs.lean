import PieceEmu.Core.Machine
import PieceEmu.Lib.CText

/-!
# The registers, as the debugger sees them

The debugger numbers the registers from 0 to 20: the general registers, then `SP`, `PC`,
`PSR`, `ALR` and `AHR`. Their values travel as eight hexadecimal digits, the low byte
first. What else a debugger asks about the registers is fixed text: the descriptions
of `qRegisterInfo`, and the target description, of which `qXfer` reads a part.
-/

open CText

/-! ### The encoding of words -/

/-- `to_hex8`. -/
def toHex8 (v : U8) : List U8 := formatHex8 v

/-- `to_hex32`. -/
def toHex32 (v : U32) : List U8 :=
  formatHex8 (v.setWidth 8) ++ formatHex8 ((v >>> 8).setWidth 8) ++
    formatHex8 ((v >>> 16).setWidth 8) ++ formatHex8 ((v >>> 24).setWidth 8)

/-- The lambda of `from_hex32`: what is no digit counts as zero. -/
def hexAt (s : List U8) (i : ℕ) : Except TextError U32 := do
  return BitVec.ofNat 32 ((hexVal (← charAt s i)).getD 0)

/-- `from_hex32`. -/
def fromHex32 (s : List U8) (off : ℕ) : Except TextError U32 := do
  let b0 := (← hexAt s (off + 0)) <<< 4 ||| (← hexAt s (off + 1))
  let b1 := (← hexAt s (off + 2)) <<< 4 ||| (← hexAt s (off + 3))
  let b2 := (← hexAt s (off + 4)) <<< 4 ||| (← hexAt s (off + 5))
  let b3 := (← hexAt s (off + 6)) <<< 4 ||| (← hexAt s (off + 7))
  return b0 ||| b1 <<< 8 ||| b2 <<< 16 ||| b3 <<< 24

/-- The eight digits may be any text, and only its last byte may be the terminator. -/
theorem fromHex32_of_le {s : List U8} {off : ℕ} (h : off + 7 ≤ s.length) :
    ∃ v, fromHex32 s off = .ok v := by
  have hat : ∀ i ≤ 7, ∃ v, hexAt s (off + i) = .ok v := fun i hi =>
    ⟨_, by rw [hexAt, charAt_of_le (by omega)]; rfl⟩
  obtain ⟨v0, h0⟩ := hat 0 (by omega)
  obtain ⟨v1, h1⟩ := hat 1 (by omega)
  obtain ⟨v2, h2⟩ := hat 2 (by omega)
  obtain ⟨v3, h3⟩ := hat 3 (by omega)
  obtain ⟨v4, h4⟩ := hat 4 (by omega)
  obtain ⟨v5, h5⟩ := hat 5 (by omega)
  obtain ⟨v6, h6⟩ := hat 6 (by omega)
  obtain ⟨v7, h7⟩ := hat 7 (by omega)
  rw [fromHex32, h0, h1, h2, h3, h4, h5, h6, h7]
  exact ⟨_, rfl⟩

theorem exists_ok_bind {α β : Type} (x : Except TextError α) (f : α → Except TextError β) :
    (∃ b, (x >>= f) = .ok b) ↔ ∃ a, x = .ok a ∧ ∃ b, f a = .ok b := by
  cases x with
  | error e => exact iff_of_false nofun nofun
  | ok a => exact ⟨fun h => ⟨a, rfl, h⟩, by rintro ⟨_, ⟨⟩, h⟩; exact h⟩

theorem exists_ok_ite {α : Type} {c R : Prop} [Decidable c] {x y : Except TextError α}
    (hx : c → ((∃ b, x = .ok b) ↔ R)) (hy : ¬c → ((∃ b, y = .ok b) ↔ R)) :
    (∃ b, (if c then x else y) = .ok b) ↔ R := by
  by_cases hc : c
  · rw [if_pos hc]
    exact hx hc
  · rw [if_neg hc]
    exact hy hc

theorem exists_error_of_bind {α β : Type} (x : Except TextError α) {f : α → Except TextError β}
    (h : ∀ a, ∃ e, f a = .error e) : ∃ e, (x >>= f) = .error e := by
  cases x with
  | error e => exact ⟨e, rfl⟩
  | ok a => exact h a

/-- A text that ends before is read out of range. -/
theorem fromHex32_of_lt {s : List U8} {off : ℕ} (h : s.length < off + 7) :
    ∃ e, fromHex32 s off = .error e := by
  have hlast : hexAt s (off + 7) = .error .accessOutOfRange := by
    rw [hexAt, charAt_of_lt h]
    rfl
  -- whatever the first seven reads give
  iterate 7 refine exists_error_of_bind _ fun _ => ?_
  rw [hlast]
  exact ⟨_, rfl⟩

/-! ### Reading and writing registers -/

namespace CpuState

/-- `reg_write_n`. -/
def regWriteN (s : CpuState) (n : ℕ) (val : U32) : CpuState :=
  if n < 16 then s.setR (BitVec.ofNat 4 n) val
  else
    match n with
    | 16 => { s with sp := val }
    | 17 => { s with pc := val }
    | 18 => { s with psr := ⟨val⟩ }
    | 19 => { s with alr := val }
    | 20 => { s with ahr := val }
    | _ => s

@[simp] theorem regWriteN_ttbr (s : CpuState) (n : ℕ) (val : U32) :
    (s.regWriteN n val).ttbr = s.ttbr := by
  unfold regWriteN
  split_ifs
  · rfl
  · split <;> rfl

/-- `reg_read_n`. -/
def regReadN (s : CpuState) (n : ℤ) : List U8 :=
  if n < 0 ∨ 20 < n then str "E00"
  else if n < 16 then toHex32 (s.r (BitVec.ofNat 4 n.toNat))
  else
    match n.toNat with
    | 16 => toHex32 s.sp
    | 17 => toHex32 s.pc
    | 18 => toHex32 s.psr.raw
    | 19 => toHex32 s.alr
    | 20 => toHex32 s.ahr
    | _ => str "E00"

/-- `reg_read_all`. -/
def regReadAll (s : CpuState) : List U8 :=
  ((List.range 16).flatMap fun i => toHex32 (s.r (BitVec.ofNat 4 i))) ++ toHex32 s.sp ++
    toHex32 s.pc ++ toHex32 s.psr.raw ++ toHex32 s.alr ++ toHex32 s.ahr

end CpuState

/-! ### The descriptions -/

/-- `kInfo`: the name of a register, its generic name and its set. -/
def kInfo (n : ℕ) : String × Option String × String :=
  match n with
  | 16 => ("sp", some "sp", "General Purpose Registers")
  | 17 => ("pc", some "pc", "General Purpose Registers")
  | 18 => ("psr", some "flags", "General Purpose Registers")
  | 19 => ("alr", none, "Multiply Registers")
  | 20 => ("ahr", none, "Multiply Registers")
  | n => ("r" ++ toString n, none, "General Purpose Registers")

/-- `reg_info`. -/
def regInfo (n : ℤ) : List U8 :=
  if n < 0 ∨ 20 < n then str "E45"
  else
    let (name, generic, set) := kInfo n.toNat
    str ("name:" ++ name ++ ";bitsize:32;offset:" ++ toString (n.toNat * 4) ++
      ";encoding:uint;format:hex;endian:little;set:" ++ set ++ ";dwarf:" ++
      toString n.toNat ++ ";" ++ generic.elim "" fun g => "generic:" ++ g ++ ";")

/-- `kTargetXml`. -/
def kTargetXml : String := r#"<?xml version="1.0"?>
<!DOCTYPE target SYSTEM "gdb-target.dtd">
<target version="1.0">
  <feature name="org.gnu.gdb.s1c33.core">
    <reg name="r0"  bitsize="32" regnum="0"  type="uint32"/>
    <reg name="r1"  bitsize="32" regnum="1"  type="uint32"/>
    <reg name="r2"  bitsize="32" regnum="2"  type="uint32"/>
    <reg name="r3"  bitsize="32" regnum="3"  type="uint32"/>
    <reg name="r4"  bitsize="32" regnum="4"  type="uint32"/>
    <reg name="r5"  bitsize="32" regnum="5"  type="uint32"/>
    <reg name="r6"  bitsize="32" regnum="6"  type="uint32"/>
    <reg name="r7"  bitsize="32" regnum="7"  type="uint32"/>
    <reg name="r8"  bitsize="32" regnum="8"  type="uint32"/>
    <reg name="r9"  bitsize="32" regnum="9"  type="uint32"/>
    <reg name="r10" bitsize="32" regnum="10" type="uint32"/>
    <reg name="r11" bitsize="32" regnum="11" type="uint32"/>
    <reg name="r12" bitsize="32" regnum="12" type="uint32"/>
    <reg name="r13" bitsize="32" regnum="13" type="uint32"/>
    <reg name="r14" bitsize="32" regnum="14" type="uint32"/>
    <reg name="r15" bitsize="32" regnum="15" type="uint32"/>
    <reg name="sp"  bitsize="32" regnum="16" type="data_ptr"/>
    <reg name="pc"  bitsize="32" regnum="17" type="code_ptr"/>
    <reg name="psr" bitsize="32" regnum="18" type="uint32"/>
    <reg name="alr" bitsize="32" regnum="19" type="uint32"/>
    <reg name="ahr" bitsize="32" regnum="20" type="uint32"/>
  </feature>
</target>"#

/-- `handle_qXfer`: the part of the description that the packet asks for. -/
def handleQXfer (pkt : List U8) : Except TextError (List U8) := do
  let colon := rfind pkt (ch ':')
  let comma := colon.bind (findFrom pkt (ch ','))
  -- one past `npos` is 0, and a text that would reach it goes to the end
  let start := colon.elim 0 (· + 1)
  let off ← stoul16 (← substr pkt start (comma.map (· - start)))
  let len ← stoul16 (← substr pkt (comma.elim 0 (· + 1)) none)
  let xml := str kTargetXml
  if xml.length ≤ off.toNat then return str "l"
  else
    let chunk := (xml.drop off.toNat).take len.toNat
    return (if xml.length ≤ off.toNat + chunk.length then ch 'l' else ch 'm') :: chunk
