import PieceEmu.Debug.GdbRobust

/-!
# The transfer of registers

The debugger reads and writes the registers as text: `g` and `G` all of them, `p` and `P`
one by its number. Reading and writing go through two switches of their own over the
numbers, and the digits of a word are swapped by bytes in both directions; that neither
loses anything takes two facts:

* `CpuState.reg_regWriteN` – writing register `n` sets what the number `n` stands for and
  leaves the other twenty alone;
* `fromHex32_digits` – eight digits, in either case and anywhere in a text, give back the
  word they are the digits of.

`GdbRsp.transfer_lossless` is what follows for the packets, from any state of the server.
-/

open CText

/-! ### The registers by number -/

namespace CpuState

variable (s : CpuState) (n m : Fin 21) (v : U32)

/-- **The architectural registers**, by the numbers of the debugger. -/
def reg : U32 :=
  if n.val < 16 then s.r (BitVec.ofNat 4 n)
  else if n.val = 16 then s.sp
  else if n.val = 17 then s.pc
  else if n.val = 18 then s.psr.raw
  else if n.val = 19 then s.alr
  else s.ahr

variable {n} in
/-- The registers that are not general ones. -/
theorem special_reg (h : 16 ≤ n.val) : n = 16 ∨ n = 17 ∨ n = 18 ∨ n = 19 ∨ n = 20 := by
  omega

theorem reg_setR (i : Fin 16) :
    (s.setR (BitVec.ofNat 4 i) v).reg m = if m.val = i.val then v else s.reg m := by
  unfold reg
  by_cases hm : m.val < 16
  · rw [if_pos hm, if_pos hm]
    split_ifs with heq
    · rw [heq]
      exact Function.update_self ..
    · refine Function.update_of_ne (fun h => heq ?_) _ _
      have hnat := congrArg BitVec.toNat h
      rwa [BitVec.toNat_ofNat, BitVec.toNat_ofNat, Nat.mod_eq_of_lt hm,
        Nat.mod_eq_of_lt i.isLt] at hnat
  · rw [if_neg hm, if_neg hm, if_neg (show ¬m.val = i.val by omega)]
    rfl

theorem regWriteN_of_lt (hn : n.val < 16) : s.regWriteN n v = s.setR (BitVec.ofNat 4 n) v := by
  unfold regWriteN
  exact if_pos hn

/-- **A write to a register by its number.** -/
theorem reg_regWriteN : (s.regWriteN n v).reg m = if m = n then v else s.reg m := by
  rcases Nat.lt_or_ge n.val 16 with hn | hn
  · rw [s.regWriteN_of_lt n v hn, s.reg_setR m v ⟨n, hn⟩]
    exact if_congr Fin.ext_iff.symm rfl rfl
  · rcases Nat.lt_or_ge m.val 16 with hm | hm
    · have hne : m ≠ n := fun h => hm.not_ge (h ▸ hn)
      rw [if_neg hne, reg, if_pos hm, reg, if_pos hm]
      rcases special_reg hn with rfl | rfl | rfl | rfl | rfl <;> rfl
    · rcases special_reg hn with rfl | rfl | rfl | rfl | rfl <;>
        rcases special_reg hm with rfl | rfl | rfl | rfl | rfl <;> rfl

/-- Writing back what a register holds changes nothing. -/
theorem regWriteN_reg : s.regWriteN n (s.reg n) = s := by
  rcases Nat.lt_or_ge n.val 16 with hn | hn
  · rw [s.regWriteN_of_lt n _ hn, reg, if_pos hn, setR, Function.update_eq_self]
  · rcases special_reg hn with rfl | rfl | rfl | rfl | rfl <;> rfl

/-- **Reading a register by its number.** -/
theorem regReadN_eq : s.regReadN n.val = toHex32 (s.reg n) := by
  have hrange : ¬((n.val : ℤ) < 0 ∨ 20 < (n.val : ℤ)) := by omega
  rcases Nat.lt_or_ge n.val 16 with hn | hn
  · have hn' : (n.val : ℤ) < 16 := Int.ofNat_lt.mpr hn
    rw [regReadN, if_neg hrange, if_pos hn', reg, if_pos hn, Int.toNat_natCast]
  · rcases special_reg hn with rfl | rfl | rfl | rfl | rfl <;> rfl

/-- **Reading all of them**, in the order of their numbers. -/
theorem regReadAll_eq : s.regReadAll = (List.finRange 21).flatMap fun n => toHex32 (s.reg n) := by
  simp only [regReadAll, List.append_assoc]
  rfl

end CpuState

/-! ### The digits -/

@[simp] theorem length_toHex32 (v : U32) : (toHex32 v).length = 8 := rfl

/-- The two digits of a byte. -/
theorem hexPair (b : U8) :
    BitVec.ofNat 32 (b.toNat / 16) <<< 4 ||| BitVec.ofNat 32 (b.toNat % 16) = b.setWidth 32 := by
  revert b
  decide +kernel

theorem hexAt_digit {s : List U8} {i n : ℕ} (hn : n < 16)
    (h : (s[i]?).map lower = some (hexDigit n)) : hexAt s i = .ok (BitVec.ofNat 32 n) := by
  obtain ⟨c, hc, hlower⟩ := Option.map_eq_some_iff.mp h
  have hi : i < s.length := (List.getElem?_eq_some_iff.mp hc).1
  have hval : hexVal c = some n := by rw [← hexVal_lower, hlower, hexVal_hexDigit hn]
  rw [hexAt, charAt_of_le hi.le, List.getD_eq_getElem?_getD, hc]
  change Except.ok (BitVec.ofNat 32 ((hexVal c).getD 0)) = _
  rw [hval]
  rfl

/-- **Eight digits of a word**, in either case, are read as that word, wherever they
stand. -/
theorem fromHex32_digits {v : U32} {digits : List U8} (h : digits.map lower = toHex32 v)
    (front back : List U8) : fromHex32 (front ++ digits ++ back) front.length = .ok v := by
  have hlen : digits.length = 8 := by rw [← List.length_map lower, h, length_toHex32]
  have hat (i : ℕ) (hi : i < 8) :
      ((front ++ digits ++ back)[front.length + i]?).map lower = (toHex32 v)[i]? := by
    rw [List.append_assoc, List.getElem?_append_right (Nat.le_add_right _ _),
      Nat.add_sub_cancel_left, List.getElem?_append_left (by omega), ← List.getElem?_map, h]
  have hlow (w : U32) : (w.setWidth 8).toNat / 16 < 16 ∧ (w.setWidth 8).toNat % 16 < 16 := by
    have := (w.setWidth 8).isLt
    omega
  -- one byte after the other, each its high half first
  rw [fromHex32, hexAt_digit (hlow v).1 (hat 0 (by decide)),
    hexAt_digit (hlow v).2 (hat 1 (by decide)),
    hexAt_digit (hlow (v >>> 8)).1 (hat 2 (by decide)),
    hexAt_digit (hlow (v >>> 8)).2 (hat 3 (by decide)),
    hexAt_digit (hlow (v >>> 16)).1 (hat 4 (by decide)),
    hexAt_digit (hlow (v >>> 16)).2 (hat 5 (by decide)),
    hexAt_digit (hlow (v >>> 24)).1 (hat 6 (by decide)),
    hexAt_digit (hlow (v >>> 24)).2 (hat 7 (by decide))]
  simp only [bind, Except.bind, pure, Except.pure, hexPair]
  exact congrArg Except.ok (Words.listLe32_bytes32 v [])

/-- A word is written in lower case. -/
theorem map_lower_toHex32 (v : U32) : (toHex32 v).map lower = toHex32 v := by
  have hdigit (b : U8) : (formatHex8 b).map lower = formatHex8 b := by
    revert b
    decide +kernel
  simp only [toHex32, List.map_append, hdigit]

/-! ### The fields of `g` -/

namespace CpuState

variable (s : CpuState) (n : Fin 21)

theorem exists_split_regReadAll : ∃ front back,
    s.regReadAll = front ++ toHex32 (s.reg n) ++ back ∧ front.length = 8 * n.val := by
  rw [regReadAll_eq]
  exact exists_split_flatMap (fun n => length_toHex32 (s.reg n)) (by simp)

/-- **The field of a register** in the reply to `g`. -/
theorem field_regReadAll : (s.regReadAll.drop (8 * n)).take 8 = toHex32 (s.reg n) := by
  obtain ⟨front, back, heq, hlen⟩ := s.exists_split_regReadAll n
  rw [heq, List.append_assoc, ← hlen, List.drop_left]
  exact List.take_left' (length_toHex32 _)

theorem fromHex32_regReadAll : fromHex32 s.regReadAll (8 * n) = .ok (s.reg n) := by
  obtain ⟨front, back, heq, hlen⟩ := s.exists_split_regReadAll n
  rw [heq, ← hlen]
  exact fromHex32_digits (map_lower_toHex32 _) front back

theorem length_regReadAll : s.regReadAll.length = 21 * 8 := by
  simp only [regReadAll_eq, List.length_flatMap, length_toHex32]
  rfl

end CpuState

/-! ### The packets -/

/-- A number of a register in a packet: its hexadecimal digits. -/
structure NumberText (num : List U8) (n : Fin 21) : Prop where
  nonempty : num ≠ []
  digits : ∀ c ∈ num, isHex c = true
  value : ofDigits num = n

theorem NumberText.stoi16 {num : List U8} {n : Fin 21} (h : NumberText num n) :
    CText.stoi16 num = .ok (n : ℤ) := by
  rw [stoi16_digits h.nonempty h.digits (by have := h.value; omega), h.value]

/-- The first of its kind is found where it stands. -/
theorem findFrom_append {c : U8} {front : List U8} (h : c ∉ front) (back : List U8) :
    findFrom (front ++ c :: back) c 0 = some front.length := by
  have hfind : (front ++ c :: back).findIdx? (· = c) = some front.length := by
    rw [List.findIdx?_append, List.findIdx?_eq_none_iff.mpr fun x hx => ?_]
    · simp [List.findIdx?_cons]
    · exact decide_eq_false fun hxc : x = c => h (hxc ▸ hx)
  rw [findFrom, List.drop_zero, hfind]
  simp

/-- The session after a reply. -/
def RspSession.answered {D : Type} (s : RspSession D) (data : List U8) : RspSession D :=
  { s with replies := s.replies ++ [rspPacket data] }

namespace RspM

variable {D : Type} (io : IoSpace D) (run : Bool → GdbRsp D → Option (GdbRsp D × List U8))
  (s : RspSession D)

/-- `g`. -/
theorem run_g :
    (handlePacket io run (str "g")).run s = .ok () (s.answered s.server.machine.cpu.regReadAll) :=
  rfl

/-- `p`. -/
theorem run_p {num : List U8} {n : Fin 21} (h : NumberText num n) :
    (handlePacket io run (ch 'p' :: num)).run s =
      .ok () (s.answered (toHex32 (s.server.machine.cpu.reg n))) := by
  change (handleReadN (ch 'p' :: num)).run s = _
  rw [handleReadN, run_lift_bind (GdbRsp.substr_body _ num), run_lift_bind h.stoi16,
    ← CpuState.regReadN_eq]
  rfl

/-- `P`. -/
theorem run_P {num digits : List U8} {n : Fin 21} {v : U32} (h : NumberText num n)
    (hdigits : digits.map lower = toHex32 v) :
    (handlePacket io run (ch 'P' :: num ++ ch '=' :: digits)).run s =
      .ok () ((s.act io (.writeReg n v)).answered (str "OK")) := by
  change (handleWriteN io (ch 'P' :: num ++ ch '=' :: digits)).run s = _
  have hnot : ch '=' ∉ ch 'P' :: num := by
    rintro (_ | ⟨_, hmem⟩)
    exact (isHex_distinct _ (h.digits _ hmem)).2.2.2.2.2 rfl
  have hsub : substr (ch 'P' :: num ++ ch '=' :: digits) 1
      (some ((ch 'P' :: num).length - 1)) = .ok num := by
    rw [substr_of_le (by simp)]
    exact congrArg Except.ok (List.take_left' rfl)
  have hval : fromHex32 (ch 'P' :: num ++ ch '=' :: digits) ((ch 'P' :: num).length + 1) =
      .ok v := by
    have := fromHex32_digits hdigits (ch 'P' :: num ++ [ch '=']) []
    rwa [List.length_append, List.append_nil, List.append_assoc] at this
  rw [handleWriteN, findFrom_append hnot]
  dsimp only
  rw [run_lift_bind hsub, run_lift_bind h.stoi16, run_lift_bind hval, regWriteN,
    if_neg (by omega)]
  rfl

/-- Writing back what the registers hold. -/
theorem act_writeReg_reg (n : Fin 21) :
    (s.act io (.writeReg n (s.server.machine.cpu.reg n))).server = s.server := by
  have hcpu : s.server.machine.mapCpu (·.regWriteN n (s.server.machine.cpu.reg n)) =
      s.server.machine := by
    rw [Machine.mapCpu, CpuState.regWriteN_reg]
  exact congrArg (fun m => { s.server with machine := m }) hcpu

theorem run_writeRegs_reg {hex : List U8} (n i : ℕ) (hi : i + n ≤ 21)
    (h : ∀ k : Fin 21, fromHex32 hex (8 * k) = .ok (s.server.machine.cpu.reg k)) :
    ∃ log, (writeRegs io hex n i).run s = .ok () { s with actions := s.actions ++ log } := by
  induction n generalizing i s with
  | zero => exact ⟨[], by rw [List.append_nil]; rfl⟩
  | succ n ih =>
    have hk := h ⟨i, by omega⟩
    set a := RspAction.writeReg i (s.server.machine.cpu.reg ⟨i, by omega⟩)
    have hserver : (s.act io a).server = s.server := act_writeReg_reg io s ⟨i, by omega⟩
    obtain ⟨log, hlog⟩ := ih (s.act io a) (i + 1) (by omega) (by rw [hserver]; exact h)
    refine ⟨a :: log, ?_⟩
    rw [writeRegs, run_lift_bind hk, run_bind_ok (run_act ..), hlog, hserver, RspSession.act,
      List.append_assoc]
    rfl

/-- `G`, with what `g` has answered. -/
theorem run_G_regReadAll : ∃ log,
    (handlePacket io run (ch 'G' :: s.server.machine.cpu.regReadAll)).run s =
      .ok () (RspSession.answered { s with actions := s.actions ++ log } (str "OK")) := by
  obtain ⟨log, hlog⟩ := run_writeRegs_reg io s 21 0 le_rfl
    s.server.machine.cpu.fromHex32_regReadAll
  refine ⟨log, ?_⟩
  change (handleG io (ch 'G' :: s.server.machine.cpu.regReadAll)).run s = _
  rw [handleG, run_lift_bind (GdbRsp.substr_body _ _), regWriteAll,
    if_neg (by rw [CpuState.length_regReadAll]; omega), run_bind_ok hlog]
  rfl

end RspM

namespace GdbRsp

open RspM

/-- **The transfer of registers loses nothing.** From every state of the server: what `g`
answers, sent back with `G`, and what `p` answers for a register, sent back with `P`, leave
the server as it was; and after `P` with the eight digits of a word, in either case, the
register has that value, `p` and its field of `g` show it, and every other register is as
it was. -/
theorem transfer_lossless {D : Type} (io : IoSpace D)
    (run : Bool → GdbRsp D → Option (GdbRsp D × List U8)) (s : RspSession D) :
    (∃ data s', (handlePacket io run (str "g")).run s = .ok () (s.answered data) ∧
      (handlePacket io run (ch 'G' :: data)).run s = .ok () s' ∧ s'.server = s.server) ∧
    ∀ n num, NumberText num n →
      (∃ data s', (handlePacket io run (ch 'p' :: num)).run s = .ok () (s.answered data) ∧
        (handlePacket io run (ch 'P' :: num ++ ch '=' :: data)).run s = .ok () s' ∧
        s'.server = s.server) ∧
      ∀ v digits, digits.map lower = toHex32 v → ∃ s' all,
        (handlePacket io run (ch 'P' :: num ++ ch '=' :: digits)).run s = .ok () s' ∧
        s'.server.machine.cpu.reg n = v ∧
        (∀ m ≠ n, s'.server.machine.cpu.reg m = s.server.machine.cpu.reg m) ∧
        (handlePacket io run (ch 'p' :: num)).run s' = .ok () (s'.answered (toHex32 v)) ∧
        (handlePacket io run (str "g")).run s' = .ok () (s'.answered all) ∧
        (all.drop (8 * n)).take 8 = toHex32 v := by
  constructor
  · obtain ⟨log, hG⟩ := run_G_regReadAll io run s
    exact ⟨_, _, run_g io run s, hG, rfl⟩
  · intro n num hnum
    constructor
    · refine ⟨_, _, run_p io run s hnum, run_P io run s hnum (map_lower_toHex32 _), ?_⟩
      exact act_writeReg_reg io s n
    · intro v digits hdigits
      set s' := (s.act io (.writeReg n v)).answered (str "OK") with hs'
      have hreg (m : Fin 21) :
          s'.server.machine.cpu.reg m = if m = n then v else s.server.machine.cpu.reg m :=
        CpuState.reg_regWriteN _ n m v
      have hself : s'.server.machine.cpu.reg n = v := (hreg n).trans (if_pos rfl)
      refine ⟨s', _, run_P io run s hnum hdigits, hself, fun m hm => (hreg m).trans (if_neg hm), ?_,
        run_g io run s', ?_⟩
      · rw [run_p io run s' hnum, hself]
      · rw [CpuState.field_regReadAll, hself]

/-- `PA=78FfAa12` writes `R10`. -/
theorem transfer_lossless_r10 : ∃ s',
    (handlePacket (.empty Unit) (fun _ _ => none) (str "PA=78FfAa12")).run { server := bare } =
      .ok () s' ∧
    s'.server.machine.cpu.reg 10 = 0x12AAFF78 ∧
    ∀ m ≠ 10, s'.server.machine.cpu.reg m = bare.machine.cpu.reg m := by
  obtain ⟨s', -, hrun, hreg, hother, -⟩ :=
    ((transfer_lossless (.empty Unit) (fun _ _ => none) { server := bare }).2 10 (str "A")
      ⟨by decide, by decide, by decide⟩).2 0x12AAFF78 (str "78FfAa12") (by decide)
  exact ⟨s', hrun, hreg, hother⟩

end GdbRsp
