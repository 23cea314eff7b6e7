import PieceEmu.Debug.GdbRsp

/-!
# Malformed packets

A packet is handled properly (`GdbRsp.Robust`) when the handler comes to its end without
an exception or a read out of range, sends one reply, and has done nothing to the target
unless the packet is well formed. `GdbRsp.robust_iff` says for which packets this is so
(`RspPacket.Harmless`), by their first byte:

| packet | what must hold of it |
|---|---|
| `G` | fewer than 168 characters, or well formed |
| `p`, `qRegisterInfo` | `stoi` reads the number |
| `P` | no `=`, or a number that `stoi` reads, seven characters, and no such register |
| | or well formed, with a number that `stoi` reads |
| `M` | no colon, a length of zero, fewer than two digits, or well formed |
| `Z`, `z` | at least three characters, and another type than 0 to 4, or well formed |
| `c`, `s`, `vCont;` | well formed |
| `qXfer` of the target | a comma behind the last colon, with a number on both sides |

All other packets are answered without harm. A handler is followed from command to
command (`proper_handleG` and its companions), and the loops by what they record.
-/

open CText

/-! ### Packets -/

namespace RspPacket

/-- A thread in `vCont`: all of them, or one by its number. -/
def IsThread (s : List U8) : Prop := s = str "-1" ∨ IsWord s

/-- An action of `vCont`: `c` or `s`, for a thread if one is given. -/
def IsContAction (s : List U8) : Prop :=
  (s.head? = some (ch 'c') ∨ s.head? = some (ch 's')) ∧
    (s.tail = [] ∨ s[1]? = some (ch ':') ∧ IsThread (s.drop 2))

/-- **A well-formed packet that acts on the target**: all fields are there, their digits
are digits and their lengths match. -/
def WellFormed (pkt : List U8) : Prop :=
  match pkt with
  | [] => False
  | cmd :: body =>
    match RspCommand.ofByte cmd with
    | .G => body.length = 21 * 8 ∧ ∀ c ∈ body, isHex c
    | .P =>
      let val := after (ch '=') body
      ch '=' ∈ body ∧ IsWord (before (ch '=') body) ∧ val.length = 8 ∧ ∀ c ∈ val, isHex c
    | .M =>
      let rest := after (ch ',') body
      let len := before (ch ':') rest
      let data := after (ch ':') rest
      ch ',' ∈ body ∧ IsWord (before (ch ',') body) ∧ ch ':' ∈ rest ∧ IsWord len ∧
        data.length = 2 * ofDigits len ∧ ∀ c ∈ data, isHex c
    | .c | .s => body = [] ∨ IsWord body
    | .Z | .z =>
      let rest := body.drop 2
      (∃ t ∈ str "01234", body.head? = some t) ∧ body[1]? = some (ch ',') ∧
        ch ',' ∈ rest ∧ IsWord (before (ch ',') rest) ∧ IsWord (after (ch ',') rest)
    | .v => str "vCont;" <+: pkt ∧ ∀ a ∈ (pkt.drop 6).splitOn (ch ';'), IsContAction a
    | _ => False

/-- The packet runs the CPU. -/
def Resumes (pkt : List U8) : Prop :=
  match pkt with
  | [] => False
  | cmd :: _ =>
    match RspCommand.ofByte cmd with
    | .c | .s => True
    | .v => str "vCont;" <+: pkt
    | _ => False

/-- `stoul` reads a number. -/
def Reads (s : List U8) : Prop := ∃ n, strtol16 s = some n ∧ n.magnitude < 2 ^ 64

/-- `qXfer` finds its two numbers, on both sides of the comma behind the last colon. -/
def QXferReads (pkt : List U8) : Prop :=
  ∃ colon comma, rfind pkt (ch ':') = some colon ∧ findFrom pkt (ch ',') colon = some comma ∧
    Reads ((pkt.drop (colon + 1)).take (comma - (colon + 1))) ∧ Reads (pkt.drop (comma + 1))

/-- **The packets that do no harm.** -/
def Harmless (pkt : List U8) : Prop :=
  match pkt with
  | [] => True
  | cmd :: body =>
    match RspCommand.ofByte cmd with
    | .G => body.length < 21 * 8 ∨ WellFormed pkt
    | .p => ∃ n, stoi16 body = .ok n
    | .P => ∀ eq, findFrom pkt (ch '=') 0 = some eq → eq + 8 ≤ pkt.length ∧
        ∃ n, stoi16 (body.take (eq - 1)) = .ok n ∧ (n < 0 ∨ 20 < n ∨ WellFormed pkt)
    | .M => ∀ colon, findFrom pkt (ch ':') 0 = some colon →
        (scanHexPair body).2 = 0 ∨ pkt.length < colon + 3 ∨ WellFormed pkt
    | .c | .s => WellFormed pkt
    | .Z | .z => 3 ≤ pkt.length ∧ ((∀ t ∈ str "01234", body.head? ≠ some t) ∨ WellFormed pkt)
    | .v => str "vCont;" <+: pkt → WellFormed pkt
    | .q => (str "qRegisterInfo" <+: pkt → ∃ n, stoi16 (pkt.drop 13) = .ok n) ∧
        (str "qXfer:features:read:target.xml:" <+: pkt → QXferReads pkt)
    | _ => True

end RspPacket

/-! ### Running the handler -/

namespace RspM

variable {D α β : Type} {s s' : RspSession D}

theorem run_bind_ok {x : RspM D α} {a : α} (h : x.run s = .ok a s') (f : α → RspM D β) :
    (x >>= f).run s = (f a).run s' := by
  change EStateM.bind x f s = _
  rw [EStateM.bind, show x s = .ok a s' from h]
  rfl

theorem run_bind_error {x : RspM D α} {e : RspStop} (h : x.run s = .error e s')
    (f : α → RspM D β) : (x >>= f).run s = .error e s' := by
  change EStateM.bind x f s = _
  rw [EStateM.bind, show x s = .error e s' from h]

theorem run_lift_bind {x : Except TextError α} {a : α} (h : x = .ok a) (f : α → RspM D β) :
    ((liftM x : RspM D α) >>= f).run s = (f a).run s := by
  subst h
  rfl

theorem run_lift_bind_error {x : Except TextError α} {e : TextError} (h : x = .error e)
    (f : α → RspM D β) : ((liftM x : RspM D α) >>= f).run s = .error (.text e) s := by
  subst h
  rfl

end RspM

/-! ### The statement -/

namespace GdbRsp

open RspPacket

variable {D : Type} (io : IoSpace D)
  (run : Bool → GdbRsp D → Option (GdbRsp D × List U8))

/-- **A proper end** of the handler of a packet: one reply, except while the CPU runs,
and nothing done to the target unless the packet is well formed. -/
def Proper (g : GdbRsp D) (pkt : List U8) : EStateM.Result RspStop (RspSession D) Unit → Prop
  | .ok () s => (∃ data, s.replies = [rspPacket data]) ∧
      (WellFormed pkt ∨ s.actions = [] ∧ g.Untouched s.server)
  | .error .running s => Resumes pkt ∧ s.replies = [] ∧
      (WellFormed pkt ∨ s.actions = [] ∧ g.Untouched s.server)
  | .error (.text _) _ => False

/-- The packet is handled properly. -/
def Robust (g : GdbRsp D) (pkt : List U8) : Prop :=
  g.Proper pkt ((RspM.handlePacket io run pkt).run { server := g })


theorem Untouched.refl (g : GdbRsp D) : g.Untouched g := ⟨rfl, .refl _, rfl, rfl⟩

theorem Untouched.trans {g g' g'' : GdbRsp D} (h : g.Untouched g') (h' : g'.Untouched g'') :
    g.Untouched g'' where
  cpu := h'.cpu.trans h.cpu
  memory := ⟨h'.memory.iram.trans h.memory.iram, h'.memory.sram.trans h.memory.sram,
    h'.memory.sramSize.trans h.memory.sramSize, h'.memory.flash.trans h.memory.flash⟩
  breakpoints := h'.breakpoints.trans h.breakpoints
  watchpoints := h'.watchpoints.trans h.watchpoints

variable {io run} {g g' : GdbRsp D} {pkt : List U8}

/-- The reply ends the handler. -/
theorem proper_sendRsp {acts : List RspAction} {data : List U8} :
    g.Proper pkt ((RspM.sendRsp data).run ⟨g', acts, []⟩) ↔
      WellFormed pkt ∨ acts = [] ∧ g.Untouched g' :=
  ⟨fun h => h.2, fun h => ⟨⟨data, rfl⟩, h⟩⟩

/-- A reply to a packet that did nothing. -/
theorem proper_answer (data : List U8) :
    g.Proper pkt ((RspM.sendRsp data).run { server := g }) :=
  proper_sendRsp.mpr (.inr ⟨rfl, .refl g⟩)

/-- A reply to a packet that did something. -/
theorem proper_done {acts : List RspAction} {data : List U8} (h : acts ≠ []) :
    g.Proper pkt ((RspM.sendRsp data).run ⟨g', acts, []⟩) ↔ WellFormed pkt :=
  proper_sendRsp.trans (or_iff_left fun hn => h hn.1)

end GdbRsp

/-! ### The loops -/

namespace RspM

variable {D : Type} {io : IoSpace D}

theorem run_act (a : RspAction) (s : RspSession D) : (act io a).run s = .ok () (s.act io a) :=
  rfl

theorem run_read8 (addr : U32) (s : RspSession D) :
    (read8 io addr).run s = .ok (s.server.machine.read8 io addr).1 (s.load8 io addr) := rfl

/-- **The registers of `G`** are written one by one, from a text that is long enough. -/
theorem run_writeRegs (io : IoSpace D) (hex : List U8) (n i : ℕ) (s : RspSession D)
    (h : 8 * (i + n) ≤ hex.length) :
    ∃ g log, (writeRegs io hex n i).run s = .ok () ⟨g, s.actions ++ log, s.replies⟩ ∧
      log.length = n := by
  induction n generalizing i s with
  | zero => exact ⟨s.server, [], by rw [List.append_nil]; rfl, rfl⟩
  | succ n ih =>
    obtain ⟨v, hv⟩ : ∃ v, fromHex32 hex (8 * i) = .ok v := fromHex32_of_le (by omega)
    obtain ⟨g, log, hrun, hlog⟩ := ih (i + 1) (s.act io (.writeReg i v)) (by omega)
    refine ⟨g, .writeReg i v :: log, ?_, congrArg (· + 1) hlog⟩
    rw [writeRegs, run_lift_bind hv, run_bind_ok (run_act ..), hrun, RspSession.act,
      List.append_assoc]
    rfl

/-- **The bytes of `M`** are written until the digits come to their end. -/
theorem run_writeMem (io : IoSpace D) (addr : U32) (hexdata : List U8) (n : ℕ) (i : U32)
    (s : RspSession D) :
    ∃ g log, (writeMem io addr hexdata n i).run s = .ok () ⟨g, s.actions ++ log, s.replies⟩ ∧
      (log = [] ↔ n = 0 ∨ hexdata.length ≤ (i * 2 + 1).toNat) ∧ (log = [] → g = s.server) := by
  induction n generalizing i s with
  | zero =>
    exact ⟨s.server, [], by rw [List.append_nil]; rfl, iff_of_true rfl (.inl rfl), fun _ => rfl⟩
  | succ n ih =>
    rw [writeMem]
    by_cases hi : (i * 2 + 1).toNat < hexdata.length
    · have htext : cStr hexdata (i * 2).toNat = .ok (hexdata.drop (i * 2).toNat) :=
        cStr_of_le (by bv_omega)
      set a := RspAction.writeMem (addr + i) (scanHexByte (hexdata.drop (i * 2).toNat))
      obtain ⟨g, log, hrun, -⟩ := ih (i + 1) (s.act io a)
      refine ⟨g, a :: log, ?_, iff_of_false nofun ?_, nofun⟩
      · rw [if_pos hi, run_lift_bind htext, run_bind_ok (run_act ..), hrun, RspSession.act,
          List.append_assoc]
        rfl
      · rintro (h | h)
        · exact Nat.succ_ne_zero n h
        · exact h.not_gt hi
    · refine ⟨s.server, [], ?_, iff_of_true rfl (.inr (not_lt.mp hi)), fun _ => rfl⟩
      rw [if_neg hi, List.append_nil]
      rfl

/-- **The bytes of `m`** are read, and the target stays as it is. -/
theorem run_readMem (io : IoSpace D) (n : ℕ) (addr : U32) (s : RspSession D) :
    ∃ mem g, (readMem io n addr).run s = .ok mem ⟨g, s.actions, s.replies⟩ ∧
      s.server.Untouched g := by
  induction n generalizing addr s with
  | zero => exact ⟨[], s.server, rfl, .refl _⟩
  | succ n ih =>
    have hread := s.server.machine.bus.read8_kept io addr
    have hload : s.server.Untouched (s.load8 io addr).server := ⟨rfl, hread.1, rfl, hread.2⟩
    obtain ⟨mem, g, hrun, hg⟩ := ih (addr + 1) (s.load8 io addr)
    refine ⟨toHex8 (s.server.machine.read8 io addr).1 ++ mem, g, ?_, hload.trans hg⟩
    rw [readMem, run_bind_ok (run_read8 ..), run_bind_ok hrun]
    rfl

end RspM

/-! ### One command after another -/

namespace GdbRsp

open RspPacket RspM

variable {D : Type} {io : IoSpace D} {run : Bool → GdbRsp D → Option (GdbRsp D × List U8)}
  {g : GdbRsp D} {cmd : U8} {body : List U8}

theorem substr_body (cmd : U8) (body : List U8) : substr (cmd :: body) 1 none = .ok body :=
  substr_of_le (by simp) none

/-- `G`: a text that is too short is left alone, any other is written. -/
theorem proper_handleG : g.Proper (cmd :: body) ((handleG io (cmd :: body)).run { server := g }) ↔
    body.length < 21 * 8 ∨ WellFormed (cmd :: body) := by
  rw [handleG, run_lift_bind (substr_body cmd body), regWriteAll]
  by_cases hlen : body.length < 21 * 8
  · rw [if_pos hlen]
    exact iff_of_true (proper_answer _) (.inl hlen)
  · obtain ⟨g', log, hrun, hlog⟩ := run_writeRegs io body 21 0 { server := g } (by omega)
    rw [if_neg hlen, run_bind_ok hrun, or_iff_right hlen]
    refine proper_done ?_
    rintro rfl
    cases hlog

/-- `p`: the number must be one that `stoi` reads. -/
theorem proper_handleReadN :
    g.Proper (cmd :: body) ((handleReadN (cmd :: body)).run { server := g }) ↔
      ∃ n, stoi16 body = .ok n := by
  rw [handleReadN, run_lift_bind (substr_body cmd body)]
  cases hn : stoi16 body with
  | error e =>
    rw [run_lift_bind_error rfl]
    exact iff_of_false id nofun
  | ok n =>
    rw [run_lift_bind rfl]
    exact iff_of_true (proper_answer _) ⟨n, rfl⟩

/-- `P`: the number must be one that `stoi` reads, and eight characters must follow the
equals sign, the terminator included. -/
theorem proper_handleWriteN :
    g.Proper (cmd :: body) ((handleWriteN io (cmd :: body)).run { server := g }) ↔
      ∀ eq, findFrom (cmd :: body) (ch '=') 0 = some eq → eq + 8 ≤ (cmd :: body).length ∧
        ∃ n, stoi16 (body.take (eq - 1)) = .ok n ∧
          (n < 0 ∨ 20 < n ∨ WellFormed (cmd :: body)) := by
  rw [handleWriteN]
  cases heq : findFrom (cmd :: body) (ch '=') 0 with
  | none => exact iff_of_true (proper_answer _) nofun
  | some eq =>
    have hsub : substr (cmd :: body) 1 (some (eq - 1)) = .ok (body.take (eq - 1)) :=
      substr_of_le (by simp) _
    dsimp only
    rw [run_lift_bind hsub]
    simp only [Option.some.injEq, forall_eq']
    cases hn : stoi16 (body.take (eq - 1)) with
    | error e =>
      rw [run_lift_bind_error rfl]
      exact iff_of_false id (by rintro ⟨-, n, h, -⟩; cases h)
    | ok n =>
      rw [run_lift_bind rfl]
      rcases lt_or_ge (cmd :: body).length (eq + 8) with hlen | hlen
      · have hshort : (cmd :: body).length < eq + 1 + 7 := hlen
        obtain ⟨e, he⟩ := fromHex32_of_lt hshort
        rw [run_lift_bind_error he]
        exact iff_of_false id fun h => h.1.not_gt hlen
      · have hlong : eq + 1 + 7 ≤ (cmd :: body).length := hlen
        obtain ⟨v, hv⟩ := fromHex32_of_le hlong
        rw [run_lift_bind hv, regWriteN]
        simp only [hlen, true_and, Except.ok.injEq, exists_eq_left']
        split_ifs with hrange
        · exact iff_of_true (proper_answer _) (hrange.imp_right .inl)
        · rw [run_bind_ok (run_act ..), ← or_assoc, or_iff_right hrange]
          exact proper_done (List.cons_ne_nil _ _)

/-- `m`: whatever the packet says, bytes are read. -/
theorem proper_handleReadMem :
    g.Proper (cmd :: body) ((handleReadMem io (cmd :: body)).run { server := g }) := by
  have htext : cStr (cmd :: body) 1 = .ok body := cStr_of_le (by simp)
  obtain ⟨mem, g', hrun, hg⟩ := run_readMem io (scanHexPair body).2.toNat
    (scanHexPair body).1 { server := g }
  rw [handleReadMem, run_lift_bind htext]
  dsimp only
  rw [run_bind_ok hrun]
  exact proper_sendRsp.mpr (.inr ⟨rfl, hg⟩)

/-- `M`: without a colon, without a length or without the digits of one byte, nothing is
written. -/
theorem proper_handleWriteMem :
    g.Proper (cmd :: body) ((handleWriteMem io (cmd :: body)).run { server := g }) ↔
      ∀ colon, findFrom (cmd :: body) (ch ':') 0 = some colon →
        (scanHexPair body).2 = 0 ∨ (cmd :: body).length < colon + 3 ∨
          WellFormed (cmd :: body) := by
  have htext : cStr (cmd :: body) 1 = .ok body := cStr_of_le (by simp)
  rw [handleWriteMem, run_lift_bind htext]
  dsimp only
  cases hcolon : findFrom (cmd :: body) (ch ':') 0 with
  | none => exact iff_of_true (proper_answer _) nofun
  | some colon =>
    have hsub : substr (cmd :: body) (colon + 1) none = .ok ((cmd :: body).drop (colon + 1)) :=
      substr_of_le (findFrom_lt hcolon) none
    set data := (cmd :: body).drop (colon + 1) with hdata
    obtain ⟨g', log, hrun, hlog, hg⟩ := run_writeMem io (scanHexPair body).1 data
      (scanHexPair body).2.toNat 0 { server := g }
    dsimp only
    rw [run_lift_bind hsub, run_bind_ok hrun]
    simp only [Option.some.injEq, forall_eq']
    have hidle : log = [] ↔ (scanHexPair body).2 = 0 ∨ (cmd :: body).length < colon + 3 := by
      have hzero : (scanHexPair body).2.toNat = 0 ↔ (scanHexPair body).2 = 0 :=
        ⟨fun h => BitVec.eq_of_toNat_eq h, fun h => by rw [h]; rfl⟩
      have hone : ((0 : U32) * 2 + 1).toNat = 1 := rfl
      rw [hlog, hdata, List.length_drop, hzero, hone]
      exact or_congr_right (by omega)
    rw [← or_assoc, ← hidle]
    by_cases hl : log = []
    · have hsame : g' = g := hg hl
      rw [hsame]
      exact iff_of_true (proper_sendRsp.mpr (.inr ⟨hl, .refl g⟩)) (.inl hl)
    · rw [or_iff_right hl]
      exact proper_done hl

/-- `c` and `s`: whatever follows, the CPU runs. -/
theorem proper_handleRun {pkt : List U8} (single : Bool) (hres : Resumes pkt) :
    g.Proper pkt ((handleRun run single).run { server := g }) ↔ WellFormed pkt := by
  rw [handleRun]
  cases hrun : run single g with
  | none =>
    have hstop : (runTarget run single).run { server := g } =
        .error .running ⟨g, [.run single], []⟩ := by
      change runTarget run single _ = _
      rw [runTarget, hrun]
      rfl
    rw [run_bind_error hstop]
    exact ⟨fun h => h.2.2.resolve_right nofun, fun h => ⟨hres, rfl, .inl h⟩⟩
  | some r =>
    have hstop : (runTarget run single).run { server := g } =
        .ok r.2 ⟨r.1, [.run single], []⟩ := by
      change runTarget run single _ = _
      rw [runTarget, hrun]
      rfl
    rw [run_bind_ok hstop]
    exact proper_done (List.cons_ne_nil _ _)

/-- The types 0 to 4 are the digits. -/
theorem zpoint_ofType (t : U8) (addr kind : U32) :
    ZPoint.ofType (t.toInt - '0'.toNat) addr kind = none ↔ t ∉ str "01234" := by
  have hdigit : t ∈ str "01234" ↔ t.toInt - 48 ∈ [(0 : ℤ), 1, 2, 3, 4] := by
    revert t
    decide +kernel
  rw [hdigit, show (('0'.toNat : ℕ) : ℤ) = 48 from rfl]
  unfold ZPoint.ofType
  split <;> simp_all

/-- `Z` and `z`: the addresses start behind the third byte. -/
theorem proper_handlePoint (action : ZPoint → RspAction) :
    g.Proper (cmd :: body) ((handlePoint io action (cmd :: body)).run { server := g }) ↔
      3 ≤ (cmd :: body).length ∧
        ((∀ t ∈ str "01234", body.head? ≠ some t) ∨ WellFormed (cmd :: body)) := by
  rw [handlePoint, run_lift_bind (charAt_of_le (by simp))]
  rcases lt_or_ge (cmd :: body).length 3 with hlen | hlen
  · rw [run_lift_bind_error (cStr_of_lt hlen)]
    exact iff_of_false id fun h => h.1.not_gt hlen
  · obtain ⟨t, body, rfl⟩ : ∃ t body', body = t :: body' :=
      List.exists_cons_of_length_pos (by rw [List.length_cons] at hlen; omega)
    have hnone : (∀ c ∈ str "01234", (t :: body).head? ≠ some c) ↔ t ∉ str "01234" :=
      ⟨fun h ht => h t ht rfl, fun h c hc heq => h (Option.some.inj heq ▸ hc)⟩
    rw [run_lift_bind (cStr_of_le hlen), and_iff_right hlen, hnone]
    obtain ⟨addr, kind⟩ := scanHexPair ((cmd :: t :: body).drop 3)
    simp only [List.getD_cons_succ, List.getD_cons_zero]
    cases hpt : ZPoint.ofType (t.toInt - '0'.toNat) addr (if kind = 0 then 4 else kind) with
    | none => exact iff_of_true (proper_answer _) (.inl ((zpoint_ofType ..).mp hpt))
    | some pt =>
      have hdigit : ¬t ∉ str "01234" := fun h => by
        rw [(zpoint_ofType ..).mpr h] at hpt
        cases hpt
      dsimp only
      rw [run_bind_ok (run_act ..), or_iff_right hdigit]
      exact proper_done (List.cons_ne_nil _ _)

/-- `Q`: the server may change, the target does not. -/
theorem proper_handleSet (pkt : List U8) :
    g.Proper pkt ((handleSet pkt).run { server := g }) := by
  rw [handleSet]
  split_ifs
  · exact ⟨⟨_, rfl⟩, .inr ⟨rfl, rfl, .refl _, rfl, rfl⟩⟩
  · exact proper_answer _
  · exact proper_answer _

/-- `v`: behind `vCont;`, the CPU runs whatever follows. -/
theorem proper_handleV (hcmd : RspCommand.ofByte cmd = .v) :
    g.Proper (cmd :: body) ((handleV run (cmd :: body)).run { server := g }) ↔
      (str "vCont;" <+: cmd :: body → WellFormed (cmd :: body)) := by
  rw [handleV]
  split_ifs with hask hcont
  · refine iff_of_true (proper_answer _) fun h => ?_
    rw [hask] at h
    exact absurd h (by decide)
  · have hpre : str "vCont;" <+: cmd :: body := List.isPrefixOf_iff_prefix.mp hcont
    have hres : Resumes (cmd :: body) := by
      rw [Resumes, hcmd]
      exact hpre
    have hbyte : charAt (cmd :: body) 6 = .ok ((cmd :: body).getD 6 0) :=
      charAt_of_le hpre.length_le
    rw [run_lift_bind hbyte, forall_prop_of_true hpre]
    exact proper_handleRun _ hres
  · exact iff_of_true (proper_answer _) fun h => absurd (List.isPrefixOf_iff_prefix.mpr h) hcont

/-- `stoul` returns a number where it reads one. -/
theorem stoul16_ok_iff (s : List U8) : (∃ v, stoul16 s = .ok v) ↔ Reads s := by
  rw [stoul16, Reads]
  cases strtol16 s with
  | none => exact iff_of_false nofun nofun
  | some n =>
    dsimp only
    split_ifs with h
    · exact iff_of_true ⟨_, rfl⟩ ⟨n, rfl, h⟩
    · refine iff_of_false nofun ?_
      rintro ⟨m, hm, hlt⟩
      obtain rfl := Option.some.inj hm
      exact h hlt

/-- No number starts with a `q`. -/
theorem stoul16_q (rest : List U8) : stoul16 (ch 'q' :: rest) = .error .invalidArgument := by
  have hspace : (ch 'q' :: rest).dropWhile isSpace = ch 'q' :: rest :=
    List.dropWhile_cons_of_neg (by decide)
  have hdigits : (ch 'q' :: rest).takeWhile isHex = [] := List.takeWhile_cons_of_neg (by decide)
  have hsign : splitSign (ch 'q' :: rest) = (false, ch 'q' :: rest) := by
    rw [splitSign, if_neg (by decide), if_neg (by decide)]
  have hmark : hasHexPrefix (ch 'q' :: rest) = false := rfl
  rw [stoul16, strtol16, hspace, hsign]
  simp only [hmark, Bool.false_and, Bool.false_eq_true, if_false, hdigits, if_true]

/-- **`qXfer` reads its two numbers**, or throws. Without a comma the second number starts
at the first byte of the packet. -/
theorem handleQXfer_ok_iff (rest : List U8) :
    (∃ reply, handleQXfer (ch 'q' :: rest) = .ok reply) ↔ QXferReads (ch 'q' :: rest) := by
  -- without a separator the packet itself is read as a number, and `q` is no digit
  have hq : ∀ v, stoul16 (ch 'q' :: rest) ≠ .ok v := fun v h => by
    rw [stoul16_q] at h
    cases h
  set pkt := ch 'q' :: rest
  have hwhole : substr pkt 0 none = .ok pkt := substr_of_le (Nat.zero_le _) none
  rw [handleQXfer, QXferReads]
  cases hcolon : rfind pkt (ch ':') with
  | none =>
    refine iff_of_false ?_ (by rintro ⟨_, _, h, -⟩; cases h)
    simp only [Option.bind_none, Option.elim_none, Option.map_none, hwhole, exists_ok_bind]
    rintro ⟨_, ⟨⟩, _, h, -⟩
    exact hq _ h
  | some colon =>
    cases hcomma : findFrom pkt (ch ',') colon with
    | none =>
      refine iff_of_false ?_ (by rintro ⟨_, _, ⟨⟩, h, -⟩; rw [hcomma] at h; cases h)
      simp only [Option.bind_some, hcomma, Option.elim_none, hwhole, exists_ok_bind]
      rintro ⟨_, _, _, _, _, ⟨⟩, _, h, -⟩
      exact hq _ h
    | some comma =>
      have hoff := substr_of_le (rfind_lt hcolon) (some (comma - (colon + 1)))
      have hlen := substr_of_le (findFrom_lt hcomma) none
      have hnum := stoul16_ok_iff ((pkt.drop (colon + 1)).take (comma - (colon + 1)))
      simp only [Option.bind_some, hcomma, Option.elim_some, Option.map_some, exists_ok_bind]
      constructor
      · rintro ⟨_, hsub, off, hread, _, hsub', len, hread', -⟩
        rw [hoff] at hsub
        rw [hlen] at hsub'
        cases hsub
        cases hsub'
        exact ⟨colon, comma, rfl, hcomma, hnum.mp ⟨off, hread⟩, (stoul16_ok_iff _).mp ⟨len, hread'⟩⟩
      · rintro ⟨_, _, ⟨⟩, h, hr, hr'⟩
        rw [hcomma] at h
        cases h
        obtain ⟨off, hread⟩ := (stoul16_ok_iff _).mpr hr
        obtain ⟨len, hread'⟩ := (stoul16_ok_iff _).mpr hr'
        refine ⟨_, hoff, off, hread, _, hlen, len, hread', ?_⟩
        split_ifs <;> exact ⟨_, rfl⟩

/-- A text that starts with one word does not start with another. -/
theorem not_startsWith {a b l : List U8} (h : a <+: l) (hlen : b.length ≤ a.length)
    (hab : ¬b <+: a) : ¬b <+: l :=
  fun hb => hab (List.prefix_of_prefix_length_le hb h hlen)

/-- `q`: the two queries with numbers must have them. -/
theorem queryReply_ok_iff (pkt : List U8) :
    (∃ reply, queryReply pkt = .ok reply) ↔
      (str "qRegisterInfo" <+: pkt → ∃ n, stoi16 (pkt.drop 13) = .ok n) ∧
        (str "qXfer:features:read:target.xml:" <+: pkt → QXferReads pkt) := by
  have hplain {r : List U8} (hreg : ¬str "qRegisterInfo" <+: pkt)
      (hxfer : ¬str "qXfer:features:read:target.xml:" <+: pkt) :
      (∃ reply, (pure r : Except TextError (List U8)) = .ok reply) ↔
        (str "qRegisterInfo" <+: pkt → ∃ n, stoi16 (pkt.drop 13) = .ok n) ∧
          (str "qXfer:features:read:target.xml:" <+: pkt → QXferReads pkt) :=
    iff_of_true ⟨r, rfl⟩ ⟨fun h => absurd h hreg, fun h => absurd h hxfer⟩
  -- a packet with a fixed text is none of the two
  have hfixed {t : List U8} (hpkt : pkt = t) (hreg : ¬str "qRegisterInfo" <+: t)
      (hxfer : ¬str "qXfer:features:read:target.xml:" <+: t) :
      ¬str "qRegisterInfo" <+: pkt ∧ ¬str "qXfer:features:read:target.xml:" <+: pkt := by
    rw [hpkt]
    exact ⟨hreg, hxfer⟩
  rw [queryReply]
  refine exists_ok_ite (fun hsup => ?_) fun _ => exists_ok_ite (fun hatt => ?_) fun _ =>
    exists_ok_ite (fun hc => ?_) fun _ => exists_ok_ite (fun hf => ?_) fun _ =>
    exists_ok_ite (fun hs => ?_) fun _ => exists_ok_ite (fun hhost => ?_) fun _ =>
    exists_ok_ite (fun hproc => ?_) fun _ => exists_ok_ite (fun hreg => ?_) fun hreg =>
    exists_ok_ite (fun hxfer => ?_) fun hxfer => exists_ok_ite (fun _ => ?_) fun _ => ?_
  · have hsup : str "qSupported:" <+: pkt := List.isPrefixOf_iff_prefix.mp hsup
    exact hplain (fun h => not_startsWith h (by decide) (by decide) hsup)
      fun h => not_startsWith h (by decide) (by decide) hsup
  · obtain ⟨hr, hx⟩ := hfixed hatt (by decide) (by decide)
    exact hplain hr hx
  · obtain ⟨hr, hx⟩ := hfixed hc (by decide) (by decide)
    exact hplain hr hx
  · obtain ⟨hr, hx⟩ := hfixed hf (by decide) (by decide)
    exact hplain hr hx
  · obtain ⟨hr, hx⟩ := hfixed hs (by decide) (by decide)
    exact hplain hr hx
  · obtain ⟨hr, hx⟩ := hfixed hhost (by decide) (by decide)
    exact hplain hr hx
  · obtain ⟨hr, hx⟩ := hfixed hproc (by decide) (by decide)
    exact hplain hr hx
  · have hreg : str "qRegisterInfo" <+: pkt := List.isPrefixOf_iff_prefix.mp hreg
    have hxfer : ¬str "qXfer:features:read:target.xml:" <+: pkt :=
      fun h => not_startsWith h (by decide) (by decide) hreg
    have hsub : substr pkt 13 none = .ok (pkt.drop 13) := substr_of_le hreg.length_le none
    simp only [exists_ok_bind, hsub, forall_prop_of_true hreg, forall_prop_of_false hxfer,
      and_true, Except.ok.injEq, exists_eq_left']
    exact exists_congr fun n => ⟨fun h => h.1, fun h => ⟨h, _, rfl⟩⟩
  · have hxfer : str "qXfer:features:read:target.xml:" <+: pkt :=
      List.isPrefixOf_iff_prefix.mp hxfer
    obtain ⟨rest, rfl⟩ : ∃ rest, pkt = ch 'q' :: rest :=
      let ⟨rest, h⟩ := hxfer
      ⟨_, h.symm⟩
    rw [forall_prop_of_true hxfer, handleQXfer_ok_iff]
    exact (and_iff_right fun h => absurd (List.isPrefixOf_iff_prefix.mpr h) hreg).symm
  all_goals
    exact hplain (fun h => hreg (List.isPrefixOf_iff_prefix.mpr h))
      fun h => hxfer (List.isPrefixOf_iff_prefix.mpr h)

/-- **Which packets are handled properly**: whatever the state of the server and whatever
the CPU does when it runs, exactly the harmless ones. -/
theorem robust_iff (io : IoSpace D) (run : Bool → GdbRsp D → Option (GdbRsp D × List U8))
    (g : GdbRsp D) (pkt : List U8) : g.Robust io run pkt ↔ Harmless pkt := by
  cases pkt with
  | nil => exact iff_of_true (proper_answer _) trivial
  | cons cmd body =>
    unfold Robust handlePacket Harmless
    dsimp only
    cases hcmd : RspCommand.ofByte cmd with
    | why | H | T | j | other => exact iff_of_true (proper_answer _) trivial
    | g => exact iff_of_true (proper_answer _) trivial
    | G => exact proper_handleG
    | p => exact proper_handleReadN
    | P => exact proper_handleWriteN
    | m => exact iff_of_true proper_handleReadMem trivial
    | M => exact proper_handleWriteMem
    | c | s =>
      refine proper_handleRun _ ?_
      rw [Resumes, hcmd]
      trivial
    | Z | z => exact proper_handlePoint _
    | Q => exact iff_of_true (proper_handleSet _) trivial
    | v => exact proper_handleV hcmd
    | q =>
      rw [← queryReply_ok_iff]
      cases hreply : queryReply (cmd :: body) with
      | error e =>
        rw [run_lift_bind_error rfl]
        exact iff_of_false id nofun
      | ok reply =>
        rw [run_lift_bind rfl]
        exact iff_of_true (proper_answer _) ⟨reply, rfl⟩

/-- A server whose machine has no memory and no devices. -/
def bare : GdbRsp Unit where
  machine :=
    { cpu := {}
      bus :=
        { iram := fun _ => 0, sram := fun _ => 0, sramSize := 0
          flash := .flat ⟨0, fun _ => 0⟩, dev := () } }

/-- **Three malformed packets**: `p` without a number throws, the value of `P0=1` is read
past its end, and `Z0,` sets a breakpoint at the address 0. -/
theorem malformed_not_robust :
    ¬bare.Robust (.empty Unit) (fun _ _ => none) (str "p") ∧
      ¬bare.Robust (.empty Unit) (fun _ _ => none) (str "P0=1") ∧
      ¬bare.Robust (.empty Unit) (fun _ _ => none) (str "Z0,") := by
  refine ⟨fun h => ?_, fun h => ?_, fun h => ?_⟩
  · obtain ⟨n, hn⟩ := proper_handleReadN.mp h
    cases hn
  · have hlen := (proper_handleWriteN.mp h 2 (by decide)).1
    exact absurd hlen (by decide)
  · rcases ((proper_handlePoint _).mp h).2 with hn | hw
    · exact hn (ch '0') (by decide) rfl
    · exact absurd hw.2.2.1 (by decide)

end GdbRsp
