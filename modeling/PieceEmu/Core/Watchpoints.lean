import PieceEmu.Core.BusActions

/-!
# Watchpoints, complete and precise

A watchpoint names a range of bytes and a kind of access. The callback is due once for each
watchpoint of the right kind with a byte in common with a data access to the SRAM
(`Bus.callsFor`), and it is due before a write is stored. Whether it is called then is
settled per access, by a test of the two ranges in `fire_wp`, and the access has to reach one
of the six routines that make the test.

* Every data access of an instruction reaches them while a watchpoint is installed
  (`Machine.along_runActions`), the shortcuts of `mac` included.
* The test compares the ends of the two ranges, which says that they overlap only if neither
  is empty. A range of size 0 passes it wherever its address lies strictly inside the access
  (`Bus.watched_iff_sized`), although it has no byte to share.

A write to a register is left to its handler, which may itself access memory.
-/

/-! ### The calls that are due -/

/-- The kind of access a watchpoint watches for. -/
def WpType.Watches : WpType → Bool → Prop
  | write, isWrite => isWrite = true
  | read, isWrite => isWrite = false
  | rw, _ => True

instance : (t : WpType) → (isWrite : Bool) → Decidable (t.Watches isWrite)
  | .write, _ | .read, _ => inferInstanceAs (Decidable (_ = _))
  | .rw, _ => .isTrue trivial

/-- **An access meets a watchpoint**: they have a byte in common. -/
def Watchpoint.Meets (wp : Watchpoint) (op : MemOp) : Prop :=
  ∃ x, (wp.addr.toNat ≤ x ∧ x < wp.addr.toNat + wp.size.toNat) ∧
    op.target.toNat ≤ x ∧ x < op.target.toNat + op.width

theorem Watchpoint.meets_iff (wp : Watchpoint) (op : MemOp) :
    wp.Meets op ↔ 0 < wp.size.toNat ∧ op.target.toNat < wp.addr.toNat + wp.size.toNat ∧
      wp.addr.toNat < op.target.toNat + op.width := by
  have hwidth := op.width_pos
  constructor
  · rintro ⟨x, hx, hx'⟩
    omega
  · intro h
    exact ⟨max wp.addr.toNat op.target.toNat, by omega, by omega⟩

instance (wp : Watchpoint) (op : MemOp) : Decidable (wp.Meets op) :=
  decidable_of_iff _ (wp.meets_iff op).symm

namespace Bus

variable {D : Type} (io : IoSpace D)

/-- The call for one watchpoint: with the value read, or about to be written, and while
memory holds what it held before the access. -/
def callFor (b : Bus D) (op : MemOp) (wp : Watchpoint) : WpCall where
  wp := wp
  addr := op.target
  val := if op.isWrite then op.stored else (b.access io op).1
  width := op.width
  isWrite := op.isWrite
  held := b.sramHeld op.target op.width

/-- **The calls due for an access**: one for each watchpoint of its kind that it meets, if it is
a data access to the installed SRAM, and none otherwise. -/
def callsFor (b : Bus D) (op : MemOp) : List WpCall :=
  if op.isData ∧ b.InSram op then
    (b.watchpoints.filter fun wp => wp.type.Watches op.isWrite ∧ wp.Meets op).map (b.callFor io op)
  else []

/-- The calls due for what happens on the bus. -/
def due (b : Bus D) : BusAction → List WpCall
  | .access op | .direct op => b.callsFor io op
  | .tick _ | .takeFault => []

/-- A write to a register, which is the business of its handler. -/
def WritesRegister (b : Bus D) : BusAction → Prop
  | .access op => op.isWrite = true ∧ b.classify op.target = .io
  | _ => False

/-- **Watched**: the callback is called as it is due, and not otherwise. -/
def Watched (b : Bus D) (a : BusAction) : Prop :=
  ¬b.WritesRegister a → (a.act io b).wpCalls = b.wpCalls ++ b.due io a

/-- A set of watchpoints within the address space, over a SRAM of whole words. -/
structure WatchSet (b : Bus D) : Prop where
  sramSize : b.sramSize % 4 = 0
  range : ∀ wp ∈ b.watchpoints, wp.addr.toNat + wp.size.toNat ≤ 2 ^ 28

/-- **No watchpoint of size 0** lies inside an access of its kind to the SRAM. -/
def Sized (b : Bus D) : BusAction → Prop
  | .access op | .direct op => op.isData ∧ b.InSram op → ∀ wp ∈ b.watchpoints,
      wp.type.Watches op.isWrite → wp.size = 0 →
        ¬(op.target.toNat < wp.addr.toNat ∧ wp.addr.toNat < op.target.toNat + op.width)
  | .tick _ | .takeFault => True

/-! ### The calls an access makes -/

variable {io} {b : Bus D} {op : MemOp}

theorem fireWp_unwatched (h : ¬b.hasWatchpoints = true) (addr v : U32) (n : ℕ) (isWrite : Bool) :
    (b.fireWp addr v n isWrite).wpCalls = b.wpCalls := by
  have hnil : b.watchpoints = [] := by
    simpa [hasWatchpoints] using h
  rw [fireWp, hnil]
  exact List.append_nil _

theorem noteSramRead_wpCalls (addr v : U32) (n : ℕ) :
    (b.noteSramRead addr v n).wpCalls = (b.fireWp addr v n false).wpCalls := by
  unfold noteSramRead
  split_ifs with h
  · rfl
  · exact (fireWp_unwatched h ..).symm

theorem noteSramWrite_wpCalls (addr v : U32) (n : ℕ) :
    (b.noteSramWrite addr v n).wpCalls = (b.fireWp addr v n true).wpCalls := by
  unfold noteSramWrite
  split_ifs with h
  · rfl
  · exact (fireWp_unwatched h ..).symm

/-- A data access to the installed SRAM makes the calls that `fire_wp` decides on. -/
theorem access_wpCalls (hd : op.isData = true) (hin : b.InSram op) :
    (b.access io op).2.wpCalls = b.wpCalls ++
      (b.watchpoints.filter fun wp => Watchpoint.fires wp op.target op.width op.isWrite).map
        (b.callFor io op) := by
  cases hw : op.isWrite with
  | false =>
    obtain ⟨fault, n, haccess⟩ := access_read_sram io hin hd hw
    have hcall : b.callFor io op = fun wp =>
        ⟨wp, op.target, b.sramHeld op.target op.width, op.width, false,
          b.sramHeld op.target op.width⟩ := by
      funext wp
      rw [callFor, hw, haccess]
      rfl
    rw [haccess, hcall]
    exact noteSramRead_wpCalls ..
  | true =>
    obtain ⟨fault, n, haccess⟩ := access_write_sram io hin hw
    have hcall : b.callFor io op = fun wp =>
        ⟨wp, op.target, op.stored, op.width, true, b.sramHeld op.target op.width⟩ := by
      funext wp
      rw [callFor, hw]
      rfl
    have hstore (b' : Bus D) : (b'.storeSram op).wpCalls = b'.wpCalls := by
      cases op <;> rfl
    rw [haccess, hcall, hstore]
    exact noteSramWrite_wpCalls ..

/-- The test of `fire_wp`, for a watchpoint in the address space. -/
theorem fires_iff {wp : Watchpoint} (hrange : wp.addr.toNat + wp.size.toNat ≤ 2 ^ 28) :
    Watchpoint.fires wp op.target op.width op.isWrite = true ↔
      wp.type.Watches op.isWrite ∧ op.target.toNat < wp.addr.toNat + wp.size.toNat ∧
        wp.addr.toNat < op.target.toNat + op.width := by
  have hend := op.target_add_width_le
  have htop : (wp.addr + wp.size).toNat = wp.addr.toNat + wp.size.toNat :=
    BitVec.toNat_add_of_lt (by omega)
  have hop : (op.target + BitVec.ofNat 32 op.width).toNat = op.target.toNat + op.width := by
    rw [BitVec.toNat_add, BitVec.toNat_ofNat]
    omega
  have htype : (wp.type == .rw || op.isWrite && wp.type == .write ||
      !op.isWrite && wp.type == .read) = true ↔ wp.type.Watches op.isWrite := by
    cases wp.type <;> cases op.isWrite <;> decide
  rw [Watchpoint.fires, Bool.and_eq_true, htype, Bool.and_eq_true, decide_eq_true_eq,
    decide_eq_true_eq, BitVec.lt_def, BitVec.lt_def, htop, hop]

/-- The calls are the ones that are due if and only if the test of `fire_wp` is right about
every installed watchpoint. -/
theorem watched_access_iff (hd : op.isData = true) (hin : b.InSram op) :
    b.Watched io (.access op) ↔ ∀ wp ∈ b.watchpoints,
      (Watchpoint.fires wp op.target op.width op.isWrite = true ↔
        wp.type.Watches op.isWrite ∧ wp.Meets op) := by
  have hreg : ¬b.WritesRegister (.access op) := by
    rintro ⟨-, hio⟩
    rw [hin.classify] at hio
    exact nomatch hio
  have hinj (wp wp' : Watchpoint) (h : b.callFor io op wp = b.callFor io op wp') : wp = wp' :=
    congrArg WpCall.wp h
  have hdue : b.due io (.access op) =
      (b.watchpoints.filter fun wp => wp.type.Watches op.isWrite ∧ wp.Meets op).map
        (b.callFor io op) := if_pos ⟨hd, hin⟩
  rw [Watched, imp_iff_right hreg, hdue, BusAction.act, access_wpCalls hd hin,
    List.append_cancel_left_eq, List.map_inj_right hinj]
  constructor
  · intro heq wp hwp
    have hmem := congrArg (wp ∈ ·) heq
    simpa only [List.mem_filter, hwp, true_and, decide_eq_true_eq, eq_iff_iff] using hmem
  · intro h
    refine List.filter_congr fun wp hwp => ?_
    rw [Bool.eq_iff_iff, h wp hwp, decide_eq_true_eq]

/-- **One action is watched if and only if** no watchpoint of size 0 lies inside it. -/
theorem watched_iff_sized (hset : b.WatchSet) {a : BusAction}
    (ha : a.IsDirect → b.watchpoints = []) : b.Watched io a ↔ b.Sized a := by
  cases a with
  | tick _ => exact iff_of_true (fun _ => (List.append_nil _).symm) trivial
  | takeFault => exact iff_of_true (fun _ => (List.append_nil _).symm) trivial
  | direct op =>
    have hnil := ha trivial
    refine iff_of_true (fun _ => ?_) fun _ => ?_
    · rw [due, callsFor, hnil]
      simp [BusAction.act]
    · rw [hnil]
      exact fun _ h => absurd h List.not_mem_nil
  | access op =>
    by_cases hop : op.isData = true ∧ b.InSram op
    · obtain ⟨hd, hin⟩ := hop
      rw [watched_access_iff hd hin, Sized, imp_iff_right ⟨hd, hin⟩]
      refine forall₂_congr fun wp hwp => ?_
      rw [fires_iff (hset.range wp hwp), Watchpoint.meets_iff, ← BitVec.toNat_inj]
      change _ ↔ (_ → wp.size.toNat = 0 → _)
      by_cases hw : wp.type.Watches op.isWrite
      · simp only [hw, true_and, true_imp_iff]
        omega
      · simp only [hw, false_and, false_imp_iff]
    · -- elsewhere nothing is due, and nothing is called
      refine iff_of_true (fun hreg => ?_) fun h => absurd h hop
      rw [due, callsFor, if_neg hop, List.append_nil]
      exact access_wpCalls_other hset.sramSize hop hreg

end Bus

/-! ### Deciding -/

section Decidable

variable {D : Type} (io : IoSpace D) (b : Bus D)

instance : (a : BusAction) → Decidable (b.WritesRegister a)
  | .access _ => inferInstanceAs (Decidable (_ ∧ _))
  | .direct _ | .tick _ | .takeFault => .isFalse id

instance (a : BusAction) : Decidable (b.Watched io a) := inferInstanceAs (Decidable (_ → _))

instance : Decidable b.WatchSet :=
  decidable_of_iff (b.sramSize % 4 = 0 ∧
      ∀ wp ∈ b.watchpoints, wp.addr.toNat + wp.size.toNat ≤ 2 ^ 28)
    ⟨fun h => ⟨h.1, h.2⟩, fun h => ⟨h.1, h.2⟩⟩

instance : (a : BusAction) → Decidable (b.Sized a)
  | .access _ | .direct _ => inferInstanceAs (Decidable (_ → _))
  | .tick _ | .takeFault => .isTrue trivial

end Decidable

/-! ### Runs -/

namespace Machine

variable {D : Type} (io : IoSpace D)

/-- **The watchpoints are complete and precise** along a run of the CPU if and only if no
watchpoint of size 0 lies inside a data access of its kind: in every step, and in every trap
that is asserted between two steps, the callback is called as it is due. -/
theorem watchpoints_exact (m : Machine D) (as : List CpuAction)
    (hset : ActionRun.Along (BusAction.act io) (fun b _ => b.WatchSet) m.bus (runActions io m as)) :
    (ActionRun.exec (CpuAction.act io) m as).bus =
        ActionRun.exec (BusAction.act io) m.bus (runActions io m as) ∧
      (ActionRun.Along (BusAction.act io) (Bus.Watched io) m.bus (runActions io m as) ↔
        ActionRun.Along (BusAction.act io) Bus.Sized m.bus (runActions io m as)) :=
  ⟨run_bus io m as,
    ActionRun.along_congr_of (I := fun _ => True) (fun _ _ _ _ => trivial)
      (fun _ _ _ h => Bus.watched_iff_sized h.1 h.2) trivial
      (ActionRun.along_and hset (along_runActions io m as))⟩

/-- A board about to execute one instruction, with an address in `%r1` and a set of
watchpoints. -/
def oneInsn (insn : U16) (r1 : U32) (wps : List Watchpoint) : Machine Unit :=
  let m := ofRom [insn]
  { m with
    cpu := { pc := 0xC00000, r := fun n => if n = 1 then r1 else 0x1234 }
    bus := { m.bus with watchpoints := wps } }

/-- `ld.h [%r1],%r2`, at an odd address that is an alias of the SRAM, with three watchpoints of
which two are met. -/
def aliasedStore : Machine Unit :=
  oneInsn 0x3812 0x10100003
    [{ addr := 0x100003, size := 1 }, { addr := 0x100002, size := 8, type := .rw },
      { addr := 0x100002, size := 2, type := .read }]

theorem watchpoints_exact_aliasedStore :
    ActionRun.Along (BusAction.act (IoSpace.empty Unit)) (Bus.Watched (IoSpace.empty Unit))
        aliasedStore.bus (runActions (IoSpace.empty Unit) aliasedStore [.step]) ∧
      ((aliasedStore.step (IoSpace.empty Unit)).bus.wpCalls.map fun call =>
        (call.wp.addr, call.addr, call.val, call.held)) =
          [(0x100003, 0x100002, 0x1234, 0), (0x100002, 0x100002, 0x1234, 0)] :=
  ⟨(watchpoints_exact (IoSpace.empty Unit) aliasedStore [.step] (by decide +kernel)).2.mpr
    (by decide +kernel), by decide +kernel⟩

/-- The same instruction with a watchpoint of size 0 at the second byte of the halfword. -/
def emptyWatch : Machine Unit := oneInsn 0x3812 0x100000 [{ addr := 0x100001, size := 0 }]

/-- **A watchpoint that watches nothing is hit**, by a store around its address. -/
theorem emptyWatch_hit :
    ActionRun.Along (BusAction.act (IoSpace.empty Unit)) (fun b _ => b.WatchSet) emptyWatch.bus
        (runActions (IoSpace.empty Unit) emptyWatch [.step]) ∧
      ¬ActionRun.Along (BusAction.act (IoSpace.empty Unit)) (Bus.Watched (IoSpace.empty Unit))
        emptyWatch.bus (runActions (IoSpace.empty Unit) emptyWatch [.step]) := by
  decide +kernel

end Machine
