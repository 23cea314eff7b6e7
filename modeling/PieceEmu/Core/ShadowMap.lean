import PieceEmu.Core.DataAccess

/-!
# The shadow map and the last writer

The bus keeps for each byte of the SRAM the program counter under which it was written
last, and answers with it when a watchpoint is hit. The map is updated by the three write
routines, but in the branch that looks for watchpoints: what is written while none is
installed is not recorded, and the entry of the byte stays what it was.

So the answer is the last writer as long as no write is missed (`ShadowLog.names_last_writer`):
each is made while a watchpoint is installed, or under the very program counter the bytes it
covers were written under last. After any other write the map names a writer that is not the
last one.
-/

/-- What is done to the bus: watchpoints come and go, and the program stores. -/
inductive ShadowAct
  /-- `add_watchpoint`. -/
  | add (wp : Watchpoint)
  /-- `remove_watchpoint`. -/
  | remove (wp : Watchpoint)
  /-- `clear_watchpoints`. -/
  | clear
  /-- `debug_pc` is set, and a write is made. -/
  | store (pc : U32) (op : MemOp)

/-- A bus, with the writes made to it. -/
structure ShadowLog (D : Type) where
  bus : Bus D
  /-- Ghost: the writes, the last one first, each with its `debug_pc`. -/
  writes : List (U32 × MemOp) := []

/-- The last writer of a byte: the program counter of the first write of the list that
covers it. -/
def lastWriter : List (U32 × MemOp) → U32 → U32
  | [], _ => 0xFFFFFFFF
  | (pc, op) :: writes, addr => if op.Covers addr then pc else lastWriter writes addr

namespace Bus

variable {D : Type} {io : IoSpace D} {b : Bus D} {op : MemOp}

/-- The note of a write, in the map: it is made while a watchpoint is installed. -/
theorem shadowLastWriter_noteSramWrite (hin : b.InSram op) (v addr : U32) :
    (b.noteSramWrite op.target v op.width).shadowLastWriter addr =
      if b.watchpoints ≠ [] ∧ op.Covers (mask28 addr) then b.debugPc
      else b.shadowLastWriter addr := by
  obtain ⟨hlo, hhi⟩ := hin.bounds
  obtain ⟨hoff, -⟩ := hin.offset
  by_cases hwp : b.watchpoints = []
  · rw [noteSramWrite, hasWatchpoints, hwp, if_neg (not_and_of_not_left _ (not_not_intro rfl))]
    rfl
  rw [noteSramWrite, hasWatchpoints, List.isEmpty_eq_false_iff.mpr hwp]
  change (if sramBase ≤ mask28 addr ∧ (mask28 addr).toNat < sramBase.toNat + b.sramSize then
    if (op.target - sramBase).toNat ≤ (mask28 addr - sramBase).toNat ∧
        (mask28 addr - sramBase).toNat < min ((op.target - sramBase).toNat + op.width) b.sramSize
      then b.debugPc else b.shadowSram (mask28 addr - sramBase).toNat
    else 0xFFFFFFFF) = if _ then _ else if _ then _ else _
  by_cases hmem : sramBase ≤ mask28 addr ∧ (mask28 addr).toNat < sramBase.toNat + b.sramSize
  · have hsub : (mask28 addr - sramBase).toNat = (mask28 addr).toNat - 0x100000 :=
      toNat_sub_base hmem.1
    have hge : 0x100000 ≤ (mask28 addr).toNat := hmem.1
    have hlt : (mask28 addr).toNat < 0x100000 + b.sramSize := hmem.2
    rw [if_pos hmem, if_pos hmem, hsub]
    refine if_congr ?_ rfl rfl
    rw [and_iff_right hwp, MemOp.Covers]
    omega
  · have hout : ¬op.Covers (mask28 addr) := by
      rintro ⟨hge, hlt⟩
      refine hmem ⟨show 0x100000 ≤ (mask28 addr).toNat by omega, ?_⟩
      change (mask28 addr).toNat < 0x100000 + b.sramSize
      omega
    rw [if_neg hmem, if_neg (not_and_of_not_right _ hout), if_neg hmem]

/-- **A write to the installed SRAM**, in the map. -/
theorem shadowLastWriter_access (hin : b.InSram op) (hw : op.isWrite = true) (addr : U32) :
    (b.access io op).2.shadowLastWriter addr =
      if b.watchpoints ≠ [] ∧ op.Covers (mask28 addr) then b.debugPc
      else b.shadowLastWriter addr := by
  obtain ⟨fault, n, haccess⟩ := access_write_sram io hin hw
  rw [haccess, storeSram_shadowLastWriter]
  exact shadowLastWriter_noteSramWrite (b := b.entered fault n) hin op.stored addr

end Bus

namespace ShadowLog

variable {D : Type} (io : IoSpace D)

/-- A change of the list of watchpoints. -/
def mapWatchpoints (s : ShadowLog D) (f : List Watchpoint → List Watchpoint) : ShadowLog D :=
  { s with bus := { s.bus with watchpoints := f s.bus.watchpoints } }

/-- One action. -/
def step (s : ShadowLog D) : ShadowAct → ShadowLog D
  | .add wp => s.mapWatchpoints (· ++ [wp])
  | .remove wp => s.mapWatchpoints (·.filter (· ≠ wp))
  | .clear => s.mapWatchpoints fun _ => []
  | .store pc op =>
    { bus := ({ s.bus with debugPc := pc }.access io op).2, writes := (pc, op) :: s.writes }

/-- A bus as it is constructed. -/
def start (b : Bus D) : ShadowLog D where
  bus := { b with shadowSram := fun _ => 0xFFFFFFFF, watchpoints := [] }

/-- Every store is a write to the installed SRAM. -/
def Stores (s : ShadowLog D) : ShadowAct → Prop
  | .store _ op => op.isWrite = true ∧ s.bus.InSram op
  | _ => True

/-- **The map names the last writer** of every byte. -/
def NamesLast (s : ShadowLog D) : Prop :=
  ∀ addr, s.bus.shadowLastWriter addr = lastWriter s.writes (Bus.mask28 addr)

/-- **No write is missed**: a store is made while a watchpoint is installed, or under the
program counter of the last write so far to each byte it covers. -/
def Recorded (s : ShadowLog D) : ShadowAct → Prop
  | .store pc op =>
    s.bus.watchpoints ≠ [] ∨ ∀ addr, op.Covers addr → lastWriter s.writes addr = pc
  | _ => True

instance (s : ShadowLog D) : (a : ShadowAct) → Decidable (s.Stores a)
  | .store .. => inferInstanceAs (Decidable (_ ∧ _))
  | .add _ | .remove _ | .clear => .isTrue trivial

variable {s : ShadowLog D}

/-- A store keeps the map right if and only if it is recorded, or changes no answer. -/
theorem namesLast_store (h : s.NamesLast) {op : MemOp} (hw : op.isWrite = true)
    (hin : s.bus.InSram op) (pc : U32) :
    (s.step io (.store pc op)).NamesLast ↔ s.Recorded (.store pc op) := by
  have hstore (addr : U32) : (s.step io (.store pc op)).bus.shadowLastWriter addr =
      if s.bus.watchpoints ≠ [] ∧ op.Covers (Bus.mask28 addr) then pc
      else s.bus.shadowLastWriter addr :=
    Bus.shadowLastWriter_access (b := { s.bus with debugPc := pc }) hin hw addr
  have hlast (addr : U32) : lastWriter (s.step io (.store pc op)).writes addr =
      if op.Covers addr then pc else lastWriter s.writes addr := rfl
  by_cases hwp : s.bus.watchpoints = []
  · -- the map is not told of the store, the log is
    simp only [NamesLast, Recorded, hstore, hlast, hwp, ne_eq, not_true_eq_false, false_and,
      if_false, false_or, h _]
    constructor
    · intro hall addr hcov
      have hmask : Bus.mask28 addr = addr := hcov.mask28
      have := hall addr
      rwa [hmask, if_pos hcov] at this
    · intro hall addr
      split_ifs with hcov
      · exact hall _ hcov
      · rfl
  · refine iff_of_true (fun addr => ?_) (.inl hwp)
    rw [hstore, hlast, h addr]
    simp only [ne_eq, hwp, not_false_eq_true, true_and]

/-- **One action**, from a map that is right. -/
theorem namesLast_step (h : s.NamesLast) {a : ShadowAct} (ha : s.Stores a) :
    (s.step io a).NamesLast ↔ s.Recorded a := by
  cases a with
  | add wp => exact iff_of_true h trivial
  | remove wp => exact iff_of_true h trivial
  | clear => exact iff_of_true h trivial
  | store pc op => exact namesLast_store io h ha.1 ha.2 pc

theorem namesLast_start (b : Bus D) : (start b).NamesLast := fun _ => ite_self _

/-- **The map names the last writer** all along a run of stores and changes of the
watchpoints, from the construction of the bus on, if and only if no write of the run is
missed. -/
theorem names_last_writer (b : Bus D) {acts : List ShadowAct}
    (hacts : ActionRun.Along (step io) Stores (start b) acts) :
    (∀ as, as <+: acts → (ActionRun.exec (step io) (start b) as).NamesLast) ↔
      ActionRun.Along (step io) Recorded (start b) acts :=
  ActionRun.along_iff_forall_prefix_under (I := NamesLast) (fun _ h => h)
    (fun _ _ h ha => namesLast_step io h ha) (fun _ _ h ha => (namesLast_step io h ha).mpr)
    (namesLast_start b) hacts

/-- A bus with 4 bytes of SRAM. -/
def fourBytes : Bus Unit where
  iram := fun _ => 0
  sram := fun _ => 0
  sramSize := 4
  flash := .flat ⟨8, fun _ => 0xFF⟩
  dev := ()

/-- A write watchpoint on the first word. -/
def firstWord : Watchpoint := { addr := 0x100000 }

/-- Two stores to the first byte, the second after the watchpoint is gone. -/
def missedStore : List ShadowAct :=
  [.add firstWord, .store 0x100 (.write8 0x100000 1), .clear, .store 0x200 (.write8 0x100000 2)]

/-- Two stores to it, the second to its last byte, with the watchpoint in place. -/
def seenStores : List ShadowAct :=
  [.add firstWord, .store 0x100 (.write32 0x100000 1), .store 0x200 (.write8 0x100003 2)]

theorem names_last_writer_seenStores :
    (ActionRun.exec (step (IoSpace.empty Unit)) (start fourBytes) seenStores).NamesLast := by
  have hacts : ActionRun.Along (step (IoSpace.empty Unit)) Stores (start fourBytes) seenStores := by
    decide +kernel
  have hrecorded : ActionRun.Along (step (IoSpace.empty Unit)) Recorded (start fourBytes)
      seenStores := ⟨trivial, .inl (by decide), .inl (by decide), trivial⟩
  exact (names_last_writer _ _ hacts).mpr hrecorded seenStores (List.prefix_refl _)

/-- **A missed store**: the map names the writer before it, `100` and not `200`. -/
theorem missedStore_stale :
    ActionRun.Along (step (IoSpace.empty Unit)) Stores (start fourBytes) missedStore ∧
      ¬(ActionRun.exec (step (IoSpace.empty Unit)) (start fourBytes) missedStore).NamesLast :=
  ⟨by decide +kernel, fun h => absurd (h 0x100000) (by decide +kernel)⟩

end ShadowLog
