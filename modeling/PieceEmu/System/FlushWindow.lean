import PieceEmu.System.PfiWriteback

/-!
# The writeback and the CPU thread, interleaved

The flash device is written by the CPU thread and flushed by the main thread, with
no lock between them: the header of `PfiWriteback` argues that none is needed, since
a write that arrives during a flush stamps the time of the last dirty event again
and is picked up by the next poll. This module takes the two threads apart into
their atomic steps and asks in which interleavings that is true.

| thread | its steps |
|---|---|
| CPU | the memory change of a command; one dirty bit set; one store of the callback |
| main | the checks of `poll`; the reset of the time; one sector of the scan; the clearing |

Taken one after the other, without interleaving, the steps are the functions of the
sequential model: `Window.exec_write` and `Window.exec_poll`.

The flaw is the last step of the main thread. It clears *all* bits, also those of
sectors written after the scan passed them: such a write found its bit still set, so
its callback stayed silent, or set a bit that is cleared before anyone looks. Away
from it the writeback loses nothing (`Window.no_update_lost`).
-/

open Sst39vf (sectorOf sectorSize)

/-- What a flash command still has to do on the CPU thread, once memory has changed. -/
inductive WindowCpu
  /-- The test-and-set of one dirty bit in `mark_dirty`. -/
  | mark (s : ℕ)
  /-- The `std::fill` of the dirty bits by a chip erase. -/
  | markAll
  /-- A call of the dirty callback: the time is stored. -/
  | stamp
  deriving DecidableEq

/-- Where the main thread is in `poll`. -/
inductive WindowMain
  /-- Between polls. -/
  | idle
  /-- The checks have passed, the time is not yet reset. -/
  | due
  /-- The scan of `for_each_dirty_sector` is at sector `i`, with `count` written. -/
  | scan (i count : ℕ)
  deriving DecidableEq

/-- The state the two threads share, and where each of them is. -/
structure Window where
  writeback : PfiWriteback
  cpu : List WindowCpu
  main : WindowMain
  /-- Ghost: the sectors written since they were last copied to the file. -/
  uncopied : ℕ → Bool

/-- One step of either thread. -/
inductive WindowAct
  /-- The CPU thread starts a flash command: it performs the memory change. -/
  | write (offset : U32) (data : U16)
  /-- The CPU thread goes on with its command; the steady clock shows `now`. -/
  | cpu (now : {t : U64 // t ≠ 0})
  /-- The main thread calls `poll(now_us)` and performs the checks. -/
  | poll (nowUs : U64)
  /-- The main thread goes on with its poll. -/
  | main

namespace Window

/-! ### The steps -/

/-- The memory change of a flash command, and what it leaves to do. -/
def beginWrite (f : Sst39vf) (offset : U32) (data : U16) : Sst39vf × List WindowCpu :=
  match f.effect? offset data with
  | none => ((f.write16 offset data).1, [])
  | some e =>
    ({ f with mem := e.apply f.memSize f.mem, state := .normal },
      match e with
      | .eraseChip => [.markAll]
      | e => (f.touched e).map .mark)

/-- The next step of the CPU thread: the device, the time of the last dirty event,
and what is left to do. -/
def cpuStep (w : PfiWriteback) (now : U64) : List WindowCpu → PfiWriteback × List WindowCpu
  | [] => (w, [])
  | .mark s :: todo =>
    if w.flash.dirty s then (w, todo)
    else
      ({ w with flash := { w.flash with dirty := Function.update w.flash.dirty s true } },
        .stamp :: todo)
  | .markAll :: todo =>
    ({ w with flash := { w.flash with dirty := fun _ => true } },
      List.replicate w.flash.sectorCount .stamp ++ todo)
  | .stamp :: todo => ({ w with lastDirtyUs := now }, todo)

/-- The next step of the main thread. All writes succeed. -/
def mainStep (st : Window) : Window :=
  match st.main with
  | .idle => st
  | .due => { st with writeback := { st.writeback with lastDirtyUs := 0 }, main := .scan 0 0 }
  | .scan i count =>
    if i < st.writeback.flash.sectorCount then
      if st.writeback.flash.dirty i then
        let (w, count) := PfiWriteback.flushSector (fun _ => .ok) (st.writeback, count) i
        { st with writeback := w, main := .scan (i + 1) count
                  uncopied := Function.update st.uncopied i false }
      else { st with main := .scan (i + 1) count }
    else if 0 < count then
      { st with main := .idle
                writeback := { st.writeback with
                  flushCount := st.writeback.flushCount + 1
                  flash := st.writeback.flash.clearDirty } }
    else { st with main := .idle }

/-- One step of either thread. A thread performs one call at a time: a command or a
poll that would start inside another one does nothing. -/
def step (st : Window) : WindowAct → Window
  | .write offset data =>
    match st.cpu with
    | [] =>
      { st with
        writeback :=
          { st.writeback with flash := (beginWrite st.writeback.flash offset data).1 }
        cpu := (beginWrite st.writeback.flash offset data).2
        uncopied := fun s => st.uncopied s ||
          (st.writeback.flash.effect? offset data).any
            fun e => s ∈ st.writeback.flash.touched e }
    | _ => st
  | .cpu now =>
    { st with writeback := (cpuStep st.writeback now st.cpu).1
              cpu := (cpuStep st.writeback now st.cpu).2 }
  | .poll nowUs =>
    if st.main = .idle ∧ st.writeback.pollDue nowUs then { st with main := .due } else st
  | .main => st.mainStep

/-- The two threads at the start: the flash is attached in write-back mode, and
neither thread has begun. -/
def init (flash : Sst39vf) (file : ℕ → U8) (flashOffset : U32) (debounceMs : ℤ) : Window where
  writeback := .attach flash .writeBack true file flashOffset debounceMs
  cpu := []
  main := .idle
  uncopied := fun _ => false

/-- A byte of the device is not the byte of the file. -/
def DiffersAt (st : Window) (i : ℕ) : Prop :=
  st.writeback.file (st.writeback.flashOffsetInPfi.toNat + i) ≠ st.writeback.flash.mem i

/-- A sector of the device is not what the file holds. -/
def Differs (st : Window) (s : ℕ) : Prop :=
  ∃ i < st.writeback.flash.memSize, sectorOf i = s ∧ st.DiffersAt i

/-- The dirty-bit step of a sector is still ahead of the CPU thread. -/
def Ahead (st : Window) (s : ℕ) : Prop := .mark s ∈ st.cpu ∨ .markAll ∈ st.cpu

/-- The store of a callback has happened, or is still ahead of the CPU thread. -/
def Stamped (st : Window) : Prop := st.writeback.lastDirtyUs ≠ 0 ∨ .stamp ∈ st.cpu

/-! ### The steps of one thread, taken in a row -/

/-- The test-and-set steps of a span, taken in a row: the sectors become dirty, and
the time is stored exactly if one of them was clean. -/
theorem exec_marks (now : {t : U64 // t ≠ 0}) (l : List ℕ) (st : Window)
    (hcpu : st.cpu = l.map .mark) :
    ∃ k, ActionRun.exec step st (List.replicate k (.cpu now)) =
      { st with
        cpu := []
        writeback := { st.writeback with
          flash := { st.writeback.flash with
            dirty := fun s => st.writeback.flash.dirty s || decide (s ∈ l) }
          lastDirtyUs := if (l.filter fun s => !st.writeback.flash.dirty s) = [] then
            st.writeback.lastDirtyUs else now } } := by
  induction l generalizing st with
  | nil =>
    refine ⟨0, ?_⟩
    cases st
    simpa using hcpu
  | cons a l ih =>
    rw [List.map_cons] at hcpu
    by_cases hd : st.writeback.flash.dirty a = true
    · obtain ⟨k, hk⟩ := ih (st.step (.cpu now)) (by simp [step, hcpu, cpuStep, hd])
      refine ⟨k + 1, ?_⟩
      rw [List.replicate_succ, ActionRun.exec_cons, hk]
      simp only [step, hcpu, cpuStep, hd, if_true, List.filter_cons, Bool.not_true,
        Bool.false_eq_true, if_false]
      congr 3
      funext s
      by_cases hs : s = a <;> simp [hs, hd]
    · obtain ⟨k, hk⟩ := ih ((st.step (.cpu now)).step (.cpu now))
        (by simp [step, hcpu, cpuStep, hd])
      refine ⟨k + 2, ?_⟩
      rw [List.replicate_succ, List.replicate_succ, ActionRun.exec_cons, ActionRun.exec_cons, hk]
      simp only [step, hcpu, cpuStep, hd, if_false, List.filter_cons, Bool.not_false, ite_self,
        if_true, reduceCtorEq]
      congr 3
      funext s
      by_cases hs : s = a <;> simp [hs]

/-- The callbacks of a chip erase, taken in a row. -/
theorem exec_stamps (now : {t : U64 // t ≠ 0}) (n : ℕ) (st : Window)
    (hcpu : st.cpu = List.replicate n .stamp) :
    ActionRun.exec step st (List.replicate n (.cpu now)) =
      { st with
        cpu := []
        writeback := { st.writeback with
          lastDirtyUs := if n = 0 then st.writeback.lastDirtyUs else now } } := by
  induction n generalizing st with
  | zero =>
    cases st
    simpa using hcpu
  | succ n ih =>
    rw [List.replicate_succ] at hcpu
    rw [List.replicate_succ, ActionRun.exec_cons, ih _ (by simp [step, hcpu, cpuStep])]
    simp [step, hcpu, cpuStep]

/-- **The steps of a flash command, taken in a row, are `write16`** and its callback. -/
theorem exec_write (st : Window) (hcpu : st.cpu = []) (offset : U32) (data : U16)
    (now : {t : U64 // t ≠ 0}) :
    ∃ k, (ActionRun.exec step st (.write offset data :: List.replicate k (.cpu now))).cpu = [] ∧
      (ActionRun.exec step st (.write offset data :: List.replicate k (.cpu now))).writeback =
        { st.writeback with
          flash := (st.writeback.flash.write16 offset data).1
          lastDirtyUs := if (st.writeback.flash.write16 offset data).2 = [] then
            st.writeback.lastDirtyUs else now } := by
  simp only [ActionRun.exec_cons]
  cases he : st.writeback.flash.effect? offset data with
  | none =>
    refine ⟨0, ?_, ?_⟩
    · simp [step, hcpu, beginWrite, he]
    · simp [step, hcpu, beginWrite, he, (st.writeback.flash.write16_of_effect_none he).2.2]
  | some e =>
    by_cases hchip : e = .eraseChip
    · subst hchip
      have hsc : 0 < st.writeback.flash.sectorCount :=
        Nat.div_pos st.writeback.flash.sector_le_memSize (by decide)
      have hstamps := exec_stamps now st.writeback.flash.sectorCount
        ((st.step (.write offset data)).step (.cpu now))
        (by simp [step, hcpu, beginWrite, he, cpuStep, Sst39vf.sectorCount])
      refine ⟨st.writeback.flash.sectorCount + 1, ?_, ?_⟩
      · rw [List.replicate_succ, ActionRun.exec_cons, hstamps]
      · rw [List.replicate_succ, ActionRun.exec_cons, hstamps,
          st.writeback.flash.write16_of_eraseChip he]
        simp only [step, hcpu, beginWrite, he, cpuStep, Sst39vf.Effect.apply, List.range_eq_nil,
          hsc.ne', if_false]
    · have hbegin : beginWrite st.writeback.flash offset data =
          ({ st.writeback.flash with
              mem := e.apply st.writeback.flash.memSize st.writeback.flash.mem, state := .normal },
            (st.writeback.flash.touched e).map .mark) := by
        rw [beginWrite, he]
        cases e <;> first | rfl | exact absurd rfl hchip
      obtain ⟨k, hk⟩ := exec_marks now (st.writeback.flash.touched e)
        (st.step (.write offset data)) (by simp [step, hcpu, hbegin])
      refine ⟨k, by rw [hk], ?_⟩
      rw [hk, st.writeback.flash.write16_of_effect he hchip, Sst39vf.markDirty_fst,
        Sst39vf.markDirty_snd]
      simp only [step, hcpu, hbegin]
      rfl

/-- The scan, taken in a row, writes the dirty sectors from `i` on. -/
theorem exec_scan (n i count : ℕ) (st : Window) (hmain : st.main = .scan i count)
    (hn : i + n = st.writeback.flash.sectorCount) :
    (ActionRun.exec step st (List.replicate n .main)).main = .scan (i + n)
        (((List.range' i n).filter st.writeback.flash.dirty).foldl
          (PfiWriteback.flushSector fun _ => .ok) (st.writeback, count)).2 ∧
      (ActionRun.exec step st (List.replicate n .main)).writeback =
        (((List.range' i n).filter st.writeback.flash.dirty).foldl
          (PfiWriteback.flushSector fun _ => .ok) (st.writeback, count)).1 := by
  induction n generalizing i count st with
  | zero => exact ⟨by simpa using hmain, rfl⟩
  | succ n ih =>
    rw [List.replicate_succ, ActionRun.exec_cons, List.range'_succ, List.filter_cons]
    have hi : i < st.writeback.flash.sectorCount := by omega
    by_cases hd : st.writeback.flash.dirty i = true
    · obtain ⟨h1, h2⟩ := ih (i + 1) (count + 1) (st.step .main)
        (by simp [step, mainStep, hmain, hi, hd, PfiWriteback.flushSector])
        (by
          simp only [step, mainStep, hmain, hi, hd, if_true, PfiWriteback.flushSector]
          omega)
      rw [h1, h2, if_pos hd, List.foldl_cons]
      simp only [step, mainStep, hmain, hi, hd, if_true, PfiWriteback.flushSector]
      exact ⟨by rw [Nat.add_right_comm, Nat.add_assoc], trivial⟩
    · obtain ⟨h1, h2⟩ := ih (i + 1) count (st.step .main)
        (by simp [step, mainStep, hmain, hi, hd])
        (by
          simp only [step, mainStep, hmain, hi, hd, if_true, Bool.false_eq_true, if_false]
          omega)
      rw [h1, h2, if_neg hd]
      simp only [step, mainStep, hmain, hi, hd, if_true, Bool.false_eq_true, if_false]
      exact ⟨by rw [Nat.add_right_comm, Nat.add_assoc], trivial⟩

/-- **The steps of a poll, taken in a row, are `poll`**, all of its writes
succeeding. -/
theorem exec_poll (st : Window) (hmain : st.main = .idle) (nowUs : U64)
    (hdue : st.writeback.pollDue nowUs = true) :
    ∃ k, (ActionRun.exec step st (.poll nowUs :: List.replicate k .main)).main = .idle ∧
      (ActionRun.exec step st (.poll nowUs :: List.replicate k .main)).writeback =
        PfiWriteback.poll (fun _ => .ok) st.writeback nowUs := by
  have hopen : st.writeback.fileOpen = true := by
    simp only [PfiWriteback.pollDue, Bool.and_eq_true] at hdue
    exact hdue.1.1.1.2
  obtain ⟨hm, hw⟩ := exec_scan st.writeback.flash.sectorCount 0 0
    ((st.step (.poll nowUs)).step .main) (by simp [step, hmain, hdue, mainStep])
    (by simp [step, hmain, hdue, mainStep])
  rw [show ((st.step (.poll nowUs)).step .main).writeback =
    { st.writeback with lastDirtyUs := 0 } by simp [step, hmain, hdue, mainStep],
    ← List.range_eq_range'] at hm hw
  rw [Nat.zero_add] at hm
  refine ⟨st.writeback.flash.sectorCount + 2, ?_⟩
  rw [ActionRun.exec_cons, List.replicate_succ, ActionRun.exec_cons, List.replicate_succ',
    ActionRun.exec_append, PfiWriteback.poll, if_pos hdue,
    PfiWriteback.flushDirtySectors_fst _ (w := { st.writeback with lastDirtyUs := 0 }) hopen]
  have hflash := (PfiWriteback.foldl_flushSector (fun _ => .ok)
    st.writeback.flash.forEachDirtySector { st.writeback with lastDirtyUs := 0 } 0).1
  rw [Sst39vf.forEachDirtySector] at hflash ⊢
  generalize ActionRun.exec step ((st.step (.poll nowUs)).step .main)
    (List.replicate st.writeback.flash.sectorCount .main) = st' at hm hw ⊢
  dsimp only at hm hw hflash ⊢
  generalize List.foldl _ _ _ = r at hm hw hflash ⊢
  -- the last step clears the bits if a sector was written
  simp only [ActionRun.exec_cons, ActionRun.exec_nil, step, mainStep, hm, hw, hflash,
    Nat.lt_irrefl, if_false]
  split_ifs <;> exact ⟨rfl, rfl⟩

/-! ### What is kept -/

/-- **The discipline under which nothing is lost**: when a flush clears the dirty
bits, every sector that has been written since it was last copied has its dirty-bit
step still ahead. That is, no write to a sector is completed between the moment the
scan passes the sector and the moment the bits are cleared. -/
def Undisturbed (st : Window) (a : WindowAct) : Prop :=
  a = .main → ∀ i count, st.main = .scan i count → st.writeback.flash.sectorCount ≤ i →
    0 < count → ∀ s < st.writeback.flash.sectorCount, st.uncopied s = true → st.Ahead s

instance (st : Window) (s : ℕ) : Decidable (st.Ahead s) := inferInstanceAs (Decidable (_ ∨ _))

instance (st : Window) (a : WindowAct) : Decidable (st.Undisturbed a) :=
  match a, hmain : st.main with
  | .main, .scan i count =>
    decidable_of_iff (st.writeback.flash.sectorCount ≤ i → 0 < count →
        ∀ s < st.writeback.flash.sectorCount, st.uncopied s = true → st.Ahead s)
      ⟨fun h _ _ _ hscan => by
        cases hmain.symm.trans hscan
        exact h, fun h => h rfl i count hmain⟩
  | .main, .idle => .isTrue fun _ _ _ hscan => nomatch hmain.symm.trans hscan
  | .main, .due => .isTrue fun _ _ _ hscan => nomatch hmain.symm.trans hscan
  | .write _ _, _ => .isTrue fun h => nomatch h
  | .cpu _, _ => .isTrue fun h => nomatch h
  | .poll _, _ => .isTrue fun h => nomatch h

/-- The scan will not come to this sector any more, and will not clear the bits. -/
def Passed (st : Window) (s : ℕ) : Prop :=
  match st.main with
  | .idle => True
  | .due => False
  | .scan i count => count = 0 ∧ s < i

/-- **The invariant**: a byte that is not in the file was written since the last copy
of its sector; a sector written since is dirty or about to be; and for a dirty
sector that no flush under way will look at, the callback has stored its time or is
about to. -/
structure Inv (st : Window) : Prop where
  copied : ∀ i < st.writeback.flash.memSize, st.DiffersAt i → st.uncopied (sectorOf i) = true
  marked : ∀ s < st.writeback.flash.sectorCount, st.uncopied s = true →
    st.writeback.flash.dirty s = true ∨ st.Ahead s
  stamped : ∀ s < st.writeback.flash.sectorCount, st.writeback.flash.dirty s = true →
    st.Passed s → st.Stamped

theorem inv_init {flash : Sst39vf} {file : ℕ → U8} {flashOffset : U32} {debounceMs : ℤ}
    (hfile : ∀ i < flash.memSize, file (flashOffset.toNat + i) = flash.mem i)
    (hclean : ∀ s, flash.dirty s = false) : (init flash file flashOffset debounceMs).Inv where
  copied i hi hne := absurd (hfile i hi) hne
  marked s _ h := absurd h (by simp [init])
  stamped s _ hd := absurd hd (by simp [init, PfiWriteback.attach, hclean])

/-- The memory change of a command leaves the size and the dirty bits alone. -/
theorem beginWrite_fst (f : Sst39vf) (offset : U32) (data : U16) :
    (beginWrite f offset data).1.memSize = f.memSize ∧
      (beginWrite f offset data).1.dirty = f.dirty ∧
      (beginWrite f offset data).1.mem = (f.write16 offset data).1.mem := by
  unfold beginWrite
  cases h : f.effect? offset data with
  | none => exact ⟨f.write16_memSize offset data, (f.write16_of_effect_none h).2.1, rfl⟩
  | some e => exact ⟨rfl, rfl, (f.write16_mem_of_effect h).symm⟩

/-- The marks a command leaves to do are those of the sectors it touches. -/
theorem mark_mem_beginWrite {f : Sst39vf} {offset : U32} {data : U16} {e : Sst39vf.Effect}
    (h : f.effect? offset data = some e) {s : ℕ} (hs : s ∈ f.touched e) :
    .mark s ∈ (beginWrite f offset data).2 ∨ .markAll ∈ (beginWrite f offset data).2 := by
  rw [beginWrite, h]
  cases e with
  | eraseChip => exact .inr (List.mem_singleton_self _)
  | program off d => exact .inl (List.mem_map_of_mem hs)
  | erase base len => exact .inl (List.mem_map_of_mem hs)

theorem Inv.write {st : Window} (h : st.Inv) (offset : U32) (data : U16) :
    (st.step (.write offset data)).Inv := by
  rw [step]
  cases hcpu : st.cpu with
  | cons => exact h
  | nil =>
    have hahead : ∀ s, ¬st.Ahead s := fun s => by simp [Ahead, hcpu]
    obtain ⟨hsize, hdirty, hmem⟩ := beginWrite_fst st.writeback.flash offset data
    have hcount : (beginWrite st.writeback.flash offset data).1.sectorCount =
        st.writeback.flash.sectorCount := by rw [Sst39vf.sectorCount, hsize]; rfl
    refine ⟨fun i hi hne => ?_, fun s hs hun => ?_, fun s hs hd hp => ?_⟩
    · -- a byte that differs now differed before, or has just been changed
      replace hi : i < st.writeback.flash.memSize := hsize ▸ hi
      show (st.uncopied (sectorOf i) || _) = true
      rw [Bool.or_eq_true]
      by_cases hch : (st.writeback.flash.write16 offset data).1.mem i = st.writeback.flash.mem i
      · refine .inl (h.copied i hi fun heq => hne (heq.trans ?_))
        show st.writeback.flash.mem i = (beginWrite st.writeback.flash offset data).1.mem i
        rw [hmem, hch]
      · right
        cases he : st.writeback.flash.effect? offset data with
        | none => exact absurd (congrFun (st.writeback.flash.write16_of_effect_none he).1 i) hch
        | some e =>
          rw [Option.any_some, decide_eq_true_eq]
          refine st.writeback.flash.sectorOf_mem_touched hi ?_
          by_contra hout
          rw [st.writeback.flash.write16_mem_of_effect he] at hch
          exact hch (Sst39vf.Effect.apply_of_not_mem hout)
    · -- a sector that has just been touched has its mark ahead
      replace hs : s < st.writeback.flash.sectorCount := hcount ▸ hs
      show (beginWrite st.writeback.flash offset data).1.dirty s = true ∨ _
      rw [hdirty]
      replace hun : (st.uncopied s || _) = true := hun
      rw [Bool.or_eq_true] at hun
      rcases hun with hun | hun
      · rcases h.marked s hs hun with hd | ha
        · exact .inl hd
        · exact absurd ha (hahead s)
      · obtain ⟨e, he, hse⟩ := (Option.any_eq_true _ _).mp hun
        exact .inr (mark_mem_beginWrite he (of_decide_eq_true hse))
    · replace hs : s < st.writeback.flash.sectorCount := hcount ▸ hs
      replace hd : (beginWrite st.writeback.flash offset data).1.dirty s = true := hd
      rw [hdirty] at hd
      rcases h.stamped s hs hd hp with hl | hl
      · exact .inl hl
      · rw [hcpu] at hl
        exact absurd hl (by simp)

theorem Inv.cpu {st : Window} (h : st.Inv) (now : {t : U64 // t ≠ 0}) :
    (st.step (.cpu now)).Inv := by
  rw [step]
  cases hcpu : st.cpu with
  | nil =>
    have hst : ({ st with writeback := st.writeback, cpu := [] } : Window) = st := by rw [← hcpu]
    exact hst.symm ▸ h
  | cons c todo =>
    cases c with
    | mark s₀ =>
      rw [cpuStep]
      split_ifs with hd₀
      · -- the bit is set already: nothing happens, and no callback
        refine ⟨h.copied, fun s hs hun => ?_, fun s hs hd hp => ?_⟩
        · rcases h.marked s hs hun with hd | ha
          · exact .inl hd
          · rw [Ahead, hcpu] at ha
            by_cases hss : s = s₀
            · exact .inl (hss ▸ hd₀)
            · simp only [List.mem_cons, WindowCpu.mark.injEq, hss, false_or, reduceCtorEq] at ha
              exact .inr ha
        · rcases h.stamped s hs hd hp with hl | hl
          · exact .inl hl
          · rw [hcpu] at hl
            simp only [List.mem_cons, reduceCtorEq, false_or] at hl
            exact .inr hl
      · -- the bit is new, so that its time stamp lies ahead
        refine ⟨h.copied, fun s hs hun => ?_, fun s hs hd hp => .inr (List.mem_cons_self ..)⟩
        by_cases hss : s = s₀
        · exact .inl (by simp [hss])
        · rcases h.marked s hs hun with hd | ha
          · refine .inl ?_
            show Function.update st.writeback.flash.dirty s₀ true s = true
            rwa [Function.update_of_ne hss]
          · rw [Ahead, hcpu] at ha
            simp only [List.mem_cons, WindowCpu.mark.injEq, hss, false_or, reduceCtorEq] at ha
            exact .inr (ha.imp (List.mem_cons_of_mem _) (List.mem_cons_of_mem _))
    | markAll =>
      -- an erase of the chip marks every sector and leaves a stamp for each
      refine ⟨h.copied, fun s _ _ => .inl rfl, fun s hs _ _ => .inr ?_⟩
      have hpos : st.writeback.flash.sectorCount ≠ 0 := by
        have : s < st.writeback.flash.sectorCount := hs
        omega
      exact List.mem_append_left _ (List.mem_replicate.mpr ⟨hpos, rfl⟩)
    | stamp =>
      refine ⟨h.copied, fun s hs hun => ?_, fun s hs hd hp => .inl now.2⟩
      rcases h.marked s hs hun with hd | ha
      · exact .inl hd
      · rw [Ahead, hcpu] at ha
        simp only [List.mem_cons, reduceCtorEq, false_or] at ha
        exact .inr ha

theorem Inv.poll {st : Window} (h : st.Inv) (nowUs : U64) : (st.step (.poll nowUs)).Inv := by
  rw [step]
  split_ifs
  · exact ⟨h.copied, h.marked, fun _ _ _ hp => hp.elim⟩
  · exact h

/-- A sector that has been copied does not differ, and the others are as before. -/
theorem copySector_differs {file mem : ℕ → U8} {off s i : ℕ} :
    PfiWriteback.copySector file mem off s sectorSize (off + i) =
      if sectorOf i = s then mem i else file (off + i) := by
  rw [PfiWriteback.copySector, Nat.add_sub_cancel_left]
  refine if_congr ?_ rfl rfl
  rw [Sst39vf.sectorOf_eq_iff]
  omega

theorem Inv.main {st : Window} (h : st.Inv) (hC : st.Undisturbed .main) :
    (st.step .main).Inv := by
  rw [step, mainStep]
  cases hmain : st.main with
  | idle => exact h
  | due => exact ⟨h.copied, h.marked, fun _ _ _ hp => absurd hp.2 (Nat.not_lt_zero _)⟩
  | scan i count =>
    dsimp only
    split_ifs with hi hd hcount
    · -- sector `i` is copied
      refine ⟨fun j hj hne => ?_, fun s hs hun => ?_,
        fun s _ _ hp => absurd hp.1 (Nat.succ_ne_zero _)⟩
      · replace hne : PfiWriteback.copySector st.writeback.file st.writeback.flash.mem
            st.writeback.flashOffsetInPfi.toNat i sectorSize
            (st.writeback.flashOffsetInPfi.toNat + j) ≠ st.writeback.flash.mem j := hne
        rw [copySector_differs] at hne
        split_ifs at hne with hji
        · exact absurd rfl hne
        · show Function.update st.uncopied i false (sectorOf j) = true
          rw [Function.update_of_ne hji]
          exact h.copied j hj hne
      · by_cases hsi : s = i
        · exact .inl (hsi ▸ hd)
        · replace hun : Function.update st.uncopied i false s = true := hun
          rw [Function.update_of_ne hsi] at hun
          exact h.marked s hs hun
    · -- sector `i` is clean, so nothing new has been passed
      refine ⟨h.copied, h.marked, fun s hs hds hp => ?_⟩
      obtain ⟨hcount, hsi⟩ : count = 0 ∧ s < i + 1 := hp
      have hne : s ≠ i := by
        rintro rfl
        exact hd hds
      have hpassed : st.Passed s := by
        rw [Passed, hmain]
        exact ⟨hcount, by omega⟩
      exact h.stamped s hs hds hpassed
    · -- the bits are cleared: by the discipline nothing is lost
      refine ⟨h.copied, fun s hs hun => .inr ?_, fun s _ hds => absurd hds Bool.false_ne_true⟩
      exact hC rfl i count hmain (Nat.not_lt.mp hi) hcount s hs hun
    · -- nothing was copied, so the bits stay and the scan has passed every sector
      refine ⟨h.copied, h.marked, fun s hs hds _ => h.stamped s hs hds ?_⟩
      rw [Passed, hmain]
      refine ⟨by omega, ?_⟩
      have : s < st.writeback.flash.sectorCount := hs
      omega

/-- **Every step of a disciplined run keeps the invariant.** -/
theorem Inv.step {st : Window} (h : st.Inv) {a : WindowAct} (hC : st.Undisturbed a) :
    (st.step a).Inv := by
  cases a with
  | write offset data => exact h.write offset data
  | cpu now => exact h.cpu now
  | poll nowUs => exact h.poll nowUs
  | main => exact h.main hC

/-- **Writeback loses no update** along the runs in which no flush clears a sector
that was written behind its scan. In every state between polls, a sector that
differs from the file is dirty, or its dirty-bit step is still ahead; and once the
CPU thread has finished its command, such a sector is dirty and there is something
pending. -/
theorem no_update_lost {flash : Sst39vf} {file : ℕ → U8} {flashOffset : U32} {debounceMs : ℤ}
    (hfile : ∀ i < flash.memSize, file (flashOffset.toNat + i) = flash.mem i)
    (hclean : ∀ s, flash.dirty s = false) (acts : List WindowAct)
    (hC : ActionRun.Along Window.step Undisturbed (init flash file flashOffset debounceMs) acts) :
    let st := ActionRun.exec Window.step (init flash file flashOffset debounceMs) acts
    st.main = .idle → ∀ s, st.Differs s →
      (st.writeback.flash.isSectorDirty s = true ∨ st.Ahead s) ∧
        (st.cpu = [] → st.writeback.flash.isSectorDirty s = true ∧
          st.writeback.hasPendingDirty = true) := by
  intro st hidle s hdiff
  have hinv : st.Inv := ActionRun.exec_invariant (fun _ _ h hC => h.step hC)
    (inv_init hfile hclean) hC
  obtain ⟨i, hi, rfl, hne⟩ := hdiff
  have hlt := st.writeback.flash.sectorOf_lt hi
  have hmarked := hinv.marked _ hlt (hinv.copied i hi hne)
  have hdirty : st.writeback.flash.dirty (sectorOf i) = true →
      st.writeback.flash.isSectorDirty (sectorOf i) = true :=
    fun hd => st.writeback.flash.isSectorDirty_iff.mpr ⟨hlt, hd⟩
  refine ⟨hmarked.imp_left hdirty, fun hcpu => ?_⟩
  have hd : st.writeback.flash.dirty (sectorOf i) = true := by
    rcases hmarked with hd | ha
    · exact hd
    · simp [Ahead, hcpu] at ha
  refine ⟨hdirty hd, ?_⟩
  have hpassed : st.Passed (sectorOf i) := by
    rw [Passed, hidle]
    exact trivial
  rcases hinv.stamped _ hlt hd hpassed with hl | hl
  · simpa [PfiWriteback.hasPendingDirty] using hl
  · simp [hcpu] at hl

/-! ### The update that is lost -/

/-- An erased device of 64 KB, attached to the file it was loaded from. -/
def erased64K : Window :=
  init ⟨0x10000, Sst39vf.isPowerOfTwo_64K, Sst39vf.sector_le_64K, fun _ => 0xFF, fun _ => false,
      .normal⟩
    (fun _ => 0xFF) 0 2000

/-- A word program of the first halfword, up to its memory change. -/
def programFirst (data : U16) : List WindowAct :=
  [.write 0xAAAA 0xAA, .write 0x5554 0x55, .write 0xAAAA 0xA0, .write 0 data]

/-- A word program, a poll that copies its sector, and a second word program of the
same halfword before the scan is over. -/
def lostUpdate : List WindowAct :=
  programFirst 0x1234 ++ [.cpu ⟨1, by decide⟩, .cpu ⟨1, by decide⟩] ++
    [.poll 2000001, .main, .main] ++
    programFirst 0x5678 ++ [.cpu ⟨2, by decide⟩] ++
    List.replicate 16 .main

/-- **A lost update**: after the run, both threads between two calls, the sector
differs from the file, but is clean and nothing is pending. -/
theorem lostUpdate_lost :
    let st := ActionRun.exec Window.step erased64K lostUpdate
    st.main = .idle ∧ st.cpu = [] ∧ st.Differs 0 ∧
      st.writeback.flash.isSectorDirty 0 = false ∧ st.writeback.hasPendingDirty = false := by
  refine ⟨by decide, by decide, ⟨0, by decide, rfl, ?_⟩, by decide, by decide⟩
  show (ActionRun.exec Window.step erased64K lostUpdate).writeback.file 0 ≠
    (ActionRun.exec Window.step erased64K lostUpdate).writeback.flash.mem 0
  decide

/-- A word program with its callback, a poll that copies its sector and clears the bits, and
a second word program of the same halfword with its callback. -/
def flushedUpdate : List WindowAct :=
  programFirst 0x1234 ++ [.cpu ⟨1, by decide⟩, .cpu ⟨1, by decide⟩] ++
    [.poll 2000001] ++ List.replicate 18 .main ++
    programFirst 0x1230 ++ [.cpu ⟨2, by decide⟩, .cpu ⟨2, by decide⟩]

/-- A run with one flush, after which the sector differs again. -/
theorem no_update_lost_flushedUpdate :
    let st := ActionRun.exec Window.step erased64K flushedUpdate
    st.writeback.flushCount = 1 ∧ st.main = .idle ∧ st.cpu = [] ∧ st.Differs 0 ∧
      (st.main = .idle → ∀ s, st.Differs s →
        (st.writeback.flash.isSectorDirty s = true ∨ st.Ahead s) ∧
          (st.cpu = [] → st.writeback.flash.isSectorDirty s = true ∧
            st.writeback.hasPendingDirty = true)) := by
  refine ⟨by decide +kernel, by decide +kernel, by decide +kernel, ⟨0, by decide, rfl, ?_⟩,
    no_update_lost (fun _ _ => rfl) (fun _ => rfl) flushedUpdate (by decide +kernel)⟩
  show (ActionRun.exec Window.step erased64K flushedUpdate).writeback.file 0 ≠
    (ActionRun.exec Window.step erased64K flushedUpdate).writeback.flash.mem 0
  decide +kernel

end Window
