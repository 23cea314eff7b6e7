import PieceEmu.Lib.Blit
import PieceEmu.System.WritebackMirror

/-!
# Writing to the file, one system call at a time

`PlatformFile::write_at` writes a sector with as many calls of `pwrite` as the host wants: a
call may write less than it was given, be interrupted by a signal, or fail. The writeback
above it only sees whether `write_at` returned true. Here the two are put together. The host
is the list of the answers it will give, and a process whose host has no answer left has
ended where it was, in the middle of a write.

| question | theorem |
|---|---|
| what can a session leave that comes to its end? | `Hosted.returns_iff` |
| what can a session leave that does not? | `Hosted.torn_file` |
| what if no call fails? | `Hosted.short_writes` |

The first says that one outcome for each sector (`WriteAt`) is the exact abstraction of the
loop. The second is what a user has whose emulator was killed: at every place of the image a
byte that the file had, or that the device has held there.
-/

open Sst39vf (sectorSize sectorOf FlashOp)

/-! ### `PlatformFile::write_at` -/

/-- What the host answers to one `pwrite`. -/
inductive Pwrite
  /-- `n` bytes are written, or all that are left if these are fewer. -/
  | wrote (n : ℕ)
  /-- -1, with `EINTR`. -/
  | interrupted
  /-- -1, with another error. -/
  | failed
  deriving DecidableEq

/-- What one call of `write_at` comes to. -/
structure WriteReturn where
  file : ℕ → U8
  /-- The value returned and the answers not yet given; nothing if the process has ended
  inside the call. -/
  returned : Option (Bool × List Pwrite)

namespace PlatformFile

/-- `PlatformFile::write_at`, on an open file. -/
def writeAt : List Pwrite → (ℕ → U8) → ℕ → List U8 → WriteReturn
  | answers, file, _, [] => ⟨file, some (true, answers)⟩
  | [], file, _, _ :: _ => ⟨file, none⟩
  | .interrupted :: answers, file, off, b :: p => writeAt answers file off (b :: p)
  | .failed :: answers, file, _, _ :: _ => ⟨file, some (false, answers)⟩
  | .wrote n :: answers, file, off, b :: p =>
    if n = 0 then ⟨file, some (false, answers)⟩
    else
      writeAt answers (blit file off ((b :: p).take n)) (off + ((b :: p).take n).length)
        ((b :: p).drop n)

theorem writeAt_nil (answers : List Pwrite) (file : ℕ → U8) (off : ℕ) :
    writeAt answers file off [] = ⟨file, some (true, answers)⟩ := by
  cases answers <;> rfl

/-- **What `write_at` has written** when it returns, or when the process ends inside it: the
front of the data, and all of it exactly if it has returned true. -/
theorem writeAt_file (answers : List Pwrite) (file : ℕ → U8) (off : ℕ) (p : List U8) :
    ∃ k ≤ p.length, (writeAt answers file off p).file = blit file off (p.take k) ∧
      (k = p.length ↔ ∃ rest, (writeAt answers file off p).returned = some (true, rest)) := by
  induction answers generalizing file off p with
  | nil =>
    cases p with
    | nil => exact ⟨0, le_rfl, by simp [writeAt_nil, blit_nil], by simp [writeAt_nil]⟩
    | cons b p => exact ⟨0, Nat.zero_le _, by simp [writeAt, blit_nil], by simp [writeAt]⟩
  | cons a answers ih =>
    cases p with
    | nil => exact ⟨0, le_rfl, by simp [writeAt_nil, blit_nil], by simp [writeAt_nil]⟩
    | cons b p =>
      cases a with
      | interrupted => exact ih file off (b :: p)
      | failed => exact ⟨0, Nat.zero_le _, by simp [writeAt, blit_nil], by simp [writeAt]⟩
      | wrote n =>
        rw [writeAt]
        split_ifs with hn
        · exact ⟨0, Nat.zero_le _, by simp [blit_nil], by simp⟩
        · -- `n` bytes now, and what the rest of the loop writes behind them
          obtain ⟨k, hk, hfile, hall⟩ :=
            ih (blit file off ((b :: p).take n)) (off + ((b :: p).take n).length) ((b :: p).drop n)
          rw [List.length_drop] at hk hall
          refine ⟨min n (b :: p).length + k, by omega, ?_, ?_⟩
          · have htake : (b :: p).take (n + k) = (b :: p).take (min n (b :: p).length + k) := by
              rcases Nat.le_total n (b :: p).length with hle | hle
              · rw [Nat.min_eq_left hle]
              · rw [List.take_of_length_le (by omega), List.take_of_length_le (by omega)]
            rw [hfile, ← blit_append, ← List.take_add, htake]
          · rw [← hall]
            omega

end PlatformFile

/-! ### The writeback on such a host -/

/-- The writeback, and the host under it. -/
structure Hosted where
  writeback : PfiWriteback
  /-- What the host will answer. -/
  answers : List Pwrite
  /-- The process has ended. -/
  gone : Bool

namespace Hosted

open PlatformFile (writeAt writeAt_nil writeAt_file)

/-- The bytes of a sector. -/
def sectorBytes (f : Sst39vf) (s : ℕ) : List U8 :=
  (List.range sectorSize).map fun i => f.mem (s * sectorSize + i)

/-- The callback of `flush_dirty_sectors`. -/
def flushSector (acc : Hosted × ℕ) (s : ℕ) : Hosted × ℕ :=
  let (r, count) := acc
  if r.gone then (r, count)
  else
    let w := r.writeback
    let out := writeAt r.answers w.file (w.flashOffsetInPfi.toNat + s * sectorSize)
      (sectorBytes w.flash s)
    match out.returned with
    | none => (⟨{ w with file := out.file }, [], true⟩, count)
    | some (false, rest) => (⟨{ w with file := out.file }, rest, false⟩, count)
    | some (true, rest) =>
      (⟨{ w with
          file := out.file
          bytesWritten := w.bytesWritten + BitVec.ofNat 64 sectorSize }, rest, false⟩, count + 1)

/-- `flush_dirty_sectors`. -/
def flushDirtySectors (r : Hosted) : Hosted :=
  if !r.writeback.fileOpen then r
  else
    let (r, count) := r.writeback.flash.forEachDirtySector.foldl flushSector (r, 0)
    if r.gone then r
    else if 0 < count then
      { r with
        writeback :=
          { r.writeback with
            flushCount := r.writeback.flushCount + 1
            flash := r.writeback.flash.clearDirty } }
    else r

/-- `poll`. -/
def poll (r : Hosted) (nowUs : U64) : Hosted :=
  if r.writeback.pollDue nowUs then
    flushDirtySectors { r with writeback := { r.writeback with lastDirtyUs := 0 } }
  else r

/-- `shutdown_flush`. -/
def shutdownFlush (r : Hosted) : Hosted :=
  if r.writeback.shutdownDue then r.flushDirtySectors else r

/-- What happens to an attached writeback. -/
inductive DiskAct
  /-- A flash command; the dirty callback, if it is called, reads the time `nowUs`. -/
  | command (op : FlashOp) (nowUs : U64)
  /-- `poll(now_us)`. -/
  | poll (nowUs : U64)
  /-- `shutdown_flush`, or `~PfiWriteback`, which makes the same checks. -/
  | shutdownFlush

/-- An action, of a process that is still there. -/
def step (r : Hosted) (a : DiskAct) : Hosted :=
  if r.gone then r
  else
    match a with
    | .command op nowUs => { r with writeback := r.writeback.command op nowUs }
    | .poll nowUs => r.poll nowUs
    | .shutdownFlush => r.shutdownFlush

/-- The same action where each write of a sector has one outcome. -/
def outcome (w : PfiWriteback) (a : DiskAct × (ℕ → WriteAt)) : PfiWriteback :=
  match a.1 with
  | .command op nowUs => w.command op nowUs
  | .poll nowUs => w.poll a.2 nowUs
  | .shutdownFlush => w.shutdownFlush a.2

/-- A write that fails fails before the end of the sector. -/
def FailsShort (host : ℕ → WriteAt) : Prop := ∀ s k, host s = .failed k → k < sectorSize

theorem failsShort_allOk : FailsShort PfiWriteback.allOk := fun _ _ h => WriteAt.noConfusion h

/-! ### One sector -/

theorem length_sectorBytes (f : Sst39vf) (s : ℕ) : (sectorBytes f s).length = sectorSize := by
  rw [sectorBytes, List.length_map, List.length_range]

/-- The front of a sector, written at its place. -/
theorem blit_sectorBytes (file : ℕ → U8) (f : Sst39vf) (off s : ℕ) {k : ℕ} (hk : k ≤ sectorSize) :
    blit file (off + s * sectorSize) ((sectorBytes f s).take k) =
      PfiWriteback.copySector file f.mem off s k := by
  have htake : (sectorBytes f s).take k =
      (List.range k).map fun i => f.mem (s * sectorSize + i) := by
    rw [sectorBytes, ← List.map_take, List.take_range, Nat.min_eq_left hk]
  funext i
  rw [PfiWriteback.copySector, htake]
  split_ifs with hi
  · rw [blit_map_range hi.1 (by omega)]
    congr 1
    omega
  · refine blit_of_not_mem ?_
    rw [List.length_map, List.length_range]
    omega

/-- The writeback after the first `k` bytes of a sector. -/
def torn (w : PfiWriteback) (s k : ℕ) : PfiWriteback :=
  { w with file := PfiWriteback.copySector w.file w.flash.mem w.flashOffsetInPfi.toNat s k }

/-- **How the write of a sector can go**: the process ends in it, it fails before the end, or
it is done. -/
theorem flushSector_cases (w : PfiWriteback) (answers : List Pwrite) (count s : ℕ) :
    (∃ k < sectorSize,
        flushSector (⟨w, answers, false⟩, count) s = (⟨torn w s k, [], true⟩, count)) ∨
      (∃ k < sectorSize, ∃ rest,
        flushSector (⟨w, answers, false⟩, count) s = (⟨torn w s k, rest, false⟩, count)) ∨
      ∃ rest,
        flushSector (⟨w, answers, false⟩, count) s = (⟨w.copied s, rest, false⟩, count + 1) := by
  obtain ⟨k, hk, hfile, hall⟩ := writeAt_file answers w.file
    (w.flashOffsetInPfi.toNat + s * sectorSize) (sectorBytes w.flash s)
  rw [length_sectorBytes] at hk hall
  rw [blit_sectorBytes _ _ _ _ hk] at hfile
  cases hret : (writeAt answers w.file (w.flashOffsetInPfi.toNat + s * sectorSize)
      (sectorBytes w.flash s)).returned with
  | none =>
    have hne : k ≠ sectorSize := fun heq => by
      obtain ⟨rest', hrest⟩ := hall.mp heq
      rw [hret] at hrest
      cases hrest
    exact .inl ⟨k, by omega, by simp [flushSector, hret, hfile, torn]⟩
  | some ret =>
    obtain ⟨b, rest⟩ := ret
    cases b with
    | false =>
      have hne : k ≠ sectorSize := fun heq => by
        obtain ⟨rest', hrest⟩ := hall.mp heq
        rw [hret] at hrest
        cases hrest
      exact .inr (.inl ⟨k, by omega, rest, by simp [flushSector, hret, hfile, torn]⟩)
    | true =>
      have hk' : k = sectorSize := hall.mpr ⟨rest, hret⟩
      subst hk'
      exact .inr (.inr ⟨rest, by simp [flushSector, hret, hfile, PfiWriteback.copied]⟩)

/-- The outcome of a write, for the writeback. -/
theorem flushSector_returns (r : Hosted) (count s : ℕ)
    (h : (flushSector (r, count) s).1.gone = false) :
    r.gone = false ∧ ∃ o : WriteAt, (∀ k, o = .failed k → k < sectorSize) ∧
      (flushSector (r, count) s).1.writeback =
        (PfiWriteback.flushSector (fun _ => o) (r.writeback, count) s).1 ∧
      (flushSector (r, count) s).2 =
        (PfiWriteback.flushSector (fun _ => o) (r.writeback, count) s).2 := by
  obtain ⟨w, answers, gone⟩ := r
  cases gone with
  | true => exact absurd h (by simp [flushSector])
  | false =>
    refine ⟨rfl, ?_⟩
    rcases flushSector_cases w answers count s with
      ⟨k, hk, hout⟩ | ⟨k, hk, rest, hout⟩ | ⟨rest, hout⟩
    · rw [hout] at h
      exact absurd h (by simp)
    · rw [hout]
      refine ⟨.failed k, fun k' heq => ?_, ?_, rfl⟩
      · rw [← WriteAt.failed.inj heq]
        exact hk
      · simp [PfiWriteback.flushSector, torn, Nat.min_eq_left hk.le]
    · rw [hout]
      exact ⟨.ok, fun _ heq => WriteAt.noConfusion heq, rfl, rfl⟩

/-- The answers that make a write end so. -/
def answersFor : WriteAt → List Pwrite
  | .ok => [.wrote sectorSize]
  | .failed 0 => [.failed]
  | .failed (k + 1) => [.wrote (k + 1), .failed]

/-- How much of a sector is written then. -/
def written : WriteAt → ℕ
  | .ok => sectorSize
  | .failed k => min k sectorSize

theorem writeAt_wrote {p : List U8} (hp : p ≠ []) {n : ℕ} (hn : n ≠ 0) (answers : List Pwrite)
    (file : ℕ → U8) (off : ℕ) :
    writeAt (.wrote n :: answers) file off p =
      writeAt answers (blit file off (p.take n)) (off + (p.take n).length) (p.drop n) := by
  cases p with
  | nil => exact absurd rfl hp
  | cons b p => rw [writeAt, if_neg hn]

theorem writeAt_failed {p : List U8} (hp : p ≠ []) (answers : List Pwrite) (file : ℕ → U8)
    (off : ℕ) : writeAt (.failed :: answers) file off p = ⟨file, some (false, answers)⟩ := by
  cases p with
  | nil => exact absurd rfl hp
  | cons b p => rfl

/-- **Each outcome is one of the loop**, but for a failure behind the last byte. -/
theorem writeAt_answersFor {o : WriteAt} (ho : ∀ k, o = .failed k → k < sectorSize)
    (file : ℕ → U8) (f : Sst39vf) (off s : ℕ) (rest : List Pwrite) :
    writeAt (answersFor o ++ rest) file (off + s * sectorSize) (sectorBytes f s) =
      ⟨PfiWriteback.copySector file f.mem off s (written o), some (decide (o = .ok), rest)⟩ := by
  have hlen := length_sectorBytes f s
  have hne : sectorBytes f s ≠ [] := List.ne_nil_of_length_pos (by rw [hlen]; decide)
  cases o with
  | ok =>
    have hdrop : (sectorBytes f s).drop sectorSize = [] := List.drop_eq_nil_of_le hlen.le
    show writeAt (.wrote sectorSize :: rest) _ _ _ = _
    rw [writeAt_wrote hne (by decide), hdrop, writeAt_nil, blit_sectorBytes _ _ _ _ le_rfl]
    rfl
  | failed k =>
    have hk : k < sectorSize := ho k rfl
    cases k with
    | zero =>
      show writeAt (.failed :: rest) _ _ _ = _
      rw [writeAt_failed hne, written, Nat.zero_min, ← blit_sectorBytes _ _ _ _ (Nat.zero_le _),
        List.take_zero, blit_nil]
      rfl
    | succ k =>
      have hdrop : (sectorBytes f s).drop (k + 1) ≠ [] :=
        List.ne_nil_of_length_pos (by rw [List.length_drop, hlen]; omega)
      show writeAt (.wrote (k + 1) :: .failed :: rest) _ _ _ = _
      rw [writeAt_wrote hne (Nat.succ_ne_zero k), writeAt_failed hdrop,
        blit_sectorBytes _ _ _ _ hk.le, written, Nat.min_eq_left hk.le]
      rfl

theorem flushSector_answersFor {o : WriteAt} (ho : ∀ k, o = .failed k → k < sectorSize)
    (w : PfiWriteback) (rest : List Pwrite) (count s : ℕ) :
    flushSector (⟨w, answersFor o ++ rest, false⟩, count) s =
      (⟨(PfiWriteback.flushSector (fun _ => o) (w, count) s).1, rest, false⟩,
        (PfiWriteback.flushSector (fun _ => o) (w, count) s).2) := by
  have hwrite := writeAt_answersFor ho w.file w.flash w.flashOffsetInPfi.toNat s rest
  cases o with
  | ok => simp [flushSector, hwrite, written, PfiWriteback.flushSector]
  | failed k => simp [flushSector, hwrite, written, PfiWriteback.flushSector]

/-! ### A flush -/

/-- The scan sees of the host what it does to the sectors of the scan. -/
theorem foldl_flushSector_congr {host host' : ℕ → WriteAt} {l : List ℕ}
    (h : ∀ s ∈ l, host s = host' s) (acc : PfiWriteback × ℕ) :
    l.foldl (PfiWriteback.flushSector host) acc = l.foldl (PfiWriteback.flushSector host') acc :=
  List.foldl_ext _ _ _ fun acc s hs => by
    rw [PfiWriteback.flushSector, PfiWriteback.flushSector, h s hs]

theorem foldl_flushSector_returns {l : List ℕ} (hl : l.Nodup) (r : Hosted) (count : ℕ)
    (h : (l.foldl flushSector (r, count)).1.gone = false) :
    r.gone = false ∧ ∃ host, FailsShort host ∧
      (l.foldl flushSector (r, count)).1.writeback =
        (l.foldl (PfiWriteback.flushSector host) (r.writeback, count)).1 ∧
      (l.foldl flushSector (r, count)).2 =
        (l.foldl (PfiWriteback.flushSector host) (r.writeback, count)).2 := by
  induction l generalizing r count with
  | nil => exact ⟨h, PfiWriteback.allOk, failsShort_allOk, rfl, rfl⟩
  | cons s l ih =>
    obtain ⟨hs, hl⟩ := List.nodup_cons.mp hl
    rw [List.foldl_cons] at h ⊢
    obtain ⟨hmid, host, hshort, hw, hcount⟩ :=
      ih hl (flushSector (r, count) s).1 (flushSector (r, count) s).2 h
    obtain ⟨hr, o, ho, hw', hcount'⟩ := flushSector_returns r count s hmid
    refine ⟨hr, Function.update host s o, ?_, ?_⟩
    · intro t k hk
      by_cases ht : t = s
      · rw [ht, Function.update_self] at hk
        exact ho k hk
      · rw [Function.update_of_ne ht] at hk
        exact hshort t k hk
    · have hhead : PfiWriteback.flushSector (Function.update host s o) (r.writeback, count) s =
          PfiWriteback.flushSector (fun _ => o) (r.writeback, count) s := by
        rw [PfiWriteback.flushSector, PfiWriteback.flushSector, Function.update_self]
      have hsame (t : ℕ) (ht : t ∈ l) : Function.update host s o t = host t :=
        Function.update_of_ne (fun heq : t = s => hs (heq ▸ ht)) _ _
      rw [List.foldl_cons, hhead, foldl_flushSector_congr hsame]
      rw [show (_, _) = _ from Prod.ext hw' hcount'] at hw hcount
      exact ⟨hw, hcount⟩

theorem foldl_flushSector_answersFor {host : ℕ → WriteAt} (hshort : FailsShort host)
    (l : List ℕ) (w : PfiWriteback) (rest : List Pwrite) (count : ℕ) :
    l.foldl flushSector (⟨w, l.flatMap (fun s => answersFor (host s)) ++ rest, false⟩, count) =
      (⟨(l.foldl (PfiWriteback.flushSector host) (w, count)).1, rest, false⟩,
        (l.foldl (PfiWriteback.flushSector host) (w, count)).2) := by
  induction l generalizing w count with
  | nil => rfl
  | cons s l ih =>
    have hhead : PfiWriteback.flushSector (fun _ => host s) (w, count) s =
        PfiWriteback.flushSector host (w, count) s := rfl
    rw [List.foldl_cons, List.foldl_cons, List.flatMap_cons, List.append_assoc,
      flushSector_answersFor (hshort s), ih, hhead]

/-- **What a flush that returns has done.** -/
theorem flushDirtySectors_returns {r : Hosted} (h : r.flushDirtySectors.gone = false) :
    r.gone = false ∧ ∃ host, FailsShort host ∧
      r.flushDirtySectors.writeback = (PfiWriteback.flushDirtySectors host r.writeback).1 := by
  by_cases hopen : r.writeback.fileOpen = true
  · have hfold := foldl_flushSector_returns
      (r.writeback.flash.forEachDirtySector_ascending.imp Nat.ne_of_lt) r 0
    rw [flushDirtySectors, if_neg (by simp [hopen])] at h ⊢
    simp only at h ⊢
    generalize r.writeback.flash.forEachDirtySector.foldl flushSector (r, 0) = out at hfold h ⊢
    have hgone : out.1.gone = false := by
      revert h
      split_ifs with hg hc
      · exact fun h => h
      · exact fun h => h
      · exact fun h => h
    obtain ⟨hr, host, hshort, hw, hcount⟩ := hfold hgone
    refine ⟨hr, host, hshort, ?_⟩
    rw [PfiWriteback.flushDirtySectors_fst host hopen, ← hw, ← hcount, if_neg (by simp [hgone])]
    split_ifs <;> rfl
  · rw [flushDirtySectors, if_pos (by simp [hopen])] at h ⊢
    exact ⟨h, PfiWriteback.allOk, failsShort_allOk, by
      rw [PfiWriteback.flushDirtySectors, if_pos (by simp [hopen])]⟩

/-- **Every outcome of a flush** is one on some host. -/
theorem exists_flushDirtySectors {host : ℕ → WriteAt} (hshort : FailsShort host)
    (w : PfiWriteback) :
    ∃ answers, ∀ rest, flushDirtySectors ⟨w, answers ++ rest, false⟩ =
      ⟨(PfiWriteback.flushDirtySectors host w).1, rest, false⟩ := by
  by_cases hopen : w.fileOpen = true
  · refine ⟨w.flash.forEachDirtySector.flatMap fun s => answersFor (host s), fun rest => ?_⟩
    rw [flushDirtySectors, if_neg (by simp [hopen])]
    simp only [foldl_flushSector_answersFor hshort]
    rw [PfiWriteback.flushDirtySectors_fst host hopen, if_neg (by simp)]
    split_ifs <;> rfl
  · refine ⟨[], fun rest => ?_⟩
    rw [flushDirtySectors, if_pos (by simp [hopen])]
    simp [PfiWriteback.flushDirtySectors, hopen]

/-! ### The sessions that return -/

theorem step_returns {r : Hosted} {a : DiskAct} (h : (r.step a).gone = false) :
    r.gone = false ∧ ∃ host, FailsShort host ∧
      (r.step a).writeback = outcome r.writeback (a, host) := by
  by_cases hr : r.gone = true
  · simp only [step, if_pos hr] at h
    exact absurd (hr.symm.trans h) (by decide)
  have hr' : r.gone = false := Bool.eq_false_of_not_eq_true hr
  refine ⟨hr', ?_⟩
  unfold step at h ⊢
  rw [if_neg hr] at h ⊢
  cases a with
  | command op nowUs => exact ⟨_, failsShort_allOk, rfl⟩
  | poll nowUs =>
    simp only [poll, outcome, PfiWriteback.poll] at h ⊢
    split_ifs at h ⊢ with hdue
    · exact (flushDirtySectors_returns h).2
    · exact ⟨_, failsShort_allOk, rfl⟩
  | shutdownFlush =>
    simp only [shutdownFlush, outcome, PfiWriteback.shutdownFlush] at h ⊢
    split_ifs at h ⊢ with hdue
    · exact (flushDirtySectors_returns h).2
    · exact ⟨_, failsShort_allOk, rfl⟩

theorem exists_step {host : ℕ → WriteAt} (hshort : FailsShort host) (w : PfiWriteback)
    (a : DiskAct) :
    ∃ answers, ∀ rest, step ⟨w, answers ++ rest, false⟩ a = ⟨outcome w (a, host), rest, false⟩ := by
  cases a with
  | command op nowUs => exact ⟨[], fun _ => rfl⟩
  | poll nowUs =>
    by_cases hdue : w.pollDue nowUs = true
    · obtain ⟨answers, h⟩ := exists_flushDirtySectors hshort { w with lastDirtyUs := 0 }
      refine ⟨answers, fun rest => ?_⟩
      simp only [step, poll, outcome, PfiWriteback.poll, if_pos hdue]
      exact h rest
    · refine ⟨[], fun rest => ?_⟩
      simp [step, poll, outcome, PfiWriteback.poll, hdue]
  | shutdownFlush =>
    by_cases hdue : w.shutdownDue = true
    · obtain ⟨answers, h⟩ := exists_flushDirtySectors hshort w
      refine ⟨answers, fun rest => ?_⟩
      simp only [step, shutdownFlush, outcome, PfiWriteback.shutdownFlush, if_pos hdue]
      exact h rest
    · refine ⟨[], fun rest => ?_⟩
      simp [step, shutdownFlush, outcome, PfiWriteback.shutdownFlush, hdue]

theorem exec_returns {as : List DiskAct} {r : Hosted}
    (h : (ActionRun.exec step r as).gone = false) :
    r.gone = false ∧ ∃ run : List (DiskAct × (ℕ → WriteAt)), run.map Prod.fst = as ∧
      (∀ a ∈ run, FailsShort a.2) ∧
      ActionRun.exec outcome r.writeback run = (ActionRun.exec step r as).writeback := by
  induction as generalizing r with
  | nil => exact ⟨h, [], rfl, fun _ hmem => absurd hmem List.not_mem_nil, rfl⟩
  | cons a as ih =>
    obtain ⟨hmid, run, hacts, hshort, hrun⟩ := ih h
    obtain ⟨hr, host, hhost, hw⟩ := step_returns hmid
    refine ⟨hr, (a, host) :: run, ?_, ?_, ?_⟩
    · rw [List.map_cons, hacts]
    · exact List.forall_mem_cons.mpr ⟨hhost, hshort⟩
    · rw [ActionRun.exec_cons, ← hw]
      exact hrun

theorem exists_exec {run : List (DiskAct × (ℕ → WriteAt))} (hshort : ∀ a ∈ run, FailsShort a.2)
    (w : PfiWriteback) :
    ∃ answers, ∀ rest, ActionRun.exec step ⟨w, answers ++ rest, false⟩ (run.map Prod.fst) =
      ⟨ActionRun.exec outcome w run, rest, false⟩ := by
  induction run generalizing w with
  | nil => exact ⟨[], fun _ => rfl⟩
  | cons a run ih =>
    obtain ⟨hhost, hshort⟩ := List.forall_mem_cons.mp hshort
    obtain ⟨front, hstep⟩ := exists_step hhost w a.1
    obtain ⟨back, hrun⟩ := ih hshort (outcome w a)
    refine ⟨front ++ back, fun rest => ?_⟩
    rw [List.map_cons, ActionRun.exec_cons, List.append_assoc, hstep]
    exact hrun rest

/-- **A session that comes to its end**, for every writeback and all actions: what the calls
of `pwrite` can make of it is what one outcome for each write of a sector makes of it, the
failures after less than a sector. -/
theorem returns_iff (w : PfiWriteback) (as : List DiskAct) (w' : PfiWriteback) :
    (∃ answers, (ActionRun.exec step ⟨w, answers, false⟩ as).gone = false ∧
        (ActionRun.exec step ⟨w, answers, false⟩ as).writeback = w') ↔
      ∃ run : List (DiskAct × (ℕ → WriteAt)), run.map Prod.fst = as ∧
        (∀ a ∈ run, FailsShort a.2) ∧ ActionRun.exec outcome w run = w' := by
  constructor
  · rintro ⟨answers, hgone, rfl⟩
    exact (exec_returns hgone).2
  · rintro ⟨run, rfl, hshort, rfl⟩
    obtain ⟨answers, h⟩ := exists_exec hshort w
    have hend := h []
    rw [List.append_nil] at hend
    exact ⟨answers, by rw [hend], by rw [hend]⟩

/-! ### The sessions that do not -/

/-- What an action may do to the file: it copies bytes of the device to their place, and
leaves the size of the device and its place as they are. -/
structure Copies (r r' : Hosted) : Prop where
  offset : r'.writeback.flashOffsetInPfi = r.writeback.flashOffsetInPfi
  memSize : r'.writeback.flash.memSize = r.writeback.flash.memSize
  file : ∀ i, r'.writeback.file i = r.writeback.file i ∨
    r.writeback.flashOffsetInPfi.toNat ≤ i ∧
      i < r.writeback.flashOffsetInPfi.toNat + r.writeback.flash.memSize ∧
      r'.writeback.file i = r.writeback.flash.mem (i - r.writeback.flashOffsetInPfi.toNat)

theorem flushSector_copies (r : Hosted) (count : ℕ) {s : ℕ}
    (hs : s * sectorSize + sectorSize ≤ r.writeback.flash.memSize) :
    (flushSector (r, count) s).1.writeback.flash = r.writeback.flash ∧
      Copies r (flushSector (r, count) s).1 := by
  obtain ⟨w, answers, gone⟩ := r
  have hcopy {k : ℕ} (hk : k ≤ sectorSize) (i : ℕ) :
      PfiWriteback.copySector w.file w.flash.mem w.flashOffsetInPfi.toNat s k i = w.file i ∨
        w.flashOffsetInPfi.toNat ≤ i ∧ i < w.flashOffsetInPfi.toNat + w.flash.memSize ∧
          PfiWriteback.copySector w.file w.flash.mem w.flashOffsetInPfi.toNat s k i =
            w.flash.mem (i - w.flashOffsetInPfi.toNat) := by
    rw [PfiWriteback.copySector]
    split_ifs with hi
    · dsimp only at hs
      exact .inr ⟨by omega, by omega, rfl⟩
    · exact .inl rfl
  cases gone with
  | true => exact ⟨rfl, rfl, rfl, fun _ => .inl rfl⟩
  | false =>
    rcases flushSector_cases w answers count s with
      ⟨k, hk, hout⟩ | ⟨k, hk, rest, hout⟩ | ⟨rest, hout⟩
    · rw [hout]
      exact ⟨rfl, rfl, rfl, hcopy hk.le⟩
    · rw [hout]
      exact ⟨rfl, rfl, rfl, hcopy hk.le⟩
    · rw [hout]
      exact ⟨rfl, rfl, rfl, hcopy le_rfl⟩

theorem foldl_flushSector_copies {l : List ℕ} (r : Hosted) (count : ℕ)
    (hl : ∀ s ∈ l, s * sectorSize + sectorSize ≤ r.writeback.flash.memSize) :
    (l.foldl flushSector (r, count)).1.writeback.flash = r.writeback.flash ∧
      Copies r (l.foldl flushSector (r, count)).1 := by
  induction l generalizing r count with
  | nil => exact ⟨rfl, rfl, rfl, fun _ => .inl rfl⟩
  | cons s l ih =>
    obtain ⟨hs, hl⟩ := List.forall_mem_cons.mp hl
    obtain ⟨hflash, hcopies⟩ := flushSector_copies r count hs
    obtain ⟨hflash', hcopies'⟩ :=
      ih (flushSector (r, count) s).1 (flushSector (r, count) s).2 (by rwa [hflash])
    rw [List.foldl_cons]
    refine ⟨hflash'.trans hflash, hcopies'.offset.trans hcopies.offset,
      hcopies'.memSize.trans hcopies.memSize, fun i => ?_⟩
    have hfile := hcopies'.file i
    rw [hflash, hcopies.offset] at hfile
    rcases hfile with hkeep | hcopy
    · rcases hcopies.file i with hkeep' | hcopy'
      · exact .inl (hkeep.trans hkeep')
      · exact .inr ⟨hcopy'.1, hcopy'.2.1, hkeep.trans hcopy'.2.2⟩
    · exact .inr hcopy

theorem flushDirtySectors_copies (r : Hosted) : Copies r r.flushDirtySectors := by
  have hsectors (s : ℕ) (hs : s ∈ r.writeback.flash.forEachDirtySector) :
      s * sectorSize + sectorSize ≤ r.writeback.flash.memSize := by
    have hlt := ((Sst39vf.isSectorDirty_iff _).mp
      ((Sst39vf.mem_forEachDirtySector _).mp hs)).1
    rw [← r.writeback.flash.sectorCount_mul, ← Nat.succ_mul]
    exact Nat.mul_le_mul_right _ hlt
  obtain ⟨-, hoff, hsize, hfile⟩ := foldl_flushSector_copies r 0 hsectors
  rw [flushDirtySectors]
  split_ifs
  · exact ⟨rfl, rfl, fun _ => .inl rfl⟩
  · generalize r.writeback.flash.forEachDirtySector.foldl flushSector (r, 0) = out
      at hoff hsize hfile
    dsimp only
    split_ifs
    · exact ⟨hoff, hsize, hfile⟩
    · exact ⟨hoff, hsize, hfile⟩
    · exact ⟨hoff, hsize, hfile⟩

theorem step_copies (r : Hosted) (a : DiskAct) : Copies r (r.step a) := by
  have hsame : Copies r r := ⟨rfl, rfl, fun _ => .inl rfl⟩
  unfold step
  split_ifs
  · exact hsame
  · cases a with
    | command op nowUs =>
      refine ⟨rfl, ?_, fun _ => .inl rfl⟩
      cases op with
      | reset => rfl
      | write offset data => exact r.writeback.flash.write16_memSize offset data
    | poll nowUs =>
      dsimp only [poll]
      split_ifs
      · obtain ⟨hoff, hsize, hfile⟩ := flushDirtySectors_copies
          { r with writeback := { r.writeback with lastDirtyUs := 0 } }
        exact ⟨hoff, hsize, hfile⟩
      · exact hsame
    | shutdownFlush =>
      dsimp only [shutdownFlush]
      split_ifs
      · exact flushDirtySectors_copies r
      · exact hsame

/-- **A file torn by a failure or by the end of the process**, for every writeback, all
actions and every host: each byte of the file is the one that was there, or it is in the
place of the device and is one that the device has held there. -/
theorem torn_file (w : PfiWriteback) (answers : List Pwrite) (as : List DiskAct) (i : ℕ) :
    (ActionRun.exec step ⟨w, answers, false⟩ as).writeback.file i = w.file i ∨
      w.flashOffsetInPfi.toNat ≤ i ∧ i < w.flashOffsetInPfi.toNat + w.flash.memSize ∧
        ∃ bs, bs <+: as ∧
          (ActionRun.exec step ⟨w, answers, false⟩ as).writeback.file i =
            (ActionRun.exec step ⟨w, answers, false⟩ bs).writeback.flash.mem
              (i - w.flashOffsetInPfi.toNat) := by
  suffices h :
      (ActionRun.exec step ⟨w, answers, false⟩ as).writeback.flashOffsetInPfi =
          w.flashOffsetInPfi ∧
        (ActionRun.exec step ⟨w, answers, false⟩ as).writeback.flash.memSize = w.flash.memSize ∧
        ((ActionRun.exec step ⟨w, answers, false⟩ as).writeback.file i = w.file i ∨
          w.flashOffsetInPfi.toNat ≤ i ∧ i < w.flashOffsetInPfi.toNat + w.flash.memSize ∧
            ∃ bs, bs <+: as ∧
              (ActionRun.exec step ⟨w, answers, false⟩ as).writeback.file i =
                (ActionRun.exec step ⟨w, answers, false⟩ bs).writeback.flash.mem
                  (i - w.flashOffsetInPfi.toNat)) from h.2.2
  induction as using List.reverseRecOn with
  | nil => exact ⟨rfl, rfl, .inl rfl⟩
  | append_singleton as a ih =>
    obtain ⟨hoff, hsize, hfile⟩ := ih
    have hcopies := step_copies (ActionRun.exec step ⟨w, answers, false⟩ as) a
    have hnew := hcopies.file i
    rw [hoff, hsize] at hnew
    rw [ActionRun.exec_append]
    refine ⟨hcopies.offset.trans hoff, hcopies.memSize.trans hsize, ?_⟩
    rcases hnew with hkeep | ⟨hlo, hhi, hcopy⟩
    · rcases hfile with hkeep' | ⟨hlo, hhi, bs, hbs, hcopy⟩
      · exact .inl (hkeep.trans hkeep')
      · exact .inr ⟨hlo, hhi, bs, hbs.trans (List.prefix_append as [a]), hkeep.trans hcopy⟩
    · exact .inr ⟨hlo, hhi, as, List.prefix_append as [a], hcopy⟩

/-! ### Hosts without failures -/

/-- Answers that are no failures. -/
def Harmless (answers : List Pwrite) : Prop := ∀ a ∈ answers, a ≠ .failed ∧ a ≠ .wrote 0

/-- How many of the answers are no interruptions. -/
def final (answers : List Pwrite) : ℕ := (answers.filter (· ≠ .interrupted)).length

/-- **Short writes and signals do not matter**: on a host without failures that gives as many
answers as there are bytes, `write_at` writes all of them and returns true. -/
theorem writeAt_harmless {answers : List Pwrite} (hok : Harmless answers) (file : ℕ → U8)
    (off : ℕ) {p : List U8} (hmany : p.length ≤ final answers) :
    ∃ rest, writeAt answers file off p = ⟨blit file off p, some (true, rest)⟩ ∧ Harmless rest ∧
      final answers ≤ final rest + p.length := by
  induction answers generalizing file off p with
  | nil =>
    have hp : p = [] := List.length_eq_zero_iff.mp (Nat.le_zero.mp hmany)
    exact ⟨[], by rw [hp, writeAt_nil, blit_nil], hok, Nat.zero_le _⟩
  | cons a answers ih =>
    obtain ⟨ha, hok'⟩ := List.forall_mem_cons.mp hok
    cases p with
    | nil => exact ⟨a :: answers, by rw [writeAt_nil, blit_nil], hok, Nat.le_add_right _ _⟩
    | cons b p =>
      cases a with
      | interrupted => exact ih hok' file off hmany
      | failed => exact absurd rfl ha.1
      | wrote n =>
        have hn : n ≠ 0 := fun h => ha.2 (h ▸ rfl)
        have hfinal : final (.wrote n :: answers) = final answers + 1 := rfl
        have hdrop : ((b :: p).drop n).length = (b :: p).length - n := List.length_drop
        have hcons : (b :: p).length = p.length + 1 := rfl
        obtain ⟨rest, hwrite, hrest, hcount⟩ :=
          ih hok' (blit file off ((b :: p).take n)) (off + ((b :: p).take n).length)
            (p := (b :: p).drop n) (by omega)
        refine ⟨rest, ?_, hrest, by omega⟩
        rw [writeAt, if_neg hn, hwrite, ← blit_append, List.take_append_drop]

theorem flushSector_harmless {answers : List Pwrite} (hok : Harmless answers) (w : PfiWriteback)
    (count s : ℕ) (hmany : sectorSize ≤ final answers) :
    ∃ rest, flushSector (⟨w, answers, false⟩, count) s = (⟨w.copied s, rest, false⟩, count + 1) ∧
      Harmless rest ∧ final answers ≤ final rest + sectorSize := by
  have hlen := length_sectorBytes w.flash s
  obtain ⟨rest, hwrite, hrest, hcount⟩ := writeAt_harmless hok w.file
    (w.flashOffsetInPfi.toNat + s * sectorSize) (p := sectorBytes w.flash s) (by rwa [hlen])
  rw [hlen] at hcount
  have hfile := blit_sectorBytes w.file w.flash w.flashOffsetInPfi.toNat s le_rfl
  rw [List.take_of_length_le hlen.le] at hfile
  refine ⟨rest, ?_, hrest, hcount⟩
  simp [flushSector, hwrite, hfile, PfiWriteback.copied]

theorem foldl_flushSector_harmless {answers : List Pwrite} (hok : Harmless answers)
    (w : PfiWriteback) (count : ℕ) (l : List ℕ) (hmany : l.length * sectorSize ≤ final answers) :
    ∃ rest, l.foldl flushSector (⟨w, answers, false⟩, count) =
        (⟨(l.foldl (PfiWriteback.flushSector PfiWriteback.allOk) (w, count)).1, rest, false⟩,
          (l.foldl (PfiWriteback.flushSector PfiWriteback.allOk) (w, count)).2) ∧
      Harmless rest ∧ final answers ≤ final rest + l.length * sectorSize := by
  induction l generalizing answers w count with
  | nil => exact ⟨answers, rfl, hok, Nat.le_add_right _ _⟩
  | cons s l ih =>
    rw [List.length_cons, Nat.succ_mul] at hmany
    obtain ⟨mid, hhead, hmid, hcount⟩ :=
      flushSector_harmless hok w count s ((Nat.le_add_left _ _).trans hmany)
    obtain ⟨rest, htail, hrest, hcount'⟩ := ih hmid (w.copied s) (count + 1) (by omega)
    refine ⟨rest, ?_, hrest, ?_⟩
    · rw [List.foldl_cons, List.foldl_cons, hhead, htail, PfiWriteback.flushSector_allOk]
    · rw [List.length_cons, Nat.succ_mul]
      omega

theorem length_forEachDirtySector (f : Sst39vf) :
    f.forEachDirtySector.length * sectorSize ≤ f.memSize := by
  rw [← f.sectorCount_mul]
  refine Nat.mul_le_mul_right _ ?_
  rw [Sst39vf.forEachDirtySector]
  exact (List.length_filter_le _ _).trans_eq List.length_range

theorem flushDirtySectors_harmless {answers : List Pwrite} (hok : Harmless answers)
    (w : PfiWriteback) (hopen : w.fileOpen = true) (hmany : w.flash.memSize ≤ final answers) :
    ∃ rest, flushDirtySectors ⟨w, answers, false⟩ =
        ⟨(PfiWriteback.flushDirtySectors PfiWriteback.allOk w).1, rest, false⟩ ∧
      Harmless rest ∧ final answers ≤ final rest + w.flash.memSize := by
  have hdirty := length_forEachDirtySector w.flash
  obtain ⟨rest, hfold, hrest, hcount⟩ := foldl_flushSector_harmless hok w 0
    w.flash.forEachDirtySector (hdirty.trans hmany)
  refine ⟨rest, ?_, hrest, by omega⟩
  rw [flushDirtySectors, if_neg (by simp [hopen])]
  simp only [hfold]
  rw [PfiWriteback.flushDirtySectors_fst _ hopen, if_neg (by simp)]
  split_ifs <;> rfl

/-- The state of a session whose file mirrors the device of `n` bytes at `off`, on a host with
`left` answers to come. -/
structure Serving (n : ℕ) (off : U32) (file₀ : ℕ → U8) (left : ℕ) (r : Hosted) : Prop where
  here : r.gone = false
  harmless : Harmless r.answers
  left : left ≤ final r.answers
  mirrors : PfiWriteback.Mirrors n off file₀ ⟨r.writeback, []⟩

variable {n : ℕ} {off : U32} {file₀ : ℕ → U8} {left : ℕ} {r : Hosted}

/-- A flush of a session. The calls of `write_at` are not kept. -/
theorem Serving.flush (h : Serving n off file₀ (left + n) r) :
    Serving n off file₀ left r.flushDirtySectors ∧
      ∀ s, r.flushDirtySectors.writeback.flash.isSectorDirty s = false := by
  obtain ⟨w, answers, gone⟩ := r
  obtain ⟨hhere, hok, hleft, hm⟩ := h
  have hgone : gone = false := hhere
  have hsize : w.flash.memSize = n := hm.memSize
  have hmany : left + n ≤ final answers := hleft
  subst hgone
  obtain ⟨rest, hflush, hrest, hcount⟩ :=
    flushDirtySectors_harmless hok w hm.fileOpen (by omega)
  obtain ⟨hmirrors, hclean⟩ := hm.flush
  rw [hflush]
  exact ⟨⟨rfl, hrest, by dsimp only; omega, hmirrors.attachment, hmirrors.memSize, hmirrors.same,
    hmirrors.outside, fun _ hc => absurd hc List.not_mem_nil⟩, hclean⟩

theorem Serving.stay (h : Serving n off file₀ (left + n) r) : Serving n off file₀ left r :=
  ⟨h.here, h.harmless, (Nat.le_add_right _ _).trans h.left, h.mirrors⟩

/-- The final flush leaves nothing dirty, whether or not there was something to do. -/
theorem Serving.shutdownFlush (h : Serving n off file₀ (left + n) r) :
    Serving n off file₀ left (r.step .shutdownFlush) ∧
      ∀ s, (r.step .shutdownFlush).writeback.flash.isSectorDirty s = false := by
  unfold Hosted.step
  rw [if_neg (by simp [h.here])]
  dsimp only [Hosted.shutdownFlush]
  split_ifs with hdue
  · exact h.flush
  · refine ⟨h.stay, fun s => ?_⟩
    have hclean := h.mirrors.shutdown.2 s
    rwa [PfiWriteback.MirrorRun.shutdown, PfiWriteback.shutdownFlush, if_neg hdue] at hclean

theorem Serving.step (h : Serving n off file₀ (left + n) r) (a : DiskAct) :
    Serving n off file₀ left (r.step a) := by
  cases a with
  | shutdownFlush => exact h.shutdownFlush.1
  | command op nowUs =>
    unfold Hosted.step
    rw [if_neg (by simp [h.here])]
    exact ⟨h.here, h.harmless, h.stay.left, h.mirrors.command op nowUs⟩
  | poll nowUs =>
    unfold Hosted.step
    rw [if_neg (by simp [h.here])]
    dsimp only [poll]
    split_ifs
    · exact (Serving.flush (r := { r with writeback := { r.writeback with lastDirtyUs := 0 } })
        ⟨h.here, h.harmless, h.left, h.mirrors.forget 0⟩).1
    · exact h.stay

/-- Each action takes the answers of one flush at most. -/
theorem Serving.run (as : List DiskAct) (h : Serving n off file₀ (left + as.length * n) r) :
    Serving n off file₀ left (ActionRun.exec Hosted.step r as) := by
  induction as generalizing r with
  | nil =>
    rw [List.length_nil, Nat.zero_mul] at h
    exact h
  | cons a as ih =>
    rw [List.length_cons, Nat.succ_mul, ← Nat.add_assoc] at h
    exact ih (h.step a)

/-- Where no sector is dirty, the device is in the file. -/
theorem Serving.file_eq (h : Serving n off file₀ left r)
    (hclean : ∀ s, r.writeback.flash.isSectorDirty s = false) {i : ℕ} (hi : i < n) :
    r.writeback.file (off.toNat + i) = r.writeback.flash.mem i := by
  by_contra hne
  have hdirty := h.mirrors.same i hi hne
  have hlt := r.writeback.flash.sectorOf_lt (h.mirrors.memSize.symm ▸ hi)
  have hfalse := hclean (sectorOf i)
  rw [(Sst39vf.isSectorDirty_iff _).mpr ⟨hlt, hdirty⟩] at hfalse
  exact Bool.noConfusion hfalse

/-- **Short writes and signals lose nothing.** The device of a writeback in write mode, with a
file that holds its memory at `off`, goes through any flash commands, polls and flushes, and a
final flush. On a host without failures, however short its writes are and however often it is
interrupted, the process does not end inside a write as long as there is an answer for each
byte of each flush; then the device is in the file, no sector is dirty, and the rest of the
file is what it was. -/
theorem short_writes (flash : Sst39vf) (file : ℕ → U8) (off : U32) (debounceMs : ℤ)
    (hfile : ∀ i < flash.memSize, file (off.toNat + i) = flash.mem i) (answers : List Pwrite)
    (hok : Harmless answers) (as : List DiskAct)
    (hmany : (as.length + 1) * flash.memSize ≤ final answers) :
    let r := ActionRun.exec step
      ⟨PfiWriteback.attach flash .writeBack true file off debounceMs, answers, false⟩
      (as ++ [.shutdownFlush])
    r.gone = false ∧
      (∀ i < flash.memSize, r.writeback.file (off.toNat + i) = r.writeback.flash.mem i) ∧
      (∀ s, r.writeback.flash.isSectorDirty s = false) ∧
      ∀ i, ¬(off.toNat ≤ i ∧ i < off.toNat + flash.memSize) → r.writeback.file i = file i := by
  intro r
  have hinit : Serving flash.memSize off file (0 + flash.memSize + as.length * flash.memSize)
      ⟨PfiWriteback.attach flash .writeBack true file off debounceMs, answers, false⟩ := by
    rw [Nat.succ_mul] at hmany
    exact ⟨rfl, hok, by dsimp only; omega, rfl, rfl, fun i hi hne => absurd (hfile i hi) hne,
      fun _ _ => rfl, fun _ hc => absurd hc List.not_mem_nil⟩
  have hend : r = step (ActionRun.exec step
      ⟨PfiWriteback.attach flash .writeBack true file off debounceMs, answers, false⟩ as)
      .shutdownFlush := ActionRun.exec_append _ as _
  obtain ⟨hserving, hclean⟩ := (hinit.run as).shutdownFlush
  rw [← hend] at hserving hclean
  exact ⟨hserving.here, fun i hi => hserving.file_eq hclean hi, hclean, hserving.mirrors.outside⟩

/-- A word is programmed on a host that writes byte by byte, after a signal. -/
theorem short_writes_byByte :
    let flash : Sst39vf :=
      ⟨0x10000, ⟨16, rfl⟩, by decide, fun _ => 0xFF, fun _ => false, .normal⟩
    let r := ActionRun.exec step
      ⟨PfiWriteback.attach flash .writeBack true (fun _ => 0xFF) 64 2000,
        .interrupted :: List.replicate (5 * 0x10000) (.wrote 1), false⟩
      ([.command (.write 0xAAAA 0xAA) 1, .command (.write 0x5554 0x55) 2,
        .command (.write 0xAAAA 0xA0) 3, .command (.write 0 0x1234) 4] ++ [.shutdownFlush])
    r.gone = false ∧
      (∀ i < flash.memSize, r.writeback.file ((64 : U32).toNat + i) = r.writeback.flash.mem i) ∧
      (∀ s, r.writeback.flash.isSectorDirty s = false) ∧
      ∀ i, ¬((64 : U32).toNat ≤ i ∧ i < (64 : U32).toNat + flash.memSize) →
        r.writeback.file i = 0xFF := by
  refine short_writes ⟨0x10000, ⟨16, rfl⟩, by decide, fun _ => 0xFF, fun _ => false, .normal⟩
    (fun _ => 0xFF) 64 2000 (fun _ _ => rfl) _ ?_ _ ?_
  · refine List.forall_mem_cons.mpr ⟨⟨by decide, by decide⟩, fun a ha => ?_⟩
    rw [List.eq_of_mem_replicate ha]
    exact ⟨by decide, by decide⟩
  · have hfinal (n : ℕ) : final (.interrupted :: List.replicate n (.wrote 1)) = n := by
      simp [final]
    rw [hfinal]
    exact le_rfl

end Hosted
