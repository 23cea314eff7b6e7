import PieceEmu.Lib.BoundedRing
import PieceEmu.Lib.Decimal
import PieceEmu.Lib.Run

/-!
# The audio log

The CPU thread and the audio thread record events, which a third thread writes to a file:
the recorders put them in a ring under a mutex, the flush thread empties it every 50 ms, and
`close` stops that thread and empties the ring a last time.

Every event is accounted for, in any order of the steps of these threads
(`AudioLog.accounted`): the file has, after its header, the events that were put in the
ring, in that order, but for those still in it; an event is dropped only when the ring is
full, and counted; and a closed file has all events that were put in the ring before, ends
with the count, and does not change any more. The lines determine the events
(`AudioLog.flatMap_line_inj`).

What is not in the file of a closed log is an event whose recorder found the log open and
came to the mutex after `close`.
-/

open CText

/-- The kinds of events. -/
inductive LogKind
  | push
  | pull
  | pace
  deriving DecidableEq

/-- `Entry`. -/
structure LogEntry where
  kind : LogKind
  wallNs : U64
  cpuCyc : U64
  f1 : U64
  f2 : U64
  f3 : U64
  f4 : U64
  deriving DecidableEq

/-- Where the flush thread is. -/
inductive LogFlusher
  /-- Before the test of the loop. -/
  | test
  /-- Before the mutex. -/
  | drain
  /-- Behind the loop. -/
  | done
  deriving DecidableEq

/-- The log, from `open` on. -/
structure AudioLog where
  /-- What has been written to the file. -/
  file : List U8
  /-- `f_` is not null. -/
  isOpen : Bool := true
  /-- `ring_`, `head_`, `tail_`. -/
  ring : BoundedRing LogEntry
  /-- `dropped_`. -/
  dropped : U64 := 0
  /-- `stop_`. -/
  stop : Bool := false
  flusher : LogFlusher := .test
  /-- The calls that have passed the check of `log_push`, `log_pull` or `log_pace`, and
  whether they have passed that of `push_entry`. -/
  recorders : List (LogEntry × Bool) := []
  /-- Not in the source: the events put in the ring so far. -/
  accepted : List LogEntry := []
  /-- Not in the source: how many events found the ring full. -/
  refused : ℕ := 0
  /-- Not in the source: the last two when the log was closed. -/
  atClose : Option (List LogEntry × ℕ) := none

/-- The steps of the threads. -/
inductive LogAct
  /-- A recorder calls, and its first check is made. -/
  | record (e : LogEntry)
  /-- The check of `push_entry`, for the call `i`. -/
  | check (i : ℕ)
  /-- The part of `push_entry` under the mutex, for the call `i`. -/
  | insert (i : ℕ)
  /-- The test of the loop of the flush thread. -/
  | flushTest
  /-- The part of that loop under the mutex. -/
  | flushDrain
  /-- `close` stops the flush thread. -/
  | stop
  /-- The rest of `close`, under the mutex, once the flush thread has ended. -/
  | close

namespace LogEntry

/-- `log_push`. -/
def logPush (now cpuCyc cnt availAfter droppedTotal : U64) : LogEntry :=
  ⟨.push, now, cpuCyc, cnt, availAfter, droppedTotal, 0⟩

/-- `log_pull`. -/
def logPull (now want got availBefore sdlQueued : U64) : LogEntry :=
  ⟨.pull, now, 0, want, got, availBefore, sdlQueued⟩

/-- `log_pace`. -/
def logPace (now cpuCyc mode avail sleepNs : U64) : LogEntry :=
  ⟨.pace, now, cpuCyc, mode, avail, sleepNs, 0⟩

end LogEntry

/-- The name of a kind in the file. -/
def LogKind.name : LogKind → List U8
  | push => str "PUSH"
  | pull => str "PULL"
  | pace => str "PACE"

namespace AudioLog

/-- `N`. -/
def size : ℕ := 16384

/-- The fields of `write_entry`, with a tab before each but the first. -/
def fields (e : LogEntry) : List U8 :=
  e.kind.name ++ ch '\t' :: (dec e.wallNs.toNat ++ ch '\t' :: (dec e.cpuCyc.toNat ++
    ch '\t' :: (decInt e.f1.toInt ++ ch '\t' :: (decInt e.f2.toInt ++
    ch '\t' :: (decInt e.f3.toInt ++ ch '\t' :: decInt e.f4.toInt)))))

/-- `write_entry`. -/
def line (e : LogEntry) : List U8 := fields e ++ [ch '\n']

/-- What `open` writes. -/
def header : List U8 :=
  str "# event\twall_ns\tcpu_cyc\tf1\tf2\tf3\tf4\n" ++
    str "# PUSH: cnt, avail_after, dropped_total, -\n" ++
    str "# PULL: want, got, avail_before, sdl_queued\n" ++
    str "# PACE: mode(0=audio,1=wall), avail, sleep_ns, -\n"

/-- The last line of a closed log, if events were dropped. -/
def droppedLine (d : U64) : List U8 :=
  if 0 < d then str "# dropped " ++ dec d.toNat ++ str " events\n" else []

/-- `open`, over the ring as it is. -/
def opened (slots : ℕ → LogEntry) : AudioLog where
  file := header
  ring := ⟨slots, 0, 0⟩

variable (s : AudioLog)

/-- The part of `push_entry` under the mutex. -/
def pushEntry (e : LogEntry) : AudioLog :=
  match s.ring.push size e with
  | none => { s with dropped := s.dropped + 1, refused := s.refused + 1 }
  | some ring => { s with ring, accepted := s.accepted ++ [e] }

/-- `drain_locked`. -/
def drainLocked : AudioLog :=
  let (entries, ring) := s.ring.drain size size
  { s with ring, file := s.file ++ entries.flatMap line }

/-- One step. A step that is not possible is none. -/
def step (s : AudioLog) : LogAct → AudioLog
  | .record e => if s.isOpen then { s with recorders := s.recorders ++ [(e, false)] } else s
  | .check i =>
    match s.recorders[i]? with
    | some (e, false) =>
      if s.isOpen then { s with recorders := s.recorders.set i (e, true) }
      else { s with recorders := s.recorders.eraseIdx i }
    | _ => s
  | .insert i =>
    match s.recorders[i]? with
    | some (e, true) => { s with recorders := s.recorders.eraseIdx i }.pushEntry e
    | _ => s
  | .flushTest =>
    if s.flusher = .test then { s with flusher := if s.stop then .done else .drain } else s
  | .flushDrain => if s.flusher = .drain then { s.drainLocked with flusher := .test } else s
  | .stop => if s.isOpen then { s with stop := true } else s
  | .close =>
    if s.isOpen ∧ s.stop ∧ s.flusher = .done then
      { s.drainLocked with
        file := s.drainLocked.file ++ droppedLine s.dropped
        isOpen := false
        atClose := some (s.accepted, s.refused) }
    else s

/-! ### The lines -/

theorem tab_not_mem_name (k : LogKind) : ch '\t' ∉ k.name := by
  cases k <;> decide

theorem LogKind.name_inj {k l : LogKind} (h : k.name = l.name) : k = l := by
  have hall : ∀ k l : LogKind, k.name = l.name → k = l := by
    intro k l
    cases k <;> cases l <;> decide
  exact hall k l h

/-- The fields of a line determine the event. -/
theorem fields_inj (e e' : LogEntry) (h : fields e = fields e') : e = e' := by
  obtain ⟨hkind, h⟩ := append_cons_inj (tab_not_mem_name _) (tab_not_mem_name _) h
  have hdec (n : ℕ) : ch '\t' ∉ dec n := not_mem_dec (by decide) n
  have hdecInt (n : ℤ) : ch '\t' ∉ decInt n := not_mem_decInt (by decide) (by decide) n
  obtain ⟨hwall, h⟩ := append_cons_inj (hdec _) (hdec _) h
  obtain ⟨hcyc, h⟩ := append_cons_inj (hdec _) (hdec _) h
  obtain ⟨h1, h⟩ := append_cons_inj (hdecInt _) (hdecInt _) h
  obtain ⟨h2, h⟩ := append_cons_inj (hdecInt _) (hdecInt _) h
  obtain ⟨h3, h4⟩ := append_cons_inj (hdecInt _) (hdecInt _) h
  obtain ⟨kind, wallNs, cpuCyc, f1, f2, f3, f4⟩ := e
  obtain ⟨kind', wallNs', cpuCyc', f1', f2', f3', f4'⟩ := e'
  rw [LogEntry.mk.injEq]
  exact ⟨LogKind.name_inj hkind, BitVec.eq_of_toNat_eq (dec_inj hwall),
    BitVec.eq_of_toNat_eq (dec_inj hcyc), BitVec.eq_of_toInt_eq (decInt_inj h1),
    BitVec.eq_of_toInt_eq (decInt_inj h2), BitVec.eq_of_toInt_eq (decInt_inj h3),
    BitVec.eq_of_toInt_eq (decInt_inj h4)⟩

theorem newline_not_mem_fields (e : LogEntry) : ch '\n' ∉ fields e := by
  have hdec (n : ℕ) : ch '\n' ∉ dec n := not_mem_dec (by decide) n
  have hdecInt (n : ℤ) : ch '\n' ∉ decInt n := not_mem_decInt (by decide) (by decide) n
  have hname : ch '\n' ∉ e.kind.name := by
    cases e.kind <;> decide
  have htab : ch '\n' ≠ ch '\t' := by decide
  simp only [fields, List.mem_append, List.mem_cons, hdec, hdecInt, hname, htab, or_self,
    not_false_eq_true]

/-- **The lines of a log determine its events.** -/
theorem flatMap_line_inj {es es' : List LogEntry} (h : es.flatMap line = es'.flatMap line) :
    es = es' :=
  flatMap_lines_inj newline_not_mem_fields fields_inj h

/-! ### The invariant -/

/-- What a closed file has behind its events. -/
def closing (s : AudioLog) : List U8 :=
  s.atClose.elim [] fun c => droppedLine (BitVec.ofNat 64 c.2)

/-- The file has the events `written`, and the ring the events `waiting`. -/
structure Inv (written waiting : List LogEntry) (s : AudioLog) : Prop where
  ring : s.ring.Holds size waiting
  accepted : s.accepted = written ++ waiting
  file : s.file = header ++ written.flatMap line ++ s.closing
  dropped : s.dropped = BitVec.ofNat 64 s.refused
  isOpen : s.isOpen = s.atClose.isNone
  atClose : ∀ c ∈ s.atClose, written = c.1 ∧ s.flusher = .done

variable {s} {written waiting : List LogEntry}

theorem inv_opened (slots : ℕ → LogEntry) : Inv [] [] (opened slots) where
  ring := .nil (show 0 < size by decide) rfl
  accepted := rfl
  file := rfl
  dropped := rfl
  isOpen := rfl
  atClose := nofun

/-- The bookkeeping of the calls and of the flags. -/
theorem Inv.of_eq (h : Inv written waiting s) {s' : AudioLog} (hring : s'.ring = s.ring)
    (haccepted : s'.accepted = s.accepted) (hfile : s'.file = s.file)
    (hdropped : s'.dropped = s.dropped) (hrefused : s'.refused = s.refused)
    (hopen : s'.isOpen = s.isOpen) (hclose : s'.atClose = s.atClose)
    (hflusher : s.flusher = .done → s'.flusher = .done) : Inv written waiting s' where
  ring := hring ▸ h.ring
  accepted := haccepted.trans h.accepted
  file := by rw [hfile, h.file, closing, closing, hclose]
  dropped := by rw [hdropped, hrefused, h.dropped]
  isOpen := by rw [hopen, hclose, h.isOpen]
  atClose c hc := (h.atClose c (hclose ▸ hc)).imp_right hflusher

theorem Inv.pushEntry (h : Inv written waiting s) (e : LogEntry) :
    ∃ waiting', Inv written waiting' (s.pushEntry e) := by
  rw [AudioLog.pushEntry]
  cases hpush : s.ring.push size e with
  | none =>
    refine ⟨waiting, h.ring, h.accepted, h.file, ?_, h.isOpen, h.atClose⟩
    change s.dropped + 1 = BitVec.ofNat 64 (s.refused + 1)
    rw [h.dropped, BitVec.ofNat_add]
    rfl
  | some ring =>
    refine ⟨waiting ++ [e], h.ring.push hpush, ?_, h.file, h.dropped, h.isOpen, h.atClose⟩
    change s.accepted ++ [e] = _
    rw [h.accepted, List.append_assoc]

/-- The ring of an open log is emptied into the file. -/
theorem Inv.drainLocked (h : Inv written waiting s) (hopen : s.atClose = none) :
    Inv (written ++ waiting) [] s.drainLocked := by
  obtain ⟨hentries, hempty⟩ := h.ring.drain h.ring.length_lt.le
  refine ⟨hempty, ?_, ?_, h.dropped, h.isOpen, fun c hc => ?_⟩
  · exact h.accepted.trans (List.append_nil _).symm
  · have hclosing : s.closing = [] := by rw [closing, hopen]; rfl
    change s.file ++ (s.ring.drain size size).1.flatMap line = _ ++ s.closing
    rw [h.file, hentries, hclosing, List.flatMap_append, List.append_nil, List.append_nil,
      List.append_assoc]
  · change c ∈ s.atClose at hc
    rw [hopen] at hc
    cases hc

/-- While the flush thread runs, the log is open. -/
theorem Inv.atClose_eq_none (h : Inv written waiting s) (hrunning : s.flusher ≠ .done) :
    s.atClose = none :=
  Option.eq_none_iff_forall_not_mem.mpr fun c hc => hrunning (h.atClose c hc).2

/-- The ring is emptied a last time, and the count comes behind the events. -/
theorem Inv.close (h : Inv written waiting s) (hisOpen : s.isOpen = true)
    (hdone : s.flusher = .done) :
    Inv (written ++ waiting) []
      { s.drainLocked with
        file := s.drainLocked.file ++ droppedLine s.dropped
        isOpen := false
        atClose := some (s.accepted, s.refused) } := by
  have hopen : s.atClose = none := by
    rw [h.isOpen] at hisOpen
    exact Option.isNone_iff_eq_none.mp hisOpen
  have hdrained := h.drainLocked hopen
  have hclosing : s.drainLocked.closing = [] := by
    change s.atClose.elim [] _ = []
    rw [hopen]
    rfl
  refine ⟨hdrained.ring, hdrained.accepted, ?_, h.dropped, rfl, fun c hc => ?_⟩
  · change s.drainLocked.file ++ droppedLine s.dropped = _ ++ droppedLine _
    rw [hdrained.file, hclosing, List.append_nil, h.dropped]
  · obtain rfl := Option.mem_some_iff.mp hc
    exact ⟨h.accepted.symm, hdone⟩

theorem Inv.step (h : Inv written waiting s) (a : LogAct) :
    ∃ written' waiting', Inv written' waiting' (s.step a) := by
  -- only an insertion, a drain and the close touch the ring or the file
  cases a with
  | record e =>
    rw [AudioLog.step]
    split_ifs
    · exact ⟨_, _, h.of_eq rfl rfl rfl rfl rfl rfl rfl id⟩
    · exact ⟨_, _, h⟩
  | check i =>
    rw [AudioLog.step]
    split
    · split_ifs
      · exact ⟨_, _, h.of_eq rfl rfl rfl rfl rfl rfl rfl id⟩
      · exact ⟨_, _, h.of_eq rfl rfl rfl rfl rfl rfl rfl id⟩
    · exact ⟨_, _, h⟩
  | insert i =>
    rw [AudioLog.step]
    split
    · next e _ =>
      have hless : Inv written waiting { s with recorders := s.recorders.eraseIdx i } :=
        h.of_eq rfl rfl rfl rfl rfl rfl rfl id
      exact ⟨_, hless.pushEntry e⟩
    · exact ⟨_, _, h⟩
  | flushTest =>
    rw [AudioLog.step]
    split_ifs with htest hstop
    · exact ⟨_, _, h.of_eq rfl rfl rfl rfl rfl rfl rfl fun _ => rfl⟩
    · refine ⟨_, _, h.of_eq rfl rfl rfl rfl rfl rfl rfl fun hdone => ?_⟩
      rw [htest] at hdone
      cases hdone
    · exact ⟨_, _, h⟩
  | flushDrain =>
    rw [AudioLog.step]
    split_ifs with hdrain
    · have hrunning : s.flusher ≠ .done := by
        rw [hdrain]
        exact LogFlusher.noConfusion
      have hdrained := h.drainLocked (h.atClose_eq_none hrunning)
      exact ⟨_, _, hdrained.of_eq rfl rfl rfl rfl rfl rfl rfl fun hdone => absurd hdone hrunning⟩
    · exact ⟨_, _, h⟩
  | stop =>
    rw [AudioLog.step]
    split_ifs
    · exact ⟨_, _, h.of_eq rfl rfl rfl rfl rfl rfl rfl id⟩
    · exact ⟨_, _, h⟩
  | close =>
    rw [AudioLog.step]
    split_ifs with hclose
    · exact ⟨_, _, h.close hclose.1 hclose.2.2⟩
    · exact ⟨_, _, h⟩

/-- A closed log stays closed, and its file as it is. -/
theorem Inv.closed_step (h : Inv written waiting s) {c : List LogEntry × ℕ}
    (hc : s.atClose = some c) (a : LogAct) :
    (s.step a).atClose = some c ∧ (s.step a).file = s.file := by
  have hisOpen : s.isOpen = false := by
    rw [h.isOpen, hc]
    rfl
  have hdone : s.flusher = .done := (h.atClose c hc).2
  cases a with
  | record e =>
    rw [AudioLog.step, hisOpen, if_neg Bool.false_ne_true]
    exact ⟨hc, rfl⟩
  | check i =>
    rw [AudioLog.step, hisOpen]
    split <;> exact ⟨hc, rfl⟩
  | insert i =>
    rw [AudioLog.step]
    split
    · rw [AudioLog.pushEntry]
      split <;> exact ⟨hc, rfl⟩
    · exact ⟨hc, rfl⟩
  | flushTest =>
    rw [AudioLog.step, hdone, if_neg nofun]
    exact ⟨hc, rfl⟩
  | flushDrain =>
    rw [AudioLog.step, hdone, if_neg nofun]
    exact ⟨hc, rfl⟩
  | stop =>
    rw [AudioLog.step, hisOpen, if_neg Bool.false_ne_true]
    exact ⟨hc, rfl⟩
  | close =>
    rw [AudioLog.step, hisOpen, if_neg (fun h => Bool.false_ne_true h.1)]
    exact ⟨hc, rfl⟩

/-- **All events are accounted for.** -/
structure Accounted (s : AudioLog) : Prop where
  /-- The events put in the ring are those of the file, which can be read back from it, and
  then those that wait in the ring, oldest first. An event is refused exactly when all places
  of the ring but one are taken. A closed file has all events put in the ring before. -/
  events : ∃ written waiting, s.accepted = written ++ waiting ∧
    s.file = header ++ written.flatMap line ++ s.closing ∧
    (∀ es, es.flatMap line = written.flatMap line → es = written) ∧
    s.ring.Holds size waiting ∧
    (∀ e, s.ring.push size e = none ↔ waiting.length = size - 1) ∧
    ∀ c ∈ s.atClose, written = c.1
  dropped : s.dropped = BitVec.ofNat 64 s.refused
  isOpen : s.isOpen = s.atClose.isNone
  closed : ∀ c ∈ s.atClose, ∀ as, (ActionRun.exec step s as).file = s.file

theorem Inv.keepsAccount (h : Inv written waiting s) : Accounted s where
  events := ⟨written, waiting, h.accepted, h.file, fun _ => flatMap_line_inj, h.ring,
    h.ring.push_eq_none_iff, fun c hc => (h.atClose c hc).1⟩
  dropped := h.dropped
  isOpen := h.isOpen
  closed c hc as := by
    refine (ActionRun.exec_preserves (I := fun t => (∃ written waiting, Inv written waiting t) ∧
      t.atClose = some c ∧ t.file = s.file) ?_ ⟨⟨_, _, h⟩, hc, rfl⟩ as).2.2
    rintro t a ⟨⟨written', waiting', ht⟩, htc, hfile⟩
    obtain ⟨hclose, hstep⟩ := ht.closed_step htc a
    exact ⟨ht.step a, hclose, hstep.trans hfile⟩

/-- **Every event is accounted for**, after any steps of the recorders, of the flush thread
and of `close`, in any order. -/
theorem accounted (slots : ℕ → LogEntry) (as : List LogAct) :
    (ActionRun.exec step (opened slots) as).Accounted := by
  obtain ⟨written, waiting, h⟩ := ActionRun.exec_preserves
    (I := fun s => ∃ written waiting, Inv written waiting s)
    (fun _ a ⟨_, _, h⟩ => h.step a) ⟨[], [], inv_opened slots⟩ as
  exact h.keepsAccount

end AudioLog
