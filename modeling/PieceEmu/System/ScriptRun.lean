import PieceEmu.System.HeadlessScript

/-!
# Scripts are executed in order

The cursor of the frame loop moves only when the frame of the command it stands at is the
one just drawn. So all is well as long as the commands are in the order of their frames, and
a single one that is not blocks everything behind it. Two facts, then:

* **A sorted script is executed exactly**, each command once and at its frame
  (`ScriptRun.Cursor`): what is behind the cursor is due, what is in front of it is not.
* **The parser lets an unsorted script pass** only where a wait has wrapped. It compares a
  frame number with a position that waits advance modulo `2 ^ 64`, so a wait that reaches
  the end of the 64 bits leads to a small position, and a frame number below the previous
  one is accepted behind it (`HeadlessScript.Forward`).

`ScriptRun.script_exact_iff` puts them together.
-/

open CText

namespace HeadlessScript

/-- The commands are in the order of their frames. -/
def InOrder (cmds : List ScriptCmd) : Prop := cmds.Pairwise fun c c' => c.frame ≤ c'.frame

/-! ### The position -/

/-- What a line does to the position. -/
inductive ScriptItem
  | wait (delta : U64)
  | frame (fr : U64)

/-- The position item of a line that has one. -/
def itemOf (line : List U8) : Option ScriptItem :=
  match splitWs (strip line) with
  | tk0 :: n :: _ =>
    match parseU64 n with
    | .ok v =>
      if tk0 = str "wait" then some (.wait v)
      else if tk0 = str "frame" then some (.frame v)
      else none
    | .error _ => none
  | _ => none

/-- **No wait leads back**, from a frame number on and what has been waited since: where a
wait reaches `2 ^ 64`, the next frame is not below the last all the same. -/
def Forward : Option U64 → ℕ → List ScriptItem → Prop
  | _, _, [] => True
  | last, waited, .wait delta :: items => Forward last (waited + delta.toNat) items
  | last, waited, .frame fr :: items =>
    (∀ f ∈ last, f.toNat + waited < 2 ^ 64 ∨ f ≤ fr) ∧ Forward (some fr) 0 items

/-- The items of a script. -/
def items (text : List U8) : List ScriptItem := (getLines text).filterMap itemOf

instance decidableForward : (last : Option U64) → (waited : ℕ) → (items : List ScriptItem) →
    Decidable (Forward last waited items)
  | _, _, [] => .isTrue trivial
  | last, waited, .wait delta :: items => decidableForward last (waited + delta.toNat) items
  | last, waited, .frame fr :: items =>
    have := decidableForward (some fr) 0 items
    inferInstanceAs (Decidable ((∀ f ∈ last, f.toNat + waited < 2 ^ 64 ∨ f ≤ fr) ∧ _))

/-- The frame of the last command. -/
def ParseState.last (st : ParseState) : Option U64 := st.cmds.getLast?.map ScriptCmd.frame

/-- The position is that of the last frame and the waits since, modulo `2 ^ 64`. -/
structure ParseState.At (st : ParseState) (waited : ℕ) : Prop where
  position : st.lastFrame = st.last.getD 0 + BitVec.ofNat 64 waited
  havePrev : st.last.isSome = true → st.havePrev = true

/-- **What a line does**: nothing, or it moves the position, or it adds a command whose
frame is not below the position. -/
inductive LineEffect (st st' : ParseState) : Option ScriptItem → Prop
  | blank (cmds : st'.cmds = st.cmds) (lastFrame : st'.lastFrame = st.lastFrame)
      (havePrev : st'.havePrev = st.havePrev) : LineEffect st st' none
  | wait (delta : U64) (cmds : st'.cmds = st.cmds)
      (lastFrame : st'.lastFrame = st.lastFrame + delta)
      (havePrev : st'.havePrev = true) : LineEffect st st' (some (.wait delta))
  | frame (c : ScriptCmd) (accepted : st.havePrev = true → st.lastFrame ≤ c.frame)
      (cmds : st'.cmds = st.cmds ++ [c]) (lastFrame : st'.lastFrame = c.frame)
      (havePrev : st'.havePrev = true) : LineEffect st st' (some (.frame c.frame))

/-- A line that begins with `wait`. -/
theorem parseLine_wait {path line : List U8} {tk : List (List U8)} {st st' : ParseState}
    (htk : splitWs (strip line) = str "wait" :: tk)
    (h : parseLine path st line = .ok st') : LineEffect st st' (itemOf line) := by
  unfold parseLine at h
  unfold itemOf
  rw [htk] at h ⊢
  dsimp only at h ⊢
  rw [if_pos rfl] at h
  match tk with
  | [] | [_] | _ :: _ :: _ :: _ => cases h
  | [n, frames] =>
    dsimp only at h
    split_ifs at h
    cases hn : parseU64 n with
    | error e =>
      rw [hn] at h
      cases h
    | ok delta =>
      rw [hn] at h
      obtain rfl := Except.ok.inj h
      dsimp only
      rw [hn]
      exact .wait delta rfl rfl rfl

/-- A line that begins with `frame`. -/
theorem parseLine_frame {path line : List U8} {tk : List (List U8)} {st st' : ParseState}
    (htk : splitWs (strip line) = str "frame" :: tk)
    (h : parseLine path st line = .ok st') : LineEffect st st' (itemOf line) := by
  have hwait : str "frame" ≠ str "wait" := by decide
  unfold parseLine at h
  unfold itemOf
  rw [htk] at h ⊢
  dsimp only at h ⊢
  rw [if_neg hwait, if_neg (not_not.mpr rfl)] at h
  match tk with
  | [] | [_] => cases h
  | n :: verb :: args =>
    dsimp only at h
    cases hn : parseU64 n with
    | error e =>
      rw [hn] at h
      cases h
    | ok fr =>
      rw [hn] at h
      dsimp only at h ⊢
      rw [hn]
      dsimp only
      rw [if_neg hwait, if_pos rfl]
      split_ifs at h with horder
      cases hverb : parseVerb verb args with
      | error why =>
        rw [hverb] at h
        cases h
      | ok v =>
        rw [hverb] at h
        obtain rfl := Except.ok.inj h
        refine .frame ⟨fr, v.1, v.2⟩ (fun hprev => ?_) rfl rfl rfl
        exact BitVec.not_lt.mp fun hlt => horder ⟨hprev, hlt⟩

/-- **The inversion lemma of a line.** -/
theorem parseLine_effect {path line : List U8} {st st' : ParseState}
    (h : parseLine path st line = .ok st') : LineEffect st st' (itemOf line) := by
  cases htk : splitWs (strip line) with
  | nil =>
    unfold parseLine at h
    unfold itemOf
    rw [htk] at h ⊢
    obtain rfl := Except.ok.inj h
    exact .blank rfl rfl rfl
  | cons tk0 tk =>
    by_cases hwait : tk0 = str "wait"
    · exact parseLine_wait (hwait ▸ htk) h
    by_cases hframe : tk0 = str "frame"
    · exact parseLine_frame (hframe ▸ htk) h
    · -- every other word is rejected
      unfold parseLine at h
      rw [htk] at h
      dsimp only at h
      rw [if_neg hwait, if_pos hframe] at h
      cases h

/-! ### The position after a line -/

section Position

variable {st st' : ParseState} {waited : ℕ}

theorem ParseState.last_congr (hcmds : st'.cmds = st.cmds) : st'.last = st.last :=
  congrArg (fun cmds => cmds.getLast?.map ScriptCmd.frame) hcmds

theorem ParseState.last_append {c : ScriptCmd} (hcmds : st'.cmds = st.cmds ++ [c]) :
    st'.last = some c.frame := by
  rw [last, hcmds, List.getLast?_concat]
  rfl

theorem ParseState.At.blank (h : st.At waited) (hcmds : st'.cmds = st.cmds)
    (hframe : st'.lastFrame = st.lastFrame) (hprev : st'.havePrev = st.havePrev) :
    st'.At waited where
  position := by rw [hframe, last_congr hcmds, h.position]
  havePrev := by
    rw [last_congr hcmds, hprev]
    exact h.havePrev

theorem ParseState.At.wait (h : st.At waited) {delta : U64} (hcmds : st'.cmds = st.cmds)
    (hframe : st'.lastFrame = st.lastFrame + delta) (hprev : st'.havePrev = true) :
    st'.At (waited + delta.toNat) where
  position := by
    rw [hframe, last_congr hcmds, h.position, BitVec.add_assoc, BitVec.ofNat_add,
      BitVec.ofNat_toNat, BitVec.setWidth_eq]
  havePrev _ := hprev

theorem ParseState.at_frame {c : ScriptCmd} (hcmds : st'.cmds = st.cmds ++ [c])
    (hframe : st'.lastFrame = c.frame) (hprev : st'.havePrev = true) : st'.At 0 where
  position := by
    rw [hframe, last_append hcmds]
    exact (BitVec.add_zero _).symm
  havePrev _ := hprev

/-- **What the test of the parser ensures**: a frame that is not below the position is below
the last one only if the position has wrapped. -/
theorem ParseState.At.le_iff (h : st.At waited) {fr : U64}
    (haccepted : st.havePrev = true → st.lastFrame ≤ fr) :
    (∀ f ∈ st.last, f ≤ fr) ↔ ∀ f ∈ st.last, f.toNat + waited < 2 ^ 64 ∨ f ≤ fr := by
  refine forall₂_congr fun f hf => ⟨.inr, fun hor => hor.elim (fun hlt => ?_) id⟩
  have hpos := haccepted (h.havePrev (Option.isSome_of_mem hf))
  rw [h.position, show st.last = some f from hf, Option.getD_some, BitVec.le_def,
    BitVec.toNat_add, BitVec.toNat_ofNat] at hpos
  rw [BitVec.le_def]
  omega

end Position

/-! ### The order of the commands -/

theorem inOrder_append {cmds : List ScriptCmd} {c : ScriptCmd} :
    InOrder (cmds ++ [c]) ↔
      InOrder cmds ∧ ∀ f ∈ cmds.getLast?.map ScriptCmd.frame, f ≤ c.frame := by
  rw [InOrder, List.pairwise_append]
  constructor
  · rintro ⟨hcmds, -, hc⟩
    refine ⟨hcmds, fun f hf => ?_⟩
    obtain ⟨last, hlast, rfl⟩ := Option.map_eq_some_iff.mp hf
    exact hc last (List.mem_of_getLast? hlast) c List.mem_cons_self
  · rintro ⟨hcmds, hlast⟩
    refine ⟨hcmds, List.pairwise_singleton _ _, fun c' hc' d hd => ?_⟩
    obtain rfl := List.mem_singleton.mp hd
    -- the last command is not below any other
    obtain ⟨front, last, rfl⟩ := (List.eq_nil_or_concat' cmds).resolve_left (List.ne_nil_of_mem hc')
    rw [List.getLast?_concat] at hlast
    have hle : last.frame ≤ d.frame := hlast last.frame rfl
    rcases List.mem_append.mp hc' with hfront | hlast'
    · exact BitVec.le_trans
        ((List.pairwise_append.mp hcmds).2.2 c' hfront last List.mem_cons_self) hle
    · rwa [List.mem_singleton.mp hlast']

/-- **The parser lets a script out of order pass only where a wait leads back**, by
induction on the lines. -/
theorem inOrder_iff_forward {path : List U8} {lines : List (List U8)} {st st' : ParseState}
    {waited : ℕ} (hat : st.At waited) (h : lines.foldlM (parseLine path) st = .ok st') :
    InOrder st'.cmds ↔ InOrder st.cmds ∧ Forward st.last waited (lines.filterMap itemOf) := by
  induction lines generalizing st waited with
  | nil =>
    obtain rfl := Except.ok.inj h
    exact (and_iff_left trivial).symm
  | cons line lines ih =>
    rw [List.foldlM_cons] at h
    cases hline : parseLine path st line with
    | error e =>
      rw [hline] at h
      cases h
    | ok st₁ =>
      rw [hline] at h
      have heffect := parseLine_effect hline
      rw [List.filterMap_cons]
      cases hitem : itemOf line with
      | none =>
        rw [hitem] at heffect
        obtain ⟨hcmds, hframe, hprev⟩ := heffect
        rw [ih (hat.blank hcmds hframe hprev) h, hcmds, ParseState.last_congr hcmds]
      | some item =>
        rw [hitem] at heffect
        cases heffect with
        | wait delta hcmds hframe hprev =>
          rw [ih (hat.wait hcmds hframe hprev) h, hcmds, ParseState.last_congr hcmds]
          exact Iff.rfl
        | frame c haccepted hcmds hframe hprev =>
          rw [ih (ParseState.at_frame hcmds hframe hprev) h, hcmds, ParseState.last_append hcmds,
            inOrder_append, and_assoc]
          exact and_congr_right fun _ => and_congr_left fun _ => hat.le_iff haccepted

end HeadlessScript

namespace ScriptRun

open HeadlessScript

/-! ### The cursor -/

/-- **The commands whose frames have been drawn have been executed**, each once, at its
frame and in the order of the script, and no other has. -/
def ExecutedRight (script : List ScriptCmd) (r : ScriptRun) : Prop :=
  r.executed =
    (script.zipIdx.filter fun c => c.1.frame < r.frameNo).map fun c => (c.1.frame, c.2)

/-- **The cursor cuts the script in two**: what is due has been executed. -/
structure Cursor (script : List ScriptCmd) (r : ScriptRun) (due rest : List ScriptCmd) :
    Prop where
  cut : script = due ++ rest
  idx : r.scriptIdx = due.length
  past : ∀ c ∈ due, c.frame < r.frameNo
  ahead : ∀ c ∈ rest, r.frameNo ≤ c.frame
  executed : r.executed = due.zipIdx.map fun c => (c.1.frame, c.2)

theorem Cursor.executedRight {script due rest : List ScriptCmd} {r : ScriptRun}
    (h : Cursor script r due rest) : ExecutedRight script r := by
  have hdue : due.zipIdx.filter (fun c => c.1.frame < r.frameNo) = due.zipIdx :=
    List.filter_eq_self.mpr fun c hc =>
      decide_eq_true (h.past c.1 (List.fst_mem_of_mem_zipIdx hc))
  have hrest (k : ℕ) : (rest.zipIdx k).filter (fun c => c.1.frame < r.frameNo) = [] :=
    List.filter_eq_nil_iff.mpr fun c hc hlt =>
      BitVec.not_lt.mpr (h.ahead c.1 (List.fst_mem_of_mem_zipIdx hc)) (of_decide_eq_true hlt)
  rw [ExecutedRight, h.executed, h.cut, List.zipIdx_append, List.filter_append, hdue, hrest,
    List.append_nil]

/-- A command moves the cursor on by one and is noted, whatever else it does. -/
theorem execCmd_spec (ready : FrameReady) (c : ScriptCmd) (s : ScriptRun × FrameColumns) :
    (execCmd ready c s).1.frameNo = s.1.frameNo ∧
      (execCmd ready c s).1.scriptIdx = s.1.scriptIdx + 1 ∧
      (execCmd ready c s).1.executed = s.1.executed ++ [(s.1.frameNo, s.1.scriptIdx)] := by
  unfold execCmd
  cases c.kind <;> exact ⟨rfl, rfl, rfl⟩

/-- The loop executes the commands of the frame, up to the first of another one. -/
theorem applyCmds_spec (ready : FrameReady) {now later : List ScriptCmd}
    (s : ScriptRun × FrameColumns) (hnow : ∀ c ∈ now, c.frame = s.1.frameNo)
    (hlater : ∀ c ∈ later.head?, c.frame ≠ s.1.frameNo) :
    (applyCmds ready (now ++ later) s).1.frameNo = s.1.frameNo ∧
      (applyCmds ready (now ++ later) s).1.scriptIdx = s.1.scriptIdx + now.length ∧
      (applyCmds ready (now ++ later) s).1.executed =
        s.1.executed ++ (now.zipIdx s.1.scriptIdx).map fun c => (c.1.frame, c.2) := by
  induction now generalizing s with
  | nil =>
    have hstop : applyCmds ready later s = s := by
      cases later with
      | nil => rfl
      | cons c later => exact if_neg (hlater c rfl)
    rw [List.nil_append, hstop]
    exact ⟨rfl, rfl, (List.append_nil _).symm⟩
  | cons c now ih =>
    have hc : c.frame = s.1.frameNo := hnow c List.mem_cons_self
    obtain ⟨hframe, hidx, hexec⟩ := execCmd_spec ready c s
    obtain ⟨hframe', hidx', hexec'⟩ := ih (execCmd ready c s)
      (fun d hd => (hnow d (List.mem_cons_of_mem c hd)).trans hframe.symm)
      (fun d hd => by rw [hframe]; exact hlater d hd)
    rw [List.cons_append, applyCmds, if_pos hc, hframe', hidx', hexec', hframe, hidx, hexec]
    refine ⟨rfl, ?_, ?_⟩
    · rw [List.length_cons, Nat.add_assoc, Nat.add_comm 1]
    · rw [List.append_assoc, List.zipIdx_cons, List.map_cons, hc]
      rfl

/-- The commands of one frame, at the front of a script in order. -/
theorem exists_now {rest : List ScriptCmd} {frameNo : U64} (horder : InOrder rest)
    (hrest : ∀ c ∈ rest, frameNo ≤ c.frame) : ∃ now later, rest = now ++ later ∧
      (∀ c ∈ now, c.frame = frameNo) ∧ ∀ c ∈ later, frameNo < c.frame := by
  induction rest with
  | nil => exact ⟨[], [], rfl, nofun, nofun⟩
  | cons c rest ih =>
    obtain ⟨hc, hrest'⟩ := List.forall_mem_cons.mp hrest
    obtain ⟨hle, horder'⟩ := List.pairwise_cons.mp horder
    by_cases heq : c.frame = frameNo
    · obtain ⟨now, later, rfl, hnow, hlater⟩ := ih horder' hrest'
      exact ⟨c :: now, later, rfl, List.forall_mem_cons.mpr ⟨heq, hnow⟩, hlater⟩
    · -- nothing behind it is of this frame either
      have hlt : frameNo < c.frame :=
        Nat.lt_of_le_of_ne hc fun h => heq (BitVec.eq_of_toNat_eq h.symm)
      refine ⟨[], c :: rest, rfl, nofun, List.forall_mem_cons.mpr ⟨hlt, fun d hd => ?_⟩⟩
      exact Nat.lt_of_lt_of_le hlt (hle d hd)

/-- **One more frame keeps the cut.** -/
theorem Cursor.draw {script due rest : List ScriptCmd} {r : ScriptRun} {maxFrames : U64}
    (h : Cursor script r due rest) (horder : InOrder script) (hlt : r.frameNo < maxFrames)
    (hashEvery : U64) (ready : FrameReady) :
    ∃ due' rest', Cursor script (drawFrame script hashEvery r ready) due' rest' := by
  obtain ⟨hcut, hidx, hpast, hahead, hexec⟩ := h
  have horder' : InOrder rest := (List.pairwise_append.mp (hcut ▸ horder)).2.1
  obtain ⟨now, later, rfl, hnow, hlater⟩ := exists_now horder' hahead
  have hdrop : script.drop r.scriptIdx = now ++ later := by rw [hcut, hidx, List.drop_left]
  have hstop : ∀ c ∈ later.head?, c.frame ≠ r.frameNo := fun c hc heq =>
    BitVec.lt_irrefl r.frameNo (by
      have := hlater c (List.mem_of_head? hc)
      rwa [heq] at this)
  obtain ⟨hframe, hidx', hexec'⟩ := applyCmds_spec ready (r, {}) hnow hstop
  -- the frame number does not wrap
  have hnext : (r.frameNo + 1).toNat = r.frameNo.toNat + 1 := by bv_omega
  refine ⟨due ++ now, later, ?_, ?_, ?_, ?_, ?_⟩
  · rw [hcut, List.append_assoc]
  · change (applyCmds ready (script.drop r.scriptIdx) (r, {})).1.scriptIdx = _
    rw [hdrop, hidx', hidx, List.length_append]
  · intro c hc
    change c.frame < (applyCmds ready (script.drop r.scriptIdx) (r, {})).1.frameNo + 1
    rw [hdrop, hframe, BitVec.lt_def, hnext]
    rcases List.mem_append.mp hc with hc | hc
    · exact Nat.lt_succ_of_lt (hpast c hc)
    · exact Nat.lt_succ_of_le (congrArg BitVec.toNat (hnow c hc)).le
  · intro c hc
    change (applyCmds ready (script.drop r.scriptIdx) (r, {})).1.frameNo + 1 ≤ c.frame
    rw [hdrop, hframe, BitVec.le_def, hnext]
    exact hlater c hc
  · change (applyCmds ready (script.drop r.scriptIdx) (r, {})).1.executed = _
    rw [hdrop, hexec', hexec, hidx, List.zipIdx_append, List.map_append, Nat.zero_add]

/-- **Every run of a script in order** keeps the cut. -/
theorem cursor_exec {script : List ScriptCmd} (horder : InOrder script)
    (maxFrames hashEvery : U64) (frames : List FrameReady) :
    ∃ due rest, Cursor script (ActionRun.exec (round script maxFrames hashEvery) {} frames)
      due rest := by
  refine ActionRun.exec_preserves (I := fun r => ∃ due rest, Cursor script r due rest)
    (fun r ready ⟨due, rest, h⟩ => ?_) ⟨[], script, rfl, rfl, nofun, fun c _ => ?_, rfl⟩ frames
  · rw [round]
    by_cases hgo : (!r.scriptQuit && r.frameNo < maxFrames) = true
    · rw [if_pos hgo]
      exact h.draw horder (of_decide_eq_true (Bool.and_eq_true_iff.mp hgo).2) hashEvery ready
    · rw [if_neg hgo]
      exact ⟨due, rest, h⟩
  · exact Nat.zero_le _

/-! ### Scripts -/

/-- **Each command fires exactly once, in order**: the commands are in the order of their
frames, and however many frames become ready, those whose frames have been drawn have been
executed. -/
structure Exact (script : List ScriptCmd) : Prop where
  inOrder : InOrder script
  executed : ∀ maxFrames hashEvery frames,
    ExecutedRight script (ActionRun.exec (round script maxFrames hashEvery) {} frames)

/-- **A script that is accepted fires exactly** if and only if no wait leads back: where a
wait reaches `2 ^ 64`, the next frame line must not be below the one before. -/
theorem script_exact_iff {path text : List U8} {script : List ScriptCmd}
    (h : parseScript path (some text) = .ok script) :
    Exact script ↔ Forward none 0 (items text) := by
  have hiff : InOrder script ↔ Forward none 0 (items text) := by
    rw [parseScript] at h
    cases hfold : (getLines text).foldlM (parseLine path) {} with
    | error e =>
      rw [hfold] at h
      cases h
    | ok st =>
      rw [hfold] at h
      obtain rfl := Except.ok.inj h
      have hstart : ({} : ParseState).At 0 := ⟨rfl, fun hlast => Bool.noConfusion hlast⟩
      exact (inOrder_iff_forward hstart hfold).trans (and_iff_right List.Pairwise.nil)
  rw [← hiff]
  refine ⟨Exact.inOrder, fun horder => ⟨horder, fun maxFrames hashEvery frames => ?_⟩⟩
  obtain ⟨due, rest, hcursor⟩ := cursor_exec horder maxFrames hashEvery frames
  exact hcursor.executedRight

/-- A script with a wait. -/
def patient : List U8 := str "frame 0 press A
wait 2 frames
frame 3 hash # done
"

theorem script_exact_patient :
    Exact [⟨0, .press, str "A"⟩, ⟨3, .hash, []⟩] ↔ Forward none 0 (items patient) :=
  script_exact_iff (show parseScript [] (some patient) =
    .ok [⟨0, .press, str "A"⟩, ⟨3, .hash, []⟩] by decide +kernel)

/-- A script whose wait wraps: the position behind it is 4. -/
def wrapping : List U8 := str "frame 5 hash
wait 18446744073709551615 frames
frame 4 hash
"

/-- **A command that never fires**: the script is accepted with its commands out of order,
and when seven frames have been drawn the second has not been executed. -/
theorem wrapping_not_exact : ∃ script, parseScript (str "s") (some wrapping) = .ok script ∧
    ¬Exact script ∧
    (ActionRun.exec (round script 100 1) {} (List.replicate 7 ⟨0, 0, id⟩)).frameNo = 7 ∧
    (ActionRun.exec (round script 100 1) {} (List.replicate 7 ⟨0, 0, id⟩)).executed = [(5, 0)] := by
  refine ⟨[⟨5, .hash, []⟩, ⟨4, .hash, []⟩], by decide +kernel, fun h => ?_, by decide +kernel,
    by decide +kernel⟩
  have hle := (List.pairwise_cons.mp h.inOrder).1 ⟨4, .hash, []⟩ List.mem_cons_self
  exact absurd hle (by decide)

end ScriptRun
