import PieceEmu.Lib.CText
import PieceEmu.Lib.Run
import Mathlib.Data.List.DropRight

/-!
# Scripts of the headless frontend

A script is a text with one command in a line: `frame N` with a verb says what to do when
frame `N` has been drawn, and `wait K frames` moves the position on from which the next
frame number is checked. `parse_script` turns the text into a list of commands or throws
with the number of the line, and the frame loop walks the list with a cursor, executing
what stands at it as long as its frame is the one that has just been drawn.

What the loop needs of the emulator is one input for each frame that becomes ready
(`FrameReady`); that no further frame becomes ready is the end of the run.
-/

open CText

/-! ### The buttons -/

/-- `ButtonState`: released inputs are set. -/
structure ButtonState where
  k5 : U8 := 0xFF
  k6 : U8 := 0xFF
  deriving DecidableEq

namespace ButtonState

/-- `toupper`. -/
def upper (c : U8) : U8 := if ch 'a' ≤ c ∧ c ≤ ch 'z' then c - 0x20 else c

/-- `ieq`. -/
def ieq (a : List U8) (b : String) : Bool := a.map upper = (str b).map upper

/-- `press`. -/
def press (reg : U8) (bit : ℕ) (isDown : Bool) : U8 :=
  if isDown then reg &&& ~~~((1 : U8) <<< bit) else reg ||| (1 : U8) <<< bit

/-- `apply_named_button`, where the name is one of a button. -/
def applyNamed (name : List U8) (isDown : Bool) (btn : ButtonState) : Option ButtonState :=
  if ieq name "RIGHT" then some { btn with k6 := press btn.k6 0 isDown }
  else if ieq name "LEFT" then some { btn with k6 := press btn.k6 1 isDown }
  else if ieq name "DOWN" then some { btn with k6 := press btn.k6 2 isDown }
  else if ieq name "UP" then some { btn with k6 := press btn.k6 3 isDown }
  else if ieq name "B" then some { btn with k6 := press btn.k6 4 isDown }
  else if ieq name "A" then some { btn with k6 := press btn.k6 5 isDown }
  else if ieq name "START" then some { btn with k5 := press btn.k5 4 isDown }
  else if ieq name "SELECT" then some { btn with k5 := press btn.k5 3 isDown }
  else none

end ButtonState

/-! ### The parser -/

/-- `CmdKind`. -/
inductive CmdKind
  | press | release | snapshot | hash | quit
  deriving DecidableEq, Repr

/-- `ScriptCmd`. -/
structure ScriptCmd where
  frame : U64
  kind : CmdKind
  arg : List U8 := []
  deriving DecidableEq

namespace HeadlessScript

/-- `strip`: without the comment and the blanks around. -/
def strip (s : List U8) : List U8 :=
  ((s.takeWhile (· ≠ ch '#')).dropWhile isSpace).rdropWhile isSpace

/-- `split_ws`. -/
def splitWs (s : List U8) : List (List U8) := (s.splitOnP isSpace).filter (· ≠ [])

/-- `strtoull` in base 0, before the range check: `0x` before a digit is hexadecimal, any
other `0` octal. -/
def strtoull0 (s : List U8) : Option CText.Num :=
  let (neg, s) := splitSign (s.dropWhile isSpace)
  let (base, s) :=
    if hasHexPrefix s && (s[2]?).any isHex then (16, s.drop 2)
    else if s.head? = some (ch '0') then (8, s)
    else (10, s)
  let ds := s.takeWhile fun c => (hexVal c).any (· < base)
  if ds = [] then none else some ⟨neg, ds.foldl (fun n c => base * n + (hexVal c).getD 0) 0⟩

/-- `parse_u64`: `std::stoull`, which takes a sign. -/
def parseU64 (tok : List U8) : Except TextError U64 :=
  match strtoull0 tok with
  | none => .error .invalidArgument
  | some n => if n.magnitude < 2 ^ 64 then .ok (n.toWord 64) else .error .outOfRange

/-- The verb of a `frame` line, with what follows it. -/
def parseVerb (verb : List U8) (args : List (List U8)) : Except (List U8) (CmdKind × List U8) :=
  if verb = str "press" ∨ verb = str "release" then
    match args with
    | [button] =>
      if (ButtonState.applyNamed button false {}).isNone then
        .error (str "unknown button: " ++ button)
      else .ok (if verb = str "press" then .press else .release, button)
    | _ => .error (str "'" ++ verb ++ str "' needs <BUTTON>")
  else if verb = str "snapshot" then
    match args with
    | [filename] => .ok (.snapshot, filename)
    | _ => .error (str "'snapshot' needs <filename>")
  else if verb = str "hash" then
    if args = [] then .ok (.hash, []) else .error (str "'hash' takes no argument")
  else if verb = str "quit" then
    if args = [] then .ok (.quit, []) else .error (str "'quit' takes no argument")
  else .error (str "unknown verb: " ++ verb)

/-- The local variables of `parse_script`. -/
structure ParseState where
  cmds : List ScriptCmd := []
  lastFrame : U64 := 0
  havePrev : Bool := false
  lineno : ℕ := 0

/-- The text of the exception `fail` throws. -/
def failText (path : List U8) (lineno : ℕ) (why : List U8) : List U8 :=
  path ++ str ":" ++ str (toString lineno) ++ str ": " ++ why

/-- One line. -/
def parseLine (path : List U8) (st : ParseState) (line : List U8) : Except (List U8) ParseState :=
  let st := { st with lineno := st.lineno + 1 }
  let fail (why : List U8) := Except.error (failText path st.lineno why)
  match splitWs (strip line) with
  | [] => .ok st
  | tk0 :: tk =>
    if tk0 = str "wait" then
      match tk with
      | [n, frames] =>
        if frames ≠ str "frames" then fail (str "expected 'wait <N> frames'")
        else
          match parseU64 n with
          | .error _ => fail (str "invalid wait count")
          | .ok delta => .ok { st with lastFrame := st.lastFrame + delta, havePrev := true }
      | _ => fail (str "expected 'wait <N> frames'")
    else if tk0 ≠ str "frame" then fail (str "unknown command: " ++ tk0)
    else
      match tk with
      | n :: verb :: args =>
        match parseU64 n with
        | .error _ => fail (str "invalid frame number")
        | .ok fr =>
          if st.havePrev ∧ fr < st.lastFrame then fail (str "frames must be non-decreasing")
          else
            match parseVerb verb args with
            | .error why => fail why
            | .ok (kind, arg) =>
              .ok { st with
                cmds := st.cmds ++ [⟨fr, kind, arg⟩], lastFrame := fr, havePrev := true }
      | _ => fail (str "'frame' needs <N> <verb> [arg]")

/-- The lines `std::getline` reads: nothing follows a newline at the end. -/
def getLines (text : List U8) : List (List U8) :=
  let lines := text.splitOn (ch '\n')
  if lines.getLast? = some [] then lines.dropLast else lines

/-- `parse_script`, of a file, if it can be opened. -/
def parseScript (path : List U8) (file : Option (List U8)) : Except (List U8) (List ScriptCmd) :=
  match file with
  | none => .error (str "cannot open script: " ++ path)
  | some text => ((getLines text).foldlM (parseLine path) {}).map ParseState.cmds

end HeadlessScript

/-! ### The frame loop -/

/-- What the emulator has when a frame is ready. -/
structure FrameReady where
  totalCycles : U64
  /-- `fnv1a64` of the pixels. -/
  hash : U64
  /-- `write_png_to_path`, in the directory of the snapshots: the path written, or nothing. -/
  writePng : List U8 → List U8

/-- A line of the output, where a column may be empty. -/
structure HashLine where
  frame : U64
  cycles : U64
  hash : U64
  press : List U8
  release : List U8
  snapshot : List U8

/-- The local variables of the frame loop. -/
structure ScriptRun where
  scriptIdx : ℕ := 0
  frameNo : U64 := 0
  scriptQuit : Bool := false
  btn : ButtonState := {}
  /-- What has been printed. -/
  output : List HashLine := []
  /-- The commands that have been executed, by their indices, and the frames at which they
  were. -/
  executed : List (U64 × ℕ) := []

/-- The local variables of one frame. -/
structure FrameColumns where
  pressCol : List U8 := []
  releaseCol : List U8 := []
  snapshotCol : List U8 := []
  forceHash : Bool := false

namespace ScriptRun

/-- `append`. -/
def append (dst tok : List U8) : List U8 := if dst = [] then tok else dst ++ str "," ++ tok

/-- One command of the script. -/
def execCmd (ready : FrameReady) (c : ScriptCmd) (s : ScriptRun × FrameColumns) :
    ScriptRun × FrameColumns :=
  let r := { s.1 with
    scriptIdx := s.1.scriptIdx + 1
    executed := s.1.executed ++ [(s.1.frameNo, s.1.scriptIdx)] }
  match c.kind with
  | .press =>
    ({ r with btn := (ButtonState.applyNamed c.arg true r.btn).getD r.btn },
      { s.2 with pressCol := append s.2.pressCol c.arg })
  | .release =>
    ({ r with btn := (ButtonState.applyNamed c.arg false r.btn).getD r.btn },
      { s.2 with releaseCol := append s.2.releaseCol c.arg })
  | .snapshot =>
    let saved := ready.writePng c.arg
    (r, { s.2 with snapshotCol := append s.2.snapshotCol (if saved = [] then c.arg else saved) })
  | .hash => (r, { s.2 with forceHash := true })
  | .quit => ({ r with scriptQuit := true }, s.2)

/-- The loop over the commands from the cursor on, up to the first of another frame. -/
def applyCmds (ready : FrameReady) :
    List ScriptCmd → ScriptRun × FrameColumns → ScriptRun × FrameColumns
  | [], s => s
  | c :: cs, s => if c.frame = s.1.frameNo then applyCmds ready cs (execCmd ready c s) else s

/-- A frame that has become ready: its commands, and its line of the output. -/
def drawFrame (script : List ScriptCmd) (hashEvery : U64) (r : ScriptRun) (ready : FrameReady) :
    ScriptRun :=
  let (r, cols) := applyCmds ready (script.drop r.scriptIdx) (r, {})
  let emit := cols.forceHash || hashEvery ≤ 1 || r.frameNo % hashEvery = 0 || r.scriptQuit
  let line : HashLine :=
    ⟨r.frameNo, ready.totalCycles, ready.hash, cols.pressCol, cols.releaseCol, cols.snapshotCol⟩
  { r with output := if emit then r.output ++ [line] else r.output, frameNo := r.frameNo + 1 }

/-- The frame loop, when one more frame becomes ready. -/
def round (script : List ScriptCmd) (maxFrames hashEvery : U64) (r : ScriptRun)
    (ready : FrameReady) : ScriptRun :=
  if !r.scriptQuit && r.frameNo < maxFrames then drawFrame script hashEvery r ready else r

end ScriptRun
