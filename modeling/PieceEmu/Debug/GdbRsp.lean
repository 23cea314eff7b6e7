import PieceEmu.Debug.GdbRegs

/-!
# The packets of the debugger

`handle_packet` executes one packet of the remote serial protocol and sends one reply.
The fields of a packet are cut out at fixed offsets and read with the functions of C
(`PieceEmu.Lib.CText`), which throw, run past the end or read part of a number, so a
malformed packet ends in one of three ways.

| it is | packets |
|---|---|
| answered without an effect | a short `G`, an `M` without data, an unknown query |
| executed all the same | `Z0,`, `M0,1:zz`, `c` with anything behind it, `vCont;x` |
| the end of the server | `p`, `P=`, `qRegisterInfo`; `Z` and `P0=1` read out of range |

`GdbRsp.robust_iff` says for which packets all goes well. The loop that runs the CPU is a
parameter: it returns the stop reply, unless the CPU never stops.
-/

open CText

/-! ### The server -/

/-- What `Z` and `z` are about. -/
inductive ZPoint
  | breakpoint (addr : U32)
  | watchpoint (wp : Watchpoint)
  deriving DecidableEq

/-- What a packet does to the target. -/
inductive RspAction
  /-- `reg_write_n`, or one of the registers of `reg_write_all`. -/
  | writeReg (n : ℕ) (val : U32)
  | writeMem (addr : U32) (val : U8)
  | insert (pt : ZPoint)
  | remove (pt : ZPoint)
  | run (single : Bool)
  deriving DecidableEq

/-- The server, with the machine it debugs. -/
structure GdbRsp (D : Type) where
  machine : Machine D
  /-- `breakpoints_`. -/
  breakpoints : U32 → Bool := fun _ => false
  /-- `no_ack_mode_`. -/
  noAckMode : Bool := false

namespace GdbRsp

variable {D : Type} (io : IoSpace D)

/-- A change of the list of watchpoints. -/
def mapWatchpoints (g : GdbRsp D) (f : List Watchpoint → List Watchpoint) : GdbRsp D :=
  { g with machine := { g.machine with
      bus := { g.machine.bus with watchpoints := f g.machine.bus.watchpoints } } }

/-- One action, other than running the CPU. -/
def act (g : GdbRsp D) : RspAction → GdbRsp D
  | .writeReg n val => { g with machine := g.machine.mapCpu (·.regWriteN n val) }
  | .writeMem addr val => { g with machine := g.machine.write8 io addr val }
  | .insert (.breakpoint addr) =>
    { g with breakpoints := Function.update g.breakpoints addr true }
  | .remove (.breakpoint addr) =>
    { g with breakpoints := Function.update g.breakpoints addr false }
  | .insert (.watchpoint wp) => g.mapWatchpoints (· ++ [wp])
  | .remove (.watchpoint wp) => g.mapWatchpoints (·.filter (· ≠ wp))
  | .run _ => g

/-- **The target is untouched**: the CPU, the memories, the breakpoints and the
watchpoints are as they were. -/
structure Untouched (g g' : GdbRsp D) : Prop where
  cpu : g'.machine.cpu = g.machine.cpu
  memory : g.machine.bus.MemoryKept g'.machine.bus
  breakpoints : g'.breakpoints = g.breakpoints
  watchpoints : g'.machine.bus.watchpoints = g.machine.bus.watchpoints

end GdbRsp

/-! ### Handling -/

/-- Why the handler has not come to its end. -/
inductive RspStop
  /-- It threw, or read out of range. -/
  | text (e : TextError)
  /-- The CPU runs and does not stop. -/
  | running
  deriving DecidableEq

/-- The handler at work: the server, what has been done to the target and the packets
sent. -/
structure RspSession (D : Type) where
  server : GdbRsp D
  actions : List RspAction := []
  replies : List (List U8) := []

/-- The session after an action on the target. -/
def RspSession.act {D : Type} (io : IoSpace D) (s : RspSession D) (a : RspAction) :
    RspSession D :=
  { s with server := s.server.act io a, actions := s.actions ++ [a] }

/-- The session after a byte read from the bus. At a watched byte the callback of the server
also halts the CPU; that is left out, here and in `GdbRsp.act`, as the next run clears it
before it starts. -/
def RspSession.load8 {D : Type} (io : IoSpace D) (s : RspSession D) (addr : U32) :
    RspSession D :=
  { s with server := { s.server with machine := (s.server.machine.read8 io addr).2 } }

/-- A part of the handler. -/
abbrev RspM (D : Type) := EStateM RspStop (RspSession D)

instance {D : Type} : MonadLift (Except TextError) (RspM D) where
  monadLift
    | .ok a => pure a
    | .error e => throw (.text e)

/-- `rsp_checksum`. -/
def rspChecksum (s : List U8) : U8 := s.foldl (· + ·) 0

/-- `rsp_packet`. -/
def rspPacket (data : List U8) : List U8 :=
  ch '$' :: data ++ ch '#' :: formatHex8 (rspChecksum data)

/-- The commands, by the first byte of a packet. -/
inductive RspCommand
  /-- `?`. -/
  | why
  | g | G | p | P | m | M | c | s | H | T | Z | z | Q | v | q | j
  | other
  deriving DecidableEq, Repr

/-- The `switch` of `handle_packet`. -/
def RspCommand.ofByte (cmd : U8) : RspCommand :=
  match Char.ofNat cmd.toNat with
  | '?' => .why
  | 'g' => .g
  | 'G' => .G
  | 'p' => .p
  | 'P' => .P
  | 'm' => .m
  | 'M' => .M
  | 'c' => .c
  | 's' => .s
  | 'H' => .H
  | 'T' => .T
  | 'Z' => .Z
  | 'z' => .z
  | 'Q' => .Q
  | 'v' => .v
  | 'q' => .q
  | 'j' => .j
  | _ => .other

/-- What the types 0 to 4 of `Z` and `z` stand for. -/
def ZPoint.ofType (ztype : ℤ) (addr kind : U32) : Option ZPoint :=
  match ztype with
  | 0 | 1 => some (.breakpoint addr)
  | 2 => some (.watchpoint ⟨addr, kind, .write⟩)
  | 3 => some (.watchpoint ⟨addr, kind, .read⟩)
  | 4 => some (.watchpoint ⟨addr, kind, .rw⟩)
  | _ => none

namespace RspM

variable {D : Type} (io : IoSpace D)
  (run : Bool → GdbRsp D → Option (GdbRsp D × List U8))

/-- `send_rsp`. -/
def sendRsp (data : List U8) : RspM D Unit :=
  modify fun s => { s with replies := s.replies ++ [rspPacket data] }

/-- An action on the target. -/
def act (a : RspAction) : RspM D Unit := modify (·.act io a)

/-- `run`: the stop reply. -/
def runTarget (single : Bool) : RspM D (List U8) := fun s =>
  match run single s.server with
  | some (server, reply) => .ok reply { s with server, actions := s.actions ++ [.run single] }
  | none => .error .running { s with actions := s.actions ++ [.run single] }

/-- `bus_.read8`. The calls of the watchpoint callback are in the record of the bus. -/
def read8 (addr : U32) : RspM D U8 := fun s =>
  .ok (s.server.machine.read8 io addr).1 (s.load8 io addr)

/-- The loop of `m`, over the bytes from an address on. -/
def readMem : ℕ → U32 → RspM D (List U8)
  | 0, _ => pure []
  | n + 1, addr => do
    let b ← read8 io addr
    let mem ← readMem n (addr + 1)
    return toHex8 b ++ mem

/-- The loop of `M`, from the byte `i` on. The index of a digit has 32 bits. -/
def writeMem (addr : U32) (hexdata : List U8) : ℕ → U32 → RspM D Unit
  | 0, _ => pure ()
  | n + 1, i => do
    if (i * 2 + 1).toNat < hexdata.length then
      let b := scanHexByte (← cStr hexdata (i * 2).toNat)
      act io (.writeMem (addr + i) b)
      writeMem addr hexdata n (i + 1)

/-- The registers from `i` on, out of the text of a `G` packet. -/
def writeRegs (hex : List U8) : ℕ → ℕ → RspM D Unit
  | 0, _ => pure ()
  | n + 1, i => do
    act io (.writeReg i (← fromHex32 hex (8 * i)))
    writeRegs hex n (i + 1)

/-- `reg_write_all`. -/
def regWriteAll (hex : List U8) : RspM D Unit := do
  if hex.length < 21 * 8 then return
  writeRegs io hex 21 0

/-- `reg_write_n`. -/
def regWriteN (n : ℤ) (val : U32) : RspM D Unit := do
  if n < 0 ∨ 20 < n then return
  act io (.writeReg n.toNat val)

/-! ### The commands -/

/-- `G`. -/
def handleG (pkt : List U8) : RspM D Unit := do
  regWriteAll io (← substr pkt 1 none)
  sendRsp (str "OK")

/-- `p`. -/
def handleReadN (pkt : List U8) : RspM D Unit := do
  let n ← stoi16 (← substr pkt 1 none)
  sendRsp ((← get).server.machine.cpu.regReadN n)

/-- `P`. -/
def handleWriteN (pkt : List U8) : RspM D Unit := do
  match findFrom pkt (ch '=') 0 with
  | none => sendRsp (str "E00")
  | some eq =>
    let n ← stoi16 (← substr pkt 1 (some (eq - 1)))
    let val ← fromHex32 pkt (eq + 1)
    regWriteN io n val
    sendRsp (str "OK")

/-- `m`. -/
def handleReadMem (pkt : List U8) : RspM D Unit := do
  let (addr, len) := scanHexPair (← cStr pkt 1)
  sendRsp (← readMem io len.toNat addr)

/-- `M`. -/
def handleWriteMem (pkt : List U8) : RspM D Unit := do
  let (addr, len) := scanHexPair (← cStr pkt 1)
  match findFrom pkt (ch ':') 0 with
  | some colon => writeMem io addr (← substr pkt (colon + 1) none) len.toNat 0
  | none => pure ()
  sendRsp (str "OK")

/-- `c` and `s`. -/
def handleRun (single : Bool) : RspM D Unit := do
  sendRsp (← runTarget run single)

/-- `Z` and `z`, which differ in what they do with the point. -/
def handlePoint (action : ZPoint → RspAction) (pkt : List U8) : RspM D Unit := do
  let ztype := (← charAt pkt 1).toInt - '0'.toNat
  let (addr, kind) := scanHexPair (← cStr pkt 3)
  match ZPoint.ofType ztype addr (if kind = 0 then 4 else kind) with
  | some pt =>
    act io (action pt)
    sendRsp (str "OK")
  | none => sendRsp []

/-- `Q`. -/
def handleSet (pkt : List U8) : RspM D Unit := do
  if pkt = str "QStartNoAckMode" then
    sendRsp (str "OK")
    modify fun s => { s with server := { s.server with noAckMode := true } }
  else if (str "QThreadSuffixSupported").isPrefixOf pkt ∨
      (str "QListThreadsInStopReply").isPrefixOf pkt ∨
      (str "QEnableErrorStrings").isPrefixOf pkt then
    sendRsp (str "OK")
  else sendRsp []

/-- `v`. -/
def handleV (pkt : List U8) : RspM D Unit := do
  if pkt = str "vCont?" then sendRsp (str "vCont;c;s;")
  else if (str "vCont;").isPrefixOf pkt then
    let action ← charAt pkt 6
    sendRsp (← runTarget run (action = ch 's'))
  else sendRsp []

/-- `q`: the reply. -/
def queryReply (pkt : List U8) : Except TextError (List U8) := do
  if (str "qSupported:").isPrefixOf pkt then
    return str <| "PacketSize=4000" ++ ";qXfer:features:read+" ++ ";qRegisterInfo+" ++
      ";vContSupported+" ++ ";hwbreak+" ++ ";swbreak+"
  else if pkt = str "qAttached" then return str "1"
  else if pkt = str "qC" then return str "QC1"
  else if pkt = str "qfThreadInfo" then return str "m1"
  else if pkt = str "qsThreadInfo" then return str "l"
  else if pkt = str "qHostInfo" then
    return str "triple:s1c33-unknown-none-elf;endian:little;ptrsize:4;"
  else if pkt = str "qProcessInfo" then
    return str "pid:1;triple:s1c33-unknown-none-elf;endian:little;ptrsize:4;"
  else if (str "qRegisterInfo").isPrefixOf pkt then
    return regInfo (← stoi16 (← substr pkt 13 none))
  else if (str "qXfer:features:read:target.xml:").isPrefixOf pkt then handleQXfer pkt
  else if pkt = str "qVAttachOrWaitSupported" ∨ pkt = str "qStructuredDataPlugins" ∨
      pkt = str "qShlibInfoAddr" then
    return []
  else return []

/-- `handle_packet`. -/
def handlePacket (pkt : List U8) : RspM D Unit :=
  match pkt with
  | [] => sendRsp []
  | cmd :: _ =>
    match RspCommand.ofByte cmd with
    | .why => sendRsp (str "T05thread:1;")
    | .g => do sendRsp (← get).server.machine.cpu.regReadAll
    | .G => handleG io pkt
    | .p => handleReadN pkt
    | .P => handleWriteN io pkt
    | .m => handleReadMem io pkt
    | .M => handleWriteMem io pkt
    | .c => handleRun run false
    | .s => handleRun run true
    | .H => sendRsp (str "OK")
    | .T => sendRsp (str "OK")
    | .Z => handlePoint io .insert pkt
    | .z => handlePoint io .remove pkt
    | .Q => handleSet pkt
    | .v => handleV run pkt
    | .q => do sendRsp (← queryReply pkt)
    | .j => sendRsp []
    | .other => sendRsp []

end RspM
