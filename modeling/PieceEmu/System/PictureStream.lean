import PieceEmu.Board.S6b0741
import PieceEmu.System.DisplayDma

/-!
# Pictures over the serial interface

The display hangs on the callback of the serial interface: every byte that goes out reaches
`S6b0741::write`, which looks at P21 to tell a command from data. A write to `TXD` sends one
byte, and with channel 0 of the DMA enabled the source range behind it; how the bytes of a
picture are spread over such writes, and what the machine does between them, makes no
difference. What counts is the stream that results (`DisplayBoard.stream`): if it is that of
a picture, the display shows the picture, and goes on showing it as long as only commands
follow (`DisplayBoard.picture_sent`).
-/

/-- `p21d`. -/
def PortCtrl.p21d (p : PortCtrl) : Bool := (p.pd 2).getLsbD 1

/-- The board with its display, to which the callback of the serial interface is
attached. -/
structure DisplayBoard where
  bus : Bus DisplayPeripherals
  lcd : S6b0741

/-- What the machine does, as far as the display can tell. -/
inductive DisplayAction
  /-- A byte is written to `TXD`. -/
  | txd (data : U8)
  /-- Anything else, and what it leaves. -/
  | elsewhere (bus : Bus DisplayPeripherals)

namespace DisplayBoard

open DisplayPeripherals

variable (io : IoSpace DisplayPeripherals) (d : DisplayBoard)

/-! ### The stream -/

/-- The bytes that go out when a byte is written to `TXD`: those the callback has been
called with by the end. -/
def sentBytes (data : U8) : List U8 :=
  (onTxdWrite io data d.bus).dev.sif3.txd.drop d.bus.dev.sif3.txd.length

/-- The bytes of an action, with the level of P21. No read handler touches the ports, so it
stays what it is during a transfer. -/
def sends : DisplayAction → List (Bool × U8)
  | .txd data => (d.sentBytes io data).map fun b => (d.bus.dev.portctrl.p21d, b)
  | .elsewhere _ => []

/-- One action. -/
def step (a : DisplayAction) : DisplayBoard where
  bus :=
    match a with
    | .txd data => onTxdWrite io data d.bus
    | .elsewhere bus => bus
  lcd := d.lcd.receive (d.sends io a)

/-- The bytes of a run. -/
def stream : DisplayBoard → List DisplayAction → List (Bool × U8)
  | _, [] => []
  | d, a :: as => d.sends io a ++ stream (d.step io a) as

/-- **The display sees the stream**, and nothing else of the run. -/
theorem exec_lcd (as : List DisplayAction) :
    (ActionRun.exec (step io) d as).lcd = d.lcd.receive (d.stream io as) := by
  induction as generalizing d with
  | nil => rfl
  | cons a as ih =>
    rw [ActionRun.exec_cons, ih, stream, S6b0741.receive_append]
    rfl

/-- **The byte stream determines the picture.** From every state of the board and of the
display, and however the bytes are sent: when those of the sixteen pages of a picture have
gone out, in any order of the pages and of the two halves of the column, `to_pixels` returns
that picture; and it does so after any further commands. -/
theorem picture_sent (img : S6b0741.Picture) (order : Equiv.Perm (Fin 16))
    (lowFirst : Fin 16 → Bool) (as : List DisplayAction)
    (h : d.stream io as = S6b0741.pictureStream img order lowFirst) :
    (ActionRun.exec (step io) d as).lcd.Shows img ∧
      ∀ cs, (∀ b ∈ (ActionRun.exec (step io) d as).stream io cs, b.1 = false) →
        ∀ out, (ActionRun.exec (step io) d (as ++ cs)).lcd.toPixels out =
          (ActionRun.exec (step io) d as).lcd.toPixels out := by
  constructor
  · rw [exec_lcd, h]
    exact d.lcd.shows_receive img order lowFirst
  · intro cs hcs out
    rw [ActionRun.exec_append, exec_lcd io _ cs]
    exact S6b0741.toPixels_congr (S6b0741.receive_commands_vram _ hcs) out

/-! ### Ways to send -/

/-- With channel 0 disabled a byte goes out alone. -/
theorem sentBytes_disabled (h : d.bus.dev.hsdma.ch0.en = false) (data : U8) :
    d.sentBytes io data = [data] := by
  rw [sentBytes, show onTxdWrite io data d.bus = _ from sentAlone_onTxdWrite io d.bus h data]
  exact List.drop_left

/-- A machine whose CPU does nothing but send. -/
def sender (p21d : Bool) : Bus DisplayPeripherals where
  iram := fun _ => 0
  sram := fun _ => 0
  sramSize := 0x40000
  flash := Bus.board.flash
  dev := { portctrl := { pport := fun _ => if p21d then 0x02 else 0x00 } }

/-- The CPU sends byte by byte, and sets P21 before each. -/
def byCpu (bytes : List (Bool × U8)) : List DisplayAction :=
  bytes.flatMap fun b => [.elsewhere (sender b.1), .txd b.2]

/-- Any stream can be sent. -/
theorem stream_byCpu (bytes : List (Bool × U8)) : d.stream io (byCpu bytes) = bytes := by
  induction bytes generalizing d with
  | nil => rfl
  | cons b bytes ih =>
    have hp21 : (sender b.1).dev.portctrl.p21d = b.1 := by cases b.1 <;> rfl
    change [] ++ (((d.step io (.elsewhere (sender b.1))).sentBytes io b.2).map _ ++
      stream io _ (byCpu bytes)) = _
    rw [ih, sentBytes_disabled io _ rfl]
    exact congrArg (fun p => (p, b.2) :: bytes) hp21

/-- A picture of diagonal stripes. -/
def stripes : S6b0741.Picture := fun y x => BitVec.ofNat 2 (x + y)

/-- The stripes, sent by the CPU from page 0 on to a display that has just been reset. -/
theorem picture_sent_stripes :
    (ActionRun.exec (step (.empty _)) ⟨sender false, .reset⟩
      (byCpu (S6b0741.pictureStream stripes (.refl _) fun _ => true))).lcd.Shows stripes :=
  (picture_sent (.empty _) ⟨sender false, .reset⟩ stripes (.refl _) (fun _ => true) _
    (stream_byCpu _ _ _)).1

end DisplayBoard
