import PieceEmu.Lib.Mailbox
import PieceEmu.System.PictureStream

/-!
# Frames on their way to the screen

The CPU thread copies the picture of the display into a buffer when channel 0 of the DMA has
ended a transfer, and the main thread takes it out at its own pace; both do so under the
mutex of `LcdFrameBuf`. Whatever the order of their steps, the frames that are rendered are
those a mailbox with one place hands over (`LcdScreen.rendered_frames`): pictures of the
display at the end of transfers, none twice and none out of order, and of several without a
step of the main thread between them the last.

So a picture gets from the machine to the screen. When its bytes have gone out to the
display and a transfer ends with them, then the next step of the main thread has it on the
screen, and it stays there as long as only commands follow (`LcdScreen.picture_shown`).
-/

/-- `LcdFrameBuf`. -/
structure LcdFrameBuf where
  pixels : Raster := fun _ _ => 0
  pending : Bool := false

namespace LcdFrameBuf

/-- `push`. -/
def push (buf : LcdFrameBuf) (lcd : S6b0741) : LcdFrameBuf where
  pixels := lcd.toPixels buf.pixels
  pending := true

/-- `take`: what it returns, the array it copies to, and the buffer. -/
def take (buf : LcdFrameBuf) (dst : Raster) : Bool × Raster × LcdFrameBuf :=
  if buf.pending then (true, buf.pixels, { buf with pending := false }) else (false, dst, buf)

end LcdFrameBuf

/-- The two threads with the buffer between them. -/
structure LcdScreen where
  board : DisplayBoard
  buf : LcdFrameBuf := {}
  /-- `px` of the main thread. -/
  px : Raster
  /-- What `LcdRenderer::render` has been called with. -/
  rendered : List Raster := []

/-- A step of one of the threads. -/
inductive ScreenAct
  | cpu (a : DisplayAction)
  | main

/-- What the CPU thread has done. -/
def ScreenAct.cpuActions : List ScreenAct → List DisplayAction
  | [] => []
  | .cpu a :: as => a :: cpuActions as
  | .main :: as => cpuActions as

/-- The bytes of a run are those of its parts. -/
theorem DisplayBoard.stream_append (io : IoSpace DisplayPeripherals) (d : DisplayBoard)
    (as bs : List DisplayAction) :
    d.stream io (as ++ bs) = d.stream io as ++ (ActionRun.exec (step io) d as).stream io bs := by
  induction as generalizing d with
  | nil => rfl
  | cons a as ih =>
    rw [List.cons_append, stream, stream, ih, List.append_assoc]
    rfl

namespace LcdScreen

open ScreenAct DisplayPeripherals

variable (io : IoSpace DisplayPeripherals) (s : LcdScreen)

/-- An action ends a transfer: `on_ch0_complete` is called. -/
def completes (d : DisplayBoard) : DisplayAction → Bool
  | .txd data => d.bus.dev.ch0Completes < (d.step io (.txd data)).bus.dev.ch0Completes
  | .elsewhere _ => false

/-- One step. -/
def step (s : LcdScreen) : ScreenAct → LcdScreen
  | .cpu a =>
    let board := s.board.step io a
    if completes io s.board a then { s with board, buf := s.buf.push board.lcd }
    else { s with board }
  | .main =>
    let (fresh, px, buf) := s.buf.take s.px
    { s with buf, px, rendered := if fresh then s.rendered ++ [px] else s.rendered }

/-- What the buffer is used for in a run. -/
def trace (d : DisplayBoard) : List ScreenAct → List (Mailbox.Act S6b0741)
  | [] => []
  | .cpu a :: as =>
    if completes io d a then .put (d.step io a).lcd :: trace (d.step io a) as
    else trace (d.step io a) as
  | .main :: as => .take :: trace d as

/-- An array has the pixels of the display. -/
def HasPixels (out : Raster) (lcd : S6b0741) : Prop :=
  ∀ before, ∀ y < 88, ∀ x < 128, out y x = lcd.toPixels before y x

/-- An array has the pixels of a picture. -/
def HasPicture (out : Raster) (img : S6b0741.Picture) : Prop :=
  ∀ y < 88, ∀ x < 128, out y x = (img y x).setWidth 8

/-- No pixel of the array is left as it was. -/
theorem hasPixels_toPixels (lcd : S6b0741) (out : Raster) :
    HasPixels (lcd.toPixels out) lcd := by
  intro before y hy x hx
  obtain ⟨page, i, hi, rfl⟩ := S6b0741.exists_pageX hx
  rw [S6b0741.toPixels_at hy hi, S6b0741.toPixels_at hy hi]

/-! ### The buffer is a mailbox -/

/-- The buffer has in it what the mailbox has. -/
def Holds (buf : LcdFrameBuf) : Option S6b0741 → Prop
  | none => buf.pending = false
  | some lcd => buf.pending = true ∧ HasPixels buf.pixels lcd

/-- What is rendered in a run is what is taken out of the mailbox. -/
theorem forall₂_rendered {m : Option S6b0741} (hbuf : Holds s.buf m) {taken : List S6b0741}
    (hrendered : List.Forall₂ HasPixels s.rendered taken) (as : List ScreenAct) :
    List.Forall₂ HasPixels (ActionRun.exec (step io) s as).rendered
      (taken ++ Mailbox.taken m (trace io s.board as)) := by
  induction as generalizing s m taken with
  | nil => exact (List.append_nil taken).symm ▸ hrendered
  | cons a as ih =>
    rw [ActionRun.exec_cons]
    cases a with
    | cpu a =>
      rw [step, trace]
      split_ifs
      · exact ih _ (m := some _) ⟨rfl, hasPixels_toPixels _ _⟩ hrendered
      · exact ih { s with board := s.board.step io a } hbuf hrendered
    | main =>
      rw [step, LcdFrameBuf.take, trace, Mailbox.taken, ← List.append_assoc]
      cases m with
      | none =>
        rw [show s.buf.pending = false from hbuf]
        exact ih _ (m := none) hbuf ((List.append_nil taken).symm ▸ hrendered)
      | some lcd =>
        obtain ⟨hpending, hpixels⟩ := hbuf
        rw [hpending]
        refine ih ⟨s.board, { s.buf with pending := false }, s.buf.pixels, s.rendered ++ [_]⟩
          (m := none) rfl ?_
        exact List.rel_append hrendered (.cons hpixels .nil)

/-- **What is rendered**: what a mailbox with one place hands over, into which the CPU thread
puts the display at the end of each transfer. So it is rendered at most once, and in that
order. -/
theorem rendered_frames (board : DisplayBoard) (px : Raster) (as : List ScreenAct) :
    List.Forall₂ HasPixels (ActionRun.exec (step io) { board, px } as).rendered
        (Mailbox.taken none (trace io board as)) ∧
      (Mailbox.taken none (trace io board as)).Sublist (Mailbox.puts (trace io board as)) :=
  ⟨forall₂_rendered io { board, px } (m := none) rfl .nil as, Mailbox.taken_sublist none _⟩

/-! ### A picture -/

theorem board_exec (as : List ScreenAct) :
    (ActionRun.exec (step io) s as).board =
      ActionRun.exec (DisplayBoard.step io) s.board (cpuActions as) := by
  induction as generalizing s with
  | nil => rfl
  | cons a as ih =>
    rw [ActionRun.exec_cons, ih]
    cases a with
    | cpu a =>
      rw [step]
      split_ifs <;> rfl
    | main => rfl

/-- A picture is on its way, or has arrived. -/
structure OnItsWay (img : S6b0741.Picture) : Prop where
  lcd : s.board.lcd.Shows img
  pixels : HasPicture s.buf.pixels img
  arrives : s.buf.pending = true ∨ HasPicture s.px img

variable {io s} {img : S6b0741.Picture}

/-- The main thread has it on the screen when it has looked at the buffer. -/
theorem OnItsWay.shown (io : IoSpace DisplayPeripherals) (h : OnItsWay s img) :
    HasPicture (s.step io .main).px img := by
  rw [LcdScreen.step, LcdFrameBuf.take]
  split_ifs with hpending
  · exact h.pixels
  · exact h.arrives.resolve_left hpending

theorem OnItsWay.step (h : OnItsWay s img) {a : ScreenAct}
    (hcommands : ∀ b ∈ s.board.stream io (cpuActions [a]), b.1 = false) :
    OnItsWay (s.step io a) img := by
  cases a with
  | cpu a =>
    have hshows : (s.board.step io a).lcd.Shows img := by
      intro out y hy x hx
      rw [← h.lcd out y hy x hx]
      refine congrFun₂ (S6b0741.toPixels_congr (S6b0741.receive_commands_vram _ ?_) out) y x
      rintro b hb
      exact hcommands b (List.mem_append_left _ hb)
    rw [LcdScreen.step]
    split_ifs
    · exact ⟨hshows, hshows _, .inl rfl⟩
    · exact ⟨hshows, h.pixels, h.arrives⟩
  | main =>
    refine ⟨?_, ?_, .inr (h.shown io)⟩
    · rw [LcdScreen.step, LcdFrameBuf.take]
      exact h.lcd
    · rw [LcdScreen.step, LcdFrameBuf.take]
      split_ifs <;> exact h.pixels

theorem OnItsWay.exec (h : OnItsWay s img) {as : List ScreenAct}
    (hcommands : ∀ b ∈ s.board.stream io (cpuActions as), b.1 = false) :
    OnItsWay (ActionRun.exec (LcdScreen.step io) s as) img := by
  induction as generalizing s with
  | nil => exact h
  | cons a as ih =>
    cases a with
    | cpu a =>
      have hboard : (s.step io (.cpu a)).board = s.board.step io a := board_exec io s [.cpu a]
      refine ih (h.step fun b hb => hcommands b ?_) fun b hb => hcommands b ?_
      · rw [cpuActions, cpuActions, DisplayBoard.stream, DisplayBoard.stream,
          List.append_nil] at hb
        exact List.mem_append_left _ hb
      · rw [hboard] at hb
        exact List.mem_append_right _ hb
    | main =>
      refine ih (h.step fun b hb => absurd hb List.not_mem_nil) fun b hb => hcommands b ?_
      exact hb

/-- **A picture gets to the screen.** When its bytes have gone out, with the last of which a
transfer ends, the main thread has it on the screen at its next step, and at each later one
while the CPU thread sends only commands: from every state of the machine, of the display and
of the buffer, and whatever the steps of the main thread meanwhile. -/
theorem picture_shown (s : LcdScreen) (img : S6b0741.Picture) (order : Equiv.Perm (Fin 16))
    (lowFirst : Fin 16 → Bool) (as : List ScreenAct) (a : DisplayAction)
    (hsent : s.board.stream io (cpuActions (as ++ [.cpu a])) =
      S6b0741.pictureStream img order lowFirst)
    (hends : completes io (ActionRun.exec (step io) s as).board a = true)
    (bs : List ScreenAct)
    (hcommands : ∀ b ∈ (ActionRun.exec (step io) s (as ++ [.cpu a])).board.stream io
      (cpuActions bs), b.1 = false) :
    HasPicture (ActionRun.exec (step io) s (as ++ .cpu a :: bs ++ [.main])).px img := by
  have hshows : (ActionRun.exec (step io) s (as ++ [.cpu a])).board.lcd.Shows img := by
    rw [board_exec]
    exact (DisplayBoard.picture_sent io s.board img order lowFirst _ hsent).1
  have hway : OnItsWay (ActionRun.exec (step io) s (as ++ [.cpu a])) img := by
    rw [ActionRun.exec_append] at hshows ⊢
    change OnItsWay (step io _ (.cpu a)) img
    change (step io _ (.cpu a)).board.lcd.Shows img at hshows
    rw [step, if_pos hends] at hshows ⊢
    exact ⟨hshows, hshows _, .inl rfl⟩
  rw [List.append_assoc, List.cons_append, ActionRun.exec_append]
  rw [ActionRun.exec_append] at hway hcommands
  rw [ActionRun.exec_cons, ActionRun.exec_append]
  exact (hway.exec hcommands).shown io

/-! ### The stripes -/

theorem cpuActions_map (as : List DisplayAction) (bs : List ScreenAct) :
    cpuActions (as.map .cpu ++ bs) = as ++ cpuActions bs := by
  induction as with
  | nil => rfl
  | cons a as ih => exact congrArg (a :: ·) ih

/-- A machine whose memory has bytes `0x55`, of which channel 0 is set up to send one. -/
def lastByte : Bus DisplayPeripherals :=
  let b := DisplayBoard.sender true
  { b with
    iram := fun _ => 0x55
    dev := { b.dev with hsdma := { b.dev.hsdma with ch0 := ⟨true, 1, 0⟩ } } }

/-- The two last bytes, the second of them by a transfer. -/
theorem streamed_lastByte (data : U8) :
    Streamed lastByte (onTxdWrite (.empty _) data lastByte) data := by
  refine streamed_onTxdWrite (.empty _) lastByte rfl (by decide) ?_ data
  rintro k hk
  obtain rfl : k = 0 := Nat.lt_one_iff.mp hk
  exact .inl (by decide)

/-- The stripes but for the two last bytes, which are `0x99` and `0x55`. -/
def stripesCut : List (Bool × U8) :=
  (S6b0741.pictureStream DisplayBoard.stripes (.refl _) fun _ => true).take 2862

/-- The CPU sends the stripes but for the two last bytes, and sets up a transfer of the last
of them. -/
def sendStripes : List ScreenAct :=
  (DisplayBoard.byCpu stripesCut).map .cpu ++ [.cpu (.elsewhere lastByte)]

theorem stream_lastByte (d : DisplayBoard) :
    d.stream (.empty _) [.elsewhere lastByte, .txd 0x99] = [(true, 0x99), (true, 0x55)] := by
  have hsource : sourceBytes lastByte 0 1 = [0x55] := by decide
  have hsent (lcd : S6b0741) : (⟨lastByte, lcd⟩ : DisplayBoard).sentBytes (.empty _) 0x99 =
      [0x99, 0x55] := by
    rw [DisplayBoard.sentBytes, (streamed_lastByte _).received, List.drop_left]
    exact congrArg (0x99 :: ·) hsource
  have hlevel : lastByte.dev.portctrl.p21d = true := by decide
  rw [DisplayBoard.stream, DisplayBoard.stream, DisplayBoard.stream, List.append_nil]
  change (DisplayBoard.sentBytes (.empty _) ⟨lastByte, _⟩ 0x99).map
    (fun b => (lastByte.dev.portctrl.p21d, b)) = _
  rw [hsent, hlevel]
  rfl

theorem stream_sendStripes (d : DisplayBoard) :
    d.stream (.empty _) (cpuActions (sendStripes ++ [.cpu (.txd 0x99)])) =
      S6b0741.pictureStream DisplayBoard.stripes (.refl _) fun _ => true := by
  have hcut : stripesCut ++ [(true, 0x99), (true, 0x55)] =
      S6b0741.pictureStream DisplayBoard.stripes (.refl _) fun _ => true := by
    have hdrop : (S6b0741.pictureStream DisplayBoard.stripes (.refl _) fun _ => true).drop 2862 =
        [(true, 0x99), (true, 0x55)] := by decide +kernel
    rw [← hdrop]
    exact List.take_append_drop ..
  rw [sendStripes, List.append_assoc, cpuActions_map, DisplayBoard.stream_append,
    DisplayBoard.stream_byCpu, ← hcut]
  exact congrArg (stripesCut ++ ·) (stream_lastByte _)

/-- The stripes get to the screen from a machine and a display that have just been reset,
while the main thread looks at the buffer twice. -/
theorem picture_shown_stripes :
    HasPicture (ActionRun.exec (step (.empty _))
      { board := ⟨DisplayBoard.sender false, .reset⟩, px := fun _ _ => 0 }
      (sendStripes ++ .cpu (.txd 0x99) :: [.main] ++ [.main])).px DisplayBoard.stripes := by
  refine picture_shown _ _ (Equiv.refl _) (fun _ => true) _ _
    (stream_sendStripes _) ?_ _ ?_
  · rw [board_exec, sendStripes, cpuActions_map, ActionRun.exec_append]
    exact decide_eq_true ((Nat.lt_succ_self _).trans_eq (streamed_lastByte _).completed.symm)
  · rintro b hb
    cases hb

end LcdScreen
