import PieceEmu.System.RegisterAccess

/-!
# The stream of bytes to the display

A byte written to `TXD` of the serial interface goes to the display, and if channel 0 of
the DMA is enabled the write does not return before the whole transfer has gone out
behind it: `Hsdma::do_ch0_inline` reads the source range through the bus, byte by byte,
and keeps the derived state of the channel and its raw registers in step as it goes.

The loop ends because each pass takes one from the count, and no memory moves under it
because all it does to the bus is read. So the display receives the byte that was written
and then the source range, in order, as it was in memory when the write began
(`DisplayPeripherals.txd_write`).
-/

/-- `Sif3`. -/
structure Sif3 where
  ctl : U8 := 0
  irda : U8 := 0
  status : U8 := 0x02
  /-- The bytes `txd_cb_` has been called with so far. -/
  txd : List U8 := []

/-- The peripherals with the serial interface, and what it calls. -/
structure DisplayPeripherals extends PiecePeripherals where
  sif3 : Sif3 := {}
  /-- How often `on_ch0_complete` has been called so far. -/
  ch0Completes : ℕ := 0

/-- A change of the serial interface alone. -/
def Bus.mapSif3 (f : Sif3 → Sif3) (b : Bus DisplayPeripherals) : Bus DisplayPeripherals :=
  { b with dev := { b.dev with sif3 := f b.dev.sif3 } }

namespace DisplayPeripherals

/-! ### The transfer -/

/-- A call of `txd_cb_`. -/
def txdCb (data : U8) (b : Bus DisplayPeripherals) : Bus DisplayPeripherals :=
  b.mapSif3 fun s => { s with txd := s.txd ++ [data] }

/-- The channel after a byte: the derived state, and the raw registers synced to it. -/
def advanceCh0 (live : ChanLive) (h : Hsdma) : Hsdma :=
  let sadr := live.sadr + 1
  let cnt := live.cnt - 1
  let h := { h.setChan 0 ({ · with sadr, cnt }) with ch0 := { live with sadr, cnt } }
  if cnt = 0 then
    { h.setChan 0 fun c => { c with en := c.en &&& ~~~1 } with ch0 := { h.ch0 with en := false } }
  else h

/-- One pass of the loop of `do_ch0_inline`. No read handler touches the registers of the
DMA, so the channel may be looked at before the byte is read. -/
def ch0Pass (io : IoSpace DisplayPeripherals) (b : Bus DisplayPeripherals) :
    Bus DisplayPeripherals :=
  let live := b.dev.hsdma.ch0
  let (data, b) := b.read8 io live.sadr
  txdCb data { b with dev := { b.dev with hsdma := advanceCh0 live b.dev.hsdma } }

theorem ch0_advanceCh0 (live : ChanLive) (h : Hsdma) :
    (advanceCh0 live h).ch0 =
      ⟨live.en && live.cnt - 1 ≠ 0, live.cnt - 1, live.sadr + 1⟩ := by
  rw [advanceCh0]
  split_ifs with hz
  · rw [decide_eq_false (not_not.mpr hz), Bool.and_false]
  · rw [decide_eq_true hz, Bool.and_true]

theorem ch0_ch0Pass (io : IoSpace DisplayPeripherals) (b : Bus DisplayPeripherals) :
    (ch0Pass io b).dev.hsdma.ch0 =
      ⟨b.dev.hsdma.ch0.en && b.dev.hsdma.ch0.cnt - 1 ≠ 0, b.dev.hsdma.ch0.cnt - 1,
        b.dev.hsdma.ch0.sadr + 1⟩ :=
  ch0_advanceCh0 _ _

/-- The loop of `do_ch0_inline`, with `completed`. -/
def ch0Loop (io : IoSpace DisplayPeripherals) (completed : Bool) (b : Bus DisplayPeripherals) :
    Bus DisplayPeripherals × Bool :=
  if b.dev.hsdma.ch0.en = true ∧ 0 < b.dev.hsdma.ch0.cnt then
    ch0Loop io (completed || (ch0Pass io b).dev.hsdma.ch0.cnt = 0) (ch0Pass io b)
  else (b, completed)
termination_by b.dev.hsdma.ch0.cnt.toNat
decreasing_by
  rename_i h
  rw [ch0_ch0Pass]
  have hpos : 0 < b.dev.hsdma.ch0.cnt.toNat := h.2
  bv_omega

/-- `do_ch0_inline`. -/
def doCh0Inline (io : IoSpace DisplayPeripherals) (b : Bus DisplayPeripherals) :
    Bus DisplayPeripherals :=
  let (b, completed) := ch0Loop io false b
  if completed then { b with dev := { b.dev with ch0Completes := b.dev.ch0Completes + 1 } } else b

/-- `on_txd_write`. -/
def onTxdWrite (io : IoSpace DisplayPeripherals) (data : U8) (b : Bus DisplayPeripherals) :
    Bus DisplayPeripherals :=
  let b := txdCb data b
  if b.dev.hsdma.ch0.en then doCh0Inline io b else b

/-! ### The registers -/

/-- `SIF3_BASE`. -/
def sif3Base : U32 := 0x0401F4

/-- `SIF2_IRDA`, absorbed, and `SIF3_TXD`. The transfer reads a bus with the handlers `io`. -/
def txdHandler (io : IoSpace DisplayPeripherals) : IoHandler DisplayPeripherals where
  read _ b := (0, b.dev)
  write addr v b := (if addr.getLsbD 0 then onTxdWrite io (v.setWidth 8) b else b, {})

/-- `SIF3_RXD` and `SIF3_STATUS`. -/
def statusHandler : IoHandler DisplayPeripherals where
  read _ b := (b.dev.sif3.status.setWidth 16 <<< 8, b.dev)
  write _ _ b := (b, {})

/-- `SIF3_CTL` and `SIF3_IRDA`. -/
def ctlHandler : IoHandler DisplayPeripherals where
  read _ b := (b.dev.sif3.ctl.setWidth 16 ||| b.dev.sif3.irda.setWidth 16 <<< 8, b.dev)
  write _ v b :=
    (b.mapSif3 ({ · with ctl := v.setWidth 8, irda := (v >>> 8).setWidth 8 }), {})
  writeByte := some fun addr v b =>
    (b.mapSif3 fun s => if addr.getLsbD 0 then { s with irda := v } else { s with ctl := v }, {})

/-- `Sif3::attach`. -/
def attachSif3 (inner io : IoSpace DisplayPeripherals) : IoSpace DisplayPeripherals :=
  ((io.registerIo sif3Base (txdHandler inner)).registerIo (sif3Base + 2)
    statusHandler).registerIo (sif3Base + 4) ctlHandler

/-! ### What goes out -/

/-- The bytes of memory from an address on. -/
def sourceBytes (b : Bus DisplayPeripherals) (sadr : U32) (n : ℕ) : List U8 :=
  (List.range n).map fun k => b.flatByte (Bus.flatIndex (sadr + BitVec.ofNat 32 k))

/-- The channel after the whole transfer: disabled, with nothing left to count and the
source advanced by what was counted. -/
def finishCh0 (h : Hsdma) : Hsdma :=
  { h.setChan 0 fun c =>
      { c with cnt := 0, sadr := h.ch0.sadr + h.ch0.cnt, en := c.en &&& ~~~1 } with
    ch0 := ⟨false, 0, h.ch0.sadr + h.ch0.cnt⟩ }

theorem chan_finishCh0 (h : Hsdma) :
    (finishCh0 h).chan 0 =
      { h.chan 0 with
        cnt := 0, sadr := h.ch0.sadr + h.ch0.cnt, en := (h.chan 0).en &&& ~~~1 } := by
  rw [finishCh0, Hsdma.setChan]
  dsimp only
  rw [Function.update_self]

variable (io : IoSpace DisplayPeripherals) (b : Bus DisplayPeripherals)

theorem add_ofNat_succ (a : U32) (k : ℕ) :
    a + BitVec.ofNat 32 (k + 1) = a + 1 + BitVec.ofNat 32 k := by
  rw [Nat.add_comm, BitVec.ofNat_add, BitVec.add_assoc]
  rfl

theorem sourceBytes_succ (sadr : U32) (n : ℕ) :
    sourceBytes b sadr (n + 1) =
      b.flatByte (Bus.flatIndex sadr) :: sourceBytes b (sadr + 1) n := by
  rw [sourceBytes, List.range_succ_eq_map, List.map_cons, List.map_map, BitVec.add_zero]
  refine congrArg _ (List.map_congr_left fun k _ => ?_)
  rw [Function.comp_apply, Nat.succ_eq_add_one, add_ofNat_succ]

theorem sourceBytes_of_sameMemory {b' : Bus DisplayPeripherals} (h : b'.SameMemory b) (sadr : U32)
    (n : ℕ) : sourceBytes b' sadr n = sourceBytes b sadr n := by
  have hbyte : b'.flatByte = b.flatByte := congrArg FlatMemory.bytes h.1
  rw [sourceBytes, sourceBytes, hbyte]

theorem advanceCh0_last {h : Hsdma} (hcnt : h.ch0.cnt = 1) :
    advanceCh0 h.ch0 h = finishCh0 h := by
  rw [advanceCh0, finishCh0, hcnt, if_pos (by decide), Hsdma.setChan, Hsdma.setChan, Hsdma.setChan]
  dsimp only
  rw [Function.update_idem, Function.update_self]
  rfl

theorem finishCh0_advanceCh0 {h : Hsdma} (hcnt : h.ch0.cnt ≠ 1) :
    finishCh0 (advanceCh0 h.ch0 h) = finishCh0 h := by
  have hz : h.ch0.cnt - 1 ≠ 0 := fun h' => hcnt (by bv_omega)
  have hsum : h.ch0.sadr + 1 + (h.ch0.cnt - 1) = h.ch0.sadr + h.ch0.cnt := by bv_omega
  rw [advanceCh0, if_neg hz, finishCh0, Hsdma.setChan, Hsdma.setChan, finishCh0, Hsdma.setChan]
  dsimp only
  rw [Function.update_idem, Function.update_self, hsum]

theorem read8_dev {addr : U32} (hm : b.Mapped addr) : (b.read8 io addr).2.dev = b.dev := by
  have hclass : b.classify (Bus.mask28 addr) = b.classify addr := Bus.regionOf_mask28 _
  rw [Bus.read8, hclass]
  rcases hm with h | h | h
  · rw [h]
  · rw [h]
    dsimp only
    rw [Bus.noteSramRead]
    split_ifs <;> rfl
  · rw [h]
    rfl

/-- **One pass** over an address of memory: one byte goes out, and no memory moves. -/
theorem ch0Pass_spec (hm : b.Mapped b.dev.hsdma.ch0.sadr) :
    (ch0Pass io b).SameMemory b ∧
      (ch0Pass io b).dev =
        { b.dev with
          hsdma := advanceCh0 b.dev.hsdma.ch0 b.dev.hsdma
          sif3 := { b.dev.sif3 with
            txd := b.dev.sif3.txd ++ [b.flatByte (Bus.flatIndex b.dev.hsdma.ch0.sadr)] } } := by
  obtain ⟨hbyte, hsame⟩ := b.read8_mapped io hm
  have hpass : (ch0Pass io b).dev =
      let r := b.read8 io b.dev.hsdma.ch0.sadr
      { r.2.dev with
        hsdma := advanceCh0 b.dev.hsdma.ch0 r.2.dev.hsdma
        sif3 := { r.2.dev.sif3 with txd := r.2.dev.sif3.txd ++ [r.1] } } := rfl
  refine ⟨hsame, ?_⟩
  rw [hpass]
  dsimp only
  rw [read8_dev io b hm, hbyte]

theorem mapped_source {n : ℕ} {sadr : U32}
    (hsrc : ∀ k < n + 1, b.Mapped (sadr + BitVec.ofNat 32 k)) : b.Mapped sadr := by
  have h0 := hsrc 0 (Nat.succ_pos n)
  rwa [BitVec.add_zero] at h0

theorem ch0Loop_stop (completed : Bool)
    (h : ¬(b.dev.hsdma.ch0.en = true ∧ 0 < b.dev.hsdma.ch0.cnt)) :
    ch0Loop io completed b = (b, completed) := by
  rw [ch0Loop, if_neg h]

theorem ch0Loop_pass (completed : Bool)
    (h : b.dev.hsdma.ch0.en = true ∧ 0 < b.dev.hsdma.ch0.cnt) :
    ch0Loop io completed b =
      ch0Loop io (completed || b.dev.hsdma.ch0.cnt - 1 = 0) (ch0Pass io b) := by
  rw [ch0Loop, if_pos h, ch0_ch0Pass]

/-- **The loop**, by induction on what is left to count. -/
theorem ch0Loop_spec (n : ℕ) (completed : Bool) (hen : b.dev.hsdma.ch0.en = true)
    (hcnt : b.dev.hsdma.ch0.cnt.toNat = n + 1)
    (hsrc : ∀ k < n + 1, b.Mapped (b.dev.hsdma.ch0.sadr + BitVec.ofNat 32 k)) :
    (ch0Loop io completed b).2 = true ∧ (ch0Loop io completed b).1.SameMemory b ∧
      (ch0Loop io completed b).1.dev =
        { b.dev with
          hsdma := finishCh0 b.dev.hsdma
          sif3 := { b.dev.sif3 with
            txd := b.dev.sif3.txd ++ sourceBytes b b.dev.hsdma.ch0.sadr (n + 1) } } := by
  induction n generalizing b completed with
  | zero =>
    obtain ⟨hsame, hdev⟩ := ch0Pass_spec io b (mapped_source b hsrc)
    have hone : b.dev.hsdma.ch0.cnt = 1 := BitVec.eq_of_toNat_eq hcnt
    have hstop : ¬((ch0Pass io b).dev.hsdma.ch0.en = true ∧
        0 < (ch0Pass io b).dev.hsdma.ch0.cnt) := by
      rw [ch0_ch0Pass, hone]
      exact fun h => absurd h.2 (show ¬(0 : U32) < 1 - 1 by decide)
    rw [ch0Loop_pass io b completed ⟨hen, by bv_omega⟩, ch0Loop_stop io _ _ hstop, hone]
    refine ⟨Bool.or_true _, hsame, ?_⟩
    rw [hdev, advanceCh0_last hone, sourceBytes_succ]
    rfl
  | succ n ih =>
    -- the channel is still enabled, so the next pass sends from the next byte on
    obtain ⟨hsame, hdev⟩ := ch0Pass_spec io b (mapped_source b hsrc)
    have hlive : (ch0Pass io b).dev.hsdma.ch0 =
        ⟨true, b.dev.hsdma.ch0.cnt - 1, b.dev.hsdma.ch0.sadr + 1⟩ := by
      have hne : b.dev.hsdma.ch0.cnt - 1 ≠ 0 := by bv_omega
      rw [ch0_ch0Pass, hen, decide_eq_true hne]
      rfl
    have hsrc' : ∀ k < n + 1,
        (ch0Pass io b).Mapped ((ch0Pass io b).dev.hsdma.ch0.sadr + BitVec.ofNat 32 k) := by
      intro k hk
      have hnext := hsrc (k + 1) (Nat.succ_lt_succ hk)
      rw [add_ofNat_succ] at hnext
      rwa [hlive, Bus.Mapped, Bus.classify, hsame.2.2]
    obtain ⟨hdone, hsame', hdev'⟩ := ih (ch0Pass io b)
      (completed || b.dev.hsdma.ch0.cnt - 1 = 0) (by rw [hlive]) (by rw [hlive]; bv_omega) hsrc'
    rw [ch0Loop_pass io b completed ⟨hen, by bv_omega⟩]
    refine ⟨hdone, ⟨hsame'.1.trans hsame.1, hsame'.2.1.trans hsame.2.1,
      hsame'.2.2.trans hsame.2.2⟩, ?_⟩
    rw [hdev', sourceBytes_of_sameMemory b hsame, hlive, sourceBytes_succ b _ (n + 1), hdev]
    dsimp only
    rw [finishCh0_advanceCh0 (by bv_omega), List.append_assoc]
    rfl

/-! ### A write to `TXD` -/

/-- **The exact stream**: the display has received the byte that was written and then the
source range, the channel is disabled, its count is zero and its source advanced, and the
end of the transfer has been reported once. -/
structure Streamed (b' : Bus DisplayPeripherals) (data : U8) : Prop where
  received : b'.dev.sif3.txd = b.dev.sif3.txd ++
    data :: sourceBytes b b.dev.hsdma.ch0.sadr b.dev.hsdma.ch0.cnt.toNat
  live : b'.dev.hsdma.ch0 = ⟨false, 0, b.dev.hsdma.ch0.sadr + b.dev.hsdma.ch0.cnt⟩
  raw : b'.dev.hsdma.chan 0 =
    { b.dev.hsdma.chan 0 with
      cnt := 0
      sadr := b.dev.hsdma.ch0.sadr + b.dev.hsdma.ch0.cnt
      en := (b.dev.hsdma.chan 0).en &&& ~~~1 }
  completed : b'.dev.ch0Completes = b.dev.ch0Completes + 1
  memory : b'.SameMemory b

/-- **The byte alone**: nothing else has changed. -/
def SentAlone (b' : Bus DisplayPeripherals) (data : U8) : Prop := b' = txdCb data b

/-- **With channel 0 enabled** the transfer ends, and the stream is exact. -/
theorem streamed_onTxdWrite (hen : b.dev.hsdma.ch0.en = true) (hpos : 0 < b.dev.hsdma.ch0.cnt)
    (hsrc : ∀ k < b.dev.hsdma.ch0.cnt.toNat,
      b.Mapped (b.dev.hsdma.ch0.sadr + BitVec.ofNat 32 k)) (data : U8) :
    Streamed b (onTxdWrite io data b) data := by
  obtain ⟨n, hn⟩ := Nat.exists_eq_succ_of_ne_zero
    (show b.dev.hsdma.ch0.cnt.toNat ≠ 0 by bv_omega)
  obtain ⟨hdone, hsame, hdev⟩ := ch0Loop_spec io (txdCb data b) n false hen hn
    (fun k hk => hsrc k (hn ▸ hk))
  rw [onTxdWrite, if_pos (show (txdCb data b).dev.hsdma.ch0.en = true from hen), doCh0Inline]
  dsimp only
  rw [if_pos hdone]
  constructor
  · dsimp only
    rw [hdev, hn]
    exact List.append_assoc ..
  · dsimp only
    rw [hdev]
    rfl
  · dsimp only
    rw [hdev]
    exact chan_finishCh0 _
  · dsimp only
    rw [hdev]
    rfl
  · exact hsame

/-- With channel 0 disabled there is no transfer. -/
theorem sentAlone_onTxdWrite (hen : b.dev.hsdma.ch0.en = false) (data : U8) :
    SentAlone b (onTxdWrite io data b) data :=
  if_neg (by rw [show (txdCb data b).dev.hsdma.ch0.en = false from hen]; exact nofun)

/-- A byte written to `TXD` reaches `on_txd_write`. -/
theorem write8_txd (inner : IoSpace DisplayPeripherals) {addr : U32}
    (h : Bus.Names addr (sif3Base + 1)) (data : U8) :
    (b.write8 (attachSif3 inner io) addr data).1 = onTxdWrite inner data b := by
  have hc : b.classify (Bus.mask28 addr) = .io := by
    rw [← h.classify b]
    exact Bus.regionOf_mask28 _
  have hstatus := (io.registerIo sif3Base (txdHandler inner)).registerIo_of_ne (sif3Base + 2)
    statusHandler (show Bus.ioIndex sif3Base ≠ Bus.ioIndex (sif3Base + 2) by decide +kernel)
  have hctl := ((io.registerIo sif3Base (txdHandler inner)).registerIo (sif3Base + 2)
    statusHandler).registerIo_of_ne (sif3Base + 4) ctlHandler
    (show Bus.ioIndex sif3Base ≠ Bus.ioIndex (sif3Base + 4) by decide +kernel)
  obtain ⟨-, hwrite, hbyte⟩ := io.registerIo_self sif3Base (txdHandler inner)
  have hidx : ((sif3Base + 1 - Bus.ioregBase) / 2).toNat = Bus.ioIndex sif3Base := by
    decide +kernel
  rw [Bus.write8, hc]
  dsimp only
  rw [h.normalize, hidx,
    if_pos (show Bus.ioIndex sif3Base < Bus.iohandlerSpan / 2 by decide +kernel), attachSif3,
    hctl.2.1, hctl.2.2, hstatus.2.1, hstatus.2.2, hwrite, hbyte]
  change (if (sif3Base + 1).getLsbD 0 then onTxdWrite inner ((data.setWidth 16).setWidth 8) b
    else b) = _
  rw [if_pos (by decide), BitVec.setWidth_setWidth_of_le _ (by decide), BitVec.setWidth_eq]

/-- **The inline transfer delivers the exact stream.** In every state of the bus, with
channel 0 enabled, a count above zero and its source range in memory: a byte written to
`TXD` reaches the display, and after it the bytes of the range in their order; then the
channel is at rest. With the channel disabled the byte goes out alone. -/
theorem txd_write (inner io : IoSpace DisplayPeripherals) (b : Bus DisplayPeripherals)
    {addr : U32} (haddr : Bus.Names addr (sif3Base + 1)) (data : U8) :
    (b.dev.hsdma.ch0.en = true → 0 < b.dev.hsdma.ch0.cnt →
      (∀ k < b.dev.hsdma.ch0.cnt.toNat,
        b.Mapped (b.dev.hsdma.ch0.sadr + BitVec.ofNat 32 k)) →
      Streamed b (b.write8 (attachSif3 inner io) addr data).1 data) ∧
    (b.dev.hsdma.ch0.en = false →
      SentAlone b (b.write8 (attachSif3 inner io) addr data).1 data) := by
  rw [write8_txd io b inner haddr]
  exact ⟨fun hen hpos hsrc => streamed_onTxdWrite inner b hen hpos hsrc data,
    fun hen => sentAlone_onTxdWrite inner b hen data⟩

/-- Three bytes of SRAM, and channel 0 programmed to send them. -/
def threeBytes : Bus DisplayPeripherals where
  iram := fun _ => 0
  sram := fun i => if i = 0x10 then 0xAA else if i = 0x11 then 0xBB else 0xCC
  sramSize := 0x40000
  flash := Bus.board.flash
  dev :=
    { hsdma := (((({} : Hsdma).writeSadr 0 fun _ => 0x100010).writeCnt 0 fun _ => 3).onEnWrite
        0 1) }

/-- The byte `0x11` is written, and the three bytes follow it. -/
theorem txd_write_threeBytes :
    (threeBytes.write8 (attachSif3 (.empty _) (.empty _)) 0x0401F5 0x11).1.dev.sif3.txd =
      [0x11, 0xAA, 0xBB, 0xCC] := by
  have hsram : ∀ k : Fin 3, threeBytes.classify (0x100010 + BitVec.ofNat 32 k) = .sram := by
    decide +kernel
  have h := (txd_write (.empty _) (.empty _) threeBytes
    (show Bus.Names 0x0401F5 (sif3Base + 1) by decide +kernel) 0x11).1 (by decide +kernel)
    (by decide +kernel) fun k hk => .inr (.inl (hsram ⟨k, hk⟩))
  rw [h.received]
  decide +kernel

end DisplayPeripherals
