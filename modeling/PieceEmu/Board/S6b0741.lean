import PieceEmu.Lib.Blit
import PieceEmu.Lib.Words
import Mathlib.Data.Fintype.Basic

/-!
# The display controller

`S6b0741` receives bytes, with their bits in reverse order, and takes them for commands or
for data by the level of P21. Commands set the page and, in two halves, the column; a data
byte goes to the page and column the cursor is at, and the column moves on.

| command | sets |
|---|---|
| `0x00`–`0x0F` | bits 1–4 of the column, and clears bit 0 |
| `0x10`–`0x1F` | bits 5–7 of the column, and clears bit 0 |
| `0xB0`–`0xBF` | the page |

Each half of the column clears what it does not set or keep, so that both together lead to
column 0 from wherever the cursor is, in either order. A page is eight columns of pixels,
the rightmost first, and two bytes for each of its 88 rows; `S6b0741.shows_of_pages`
says what picture the pages make.
-/

/-- `S6b0741`. -/
structure S6b0741 where
  /-- `vram_`: 16 pages of 256 columns. -/
  vram : Fin 16 → U8 → U8 := fun _ _ => 0
  /-- `page_`. -/
  page : Fin 16 := 0
  /-- `col2_`. -/
  col2 : U8 := 0

/-- The array `out[88][128]`: a byte for each row and column. -/
abbrev Raster := ℕ → ℕ → U8

/-- `out[y][x] = v`. -/
def Raster.set (out : Raster) (y x : ℕ) (v : U8) : Raster :=
  Function.update out y (Function.update (out y) x v)

/-- Reversing all 8 bits, as `write` does. -/
def reverseBits (data : U8) : U8 :=
  ((data &&& 0x01) <<< 7) ||| ((data &&& 0x02) <<< 5) ||| ((data &&& 0x04) <<< 3) |||
    ((data &&& 0x08) <<< 1) ||| ((data &&& 0x10) >>> 1) ||| ((data &&& 0x20) >>> 3) |||
    ((data &&& 0x40) >>> 5) ||| ((data &&& 0x80) >>> 7)

namespace S6b0741

variable (lcd : S6b0741)

/-- `reset`. -/
def reset : S6b0741 := {}

/-- `write`, with the level of P21: high for data. -/
def write (p21d : Bool) (data : U8) : S6b0741 :=
  let data := reverseBits data
  if !p21d then
    if data &&& 0xF0 = 0x00 then
      { lcd with col2 := (lcd.col2 &&& 0xE0) ||| ((data &&& 0x0F) <<< 1) }
    else if data &&& 0xF0 = 0x10 then
      { lcd with col2 := (lcd.col2 &&& 0x1E) ||| ((data &&& 0x07) <<< 5) }
    else if data &&& 0xF0 = 0xB0 then { lcd with page := Fin.ofNat 16 (data &&& 0x0F).toNat }
    else lcd
  else
    { lcd with
      vram := Function.update lcd.vram lcd.page
        (Function.update (lcd.vram lcd.page) lcd.col2 data)
      col2 := lcd.col2 + 1 }

/-- The inner loop of `to_pixels`: eight pixels, from column `x` to the left. -/
def eightPixels (out : Raster) (y x : ℕ) (c1 c2 : U8) : Raster :=
  ((List.range 8).foldl (fun (s : Raster × U8 × U8) i =>
    (s.1.set y (x - i) ((s.2.1 &&& 1) <<< 1 ||| (s.2.2 &&& 1)), s.2.1 >>> 1, s.2.2 >>> 1))
    (out, c1, c2)).1

/-- The rightmost column of a page. -/
def pageX (page : Fin 16) : ℕ := 127 - (((page.val : ℤ) - 10) % 16).toNat * 8

/-- The rows of a page. -/
def pagePixels (out : Raster) (page : Fin 16) : Raster :=
  (List.range 88).foldl (fun out col =>
    eightPixels out col (pageX page) (lcd.vram page (BitVec.ofNat 8 (col * 2 + 0)))
      (lcd.vram page (BitVec.ofNat 8 (col * 2 + 1)))) out

/-- `to_pixels`: what it makes of the array it is given. -/
def toPixels (out : Raster) : Raster := (List.finRange 16).foldl lcd.pagePixels out

/-! ### The pixels of a page -/

section

variable (out : Raster) (y x : ℕ)

theorem Raster.set_self (v : U8) : out.set y x v y x = v := by
  rw [Raster.set, Function.update_self, Function.update_self]

theorem Raster.set_of_ne {y' x' : ℕ} (v : U8) (h : y' = y → x' ≠ x) :
    out.set y x v y' x' = out y' x' := by
  rw [Raster.set]
  by_cases hy : y' = y
  · subst hy
    rw [Function.update_self, Function.update_of_ne (h rfl)]
  · rw [Function.update_of_ne hy]

/-- The loop shifts the two bytes as it goes, so that round `i` looks at their bits
`i`. -/
theorem eightPixels_eq (c1 c2 : U8) :
    eightPixels out y x c1 c2 = (List.range 8).foldl (fun out i =>
      out.set y (x - i) (((c1 >>> i) &&& 1) <<< 1 ||| ((c2 >>> i) &&& 1))) out := by
  have hrounds (n : ℕ) : (List.range n).foldl (fun (s : Raster × U8 × U8) i =>
      (s.1.set y (x - i) ((s.2.1 &&& 1) <<< 1 ||| (s.2.2 &&& 1)), s.2.1 >>> 1, s.2.2 >>> 1))
      (out, c1, c2) =
      ((List.range n).foldl (fun out i =>
        out.set y (x - i) (((c1 >>> i) &&& 1) <<< 1 ||| ((c2 >>> i) &&& 1))) out,
        c1 >>> n, c2 >>> n) := by
    induction n with
    | zero => simp
    | succ n ih =>
      rw [List.range_succ, List.foldl_append, List.foldl_append, ih]
      simp only [List.foldl_cons, List.foldl_nil, BitVec.shiftRight_add]
  exact congrArg Prod.fst (hrounds 8)

variable {out y x}

/-- A byte for each of the eight columns, and no other. -/
theorem eightPixels_at (hx : 7 ≤ x) {i : ℕ} (hi : i < 8) (c1 c2 : U8) :
    eightPixels out y x c1 c2 y (x - i) = ((c1 >>> i) &&& 1) <<< 1 ||| ((c2 >>> i) &&& 1) := by
  rw [eightPixels_eq]
  refine foldl_write_once (f := fun out : Raster => out y (x - i)) List.nodup_range
    (List.mem_range.mpr hi) (fun out => Raster.set_self ..) (fun j hj hne out => ?_) out
  have hj8 := List.mem_range.mp hj
  exact Raster.set_of_ne _ _ _ _ fun _ => by omega

theorem eightPixels_of_ne {y' x' : ℕ} (h : y' = y → ∀ i < 8, x' ≠ x - i) (c1 c2 : U8) :
    eightPixels out y x c1 c2 y' x' = out y' x' := by
  rw [eightPixels_eq]
  refine foldl_keep (f := fun out : Raster => out y' x') (fun i hi out => ?_) out
  exact Raster.set_of_ne _ _ _ _ fun hy => h hy i (List.mem_range.mp hi)

end

/-! ### The pages of a picture -/

/-- The pages are 16 blocks of eight columns. -/
theorem pageX_block (page : Fin 16) : pageX page % 8 = 7 ∧ pageX page < 128 := by
  revert page
  decide

theorem pageX_injective : Function.Injective pageX := by
  decide +kernel

/-- Every column lies in one of them. -/
theorem exists_pageX {x : ℕ} (hx : x < 128) : ∃ page, ∃ i < 8, x = pageX page - i := by
  have hall : ∀ k : Fin 16, ∃ page, pageX page = 8 * k + 7 := by decide +kernel
  obtain ⟨page, hpage⟩ := hall ⟨x / 8, by omega⟩
  refine ⟨page, 7 - x % 8, by omega, ?_⟩
  rw [hpage]
  show x = 8 * (x / 8) + 7 - (7 - x % 8)
  omega

variable {lcd} {out : Raster} {y i : ℕ} {page : Fin 16}

/-- What `to_pixels` makes of bit `i` of the two bytes of a row. -/
theorem toPixels_at (hy : y < 88) (hi : i < 8) :
    lcd.toPixels out y (pageX page - i) =
      ((lcd.vram page (BitVec.ofNat 8 (y * 2 + 0)) >>> i) &&& 1) <<< 1 |||
        ((lcd.vram page (BitVec.ofNat 8 (y * 2 + 1)) >>> i) &&& 1) := by
  have hblock := pageX_block page
  -- of the pages one, and of its rows one
  refine foldl_write_once (f := fun out : Raster => out y (pageX page - i))
    (List.nodup_finRange 16) (List.mem_finRange page) (fun out => ?_)
    (fun page' _ hne out => ?_) out
  · refine foldl_write_once (f := fun out : Raster => out y (pageX page - i))
      List.nodup_range (List.mem_range.mpr hy) (fun out => ?_) (fun y' _ hne out => ?_) out
    · exact eightPixels_at (by omega) hi _ _
    · exact eightPixels_of_ne (fun h => absurd h.symm hne) _ _
  · refine foldl_keep (f := fun out : Raster => out y (pageX page - i))
      (fun y' _ out => eightPixels_of_ne (fun _ i' hi' heq => hne ?_) _ _) out
    have hblock' := pageX_block page'
    exact pageX_injective (by omega)

/-! ### Pictures -/

/-- A picture: the two bits of the pixel in row `y < 88` and column `x < 128`. -/
abbrev Picture := ℕ → ℕ → BitVec 2

/-- The display shows a picture. -/
def Shows (lcd : S6b0741) (img : Picture) : Prop :=
  ∀ out, ∀ y < 88, ∀ x < 128, lcd.toPixels out y x = (img y x).setWidth 8

/-- **The layout of the pages**: page 0 has the columns from 79 to the left, page 9 those
from 7, and page 10 those from 127. -/
def pageColumn (page : Fin 16) : ℕ :=
  if page.val ≤ 9 then 79 - 8 * page else 127 - 8 * (page - 10)

theorem pageX_eq (page : Fin 16) : pageX page = pageColumn page := by
  revert page
  decide

/-- One bit of the eight pixels of a row in a page. -/
def plane (img : Picture) (page : Fin 16) (y bit : ℕ) : U8 :=
  (BitVec.ofBoolListLE ((List.range 8).map fun i =>
    (img y (pageColumn page - i)).getLsbD bit)).setWidth 8

/-- The bytes of a page: for each row the high bits, and then the low ones. -/
def pageBytes (img : Picture) (page : Fin 16) : List U8 :=
  (List.range 176).map fun c => plane img page (c / 2) (1 - c % 2)

/-- The bytes are in the columns from 0 on. -/
def HasPage (lcd : S6b0741) (img : Picture) (page : Fin 16) : Prop :=
  ∀ c < 176, lcd.vram page (BitVec.ofNat 8 c) = plane img page (c / 2) (1 - c % 2)

/-- The two bits of a pixel, put together. -/
theorem pixel_of_planes {a b : U8} {p : BitVec 2} {i : ℕ} (ha : a.getLsbD i = p.getLsbD 1)
    (hb : b.getLsbD i = p.getLsbD 0) :
    ((a >>> i) &&& 1) <<< 1 ||| ((b >>> i) &&& 1) = p.setWidth 8 := by
  have hbit (c : U8) : (c >>> i) &&& 1 = (BitVec.ofBool (c.getLsbD i)).setWidth 8 := by
    change (c >>> i) &&& 1#8 = _
    rw [BitVec.and_one_eq_setWidth_ofBool_getLsbD, BitVec.getLsbD_ushiftRight, Nat.add_zero]
  have hpixel : ∀ p : BitVec 2, (BitVec.ofBool (p.getLsbD 1)).setWidth 8 <<< 1 |||
      (BitVec.ofBool (p.getLsbD 0)).setWidth 8 = p.setWidth 8 := by decide
  rw [hbit, hbit, ha, hb]
  exact hpixel p

/-- **The pages make the picture.** -/
theorem shows_of_pages {img : Picture} (h : ∀ page, lcd.HasPage img page) : lcd.Shows img := by
  intro out y hy x hx
  obtain ⟨page, i, hi, rfl⟩ := exists_pageX hx
  have hplane (bit : ℕ) : (plane img page y bit).getLsbD i =
      (img y (pageX page - i)).getLsbD bit := by
    rw [plane, pageX_eq, BitVec.getLsbD_setWidth, BitVec.getLsbD_ofBoolListLE, decide_eq_true hi]
    simp [hi]
  have hhigh := h page (y * 2 + 0) (by omega)
  have hlow := h page (y * 2 + 1) (by omega)
  rw [show (y * 2 + 0) / 2 = y by omega, show 1 - (y * 2 + 0) % 2 = 1 by omega] at hhigh
  rw [show (y * 2 + 1) / 2 = y by omega, show 1 - (y * 2 + 1) % 2 = 0 by omega] at hlow
  rw [toPixels_at hy hi, hhigh, hlow]
  exact pixel_of_planes (hplane 1) (hplane 0)

/-! ### Bytes on the wire -/

/-- The bytes that arrive, each with the level of P21. -/
def receive (lcd : S6b0741) (bytes : List (Bool × U8)) : S6b0741 :=
  bytes.foldl (fun lcd b => lcd.write b.1 b.2) lcd

/-- A byte as it is on the wire. -/
def wire (p21d : Bool) (data : U8) : Bool × U8 := (p21d, data.reverse)

/-- The commands in front of the data of a page: the page, and the two halves of
column 0. -/
def pageCommands (page : Fin 16) (lowFirst : Bool) : List (Bool × U8) :=
  wire false (0xB0 ||| BitVec.ofNat 8 page) ::
    if lowFirst then [wire false 0x00, wire false 0x10] else [wire false 0x10, wire false 0x00]

/-- A page of a picture. -/
def pageStream (img : Picture) (page : Fin 16) (lowFirst : Bool) : List (Bool × U8) :=
  pageCommands page lowFirst ++ (pageBytes img page).map (wire true)

/-- **A picture**, its pages in some order. -/
def pictureStream (img : Picture) (order : Equiv.Perm (Fin 16)) (lowFirst : Fin 16 → Bool) :
    List (Bool × U8) :=
  (List.finRange 16).flatMap fun k => pageStream img (order k) (lowFirst k)

theorem reverseBits_reverse (b : U8) : reverseBits b.reverse = b := by
  revert b
  decide +kernel

variable (lcd)

@[simp] theorem receive_nil : lcd.receive [] = lcd := rfl

@[simp] theorem receive_cons (b : Bool × U8) (bytes : List (Bool × U8)) :
    lcd.receive (b :: bytes) = (lcd.write b.1 b.2).receive bytes := rfl

theorem receive_append (bs cs : List (Bool × U8)) :
    lcd.receive (bs ++ cs) = (lcd.receive bs).receive cs := List.foldl_append

/-- A command writes no byte of the picture. -/
theorem write_command_vram (data : U8) : (lcd.write false data).vram = lcd.vram := by
  unfold write
  dsimp only
  split_ifs <;> first | rfl | contradiction

/-- **Commands leave the picture alone.** -/
theorem receive_commands_vram {bytes : List (Bool × U8)} (h : ∀ b ∈ bytes, b.1 = false) :
    (lcd.receive bytes).vram = lcd.vram := by
  refine foldl_keep (fun b hb lcd => ?_) lcd
  rw [h b hb]
  exact lcd.write_command_vram b.2

/-- The picture is a matter of the bytes of the pages. -/
theorem toPixels_congr {lcd lcd' : S6b0741} (h : lcd'.vram = lcd.vram) (out : Raster) :
    lcd'.toPixels out = lcd.toPixels out := by
  unfold toPixels pagePixels
  rw [h]

theorem write_data (data : U8) :
    lcd.write true data.reverse =
      { lcd with
        vram := Function.update lcd.vram lcd.page
          (Function.update (lcd.vram lcd.page) lcd.col2 data)
        col2 := lcd.col2 + 1 } := by
  unfold write
  rw [reverseBits_reverse]
  rfl

/-- **Both halves of the column together lead to column 0**, in either order and from
wherever the cursor is. -/
theorem receive_pageCommands (page : Fin 16) (lowFirst : Bool) :
    lcd.receive (pageCommands page lowFirst) = { lcd with page := page, col2 := 0 } := by
  have hpage : ∀ page : Fin 16, (0xB0 ||| BitVec.ofNat 8 page : U8) &&& 0xF0 = 0xB0 ∧
      Fin.ofNat 16 ((0xB0 ||| BitVec.ofNat 8 page : U8) &&& 0x0F).toNat = page := by decide +kernel
  have hcol (c : U8) : (c &&& 0xE0 ||| ((0x00 : U8) &&& 0x0F) <<< 1) &&& 0x1E |||
      ((0x10 : U8) &&& 0x07) <<< 5 = 0 ∧
      (c &&& 0x1E ||| ((0x10 : U8) &&& 0x07) <<< 5) &&& 0xE0 |||
        ((0x00 : U8) &&& 0x0F) <<< 1 = 0 := by
    revert c
    decide +kernel
  obtain ⟨hcmd, hnum⟩ := hpage page
  have hfirst : lcd.write false (0xB0 ||| BitVec.ofNat 8 page : U8).reverse =
      { lcd with page := page } := by
    unfold write
    rw [reverseBits_reverse]
    dsimp only
    rw [hcmd, hnum]
    rfl
  rw [pageCommands, receive_cons, wire, hfirst]
  cases lowFirst with
  | false => exact congrArg (fun c => ({ lcd with page := page, col2 := c } : S6b0741)) (hcol _).2
  | true => exact congrArg (fun c => ({ lcd with page := page, col2 := c } : S6b0741)) (hcol _).1

/-- **The data bytes** fill the columns of the page from the cursor on. -/
theorem receive_data (bs : List U8) (k : ℕ) (hcol : lcd.col2 = BitVec.ofNat 8 k)
    (hk : k + bs.length ≤ 256) :
    (∀ page ≠ lcd.page, (lcd.receive (bs.map (wire true))).vram page = lcd.vram page) ∧
      ∀ c < 256, (lcd.receive (bs.map (wire true))).vram lcd.page (BitVec.ofNat 8 c) =
        blit (fun c => lcd.vram lcd.page (BitVec.ofNat 8 c)) k bs c := by
  induction bs generalizing lcd k with
  | nil => exact ⟨fun _ _ => rfl, fun c _ => by rw [blit_nil]; rfl⟩
  | cons b bs ih =>
    have hwrite := lcd.write_data b
    have hpage : (lcd.write true b.reverse).page = lcd.page := by rw [hwrite]
    have hcol' : (lcd.write true b.reverse).col2 = BitVec.ofNat 8 (k + 1) := by
      rw [hwrite, BitVec.ofNat_add, ← hcol]
      rfl
    rw [List.length_cons] at hk
    obtain ⟨hother, hself⟩ := ih (lcd.write true b.reverse) (k + 1) hcol' (by omega)
    rw [hpage] at hother hself
    constructor
    · intro page hne
      refine (hother page hne).trans ?_
      rw [hwrite]
      exact Function.update_of_ne hne ..
    · intro c hc
      refine (hself c hc).trans ?_
      rw [← List.singleton_append, blit_append]
      refine blit_congr ?_ _ _
      -- the first byte is where the cursor was
      rw [hwrite, hcol]
      dsimp only
      rw [Function.update_self]
      by_cases hck : c = k
      · subst hck
        rw [Function.update_self, blit_of_mem le_rfl (by simp)]
        simp
      · have hne : BitVec.ofNat 8 c ≠ BitVec.ofNat 8 k := fun h => hck <| by
          have hnat := congrArg BitVec.toNat h
          rwa [BitVec.toNat_ofNat, BitVec.toNat_ofNat, Nat.mod_eq_of_lt hc,
            Nat.mod_eq_of_lt (by omega)] at hnat
        rw [Function.update_of_ne hne, blit_of_not_mem (by rw [List.length_singleton]; omega)]

/-- **A page of a picture**, sent from anywhere, is there afterwards, and the other pages
are as they were. -/
theorem receive_pageStream (img : Picture) (page : Fin 16) (lowFirst : Bool) :
    (lcd.receive (pageStream img page lowFirst)).HasPage img page ∧
      ∀ page' ≠ page, (lcd.receive (pageStream img page lowFirst)).vram page' = lcd.vram page' := by
  have hlen : (pageBytes img page).length = 176 := by
    rw [pageBytes, List.length_map, List.length_range]
  rw [pageStream, receive_append, receive_pageCommands]
  obtain ⟨hother, hself⟩ := receive_data { lcd with page := page, col2 := 0 }
    (pageBytes img page) 0 rfl (by omega)
  refine ⟨fun c hc => ?_, hother⟩
  rw [hself c (by omega), pageBytes, blit_map_range (Nat.zero_le c) (by omega), Nat.sub_zero]

/-- **A picture is shown when its pages have arrived**, in any order. -/
theorem shows_receive (img : Picture) (order : Equiv.Perm (Fin 16)) (lowFirst : Fin 16 → Bool) :
    (lcd.receive (pictureStream img order lowFirst)).Shows img := by
  refine shows_of_pages fun page c hc => ?_
  rw [receive, pictureStream, List.foldl_flatMap]
  refine foldl_write_once (f := fun lcd : S6b0741 => lcd.vram page (BitVec.ofNat 8 c))
    (List.nodup_finRange 16) (List.mem_finRange (order.symm page)) (fun lcd => ?_)
    (fun k _ hne lcd => ?_) lcd
  · obtain ⟨hpage, -⟩ := lcd.receive_pageStream img (order (order.symm page))
      (lowFirst (order.symm page))
    rw [order.apply_symm_apply] at hpage
    rw [order.apply_symm_apply]
    exact hpage c hc
  · obtain ⟨-, hother⟩ := lcd.receive_pageStream img (order k) (lowFirst k)
    have hpage : page ≠ order k := fun h => hne ((order.symm_apply_eq.mpr h).symm)
    exact congrFun (hother page hpage) _

end S6b0741
