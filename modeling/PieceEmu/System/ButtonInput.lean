import PieceEmu.Lib.BitFields
import PieceEmu.Lib.Run
import PieceEmu.System.HeadlessScript

/-!
# The buttons, from the events of the host

Keyboard, gamepad, stick and joystick all write to the same two registers, and no count is
kept of who holds a button down: an event overwrites what it concerns. The handlers are
tables, and an event comes to a list of switches (`InputEvent.switches`), each of a line and
up or down. So a line is down exactly if the last switch of it was down
(`ButtonState.line_run`), whatever devices the events come from, and a line that no event
concerns stays as it was. The lines that have no button are never down
(`ButtonState.down_of_run`).
-/

/-- `KReg`. -/
inductive KReg
  | none
  | k5
  | k6
  deriving DecidableEq

/-- The scancodes that have a button. -/
inductive Scancode
  | right | left | down | up | z | x | ret | backspace | other
  deriving DecidableEq

/-- The buttons of a gamepad, by their position. -/
inductive GamepadButton
  | dpadRight | dpadLeft | dpadDown | dpadUp | south | east | west | north | start | back | other
  deriving DecidableEq

/-- The axes of a gamepad. -/
inductive GamepadAxis
  | leftX | leftY | other
  deriving DecidableEq

/-- `JoyBtnEntry`. -/
structure JoyBtnEntry where
  reg : KReg := .none
  bit : ℕ := 0
  /-- The handler shifts a 1 to the bit, and only in a word is there a place for it. -/
  bit_lt : bit < 32 := by decide

/-- `UCONSOLE_JOYBTN_MAP`. -/
def uconsoleJoybtnMap : List JoyBtnEntry :=
  [{ reg := .k6, bit := 5 }, { reg := .k6, bit := 5 }, { reg := .k6, bit := 4 },
    { reg := .k6, bit := 4 }, {}, {}, {}, {}, { reg := .k5, bit := 3 }, { reg := .k5, bit := 4 }]

namespace ButtonState

/-- `handle_key`. -/
def handleKey (isDown : Bool) (scancode : Scancode) (btn : ButtonState) : ButtonState :=
  match scancode with
  | .right => { btn with k6 := press btn.k6 0 isDown }
  | .left => { btn with k6 := press btn.k6 1 isDown }
  | .down => { btn with k6 := press btn.k6 2 isDown }
  | .up => { btn with k6 := press btn.k6 3 isDown }
  | .z => { btn with k6 := press btn.k6 4 isDown }
  | .x => { btn with k6 := press btn.k6 5 isDown }
  | .ret => { btn with k5 := press btn.k5 4 isDown }
  | .backspace => { btn with k5 := press btn.k5 3 isDown }
  | .other => btn

/-- `handle_gamepad_button`. -/
def handleGamepadButton (isDown : Bool) (gpButton : GamepadButton) (btn : ButtonState)
    (swapAb : Bool) : ButtonState :=
  let aBit := 5
  let bBit := 4
  match gpButton with
  | .dpadRight => { btn with k6 := press btn.k6 0 isDown }
  | .dpadLeft => { btn with k6 := press btn.k6 1 isDown }
  | .dpadDown => { btn with k6 := press btn.k6 2 isDown }
  | .dpadUp => { btn with k6 := press btn.k6 3 isDown }
  | .south => { btn with k6 := press btn.k6 (if swapAb then bBit else aBit) isDown }
  | .east => { btn with k6 := press btn.k6 (if swapAb then aBit else bBit) isDown }
  | .west => { btn with k6 := press btn.k6 bBit isDown }
  | .north => { btn with k6 := press btn.k6 aBit isDown }
  | .start => { btn with k5 := press btn.k5 4 isDown }
  | .back => { btn with k5 := press btn.k5 3 isDown }
  | .other => btn

/-- `handle_gamepad_axis`. -/
def handleGamepadAxis (axis : GamepadAxis) (value : ℤ) (btn : ButtonState) : ButtonState :=
  let th := 16000
  match axis with
  | .leftX => { btn with k6 := press (press btn.k6 0 (th < value)) 1 (value < -th) }
  | .leftY => { btn with k6 := press (press btn.k6 2 (th < value)) 3 (value < -th) }
  | .other => btn

/-- `handle_joystick_button`. -/
def handleJoystickButton (isDown : Bool) (jsButton : ℤ) (btn : ButtonState)
    (map : List JoyBtnEntry) : ButtonState :=
  if jsButton < 0 ∨ (map.length : ℤ) ≤ jsButton then btn
  else
    let e := map.getD jsButton.toNat {}
    match e.reg with
    | .none => btn
    | .k5 => { btn with k5 := press btn.k5 e.bit isDown }
    | .k6 => { btn with k6 := press btn.k6 e.bit isDown }

end ButtonState

/-! ### Events -/

/-- An event that is given to a handler. -/
inductive InputEvent
  | key (isDown : Bool) (scancode : Scancode)
  | gamepadButton (isDown : Bool) (gpButton : GamepadButton) (swapAb : Bool)
  | gamepadAxis (axis : GamepadAxis) (value : ℤ)
  | joystickButton (isDown : Bool) (jsButton : ℤ) (map : List JoyBtnEntry)

/-- A line of the registers, set up or down. -/
structure Switch where
  reg : KReg
  bit : ℕ
  isDown : Bool
  deriving DecidableEq

namespace InputEvent

/-- The switches of a key. -/
def keySwitch : Scancode → KReg × ℕ
  | .right => (.k6, 0)
  | .left => (.k6, 1)
  | .down => (.k6, 2)
  | .up => (.k6, 3)
  | .z => (.k6, 4)
  | .x => (.k6, 5)
  | .ret => (.k5, 4)
  | .backspace => (.k5, 3)
  | .other => (.none, 0)

/-- The switches of a button: A is at the bottom, or at the right if they are swapped. -/
def buttonSwitch (swapAb : Bool) : GamepadButton → KReg × ℕ
  | .dpadRight => (.k6, 0)
  | .dpadLeft => (.k6, 1)
  | .dpadDown => (.k6, 2)
  | .dpadUp => (.k6, 3)
  | .south => (.k6, if swapAb then 4 else 5)
  | .east => (.k6, if swapAb then 5 else 4)
  | .west => (.k6, 4)
  | .north => (.k6, 5)
  | .start => (.k5, 4)
  | .back => (.k5, 3)
  | .other => (.none, 0)

/-- The switches an event comes to. -/
def switches : InputEvent → List Switch
  | key isDown scancode => [⟨(keySwitch scancode).1, (keySwitch scancode).2, isDown⟩]
  | gamepadButton isDown b swapAb =>
    [⟨(buttonSwitch swapAb b).1, (buttonSwitch swapAb b).2, isDown⟩]
  | gamepadAxis .leftX value => [⟨.k6, 0, 16000 < value⟩, ⟨.k6, 1, value < -16000⟩]
  | gamepadAxis .leftY value => [⟨.k6, 2, 16000 < value⟩, ⟨.k6, 3, value < -16000⟩]
  | gamepadAxis .other _ => []
  | joystickButton isDown n map =>
    if n < 0 then [] else (map[n.toNat]?.map fun e => ⟨e.reg, e.bit, isDown⟩).toList

end InputEvent

namespace ButtonState

/-- An event, handled. -/
def handle (btn : ButtonState) : InputEvent → ButtonState
  | .key isDown scancode => handleKey isDown scancode btn
  | .gamepadButton isDown b swapAb => handleGamepadButton isDown b btn swapAb
  | .gamepadAxis axis value => handleGamepadAxis axis value btn
  | .joystickButton isDown n map => handleJoystickButton isDown n btn map

/-- A switch, applied. -/
def apply (btn : ButtonState) (s : Switch) : ButtonState :=
  match s.reg with
  | .none => btn
  | .k5 => { btn with k5 := press btn.k5 s.bit s.isDown }
  | .k6 => { btn with k6 := press btn.k6 s.bit s.isDown }

/-- A line is down: its bit is clear. -/
def line (btn : ButtonState) (reg : KReg) (bit : ℕ) : Bool :=
  match reg with
  | .none => false
  | .k5 => !btn.k5.getLsbD bit
  | .k6 => !btn.k6.getLsbD bit

/-- **A handler applies the switches of its event.** -/
theorem handle_eq (btn : ButtonState) (e : InputEvent) :
    btn.handle e = e.switches.foldl apply btn := by
  cases e with
  | key isDown scancode => cases scancode <;> rfl
  | gamepadButton isDown b swapAb => cases b <;> rfl
  | gamepadAxis axis value => cases axis <;> rfl
  | joystickButton isDown n map =>
    unfold handle handleJoystickButton InputEvent.switches
    dsimp only
    by_cases hn : n < 0
    · rw [if_pos (.inl hn), if_pos hn]
      rfl
    · rw [if_neg hn]
      rcases Nat.lt_or_ge n.toNat map.length with hlt | hge
      · rw [if_neg (by omega), List.getD_eq_getElem _ _ hlt, List.getElem?_eq_getElem hlt]
        cases hreg : map[n.toNat].reg <;> simp [apply, hreg]
      · rw [if_pos (by omega), List.getElem?_eq_none hge]
        rfl

/-- What `press` does to the bits of a register. -/
theorem getLsbD_press (reg : U8) (bit i : ℕ) (isDown : Bool) (hi : i < 8) :
    (press reg bit isDown).getLsbD i = if i = bit then !isDown else reg.getLsbD i := by
  unfold press
  have hone : ((1 : U8) <<< bit).getLsbD i = decide (i = bit) := by
    rcases Nat.lt_or_ge bit 8 with hlt | hge
    · exact BitFields.getLsbD_one_shiftLeft i hlt
    · have hne : i ≠ bit := by omega
      rw [BitVec.getLsbD_shiftLeft, decide_eq_false hne]
      simp [Nat.lt_of_lt_of_le hi hge]
  cases isDown with
  | false =>
    simp only [Bool.false_eq_true, if_false, BitVec.getLsbD_or, hone]
    split_ifs with h <;> simp [h]
  | true =>
    simp only [if_true, BitVec.getLsbD_and, BitVec.getLsbD_not, hone]
    split_ifs with h <;> simp [h, hi]

/-- A switch sets its own line, and no other. -/
theorem line_apply (btn : ButtonState) (s : Switch) {reg : KReg} (hreg : reg ≠ .none) {bit : ℕ}
    (hbit : bit < 8) :
    (btn.apply s).line reg bit =
      if s.reg = reg ∧ s.bit = bit then s.isDown else btn.line reg bit := by
  obtain ⟨r, b, d⟩ := s
  cases reg with
  | none => exact absurd rfl hreg
  | k5 =>
    cases r with
    | none => simp [apply]
    | k6 => simp [apply, line]
    | k5 =>
      simp only [apply, line, getLsbD_press _ _ _ _ hbit, true_and, eq_comm (a := bit)]
      split_ifs <;> simp
  | k6 =>
    cases r with
    | none => simp [apply]
    | k5 => simp [apply, line]
    | k6 =>
      simp only [apply, line, getLsbD_press _ _ _ _ hbit, true_and, eq_comm (a := bit)]
      split_ifs <;> simp

/-- The last switch of a line. -/
def lastSwitch (reg : KReg) (bit : ℕ) (ss : List Switch) : Option Switch :=
  (ss.filter fun s => s.reg = reg ∧ s.bit = bit).getLast?

theorem line_foldl (btn : ButtonState) (ss : List Switch) {reg : KReg} (hreg : reg ≠ .none)
    {bit : ℕ} (hbit : bit < 8) :
    (ss.foldl apply btn).line reg bit =
      ((lastSwitch reg bit ss).map Switch.isDown).getD (btn.line reg bit) := by
  induction ss using List.reverseRecOn with
  | nil => rfl
  | append_singleton ss s ih =>
    rw [List.foldl_append, List.foldl_cons, List.foldl_nil, line_apply _ _ hreg hbit]
    unfold lastSwitch
    rw [List.filter_append]
    by_cases h : s.reg = reg ∧ s.bit = bit
    · rw [if_pos h, List.filter_cons_of_pos (by simpa using h)]
      simp
    · rw [if_neg h, List.filter_cons_of_neg (by simpa using h), List.filter_nil, List.append_nil]
      exact ih

theorem exec_handle (btn : ButtonState) (events : List InputEvent) :
    ActionRun.exec handle btn events = (events.flatMap InputEvent.switches).foldl apply btn := by
  induction events generalizing btn with
  | nil => rfl
  | cons e events ih =>
    rw [ActionRun.exec_cons, ih, handle_eq, List.flatMap_cons, List.foldl_append]

/-- **A line is down exactly if the last switch of it was down**, for all sequences of events
of the keyboard, of gamepads with either mapping, of sticks, and of joysticks with any maps:
no device holds a button against another, and where no event has concerned a line it is as it
was. -/
theorem line_run (btn : ButtonState) (events : List InputEvent) (reg : KReg) (bit : ℕ)
    (hreg : reg ≠ .none) (hbit : bit < 8) :
    (ActionRun.exec handle btn events).line reg bit =
      ((lastSwitch reg bit (events.flatMap InputEvent.switches)).map Switch.isDown).getD
        (btn.line reg bit) := by
  rw [exec_handle]
  exact line_foldl btn _ hreg hbit

/-- A key is held, and a stick comes to rest: the key counts no more. -/
theorem line_run_stick :
    (ActionRun.exec handle {} [.key true .right, .gamepadAxis .leftX 0]).line .k6 0 = false :=
  (line_run {} [.key true .right, .gamepadAxis .leftX 0] .k6 0 (by decide) (by decide)).trans
    (by decide)

/-- The lines that have a button. -/
def wired : List (KReg × ℕ) :=
  [(.k6, 0), (.k6, 1), (.k6, 2), (.k6, 3), (.k6, 4), (.k6, 5), (.k5, 3), (.k5, 4)]

/-- The joystick events come with the map of the console. -/
def OfConsole : InputEvent → Prop
  | .joystickButton _ _ map => map = uconsoleJoybtnMap
  | _ => True

/-- **The switches are of buttons.** -/
theorem mem_wired_of_switch {e : InputEvent} (he : OfConsole e) {s : Switch}
    (hs : s ∈ e.switches) (hreg : s.reg ≠ .none) : (s.reg, s.bit) ∈ wired := by
  cases e with
  | key isDown scancode =>
    rw [InputEvent.switches, List.mem_singleton] at hs
    subst hs
    dsimp only at hreg ⊢
    revert hreg
    cases scancode <;> decide
  | gamepadButton isDown b swapAb =>
    rw [InputEvent.switches, List.mem_singleton] at hs
    subst hs
    dsimp only at hreg ⊢
    revert hreg
    cases b <;> cases swapAb <;> decide
  | gamepadAxis axis value =>
    cases axis with
    | other => exact absurd hs List.not_mem_nil
    | leftX =>
      rcases List.mem_cons.mp hs with rfl | hs
      · show (KReg.k6, 0) ∈ wired
        decide
      · rw [List.mem_singleton.mp hs]
        show (KReg.k6, 1) ∈ wired
        decide
    | leftY =>
      rcases List.mem_cons.mp hs with rfl | hs
      · show (KReg.k6, 2) ∈ wired
        decide
      · rw [List.mem_singleton.mp hs]
        show (KReg.k6, 3) ∈ wired
        decide
  | joystickButton isDown n map =>
    have hmap : map = uconsoleJoybtnMap := he
    subst hmap
    -- the table of the console names wired keys only
    have hall : ∀ e ∈ uconsoleJoybtnMap, e.reg ≠ .none → (e.reg, e.bit) ∈ wired := by decide
    rw [InputEvent.switches] at hs
    split_ifs at hs
    · exact absurd hs List.not_mem_nil
    · rw [Option.mem_toList, Option.map_eq_some_iff] at hs
      obtain ⟨e, hget, rfl⟩ := hs
      exact hall e (List.mem_of_getElem? hget) hreg

/-- **Only buttons are ever down**: from the released state on, with the map of the console, a
line that is down has a button, and the last event that concerned it pressed it. -/
theorem down_of_run (events : List InputEvent) (hevents : ∀ e ∈ events, OfConsole e)
    (reg : KReg) (bit : ℕ) (hreg : reg ≠ .none) (hbit : bit < 8)
    (h : (ActionRun.exec handle {} events).line reg bit = true) :
    (reg, bit) ∈ wired ∧
      ∃ e ∈ events, ∃ s ∈ e.switches, s.reg = reg ∧ s.bit = bit ∧ s.isDown = true := by
  have hreleased : ({} : ButtonState).line reg bit = false := by
    have hall : ∀ i : Fin 8, ({} : ButtonState).line .k5 i.val = false ∧
        ({} : ButtonState).line .k6 i.val = false := by decide
    cases reg with
    | none => rfl
    | k5 => exact (hall ⟨bit, hbit⟩).1
    | k6 => exact (hall ⟨bit, hbit⟩).2
  rw [exec_handle, line_foldl _ _ hreg hbit, hreleased] at h
  cases hlast : lastSwitch reg bit (events.flatMap InputEvent.switches) with
  | none =>
    rw [hlast] at h
    exact absurd h (by decide)
  | some s =>
    rw [hlast] at h
    have hmem := List.mem_filter.mp (List.mem_of_getLast? hlast)
    obtain ⟨hr, hb⟩ := of_decide_eq_true hmem.2
    obtain ⟨e, he, hs⟩ := List.mem_flatMap.mp hmem.1
    refine ⟨?_, e, he, s, hs, hr, hb, h⟩
    have hwired := mem_wired_of_switch (hevents e he) hs (by rwa [hr])
    rwa [hr, hb] at hwired

end ButtonState
