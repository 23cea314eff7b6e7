import PieceEmu.Core.StackWords
import PieceEmu.Core.StepCases
import PieceEmu.Core.DelaySlot

/-!
# Nested register saves

`pushn %rn` stores `r0` to `rn` below the stack pointer, the highest register first, and
`popn %rn` loads them back, the lowest first. Between the two a program may change
registers and save others. A *balanced* stretch of a program (`Machine.StackBlock`) is
built from stretches that leave the stack alone, from sequences, and from a balanced body
between `pushn %rn` and `popn %rn`:

| block | words of stack | stack pointer after | registers after |
|---|---|---|---|
| `plain k` | 0 | the same | any |
| `seq a b` | those of the greater part | the same | those of `b` |
| `save n body` | `n + 1` and those of the body | the same | `r0` to `rn` as before |

The stack region of a block is a run of words of RAM below the stack pointer
(`Bus.StackRegion`). The frame a `pushn` leaves there (`Machine.Pushed`) lies above the
region of the body, so the body cannot touch it, and `popn` finds it again.
-/

/-! ### The stack region -/

namespace Bus

variable {D : Type} (io : IoSpace D)

/-- The address of the `k`-th word below a stack pointer. -/
def below (sp : U32) (k : ℕ) : U32 := sp - BitVec.ofNat 32 (4 * (k + 1))

theorem below_below (sp : U32) (n k : ℕ) :
    below (sp - BitVec.ofNat 32 (4 * n)) k = below sp (n + k) := by
  rw [below, below, BitVec.sub_sub, ← BitVec.ofNat_add]
  congr 2
  omega

/-- A byte of the word at an address. -/
def InWord (a : U32) (c : ℕ) : Prop := flatIndex a ≤ c ∧ c < flatIndex a + 4

/-- The `n` words below a stack pointer are words of RAM, and no two of them share a
byte: the region does not hold an address together with its mirror. -/
structure StackRegion (b : Bus D) (sp : U32) (n : ℕ) : Prop where
  word : ∀ k < n, b.StackWord (below sp k)
  apart : ∀ j < n, ∀ k < n, j ≠ k → ∀ c, InWord (below sp j) c → ¬InWord (below sp k) c

/-- The bytes of a region. -/
def InRegion (sp : U32) (n c : ℕ) : Prop := ∃ k < n, InWord (below sp k) c

variable {b : Bus D} {sp : U32} {n w : ℕ}

theorem StackRegion.mono (h : b.StackRegion sp n) (hw : w ≤ n) : b.StackRegion sp w where
  word k hk := h.word k (Nat.lt_of_lt_of_le hk hw)
  apart j hj k hk := h.apart j (Nat.lt_of_lt_of_le hj hw) k (Nat.lt_of_lt_of_le hk hw)

/-- What lies below the first words of a region is a region. -/
theorem StackRegion.rest (h : b.StackRegion sp (n + w)) :
    b.StackRegion (sp - BitVec.ofNat 32 (4 * n)) w where
  word k hk := below_below sp n k ▸ h.word (n + k) (Nat.add_lt_add_left hk n)
  apart j hj k hk hne c := by
    rw [below_below, below_below]
    exact h.apart (n + j) (Nat.add_lt_add_left hj n) (n + k) (Nat.add_lt_add_left hk n)
      (fun heq => hne (Nat.add_left_cancel heq)) c

theorem inRegion_rest {c : ℕ} (h : InRegion (sp - BitVec.ofNat 32 (4 * n)) w c) :
    InRegion sp (n + w) c := by
  obtain ⟨k, hk, hc⟩ := h
  rw [below_below] at hc
  exact ⟨n + k, Nat.add_lt_add_left hk n, hc⟩

theorem InRegion.mono {c : ℕ} (h : InRegion sp w c) (hw : w ≤ n) : InRegion sp n c := by
  obtain ⟨k, hk, hc⟩ := h
  exact ⟨k, Nat.lt_of_lt_of_le hk hw, hc⟩

/-- The words of a region keep what is written outside of them. -/
theorem le32_of_kept {m m' : ℕ → U8} {a : U32} (h : ∀ c, InWord a c → m' c = m c) :
    Words.le32 m' (flatIndex a) = Words.le32 m (flatIndex a) :=
  Words.le32_congr fun j hlo hhi => h j ⟨hlo, hhi⟩

/-- Two buses place their memories at the same addresses. -/
def SameLayout (b' b : Bus D) : Prop := ∀ a, b'.StackWord a ↔ b.StackWord a

theorem StackRegion.of_sameLayout {b' : Bus D} (h : b.StackRegion sp n) (hl : b'.SameLayout b) :
    b'.StackRegion sp n :=
  ⟨fun k hk => (hl _).mpr (h.word k hk), h.apart⟩

/-- **Words of RAM form a region**, if they are all in SRAM or take no more than the 8 KB of
the internal RAM. -/
theorem StackRegion.of_words (h : ∀ k < n, b.StackWord (below sp k))
    (hn : n ≤ 2 ^ 11 ∨ ∀ k < n, b.classify (below sp k) = .sram) : b.StackRegion sp n := by
  refine ⟨h, fun j hj k hk hne c hc hc' => ?_⟩
  have hbelow (i : ℕ) : (mask28 (below sp i)).toNat =
      (2 ^ 32 - 4 * (i + 1) % 2 ^ 32 + sp.toNat) % 2 ^ 28 := by
    rw [toNat_mask28, below, BitVec.toNat_sub, BitVec.toNat_ofNat,
      Nat.mod_mod_of_dvd _ (by decide : 2 ^ 28 ∣ 2 ^ 32)]
  -- words that share a byte are the same word
  have hindex : flatIndex (below sp j) = flatIndex (below sp k) := by
    have hj4 := (h j hj).flatIndex_mod
    have hk4 := (h k hk).flatIndex_mod
    obtain ⟨hlo, hhi⟩ := hc
    obtain ⟨hlo', hhi'⟩ := hc'
    omega
  have hjb := hbelow j
  have hkb := hbelow k
  have hjlt := (h j hj).toNat_lt
  have hklt := (h k hk).toNat_lt
  unfold flatIndex at hindex
  dsimp only at hindex
  rcases hn with hn | hn
  · split_ifs at hindex <;> omega
  · have hsram {i : ℕ} (hi : i < n) : 0x100000 ≤ (mask28 (below sp i)).toNat ∧
        (mask28 (below sp i)).toNat < 0x200000 :=
      regionOf_eq_sram_iff.mp (hn i hi)
    have hjs := hsram hj
    have hks := hsram hk
    rw [if_neg (by omega), if_neg (by omega)] at hindex
    -- a whole turn of the address space lies between the two, and leaves SRAM
    rcases Nat.lt_or_gt_of_ne hne with hlt | hlt
    · have hmid := hsram (i := j + 2 ^ 18) (by omega)
      have hmb := hbelow (j + 2 ^ 18)
      omega
    · have hmid := hsram (i := k + 2 ^ 18) (by omega)
      have hmb := hbelow (k + 2 ^ 18)
      omega

theorem SameCells.sameLayout {b' : Bus D} (h : b'.SameCells b) : b'.SameLayout b := by
  intro a
  unfold StackWord classify
  rw [h.2.2.1, h.2.2.2]

end Bus

/-! ### One frame -/

namespace Machine

variable {D : Type} (io : IoSpace D)

/-- The registers below `n` have been pushed, the highest first. -/
structure Pushed (m m' : Machine D) (n : ℕ) : Prop where
  cpu : m'.cpu = { m.cpu with sp := m.cpu.sp - BitVec.ofNat 32 (4 * n) }
  breakpoints : m'.breakpoints = m.breakpoints
  strict : m'.strict = m.strict
  layout : m'.bus.SameLayout m.bus
  faultPending : m'.bus.faultPending = m.bus.faultPending
  saved : ∀ j < n, Words.le32 m'.bus.flatByte
    (Bus.flatIndex (Bus.below m.cpu.sp (n - 1 - j))) = m.cpu.r (BitVec.ofNat 4 j)
  kept : ∀ c, ¬Bus.InRegion m.cpu.sp n c → m'.bus.flatByte c = m.bus.flatByte c

/-- **Pushing one register.** -/
theorem push_spec {m : Machine D} {v : U32} (h : m.bus.StackWord (Bus.below m.cpu.sp 0)) :
    (m.push io v).cpu = { m.cpu with sp := m.cpu.sp - 4 } ∧
      (m.push io v).breakpoints = m.breakpoints ∧ (m.push io v).strict = m.strict ∧
      (m.push io v).bus.SameLayout m.bus ∧
      (m.push io v).bus.faultPending = m.bus.faultPending ∧
      (m.push io v).bus.flatByte =
        Words.putLe32 m.bus.flatByte (Bus.flatIndex (Bus.below m.cpu.sp 0)) v := by
  have h : m.bus.StackWord (m.cpu.sp - 4) := h
  rw [push_eq io (h.write32_quiet io v).1]
  exact ⟨rfl, rfl, rfl, fun a => h.write32 io v, (h.write32_quiet io v).2,
    h.flatByte_write32 io v⟩

/-- **The loop of `pushn`**, by induction on the register it starts from. -/
theorem pushFrom_spec (i : ℕ) (m : Machine D) (h : m.bus.StackRegion m.cpu.sp (i + 1)) :
    Pushed m (pushFrom io i m) (i + 1) := by
  induction i generalizing m with
  | zero =>
    obtain ⟨hcpu, hbreak, hstrict, hlayout, hfault, hbytes⟩ :=
      push_spec io (v := m.cpu.r 0) (h.word 0 (Nat.succ_pos 0))
    refine ⟨hcpu, hbreak, hstrict, hlayout, hfault, fun j hj => ?_, fun c hc => ?_⟩
    · obtain rfl : j = 0 := Nat.lt_one_iff.mp hj
      exact (congrArg (Words.le32 · _) hbytes).trans (Words.le32_putLe32 ..)
    · refine (congrFun hbytes c).trans (Words.putLe32_of_ne ?_)
      by_contra hin
      exact hc ⟨0, Nat.succ_pos 0, by omega, by omega⟩
  | succ i ih =>
    obtain ⟨hcpu, hbreak, hstrict, hlayout, hfault, hbytes⟩ :=
      push_spec io (v := m.cpu.r (BitVec.ofNat 4 (i + 1))) (h.word 0 (Nat.succ_pos _))
    -- after the first word the rest of the loop runs one word further down
    set m₁ := m.push io (m.cpu.r (BitVec.ofNat 4 (i + 1)))
    have hsp : m₁.cpu.sp = m.cpu.sp - BitVec.ofNat 32 (4 * 1) := congrArg CpuState.sp hcpu
    have hr : m₁.cpu.r = m.cpu.r := (congrArg CpuState.r hcpu :)
    have hrest : m₁.bus.StackRegion m₁.cpu.sp (i + 1) := by
      rw [hsp]
      exact (Bus.StackRegion.rest (Nat.add_comm 1 (i + 1) ▸ h)).of_sameLayout hlayout
    have hp := ih m₁ hrest
    have hbelow (k : ℕ) : Bus.below m₁.cpu.sp k = Bus.below m.cpu.sp (1 + k) := by
      rw [hsp, Bus.below_below]
    have hin {c : ℕ} (hc : Bus.InRegion m₁.cpu.sp (i + 1) c) : ∃ k, 0 < k ∧ k < i + 1 + 1 ∧
        Bus.InWord (Bus.below m.cpu.sp k) c := by
      obtain ⟨k, hk, hc⟩ := hc
      exact ⟨1 + k, by omega, by omega, hbelow k ▸ hc⟩
    refine ⟨?_, hp.breakpoints.trans hbreak, hp.strict.trans hstrict,
      fun a => (hp.layout a).trans (hlayout a), hp.faultPending.trans hfault,
      fun j hj => ?_, fun c hc => ?_⟩
    · refine hp.cpu.trans ?_
      have hend : m₁.cpu.sp - BitVec.ofNat 32 (4 * (i + 1)) =
          m.cpu.sp - BitVec.ofNat 32 (4 * (i + 1 + 1)) := by
        rw [hsp, BitVec.sub_sub, ← BitVec.ofNat_add]
        congr 2
        omega
      rw [hend, hcpu]
    · rcases Nat.lt_succ_iff_lt_or_eq.mp hj with hj | rfl
      · have hsaved := hp.saved j hj
        rw [hbelow, hr] at hsaved
        rwa [show i + 1 + 1 - 1 - j = 1 + (i + 1 - 1 - j) by omega]
      · -- the first word pushed lies above the words of the rest of the loop
        rw [show i + 1 + 1 - 1 - (i + 1) = 0 by omega, Bus.le32_of_kept (m := m₁.bus.flatByte)]
        · exact (congrArg (Words.le32 · _) hbytes).trans (Words.le32_putLe32 ..)
        · intro c hc
          refine hp.kept c fun hrest => ?_
          obtain ⟨k, hpos, hk, hc'⟩ := hin hrest
          exact h.apart 0 (Nat.succ_pos _) k hk (Nat.ne_of_lt hpos) c hc hc'
    · refine (hp.kept c fun hrest => ?_).trans ((congrFun hbytes c).trans
        (Words.putLe32_of_ne ?_))
      · obtain ⟨k, -, hk, hc'⟩ := hin hrest
        exact hc ⟨k, hk, hc'⟩
      · by_contra hword
        exact hc ⟨0, Nat.succ_pos _, by omega, by omega⟩

/-- The registers from `i` up to `i + n` have been loaded from the words above the stack
pointer. -/
structure Popped (m m' : Machine D) (i n : ℕ) : Prop where
  cpu : m'.cpu = { m.cpu with r := m'.cpu.r, sp := m.cpu.sp + BitVec.ofNat 32 (4 * n) }
  breakpoints : m'.breakpoints = m.breakpoints
  strict : m'.strict = m.strict
  cells : m'.bus.SameCells m.bus
  faultPending : m'.bus.faultPending = m.bus.faultPending
  loaded : ∀ j < n, m'.cpu.r (BitVec.ofNat 4 (i + j)) =
    Words.le32 m.bus.flatByte (Bus.flatIndex (m.cpu.sp + BitVec.ofNat 32 (4 * j)))
  others : ∀ x : BitVec 4, (∀ j < n, x ≠ BitVec.ofNat 4 (i + j)) → m'.cpu.r x = m.cpu.r x

/-- **The loop of `popn`**, by induction on the number of its turns. -/
theorem popFrom_spec (n i : ℕ) (m : Machine D) (hreg : i + n ≤ 16)
    (h : ∀ j < n, m.bus.StackWord (m.cpu.sp + BitVec.ofNat 32 (4 * j))) :
    Popped m (popFrom io n i m) i n := by
  induction n generalizing i m with
  | zero =>
    refine ⟨?_, rfl, rfl, ⟨rfl, rfl, rfl, rfl⟩, rfl, fun j hj => absurd hj (Nat.not_lt_zero j),
      fun x _ => rfl⟩
    have hsp : m.cpu.sp + BitVec.ofNat 32 (4 * 0) = m.cpu.sp := BitVec.add_zero m.cpu.sp
    rw [hsp]
    rfl
  | succ n ih =>
    have hword : m.bus.StackWord m.cpu.sp := by
      have h0 := h 0 (Nat.succ_pos n)
      rwa [Nat.mul_zero, BitVec.add_zero] at h0
    -- after the first word the rest of the loop runs one word further up
    set v := (m.bus.read32 io m.cpu.sp).1
    set m₁ : Machine D := { m with
      bus := (m.bus.read32 io m.cpu.sp).2
      cpu := { m.cpu with
        r := Function.update m.cpu.r (BitVec.ofNat 4 i) v
        sp := m.cpu.sp + 4 } }
    have hcells : m₁.bus.SameCells m.bus := Bus.read32_sameCells io m.bus m.cpu.sp
    have hoff (j : ℕ) : m.cpu.sp + 4 + BitVec.ofNat 32 (4 * j) =
        m.cpu.sp + BitVec.ofNat 32 (4 * (j + 1)) := by
      rw [BitVec.add_assoc, Nat.mul_add, Nat.add_comm (4 * j), BitVec.ofNat_add]
      rfl
    have hp : Popped m₁ (popFrom io n (i + 1) m₁) (i + 1) n := by
      refine ih (i + 1) m₁ (by omega) fun j hj => ?_
      change m₁.bus.StackWord (m.cpu.sp + 4 + _)
      rw [hoff]
      exact hcells.stackWord (h (j + 1) (Nat.succ_lt_succ hj))
    have hne {j : ℕ} (hj : j < n) : BitVec.ofNat 4 i ≠ BitVec.ofNat 4 (i + 1 + j) := by
      intro heq
      have heq := congrArg BitVec.toNat heq
      rw [BitVec.toNat_ofNat, BitVec.toNat_ofNat] at heq
      omega
    change Popped m (popFrom io n (i + 1) m₁) i (n + 1)
    refine ⟨?_, hp.breakpoints, hp.strict, hp.cells.trans hcells,
      hp.faultPending.trans (hword.read32_faultPending io), fun j hj => ?_, fun x hx => ?_⟩
    · refine hp.cpu.trans ?_
      have hsp : m₁.cpu.sp + BitVec.ofNat 32 (4 * n) = m.cpu.sp + BitVec.ofNat 32 (4 * (n + 1)) :=
        hoff n
      rw [hsp]
    · rcases j with _ | j
      · refine (hp.others (BitVec.ofNat 4 i) fun j hj => hne hj).trans ?_
        refine (Function.update_self ..).trans ?_
        refine (hword.read32_eq io).trans ?_
        exact congrArg (fun a => Words.le32 m.bus.flatByte (Bus.flatIndex a))
          (BitVec.add_zero m.cpu.sp).symm
      · have hloaded := hp.loaded j (Nat.lt_of_succ_lt_succ hj)
        rw [hcells.flatByte, show m₁.cpu.sp = m.cpu.sp + 4 from rfl, hoff] at hloaded
        rwa [show i + (j + 1) = i + 1 + j by omega]
    · have hxi : x ≠ BitVec.ofNat 4 i := hx 0 (Nat.succ_pos n)
      rw [hp.others x fun j hj => ?_]
      · exact Function.update_of_ne hxi v m.cpu.r
      · rw [show i + 1 + j = i + (j + 1) by omega]
        exact hx (j + 1) (Nat.succ_lt_succ hj)

/-! ### The two instructions -/

/-- Between two instructions: no slot is open, no prefix, trap or fault is pending. -/
structure AtRest (m : Machine D) : Prop where
  slot : m.cpu.inDelaySlot = false
  prefixes : m.cpu.pendingExtCount = 0
  deferred : m.cpu.deferredTrapValid = false
  busFault : m.bus.faultPending = false

/-- The machine is about to execute a save or a restore of `r0` to `rn`. -/
structure Saves (m : Machine D) (h : Handler) (n : BitVec 4) : Prop where
  running : m.running = true
  handler : m.handlerAtPc = h
  rd : m.insnAtPc.rd = n

theorem AtRest.fetched {m : Machine D} (h : m.AtRest) : m.fetched.AtRest := by
  obtain ⟨cycles, hbus⟩ := m.bus.fetch16_withCycles m.cpu.pc
  refine ⟨h.slot, h.prefixes, h.deferred, ?_⟩
  change (m.bus.fetch16 m.cpu.pc).2.faultPending = false
  rw [hbus]
  exact h.busFault

/-- A handler that leaves the machine at rest ends its step. -/
theorem AtRest.step_eq {m : Machine D} (h : m.AtRest) (hrun : m.running = true)
    (hdone : (m.handlerAtPc.run io m.insnAtPc m.fetched).AtRest) :
    m.step io = m.handlerAtPc.run io m.insnAtPc m.fetched := by
  rw [step_outside_slot io hrun h.slot (.inl h.prefixes)]
  exact settled io hdone.busFault hdone.deferred

/-- **The step of `pushn`.** -/
theorem step_pushn {m : Machine D} {n : BitVec 4} (h : m.AtRest) (hs : m.Saves .pushn n)
    (hroom : m.bus.StackRegion m.cpu.sp (n.toNat + 1)) :
    (m.step io).AtRest ∧ Pushed m.fetched.flushExt (m.step io) (n.toNat + 1) := by
  have hregion : m.fetched.flushExt.bus.StackRegion m.fetched.flushExt.cpu.sp (n.toNat + 1) :=
    hroom.of_sameLayout (fetched_sameCells m).sameLayout
  have hpushed := pushFrom_spec io n.toNat m.fetched.flushExt hregion
  have hrun : m.handlerAtPc.run io m.insnAtPc m.fetched =
      pushFrom io n.toNat m.fetched.flushExt := by
    rw [hs.handler, ← hs.rd]
    rfl
  have hrest : (pushFrom io n.toNat m.fetched.flushExt).AtRest := by
    refine ⟨?_, ?_, ?_, hpushed.faultPending.trans h.fetched.busFault⟩
    · rw [hpushed.cpu]
      exact h.slot
    · rw [hpushed.cpu]
      rfl
    · rw [hpushed.cpu]
      exact h.deferred
  rw [h.step_eq io hs.running (hrun ▸ hrest), hrun]
  exact ⟨hrest, hpushed⟩

/-- **The step of `popn`.** -/
theorem step_popn {m : Machine D} {n : BitVec 4} (h : m.AtRest) (hs : m.Saves .popn n)
    (hwords : ∀ j < n.toNat + 1, m.bus.StackWord (m.cpu.sp + BitVec.ofNat 32 (4 * j))) :
    (m.step io).AtRest ∧ Popped m.fetched.flushExt (m.step io) 0 (n.toNat + 1) := by
  have hpopped := popFrom_spec io (n.toNat + 1) 0 m.fetched.flushExt (by omega)
    fun j hj => (fetched_sameCells m).stackWord (hwords j hj)
  have hrun : m.handlerAtPc.run io m.insnAtPc m.fetched =
      popFrom io (n.toNat + 1) 0 m.fetched.flushExt := by
    rw [hs.handler, ← hs.rd]
    rfl
  have hrest : (popFrom io (n.toNat + 1) 0 m.fetched.flushExt).AtRest := by
    refine ⟨?_, ?_, ?_, hpopped.faultPending.trans h.fetched.busFault⟩
    · rw [hpopped.cpu]
      exact h.slot
    · rw [hpopped.cpu]
      rfl
    · rw [hpopped.cpu]
      exact h.deferred
  rw [h.step_eq io hs.running (hrun ▸ hrest), hrun]
  exact ⟨hrest, hpopped⟩

/-! ### Stretches that leave the stack alone -/

/-- Nothing has changed but the general registers, the status register and the program
counter; no byte of memory has, and no fault was raised. -/
structure RegsOnly (m m' : Machine D) : Prop where
  cpu : m'.cpu = { m.cpu with
    r := m'.cpu.r, psr := m'.cpu.psr, pc := m'.cpu.pc
    pendingExt0 := m'.cpu.pendingExt0, pendingExt1 := m'.cpu.pendingExt1 }
  cells : m'.bus.SameCells m.bus
  faultPending : m'.bus.faultPending = m.bus.faultPending

theorem RegsOnly.atRest {m m' : Machine D} (h : RegsOnly m m') (hm : m.AtRest) : m'.AtRest := by
  refine ⟨?_, ?_, ?_, h.faultPending.trans hm.busFault⟩
  · rw [h.cpu]
    exact hm.slot
  · rw [h.cpu]
    exact hm.prefixes
  · rw [h.cpu]
    exact hm.deferred

end Machine

/-- The instructions that change only general registers and flags. -/
def Handler.regsOnly (h : Handler) : Bool :=
  h.isInternal && !(h matches .addSpImm10 | .subSpImm10 | .ldWSdRs | .mltH | .mltuH)

namespace Machine

variable {D : Type}

theorem doAlu_regsOnly (m : Machine D) (op : AluOp) (a b : U32) (rd : BitVec 4) :
    (m.doAlu op a b rd).cpu = { m.cpu with
      r := (m.doAlu op a b rd).cpu.r, psr := (m.doAlu op a b rd).cpu.psr } := by
  cases op <;> rfl

theorem doAluRr_regsOnly (m : Machine D) (i : Insn) (op : AluOp) (hasExt3Op : Bool) :
    (m.doAluRr i op hasExt3Op).cpu = { m.cpu with
      r := (m.doAluRr i op hasExt3Op).cpu.r, psr := (m.doAluRr i op hasExt3Op).cpu.psr
      pendingExtCount := 0 } := by
  unfold doAluRr
  split_ifs
  · exact doAlu_regsOnly m.flushExt _ _ _ _
  · exact doAlu_regsOnly m.flushExt _ _ _ _

end Machine

open Machine in
/-- What such an instruction does to the CPU. -/
theorem Handler.run_regsOnly {D : Type} (io : IoSpace D) {h : Handler} (hr : h.regsOnly = true)
    (i : Insn) (m : Machine D) :
    (h.run io i m).cpu = { m.cpu with
      r := (h.run io i m).cpu.r, psr := (h.run io i m).cpu.psr, pendingExtCount := 0 } := by
  cases h <;>
    first
      | exact absurd hr (by decide)
      | rfl
      | exact doAluRr_regsOnly m i _ _

namespace Machine

variable {D : Type} (io : IoSpace D)

/-- **Such an instruction leaves the stack alone.** -/
theorem AtRest.step_regsOnly {m : Machine D} (h : m.AtRest) (hrun : m.running = true)
    (hr : m.handlerAtPc.regsOnly = true) : RegsOnly m (m.step io) := by
  have hi : m.handlerAtPc.isInternal = true := (Bool.and_eq_true_iff.mp hr).1
  have hcpu := Handler.run_regsOnly io hr m.insnAtPc m.fetched
  have hbus : (m.handlerAtPc.run io m.insnAtPc m.fetched).bus = m.fetched.bus :=
    congrArg Outside.bus (Handler.run_outside io hi m.insnAtPc m.fetched)
  have hstep := h.step_eq io hrun (by
    refine ⟨?_, ?_, ?_, ?_⟩
    · rw [hcpu]
      exact h.slot
    · rw [hcpu]
    · rw [hcpu]
      exact h.deferred
    · rw [hbus]
      exact h.fetched.busFault)
  rw [hstep]
  refine ⟨?_, ?_, ?_⟩
  · rw [hcpu, ← h.prefixes]
    rfl
  · rw [hbus]
    exact m.fetched_sameCells
  · rw [hbus, h.fetched.busFault, h.busFault]

end Machine

/-! ### Blocks -/

/-- The shape of a balanced stretch of a program. -/
inductive StackBlock
  /-- A number of steps that change only registers and flags. -/
  | plain (steps : ℕ)
  | seq (a b : StackBlock)
  /-- `pushn %rn`, a body, and `popn %rn`. -/
  | save (n : BitVec 4) (body : StackBlock)

namespace StackBlock

/-- The number of its instructions. -/
def steps : StackBlock → ℕ
  | plain k => k
  | seq a b => a.steps + b.steps
  | save _ body => body.steps + 2

/-- The number of words its pushes reach below the stack pointer. -/
def words : StackBlock → ℕ
  | plain _ => 0
  | seq a b => max a.words b.words
  | save n body => n.toNat + 1 + body.words

end StackBlock

namespace Machine

variable {D : Type} (io : IoSpace D)

/-- The machine after a block. -/
def afterBlock (b : StackBlock) (m : Machine D) : Machine D := (step io)^[b.steps] m

theorem afterBlock_seq (a b : StackBlock) (m : Machine D) :
    m.afterBlock io (.seq a b) = (m.afterBlock io a).afterBlock io b := by
  rw [afterBlock, StackBlock.steps, Nat.add_comm, Function.iterate_add_apply]
  rfl

theorem afterBlock_save (n : BitVec 4) (body : StackBlock) (m : Machine D) :
    m.afterBlock io (.save n body) = ((m.step io).afterBlock io body).step io := by
  rw [afterBlock, StackBlock.steps, Function.iterate_succ_apply, Function.iterate_succ_apply']
  rfl

/-- The machine executes a block from here. -/
def RunsBlock : StackBlock → Machine D → Prop
  | .plain k, m => RegsOnly m ((step io)^[k] m)
  | .seq a b, m => RunsBlock a m ∧ RunsBlock b (m.afterBlock io a)
  | .save n body, m => m.Saves .pushn n ∧ RunsBlock body (m.step io) ∧
      ((m.step io).afterBlock io body).Saves .popn n

/-- One instruction that changes only general registers and flags is a block. -/
theorem runsBlock_one {m : Machine D} (h : m.AtRest) (hrun : m.running = true)
    (hr : m.handlerAtPc.regsOnly = true) : m.RunsBlock io (.plain 1) :=
  h.step_regsOnly io hrun hr

/-- Every `popn` of a block restores the registers of its `pushn`, and keeps those its
body left above them. -/
def RestoresPairs : StackBlock → Machine D → Prop
  | .plain _, _ => True
  | .seq a b, m => RestoresPairs a m ∧ RestoresPairs b (m.afterBlock io a)
  | .save n body, m => RestoresPairs body (m.step io) ∧
      (∀ x ≤ n, (m.afterBlock io (.save n body)).cpu.r x = m.cpu.r x) ∧
      (∀ x, n < x → (m.afterBlock io (.save n body)).cpu.r x =
        ((m.step io).afterBlock io body).cpu.r x) ∧
      (m.afterBlock io (.save n body)).cpu.sp = m.cpu.sp

/-- What a block that uses `n` words of stack leaves. -/
structure Balanced (m m' : Machine D) (n : ℕ) : Prop where
  sp : m'.cpu.sp = m.cpu.sp
  kept : ∀ c, ¬Bus.InRegion m.cpu.sp n c → m'.bus.flatByte c = m.bus.flatByte c
  layout : m'.bus.SameLayout m.bus
  atRest : m'.AtRest

variable {io}

/-- **Stretches that leave the stack alone are balanced.** -/
theorem RegsOnly.balanced {m m' : Machine D} (h : RegsOnly m m') (hm : m.AtRest) :
    Balanced m m' 0 where
  sp := by rw [h.cpu]
  kept c _ := congrFun h.cells.flatByte c
  layout := h.cells.sameLayout
  atRest := h.atRest hm

/-- **Sequences of balanced blocks are balanced.** -/
theorem Balanced.trans {m m' m'' : Machine D} {n n' : ℕ} (h : Balanced m m' n)
    (h' : Balanced m' m'' n') : Balanced m m'' (max n n') where
  sp := h'.sp.trans h.sp
  kept c hc := by
    have hc' : ¬Bus.InRegion m'.cpu.sp n' c := fun hin =>
      hc (Bus.InRegion.mono (h.sp ▸ hin) (Nat.le_max_right n n'))
    exact (h'.kept c hc').trans (h.kept c fun hin => hc (hin.mono (Nat.le_max_left n n')))
  layout a := (h'.layout a).trans (h.layout a)
  atRest := h'.atRest

/-- **A balanced body between `pushn` and `popn`.** -/
theorem Balanced.save {m m₂ : Machine D} {n : BitVec 4} {w : ℕ} (hm : m.AtRest)
    (hroom : m.bus.StackRegion m.cpu.sp (n.toNat + 1 + w)) (hpush : m.Saves .pushn n)
    (hbody : Balanced (m.step io) m₂ w) (hpop : m₂.Saves .popn n) :
    Balanced m (m₂.step io) (n.toNat + 1 + w) ∧
      (∀ x ≤ n, (m₂.step io).cpu.r x = m.cpu.r x) ∧
      (∀ x, n < x → (m₂.step io).cpu.r x = m₂.cpu.r x) := by
  obtain ⟨-, hpushed⟩ := step_pushn io hm hpush (hroom.mono (Nat.le_add_right _ w))
  have hsp₁ : (m.step io).cpu.sp = m.cpu.sp - BitVec.ofNat 32 (4 * (n.toNat + 1)) :=
    (congrArg CpuState.sp hpushed.cpu :)
  have hsp₂ := hbody.sp.trans hsp₁
  -- the words above the stack pointer of the body are those of the frame
  have hup {j : ℕ} (hj : j < n.toNat + 1) :
      m₂.cpu.sp + BitVec.ofNat 32 (4 * j) = Bus.below m.cpu.sp (n.toNat - j) := by
    rw [hsp₂, Bus.below, show 4 * (n.toNat + 1) = 4 * (n.toNat - j + 1) + 4 * j by omega,
      BitVec.ofNat_add, ← BitVec.sub_sub, BitVec.sub_add_cancel]
  have hlayout (a : U32) : m₂.bus.StackWord a ↔ m.bus.StackWord a :=
    (hbody.layout a).trans ((hpushed.layout a).trans (m.fetched_sameCells.sameLayout a))
  obtain ⟨hrest, hpopped⟩ := step_popn io hbody.atRest hpop fun j hj => by
    rw [hup hj, hlayout]
    exact hroom.word _ (by omega)
  have hbytes₂ := m₂.fetched_sameCells.flatByte
  have hsp : (m₂.step io).cpu.sp = m.cpu.sp := by
    have h : (m₂.step io).cpu.sp = m₂.cpu.sp + BitVec.ofNat 32 (4 * (n.toNat + 1)) :=
      (congrArg CpuState.sp hpopped.cpu :)
    rw [h, hsp₂, BitVec.sub_add_cancel]
  refine ⟨⟨hsp, fun c hc => ?_, fun a => ?_, hrest⟩, fun x hx => ?_, fun x hx => ?_⟩
  · have hin : ¬Bus.InRegion (m.step io).cpu.sp w c := by
      rw [hsp₁]
      exact fun h => hc (Bus.inRegion_rest h)
    rw [hpopped.cells.flatByte.trans hbytes₂, hbody.kept c hin,
      hpushed.kept c fun h => hc (h.mono (Nat.le_add_right _ w))]
    exact congrFun m.fetched_sameCells.flatByte c
  · exact ((hpopped.cells.trans m₂.fetched_sameCells).sameLayout a).trans (hlayout a)
  · have hj : x.toNat < n.toNat + 1 := Nat.lt_succ_of_le hx
    have hx' : BitVec.ofNat 4 (0 + x.toNat) = x := by
      rw [Nat.zero_add, BitVec.ofNat_toNat, BitVec.setWidth_eq]
    have hloaded := hpopped.loaded x.toNat hj
    have hsaved := hpushed.saved x.toNat hj
    rw [hx'] at hloaded
    rw [← Nat.zero_add x.toNat, hx', Nat.zero_add, Nat.add_sub_cancel] at hsaved
    have hword : (m₂.fetched.flushExt).cpu.sp + BitVec.ofNat 32 (4 * x.toNat) =
        Bus.below m.cpu.sp (n.toNat - x.toNat) := hup hj
    rw [hloaded, hword]
    -- the body has written below the frame only
    refine (Bus.le32_of_kept fun c hc => ?_).trans hsaved
    refine (congrFun hbytes₂ c).trans (hbody.kept c fun hin => ?_)
    rw [hsp₁] at hin
    obtain ⟨k, hk, hc'⟩ := hin
    rw [Bus.below_below] at hc'
    exact hroom.apart _ (by omega) _ (by omega) (by omega) c hc hc'
  · refine hpopped.others x fun j hj heq => ?_
    have heq := congrArg BitVec.toNat heq
    rw [BitVec.toNat_ofNat] at heq
    have hx : n.toNat < x.toNat := hx
    omega

/-! ### Every balanced block -/

variable (io)

/-- **Saves nest.** A balanced block of any depth, run on a stack that has room for its
words, restores the registers of each of its pairs, leaves the stack pointer where it
was, and changes no byte outside the words its pushes reach. -/
theorem balanced_block (b : StackBlock) (m : Machine D) (hm : m.AtRest)
    (hroom : m.bus.StackRegion m.cpu.sp b.words) (hruns : m.RunsBlock io b) :
    m.RestoresPairs io b ∧ Balanced m (m.afterBlock io b) b.words := by
  induction b generalizing m with
  | plain k => exact ⟨trivial, RegsOnly.balanced hruns hm⟩
  | seq a b iha ihb =>
    obtain ⟨hpa, hba⟩ := iha m hm (hroom.mono (Nat.le_max_left _ _)) hruns.1
    have hroom' : (m.afterBlock io a).bus.StackRegion (m.afterBlock io a).cpu.sp b.words := by
      rw [hba.sp]
      exact (hroom.mono (Nat.le_max_right _ _)).of_sameLayout hba.layout
    obtain ⟨hpb, hbb⟩ := ihb _ hba.atRest hroom' hruns.2
    refine ⟨⟨hpa, hpb⟩, ?_⟩
    rw [afterBlock_seq]
    exact hba.trans hbb
  | save n body ih =>
    obtain ⟨hpush, hbody, hpop⟩ := hruns
    have hroom : m.bus.StackRegion m.cpu.sp (n.toNat + 1 + body.words) := hroom
    obtain ⟨hrest, hpushed⟩ := step_pushn io hm hpush (hroom.mono (Nat.le_add_right _ _))
    have hsp₁ : (m.step io).cpu.sp = m.cpu.sp - BitVec.ofNat 32 (4 * (n.toNat + 1)) :=
      (congrArg CpuState.sp hpushed.cpu :)
    have hroom' : (m.step io).bus.StackRegion (m.step io).cpu.sp body.words := by
      rw [hsp₁]
      exact hroom.rest.of_sameLayout fun a =>
        (hpushed.layout a).trans (m.fetched_sameCells.sameLayout a)
    obtain ⟨hpairs, hbal⟩ := ih _ hrest hroom' hbody
    obtain ⟨hsave, hlow, hhigh⟩ := hbal.save hm hroom hpush hpop
    rw [← afterBlock_save] at hsave hlow hhigh
    exact ⟨⟨hpairs, hlow, hhigh, hsave.sp⟩, hsave⟩

instance (m : Machine D) (h : Handler) (n : BitVec 4) : Decidable (m.Saves h n) :=
  decidable_of_iff (m.running = true ∧ m.handlerAtPc = h ∧ m.insnAtPc.rd = n)
    ⟨fun ⟨hr, hh, hn⟩ => ⟨hr, hh, hn⟩, fun ⟨hr, hh, hn⟩ => ⟨hr, hh, hn⟩⟩

instance (m : Machine D) : Decidable m.AtRest :=
  decidable_of_iff (m.cpu.inDelaySlot = false ∧ m.cpu.pendingExtCount = 0 ∧
      m.cpu.deferredTrapValid = false ∧ m.bus.faultPending = false)
    ⟨fun ⟨hs, hp, hd, hb⟩ => ⟨hs, hp, hd, hb⟩, fun ⟨hs, hp, hd, hb⟩ => ⟨hs, hp, hd, hb⟩⟩

/-- A boot ROM with `ld.w %r2, 5` between two nested saves of `%r1` and `%r2`, and `ld.w %r0, 5`
in front of the inner one, about to run on a stack in SRAM. -/
def frameRom : Machine Unit :=
  { ofRom [0x0201, 0x6C50, 0x0202, 0x6C52, 0x0242, 0x0241] with
    cpu := { pc := 0xC00000, sp := 0x102000, r := fun n => n.setWidth 32 } }

theorem balanced_block_frameRom :
    let b : StackBlock := .save 1 (.seq (.plain 1) (.save 2 (.plain 1)))
    frameRom.RestoresPairs (IoSpace.empty Unit) b ∧
      Balanced frameRom (frameRom.afterBlock (IoSpace.empty Unit) b) 5 := by
  refine balanced_block (IoSpace.empty Unit) _ frameRom ⟨rfl, rfl, rfl, rfl⟩ ?_ ?_
  · have hall : ∀ k < 5, Bus.classify frameRom.bus (Bus.below 0x102000 k) = .sram := by decide
    refine .of_words (fun k hk => ⟨?_, .inr ⟨hall k hk, ?_⟩⟩) (.inr hall)
    · revert k
      decide
    · revert k
      decide
  · refine ⟨by decide +kernel, ⟨?_, by decide +kernel, ?_, by decide +kernel⟩,
      by decide +kernel⟩
    · exact runsBlock_one _ (by decide +kernel) (by decide +kernel) (by decide +kernel)
    · exact runsBlock_one _ (by decide +kernel) (by decide +kernel) (by decide +kernel)

end Machine
