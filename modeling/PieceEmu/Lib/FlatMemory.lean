import PieceEmu.Lib.Words

/-!
# Flat byte memories

A memory that is nothing but bytes: every access of two or four bytes is aligned down,
and what it reads or writes is the little-endian composition of the bytes it covers.
Bytes that are not writable keep their value, whatever is written there, and an
access that had to be aligned raises a flag.

The model knows no regions, no mirrors and no wait states. What maps addresses to
indices is a parameter of `FlatMemory.access`.
-/

/-- A flat byte memory. -/
@[ext] structure FlatMemory where
  bytes : ℕ → U8
  writable : ℕ → Bool
  /-- An access was not aligned. -/
  fault : Bool

/-- An access to a memory. -/
inductive MemOp
  | read8 (addr : U32)
  | read16 (addr : U32)
  | read32 (addr : U32)
  | fetch16 (addr : U32)
  | write8 (addr : U32) (val : U8)
  | write16 (addr : U32) (val : U16)
  | write32 (addr : U32) (val : U32)
  deriving DecidableEq

namespace MemOp

/-- The address of an access. -/
def addr : MemOp → U32
  | read8 a | read16 a | read32 a | fetch16 a | write8 a _ | write16 a _ | write32 a _ => a

/-- The access writes. -/
def isWrite : MemOp → Bool
  | write8 .. | write16 .. | write32 .. => true
  | _ => false

end MemOp

namespace FlatMemory

variable (m : FlatMemory)

/-- The start of the `n` bytes an access at an index covers. -/
def start (n i : ℕ) : ℕ := i / n * n

/-- The memory with new bytes, as far as they are writable. -/
def store (bytes : ℕ → U8) : FlatMemory :=
  { m with bytes := fun i => if m.writable i then bytes i else m.bytes i }

/-- The memory after an access of `n` bytes: it is flagged if it had to be aligned. -/
def touch (n i : ℕ) : FlatMemory := { m with fault := m.fault || i % n ≠ 0 }

/-- An access, and the value it reads, zero-extended. -/
def access (index : U32 → ℕ) : MemOp → U32 × FlatMemory
  | .read8 a => ((m.bytes (index a)).setWidth 32, m)
  | .read16 a => ((Words.le16 m.bytes (start 2 (index a))).setWidth 32, m.touch 2 (index a))
  | .read32 a => (Words.le32 m.bytes (start 4 (index a)), m.touch 4 (index a))
  | .fetch16 a => ((Words.le16 m.bytes (start 2 (index a))).setWidth 32, m)
  | .write8 a v => (0, m.store (Function.update m.bytes (index a) v))
  | .write16 a v =>
    (0, (m.touch 2 (index a)).store (Words.putLe16 m.bytes (start 2 (index a)) v))
  | .write32 a v =>
    (0, (m.touch 4 (index a)).store (Words.putLe32 m.bytes (start 4 (index a)) v))

end FlatMemory
