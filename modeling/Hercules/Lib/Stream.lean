/-
# Reading a message from its front

A message is a list of cells. A reader takes cells from the front and returns a value and
what is left. `Reads reader cells x` says that the reader takes exactly these cells,
whatever follows them, and returns `x`; it does not say what the reader makes of other
messages. Writer and reader are compared field by field, and a field that is repeated is
compared by induction on the number of its copies.
-/

import Mathlib.Data.List.Basic
import Hercules.Lib.Memory

namespace Hercules.Lib

universe u

variable {α β γ : Type u}

/-- A reader of messages. -/
abbrev Reader (α β : Type u) := StateT (List α) Option β

namespace Reader

/-- Take `n` cells and decode them. -/
def readWith (n : Nat) (decode : List α → Option β) : Reader α β :=
  fun cells =>
    if n ≤ cells.length then (decode (cells.take n)).map (·, cells.drop n) else none

/-- Read `n` values, one after the other. -/
def readMany (reader : Reader α β) : Nat → Reader α (List β)
  | 0 => pure []
  | n + 1 => do
      let x ← reader
      let xs ← readMany reader n
      pure (x :: xs)

/-- The reader takes these cells and returns `x`. -/
def Reads (reader : Reader α β) (cells : List α) (x : β) : Prop :=
  ∀ rest, reader (cells ++ rest) = some (x, rest)

variable {reader : Reader α β} {cells cells' : List α} {x : β}

theorem reads_readWith {n : Nat} {decode : List α → Option β} (hlength : cells.length = n)
    (hdecode : decode cells = some x) : Reads (readWith n decode) cells x := by
  intro rest
  subst hlength
  rw [readWith, if_pos (by simp), List.take_left, List.drop_left, hdecode]
  rfl

theorem reads_pure (x : β) : Reads (pure x : Reader α β) [] x :=
  fun _ => rfl

theorem Reads.bind {next : β → Reader α γ} {y : γ} (hread : Reads reader cells x)
    (hnext : Reads (next x) cells' y) : Reads (reader >>= next) (cells ++ cells') y := by
  intro rest
  rw [List.append_assoc]
  change (reader (cells ++ (cells' ++ rest))).bind (fun result => next result.1 result.2) = _
  rw [hread, Option.bind_some]
  exact hnext rest

/-- The last step of a reader makes a value of what was read. -/
theorem Reads.bind_pure {f : β → γ} (hread : Reads reader cells x) :
    Reads (do let x ← reader; pure (f x)) cells (f x) := by
  rw [← List.append_nil cells]
  exact hread.bind (reads_pure (f x))

/-- Nothing is left of a message that was read. -/
theorem Reads.whole (hread : Reads reader cells x) : reader cells = some (x, []) := by
  have hempty := hread []
  rwa [List.append_nil] at hempty

theorem reads_readMany {write : β → List α} {xs : List β}
    (hwrite : ∀ x ∈ xs, Reads reader (write x) x) :
    Reads (readMany reader xs.length) (xs.flatMap write) xs := by
  induction xs with
  | nil => exact reads_pure []
  | cons x xs ih =>
      rw [List.forall_mem_cons] at hwrite
      rw [List.flatMap_cons]
      exact hwrite.1.bind (ih hwrite.2).bind_pure

end Reader

/-- The number that a list of bytes represents, lowest byte first. -/
def ofBytes : List UInt8 → Nat
  | [] => 0
  | byte :: bytes => byte.toNat + 256 * ofBytes bytes

theorem ofBytes_natBytes (width n : Nat) :
    ofBytes (Memory.natBytes width n) = n % 256 ^ width := by
  induction width generalizing n with
  | zero => simp [Memory.natBytes, ofBytes, Nat.mod_one]
  | succ width ih =>
      rw [Memory.natBytes, ofBytes, ih, Nat.pow_succ, Nat.mul_comm (256 ^ width) 256, Nat.mod_mul]
      simp

/-! ## Fields of a fixed size -/

/-- How the values of a type are kept in a fixed number of cells. -/
structure Codec (α β : Type u) where
  size : Nat
  encode : β → List α
  decode : List α → Option β
  length_encode : ∀ x, (encode x).length = size
  decode_encode : ∀ x, decode (encode x) = some x

namespace Codec

/-- Read a field. -/
def reader (codec : Codec α β) : Reader α β :=
  Reader.readWith codec.size codec.decode

theorem reads (codec : Codec α β) (x : β) : Reader.Reads codec.reader (codec.encode x) x :=
  Reader.reads_readWith (codec.length_encode x) (codec.decode_encode x)

/-- The fields of an array fill its size. -/
theorem length_flatMap_encode (codec : Codec α β) (xs : List β) :
    (xs.flatMap codec.encode).length = xs.length * codec.size := by
  induction xs with
  | nil => simp
  | cons x xs ih =>
      rw [List.flatMap_cons, List.length_append, codec.length_encode, ih, List.length_cons,
        Nat.succ_mul, Nat.add_comm]

end Codec

/-- As many bytes as a field has. -/
abbrev Bytes (n : Nat) := { bytes : List UInt8 // bytes.length = n }

namespace Codec

/-- An array of characters. -/
def bytes (n : Nat) : Codec UInt8 (Bytes n) where
  size := n
  encode := Subtype.val
  decode := fun bytes => if h : bytes.length = n then some ⟨bytes, h⟩ else none
  length_encode := fun x => x.2
  decode_encode := fun x => dif_pos x.2

theorem decode_integer {β : Type} {width : Nat} {toNat : β → Nat} {ofNat : Nat → β}
    (hlt : ∀ x, toNat x < 256 ^ width) (hinverse : ∀ x, ofNat (toNat x) = x) (x : β) :
    some (ofNat (ofBytes (Memory.natBytes width (toNat x)))) = some x := by
  rw [ofBytes_natBytes, Nat.mod_eq_of_lt (hlt x), hinverse]

/-- An integer of some width, by its bit pattern. -/
def integer {β : Type} (width : Nat) (toNat : β → Nat) (ofNat : Nat → β)
    (hlt : ∀ x, toNat x < 256 ^ width) (hinverse : ∀ x, ofNat (toNat x) = x) : Codec UInt8 β where
  size := width
  encode := fun x => Memory.natBytes width (toNat x)
  decode := fun bytes => some (ofNat (ofBytes bytes))
  length_encode := fun x => Memory.length_natBytes width (toNat x)
  decode_encode := decode_integer hlt hinverse

theorem uint8_lt (x : UInt8) : x.toNat < 256 ^ 1 :=
  x.toNat_lt

theorem uint16_lt (x : UInt16) : x.toNat < 256 ^ 2 :=
  x.toNat_lt

theorem int32_lt (x : Int32) : x.toUInt32.toNat < 256 ^ 4 :=
  x.toUInt32.toNat_lt

theorem int64_lt (x : Int64) : x.toUInt64.toNat < 256 ^ 8 :=
  x.toUInt64.toNat_lt

theorem int32_inverse (x : Int32) : (UInt32.ofNat x.toUInt32.toNat).toInt32 = x := by
  rw [UInt32.ofNat_toNat, Int32.toInt32_toUInt32]

theorem int64_inverse (x : Int64) : (UInt64.ofNat x.toUInt64.toNat).toInt64 = x := by
  rw [UInt64.ofNat_toNat, Int64.toInt64_toUInt64]

def uint8 : Codec UInt8 UInt8 :=
  integer 1 UInt8.toNat UInt8.ofNat uint8_lt fun _ => UInt8.ofNat_toNat

def uint16 : Codec UInt8 UInt16 :=
  integer 2 UInt16.toNat UInt16.ofNat uint16_lt fun _ => UInt16.ofNat_toNat

def int32 : Codec UInt8 Int32 :=
  integer 4 (fun x => x.toUInt32.toNat) (fun n => (UInt32.ofNat n).toInt32) int32_lt int32_inverse

def int64 : Codec UInt8 Int64 :=
  integer 8 (fun x => x.toUInt64.toNat) (fun n => (UInt64.ofNat n).toInt64) int64_lt int64_inverse

end Codec

end Hercules.Lib
