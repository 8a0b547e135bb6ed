import Mathlib.Tactic.Positivity
import NanoNccl.Lib.ByteOrder

/-!
# HELLO messages

The connecting side of a bootstrap connection names the edge and the channel it is for in a
`WireHello` of 16 bytes, in network byte order; the accepting side reads it back and keeps a 64-bit
key of it to recognize duplicates. Ranks and channels are C `int`s, and the channel travels as a
16-bit number.
-/

namespace NanoNccl.Socket

open ByteOrder

/-- `SocketHello` -/
structure SocketHello where
  sourceGlobalRank : ℤ
  destinationGlobalRank : ℤ
  channel : ℤ
  deriving DecidableEq, Repr

/-- `kSocketHelloMagic` -/
def kSocketHelloMagic : ℕ := 0x4e4e434c

/-- `kSocketProtocolVersion` -/
def kSocketProtocolVersion : ℕ := 1

/-- Conversion of an `int` to an unsigned type of this many bits. -/
def toUnsigned (bits : ℕ) (value : ℤ) : ℕ := (value % 2 ^ bits).toNat

/-- Conversion of a `uint32_t` to `int`. -/
def toInt (value : ℕ) : ℤ := if value < 2 ^ 31 then value else value - 2 ^ 32

/-- The `WireHello` that `connect` writes, as it lies in memory. -/
def wireHello (hello : SocketHello) : List UInt8 :=
  bigEndian 4 kSocketHelloMagic ++ bigEndian 2 kSocketProtocolVersion ++
    bigEndian 2 (toUnsigned 16 hello.channel) ++
    bigEndian 4 (toUnsigned 32 hello.sourceGlobalRank) ++
    bigEndian 4 (toUnsigned 32 hello.destinationGlobalRank)

/-- Exceptions of `read_hello`. -/
inductive HelloError
  /-- "socket HELLO has invalid magic" -/
  | invalidMagic
  /-- "socket HELLO has unsupported version" -/
  | unsupportedVersion
  deriving DecidableEq, Repr

/-- What `read_hello` makes of 16 bytes. -/
def readHello (wire : List UInt8) : Except HelloError SocketHello :=
  if ofBigEndian (wire.take 4) ≠ kSocketHelloMagic then .error .invalidMagic
  else if ofBigEndian ((wire.drop 4).take 2) ≠ kSocketProtocolVersion then
    .error .unsupportedVersion
  else .ok
    { sourceGlobalRank := toInt (ofBigEndian ((wire.drop 8).take 4))
      destinationGlobalRank := toInt (ofBigEndian ((wire.drop 12).take 4))
      channel := ofBigEndian ((wire.drop 6).take 2) }

/-- `hello_key` -/
def helloKey (hello : SocketHello) : ℕ :=
  toUnsigned 32 hello.sourceGlobalRank <<< 32 |||
    toUnsigned 16 hello.destinationGlobalRank <<< 16 ||| toUnsigned 16 hello.channel

theorem toUnsigned_lt (bits : ℕ) (value : ℤ) : toUnsigned bits value < 2 ^ bits := by
  have modulus : (0 : ℤ) < 2 ^ bits := by positivity
  have below := Int.emod_lt_of_pos value modulus
  have nonneg := Int.emod_nonneg value modulus.ne'
  rw [toUnsigned, Int.toNat_lt nonneg]
  exact_mod_cast below

/-- A number that is not negative and fits is converted to itself. -/
theorem toUnsigned_eq {bits : ℕ} {value : ℕ} (fits : value < 2 ^ bits) :
    toUnsigned bits value = value := by
  have inside : (value : ℤ) % 2 ^ bits = value :=
    Int.emod_eq_of_lt (by positivity) (by exact_mod_cast fits)
  rw [toUnsigned, inside, Int.toNat_natCast]

@[simp] theorem length_wireHello (hello : SocketHello) : (wireHello hello).length = 16 := by
  simp [wireHello]

/-- Fields of a message whose parts have known lengths. -/
theorem take_drop_field {before field after : List UInt8} {start width : ℕ}
    (starts : before.length = start) (wide : field.length = width) :
    ((before ++ field ++ after).drop start).take width = field := by
  rw [List.append_assoc, ← starts, List.drop_left, ← wide, List.take_left]

/-- `read_hello` reads what `connect` wrote, for ranks that are not negative and channels of 16
bits. -/
theorem readHello_wireHello {source destination channel : ℕ} (source_lt : source < 2 ^ 31)
    (destination_lt : destination < 2 ^ 31) (channel_lt : channel < 2 ^ 16) :
    readHello (wireHello ⟨source, destination, channel⟩) = .ok ⟨source, destination, channel⟩ := by
  have magic : (wireHello ⟨source, destination, channel⟩).take 4 =
      bigEndian 4 kSocketHelloMagic := by
    simp [wireHello, List.append_assoc]
  have version : ((wireHello ⟨source, destination, channel⟩).drop 4).take 2 =
      bigEndian 2 kSocketProtocolVersion := by
    simp only [wireHello, List.append_assoc]
    rw [← List.append_assoc]
    exact take_drop_field (by simp) (by simp)
  have channels : ((wireHello ⟨source, destination, channel⟩).drop 6).take 2 =
      bigEndian 2 (toUnsigned 16 channel) := by
    rw [wireHello, List.append_assoc _ _ (bigEndian 4 (toUnsigned 32 destination))]
    exact take_drop_field (by simp) (by simp)
  have sources : ((wireHello ⟨source, destination, channel⟩).drop 8).take 4 =
      bigEndian 4 (toUnsigned 32 source) :=
    take_drop_field (by simp) (by simp)
  have destinations : ((wireHello ⟨source, destination, channel⟩).drop 12).take 4 =
      bigEndian 4 (toUnsigned 32 destination) := by
    rw [← List.append_nil (wireHello _)]
    exact take_drop_field (by simp) (by simp)
  have source_fits : source < 2 ^ 32 := by omega
  have destination_fits : destination < 2 ^ 32 := by omega
  unfold readHello
  rw [magic, version, channels, sources, destinations, toUnsigned_eq channel_lt,
    toUnsigned_eq source_fits, toUnsigned_eq destination_fits,
    ofBigEndian_bigEndian (by decide), ofBigEndian_bigEndian (by decide),
    ofBigEndian_bigEndian source_fits, ofBigEndian_bigEndian destination_fits,
    ofBigEndian_bigEndian channel_lt]
  simp only [toInt, if_pos source_lt, if_pos destination_lt, ne_eq, not_true, if_false]

/-- The key is a number with three digits. -/
theorem helloKey_eq (hello : SocketHello) :
    helloKey hello = toUnsigned 32 hello.sourceGlobalRank * 2 ^ 32 +
      toUnsigned 16 hello.destinationGlobalRank * 2 ^ 16 + toUnsigned 16 hello.channel := by
  have destination_lt := toUnsigned_lt 16 hello.destinationGlobalRank
  have channel_lt := toUnsigned_lt 16 hello.channel
  have middle : toUnsigned 16 hello.destinationGlobalRank <<< 16 < 2 ^ 32 := by
    rw [Nat.shiftLeft_eq]
    omega
  have high : toUnsigned 32 hello.sourceGlobalRank <<< 32 +
      toUnsigned 16 hello.destinationGlobalRank <<< 16 =
      (toUnsigned 32 hello.sourceGlobalRank * 2 ^ 16 +
        toUnsigned 16 hello.destinationGlobalRank) <<< 16 := by
    simp only [Nat.shiftLeft_eq]
    omega
  rw [helloKey, ← Nat.shiftLeft_add_eq_or_of_lt middle, high,
    ← Nat.shiftLeft_add_eq_or_of_lt channel_lt, Nat.shiftLeft_eq]
  omega

/-- The key tells apart different edges, and different channels of an edge. -/
theorem helloKey_injective {source destination channel source' destination' channel' : ℕ}
    (source_lt : source < 2 ^ 31) (source_lt' : source' < 2 ^ 31) (channel_lt : channel < 2 ^ 16)
    (channel_lt' : channel' < 2 ^ 16)
    (same : helloKey ⟨source, destination, channel⟩ = helloKey ⟨source', destination', channel'⟩) :
    source = source' ∧ channel = channel' := by
  have destination_fits := toUnsigned_lt 16 (destination : ℤ)
  have destination_fits' := toUnsigned_lt 16 (destination' : ℤ)
  rw [helloKey_eq, helloKey_eq] at same
  simp only [toUnsigned_eq channel_lt, toUnsigned_eq channel_lt',
    toUnsigned_eq (show source < 2 ^ 32 by omega),
    toUnsigned_eq (show source' < 2 ^ 32 by omega)] at same
  omega

end NanoNccl.Socket
