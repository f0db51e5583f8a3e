import Mathlib.Tactic.Common
import Mathlib.Algebra.Order.Ring.Nat
import Mathlib.Order.Fin.Basic

/-!
# Byte strings, bounded lists and machine integers

The value types the crates share. A length that the source fixes in the type is a field here, so a
byte string of the wrong length cannot be built. `u64` is `UInt64`; whether an addition that leaves
its range panics or wraps depends on the build profile, see `Build`.
-/

namespace MevRelay

/-- `alloy_primitives::FixedBytes<N>`; also `ssz_types::FixedVector<u8, N>`. -/
structure FixedBytes (n : Nat) where
  bytes : List UInt8
  length_eq : bytes.length = n
  deriving DecidableEq, Repr

namespace FixedBytes

/-- `n` times the same byte (`FixedBytes::repeat_byte`). -/
def repeatByte {n : Nat} (b : UInt8) : FixedBytes n := ⟨List.replicate n b, List.length_replicate⟩

/-- The all-zero value is the default. -/
instance {n : Nat} : Inhabited (FixedBytes n) := ⟨repeatByte 0⟩

/-- `bytes` copied to the front of a zeroed buffer of `n` bytes. -/
def copyFrom {n : Nat} (bytes : List UInt8) : FixedBytes n :=
  ⟨(bytes ++ List.replicate n 0).take n, by simp⟩

/-- The conversion of a slice to an array, which fails on a wrong length. -/
def ofSlice? (n : Nat) (bytes : List UInt8) : Option (FixedBytes n) :=
  if h : bytes.length = n then some ⟨bytes, h⟩ else none

theorem bytes_of_ofSlice? {n : Nat} {bytes : List UInt8} {b : FixedBytes n}
    (h : ofSlice? n bytes = some b) : b.bytes = bytes := by
  unfold ofSlice? at h
  split at h
  · cases h
    rfl
  · cases h

end FixedBytes

/-- 32-byte hashes; `entity::B256` wraps the alloy type of the same name. -/
abbrev B256 := FixedBytes 32

abbrev Address := FixedBytes 20

/-- `entity::U256`, with the order of the numbers. -/
abbrev U256 := Fin (2 ^ 256)

/-- What the literals of `U256` rest on. -/
instance U256.neZero : NeZero (2 ^ 256 : Nat) := ⟨by decide⟩

instance : Inhabited U256 := ⟨0⟩

/-- `ssz_types::VariableList<T, N>`: at most `n` items. -/
structure VariableList (α : Type) (n : Nat) where
  items : List α
  length_le : items.length ≤ n
  deriving DecidableEq, Repr

instance {α : Type} {n : Nat} : Inhabited (VariableList α n) := ⟨⟨[], Nat.zero_le n⟩⟩

/-- The little-endian encoding of `v` in `w` bytes. -/
def leBytes (w v : Nat) : List UInt8 := (List.range w).map fun i => UInt8.ofNat (v / 256 ^ i)

/-- `Display` of `U256`: decimal digits. -/
def U256.toString (v : U256) : String := Nat.repr v.val

/-- `alloy_primitives::U256::from_be_slice`: `none` is its panic on more than 32 bytes. -/
def U256.fromBeSlice (bytes : List UInt8) : Option U256 :=
  if bytes.length ≤ 32 then
    some (Fin.ofNat _ (bytes.foldl (fun acc b => 256 * acc + b.toNat) 0))
  else none

/-- The build profile, as far as it changes what the code computes. -/
structure Build where
  /-- `overflow-checks`: on in a debug build, off in a release build. -/
  overflowChecks : Bool
  deriving DecidableEq, Repr

/-- `a + b` on `u64`: `none` is the panic of a checked build, an unchecked one wraps. -/
def Build.addU64 (build : Build) (a b : UInt64) : Option UInt64 :=
  if build.overflowChecks ∧ 2 ^ 64 ≤ a.toNat + b.toNat then none else some (a + b)

/-- A sum that is in range is the sum in every build. -/
theorem Build.addU64_of_toNat {build : Build} {a b c : UInt64} (h : c.toNat = a.toNat + b.toNat) :
    build.addU64 a b = some c := by
  have hlt := c.toNat_lt
  have hsum : a + b = c := by
    rw [← UInt64.toNat_inj, UInt64.toNat_add, h, Nat.mod_eq_of_lt]
    omega
  rw [← hsum]
  apply if_neg
  rintro ⟨-, hover⟩
  omega

/-- An overflow shows where it is checked. -/
theorem Build.addU64_of_overflow {a b : UInt64} (h : 2 ^ 64 ≤ a.toNat + b.toNat) :
    (⟨true⟩ : Build).addU64 a b = none := if_pos ⟨rfl, h⟩

/-- `a % b` on `u64`: division by zero panics in every build. -/
def remU64 (a b : UInt64) : Option UInt64 := if b = 0 then none else some (a % b)

/-- `a / b` on `u64`. -/
def divU64 (a b : UInt64) : Option UInt64 := if b = 0 then none else some (a / b)

end MevRelay
