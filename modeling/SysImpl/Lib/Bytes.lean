import Mathlib.Algebra.Group.Int.Defs
import Mathlib.Algebra.GroupWithZero.Nat
import Mathlib.Logic.Function.Basic

/-! Byte-addressed memory with little-endian words.

A memory is a total function from addresses to bytes. Words are read and written
as four consecutive bytes; every frame fact below reduces to agreement on bytes. -/

namespace SysImpl.Bytes

abbrev Mem := Nat → UInt8

/-- The value a 32-bit register or pointer keeps of a number. -/
def u32 (x : Nat) : Nat := x % 2 ^ 32

def asInt (x : Nat) : Int := if x < 2 ^ 31 then x else (x : Int) - 2 ^ 32

def loadBytes (m : Mem) (address count : Nat) : List UInt8 :=
  (List.range count).map fun i => m (address + i)

def storeBytes (m : Mem) (address : Nat) (bytes : List UInt8) : Mem := fun x =>
  if address ≤ x then bytes[x - address]?.getD (m x) else m x

def bytes32 (value : Nat) : List UInt8 :=
  [UInt8.ofNat value, UInt8.ofNat (value / 2 ^ 8), UInt8.ofNat (value / 2 ^ 16),
    UInt8.ofNat (value / 2 ^ 24)]

def load16 (m : Mem) (address : Nat) : Nat :=
  (m address).toNat + 2 ^ 8 * (m (address + 1)).toNat

def load32 (m : Mem) (address : Nat) : Nat :=
  (m address).toNat + 2 ^ 8 * (m (address + 1)).toNat +
    2 ^ 16 * (m (address + 2)).toNat + 2 ^ 24 * (m (address + 3)).toNat

def store32 (m : Mem) (address value : Nat) : Mem := storeBytes m address (bytes32 value)

/-- A copy of bytes to a 32-bit address, which wraps at the end of the address space. -/
def copyTo (m : Mem) (address : Nat) (bytes : List UInt8) : Mem := fun x =>
  if x < 2 ^ 32 then bytes[(x + 2 ^ 32 - u32 address) % 2 ^ 32]?.getD (m x) else m x

@[simp] theorem loadBytes_length (m : Mem) (address count : Nat) :
    (loadBytes m address count).length = count := by
  simp [loadBytes]

theorem load16_lt (m : Mem) (address : Nat) : load16 m address < 2 ^ 16 := by
  have low := UInt8.toNat_lt (m address)
  have high := UInt8.toNat_lt (m (address + 1))
  simp only [load16]
  omega

@[simp] theorem bytes32_length (value : Nat) : (bytes32 value).length = 4 := rfl

theorem storeBytes_outside (m : Mem) (address x : Nat) (bytes : List UInt8)
    (outside : x < address ∨ address + bytes.length ≤ x) :
    storeBytes m address bytes x = m x := by
  unfold storeBytes
  split
  · have past : bytes.length ≤ x - address := by omega
    simp [List.getElem?_eq_none past]
  · rfl

theorem storeBytes_inside (m : Mem) (address i : Nat) (bytes : List UInt8)
    (inside : i < bytes.length) :
    storeBytes m address bytes (address + i) = bytes[i] := by
  simp [storeBytes, inside]

theorem store32_outside (m : Mem) (address value x : Nat)
    (outside : x < address ∨ address + 4 ≤ x) : store32 m address value x = m x := by
  apply storeBytes_outside
  rwa [bytes32_length]

theorem load32_congr {m m' : Mem} {address : Nat}
    (agree : ∀ x, address ≤ x → x < address + 4 → m' x = m x) :
    load32 m' address = load32 m address := by
  unfold load32
  rw [agree address (by omega) (by omega), agree (address + 1) (by omega) (by omega),
    agree (address + 2) (by omega) (by omega), agree (address + 3) (by omega) (by omega)]

theorem load32_lt (m : Mem) (address : Nat) : load32 m address < 2 ^ 32 := by
  have b0 := (m address).toNat_lt
  have b1 := (m (address + 1)).toNat_lt
  have b2 := (m (address + 2)).toNat_lt
  have b3 := (m (address + 3)).toNat_lt
  unfold load32
  omega

theorem load32_store32 (m : Mem) (address value : Nat) (bound : value < 2 ^ 32) :
    load32 (store32 m address value) address = value := by
  have b0 := storeBytes_inside m address 0 (bytes32 value) (by simp)
  have b1 := storeBytes_inside m address 1 (bytes32 value) (by simp)
  have b2 := storeBytes_inside m address 2 (bytes32 value) (by simp)
  have b3 := storeBytes_inside m address 3 (bytes32 value) (by simp)
  simp only [bytes32, List.getElem_cons_zero, List.getElem_cons_succ, Nat.add_zero] at b0 b1 b2 b3
  unfold load32 store32 bytes32
  rw [b0, b1, b2, b3]
  simp only [UInt8.toNat_ofNat']
  omega

theorem load32_store32_of_disjoint (m : Mem) (written read value : Nat)
    (disjoint : written + 4 ≤ read ∨ read + 4 ≤ written) :
    load32 (store32 m written value) read = load32 m read := by
  apply load32_congr
  intro x low high
  exact store32_outside m written value x (by omega)

theorem copyTo_inside (m : Mem) (address i : Nat) (bytes : List UInt8) (inside : i < bytes.length)
    (bound : bytes.length ≤ 2 ^ 32) : copyTo m address bytes (u32 (address + i)) = bytes[i] := by
  have below : u32 (address + i) < 2 ^ 32 := Nat.mod_lt _ (by decide)
  have index : (u32 (address + i) + 2 ^ 32 - u32 address) % 2 ^ 32 = i := by
    simp only [u32]
    omega
  simp only [copyTo, below, if_true, index]
  simp [inside]

theorem copyTo_outside (m : Mem) (address x : Nat) (bytes : List UInt8)
    (outside : ∀ i, i < bytes.length → u32 (address + i) ≠ x) : copyTo m address bytes x = m x := by
  simp only [copyTo]
  split
  · next below =>
      have past : bytes.length ≤ (x + 2 ^ 32 - u32 address) % 2 ^ 32 := by
        by_contra inside
        apply outside ((x + 2 ^ 32 - u32 address) % 2 ^ 32) (by omega)
        simp only [u32]
        omega
      rw [List.getElem?_eq_none past, Option.getD_none]
  · rfl

def seenFrom (m : Mem) (base : Nat) : Mem := fun i => m (u32 (base + i))

theorem seenFrom_copyTo (m : Mem) (base offset i : Nat) (bytes : List UInt8)
    (ends : offset + bytes.length ≤ 2 ^ 32) (small : i < 2 ^ 32) :
    seenFrom (copyTo m (u32 (base + offset)) bytes) base i =
      storeBytes (seenFrom m base) offset bytes i := by
  by_cases inside : offset ≤ i ∧ i < offset + bytes.length
  · obtain ⟨low, high⟩ := inside
    have index : i - offset < bytes.length := by omega
    have address : u32 (base + i) = u32 (u32 (base + offset) + (i - offset)) := by
      simp only [u32]
      omega
    have stored := storeBytes_inside (seenFrom m base) offset (i - offset) bytes index
    rw [Nat.add_sub_cancel' low] at stored
    rw [stored, seenFrom, address]
    exact copyTo_inside m _ _ bytes index (by omega)
  · have apart : i < offset ∨ offset + bytes.length ≤ i := by omega
    rw [storeBytes_outside _ _ _ _ apart]
    apply copyTo_outside
    intro j below same
    simp only [u32] at same
    omega

end SysImpl.Bytes
