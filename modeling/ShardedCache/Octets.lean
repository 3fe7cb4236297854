/-! Keys, values and frames are strings of octets, kept as lists so that cutting and joining are the list
operations.  Numbers stand in them in network order. -/

namespace ShardedCache

abbrev Octets := List UInt8

namespace Octets

/-- How many numbers can be written with `width` octets. -/
def capacity : (width : Nat) → Nat
  | 0 => 1
  | width + 1 => 256 * capacity width

@[simp] theorem capacity_one : capacity 1 = 256 := rfl

@[simp] theorem capacity_two : capacity 2 = 65536 := rfl

@[simp] theorem capacity_four : capacity 4 = 4294967296 := rfl

@[simp] theorem capacity_eight : capacity 8 = 18446744073709551616 := rfl

theorem capacity_pos (width : Nat) : 0 < capacity width := by
  induction width with
  | zero => exact Nat.one_pos
  | succ width ih => exact Nat.mul_pos (by omega) ih

/-- The number `n` in `width` octets, most significant first; higher digits are lost. -/
def bigEndian : (width : Nat) → (n : Nat) → Octets
  | 0, _ => []
  | width + 1, n => UInt8.ofNat (n / capacity width) :: bigEndian width n

def toNat : Octets → Nat
  | [] => 0
  | b :: bs => b.toNat * capacity bs.length + toNat bs

@[simp] theorem length_bigEndian (width n : Nat) : (bigEndian width n).length = width := by
  induction width with
  | zero => rfl
  | succ width ih => simp [bigEndian, ih]

theorem toNat_lt (bs : Octets) : toNat bs < capacity bs.length := by
  induction bs with
  | nil => exact Nat.one_pos
  | cons b bs ih =>
    have hb : b.toNat + 1 ≤ 256 := b.toNat_lt
    have hp : (b.toNat + 1) * capacity bs.length ≤ 256 * capacity bs.length :=
      Nat.mul_le_mul_right _ hb
    rw [Nat.add_mul, Nat.one_mul] at hp
    simp only [toNat, List.length_cons, capacity]
    omega

theorem toNat_bigEndian (width n : Nat) : toNat (bigEndian width n) = n % capacity width := by
  induction width with
  | zero => simp [bigEndian, toNat, capacity, Nat.mod_one]
  | succ width ih =>
    have digit : (UInt8.ofNat (n / capacity width)).toNat = n / capacity width % 256 := by simp
    rw [bigEndian, toNat, length_bigEndian, ih, digit, capacity, Nat.mul_comm 256, Nat.mod_mul,
      Nat.mul_comm (capacity width), Nat.add_comm]

theorem toNat_bigEndian_of_lt {width n : Nat} (h : n < capacity width) : toNat (bigEndian width n) = n := by
  rw [toNat_bigEndian, Nat.mod_eq_of_lt h]

theorem bigEndian_add_mul (width n k : Nat) :
    bigEndian width (k * capacity width + n) = bigEndian width n := by
  induction width generalizing k with
  | zero => rfl
  | succ width ih =>
    have hsplit : k * capacity (width + 1) + n = k * 256 * capacity width + n := by
      rw [capacity, Nat.mul_assoc]
    have hdigit : (k * 256 * capacity width + n) / capacity width =
        n / capacity width + 256 * k := by
      rw [Nat.add_comm, Nat.add_mul_div_right _ _ (capacity_pos width), Nat.mul_comm k]
    rw [hsplit]
    simp only [bigEndian, hdigit, ih (k * 256)]
    congr 1
    apply UInt8.toNat_inj.mp
    simp

theorem bigEndian_toNat (bs : Octets) : bigEndian bs.length (toNat bs) = bs := by
  induction bs with
  | nil => rfl
  | cons b bs ih =>
    have hdigit : (b.toNat * capacity bs.length + toNat bs) / capacity bs.length = b.toNat := by
      rw [Nat.add_comm, Nat.add_mul_div_right _ _ (capacity_pos bs.length),
        Nat.div_eq_of_lt (toNat_lt bs), Nat.zero_add]
    simp only [toNat, List.length_cons, bigEndian, hdigit, bigEndian_add_mul, ih, UInt8.ofNat_toNat]

/-- The number in the first `width` octets, and the octets after it. -/
def number (width : Nat) (bs : Octets) : Nat × Octets :=
  (toNat (bs.take width), bs.drop width)

theorem number_append (width n : Nat) (rest : Octets) :
    number width (bigEndian width n ++ rest) = (n % capacity width, rest) := by
  have htake : (bigEndian width n ++ rest).take width = bigEndian width n :=
    List.take_left' (length_bigEndian width n)
  have hdrop : (bigEndian width n ++ rest).drop width = rest :=
    List.drop_left' (length_bigEndian width n)
  rw [number, htake, hdrop, toNat_bigEndian]

/-- The segment of `length` octets from `start` on, none if the string ends before it does. -/
def slice? (bs : Octets) (start length : Nat) : Option Octets :=
  if start + length ≤ bs.length then some ((bs.drop start).take length) else none

def hexDigit (n : Nat) : Char :=
  if n < 10 then Char.ofNat ('0'.toNat + n) else Char.ofNat ('a'.toNat + (n - 10))

def hex (bs : Octets) : String :=
  String.ofList (bs.flatMap fun b => [hexDigit (b.toNat / 16), hexDigit (b.toNat % 16)])

end Octets

end ShardedCache
