/-!
# Byte strings and big-endian words

Everything the library stores or sends is a `Bytes`. Numbers in it are big-endian with a
fixed width: `BigEndian.encode width n` writes the last `width` base-256 digits of `n`, and
`BigEndian.decode` reads digits back. The two undo each other on numbers below
`BigEndian.limit width` and on byte strings of that width: `decode_encode`,
`encode_decode`.
-/

namespace Superstep

abbrev Bytes := List UInt8

namespace BigEndian

/-- The first number that does not fit `width` bytes. -/
def limit : (width : Nat) → Nat
  | 0 => 1
  | w + 1 => 256 * limit w

/-- The last `width` base-256 digits of `n`, most significant first. -/
def encode : (width : Nat) → (n : Nat) → Bytes
  | 0, _ => []
  | w + 1, n => UInt8.ofNat (n / limit w) :: encode w n

/-- The number whose base-256 digits are given, most significant first. -/
def decode : Bytes → Nat
  | [] => 0
  | b :: bs => b.toNat * limit bs.length + decode bs

theorem limit_pos (width : Nat) : 0 < limit width := by
  induction width with
  | zero => decide
  | succ w ih => simp only [limit]; omega

@[simp] theorem length_encode (width n : Nat) : (encode width n).length = width := by
  induction width with
  | zero => rfl
  | succ w ih => simp [encode, ih]

/-- Reading back what was written gives the number modulo the width. -/
theorem decode_encode (width n : Nat) : decode (encode width n) = n % limit width := by
  induction width with
  | zero => simp [encode, decode, limit, Nat.mod_one]
  | succ w ih =>
    have byte : (UInt8.ofNat (n / limit w)).toNat = n / limit w % 256 := UInt8.toNat_ofNat'
    rw [encode, decode, length_encode, ih, byte, limit, Nat.mul_comm 256, Nat.mod_mul,
      Nat.mul_comm, Nat.add_comm]

theorem decode_lt (bs : Bytes) : decode bs < limit bs.length := by
  induction bs with
  | nil => decide
  | cons b bs ih =>
    have hb : b.toNat + 1 ≤ 256 := b.toNat_lt
    have hmul : (b.toNat + 1) * limit bs.length ≤ 256 * limit bs.length :=
      Nat.mul_le_mul_right _ hb
    rw [Nat.add_mul, Nat.one_mul] at hmul
    simp only [decode, List.length_cons, limit]
    omega

/-- Digits above the width are not written. -/
theorem encode_add_mul (width a n : Nat) : encode width (a * limit width + n) = encode width n := by
  induction width generalizing a with
  | zero => rfl
  | succ w ih =>
    have split : a * limit (w + 1) + n = a * 256 * limit w + n := by rw [limit, Nat.mul_assoc]
    have head : (a * 256 * limit w + n) / limit w = 256 * a + n / limit w := by
      rw [Nat.add_comm, Nat.add_mul_div_right _ _ (limit_pos w), Nat.add_comm, Nat.mul_comm a]
    have digit : UInt8.ofNat (256 * a + n / limit w) = UInt8.ofNat (n / limit w) := by
      apply UInt8.toNat_inj.1
      rw [UInt8.toNat_ofNat', UInt8.toNat_ofNat']
      omega
    rw [split, encode, encode, head, digit, ih]

/-- Writing back what was read gives the same digits. -/
theorem encode_decode (bs : Bytes) : encode bs.length (decode bs) = bs := by
  induction bs with
  | nil => rfl
  | cons b bs ih =>
    have head : (b.toNat * limit bs.length + decode bs) / limit bs.length = b.toNat := by
      rw [Nat.add_comm, Nat.add_mul_div_right _ _ (limit_pos _),
        Nat.div_eq_of_lt (decode_lt bs), Nat.zero_add]
    rw [List.length_cons, encode, decode, head, encode_add_mul, ih, UInt8.ofNat_toNat]

end BigEndian

/-- Lengths and counts in records and frames are 32-bit words: this is the first
number that does not fit one. -/
def wordLimit : Nat := BigEndian.limit 4

/-- Replaces the first four bytes of `bytes` by the word `n`. -/
def putWord32 (bytes : Bytes) (n : UInt32) : Bytes :=
  BigEndian.encode 4 n.toNat ++ bytes.drop 4

end Superstep
