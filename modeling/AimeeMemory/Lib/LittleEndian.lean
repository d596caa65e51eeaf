import Mathlib.Data.List.Basic
import Mathlib.Algebra.Order.Ring.Nat

/-!
# Little-endian numbers in a byte string

`getLE` reads a byte string as one number, least significant byte first;
`putLE w n` writes the `w` low bytes of `n`; `field bs off w` reads the `w` bytes
at offset `off`. A header codec is a list of `field` reads, and its round trip is
`getLE_putLE` once for each field; the other way round, a header is the list of its fields,
and `putFields_eq_take` writes them back.
-/

namespace AimeeMemory.Lib

/-- The number a byte string stands for, least significant byte first. -/
def getLE : List UInt8 → ℕ
  | [] => 0
  | b :: bs => b.toNat + 256 * getLE bs

/-- The `w` low bytes of `n`. -/
def putLE : ℕ → ℕ → List UInt8
  | 0, _ => []
  | w + 1, n => UInt8.ofNat n :: putLE w (n / 256)

/-- The number in the `w` bytes at offset `off`. -/
def field (bs : List UInt8) (off w : ℕ) : ℕ := getLE ((bs.drop off).take w)

@[simp] theorem length_putLE (w n : ℕ) : (putLE w n).length = w := by
  induction w generalizing n with
  | zero => rfl
  | succ w ih => simp [putLE, ih]

/-- Writing `w` bytes and reading them back keeps the number modulo `256 ^ w`. -/
theorem getLE_putLE (w n : ℕ) : getLE (putLE w n) = n % 256 ^ w := by
  induction w generalizing n with
  | zero => simp [putLE, getLE, Nat.mod_one]
  | succ w ih =>
    have hb : (UInt8.ofNat n).toNat = n % 256 := by simp
    rw [putLE, getLE, ih, hb, pow_succ', Nat.mod_mul]

/-- Reading bytes and writing them back keeps them. -/
theorem putLE_getLE (bs : List UInt8) : putLE bs.length (getLE bs) = bs := by
  induction bs with
  | nil => rfl
  | cons b bs ih =>
    have hb := b.toNat_lt
    rw [List.length_cons, putLE, getLE, show (b.toNat + 256 * getLE bs) / 256 = getLE bs by omega, ih,
      UInt8.ofNat_add, UInt8.ofNat_mul]
    simp

/-- A number of `w` bytes is less than `256 ^ w`. -/
theorem getLE_lt {bs : List UInt8} {w : ℕ} (h : bs.length ≤ w) : getLE bs < 256 ^ w := by
  calc getLE bs < 256 ^ bs.length := by
        rw [← putLE_getLE bs, getLE_putLE, length_putLE]
        exact Nat.mod_lt _ (Nat.pow_pos (by decide))
    _ ≤ 256 ^ w := Nat.pow_le_pow_right (by decide) h

/-- A number is written by its low bytes alone. -/
theorem putLE_mod (w n : ℕ) : putLE w (n % 256 ^ w) = putLE w n := by
  have h := putLE_getLE (putLE w n)
  rwa [length_putLE, getLE_putLE] at h

theorem putLE_toNat_ofNat16 (n : ℕ) : putLE 2 (UInt16.ofNat n).toNat = putLE 2 n := by simpa using putLE_mod 2 n

theorem putLE_toNat_ofNat32 (n : ℕ) : putLE 4 (UInt32.ofNat n).toNat = putLE 4 n := by simpa using putLE_mod 4 n

theorem putLE_toNat_ofNat64 (n : ℕ) : putLE 8 (UInt64.ofNat n).toNat = putLE 8 n := by simpa using putLE_mod 8 n

/-- The fields of the given widths, read from offset `off` on and written back. -/
def putFields (bs : List UInt8) : ℕ → List ℕ → List UInt8
  | _, [] => []
  | off, w :: ws => putLE w (field bs off w) ++ putFields bs (off + w) ws

/-- A field written back behind what precedes it. -/
theorem take_append_putLE {bs : List UInt8} {off w : ℕ} (h : off + w ≤ bs.length) :
    bs.take off ++ putLE w (field bs off w) = bs.take (off + w) := by
  have hlen : ((bs.drop off).take w).length = w := by
    simp
    omega
  have hput := putLE_getLE ((bs.drop off).take w)
  rw [hlen] at hput
  rw [field, hput, List.take_add]

theorem take_append_putFields {bs : List UInt8} {off : ℕ} {ws : List ℕ} (h : off + ws.sum ≤ bs.length) :
    bs.take off ++ putFields bs off ws = bs.take (off + ws.sum) := by
  induction ws generalizing off with
  | nil => simp [putFields]
  | cons w ws ih =>
    rw [List.sum_cons] at h ⊢
    rw [putFields, ← List.append_assoc, take_append_putLE (by omega), ih (by omega), Nat.add_assoc]

/-- Fields that begin with the first byte and leave no gap are the bytes they were read from. -/
theorem putFields_eq_take {bs : List UInt8} {ws : List ℕ} (h : ws.sum ≤ bs.length) :
    putFields bs 0 ws = bs.take ws.sum := by
  have := @take_append_putFields bs 0 ws (by omega)
  rwa [List.take_zero, List.nil_append, Nat.zero_add] at this

/-! ## Fields of a concatenation -/

/-- A field behind what precedes it. -/
theorem field_append_right (as bs : List UInt8) (k w : ℕ) : field (as ++ bs) (as.length + k) w = field bs k w := by
  rw [field, field, List.drop_append, List.drop_eq_nil_of_le (by omega), List.nil_append, Nat.add_sub_cancel_left]

/-- What follows a field does not change it. -/
theorem field_append_left {as : List UInt8} {off w : ℕ} (bs : List UInt8) (h : off + w ≤ as.length) :
    field (as ++ bs) off w = field as off w := by
  rw [field, field, List.drop_append_of_le_length (by omega), List.take_append_of_le_length (by simp; omega)]

theorem field_lt (bs : List UInt8) (off w : ℕ) : field bs off w < 256 ^ w := getLE_lt (List.length_take_le _ _)

/-- A field of what is left behind an offset. -/
theorem field_drop (bs : List UInt8) (base off w : ℕ) : field (bs.drop base) off w = field bs (base + off) w := by
  rw [field, field, List.drop_drop]

/-- A field is read from the bytes up to its end. -/
theorem field_take {bs : List UInt8} {size off w : ℕ} (h : off + w ≤ size) :
    field (bs.take size) off w = field bs off w := by
  rw [field, field, List.drop_take, List.take_take, Nat.min_eq_left (by omega)]

@[simp] theorem field_putLE (bs : List UInt8) (w n : ℕ) : field (putLE w n ++ bs) 0 w = n % 256 ^ w := by
  rw [field, List.drop_zero, ← getLE_putLE, List.take_left' (length_putLE w n)]

@[simp] theorem field_putLE_self (w n : ℕ) : field (putLE w n) 0 w = n % 256 ^ w := by
  simpa using field_putLE [] w n

/-- A field behind another one. -/
@[simp] theorem field_putLE_of_le {w off : ℕ} (bs : List UInt8) (n w' : ℕ) (h : w ≤ off) :
    field (putLE w n ++ bs) off w' = field bs (off - w) w' := by
  have := field_append_right (putLE w n) bs (off - w) w'
  rwa [length_putLE, Nat.add_sub_cancel' h] at this

/-- Zero bytes are the number zero. -/
theorem field_replicate_zero (n off w : ℕ) : field (List.replicate n 0) off w = 0 := by
  have hzero (k : ℕ) : getLE (List.replicate k 0) = 0 := by
    induction k with
    | zero => rfl
    | succ k ih => rw [List.replicate_succ, getLE, ih]; rfl
  rw [field, List.drop_replicate, List.take_replicate, hzero]

/-- A set of byte strings in which none begins another: what is accepted is refused as soon
as it is cut or lengthened. -/
def PrefixFree (accepts : List UInt8 → Prop) : Prop :=
  ∀ bs rest, accepts bs → accepts (bs ++ rest) → rest = []

/-- A length that the header gives away makes a set prefix-free. -/
theorem PrefixFree.of_length {accepts : List UInt8 → Prop} (size : ℕ) (length : List UInt8 → ℕ)
    (hsize : ∀ bs, accepts bs → size ≤ bs.length ∧ bs.length = length (bs.take size)) : PrefixFree accepts := by
  intro bs rest h h'
  obtain ⟨hle, hlen⟩ := hsize bs h
  obtain ⟨-, hlen'⟩ := hsize _ h'
  rw [List.take_append_of_le_length hle, ← hlen, List.length_append] at hlen'
  exact List.eq_nil_of_length_eq_zero (by omega)

end AimeeMemory.Lib
