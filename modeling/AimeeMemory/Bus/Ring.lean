import AimeeMemory.Lib.Trace
import AimeeMemory.Lib.LittleEndian
import Mathlib.Logic.Function.Basic
import Mathlib.Data.List.Range
import Mathlib.Data.Nat.ModEq

/-!
# The single-producer single-consumer ring

`ring.go`. A ring is a header and `capacity` slots in shared memory. The two indices are
64-bit words that only grow and are taken modulo 2^64; the slot of an index is found by
masking. The producer alone stores `head`, the consumer alone stores `tail`, and each of
`ProduceBegin`, `ProduceCommit`, `ConsumeBegin` and `ConsumeCommit` is two atomic steps,
so that the machine below may switch threads between any two of them.

## What is proved

* **`attachRing_slots`**: the slots of an attached ring lie in the mapped bytes, behind the
  header, and no two of them overlap.
* **`consumer_takes_prefix`**: from any attached state, in every interleaving, what the
  consumer has taken is a prefix of what the producer has published, and a slot in the
  producer's hands is not one of the unread.
-/

namespace AimeeMemory.Bus

open AimeeMemory.Lib

/-- `ringMagic`, "RING". -/
def ringMagic : ℕ := 0x474e4952

/-- `ringHdrBytes`: the slots begin here. -/
def ringHdrBytes : ℕ := 192

/-- `Ring`: the geometry of an attached ring. -/
structure Ring where
  slotSize : UInt32
  capacity : UInt32
  mask : UInt32
  two_le : 2 ≤ capacity
  pow_two : capacity &&& (capacity - 1) = 0
  slot_ne : slotSize ≠ 0
  mask_eq : mask = capacity - 1

/-- What `AttachRing` returns: the geometry, and the indices as they were read. -/
structure Attached where
  ring : Ring
  head : UInt64
  tail : UInt64
  room : head - tail ≤ ring.capacity.toUInt64

/-- `AttachRing`. -/
def attachRing (mem : List UInt8) : Option Attached :=
  if mem.length < ringHdrBytes then none
  else if field mem 0 4 ≠ ringMagic then none
  else
    let slot := UInt32.ofNat (field mem 4 4)
    let capv := UInt32.ofNat (field mem 8 4)
    let mask := UInt32.ofNat (field mem 12 4)
    let slotsOff := field mem 16 4
    if h : 2 ≤ capv ∧ capv &&& (capv - 1) = 0 ∧ slot ≠ 0 ∧ mask = capv - 1 ∧ slotsOff = ringHdrBytes then
      if mem.length < slotsOff + slot.toNat * capv.toNat then none
      else
        let head := UInt64.ofNat (field mem 64 8)
        let tail := UInt64.ofNat (field mem 128 8)
        if hroom : head - tail ≤ capv.toUInt64 then
          some { ring := { slotSize := slot, capacity := capv, mask, two_le := h.1, pow_two := h.2.1,
                           slot_ne := h.2.2.1, mask_eq := h.2.2.2.1 },
                 head, tail, room := hroom }
        else none
    else none

namespace Ring

variable (r : Ring)

/-- Where the slot of an index begins: `Ring.slot`. -/
def slot (index : UInt64) : ℕ := ringHdrBytes + (index &&& r.mask.toUInt64).toNat * r.slotSize.toNat

/-- A slot as a reader finds it: where it is and the bytes it holds. -/
structure Slot where
  off : ℕ
  bytes : List UInt8
  deriving DecidableEq

/-- The slot at an offset, as memory holds it. -/
def read (mem : ℕ → UInt8) (off : ℕ) : Slot where
  off
  bytes := (List.range r.slotSize.toNat).map fun i => mem (off + i)

/-- The unread slots, oldest first. -/
def unread (mem : ℕ → UInt8) (head tail : UInt64) : List Slot :=
  (List.range (head - tail).toNat).map fun i => r.read mem (r.slot (tail + UInt64.ofNat i))

end Ring

/-- Where a thread is in its use of the ring. A commit comes after a begin that returned
a slot. -/
inductive Phase where
  | idle
  /-- The begin has loaded the thread's own index. -/
  | begun (own : UInt64)
  /-- The begin has returned the slot at this offset. -/
  | holding (slot : ℕ)
  /-- The commit has loaded the thread's own index. -/
  | committing (slot : ℕ) (own : UInt64)
  deriving DecidableEq

/-- The slot in a thread's hands. -/
def Phase.slot? : Phase → Option ℕ
  | .holding slot | .committing slot _ => some slot
  | _ => none

/-- The shared memory, the two threads, and what has been published and taken. -/
structure RingState where
  head : UInt64
  tail : UInt64
  mem : ℕ → UInt8
  producer : Phase
  consumer : Phase
  published : List Ring.Slot
  taken : List Ring.Slot

/-- One atomic step of one of the threads. -/
inductive RingAction where
  /-- `ProduceBegin` loads `head`; a slot that was begun and not committed is abandoned. -/
  | produceLoadHead
  /-- `ProduceBegin` loads `tail` and returns a slot, or nil for a full ring. -/
  | produceLoadTail
  /-- The producer stores one byte of its slot. -/
  | produceWrite (i : ℕ) (b : UInt8)
  /-- `ProduceCommit` loads `head`. -/
  | publishLoad
  /-- `ProduceCommit` stores `head + 1`. -/
  | publishStore
  /-- `ConsumeBegin` loads `tail`. -/
  | consumeLoadTail
  /-- `ConsumeBegin` loads `head` and returns a slot, or nil for an empty ring. -/
  | consumeLoadHead
  /-- `ConsumeCommit` loads `tail`. -/
  | releaseLoad
  /-- `ConsumeCommit` stores `tail + 1`. -/
  | releaseStore

/-- One step of the machine. A step that its thread cannot take changes nothing. -/
def ringStep (r : Ring) (s : RingState) : RingAction → RingState
  | .produceLoadHead =>
    match s.producer with
    | .idle | .holding _ => { s with producer := .begun s.head }
    | _ => s
  | .produceLoadTail =>
    match s.producer with
    | .begun head =>
      if head - s.tail ≥ r.capacity.toUInt64 then { s with producer := .idle }
      else { s with producer := .holding (r.slot head) }
    | _ => s
  | .produceWrite i b =>
    match s.producer with
    | .holding slot =>
      if i < r.slotSize.toNat then { s with mem := Function.update s.mem (slot + i) b } else s
    | _ => s
  | .publishLoad =>
    match s.producer with
    | .holding slot => { s with producer := .committing slot s.head }
    | _ => s
  | .publishStore =>
    match s.producer with
    | .committing slot head =>
      { s with head := head + 1, producer := .idle, published := s.published ++ [r.read s.mem slot] }
    | _ => s
  | .consumeLoadTail =>
    match s.consumer with
    | .idle | .holding _ => { s with consumer := .begun s.tail }
    | _ => s
  | .consumeLoadHead =>
    match s.consumer with
    | .begun tail =>
      if s.head = tail then { s with consumer := .idle }
      else { s with consumer := .holding (r.slot tail) }
    | _ => s
  | .releaseLoad =>
    match s.consumer with
    | .holding slot => { s with consumer := .committing slot s.tail }
    | _ => s
  | .releaseStore =>
    match s.consumer with
    | .committing slot tail =>
      { s with tail := tail + 1, consumer := .idle, taken := s.taken ++ [r.read s.mem slot] }
    | _ => s

/-- The state both threads start from: what is unread has been published before. -/
def Attached.start (a : Attached) (mem : List UInt8) : RingState where
  head := a.head
  tail := a.tail
  mem i := mem.getD i 0
  producer := .idle
  consumer := .idle
  published := a.ring.unread (fun i => mem.getD i 0) a.head a.tail
  taken := []

/-! ## Indices and slots -/

namespace Ring

variable {r : Ring} {x y d : UInt64} {mem : ℕ → UInt8} {head tail : UInt64}

theorem capacity_isPowerOfTwo (r : Ring) : r.capacity.toNat.isPowerOfTwo := by
  have h2 : 2 ≤ r.capacity.toNat := UInt32.le_iff_toNat_le.1 r.two_le
  have h1 : (r.capacity - 1).toNat = r.capacity.toNat - 1 :=
    UInt32.toNat_sub_of_le _ _ (UInt32.le_iff_toNat_le.2 (by simp; omega))
  have hand : r.capacity.toNat &&& (r.capacity.toNat - 1) = 0 := by
    rw [← h1, ← UInt32.toNat_and, r.pow_two]
    rfl
  exact (Nat.and_sub_one_eq_zero_iff_isPowerOfTwo (by omega)).1 hand

/-- The capacity divides the range of an index, so masking survives the wrap. -/
theorem capacity_dvd (r : Ring) : r.capacity.toNat ∣ 2 ^ 64 := by
  obtain ⟨k, hk⟩ := r.capacity_isPowerOfTwo
  have hlt : 2 ^ k < 2 ^ 32 := hk ▸ r.capacity.toNat_lt
  have hk32 : k < 32 := (Nat.pow_lt_pow_iff_right (by decide)).1 hlt
  rw [hk]
  exact pow_dvd_pow 2 (by omega)

theorem capacity_pos (r : Ring) : 0 < r.capacity.toNat :=
  Nat.lt_of_lt_of_le (by decide) (UInt32.le_iff_toNat_le.1 r.two_le)

theorem and_mask (r : Ring) (x : UInt64) : (x &&& r.mask.toUInt64).toNat = x.toNat % r.capacity.toNat := by
  obtain ⟨k, hk⟩ := r.capacity_isPowerOfTwo
  have h2 : 2 ≤ r.capacity.toNat := UInt32.le_iff_toNat_le.1 r.two_le
  have h1 : (r.capacity - 1).toNat = r.capacity.toNat - 1 :=
    UInt32.toNat_sub_of_le _ _ (UInt32.le_iff_toNat_le.2 (by simp; omega))
  rw [UInt64.toNat_and, UInt32.toNat_toUInt64, r.mask_eq, h1, hk, Nat.and_two_pow_sub_one_eq_mod]

theorem slot_eq (r : Ring) (x : UInt64) :
    r.slot x = ringHdrBytes + x.toNat % r.capacity.toNat * r.slotSize.toNat := by
  rw [slot, and_mask]

/-- Two indices less than a capacity apart have one slot only if they are equal. -/
theorem slot_add_ne (hd : d.toNat < r.capacity.toNat) (h0 : d ≠ 0) : r.slot (x + d) ≠ r.slot x := by
  have hS : 0 < r.slotSize.toNat := Nat.pos_of_ne_zero fun h => r.slot_ne (UInt32.toNat_inj.1 h)
  have hmod : (x + d).toNat % r.capacity.toNat = (x.toNat + d.toNat) % r.capacity.toNat := by
    rw [UInt64.toNat_add, Nat.mod_mod_of_dvd _ r.capacity_dvd]
  intro h
  rw [slot_eq, slot_eq, Nat.add_left_cancel_iff, Nat.mul_left_inj hS.ne', hmod] at h
  have hzero : d.toNat % r.capacity.toNat = 0 % r.capacity.toNat :=
    Nat.ModEq.add_left_cancel' x.toNat h
  rw [Nat.mod_eq_of_lt hd, Nat.zero_mod] at hzero
  exact h0 (UInt64.toNat_inj.1 hzero)

/-- Distinct slots do not overlap. -/
theorem slot_apart (h : r.slot x ≠ r.slot y) :
    r.slot x + r.slotSize.toNat ≤ r.slot y ∨ r.slot y + r.slotSize.toNat ≤ r.slot x := by
  simp only [slot_eq] at *
  generalize x.toNat % r.capacity.toNat = a at *
  generalize y.toNat % r.capacity.toNat = b at *
  rcases lt_trichotomy a b with hab | rfl | hab
  · have hle := Nat.mul_le_mul_right r.slotSize.toNat (Nat.succ_le_of_lt hab)
    rw [Nat.succ_mul] at hle
    omega
  · exact absurd rfl h
  · have hle := Nat.mul_le_mul_right r.slotSize.toNat (Nat.succ_le_of_lt hab)
    rw [Nat.succ_mul] at hle
    omega

/-- A store into one slot leaves the others as they were. -/
theorem read_update {i : ℕ} {b : UInt8} (hi : i < r.slotSize.toNat) (h : r.slot x ≠ r.slot y) :
    r.read (Function.update mem (r.slot x + i) b) (r.slot y) = r.read mem (r.slot y) := by
  have hbytes : ∀ j ∈ List.range r.slotSize.toNat,
      Function.update mem (r.slot x + i) b (r.slot y + j) = mem (r.slot y + j) := by
    intro j hj
    have := List.mem_range.1 hj
    refine Function.update_of_ne ?_ _ _
    rcases slot_apart h with h' | h' <;> omega
  simp only [read, List.map_congr_left hbytes]

theorem tail_add_sub : tail + UInt64.ofNat (head - tail).toNat = head := by
  rw [UInt64.ofNat_toNat]
  grind

theorem toNat_sub_ne_zero (h : head ≠ tail) : (head - tail).toNat ≠ 0 := by
  intro h0
  have : head - tail = 0 := UInt64.toNat_inj.1 h0
  grind

/-- Publishing the slot of `head` puts it behind the unread. -/
theorem unread_publish (h : (head - tail).toNat < r.capacity.toNat) :
    r.unread mem (head + 1) tail = r.unread mem head tail ++ [r.read mem (r.slot head)] := by
  have hcap := r.capacity.toNat_lt
  have hsub : (head + 1 - tail).toNat = (head - tail).toNat + 1 := by
    rw [show head + 1 - tail = (head - tail) + 1 by grind, UInt64.toNat_add, UInt64.toNat_one]
    omega
  rw [unread, hsub, List.range_succ, List.map_append, List.map_singleton, tail_add_sub]
  rfl

/-- Releasing the slot of `tail` takes the oldest of the unread. -/
theorem unread_release (h : head ≠ tail) :
    r.unread mem head tail = r.read mem (r.slot tail) :: r.unread mem head (tail + 1) := by
  have hne := toNat_sub_ne_zero h
  have hsub : (head - tail).toNat = (head - (tail + 1)).toNat + 1 := by
    have hlt := (head - tail).toNat_lt
    rw [show head - (tail + 1) = (head - tail) - 1 by grind, UInt64.toNat_sub (head - tail), UInt64.toNat_one]
    omega
  rw [unread, hsub, List.range_succ_eq_map, List.map_cons, List.map_map, unread]
  congr 1
  · simp
  · refine List.map_congr_left fun i _ => ?_
    have hi : tail + UInt64.ofNat (i + 1) = tail + 1 + UInt64.ofNat i := by
      rw [UInt64.ofNat_add]
      grind
    rw [Function.comp_apply, Nat.succ_eq_add_one, hi]

/-- The slot of `head` is none of the unread. -/
theorem head_slot_ne {j : ℕ} (h : (head - tail).toNat < r.capacity.toNat) (hj : j < (head - tail).toNat) :
    r.slot (tail + UInt64.ofNat j) ≠ r.slot head := by
  have hlt := (head - tail).toNat_lt
  have hof : (UInt64.ofNat j).toNat = j := by simp; omega
  -- the way from the unread slot up to `head`
  have hd : (head - (tail + UInt64.ofNat j)).toNat = (head - tail).toNat - j := by
    rw [show head - (tail + UInt64.ofNat j) = (head - tail) - UInt64.ofNat j by grind,
      UInt64.toNat_sub (head - tail), hof]
    omega
  have hne := slot_add_ne (r := r) (x := tail + UInt64.ofNat j) (d := head - (tail + UInt64.ofNat j))
    (by omega) (fun h0 => by rw [h0] at hd; simp at hd; omega)
  rw [show tail + UInt64.ofNat j + (head - (tail + UInt64.ofNat j)) = head by grind] at hne
  exact hne.symm

/-- A store into the slot of `head` leaves the unread as they were. -/
theorem unread_update {i : ℕ} {b : UInt8} (hi : i < r.slotSize.toNat)
    (h : (head - tail).toNat < r.capacity.toNat) :
    r.unread (Function.update mem (r.slot head + i) b) head tail = r.unread mem head tail := by
  refine List.map_congr_left fun j hj => read_update hi ?_
  exact (head_slot_ne h (List.mem_range.1 hj)).symm

end Ring

/-- `AttachRing` has checked that the mapped bytes hold every slot. -/
theorem attachRing_length {mem : List UInt8} {a : Attached} (h : attachRing mem = some a) :
    ringHdrBytes + a.ring.slotSize.toNat * a.ring.capacity.toNat ≤ mem.length := by
  simp only [attachRing] at h
  split at h
  · cases h
  split at h
  · cases h
  split at h
  · rename_i hgeometry
    split at h
    · cases h
    · rename_i hlen
      split at h
      · cases h
        rw [hgeometry.2.2.2.2] at hlen
        simp only
        omega
      · cases h
  · cases h

/-- The slots of an attached ring lie in the mapped bytes behind the header. -/
theorem attachRing_slots {mem : List UInt8} {a : Attached} (h : attachRing mem = some a) (x : UInt64) :
    ringHdrBytes ≤ a.ring.slot x ∧ a.ring.slot x + a.ring.slotSize.toNat ≤ mem.length := by
  have hlen := attachRing_length h
  have hlt := Nat.mod_lt x.toNat a.ring.capacity_pos
  have hle := Nat.mul_le_mul_right a.ring.slotSize.toNat (Nat.succ_le_of_lt hlt)
  rw [Nat.succ_mul, Nat.mul_comm a.ring.capacity.toNat] at hle
  rw [Ring.slot_eq]
  omega

/-! ## The invariant -/

/-- What the producer knows: its own index is the shared one, and a slot in its hands is
the slot of `head`, with room for it. -/
def Producing (r : Ring) (s : RingState) : Phase → Prop
  | .idle => True
  | .begun own => own = s.head
  | .holding slot => slot = r.slot s.head ∧ (s.head - s.tail).toNat < r.capacity.toNat
  | .committing slot own =>
    own = s.head ∧ slot = r.slot s.head ∧ (s.head - s.tail).toNat < r.capacity.toNat

/-- What the consumer knows: its own index is the shared one, and a slot in its hands is
the slot of `tail`, which is unread. -/
def Consuming (r : Ring) (s : RingState) : Phase → Prop
  | .idle => True
  | .begun own => own = s.tail
  | .holding slot => slot = r.slot s.tail ∧ s.head ≠ s.tail
  | .committing slot own => own = s.tail ∧ slot = r.slot s.tail ∧ s.head ≠ s.tail

/-- The invariant of the ring: what was published is what was taken and the unread. -/
structure RingInv (r : Ring) (s : RingState) : Prop where
  room : (s.head - s.tail).toNat ≤ r.capacity.toNat
  queue : s.published = s.taken ++ r.unread s.mem s.head s.tail
  producing : Producing r s s.producer
  consuming : Consuming r s s.consumer

variable {r : Ring} {s : RingState} {p : Phase}

theorem Producing.slot (h : Producing r s s.producer) {off : ℕ} (hoff : s.producer.slot? = some off) :
    off = r.slot s.head ∧ (s.head - s.tail).toNat < r.capacity.toNat := by
  cases hp : s.producer <;> simp_all [Producing, Phase.slot?]

theorem Consuming.slot (h : Consuming r s s.consumer) {off : ℕ} (hoff : s.consumer.slot? = some off) :
    off = r.slot s.tail ∧ s.head ≠ s.tail := by
  cases hp : s.consumer <;> simp_all [Consuming, Phase.slot?]

theorem RingInv.start (a : Attached) (mem : List UInt8) : RingInv a.ring (a.start mem) where
  room := by simpa [Attached.start] using UInt64.le_iff_toNat_le.1 a.room
  queue := by simp [Attached.start]
  producing := trivial
  consuming := trivial

/-- The producer's index moves: what the consumer knows stays true. -/
theorem Consuming.publish (h : Consuming r s p) (hroom : (s.head - s.tail).toNat < r.capacity.toNat)
    {t : RingState} (hhead : t.head = s.head + 1) (htail : t.tail = s.tail) : Consuming r t p := by
  have hcap := r.capacity.toNat_lt
  have hne : t.head ≠ t.tail := by
    rw [hhead, htail]
    intro h0
    have : (s.head - s.tail).toNat = 2 ^ 64 - 1 := by
      rw [show s.head - s.tail = 0 - 1 by grind]
      rfl
    omega
  cases p <;> simp_all [Consuming]

/-- The consumer's index moves: what the producer knows stays true. -/
theorem Producing.release (h : Producing r s p) (hne : s.head ≠ s.tail)
    {t : RingState} (hhead : t.head = s.head) (htail : t.tail = s.tail + 1) : Producing r t p := by
  have hle : (t.head - t.tail).toNat < (s.head - s.tail).toNat := by
    have h0 := Ring.toNat_sub_ne_zero hne
    have hlt := (s.head - s.tail).toNat_lt
    rw [hhead, htail, show s.head - (s.tail + 1) = (s.head - s.tail) - 1 by grind,
      UInt64.toNat_sub (s.head - s.tail), UInt64.toNat_one]
    omega
  cases p <;> simp_all [Producing] <;> omega

/-! ## The steps -/

theorem RingInv.produceLoadTail (h : RingInv r s) : RingInv r (ringStep r s .produceLoadTail) := by
  simp only [ringStep]
  split
  · rename_i own hown
    have hhead : own = s.head := by simpa [Producing, hown] using h.producing
    subst hhead
    split
    · exact { h with producing := trivial }
    · rename_i hfull
      have hroom : (s.head - s.tail).toNat < r.capacity.toNat := by
        simpa [UInt64.le_iff_toNat_le] using hfull
      exact { h with producing := ⟨rfl, hroom⟩ }
  · exact h

theorem RingInv.produceWrite (h : RingInv r s) (i : ℕ) (b : UInt8) :
    RingInv r (ringStep r s (.produceWrite i b)) := by
  simp only [ringStep]
  split
  · rename_i slot hslot
    split
    · rename_i hi
      obtain ⟨hoff, hroom⟩ : slot = r.slot s.head ∧ (s.head - s.tail).toNat < r.capacity.toNat := by
        simpa only [Producing, hslot] using h.producing
      subst hoff
      -- the slot in the producer's hands is none of the unread
      exact { h with queue := by rw [h.queue, Ring.unread_update hi hroom] }
    · exact h
  · exact h

theorem RingInv.publishStore (h : RingInv r s) : RingInv r (ringStep r s .publishStore) := by
  simp only [ringStep]
  split
  · rename_i slot own hown
    obtain ⟨rfl, rfl, hroom⟩ : own = s.head ∧ slot = r.slot s.head ∧
        (s.head - s.tail).toNat < r.capacity.toNat := by
      simpa only [Producing, hown] using h.producing
    have hunread : r.unread s.mem (s.head + 1) s.tail = r.unread s.mem s.head s.tail ++ [r.read s.mem (r.slot s.head)] :=
      Ring.unread_publish hroom
    refine ⟨?_, ?_, trivial, h.consuming.publish hroom rfl rfl⟩
    · have := congrArg List.length hunread
      simp only [Ring.unread, List.length_map, List.length_range, List.length_append, List.length_singleton] at this
      simp only
      omega
    · simp only [h.queue, hunread, List.append_assoc]
  · exact h

theorem RingInv.consumeLoadHead (h : RingInv r s) : RingInv r (ringStep r s .consumeLoadHead) := by
  simp only [ringStep]
  split
  · rename_i own hown
    have htail : own = s.tail := by simpa [Consuming, hown] using h.consuming
    subst htail
    split
    · exact { h with consuming := trivial }
    · rename_i hempty
      exact { h with consuming := ⟨rfl, hempty⟩ }
  · exact h

theorem RingInv.releaseStore (h : RingInv r s) : RingInv r (ringStep r s .releaseStore) := by
  simp only [ringStep]
  split
  · rename_i slot own hown
    obtain ⟨rfl, rfl, hne⟩ : own = s.tail ∧ slot = r.slot s.tail ∧ s.head ≠ s.tail := by
      simpa only [Consuming, hown] using h.consuming
    have hunread : r.unread s.mem s.head s.tail = r.read s.mem (r.slot s.tail) :: r.unread s.mem s.head (s.tail + 1) :=
      Ring.unread_release hne
    refine ⟨?_, ?_, h.producing.release hne rfl rfl, trivial⟩
    · have := congrArg List.length hunread
      simp only [Ring.unread, List.length_map, List.length_range, List.length_cons] at this
      have := h.room
      simp only
      omega
    · simp only [h.queue, hunread, List.append_assoc, List.singleton_append]
  · exact h

theorem RingInv.step (h : RingInv r s) (i : RingAction) : RingInv r (ringStep r s i) := by
  cases i with
  | produceLoadHead =>
    simp only [ringStep]
    split
    · exact { h with producing := rfl }
    · exact { h with producing := rfl }
    · exact h
  | produceLoadTail => exact h.produceLoadTail
  | produceWrite i b => exact h.produceWrite i b
  | publishLoad =>
    simp only [ringStep]
    split
    · rename_i slot hslot
      exact { h with producing := ⟨rfl, by simpa only [Producing, hslot] using h.producing⟩ }
    · exact h
  | publishStore => exact h.publishStore
  | consumeLoadTail =>
    simp only [ringStep]
    split
    · exact { h with consuming := rfl }
    · exact { h with consuming := rfl }
    · exact h
  | consumeLoadHead => exact h.consumeLoadHead
  | releaseLoad =>
    simp only [ringStep]
    split
    · rename_i slot hslot
      exact { h with consuming := ⟨rfl, by simpa only [Consuming, hslot] using h.consuming⟩ }
    · exact h
  | releaseStore => exact h.releaseStore

theorem RingInv.run (a : Attached) (mem : List UInt8) (is : List RingAction) :
    RingInv a.ring (run (ringStep a.ring) (a.start mem) is) :=
  run_keeps (I := fun _ t => RingInv a.ring t) (.start a mem) (fun _ _ i h => h.step i) is

/-- **The ring is a queue**: from any attached state and in every interleaving of the
steps of the two threads, what the consumer has taken is a prefix of what the producer has
published; a slot in the producer's hands overlaps no unread slot; and a slot in the
consumer's hands is the oldest unread and reads as it was published. -/
theorem consumer_takes_prefix (a : Attached) (mem : List UInt8) (is : List RingAction) :
    let s := run (ringStep a.ring) (a.start mem) is
    s.taken <+: s.published ∧
      (∀ off, s.producer.slot? = some off → ∀ u ∈ s.published.drop s.taken.length,
        off + a.ring.slotSize.toNat ≤ u.off ∨ u.off + a.ring.slotSize.toNat ≤ off) ∧
      ∀ off, s.consumer.slot? = some off →
        s.published[s.taken.length]? = some (a.ring.read s.mem off) := by
  intro s
  have h : RingInv a.ring s := .run a mem is
  have hdrop : s.published.drop s.taken.length = a.ring.unread s.mem s.head s.tail := by
    rw [h.queue, List.drop_left]
  refine ⟨⟨_, h.queue.symm⟩, fun off hoff u hu => ?_, fun off hoff => ?_⟩
  · obtain ⟨rfl, hroom⟩ := h.producing.slot hoff
    rw [hdrop] at hu
    obtain ⟨j, hj, rfl⟩ := List.mem_map.1 hu
    exact Ring.slot_apart (Ring.head_slot_ne hroom (List.mem_range.1 hj)).symm
  · obtain ⟨rfl, hne⟩ := h.consuming.slot hoff
    rw [h.queue, Ring.unread_release hne]
    simp

/-- A ring of two one-byte slots whose indices are about to wrap. -/
def wrapping : Attached where
  ring := { slotSize := 1, capacity := 2, mask := 1, two_le := by decide, pow_two := by decide,
            slot_ne := by decide, mask_eq := by decide }
  head := 0xffffffffffffffff
  tail := 0xffffffffffffffff
  room := by decide

/-- Two bytes cross the wrap, the second one begun before the first is released. -/
example :
    ((run (ringStep wrapping.ring) (wrapping.start [])
      [.produceLoadHead, .produceLoadTail, .produceWrite 0 7, .publishLoad, .publishStore,
       .consumeLoadTail, .consumeLoadHead, .produceLoadHead, .produceLoadTail, .produceWrite 0 8,
       .releaseLoad, .publishLoad, .releaseStore, .publishStore,
       .consumeLoadTail, .consumeLoadHead, .releaseLoad, .releaseStore]).taken.map (·.bytes)) =
      [[7], [8]] := by
  decide

end AimeeMemory.Bus
