import AimeeMemory.Bus.Ring
import Mathlib.Order.CompletePartialOrder
import Mathlib.Order.Interval.Set.Disjoint

/-!
# The queue-pair region

`AttachQueuePair` of `region.go`. A client's region is a header of 96 bytes with the offsets
of two rings. Each ring is attached by itself to the bytes from its own offset to the end of
the region; of the offsets alone the code asks that they are inside and not equal.

## What is proved

* `Ring.bytes_lt`: the size of a ring fits the 64-bit `int` it is computed in.
* **`attachQueuePair_apart_iff`**: the header and the two rings are apart exactly where the
  offsets leave room for them.
-/

namespace AimeeMemory.Bus

open AimeeMemory.Lib

/-- `qpMagic`, "QPBR". -/
def qpMagic : ℕ := 0x52504251

/-- `qpBytes`: the header of the region. -/
def qpBytes : ℕ := 96

/-- An attached ring and the offset of its base in the region. -/
structure PlacedRing where
  base : ℕ
  attached : Attached

/-- `QueuePair`. -/
structure QueuePair where
  inbound : PlacedRing
  outbound : PlacedRing

/-- `AttachRing` on the bytes from an offset on. -/
def attachAt (mem : List UInt8) (off : ℕ) : Option PlacedRing := (attachRing (mem.drop off)).map (⟨off, ·⟩)

/-- `AttachQueuePair`. -/
def attachQueuePair (mem : List UInt8) : Option QueuePair :=
  if mem.length < qpBytes then none
  else if field mem 0 4 ≠ qpMagic then none
  else
    let inOff := field mem 24 4
    let outOff := field mem 28 4
    if inOff ≥ mem.length ∨ outOff ≥ mem.length ∨ inOff = outOff then none
    else
      match attachAt mem inOff with
      | none => none
      | some inbound =>
        match attachAt mem outOff with
        | none => none
        | some outbound => some ⟨inbound, outbound⟩

/-- What an accepted region's offsets and rings are. -/
theorem attachQueuePair_eq_some {mem : List UInt8} {qp : QueuePair} (h : attachQueuePair mem = some qp) :
    qpBytes ≤ mem.length ∧ attachAt mem (field mem 24 4) = some qp.inbound ∧
      attachAt mem (field mem 28 4) = some qp.outbound := by
  rw [attachQueuePair] at h
  split at h
  · cases h
  rename_i hlen
  split at h
  · cases h
  simp only at h
  split at h
  · cases h
  split at h
  · cases h
  rename_i inbound hin
  split at h
  · cases h
  rename_i outbound hout
  cases h
  exact ⟨by omega, hin, hout⟩

/-- The sizes of an attached ring are those of its header. -/
theorem attachRing_sizes {mem : List UInt8} {a : Attached} (h : attachRing mem = some a) :
    a.ring.slotSize.toNat = field mem 4 4 ∧ a.ring.capacity.toNat = field mem 8 4 := by
  have hnat (off : ℕ) : (UInt32.ofNat (field mem off 4)).toNat = field mem off 4 :=
    UInt32.toNat_ofNat_of_lt' (field_lt mem off 4)
  simp only [attachRing] at h
  split at h
  · cases h
  split at h
  · cases h
  split at h
  · split at h
    · cases h
    split at h
    · cases h
      exact ⟨hnat 4, hnat 8⟩
    · cases h
  · cases h

/-! ## The bytes of a ring -/

/-- The bytes that a ring takes: its header and its slots. -/
def Ring.bytes (r : Ring) : ℕ := ringHdrBytes + r.slotSize.toNat * r.capacity.toNat

theorem Ring.bytes_pos (r : Ring) : 0 < r.bytes := Nat.add_pos_left (Nat.succ_pos 191) _

/-- The size of a ring fits the `int` that `AttachRing` computes it in. -/
theorem Ring.bytes_lt (r : Ring) : r.bytes < 2 ^ 63 := by
  obtain ⟨k, hk⟩ := r.capacity_isPowerOfTwo
  have hlt : 2 ^ k < 2 ^ 32 := hk ▸ r.capacity.toNat_lt
  have hk31 : k ≤ 31 := Nat.le_of_lt_succ ((Nat.pow_lt_pow_iff_right (by decide)).1 hlt)
  have hcap : r.capacity.toNat ≤ 2 ^ 31 := hk ▸ Nat.pow_le_pow_right (by decide) hk31
  have hslot : r.slotSize.toNat ≤ 2 ^ 32 - 1 := Nat.le_sub_one_of_lt r.slotSize.toNat_lt
  calc r.bytes ≤ 192 + (2 ^ 32 - 1) * 2 ^ 31 := Nat.add_le_add_left (Nat.mul_le_mul hslot hcap) _
    _ < 2 ^ 63 := by decide

/-- The slots of a ring lie behind its header and before its end. -/
theorem Ring.slot_within (r : Ring) (x : UInt64) : ringHdrBytes ≤ r.slot x ∧ r.slot x + r.slotSize.toNat ≤ r.bytes := by
  have hlt := Nat.mod_lt x.toNat r.capacity_pos
  have hle := Nat.mul_le_mul_right r.slotSize.toNat (Nat.succ_le_of_lt hlt)
  rw [Nat.succ_mul, Nat.mul_comm r.capacity.toNat] at hle
  rw [Ring.slot_eq, Ring.bytes]
  omega

namespace PlacedRing

/-- The bytes of the region that are the ring's. -/
def range (p : PlacedRing) : Set ℕ := Set.Ico p.base (p.base + p.attached.ring.bytes)

/-- The bytes of the region that an index addresses. -/
def slotRange (p : PlacedRing) (x : UInt64) : Set ℕ :=
  Set.Ico (p.base + p.attached.ring.slot x) (p.base + p.attached.ring.slot x + p.attached.ring.slotSize.toNat)

theorem slotRange_subset (p : PlacedRing) (x : UInt64) : p.slotRange x ⊆ p.range := by
  have hslot := p.attached.ring.slot_within x
  exact Set.Ico_subset_Ico (by omega) (by omega)

theorem range_subset_iff (p : PlacedRing) (size : ℕ) : p.range ⊆ Set.Iio size ↔ p.base + p.attached.ring.bytes ≤ size := by
  constructor
  · intro h
    have hpos := p.attached.ring.bytes_pos
    have hlast : p.base + p.attached.ring.bytes - 1 ∈ p.range := ⟨by omega, by omega⟩
    have hlt : p.base + p.attached.ring.bytes - 1 < size := h hlast
    omega
  · exact fun h i hi => Nat.lt_of_lt_of_le hi.2 h

end PlacedRing

/-- The size of a ring at an offset, as its header has it. -/
def ringBytesAt (mem : List UInt8) (off : ℕ) : ℕ := ringHdrBytes + field mem (off + 4) 4 * field mem (off + 8) 4

/-- An attached ring is where it was looked for, is as long as its header says, and ends inside. -/
theorem attachAt_eq_some {mem : List UInt8} {off : ℕ} {p : PlacedRing} (h : attachAt mem off = some p) :
    p.base = off ∧ p.attached.ring.bytes = ringBytesAt mem off ∧ p.range ⊆ Set.Iio mem.length := by
  obtain ⟨a, hattach, rfl⟩ := Option.map_eq_some_iff.1 h
  obtain ⟨hslot, hcap⟩ := attachRing_sizes hattach
  have hlen := attachRing_length hattach
  rw [List.length_drop] at hlen
  refine ⟨rfl, by rw [Ring.bytes, ringBytesAt, hslot, hcap, field_drop, field_drop], ?_⟩
  have hhdr : 0 < ringHdrBytes := by decide
  rw [PlacedRing.range_subset_iff, Ring.bytes]
  simp only
  omega

/-! ## Rings that are apart -/

/-- The bytes of the region's own header. -/
def headerRange : Set ℕ := Set.Ico 0 qpBytes

/-- **The parts of a region are apart**: the header and the rings are inside and disjoint, and
an index of a ring addresses bytes of that ring alone. -/
structure QueuePair.Apart (qp : QueuePair) (size : ℕ) : Prop where
  header_inside : headerRange ⊆ Set.Iio size
  inbound_inside : qp.inbound.range ⊆ Set.Iio size
  outbound_inside : qp.outbound.range ⊆ Set.Iio size
  header_inbound : Disjoint headerRange qp.inbound.range
  header_outbound : Disjoint headerRange qp.outbound.range
  rings : Disjoint qp.inbound.range qp.outbound.range
  inbound_slot : ∀ x, qp.inbound.slotRange x ⊆ qp.inbound.range \ (headerRange ∪ qp.outbound.range)
  outbound_slot : ∀ x, qp.outbound.slotRange x ⊆ qp.outbound.range \ (headerRange ∪ qp.inbound.range)

/-- The offsets of a region leave room for its header and for the ring that comes first. -/
def LaidOut (mem : List UInt8) : Prop :=
  qpBytes ≤ field mem 24 4 ∧ qpBytes ≤ field mem 28 4 ∧
    (field mem 24 4 + ringBytesAt mem (field mem 24 4) ≤ field mem 28 4 ∨
      field mem 28 4 + ringBytesAt mem (field mem 28 4) ≤ field mem 24 4)

theorem PlacedRing.header_disjoint_iff (p : PlacedRing) : Disjoint headerRange p.range ↔ qpBytes ≤ p.base := by
  have hpos := p.attached.ring.bytes_pos
  have hqp : 0 < qpBytes := by decide
  rw [headerRange, range, Set.Ico_disjoint_Ico]
  omega

theorem PlacedRing.disjoint_iff (p q : PlacedRing) : Disjoint p.range q.range ↔
    p.base + p.attached.ring.bytes ≤ q.base ∨ q.base + q.attached.ring.bytes ≤ p.base := by
  have hp := p.attached.ring.bytes_pos
  have hq := q.attached.ring.bytes_pos
  rw [range, range, Set.Ico_disjoint_Ico]
  omega

/-- A slot of a ring that is apart from the header and the other ring. -/
theorem PlacedRing.slotRange_apart {p q : PlacedRing} (hheader : Disjoint headerRange p.range) (hq : Disjoint p.range q.range)
    (x : UInt64) : p.slotRange x ⊆ p.range \ (headerRange ∪ q.range) := by
  apply Set.subset_sdiff.2
  refine ⟨p.slotRange_subset x, Set.disjoint_of_subset_left (p.slotRange_subset x) ?_⟩
  exact Set.disjoint_union_right.2 ⟨hheader.symm, hq⟩

/-- The conditions on the parts, by their offsets and sizes. -/
theorem QueuePair.apart_iff {qp : QueuePair} {size : ℕ} (hsize : qpBytes ≤ size)
    (hin : qp.inbound.range ⊆ Set.Iio size) (hout : qp.outbound.range ⊆ Set.Iio size) :
    qp.Apart size ↔ qpBytes ≤ qp.inbound.base ∧ qpBytes ≤ qp.outbound.base ∧
      (qp.inbound.base + qp.inbound.attached.ring.bytes ≤ qp.outbound.base ∨
        qp.outbound.base + qp.outbound.attached.ring.bytes ≤ qp.inbound.base) := by
  rw [← PlacedRing.header_disjoint_iff, ← PlacedRing.header_disjoint_iff, ← PlacedRing.disjoint_iff]
  constructor
  · exact fun h => ⟨h.header_inbound, h.header_outbound, h.rings⟩
  · rintro ⟨hheadin, hheadout, hrings⟩
    exact {
      header_inside := fun i hi => Nat.lt_of_lt_of_le hi.2 hsize
      inbound_inside := hin
      outbound_inside := hout
      header_inbound := hheadin
      header_outbound := hheadout
      rings := hrings
      inbound_slot := PlacedRing.slotRange_apart hheadin hrings
      outbound_slot := PlacedRing.slotRange_apart hheadout hrings.symm }

/-- **The rings of an attached queue pair are apart** exactly where the offsets leave room: both
behind the header, and the second ring behind the end of the first. -/
theorem attachQueuePair_apart_iff (mem : List UInt8) (qp : QueuePair) (h : attachQueuePair mem = some qp) :
    qp.Apart mem.length ↔ LaidOut mem := by
  obtain ⟨hlen, hin, hout⟩ := attachQueuePair_eq_some h
  obtain ⟨hinbase, hinbytes, hininside⟩ := attachAt_eq_some hin
  obtain ⟨houtbase, houtbytes, houtinside⟩ := attachAt_eq_some hout
  rw [QueuePair.apart_iff hlen hininside houtinside, hinbase, houtbase, hinbytes, houtbytes, LaidOut]

/-! ## A region whose rings cross -/

/-- The header of an empty ring. -/
def Ring.header (r : Ring) : List UInt8 :=
  putLE 4 ringMagic ++ (putLE 4 r.slotSize.toNat ++ (putLE 4 r.capacity.toNat ++ (putLE 4 r.mask.toNat ++
    (putLE 4 ringHdrBytes ++ List.replicate 172 0))))

@[simp] theorem Ring.length_header (r : Ring) : r.header.length = ringHdrBytes := by
  simp only [header, List.length_append, length_putLE, List.length_replicate, ringHdrBytes]

theorem Ring.field_header {r : Ring} {off w : ℕ} (rest : List UInt8) (h : off + w ≤ 192) :
    field (r.header ++ rest) off w = field r.header off w :=
  field_append_left rest (by rw [r.length_header]; exact h)

/-- The indices of an empty ring. -/
theorem Ring.field_header_indices (r : Ring) {off : ℕ} (h : 20 ≤ off) (w : ℕ) : field r.header off w = 0 := by
  rw [header, field_putLE_of_le _ _ _ (by omega), field_putLE_of_le _ _ _ (by omega), field_putLE_of_le _ _ _ (by omega),
    field_putLE_of_le _ _ _ (by omega), field_putLE_of_le _ _ _ (by omega), field_replicate_zero]

/-- An empty ring with room for its slots is attached. -/
theorem attachRing_header (r : Ring) {rest : List UInt8} (h : r.slotSize.toNat * r.capacity.toNat ≤ rest.length) :
    ∃ a, attachRing (r.header ++ rest) = some a ∧ a.ring = r := by
  have hmagic : field (r.header ++ rest) 0 4 = ringMagic := by
    rw [Ring.field_header rest (by decide)]
    simp [Ring.header, ringMagic]
  have hslot : UInt32.ofNat (field (r.header ++ rest) 4 4) = r.slotSize := by
    rw [Ring.field_header rest (by decide)]
    simp [Ring.header]
  have hcap : UInt32.ofNat (field (r.header ++ rest) 8 4) = r.capacity := by
    rw [Ring.field_header rest (by decide)]
    simp [Ring.header]
  have hmask : UInt32.ofNat (field (r.header ++ rest) 12 4) = r.mask := by
    rw [Ring.field_header rest (by decide)]
    simp [Ring.header]
  have hoff : field (r.header ++ rest) 16 4 = ringHdrBytes := by
    rw [Ring.field_header rest (by decide)]
    simp [Ring.header, ringHdrBytes]
  have hhead : UInt64.ofNat (field (r.header ++ rest) 64 8) = 0 := by
    rw [Ring.field_header rest (by decide), r.field_header_indices (by decide)]
    rfl
  have htail : UInt64.ofNat (field (r.header ++ rest) 128 8) = 0 := by
    rw [Ring.field_header rest (by decide), r.field_header_indices (by decide)]
    rfl
  have hlen : (r.header ++ rest).length = ringHdrBytes + rest.length := by rw [List.length_append, r.length_header]
  simp only [attachRing, hmagic, hslot, hcap, hmask, hoff, hhead, htail, hlen]
  rw [if_neg (by omega), if_neg (by simp), dif_pos ⟨r.two_le, r.pow_two, r.slot_ne, r.mask_eq, trivial⟩,
    if_neg (by omega), dif_pos (by simp)]
  exact ⟨_, rfl, rfl⟩

/-- A region with its inbound ring at 128 and its outbound one so many bytes behind the header of
the first. -/
def queuePairRegion (r : Ring) (between behind : ℕ) : List UInt8 :=
  putLE 4 qpMagic ++ (putLE 20 0 ++ (putLE 4 128 ++ (putLE 4 (320 + between) ++ (putLE 96 0 ++
    (r.header ++ (List.replicate between 0 ++ (r.header ++ List.replicate behind 0)))))))

/-- Such a region is attached where the slots of either ring end inside. -/
theorem attachQueuePair_region (r : Ring) {between behind : ℕ} (hbetween : between < 2 ^ 31)
    (hin : r.slotSize.toNat * r.capacity.toNat ≤ between + ringHdrBytes + behind)
    (hout : r.slotSize.toNat * r.capacity.toNat ≤ behind) :
    ∃ qp, attachQueuePair (queuePairRegion r between behind) = some qp ∧
      qp.inbound.base = 128 ∧ qp.inbound.attached.ring = r ∧
      qp.outbound.base = 320 + between ∧ qp.outbound.attached.ring = r := by
  have hlen : (queuePairRegion r between behind).length = 512 + between + behind := by
    simp only [queuePairRegion, List.length_append, length_putLE, List.length_replicate, r.length_header, ringHdrBytes]
    omega
  have hmagic : field (queuePairRegion r between behind) 0 4 = qpMagic := by simp [queuePairRegion, qpMagic]
  have hinOff : field (queuePairRegion r between behind) 24 4 = 128 := by simp [queuePairRegion]
  have houtOff : field (queuePairRegion r between behind) 28 4 = 320 + between := by
    simp [queuePairRegion]
    omega
  have hdropin : (queuePairRegion r between behind).drop 128 =
      r.header ++ (List.replicate between 0 ++ (r.header ++ List.replicate behind 0)) := by
    have hsplit : queuePairRegion r between behind =
        (putLE 4 qpMagic ++ (putLE 20 0 ++ (putLE 4 128 ++ (putLE 4 (320 + between) ++ putLE 96 0)))) ++
          (r.header ++ (List.replicate between 0 ++ (r.header ++ List.replicate behind 0))) := by
      simp only [queuePairRegion, List.append_assoc]
    rw [hsplit]
    exact List.drop_left' (by simp)
  have hdropout : (queuePairRegion r between behind).drop (320 + between) = r.header ++ List.replicate behind 0 := by
    rw [show 320 + between = 128 + (r.header ++ List.replicate between 0).length by
      rw [List.length_append, r.length_header, List.length_replicate, ringHdrBytes]; omega, ← List.drop_drop, hdropin,
      ← List.append_assoc, List.drop_left]
  obtain ⟨a, ha, hra⟩ := attachRing_header r
    (show r.slotSize.toNat * r.capacity.toNat ≤ (List.replicate between 0 ++ (r.header ++ List.replicate behind 0)).length by
      simp only [List.length_append, List.length_replicate, r.length_header]; omega)
  obtain ⟨b, hb, hrb⟩ := attachRing_header r
    (show r.slotSize.toNat * r.capacity.toNat ≤ (List.replicate behind (0 : UInt8)).length by rwa [List.length_replicate])
  have hinbound : attachAt (queuePairRegion r between behind) 128 = some ⟨128, a⟩ := by rw [attachAt, hdropin, ha]; rfl
  have houtbound : attachAt (queuePairRegion r between behind) (320 + between) = some ⟨320 + between, b⟩ := by
    rw [attachAt, hdropout, hb]; rfl
  refine ⟨⟨⟨128, a⟩, ⟨320 + between, b⟩⟩, ?_, rfl, hra, rfl, hrb⟩
  simp only [attachQueuePair, hlen, hmagic, hinOff, houtOff, hinbound, houtbound]
  rw [if_neg (by simp [qpBytes]; omega), if_neg (by simp), if_neg (by omega)]

/-- Four slots of 64 bytes. -/
def sampleRing : Ring where
  slotSize := 64
  capacity := 4
  mask := 3
  two_le := by decide
  pow_two := by decide
  slot_ne := by decide
  mask_eq := by decide

/-- In a region of 1024 bytes with one ring behind the other the offsets leave room. -/
theorem sampleRegion_laidOut : ∃ qp, attachQueuePair (queuePairRegion sampleRing 256 256) = some qp ∧
    LaidOut (queuePairRegion sampleRing 256 256) := by
  obtain ⟨qp, hqp, hin, hinring, hout, houtring⟩ := attachQueuePair_region sampleRing (show 256 < 2 ^ 31 by decide)
    (show _ ≤ 256 + ringHdrBytes + 256 by decide) (by decide)
  obtain ⟨hlen, hattachin, hattachout⟩ := attachQueuePair_eq_some hqp
  have hapart : qp.Apart (queuePairRegion sampleRing 256 256).length := by
    rw [QueuePair.apart_iff hlen (attachAt_eq_some hattachin).2.2 (attachAt_eq_some hattachout).2.2, hin, hout, hinring,
      houtring]
    decide
  exact ⟨qp, hqp, (attachQueuePair_apart_iff _ qp hqp).1 hapart⟩

/-- With the outbound ring right behind the header of the inbound one, in a region of 768 bytes, both
are attached, and the outbound header is in the slots of the inbound ring. -/
theorem rings_cross : ¬∀ (mem : List UInt8) (qp : QueuePair), attachQueuePair mem = some qp → qp.Apart mem.length := by
  intro h
  obtain ⟨qp, hqp, hin, hinring, hout, houtring⟩ := attachQueuePair_region sampleRing (show 0 < 2 ^ 31 by decide)
    (show _ ≤ 0 + ringHdrBytes + 256 by decide) (by decide)
  have hrings := ((h _ qp hqp).rings)
  rw [PlacedRing.disjoint_iff, hin, hout, hinring, houtring] at hrings
  exact absurd hrings (by decide)

end AimeeMemory.Bus
