import AimeeMemory.Lib.Promotion
import AimeeMemory.Recall.Rerank

/-!
# Lane floors

`memory_apply_lane_floor` moves members of a lane from the tail of the ranked rows into the
end of the top, and returns the top without the places that it has used up. It does not look
at what it moves out of these places, nor at whether one is left.

## What is proved

* **`laneFloorHolds_iff`**: the call stays inside the array and the floor holds exactly when
  there are enough places, and none of those used up has a member or all before them have.
* **`laneFloors_iff`**: a second floor leaves the first one standing exactly when the rows that
  it moves in from outside the top displace no more members of the first lane than the first
  floor can spare.
-/

namespace AimeeMemory.Recall

open AimeeMemory.Core AimeeMemory.Lib

/-! ### The indexes -/

def inLane (lane : List ℤ) (m : Memory) : Bool := m.id ∈ lane

/-- The indexes that an entry of the tail takes: its own, and that of its victim. -/
def laneIndexes (lane : List ℤ) (s : LaneState) (tail : ℕ) : List ℤ :=
  if 0 < s.needed then (tail : ℤ) :: if (s.rows[tail]?).any (inLane lane) then [s.total - 1] else [] else []

def tailIndexes (lane : List ℤ) : LaneState → List ℕ → List ℤ
  | _, [] => []
  | s, tail :: tails => laneIndexes lane s tail ++ tailIndexes lane (promoteTail lane s tail) tails

/-- The indexes of the array that `memory_apply_lane_floor` takes. -/
def laneFloorIndexes (rows : List Memory) (count : ℕ) (lane : List ℤ) (floorN total : ℤ) : List ℤ :=
  if floorN ≤ 0 ∨ count = 0 ∨ lane = [] ∨ total ≤ 0 then []
  else
    let total := min total count
    let inTop := (rows.take total.toNat).countP (inLane lane)
    (List.range total.toNat).map (Int.ofNat ·) ++
      if floorN ≤ inTop then []
      else tailIndexes lane { rows, total, needed := floorN - inTop } (List.range' total.toNat (count - total.toNat))

/-! ### The promotion -/

section Promote

variable (rows : List Memory) (lane : List ℤ) (floorN total : ℤ)

/-- The size of the top. -/
def topSize : ℕ := (min total rows.length).toNat

/-- How many members the top lacks. -/
def laneNeeded : ℕ :=
  if total ≤ 0 then 0 else (floorN - (rows.take (topSize rows total)).countP (inLane lane)).toNat

/-- How many members the tail has for it. -/
def laneMoved : ℕ := min (laneNeeded rows lane floorN total) ((rows.drop (topSize rows total)).countP (inLane lane))

/-- The top, and no entry of the tail yet. -/
def lanePromotion : Promotion Memory := ⟨laneNeeded rows lane floorN total, (rows.take (topSize rows total)).reverse, []⟩

def lanePromoted : Promotion Memory :=
  promote (inLane lane) (lanePromotion rows lane floorN total) (rows.drop (topSize rows total))

end Promote

variable {rows : List Memory} {lane : List ℤ} {floorN total : ℤ} {s : LaneState} {P : Promotion Memory}

/-- The state of the loop as a promotion, in front of the rest of the tail. -/
structure Represents (s : LaneState) (P : Promotion Memory) (rest : List Memory) : Prop where
  rows : s.rows = P.entries ++ rest
  total : s.total = P.victims.length
  needed : s.needed = P.needed

theorem swapEntries_append (A B C : List Memory) (v x : Memory) :
    swapEntries (A ++ v :: (B ++ x :: C)) A.length (A.length + 1 + B.length) = A ++ x :: (B ++ v :: C) := by
  have hv : (A ++ v :: (B ++ x :: C))[A.length]? = some v := by simp
  have hx : (A ++ v :: (B ++ x :: C))[A.length + 1 + B.length]? = some x := by
    rw [List.getElem?_append_right (by omega), show A.length + 1 + B.length - A.length = B.length + 1 by omega]
    simp
  rw [swapEntries, hv, hx]
  simp only [List.set_append_right _ _ le_rfl, Nat.sub_self, List.set_cons_zero]
  rw [List.set_append_right _ _ (by omega), show A.length + 1 + B.length - A.length = B.length + 1 by omega,
    List.set_cons_succ, List.set_append_right _ _ le_rfl, Nat.sub_self, List.set_cons_zero]

theorem Represents.entry {x : Memory} {xs : List Memory} (h : Represents s P (x :: xs)) :
    s.rows[P.entries.length]? = some x := by
  rw [h.rows, List.getElem?_append_right le_rfl, Nat.sub_self]
  rfl

/-- A turn of the loop is a step of the promotion, unless it is out of victims. -/
theorem Represents.step {x : Memory} {xs : List Memory} (h : Represents s P (x :: xs))
    (hroom : 0 < P.needed → inLane lane x → P.victims ≠ []) :
    Represents (promoteTail lane s P.entries.length) (promoteStep (inLane lane) P x) xs := by
  have hentry := h.entry
  obtain ⟨hrows, htotal, hneeded⟩ := h
  obtain ⟨n, victims, passed⟩ := P
  have hmember : (0 < s.needed ∧ (s.rows[(⟨n, victims, passed⟩ : Promotion Memory).entries.length]?).any
      fun m => m.id ∈ lane) ↔ 0 < n ∧ inLane lane x := by
    rw [hentry, hneeded]
    simp [inLane]
  by_cases hmoves : 0 < n ∧ inLane lane x
  · rw [promoteTail, if_pos (hmember.2 hmoves)]
    obtain ⟨hn, hx⟩ := hmoves
    obtain ⟨n, rfl⟩ := Nat.exists_eq_succ_of_ne_zero hn.ne'
    cases victims with
    | nil => exact absurd rfl (hroom hn hx)
    | cons v vs =>
      rw [promoteStep_member hx]
      have hplaces : (s.total - 1).toNat = vs.reverse.length ∧
          (⟨n + 1, v :: vs, passed⟩ : Promotion Memory).entries.length = vs.reverse.length + 1 + passed.length := by
        simp only [htotal, Promotion.entries, List.length_append, List.length_reverse, List.length_cons,
          and_true]
        omega
      have hsplit : s.rows = vs.reverse ++ v :: (passed ++ x :: xs) := by simp [hrows, Promotion.entries]
      refine ⟨?_, by simp [htotal], by simp [hneeded]⟩
      rw [if_pos (by simp only [htotal, List.length_cons]; omega), hplaces.1, hplaces.2, hsplit, swapEntries_append]
      simp [Promotion.entries]
  · rw [promoteTail, if_neg fun hif => hmoves (hmember.1 hif), promoteStep_other (by
      rcases Nat.eq_zero_or_pos n with hn | hn
      · exact .inl hn
      · exact .inr (by simpa using fun hx => hmoves ⟨hn, hx⟩))]
    exact ⟨by simp [hrows, Promotion.entries], htotal, hneeded⟩

theorem promoteStep_length (P : Promotion Memory) (x : Memory) :
    (promoteStep (inLane lane) P x).entries.length = P.entries.length + 1 := by
  simpa using (promoteStep_perm (q := inLane lane) P x).length_eq

/-- There are victims enough for a tail when there is one for its first entry and enough for the others. -/
theorem room_cons_iff {x : Memory} {xs : List Memory} :
    min P.needed ((x :: xs).countP (inLane lane)) ≤ P.victims.length ↔
      (0 < P.needed → inLane lane x → P.victims ≠ []) ∧
        min (promoteStep (inLane lane) P x).needed (xs.countP (inLane lane)) ≤
          (promoteStep (inLane lane) P x).victims.length := by
  obtain ⟨n, victims, passed⟩ := P
  by_cases hmoves : 0 < n ∧ inLane lane x
  · obtain ⟨hn, hx⟩ := hmoves
    obtain ⟨n, rfl⟩ := Nat.exists_eq_succ_of_ne_zero hn.ne'
    rw [List.countP_cons_of_pos hx]
    cases victims with
    | nil => simp [hx]
    | cons v vs =>
      rw [promoteStep_member hx]
      simp only [List.length_cons, ne_eq, reduceCtorEq, not_false_eq_true, implies_true, true_and]
      omega
  · rw [promoteStep_other (by
      rcases Nat.eq_zero_or_pos n with hn | hn
      · exact .inl hn
      · exact .inr (by simpa using fun hx => hmoves ⟨hn, hx⟩))]
    have hcount : min n ((x :: xs).countP (inLane lane)) = min n (xs.countP (inLane lane)) := by
      rcases Nat.eq_zero_or_pos n with rfl | hn
      · simp
      · rw [List.countP_cons_of_neg fun hx => hmoves ⟨hn, hx⟩]
    rw [hcount]
    exact (and_iff_right fun hn hx => absurd ⟨hn, hx⟩ hmoves).symm

/-- **The loop is a promotion**, where it does not run out of victims. -/
theorem Represents.run {xs : List Memory} (h : Represents s P xs)
    (hroom : min P.needed (xs.countP (inLane lane)) ≤ P.victims.length) :
    Represents ((List.range' P.entries.length xs.length).foldl (promoteTail lane) s) (promote (inLane lane) P xs) [] := by
  induction xs generalizing s P with
  | nil => exact h
  | cons x xs ih =>
    obtain ⟨hvictim, hrest⟩ := room_cons_iff.1 hroom
    rw [List.length_cons, List.range'_succ, List.foldl_cons, promote, List.foldl_cons, ← promoteStep_length]
    exact ih (h.step hvictim) hrest

/-- **The loop takes indexes of the array** exactly where it does not run out of victims. -/
theorem Represents.inside_iff {xs : List Memory} (h : Represents s P xs) (n : ℕ)
    (hn : P.entries.length + xs.length = n) :
    (∀ i ∈ tailIndexes lane s (List.range' P.entries.length xs.length), 0 ≤ i ∧ i < n) ↔
      min P.needed (xs.countP (inLane lane)) ≤ P.victims.length := by
  induction xs generalizing s P with
  | nil => simp [tailIndexes]
  | cons x xs ih =>
    rw [List.length_cons, List.range'_succ, tailIndexes, List.forall_mem_append, room_cons_iff]
    rw [List.length_cons] at hn
    have hindexes : (∀ i ∈ laneIndexes lane s P.entries.length, 0 ≤ i ∧ i < n) ↔
        (0 < P.needed → inLane lane x → P.victims ≠ []) := by
      rw [laneIndexes, h.entry, h.needed, h.total, ← List.length_pos_iff]
      by_cases hneeded : 0 < P.needed
      · cases hx : inLane lane x with
        | false => simp [hneeded, hx]; omega
        | true => simp [hneeded, hx, Promotion.entries] at hn ⊢; omega
      · simp [hneeded]
    rw [hindexes]
    refine and_congr_right fun hvictim => ?_
    have hlength : (promoteStep (inLane lane) P x).entries.length = P.entries.length + 1 := promoteStep_length P x
    rw [← hlength]
    exact ih (h.step hvictim) (by omega)

/-! ### The call -/

theorem topSize_le (rows : List Memory) (total : ℤ) : topSize rows total ≤ rows.length := by
  unfold topSize
  omega

/-- A call that returns at once has nothing to move. -/
theorem laneIdle (h : floorN ≤ 0 ∨ rows.length = 0 ∨ lane = [] ∨ total ≤ 0) :
    laneNeeded rows lane floorN total = 0 ∨ (rows.drop (topSize rows total)).countP (inLane lane) = 0 := by
  rcases h with h | h | h | h
  · refine .inl ?_
    unfold laneNeeded
    split
    · rfl
    · omega
  · refine .inr ?_
    rw [List.eq_nil_of_length_eq_zero h]
    simp
  · exact .inr (List.countP_eq_zero.2 fun m _ => by simp [inLane, h])
  · exact .inl (if_pos h)

theorem lanePromoted_idle
    (h : laneNeeded rows lane floorN total = 0 ∨ (rows.drop (topSize rows total)).countP (inLane lane) = 0) :
    (lanePromoted rows lane floorN total).entries = rows ∧
      (lanePromoted rows lane floorN total).victims.length = topSize rows total := by
  rw [lanePromoted, promote_idle h, lanePromotion]
  have := topSize_le rows total
  simp [Promotion.entries]
  omega

theorem lanePromoted_entries_perm (rows : List Memory) (lane : List ℤ) (floorN total : ℤ) :
    (lanePromoted rows lane floorN total).entries.Perm rows := by
  refine (promote_perm _ _).trans ?_
  simp [lanePromotion, Promotion.entries]

theorem lanePromoted_victims_le (rows : List Memory) (lane : List ℤ) (floorN total : ℤ) :
    (lanePromoted rows lane floorN total).victims.length ≤ rows.length := by
  have := (lanePromoted_entries_perm rows lane floorN total).length_eq
  simp only [Promotion.entries, List.length_append, List.length_reverse] at this
  omega

theorem represents_start (hfloor : ¬ floorN ≤ ((rows.take (topSize rows total)).countP (inLane lane) : ℤ)) (htotal : 0 < total) :
    Represents ⟨rows, min total rows.length, floorN - (rows.take (topSize rows total)).countP (inLane lane)⟩
      (lanePromotion rows lane floorN total) (rows.drop (topSize rows total)) := by
  have := topSize_le rows total
  refine ⟨by simp [lanePromotion, Promotion.entries], ?_, ?_⟩
  · simp only [lanePromotion, List.length_reverse, List.length_take]
    unfold topSize at *
    omega
  · rw [lanePromotion, laneNeeded, if_neg (by omega)]
    simp only
    omega

/-- A call whose top holds the floor already changes nothing. -/
theorem memoryApplyLaneFloor_full (hidle : ¬ (floorN ≤ 0 ∨ rows.length = 0 ∨ lane = [] ∨ total ≤ 0))
    (hfloor : floorN ≤ ((rows.take (topSize rows total)).countP (inLane lane) : ℤ)) :
    memoryApplyLaneFloor rows rows.length lane floorN total = (rows, min total rows.length) ∧
      laneFloorIndexes rows rows.length lane floorN total = (List.range (topSize rows total)).map (Int.ofNat ·) ++ [] :=
  ⟨(if_neg hidle).trans (if_pos hfloor), (if_neg hidle).trans (congrArg _ (if_pos hfloor))⟩

/-- A call that has something to do is the loop. -/
theorem memoryApplyLaneFloor_loop (hidle : ¬ (floorN ≤ 0 ∨ rows.length = 0 ∨ lane = [] ∨ total ≤ 0))
    (hfloor : ¬ floorN ≤ ((rows.take (topSize rows total)).countP (inLane lane) : ℤ)) :
    let s : LaneState :=
      ⟨rows, min total rows.length, floorN - (rows.take (topSize rows total)).countP (inLane lane)⟩
    let tails := List.range' (lanePromotion rows lane floorN total).entries.length (rows.drop (topSize rows total)).length
    memoryApplyLaneFloor rows rows.length lane floorN total =
        ((tails.foldl (promoteTail lane) s).rows, (tails.foldl (promoteTail lane) s).total) ∧
      laneFloorIndexes rows rows.length lane floorN total =
        (List.range (topSize rows total)).map (Int.ofNat ·) ++ tailIndexes lane s tails := by
  have := topSize_le rows total
  have htails : (lanePromotion rows lane floorN total).entries.length = topSize rows total ∧
      (rows.drop (topSize rows total)).length = rows.length - topSize rows total := by
    simp [lanePromotion, Promotion.entries, this]
  simp only [htails]
  exact ⟨(if_neg hidle).trans (if_neg hfloor), (if_neg hidle).trans (congrArg _ (if_neg hfloor))⟩

/-- A top that holds the floor already needs no member. -/
theorem laneNeeded_eq_zero (hfloor : floorN ≤ ((rows.take (topSize rows total)).countP (inLane lane) : ℤ)) :
    laneNeeded rows lane floorN total = 0 := by
  unfold laneNeeded
  split
  · rfl
  · omega

theorem laneMoved_le_iff :
    min (lanePromotion rows lane floorN total).needed ((rows.drop (topSize rows total)).countP (inLane lane)) ≤
        (lanePromotion rows lane floorN total).victims.length ↔
      laneMoved rows lane floorN total ≤ topSize rows total := by
  rw [lanePromotion, List.length_reverse, List.length_take, min_eq_left (topSize_le rows total)]
  rfl

/-- **What a call returns** where it does not run out of victims. -/
theorem memoryApplyLaneFloor_eq (hroom : laneMoved rows lane floorN total ≤ topSize rows total) :
    (memoryApplyLaneFloor rows rows.length lane floorN total).1 = (lanePromoted rows lane floorN total).entries ∧
      topSize rows (memoryApplyLaneFloor rows rows.length lane floorN total).2 =
        (lanePromoted rows lane floorN total).victims.length := by
  by_cases hidle : floorN ≤ 0 ∨ rows.length = 0 ∨ lane = [] ∨ total ≤ 0
  · rw [(lanePromoted_idle (laneIdle hidle)).1, (lanePromoted_idle (laneIdle hidle)).2, memoryApplyLaneFloor, if_pos hidle]
    exact ⟨rfl, rfl⟩
  by_cases hfloor : floorN ≤ ((rows.take (topSize rows total)).countP (inLane lane) : ℤ)
  · obtain ⟨hentries, hvictims⟩ := lanePromoted_idle (.inl (laneNeeded_eq_zero hfloor))
    rw [hentries, hvictims, (memoryApplyLaneFloor_full hidle hfloor).1]
    refine ⟨rfl, ?_⟩
    simp only [topSize, min_assoc, min_self]
  · have hrun := (represents_start hfloor (by omega)).run (laneMoved_le_iff.2 hroom)
    rw [(memoryApplyLaneFloor_loop hidle hfloor).1]
    refine ⟨hrun.rows.trans (List.append_nil _), ?_⟩
    have hwindow : ∀ t : ℤ, t = (lanePromoted rows lane floorN total).victims.length →
        topSize rows t = (lanePromoted rows lane floorN total).victims.length := by
      rintro t rfl
      exact (congrArg Int.toNat (min_eq_left (Nat.cast_le.2 (lanePromoted_victims_le _ _ _ _)))).trans (Int.toNat_natCast _)
    exact hwindow _ hrun.total

/-- **A call stays inside the array** exactly when the top has a place for every member that it moves. -/
theorem laneFloorIndexes_inside_iff :
    (∀ i ∈ laneFloorIndexes rows rows.length lane floorN total, 0 ≤ i ∧ i < rows.length) ↔
      laneMoved rows lane floorN total ≤ topSize rows total := by
  have htop : ∀ i ∈ (List.range (topSize rows total)).map (Int.ofNat ·), 0 ≤ i ∧ i < rows.length := by
    intro i hi
    obtain ⟨n, hn, rfl⟩ := List.mem_map.1 hi
    have := List.mem_range.1 hn
    have := topSize_le rows total
    simp only [Int.ofNat_eq_natCast]
    omega
  by_cases hidle : floorN ≤ 0 ∨ rows.length = 0 ∨ lane = [] ∨ total ≤ 0
  · have hmoved : laneMoved rows lane floorN total = 0 := by
      unfold laneMoved
      rcases laneIdle hidle with h | h <;> simp [h]
    rw [laneFloorIndexes, if_pos hidle]
    simp [hmoved]
  by_cases hfloor : floorN ≤ ((rows.take (topSize rows total)).countP (inLane lane) : ℤ)
  · have hmoved : laneMoved rows lane floorN total = 0 := by
      rw [laneMoved, laneNeeded_eq_zero hfloor, Nat.zero_min]
    rw [(memoryApplyLaneFloor_full hidle hfloor).2, List.append_nil, hmoved]
    exact iff_of_true htop (Nat.zero_le _)
  · rw [(memoryApplyLaneFloor_loop hidle hfloor).2, List.forall_mem_append, and_iff_right htop, ← laneMoved_le_iff]
    refine (represents_start hfloor (by omega)).inside_iff rows.length ?_
    simp [lanePromotion, Promotion.entries, topSize_le]

/-! ### The first places -/

section Window

variable (rows : List Memory) (lane : List ℤ) (floorN total : ℤ) (window : ℕ)

/-- The members between the top and the end of a window. -/
def lanePassed : ℕ := ((rows.take window).drop (topSize rows total)).countP (inLane lane)

/-- The members that come from behind the window. -/
def laneIncoming : List Memory :=
  ((rows.drop window).filter (inLane lane)).take (laneNeeded rows lane floorN total - lanePassed rows lane total window)

/-- The rows in whose places they come. -/
def laneDisplaced : List Memory :=
  ((rows.take (topSize rows total)).reverse.drop (min (laneNeeded rows lane floorN total) (lanePassed rows lane total window))).take
    (min (laneNeeded rows lane floorN total - lanePassed rows lane total window) ((rows.drop window).countP (inLane lane)))

end Window

variable {window : ℕ} {p : Memory → Bool}

/-- **What a floor changes in a window** that holds its top. -/
theorem countP_take_lanePromoted (hroom : laneMoved rows lane floorN total ≤ topSize rows total)
    (hwindow : topSize rows total ≤ window) (hlength : window ≤ rows.length) :
    ((lanePromoted rows lane floorN total).entries.take window).countP p +
        (laneDisplaced rows lane floorN total window).countP p =
      (rows.take window).countP p + (laneIncoming rows lane floorN total window).countP p := by
  have htop : (rows.take (topSize rows total)).reverse.length = topSize rows total := by
    simp [topSize_le]
  have hinner : ((rows.take window).drop (topSize rows total)).length = window - topSize rows total := by
    simp [hlength]
  have htail : rows.drop (topSize rows total) =
      (rows.take window).drop (topSize rows total) ++ rows.drop window := by
    rw [← List.drop_append_of_le_length (by simpa using ⟨hwindow, hwindow.trans hlength⟩), List.take_append_drop]
  have hcount := countP_take_promote (inLane lane) p (laneNeeded rows lane floorN total)
    ((rows.take window).drop (topSize rows total)) (rows.drop window) (rows.take (topSize rows total)).reverse (by rw [← htail, htop]; exact hroom)
  rw [← htail, htop, hinner, Nat.add_sub_cancel' hwindow, List.reverse_reverse] at hcount
  have hfront : rows.take (topSize rows total) ++ (rows.take window).drop (topSize rows total) = rows.take window := by
    rw [← min_eq_left hwindow, ← List.take_take, min_eq_left hwindow, List.take_append_drop]
  rw [hfront] at hcount
  exact hcount

/-! ### One floor -/

section Floor

variable (rows : List Memory) (lane : List ℤ) (floorN total : ℤ)

/-- The members that a floor asks for. -/
def floorGoal : ℤ := min (min floorN total) (rows.countP (inLane lane))

/-- What a call is meant to do. -/
structure LaneFloorHolds : Prop where
  permuted : (memoryApplyLaneFloor rows rows.length lane floorN total).1.Perm rows
  inside : ∀ i ∈ laneFloorIndexes rows rows.length lane floorN total, 0 ≤ i ∧ i < rows.length
  floor : floorGoal rows lane floorN total ≤
    ((memoryApplyLaneFloor rows rows.length lane floorN total).1.take (topSize rows total)).countP (inLane lane)

/-- The top has a place for every member that is moved, and either no member in these places or only members in
the others. -/
structure FloorClear : Prop where
  room : laneMoved rows lane floorN total ≤ topSize rows total
  spared : (∀ m ∈ (rows.take (topSize rows total)).reverse.take (laneMoved rows lane floorN total), ¬ inLane lane m) ∨
    ∀ m ∈ (rows.take (topSize rows total)).reverse.drop (laneMoved rows lane floorN total), inLane lane m

end Floor

/-- The members in the top behind a call. -/
theorem countP_topSize (hroom : laneMoved rows lane floorN total ≤ topSize rows total) :
    ((memoryApplyLaneFloor rows rows.length lane floorN total).1.take (topSize rows total)).countP (inLane lane) +
        ((rows.take (topSize rows total)).reverse.take (laneMoved rows lane floorN total)).countP (inLane lane) =
      (rows.take (topSize rows total)).countP (inLane lane) + laneMoved rows lane floorN total := by
  have hpassed : lanePassed rows lane total (topSize rows total) = 0 := by simp [lanePassed]
  have hcount := countP_take_lanePromoted (p := inLane lane) hroom le_rfl (topSize_le rows total)
  have hincoming : (laneIncoming rows lane floorN total (topSize rows total)).countP (inLane lane) =
      laneMoved rows lane floorN total := by
    rw [laneIncoming, hpassed, Nat.sub_zero, List.countP_eq_length.2, List.length_take, ← List.countP_eq_length_filter]
    · rfl
    · exact fun m hm => (List.mem_filter.1 (List.mem_of_mem_take hm)).2
  have hdisplaced : laneDisplaced rows lane floorN total (topSize rows total) =
      (rows.take (topSize rows total)).reverse.take (laneMoved rows lane floorN total) := by
    rw [laneDisplaced, hpassed, Nat.min_zero, Nat.sub_zero, List.drop_zero]
    rfl
  rw [hincoming, hdisplaced] at hcount
  rw [(memoryApplyLaneFloor_eq hroom).1, hcount]

theorem countP_take_add_drop (p : Memory → Bool) (k : ℕ) (rows : List Memory) :
    (rows.take k).countP p + (rows.drop k).countP p = rows.countP p := by
  rw [← List.countP_append, List.take_append_drop]

/-- The members in the places that a call uses up. -/
def laneVictims (rows : List Memory) (lane : List ℤ) (floorN total : ℤ) : ℕ :=
  ((rows.take (topSize rows total)).reverse.take (laneMoved rows lane floorN total)).countP (inLane lane)

/-- The members in the places before them. -/
def laneLeft (rows : List Memory) (lane : List ℤ) (floorN total : ℤ) : ℕ :=
  ((rows.take (topSize rows total)).reverse.drop (laneMoved rows lane floorN total)).countP (inLane lane)

theorem laneVictims_add_left : laneVictims rows lane floorN total + laneLeft rows lane floorN total =
    (rows.take (topSize rows total)).countP (inLane lane) := by
  rw [laneVictims, laneLeft, countP_take_add_drop, List.countP_reverse]

theorem laneVictims_le : laneVictims rows lane floorN total ≤ laneMoved rows lane floorN total :=
  List.countP_le_length.trans (List.length_take_le _ _)

theorem length_before : ((rows.take (topSize rows total)).reverse.drop (laneMoved rows lane floorN total)).length =
    topSize rows total - laneMoved rows lane floorN total := by
  simp [topSize_le]

theorem laneLeft_le : laneLeft rows lane floorN total ≤ topSize rows total - laneMoved rows lane floorN total :=
  List.countP_le_length.trans length_before.le

/-- The places that a call uses up hold no member, or the places before them nothing else. -/
theorem spared_iff : ((∀ m ∈ (rows.take (topSize rows total)).reverse.take (laneMoved rows lane floorN total), ¬ inLane lane m) ∨
      ∀ m ∈ (rows.take (topSize rows total)).reverse.drop (laneMoved rows lane floorN total), inLane lane m) ↔
    laneVictims rows lane floorN total = 0 ∨
      laneLeft rows lane floorN total = topSize rows total - laneMoved rows lane floorN total := by
  rw [← List.countP_eq_zero, ← List.countP_eq_length, length_before]
  rfl

/-- A floor is reached exactly where no member is lost, or the top is full of them. -/
theorem floorGoal_le_iff (hroom : laneMoved rows lane floorN total ≤ topSize rows total) :
    floorGoal rows lane floorN total ≤
        ((memoryApplyLaneFloor rows rows.length lane floorN total).1.take (topSize rows total)).countP (inLane lane) ↔
      laneVictims rows lane floorN total = 0 ∨
        laneLeft rows lane floorN total = topSize rows total - laneMoved rows lane floorN total := by
  have hcount := countP_topSize hroom
  rw [← laneVictims] at hcount
  have hall := countP_take_add_drop (inLane lane) (topSize rows total) rows
  have htop : laneVictims rows lane floorN total + laneLeft rows lane floorN total = _ := laneVictims_add_left
  have hvictims : laneVictims rows lane floorN total ≤ laneMoved rows lane floorN total := laneVictims_le
  have hleft : laneLeft rows lane floorN total ≤ _ := laneLeft_le
  have hmembers : rows.countP (inLane lane) ≤ rows.length := List.countP_le_length
  have hmoved : laneMoved rows lane floorN total =
      min (laneNeeded rows lane floorN total) ((rows.drop (topSize rows total)).countP (inLane lane)) := rfl
  have hneeded : laneNeeded rows lane floorN total =
      if total ≤ 0 then 0 else (floorN - (rows.take (topSize rows total)).countP (inLane lane)).toNat := rfl
  have hsize : topSize rows total = (min total rows.length).toNat := rfl
  have hgoal : floorGoal rows lane floorN total = min (min floorN total) (rows.countP (inLane lane)) := rfl
  split_ifs at hneeded <;> omega

/-- **A call keeps to the array and reaches its floor** exactly when the top is clear for it. -/
theorem laneFloorHolds_iff : LaneFloorHolds rows lane floorN total ↔ FloorClear rows lane floorN total := by
  constructor
  · intro h
    have hroom := laneFloorIndexes_inside_iff.1 h.inside
    exact ⟨hroom, spared_iff.2 ((floorGoal_le_iff hroom).1 h.floor)⟩
  · intro h
    exact ⟨memoryApplyLaneFloor_perm _ _ _ _ _, laneFloorIndexes_inside_iff.2 h.room,
      (floorGoal_le_iff h.room).2 (spared_iff.1 h.spared)⟩

/-! ### Two floors -/

section Two

variable (rows : List Memory) (lane lane' : List ℤ) (floorN floorN' total : ℤ)

/-- The rows behind the first call. -/
def firstRows : List Memory := (memoryApplyLaneFloor rows rows.length lane floorN total).1

/-- The top that it leaves for the second call. -/
def firstTotal : ℤ := (memoryApplyLaneFloor rows rows.length lane floorN total).2

/-- The first floor holds in the top of the first call when the second one is applied. -/
def FirstFloorKept : Prop :=
  floorGoal rows lane floorN total ≤
    ((memoryApplyLaneFloor (firstRows rows lane floorN total) rows.length lane' floorN'
      (firstTotal rows lane floorN total)).1.take (topSize rows total)).countP (inLane lane)

/-- The rows that the second call moves in from outside the top displace no more members of the first lane than
they bring, and the first floor can spare. -/
def FirstFloorSpared : Prop :=
  floorGoal rows lane floorN total +
      (laneDisplaced (firstRows rows lane floorN total) lane' floorN' (firstTotal rows lane floorN total)
        (topSize rows total)).countP (inLane lane) ≤
    (((firstRows rows lane floorN total).take (topSize rows total)).countP (inLane lane) : ℤ) +
      (laneIncoming (firstRows rows lane floorN total) lane' floorN' (firstTotal rows lane floorN total)
        (topSize rows total)).countP (inLane lane)

end Two

variable {lane' : List ℤ} {floorN' : ℤ}

theorem firstRows_length : (firstRows rows lane floorN total).length = rows.length :=
  (memoryApplyLaneFloor_perm rows rows.length lane floorN total).length_eq

theorem topSize_congr {rows' : List Memory} (h : rows'.length = rows.length) (total : ℤ) :
    topSize rows' total = topSize rows total := by
  rw [topSize, topSize, h]

/-- The top of the second call is a part of that of the first. -/
theorem topSize_firstTotal_le (hroom : laneMoved rows lane floorN total ≤ topSize rows total) :
    topSize (firstRows rows lane floorN total) (firstTotal rows lane floorN total) ≤ topSize rows total := by
  rw [topSize_congr firstRows_length, firstTotal, (memoryApplyLaneFloor_eq hroom).2, lanePromoted, lanePromotion]
  obtain ⟨rest, hrest⟩ := promote_eq (inLane lane) (laneNeeded rows lane floorN total) (rows.drop (topSize rows total))
    (rows.take (topSize rows total)).reverse [] [] (laneMoved_le_iff.2 hroom)
  rw [List.append_nil] at hrest
  rw [hrest]
  simp only [List.length_drop, List.length_reverse, List.length_take]
  omega

/-- **Two floors in a row keep to the array, reach their floors and leave the first one standing** exactly when
the top is clear for each and the first floor can spare what the second displaces. -/
theorem laneFloors_iff :
    (LaneFloorHolds rows lane floorN total ∧
        LaneFloorHolds (firstRows rows lane floorN total) lane' floorN' (firstTotal rows lane floorN total) ∧
        FirstFloorKept rows lane lane' floorN floorN' total) ↔
      FloorClear rows lane floorN total ∧
        FloorClear (firstRows rows lane floorN total) lane' floorN' (firstTotal rows lane floorN total) ∧
        FirstFloorSpared rows lane lane' floorN floorN' total := by
  rw [laneFloorHolds_iff, laneFloorHolds_iff]
  refine and_congr_right fun hfirst => and_congr_right fun hsecond => ?_
  have hcount := countP_take_lanePromoted (p := inLane lane) hsecond.room (topSize_firstTotal_le hfirst.room)
    (by rw [firstRows_length]; exact topSize_le rows total)
  have hlength : (firstRows rows lane floorN total).length = rows.length := firstRows_length
  rw [FirstFloorKept, ← hlength,
    (memoryApplyLaneFloor_eq hsecond.room).1, FirstFloorSpared]
  omega

/-! ### Short tops -/

/-- A row of an id. -/
def bareRow (id : ℤ) : Memory := { id, key := [], content := [] }

/-- Two members are needed and the top has one place: the second one would trade with the entry in front of the
array. And in a top that ends with a member, this member is moved out for another. -/
theorem lane_floor_fails :
    laneFloorIndexes [bareRow 9, bareRow 1, bareRow 2] 3 [1, 2] 2 1 = [0, 1, 0, 2, -1] ∧
      ¬ LaneFloorHolds [bareRow 9, bareRow 1, bareRow 2] [1, 2] 2 1 ∧
      ¬ LaneFloorHolds [bareRow 9, bareRow 1, bareRow 2] [1, 2] 2 2 ∧
      ¬ FirstFloorKept [bareRow 9, bareRow 1, bareRow 2] [1] [2] 1 1 2 := by
  refine ⟨by decide +kernel, fun h => ?_, fun h => ?_, ?_⟩
  · exact absurd (h.inside (-1) (by decide +kernel)) (by decide)
  · exact absurd h.floor (by decide +kernel)
  · unfold FirstFloorKept
    decide +kernel

end AimeeMemory.Recall
