import AimeeMemory.Lib.Greedy
import Mathlib.Data.List.Nodup
import Mathlib.Data.List.Induction
import Mathlib.Order.Nat

/-!
# Merging without repetitions

Rows that several stages answer go into one list with a bound, each key once. The merge
knows a key again only if it has remembered it, and it remembers so many and no more.
`Remembers` says when that is enough (`nodup_mergeRows_iff`): then the merge is the first
row of every key, up to the bound (`mergeRows_eq`), and the rows stand in the order of the
stages (`pairwise_stageOf_firsts`).
-/

namespace AimeeMemory.Lib

variable {α κ : Type*} [DecidableEq κ] {key : α → κ} {max cap : ℕ} {xs ys : List α} {x y : α} {k : κ}

/-! ## The first row of every key -/

/-- The rows whose key does not come before them. -/
def firsts (key : α → κ) (xs : List α) : List α := greedy (related fun x y => key x = key y) xs

@[simp] theorem firsts_nil : firsts key [] = [] := rfl

theorem firsts_sublist (xs : List α) : (firsts key xs).Sublist xs := greedy_sublist xs

theorem mem_keys_firsts : k ∈ (firsts key xs).map key ↔ k ∈ xs.map key := by
  constructor
  · intro h
    exact ((firsts_sublist xs).map key).subset h
  · intro h
    obtain ⟨x, hx, rfl⟩ := List.mem_map.1 h
    by_cases hmem : x ∈ firsts key xs
    · exact List.mem_map_of_mem hmem
    · obtain ⟨y, hy, hsame⟩ := exists_same_of_notMem hx hmem
      exact List.mem_map.2 ⟨y, hy, (of_decide_eq_true hsame).symm⟩

theorem firsts_concat (xs : List α) (x : α) :
    firsts key (xs ++ [x]) = if key x ∈ xs.map key then firsts key xs else firsts key xs ++ [x] := by
  have hknown : related (fun x y => decide (key x = key y)) (firsts key xs) x = true ↔ key x ∈ xs.map key := by
    rw [← mem_keys_firsts, related, List.any_eq_true, List.mem_map]
    exact exists_congr fun y => and_congr_right fun _ => by rw [decide_eq_true_eq, eq_comm]
  rw [firsts, greedy_concat, ← firsts]
  exact if_congr hknown rfl rfl

theorem firsts_concat_of_mem (h : key x ∈ xs.map key) : firsts key (xs ++ [x]) = firsts key xs := by
  rw [firsts_concat, if_pos h]

theorem firsts_concat_of_notMem (h : key x ∉ xs.map key) : firsts key (xs ++ [x]) = firsts key xs ++ [x] := by
  rw [firsts_concat, if_neg h]

theorem nodup_keys_firsts (xs : List α) : ((firsts key xs).map key).Nodup := by
  induction xs using List.reverseRecOn with
  | nil => exact List.nodup_nil
  | append_singleton xs x ih =>
    by_cases h : key x ∈ xs.map key
    · rwa [firsts_concat_of_mem h]
    · rw [firsts_concat_of_notMem h, List.map_append, List.nodup_append']
      refine ⟨ih, by simp, ?_⟩
      rw [List.disjoint_right]
      intro k hk hmem
      rw [List.map_singleton, List.mem_singleton] at hk
      exact h (hk ▸ mem_keys_firsts.1 hmem)

/-- Keyed by themselves, the first elements are the elements. -/
theorem mem_firsts_id {zs : List κ} : k ∈ firsts id zs ↔ k ∈ zs := by
  have hkeys : k ∈ (firsts id zs).map id ↔ k ∈ zs.map id := mem_keys_firsts
  rwa [List.map_id, List.map_id] at hkeys

theorem nodup_firsts_id (zs : List κ) : (firsts id zs).Nodup := by
  have hkeys : ((firsts id zs).map id).Nodup := nodup_keys_firsts zs
  rwa [List.map_id] at hkeys

/-- Behind the first rows of the beginning come rows of the rest with new keys. -/
theorem firsts_append (key : α → κ) (xs ys : List α) :
    ∃ more, firsts key (xs ++ ys) = firsts key xs ++ more ∧ ∀ y ∈ more, y ∈ ys ∧ key y ∉ xs.map key := by
  induction ys using List.reverseRecOn with
  | nil => exact ⟨[], by simp, by simp⟩
  | append_singleton ys y ih =>
    obtain ⟨more, hmore, hnew⟩ := ih
    rw [← List.append_assoc]
    by_cases h : key y ∈ (xs ++ ys).map key
    · rw [firsts_concat_of_mem h]
      refine ⟨more, hmore, fun z hz => ?_⟩
      exact ⟨List.mem_append_left _ (hnew z hz).1, (hnew z hz).2⟩
    · rw [firsts_concat_of_notMem h, hmore]
      refine ⟨more ++ [y], List.append_assoc _ _ _, fun z hz => ?_⟩
      rcases List.mem_append.1 hz with hz | hz
      · exact ⟨List.mem_append_left _ (hnew z hz).1, (hnew z hz).2⟩
      · rw [List.mem_singleton] at hz
        subst hz
        rw [List.map_append, List.mem_append, not_or] at h
        exact ⟨by simp, h.1⟩

theorem prefix_firsts_append (key : α → κ) (xs ys : List α) : firsts key xs <+: firsts key (xs ++ ys) := prefix_greedy_append xs ys

theorem length_firsts_le (key : α → κ) (xs : List α) : (firsts key xs).length ≤ xs.length := (firsts_sublist xs).length_le

/-- A key that occurs has a first row. -/
theorem exists_first (h : k ∈ xs.map key) : ∃ a x b, xs = a ++ x :: b ∧ key x = k ∧ k ∉ a.map key := by
  induction xs with
  | nil => cases h
  | cons z xs ih =>
    by_cases hz : key z = k
    · exact ⟨[], z, xs, rfl, hz, by simp⟩
    · rw [List.map_cons, List.mem_cons] at h
      obtain ⟨a, x, b, rfl, hx, hnew⟩ := ih (h.resolve_left (Ne.symm hz))
      refine ⟨z :: a, x, b, rfl, hx, ?_⟩
      rw [List.map_cons, List.mem_cons, not_or]
      exact ⟨Ne.symm hz, hnew⟩

/-! ## The order of the stages -/

/-- The first stage that answers a row with the key. -/
def stageOf (key : α → κ) (stages : List (List α)) (k : κ) : ℕ := stages.findIdx fun rows => k ∈ rows.map key

theorem stageOf_append_of_mem {stages : List (List α)} (h : k ∈ stages.flatten.map key) (rows : List α) :
    stageOf key (stages ++ [rows]) k = stageOf key stages k ∧ stageOf key stages k < stages.length := by
  have hlt : stageOf key stages k < stages.length := by
    rw [stageOf, List.findIdx_lt_length]
    obtain ⟨x, hx, rfl⟩ := List.mem_map.1 h
    obtain ⟨rows, hrows, hxrows⟩ := List.mem_flatten.1 hx
    exact ⟨rows, hrows, decide_eq_true (List.mem_map_of_mem hxrows)⟩
  refine ⟨?_, hlt⟩
  rw [stageOf, List.findIdx_append]
  exact if_pos hlt

theorem le_stageOf_append {stages : List (List α)} (h : k ∉ stages.flatten.map key) (rows : List α) :
    stages.length ≤ stageOf key (stages ++ [rows]) k := by
  have hnone : ¬ stages.findIdx (fun rows => decide (k ∈ rows.map key)) < stages.length := by
    rw [List.findIdx_lt_length]
    rintro ⟨rows, hrows, hk⟩
    obtain ⟨x, hx, rfl⟩ := List.mem_map.1 (of_decide_eq_true hk)
    exact h (List.mem_map_of_mem (List.mem_flatten.2 ⟨rows, hrows, hx⟩))
  rw [stageOf, List.findIdx_append, if_neg hnone]
  exact Nat.le_add_left _ _

/-- The first rows of all stages stand in the order of the stages that find them. -/
theorem pairwise_stageOf_firsts (stages : List (List α)) :
    (firsts key stages.flatten).Pairwise fun x y => stageOf key stages (key x) ≤ stageOf key stages (key y) := by
  induction stages using List.reverseRecOn with
  | nil => exact List.Pairwise.nil
  | append_singleton stages rows ih =>
    obtain ⟨more, hmore, hnew⟩ := firsts_append key stages.flatten rows
    have hold : ∀ x ∈ firsts key stages.flatten, key x ∈ stages.flatten.map key :=
      fun x hx => mem_keys_firsts.1 (List.mem_map_of_mem hx)
    have hlate : ∀ y ∈ more, stageOf key (stages ++ [rows]) (key y) = stages.length := by
      intro y hy
      apply le_antisymm
      · have hlt : stageOf key (stages ++ [rows]) (key y) < (stages ++ [rows]).length := by
          rw [stageOf, List.findIdx_lt_length]
          exact ⟨rows, by simp, decide_eq_true (List.mem_map_of_mem (hnew y hy).1)⟩
        simpa [Nat.lt_succ_iff] using hlt
      · exact le_stageOf_append (hnew y hy).2 rows
    rw [List.flatten_append, List.flatten_singleton, hmore, List.pairwise_append]
    refine ⟨?_, ?_, ?_⟩
    · refine ih.imp_of_mem fun {x y} hx hy hle => ?_
      rw [(stageOf_append_of_mem (hold x hx) rows).1, (stageOf_append_of_mem (hold y hy) rows).1]
      exact hle
    · refine List.pairwise_of_forall_mem_list fun x hx y hy => ?_
      rw [hlate x hx, hlate y hy]
    · intro x hx y hy
      obtain ⟨hsame, hlt⟩ := stageOf_append_of_mem (hold x hx) rows
      rw [hsame, hlate y hy]
      exact hlt.le

/-! ## The merge -/

/-- The rows taken, and the keys remembered. -/
structure Merged (α κ : Type*) where
  out : List α := []
  seen : List κ := []

/-- One row: taken while there is room, unless its key is remembered. -/
def mergeRow (key : α → κ) (max cap : ℕ) (m : Merged α κ) (x : α) : Merged α κ :=
  if m.out.length < max then
    if key x ∈ m.seen then m
    else { out := m.out ++ [x], seen := if m.seen.length < cap then m.seen ++ [key x] else m.seen }
  else m

def mergeRows (key : α → κ) (max cap : ℕ) (m : Merged α κ) (xs : List α) : Merged α κ :=
  xs.foldl (mergeRow key max cap) m

theorem mergeRows_append (m : Merged α κ) (xs ys : List α) :
    mergeRows key max cap m (xs ++ ys) = mergeRows key max cap (mergeRows key max cap m xs) ys := List.foldl_append

theorem mergeRows_concat (m : Merged α κ) (xs : List α) (x : α) :
    mergeRows key max cap m (xs ++ [x]) = mergeRow key max cap (mergeRows key max cap m xs) x := by
  rw [mergeRows_append]; rfl

/-- A merge that is full takes nothing. -/
theorem mergeRows_of_full {m : Merged α κ} (h : max ≤ m.out.length) (xs : List α) : mergeRows key max cap m xs = m := by
  induction xs with
  | nil => rfl
  | cons x xs ih => rw [mergeRows, List.foldl_cons, mergeRow, if_neg (by omega)]; exact ih

/-- What is remembered: the first keys of those taken. -/
theorem seen_mergeRows (key : α → κ) (max cap : ℕ) (xs : List α) :
    (mergeRows key max cap {} xs).seen = ((mergeRows key max cap {} xs).out.map key).take cap := by
  induction xs using List.reverseRecOn with
  | nil => simp [mergeRows]
  | append_singleton xs x ih =>
    rw [mergeRows_concat]
    generalize mergeRows key max cap {} xs = m at ih
    unfold mergeRow
    by_cases hroom : m.out.length < max
    · rw [if_pos hroom]
      by_cases hseen : key x ∈ m.seen
      · rw [if_pos hseen, ih]
      · rw [if_neg hseen]
        have hlen : m.seen.length = min cap m.out.length := by rw [ih, List.length_take, List.length_map]
        rw [List.map_append, List.map_singleton]
        by_cases hcap : m.seen.length < cap
        · have hout : m.out.length < cap := by omega
          rw [if_pos hcap, List.take_of_length_le (by simp; omega), ih, List.take_of_length_le (by simp; omega)]
        · have hout : cap ≤ m.out.length := by omega
          rw [if_neg hcap, List.take_append_of_le_length (by simpa using hout), ih]
    · rw [if_neg hroom, ih]

theorem length_mergeRows_le (xs : List α) : (mergeRows key max cap {} xs).out.length ≤ max := by
  induction xs using List.reverseRecOn with
  | nil => exact Nat.zero_le _
  | append_singleton xs x ih =>
    rw [mergeRows_concat, mergeRow]
    by_cases hroom : (mergeRows key max cap {} xs).out.length < max
    · rw [if_pos hroom]
      by_cases hseen : key x ∈ (mergeRows key max cap {} xs).seen
      · rwa [if_pos hseen]
      · rw [if_neg hseen, List.length_append, List.length_singleton]
        exact hroom
    · rwa [if_neg hroom]

theorem prefix_mergeRow (key : α → κ) (max cap : ℕ) (m : Merged α κ) (x : α) : m.out <+: (mergeRow key max cap m x).out := by
  unfold mergeRow
  split_ifs
  · exact List.prefix_refl _
  · exact List.prefix_append _ _
  · exact List.prefix_append _ _
  · exact List.prefix_refl _

/-! ## When the merge remembers enough -/

/-- A row that comes again before the bound is reached was first met while keys were still
remembered. -/
def Remembers (key : α → κ) (max cap : ℕ) (xs : List α) : Prop :=
  ∀ a x b y c, xs = a ++ x :: b ++ y :: c → key x = key y → key x ∉ a.map key →
    (firsts key a).length < cap ∨ max ≤ (firsts key (a ++ x :: b)).length

theorem Remembers.init (h : Remembers key max cap (xs ++ [y])) : Remembers key max cap xs := by
  intro a x b z c hsplit
  exact h a x b z (c ++ [y]) (by rw [hsplit]; simp)

/-- Behind the first row of a key, its place among the first rows. -/
theorem firsts_split (hnew : key x ∉ xs.map key) (ys : List α) :
    ∃ more, firsts key (xs ++ x :: ys) = firsts key xs ++ x :: more := by
  obtain ⟨more, hmore, -⟩ := firsts_append key (xs ++ [x]) ys
  refine ⟨more, ?_⟩
  rw [List.append_cons, hmore, firsts_concat_of_notMem hnew, List.append_assoc]
  rfl

/-- **The merge**: the first row of every key, up to the bound. -/
theorem mergeRows_eq (h : Remembers key max cap xs) : (mergeRows key max cap {} xs).out = (firsts key xs).take max := by
  induction xs using List.reverseRecOn with
  | nil => simp [mergeRows]
  | append_singleton xs y ih =>
    have hout := ih h.init
    have hseen := seen_mergeRows key max cap xs
    rw [mergeRows_concat, mergeRow]
    by_cases hfull : max ≤ (firsts key xs).length
    · have hlen : ¬ (mergeRows key max cap {} xs).out.length < max := by
        rw [hout, List.length_take]; omega
      rw [if_neg hlen, hout]
      obtain ⟨more, hmore⟩ := prefix_firsts_append key xs [y]
      rw [← hmore, List.take_append_of_le_length hfull]
    · rw [List.take_of_length_le (by omega)] at hout
      have hlen : (mergeRows key max cap {} xs).out.length < max := by rw [hout]; omega
      rw [if_pos hlen]
      by_cases hmem : key y ∈ xs.map key
      · obtain ⟨a, x, b, rfl, hx, hnew⟩ := exists_first hmem
        obtain ⟨more, hmore⟩ := firsts_split (hx.symm ▸ hnew) b
        have hcap : (firsts key a).length < cap := by
          rcases h a x b y [] (by simp) hx (hx.symm ▸ hnew) with hcap | hmax
          · exact hcap
          · exact absurd hmax hfull
        have hknown : key y ∈ (mergeRows key max cap {} (a ++ x :: b)).seen := by
          rw [hseen, hout, hmore, List.map_append, List.map_cons, hx, List.mem_take_iff_getElem]
          exact ⟨(firsts key a).length, by simp; omega, by simp⟩
        rw [if_pos hknown, hout, firsts_concat_of_mem hmem, List.take_of_length_le (by omega)]
      · have hunknown : key y ∉ (mergeRows key max cap {} xs).seen := by
          rw [hseen, hout]
          intro hk
          exact hmem (mem_keys_firsts.1 (List.mem_of_mem_take hk))
        rw [if_neg hunknown, firsts_concat_of_notMem hmem]
        show (mergeRows key max cap {} xs).out ++ [y] = _
        rw [hout, List.take_of_length_le (by simp; omega)]

/-- No key is taken twice exactly when the merge remembers enough. -/
theorem nodup_mergeRows_iff :
    ((mergeRows key max cap {} xs).out.map key).Nodup ↔ Remembers key max cap xs := by
  constructor
  · induction xs using List.reverseRecOn with
    | nil =>
      intro _ a x b y c hsplit
      simp at hsplit
    | append_singleton xs z ih =>
      intro hnodup
      have hstep := prefix_mergeRow key max cap (mergeRows key max cap {} xs) z
      rw [mergeRows_concat] at hnodup
      have hxs : Remembers key max cap xs := ih (hnodup.sublist (hstep.sublist.map key))
      intro a x b y c hsplit hkey hnew
      rcases List.eq_nil_or_concat c with rfl | ⟨c, w, rfl⟩
      · obtain ⟨rfl, rfl⟩ : xs = a ++ x :: b ∧ z = y := by
          have := List.append_inj' hsplit rfl
          simpa using this
        by_contra hneither
        rw [not_or, not_lt, not_le] at hneither
        obtain ⟨hcap, hroom⟩ := hneither
        have hout := mergeRows_eq hxs
        rw [List.take_of_length_le hroom.le] at hout
        obtain ⟨more, hmore⟩ := firsts_split hnew b
        have hunknown : key z ∉ (mergeRows key max cap {} (a ++ x :: b)).seen := by
          rw [seen_mergeRows, hout, hmore, List.map_append, List.take_append_of_le_length (by simpa using hcap)]
          intro hk
          exact hnew (hkey ▸ mem_keys_firsts.1 (List.mem_of_mem_take hk))
        rw [mergeRow, if_pos (by rw [hout]; exact hroom), if_neg hunknown] at hnodup
        have htwice : key z ∈ (firsts key (a ++ x :: b)).map key :=
          mem_keys_firsts.2 (by rw [← hkey]; simp)
        rw [List.map_append, hout, List.nodup_append'] at hnodup
        exact List.disjoint_right.1 hnodup.2.2 (by simp) htwice
      · apply hxs a x b y c ?_ hkey hnew
        have hsplit' : xs ++ [z] = (a ++ x :: b ++ y :: c) ++ [w] := by
          rw [hsplit]; simp
        exact (List.append_inj' hsplit' rfl).1
  · intro h
    rw [mergeRows_eq h]
    exact (nodup_keys_firsts xs).sublist ((List.take_sublist _ _).map key)

/-- Enough is remembered of as many rows as there is room to remember. -/
theorem remembers_of_length_le (h : xs.length ≤ cap) : Remembers key max cap xs := by
  intro a x b y c hsplit _ _
  have hlen := congrArg List.length hsplit
  have hfirsts := length_firsts_le key a
  simp only [List.length_append, List.length_cons] at hlen
  left
  omega

/-- A merge that may remember as many keys as it may take remembers enough. -/
theorem remembers_of_le (h : max ≤ cap) : Remembers key max cap xs := by
  intro a x b y c _ _ _
  by_cases hcap : (firsts key a).length < cap
  · exact .inl hcap
  · right
    exact (h.trans (Nat.not_lt.1 hcap)).trans (prefix_firsts_append key a (x :: b)).length_le

/-! ## Stages -/

/-- A lookup: whether it is made, what it answers into a buffer of how many rows, and which
of the rows are merged. -/
structure Stage (α : Type*) where
  asked : Bool
  answer : List α
  room : ℕ
  kept : α → Bool := fun _ => true

def Stage.rows (s : Stage α) : List α := if s.asked then s.answer.filter s.kept else []

/-- A merge with the lookups made for it: how many rows each has answered, and the room for them. -/
structure Staged (α κ : Type*) extends Merged α κ where
  calls : List (ℕ × ℕ) := []

def runStage (key : α → κ) (max cap : ℕ) (m : Staged α κ) (s : Stage α) : Staged α κ :=
  if s.asked ∧ m.out.length < max then
    { toMerged := mergeRows key max cap m.toMerged (s.answer.filter s.kept)
      calls := m.calls ++ [(s.answer.length, s.room)] }
  else m

def staged (key : α → κ) (max cap : ℕ) (stages : List (Stage α)) : Staged α κ :=
  stages.foldl (runStage key max cap) {}

/-- The rows of all stages, one stage after the other. -/
def stageRows (stages : List (Stage α)) : List α := (stages.map Stage.rows).flatten

/-- A merge of stages: bounded, no key twice, in the order of the stages, and no lookup beyond
its buffer. -/
structure StagedMerge (key : α → κ) (max : ℕ) (stages : List (Stage α)) (m : Staged α κ) : Prop where
  bounded : m.out.length ≤ max
  nodup : (m.out.map key).Nodup
  ordered : m.out.Pairwise fun x y =>
    stageOf key (stages.map Stage.rows) (key x) ≤ stageOf key (stages.map Stage.rows) (key y)
  contained : ∀ call ∈ m.calls, call.1 ≤ call.2

/-- Every lookup that is made before the bound is reached answers no more than its room. -/
def AnswersFit (key : α → κ) (max : ℕ) (stages : List (Stage α)) : Prop :=
  ∀ pre s post, stages = pre ++ s :: post → s.asked → (firsts key (stageRows pre)).length < max →
    s.answer.length ≤ s.room

variable {stages : List (Stage α)} {s : Stage α}

theorem answersFit_of_forall (h : ∀ s ∈ stages, s.answer.length ≤ s.room) : AnswersFit key max stages := by
  intro pre s post hsplit _ _
  exact h s (by rw [hsplit]; simp)

theorem staged_concat (stages : List (Stage α)) (s : Stage α) :
    staged key max cap (stages ++ [s]) = runStage key max cap (staged key max cap stages) s := by
  rw [staged, List.foldl_append]; rfl

theorem staged_zero (stages : List (Stage α)) : staged key 0 cap stages = {} := by
  induction stages using List.reverseRecOn with
  | nil => rfl
  | append_singleton stages s ih => rw [staged_concat, ih, runStage, if_neg (fun h => absurd h.2 (Nat.not_lt_zero _))]

theorem stageRows_concat (stages : List (Stage α)) (s : Stage α) :
    stageRows (stages ++ [s]) = stageRows stages ++ s.rows := by
  simp [stageRows]

/-- The stages merge their rows as one list. -/
theorem staged_toMerged (key : α → κ) (max cap : ℕ) (stages : List (Stage α)) :
    (staged key max cap stages).toMerged = mergeRows key max cap {} (stageRows stages) := by
  induction stages using List.reverseRecOn with
  | nil => rfl
  | append_singleton stages s ih =>
    rw [staged_concat, stageRows_concat, mergeRows_append, ← ih, runStage, Stage.rows]
    by_cases hasked : s.asked = true
    · rw [if_pos hasked]
      by_cases hroom : (staged key max cap stages).out.length < max
      · rw [if_pos ⟨hasked, hroom⟩]
      · rw [if_neg (fun h => hroom h.2), mergeRows_of_full (Nat.not_lt.1 hroom)]
    · rw [if_neg (fun h => hasked h.1), if_neg hasked]
      rfl

theorem remembers_init (h : Remembers key max cap (xs ++ ys)) : Remembers key max cap xs := by
  intro a x b y c hsplit
  exact h a x b y (c ++ ys) (by rw [hsplit]; simp)

/-- What is merged is short of the bound when its first rows are. -/
theorem length_mergeRows_lt_iff (h : Remembers key max cap xs) :
    (mergeRows key max cap {} xs).out.length < max ↔ (firsts key xs).length < max := by
  rw [mergeRows_eq h, List.length_take]
  omega

theorem answersFit_concat (stages : List (Stage α)) (s : Stage α) :
    AnswersFit key max (stages ++ [s]) ↔ AnswersFit key max stages ∧
      (s.asked → (firsts key (stageRows stages)).length < max → s.answer.length ≤ s.room) := by
  constructor
  · intro h
    refine ⟨fun pre t post hsplit => h pre t (post ++ [s]) (by rw [hsplit]; simp), ?_⟩
    exact h stages s [] rfl
  · rintro ⟨hstages, hlast⟩ pre t post hsplit
    rcases List.eq_nil_or_concat post with rfl | ⟨post, u, rfl⟩
    · obtain ⟨rfl, hst⟩ := List.append_inj' hsplit rfl
      obtain rfl : s = t := by simpa using hst
      exact hlast
    · have hsplit' : stages ++ [s] = (pre ++ t :: post) ++ [u] := by
        rw [hsplit]; simp
      exact hstages pre t post (List.append_inj' hsplit' rfl).1

/-- The lookups that are made, where the merge remembers enough. -/
theorem calls_fit_iff (h : Remembers key max cap (stageRows stages)) :
    (∀ call ∈ (staged key max cap stages).calls, call.1 ≤ call.2) ↔ AnswersFit key max stages := by
  induction stages using List.reverseRecOn with
  | nil =>
    constructor
    · intro _ pre s post hsplit
      simp at hsplit
    · intro _ call hcall
      cases hcall
  | append_singleton stages s ih =>
    rw [stageRows_concat] at h
    have hstages := remembers_init h
    have hout := length_mergeRows_lt_iff hstages
    rw [← staged_toMerged] at hout
    rw [answersFit_concat, ← ih hstages, staged_concat, runStage]
    by_cases hcalled : s.asked = true ∧ (staged key max cap stages).out.length < max
    · rw [if_pos hcalled]
      constructor
      · intro hcalls
        refine ⟨fun call hcall => hcalls call (List.mem_append_left _ hcall), fun _ _ => ?_⟩
        exact hcalls (s.answer.length, s.room) (by simp)
      · rintro ⟨hcalls, hlast⟩ call hcall
        rcases List.mem_append.1 hcall with hcall | hcall
        · exact hcalls call hcall
        · rw [List.mem_singleton.1 hcall]
          exact hlast hcalled.1 (hout.1 hcalled.2)
    · rw [if_neg hcalled]
      constructor
      · intro hcalls
        exact ⟨hcalls, fun hasked hroom => absurd ⟨hasked, hout.2 hroom⟩ hcalled⟩
      · exact fun hcalls => hcalls.1

/-- **The stages are merged as they should be** exactly when the lookups that are made fit
their buffers and the merge remembers enough. -/
theorem stagedMerge_iff :
    StagedMerge key max stages (staged key max cap stages) ↔
      AnswersFit key max stages ∧ Remembers key max cap (stageRows stages) := by
  have hmerged := staged_toMerged key max cap stages
  constructor
  · intro h
    have hremembers : Remembers key max cap (stageRows stages) := by
      rw [← nodup_mergeRows_iff, ← hmerged]
      exact h.nodup
    exact ⟨(calls_fit_iff hremembers).1 h.contained, hremembers⟩
  · rintro ⟨hfit, hremembers⟩
    have hout : (staged key max cap stages).out = (firsts key (stageRows stages)).take max := by
      rw [hmerged]
      exact mergeRows_eq hremembers
    refine ⟨?_, ?_, ?_, (calls_fit_iff hremembers).2 hfit⟩
    · rw [hmerged]
      exact length_mergeRows_le _
    · rw [hmerged]
      exact nodup_mergeRows_iff.2 hremembers
    · rw [hout]
      exact (pairwise_stageOf_firsts _).sublist (List.take_sublist _ _)

theorem length_rows_le (h : s.asked → s.answer.length ≤ s.room) : s.rows.length ≤ s.room := by
  unfold Stage.rows
  split
  · next hasked => exact (List.length_filter_le _ _).trans (h hasked)
  · exact Nat.zero_le _

/-- Behind a merge that is full nothing has to be remembered. -/
theorem remembers_append_of_full (h : Remembers key max cap xs) (hfull : max ≤ (firsts key xs).length) (ys : List α) :
    Remembers key max cap (xs ++ ys) := by
  intro a x b y c hsplit hkey hnew
  rcases le_or_gt xs.length (a ++ x :: b).length with hle | hlt
  · right
    obtain ⟨rest, hrest⟩ : xs <+: a ++ x :: b :=
      List.prefix_of_prefix_length_le ⟨ys, hsplit⟩ (List.prefix_append _ _) hle
    exact hfull.trans (hrest ▸ (prefix_firsts_append _ _ _).length_le)
  · obtain ⟨rest, hrest⟩ : a ++ x :: b ++ [y] <+: xs := by
      refine List.prefix_of_prefix_length_le ⟨c, ?_⟩ (List.prefix_append xs ys) ?_
      · rw [hsplit, List.append_assoc]; rfl
      · rw [List.length_append, List.length_singleton]; exact hlt
    exact h a x b y rest (by rw [← hrest, List.append_assoc]; rfl) hkey hnew

/-- The rows of lookups that fit buffers of one size, where the merge is not full. -/
theorem length_stageRows_le {room : ℕ} (h : AnswersFit key max stages) (hroom : ∀ s ∈ stages, s.room ≤ room)
    (hopen : (firsts key (stageRows stages)).length < max) : (stageRows stages).length ≤ stages.length * room := by
  induction stages using List.reverseRecOn with
  | nil => exact Nat.zero_le _
  | append_singleton stages s ih =>
    rw [answersFit_concat] at h
    rw [stageRows_concat] at hopen ⊢
    have hbefore := (prefix_firsts_append key (stageRows stages) s.rows).length_le.trans_lt hopen
    have hstages := ih h.1 (fun t ht => hroom t (List.mem_append_left _ ht)) hbefore
    have hrows := (length_rows_le fun hasked => h.2 hasked hbefore).trans (hroom s (by simp))
    rw [List.length_append, List.length_append, List.length_singleton, Nat.succ_mul]
    omega

/-- Lookups that fit their buffers answer no more rows than there is room to remember, where
there is room for all the buffers. -/
theorem remembers_of_answersFit {room : ℕ} (h : AnswersFit key max stages) (hroom : ∀ s ∈ stages, s.room ≤ room)
    (hcap : stages.length * room ≤ cap) : Remembers key max cap (stageRows stages) := by
  induction stages using List.reverseRecOn with
  | nil => exact remembers_of_length_le (Nat.zero_le _)
  | append_singleton stages s ih =>
    have hfit := (answersFit_concat _ _).1 h
    have hfew : stages.length * room ≤ cap := by
      rw [List.length_append, List.length_singleton, Nat.succ_mul] at hcap
      omega
    by_cases hfull : max ≤ (firsts key (stageRows stages)).length
    · rw [stageRows_concat]
      exact remembers_append_of_full (ih hfit.1 (fun t ht => hroom t (List.mem_append_left _ ht)) hfew) hfull _
    · have hopen := Nat.not_le.1 hfull
      have hstages := length_stageRows_le hfit.1 (fun t ht => hroom t (List.mem_append_left _ ht)) hopen
      have hrows := (length_rows_le fun hasked => hfit.2 hasked hopen).trans (hroom s (by simp))
      rw [stageRows_concat]
      apply remembers_of_length_le
      rw [List.length_append, List.length_singleton, Nat.succ_mul] at hcap
      rw [List.length_append]
      omega

end AimeeMemory.Lib
