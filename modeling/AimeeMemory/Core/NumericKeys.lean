import AimeeMemory.Core.ReferenceDb
import AimeeMemory.Lib.Runs

/-!
# Keys that differ in a number

A near-duplicate is merged by a key that is nearly the same, but never, says the comment, where the
numbers in the two keys differ. The test compares the numbers of runs of digits, and the runs
themselves as two texts, which it cuts to 127 bytes.

## What is proved

* `memoryNumericKeySignature_eq`: the signature is the runs of digits with commas in between, cut to the buffer.
* **`numericGuard_exact_iff`**: the test tells two keys apart by their numbers exactly when they have the same
  runs, not as many, or differ in them before the cut; `differInSight_of_length_le`: as they do where their numbers fit.
* **`longNumbers_confused`**: two numbers of 128 digits that differ in the last.
-/

namespace AimeeMemory.Core

open AimeeMemory.Lib

/-- The numbers in a key, as they are written. -/
def digitRuns (key : Text) : List Text := runs isdigit key

/-- The numbers with commas in between. -/
def writtenRuns (key : Text) : Text := joined 44 (digitRuns key)

/-- Where two keys differ in their numbers, the test sees it: there are not as many of them, or they
differ before the cut. -/
def DifferInSight (a b : Text) : Prop :=
  digitRuns a ≠ digitRuns b → (digitRuns a).length ≠ (digitRuns b).length ∨ ∃ i < 127, (writtenRuns a)[i]? ≠ (writtenRuns b)[i]?

theorem signaturePush_take (full : Text) (c : UInt8) : signaturePush (full.take 127) c = (full ++ [c]).take 127 := by
  rw [signaturePush, List.length_take]
  by_cases hroom : full.length < 127
  · rw [if_pos (by omega), List.take_of_length_le hroom.le, List.take_of_length_le (by simp; omega)]
  · rw [if_neg (by omega), List.take_append_of_le_length (by omega)]

/-- The loop from inside a number, and from outside. -/
theorem numericSignatureLoop_eq (cs full : Text) (tokens : ℕ) :
    (∀ r rs, (cs.splitOnP fun c => !isdigit c) = r :: rs →
      numericSignatureLoop cs (full.take 127) (tokens + 1) true =
        ((full ++ r ++ (nonempties rs).flatMap (44 :: ·)).take 127, tokens + 1 + (nonempties rs).length)) ∧
    numericSignatureLoop cs (full.take 127) tokens false =
      ((full ++ if tokens = 0 then writtenRuns cs else (digitRuns cs).flatMap (44 :: ·)).take 127,
        tokens + (digitRuns cs).length) := by
  induction cs generalizing full tokens with
  | nil =>
    constructor
    · intro r rs hsplit
      obtain ⟨rfl, rfl⟩ : [] = r ∧ [] = rs := by simpa using hsplit
      simp [numericSignatureLoop, nonempties]
    · simp [numericSignatureLoop, writtenRuns, digitRuns, joined]
  | cons c cs ih =>
    obtain ⟨r', rs', hsplit'⟩ := List.exists_cons_of_ne_nil (List.splitOnP_ne_nil (fun c => !isdigit c) cs)
    cases hc : isdigit c with
    | true =>
      constructor
      · intro r rs hsplit
        obtain ⟨rfl, rfl⟩ : c :: r' = r ∧ rs' = rs := by
          simpa [List.splitOnP_cons_eq_if_modifyHead, hc, hsplit'] using hsplit
        have hrest := (ih (full ++ [c]) tokens).1 r' rs' hsplit'
        simp only [numericSignatureLoop, hc, if_true, Bool.not_true, Bool.false_eq_true, false_and, if_false, signaturePush_take, hrest]
        simp
      · have hruns : digitRuns (c :: cs) = (c :: r') :: nonempties rs' := runs_cons_of hc hsplit'
        have hwritten : writtenRuns (c :: cs) = c :: r' ++ (nonempties rs').flatMap (44 :: ·) := by
          rw [writtenRuns, hruns, joined_cons]
        rw [hruns, hwritten]
        by_cases hfirst : tokens = 0
        · have hrest := (ih (full ++ [c]) tokens).1 r' rs' hsplit'
          simp only [numericSignatureLoop, hc, hfirst, if_true, Bool.not_false, true_and, Nat.lt_irrefl, if_false, gt_iff_lt,
            Bool.false_eq_true, signaturePush_take] at hrest ⊢
          rw [hrest]
          simp [Nat.add_comm]
        · have hrest := (ih (full ++ [44] ++ [c]) tokens).1 r' rs' hsplit'
          simp only [numericSignatureLoop, hc, hfirst, if_true, Bool.not_false, true_and, Nat.pos_of_ne_zero hfirst, if_false,
            Bool.false_eq_true, signaturePush_take] at hrest ⊢
          rw [hrest, List.length_cons, Nat.add_assoc, Nat.add_comm 1]
          simp
    | false =>
      have hruns : digitRuns (c :: cs) = digitRuns cs := runs_cons_of_not hc
      constructor
      · intro r rs hsplit
        obtain ⟨rfl, rfl⟩ : [] = r ∧ (r' :: rs') = rs := by
          simpa [List.splitOnP_cons_eq_if_modifyHead, hc, hsplit'] using hsplit
        have hrest := (ih full (tokens + 1)).2
        simp only [numericSignatureLoop, hc, Bool.false_eq_true, if_false, hrest, Nat.succ_ne_zero, List.append_nil]
        rw [digitRuns, runs, hsplit']
      · have hrest := (ih full tokens).2
        simp only [numericSignatureLoop, hc, Bool.false_eq_true, if_false, hrest, hruns, writtenRuns]

theorem memoryNumericKeySignature_eq (key : Text) :
    memoryNumericKeySignature key = ((writtenRuns key).take 127, (digitRuns key).length) := by
  have hloop := (numericSignatureLoop_eq key [] 0).2
  rw [List.take_nil, List.nil_append, if_pos rfl, Nat.zero_add] at hloop
  exact hloop

/-- Texts cut to a length differ where the texts differ before it. -/
theorem take_ne_iff (n : ℕ) (u v : Text) : u.take n ≠ v.take n ↔ ∃ i < n, u[i]? ≠ v[i]? := by
  constructor
  · intro hne
    by_contra hall
    push Not at hall
    refine hne (List.ext_getElem? fun i => ?_)
    rw [List.getElem?_take, List.getElem?_take]
    split
    · exact hall i ‹_›
    · rfl
  · rintro ⟨i, hi, hne⟩ heq
    have hat := congrArg (·[i]?) heq
    simp only [List.getElem?_take, if_pos hi] at hat
    exact hne hat

theorem keysHaveDifferentNumericTokens_iff (a b : Text) :
    memoryKeysHaveDifferentNumericTokens a b = true ↔
      (digitRuns a).length ≠ (digitRuns b).length ∨ ∃ i < 127, (writtenRuns a)[i]? ≠ (writtenRuns b)[i]? := by
  rw [← take_ne_iff]
  simp only [memoryKeysHaveDifferentNumericTokens, memoryNumericKeySignature_eq, decide_eq_true_eq]
  by_cases hcount : (digitRuns a).length = (digitRuns b).length
  · refine or_congr_right (and_iff_right_of_imp fun hne => Nat.pos_of_ne_zero fun hnone => hne ?_)
    have ha : digitRuns a = [] := List.eq_nil_of_length_eq_zero hnone
    have hb : digitRuns b = [] := List.eq_nil_of_length_eq_zero (hcount ▸ hnone)
    rw [writtenRuns, writtenRuns, ha, hb]
  · exact iff_of_true (.inl hcount) (.inl hcount)

/-- Keys with the same runs are not told apart. -/
theorem digitRuns_ne_of_different {a b : Text} (h : memoryKeysHaveDifferentNumericTokens a b = true) :
    digitRuns a ≠ digitRuns b := by
  intro hruns
  rcases (keysHaveDifferentNumericTokens_iff a b).1 h with hcount | ⟨i, -, hne⟩
  · exact hcount (congrArg List.length hruns)
  · rw [writtenRuns, writtenRuns, hruns] at hne
    exact hne rfl

/-- Numbers that fit the buffer are not cut. -/
theorem differInSight_of_length_le {a b : Text} (ha : (writtenRuns a).length ≤ 127) (hb : (writtenRuns b).length ≤ 127) :
    DifferInSight a b := by
  intro hne
  refine .inr ((take_ne_iff 127 _ _).1 ?_)
  rw [List.take_of_length_le ha, List.take_of_length_le hb]
  exact mt (runs_eq_of_joined_eq (by decide)) hne

/-- **The numeric guard is exact** for two keys whose numbers, if they differ, differ in sight: it tells them apart by
their runs of digits, and a near-duplicate of the one under the other has the same runs. -/
theorem numericGuard_exact_iff (a b : Text) :
    ((memoryKeysHaveDifferentNumericTokens a b = true ↔ digitRuns a ≠ digitRuns b) ↔ DifferInSight a b) ∧
    ∀ (pf : Platform) (db : Db2) (s : Store) (p : Prepared) (dup : ℤ × Row), nearDuplicate pf db s p = some dup →
      p.normKey = a → dup.2.key = b → (digitRuns a = digitRuns b ↔ DifferInSight a b) := by
  have hexact : (memoryKeysHaveDifferentNumericTokens a b = true ↔ digitRuns a ≠ digitRuns b) ↔ DifferInSight a b := by
    rw [DifferInSight, ← keysHaveDifferentNumericTokens_iff]
    exact ⟨fun h => h.2, fun h => ⟨digitRuns_ne_of_different, h⟩⟩
  refine ⟨hexact, ?_⟩
  rintro pf db s p dup hdup rfl rfl
  have hsame : memoryKeysHaveDifferentNumericTokens p.normKey dup.2.key = false := by
    have hfound := List.find?_some hdup
    simp only [decide_eq_true_eq, Bool.not_eq_true'] at hfound
    exact hfound.1
  rw [← hexact, hsame]
  simp

/-- Two numbers of 128 digits that differ in the last one. -/
def longNumber (last : UInt8) : Text := List.replicate 127 49 ++ [last]

/-- They are cut before they differ. -/
theorem longNumbers_confused : memoryKeysHaveDifferentNumericTokens (longNumber 49) (longNumber 50) = false ∧
    digitRuns (longNumber 49) ≠ digitRuns (longNumber 50) := by
  decide +kernel

/-- What is inserted under a key. -/
def preparedKey (key : String) : Prepared := ⟨.L2, .fact, text "content", .normal, text key⟩

/-- A near-duplicate of a key has the number of the key. -/
theorem worker_found : ∃ dup, nearDuplicate alikePlatform openDb (oneRowStore (factRow "worker 1" "idle" 1)) (preparedKey "workers 1") =
    some dup ∧ digitRuns (preparedKey "workers 1").normKey = digitRuns dup.2.key := by
  have hfound : nearDuplicate alikePlatform openDb (oneRowStore (factRow "worker 1" "idle" 1)) (preparedKey "workers 1") =
      some (1, factRow "worker 1" "idle" 1) := by decide +kernel
  refine ⟨_, hfound, ((numericGuard_exact_iff _ _).2 _ _ _ _ _ hfound rfl rfl).2 fun hne => absurd ?_ hne⟩
  decide +kernel

end AimeeMemory.Core
