import Mathlib.Data.List.Count
import Mathlib.Data.List.Perm.Basic

/-!
# Promotion into the end of a window

The members of a tail are moved into a window, as long as some are needed: each trades places
with the last entry of the window that has not been given up, so the window is used up from
its end. `promote_eq` says what comes out of a whole tail, `countP_take_promote` how many entries
of a kind are then among the first, when they were before and some of them are given up.
-/

namespace AimeeMemory.Lib

variable {α : Type*}

/-- How many members are still needed, the entries of the window that may be given up, the last one first, and
what stands behind them so far. -/
structure Promotion (α : Type*) where
  needed : ℕ
  victims : List α
  passed : List α

/-- An entry of the tail: a member trades places with the first victim. -/
def promoteStep (q : α → Bool) (s : Promotion α) (x : α) : Promotion α :=
  match s.needed, s.victims with
  | n + 1, v :: vs => if q x then ⟨n, vs, x :: (s.passed ++ [v])⟩ else { s with passed := s.passed ++ [x] }
  | _, _ => { s with passed := s.passed ++ [x] }

def promote (q : α → Bool) (s : Promotion α) (xs : List α) : Promotion α := xs.foldl (promoteStep q) s

/-- The entries in their order. -/
def Promotion.entries (s : Promotion α) : List α := s.victims.reverse ++ s.passed

variable {q p : α → Bool} {s : Promotion α} {x v : α} {victims vs xs ys window past : List α} {n : ℕ}

theorem promoteStep_member (hx : q x) :
    promoteStep q ⟨n + 1, v :: vs, past⟩ x = ⟨n, vs, x :: (past ++ [v])⟩ := if_pos hx

theorem promoteStep_other (h : s.needed = 0 ∨ q x = false) :
    promoteStep q s x = { s with passed := s.passed ++ [x] } := by
  unfold promoteStep
  split
  · next hneeded _ =>
    rcases h with h | h
    · omega
    · rw [if_neg (by simp [h])]
  · rfl

theorem promoteStep_perm (s : Promotion α) (x : α) : (promoteStep q s x).entries.Perm (s.entries ++ [x]) := by
  have hpassed : ({ s with passed := s.passed ++ [x] } : Promotion α).entries.Perm (s.entries ++ [x]) := by
    simp [Promotion.entries]
  unfold promoteStep
  split
  · next v vs hneeded hvictims =>
    split
    · simp only [Promotion.entries, hvictims, List.reverse_cons, List.append_assoc]
      refine List.Perm.append_left vs.reverse ?_
      simp only [List.singleton_append]
      exact ((List.perm_append_singleton v s.passed).cons x).trans
        ((List.Perm.swap v x s.passed).trans ((List.perm_append_singleton x s.passed).symm.cons v))
    · exact hpassed
  · exact hpassed

/-- A promotion permutes the entries. -/
theorem promote_perm (s : Promotion α) (xs : List α) : (promote q s xs).entries.Perm (s.entries ++ xs) := by
  induction xs generalizing s with
  | nil => simp [promote]
  | cons x xs ih =>
    refine (ih (promoteStep q s x)).trans (((promoteStep_perm s x).append_right xs).trans ?_)
    simp

theorem promote_append (s : Promotion α) (xs ys : List α) : promote q s (xs ++ ys) = promote q (promote q s xs) ys :=
  List.foldl_append

/-- Where no member is needed, or there is none, the tail stays where it is. -/
theorem promote_idle (h : s.needed = 0 ∨ xs.countP q = 0) : promote q s xs = { s with passed := s.passed ++ xs } := by
  induction xs generalizing s with
  | nil => simp [promote]
  | cons x xs ih =>
    have hx : s.needed = 0 ∨ q x = false := h.imp_right fun hcount => by
      simpa using List.countP_eq_zero.1 hcount x List.mem_cons_self
    have hxs : s.needed = 0 ∨ xs.countP q = 0 := h.imp_right fun hcount =>
      List.countP_eq_zero.2 fun y hy => List.countP_eq_zero.1 hcount y (List.mem_cons_of_mem _ hy)
    rw [promote, List.foldl_cons, promoteStep_other hx]
    refine (ih (s := { s with passed := s.passed ++ [x] }) hxs).trans ?_
    simp

/-- **What a tail is promoted to**, where the window holds as many entries as members are moved: the members
stand behind what is left of the window, the last one first. -/
theorem promote_eq (q : α → Bool) (n : ℕ) (xs victims window past : List α)
    (hroom : min n (xs.countP q) ≤ victims.length) :
    ∃ rest, promote q ⟨n, victims, window ++ past⟩ xs =
      ⟨n - xs.countP q, victims.drop (min n (xs.countP q)), ((xs.filter q).take n).reverse ++ window ++ rest⟩ := by
  induction xs generalizing n victims window past with
  | nil => exact ⟨past, by simp [promote]⟩
  | cons x xs ih =>
    by_cases hother : n = 0 ∨ q x = false
    · have hcount : min n ((x :: xs).countP q) = min n (xs.countP q) ∧ n - (x :: xs).countP q = n - xs.countP q ∧
          ((x :: xs).filter q).take n = (xs.filter q).take n := by
        rcases hother with rfl | hx
        · simp
        · simp [hx]
      rw [hcount.1] at hroom
      obtain ⟨rest, hrest⟩ := ih n victims window (past ++ [x]) hroom
      rw [hcount.1, hcount.2.1, hcount.2.2]
      refine ⟨rest, Eq.trans ?_ hrest⟩
      rw [promote, List.foldl_cons, promoteStep_other hother, List.append_assoc]
      rfl
    · obtain ⟨hn, hx⟩ := not_or.1 hother
      obtain ⟨n, rfl⟩ := Nat.exists_eq_succ_of_ne_zero hn
      simp only [Bool.not_eq_false] at hx
      rw [List.countP_cons_of_pos hx] at hroom ⊢
      cases victims with
      | nil => simp at hroom
      | cons v vs =>
        rw [List.length_cons] at hroom
        obtain ⟨rest, hrest⟩ := ih n vs (x :: window) (past ++ [v]) (by omega)
        have hdrop : (v :: vs).drop (min (n + 1) (xs.countP q + 1)) = vs.drop (min n (xs.countP q)) := by
          rw [show min (n + 1) (xs.countP q + 1) = min n (xs.countP q) + 1 by omega, List.drop_succ_cons]
        refine ⟨rest, ?_⟩
        rw [promote, List.foldl_cons, promoteStep_member hx, ← promote, List.append_assoc, ← List.cons_append, hrest, hdrop,
          List.filter_cons_of_pos hx, List.take_succ_cons, List.reverse_cons]
        simp

/-- **Entries of a kind among the first ones**, where a tail is promoted whose first part `xs` still counts as
among them: what `ys` moves in takes the places that `xs` has left. -/
theorem countP_take_promote (q p : α → Bool) (n : ℕ) (xs ys victims : List α)
    (hroom : min n ((xs ++ ys).countP q) ≤ victims.length) :
    ((promote q ⟨n, victims, []⟩ (xs ++ ys)).entries.take (victims.length + xs.length)).countP p +
        ((victims.drop (min n (xs.countP q))).take (min (n - xs.countP q) (ys.countP q))).countP p =
      (victims.reverse ++ xs).countP p + ((ys.filter q).take (n - xs.countP q)).countP p := by
  rw [List.countP_append] at hroom
  obtain ⟨inner, hinner⟩ := promote_eq q n xs victims [] [] (by omega)
  rw [List.append_nil, List.append_nil] at hinner
  have hperm : ((victims.drop (min n (xs.countP q))).reverse ++ (((xs.filter q).take n).reverse ++ inner)).Perm
      (victims.reverse ++ xs) := by
    simpa [hinner, Promotion.entries] using promote_perm (q := q) ⟨n, victims, []⟩ xs
  generalize hB : ((xs.filter q).take n).reverse ++ inner = passed at hinner hperm
  generalize hV : victims.drop (min n (xs.countP q)) = left at hinner hperm ⊢
  have hleft : left.length = victims.length - min n (xs.countP q) := by rw [← hV, List.length_drop]
  have hlength : left.length + passed.length = victims.length + xs.length := by simpa using hperm.length_eq
  obtain ⟨rest, hrest⟩ := promote_eq q (n - xs.countP q) ys left passed [] (by omega)
  rw [List.append_nil] at hrest
  have hmoved : ((ys.filter q).take (n - xs.countP q)).length = min (n - xs.countP q) (ys.countP q) := by
    rw [List.length_take, ← List.countP_eq_length_filter]
  have hwindow : (promote q ⟨n, victims, []⟩ (xs ++ ys)).entries.take (victims.length + xs.length) =
      (left.drop (min (n - xs.countP q) (ys.countP q))).reverse ++ ((ys.filter q).take (n - xs.countP q)).reverse ++ passed := by
    rw [promote_append, hinner, hrest]
    simp only [Promotion.entries, ← List.append_assoc]
    refine List.take_left' ?_
    simp only [List.length_append, List.length_reverse, List.length_drop, hmoved]
    omega
  have hcount := hperm.countP_eq p
  have hsplit := congrArg (List.countP p) (List.take_append_drop (min (n - xs.countP q) (ys.countP q)) left)
  rw [hwindow]
  simp only [List.countP_append, List.countP_reverse] at hcount hsplit ⊢
  omega

end AimeeMemory.Lib
