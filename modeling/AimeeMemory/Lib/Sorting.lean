import Mathlib.Data.List.DropRight
import Mathlib.Data.List.Perm.Basic
import Mathlib.Order.Lattice

/-!
# Sorting by a key, the greatest first

The selection sort that trades the first of the greatest elements for the head, and the
insertion sort that passes each element down from the right. Both permute the list and
leave it in descending order of the key. The first is stable where no element comes behind
two of one lower key. The exchange sort, which trades the head for each lower element on the
way, has the least first.
-/

namespace AimeeMemory.Lib

variable {α κ : Type*}

section Selection

variable [LinearOrder κ] (key : α → κ)

/-- The first element with the greatest key of `a :: xs`, and `xs` with `a` in its place. -/
def swapBest (a : α) : List α → α × List α
  | [] => (a, [])
  | x :: xs =>
    if key a < key x ∧ key (swapBest a xs).1 ≤ key x then (x, a :: xs)
    else ((swapBest a xs).1, x :: (swapBest a xs).2)

/-- The first so many rounds of a selection sort. -/
def selectionRounds : ℕ → List α → List α
  | 0, xs => xs
  | _ + 1, [] => []
  | n + 1, x :: xs => (swapBest key x xs).1 :: selectionRounds n (swapBest key x xs).2

def selectionSort (xs : List α) : List α := selectionRounds key xs.length xs

theorem swapBest_perm (a : α) (xs : List α) :
    ((swapBest key a xs).1 :: (swapBest key a xs).2).Perm (a :: xs) := by
  induction xs with
  | nil => exact .refl _
  | cons x xs ih =>
    unfold swapBest
    split_ifs
    · exact .swap a x xs
    · exact (List.Perm.swap x _ _).trans ((ih.cons x).trans (.swap a x xs))

theorem swapBest_length (a : α) (xs : List α) : (swapBest key a xs).2.length = xs.length := by
  simpa using (swapBest_perm key a xs).length_eq

theorem le_swapBest (a : α) (xs : List α) : ∀ x ∈ a :: xs, key x ≤ key (swapBest key a xs).1 := by
  induction xs with
  | nil => simp [swapBest]
  | cons y ys ih =>
    simp only [List.forall_mem_cons] at ih ⊢
    unfold swapBest
    split_ifs with hbest
    · exact ⟨hbest.1.le, le_rfl, fun x hx => (ih.2 x hx).trans hbest.2⟩
    · refine ⟨ih.1, ?_, ih.2⟩
      -- either the head is no smaller than the new element, or some later one is greater
      rcases not_and_or.1 hbest with hle | hle
      · exact (not_lt.1 hle).trans ih.1
      · exact (not_le.1 hle).le

theorem selectionRounds_perm (n : ℕ) (xs : List α) : (selectionRounds key n xs).Perm xs := by
  induction n generalizing xs with
  | zero => exact .refl _
  | succ n ih =>
    cases xs with
    | nil => exact .refl _
    | cons x xs => exact ((ih _).cons _).trans (swapBest_perm key x xs)

theorem selectionSort_perm (xs : List α) : (selectionSort key xs).Perm xs := selectionRounds_perm key _ xs

theorem selectionRounds_sorted (n : ℕ) (xs : List α) (hn : xs.length ≤ n) :
    (selectionRounds key n xs).Pairwise fun a b => key b ≤ key a := by
  induction n generalizing xs with
  | zero =>
    obtain rfl := List.eq_nil_of_length_eq_zero (Nat.le_zero.1 hn)
    exact .nil
  | succ n ih =>
    cases xs with
    | nil => exact .nil
    | cons x xs =>
      unfold selectionRounds
      refine List.pairwise_cons.2 ⟨fun y hy => ?_, ih _ ?_⟩
      · have hmem := (selectionRounds_perm key n _).mem_iff.1 hy
        exact le_swapBest key x xs y ((swapBest_perm key x xs).mem_iff.1 (List.mem_cons_of_mem _ hmem))
      · rw [swapBest_length]
        simpa using hn

theorem selectionSort_sorted (xs : List α) : (selectionSort key xs).Pairwise fun a b => key b ≤ key a :=
  selectionRounds_sorted key _ xs le_rfl

/-! ### Stability -/

/-- The keys before an element that are lower than its own are all different. -/
def NoLowerTie (xs : List α) : Prop :=
  ∀ pre c post, xs = pre ++ c :: post → ((pre.map key).filter (· < key c)).Nodup

/-- Either the head has the greatest key, or it trades places with the first element that has. -/
theorem swapBest_cases (a : α) (xs : List α) :
    (swapBest key a xs = (a, xs) ∧ ∀ x ∈ xs, key x ≤ key a) ∨
      ∃ pre c post, xs = pre ++ c :: post ∧ swapBest key a xs = (c, pre ++ a :: post) ∧ key a < key c ∧
        ∀ x ∈ pre, key x < key c := by
  induction xs with
  | nil => exact .inl ⟨rfl, by simp⟩
  | cons x xs ih =>
    unfold swapBest
    rcases ih with ⟨hbest, hall⟩ | ⟨pre, c, post, rfl, hbest, hlt, hpre⟩
    · rw [hbest]
      split_ifs with hx
      · exact .inr ⟨[], x, xs, rfl, rfl, hx.1, by simp⟩
      · refine .inl ⟨rfl, List.forall_mem_cons.2 ⟨not_lt.1 fun hax => hx ⟨hax, hax.le⟩, hall⟩⟩
    · rw [hbest]
      split_ifs with hx
      · exact .inr ⟨[], x, _, rfl, rfl, hx.1, by simp⟩
      · refine .inr ⟨x :: pre, c, post, rfl, rfl, hlt, List.forall_mem_cons.2 ⟨?_, hpre⟩⟩
        by_contra hnot
        exact hx ⟨hlt.trans_le (not_lt.1 hnot), not_lt.1 hnot⟩

variable {key} {a c : α} {pre post xs : List α}

theorem noLowerTie_iff :
    NoLowerTie key xs ↔ ∀ i : Fin xs.length, (((xs.take i).map key).filter (· < key xs[i])).Nodup := by
  constructor
  · intro h i
    exact h _ _ _ ((List.take_append_drop i xs).symm.trans (by rw [List.drop_eq_getElem_cons i.isLt]; rfl))
  · rintro h pre c post rfl
    simpa using h ⟨pre.length, by simp⟩

instance NoLowerTie.decidable (xs : List α) : Decidable (NoLowerTie key xs) := decidable_of_iff' _ noLowerTie_iff

theorem NoLowerTie.tail (h : NoLowerTie key (a :: xs)) : NoLowerTie key xs := by
  rintro pre c post rfl
  exact (h (a :: pre) c post rfl).sublist (((List.sublist_cons_self a pre).map key).filter _)

/-- A trade of the head for a later element leaves no ties behind it. -/
theorem NoLowerTie.trade (h : NoLowerTie key (a :: (pre ++ c :: post))) (hac : key a < key c) :
    NoLowerTie key (pre ++ a :: post) := by
  have hlower : ((pre.map key).filter (· < key c)).Nodup :=
    (h (a :: pre) c post rfl).sublist (((List.sublist_cons_self a pre).map key).filter _)
  -- below the head there is still less
  have hbelow : ((pre.map key).filter (· < key a)).Nodup := by
    refine hlower.sublist (List.monotone_filter_right _ fun k hk => ?_)
    simp only [decide_eq_true_eq] at hk ⊢
    exact hk.trans hac
  intro front d back hsplit
  rcases List.append_eq_append_iff.1 hsplit with ⟨mid, rfl, hrest⟩ | ⟨mid, rfl, hrest⟩
  · cases mid with
    | nil =>
      obtain ⟨rfl, rfl⟩ := List.cons.inj hrest
      rwa [List.append_nil]
    | cons b mid =>
      obtain ⟨rfl, rfl⟩ := List.cons.inj hrest
      -- the trade permutes what stands before `d`, but for `c`
      have hperm : ((pre ++ a :: mid).map key).Perm ((a :: (pre ++ mid)).map key) :=
        List.perm_middle.map key
      refine (hperm.filter _).nodup_iff.2 ?_
      refine (h (a :: (pre ++ c :: mid)) d back (by simp)).sublist ((List.Sublist.map key ?_).filter _)
      exact ((List.sublist_cons_self c mid).append_left pre).cons_cons a
  · cases mid with
    | nil =>
      obtain ⟨rfl, rfl⟩ := List.cons.inj hrest
      rwa [List.append_nil] at hbelow
    | cons b mid =>
      obtain ⟨rfl, rfl⟩ := List.cons.inj hrest
      exact (h (a :: front) d (mid ++ c :: post) (by simp)).sublist
        (((List.sublist_cons_self a front).map key).filter _)

/-- The trade keeps the elements of every key in their order. -/
theorem filter_trade (h : NoLowerTie key (a :: (pre ++ c :: post))) (hac : key a < key c)
    (hpre : ∀ x ∈ pre, key x < key c) (k : κ) :
    (c :: (pre ++ a :: post)).filter (fun x => key x = k) = (a :: (pre ++ c :: post)).filter fun x => key x = k := by
  have hties := h (a :: pre) c post rfl
  rw [List.map_cons, List.filter_cons_of_pos (by simpa using hac), List.nodup_cons] at hties
  have hnotA : ∀ x ∈ pre, key x ≠ key a := fun x hx heq =>
    hties.1 (List.mem_filter.2 ⟨heq ▸ List.mem_map_of_mem hx, by simpa using hac⟩)
  by_cases hc : key c = k
  · have hnone : pre.filter (fun x => key x = k) = [] :=
      List.filter_eq_nil_iff.2 fun x hx => by simpa [← hc] using (hpre x hx).ne
    simp [hc, hnone, (hc ▸ hac).ne]
  · by_cases ha : key a = k
    · have hnone : pre.filter (fun x => key x = k) = [] :=
        List.filter_eq_nil_iff.2 fun x hx => by simpa [← ha] using hnotA x hx
      simp [hc, ha, hnone]
    · simp [hc, ha]

theorem selectionRounds_stable (n : ℕ) (h : NoLowerTie key xs) (k : κ) :
    (selectionRounds key n xs).filter (fun x => key x = k) = xs.filter fun x => key x = k := by
  induction n generalizing xs with
  | zero => rfl
  | succ n ih =>
    cases xs with
    | nil => rfl
    | cons x xs =>
      unfold selectionRounds
      rcases swapBest_cases key x xs with ⟨hbest, -⟩ | ⟨pre, c, post, rfl, hbest, hxc, hpre⟩
      · rw [hbest, List.filter_cons, List.filter_cons, ih h.tail]
      · rw [hbest, ← filter_trade h hxc hpre, List.filter_cons, List.filter_cons, ih (h.trade hxc)]

/-- **The sort is stable where no element comes behind two of one lower key.** -/
theorem selectionSort_stable (h : NoLowerTie key xs) (k : κ) :
    (selectionSort key xs).filter (fun x => key x = k) = xs.filter fun x => key x = k :=
  selectionRounds_stable _ h k

-- The condition is not necessary: of two trades the second can undo what the first did to an order.
example : ¬ NoLowerTie (Prod.fst : ℕ × ℕ → ℕ) [(1, 0), (1, 1), (2, 0), (2, 1)] ∧
    selectionSort (Prod.fst : ℕ × ℕ → ℕ) [(1, 0), (1, 1), (2, 0), (2, 1)] = [(2, 0), (2, 1), (1, 0), (1, 1)] := by
  decide

end Selection

section InPlace

variable [LT κ] [DecidableLT κ] (key : α → κ)

/-- Of two places of an array the one with the higher key, the first one where neither is higher. -/
def betterPlace (xs : List α) (best j : ℕ) : ℕ :=
  match xs[best]?, xs[j]? with
  | some b, some x => if key b < key x then j else best
  | _, _ => best

/-- The place of the best key from `i` on. -/
def bestPlace (xs : List α) (i : ℕ) : ℕ := (List.range' (i + 1) (xs.length - (i + 1))).foldl (betterPlace key xs) i

/-- A round of the selection sort on an array: the best entry trades places with the one at `i`. -/
def selectionRound (xs : List α) (i : ℕ) : List α := xs.swap i (bestPlace key xs i)

def selectionSortInPlace (xs : List α) : List α := (List.range (xs.length - 1)).foldl (selectionRound key) xs

theorem betterPlace_map {β : Type*} (f : β → α) (xs : List β) :
    betterPlace key (xs.map f) = betterPlace (fun x => key (f x)) xs := by
  funext best j
  simp only [betterPlace, List.getElem?_map]
  cases xs[best]? <;> cases xs[j]? <;> rfl

theorem bestPlace_map {β : Type*} (f : β → α) (xs : List β) (i : ℕ) :
    bestPlace key (xs.map f) i = bestPlace (fun x => key (f x)) xs i := by
  simp only [bestPlace, List.length_map, betterPlace_map]

theorem map_swap {β : Type*} (f : α → β) (xs : List α) (i j : ℕ) : (xs.swap i j).map f = (xs.map f).swap i j := by
  refine List.ext_getElem (by simp) fun k hk hk' => ?_
  simp only [List.getElem_map, List.getElem_swap, List.length_map]
  split_ifs <;> rfl

theorem selectionRound_perm (xs : List α) (i : ℕ) : (selectionRound key xs i).Perm xs := List.swap_perm _ _ _

theorem foldl_selectionRound_perm (is : List ℕ) (xs : List α) : (is.foldl (selectionRound key) xs).Perm xs := by
  induction is generalizing xs with
  | nil => exact .refl _
  | cons i is ih => exact (ih _).trans (selectionRound_perm key xs i)

theorem selectionSortInPlace_perm (xs : List α) : (selectionSortInPlace key xs).Perm xs := foldl_selectionRound_perm key _ xs

variable {key} {xs : List α} {i n : ℕ}

theorem foldl_betterPlace_mem (js : List ℕ) (i : ℕ) : js.foldl (betterPlace key xs) i ∈ i :: js := by
  induction js generalizing i with
  | nil => exact List.mem_cons_self
  | cons j js ih =>
    have hstep : betterPlace key xs i j = i ∨ betterPlace key xs i j = j := by
      unfold betterPlace
      split
      · split_ifs
        · exact .inr rfl
        · exact .inl rfl
      · exact .inl rfl
    rcases List.mem_cons.1 (ih (betterPlace key xs i j)) with hmem | hmem
    · rw [List.foldl_cons, hmem]
      rcases hstep with hstep | hstep <;> simp [hstep]
    · exact List.mem_cons_of_mem _ (List.mem_cons_of_mem _ hmem)

theorem bestPlace_bounds (hi : i < xs.length) : i ≤ bestPlace key xs i ∧ bestPlace key xs i < xs.length := by
  have hmem : bestPlace key xs i ∈ i :: List.range' (i + 1) (xs.length - (i + 1)) := foldl_betterPlace_mem _ i
  rcases List.mem_cons.1 hmem with h | h
  · exact ⟨h.ge, h.trans_lt hi⟩
  · obtain ⟨hfrom, hto⟩ := List.mem_range'_1.1 h
    exact ⟨by omega, by omega⟩

variable [IsStrictOrder κ (· < ·)]

/-- No entry of the places from `i` up to `n` has a higher key than the one at `best`. -/
def BestOf (key : α → κ) (xs : List α) (i n best : ℕ) : Prop :=
  ∀ b ∈ xs[best]?, ∀ k, i ≤ k → k < n → ∀ x ∈ xs[k]?, ¬ key b < key x

theorem BestOf.step {best : ℕ} (h : BestOf key xs i n best) : BestOf key xs i (n + 1) (betterPlace key xs best n) := by
  unfold betterPlace
  split
  · next b x hb hx =>
    split_ifs with hlt
    · intro y hy k hik hkn z hz hyz
      obtain rfl := Option.some.inj (hx.symm.trans hy)
      rcases Nat.lt_succ_iff_lt_or_eq.1 hkn with hkn | rfl
      · exact h b hb k hik hkn z hz (trans_of (· < ·) hlt hyz)
      · obtain rfl := Option.some.inj (hx.symm.trans hz)
        exact irrefl_of (· < ·) _ hyz
    · intro y hy k hik hkn z hz hyz
      rcases Nat.lt_succ_iff_lt_or_eq.1 hkn with hkn | rfl
      · exact h y hy k hik hkn z hz hyz
      · obtain rfl := Option.some.inj (hb.symm.trans hy)
        obtain rfl := Option.some.inj (hx.symm.trans hz)
        exact hlt hyz
  · next hnone =>
    intro y hy k hik hkn z hz
    rcases Nat.lt_succ_iff_lt_or_eq.1 hkn with hkn | rfl
    · exact h y hy k hik hkn z hz
    · exact absurd hz (hnone y z hy)

theorem bestOf_foldl (xs : List α) (i n : ℕ) :
    BestOf key xs i (i + 1 + n) ((List.range' (i + 1) n).foldl (betterPlace key xs) i) := by
  induction n with
  | zero =>
    intro b hb k hik hkn x hx hbx
    obtain rfl : k = i := by omega
    obtain rfl := Option.some.inj (Eq.trans (Eq.symm hb) hx)
    exact irrefl_of (· < ·) _ hbx
  | succ n ih =>
    rw [List.range'_1_concat, List.foldl_append]
    exact ih.step

theorem bestPlace_bestOf (hi : i < xs.length) : BestOf key xs i xs.length (bestPlace key xs i) := by
  have h : BestOf key xs i (i + 1 + (xs.length - (i + 1))) (bestPlace key xs i) := bestOf_foldl xs i _
  rwa [show i + 1 + (xs.length - (i + 1)) = xs.length by omega] at h

/-- Nothing comes behind one of the first `n` entries that has a higher key. -/
def Settled (key : α → κ) (n : ℕ) (xs : List α) : Prop :=
  ∀ p q, p < n → p < q → ∀ a ∈ xs[p]?, ∀ b ∈ xs[q]?, ¬ key a < key b

/-- **A round settles one more entry.** -/
theorem Settled.round (h : Settled key n xs) (hn : n < xs.length) : Settled key (n + 1) (selectionRound key xs n) := by
  obtain ⟨hle, hlt⟩ : n ≤ bestPlace key xs n ∧ bestPlace key xs n < xs.length := bestPlace_bounds hn
  have hbest : BestOf key xs n xs.length (bestPlace key xs n) := bestPlace_bestOf hn
  intro p q hp hpq a ha b hb
  obtain ⟨hqlen, rfl⟩ := List.getElem?_eq_some_iff.1 hb
  obtain ⟨hplen, rfl⟩ := List.getElem?_eq_some_iff.1 ha
  simp only [selectionRound, List.length_swap] at hqlen hplen ⊢
  -- what stands behind the place after the trade stood behind it, or at it, before
  have hqswap : q < (xs.swap n (bestPlace key xs n)).length := by simpa using hqlen
  obtain ⟨q', hq', hfrom, hentry⟩ : ∃ q', ∃ hq' : q' < xs.length, min q n ≤ q' ∧
      (xs.swap n (bestPlace key xs n))[q] = xs[q'] := by
    rw [List.getElem_swap]
    split_ifs with h₁ h₂
    · exact ⟨bestPlace key xs n, hlt, by omega, rfl⟩
    · exact ⟨n, hn, by omega, rfl⟩
    · exact ⟨q, hqlen, by omega, rfl⟩
  rw [hentry]
  rcases Nat.lt_succ_iff_lt_or_eq.1 hp with hp | rfl
  · rw [List.getElem_swap_of_ne (by omega) (by omega)]
    exact h p q' hp (by omega) _ (List.getElem?_eq_getElem hplen) _ (List.getElem?_eq_getElem hq')
  · rw [List.getElem_swap_left_of_lt hlt]
    exact hbest _ (List.getElem?_eq_getElem hlt) q' (by omega) hq' _ (List.getElem?_eq_getElem hq')

theorem settled_rounds (xs : List α) (hn : n ≤ xs.length) :
    Settled key n ((List.range n).foldl (selectionRound key) xs) := by
  induction n with
  | zero => exact fun p q hp => absurd hp (Nat.not_lt_zero p)
  | succ n ih =>
    rw [List.range_succ, List.foldl_append]
    refine (ih (Nat.le_of_succ_le hn)).round ?_
    rwa [(foldl_selectionRound_perm key _ xs).length_eq]

/-- **The sort in place orders by the key**, of which only a strict order is assumed. -/
theorem selectionSortInPlace_sorted (key : α → κ) (xs : List α) :
    (selectionSortInPlace key xs).Pairwise fun a b => ¬ key a < key b := by
  have hlength : (selectionSortInPlace key xs).length = xs.length := (selectionSortInPlace_perm key xs).length_eq
  refine List.pairwise_iff_getElem.2 fun p q hp hq hpq => ?_
  exact settled_rounds xs (Nat.sub_le _ _) p q (by omega) hpq _ (List.getElem?_eq_getElem hp) _ (List.getElem?_eq_getElem hq)

end InPlace

section Insertion

variable [LinearOrder κ] (key : α → κ)

/-- An element passed down from the right end, behind the last one whose key is no less. -/
def insertBack (sorted : List α) (x : α) : List α :=
  sorted.rdropWhile (fun y => key y < key x) ++ x :: sorted.rtakeWhile fun y => key y < key x

def insertionSort (xs : List α) : List α := xs.foldl (insertBack key) []

theorem insertBack_perm (sorted : List α) (x : α) : (insertBack key sorted x).Perm (x :: sorted) := by
  refine List.perm_middle.trans (.cons x ?_)
  rw [List.rdropWhile_append_rtakeWhile]

theorem insertBack_sorted {sorted : List α} (hs : sorted.Pairwise fun a b => key b ≤ key a) (x : α) :
    (insertBack key sorted x).Pairwise fun a b => key b ≤ key a := by
  have hkept : ∀ y ∈ sorted.rdropWhile fun y => key y < key x, key x ≤ key y := by
    intro y hy
    -- the last of the kept elements has no smaller key, and the others come before it
    induction sorted using List.reverseRecOn with
    | nil => simp at hy
    | append_singleton init z ih =>
      by_cases hz : key z < key x
      · rw [List.rdropWhile_concat_pos _ _ _ (by simpa using hz)] at hy
        exact ih (List.pairwise_append.1 hs).1 hy
      · rw [List.rdropWhile_concat_neg _ _ _ (by simpa using hz)] at hy
        rcases List.mem_append.1 hy with hy | hy
        · exact (not_lt.1 hz).trans ((List.pairwise_append.1 hs).2.2 y hy z (by simp))
        · rw [List.mem_singleton.1 hy]
          exact not_lt.1 hz
  have hparts := hs
  rw [← List.rdropWhile_append_rtakeWhile (p := fun y => decide (key y < key x)) (l := sorted),
    List.pairwise_append] at hparts
  obtain ⟨hfront, hback, hcross⟩ := hparts
  have hsmaller : ∀ y ∈ sorted.rtakeWhile fun y => key y < key x, key y ≤ key x := by
    intro y hy
    have := List.mem_rtakeWhile_imp hy
    exact (of_decide_eq_true this).le
  refine List.pairwise_append.2 ⟨hfront, List.pairwise_cons.2 ⟨hsmaller, hback⟩, fun y hy z hz => ?_⟩
  rcases List.mem_cons.1 hz with rfl | hz
  · exact hkept y hy
  · exact hcross y hy z hz

theorem foldl_insertBack (xs sorted : List α) (hs : sorted.Pairwise fun a b => key b ≤ key a) :
    (xs.foldl (insertBack key) sorted).Perm (sorted ++ xs) ∧
      (xs.foldl (insertBack key) sorted).Pairwise fun a b => key b ≤ key a := by
  induction xs generalizing sorted with
  | nil => simpa using hs
  | cons x xs ih =>
    obtain ⟨hperm, hsorted⟩ := ih _ (insertBack_sorted key hs x)
    exact ⟨hperm.trans (((insertBack_perm key sorted x).append_right xs).trans List.perm_middle.symm), hsorted⟩

theorem insertionSort_perm (xs : List α) : (insertionSort key xs).Perm xs :=
  (foldl_insertBack key xs [] .nil).1

theorem insertionSort_sorted (xs : List α) : (insertionSort key xs).Pairwise fun a b => key b ≤ key a :=
  (foldl_insertBack key xs [] .nil).2

end Insertion

/-! ### The elements in front -/

variable {p : α → Bool} {xs : List α}

/-- Where no element that fits comes after one that does not, the first elements fit. -/
theorem countP_take (h : xs.Pairwise fun a b => p b → p a) (n : ℕ) :
    (xs.take n).countP p = min n (xs.countP p) := by
  induction xs generalizing n with
  | nil => simp
  | cons x xs ih =>
    obtain ⟨hx, hxs⟩ := List.pairwise_cons.1 h
    cases n with
    | zero => simp
    | succ n =>
      rw [List.take_succ_cons, List.countP_cons, List.countP_cons, ih hxs]
      by_cases hp : p x
      · simp only [hp, if_true]
        omega
      · have hnone : xs.countP p = 0 := List.countP_eq_zero.2 fun y hy hpy => hp (hx y hy hpy)
        simp [hp, hnone]

theorem forall_mem_take_iff (h : xs.Pairwise fun a b => p b → p a) {n : ℕ} (hn : n ≤ xs.length) :
    (∀ x ∈ xs.take n, p x) ↔ n ≤ xs.countP p := by
  rw [← List.countP_eq_length, countP_take h, List.length_take]
  omega

/-- Those that fit come first. -/
theorem filter_front (h : xs.Pairwise fun a b => p b → p a) : xs.filter p <+: xs := by
  induction xs with
  | nil => exact List.prefix_rfl
  | cons x xs ih =>
    obtain ⟨hx, hxs⟩ := List.pairwise_cons.1 h
    cases hp : p x with
    | true =>
      rw [List.filter_cons_of_pos hp]
      exact List.cons_prefix_cons.2 ⟨rfl, ih hxs⟩
    | false =>
      have hnone : (x :: xs).filter p = [] := by
        rw [List.filter_eq_nil_iff, List.forall_mem_cons]
        refine ⟨by simp [hp], fun y hy hpy => ?_⟩
        rw [hx y hy hpy] at hp
        cases hp
      rw [hnone]
      exact List.nil_prefix

/-! ### Exchanging -/

section Exchange

variable [LinearOrder κ] (key : α → κ)

/-- A pass that trades the element in hand for each lower one: the last in hand, and the others. -/
def carryLeast (a : α) : List α → α × List α
  | [] => (a, [])
  | x :: xs =>
    if key x < key a then ((carryLeast x xs).1, a :: (carryLeast x xs).2)
    else ((carryLeast a xs).1, x :: (carryLeast a xs).2)

/-- The first so many rounds of an exchange sort. -/
def exchangeRounds : ℕ → List α → List α
  | 0, xs => xs
  | _ + 1, [] => []
  | n + 1, x :: xs => (carryLeast key x xs).1 :: exchangeRounds n (carryLeast key x xs).2

def exchangeSort (xs : List α) : List α := exchangeRounds key xs.length xs

theorem carryLeast_perm (a : α) (xs : List α) : ((carryLeast key a xs).1 :: (carryLeast key a xs).2).Perm (a :: xs) := by
  induction xs generalizing a with
  | nil => exact .refl _
  | cons x xs ih =>
    unfold carryLeast
    split_ifs
    · exact (List.Perm.swap a _ _).trans ((ih x).cons a)
    · exact (List.Perm.swap x _ _).trans (((ih a).cons x).trans (.swap a x xs))

theorem carryLeast_length (a : α) (xs : List α) : (carryLeast key a xs).2.length = xs.length := by
  simpa using (carryLeast_perm key a xs).length_eq

theorem carryLeast_le (a : α) (xs : List α) : ∀ x ∈ a :: xs, key (carryLeast key a xs).1 ≤ key x := by
  induction xs generalizing a with
  | nil => simp [carryLeast]
  | cons y ys ih =>
    have hy := List.forall_mem_cons.1 (ih y)
    have ha := List.forall_mem_cons.1 (ih a)
    simp only [List.forall_mem_cons]
    unfold carryLeast
    split_ifs with hlt
    · exact ⟨hy.1.trans hlt.le, hy.1, hy.2⟩
    · exact ⟨ha.1, ha.1.trans (not_lt.1 hlt), ha.2⟩

theorem exchangeRounds_perm (n : ℕ) (xs : List α) : (exchangeRounds key n xs).Perm xs := by
  induction n generalizing xs with
  | zero => exact .refl _
  | succ n ih =>
    cases xs with
    | nil => exact .refl _
    | cons x xs => exact ((ih _).cons _).trans (carryLeast_perm key x xs)

theorem exchangeSort_perm (xs : List α) : (exchangeSort key xs).Perm xs := exchangeRounds_perm key _ xs

theorem exchangeRounds_sorted (n : ℕ) (xs : List α) (hn : xs.length ≤ n) :
    (exchangeRounds key n xs).Pairwise fun a b => key a ≤ key b := by
  induction n generalizing xs with
  | zero =>
    obtain rfl := List.eq_nil_of_length_eq_zero (Nat.le_zero.1 hn)
    exact .nil
  | succ n ih =>
    cases xs with
    | nil => exact .nil
    | cons x xs =>
      unfold exchangeRounds
      refine List.pairwise_cons.2 ⟨fun y hy => ?_, ih _ ?_⟩
      · have hmem := (exchangeRounds_perm key n _).mem_iff.1 hy
        exact carryLeast_le key x xs y ((carryLeast_perm key x xs).mem_iff.1 (List.mem_cons_of_mem _ hmem))
      · rw [carryLeast_length]
        simpa using hn

theorem exchangeSort_sorted (xs : List α) : (exchangeSort key xs).Pairwise fun a b => key a ≤ key b :=
  exchangeRounds_sorted key _ xs le_rfl

end Exchange

end AimeeMemory.Lib
