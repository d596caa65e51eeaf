import Mathlib.Algebra.Order.BigOperators.Group.List
import Mathlib.Algebra.Order.Ring.Nat
import Mathlib.Data.List.Nodup
import Mathlib.Data.List.Induction
import Mathlib.Data.Int.Order.Basic
import Mathlib.Logic.Function.Basic

/-!
# Trimming sections in turn

Lists in named sections, weighed together. Every section in its turn loses its last items
while the whole is too heavy. What is left is a cut through all sections: so many items,
counted from the section that is trimmed last, and no more fit (`trimAll_eq_cut`). The
weight is any function of the sections.
-/

namespace AimeeMemory.Lib

variable {S α : Type*} [DecidableEq S]

/-! ## One list -/

/-- How many items are kept of `n` when the last one goes as long as they are too heavy. -/
def kept (heavy : ℕ → Bool) : ℕ → ℕ
  | 0 => 0
  | n + 1 => if heavy (n + 1) then kept heavy n else n + 1

variable {n m : ℕ}

theorem kept_le {heavy : ℕ → Bool} : kept heavy n ≤ n := by
  induction n with
  | zero => exact Nat.le_refl _
  | succ n ih =>
    rw [kept]
    split
    · exact Nat.le_succ_of_le ih
    · exact Nat.le_refl _

theorem kept_light (heavy : ℕ → Bool) (n : ℕ) : heavy (kept heavy n) = false ∨ kept heavy n = 0 := by
  induction n with
  | zero => exact .inr rfl
  | succ n ih =>
    rw [kept]
    split
    · exact ih
    · next h => exact .inl (by simpa using h)

theorem heavy_of_kept_lt (heavy : ℕ → Bool) (hlt : kept heavy n < m) (hle : m ≤ n) : heavy m = true := by
  induction n with
  | zero => exact absurd hlt (by omega)
  | succ n ih =>
    rw [kept] at hlt
    split at hlt
    · next h =>
      by_cases hm : m = n + 1
      · exact hm ▸ h
      · exact ih hlt (by omega)
    · exact absurd hlt (by omega)

/-- The items that are left of a list. -/
def trimEnd (heavy : List α → Bool) (xs : List α) : List α := xs.take (kept (fun n => heavy (xs.take n)) xs.length)

theorem trimEnd_of_light {heavy : List α → Bool} {xs : List α} (h : heavy xs = false) : trimEnd heavy xs = xs := by
  rw [trimEnd]
  cases hlen : xs.length with
  | zero => rw [kept, List.length_eq_zero_iff.1 hlen]; rfl
  | succ n =>
    rw [kept, ← hlen, List.take_length, h]
    exact List.take_length

/-! ## All sections -/

variable (weigh : (S → List α) → ℤ) (limit : ℤ)

/-- One section is trimmed, the whole being weighed each time. -/
def trimSection (b : S → List α) (s : S) : S → List α :=
  Function.update b s (trimEnd (fun xs => limit < weigh (Function.update b s xs)) (b s))

def trimAll (order : List S) (b : S → List α) : S → List α := order.foldl (trimSection weigh limit) b

/-- How many items the sections have. -/
def itemsIn (b : S → List α) (order : List S) : ℕ := (order.map fun s => (b s).length).sum

/-- How many items the sections have that are trimmed after a section. -/
def above (order : List S) (b : S → List α) (s : S) : ℕ := itemsIn b (order.drop (order.idxOf s + 1))

/-- The first `n` items, counted from the section that is trimmed last. -/
def cut (order : List S) (b : S → List α) (n : ℕ) (s : S) : List α := (b s).take (n - above order b s)

variable {order done rest : List S} {b : S → List α} {s t : S} {weigh limit}

omit [DecidableEq S] in
theorem itemsIn_append (xs ys : List S) : itemsIn b (xs ++ ys) = itemsIn b xs + itemsIn b ys := by
  simp [itemsIn]

omit [DecidableEq S] in
theorem itemsIn_cons (s : S) (xs : List S) : itemsIn b (s :: xs) = (b s).length + itemsIn b xs := by
  simp [itemsIn]

theorem above_eq (hs : s ∉ done) (rest : List S) : above (done ++ s :: rest) b s = itemsIn b rest := by
  have hidx : (done ++ s :: rest).idxOf s + 1 = (done ++ [s]).length := by
    rw [List.idxOf_append_of_notMem hs, List.idxOf_cons_self, List.length_append]
    rfl
  rw [above, hidx, List.append_cons done s rest, List.drop_left]

theorem above_split (hnodup : (done ++ s :: rest).Nodup) : above (done ++ s :: rest) b s = itemsIn b rest :=
  above_eq (fun hmem => (List.nodup_append'.1 hnodup).2.2 hmem List.mem_cons_self) rest

/-- A section that is trimmed earlier has the later ones above it. -/
theorem le_above (hnodup : order.Nodup) (hst : order.idxOf s < order.idxOf t) (ht : t ∈ order) :
    above order b t + (b t).length ≤ above order b s := by
  obtain ⟨xs, ys, rfl, hnew⟩ := List.eq_append_cons_of_mem ht
  have hs : s ∈ xs := by
    by_contra hs
    rw [List.idxOf_append_of_notMem hs, List.idxOf_append_of_notMem hnew, List.idxOf_cons_self] at hst
    omega
  obtain ⟨us, vs, rfl, -⟩ := List.eq_append_cons_of_mem hs
  rw [above_split hnodup]
  rw [List.append_assoc, List.cons_append] at hnodup ⊢
  rw [above_split hnodup, itemsIn_append, itemsIn_cons]
  omega

theorem above_add_le (ht : t ∈ order) : above order b t + (b t).length ≤ itemsIn b order := by
  obtain ⟨xs, ys, rfl, hnew⟩ := List.eq_append_cons_of_mem ht
  rw [above_eq hnew, itemsIn_append, itemsIn_cons]
  omega

theorem cut_of_full (ht : t ∈ order) (h : itemsIn b order ≤ n) : cut order b n t = b t := by
  have := above_add_le (b := b) ht
  rw [cut, List.take_of_length_le (by omega)]

theorem cut_prefix (s : S) : cut order b n s <+: b s := List.take_prefix _ _

/-- A cut that goes through a section has nothing of those that are trimmed before it. -/
theorem cut_eq_nil (hnodup : order.Nodup) (ht : t ∈ order) (hst : order.idxOf s < order.idxOf t)
    (hcut : cut order b n t ≠ b t) : cut order b n s = [] := by
  have hle := le_above (b := b) hnodup hst ht
  have hlt : n - above order b t < (b t).length := by
    by_contra hge
    exact hcut (List.take_of_length_le (Nat.not_lt.1 hge))
  rw [cut, show n - above order b s = 0 by omega, List.take_zero]

/-- One section cut further. -/
theorem update_cut (hall : ∀ t, t ∈ order) (hnodup : order.Nodup) (horder : order = done ++ s :: rest)
    {j : ℕ} (hj : j ≤ (b s).length) :
    Function.update (cut order b (itemsIn b rest + (b s).length)) s ((b s).take j) = cut order b (itemsIn b rest + j) := by
  have hs : above order b s = itemsIn b rest := by
    subst horder
    exact above_split hnodup
  funext t
  by_cases hts : t = s
  · subst hts
    rw [Function.update_self, cut, hs, Nat.add_sub_cancel_left]
  · rw [Function.update_of_ne hts, cut, cut]
    rcases lt_trichotomy (order.idxOf t) (order.idxOf s) with hlt | heq | hgt
    · have := le_above (b := b) hnodup hlt (hall s)
      rw [show itemsIn b rest + (b s).length - above order b t = 0 by omega,
        show itemsIn b rest + j - above order b t = 0 by omega]
    · exact absurd ((List.idxOf_inj (hall t)).1 heq) hts
    · have := le_above (b := b) hnodup hgt (hall t)
      rw [List.take_of_length_le (by omega), List.take_of_length_le (by omega)]

/-- The sections trimmed so far: a cut that leaves those still to come, that is light or goes
through none of them, and above which everything is too heavy. -/
structure TrimmedTo (weigh : (S → List α) → ℤ) (limit : ℤ) (order rest : List S) (b c : S → List α) (m : ℕ) : Prop where
  cut : c = cut order b m
  rest_le : itemsIn b rest ≤ m
  le_itemsIn : m ≤ itemsIn b order
  light : weigh c ≤ limit ∨ m = itemsIn b rest
  heavy : ∀ n, m < n → n ≤ itemsIn b order → limit < weigh (Lib.cut order b n)

theorem TrimmedTo.start (hall : ∀ t, t ∈ order) : TrimmedTo weigh limit order order b b (itemsIn b order) := by
  refine ⟨funext fun t => (cut_of_full (hall t) le_rfl).symm, le_rfl, le_rfl, .inr rfl, fun n hlt hle => ?_⟩
  omega

theorem TrimmedTo.step (hall : ∀ t, t ∈ order) (hnodup : order.Nodup) (horder : order = done ++ s :: rest)
    {c : S → List α} (h : TrimmedTo weigh limit order (s :: rest) b c m) :
    ∃ m, TrimmedTo weigh limit order rest b (trimSection weigh limit c s) m := by
  have hrest := h.rest_le
  rw [itemsIn_cons] at hrest
  by_cases hlight : weigh c ≤ limit
  · refine ⟨m, ?_⟩
    have hsame : trimSection weigh limit c s = c := by
      rw [trimSection, trimEnd_of_light, Function.update_eq_self]
      rw [Function.update_eq_self]
      exact decide_eq_false (not_lt.2 hlight)
    rw [hsame]
    exact ⟨h.cut, by omega, h.le_itemsIn, .inl hlight, h.heavy⟩
  · have hm := h.light.resolve_left hlight
    rw [itemsIn_cons, Nat.add_comm] at hm
    have hc : c = Lib.cut order b (itemsIn b rest + (b s).length) := hm ▸ h.cut
    have hcs : c s = b s := by
      have hs : above order b s = itemsIn b rest := by
        subst horder
        exact above_split hnodup
      rw [hc, Lib.cut, hs, Nat.add_sub_cancel_left, List.take_length]
    have hupdate : ∀ j ≤ (b s).length, Function.update c s ((b s).take j) = Lib.cut order b (itemsIn b rest + j) := by
      intro j hj
      rw [hc]
      exact update_cut hall hnodup horder hj
    have htrim : trimSection weigh limit c s =
        Lib.cut order b (itemsIn b rest + kept (fun n => limit < weigh (Function.update c s ((b s).take n))) (b s).length) := by
      rw [trimSection, trimEnd, hcs, hupdate _ kept_le]
    generalize hj : kept (fun n => limit < weigh (Function.update c s ((b s).take n))) (b s).length = j at htrim
    have hjle : j ≤ (b s).length := hj ▸ kept_le
    refine ⟨itemsIn b rest + j, htrim, Nat.le_add_right _ _, ?_, ?_, ?_⟩
    · have := h.le_itemsIn
      omega
    · rcases kept_light (fun n => limit < weigh (Function.update c s ((b s).take n))) (b s).length with hk | hk
      · left
        rw [hj, hupdate j hjle, ← htrim] at hk
        exact not_lt.1 (of_decide_eq_false hk)
      · right
        rw [← hj, hk, Nat.add_zero]
    · intro n hlt hle
      by_cases hn : n ≤ itemsIn b rest + (b s).length
      · have hheavy : decide (limit < weigh (Function.update c s ((b s).take (n - itemsIn b rest)))) = true :=
          heavy_of_kept_lt (fun n => limit < weigh (Function.update c s ((b s).take n))) (by rw [hj]; omega)
            (show n - itemsIn b rest ≤ (b s).length by omega)
        rw [hupdate _ (by omega), Nat.add_sub_cancel' (by omega)] at hheavy
        exact of_decide_eq_true hheavy
      · exact h.heavy n (by omega) hle

/-- **The trim**: a cut that fits or has nothing left, and above which nothing fits. -/
theorem trimAll_eq_cut (weigh : (S → List α) → ℤ) (limit : ℤ) (b : S → List α) (hall : ∀ t, t ∈ order)
    (hnodup : order.Nodup) :
    ∃ m, trimAll weigh limit order b = cut order b m ∧ m ≤ itemsIn b order ∧
      (weigh (cut order b m) ≤ limit ∨ m = 0) ∧
      ∀ n, m < n → n ≤ itemsIn b order → limit < weigh (cut order b n) := by
  have hrun : ∀ rest done c, order = done ++ rest → (∃ m, TrimmedTo weigh limit order rest b c m) →
      ∃ m, TrimmedTo weigh limit order [] b (trimAll weigh limit rest c) m := by
    intro rest
    induction rest with
    | nil => exact fun _ _ _ h => h
    | cons s rest ih =>
      intro done c horder hc
      obtain ⟨m, hm⟩ := hc
      exact ih (done ++ [s]) _ (by rw [horder, List.append_cons]) (hm.step hall hnodup horder)
  obtain ⟨m, hm⟩ := hrun order [] b rfl ⟨_, .start hall⟩
  refine ⟨m, hm.cut, hm.le_itemsIn, ?_, hm.heavy⟩
  rw [← hm.cut]
  exact hm.light

/-- A trim is light or leaves nothing; a section that lost an item has nothing behind it left;
and every section keeps its first items. -/
theorem trimAll_keeps (weigh : (S → List α) → ℤ) (limit : ℤ) (b : S → List α) (hall : ∀ t, t ∈ order)
    (hnodup : order.Nodup) :
    (weigh (trimAll weigh limit order b) ≤ limit ∨ ∀ s, trimAll weigh limit order b s = []) ∧
      (∀ s, trimAll weigh limit order b s ≠ b s →
        ∀ t, order.idxOf t < order.idxOf s → trimAll weigh limit order b t = []) ∧
      ∀ s, trimAll weigh limit order b s <+: b s := by
  obtain ⟨m, heq, -, hlight, -⟩ := trimAll_eq_cut weigh limit b hall hnodup
  rw [heq]
  refine ⟨hlight.imp_right ?_, ?_, fun s => cut_prefix s⟩
  · rintro rfl s
    rw [cut, Nat.zero_sub, List.take_zero]
  · intro s hcut t hts
    exact cut_eq_nil hnodup (hall s) hts hcut

end AimeeMemory.Lib
