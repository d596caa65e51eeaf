import Mathlib.Data.List.Lex
import Mathlib.Data.Nat.Digits.Lemmas

/-!
# Decimal numbers

A number as its decimal digits in ASCII, filled up with zeros to a width, and the number
that digits stand for. Numbers of one width are in the order of their bytes (`padded_lt_iff`).
-/

namespace AimeeMemory.Lib

variable {width n : ℕ}

/-- The digits of a number, filled up with zeros. -/
def padded (width n : ℕ) : List UInt8 :=
  List.replicate (width - (Nat.digits 10 n).length) 48 ++ (Nat.digits 10 n).reverse.map fun d => .ofNat (48 + d)

/-- The number that digits stand for. -/
def readDigits (ds : List UInt8) : ℕ := ds.foldl (fun n c => n * 10 + (c.toNat - 48)) 0

theorem toNat_digit {d : ℕ} (h : d < 10) : (UInt8.ofNat (48 + d)).toNat = 48 + d := by
  rw [UInt8.toNat_ofNat']
  omega

theorem mem_padded {c : UInt8} (h : c ∈ padded width n) : 48 ≤ c ∧ c ≤ 57 := by
  rw [padded, List.mem_append, List.mem_replicate, List.mem_map] at h
  rcases h with ⟨-, rfl⟩ | ⟨d, hd, rfl⟩
  · exact ⟨Nat.le_refl 48, Nat.le_of_lt (by decide)⟩
  · have hlt := Nat.digits_lt_base (by omega) (List.mem_reverse.1 hd)
    have htoNat := toNat_digit hlt
    rw [UInt8.le_iff_toNat_le, UInt8.le_iff_toNat_le, htoNat]
    exact ⟨Nat.le_add_right 48 d, show 48 + d ≤ 57 by omega⟩

theorem length_padded : (padded width n).length = max width (Nat.digits 10 n).length := by
  simp [padded]
  omega

/-- The width is kept exactly by the numbers that fit it. -/
theorem length_padded_eq_iff : (padded width n).length = width ↔ n < 10 ^ width := by
  rw [length_padded, ← Nat.digits_length_le_iff (by omega)]
  omega

theorem readDigits_pos {c : UInt8} {ds : List UInt8} (h : 48 < c.toNat) : 0 < readDigits (c :: ds) := by
  have hmono : ∀ (ds : List UInt8) (n : ℕ), 0 < n → 0 < ds.foldl (fun n c => n * 10 + (c.toNat - 48)) n := by
    intro ds
    induction ds with
    | nil => exact fun n hn => hn
    | cons d ds ih => exact fun n hn => ih _ (Nat.add_pos_left (Nat.mul_pos hn (by omega)) _)
  exact hmono ds _ (Nat.add_pos_right _ (Nat.sub_pos_of_lt h))

theorem readDigits_append_replicate (k : ℕ) (ds : List UInt8) :
    readDigits (List.replicate k 48 ++ ds) = readDigits ds := by
  induction k with
  | zero => rfl
  | succ k ih => exact ih

theorem readDigits_padded : readDigits (padded width n) = n := by
  rw [padded, readDigits_append_replicate, readDigits, List.foldl_map, List.foldl_reverse]
  have hfold : ∀ ds : List ℕ, (∀ d ∈ ds, d < 10) →
      ds.foldr (fun d n => n * 10 + ((UInt8.ofNat (48 + d)).toNat - 48)) 0 = Nat.ofDigits 10 ds := by
    intro ds hds
    induction ds with
    | nil => rfl
    | cons d ds ih =>
      rw [List.foldr_cons, ih fun e he => hds e (List.mem_cons_of_mem _ he), toNat_digit (hds d List.mem_cons_self),
        Nat.ofDigits_cons]
      omega
  rw [hfold _ fun d hd => Nat.digits_lt_base (by omega) hd, Nat.ofDigits_digits]

/-! ### The order of the bytes -/

/-- The bytes of a text, to be compared with those of another. -/
def byteValues (t : List UInt8) : List ℕ := t.map UInt8.toNat

theorem byteValues_inj {s t : List UInt8} : byteValues s = byteValues t ↔ s = t :=
  List.map_inj_right fun _ _ => UInt8.toNat_inj.1

/-- Lists whose first parts are of one length. -/
theorem append_lt_append_iff {a b s t : List ℕ} (h : a.length = b.length) :
    a ++ s < b ++ t ↔ a < b ∨ a = b ∧ s < t := by
  induction a generalizing b with
  | nil =>
    obtain rfl := List.length_eq_zero_iff.1 h.symm
    simp
  | cons x a ih =>
    cases b with
    | nil => cases h
    | cons y b =>
      rw [List.cons_append, List.cons_append, List.cons_lt_cons_iff, List.cons_lt_cons_iff, ih (Nat.succ.inj h),
        List.cons.injEq]
      tauto

theorem padded_succ (width n : ℕ) : padded (width + 1) n = padded width (n / 10) ++ [.ofNat (48 + n % 10)] := by
  rcases Nat.eq_zero_or_pos n with rfl | hpos
  · simp [padded, List.replicate_succ']
  · rw [padded, Nat.digits_def' (by omega) hpos, List.length_cons, Nat.add_sub_add_right, List.reverse_cons, List.map_append,
      ← List.append_assoc]
    rfl

/-- Numbers of one width are in the order of their bytes. -/
theorem padded_lt_iff {m : ℕ} (hn : n < 10 ^ width) (hm : m < 10 ^ width) :
    byteValues (padded width n) < byteValues (padded width m) ↔ n < m := by
  induction width generalizing n m with
  | zero =>
    obtain rfl : n = 0 := by omega
    obtain rfl : m = 0 := by omega
    simp
  | succ width ih =>
    have hn' : n / 10 < 10 ^ width := by omega
    have hm' : m / 10 < 10 ^ width := by omega
    have hlen : (byteValues (padded width (n / 10))).length = (byteValues (padded width (m / 10))).length := by
      rw [byteValues, byteValues, List.length_map, List.length_map, length_padded_eq_iff.2 hn', length_padded_eq_iff.2 hm']
    have heq : byteValues (padded width (n / 10)) = byteValues (padded width (m / 10)) ↔ n / 10 = m / 10 := by
      refine ⟨fun h => ?_, fun h => h ▸ rfl⟩
      have hread : readDigits (padded width (n / 10)) = n / 10 := readDigits_padded
      rw [← hread, byteValues_inj.1 h, readDigits_padded]
    rw [padded_succ, padded_succ, byteValues, byteValues, List.map_append, List.map_append]
    refine (append_lt_append_iff hlen).trans ?_
    rw [ih hn' hm', heq, List.map_singleton, List.map_singleton, toNat_digit (by omega), toNat_digit (by omega),
      List.cons_lt_cons_iff]
    simp only [List.lt_irrefl, and_false, or_false]
    omega

end AimeeMemory.Lib
