import AimeeMemory.Lib.MergeUnique
import AimeeMemory.Lib.Upsert
import Mathlib.Order.Bounds.Basic

/-!
# The best offer of every key

A map with room for `cap` keys takes offers one after another. An offer for a key that it has raises the value, where
it is better; another one is added while there is room. So the map has the first keys that are offered, each with the
best of its offers: an offer that comes late is not lost, only a key that comes late is.
-/

namespace AimeeMemory.Lib

variable {κ R : Type*} [LinearOrder R] {cap : ℕ} {os : List (κ × R)} {k : κ}

/-- The value of an entry, raised to `v`. -/
def raiseTo (v : R) (e : κ × R) : κ × R := if e.2 < v then (e.1, v) else e

@[simp] theorem raiseTo_fst (v : R) (e : κ × R) : (raiseTo v e).1 = e.1 := by
  rw [raiseTo]
  split_ifs
  · rfl
  · rfl

@[simp] theorem raiseTo_snd (v : R) (e : κ × R) : (raiseTo v e).2 = e.2 ⊔ v := by
  rw [raiseTo]
  split_ifs with h
  · exact (sup_eq_right.2 h.le).symm
  · exact (sup_eq_left.2 (not_lt.1 h)).symm

variable [DecidableEq κ]

/-- One offer. -/
def offer (cap : ℕ) (m : List (κ × R)) (o : κ × R) : List (κ × R) :=
  if o.1 ∈ m.map Prod.fst ∨ m.length < cap then upsert Prod.fst o.1 (raiseTo o.2) o m else m

def offers (cap : ℕ) (os : List (κ × R)) : List (κ × R) := os.foldl (offer cap) []

/-- The values that are offered for a key. -/
def offered (os : List (κ × R)) (k : κ) : Set R := {v | (k, v) ∈ os}

omit [LinearOrder R] in
theorem upsert_of_notMem {update : κ × R → κ × R} {new : κ × R} {m : List (κ × R)} (h : k ∉ m.map Prod.fst) :
    upsert Prod.fst k update new m = m ++ [new] := by
  induction m with
  | nil => rfl
  | cons e m ih =>
    obtain ⟨hne, hrest⟩ := List.ne_and_not_mem_of_not_mem_cons h
    rw [upsert, if_neg (Ne.symm hne), ih hrest, List.cons_append]

theorem offers_concat (cap : ℕ) (os : List (κ × R)) (o : κ × R) : offers cap (os ++ [o]) = offer cap (offers cap os) o := by
  rw [offers, List.foldl_append]; rfl

theorem foldl_offer (cap : ℕ) (os os' : List (κ × R)) : os'.foldl (offer cap) (offers cap os) = offers cap (os ++ os') := by
  rw [offers, offers, List.foldl_append]

theorem keys_offer (cap : ℕ) (m : List (κ × R)) (o : κ × R) :
    (offer cap m o).map Prod.fst =
      if o.1 ∈ m.map Prod.fst ∨ cap ≤ m.length then m.map Prod.fst else m.map Prod.fst ++ [o.1] := by
  have hkeys : (upsert Prod.fst o.1 (raiseTo o.2) o m).map Prod.fst =
      if o.1 ∈ m.map Prod.fst then m.map Prod.fst else m.map Prod.fst ++ [o.1] := map_upsert (raiseTo_fst o.2) rfl
  rw [offer]
  by_cases hmem : o.1 ∈ m.map Prod.fst
  · rw [if_pos (.inl hmem), if_pos (.inl hmem), hkeys, if_pos hmem]
  · by_cases hroom : m.length < cap
    · rw [if_pos (.inr hroom), if_neg (not_or.2 ⟨hmem, not_le.2 hroom⟩), hkeys, if_neg hmem]
    · rw [if_neg (not_or.2 ⟨hmem, hroom⟩), if_pos (.inr (not_lt.1 hroom))]

/-- The keys: the first ones that are offered. -/
theorem keys_offers (cap : ℕ) (os : List (κ × R)) :
    (offers cap os).map Prod.fst = ((firsts Prod.fst os).map Prod.fst).take cap := by
  induction os using List.reverseRecOn with
  | nil => exact List.take_nil.symm
  | append_singleton os o ih =>
    have hlength : (offers cap os).length = min cap (firsts Prod.fst os).length := by
      rw [← List.length_map Prod.fst, ih, List.length_take, List.length_map]
    rw [offers_concat, keys_offer, firsts_concat]
    by_cases hseen : o.1 ∈ os.map Prod.fst
    · have hkept : o.1 ∈ (offers cap os).map Prod.fst ∨ cap ≤ (offers cap os).length := by
        rw [or_iff_not_imp_right, not_le]
        intro hroom
        rw [ih, List.take_of_length_le (by rw [List.length_map]; omega)]
        exact mem_keys_firsts.2 hseen
      rw [if_pos hseen, if_pos hkept, ih]
    · have hnew : o.1 ∉ (offers cap os).map Prod.fst :=
        fun hk => hseen (mem_keys_firsts.1 (List.mem_of_mem_take (ih ▸ hk)))
      rw [if_neg hseen, List.map_append, List.map_singleton]
      by_cases hfull : cap ≤ (offers cap os).length
      · rw [if_pos (.inr hfull), ih, List.take_append_of_le_length (by rw [List.length_map]; omega)]
      · rw [if_neg (not_or.2 ⟨hnew, hfull⟩), ih, List.take_of_length_le (by rw [List.length_map]; omega),
          List.take_of_length_le (by simp only [List.length_append, List.length_map, List.length_singleton]; omega)]

theorem nodup_keys_offers (cap : ℕ) (os : List (κ × R)) : ((offers cap os).map Prod.fst).Nodup := by
  rw [keys_offers]
  exact (nodup_keys_firsts os).sublist (List.take_sublist _ _)

/-- A key of the map was offered. -/
theorem mem_keys_of_offers (h : k ∈ (offers cap os).map Prod.fst) : k ∈ os.map Prod.fst :=
  mem_keys_firsts.1 (List.mem_of_mem_take (keys_offers cap os ▸ h))

omit [LinearOrder R] in
theorem offered_concat (os : List (κ × R)) (o : κ × R) (k : κ) :
    offered (os ++ [o]) k = if o.1 = k then insert o.2 (offered os k) else offered os k := by
  ext v
  split_ifs with h
  · subst h
    simp [offered, Prod.ext_iff, or_comm]
  · simp [offered, Prod.ext_iff, Ne.symm h]

/-- The value of a key: the best of its offers, also of those that come when there is no more room. -/
theorem isGreatest_offers (cap : ℕ) (os : List (κ × R)) : ∀ e ∈ offers cap os, IsGreatest (offered os e.1) e.2 := by
  induction os using List.reverseRecOn with
  | nil => exact fun e he => absurd he List.not_mem_nil
  | append_singleton os o ih =>
    intro e he
    rw [offers_concat, offer] at he
    rw [offered_concat]
    by_cases htaken : o.1 ∈ (offers cap os).map Prod.fst ∨ (offers cap os).length < cap
    · rw [if_pos htaken] at he
      rcases mem_upsert (nodup_keys_offers cap os) he with ⟨hold, hne⟩ | ⟨c, hc, hkey, rfl⟩ | ⟨hnew, rfl⟩
      · rw [if_neg (Ne.symm hne)]
        exact ih e hold
      · rw [raiseTo_fst, raiseTo_snd, if_pos hkey.symm, sup_comm]
        exact (ih c hc).insert o.2
      · have hroom : (offers cap os).length < cap := htaken.resolve_left hnew
        have hnone : offered os e.1 = ∅ := by
          refine Set.eq_empty_of_forall_notMem fun v hv => hnew ?_
          rw [keys_offers, List.take_of_length_le]
          · exact mem_keys_firsts.2 (List.mem_map.2 ⟨(e.1, v), hv, rfl⟩)
          · have hlength := congrArg List.length (keys_offers cap os)
            rw [List.length_map, List.length_take] at hlength
            omega
        rw [if_pos rfl, hnone, insert_empty_eq]
        exact isGreatest_singleton
    · rw [if_neg htaken] at he
      have hne : o.1 ≠ e.1 := fun heq => htaken (.inl (heq ▸ List.mem_map_of_mem he))
      rw [if_neg hne]
      exact ih e he

end AimeeMemory.Lib
