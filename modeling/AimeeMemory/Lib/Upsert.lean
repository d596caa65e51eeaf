import Mathlib.Data.List.Nodup

/-!
# Updating or adding

A list with one element for each key: an element is updated where its key is found first, or is
added at the end where its key is not found.
-/

namespace AimeeMemory.Lib

variable {β κ : Type*} [DecidableEq κ] {key : β → κ} {k : κ} {update : β → β} {new b : β} {bs : List β}

/-- Update the first element with the key `k`, or add one. -/
def upsert (key : β → κ) (k : κ) (update : β → β) (new : β) : List β → List β
  | [] => [new]
  | b :: bs => if key b = k then update b :: bs else b :: upsert key k update new bs

/-- The keys stay, and a new one is added at the end. -/
theorem map_upsert (hupdate : ∀ b, key (update b) = key b) (hnew : key new = k) :
    (upsert key k update new bs).map key = if k ∈ bs.map key then bs.map key else bs.map key ++ [k] := by
  induction bs with
  | nil => simp [upsert, hnew]
  | cons b bs ih =>
    by_cases hb : key b = k
    · simp [upsert, hb, hupdate]
    · rw [upsert, if_neg hb, List.map_cons, ih, List.map_cons]
      by_cases hk : k ∈ bs.map key
      · rw [if_pos hk, if_pos (List.mem_cons_of_mem _ hk)]
      · rw [if_neg hk, if_neg (List.not_mem_cons_of_ne_of_not_mem (Ne.symm hb) hk), List.cons_append]

theorem nodup_map_upsert (hupdate : ∀ b, key (update b) = key b) (hnew : key new = k) (h : (bs.map key).Nodup) :
    ((upsert key k update new bs).map key).Nodup := by
  rw [map_upsert hupdate hnew]
  split_ifs with hk
  · exact h
  · rw [List.nodup_append_comm]
    exact List.nodup_cons.2 ⟨hk, h⟩

/-- An element afterwards is another one of before, the updated one, or the new one. -/
theorem mem_upsert (h : (bs.map key).Nodup) (hb : b ∈ upsert key k update new bs) :
    b ∈ bs ∧ key b ≠ k ∨ (∃ c ∈ bs, key c = k ∧ b = update c) ∨ k ∉ bs.map key ∧ b = new := by
  induction bs with
  | nil => exact .inr (.inr ⟨List.not_mem_nil, List.mem_singleton.1 hb⟩)
  | cons c bs ih =>
    obtain ⟨hc, hnodup⟩ := List.nodup_cons.1 h
    rw [upsert] at hb
    split_ifs at hb with hk
    · rcases List.mem_cons.1 hb with rfl | hb
      · exact .inr (.inl ⟨c, List.mem_cons_self, hk, rfl⟩)
      · exact .inl ⟨List.mem_cons_of_mem _ hb, fun heq => hc (hk.trans heq.symm ▸ List.mem_map_of_mem hb)⟩
    · rcases List.mem_cons.1 hb with rfl | hb
      · exact .inl ⟨List.mem_cons_self, hk⟩
      · rcases ih hnodup hb with ⟨hold, hne⟩ | ⟨d, hd, hkey, rfl⟩ | ⟨hk', rfl⟩
        · exact .inl ⟨List.mem_cons_of_mem _ hold, hne⟩
        · exact .inr (.inl ⟨d, List.mem_cons_of_mem _ hd, hkey, rfl⟩)
        · exact .inr (.inr ⟨List.not_mem_cons_of_ne_of_not_mem (Ne.symm hk) hk', rfl⟩)

/-- An element is found by its key. -/
theorem find?_key (h : (bs.map key).Nodup) (hb : b ∈ bs) : bs.find? (key · = key b) = some b := by
  induction bs with
  | nil => cases hb
  | cons c bs ih =>
    obtain ⟨hc, hnodup⟩ := List.nodup_cons.1 h
    rcases List.mem_cons.1 hb with rfl | hb
    · simp
    · have hne : key c ≠ key b := fun heq => hc (heq ▸ List.mem_map_of_mem hb)
      rw [List.find?_cons, decide_eq_false hne]
      exact ih hnodup hb

end AimeeMemory.Lib
