import Mathlib.Data.List.Basic

/-!
# Messages in a multiplexed stream

Several senders, told apart by a key, cut their messages into fragments that
arrive interleaved in one stream. A fragment says whether more of its message is
to come. `frag` reads an item of the stream: the key and the "more" mark of a
fragment, or `none` of an item that is not one.

`pending k` is what has arrived of the message that key `k` is in the middle of,
and `IsMessage k` says which runs of fragments make a whole message: from the
first fragment after the previous final one, up to the next final one.

The items of one sender are those that `filterMap` reads and `filter` keeps
(`filterMap_filter_cons`). A receiver that passes over some items keeps the whole of what was sent only if those
items carried nothing (`flatMap_kept_iff`).
-/

namespace AimeeMemory.Lib

universe u v

variable {ι : Type u} {κ : Type v} [DecidableEq κ] (frag : ι → Option (κ × Bool))

/-- What one more item of the stream makes of the unfinished message of `k`. -/
def pendingStep (k : κ) (acc : List ι) (i : ι) : List ι :=
  match frag i with
  | some (k', more) => if k' = k then (if more then acc ++ [i] else []) else acc
  | none => acc

/-- The fragments of the message that `k` is in the middle of. -/
def pending (k : κ) (is : List ι) : List ι := is.foldl (pendingStep frag k) []

/-- `msg` is a whole message of `k` in the stream `is`. -/
def IsMessage (is : List ι) (k : κ) (msg : List ι) : Prop :=
  ∃ pre i post, is = pre ++ i :: post ∧ frag i = some (k, false) ∧ msg = pending frag k pre ++ [i]

variable {frag} {is : List ι} {i : ι} {k k' : κ}

theorem pending_concat : pending frag k (is ++ [i]) = pendingStep frag k (pending frag k is) i := by
  simp [pending]

/-- An item that is not a fragment of `k` leaves the message of `k` where it was. -/
theorem pending_concat_other (h : ∀ more, frag i ≠ some (k, more)) :
    pending frag k (is ++ [i]) = pending frag k is := by
  rw [pending_concat, pendingStep]
  split
  · next k' more hi =>
    have hk : k' ≠ k := by rintro rfl; exact h more hi
    simp [hk]
  · rfl

theorem pending_concat_more (h : frag i = some (k, true)) :
    pending frag k (is ++ [i]) = pending frag k is ++ [i] := by
  simp [pending_concat, pendingStep, h]

theorem IsMessage.concat {msg : List ι} (h : IsMessage frag is k msg) (i : ι) :
    IsMessage frag (is ++ [i]) k msg := by
  obtain ⟨pre, j, post, rfl, hj, rfl⟩ := h
  exact ⟨pre, j, post ++ [i], by simp, hj, rfl⟩

theorem IsMessage.of_final (h : frag i = some (k, false)) :
    IsMessage frag (is ++ [i]) k (pending frag k is ++ [i]) :=
  ⟨is, i, [], rfl, h, rfl⟩

/-- A stream begins with an item that is not among those asked for, or with the next of them. -/
theorem filterMap_filter_cons {ε : Type v} (item : ι → Option ε) (own : ε → Prop) [DecidablePred own] (i : ι)
    (is : List ι) :
    (((i :: is).filterMap item).filter own = (is.filterMap item).filter own ∧ ∀ e, item i = some e → ¬own e) ∨
      ∃ e, item i = some e ∧ own e ∧
        ((i :: is).filterMap item).filter own = e :: (is.filterMap item).filter own := by
  cases hi : item i with
  | none => exact .inl ⟨by rw [List.filterMap_cons_none hi], by simp⟩
  | some e =>
    rw [List.filterMap_cons_some hi]
    by_cases hown : own e
    · exact .inr ⟨e, rfl, hown, List.filter_cons_of_pos (by simpa using hown)⟩
    · exact .inl ⟨List.filter_cons_of_neg (by simpa using hown), by simpa using hown⟩

variable {α : Type v} (content : ι → List α) (kept : ι → Bool)

/-- What is kept of an item. -/
def keptContent (i : ι) : List α := if kept i then content i else []

theorem length_keptContent_le (is : List ι) :
    (is.flatMap (keptContent content kept)).length ≤ (is.flatMap content).length := by
  induction is with
  | nil => simp
  | cons i is ih =>
    simp only [List.flatMap_cons, List.length_append, keptContent]
    split_ifs
    · omega
    · simp only [List.length_nil]; omega

/-- Nothing is lost exactly when the items that are passed over are empty. -/
theorem flatMap_kept_iff (is : List ι) :
    is.flatMap (keptContent content kept) = is.flatMap content ↔ ∀ i ∈ is, kept i = false → content i = [] := by
  induction is with
  | nil => simp
  | cons i is ih =>
    simp only [List.flatMap_cons, List.forall_mem_cons, ← ih]
    cases hk : kept i with
    | true => simp [keptContent, hk]
    | false =>
      simp only [keptContent, hk, Bool.false_eq_true, if_false, List.nil_append, forall_const]
      constructor
      · intro h
        have hlen := congrArg List.length h
        have hle := length_keptContent_le content kept is
        rw [List.length_append] at hlen
        have hi : content i = [] := List.eq_nil_of_length_eq_zero (by omega)
        exact ⟨hi, by simpa [hi] using h⟩
      · rintro ⟨hi, h⟩
        rw [hi, h, List.nil_append]

end AimeeMemory.Lib
