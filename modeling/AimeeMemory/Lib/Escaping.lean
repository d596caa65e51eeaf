import Mathlib.Data.List.Basic

/-!
# Escaping

Some characters of a text are written as codes, which begin with a mark that is itself one
of them. The written text is read back (`decode_encode`), and no such character stands in
it but as the mark of a whole code (`clean_encode`), also where only the codes that fit
into a room are written.
-/

namespace AimeeMemory.Lib

/-- The codes of some characters: each is the mark and characters without a code, and none begins another. -/
structure Codes (α : Type*) [DecidableEq α] where
  table : List (α × List α)
  mark : α
  head_eq : ∀ e ∈ table, e.2.head? = some mark
  tail_plain : ∀ e ∈ table, ∀ c ∈ e.2.tail, ∀ f ∈ table, f.1 ≠ c
  mark_coded : ∃ e ∈ table, e.1 = mark
  eq_of_prefix : ∀ e ∈ table, ∀ f ∈ table, e.2 <+: f.2 → e = f

namespace Codes

variable {α : Type*} [DecidableEq α] (K : Codes α) {c : α} {t : List α} {n : ℕ}

/-- A character as it is written. -/
def piece (c : α) : List α :=
  match K.table.find? fun e => e.1 = c with
  | some e => e.2
  | none => [c]

def encode (t : List α) : List α := t.flatMap K.piece

/-- Reading a text from behind so many characters of it on. -/
def decodeFrom : ℕ → List α → List α
  | _, [] => []
  | skip + 1, _ :: t => decodeFrom skip t
  | 0, c :: t =>
    match K.table.find? fun e => e.2 <+: c :: t with
    | some e => e.1 :: decodeFrom (e.2.length - 1) t
    | none => c :: decodeFrom 0 t

/-- Reading back: a code as its character, and any other character as itself. -/
def decode (t : List α) : List α := K.decodeFrom 0 t

/-- The characters with a code stand in the text only as marks of whole codes. -/
def Clean (t : List α) : Prop :=
  ∀ pre c post, t = pre ++ c :: post → (∃ e ∈ K.table, e.1 = c) → c = K.mark ∧ ∃ e ∈ K.table, e.2 <+: c :: post

/-- The loop that writes, behind `dst`, each character that still fits into a room. -/
def encodeWithin (n : ℕ) : List α → List α → List α
  | dst, [] => dst
  | dst, c :: src => if dst.length + (K.piece c).length ≤ n then encodeWithin n (dst ++ K.piece c) src else dst

variable {K}

theorem piece_cases (c : α) :
    (∃ e ∈ K.table, e.1 = c ∧ K.piece c = e.2) ∨ ((∀ e ∈ K.table, e.1 ≠ c) ∧ K.piece c = [c]) := by
  rw [piece]
  cases hfind : K.table.find? fun e => e.1 = c with
  | some e => exact .inl ⟨e, List.mem_of_find?_eq_some hfind, by simpa using List.find?_some hfind, rfl⟩
  | none => exact .inr ⟨fun e he => by simpa using List.find?_eq_none.1 hfind e he, rfl⟩

theorem code_eq {e : α × List α} (he : e ∈ K.table) : e.2 = K.mark :: e.2.tail :=
  List.eq_cons_of_mem_head? (K.head_eq e he)

/-- One code begins a text that begins with a code. -/
theorem find?_code_append {e : α × List α} (he : e ∈ K.table) (t : List α) :
    (K.table.find? fun f => f.2 <+: e.2 ++ t) = some e := by
  cases hfind : K.table.find? fun f => f.2 <+: e.2 ++ t with
  | none => simpa using List.find?_eq_none.1 hfind e he
  | some f =>
    have hf : f ∈ K.table := List.mem_of_find?_eq_some hfind
    have hprefix : f.2 <+: e.2 ++ t := by simpa using List.find?_some hfind
    rcases List.prefix_or_prefix_of_prefix hprefix (List.prefix_append e.2 t) with hfe | hef
    · rw [K.eq_of_prefix f hf e he hfe]
    · rw [K.eq_of_prefix e he f hf hef]

/-- No code begins a text that does not begin with the mark. -/
theorem find?_plain (hc : c ≠ K.mark) (t : List α) : (K.table.find? fun f => f.2 <+: c :: t) = none := by
  refine List.find?_eq_none.2 fun f hf => ?_
  rw [decide_eq_true_iff, code_eq hf, List.cons_prefix_cons]
  exact fun h => hc h.1.symm

theorem decodeFrom_append (skipped t : List α) : K.decodeFrom skipped.length (skipped ++ t) = K.decode t := by
  induction skipped with
  | nil => rfl
  | cons c skipped ih => rw [List.length_cons, List.cons_append, decodeFrom, ih]

theorem decode_piece_append (c : α) (t : List α) : K.decode (K.piece c ++ t) = c :: K.decode t := by
  rcases piece_cases (K := K) c with ⟨e, he, rfl, hpiece⟩ | ⟨hplain, hpiece⟩
  · have hfind := find?_code_append he t
    rw [hpiece, decode]
    rw [code_eq he, List.cons_append] at hfind ⊢
    rw [decodeFrom, hfind]
    have htail : e.2.length - 1 = e.2.tail.length := by rw [List.length_tail]
    simp only [htail, decodeFrom_append]
  · obtain ⟨e, he, hmark⟩ := K.mark_coded
    have hc : c ≠ K.mark := fun heq => hplain e he (hmark.trans heq.symm)
    rw [hpiece, decode, List.singleton_append, decodeFrom, find?_plain hc]
    rfl

/-- **What is written is read back.** -/
theorem decode_encode (t : List α) : K.decode (K.encode t) = t := by
  induction t with
  | nil => rfl
  | cons c t ih => rw [encode, List.flatMap_cons, decode_piece_append, ← encode, ih]

/-- **What is written has a character with a code only as the mark of a whole one.** -/
theorem clean_encode (t : List α) : K.Clean (K.encode t) := by
  induction t with
  | nil =>
    intro pre c post h
    exact absurd h (by simp [encode])
  | cons d t ih =>
    rintro pre c post hsplit ⟨f, hf, rfl⟩
    rw [encode, List.flatMap_cons, ← encode] at hsplit
    rcases List.append_eq_append_iff.1 hsplit with ⟨as, rfl, hrest⟩ | ⟨bs, hpiece, hrest⟩
    · exact ih as f.1 post hrest ⟨f, hf, rfl⟩
    · cases bs with
      | nil => exact ih [] f.1 post hrest.symm ⟨f, hf, rfl⟩
      | cons a bs =>
        obtain ⟨rfl, hpost⟩ := List.cons.inj hrest
        rcases piece_cases (K := K) d with ⟨e, he, -, heq⟩ | ⟨hplain, heq⟩
        · rw [heq] at hpiece
          cases pre with
          | nil =>
            -- the character is the first one of the code
            rw [List.nil_append] at hpiece
            refine ⟨(List.cons.inj (hpiece.symm.trans (code_eq he))).1, e, he, ?_⟩
            rw [hpiece, hpost]
            exact List.prefix_append _ _
          | cons m pre =>
            have htail : f.1 ∈ e.2.tail := by
              rw [hpiece]
              simp
            exact absurd rfl (K.tail_plain e he f.1 htail f hf)
        · rw [heq] at hpiece
          have hd : f.1 = d := by
            have hmem : f.1 ∈ [d] := hpiece ▸ by simp
            exact List.mem_singleton.1 hmem
          exact absurd hd (hplain f hf)

/-- **In a room, what is written is a part of the text from its beginning on: the whole text where that fits.** -/
theorem encodeWithin_eq (src dst : List α) (h : dst.length ≤ n) :
    ∃ kept, kept <+: src ∧ K.encodeWithin n dst src = dst ++ K.encode kept ∧ dst.length + (K.encode kept).length ≤ n ∧
      (dst.length + (K.encode src).length ≤ n → kept = src) := by
  induction src generalizing dst with
  | nil => exact ⟨[], List.prefix_refl _, by simp [encodeWithin, encode], by simpa [encode] using h, fun _ => rfl⟩
  | cons c src ih =>
    have hcons : ∀ u : List α, K.encode (c :: u) = K.piece c ++ K.encode u := fun u => by rw [encode, List.flatMap_cons, encode]
    rw [encodeWithin]
    split
    · rename_i hroom
      obtain ⟨kept, hkept, heq, hle, hall⟩ := ih (dst ++ K.piece c) (by rwa [List.length_append])
      rw [List.length_append] at hle hall
      refine ⟨c :: kept, List.cons_prefix_cons.2 ⟨rfl, hkept⟩, ?_, ?_, fun hfits => ?_⟩
      · rw [heq, hcons, List.append_assoc]
      · rw [hcons, List.length_append]
        omega
      · rw [hcons, List.length_append] at hfits
        rw [hall (by omega)]
    · rename_i hroom
      refine ⟨[], List.nil_prefix, by simp [encode], by simpa [encode] using h, fun hfits => ?_⟩
      rw [hcons, List.length_append] at hfits
      omega

end Codes

end AimeeMemory.Lib
