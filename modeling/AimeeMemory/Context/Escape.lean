import AimeeMemory.Context.Markup
import AimeeMemory.Lib.Escaping

/-!
# Escaping into a buffer

`xml_escape_text` as it writes its destination: every byte is stored within it, and where it
has a byte at all, what is left there is the escaped source, or as many whole characters of
it as have room.
-/

namespace AimeeMemory.Context

open AimeeMemory.Core AimeeMemory.Lib

/-- A C string: its bytes, without the NUL. -/
structure CString where
  bytes : Text
  zero_notMem : 0 ∉ bytes

/-- The string that a buffer holds: the bytes before the first NUL, where there is one. -/
def stringIn (buffer : Text) : Option Text := if 0 ∈ buffer then some (buffer.takeWhile (· ≠ 0)) else none

/-- Bytes stored into a buffer: nothing may be stored outside it. -/
def store (dst : Text) (i : ℕ) (bytes : Text) : Option Text :=
  if i + bytes.length ≤ dst.length then some (dst.take i ++ bytes ++ dst.drop (i + bytes.length)) else none

/-- The loop of `xml_escape_text` over the destination and the bytes used of it. -/
def xmlEscapeStores : Text → ℕ → Text → Option (Text × ℕ)
  | dst, used, [] => some (dst, used)
  | dst, used, c :: src =>
    if used + 1 < dst.length then
      match entityOf c with
      | some rep =>
        if dst.length ≤ used + rep.length then some (dst, used)
        else (store dst used rep).bind fun dst => xmlEscapeStores dst (used + rep.length) src
      | none => (store dst used [c]).bind fun dst => xmlEscapeStores dst (used + 1) src
    else some (dst, used)

/-- `xml_escape_text`: the destination afterwards. -/
def xmlEscapeInto (src dst : Text) : Option Text :=
  if dst = [] then some dst
  else (store dst 0 [0]).bind fun dst =>
    if src = [] then some dst
    else (xmlEscapeStores dst 0 src).bind fun (dst, used) => store dst used [0]

/-! ## The entities -/

/-- The entities as codes of their characters. -/
def xmlCodes : Codes UInt8 where
  table := [(38, text "&amp;"), (60, text "&lt;"), (62, text "&gt;"), (34, text "&quot;")]
  mark := 38
  head_eq := by decide +kernel
  tail_plain := by decide +kernel
  mark_coded := ⟨(38, text "&amp;"), by decide, rfl⟩
  eq_of_prefix := by decide +kernel

/-- The markup characters stand in the text only as the ampersands of whole entities. -/
abbrev NoMarkup (t : Text) : Prop := xmlCodes.Clean t

/-- Reading the entities back. -/
def xmlUnescape (t : Text) : Text := xmlCodes.decode t

theorem piece_eq (c : UInt8) : xmlCodes.piece c = (entityOf c).getD [c] := by
  rw [Codes.piece, entityOf, xmlCodes]
  by_cases hamp : c = 38
  · subst hamp
    rfl
  by_cases hlt : c = 60
  · subst hlt
    rfl
  by_cases hgt : c = 62
  · subst hgt
    rfl
  by_cases hquot : c = 34
  · subst hquot
    rfl
  simp [hamp, hlt, hgt, hquot, Ne.symm hamp, Ne.symm hlt, Ne.symm hgt, Ne.symm hquot]

/-- The loop writes as many characters as have room beside the NUL. -/
theorem xmlEscapeLoop_eq {n : ℕ} {dst : Text} (h : dst.length < n) (src : Text) :
    xmlEscapeLoop n dst src = xmlCodes.encodeWithin (n - 1) dst src := by
  induction src generalizing dst with
  | nil => rfl
  | cons c src ih =>
    rw [xmlEscapeLoop, Codes.encodeWithin, piece_eq]
    have hpos : ∀ rep, entityOf c = some rep → 1 ≤ rep.length := by
      intro rep hrep
      rcases Codes.piece_cases (K := xmlCodes) c with ⟨e, he, -, hpiece⟩ | ⟨-, hpiece⟩
      · rw [piece_eq, hrep, Option.getD_some] at hpiece
        rw [hpiece, Codes.code_eq he, List.length_cons]
        omega
      · rw [piece_eq, hrep, Option.getD_some] at hpiece
        rw [hpiece, List.length_singleton]
    cases hentity : entityOf c with
    | none =>
      rw [Option.getD_none, List.length_singleton]
      by_cases hroom : dst.length + 1 < n
      · rw [if_pos hroom, if_pos (by omega)]
        exact ih (by rwa [List.length_append, List.length_singleton])
      · rw [if_neg hroom, if_neg (by omega)]
    | some rep =>
      have hrep := hpos rep hentity
      rw [Option.getD_some]
      by_cases hroom : dst.length + rep.length < n
      · rw [if_pos (by omega), if_pos (by omega)]
        exact (if_neg (by omega)).trans (ih (by rwa [List.length_append]))
      · have hfull : ¬ dst.length + rep.length ≤ n - 1 := by omega
        rw [if_neg hfull]
        split
        · exact if_pos (by omega)
        · rfl

/-! ## The destination -/

/-- Bytes stored behind `t`. -/
theorem store_append {t rest bytes : Text} (h : bytes.length ≤ rest.length) :
    store (t ++ rest) t.length bytes = some ((t ++ bytes) ++ rest.drop bytes.length) := by
  have hroom : t.length + bytes.length ≤ (t ++ rest).length := by
    rw [List.length_append]
    omega
  rw [store, if_pos hroom, List.take_left, List.drop_append, List.drop_of_length_le (by omega), List.nil_append]
  congr 3
  omega

/-- The loop stores what it writes within the destination. -/
theorem xmlEscapeStores_eq (t rest src : Text) :
    ∃ rest', xmlEscapeStores (t ++ rest) t.length src =
        some (xmlEscapeLoop (t ++ rest).length t src ++ rest', (xmlEscapeLoop (t ++ rest).length t src).length) ∧
      (xmlEscapeLoop (t ++ rest).length t src ++ rest').length = (t ++ rest).length := by
  induction src generalizing t rest with
  | nil => exact ⟨rest, rfl, rfl⟩
  | cons c src ih =>
    -- what is stored goes behind `t`, and the loop continues behind that
    have hstored : ∀ bytes : Text, t.length + bytes.length < (t ++ rest).length →
        ∃ rest', ((store (t ++ rest) t.length bytes).bind fun dst => xmlEscapeStores dst (t.length + bytes.length) src) =
            some (xmlEscapeLoop (t ++ rest).length (t ++ bytes) src ++ rest',
              (xmlEscapeLoop (t ++ rest).length (t ++ bytes) src).length) ∧
          (xmlEscapeLoop (t ++ rest).length (t ++ bytes) src ++ rest').length = (t ++ rest).length := by
      intro bytes hroom
      rw [List.length_append] at hroom
      have hlength : ((t ++ bytes) ++ rest.drop bytes.length).length = (t ++ rest).length := by
        rw [List.length_append, List.length_append, List.length_drop, List.length_append]
        omega
      have hnext := ih (t ++ bytes) (rest.drop bytes.length)
      rw [hlength] at hnext
      rwa [store_append (by omega), Option.bind_some, ← List.length_append]
    rw [xmlEscapeStores, xmlEscapeLoop]
    split
    · rename_i hroom
      cases entityOf c with
      | none => exact hstored [c] hroom
      | some rep =>
        by_cases hfull : (t ++ rest).length ≤ t.length + rep.length
        · simp only [if_pos hfull]
          exact ⟨rest, rfl, rfl⟩
        · simp only [if_neg hfull]
          exact hstored rep (by omega)
    · exact ⟨rest, rfl, rfl⟩

/-- What is written, in characters of the source. -/
theorem xmlEscapeText_eq (src : Text) {n : ℕ} (hn : 0 < n) :
    ∃ kept, kept <+: src ∧ xmlEscapeText src n = xmlCodes.encode kept ∧ (xmlCodes.encode kept).length < n ∧
      ((xmlCodes.encode src).length < n → kept = src) := by
  obtain ⟨kept, hkept, heq, hle, hall⟩ := Codes.encodeWithin_eq (K := xmlCodes) src [] (Nat.zero_le (n - 1))
  rw [List.length_nil, Nat.zero_add] at hle hall
  refine ⟨kept, hkept, ?_, by omega, fun hfits => hall (by omega)⟩
  rw [xmlEscapeText, xmlEscapeLoop_eq hn, heq, List.nil_append]

/-- Whatever stood in the destination, the text is there afterwards, and a NUL behind it. -/
theorem xmlEscapeInto_eq (src : Text) {dst : Text} (h : dst ≠ []) :
    ∃ rest, xmlEscapeInto src dst = some (xmlEscapeText src dst.length ++ 0 :: rest) ∧
      (xmlEscapeText src dst.length ++ 0 :: rest).length = dst.length := by
  obtain ⟨d, dst, rfl⟩ := List.exists_cons_of_ne_nil h
  have hfirst : store (d :: dst) 0 [0] = some (0 :: dst) := by simp [store]
  rw [xmlEscapeInto, if_neg h, hfirst, Option.bind_some]
  split
  · rename_i hsrc
    subst hsrc
    exact ⟨dst, rfl, rfl⟩
  · obtain ⟨rest, hstores, hlength⟩ := xmlEscapeStores_eq [] (0 :: dst) src
    obtain ⟨kept, -, htext, hlt, -⟩ := xmlEscapeText_eq (n := dst.length + 1) src (by omega)
    rw [List.nil_append, List.length_nil, List.length_cons, ← xmlEscapeText] at hstores
    rw [List.nil_append, List.length_cons, ← xmlEscapeText, List.length_append] at hlength
    rw [← htext] at hlt
    rw [hstores, Option.bind_some, List.length_cons]
    have hroom : [(0 : UInt8)].length ≤ rest.length := by
      rw [List.length_singleton]
      omega
    refine ⟨rest.drop 1, ?_, ?_⟩
    · exact (store_append hroom).trans (by simp)
    · simp only [List.length_append, List.length_cons, List.length_drop] at hlength hroom ⊢
      omega

theorem zero_notMem_encode {t : Text} (h : 0 ∉ t) : 0 ∉ xmlCodes.encode t := by
  intro hmem
  obtain ⟨c, hc, hzero⟩ := List.mem_flatMap.1 hmem
  rcases Codes.piece_cases (K := xmlCodes) c with ⟨e, he, -, hpiece⟩ | ⟨-, hpiece⟩
  · have hcodes : ∀ e ∈ xmlCodes.table, 0 ∉ e.2 := by decide +kernel
    exact hcodes e he (hpiece ▸ hzero)
  · rw [hpiece, List.mem_singleton] at hzero
    exact h (hzero ▸ hc)

theorem stringIn_append {t : Text} (h : 0 ∉ t) (rest : Text) : stringIn (t ++ 0 :: rest) = some t := by
  have hplain : ∀ c ∈ t, decide (c ≠ 0) = true := fun c hc => decide_eq_true fun hzero => h (hzero ▸ hc)
  rw [stringIn, if_pos (by simp), List.takeWhile_append_of_pos hplain]
  simp

/-! ## The whole call -/

/-- A destination of so many bytes that holds the source, escaped, or whole characters of it. -/
structure HoldsEscaped (src : Text) (n : ℕ) (t : Text) : Prop where
  noMarkup : NoMarkup t
  unescape_prefix : xmlUnescape t <+: src
  unescape_whole : (xmlCodes.encode src).length < n → xmlUnescape t = src

/-- The call stores nothing outside its destination, and leaves a string there that holds the source, escaped. -/
def EscapesSafely (src dst : Text) : Prop :=
  ∃ out t, xmlEscapeInto src dst = some out ∧ out.length = dst.length ∧ stringIn out = some t ∧ HoldsEscaped src dst.length t

/-- **Every C string is escaped safely into every destination but one of no bytes, which is left as it is.** -/
theorem xmlEscapeInto_safe_iff (src : CString) (dst : Text) :
    xmlEscapeInto src.bytes [] = some [] ∧ (EscapesSafely src.bytes dst ↔ dst ≠ []) := by
  refine ⟨rfl, ?_, fun hne => ?_⟩
  · rintro ⟨out, t, -, hlength, hstring, -⟩ rfl
    rw [List.length_eq_zero_iff.1 hlength] at hstring
    cases hstring
  · obtain ⟨rest, hout, hlength⟩ := xmlEscapeInto_eq src.bytes hne
    obtain ⟨kept, hkept, htext, -, hall⟩ := xmlEscapeText_eq src.bytes (List.length_pos_of_ne_nil hne)
    have hzero : 0 ∉ xmlEscapeText src.bytes dst.length :=
      htext ▸ zero_notMem_encode fun hmem => src.zero_notMem (hkept.subset hmem)
    refine ⟨_, _, hout, hlength, stringIn_append hzero rest, ?_⟩
    rw [htext]
    refine ⟨Codes.clean_encode kept, ?_, fun hfits => ?_⟩
    · rwa [xmlUnescape, Codes.decode_encode]
    · rw [xmlUnescape, Codes.decode_encode, hall hfits]

/-- A destination of no bytes gets no NUL. -/
theorem escape_into_nothing : ¬ EscapesSafely (text "<a>") [] := by
  rintro ⟨out, t, hout, -, hstring, -⟩
  obtain rfl : [] = out := Option.some.inj hout
  cases hstring

end AimeeMemory.Context
