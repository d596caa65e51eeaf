import AimeeMemory.Module.ExtractPrecision
import AimeeMemory.Module.ValueShapes
import AimeeMemory.Lib.Runs
import Mathlib.Data.List.GetD
import Mathlib.Data.List.TakeWhile

/-!
# What a retraction names

`PossessiveAttr` and `ExtractPatterns` of `extract.go` on the two turns of a fact: "my A is v",
that states it, and "forget my A", that retracts it, with an attribute phrase A of one to three
words. The extractor cuts the phrase at the first " is "; the possessive is cut at the " is " or
" was " that opens a value clause.

## What is proved

* `attrEnd_run`: the loop of `PossessiveAttr` by the bytes it reads.
* `separator_statement`, `possessiveAttr_statement`, `possessiveAttr_retraction`: the words of the
  phrase that each of the scanners keeps.
* `attributes_agree_iff`: on which phrases the three attributes are one.
* **`retraction_names_stored`**: on these a retraction names the relation that was stored.
-/

namespace AimeeMemory.Module

open AimeeMemory.Lib
open AimeeMemory.Core (Text text)

/-- A newline or a sentence terminator. -/
def isMark (c : UInt8) : Bool := c = 10 || c = ch '.' || c = ch '!' || c = ch '?'

/-- A word of an attribute phrase: without white space and without a sentence terminator. -/
structure IsWord (w : Text) : Prop where
  ne_nil : w ≠ []
  visible : w.all (fun c => !isSpace c) = true
  unmarked : w.all (fun c => !isMark c) = true

/-- An attribute phrase: one to three words with single spaces between them, shorter than the buffers. -/
structure AttrPhrase where
  first : Text
  rest : List Text
  few : rest.length ≤ 2
  word : ∀ w ∈ first :: rest, IsWord w
  fits : (joined 32 (first :: rest)).length < attrMax

namespace AttrPhrase

/-- The phrase as it is written. -/
def written (A : AttrPhrase) : Text := joined 32 (A.first :: A.rest)

/-- "my A is v". -/
def statement (A : AttrPhrase) (v : Text) : Text := text "my " ++ A.written ++ text " is " ++ v

/-- "forget my A". -/
def retraction (A : AttrPhrase) : Text := text "forget my " ++ A.written

end AttrPhrase

/-- A value that the extractor accepts: something of its first sentence is visible. -/
def Accepted (v : Text) : Prop := ∃ j < valueEnd v 0, isSpace (byteAt v j) = false

/-- The word "is". -/
def isIs (w : Text) : Bool := w.map toLower = text "is"

/-- A word that opens a value clause where another word follows. -/
def opensClause (w : Text) : Bool := isIs w || w.map toLower = text "was"

namespace AttrPhrase

variable (A : AttrPhrase) (p : Text → Bool) (v : Text)

/-- The words behind the first one, up to one with a property. -/
def before : List Text := A.rest.takeWhile fun w => !p w

/-- The words behind the first one, from one with a property on. -/
def onward : List Text := A.rest.dropWhile fun w => !p w

/-- The first of these words that opens a clause, if there is one, is an "is" with another word behind it. -/
def Agrees : Prop :=
  match A.onward opensClause with
  | [] => True
  | c :: more => isIs c = true ∧ more ≠ []

/-- The relation that a retraction names. -/
def retracted : Text := normalizeRelType (possessiveAttr A.retraction).1

/-- **A retraction names what was stored**: the possessive of the statement has the same relation, and
its triple too. Where this is no relation nothing is stored of the possessive. -/
structure NamesStored : Prop where
  restated : normalizeRelType (possessiveAttr (A.statement v)).1 = A.retracted
  stored : A.retracted ≠ [] → ∀ max, 0 < max → (extractPatterns (A.statement v) max).head?.map (·.relType) = some A.retracted
  nothing : A.retracted = [] → ∀ max isPos, (0, isPos) ∉ extractSpans (A.statement v) max

end AttrPhrase

/-! ## Words in a text -/

theorem toLower_eq_space {c : UInt8} : toLower c = 32 ↔ c = 32 := by
  simp only [toLower, isUpper]
  grind

theorem IsWord.isSpace {w : Text} (h : IsWord w) {c : UInt8} (hc : c ∈ w) : isSpace c = false := by
  simpa using List.all_eq_true.1 h.visible c hc

theorem IsWord.isMark {w : Text} (h : IsWord w) {c : UInt8} (hc : c ∈ w) : isMark c = false := by
  simpa using List.all_eq_true.1 h.unmarked c hc

theorem IsWord.not_space {w : Text} (h : IsWord w) : (32 : UInt8) ∉ w := by
  intro hmem
  cases h.isSpace hmem

/-- What stands behind a word: nothing, or a space. -/
def BehindWord (s : Text) : Prop := s = [] ∨ s.head? = some 32

theorem behindWord_flatMap {s : Text} (ws : List Text) (hs : BehindWord s) : BehindWord (ws.flatMap (32 :: ·) ++ s) := by
  cases ws with
  | nil => exact hs
  | cons w ws => exact .inr rfl

theorem byteAt_append_left {s : Text} {j : ℕ} (u : Text) (h : j < s.length) : byteAt (s ++ u) j = byteAt s j := by
  rw [byteAt, byteAt, List.getD_append _ _ _ _ h]

theorem byteAt_append_right (s u : Text) (j : ℕ) : byteAt (s ++ u) (s.length + j) = byteAt u j := by
  rw [byteAt, byteAt, List.getD_append_right _ _ _ _ (Nat.le_add_right _ _), Nat.add_sub_cancel_left]

/-- A clause in a text behind its beginning. -/
theorem ciStartsAt_append (s u needle : Text) (j : ℕ) :
    ciStartsAt (s ++ u) (s.length + j) needle = ciStartsAt u j needle := by
  rw [Bool.eq_iff_iff, ciStartsAt_iff, ciStartsAt_iff, List.drop_length_add_append]

/-- A word opens a clause where the clause has this word, and more follows. -/
theorem ciStartsAt_word {w s n : Text} (hw : IsWord w) (hs : BehindWord s) (hn : (32 : UInt8) ∉ n.map toLower) :
    ciStartsAt (32 :: (w ++ s)) 0 (32 :: n ++ [32]) = true ↔ w.map toLower = n.map toLower ∧ s ≠ [] := by
  have hspace : toLower 32 = 32 := rfl
  have hw' : (32 : UInt8) ∉ w.map toLower := by
    intro hmem
    obtain ⟨c, hc, hlower⟩ := List.mem_map.1 hmem
    exact hw.not_space (toLower_eq_space.1 hlower ▸ hc)
  have hs' : s.map toLower = [] ∨ (s.map toLower).head? = some 32 := by
    rcases hs with rfl | hs
    · exact .inl rfl
    · right
      rw [List.head?_map, hs, Option.map_some, hspace]
  rw [ciStartsAt_iff, List.drop_zero, List.cons_append, List.map_cons, List.map_cons, List.cons_prefix_cons,
    List.map_append, List.map_append, List.map_singleton, hspace, append_sep_prefix_iff hn hw' hs']
  simp [eq_comm]

theorem text_is : text " is " = 32 :: text "is" ++ [32] := rfl

theorem text_was : text " was " = 32 :: text "was" ++ [32] := rfl

/-- An " is " in front of a word. -/
theorem ciStartsAt_is {w s : Text} (hw : IsWord w) (hs : BehindWord s) :
    ciStartsAt (32 :: (w ++ s)) 0 (text " is ") = true ↔ isIs w = true ∧ s ≠ [] := by
  have hlower : (text "is").map toLower = text "is" := rfl
  rw [text_is, ciStartsAt_word hw hs (by decide), hlower, isIs, decide_eq_true_eq]

theorem ciStartsAt_was {w s : Text} (hw : IsWord w) (hs : BehindWord s) :
    ciStartsAt (32 :: (w ++ s)) 0 (text " was ") = true ↔ w.map toLower = text "was" ∧ s ≠ [] := by
  have hlower : (text "was").map toLower = text "was" := rfl
  rw [text_was, ciStartsAt_word hw hs (by decide), hlower]

/-! ## The possessive -/

/-- A value clause begins here. -/
def OpensValue (s : Text) : Prop := ciStartsAt s 0 (text " is ") = true ∨ ciStartsAt s 0 (text " was ") = true

instance (s : Text) : Decidable (OpensValue s) := by
  unfold OpensValue
  infer_instance

theorem opensValue_word {w s : Text} (hw : IsWord w) (hs : BehindWord s) :
    OpensValue (32 :: (w ++ s)) ↔ opensClause w = true ∧ s ≠ [] := by
  rw [OpensValue, ciStartsAt_is hw hs, ciStartsAt_was hw hs, opensClause, Bool.or_eq_true, decide_eq_true_eq]
  exact or_and_right.symm

/-- The bytes that the loop of `PossessiveAttr` takes up. -/
def attrRun : Text → ℕ → Bool → Text
  | [], _, _ => []
  | c :: cs, words, inWord =>
    if c = ch '.' ∨ c = ch '!' ∨ c = ch '?' ∨ c = 10 then []
    else if c = ch ' ' then
      if OpensValue (c :: cs) then []
      else if inWord then
        if words + 1 ≥ 3 then [] else c :: attrRun cs (words + 1) false
      else c :: attrRun cs words false
    else c :: attrRun cs words true

theorem attrRun_isPrefix (s : Text) (words : ℕ) (inWord : Bool) : attrRun s words inWord <+: s := by
  induction s generalizing words inWord with
  | nil => exact List.nil_prefix
  | cons c cs ih =>
    rw [attrRun]
    repeat' split
    all_goals first
      | exact List.nil_prefix
      | exact (List.cons_prefix_cons).2 ⟨rfl, ih _ _⟩

/-- **The loop by its bytes.** -/
theorem attrEnd_run {t : Text} {k stop words : ℕ} {inWord : Bool} (hk : stop + k = t.length) :
    attrEnd t k stop words inWord = stop + (attrRun (t.drop stop) words inWord).length := by
  induction k generalizing stop words inWord with
  | zero =>
    rw [List.drop_eq_nil_of_le (by omega)]
    rfl
  | succ k ih =>
    have hlt : stop < t.length := by omega
    have hbyte : byteAt t stop = t[stop] := by simp [byteAt, hlt]
    have hnext := @ih (stop + 1)
    have hopens : (ciStartsAt t stop (text " is ") = true ∨ ciStartsAt t stop (text " was ") = true) ↔
        OpensValue (t[stop] :: t.drop (stop + 1)) := by
      simp only [OpensValue, ciStartsAt_iff, List.drop_zero, List.drop_eq_getElem_cons hlt]
    rw [attrEnd, List.drop_eq_getElem_cons hlt, attrRun, hbyte]
    by_cases hterm : t[stop] = ch '.' ∨ t[stop] = ch '!' ∨ t[stop] = ch '?' ∨ t[stop] = 10
    · rw [if_pos hterm, if_pos hterm]
      rfl
    rw [if_neg hterm, if_neg hterm]
    by_cases hblank : t[stop] = ch ' '
    · rw [if_pos hblank, if_pos hblank]
      by_cases hopen : OpensValue (t[stop] :: t.drop (stop + 1))
      · rw [if_pos hopen, if_pos (hopens.2 hopen)]
        rfl
      rw [if_neg hopen, if_neg fun h => hopen (hopens.1 h)]
      split
      · split
        · rfl
        · rw [hnext (by omega), List.length_cons]
          omega
      · rw [hnext (by omega), List.length_cons]
        omega
    · rw [if_neg hblank, if_neg hblank, hnext (by omega), List.length_cons]
      omega

/-- A word is taken up. -/
theorem attrRun_word {w : Text} (hw : IsWord w) (s : Text) (words : ℕ) (inWord : Bool) :
    attrRun (w ++ s) words inWord = w ++ attrRun s words true := by
  have hcons : ∀ c u b, c ∈ w → attrRun (c :: u) words b = c :: attrRun u words true := by
    intro c u b hc
    have hmark := hw.isMark hc
    have hblank : c ≠ ch ' ' := by
      rintro rfl
      exact hw.not_space hc
    simp only [isMark, Bool.or_eq_false_iff, decide_eq_false_iff_not] at hmark
    rw [attrRun, if_neg (by simp [hmark]), if_neg hblank]
  have htail : ∀ u : Text, u ⊆ w → attrRun (u ++ s) words true = u ++ attrRun s words true := by
    intro u hu
    induction u with
    | nil => rfl
    | cons c u ih =>
      rw [List.cons_append, hcons c _ _ (hu List.mem_cons_self), ih fun _ h => hu (List.mem_cons_of_mem _ h),
        List.cons_append]
  obtain ⟨c, u, rfl⟩ := List.exists_cons_of_ne_nil hw.ne_nil
  rw [List.cons_append, hcons c _ _ List.mem_cons_self, htail u fun _ h => List.mem_cons_of_mem _ h, List.cons_append]

/-- A clause ends the attribute. -/
theorem attrRun_of_opens {s : Text} {words : ℕ} {inWord : Bool} (h : OpensValue s) : attrRun s words inWord = [] := by
  cases s with
  | nil => rfl
  | cons c cs =>
    rw [attrRun]
    split
    · rfl
    · split
      · rfl
      · rename_i hne
        have hc : toLower c = 32 := by
          rcases h with h | h
          · rw [ciStartsAt_iff, text_is] at h
            exact ((List.cons_prefix_cons).1 h).1.symm
          · rw [ciStartsAt_iff, text_was] at h
            exact ((List.cons_prefix_cons).1 h).1.symm
        exact absurd (toLower_eq_space.1 hc) hne

/-- Words that open no clause are taken up, as many as there is room for. -/
theorem attrRun_words {pre : List Text} {s : Text} {words : ℕ} (hpre : ∀ w ∈ pre, IsWord w ∧ opensClause w = false)
    (hs : BehindWord s) (hroom : words + pre.length ≤ 2) :
    attrRun (pre.flatMap (32 :: ·) ++ s) words true = pre.flatMap (32 :: ·) ++ attrRun s (words + pre.length) true := by
  induction pre generalizing words with
  | nil => rfl
  | cons w pre ih =>
    obtain ⟨hw, hclause⟩ := hpre w List.mem_cons_self
    rw [List.length_cons] at hroom
    have hclosed : ¬OpensValue (32 :: (w ++ (pre.flatMap (32 :: ·) ++ s))) := by
      rw [opensValue_word hw (behindWord_flatMap pre hs), hclause]
      simp
    rw [List.flatMap_cons, List.append_assoc, List.cons_append, attrRun, if_neg (by decide), if_pos (by decide),
      if_neg hclosed, if_pos rfl, if_neg (by omega), attrRun_word hw,
      ih (fun u hu => hpre u (List.mem_cons_of_mem _ hu)) (by omega), List.length_cons]
    simp [Nat.add_assoc, Nat.add_comm 1]

/-- A word at the end opens no clause, and is taken up where there is room. -/
theorem attrRun_last {w : Text} {words : ℕ} (hw : IsWord w) (hroom : words + 1 ≤ 2) :
    attrRun (32 :: (w ++ [])) words true = 32 :: w := by
  have hclosed : ¬OpensValue (32 :: (w ++ [])) := by
    rw [opensValue_word hw (.inl rfl)]
    exact fun h => h.2 rfl
  rw [attrRun, if_neg (by decide), if_pos (by decide), if_neg hclosed, if_pos rfl, if_neg (by omega), attrRun_word hw,
    attrRun, List.append_nil]

/-- What may stand before a possessive: it has no "m", and no letter, digit or underscore at its end. -/
structure IsLead (lead : Text) : Prop where
  no_m : ch 'm' ∉ lead.map toLower
  not_alnum : isAlnum (byteAt lead (lead.length - 1)) = false
  not_underscore : byteAt lead (lead.length - 1) ≠ underscore

theorem isLead_nil : IsLead [] := ⟨List.not_mem_nil, rfl, nofun⟩

theorem isLead_forget : IsLead (text "forget ") := ⟨by decide, rfl, nofun⟩

/-- Behind a lead there is a "my", and its attribute begins with what is visible behind it. -/
theorem my_of_lead {lead s : Text} {c : UInt8} (hlead : IsLead lead) (hc : isSpace c = false) : isMyWord (lead ++ (text "my " ++ c :: s)) lead.length = true ∧
      attrStart (lead ++ (text "my " ++ c :: s)) lead.length = lead.length + 3 := by
  obtain ⟨t, ht⟩ : ∃ t, t = lead ++ (text "my " ++ c :: s) := ⟨_, rfl⟩
  have hlength : t.length = lead.length + 3 + (c :: s).length := by
    rw [ht, List.length_append, List.length_append, ← Nat.add_assoc]
    rfl
  have hbytes : byteAt t lead.length = ch 'm' ∧ byteAt t (lead.length + 1) = ch 'y' ∧
      byteAt t (lead.length + 2) = 32 ∧ byteAt t (lead.length + 3) = c := by
    rw [ht]
    exact ⟨byteAt_append_right lead _ 0, byteAt_append_right lead _ 1, byteAt_append_right lead _ 2,
      byteAt_append_right lead _ 3⟩
  obtain ⟨hm, hy, hspace, hbegin⟩ := hbytes
  rw [List.length_cons] at hlength
  rw [← ht]
  constructor
  · rw [isMyWord, hm, hy, hspace, if_neg, if_neg, decide_eq_true_eq]
    · exact ⟨by omega, by decide⟩
    · rintro ⟨hpos, hword⟩
      rw [ht, byteAt_append_left _ (Nat.sub_lt hpos Nat.one_pos), hlead.not_alnum] at hword
      exact hword.elim Bool.false_ne_true hlead.not_underscore
    · rintro (hend | hne | hne)
      · omega
      · exact hne (by decide)
      · exact hne (by decide)
  · refine advance_eq (by omega) (by omega) (fun k hk hlt => ?_) (by rw [hbegin, hc])
    obtain rfl : k = lead.length + 2 := by omega
    rw [hspace]
    rfl

/-- Behind a lead the possessive begins at its own "my". -/
theorem possessiveAttr_of_lead {lead s : Text} {c : UInt8} (hlead : IsLead lead) (hc : isSpace c = false) :
    (possessiveAttr (lead ++ (text "my " ++ c :: s))).1 = trimmedTo (attrRun (c :: s) 0 false) attrMax := by
  obtain ⟨hmy, hstart⟩ := my_of_lead (s := s) hlead hc
  have hlt := lt_of_isMyWord hmy
  have hfirst : firstIndex (isMyWord (lead ++ (text "my " ++ c :: s))) (lead ++ (text "my " ++ c :: s)).length 0 =
      some lead.length := by
    refine firstIndex_eq (Nat.zero_le _) (by omega) (fun j _ hj => ?_) hmy
    rw [isMyWord, if_pos]
    right
    left
    rw [byteAt_append_left _ hj]
    exact fun hm => hlead.no_m (hm ▸ List.mem_map_of_mem (byteAt_mem hj))
  have hdrop : (lead ++ (text "my " ++ c :: s)).drop (lead.length + 3) = c :: s := by
    rw [List.drop_length_add_append]
    rfl
  rw [possessiveAttr, hfirst]
  simp only
  rw [hstart, attrEnd_run (by omega), slice, List.drop_take, hdrop, Nat.add_sub_cancel_left,
    ← List.prefix_iff_eq_take.1 (attrRun_isPrefix _ _ _)]

/-! ## What the scanners keep -/

/-- A text that begins and ends without white space is kept whole by `trimmedTo` where it fits. -/
theorem trimmedTo_eq_self {s : Text} {cap : ℕ} (hhead : isSpace (byteAt s 0) = false)
    (hlast : isSpace (byteAt s (s.length - 1)) = false) (hfits : s.length < cap) : trimmedTo s cap = s := by
  have hstart : advance (fun i => isSpace (byteAt s i)) s.length 0 = 0 :=
    advance_eq le_rfl (Nat.zero_le _) (fun k _ hk => absurd hk (Nat.not_lt_zero k)) hhead
  have hstop : retreat (fun i => isSpace (byteAt s i)) s.length s.length = s.length := by
    rcases Nat.eq_zero_or_pos s.length with hzero | hpos
    · rw [hzero]
      rfl
    · have hlt : s.length - 1 < retreat (fun i => isSpace (byteAt s i)) s.length s.length :=
        lt_retreat_of_not (Nat.sub_lt hpos Nat.one_pos) hlast
      exact Nat.le_antisymm retreat_le (by omega)
  rw [trimmedTo, if_neg (by omega), hstart]
  simp only [Nat.sub_zero]
  rw [hstop, slice_self, List.take_of_length_le (by omega)]

/-- What is visible in a text is not trimmed away. -/
theorem trimmedTo_ne_nil {s : Text} {cap : ℕ} (h : ∃ c ∈ s, isSpace c = false) (hcap : 1 < cap) : trimmedTo s cap ≠ [] := by
  obtain ⟨c, hmem, hc⟩ := h
  obtain ⟨i, hi, rfl⟩ := exists_byteAt hmem
  rw [trimmedTo, if_neg (by omega)]
  simp only
  have hstart : advance (fun i => isSpace (byteAt s i)) s.length 0 ≤ i := advance_le_of_not (Nat.zero_le i) hc
  generalize advance (fun i => isSpace (byteAt s i)) s.length 0 = start at hstart ⊢
  have hstop : i < retreat (fun i => isSpace (byteAt s i)) (s.length - start) s.length := lt_retreat_of_not hi hc
  have hle : retreat (fun i => isSpace (byteAt s i)) (s.length - start) s.length ≤ s.length := retreat_le
  rw [← List.length_pos_iff, List.length_take, slice, List.length_drop, List.length_take]
  omega

/-- Words one after the other begin and end without white space. -/
theorem visible_joined {w : Text} {ws : List Text} (h : ∀ u ∈ w :: ws, IsWord u) :
    (∃ c s, joined 32 (w :: ws) = c :: s ∧ isSpace c = false) ∧
      ∃ s c, joined 32 (w :: ws) = s ++ [c] ∧ isSpace c = false := by
  have hw := h w List.mem_cons_self
  constructor
  · obtain ⟨c, s, rfl⟩ := List.exists_cons_of_ne_nil hw.ne_nil
    exact ⟨c, s ++ ws.flatMap (32 :: ·), joined_cons 32 (c :: s) ws, hw.isSpace List.mem_cons_self⟩
  · induction ws generalizing w with
    | nil =>
      refine ⟨w.dropLast, w.getLast hw.ne_nil, ?_, hw.isSpace (List.getLast_mem hw.ne_nil)⟩
      rw [joined_cons, List.flatMap_nil, List.append_nil, List.dropLast_append_getLast]
    | cons u ws ih =>
      have hrest : ∀ x ∈ u :: ws, IsWord x := fun x hx => h x (List.mem_cons_of_mem _ hx)
      obtain ⟨s, c, hjoined, hc⟩ := ih hrest (hrest u List.mem_cons_self)
      refine ⟨w ++ 32 :: s, c, ?_, hc⟩
      rw [joined_cons, List.flatMap_cons, List.cons_append, ← joined_cons, hjoined, List.append_assoc, List.cons_append]

/-- The words of a phrase are kept as they are. -/
theorem trimmedTo_joined {w : Text} {ws : List Text} {cap : ℕ} (h : ∀ u ∈ w :: ws, IsWord u)
    (hfits : (joined 32 (w :: ws)).length < cap) : trimmedTo (joined 32 (w :: ws)) cap = joined 32 (w :: ws) := by
  obtain ⟨⟨c, s, hhead, hc⟩, s', c', hlast, hc'⟩ := visible_joined h
  refine trimmedTo_eq_self ?_ ?_ hfits
  · rw [hhead]
    exact hc
  · rw [hlast, List.length_append, List.length_singleton, Nat.add_sub_cancel, ← Nat.add_zero s'.length,
      byteAt_append_right]
    exact hc'

/-- What is joined of the first words, and what is left. -/
theorem joined_append (w : Text) (pre post : List Text) :
    joined 32 (w :: (pre ++ post)) = joined 32 (w :: pre) ++ post.flatMap (32 :: ·) := by
  rw [joined_cons, joined_cons, List.flatMap_append, List.append_assoc]

/-- **The possessive of a phrase**: the words up to one that opens a clause, and what the loop takes
up of the text behind them. -/
theorem possessiveAttr_words {lead w s : Text} {pre : List Text} (hlead : IsLead lead) (hw : IsWord w)
    (hpre : ∀ u ∈ pre, IsWord u ∧ opensClause u = false) (hroom : pre.length ≤ 2) (hs : BehindWord s) :
    (possessiveAttr (lead ++ (text "my " ++ (joined 32 (w :: pre) ++ s)))).1 =
      trimmedTo (joined 32 (w :: pre) ++ attrRun s pre.length true) attrMax := by
  have hwords : ∀ u ∈ w :: pre, IsWord u := by
    rintro u (_ | ⟨_, hu⟩)
    · exact hw
    · exact (hpre u hu).1
  obtain ⟨⟨c, r, hbegin, hc⟩, -⟩ := visible_joined hwords
  have hrun : attrRun (joined 32 (w :: pre) ++ s) 0 false = joined 32 (w :: pre) ++ attrRun s pre.length true := by
    rw [joined_cons, List.append_assoc, attrRun_word hw, attrRun_words hpre hs (by omega), Nat.zero_add,
      List.append_assoc]
  rw [hbegin, List.cons_append] at hrun ⊢
  rw [possessiveAttr_of_lead hlead hc, hrun]

namespace AttrPhrase

variable (A : AttrPhrase) (p : Text → Bool) (v : Text)

theorem before_append_onward : A.before p ++ A.onward p = A.rest := List.takeWhile_append_dropWhile

/-- The phrase at a word with a property. -/
theorem written_eq : A.written = joined 32 (A.first :: A.before p) ++ (A.onward p).flatMap (32 :: ·) := by
  rw [← joined_append, before_append_onward, written]

theorem length_before : (A.before p).length ≤ 2 := (List.takeWhile_prefix _).length_le.trans A.few

theorem fits_before : (joined 32 (A.first :: A.before p)).length < attrMax := by
  have hfits : A.written.length < attrMax := A.fits
  rw [written_eq A p, List.length_append] at hfits
  omega

variable {A p}

theorem isWord_of_mem {w : Text} (h : w ∈ A.rest) : IsWord w := A.word w (List.mem_cons_of_mem _ h)

theorem of_mem_before {w : Text} (h : w ∈ A.before p) : IsWord w ∧ p w = false :=
  ⟨isWord_of_mem ((List.takeWhile_prefix _).subset h), by simpa using List.mem_takeWhile_imp h⟩

theorem words_before : ∀ w ∈ A.first :: A.before p, IsWord w := by
  rintro w (_ | ⟨_, h⟩)
  · exact A.word _ List.mem_cons_self
  · exact (of_mem_before h).1

theorem of_onward {c : Text} {more : List Text} (h : A.onward p = c :: more) : IsWord c ∧ p c = true := by
  constructor
  · exact isWord_of_mem ((List.dropWhile_suffix _).subset (h ▸ List.mem_cons_self))
  · have hhead := List.head?_dropWhile_not (fun w => !p w) A.rest
    rw [← onward, h] at hhead
    simpa using hhead

variable (A)

/-- The possessive of a turn, behind a lead. -/
theorem possessiveAttr_written {lead s : Text} (hlead : IsLead lead) (hs : BehindWord s) : (possessiveAttr (lead ++ (text "my " ++ (A.written ++ s)))).1 =
      trimmedTo (joined 32 (A.first :: A.before opensClause) ++
        attrRun ((A.onward opensClause).flatMap (32 :: ·) ++ s) (A.before opensClause).length true) attrMax := by
  rw [A.written_eq opensClause, List.append_assoc]
  exact possessiveAttr_words hlead (A.word _ List.mem_cons_self) (fun _ => of_mem_before) (A.length_before _)
    (behindWord_flatMap _ hs)

/-- The possessive of the turn that states a fact ends with the first clause. -/
theorem possessiveAttr_statement :
    (possessiveAttr (A.statement v)).1 = joined 32 (A.first :: A.before opensClause) := by
  have hclause : OpensValue ((A.onward opensClause).flatMap (32 :: ·) ++ (text " is " ++ v)) := by
    cases honward : A.onward opensClause with
    | nil =>
      left
      rw [List.flatMap_nil, List.nil_append, ciStartsAt_iff, List.drop_zero, List.map_append]
      exact List.prefix_append _ _
    | cons c more =>
      obtain ⟨hc, hopens⟩ := of_onward honward
      rw [List.flatMap_cons, List.cons_append, List.cons_append, List.append_assoc]
      refine (opensValue_word hc (behindWord_flatMap more (.inr rfl))).2 ⟨hopens, fun hnil => ?_⟩
      cases (List.append_eq_nil_iff.1 hnil).2
  have hturn : A.statement v = [] ++ (text "my " ++ (A.written ++ (text " is " ++ v))) := by
    simp only [statement, List.append_assoc, List.nil_append]
  rw [hturn, A.possessiveAttr_written isLead_nil (.inr rfl), attrRun_of_opens hclause, List.append_nil]
  exact trimmedTo_joined words_before (A.fits_before _)

/-- The possessive of the turn that retracts a fact: a word at the end opens no clause. -/
theorem possessiveAttr_retraction : (possessiveAttr A.retraction).1 =
    if (A.onward opensClause).length = 1 then A.written else joined 32 (A.first :: A.before opensClause) := by
  have hturn : A.retraction = text "forget " ++ (text "my " ++ (A.written ++ [])) := by
    have htext : text "forget my " = text "forget " ++ text "my " := rfl
    rw [retraction, htext, List.append_assoc, List.append_nil]
  rw [hturn, A.possessiveAttr_written isLead_forget (.inl rfl), List.append_nil]
  have hbefore := trimmedTo_joined (words_before (A := A) (p := opensClause)) (A.fits_before _)
  match honward : A.onward opensClause with
  | [] =>
    rw [if_neg (by simp), List.flatMap_nil, attrRun, List.append_nil, hbefore]
  | [c] =>
    obtain ⟨hc, -⟩ := of_onward honward
    have hroom : (A.before opensClause).length + 1 ≤ 2 := by
      have hlength := congrArg List.length (A.before_append_onward opensClause)
      have hfew := A.few
      rw [honward, List.length_append, List.length_singleton] at hlength
      omega
    have hsingle : [c].flatMap ((32 : UInt8) :: ·) = 32 :: (c ++ []) := List.flatMap_cons
    have hwritten := A.written_eq opensClause
    rw [honward, hsingle, List.append_nil] at hwritten
    rw [if_pos List.length_singleton, hsingle, attrRun_last hc hroom, ← hwritten]
    exact trimmedTo_joined A.word A.fits
  | c :: u :: more =>
    obtain ⟨hc, hopens⟩ := of_onward honward
    have hclause : OpensValue (32 :: (c ++ (u :: more).flatMap (32 :: ·))) := by
      refine (opensValue_word hc (.inr rfl)).2 ⟨hopens, fun hnil => ?_⟩
      cases hnil
    rw [if_neg (by simp), List.flatMap_cons, List.cons_append, attrRun_of_opens hclause, List.append_nil, hbefore]

end AttrPhrase

/-! ## The extractor -/

/-- No " is " begins at a byte that is not a space. -/
theorem ciStartsAt_of_not_space {t : Text} {j : ℕ} (h : byteAt t j ≠ 32) : ciStartsAt t j (text " is ") = false := by
  rw [Bool.eq_false_iff]
  intro hstarts
  exact h (toLower_eq_space.1 (separator_bytes hstarts).2.1)

theorem joined_cons_cons (w u : Text) (ws : List Text) :
    joined 32 (w :: u :: ws) = w ++ 32 :: joined 32 (u :: ws) := by
  rw [joined_cons, joined_cons, List.flatMap_cons, List.cons_append]

/-- No " is " begins inside of words that are not "is". -/
theorem ciStartsAt_inside {w s : Text} {pre : List Text} (hw : IsWord w) (hpre : ∀ u ∈ pre, IsWord u ∧ isIs u = false)
    (hs : BehindWord s) {j : ℕ} (hj : j < (joined 32 (w :: pre)).length) :
    ciStartsAt (joined 32 (w :: pre) ++ s) j (text " is ") = false := by
  have hword : ∀ (w r : Text) (i : ℕ), IsWord w → i < w.length → ciStartsAt (w ++ r) i (text " is ") = false := by
    intro w r i hw hi
    refine ciStartsAt_of_not_space fun hspace => ?_
    rw [byteAt_append_left r hi] at hspace
    exact hw.not_space (hspace ▸ byteAt_mem hi)
  induction pre generalizing w j with
  | nil =>
    rw [joined_cons, List.flatMap_nil, List.append_nil] at hj ⊢
    exact hword w s j hw hj
  | cons u pre ih =>
    obtain ⟨hu, his⟩ := hpre u List.mem_cons_self
    rw [joined_cons_cons, List.length_append, List.length_cons] at hj
    rw [joined_cons_cons, List.append_assoc, List.cons_append]
    rcases Nat.lt_or_ge j w.length with hlt | hge
    · exact hword w _ j hw hlt
    obtain ⟨i, rfl⟩ := Nat.exists_eq_add_of_le hge
    rw [ciStartsAt_append]
    cases i with
    | zero =>
      -- the space in front of the next word
      rw [Bool.eq_false_iff, joined_cons, List.append_assoc, Ne, ciStartsAt_is hu (behindWord_flatMap pre hs), his]
      exact fun h => Bool.false_ne_true h.1
    | succ i =>
      have hcons : ciStartsAt (32 :: (joined 32 (u :: pre) ++ s)) (i + 1) (text " is ") =
          ciStartsAt (joined 32 (u :: pre) ++ s) i (text " is ") := by
        rw [Nat.add_comm]
        exact ciStartsAt_append [32] _ _ i
      rw [hcons]
      exact ih hu (fun x hx => hpre x (List.mem_cons_of_mem _ hx)) (by omega)

theorem mem_joined {c : UInt8} {ws : List Text} (h : c ∈ joined 32 ws) : c = 32 ∨ ∃ w ∈ ws, c ∈ w := by
  cases ws with
  | nil => cases h
  | cons w ws =>
    rw [joined_cons] at h
    rcases List.mem_append.1 h with h | h
    · exact .inr ⟨w, List.mem_cons_self, h⟩
    · obtain ⟨u, hu, hc⟩ := List.mem_flatMap.1 h
      rcases List.mem_cons.1 hc with rfl | hc
      · exact .inl rfl
      · exact .inr ⟨u, List.mem_cons_of_mem _ hu, hc⟩

/-- Whether a sentence ends at a byte depends on what follows it alone. -/
theorem inValue_append (s u : Text) (j : ℕ) : inValue (s ++ u) (s.length + j) = inValue u j := by
  simp only [inValue, Nat.add_assoc, byteAt_append_right, List.length_append, Nat.add_left_cancel_iff]

theorem byteAt_mem_slice {t : Text} {i j k : ℕ} (hij : i ≤ j) (hjk : j < k) (hj : j < t.length) :
    byteAt t j ∈ slice t i k := by
  rw [byteAt, List.getD_eq_getElem _ _ hj, slice, List.mem_iff_getElem]
  refine ⟨j - i, by simp; omega, ?_⟩
  simp only [List.getElem_drop, List.getElem_take]
  congr 1
  omega

namespace AttrPhrase

variable (A : AttrPhrase) (v : Text)

/-- Where the separator of a statement is. -/
def isAt : ℕ := 3 + (joined 32 (A.first :: A.before isIs)).length

/-- What follows the words up to the first "is". -/
def behindIs : Text := (A.onward isIs).flatMap (32 :: ·) ++ (text " is " ++ v)

theorem behindWord_behindIs : BehindWord (A.behindIs v) := behindWord_flatMap _ (.inr rfl)

theorem statement_eq : A.statement v = text "my " ++ (joined 32 (A.first :: A.before isIs) ++ A.behindIs v) := by
  simp only [statement, behindIs, A.written_eq isIs, List.append_assoc]

theorem starts_behindIs : ciStartsAt (A.behindIs v) 0 (text " is ") = true := by
  rw [behindIs]
  cases honward : A.onward isIs with
  | nil =>
    rw [List.flatMap_nil, List.nil_append, ciStartsAt_iff, List.drop_zero, List.map_append]
    exact List.prefix_append _ _
  | cons c more =>
    obtain ⟨hc, his⟩ := of_onward honward
    rw [List.flatMap_cons, List.cons_append, List.cons_append, List.append_assoc]
    refine (ciStartsAt_is hc (behindWord_flatMap more (.inr rfl))).2 ⟨his, fun hnil => ?_⟩
    cases (List.append_eq_nil_iff.1 hnil).2

/-- The statement begins with a "my", and the attribute with the phrase. -/
theorem my_statement : isMyWord (A.statement v) 0 = true ∧ attrStart (A.statement v) 0 = 3 := by
  obtain ⟨⟨c, r, hbegin, hc⟩, -⟩ := visible_joined A.word
  have hturn : A.statement v = text "my " ++ c :: (r ++ (text " is " ++ v)) := by
    rw [statement, written, hbegin]
    simp only [List.append_assoc, List.cons_append]
  rw [hturn, ← List.nil_append (text "my " ++ _)]
  exact my_of_lead isLead_nil hc

/-- **The separator of a statement** stands behind the words up to the first "is". -/
theorem separator_statement : separator (A.statement v) 0 = some A.isAt := by
  have hstart := (A.my_statement v).2
  have hstarts : ciStartsAt (A.statement v) A.isAt (text " is ") = true := by
    rw [statement_eq, isAt, show 3 = (text "my ").length from rfl, ciStartsAt_append,
      ← Nat.add_zero (joined 32 (A.first :: A.before isIs)).length, ciStartsAt_append]
    exact A.starts_behindIs v
  have hlt := (separator_bytes hstarts).1
  have hle : 3 ≤ A.isAt := Nat.le_add_right _ _
  have hneedle : (text " is ").length = 4 := rfl
  rw [separator, hstart, ciFind, if_neg (by omega), if_neg (by decide)]
  refine firstIndex_eq hle (by omega) (fun j hj hlt => ?_) hstarts
  obtain ⟨i, rfl⟩ := Nat.exists_eq_add_of_le hj
  rw [statement_eq, show 3 = (text "my ").length from rfl, ciStartsAt_append]
  refine ciStartsAt_inside (A.word _ List.mem_cons_self) (fun _ => of_mem_before) (A.behindWord_behindIs v) ?_
  rw [isAt] at hlt
  omega

/-- What is stored: the words up to the first "is". -/
theorem attrOf_statement : attrOf (A.statement v) 0 A.isAt = joined 32 (A.first :: A.before isIs) := by
  have hslice : slice (A.statement v) 3 A.isAt = joined 32 (A.first :: A.before isIs) := by
    have hwhole := slice_prefix (joined 32 (A.first :: A.before isIs)) (A.behindIs v)
    rw [statement_eq, isAt]
    exact (slice_append_right (text "my ") _ 0 _).trans hwhole
  rw [attrOf, (A.my_statement v).2, hslice]
  exact trimmedTo_joined words_before (A.fits_before _)

/-! ## The value -/

/-- The bytes before the value end no sentence. -/
theorem inValue_of_lead {t : Text} {j : ℕ} (h : byteAt t j ∈ text "my " ++ A.written ++ text " is ") :
    inValue t j = true := by
  have hmy : (text "my ").all (fun c => !isMark c) = true := rfl
  have his : (text " is ").all (fun c => !isMark c) = true := rfl
  have hclean : isMark (byteAt t j) = false := by
    rcases List.mem_append.1 h with h | h
    · rcases List.mem_append.1 h with h | h
      · simpa using List.all_eq_true.1 hmy _ h
      · rcases mem_joined h with hspace | ⟨w, hw, hc⟩
        · rw [hspace]
          rfl
        · exact (A.word w hw).isMark hc
    · simpa using List.all_eq_true.1 his _ h
  simp only [isMark, Bool.or_eq_false_iff, decide_eq_false_iff_not] at hclean
  simp [inValue, hclean]

/-- Something of the value is visible. -/
theorem value_statement {v : Text} (hv : Accepted v) : valueOf (A.statement v) A.isAt ≠ [] := by
  obtain ⟨j, hj, hvisible⟩ := hv
  have hjv : j < v.length := by
    have hle : valueEnd v 0 ≤ 0 + (v.length - 0) := advance_le
    omega
  have hsplit : A.statement v = (text "my " ++ A.written ++ text " is ") ++ v := rfl
  have hlead : A.isAt + 4 ≤ (text "my " ++ A.written ++ text " is ").length := by
    have hwritten := congrArg List.length (A.written_eq isIs)
    have hmy : (text "my ").length = 3 := rfl
    have his : (text " is ").length = 4 := rfl
    rw [List.length_append] at hwritten
    rw [List.length_append, List.length_append, isAt]
    omega
  rw [hsplit]
  generalize hQ : text "my " ++ A.written ++ text " is " = lead at hlead
  have hinside : ∀ k, A.isAt + 4 ≤ k → k ≤ lead.length + j → inValue (lead ++ v) k = true := by
    intro k _ hk
    rcases Nat.lt_or_ge k lead.length with hlt | hge
    · apply A.inValue_of_lead
      rw [hQ, byteAt_append_left v hlt]
      exact byteAt_mem hlt
    · obtain ⟨i, rfl⟩ := Nat.exists_eq_add_of_le hge
      rw [inValue_append]
      have hle : i ≤ j := by omega
      exact advance_passed (Nat.zero_le i) (hle.trans_lt hj)
  have hend : lead.length + j < valueEnd (lead ++ v) (A.isAt + 4) := by
    apply lt_advance hinside (by omega)
    rw [List.length_append]
    omega
  refine trimmedTo_ne_nil ⟨byteAt v j, ?_, hvisible⟩ (by decide)
  rw [← byteAt_append_right lead v j]
  exact byteAt_mem_slice (by omega) hend (by rw [List.length_append]; omega)

/-- **What is extracted from a statement**: first of all a triple with the words up to the first "is"
for its relation, if they make one. -/
theorem yields_statement {v : Text} (hv : Accepted v) : yields (A.statement v) 0 A.isAt =
    decide (normalizeRelType (joined 32 (A.first :: A.before isIs)) ≠ []) := by
  obtain ⟨⟨c, s, hbegin, -⟩, -⟩ := visible_joined (words_before (A := A) (p := isIs))
  rw [yields, A.attrOf_statement v, decide_eq_decide]
  refine ⟨fun h => h.2.2, fun h => ⟨?_, A.value_statement hv, h⟩⟩
  rw [hbegin]
  exact List.cons_ne_nil c s

/-- The first triple of a statement. -/
theorem head_extractPatterns_statement {v : Text} (hv : Accepted v) {max : ℕ} (hmax : 0 < max)
    (hrel : normalizeRelType (joined 32 (A.first :: A.before isIs)) ≠ []) :
    (extractPatterns (A.statement v) max).head?.map (·.relType) =
      some (normalizeRelType (joined 32 (A.first :: A.before isIs))) := by
  obtain ⟨hmy, -⟩ := A.my_statement v
  have hlt := lt_of_isMyWord hmy
  obtain ⟨k, hk⟩ : ∃ k, (A.statement v).length = k + 1 := ⟨(A.statement v).length - 1, by omega⟩
  have hyields : yields (A.statement v) 0 A.isAt = true := by
    rw [A.yields_statement hv, decide_eq_true hrel]
  have hspans : (extractSpans (A.statement v) max).head? = some (0, A.isAt) := by
    rw [extractSpans, hk, spanLoop, if_pos ⟨by omega, hmax⟩, hmy, Bool.not_true, if_neg Bool.false_ne_true,
      A.separator_statement v]
    simp only
    rw [if_pos hyields, List.head?_cons]
  rw [extractPatterns_spans, List.head?_map, hspans, Option.map_some, Option.map_some, tripleOf, A.attrOf_statement v]

/-! ## What a retraction names -/

/-- More words make another phrase. -/
theorem joined_append_eq_iff {w : Text} {pre post : List Text} :
    joined 32 (w :: (pre ++ post)) = joined 32 (w :: pre) ↔ post = [] := by
  rw [joined_append, List.append_right_eq_self]
  cases post with
  | nil => simp
  | cons u post => simp

/-- The words up to the first "is" are those up to the first clause, and the words from there up to
the first "is". -/
theorem before_isIs : A.before isIs = A.before opensClause ++ (A.onward opensClause).takeWhile (fun w => !isIs w) := by
  have hnot : ∀ w ∈ A.before opensClause, (!isIs w) = true := by
    intro w hw
    have hclause := (of_mem_before hw).2
    rw [opensClause, Bool.or_eq_false_iff] at hclause
    rw [hclause.1]
    rfl
  rw [before, ← A.before_append_onward opensClause, List.takeWhile_append_of_pos hnot]

/-- **When the attributes are one**: what is stored and both possessives are the same exactly where
the first clause of the phrase is an " is ". -/
theorem attributes_agree_iff : (attrOf (A.statement v) 0 A.isAt = (possessiveAttr A.retraction).1 ∧
    (possessiveAttr (A.statement v)).1 = (possessiveAttr A.retraction).1) ↔ A.Agrees := by
  rw [attrOf_statement, possessiveAttr_statement, possessiveAttr_retraction, before_isIs, Agrees]
  match honward : A.onward opensClause with
  | [] => simp
  | [c] =>
    have hwritten : A.written = joined 32 (A.first :: (A.before opensClause ++ [c])) := by
      rw [← honward, before_append_onward, written]
    rw [if_pos List.length_singleton, hwritten, eq_comm (a := joined 32 (A.first :: A.before opensClause)),
      joined_append_eq_iff]
    simp
  | c :: u :: more =>
    rw [if_neg (by simp), joined_append_eq_iff, List.takeWhile_cons]
    cases his : isIs c <;> simp [his]

/-- **A retraction names what was stored**, where the first clause of the phrase is an " is ". -/
theorem retraction_names_stored (hA : A.Agrees) {v : Text} (hv : Accepted v) : A.NamesStored v := by
  obtain ⟨hstored, hrestated⟩ := (A.attributes_agree_iff v).2 hA
  have hretracted : A.retracted = normalizeRelType (joined 32 (A.first :: A.before isIs)) := by
    rw [retracted, ← hstored, attrOf_statement]
  constructor
  · rw [hrestated, retracted]
  · intro hne max hmax
    rw [hretracted] at hne ⊢
    exact A.head_extractPatterns_statement hv hmax hne
  · intro hnone max isPos hmem
    obtain ⟨-, -, hsep, hyields⟩ := mem_extractSpans_iff.1 ⟨max, hmem⟩
    rw [A.separator_statement v, Option.some.injEq] at hsep
    rw [← hsep, A.yields_statement hv, ← hretracted, hnone] at hyields
    cases hyields

end AttrPhrase

/-- "my favorite color is …". -/
def favoriteColor : AttrPhrase where
  first := text "favorite"
  rest := [text "color"]
  few := Nat.le_succ 1
  word := by
    intro w hw
    obtain rfl | rfl : w = text "favorite" ∨ w = text "color" := by simpa using hw
    · exact ⟨nofun, rfl, rfl⟩
    · exact ⟨nofun, rfl, rfl⟩
  fits := by decide

/-- A color that is retracted by its name. -/
theorem favoriteColor_named : favoriteColor.NamesStored (text "deep blue") := by
  have hnone : favoriteColor.onward opensClause = [] := by decide
  refine AttrPhrase.retraction_names_stored favoriteColor ?_ ⟨0, by decide, by decide⟩
  rw [AttrPhrase.Agrees, hnone]
  trivial

/-- "my car was red is …". -/
def carWasRed : AttrPhrase where
  first := text "car"
  rest := [text "was", text "red"]
  few := Nat.le_refl 2
  word := by
    intro w hw
    obtain rfl | rfl | rfl : w = text "car" ∨ w = text "was" ∨ w = text "red" := by simpa using hw
    · exact ⟨nofun, rfl, rfl⟩
    · exact ⟨nofun, rfl, rfl⟩
    · exact ⟨nofun, rfl, rfl⟩
  fits := by decide

/-- What is stored of "my car was red is so" is a car_was_red; what "forget my car was red" names is a car. -/
theorem car_was_red_kept : ¬∀ (A : AttrPhrase) (v : Text), Accepted v → A.NamesStored v := by
  intro h
  have hnames := h carWasRed (text "so") ⟨0, by decide, by decide⟩
  have hretracted : carWasRed.retracted = text "car" := by decide
  have hstored : (extractPatterns (carWasRed.statement (text "so")) 1).head?.map (·.relType) = some (text "car_was_red") := by
    decide
  have hfirst := hnames.stored (by rw [hretracted]; decide) 1 Nat.one_pos
  rw [hstored, hretracted] at hfirst
  exact absurd hfirst (by decide)

end AimeeMemory.Module
