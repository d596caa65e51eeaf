import AimeeMemory.Context.SectionTurn

/-!
# The books of the negative context

The negative context remembers the outdated memories that it shows in twelve places and the
patterns in four, of 255 bytes each. One limit of six items is for both: the patterns keep
to their places iff two memories were outdated or the tokens of the hint call up no more
than four, and none is shown twice iff no longer one is called up twice.
-/

namespace AimeeMemory.Context

open AimeeMemory.Core AimeeMemory.Lib

variable {R : Type*}

/-- The bytes of a pattern that are remembered. -/
def seenPatternLen : ℕ := 255

/-- The pattern that a token calls up beside those remembered. -/
def callsUp (w : World R) (seen : List Text) (token : Text) : Option (AntiPattern R) :=
  (w.antiPatterns.take 64).find? fun p => p.concerns token ∧ p.pattern ∉ seen

/-- The patterns that the tokens of the hint call up, where no limit stops the loop. -/
def calledUp (w : World R) : List Text → List Text → List (AntiPattern R)
  | _, [] => []
  | seen, token :: tokens =>
    if token.length < 4 then calledUp w seen tokens
    else
      match callsUp w seen token with
      | none => calledUp w seen tokens
      | some p => p :: calledUp w (seen ++ [p.pattern.take seenPatternLen]) tokens

def hintTokens (b : Build R) (hint : Text) : List Text := contextSplitTokens ((b.normalizeKey hint).take 255) 16

/-- The outdated memories that the block shows: none without a hint and candidates. -/
def outdatedShown (w : World R) (hint : Text) (cands : List (Candidate R)) : List (SupersedePair R) :=
  if hint = [] ∨ cands = [] then [] else supersededPairs w cands

/-- The anti-patterns that the block shows. -/
def patternsShown (b : Build R) (w : World R) (hint : Text) (cands : List (Candidate R)) : List (AntiPattern R) :=
  if hint = [] ∨ cands = [] then [] else antiPatternLoop w (supersededPairs w cands).length [] (hintTokens b hint)

/-- The block writes what it shows, the outdated memories first. -/
theorem appendNegativeContextBlock_eq [ScoreArith R] (b : Build R) (w : World R) (hint : Text) (cands : List (Candidate R)) :
    appendNegativeContextBlock b w hint cands =
      let lines := (outdatedShown w hint cands).map (supersededLines b) ++
        (patternsShown b w hint cands).map (antiPatternLine b)
      if hint = [] ∨ cands = [] then []
      else if lines = [] then [.unlessFull [text "\n<avoid_these_patterns>\n"] false]
      else [.unlessFull (text "\n<avoid_these_patterns>\n" :: lines ++ [text "</avoid_these_patterns>\n"]) true] := by
  rw [appendNegativeContextBlock, outdatedShown, patternsShown]
  split
  · rfl
  · rfl

/-- Each place that the block writes and looks at is one of its array, and what it shows it shows once. -/
structure BooksKept (b : Build R) (w : World R) (hint : Text) (cands : List (Candidate R)) : Prop where
  seen_old : (outdatedShown w hint cands).length ≤ 12
  seen_pattern : (patternsShown b w hint cands).length ≤ 4
  outdated_once : ((outdatedShown w hint cands).map (·.oldId)).Nodup
  pattern_once : ((patternsShown b w hint cands).map (·.pattern)).Nodup

/-! ## Outdated memories -/

variable {w : World R} {seen tokens : List Text} {ps : List (AntiPattern R)}

/-- At most four pairs are found, each of another memory. -/
theorem supersededPairs_once (w : World R) (cands : List (Candidate R)) :
    (supersededPairs w cands).length ≤ 4 ∧ ((supersededPairs w cands).map (·.oldId)).Nodup := by
  unfold supersededPairs
  apply List.foldlRecOn (motive := fun pairs : List (SupersedePair R) =>
    pairs.length ≤ 4 ∧ (pairs.map (·.oldId)).Nodup) _ _ ⟨by simp, by simp⟩
  rintro pairs ⟨hlength, hnodup⟩ c -
  split
  · exact ⟨hlength, hnodup⟩
  · rename_i pair _
    split
    · exact ⟨hlength, hnodup⟩
    · rename_i hnew
      obtain ⟨hfour, hold, -⟩ : ¬ 4 ≤ pairs.length ∧ ¬ pairs.any (·.oldId = pair.oldId) ∧ ¬ 12 ≤ pairs.length := by
        simpa only [not_or] using hnew
      rw [List.length_append, List.length_singleton, List.map_append]
      refine ⟨by omega, hnodup.append (List.nodup_singleton _) fun id hid hnewid => hold ?_⟩
      obtain ⟨q, hq, rfl⟩ := List.mem_map.1 hid
      exact List.any_eq_true.2 ⟨q, hq, decide_eq_true (List.mem_singleton.1 hnewid)⟩

/-! ## Patterns -/

/-- The loop with its limit takes the first of those called up. -/
theorem antiPatternLoop_eq (w : World R) (items : ℕ) (seen tokens : List Text) :
    antiPatternLoop w items seen tokens = (calledUp w seen tokens).take (6 - (items + seen.length)) := by
  induction tokens generalizing seen with
  | nil => simp [antiPatternLoop, calledUp]
  | cons token tokens ih =>
    have hloop : antiPatternLoop w items seen (token :: tokens) =
        if 6 ≤ items + seen.length then []
        else if token.length < 4 then antiPatternLoop w items seen tokens
        else
          match callsUp w seen token with
          | none => antiPatternLoop w items seen tokens
          | some p => p :: antiPatternLoop w items (seen ++ [p.pattern.take 255]) tokens := rfl
    rw [hloop, calledUp]
    by_cases hfull : 6 ≤ items + seen.length
    · rw [if_pos hfull, Nat.sub_eq_zero_of_le hfull, List.take_zero]
    · rw [if_neg hfull]
      by_cases hshort : token.length < 4
      · rw [if_pos hshort, if_pos hshort]
        exact ih seen
      · rw [if_neg hshort, if_neg hshort]
        cases callsUp w seen token with
        | none => exact ih seen
        | some p =>
          have hroom : 6 - (items + seen.length) = 6 - (items + (seen ++ [p.pattern.take 255]).length) + 1 := by
            rw [List.length_append, List.length_singleton]
            omega
          rw [hroom, List.take_succ_cons]
          exact congrArg (p :: ·) (ih _)

theorem notMem_seen_of_callsUp {token : Text} {p : AntiPattern R} (h : callsUp w seen token = some p) :
    p.pattern ∉ seen := by
  rw [callsUp] at h
  have hp := List.find?_some h
  exact (of_decide_eq_true hp).2

/-- No pattern is called up that is remembered. -/
theorem notMem_seen_of_mem_calledUp {p : AntiPattern R} (hp : p ∈ calledUp w seen tokens) : p.pattern ∉ seen := by
  induction tokens generalizing seen with
  | nil => cases hp
  | cons token tokens ih =>
    rw [calledUp] at hp
    split at hp
    · exact ih hp
    · split at hp
      · exact ih hp
      · rename_i q hfind
        rcases List.mem_cons.1 hp with rfl | hp
        · exact notMem_seen_of_callsUp hfind
        · exact fun hmem => ih hp (List.mem_append_left _ hmem)

/-- No pattern is called up that reads as what is remembered of one before it. -/
theorem calledUp_pairwise (w : World R) (seen tokens : List Text) :
    (calledUp w seen tokens).Pairwise fun p q => q.pattern ≠ p.pattern.take seenPatternLen := by
  induction tokens generalizing seen with
  | nil => exact List.Pairwise.nil
  | cons token tokens ih =>
    rw [calledUp]
    split
    · exact ih seen
    · split
      · exact ih seen
      · refine List.Pairwise.cons (fun q hq heq => ?_) (ih _)
        exact notMem_seen_of_mem_calledUp hq (heq ▸ List.mem_append_right seen (List.mem_singleton_self _))

/-- Patterns of which the remembered part is told apart are shown once iff those longer than that are. -/
theorem nodup_patterns_iff (h : ps.Pairwise fun p q => q.pattern ≠ p.pattern.take seenPatternLen) :
    (ps.map (·.pattern)).Nodup ↔ ((ps.filter fun p => seenPatternLen < p.pattern.length).map (·.pattern)).Nodup := by
  refine ⟨fun hnodup => hnodup.sublist (List.filter_sublist.map _), fun hlong => ?_⟩
  rw [List.Nodup, List.pairwise_map, List.pairwise_filter] at hlong
  rw [List.Nodup, List.pairwise_map]
  refine (h.and hlong).imp fun {p q} hpq heq => ?_
  by_cases hp : seenPatternLen < p.pattern.length
  · exact hpq.2 (decide_eq_true hp) (decide_eq_true (heq ▸ hp)) heq
  · exact hpq.1 (by rw [List.take_of_length_le (Nat.le_of_not_lt hp), heq])

/-! ## The books -/

/-- Two memories were outdated or at most four patterns are called up, and of those that the block gets to, none of more
than 255 bytes is called up twice. -/
structure PlacesFor (b : Build R) (w : World R) (hint : Text) (cands : List (Candidate R)) : Prop where
  enough : 2 ≤ (supersededPairs w cands).length ∨ (calledUp w [] (hintTokens b hint)).length ≤ 4
  long_once : ((((calledUp w [] (hintTokens b hint)).take (6 - (supersededPairs w cands).length)).filter
    fun p => seenPatternLen < p.pattern.length).map (·.pattern)).Nodup

/-- **The block keeps its books, whatever candidates it is given, iff it shows nothing at all or there are places for the
patterns.** -/
theorem booksKept_iff (b : Build R) (w : World R) (hint : Text) (cands : List (Candidate R)) :
    BooksKept b w hint cands ↔ hint = [] ∨ cands = [] ∨ PlacesFor b w hint cands := by
  rw [← or_assoc]
  by_cases hnothing : hint = [] ∨ cands = []
  · refine iff_of_true ?_ (.inl hnothing)
    have hold : outdatedShown w hint cands = [] := if_pos hnothing
    have hpatterns : patternsShown b w hint cands = [] := if_pos hnothing
    exact ⟨by simp [hold], by simp [hpatterns], by simp [hold], by simp [hpatterns]⟩
  · rw [or_iff_right hnothing]
    obtain ⟨hfour, honce⟩ := supersededPairs_once w cands
    have hold : outdatedShown w hint cands = supersededPairs w cands := if_neg hnothing
    have hpatterns : patternsShown b w hint cands =
        (calledUp w [] (hintTokens b hint)).take (6 - (supersededPairs w cands).length) := by
      rw [patternsShown, if_neg hnothing, antiPatternLoop_eq]
      rfl
    have hlength : (patternsShown b w hint cands).length ≤ 4 ↔
        2 ≤ (supersededPairs w cands).length ∨ (calledUp w [] (hintTokens b hint)).length ≤ 4 := by
      rw [hpatterns, List.length_take]
      omega
    have hnodup := nodup_patterns_iff (List.Pairwise.sublist
      (List.take_sublist (6 - (supersededPairs w cands).length) _) (calledUp_pairwise w [] (hintTokens b hint)))
    rw [← hpatterns] at hnodup
    constructor
    · intro h
      exact ⟨hlength.1 h.seen_pattern, hpatterns ▸ hnodup.1 h.pattern_once⟩
    · rintro ⟨henough, hlong⟩
      refine ⟨?_, hlength.2 henough, ?_, hnodup.2 (hpatterns ▸ hlong)⟩
      · rw [hold]
        omega
      · rw [hold]
        exact honce

/-- A catalogue of these patterns, without descriptions. -/
def catalogue (patterns : List Text) : World ℚ where
  __ := bareWorld
  antiPatterns := patterns.map fun pattern => ⟨pattern, [], 0.9⟩

def someCandidate : Candidate ℚ :=
  ⟨1, text "L2", text "deploy", text "Deploy from staging.", text "fact", 0.9, 0, text "global", 1, 2, 0.5, 0.1, 7⟩

def fivePatterns : World ℚ :=
  catalogue [text "deploy by hand", text "review alone", text "after hours", text "midnight run", text "friday release"]

/-- One of 264 bytes. -/
def longPattern : World ℚ := catalogue [text "deploy review " ++ List.replicate 250 46]

/-- Five tokens call up five patterns, for four places; and two tokens show the long pattern twice. -/
theorem books_notKept :
    ¬ BooksKept sampleBuild fivePatterns (text "deploy review after midnight friday") [someCandidate] ∧
      ¬ BooksKept sampleBuild longPattern (text "deploy review") [someCandidate] := by
  constructor
  · intro h
    exact absurd h.seen_pattern (by decide +kernel)
  · intro h
    exact absurd h.pattern_once (by decide +kernel)

end AimeeMemory.Context
