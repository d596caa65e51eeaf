import AimeeMemory.Core.Gate
import AimeeMemory.Lib.Loop
import AimeeMemory.Lib.Scan
import Mathlib.Data.List.Chain

/-!
# The chunks of a memory

`memory_refresh_chunks` cuts a content into windows of 200 characters, at a sentence's end
where there is one, and steps back by 40 from each cut. It stores the windows, without the
blanks at their ends, until there are eight.

## What is proved

* **`chunked_iff`**: the loop comes to an end with chunks that advance, and that cover the
  content up to the last of them, exactly when in each turn the step back leads past the
  window's start; where the end of a chunk is that of its text, when in addition each window
  has something behind the text of the last chunk.
* `advances_of_breaks`: this is so where sentences are not far apart.
* `blanks_never_end`: a content whose loop is never left.
-/

namespace AimeeMemory.Core

open AimeeMemory.Lib

def chunkChars : ℕ := 200
def overlapChars : ℕ := 40
def maxChunks : ℕ := 8

/-- The punctuation to break at: `. ! ? ;` and the newline. -/
def isSentenceBreak (c : UInt8) : Bool := c = 46 || c = 33 || c = 63 || c = 59 || c = 10

def sentenceBreakAt (content : Text) (i : ℕ) : Bool := isSentenceBreak (content.getD i 0)

def spaceAt (content : Text) (i : ℕ) : Bool := isspace (content.getD i 0)

/-- Where the window from `pos` on is cut. -/
def breakAt (content : Text) (pos : ℕ) : ℕ :=
  let stop := if content.length ≤ pos + chunkChars then content.length else pos + chunkChars
  let found := retreat (fun i => !sentenceBreakAt content i) (stop - pos) stop
  if stop < content.length ∧ pos < found then found else stop

/-- The end of the window's text: the window holds 511 characters, and loses the blanks at its end. -/
def trimmedEnd (content : Text) (pos cut : ℕ) : ℕ :=
  retreat (spaceAt content) (min (cut - pos) 511) (pos + min (cut - pos) 511)

/-- Where the next window starts. -/
def nextPos (cut : ℕ) : ℕ :=
  let pos := if overlapChars < cut then cut - overlapChars else 0
  if pos ≤ (if chunkChars < cut then cut - chunkChars else 0) then cut else pos

/-- A stored chunk, with the places that it was cut at. -/
structure Chunk where
  start : ℕ
  cut : ℕ
  text : Text
  deriving DecidableEq, Repr

/-- The end of a chunk's text. -/
def Chunk.textEnd (c : Chunk) : ℕ := c.start + c.text.length

def chunkOf (content : Text) (pos cut : ℕ) : Chunk :=
  ⟨pos, cut, (content.drop pos).take (trimmedEnd content pos cut - pos)⟩

/-- The position in the content, and the chunks stored so far. -/
structure ChunkState where
  pos : ℕ
  chunks : List Chunk
  deriving DecidableEq, Repr

/-- The chunks with a window's, unless that is blank. -/
def addChunk (content : Text) (pos cut : ℕ) (chunks : List Chunk) : List Chunk :=
  if (chunkOf content pos cut).text = [] then chunks else chunks ++ [chunkOf content pos cut]

/-- The body of the loop. -/
def chunkBody (content : Text) (s : ChunkState) : ChunkState ⊕ List Chunk :=
  if s.pos < content.length ∧ s.chunks.length < maxChunks then
    let cut := breakAt content s.pos
    if cut - s.pos = 0 then .inr s.chunks
    else
      let chunks := addChunk content s.pos cut s.chunks
      if content.length ≤ cut then .inr chunks else .inl ⟨nextPos cut, chunks⟩
  else .inr s.chunks

/-- `memory_refresh_chunks`: the chunks that are stored, in the order of their index. -/
def memoryRefreshChunks (fuel : ℕ) (content : Text) : Option (List Chunk) :=
  if content = [] then some []
  else (loop (chunkBody content) fuel ⟨0, []⟩).map fun chunks =>
    if chunks = [] then [⟨0, content.length, content⟩] else chunks

/-! ## Windows -/

variable {content : Text} {pos cut last : ℕ}

/-- Where a window is cut: at the end of the content; at the last sentence's end in it; or behind 200 characters without
one. -/
theorem breakAt_spec (content : Text) (pos : ℕ) :
    (content.length ≤ pos + 200 ∧ breakAt content pos = content.length) ∨
      (pos + 200 < content.length ∧ pos < breakAt content pos ∧ breakAt content pos ≤ pos + 200 ∧
        (∀ i, breakAt content pos ≤ i → i < pos + 200 → sentenceBreakAt content i = false) ∧
        (sentenceBreakAt content (breakAt content pos - 1) = true ∨
          breakAt content pos = pos + 200 ∧ ∀ i, pos ≤ i → i < pos + 200 → sentenceBreakAt content i = false)) := by
  have hdef : breakAt content pos =
      let stop := if content.length ≤ pos + 200 then content.length else pos + 200
      let found := retreat (fun i => !sentenceBreakAt content i) (stop - pos) stop
      if stop < content.length ∧ pos < found then found else stop := rfl
  by_cases hend : content.length ≤ pos + 200
  · refine .inl ⟨hend, ?_⟩
    rw [hdef]
    simp only [if_pos hend, Nat.lt_irrefl, false_and, if_false]
  · refine .inr ⟨by omega, ?_⟩
    have hwidth : pos + 200 - pos = 200 := by omega
    simp only [if_neg hend, hwidth] at hdef
    have hpassed : ∀ i, retreat (fun i => !sentenceBreakAt content i) 200 (pos + 200) ≤ i → i < pos + 200 →
        sentenceBreakAt content i = false := fun i h₁ h₂ => by simpa using retreat_passed h₁ h₂
    by_cases hfound : pos < retreat (fun i => !sentenceBreakAt content i) 200 (pos + 200)
    · rw [if_pos ⟨by omega, hfound⟩] at hdef
      have hstopped : sentenceBreakAt content (retreat (fun i => !sentenceBreakAt content i) 200 (pos + 200) - 1) = true := by
        simpa using retreat_stopped (p := fun i => !sentenceBreakAt content i) (n := 200) (i := pos + 200) (by omega)
      rw [hdef]
      exact ⟨hfound, retreat_le, hpassed, .inl hstopped⟩
    · rw [if_neg (fun h => hfound h.2)] at hdef
      rw [hdef]
      exact ⟨by omega, Nat.le_refl _, fun i h₁ h₂ => by omega, .inr ⟨rfl, fun i h₁ h₂ => hpassed i (by omega) h₂⟩⟩

theorem lt_breakAt (h : pos < content.length) : pos < breakAt content pos := by
  rcases breakAt_spec content pos with ⟨-, hcut⟩ | ⟨-, hlt, -⟩
  · omega
  · exact hlt

theorem breakAt_le_length (content : Text) (pos : ℕ) : breakAt content pos ≤ content.length := by
  rcases breakAt_spec content pos with ⟨-, hcut⟩ | ⟨hlt, -, hle, -⟩
  · omega
  · omega

theorem breakAt_le (h : pos < content.length) : breakAt content pos ≤ pos + 200 := by
  rcases breakAt_spec content pos with ⟨hle, hcut⟩ | ⟨-, -, hle, -⟩
  · omega
  · exact hle

theorem nextPos_eq (cut : ℕ) : nextPos cut = if cut ≤ 40 then cut else cut - 40 := by
  rw [nextPos, overlapChars, chunkChars]
  split_ifs <;> omega

/-- The text of a window ends behind its last character that is no blank. -/
theorem trimmedEnd_spec (content : Text) (hlt : pos ≤ cut) (hle : cut ≤ pos + 200) :
    pos ≤ trimmedEnd content pos cut ∧ trimmedEnd content pos cut ≤ cut ∧
      (∀ i, trimmedEnd content pos cut ≤ i → i < cut → spaceAt content i = true) ∧
      (pos < trimmedEnd content pos cut → spaceAt content (trimmedEnd content pos cut - 1) = false) := by
  have hmin : min (cut - pos) 511 = cut - pos := by omega
  have hcut : pos + (cut - pos) = cut := by omega
  rw [trimmedEnd, hmin, hcut]
  have hlow : cut - (cut - pos) ≤ retreat (spaceAt content) (cut - pos) cut := le_retreat
  refine ⟨by omega, retreat_le, fun i h₁ h₂ => retreat_passed h₁ h₂, fun h => retreat_stopped (by omega)⟩

/-- A window that is not blank ends its text where a longer one before it does. -/
theorem trimmedEnd_eq {start : ℕ} (hstart : start ≤ pos) (hlt : pos ≤ cut) (hle : cut ≤ start + 200)
    (h : pos < trimmedEnd content pos cut) : trimmedEnd content start cut = trimmedEnd content pos cut := by
  obtain ⟨-, hcut, hspaces, hlast⟩ := trimmedEnd_spec content hlt (by omega)
  obtain ⟨-, hcut', hspaces', hlast'⟩ := trimmedEnd_spec content (Nat.le_trans hstart hlt) hle
  rcases Nat.lt_trichotomy (trimmedEnd content start cut) (trimmedEnd content pos cut) with hlt' | heq | hgt
  · have hspace := hspaces' (trimmedEnd content pos cut - 1) (by omega) (by omega)
    rw [hlast h] at hspace
    cases hspace
  · exact heq
  · have hspace := hspaces (trimmedEnd content start cut - 1) (by omega) (by omega)
    rw [hlast' (by omega)] at hspace
    cases hspace

/-! ## Positions -/

/-- Where the loop goes on behind the cut `last`: at the start, where nothing is cut yet, or one step back from the cut of a
window that did not start later. -/
def Behind (content : Text) (last pos : ℕ) : Prop :=
  (last = 0 ∧ pos = 0) ∨
    ∃ start < content.length, breakAt content start = last ∧ last < content.length ∧ pos = nextPos last ∧ start ≤ pos

theorem Behind.pos_le (h : Behind content last pos) : pos ≤ last := by
  rcases h with ⟨rfl, rfl⟩ | ⟨start, -, -, -, rfl, -⟩
  · exact Nat.le_refl 0
  · rw [nextPos_eq]
    split <;> omega

/-- The next window is cut no earlier than the last one. -/
theorem Behind.le_breakAt (h : Behind content last pos) : last ≤ breakAt content pos := by
  rcases h with ⟨rfl, -⟩ | ⟨start, hstart, rfl, hlast, rfl, -⟩
  · exact Nat.zero_le _
  · have hlt := lt_breakAt hstart
    rw [nextPos_eq]
    by_contra hearlier
    split at hearlier
    · exact hearlier (Nat.le_of_lt (lt_breakAt hlast))
    · -- the cut before is in reach, so nothing is cut at a break before it
      have hstep : breakAt content start - 40 < content.length := by omega
      rcases breakAt_spec content (breakAt content start - 40) with ⟨-, hcut⟩ | ⟨-, hgt, hle, hnone, hbreak⟩
      · omega
      · rcases breakAt_spec content start with ⟨-, hcut⟩ | ⟨-, -, hstartle, -, hbreak' | ⟨hwhole, hnone'⟩⟩
        · omega
        · rw [hnone (breakAt content start - 1) (by omega) (by omega)] at hbreak'
          cases hbreak'
        · rcases hbreak with hbreak | ⟨hfull, -⟩
          · rw [hnone' _ (by omega) (by omega)] at hbreak
            cases hbreak
          · omega

/-- The step back from the next cut leads no further back than this one, and to the same place only from the same cut. -/
theorem Behind.next (h : Behind content last pos) (hpos : pos < content.length) :
    pos ≤ nextPos (breakAt content pos) ∧ (nextPos (breakAt content pos) = pos ↔ breakAt content pos = last) := by
  have hle := h.le_breakAt
  have hlt := lt_breakAt hpos
  rcases h with ⟨rfl, rfl⟩ | ⟨start, hstart, rfl, hlast, rfl, -⟩
  · rw [nextPos_eq]
    split <;> omega
  · rcases Nat.lt_or_ge 40 (breakAt content start) with hfar | hnear
    · simp only [nextPos_eq, if_neg (Nat.not_le_of_lt hfar)] at hle hlt ⊢
      rw [if_neg (by omega)]
      omega
    · -- behind a cut so near the start there is no other one within the first window
      simp only [nextPos_eq, if_pos hnear] at hle hlt hpos ⊢
      have hfirst := lt_breakAt hstart
      have hbeyond : 80 < breakAt content (breakAt content start) ∨ breakAt content (breakAt content start) ≤ 40 := by
        rcases breakAt_spec content start with ⟨-, hcut⟩ | ⟨hlong, -, -, hnone, -⟩
        · omega
        · rcases breakAt_spec content (breakAt content start) with ⟨-, hcut⟩ | ⟨-, -, -, -, hbreak | ⟨hfull, -⟩⟩
          · omega
          · by_contra hwithin
            rw [hnone (breakAt content (breakAt content start) - 1) (by omega) (by omega)] at hbreak
            cases hbreak
          · omega
      split <;> omega

theorem Behind.step (h : Behind content last pos) (hpos : pos < content.length) (hcut : breakAt content pos < content.length) :
    Behind content (breakAt content pos) (nextPos (breakAt content pos)) :=
  .inr ⟨pos, hpos, rfl, hcut, rfl, (h.next hpos).1⟩

/-! ## Turns -/

/-- The loop is entered in a state and not left at once. -/
def Turn (content : Text) (s : ChunkState) : Prop :=
  Entered (chunkBody content) ⟨0, []⟩ s ∧ s.pos < content.length ∧ s.chunks.length < maxChunks

variable {s t : ChunkState} {chunks : List Chunk} {c d : Chunk}

/-- Some character of the content between two places is no blank. -/
def TextBetween (content : Text) (i j : ℕ) : Prop := ∃ k, i ≤ k ∧ k < j ∧ spaceAt content k = false

/-- The text of a window of the loop. -/
theorem window_spec (hpos : pos < content.length) :
    pos ≤ trimmedEnd content pos (breakAt content pos) ∧ trimmedEnd content pos (breakAt content pos) ≤ breakAt content pos ∧
      (∀ i, trimmedEnd content pos (breakAt content pos) ≤ i → i < breakAt content pos → spaceAt content i = true) ∧
      (pos < trimmedEnd content pos (breakAt content pos) →
        spaceAt content (trimmedEnd content pos (breakAt content pos) - 1) = false) :=
  trimmedEnd_spec content (Nat.le_of_lt (lt_breakAt hpos)) (breakAt_le hpos)

theorem lt_trimmedEnd_iff (hpos : pos < content.length) :
    pos < trimmedEnd content pos (breakAt content pos) ↔ TextBetween content pos (breakAt content pos) := by
  obtain ⟨-, hend, hspaces, hlast⟩ := window_spec hpos
  constructor
  · intro h
    exact ⟨trimmedEnd content pos (breakAt content pos) - 1, by omega, by omega, hlast h⟩
  · rintro ⟨k, hk, hcut, hspace⟩
    by_contra hblank
    rw [hspaces k (by omega) hcut] at hspace
    cases hspace

theorem length_chunkOf (hpos : pos < content.length) :
    (chunkOf content pos (breakAt content pos)).text.length = trimmedEnd content pos (breakAt content pos) - pos := by
  have hle := breakAt_le_length content pos
  obtain ⟨-, hend, -⟩ := window_spec hpos
  rw [chunkOf, List.length_take, List.length_drop]
  omega

theorem textEnd_chunkOf (hpos : pos < content.length) :
    (chunkOf content pos (breakAt content pos)).textEnd = trimmedEnd content pos (breakAt content pos) := by
  obtain ⟨hle, -⟩ := window_spec hpos
  have hstart : (chunkOf content pos (breakAt content pos)).start = pos := rfl
  rw [Chunk.textEnd, length_chunkOf hpos, hstart]
  omega

/-- A turn adds the chunk of its window, unless that is blank. -/
theorem addChunk_eq (hpos : pos < content.length) (chunks : List Chunk) :
    (pos < trimmedEnd content pos (breakAt content pos) ∧
        addChunk content pos (breakAt content pos) chunks = chunks ++ [chunkOf content pos (breakAt content pos)]) ∨
      (trimmedEnd content pos (breakAt content pos) = pos ∧ addChunk content pos (breakAt content pos) chunks = chunks) := by
  have hlength := length_chunkOf hpos
  obtain ⟨hle, -⟩ := window_spec hpos
  rcases Nat.eq_or_lt_of_le hle with hblank | htext
  · exact .inr ⟨hblank.symm, if_pos (List.length_eq_zero_iff.1 (by omega))⟩
  · refine .inl ⟨htext, if_neg fun hnil => ?_⟩
    rw [hnil, List.length_nil] at hlength
    omega

theorem chunkBody_turn (hpos : s.pos < content.length) (hroom : s.chunks.length < maxChunks) :
    chunkBody content s =
      if content.length ≤ breakAt content s.pos then .inr (addChunk content s.pos (breakAt content s.pos) s.chunks)
      else .inl ⟨nextPos (breakAt content s.pos), addChunk content s.pos (breakAt content s.pos) s.chunks⟩ := by
  have hlt := lt_breakAt hpos
  have hdef : chunkBody content s =
      if s.pos < content.length ∧ s.chunks.length < maxChunks then
        if breakAt content s.pos - s.pos = 0 then .inr s.chunks
        else if content.length ≤ breakAt content s.pos then .inr (addChunk content s.pos (breakAt content s.pos) s.chunks)
        else .inl ⟨nextPos (breakAt content s.pos), addChunk content s.pos (breakAt content s.pos) s.chunks⟩
      else .inr s.chunks := rfl
  rw [hdef, if_pos ⟨hpos, hroom⟩, if_neg (by omega)]

/-- The loop goes on from a window that is cut before the content ends. -/
theorem chunkBody_goesOn (h : chunkBody content s = .inl t) :
    s.pos < content.length ∧ s.chunks.length < maxChunks ∧ breakAt content s.pos < content.length ∧
      t = ⟨nextPos (breakAt content s.pos), addChunk content s.pos (breakAt content s.pos) s.chunks⟩ := by
  by_cases hturn : s.pos < content.length ∧ s.chunks.length < maxChunks
  · rw [chunkBody_turn hturn.1 hturn.2] at h
    split at h
    · cases h
    · rename_i hcut
      exact ⟨hturn.1, hturn.2, by omega, (Sum.inl.inj h).symm⟩
  · rw [chunkBody, if_neg hturn] at h
    cases h

/-- It is left with what is stored, or behind the window that is cut at the content's end. -/
theorem chunkBody_leaves (h : chunkBody content s = .inr chunks) :
    chunks = s.chunks ∨
      (s.pos < content.length ∧ s.chunks.length < maxChunks ∧ breakAt content s.pos = content.length ∧
        chunks = addChunk content s.pos (breakAt content s.pos) s.chunks) := by
  by_cases hturn : s.pos < content.length ∧ s.chunks.length < maxChunks
  · rw [chunkBody_turn hturn.1 hturn.2] at h
    split at h
    · rename_i hcut
      exact .inr ⟨hturn.1, hturn.2, Nat.le_antisymm (breakAt_le_length content s.pos) hcut, (Sum.inr.inj h).symm⟩
    · cases h
  · rw [chunkBody, if_neg hturn] at h
    exact .inl (Sum.inr.inj h).symm

/-- The last chunk stored is that of the last window, if what the step back leaves of this is not blank. -/
def LastStored (content : Text) (last : ℕ) (s : ChunkState) : Prop :=
  s.pos < trimmedEnd content s.pos last →
    ∃ d, s.chunks.getLast? = some d ∧ d.cut = last ∧ d.textEnd = trimmedEnd content s.pos last

theorem entered_behind (h : Entered (chunkBody content) ⟨0, []⟩ s) :
    ∃ last, Behind content last s.pos ∧ LastStored content last s := by
  refine h.invariant (I := fun s => ∃ last, Behind content last s.pos ∧ LastStored content last s) ?_ ?_
  · rintro s t ⟨last, hbehind, -⟩ hgoes
    obtain ⟨hpos, -, hcut, rfl⟩ := chunkBody_goesOn hgoes
    refine ⟨breakAt content s.pos, hbehind.step hpos hcut, fun htext => ?_⟩
    have hback := (hbehind.step hpos hcut).pos_le
    have hend := trimmedEnd_eq (hbehind.next hpos).1 hback (breakAt_le hpos) htext
    rcases addChunk_eq hpos s.chunks with ⟨-, hadd⟩ | ⟨hblank, -⟩
    · refine ⟨chunkOf content s.pos (breakAt content s.pos), ?_, rfl, ?_⟩
      · rw [hadd, List.getLast?_concat]
      · rw [textEnd_chunkOf hpos, hend]
    · have hstart := (hbehind.next hpos).1
      have htext' : nextPos (breakAt content s.pos) <
          trimmedEnd content (nextPos (breakAt content s.pos)) (breakAt content s.pos) := htext
      omega
  · refine ⟨0, .inl ⟨rfl, rfl⟩, fun htext => ?_⟩
    have hend := (trimmedEnd_spec content (Nat.le_refl 0) (Nat.zero_le _)).2.1
    exact absurd htext (Nat.not_lt_of_le hend)

/-! ## What the chunks promise -/

/-- The chunks advance, are parts of the content, and cover it up to where the last one is cut. The end of a chunk is
`stop`. -/
structure WellCut (content : Text) (stop : Chunk → ℕ) (chunks : List Chunk) : Prop where
  starts : chunks.IsChain fun c d => c.start < d.start
  stops : chunks.IsChain fun c d => stop c < stop d
  text_eq : ∀ c ∈ chunks, c.text = (content.drop c.start).take c.text.length
  covers : ∀ last ∈ chunks.getLast?, ∀ i < last.cut, spaceAt content i = false →
    ∃ c ∈ chunks, c.start ≤ i ∧ i < c.textEnd

/-- The loop comes to an end, and its chunks keep what they promise. -/
structure Chunked (content : Text) (stop : Chunk → ℕ) : Prop where
  ends : Ends (chunkBody content) ⟨0, []⟩
  wellCut : ∀ fuel chunks, memoryRefreshChunks fuel content = some chunks → WellCut content stop chunks

/-- The step back from the cut leads past the window's start. -/
def Advances (content : Text) (s : ChunkState) : Prop :=
  breakAt content s.pos < content.length → s.pos < nextPos (breakAt content s.pos)

/-- A window with a text has some of it behind the text of the last chunk. -/
def ReachesOn (content : Text) (s : ChunkState) : Prop :=
  TextBetween content s.pos (breakAt content s.pos) →
    ∀ d ∈ s.chunks.getLast?, TextBetween content d.textEnd (breakAt content s.pos)

/-- What is stored stays stored. -/
theorem prefix_of_loop {fuel : ℕ} (h : loop (chunkBody content) fuel s = some chunks) : s.chunks <+: chunks := by
  have hadd : ∀ s : ChunkState, s.chunks <+: addChunk content s.pos (breakAt content s.pos) s.chunks := by
    intro s
    rw [addChunk]
    split
    · exact List.prefix_refl _
    · exact List.prefix_append _ _
  induction fuel generalizing s with
  | zero => cases h
  | succ fuel ih =>
    rw [loop] at h
    cases hbody : chunkBody content s with
    | inl t =>
      rw [hbody] at h
      obtain ⟨-, -, -, rfl⟩ := chunkBody_goesOn hbody
      exact (hadd s).trans (ih h)
    | inr stored =>
      rw [hbody] at h
      obtain rfl := Option.some.inj h
      rcases chunkBody_leaves hbody with rfl | ⟨-, -, -, rfl⟩
      · exact List.prefix_refl _
      · exact hadd s

/-- The chunk of a turn stands behind the last one before it in the whole loop, and so ends behind it. -/
theorem Chunked.stop_lt {stop : Chunk → ℕ} (h : Chunked content stop) (hs : Turn content s)
    (htext : s.pos < trimmedEnd content s.pos (breakAt content s.pos)) :
    ∀ d ∈ s.chunks.getLast?, stop d < stop (chunkOf content s.pos (breakAt content s.pos)) := by
  obtain ⟨hentered, hpos, hroom⟩ := hs
  have hadd : addChunk content s.pos (breakAt content s.pos) s.chunks =
      s.chunks ++ [chunkOf content s.pos (breakAt content s.pos)] := by
    rcases addChunk_eq hpos s.chunks with ⟨-, hadd⟩ | ⟨hblank, -⟩
    · exact hadd
    · omega
  -- the loop ends from here, with this chunk stored
  obtain ⟨fuel, chunks, hloop, hprefix⟩ : ∃ fuel chunks, loop (chunkBody content) fuel s = some chunks ∧
      s.chunks ++ [chunkOf content s.pos (breakAt content s.pos)] <+: chunks := by
    have hbody := chunkBody_turn hpos hroom
    rw [hadd] at hbody
    split at hbody
    · exact ⟨1, _, by rw [loop, hbody], List.prefix_refl _⟩
    · have hnext : Entered (chunkBody content) ⟨0, []⟩ _ := hentered.tail hbody
      obtain ⟨fuel, hfuel⟩ := hnext.ends h.ends
      obtain ⟨chunks, hchunks⟩ := Option.isSome_iff_exists.1 hfuel
      refine ⟨fuel + 1, chunks, ?_, prefix_of_loop hchunks⟩
      rw [loop, hbody]
      exact hchunks
  obtain ⟨fuel', hwhole⟩ := hentered.loop_eq hloop
  have hne : content ≠ [] := List.ne_nil_of_length_pos (by omega)
  have hstored : chunks ≠ [] := by
    rintro rfl
    exact absurd (List.prefix_nil.1 hprefix) (by simp)
  have hwell : WellCut content stop chunks := by
    refine h.wellCut fuel' chunks ?_
    rw [memoryRefreshChunks, if_neg hne, hwhole, Option.map_some, if_neg hstored]
  obtain ⟨rest, rfl⟩ := hprefix
  intro d hd
  exact (List.isChain_append.1 hwell.stops.left_of_append).2.2 d hd _ (by simp)

/-- Chunks that keep what they promise come from turns that advance. -/
theorem Chunked.advances {stop : Chunk → ℕ} (hstop : ∀ c d : Chunk, c.cut = d.cut → c.textEnd = d.textEnd → stop c = stop d)
    (h : Chunked content stop) (hs : Turn content s) : Advances content s := by
  intro hcut
  by_contra hstuck
  have hpos := hs.2.1
  obtain ⟨last, hbehind, hstored⟩ := entered_behind hs.1
  obtain ⟨hback, hsame⟩ := hbehind.next hpos
  have hnext : nextPos (breakAt content s.pos) = s.pos := by omega
  obtain rfl := hsame.1 hnext
  rcases addChunk_eq hpos s.chunks with ⟨htext, -⟩ | ⟨-, hadd⟩
  · -- the chunk is stored a second time
    obtain ⟨d, hd, hdcut, hdend⟩ := hstored htext
    have hchain := h.stop_lt hs htext d hd
    have hend := textEnd_chunkOf hpos
    rw [hstop d (chunkOf content s.pos (breakAt content s.pos)) hdcut (hdend.trans hend.symm)] at hchain
    exact Nat.lt_irrefl _ hchain
  · -- nothing is stored, and nothing changes
    have hbody : chunkBody content s = .inl s := by
      rw [chunkBody_turn hpos hs.2.2, if_neg (by omega), hnext, hadd]
    have hnever : ¬ Ends (chunkBody content) s :=
      not_ends_of_invariant (I := (· = s)) (fun t ht => ⟨s, ht ▸ hbody, rfl⟩) rfl
    exact hnever (hs.1.ends h.ends)

/-- Chunks whose texts' ends advance come from windows that reach on. -/
theorem Chunked.reachesOn (h : Chunked content Chunk.textEnd) (hs : Turn content s) : ReachesOn content s := by
  intro htext d hd
  have htrimmed := (lt_trimmedEnd_iff hs.2.1).2 htext
  have hchain := h.stop_lt hs htrimmed d hd
  rw [textEnd_chunkOf hs.2.1] at hchain
  obtain ⟨-, hend, -, hlast⟩ := window_spec hs.2.1
  exact ⟨trimmedEnd content s.pos (breakAt content s.pos) - 1, by omega, by omega, hlast htrimmed⟩

/-! ## Turns that advance -/

/-- The chunks keep what they promise up to `last`. -/
structure CoveredTo (content : Text) (last : ℕ) (chunks : List Chunk) : Prop where
  starts : chunks.IsChain fun c d => c.start < d.start
  cuts : chunks.IsChain fun c d => c.cut < d.cut
  cut_le : ∀ d ∈ chunks.getLast?, d.cut ≤ last
  text_eq : ∀ c ∈ chunks, c.text = (content.drop c.start).take c.text.length
  covers : ∀ i < last, spaceAt content i = false → ∃ c ∈ chunks, c.start ≤ i ∧ i < c.textEnd

theorem coveredTo_nil (content : Text) : CoveredTo content 0 [] :=
  ⟨.nil, .nil, nofun, nofun, fun i hi => absurd hi (Nat.not_lt_zero i)⟩

/-- A window that starts behind the last chunk's start, and is cut behind its cut, carries the cover on. -/
theorem CoveredTo.step (h : CoveredTo content last chunks) (hpos : pos < content.length) (hback : pos ≤ last)
    (hforward : last < breakAt content pos) (hstart : ∀ d ∈ chunks.getLast?, d.start < pos) :
    CoveredTo content (breakAt content pos) (addChunk content pos (breakAt content pos) chunks) := by
  obtain ⟨-, hend, hspaces, -⟩ := window_spec hpos
  rcases addChunk_eq hpos chunks with ⟨htext, hadd⟩ | ⟨hblank, hadd⟩
  · have hchunk : ∀ c ∈ [chunkOf content pos (breakAt content pos)], c = chunkOf content pos (breakAt content pos) :=
      fun c hc => List.mem_singleton.1 hc
    rw [hadd]
    refine ⟨?_, ?_, ?_, fun c hc => ?_, fun i hi hspace => ?_⟩
    · exact List.isChain_append.2 ⟨h.starts, .singleton _, fun d hd c hc => by
        obtain rfl : chunkOf content pos (breakAt content pos) = c := by simpa using hc
        exact hstart d hd⟩
    · exact List.isChain_append.2 ⟨h.cuts, .singleton _, fun d hd c hc => by
        obtain rfl : chunkOf content pos (breakAt content pos) = c := by simpa using hc
        exact Nat.lt_of_le_of_lt (h.cut_le d hd) hforward⟩
    · intro d hd
      obtain rfl : chunkOf content pos (breakAt content pos) = d := by simpa using hd
      exact Nat.le_refl _
    · rcases List.mem_append.1 hc with hc | hc
      · exact h.text_eq c hc
      · obtain rfl := hchunk c hc
        rw [length_chunkOf hpos]
        rfl
    · rcases Nat.lt_or_ge i last with hold | hnew
      · obtain ⟨c, hc, hcovers⟩ := h.covers i hold hspace
        exact ⟨c, List.mem_append_left _ hc, hcovers⟩
      · have hi' : i < trimmedEnd content pos (breakAt content pos) := by
          by_contra hbehind
          rw [hspaces i (by omega) hi] at hspace
          cases hspace
        refine ⟨_, List.mem_append_right _ (List.mem_singleton_self _), Nat.le_trans hback hnew, ?_⟩
        rwa [textEnd_chunkOf hpos]
  · rw [hadd]
    refine ⟨h.starts, h.cuts, fun d hd => ?_, h.text_eq, fun i hi hspace => ?_⟩
    · exact Nat.le_of_lt (Nat.lt_of_le_of_lt (h.cut_le d hd) hforward)
    · rcases Nat.lt_or_ge i last with hold | hnew
      · exact h.covers i hold hspace
      · rw [hspaces i (by omega) hi] at hspace
        cases hspace

/-- A window that reaches on carries the order of the texts' ends on. -/
theorem textEnds_step (hs : Turn content s) (hreaches : ReachesOn content s)
    (h : s.chunks.IsChain fun c d => c.textEnd < d.textEnd) :
    (addChunk content s.pos (breakAt content s.pos) s.chunks).IsChain fun c d => c.textEnd < d.textEnd := by
  rcases addChunk_eq hs.2.1 s.chunks with ⟨htext, hadd⟩ | ⟨-, hadd⟩
  · rw [hadd]
    refine List.isChain_append.2 ⟨h, .singleton _, fun d hd c hc => ?_⟩
    obtain rfl : chunkOf content s.pos (breakAt content s.pos) = c := by simpa using hc
    obtain ⟨k, hk, hcut, hspace⟩ := hreaches ((lt_trimmedEnd_iff hs.2.1).1 htext) d hd
    obtain ⟨-, -, hspaces, -⟩ := window_spec hs.2.1
    rw [textEnd_chunkOf hs.2.1]
    by_contra hbehind
    rw [hspaces k (by omega) hcut] at hspace
    cases hspace
  · rwa [hadd]

/-- The cover behind a turn. -/
structure CoverBehind (content : Text) (last : ℕ) (s : ChunkState) : Prop where
  behind : Behind content last s.pos
  covered : CoveredTo content last s.chunks
  start_lt : ∀ d ∈ s.chunks.getLast?, d.start < s.pos

/-- A turn that advances cuts behind the last cut. -/
theorem Behind.lt_breakAt (h : Behind content last s.pos) (hpos : s.pos < content.length) (hadvances : Advances content s) :
    last < breakAt content s.pos := by
  have hle := h.le_breakAt
  rcases Nat.eq_or_lt_of_le hle with heq | hlt
  · have hcut : last < content.length := by
      rcases h with ⟨rfl, -⟩ | ⟨-, -, -, hcut, -⟩
      · omega
      · exact hcut
    have hforward := hadvances (heq ▸ hcut)
    have hsame := (h.next hpos).2.2 heq.symm
    omega
  · exact hlt

theorem entered_coverBehind (hadvances : ∀ s, Turn content s → Advances content s)
    (h : Entered (chunkBody content) ⟨0, []⟩ s) : ∃ last, CoverBehind content last s := by
  refine (h.invariant (I := fun s => Entered (chunkBody content) ⟨0, []⟩ s ∧ ∃ last, CoverBehind content last s) ?_ ?_).2
  · rintro s t ⟨hs, last, hcover⟩ hgoes
    refine ⟨hs.tail hgoes, ?_⟩
    obtain ⟨hpos, hroom, hcut, rfl⟩ := chunkBody_goesOn hgoes
    have hturn := hadvances s ⟨hs, hpos, hroom⟩
    have hforward := hcover.behind.lt_breakAt hpos hturn
    refine ⟨breakAt content s.pos, hcover.behind.step hpos hcut, ?_, fun d hd => ?_⟩
    · exact hcover.covered.step hpos hcover.behind.pos_le hforward hcover.start_lt
    · have hpast := hturn hcut
      rcases addChunk_eq hpos s.chunks with ⟨-, hadd⟩ | ⟨-, hadd⟩
      · rw [hadd] at hd
        obtain rfl : chunkOf content s.pos (breakAt content s.pos) = d := by simpa using hd
        exact hpast
      · rw [hadd] at hd
        exact Nat.lt_trans (hcover.start_lt d hd) hpast
  · exact ⟨.refl, 0, .inl ⟨rfl, rfl⟩, coveredTo_nil content, nofun⟩

theorem ends_of_advances (hadvances : ∀ s, Turn content s → Advances content s) :
    Ends (chunkBody content) ⟨0, []⟩ := by
  refine ends_of_measure (I := Entered (chunkBody content) ⟨0, []⟩) (μ := fun s => content.length - s.pos) ?_ _ .refl
  intro s t hs hgoes
  refine ⟨hs.tail hgoes, ?_⟩
  obtain ⟨hpos, hroom, hcut, rfl⟩ := chunkBody_goesOn hgoes
  have hpast := hadvances s ⟨hs, hpos, hroom⟩ hcut
  have hmeasure : content.length - nextPos (breakAt content s.pos) < content.length - s.pos := by omega
  exact hmeasure

/-- What the loop is left with covers the content up to some place, and its texts' ends advance where the windows reach
on. -/
theorem loop_covered {fuel : ℕ} (hadvances : ∀ s, Turn content s → Advances content s)
    (h : loop (chunkBody content) fuel ⟨0, []⟩ = some chunks) :
    (∃ last, CoveredTo content last chunks) ∧
      ((∀ s, Turn content s → ReachesOn content s) → chunks.IsChain fun c d => c.textEnd < d.textEnd) := by
  obtain ⟨s, hs, hleaves⟩ := exists_entered_of_loop h
  obtain ⟨last, hcover⟩ := entered_coverBehind hadvances hs
  have hends : (∀ s, Turn content s → ReachesOn content s) → s.chunks.IsChain fun c d => c.textEnd < d.textEnd := by
    intro hreaches
    refine (hs.invariant (I := fun s => Entered (chunkBody content) ⟨0, []⟩ s ∧
      s.chunks.IsChain fun c d => c.textEnd < d.textEnd) ?_ ⟨.refl, .nil⟩).2
    rintro s t ⟨hs, hchain⟩ hgoes
    refine ⟨hs.tail hgoes, ?_⟩
    obtain ⟨hpos, hroom, -, rfl⟩ := chunkBody_goesOn hgoes
    exact textEnds_step ⟨hs, hpos, hroom⟩ (hreaches s ⟨hs, hpos, hroom⟩) hchain
  rcases chunkBody_leaves hleaves with rfl | ⟨hpos, hroom, -, rfl⟩
  · exact ⟨⟨last, hcover.covered⟩, hends⟩
  · have hforward := hcover.behind.lt_breakAt hpos (hadvances s ⟨hs, hpos, hroom⟩)
    refine ⟨⟨_, hcover.covered.step hpos hcover.behind.pos_le hforward hcover.start_lt⟩, fun hreaches => ?_⟩
    exact textEnds_step ⟨hs, hpos, hroom⟩ (hreaches s ⟨hs, hpos, hroom⟩) (hends hreaches)

/-- The content itself as its only chunk. -/
theorem wellCut_whole (content : Text) (stop : Chunk → ℕ) : WellCut content stop [⟨0, content.length, content⟩] where
  starts := .singleton _
  stops := .singleton _
  text_eq c hc := by
    obtain rfl := List.mem_singleton.1 hc
    exact (List.take_length).symm
  covers last hlast i hi _ := by
    obtain rfl : (⟨0, content.length, content⟩ : Chunk) = last := by simpa using hlast
    refine ⟨_, List.mem_singleton_self _, Nat.zero_le i, ?_⟩
    rwa [Chunk.textEnd, Nat.zero_add]

theorem chunked_of_advances {stop : Chunk → ℕ} (hadvances : ∀ s, Turn content s → Advances content s)
    (hstops : ∀ fuel chunks, loop (chunkBody content) fuel ⟨0, []⟩ = some chunks →
      chunks.IsChain fun c d => stop c < stop d) : Chunked content stop := by
  refine ⟨ends_of_advances hadvances, fun fuel stored hstored => ?_⟩
  rw [memoryRefreshChunks] at hstored
  split at hstored
  · obtain rfl := Option.some.inj hstored
    exact ⟨.nil, .nil, nofun, nofun⟩
  · obtain ⟨chunks, hloop, rfl⟩ := Option.map_eq_some_iff.1 hstored
    split
    · exact wellCut_whole content stop
    · obtain ⟨⟨last, hcovered⟩, -⟩ := loop_covered hadvances hloop
      refine ⟨hcovered.starts, hstops fuel chunks hloop, hcovered.text_eq, fun c hc i hi => ?_⟩
      exact hcovered.covers i (Nat.lt_of_lt_of_le hi (hcovered.cut_le c hc))

/-- **The chunks of a content keep what they promise iff each turn of the loop advances; for the ends of their texts, iff
each window reaches on, too.** -/
theorem chunked_iff (content : Text) :
    (Chunked content Chunk.cut ↔ ∀ s, Turn content s → Advances content s) ∧
      (Chunked content Chunk.textEnd ↔ ∀ s, Turn content s → Advances content s ∧ ReachesOn content s) := by
  refine ⟨⟨fun h s hs => ?_, fun h => ?_⟩, ⟨fun h s hs => ⟨?_, h.reachesOn hs⟩, fun h => ?_⟩⟩
  · exact h.advances (fun _ _ hcut _ => hcut) hs
  · refine chunked_of_advances h fun fuel chunks hloop => ?_
    obtain ⟨⟨last, hcovered⟩, -⟩ := loop_covered h hloop
    exact hcovered.cuts
  · exact h.advances (fun _ _ _ hend => hend) hs
  · have hadvances : ∀ s, Turn content s → Advances content s := fun s hs => (h s hs).1
    refine chunked_of_advances hadvances fun fuel chunks hloop => ?_
    exact (loop_covered hadvances hloop).2 fun s hs => (h s hs).2

/-- Each turn advances where behind every sentence that ends after 40 characters another one ends within 160, or the content
does. -/
theorem advances_of_breaks (hbreaks : ∀ cut, 40 < cut → sentenceBreakAt content (cut - 1) = true →
      cut + 160 < content.length → ∃ i, cut ≤ i ∧ i < cut + 160 ∧ sentenceBreakAt content i = true) :
    ∀ s, Turn content s → Advances content s := by
  intro s hs hcut
  by_contra hstuck
  have hlt := lt_breakAt hs.2.1
  obtain ⟨last, hbehind, -⟩ := entered_behind hs.1
  have hback := (hbehind.next hs.2.1).1
  have hnext : nextPos (breakAt content s.pos) = s.pos := by omega
  obtain ⟨hfar, hpos⟩ : 40 < breakAt content s.pos ∧ breakAt content s.pos = s.pos + 40 := by
    rw [nextPos_eq] at hnext
    split at hnext <;> omega
  rcases breakAt_spec content s.pos with ⟨-, hend⟩ | ⟨hlong, -, -, hnone, hbreak | ⟨hfull, -⟩⟩
  · omega
  · obtain ⟨i, hi, hwithin, hat⟩ := hbreaks (breakAt content s.pos) hfar hbreak (by omega)
    rw [hnone i hi (by omega)] at hat
    cases hat
  · omega

/-- Ten letters, forty blanks, of which the last is a newline, and an unbroken text. -/
def blanks : Text := List.replicate 10 97 ++ List.replicate 39 32 ++ [10] ++ List.replicate 300 98

/-- A sentence of fifty letters before an unbroken text. -/
def oneSentence : Text := List.replicate 49 97 ++ [46] ++ List.replicate 300 98

/-- The window of the forty blanks is cut over and over, and no chunk comes of it. -/
theorem blanks_never_end : ¬ Ends (chunkBody blanks) ⟨0, []⟩ := by
  have hfirst : chunkBody blanks ⟨0, []⟩ = .inl ⟨10, [⟨0, 50, List.replicate 10 97⟩]⟩ := by decide +kernel
  have hagain : chunkBody blanks ⟨10, [⟨0, 50, List.replicate 10 97⟩]⟩ =
      .inl ⟨10, [⟨0, 50, List.replicate 10 97⟩]⟩ := by decide +kernel
  refine not_ends_of_invariant (I := fun s => s = ⟨0, []⟩ ∨ s = ⟨10, [⟨0, 50, List.replicate 10 97⟩]⟩) ?_ (.inl rfl)
  rintro s (rfl | rfl)
  · exact ⟨_, hfirst, .inr rfl⟩
  · exact ⟨_, hagain, .inr rfl⟩

/-- The forty blanks are never left, and the end of the one sentence is cut in every chunk. -/
theorem chunks_stuck :
    (¬ Chunked blanks Chunk.cut ∧ ¬ Chunked blanks Chunk.textEnd) ∧ ¬ Chunked oneSentence Chunk.cut := by
  refine ⟨⟨fun h => blanks_never_end h.ends, fun h => blanks_never_end h.ends⟩, fun h => ?_⟩
  have hcuts : (memoryRefreshChunks 9 oneSentence).map (fun chunks => decide (chunks.IsChain fun c d => c.cut < d.cut)) =
      some false := by decide +kernel
  obtain ⟨chunks, hchunks, hchain⟩ := Option.map_eq_some_iff.1 hcuts
  exact of_decide_eq_false hchain (h.wellCut 9 chunks hchunks).stops

end AimeeMemory.Core
