import AimeeMemory.Core.Downgrade
import AimeeMemory.Core.Landing
import AimeeMemory.Core.Writers
import Mathlib.Data.List.Infix

/-!
# Folding a session

`memory_fold_session` of `memory_conflict.c` joins the contents of a session's L0 rows to a checkpoint
of at most 200 bytes, inserts it as an L1 episode, and purges the L0 rows, whatever the insert said.

## What is proved

* **`fold_inBuffer_iff`**: the checkpoint's buffer is kept to exactly when no rows but the last fill it to 196
  bytes.
* `foldCheckpoint_isSome_iff`: the checkpoint, where no copy is negative.
* **`fold_keepsSession_iff`**: a fold that returns keeps the session exactly if it purges nothing, or the checkpoint
  lands in an L1 episode under the session's key, or stands in one that the insert does not touch.
* **`ephemeral_lost`**: a checkpoint that the gate downgrades is purged with the rows it was made of.
-/

namespace AimeeMemory.Core

/-! ## The checkpoint's buffer -/

/-- What the loop of `memory_fold_session` does to its buffer: the fill level, the lengths that it copies, and the indices
that it writes. -/
structure FoldTrace where
  pos : ℤ := 0
  count : ℕ := 0
  copies : List ℤ := []
  written : List ℤ := []

/-- The bytes of a separator, which stands between two texts. -/
def separatorLength (pos : ℤ) : ℤ := if 0 < pos then 2 else 0

/-- The indices from one on. -/
def indicesFrom (pos length : ℤ) : List ℤ := (List.range length.toNat).map fun k : ℕ => pos + k

/-- A text is copied behind a separator, cut to what was left before the separator, less its length. -/
def FoldTrace.copy (tr : FoldTrace) (t : Text) : FoldTrace :=
  let remaining := 200 - tr.pos - 3
  let separator := separatorLength tr.pos
  let len := min (t.length : ℤ) (remaining - separator)
  { pos := tr.pos + separator + len
    count := tr.count + 1
    copies := tr.copies ++ [len]
    written := tr.written ++ indicesFrom tr.pos separator ++ indicesFrom (tr.pos + separator) len }

/-- The text of a row. -/
def foldText (row : Text × Text) : Text := if row.2 = [] then row.1 else row.2

/-- The loop over the rows. -/
def foldTrace : List (Text × Text) → FoldTrace → FoldTrace
  | [], tr => tr
  | row :: rows, tr =>
    if row.1 = [] then foldTrace rows tr
    else if 200 - tr.pos - 3 ≤ 0 then tr
    else foldTrace rows (tr.copy (foldText row))

/-- No copy is of a negative length, and all that is written, the terminator included, is in the buffer. -/
structure FoldTrace.InBuffer (tr : FoldTrace) : Prop where
  copies : ∀ len ∈ tr.copies, 0 ≤ len
  written : ∀ i ∈ tr.written, 0 ≤ i ∧ i < 200
  terminator : 0 ≤ tr.pos ∧ tr.pos < 200

/-- The texts that are folded. -/
def foldTexts (rows : List (Text × Text)) : List Text := (rows.filter fun row => row.1 ≠ []).map foldText

/-- The length of texts with separators between them. -/
def foldedLength : List Text → ℕ
  | [] => 0
  | [t] => t.length
  | t :: ts => t.length + 2 + foldedLength ts

/-- No texts but all of them fill the buffer to 196 bytes. -/
def NeverAlmostFull (ts : List Text) : Prop := ∀ pre post, ts = pre ++ post → post ≠ [] → foldedLength pre ≠ 196

variable {tr : FoldTrace} {t : Text} {ts : List Text} {rows : List (Text × Text)}

theorem foldedLength_concat (ts : List Text) (t : Text) :
    foldedLength (ts ++ [t]) = foldedLength ts + (if ts = [] then 0 else 2) + t.length := by
  induction ts with
  | nil => simp [foldedLength]
  | cons u us ih =>
    cases us with
    | nil => simp [foldedLength]
    | cons v vs =>
      rw [List.cons_append, List.cons_append, foldedLength, ← List.cons_append, ih]
      · simp [foldedLength]
        omega
      · simp

theorem foldedLength_mono (ts us : List Text) : foldedLength ts ≤ foldedLength (ts ++ us) := by
  induction us using List.reverseRecOn with
  | nil => rw [List.append_nil]
  | append_singleton us u ih =>
    rw [← List.append_assoc, foldedLength_concat]
    omega

theorem foldedLength_pos (hne : ∀ t ∈ ts, t ≠ []) : 0 < foldedLength ts ↔ ts ≠ [] := by
  cases ts with
  | nil => exact iff_of_false (Nat.lt_irrefl 0) fun h => h rfl
  | cons t ts =>
    have hfirst : 0 < t.length := List.length_pos_iff.2 (hne t List.mem_cons_self)
    have hle : t.length ≤ foldedLength (t :: ts) := foldedLength_mono [t] ts
    exact iff_of_true (hfirst.trans_le hle) (List.cons_ne_nil t ts)

theorem foldText_ne_nil {row : Text × Text} (h : row.1 ≠ []) : foldText row ≠ [] := by
  rw [foldText]
  split
  · exact h
  · assumption

theorem foldTexts_cons_of_key {row : Text × Text} (h : row.1 ≠ []) : foldTexts (row :: rows) = foldText row :: foldTexts rows := by
  rw [foldTexts, List.filter_cons_of_pos (by simpa using h)]
  rfl

/-- The texts `done` are in the buffer, as far as there was room. -/
structure FoldTrace.Filled (done : List Text) (tr : FoldTrace) : Prop where
  pos : tr.pos = min 197 (foldedLength done : ℤ)
  nonempty : ∀ t ∈ done, t ≠ []
  copies : ∀ len ∈ tr.copies, 0 ≤ len
  written : ∀ i ∈ tr.written, 0 ≤ i ∧ i < 200

variable {done : List Text}

theorem FoldTrace.Filled.inBuffer (h : tr.Filled done) : tr.InBuffer := by
  refine ⟨h.copies, h.written, ?_⟩
  have hpos := h.pos
  omega

theorem mem_indicesFrom {pos length i : ℤ} (h : i ∈ indicesFrom pos length) : pos ≤ i ∧ i < pos + length := by
  obtain ⟨k, hk, rfl⟩ := List.mem_map.1 h
  have := List.mem_range.1 hk
  omega

theorem FoldTrace.Filled.separatorLength_eq (h : tr.Filled done) : separatorLength tr.pos = if done = [] then 0 else 2 := by
  have hpos := h.pos
  have hsome := foldedLength_pos h.nonempty
  rw [separatorLength]
  by_cases hdone : done = []
  · rw [if_pos hdone, if_neg]
    rw [hdone, foldedLength] at hpos
    omega
  · rw [if_neg hdone, if_pos]
    have := hsome.2 hdone
    omega

/-- Below 196 bytes a text is copied in the buffer. -/
theorem FoldTrace.Filled.copy (h : tr.Filled done) (hroom : foldedLength done < 196) (ht : t ≠ []) :
    (tr.copy t).Filled (done ++ [t]) := by
  have hpos := h.pos
  have hseparator := h.separatorLength_eq
  have hsome := foldedLength_pos h.nonempty
  have hlength : 0 < t.length := List.length_pos_iff.2 ht
  have hbetween : 0 ≤ separatorLength tr.pos ∧ separatorLength tr.pos ≤ 2 := by
    rw [hseparator]
    split <;> decide
  constructor
  · rw [foldedLength_concat]
    simp only [FoldTrace.copy]
    split_ifs at hseparator ⊢ <;> omega
  · intro u hu
    rcases List.mem_append.1 hu with hu | hu
    · exact h.nonempty u hu
    · rw [List.mem_singleton.1 hu]
      exact ht
  · intro len hlen
    rcases List.mem_append.1 hlen with hlen | hlen
    · exact h.copies len hlen
    · rw [List.mem_singleton.1 hlen]
      omega
  · intro i hi
    simp only [FoldTrace.copy, List.append_assoc] at hi
    rcases List.mem_append.1 hi with hi | hi
    · exact h.written i hi
    · rcases List.mem_append.1 hi with hi | hi
      · have := mem_indicesFrom hi
        omega
      · have := mem_indicesFrom hi
        omega

theorem copies_foldTrace (rows : List (Text × Text)) {len : ℤ} (h : len ∈ tr.copies) : len ∈ (foldTrace rows tr).copies := by
  induction rows generalizing tr with
  | nil => exact h
  | cons row rows ih =>
    rw [foldTrace]
    split
    · exact ih h
    · split
      · exact h
      · exact ih (List.mem_append_left _ h)

/-- At 196 bytes the room that is left does not hold a separator, and the copy is negative. -/
theorem FoldTrace.Filled.copy_negative (h : tr.Filled done) (hfull : foldedLength done = 196) (t : Text) :
    -1 ∈ (tr.copy t).copies := by
  have hpos := h.pos
  have hseparator := h.separatorLength_eq
  have hdone : done ≠ [] := (foldedLength_pos h.nonempty).1 (by omega)
  rw [if_neg hdone] at hseparator
  refine List.mem_append_right _ (List.mem_singleton.2 ?_)
  omega

/-- The loop, from where the texts `done` are in the buffer. -/
theorem foldTrace_inBuffer_iff (rows : List (Text × Text)) (h : tr.Filled done) :
    (foldTrace rows tr).InBuffer ↔
      ∀ pre post, foldTexts rows = pre ++ post → post ≠ [] → foldedLength (done ++ pre) ≠ 196 := by
  induction rows generalizing done tr with
  | nil =>
    refine iff_of_true h.inBuffer fun pre post hsplit hpost => absurd ?_ hpost
    exact (List.append_eq_nil_iff.1 hsplit.symm).2
  | cons row rows ih =>
    have hpos := h.pos
    by_cases hkey : row.1 = []
    · have hskip : foldTexts (row :: rows) = foldTexts rows := by simp [foldTexts, hkey]
      rw [foldTrace, if_pos hkey, hskip]
      exact ih h
    · rw [foldTrace, if_neg hkey, foldTexts_cons_of_key hkey]
      rcases Nat.lt_trichotomy (foldedLength done) 196 with hroom | hfull | hover
      · rw [if_neg (by omega), ih (h.copy hroom (foldText_ne_nil hkey))]
        constructor
        · intro hall pre post hsplit hpost
          cases pre with
          | nil =>
            rw [List.append_nil]
            omega
          | cons t pre =>
            obtain ⟨rfl, hrest⟩ := List.cons.inj hsplit
            rw [← List.singleton_append, ← List.append_assoc]
            exact hall pre post hrest hpost
        · intro hall pre post hsplit hpost
          rw [List.append_assoc, List.singleton_append]
          exact hall (foldText row :: pre) post (by rw [hsplit, List.cons_append]) hpost
      · rw [if_neg (by omega)]
        refine iff_of_false (fun hbuffer => ?_) fun hall => ?_
        · have hnegative := hbuffer.copies (-1) (copies_foldTrace rows (h.copy_negative hfull (foldText row)))
          omega
        · exact hall [] _ rfl (List.cons_ne_nil _ _) (by rw [List.append_nil, hfull])
      · rw [if_pos (by omega)]
        refine iff_of_true h.inBuffer fun pre post _ _ => ?_
        have hmono := foldedLength_mono done pre
        omega

/-- **The fold stays in its buffer** exactly if the texts before the last never fill it to 196 bytes. -/
theorem fold_inBuffer_iff (rows : List (Text × Text)) :
    (foldTrace rows {}).InBuffer ↔ NeverAlmostFull (foldTexts rows) := by
  have hstart : FoldTrace.Filled [] {} := ⟨by simp [foldedLength], nofun, nofun, nofun⟩
  exact foldTrace_inBuffer_iff rows hstart

/-- A row of 196 bytes with another row behind it. -/
def almostFull : List (Text × Text) := [(text "a", List.replicate 196 97), (text "b", text "more")]

/-- The copy behind it is of -1 bytes. -/
theorem almostFull_negative : ¬ (foldTrace almostFull {}).InBuffer := by
  intro hbuffer
  have hnegative := hbuffer.copies (-1) (by decide +kernel)
  omega

/-- The checkpoint is made exactly where the buffer is kept to. -/
theorem foldCheckpoint_isSome_iff (rows : List (Text × Text)) (h : tr.Filled done) {checkpoint : Text} {count : ℕ}
    (hlength : (checkpoint.length : ℤ) = tr.pos) :
    (foldCheckpoint rows checkpoint count).isSome ↔ (foldTrace rows tr).InBuffer := by
  induction rows generalizing done tr checkpoint count with
  | nil => exact iff_of_true rfl h.inBuffer
  | cons row rows ih =>
    obtain ⟨key, content⟩ := row
    have hpos := h.pos
    rw [foldCheckpoint, foldTrace]
    by_cases hkey : key = []
    · rw [if_pos hkey, if_pos hkey]
      exact ih h hlength
    · rw [if_neg hkey, if_neg hkey]
      have hseparator : ((if checkpoint = [] then [] else text "; ").length : ℤ) = separatorLength tr.pos := by
        rw [separatorLength, ← hlength]
        cases checkpoint with
        | nil => rfl
        | cons c cs =>
          rw [if_neg (List.cons_ne_nil c cs), if_pos (by simp only [List.length_cons]; omega)]
          rfl
      by_cases hfull : 197 ≤ checkpoint.length
      · have hbreak : 200 - tr.pos - 3 ≤ 0 := by omega
        rw [if_pos hfull, if_pos hbreak]
        exact iff_of_true rfl h.inBuffer
      · have hroom : ¬ 200 - tr.pos - 3 ≤ 0 := by omega
        rw [if_neg hfull, if_neg hroom]
        simp only
        by_cases hnegative : 197 < checkpoint.length + (if checkpoint = [] then [] else text "; ").length
        · have halmost : foldedLength done = 196 := by
            have hshort : separatorLength tr.pos ≤ 2 := by
              rw [separatorLength]
              split <;> decide
            omega
          rw [if_pos hnegative]
          refine iff_of_false (by simp) fun hbuffer => ?_
          have hcopy := hbuffer.copies (-1) (copies_foldTrace rows (h.copy_negative halmost (foldText (key, content))))
          omega
        · rw [if_neg hnegative]
          have hnext : foldedLength done < 196 := by
            have hlong := h.separatorLength_eq
            have hdone := foldedLength_pos h.nonempty
            by_cases hnil : done = []
            · rw [hnil, foldedLength]
              omega
            · rw [if_neg hnil] at hlong
              omega
          refine ih (h.copy hnext (foldText_ne_nil hkey)) ?_
          simp only [FoldTrace.copy, foldText, List.length_append, List.length_take]
          push_cast
          omega

/-! ## The rows of the session -/

variable (env : WriterEnv) (s : Store) (sessionId : Text)

/-- The rows that a fold is made of and purges. -/
def Row.OfFold (r : Row) (sessionId : Text) : Prop := r.tier = .L0 ∧ r.sourceSession = sessionId

instance (r : Row) : Decidable (r.OfFold sessionId) := inferInstanceAs (Decidable (_ ∧ _))

/-- What the fold relies on. -/
structure FoldLaws (env : WriterEnv) : Prop where
  db : env.db.Lawful
  listed : ∀ {s sessionId row}, row ∈ env.sessionL0List s sessionId → ∃ i r, s.rows.lookup i = some r ∧ r.OfFold sessionId
  purged : ∀ s sessionId i, (env.sessionL0Purge s sessionId).rows.lookup i =
    (s.rows.lookup i).filter fun r => ¬ r.OfFold sessionId

/-- The insert of a checkpoint. -/
def foldArgs (checkpoint : Text) : InsertArgs where
  tier := .L1
  kind := .episode
  key := (text "session:" ++ sessionId).take 255
  content := checkpoint
  confidence := 8 / 10
  sessionId := sessionId

/-- A row that holds the checkpoint of a session. -/
structure Row.HoldsFold (r : Row) (checkpoint : Text) : Prop where
  tier : r.tier = .L1
  kind : r.kind = .episode
  key : r.key = (env.pf.normalizeKey (foldArgs sessionId checkpoint).key).take 511
  content : r.content = checkpoint

/-- The L0 rows of the session are all there, or an episode holds its checkpoint. -/
def KeepsSession (checkpoint : Text) (s' : Store) : Prop :=
  (∀ i r, s.rows.lookup i = some r → r.OfFold sessionId → (s'.rows.lookup i).isSome) ∨
    ∃ i r, s'.rows.lookup i = some r ∧ r.HoldsFold env sessionId checkpoint

/-- Where the checkpoint goes: past the gate and the scan into the row that its key finds, if the database takes it. -/
def foldLanding (checkpoint : Text) : Option Placement :=
  (prepare env.pf env.db s (foldArgs sessionId checkpoint)).bind fun p =>
    (landingHere env.pf env.db s (foldArgs sessionId checkpoint) p).map Prod.snd

/-- The checkpoint lands in an episode of the session, or stands in one that the insert does not touch. -/
def EpisodeStands (checkpoint : Text) : Prop :=
  (∃ place, foldLanding env s sessionId checkpoint = some place ∧ place.row.HoldsFold env sessionId checkpoint) ∨
    ∃ i r, s.rows.lookup i = some r ∧ r.HoldsFold env sessionId checkpoint ∧
      ∀ place, foldLanding env s sessionId checkpoint = some place → place.id ≠ i

variable {env s sessionId} {checkpoint : Text} {count : ℕ} {a : InsertArgs}

/-- An insert below L2 supersedes nothing. -/
theorem landing_of_tier {pf : Platform} {db : Db2} {n : ℕ} (htier : a.tier ≠ .L2) :
    landing pf db (n + 1) s a = (prepare pf db s a).bind (landingHere pf db s a) ∧ residue pf db (n + 1) s a = s := by
  have hnested : ∀ p, prepare pf db s a = some p → nestedInsert pf db s a p = none := by
    intro p hp
    rw [nestedInsert, supersededRow_of_tier hp htier, Option.bind_none]
  rw [landing, residue]
  cases hp : prepare pf db s a with
  | none => exact ⟨rfl, rfl⟩
  | some p =>
    simp only [Option.bind_some, hnested p hp]
    exact ⟨trivial, trivial⟩

/-- The insert of the checkpoint does nothing, or lands. -/
theorem foldInsert_spec (h : env.db.Lawful) (s : Store) (sessionId checkpoint : Text) :
    (foldLanding env s sessionId checkpoint = none ∧ (memoryInsert env false s (foldArgs sessionId checkpoint)).store = s) ∨
      ∃ place, foldLanding env s sessionId checkpoint = some place ∧
        Landed env.db false s s place (memoryInsert env false s (foldArgs sessionId checkpoint)) := by
  obtain ⟨hland, hresidue⟩ : landing env.pf env.db (s.room + 1) s (foldArgs sessionId checkpoint) =
      (prepare env.pf env.db s (foldArgs sessionId checkpoint)).bind (landingHere env.pf env.db s (foldArgs sessionId checkpoint)) ∧
        residue env.pf env.db (s.room + 1) s (foldArgs sessionId checkpoint) = s := landing_of_tier nofun
  have hfold : foldLanding env s sessionId checkpoint =
      (landing env.pf env.db (s.room + 1) s (foldArgs sessionId checkpoint)).map Prod.snd := by
    rw [hland, foldLanding, Option.map_bind]
    rfl
  rcases memoryInsertEx_spec h (memoryInsert_spec h false s (foldArgs sessionId checkpoint)) with ⟨hnone, hfailed⟩ | ⟨t, place, hsome, hlanded⟩
  · refine .inl ⟨?_, ?_⟩
    · rw [hfold, hnone, Option.map_none]
    · rw [hfailed, hresidue]
      rfl
  · refine .inr ⟨place, ?_, ?_⟩
    · rw [hfold, hsome, Option.map_some]
    · rw [hland] at hsome
      obtain ⟨p, -, hhere⟩ := Option.bind_eq_some_iff.1 hsome
      obtain ⟨rfl, -, -⟩ := landingHere_eq hhere
      exact hlanded

theorem Row.HoldsFold.validFrom_iff {r : Row} (v : Option Text) :
    Row.HoldsFold env sessionId { r with validFrom := v } checkpoint ↔ r.HoldsFold env sessionId checkpoint :=
  ⟨fun h => ⟨h.tier, h.kind, h.key, h.content⟩, fun h => ⟨h.tier, h.kind, h.key, h.content⟩⟩

/-- After the insert an episode holds the checkpoint exactly where one stands. -/
theorem exists_holdsFold_iff (h : env.db.Lawful) :
    (∃ i r, (memoryInsert env false s (foldArgs sessionId checkpoint)).store.rows.lookup i = some r ∧
      r.HoldsFold env sessionId checkpoint) ↔ EpisodeStands env s sessionId checkpoint := by
  unfold EpisodeStands
  rcases foldInsert_spec h s sessionId checkpoint with ⟨hnone, hsame⟩ | ⟨place, hplace, hlanded⟩
  · rw [hsame, hnone]
    simp
  · rw [hplace]
    constructor
    · rintro ⟨i, r, hr, hholds⟩
      rcases hlanded.lookup_cases hr with ⟨-, v, rfl⟩ | ⟨hi, hr⟩
      · exact .inl ⟨place, rfl, (Row.HoldsFold.validFrom_iff v).1 hholds⟩
      · refine .inr ⟨i, r, hr, hholds, fun place' hsame => ?_⟩
        cases hsame
        exact Ne.symm hi
    · rintro (⟨place', hsame, hholds⟩ | ⟨i, r, hr, hholds, haside⟩)
      · cases hsame
        obtain ⟨v, hv⟩ := hlanded.row
        exact ⟨_, _, hv, (Row.HoldsFold.validFrom_iff v).2 hholds⟩
      · exact ⟨i, r, (hlanded.others i (haside place rfl).symm).trans hr, hholds⟩

/-- A row that is folded is one after the insert, whatever the insert makes of it. -/
theorem ofFold_insert (checkpoint : Text) (h : env.db.Lawful) {i : ℤ} {r : Row} (hr : s.rows.lookup i = some r)
    (hfold : r.OfFold sessionId) :
    ∃ r', (memoryInsert env false s (foldArgs sessionId checkpoint)).store.rows.lookup i = some r' ∧ r'.OfFold sessionId := by
  rcases foldInsert_spec h s sessionId checkpoint with ⟨-, hsame⟩ | ⟨place, hplace, hlanded⟩
  · rw [hsame]
    exact ⟨r, hr, hfold⟩
  · by_cases hi : i = place.id
    · obtain ⟨v, hv⟩ := hlanded.row
      refine ⟨_, hi ▸ hv, ?_⟩
      obtain ⟨p, -, hhere⟩ := Option.bind_eq_some_iff.1 hplace
      obtain ⟨⟨t, place'⟩, hland, rfl⟩ := Option.map_eq_some_iff.1 hhere
      obtain ⟨-, hplacement, -⟩ := landingHere_eq hland
      rw [hi, hplacement] at hr
      obtain ⟨content, bonus, details, -, hmerge⟩ := placement_of_lookup h hr
      -- a merge changes neither the tier of a row nor its session
      rw [hplacement, hmerge]
      exact hfold
    · exact ⟨r, (hlanded.others i hi).trans hr, hfold⟩

/-- **A fold that returns keeps the session** exactly where it purges nothing, or an episode of the session holds the
checkpoint. -/
theorem fold_keepsSession_iff (h : FoldLaws env)
    (hreturns : foldCheckpoint (env.sessionL0List s sessionId) [] 0 = some (checkpoint, count)) :
    KeepsSession env s sessionId checkpoint (memoryFoldSession env s sessionId) ↔
      count = 0 ∨ EpisodeStands env s sessionId checkpoint := by
  have hfold : memoryFoldSession env s sessionId = if count = 0 then s
      else env.sessionL0Purge (memoryInsert env false s (foldArgs sessionId checkpoint)).store sessionId := by
    rw [memoryFoldSession, hreturns]
    rfl
  rw [hfold]
  by_cases hcount : count = 0
  · rw [if_pos hcount]
    exact iff_of_true (.inl fun i r hr _ => by rw [hr]; rfl) (.inl hcount)
  · rw [if_neg hcount, or_iff_right hcount, ← exists_holdsFold_iff h.db]
    obtain ⟨i₀, r₀, hr₀, hfold₀⟩ : ∃ i r, s.rows.lookup i = some r ∧ r.OfFold sessionId := by
      cases hlist : env.sessionL0List s sessionId with
      | nil =>
        rw [hlist] at hreturns
        cases hreturns
        exact absurd rfl hcount
      | cons row rows => exact h.listed (hlist ▸ List.mem_cons_self)
    constructor
    · rintro (hpresent | ⟨i, r, hr, hholds⟩)
      · obtain ⟨r', hr', hfold'⟩ := ofFold_insert checkpoint h.db hr₀ hfold₀
        have hthere := hpresent i₀ r₀ hr₀ hfold₀
        rw [h.purged, hr'] at hthere
        simp [hfold'] at hthere
      · rw [h.purged] at hr
        exact ⟨i, r, (Option.filter_eq_some_iff.1 hr).1, hholds⟩
    · rintro ⟨i, r, hr, hholds⟩
      refine .inr ⟨i, r, ?_, hholds⟩
      rw [h.purged, hr]
      have hkept : ¬ r.OfFold sessionId := by
        rintro ⟨htier, -⟩
        rw [hholds.tier] at htier
        cases htier
      simp [hkept]

/-! ## A database to fold in -/

/-- The rows but for the L0 rows of a session. -/
def purgedRows (rows : AList fun _ : ℤ => Row) (sessionId : Text) : AList fun _ : ℤ => Row where
  entries := rows.entries.filter fun e => ¬ e.2.OfFold sessionId
  nodupKeys := rows.nodupKeys.sublist List.filter_sublist

/-- Writers over the reference database, that fold the L0 rows of a session. -/
def foldWriters (pf : Platform) : WriterEnv :=
  { bareWriters with
    pf
    sessionL0List := fun s sessionId =>
      ((s.rows.entries.filter fun e => e.2.OfFold sessionId).map fun e => (e.2.key, e.2.content)).take 64
    sessionL0Purge := fun s sessionId => { s with rows := purgedRows s.rows sessionId } }

theorem foldWriters_laws (pf : Platform) : FoldLaws (foldWriters pf) where
  db := openDb_lawful
  listed hrow := by
    obtain ⟨e, he, rfl⟩ := List.mem_map.1 (List.mem_of_mem_take hrow)
    obtain ⟨hmem, hfold⟩ := List.mem_filter.1 he
    exact ⟨e.1, e.2, AList.mem_lookup_iff.2 hmem, of_decide_eq_true hfold⟩
  purged s sessionId i := by
    refine Option.ext fun r => ?_
    rw [Option.filter_eq_some_iff, ← Option.mem_def, ← Option.mem_def, AList.mem_lookup_iff, AList.mem_lookup_iff]
    simp [foldWriters, purgedRows]

/-- A note of a session. -/
def noteRow : Row := { factRow "todo" "today only" (1 / 2) with tier := .L0, kind := .scratch, sourceSession := text "s" }

/-- The note is kept as an episode where the gate lets it through. -/
theorem note_kept : KeepsSession (foldWriters plainPlatform) (oneRowStore noteRow) (text "s") (text "today only")
    (memoryFoldSession (foldWriters plainPlatform) (oneRowStore noteRow) (text "s")) := by
  have hreturns : foldCheckpoint ((foldWriters plainPlatform).sessionL0List (oneRowStore noteRow) (text "s")) [] 0 =
      some (text "today only", 1) := by decide +kernel
  have hlands : ((foldLanding (foldWriters plainPlatform) (oneRowStore noteRow) (text "s") (text "today only")).map fun place =>
      (place.row.tier, place.row.kind, place.row.key, place.row.content)) =
      some (.L1, .episode, text "session:s", text "today only") := by decide +kernel
  obtain ⟨place, hplace, hrow⟩ := Option.map_eq_some_iff.1 hlands
  simp only [Prod.mk.injEq] at hrow
  obtain ⟨htier, hkind, hkey, hcontent⟩ := hrow
  refine (fold_keepsSession_iff (foldWriters_laws plainPlatform) hreturns).2 (.inr (.inl ⟨place, hplace, htier, hkind, ?_, hcontent⟩))
  rw [hkey]
  decide +kernel

/-- Where the gate takes it for ephemeral, the checkpoint becomes an L0 row of the session, and is purged with the note. -/
theorem ephemeral_lost :
    foldCheckpoint ((foldWriters ephemeralPlatform).sessionL0List (oneRowStore noteRow) (text "s")) [] 0 =
      some (text "today only", 1) ∧
    ¬ KeepsSession (foldWriters ephemeralPlatform) (oneRowStore noteRow) (text "s") (text "today only")
      (memoryFoldSession (foldWriters ephemeralPlatform) (oneRowStore noteRow) (text "s")) := by
  have hempty : (memoryFoldSession (foldWriters ephemeralPlatform) (oneRowStore noteRow) (text "s")).rows.entries = [] := by
    decide +kernel
  have hnone : ∀ i r, (memoryFoldSession (foldWriters ephemeralPlatform) (oneRowStore noteRow) (text "s")).rows.lookup i ≠ some r := by
    intro i r hr
    have hmem := AList.mem_lookup_iff.1 (Option.mem_def.2 hr)
    rw [hempty] at hmem
    exact absurd hmem List.not_mem_nil
  refine ⟨by decide +kernel, ?_⟩
  rintro (hpresent | ⟨i, r, hr, -⟩)
  · obtain ⟨r, hr⟩ := Option.isSome_iff_exists.1 (hpresent 1 noteRow (by decide +kernel) ⟨rfl, rfl⟩)
    exact hnone 1 r hr
  · exact hnone i r hr

end AimeeMemory.Core
