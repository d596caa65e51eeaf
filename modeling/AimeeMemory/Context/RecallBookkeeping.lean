import AimeeMemory.Context.RecallBundle
import AimeeMemory.Core.Prospective

/-!
# What a recall records

`memory_recall` as a whole: it fills the sections, trims them, and records what it has
shown. Directives are marked as surfaced while their section is filled, before the trim, and
the ids that are reported as evidence come from reminders and directives too, and with
repetitions. `memoryRecall_bookkeeping_iff` says for which stores that is what was shown.

## Honest scope

The lookups are parameters, and the stores are as the sweeps of expired rows leave them.
Ids are numbers that a double holds. Elapsed times and metrics are left out, and of the
event that is written for a recall all but the ids.
-/

namespace AimeeMemory.Context

open AimeeMemory.Core AimeeMemory.Lib

/-! ## Filling the sections -/

/-- The rows that `db2_memory_list_recall_section` lists. -/
inductive RecallQuery where
  | identity
  | preferences
  | activeContext
  | openCommitments
  deriving DecidableEq, Repr

structure RecallRow where
  id : ℤ
  tier : Text
  kind : Text
  key : Text
  content : Text
  deriving DecidableEq, Repr

structure HardRule where
  id : ℤ
  polarity : Text
  title : Text
  description : Text
  weight : ℤ
  deriving DecidableEq, Repr

/-- The lookups of a recall, each with the size of its buffer. -/
structure RecallDb where
  rulesListHard : ℕ → List HardRule
  listRecallSection : RecallQuery → ℕ → List RecallRow
  prospective : ProspectiveDb
  directives : DirectiveDb

/-- `recall_fill_from_rows`. -/
def recallFillFromRows (rows : List RecallRow) (why : Text) (maxRows : ℕ) : List RecallItem :=
  (rows.take maxRows).map fun r => .row r.id r.tier r.kind r.key r.content why

/-- A section of memory rows. -/
def recallFillMemories (db : RecallDb) (query : RecallQuery) (why : Text) (maxRows : ℕ) : List RecallItem :=
  recallFillFromRows (db.listRecallSection query (min maxRows 64)) why maxRows

def recallFillIdentity (db : RecallDb) : ℕ → List RecallItem :=
  recallFillMemories db .identity (text "identity key prefix")

def recallFillPreferences (db : RecallDb) : ℕ → List RecallItem :=
  recallFillMemories db .preferences (text "stable preference")

def recallFillActiveContext (db : RecallDb) : ℕ → List RecallItem :=
  recallFillMemories db .activeContext (text "recent active context")

def recallFillOpenCommitments (db : RecallDb) : ℕ → List RecallItem :=
  recallFillMemories db .openCommitments (text "pending commitment")

def recallFillReminders (db : RecallDb) (taskHint : Option Text) (maxRows : ℕ) : List RecallItem :=
  (memoryProspectiveMatch db.prospective taskHint none none (min maxRows db.prospective.maxMatches : ℕ)).out.map
    fun r => .row r.id [] (text "reminder") r.triggerText r.actionText (text "prospective matcher fired")

/-- The directives that a recall reads: those that match the hint, or the open ones. -/
def recallDirectives (db : RecallDb) (taskHint : Option Text) (maxRows : ℕ) : List Directive :=
  let cap := min maxRows db.directives.maxMatches
  let rows := if given taskHint then (memoryDirectiveMatch db.directives taskHint none none cap).out else []
  if rows = [] then db.directives.listOpen cap else rows

/-- `memory_directive_mark_surfaced`: the ids it records. -/
def markSurfaced (id : ℤ) : Option ℤ := if id ≤ 0 then none else some id

/-- `recall_fill_directives`: the items, and the ids it marks as surfaced. -/
def recallFillDirectives (db : RecallDb) (taskHint : Option Text) (maxRows : ℕ) : List RecallItem × List ℤ :=
  if maxRows = 0 then ([], [])
  else
    let rows := recallDirectives db taskHint maxRows
    (rows.map fun d =>
        .row d.id [] (text "directive") d.topic d.question ((text "directive:" ++ d.cause).take 63),
      rows.filterMap fun d => markSurfaced d.id)

def recallFillAlwaysOnRules (db : RecallDb) (maxRows : ℕ) : List RecallItem :=
  (db.rulesListHard (min maxRows 32)).map fun r => .rule r.id r.polarity r.title r.description r.weight

/-- The caps of the sections, at the start of a session and in a turn. -/
def sectionCap (sessionStart : Bool) : RecallSection → ℕ
  | .alwaysOnRules => if sessionStart then 16 else 8
  | .identity => if sessionStart then 6 else 3
  | .preferences => if sessionStart then 8 else 4
  | .activeContext => if sessionStart then 10 else 5
  | .openCommitments => if sessionStart then 6 else 3
  | .reminders => if sessionStart then 5 else 3
  | .directives => if sessionStart then 5 else 2

/-- The bundle before the trim. -/
def recallFill (db : RecallDb) (taskHint : Option Text) (limitTokens : ℤ) (sessionStart : Bool) : RecallBundle where
  sessionStart := sessionStart
  limitTokens := limitTokens
  sections
    | .alwaysOnRules => recallFillAlwaysOnRules db (sectionCap sessionStart .alwaysOnRules)
    | .identity => recallFillIdentity db (sectionCap sessionStart .identity)
    | .preferences => recallFillPreferences db (sectionCap sessionStart .preferences)
    | .activeContext => recallFillActiveContext db (sectionCap sessionStart .activeContext)
    | .openCommitments => recallFillOpenCommitments db (sectionCap sessionStart .openCommitments)
    | .reminders => recallFillReminders db taskHint (sectionCap sessionStart .reminders)
    | .directives => (recallFillDirectives db taskHint (sectionCap sessionStart .directives)).1

/-! ## The recall -/

/-- The `memory_id`s of a section. -/
def sectionIds (b : RecallBundle) (s : RecallSection) : List ℤ := (b.sections s).filterMap RecallItem.memoryId

/-- `recall_collect_ids`. -/
def recallCollectIds (b : RecallBundle) (max : ℕ) : List ℤ :=
  (([.identity, .preferences, .activeContext, .openCommitments, .reminders, .directives] : List RecallSection).flatMap
    (sectionIds b)).take max

/-- What a recall returns and records. -/
structure Recalled where
  bundle : RecallBundle
  approxTokens : ℤ
  /-- The directives marked as surfaced. -/
  surfaced : List ℤ
  /-- The ids reported as retrieval evidence. -/
  evidence : List ℤ

/-- `memory_recall`. -/
def memoryRecall (limits : RecallLimits) (db : RecallDb) (tokens : RecallBundle → ℤ) (taskHint : Option Text)
    (limitTokens : ℤ) (sessionStart : Bool) : Recalled :=
  let limit := limits.clamp limitTokens sessionStart
  let bundle := recallTrim tokens (recallFill db taskHint limit sessionStart) limit
  { bundle
    approxTokens := tokens bundle
    surfaced := (recallFillDirectives db taskHint (sectionCap sessionStart .directives)).2
    evidence := recallCollectIds bundle 256 }

/-! ## What was shown -/

/-- The sections of memory rows. -/
def memorySections : List RecallSection := [.identity, .preferences, .activeContext, .openCommitments]

/-- The ids of the memory rows of a bundle. -/
def memoryIds (b : RecallBundle) : List ℤ := memorySections.flatMap (sectionIds b)

/-- What is recorded is what was shown: the directives of the bundle, and the memory rows of
the bundle, each once. -/
structure Bookkeeping (r : Recalled) : Prop where
  surfaced : ∀ id, id ∈ r.surfaced ↔ id ∈ sectionIds r.bundle .directives
  distinct : r.evidence.Nodup
  evidence : ∀ id, id ∈ r.evidence ↔ id ∈ memoryIds r.bundle

/-- A bundle of which every id is that of a memory row, and of one only. -/
structure OnlyMemories (b : RecallBundle) : Prop where
  reminders : b.sections .reminders = []
  directives : b.sections .directives = []
  distinct : (memoryIds b).Nodup

/-- No directive is marked while the sections are filled, and of the filled sections
every beginning that is within the limit has memory rows only, and none twice. -/
structure FillFits (limits : RecallLimits) (db : RecallDb) (tokens : RecallBundle → ℤ) (taskHint : Option Text)
    (limitTokens : ℤ) (sessionStart : Bool) : Prop where
  unmarked : ∀ d ∈ recallDirectives db taskHint (sectionCap sessionStart .directives), d.id ≤ 0
  within : ∀ n,
    tokens ((recallFill db taskHint (limits.clamp limitTokens sessionStart) sessionStart).first n) ≤
        limits.clamp limitTokens sessionStart →
      OnlyMemories ((recallFill db taskHint (limits.clamp limitTokens sessionStart) sessionStart).first n)

/-! ### Ids -/

/-- A list goes on with nothing when its beginning has all that is in it, once. -/
theorem nodup_take_append_iff {xs ys : List ℤ} {k : ℕ} (hk : xs.length < k) :
    (((xs ++ ys).take k).Nodup ∧ ∀ x, x ∈ (xs ++ ys).take k ↔ x ∈ xs) ↔ ys = [] ∧ xs.Nodup := by
  have htake : (xs ++ ys).take k = xs ++ ys.take (k - xs.length) := by
    rw [List.take_append, List.take_of_length_le hk.le]
  rw [htake]
  constructor
  · rintro ⟨hnodup, hmem⟩
    rw [List.nodup_append'] at hnodup
    refine ⟨?_, hnodup.1⟩
    cases ys with
    | nil => rfl
    | cons y ys =>
      have hy : y ∈ (y :: ys).take (k - xs.length) := by
        rw [show k - xs.length = (k - xs.length - 1) + 1 by omega, List.take_succ_cons]
        exact List.mem_cons_self
      exact absurd hy (hnodup.2.2 ((hmem y).1 (List.mem_append_right _ hy)))
  · rintro ⟨rfl, hnodup⟩
    rw [List.take_nil, List.append_nil]
    exact ⟨hnodup, fun _ => Iff.rfl⟩

theorem recallCollectIds_eq (b : RecallBundle) (max : ℕ) :
    recallCollectIds b max = (memoryIds b ++ (sectionIds b .reminders ++ sectionIds b .directives)).take max := by
  simp [recallCollectIds, memoryIds, memorySections]

theorem sectionIds_beginning {b c : RecallBundle} {s : RecallSection} (h : b.sections s <+: c.sections s) :
    (sectionIds b s).Sublist (sectionIds c s) :=
  h.sublist.filterMap _

theorem memoryIds_sublist {b c : RecallBundle} (h : ∀ s, b.sections s <+: c.sections s) :
    (memoryIds b).Sublist (memoryIds c) := by
  simp only [memoryIds, memorySections, List.flatMap_cons, List.flatMap_nil]
  refine .append (sectionIds_beginning (h _)) (.append (sectionIds_beginning (h _)) ?_)
  exact .append (sectionIds_beginning (h _)) (.append (sectionIds_beginning (h _)) (.refl _))

theorem first_prefix_first (b : RecallBundle) {n m : ℕ} (h : n ≤ m) (s : RecallSection) :
    (b.first n).sections s <+: (b.first m).sections s :=
  List.take_prefix_take_left (Nat.sub_le_sub_right h _)

/-- What begins a bundle of memory rows is one. -/
theorem OnlyMemories.mono {b c : RecallBundle} (h : OnlyMemories c) (hbc : ∀ s, b.sections s <+: c.sections s) :
    OnlyMemories b := by
  refine ⟨?_, ?_, h.distinct.sublist (memoryIds_sublist hbc)⟩
  · exact List.prefix_nil.1 (h.reminders ▸ hbc .reminders)
  · exact List.prefix_nil.1 (h.directives ▸ hbc .directives)

/-! ### The filled bundle -/

variable {db : RecallDb} {taskHint : Option Text} {limit : ℤ} {sessionStart : Bool}

theorem length_recallFillMemories_le (query : RecallQuery) (why : Text) (maxRows : ℕ) :
    (recallFillMemories db query why maxRows).length ≤ maxRows := by
  rw [recallFillMemories, recallFillFromRows, List.length_map]
  exact List.length_take_le _ _

/-- The caps leave room for every id of a memory row. -/
theorem length_memoryIds_lt {b : RecallBundle}
    (h : ∀ s, b.sections s <+: (recallFill db taskHint limit sessionStart).sections s) : (memoryIds b).length < 256 := by
  have hcap : ∀ s, sectionCap sessionStart s ≤ 16 := by
    intro s
    cases s <;> cases sessionStart <;> decide
  have hsection : ∀ s query why, (recallFill db taskHint limit sessionStart).sections s =
      recallFillMemories db query why (sectionCap sessionStart s) → (sectionIds b s).length ≤ 16 := by
    intro s query why hs
    calc (sectionIds b s).length ≤ (b.sections s).length := List.length_filterMap_le _ _
      _ ≤ (recallFillMemories db query why (sectionCap sessionStart s)).length := hs ▸ (h s).length_le
      _ ≤ 16 := (length_recallFillMemories_le _ _ _).trans (hcap s)
  simp only [memoryIds, memorySections, List.flatMap_cons, List.flatMap_nil, List.length_append, List.length_nil]
  have hidentity := hsection .identity _ _ rfl
  have hpreferences := hsection .preferences _ _ rfl
  have hcontext := hsection .activeContext _ _ rfl
  have hcommitments := hsection .openCommitments _ _ rfl
  omega

theorem recallFillDirectives_fst (db : RecallDb) (taskHint : Option Text) {maxRows : ℕ} (h : 0 < maxRows) :
    (recallFillDirectives db taskHint maxRows).1 = (recallDirectives db taskHint maxRows).map fun d =>
      .row d.id [] (text "directive") d.topic d.question ((text "directive:" ++ d.cause).take 63) := by
  rw [recallFillDirectives, if_neg (by omega)]

theorem recallFillDirectives_snd (db : RecallDb) (taskHint : Option Text) {maxRows : ℕ} (h : 0 < maxRows) :
    (recallFillDirectives db taskHint maxRows).2 =
      (recallDirectives db taskHint maxRows).filterMap fun d => markSurfaced d.id := by
  rw [recallFillDirectives, if_neg (by omega)]

theorem sectionCap_pos (sessionStart : Bool) (s : RecallSection) : 0 < sectionCap sessionStart s := by
  cases s <;> cases sessionStart <;> decide

/-- The items of reminders and directives have ids. -/
theorem isSome_memoryId {s : RecallSection} (hs : s = .reminders ∨ s = .directives) {item : RecallItem}
    (h : item ∈ (recallFill db taskHint limit sessionStart).sections s) : item.memoryId.isSome := by
  rcases hs with rfl | rfl
  · obtain ⟨r, -, rfl⟩ := List.mem_map.1 h
    rfl
  · have hfst := recallFillDirectives_fst db taskHint (sectionCap_pos sessionStart .directives)
    rw [show (recallFill db taskHint limit sessionStart).sections .directives = _ from hfst] at h
    obtain ⟨d, -, rfl⟩ := List.mem_map.1 h
    rfl

theorem sectionIds_eq_nil_iff {b : RecallBundle} {s : RecallSection} (hs : s = .reminders ∨ s = .directives)
    (h : b.sections s <+: (recallFill db taskHint limit sessionStart).sections s) :
    sectionIds b s = [] ↔ b.sections s = [] := by
  rw [sectionIds, List.filterMap_eq_nil_iff]
  constructor
  · intro hnone
    rw [List.eq_nil_iff_forall_not_mem]
    intro item hitem
    have hsome := isSome_memoryId hs (h.subset hitem)
    rw [hnone item hitem] at hsome
    cases hsome
  · intro hnil
    rw [hnil]
    exact fun _ h => by cases h

/-- The ids that are reported are those of the memory rows, each once, exactly when
the bundle has memory rows only. -/
theorem evidence_iff {b : RecallBundle} (h : ∀ s, b.sections s <+: (recallFill db taskHint limit sessionStart).sections s) :
    ((recallCollectIds b 256).Nodup ∧ ∀ id, id ∈ recallCollectIds b 256 ↔ id ∈ memoryIds b) ↔ OnlyMemories b := by
  rw [recallCollectIds_eq, nodup_take_append_iff (length_memoryIds_lt h), List.append_eq_nil_iff,
    sectionIds_eq_nil_iff (.inl rfl) (h _), sectionIds_eq_nil_iff (.inr rfl) (h _)]
  constructor
  · rintro ⟨⟨hreminders, hdirectives⟩, hdistinct⟩
    exact ⟨hreminders, hdirectives, hdistinct⟩
  · exact fun hb => ⟨⟨hb.reminders, hb.directives⟩, hb.distinct⟩

/-- Nothing is marked exactly when no directive has a positive id. -/
theorem surfaced_eq_nil_iff :
    (recallFillDirectives db taskHint (sectionCap sessionStart .directives)).2 = [] ↔
      ∀ d ∈ recallDirectives db taskHint (sectionCap sessionStart .directives), d.id ≤ 0 := by
  rw [recallFillDirectives_snd db taskHint (sectionCap_pos sessionStart .directives), List.filterMap_eq_nil_iff]
  refine forall_congr' fun d => forall_congr' fun _ => ?_
  rw [markSurfaced]
  split <;> simp_all

theorem onlyMemories_first_zero (b : RecallBundle) : OnlyMemories (b.first 0) := by
  refine ⟨first_zero b _, first_zero b _, ?_⟩
  simp [memoryIds, memorySections, sectionIds, first_zero]

/-- Where the longest beginning within a limit has memory rows only, every beginning within
the limit has. -/
theorem OnlyMemories.within {tokens : RecallBundle → ℤ} {b : RecallBundle} {m n : ℕ} (honly : OnlyMemories (b.first m))
    (hheavy : ∀ n, m < n → n ≤ itemsIn b.sections trimOrder → limit < tokens (b.first n))
    (hn : tokens (b.first n) ≤ limit) : OnlyMemories (b.first n) := by
  by_cases hnm : n ≤ m
  · exact honly.mono (first_prefix_first b hnm)
  · have hfull : itemsIn b.sections trimOrder < n := by
      by_contra hle
      exact absurd hn (not_le.2 (hheavy n (by omega) (Nat.not_lt.1 hle)))
    rw [first_of_full hfull.le] at hn ⊢
    have hall : itemsIn b.sections trimOrder ≤ m := by
      by_contra hlt
      have hover := hheavy (itemsIn b.sections trimOrder) (Nat.not_le.1 hlt) le_rfl
      rw [first_of_full le_rfl] at hover
      exact absurd hn (not_le.2 hover)
    rwa [first_of_full hall] at honly

/-- What a recall records is what it has shown, for every store, hint and limit, exactly when
no directive is marked and every beginning of the filled sections within the limit has
memory rows only. -/
theorem memoryRecall_bookkeeping_iff (limits : RecallLimits) (db : RecallDb) (tokens : RecallBundle → ℤ)
    (taskHint : Option Text) (limitTokens : ℤ) (sessionStart : Bool) :
    Bookkeeping (memoryRecall limits db tokens taskHint limitTokens sessionStart) ↔
      FillFits limits db tokens taskHint limitTokens sessionStart := by
  have hpos := limits.clamp_pos limitTokens sessionStart
  generalize hlimit : limits.clamp limitTokens sessionStart = limit at hpos
  generalize hfilled : recallFill db taskHint limit sessionStart = filled
  obtain ⟨m, heq, hle, hlight, hheavy⟩ := recallTrim_eq_first tokens filled hpos
  have hbundle : (memoryRecall limits db tokens taskHint limitTokens sessionStart).bundle = filled.first m := by
    rw [← heq, ← hfilled, ← hlimit]
    rfl
  have hprefix : ∀ s, (filled.first m).sections s <+: (recallFill db taskHint limit sessionStart).sections s :=
    fun s => hfilled ▸ cut_prefix s
  have hevidence : (memoryRecall limits db tokens taskHint limitTokens sessionStart).evidence =
      recallCollectIds (filled.first m) 256 := by
    rw [← hbundle]
    rfl
  constructor
  · intro hbook
    have hids := hbook.evidence
    have hdistinct := hbook.distinct
    rw [hevidence] at hids hdistinct
    rw [hbundle] at hids
    have honly : OnlyMemories (filled.first m) := (evidence_iff hprefix).1 ⟨hdistinct, hids⟩
    refine ⟨?_, ?_⟩
    · apply surfaced_eq_nil_iff.1
      rw [List.eq_nil_iff_forall_not_mem]
      intro id hid
      have hshown := (hbook.surfaced id).1 hid
      rw [hbundle, sectionIds, honly.directives] at hshown
      cases hshown
    · rw [hlimit, hfilled]
      exact fun n hn => honly.within hheavy hn
  · intro hfits
    have hwithin := hfits.within
    rw [hlimit, hfilled] at hwithin
    have honly : OnlyMemories (filled.first m) := by
      rcases hlight with hlight | rfl
      · exact hwithin m hlight
      · exact onlyMemories_first_zero filled
    obtain ⟨hdistinct, hids⟩ := (evidence_iff hprefix).2 honly
    refine ⟨?_, hevidence ▸ hdistinct, ?_⟩
    · intro id
      have hnone : (memoryRecall limits db tokens taskHint limitTokens sessionStart).surfaced = [] :=
        surfaced_eq_nil_iff.2 hfits.unmarked
      rw [hnone, hbundle, sectionIds, honly.directives]
      rfl
    · rw [hevidence, hbundle]
      exact hids

/-- Memory 7 is somebody's name, and directive 7 is open. -/
def namesakes : RecallDb where
  rulesListHard _ := []
  listRecallSection query _ :=
    if query = .identity then [⟨7, text "L2", text "fact", text "identity:name", text "Ada"⟩] else []
  prospective := { crowdedReminders with listByEntity := fun _ _ => [] }
  directives := { crowdedDirectives with listOpen := fun _ => [⟨7, text "name", text "Which name?", text "missing_config"⟩] }

def someLimits : RecallLimits := { defaultSession := 1200, defaultTurn := 600, min := 20, max := 4000 }

/-- 25 tokens for an item. -/
def itemTokens (b : RecallBundle) : ℤ := 25 * itemsIn b.sections trimOrder

/-- With room for both, 7 is reported twice; without room, the directive is marked all the same. -/
theorem memoryRecall_bookkeeping_fails :
    ¬ Bookkeeping (memoryRecall someLimits namesakes itemTokens none 100 true) ∧
    ¬ Bookkeeping (memoryRecall someLimits namesakes itemTokens none 20 true) := by
  constructor
  · intro h
    have htwice : (memoryRecall someLimits namesakes itemTokens none 100 true).evidence = [7, 7] := by decide +kernel
    have hdistinct := h.distinct
    rw [htwice] at hdistinct
    exact absurd hdistinct (by decide)
  · intro h
    have hmarked : (memoryRecall someLimits namesakes itemTokens none 20 true).surfaced = [7] := by decide +kernel
    have hshown : sectionIds (memoryRecall someLimits namesakes itemTokens none 20 true).bundle .directives = [] := by
      decide +kernel
    have hiff := h.surfaced 7
    rw [hmarked, hshown] at hiff
    exact absurd (hiff.1 (by decide)) (by decide)

/-! ### The directives alone -/

theorem recallFillDirectives_ids (hpos : ∀ d ∈ recallDirectives db taskHint (sectionCap sessionStart .directives), 0 < d.id) :
    (recallFillDirectives db taskHint (sectionCap sessionStart .directives)).2 =
      (recallDirectives db taskHint (sectionCap sessionStart .directives)).map Directive.id := by
  rw [recallFillDirectives_snd db taskHint (sectionCap_pos sessionStart .directives), ← List.filterMap_eq_map]
  refine List.filterMap_congr fun d hd => ?_
  rw [markSurfaced, if_neg (by have := hpos d hd; omega)]
  rfl

theorem sectionIds_first_directives (n : ℕ) :
    sectionIds ((recallFill db taskHint limit sessionStart).first n) .directives =
      ((recallDirectives db taskHint (sectionCap sessionStart .directives)).map Directive.id).take
        (n - above trimOrder (recallFill db taskHint limit sessionStart).sections .directives) := by
  have hfst := recallFillDirectives_fst db taskHint (sectionCap_pos sessionStart .directives)
  show List.filterMap _ (((recallFillDirectives db taskHint (sectionCap sessionStart .directives)).1).take _) = _
  rw [hfst, ← List.map_take, List.filterMap_map, ← List.map_take, ← List.filterMap_eq_map]
  rfl

/-- The directives are trimmed before all the others. -/
theorem itemsIn_recallFill (db : RecallDb) (taskHint : Option Text) (limit : ℤ) (sessionStart : Bool) :
    itemsIn (recallFill db taskHint limit sessionStart).sections trimOrder =
      (recallDirectives db taskHint (sectionCap sessionStart .directives)).length +
        above trimOrder (recallFill db taskHint limit sessionStart).sections .directives := by
  have hlen : ((recallFill db taskHint limit sessionStart).sections .directives).length =
      (recallDirectives db taskHint (sectionCap sessionStart .directives)).length := by
    show (recallFillDirectives db taskHint (sectionCap sessionStart .directives)).1.length = _
    rw [recallFillDirectives_fst db taskHint (sectionCap_pos sessionStart .directives), List.length_map]
  rw [trimOrder, itemsIn_cons, hlen]
  exact congrArg _ (above_eq List.not_mem_nil _).symm

/-- Of distinct directives, those marked are those shown exactly when there are none or nothing
is trimmed. -/
theorem surfaced_iff (limits : RecallLimits) (tokens : RecallBundle → ℤ) (limitTokens : ℤ)
    (hpos : ∀ d ∈ recallDirectives db taskHint (sectionCap sessionStart .directives), 0 < d.id)
    (hdistinct : ((recallDirectives db taskHint (sectionCap sessionStart .directives)).map Directive.id).Nodup) :
    (∀ id, id ∈ (memoryRecall limits db tokens taskHint limitTokens sessionStart).surfaced ↔
        id ∈ sectionIds (memoryRecall limits db tokens taskHint limitTokens sessionStart).bundle .directives) ↔
      recallDirectives db taskHint (sectionCap sessionStart .directives) = [] ∨
        tokens (recallFill db taskHint (limits.clamp limitTokens sessionStart) sessionStart) ≤
          limits.clamp limitTokens sessionStart := by
  have hlimit := limits.clamp_pos limitTokens sessionStart
  generalize hl : limits.clamp limitTokens sessionStart = limit at hlimit
  obtain ⟨m, heq, hle, hlight, hheavy⟩ := recallTrim_eq_first tokens (recallFill db taskHint limit sessionStart) hlimit
  have hbundle : (memoryRecall limits db tokens taskHint limitTokens sessionStart).bundle =
      (recallFill db taskHint limit sessionStart).first m := by
    rw [← heq, ← hl]
    rfl
  have hmarked : (memoryRecall limits db tokens taskHint limitTokens sessionStart).surfaced =
      (recallDirectives db taskHint (sectionCap sessionStart .directives)).map Directive.id :=
    recallFillDirectives_ids hpos
  have hcount := itemsIn_recallFill db taskHint limit sessionStart
  rw [hmarked, hbundle, sectionIds_first_directives]
  constructor
  · intro hiff
    by_cases hnil : recallDirectives db taskHint (sectionCap sessionStart .directives) = []
    · exact .inl hnil
    · right
      have hlen := List.Nodup.length_le_of_subset hdistinct fun id hid => (hiff id).1 hid
      have hpos' := List.length_pos_iff.2 hnil
      rw [List.length_take, List.length_map] at hlen
      have hm : m = itemsIn (recallFill db taskHint limit sessionStart).sections trimOrder := by omega
      rw [first_of_full hm.ge] at hlight
      exact hlight.resolve_right (by omega)
  · rintro (hnil | hfits) id
    · rw [hnil, List.map_nil, List.take_nil]
    · have hm : itemsIn (recallFill db taskHint limit sessionStart).sections trimOrder ≤ m := by
        by_contra hlt
        have hover := hheavy _ (Nat.not_le.1 hlt) le_rfl
        rw [first_of_full le_rfl] at hover
        omega
      rw [List.take_of_length_le (by rw [List.length_map]; omega)]

end AimeeMemory.Context
