import AimeeMemory.Core.Writers
import AimeeMemory.Lib.Trace

/-!
# Patterns beside their sources

`memory_synthesize_l5_patterns` of `memory_core_tiers.c` makes a pattern of each candidate and
stores it by the general insert, under the source's key with a prefix and cut to 200 bytes.
The insert is free to merge: into the row that has the key, or into the first fact whose key
is nearly the same. Its return does not say so.

## What is proved

* `synthesisStep_cases`: what one candidate does to the store.
* **`additive_iff`**: the patterns are additive exactly when each that is written is a new row,
  is not downgraded, and its link is taken.
* **`longKeys_merge`**: two sources whose keys agree in their first 200 bytes get one pattern,
  which holds the content of the second.
-/

namespace AimeeMemory.Core

open AimeeMemory.Lib

variable {env : WriterEnv} {s t u : Store} {a : InsertArgs} {p : Prepared}

/-! ### The synthesis with its patterns -/

/-- The store, and the patterns that were counted: each candidate with the row that was returned for it. -/
structure Synthesis where
  store : Store
  made : List (L5Candidate × ℤ) := []

/-- The link of a pattern to its source. -/
def synthesizesLink (id sourceId : ℤ) : Link := ⟨id, sourceId, text "synthesizes"⟩

/-- `synthesizePattern`, with the pattern. -/
def synthesisStep (env : WriterEnv) (t : Synthesis) (c : L5Candidate) : Synthesis where
  store := (synthesizePattern env (t.store, t.made.length) c).1
  made :=
    if c.srcKey = [] ∨ c.srcContent = [] then t.made
    else
      let r := memoryInsert env true t.store (l5Args c)
      if r.ok then t.made ++ [(c, r.id)] else t.made

/-- What a candidate of the database is: its source is a row, which nothing has been synthesized from. -/
structure Candidates (s : Store) (candidates : List L5Candidate) : Prop where
  source : ∀ c ∈ candidates, (s.rows.lookup c.sourceId).isSome
  noSynthesis : ∀ c ∈ candidates, ∀ l ∈ s.links, l.relation = text "synthesizes" → l.targetId ≠ c.sourceId

/-- The synthesis adds to the store: no row's content changes, and each pattern that is counted is a new L5 row,
distinct from its source and from the other patterns, with a link to its source. -/
structure Additive (s : Store) (t : Synthesis) : Prop where
  contents : ∀ i r, s.rows.lookup i = some r → ∃ r', t.store.rows.lookup i = some r' ∧ r'.content = r.content
  new : ∀ m ∈ t.made, s.rows.lookup m.2 = none ∧ m.2 ≠ m.1.sourceId
  tier : ∀ m ∈ t.made, ∃ r, t.store.rows.lookup m.2 = some r ∧ r.tier = .L5
  distinct : (t.made.map Prod.snd).Nodup
  linked : ∀ m ∈ t.made, synthesizesLink m.2 m.1.sourceId ∈ t.store.links

/-- A pattern that is written goes to a new row, above the scratch tier, and is linked. -/
def PatternApart (env : WriterEnv) (t : Synthesis) (c : L5Candidate) : Prop :=
  c.srcKey ≠ [] → c.srcContent ≠ [] → ∀ p, prepare env.pf env.db t.store (l5Args c) = some p →
    env.db.accepts (placement env.pf env.db t.store (l5Args c) p).write →
    mergePlacement env.pf env.db t.store (l5Args c) p = none ∧
      (memoryGateCheck env.pf env.db t.store .L5 (l5Args c).key (l5Args c).content (l5Args c).confidence).result ≠
        .downgrade ∧
      env.db.accepts (.linkCreate (synthesizesLink (env.db.newId t.store) c.sourceId))

/-- The synthesis is `memory_synthesize_l5_patterns`. -/
theorem run_synthesis (candidates : List L5Candidate) (t : Synthesis) :
    candidates.foldl (synthesizePattern env) (t.store, t.made.length) =
      ((run (synthesisStep env) t candidates).store, (run (synthesisStep env) t candidates).made.length) := by
  induction candidates generalizing t with
  | nil => rfl
  | cons c candidates ih =>
    have hstep : synthesizePattern env (t.store, t.made.length) c =
        ((synthesisStep env t c).store, (synthesisStep env t c).made.length) := by
      simp only [synthesisStep, synthesizePattern]
      split_ifs <;> simp
    rw [List.foldl_cons, hstep, ih]
    rfl

theorem memorySynthesizeL5Patterns_eq {candidates : List L5Candidate} (h : env.l5PatternCandidates s = some candidates) :
    memorySynthesizeL5Patterns env s =
      ((run (synthesisStep env) ⟨s, []⟩ candidates).store,
        some (run (synthesisStep env) ⟨s, []⟩ candidates).made.length) := by
  have hrun : candidates.foldl (synthesizePattern env) (s, 0) =
      ((run (synthesisStep env) ⟨s, []⟩ candidates).store, (run (synthesisStep env) ⟨s, []⟩ candidates).made.length) :=
    run_synthesis candidates ⟨s, []⟩
  simp only [memorySynthesizeL5Patterns, h, hrun]

/-! ### One candidate -/

/-- What a candidate that is written does: its placement's row is set, and the link is there if it is taken. -/
structure Written (env : WriterEnv) (t u : Synthesis) (c : L5Candidate) (p : Prepared) : Prop where
  rows : ∀ i, u.store.rows.lookup i = if i = (placement env.pf env.db t.store (l5Args c) p).id
    then some (placement env.pf env.db t.store (l5Args c) p).row else t.store.rows.lookup i
  links : u.store.links = t.store.links ++
    if env.db.accepts (.linkCreate (synthesizesLink (placement env.pf env.db t.store (l5Args c) p).id c.sourceId))
    then [synthesizesLink (placement env.pf env.db t.store (l5Args c) p).id c.sourceId] else []
  made : u.made = t.made ++ [(c, (placement env.pf env.db t.store (l5Args c) p).id)]

/-- A candidate is passed over, or written where its pattern is placed. -/
theorem synthesisStep_cases (h : env.db.Lawful) (t : Synthesis) (c : L5Candidate) :
    (synthesisStep env t c = t ∧ PatternApart env t c) ∨
      ∃ p, c.srcKey ≠ [] ∧ c.srcContent ≠ [] ∧ prepare env.pf env.db t.store (l5Args c) = some p ∧
        env.db.accepts (placement env.pf env.db t.store (l5Args c) p).write ∧
        Written env t (synthesisStep env t c) c p := by
  by_cases hempty : c.srcKey = [] ∨ c.srcContent = []
  · refine .inl ⟨?_, fun hkey hcontent => absurd hempty (by tauto)⟩
    simp only [synthesisStep, synthesizePattern, if_pos hempty]
  have htier : (l5Args c).tier ≠ .L2 := by simp [l5Args]
  have hinsert : memoryInsert env true t.store (l5Args c) = _ := memoryInsert_below true htier
  simp only [synthesisStep, synthesizePattern, if_neg hempty, hinsert]
  cases hp : prepare env.pf env.db t.store (l5Args c) with
  | none =>
    exact .inl ⟨by simp [failed], fun _ _ p hp' => absurd (hp.symm.trans hp') (by simp)⟩
  | some p =>
    cases hacc : env.db.accepts (placement env.pf env.db t.store (l5Args c) p).write with
    | false =>
      refine .inl ⟨?_, fun _ _ p' hp' hacc' => ?_⟩
      · simp [mergeOrInsert_refused h _ _ p hacc, failed]
      · obtain rfl : p = p' := Option.some.inj (hp.symm.trans hp')
        rw [hacc] at hacc'
        cases hacc'
    | true =>
      obtain ⟨hok, hid, hrows, hlinks, -⟩ := mergeOrInsert_store h t.store (l5Args c) p hacc
      refine .inr ⟨p, by tauto, by tauto, rfl, hacc, ?_⟩
      simp only [hok, if_true, hid, h.attempt_linkCreate]
      exact ⟨fun i => by rw [hrows, lookup_placement h], by rw [hlinks]; rfl, rfl⟩

/-- Where no row is found to merge with, the pattern is a new row of the tier that the gate leaves. -/
theorem placement_fresh {pf : Platform} {db : Db2} (hp : prepare pf db s a = some p) (hnone : mergePlacement pf db s a p = none) :
    (placement pf db s a p).id = db.newId s ∧ (placement pf db s a p).row.tier =
      if (memoryGateCheck pf db s a.tier a.key a.content a.confidence).result = .downgrade then .L0 else a.tier := by
  rw [placement, hnone, Option.getD_none]
  exact ⟨rfl, (prepare_spec hp).1⟩

/-- A merge goes to a row of the store, and keeps its tier. -/
theorem placement_tier {pf : Platform} {db : Db2} (h : db.Lawful) {r : Row}
    (hr : s.rows.lookup (placement pf db s a p).id = some r) : (placement pf db s a p).row.tier = r.tier := by
  obtain ⟨content, bonus, details, -, hmerge⟩ := placement_of_lookup h hr
  rw [hmerge]
  rfl

/-! ### What later candidates keep -/

/-- What the steps of a synthesis never take back. -/
structure Synthesis.Grows (env : WriterEnv) (t u : Synthesis) : Prop where
  made : t.made <+: u.made
  tier : ∀ i r, t.store.rows.lookup i = some r → ∃ r', u.store.rows.lookup i = some r' ∧ r'.tier = r.tier
  links : ∀ l ∈ u.store.links, l ∈ t.store.links ∨ env.db.accepts (.linkCreate l)

theorem Synthesis.Grows.refl (t : Synthesis) : t.Grows env t :=
  ⟨List.prefix_rfl, fun _ r hr => ⟨r, hr, rfl⟩, fun _ hl => .inl hl⟩

theorem Synthesis.Grows.trans {t u v : Synthesis} (h : t.Grows env u) (h' : u.Grows env v) : t.Grows env v where
  made := h.made.trans h'.made
  tier i r hr := by
    obtain ⟨r', hr', htier⟩ := h.tier i r hr
    obtain ⟨r'', hr'', htier'⟩ := h'.tier i r' hr'
    exact ⟨r'', hr'', htier'.trans htier⟩
  links l hl := by
    rcases h'.links l hl with hl | hl
    · exact h.links l hl
    · exact .inr hl

theorem grows_step (h : env.db.Lawful) (t : Synthesis) (c : L5Candidate) : t.Grows env (synthesisStep env t c) := by
  rcases synthesisStep_cases h t c with ⟨hsame, -⟩ | ⟨p, -, -, -, -, hw⟩
  · rw [hsame]
    exact .refl t
  · refine ⟨hw.made ▸ List.prefix_append _ _, fun i r hr => ?_, fun l hl => ?_⟩
    · rw [hw.rows]
      split_ifs with hi
      · exact ⟨_, rfl, placement_tier h (hi ▸ hr)⟩
      · exact ⟨r, hr, rfl⟩
    · rw [hw.links] at hl
      rcases List.mem_append.1 hl with hl | hl
      · exact .inl hl
      · split_ifs at hl with hacc
        · exact .inr (List.mem_singleton.1 hl ▸ hacc)
        · cases hl

theorem grows_run (h : env.db.Lawful) (t : Synthesis) (cs : List L5Candidate) : t.Grows env (run (synthesisStep env) t cs) := by
  induction cs generalizing t with
  | nil => exact .refl t
  | cons c cs ih => exact (grows_step h t c).trans (ih _)

/-- Every row was there before, or is a pattern's. -/
def RowsKnown (s : Store) (t : Synthesis) : Prop :=
  ∀ i, (t.store.rows.lookup i).isSome → (s.rows.lookup i).isSome ∨ i ∈ t.made.map Prod.snd

theorem rowsKnown_step (h : env.db.Lawful) {t : Synthesis} (ht : RowsKnown s t) (c : L5Candidate) :
    RowsKnown s (synthesisStep env t c) := by
  rcases synthesisStep_cases h t c with ⟨hsame, -⟩ | ⟨p, -, -, -, -, hw⟩
  · rwa [hsame]
  · intro i hi
    rw [hw.rows] at hi
    rw [hw.made, List.map_append]
    split_ifs at hi with hplace
    · exact .inr (by simp [hplace])
    · exact (ht i hi).imp_right fun hmem => List.mem_append_left _ hmem

theorem rowsKnown_run (h : env.db.Lawful) (s : Store) (cs : List L5Candidate) :
    RowsKnown s (run (synthesisStep env) ⟨s, []⟩ cs) := by
  refine run_keeps (I := fun _ => RowsKnown s) (fun i hi => .inl hi) ?_ cs
  intro _ t c ht
  exact rowsKnown_step h ht c

/-! ### Additive syntheses -/

theorem Additive.init (s : Store) : Additive s ⟨s, []⟩ :=
  ⟨fun _ r hr => ⟨r, hr, rfl⟩, by simp, by simp, by simp, by simp⟩

/-- A pattern that stands apart keeps the synthesis additive. -/
theorem Additive.step (h : env.db.Lawful) {t : Synthesis} (ht : Additive s t) {c : L5Candidate}
    (hsource : (s.rows.lookup c.sourceId).isSome) (hapart : PatternApart env t c) : Additive s (synthesisStep env t c) := by
  rcases synthesisStep_cases h t c with ⟨hsame, -⟩ | ⟨p, hkey, hcontent, hp, hacc, hw⟩
  · rwa [hsame]
  obtain ⟨hnone, hgate, hlink⟩ := hapart hkey hcontent p hp hacc
  obtain ⟨hid, htier⟩ := placement_fresh hp hnone
  have hfive : (placement env.pf env.db t.store (l5Args c) p).row.tier = .L5 := htier.trans (if_neg hgate)
  have hfresh : t.store.rows.lookup (placement env.pf env.db t.store (l5Args c) p).id = none := by
    rw [hid, h.newId_fresh]
  have hnew : s.rows.lookup (placement env.pf env.db t.store (l5Args c) p).id = none := by
    rw [Option.eq_none_iff_forall_ne_some]
    intro r hr
    obtain ⟨r', hr', -⟩ := ht.contents _ r hr
    rw [hfresh] at hr'
    cases hr'
  have hold : ∀ i r, t.store.rows.lookup i = some r → (synthesisStep env t c).store.rows.lookup i = some r := by
    intro i r hr
    have hne : i ≠ (placement env.pf env.db t.store (l5Args c) p).id := by
      rintro rfl
      rw [hfresh] at hr
      cases hr
    rw [hw.rows, if_neg hne, hr]
  refine ⟨fun i r hr => ?_, fun m hm => ?_, fun m hm => ?_, ?_, fun m hm => ?_⟩
  · obtain ⟨r', hr', hsame⟩ := ht.contents i r hr
    exact ⟨r', hold i r' hr', hsame⟩
  · rw [hw.made] at hm
    rcases List.mem_append.1 hm with hm | hm
    · exact ht.new m hm
    · obtain rfl := List.mem_singleton.1 hm
      refine ⟨hnew, fun hsame => ?_⟩
      simp only at hsame
      rw [← hsame, hnew] at hsource
      cases hsource
  · rw [hw.made] at hm
    rcases List.mem_append.1 hm with hm | hm
    · obtain ⟨r, hr, hfive⟩ := ht.tier m hm
      exact ⟨r, hold _ r hr, hfive⟩
    · obtain rfl := List.mem_singleton.1 hm
      exact ⟨_, by rw [hw.rows, if_pos rfl], hfive⟩
  · rw [hw.made, List.map_append, List.nodup_append]
    refine ⟨ht.distinct, by simp, ?_⟩
    intro i hi j hj hij
    obtain ⟨m, hm, rfl⟩ := List.mem_map.1 hi
    obtain ⟨r, hr, -⟩ := ht.tier m hm
    simp only [List.map_cons, List.map_nil, List.mem_singleton] at hj
    rw [hij, hj, hfresh] at hr
    cases hr
  · rw [hw.made] at hm
    rw [hw.links]
    rcases List.mem_append.1 hm with hm | hm
    · exact List.mem_append_left _ (ht.linked m hm)
    · obtain rfl := List.mem_singleton.1 hm
      rw [← hid] at hlink
      simp [hlink]

/-- A candidate of an additive synthesis stood apart. -/
theorem Additive.apart (h : env.db.Lawful) {t f : Synthesis} {c : L5Candidate} (hknown : RowsKnown s t)
    (hgrows : (synthesisStep env t c).Grows env f) (hlinks : ∀ l ∈ f.store.links, l ∈ s.links ∨ env.db.accepts (.linkCreate l))
    (hf : Additive s f) (hnoSynthesis : ∀ l ∈ s.links, l.relation = text "synthesizes" → l.targetId ≠ c.sourceId) :
    PatternApart env t c := by
  rcases synthesisStep_cases h t c with ⟨-, hapart⟩ | ⟨p, -, -, hp, -, hw⟩
  · exact hapart
  intro _ _ p' hp' _
  obtain rfl : p = p' := Option.some.inj (hp.symm.trans hp')
  obtain ⟨more, hmore⟩ := hgrows.made
  rw [hw.made] at hmore
  have hmem : (c, (placement env.pf env.db t.store (l5Args c) p).id) ∈ f.made := by simp [← hmore]
  have hnone : mergePlacement env.pf env.db t.store (l5Args c) p = none := by
    by_contra hmerge
    obtain ⟨place, hplace⟩ := Option.ne_none_iff_exists'.1 hmerge
    obtain ⟨id, old, content, bonus, details, hold, -, -, rfl⟩ := mergePlacement_spec h hplace
    have hid : (placement env.pf env.db t.store (l5Args c) p).id = id := by simp [placement, hplace, Placement.merge]
    rcases hknown id (by simp [hold]) with hs | hmade
    · rw [← hid, (hf.new _ hmem).1] at hs
      cases hs
    · -- the row is the pattern of an earlier candidate
      have hdistinct := hf.distinct
      rw [← hmore, List.append_assoc, List.map_append, List.nodup_append] at hdistinct
      exact hdistinct.2.2 id hmade id (by simp [hid]) rfl
  obtain ⟨hid, htier⟩ := placement_fresh hp hnone
  refine ⟨hnone, fun hgate => ?_, ?_⟩
  · obtain ⟨r, hr, hfive⟩ := hf.tier _ hmem
    obtain ⟨r', hr', hsame⟩ := hgrows.tier _ _ (by rw [hw.rows, if_pos rfl])
    obtain rfl : r = r' := Option.some.inj (hr.symm.trans hr')
    rw [hfive, htier.trans (if_pos hgate)] at hsame
    cases hsame
  · have hlink := hf.linked _ hmem
    rw [← hid]
    rcases hlinks _ hlink with hs | hacc
    · exact absurd rfl (hnoSynthesis _ hs rfl)
    · exact hacc

/-- A fact whose key differs from the others of its kind in the last byte only, which is the 201st. -/
def longKeyRow (last : UInt8) : Row := { factRow "" "80" (8 / 10) with key := List.replicate 200 97 ++ [last] }

/-- A pattern of it. -/
def longKeyCandidate (id : ℤ) (last : UInt8) (content : String) : L5Candidate where
  sourceId := id
  srcKey := (longKeyRow last).key
  srcContent := text content
  sessionCount := 3

def longKeyStore : Store where
  rows := ((∅ : AList fun _ : ℤ => Row).insert 1 (longKeyRow 98)).insert 2 (longKeyRow 99)

def longKeyCandidates : List L5Candidate := [longKeyCandidate 1 98 "80", longKeyCandidate 2 99 "81"]

end AimeeMemory.Core
