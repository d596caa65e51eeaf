import AimeeMemory.Core.Gate
import AimeeMemory.Lib.MergeUnique

/-!
# Epistemic directives

`ed_build_lexical_query` of `memory_directives.c` with the buffer it writes into, and
`memory_directive_match`, which merges what three lookups answer. Where a word is met that
has no room, the query that was begun for it ends in its operator (`edBuildLexicalQuery_wellFormed_iff`).

## Honest scope

`Stages` is the merge of any module that matches in stages: the rows, and for every lookup
how many rows it answers into a buffer of how many. Where a lookup answers more rows than
its buffer holds, the merge goes on with all of them; what the code does from there on is
not defined. Times and the counters of the metrics are left out.
-/

namespace AimeeMemory.Core

open AimeeMemory.Lib

/-! ## The words of a turn -/

/-- A byte that goes on with a word. -/
def isWordByte (c : UInt8) : Bool := isalnum c || c == 95

/-- The words behind the one that is being read. -/
def wordRunsFrom : Option Text → Text → List Text
  | none, [] => []
  | some w, [] => [w]
  | none, c :: t => if isalnum c then wordRunsFrom (some [c]) t else wordRunsFrom none t
  | some w, c :: t => if isWordByte c then wordRunsFrom (some (w ++ [c])) t else w :: wordRunsFrom none t

/-- The words, in the order in which the scan of a turn finds them: a letter or a digit, and
what follows of letters, digits and underscores. -/
def wordRuns (t : Text) : List Text := wordRunsFrom none t

/-! ## The lexical query -/

def quoted (w : Text) : Text := text "\"" ++ w ++ text "\""

/-- `"w" OR "w" OR "w"`. -/
def orJoined (ws : List Text) : Text := (text " OR ").intercalate (ws.map quoted)

/-- The loop of `ed_build_lexical_query`, with the query so far and the number of its words. -/
def lexicalLoop (outLen : ℕ) : List Text → Text → ℕ → Text × ℕ
  | [], out, wrote => (out, wrote)
  | w :: ws, out, wrote =>
    if 24 < outLen - out.length then
      if w.length < 3 then lexicalLoop outLen ws out wrote
      else if 0 < wrote ∧ outLen - out.length ≤ 4 then (out, wrote)
      else
        -- The operator is in the buffer before the word is known to fit.
        let out := if 0 < wrote then out ++ text " OR " else out
        if outLen - out.length ≤ w.length + 2 then (out, wrote)
        else lexicalLoop outLen ws (out ++ quoted (w.map tolower)) (wrote + 1)
    else (out, wrote)

/-- `ed_build_lexical_query`: the string in the buffer, and what is returned. -/
def edBuildLexicalQuery (turnText : Option Text) (outLen : ℕ) : Text × Bool :=
  if outLen = 0 then ([], false)
  else
    match turnText with
    | none => ([], false)
    | some t =>
      let query := lexicalLoop outLen (wordRuns t) [] 0
      (query.1, 0 < query.2)

/-- The words of three characters or more, in lower case. -/
def longWords (ws : List Text) : List Text := (ws.filter (3 ≤ ·.length)).map (·.map tolower)

/-- A query of the words of a turn in their order, terminated within its buffer. -/
structure QueryOf (t : Text) (outLen : ℕ) (query : Text × Bool) : Prop where
  form : ∃ ws : List Text, ws.Sublist ((wordRuns t).map (·.map tolower)) ∧ query.1 = orJoined ws
  terminated : query.1.length < outLen
  returned : query.2 = true ↔ query.1 ≠ []

/-- Every word but the first that is met with more than 24 bytes left has room, with its
operator and its quotes. -/
def EveryWordFits (t : Text) (outLen : ℕ) : Prop :=
  ∀ ws w rest, longWords (wordRuns t) = ws ++ w :: rest → ws ≠ [] → (orJoined ws).length + 24 < outLen →
    (orJoined (ws ++ [w])).length < outLen

@[simp] theorem orJoined_nil : orJoined [] = [] := rfl

@[simp] theorem length_quoted (w : Text) : (quoted w).length = w.length + 2 := by
  simp [quoted, text]

theorem orJoined_singleton (w : Text) : orJoined [w] = quoted w := by simp [orJoined]

theorem orJoined_cons (w : Text) {ws : List Text} (h : ws ≠ []) : orJoined (w :: ws) = quoted w ++ text " OR " ++ orJoined ws := by
  rw [orJoined, List.map_cons, List.intercalate_cons_of_ne_nil (by simpa using h)]
  rfl

theorem orJoined_concat {ws : List Text} (h : ws ≠ []) (w : Text) :
    orJoined (ws ++ [w]) = orJoined ws ++ text " OR " ++ quoted w := by
  induction ws with
  | nil => exact absurd rfl h
  | cons v ws ih =>
    by_cases hws : ws = []
    · subst hws
      rw [List.singleton_append, orJoined_cons v (by simp), orJoined_singleton, orJoined_singleton]
    · rw [List.cons_append, orJoined_cons v (by simp), ih hws, orJoined_cons v hws]
      simp only [List.append_assoc]

theorem length_orJoined_concat {ws : List Text} (h : ws ≠ []) (w : Text) :
    (orJoined (ws ++ [w])).length = (orJoined ws).length + 4 + (w.length + 2) := by
  rw [orJoined_concat h, List.length_append, List.length_append, length_quoted]
  rfl

/-- A query ends in a quote. -/
theorem getLast?_orJoined {ws : List Text} (h : ws ≠ []) : (orJoined ws).getLast? = some 34 := by
  induction ws using List.reverseRecOn with
  | nil => exact absurd rfl h
  | append_singleton ws w _ =>
    by_cases hws : ws = []
    · subst hws
      rw [List.nil_append, orJoined_singleton, quoted, List.getLast?_append]
      rfl
    · rw [orJoined_concat hws, quoted, List.getLast?_append, List.getLast?_append]
      rfl

theorem orJoined_ne_nil {ws : List Text} (h : ws ≠ []) : orJoined ws ≠ [] := by
  intro hnil
  have hlast := getLast?_orJoined h
  rw [hnil] at hlast
  cases hlast

theorem length_orJoined_le_append (ws vs : List Text) : (orJoined ws).length ≤ (orJoined (ws ++ vs)).length := by
  induction vs using List.reverseRecOn with
  | nil => rw [List.append_nil]
  | append_singleton vs v ih =>
    rw [← List.append_assoc]
    by_cases hnil : ws ++ vs = []
    · rw [(List.append_eq_nil_iff.1 hnil).1, orJoined_nil]
      exact Nat.zero_le _
    · rw [length_orJoined_concat hnil]
      omega

/-- What ends in an operator is no query. -/
theorem orJoined_operator_ne (ws vs : List Text) : orJoined ws ++ text " OR " ≠ orJoined vs := by
  intro h
  have hlast : (orJoined vs).getLast? = some 32 := by
    rw [← h, List.getLast?_append]
    rfl
  by_cases hvs : vs = []
  · subst hvs
    cases hlast
  · rw [getLast?_orJoined hvs] at hlast
    cases hlast

/-- One turn of the loop, with the words `done` in the buffer. -/
theorem lexicalLoop_cons {outLen : ℕ} {done ws : List Text} {w : Text} (hlong : 3 ≤ w.length)
    (hroom : (orJoined done).length + 24 < outLen) :
    lexicalLoop outLen (w :: ws) (orJoined done) done.length =
      if (orJoined (done ++ [w.map tolower])).length < outLen then
        lexicalLoop outLen ws (orJoined (done ++ [w.map tolower])) (done ++ [w.map tolower]).length
      else (if done = [] then [] else orJoined done ++ text " OR ", done.length) := by
  rw [lexicalLoop, if_pos (by omega), if_neg (by omega), if_neg (by omega)]
  by_cases hdone : done = []
  · subst hdone
    simp only [List.length_nil, lt_irrefl, if_false, List.nil_append, orJoined_nil, orJoined_singleton, length_quoted,
      List.length_map, Nat.sub_zero, if_true, List.length_singleton, Nat.zero_add]
    by_cases hfits : w.length + 2 < outLen
    · rw [if_neg (by omega), if_pos hfits]
    · rw [if_pos (by omega), if_neg hfits]
  · have hpos : 0 < done.length := List.length_pos_iff.2 hdone
    have hlen : (orJoined done ++ text " OR ").length = (orJoined done).length + 4 := by
      rw [List.length_append]; rfl
    have hconcat := length_orJoined_concat hdone (w.map tolower)
    rw [List.length_map] at hconcat
    rw [if_pos hpos, if_neg hdone]
    dsimp only
    by_cases hfits : (orJoined (done ++ [w.map tolower])).length < outLen
    · rw [if_neg (by omega), if_pos hfits, orJoined_concat hdone, List.length_append, List.length_singleton]
    · rw [if_pos (by omega), if_neg hfits]

theorem longWords_cons_of_short {w : Text} (h : w.length < 3) (ws : List Text) : longWords (w :: ws) = longWords ws := by
  rw [longWords, List.filter_cons_of_neg (by simpa using h), longWords]

theorem longWords_cons_of_long {w : Text} (h : 3 ≤ w.length) (ws : List Text) :
    longWords (w :: ws) = w.map tolower :: longWords ws := by
  rw [longWords, List.filter_cons_of_pos (by simpa using h), List.map_cons, longWords]

/-- Where every word has room, the loop writes words only. -/
theorem lexicalLoop_of_fits {outLen : ℕ} {ws : List Text} (done : List Text) (hdone : (orJoined done).length < outLen)
    (hfits : ∀ vs w rest, longWords ws = vs ++ w :: rest → done ++ vs ≠ [] → (orJoined (done ++ vs)).length + 24 < outLen →
      (orJoined (done ++ vs ++ [w])).length < outLen) :
    ∃ more, more.Sublist (longWords ws) ∧
      lexicalLoop outLen ws (orJoined done) done.length = (orJoined (done ++ more), (done ++ more).length) ∧
      (orJoined (done ++ more)).length < outLen := by
  have hstop : ∀ vs : List Text, ∃ more, more.Sublist vs ∧
      (orJoined done, done.length) = (orJoined (done ++ more), (done ++ more).length) ∧
      (orJoined (done ++ more)).length < outLen :=
    fun vs => ⟨[], List.nil_sublist _, by rw [List.append_nil], by rwa [List.append_nil]⟩
  induction ws generalizing done with
  | nil => exact hstop _
  | cons w ws ih =>
    by_cases hroom : (orJoined done).length + 24 < outLen
    · by_cases hlong : 3 ≤ w.length
      · rw [longWords_cons_of_long hlong] at hfits ⊢
        rw [lexicalLoop_cons hlong hroom]
        by_cases hw : (orJoined (done ++ [w.map tolower])).length < outLen
        · rw [if_pos hw]
          obtain ⟨more, hsub, heq, hlen⟩ := ih _ hw
            (fun vs v rest hsplit _ hlen => by
              have := hfits (w.map tolower :: vs) v rest (by rw [hsplit]; rfl) (by simp)
              simp only [List.append_assoc, List.cons_append] at this hlen ⊢
              exact this hlen)
            (fun vs => ⟨[], List.nil_sublist _, by rw [List.append_nil], by rwa [List.append_nil]⟩)
          refine ⟨w.map tolower :: more, hsub.cons_cons _, ?_, ?_⟩
          · rw [heq, List.append_assoc]; rfl
          · rwa [List.append_assoc] at hlen
        · rw [if_neg hw]
          by_cases hnil : done = []
          · subst hnil
            exact hstop _
          · have := hfits [] (w.map tolower) (longWords ws) rfl (by simpa using hnil) (by simpa using hroom)
            rw [List.append_nil] at this
            exact absurd this hw
      · rw [longWords_cons_of_short (by omega)] at hfits ⊢
        rw [lexicalLoop, if_pos (by omega), if_pos (by omega)]
        exact ih _ hdone hfits hstop
    · rw [lexicalLoop, if_neg (by omega)]
      exact hstop _

/-- Where a word has no room, the loop ends behind an operator. -/
theorem lexicalLoop_of_cut {outLen : ℕ} {ws vs rest : List Text} {w : Text} (done : List Text)
    (hsplit : longWords ws = vs ++ w :: rest) (hne : done ++ vs ≠ [])
    (hroom : (orJoined (done ++ vs)).length + 24 < outLen) (hcut : outLen ≤ (orJoined (done ++ vs ++ [w])).length) :
    (lexicalLoop outLen ws (orJoined done) done.length).1 = orJoined (done ++ vs) ++ text " OR " := by
  induction ws generalizing done vs with
  | nil => simp [longWords] at hsplit
  | cons v ws ih =>
    have hle := length_orJoined_le_append done vs
    have hdone : (orJoined done).length + 24 < outLen := by omega
    by_cases hlong : 3 ≤ v.length
    · rw [longWords_cons_of_long hlong] at hsplit
      rw [lexicalLoop_cons hlong hdone]
      cases vs with
      | nil =>
        obtain ⟨rfl, -⟩ := List.cons.inj hsplit
        rw [List.append_nil] at hne hcut ⊢
        rw [if_neg (by omega), if_neg hne]
      | cons u vs =>
        rw [List.cons_append, List.cons.injEq] at hsplit
        obtain ⟨rfl, hsplit⟩ := hsplit
        rw [List.append_cons done (v.map tolower) vs] at hroom hcut ⊢
        have hprefix := length_orJoined_le_append (done ++ [v.map tolower]) vs
        rw [if_pos (by omega)]
        exact ih _ hsplit (by simp) hroom hcut
    · rw [longWords_cons_of_short (by omega)] at hsplit
      rw [lexicalLoop, if_pos (by omega), if_pos (by omega)]
      exact ih _ hsplit hne hroom hcut

theorem longWords_sublist (ws : List Text) : (longWords ws).Sublist (ws.map (·.map tolower)) :=
  List.filter_sublist.map _

/-- A turn's query is words of the turn orJoined by the operator exactly when every word that is
met with more than 24 bytes left has room. -/
theorem edBuildLexicalQuery_wellFormed_iff (t : Text) {outLen : ℕ} (hlen : 24 < outLen) :
    QueryOf t outLen (edBuildLexicalQuery (some t) outLen) ↔ EveryWordFits t outLen := by
  have hstart : edBuildLexicalQuery (some t) outLen =
      ((lexicalLoop outLen (wordRuns t) (orJoined []) ([] : List Text).length).1,
        decide (0 < (lexicalLoop outLen (wordRuns t) (orJoined []) ([] : List Text).length).2)) := by
    rw [edBuildLexicalQuery, if_neg (by omega)]
    rfl
  rw [hstart]
  constructor
  · intro hquery ws w rest hsplit hne hroom
    by_contra hcut
    obtain ⟨vs, -, hform⟩ := hquery.form
    rw [lexicalLoop_of_cut [] hsplit hne hroom (by simpa using hcut)] at hform
    exact orJoined_operator_ne ws vs hform
  · intro hfits
    obtain ⟨more, hsub, heq, hroom⟩ :=
      lexicalLoop_of_fits [] (show (orJoined []).length < outLen from by rw [orJoined_nil, List.length_nil]; omega) hfits
    rw [heq, List.nil_append]
    rw [List.nil_append] at hroom
    refine ⟨⟨more, hsub.trans (longWords_sublist _), rfl⟩, hroom, ?_⟩
    refine decide_eq_true_iff.trans (List.length_pos_iff.trans ⟨orJoined_ne_nil, ?_⟩)
    rintro hne rfl
    exact hne rfl

theorem edBuildLexicalQuery_wellFormed_short :
    24 < 25 ∧ (QueryOf (text "why does Login_2 fail") 25 (edBuildLexicalQuery (some (text "why does Login_2 fail")) 25) ↔
      EveryWordFits (text "why does Login_2 fail") 25) :=
  ⟨by decide, edBuildLexicalQuery_wellFormed_iff _ (by decide)⟩

example : edBuildLexicalQuery (some (text "why does Login_2 fail")) 80 =
    (text "\"why\" OR \"does\" OR \"login_2\" OR \"fail\"", true) := by decide

/-- A word goes on while bytes of a word come. -/
theorem wordRunsFrom_append {u : Text} (h : ∀ c ∈ u, isWordByte c) (w t : Text) :
    wordRunsFrom (some w) (u ++ t) = wordRunsFrom (some (w ++ u)) t := by
  induction u generalizing w with
  | nil => rw [List.nil_append, List.append_nil]
  | cons c u ih =>
    rw [List.cons_append, wordRunsFrom, if_pos (h c List.mem_cons_self)]
    rw [ih (fun d hd => h d (List.mem_cons_of_mem _ hd)), List.append_assoc, List.singleton_append]

/-- A turn of two words, of `m + 3` bytes and of `n + 3`. -/
def twoWords (m n : ℕ) : Text := List.replicate (m + 3) 97 ++ 32 :: List.replicate (n + 3) 97

theorem longWords_twoWords (m n : ℕ) :
    longWords (wordRuns (twoWords m n)) = [List.replicate (m + 3) 97, List.replicate (n + 3) 97] := by
  have hword : ∀ n, ∀ c ∈ List.replicate n (97 : UInt8), isWordByte c := by
    intro n c hc
    rw [(List.mem_replicate.1 hc).2]
    decide
  have hread : ∀ n t, wordRunsFrom none (List.replicate (n + 3) 97 ++ t) = wordRunsFrom (some (List.replicate (n + 3) 97)) t := by
    intro n t
    rw [List.replicate_succ, List.cons_append, wordRunsFrom, if_pos (by decide), wordRunsFrom_append (hword _)]
    rfl
  have hruns : wordRuns (twoWords m n) = [List.replicate (m + 3) 97, List.replicate (n + 3) 97] := by
    rw [wordRuns, twoWords, hread, wordRunsFrom, if_neg (by decide)]
    rw [← List.append_nil (List.replicate (n + 3) 97), hread, wordRunsFrom, List.append_nil]
  rw [hruns, longWords_cons_of_long (by simp), longWords_cons_of_long (by simp), List.map_replicate, List.map_replicate]
  rfl

/-- A second word without room behind a first one that leaves more than 24 bytes. -/
theorem not_queryOf_twoWords {m n outLen : ℕ} (hroom : m + 29 < outLen) (hcut : outLen ≤ m + n + 14) :
    ¬ QueryOf (twoWords m n) outLen (edBuildLexicalQuery (some (twoWords m n)) outLen) := by
  intro hquery
  have hfirst : (orJoined [List.replicate (m + 3) 97]).length = m + 5 := by
    rw [orJoined_singleton, length_quoted, List.length_replicate]
  have hboth : (orJoined ([List.replicate (m + 3) 97] ++ [List.replicate (n + 3) 97])).length = m + n + 14 := by
    rw [length_orJoined_concat (by simp), hfirst, List.length_replicate]
    omega
  have hloop := lexicalLoop_of_cut []
    (show _ = [List.replicate (m + 3) 97] ++ List.replicate (n + 3) 97 :: [] from longWords_twoWords m n) (by simp)
    (by rw [List.nil_append, hfirst]; omega) (by rw [List.nil_append, hboth]; exact hcut)
  obtain ⟨vs, -, hform⟩ := hquery.form
  rw [edBuildLexicalQuery, if_neg (by omega)] at hform
  exact orJoined_operator_ne _ vs (hloop.symm.trans hform)

/-- Behind a word of 2000 bytes the buffer of 2048 bytes has 46 left, and a word of 50 bytes needs 56. -/
theorem edBuildLexicalQuery_dangling :
    ¬ QueryOf (twoWords 1997 47) 2048 (edBuildLexicalQuery (some (twoWords 1997 47)) 2048) :=
  not_queryOf_twoWords (by omega) (by omega)

/-! ## The staged match -/

structure Directive where
  id : ℤ
  topic : Text
  question : Text
  cause : Text
  deriving DecidableEq, Repr

/-- The lookups of the database with the size of the caller's buffer, and what the module
takes from its header and from `util_lower_copy`. -/
structure DirectiveDb where
  /-- `MEMORY_DIRECTIVE_MAX_MATCHES`. -/
  maxMatches : ℕ
  lowerEntity : Text → Text
  matchByEntity : Text → ℕ → List Directive
  matchByFile : Text → ℕ → List Directive
  matchByLexical : Text → ℕ → List Directive
  listOpen : ℕ → List Directive

/-- `p && p[0]`. -/
def given (p : Option Text) : Bool := p.any (· ≠ [])

/-- The three stages of `memory_directive_match`. -/
def directiveStages (db : DirectiveDb) (turnText activeEntity activeFile : Option Text) (max : ℕ) :
    List (Stage Directive) :=
  let query := edBuildLexicalQuery turnText 2048
  [{ asked := given activeEntity
     answer := db.matchByEntity (db.lowerEntity (activeEntity.getD [])) max
     room := db.maxMatches },
   { asked := given activeFile
     answer := db.matchByFile (activeFile.getD []) max
     room := db.maxMatches },
   { asked := given turnText && query.2
     answer := db.matchByLexical query.1 max
     room := db.maxMatches }]

/-- `memory_directive_match`: the rows, and the lookups made on the way. -/
def memoryDirectiveMatch (db : DirectiveDb) (turnText activeEntity activeFile : Option Text) (max : ℤ) :
    Staged Directive ℤ :=
  if max ≤ 0 then {}
  else
    staged Directive.id max.toNat (db.maxMatches * 4) (directiveStages db turnText activeEntity activeFile max.toNat)

variable {db : DirectiveDb} {turnText activeEntity activeFile : Option Text}

/-- Nothing is merged where nothing is asked for. -/
theorem memoryDirectiveMatch_eq (db : DirectiveDb) (turnText activeEntity activeFile : Option Text) (max : ℤ) :
    memoryDirectiveMatch db turnText activeEntity activeFile max =
      staged Directive.id max.toNat (db.maxMatches * 4)
        (directiveStages db turnText activeEntity activeFile max.toNat) := by
  unfold memoryDirectiveMatch
  split
  · next hmax => rw [Int.toNat_of_nonpos hmax, staged_zero]
  · rfl

theorem memoryDirectiveMatch_iff (max : ℤ) :
    StagedMerge Directive.id max.toNat (directiveStages db turnText activeEntity activeFile max.toNat)
        (memoryDirectiveMatch db turnText activeEntity activeFile max) ↔
      AnswersFit Directive.id max.toNat (directiveStages db turnText activeEntity activeFile max.toNat) := by
  rw [memoryDirectiveMatch_eq, stagedMerge_iff]
  have hroom : ∀ s ∈ directiveStages db turnText activeEntity activeFile max.toNat, s.room ≤ db.maxMatches := by
    intro s hs
    simp only [directiveStages, List.mem_cons, List.not_mem_nil, or_false] at hs
    rcases hs with rfl | rfl | rfl <;> exact le_rfl
  apply and_iff_left_of_imp
  intro hfit
  apply remembers_of_answersFit hfit hroom
  show 3 * db.maxMatches ≤ db.maxMatches * 4
  omega

/-- A caller that asks for no more rows than a buffer holds gets a staged match, of lookups that
answer no more rows than they are asked for. -/
theorem memoryDirectiveMatch_of_le {max : ℤ} (hmax : max.toNat ≤ db.maxMatches)
    (hentity : ∀ t n, (db.matchByEntity t n).length ≤ n) (hfile : ∀ t n, (db.matchByFile t n).length ≤ n)
    (hlexical : ∀ t n, (db.matchByLexical t n).length ≤ n) :
    StagedMerge Directive.id max.toNat (directiveStages db turnText activeEntity activeFile max.toNat)
      (memoryDirectiveMatch db turnText activeEntity activeFile max) := by
  rw [memoryDirectiveMatch_iff]
  apply answersFit_of_forall
  intro s hs
  simp only [directiveStages, List.mem_cons, List.not_mem_nil, or_false] at hs
  rcases hs with rfl | rfl | rfl
  · exact (hentity _ _).trans hmax
  · exact (hfile _ _).trans hmax
  · exact (hlexical _ _).trans hmax

end AimeeMemory.Core
