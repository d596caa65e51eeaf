import AimeeMemory.Core.Writers
import AimeeMemory.Lib.Joining
import AimeeMemory.Recall.RelativeDates

/-!
# Joined text

The two loops that join strings in a buffer: `memory_alias_join_tokens` of `memory_core_helpers.c`,
which makes the headline of `memory_refresh_summaries` from the tokens of a content, and `JOIN_ARRAY`
of `memory_episodes.c`. Both write the separator first. The first loop ends its text with each token,
not with the separator; the second ends it behind the loop, in a field that was cleared before.

## What is proved

* `joinTokens_spec`: the buffer that the first loop leaves, whatever was in it.
* `joinArray_eq`: the second loop is the first with one byte less.
* **`joinedText_iff`**: each text is the join of some of the first strings exactly where a separator is never
  written without the string behind it, nor a string without its separator.
* **`joins_dangle`**: a headline of thirteen words, and a card of two names.
-/

namespace AimeeMemory.Recall

open AimeeMemory.Core AimeeMemory.Lib

/-! ### Tokens in a buffer -/

/-- The string of a `char[64]`, as `memory_split_tokens` fills it. -/
structure Token where
  text : Text
  ne : text ≠ []
  short : text.length ≤ 63

theorem mem_memorySplitTokens {norm tok : Text} {maxTokens : ℕ} (h : tok ∈ memorySplitTokens norm maxTokens) :
    tok ≠ [] ∧ tok.length ≤ 63 := by
  obtain ⟨word, hword, rfl⟩ := List.mem_map.1 (List.mem_of_mem_take h)
  have hne : word ≠ [] := by simpa using (List.mem_filter.1 hword).2
  exact ⟨by simp [hne], List.length_take_le _ _⟩

/-- The tokens of `memory_split_tokens`. -/
def splitTokens (norm : Text) (maxTokens : ℕ) : List Token :=
  (memorySplitTokens norm maxTokens).attach.map fun tok =>
    ⟨tok.1, (mem_memorySplitTokens tok.2).1, (mem_memorySplitTokens tok.2).2⟩

/-- Bytes written at a place of a buffer. -/
def putBytes (buf : Text) (place : ℕ) (bytes : Text) : Text := buf.take place ++ bytes ++ buf.drop (place + bytes.length)

/-- The loop of `memory_alias_join_tokens`: the buffer, and the bytes of it that are used. -/
def joinTokens (size : ℕ) : List Token → Text → ℕ → Text × ℕ
  | [], buf, used => (buf, used)
  | tok :: toks, buf, used =>
    let separated := 0 < used ∧ used < size - 1
    let buf := if separated then putBytes buf used [32] else buf
    let used := if separated then used + 1 else used
    if size ≤ used + tok.text.length then (buf, used)
    else
      joinTokens size toks (putBytes (putBytes buf used tok.text) (used + tok.text.length) [0]) (used + tok.text.length)

/-- `memory_alias_join_tokens`, in a buffer as it was. -/
def memoryAliasJoinTokens (buf : Text) (tokens : List Token) (start count : ℕ) : Text × ℕ :=
  if buf = [] then (buf, 0) else joinTokens buf.length ((tokens.drop start).take count) (putBytes buf 0 [0]) 0

/-- The headline of `memory_refresh_summaries`, of the normalised content. -/
def refreshHeadline (buf norm : Text) : Option (Text × ℕ) :=
  let tokens := splitTokens norm 32
  if tokens.length = 0 then none else some (memoryAliasJoinTokens buf tokens 0 (min tokens.length 20))

/-- The string that a buffer holds, up to the place where its writer stopped, is the join of some of the first strings. -/
def JoinedString (strings : List Text) (r : Text × ℕ) : Prop :=
  ∃ ys, ys <+: strings ∧ r.2 = ([32].intercalate ys).length ∧ [32].intercalate ys ++ [0] <+: r.1

/-- The string ends where its writer stopped. -/
theorem JoinedString.terminated {strings : List Text} {r : Text × ℕ} (h : JoinedString strings r) : r.1[r.2]? = some 0 := by
  obtain ⟨ys, -, hlength, rest, hrest⟩ := h
  rw [← hrest, hlength]
  simp

/-! ### What the buffer holds -/

variable {buf t bytes : Text}

theorem length_putBytes {place : ℕ} (h : place + bytes.length ≤ buf.length) : (putBytes buf place bytes).length = buf.length := by
  simp only [putBytes, List.length_append, List.length_take, List.length_drop]
  omega

theorem prefix_putBytes (h : t <+: buf) (bytes : Text) : t ++ bytes <+: putBytes buf t.length bytes := by
  rw [putBytes, ← List.prefix_iff_eq_take.1 h]
  exact List.prefix_append _ _

/-- A token and the end of the string behind it. -/
theorem prefix_putToken (h : t <+: buf) (tok : Text) :
    t ++ tok ++ [0] <+: putBytes (putBytes buf t.length tok) (t.length + tok.length) [0] := by
  rw [← List.length_append]
  exact prefix_putBytes (prefix_putBytes h tok) [0]

theorem length_putToken {tok : Text} (h : t.length + tok.length < buf.length) :
    (putBytes (putBytes buf t.length tok) (t.length + tok.length) [0]).length = buf.length := by
  have hput := length_putBytes h.le
  rw [length_putBytes (by rw [hput, List.length_singleton]; omega), hput]

/-- **The loop over a buffer** is the loop over the text: the text is at the start of the buffer, and terminated but
where the loop stopped behind a separator. -/
theorem joinTokens_spec (toks : List Token) (h : t ++ [0] <+: buf) :
    let r := joinWithin buf.length [32] (toks.map Token.text) t
    let u := joinTokens buf.length toks buf t.length
    u.2 = r.1.length ∧ r.1 <+: u.1 ∧ (r.2 = false → r.1 ++ [0] <+: u.1) := by
  induction toks generalizing buf t with
  | nil => exact ⟨rfl, (List.prefix_append _ _).trans h, fun _ => h⟩
  | cons tok toks ih =>
    have hpre : t <+: buf := (List.prefix_append _ _).trans h
    have hroom : t.length + 1 ≤ buf.length := by simpa using h.length_le
    have hpos : 0 < t.length ↔ t ≠ [] := List.length_pos_iff
    simp only [List.map_cons, joinWithin, joinTokens, List.length_singleton]
    by_cases hsep : t = [] ∨ buf.length ≤ t.length + 1
    · have hnot : ¬(0 < t.length ∧ t.length < buf.length - 1) := by
        rw [hpos]
        rintro ⟨hne, hlt⟩
        rcases hsep with hnil | hfull
        · exact hne hnil
        · omega
      simp only [if_pos hsep, if_neg hnot]
      by_cases hfits : t.length + tok.text.length < buf.length
      · have hrest := ih (prefix_putToken hpre tok.text)
        rw [length_putToken hfits, List.length_append] at hrest
        rwa [if_pos hfits, if_neg (not_le.2 hfits)]
      · rw [if_neg hfits, if_pos (not_lt.1 hfits)]
        exact ⟨rfl, hpre, fun _ => h⟩
    · obtain ⟨hne, hlt⟩ := not_or.1 hsep
      have hyes : 0 < t.length ∧ t.length < buf.length - 1 := ⟨hpos.2 hne, by omega⟩
      simp only [if_neg hsep, if_pos hyes]
      have hput : t ++ [32] <+: putBytes buf t.length [32] := prefix_putBytes hpre [32]
      have hlen : (putBytes buf t.length [32]).length = buf.length := length_putBytes (by simpa using hroom)
      have hnext : (t ++ [32]).length = t.length + 1 := by simp
      by_cases hfits : t.length + 1 + tok.text.length < buf.length
      · have hrest := ih (prefix_putToken hput tok.text)
        rw [length_putToken (by rw [hnext, hlen]; exact hfits), hlen] at hrest
        simp only [List.length_append, List.length_singleton] at hrest
        rwa [if_pos hfits, if_neg (not_le.2 hfits)]
      · rw [if_neg hfits, if_pos (not_lt.1 hfits)]
        exact ⟨hnext.symm, hput, fun hclosed => by cases hclosed⟩

theorem aliasJoin_iff (buf : Text) (tokens : List Token) (start count : ℕ) :
    JoinedString (((tokens.drop start).take count).map Token.text) (memoryAliasJoinTokens buf tokens start count) ↔
      buf ≠ [] ∧ JoinsCleanly buf.length [32] (((tokens.drop start).take count).map Token.text) := by
  rw [memoryAliasJoinTokens]
  generalize (tokens.drop start).take count = toks
  by_cases hbuf : buf = []
  · subst hbuf
    refine iff_of_false ?_ (by simp)
    rintro ⟨ys, -, -, hended⟩
    simp at hended
  rw [if_neg hbuf]
  have hpos : 0 < buf.length := List.length_pos_iff.2 hbuf
  have hempty : [] ++ [0] <+: putBytes buf 0 [0] := prefix_putBytes List.nil_prefix [0]
  have hlen : (putBytes buf 0 [0]).length = buf.length := length_putBytes (by rw [List.length_singleton]; omega)
  obtain ⟨hused, hpre, hended⟩ := joinTokens_spec toks hempty
  rw [hlen, List.length_nil] at hused hpre hended
  have hne : ∀ y ∈ toks.map Token.text, y ≠ [] := by
    intro y hy
    obtain ⟨tok, -, rfl⟩ := List.mem_map.1 hy
    exact tok.ne
  obtain ⟨hiff, hclosed⟩ := joinWithin_iff buf.length (List.cons_ne_nil 32 []) (Nat.le_succ 1) hne
  constructor
  · rintro ⟨ys, hys, hlength, hstring⟩
    refine ⟨hbuf, hiff.1 ⟨ys, hys, ?_⟩⟩
    -- both texts are the bytes that are used
    have hjoin := (List.prefix_append _ _).trans hstring
    rw [List.prefix_iff_eq_take] at hpre hjoin
    rw [hpre, hjoin, ← hlength, ← hused]
  · rintro ⟨-, hclean⟩
    obtain ⟨ys, hys, hjoin⟩ := hiff.2 hclean
    refine ⟨ys, hys, hused.trans (congrArg List.length hjoin), ?_⟩
    rw [← hjoin]
    exact hended (hclosed hclean)

/-! ### The fields of a card -/

/-- The strings of an array that are not empty. -/
def arrayStrings (items : List Json) : List Text :=
  items.filterMap fun item =>
    match item with
    | .str value => if value = [] then none else some value
    | _ => none

/-- A field that `JOIN_ARRAY` has joined: its size, its separator, the array and the text. -/
structure JoinedField where
  size : ℕ
  separator : Text
  items : List Json
  text : Text

/-- The fields of a card that are joined. -/
def joinedFields (sizes : CardSizes) (j : Json) (card : EpisodeCard) : List JoinedField :=
  [⟨sizes.participants, text ", ", j.items "participants", card.participants⟩,
    ⟨sizes.places, text ", ", j.items "places", card.places⟩,
    ⟨sizes.events, text "\n", j.items "events", card.events⟩,
    ⟨sizes.outcomes, text "\n", j.items "outcomes", card.outcomes⟩,
    ⟨sizes.openThreads, text "\n", j.items "open_threads", card.openThreads⟩]

/-- The field holds the join of some of the first strings, and ends within its bytes. -/
def JoinedField.WellFormed (f : JoinedField) : Prop :=
  (∃ ys, ys <+: arrayStrings f.items ∧ f.text = f.separator.intercalate ys) ∧ f.text.length < f.size

/-- In the field a separator and the string behind it fit both, or neither does. -/
def JoinedField.Fits (f : JoinedField) : Prop :=
  0 < f.size ∧ JoinsCleanly (f.size - 1) f.separator (arrayStrings f.items)

theorem arrayStrings_ne_nil {items : List Json} {value : Text} (h : value ∈ arrayStrings items) : value ≠ [] := by
  obtain ⟨item, -, hitem⟩ := List.mem_filterMap.1 h
  cases item with
  | str v =>
    simp only [Option.ite_none_left_eq_some] at hitem
    obtain ⟨hne, rfl⟩ : v ≠ [] ∧ v = value := by simpa using hitem
    exact hne
  | _ => cases hitem

/-- `JOIN_ARRAY` joins below the last byte of its field. -/
theorem joinArray_eq (size : ℕ) (separator : Text) (items : List Json) (field : Text) :
    joinArray size separator items field = (joinWithin (size - 1) separator (arrayStrings items) field).1 := by
  induction items generalizing field with
  | nil => rfl
  | cons item items ih =>
    cases item with
    | str value =>
      by_cases hvalue : value = []
      · simp [joinArray, arrayStrings, hvalue, ih]
      · have hstrings : arrayStrings (.str value :: items) = value :: arrayStrings items := by simp [arrayStrings, hvalue]
        rw [hstrings, joinArray, joinWithin, if_neg hvalue]
        by_cases hsep : field = [] ∨ size - 1 ≤ field.length + separator.length
        · have hnot : ¬(field ≠ [] ∧ field.length + separator.length + 1 < size) := by
            rintro ⟨hne, hlt⟩
            rcases hsep with hnil | hfull
            · exact hne hnil
            · omega
          simp only [if_pos hsep, if_neg hnot, ih]
          by_cases hfits : field.length + value.length < size - 1
          · rw [if_pos hfits, if_neg (by omega)]
          · rw [if_neg hfits, if_pos (by omega)]
        · obtain ⟨hne, hlt⟩ := not_or.1 hsep
          have hyes : field ≠ [] ∧ field.length + separator.length + 1 < size := ⟨hne, by omega⟩
          simp only [if_neg hsep, if_pos hyes, ih, List.length_append]
          by_cases hfits : field.length + separator.length + value.length < size - 1
          · rw [if_pos hfits, if_neg (by omega)]
          · rw [if_neg hfits, if_pos (by omega)]
    | _ => simp [joinArray, arrayStrings, ih]

/-- A field is well formed exactly where its separators fit with their strings. -/
theorem JoinedField.wellFormed_iff {f : JoinedField} (htext : f.text = joinArray f.size f.separator f.items [])
    (hsep : f.separator ≠ []) (hshort : f.separator.length ≤ 2) : f.WellFormed ↔ f.Fits := by
  obtain ⟨hiff, -⟩ := joinWithin_iff (f.size - 1) hsep hshort fun y hy => arrayStrings_ne_nil hy
  rw [WellFormed, Fits, htext, joinArray_eq, hiff]
  constructor
  · rintro ⟨hclean, hlength⟩
    exact ⟨by omega, hclean⟩
  · rintro ⟨hpos, hclean⟩
    have hnil : ([] : Text).length ≤ f.size - 1 := Nat.zero_le _
    have hle := joinWithin_length_le (f.size - 1) f.separator (arrayStrings f.items) hnil
    exact ⟨hclean, by omega⟩

/-- The fields of a card are what the macro makes of the arrays. -/
theorem joinedFields_spec {sizes : CardSizes} {j : Json} {card : EpisodeCard} (h : memoryEpisodeCardParse sizes j = some card) :
    ∀ f ∈ joinedFields sizes j card,
      f.text = joinArray f.size f.separator f.items [] ∧ f.separator ≠ [] ∧ f.separator.length ≤ 2 := by
  rw [memoryEpisodeCardParse] at h
  split at h
  · cases h
  · split_ifs at h with htitle
    cases h
    have hcomma : text ", " ≠ [] ∧ (text ", ").length ≤ 2 := by decide +kernel
    have hline : text "\n" ≠ [] ∧ (text "\n").length ≤ 2 := by decide +kernel
    intro f hf
    simp only [joinedFields, List.mem_cons, List.not_mem_nil, or_false] at hf
    rcases hf with rfl | rfl | rfl | rfl | rfl
    exacts [⟨rfl, hcomma⟩, ⟨rfl, hcomma⟩, ⟨rfl, hline⟩, ⟨rfl, hline⟩, ⟨rfl, hline⟩]

/-- **Joined text is well formed** exactly where each separator fits with the string behind it, or neither does: of the
tokens in a buffer with room for a byte, and of the strings of each array of a card. -/
theorem joinedText_iff (buf : Text) (tokens : List Token) (start count : ℕ) (sizes : CardSizes) (j : Json)
    (card : EpisodeCard) (h : memoryEpisodeCardParse sizes j = some card) :
    (JoinedString (((tokens.drop start).take count).map Token.text) (memoryAliasJoinTokens buf tokens start count) ↔
      buf ≠ [] ∧ JoinsCleanly buf.length [32] (((tokens.drop start).take count).map Token.text)) ∧
    ((∀ f ∈ joinedFields sizes j card, f.WellFormed) ↔ ∀ f ∈ joinedFields sizes j card, f.Fits) := by
  refine ⟨aliasJoin_iff buf tokens start count, forall₂_congr fun f hf => ?_⟩
  obtain ⟨htext, hsep, hshort⟩ := joinedFields_spec h f hf
  exact JoinedField.wellFormed_iff htext hsep hshort

/-! ### Separators without their strings -/

/-- Thirteen words of forty letters. -/
def longWords : Text := [32].intercalate (List.replicate 13 (List.replicate 40 97))

/-- What was in the buffer of a headline. -/
def staleBuffer : Text := List.replicate 512 120

/-- A card with participants. -/
def namesCard (names : List String) : Json :=
  .obj [(text "title", .str (text "t")), (text "participants", .arr (names.map fun name => .str (text name)))]

/-- Fields of twelve bytes. -/
def shortSizes : CardSizes := ⟨12, 12, 12, 12, 12, 12⟩

/-- Two short names and ten words fit. -/
theorem shortText_joins : ∃ card, memoryEpisodeCardParse shortSizes (namesCard ["Ann", "Bob"]) = some card ∧
    JoinedString (((splitTokens (longWords.take 409) 32).take 10).map Token.text)
      (memoryAliasJoinTokens staleBuffer (splitTokens (longWords.take 409) 32) 0 10) ∧
    ∀ f ∈ joinedFields shortSizes (namesCard ["Ann", "Bob"]) card, f.WellFormed := by
  have hcard : memoryEpisodeCardParse shortSizes (namesCard ["Ann", "Bob"]) =
      some ⟨text "t", text "Ann, Bob", [], [], [], []⟩ := by decide +kernel
  obtain ⟨htokens, hfields⟩ := joinedText_iff staleBuffer (splitTokens (longWords.take 409) 32) 0 10 shortSizes _ _ hcard
  have hroom : ∀ f ∈ joinedFields shortSizes (namesCard ["Ann", "Bob"]) ⟨text "t", text "Ann, Bob", [], [], [], []⟩,
      (f.separator.intercalate (arrayStrings f.items)).length < f.size - 1 := by decide +kernel
  refine ⟨_, hcard, htokens.2 ⟨List.cons_ne_nil _ _, joinsCleanly_of_length_lt (by decide +kernel)⟩, hfields.2 fun f hf => ?_⟩
  have hshort := hroom f hf
  exact ⟨by omega, joinsCleanly_of_length_lt hshort⟩

/-- The thirteenth word does not fit behind its separator, nor the second name behind its own. -/
theorem joins_dangle : (∃ r, refreshHeadline staleBuffer longWords = some r ∧
      ¬ JoinedString ((splitTokens longWords 32).map Token.text) r) ∧
    ∃ card, memoryEpisodeCardParse shortSizes (namesCard ["Caroline", "Melanie"]) = some card ∧
      ¬ ∀ f ∈ joinedFields shortSizes (namesCard ["Caroline", "Melanie"]) card, f.WellFormed := by
  constructor
  · -- the byte behind the separator is the one that was there
    have hstale : (refreshHeadline staleBuffer longWords).map (fun r => r.1[r.2]?) = some (some 120) := by decide +kernel
    obtain ⟨r, hr, hbyte⟩ := Option.map_eq_some_iff.1 hstale
    refine ⟨r, hr, fun hjoined => ?_⟩
    rw [hjoined.terminated] at hbyte
    cases hbyte
  · have hsome : (memoryEpisodeCardParse shortSizes (namesCard ["Caroline", "Melanie"])).isSome := by decide +kernel
    obtain ⟨card, hcard⟩ := Option.isSome_iff_exists.1 hsome
    refine ⟨card, hcard, fun hall => ?_⟩
    have hmem : (⟨12, text ", ", (namesCard ["Caroline", "Melanie"]).items "participants", card.participants⟩ : JoinedField) ∈
        joinedFields shortSizes (namesCard ["Caroline", "Melanie"]) card := List.mem_cons_self
    obtain ⟨htext, hsep, hshort⟩ := joinedFields_spec hcard _ hmem
    obtain ⟨-, hclean⟩ := (JoinedField.wellFormed_iff htext hsep hshort).1 (hall _ hmem)
    have hstrings : arrayStrings ((namesCard ["Caroline", "Melanie"]).items "participants") =
        [text "Caroline", text "Melanie"] := by decide +kernel
    have hfits : ((text ", ").intercalate [text "Caroline"]).length + (text ", ").length < 11 →
        ((text ", ").intercalate [text "Caroline"]).length + (text ", ").length + (text "Melanie").length < 11 :=
      (hclean [text "Caroline"] (text "Melanie") [] hstrings (by simp)).1
    exact absurd hfits (by decide +kernel)

end AimeeMemory.Recall
