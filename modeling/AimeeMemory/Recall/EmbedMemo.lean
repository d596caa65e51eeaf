import AimeeMemory.Lib.Trace
import AimeeMemory.Core.Store

/-!
# The embedding memo of a recall

`memory_core_helpers_b.c`: `memory_embed_text_runtime` embeds a query text, or serves the
vector that the same recall has embedded for it before; `memory_query_embed_prewarm` embeds
several texts in one batch and puts their vectors into the same memo.

## What is proved

* **`memo_transparent`**: in a run of such calls every vector is the one a fresh embed gives,
  as long as no text is asked for with more room than an earlier call had cut it to, and no
  batch goes to a service that answers otherwise where it is not told that it embeds queries.
* **`batch_loses_polarity`**, **`cut_vector_served`**: both happen. The batch is posted
  without an input type, and the memo does not remember the room of a call.

## Honest scope

The embedder answers a command, an input type and a text with the same numbers each time, or
never; its circuit breaker, which turns calls away for a while, is not modelled. A batch is
answered as a whole, text by text, or not at all. The lexical fixture of the test builds is
left out.
-/

namespace AimeeMemory.Recall

open AimeeMemory.Core AimeeMemory.Lib

/-- `embed_input_type_t`. -/
inductive EmbedInputType where
  | query
  | document
  deriving DecidableEq, Repr

/-- `MEMORY_QEMBED_CAP`, `MEMORY_QEMBED_TEXT_MAX` and `MEMORY_QEMBED_CMD_MAX`. -/
def qembedCap : ℕ := 32
def qembedTextMax : ℕ := 1024
def qembedCmdMax : ℕ := 512

/-- The embedder, over numbers `F`, and the configuration of the calls. -/
structure Embedding (F : Type) where
  /-- The numbers of the answer, to a request that names an input type or none. -/
  answer : Text → Option EmbedInputType → Text → Option (List F)
  /-- Whether a batch is answered. -/
  answersBatch : Text → List Text → Bool
  /-- `memory_effective_embedding_cmd`. -/
  effectiveCmd : Option Text → Text
  /-- `EMBED_MAX_DIM`. -/
  maxDim : ℕ

/-- `memory_embed_command_is_http`. -/
def embedCommandIsHttp (cmd : Text) : Bool := (text "http://").isPrefixOf cmd || (text "https://").isPrefixOf cmd

structure QembedEntry (F : Type) where
  command : Text
  text : Text
  vec : List F
  deriving DecidableEq, Repr

/-- The memo of a recall, and its counters. -/
structure Qembed (F : Type) where
  entries : List (QembedEntry F) := []
  requests : ℕ := 0
  misses : ℕ := 0
  deriving DecidableEq, Repr

section Calls

variable {F : Type} (e : Embedding F)

/-- `memory_embed_text`: the vector, of as many numbers as there is room for, or none. -/
def memoryEmbedText (t : Option Text) (command : Text) (inputType : EmbedInputType) (maxDim : ℤ) : List F :=
  match t with
  | none => []
  | some t =>
    if maxDim ≤ 0 ∨ command = [] then []
    else
      -- only the HTTP request says what kind of text it is
      let named := if embedCommandIsHttp command then some inputType else none
      ((e.answer command named t).getD []).take maxDim.toNat

/-- An embed without the memo: by the command or, where it gives nothing, by "builtin". -/
def freshEmbed (t : Option Text) (command : Option Text) (maxDim : ℤ) : List F :=
  let cmd := e.effectiveCmd command
  let vec := memoryEmbedText e t cmd .query maxDim
  if vec = [] ∧ cmd ≠ text "builtin" then memoryEmbedText e t (text "builtin") .query maxDim else vec

/-- The key of a call, where it fits the buffers of the memo. -/
def cacheKey (t command : Option Text) : Option (Text × Text) :=
  match t, command with
  | some t, some c =>
    let cmd := e.effectiveCmd (some c)
    if t.length < qembedTextMax ∧ cmd.length < qembedCmdMax then some (cmd, t) else none
  | _, _ => none

/-- The entry that serves a key. -/
def Qembed.serve (s : Qembed F) (key : Text × Text) (maxDim : ℤ) : Option (QembedEntry F) :=
  s.entries.find? fun x =>
    0 < x.vec.length ∧ (x.vec.length : ℤ) ≤ maxDim ∧ x.command = key.1 ∧ x.text = key.2

/-- `memory_embed_text_runtime`. -/
def memoryEmbedTextRuntime (t command : Option Text) (maxDim : ℤ) (s : Qembed F) : List F × Qembed F :=
  let s := { s with requests := s.requests + 1 }
  match (cacheKey e t command).bind fun key => s.serve key maxDim with
  | some x => (x.vec, s)
  | none =>
    let vec := freshEmbed e t command maxDim
    let s := { s with misses := s.misses + 1 }
    match cacheKey e t command with
    | some (cmd, t) =>
      if 0 < vec.length ∧ vec.length ≤ e.maxDim ∧ s.entries.length < qembedCap then
        (vec, { s with entries := s.entries ++ [⟨cmd, t, vec⟩] })
      else (vec, s)
    | none => (vec, s)

/-- `memory_query_embed_cache_put`. -/
def Qembed.put (s : Qembed F) (x : QembedEntry F) : Qembed F :=
  if x.vec.length = 0 ∨ e.maxDim < x.vec.length then s
  else if qembedTextMax ≤ x.text.length ∨ qembedCmdMax ≤ x.command.length then s
  else if s.entries.any fun y => y.command = x.command ∧ y.text = x.text then s
  else if qembedCap ≤ s.entries.length then s
  else { s with entries := s.entries ++ [x] }

/-- A text is picked for the batch unless it is too long, in the memo or picked already. -/
def Qembed.pick (s : Qembed F) (cmd : Text) (picked : List Text) (t : Option Text) : List Text :=
  match t with
  | none => picked
  | some t =>
    if qembedCap ≤ picked.length ∨ t = [] ∨ qembedTextMax ≤ t.length then picked
    else if (s.entries.any fun y => y.command = cmd ∧ y.text = t) ∨ t ∈ picked then picked
    else picked ++ [t]

/-- The texts that go into one batch. A single one is not worth a batch. -/
def Qembed.batch (s : Qembed F) (cmd : Text) (texts : List (Option Text)) : List Text :=
  if cmd = text "builtin" then []
  else
    let picked := texts.foldl (s.pick cmd) []
    if picked.length < 2 then [] else picked

/-- `memory_query_embed_prewarm`. Neither the path `/embed_batch` nor the command of a batch says that
the texts are queries. -/
def memoryQueryEmbedPrewarm (texts : List (Option Text)) (command : Option Text) (s : Qembed F) : Qembed F :=
  let cmd := e.effectiveCmd command
  let batch := s.batch cmd texts
  if e.answersBatch cmd batch then
    batch.foldl (fun s t => s.put e ⟨cmd, t, ((e.answer cmd none t).getD []).take e.maxDim⟩) s
  else s

/-- A call of a recall. -/
inductive EmbedCall where
  | prewarm (texts : List (Option Text)) (command : Option Text)
  | embed (t command : Option Text) (maxDim : ℤ)
  deriving DecidableEq, Repr

def embedStep (s : Qembed F) : EmbedCall → Qembed F
  | .prewarm texts command => memoryQueryEmbedPrewarm e texts command s
  | .embed t command maxDim => (memoryEmbedTextRuntime e t command maxDim s).2

/-- A call gets the vector of a fresh embed, and with it the dimension. -/
def ServesFresh (s : Qembed F) : EmbedCall → Prop
  | .prewarm .. => True
  | .embed t command maxDim => (memoryEmbedTextRuntime e t command maxDim s).1 = freshEmbed e t command maxDim

instance [DecidableEq F] (s : Qembed F) (c : EmbedCall) : Decidable (ServesFresh e s c) := by
  cases c <;> unfold ServesFresh <;> infer_instance

/-- All the numbers of the answer of a command to a query text. -/
def queryAnswer (cmd t : Text) : List F :=
  if cmd = [] then [] else (e.answer cmd (if embedCommandIsHttp cmd then some .query else none) t).getD []

/-- All the numbers that a query text is answered with, by the command or by "builtin". -/
def emitted (cmd t : Text) : List F :=
  if queryAnswer e cmd t = [] ∧ cmd ≠ text "builtin" then queryAnswer e (text "builtin") t else queryAnswer e cmd t

/-- A text was asked for under a command with so much room. -/
def AskedWith (pre : List EmbedCall) (cmd t : Text) (room : ℕ) : Prop :=
  (∃ command maxDim, .embed (some t) command maxDim ∈ pre ∧ e.effectiveCmd command = cmd ∧ room = maxDim.toNat) ∨
    (∃ texts command, .prewarm texts command ∈ pre ∧ some t ∈ texts ∧ e.effectiveCmd command = cmd ∧ room = e.maxDim)

/-- A call does not ask with more room than an earlier one had for a longer vector; a batch goes to a
command, or to a service that answers a text without an input type as it answers a query. -/
def Repeatable (pre : List EmbedCall) (s : Qembed F) : EmbedCall → Prop
  | .prewarm texts command =>
    let cmd := e.effectiveCmd command
    ∀ t ∈ s.batch cmd texts, cmd ≠ [] ∧ (embedCommandIsHttp cmd → e.answer cmd none t = e.answer cmd (some .query) t)
  | .embed t command maxDim => ∀ t', t = some t' → ∀ room, AskedWith e pre (e.effectiveCmd command) t' room →
      maxDim ≤ room ∨ (emitted e (e.effectiveCmd command) t').length ≤ room

end Calls

/-! ## Fresh vectors -/

section Fresh

variable {F : Type} {e : Embedding F}

theorem memoryEmbedText_query (cmd t : Text) (maxDim : ℤ) :
    memoryEmbedText e (some t) cmd .query maxDim = (queryAnswer e cmd t).take maxDim.toNat := by
  unfold memoryEmbedText queryAnswer
  by_cases hcmd : cmd = []
  · simp [hcmd]
  · by_cases hroom : maxDim ≤ 0
    · simp [hroom, Int.toNat_of_nonpos hroom]
    · simp [hcmd, hroom]

/-- A fresh vector is what is emitted, as far as there is room. -/
theorem freshEmbed_eq (t : Text) (command : Option Text) (maxDim : ℤ) :
    freshEmbed e (some t) command maxDim = (emitted e (e.effectiveCmd command) t).take maxDim.toNat := by
  simp only [freshEmbed, memoryEmbedText_query, emitted]
  by_cases hroom : maxDim.toNat = 0
  · simp [hroom]
  · simp only [List.take_eq_nil_iff, hroom, false_or]
    split <;> rfl

/-- A cut vector that fits the room is the fresh one, unless it was cut shorter than that. -/
theorem take_eq_of_fits {v : List F} {room want : ℕ} (hfits : (v.take room).length ≤ want)
    (h : want ≤ room ∨ v.length ≤ room) : v.take room = v.take want := by
  rw [List.length_take] at hfits
  by_cases hwhole : v.length ≤ room
  · rw [List.take_of_length_le hwhole, List.take_of_length_le (by omega)]
  · have hsame : room = want := by omega
    rw [hsame]

end Fresh

/-! ## The invariant of the memo -/

section Run

variable {F : Type} {e : Embedding F}

/-- An entry was embedded for an earlier call, with the room of that call. -/
def Stored (e : Embedding F) (pre : List EmbedCall) (x : QembedEntry F) : Prop :=
  ∃ room, AskedWith e pre x.command x.text room ∧ x.vec = (emitted e x.command x.text).take room

/-- Every entry of the memo was. -/
def AllStored (e : Embedding F) (pre : List EmbedCall) (s : Qembed F) : Prop := ∀ x ∈ s.entries, Stored e pre x

theorem AskedWith.mono {pre pre' : List EmbedCall} (hsub : pre ⊆ pre') {cmd t : Text} {room : ℕ}
    (h : AskedWith e pre cmd t room) : AskedWith e pre' cmd t room := by
  rcases h with ⟨command, maxDim, hmem, h⟩ | ⟨texts, command, hmem, h⟩
  · exact .inl ⟨command, maxDim, hsub hmem, h⟩
  · exact .inr ⟨texts, command, hsub hmem, h⟩

theorem AllStored.mono {pre pre' : List EmbedCall} (hsub : pre ⊆ pre') {s : Qembed F} (h : AllStored e pre s) :
    AllStored e pre' s := by
  intro x hx
  obtain ⟨room, hasked, hvec⟩ := h x hx
  exact ⟨room, hasked.mono hsub, hvec⟩

theorem cacheKey_eq {t command : Option Text} {key : Text × Text} (h : cacheKey e t command = some key) :
    ∃ t', t = some t' ∧ key = (e.effectiveCmd command, t') := by
  unfold cacheKey at h
  split at h
  · rename_i t' c
    simp only at h
    split at h
    · exact ⟨t', rfl, (Option.some.inj h).symm⟩
    · cases h
  · cases h

/-- What a call without the memo's help gets, and what it leaves: an entry of its own, or none. -/
theorem memoryEmbedTextRuntime_cases (t command : Option Text) (maxDim : ℤ) (s : Qembed F) :
    (∃ x ∈ s.entries, (x.vec.length : ℤ) ≤ maxDim ∧ x.command = e.effectiveCmd command ∧ t = some x.text ∧
        (memoryEmbedTextRuntime e t command maxDim s).1 = x.vec ∧
        (memoryEmbedTextRuntime e t command maxDim s).2.entries = s.entries) ∨
      ((memoryEmbedTextRuntime e t command maxDim s).1 = freshEmbed e t command maxDim ∧
        ∀ x ∈ (memoryEmbedTextRuntime e t command maxDim s).2.entries, x ∈ s.entries ∨
          x.command = e.effectiveCmd command ∧ t = some x.text ∧ x.vec = freshEmbed e t command maxDim) := by
  unfold memoryEmbedTextRuntime
  simp only
  split
  · rename_i x hserved
    obtain ⟨key, hkey, hserve⟩ := Option.bind_eq_some_iff.1 hserved
    obtain ⟨t', rfl, rfl⟩ := cacheKey_eq hkey
    have hfound := List.find?_some hserve
    simp only [decide_eq_true_eq] at hfound
    obtain ⟨-, hfits, hcommand, htext⟩ := hfound
    exact .inl ⟨x, List.mem_of_find?_eq_some hserve, hfits, hcommand, by rw [htext], rfl, rfl⟩
  · refine .inr ?_
    split
    · rename_i cmd t' hkey
      obtain ⟨t'', rfl, hpair⟩ := cacheKey_eq hkey
      obtain ⟨rfl, rfl⟩ := Prod.mk.inj hpair
      split
      · refine ⟨rfl, fun x hx => ?_⟩
        rcases List.mem_append.1 hx with hx | hx
        · exact .inl hx
        · obtain rfl := List.mem_singleton.1 hx
          exact .inr ⟨rfl, rfl, rfl⟩
      · exact ⟨rfl, fun x hx => .inl hx⟩
    · exact ⟨rfl, fun x hx => .inl hx⟩

/-- A repeatable call gets the fresh vector. -/
theorem AllStored.servesFresh {pre : List EmbedCall} {s : Qembed F} (h : AllStored e pre s) {c : EmbedCall}
    (hc : Repeatable e pre s c) : ServesFresh e s c := by
  cases c with
  | prewarm texts command => trivial
  | embed t command maxDim =>
    rcases memoryEmbedTextRuntime_cases (e := e) t command maxDim s with
      ⟨x, hx, hfits, hcommand, rfl, hvec, -⟩ | ⟨hfresh, -⟩
    · obtain ⟨room, hasked, hstored⟩ := h x hx
      have hroom := hc x.text rfl room (hcommand ▸ hasked)
      rw [ServesFresh, hvec, freshEmbed_eq, ← hcommand, hstored]
      rw [hstored] at hfits
      rw [← hcommand] at hroom
      exact take_eq_of_fits (by omega) (by omega)
    · exact hfresh

theorem AllStored.embed {pre : List EmbedCall} {s : Qembed F} (h : AllStored e pre s) (t command : Option Text)
    (maxDim : ℤ) : AllStored e (pre ++ [.embed t command maxDim]) (embedStep e s (.embed t command maxDim)) := by
  have hkept : AllStored e (pre ++ [.embed t command maxDim]) s := h.mono (List.subset_append_left _ _)
  intro x hx
  rcases memoryEmbedTextRuntime_cases (e := e) t command maxDim s with ⟨_, _, _, _, _, _, hsame⟩ | ⟨-, hnew⟩
  · exact hkept x (hsame ▸ hx)
  · rcases hnew x hx with hold | ⟨hcommand, rfl, hvec⟩
    · exact hkept x hold
    · refine ⟨maxDim.toNat, .inl ⟨command, maxDim, ?_, hcommand.symm, rfl⟩, ?_⟩
      · exact List.mem_append_right _ (List.mem_singleton.2 rfl)
      · rw [hvec, freshEmbed_eq, hcommand]

theorem mem_put {s : Qembed F} {x y : QembedEntry F} (h : y ∈ (s.put e x).entries) :
    y ∈ s.entries ∨ y = x ∧ x.vec ≠ [] := by
  unfold Qembed.put at h
  split at h
  · exact .inl h
  · rename_i hdim
    split at h
    · exact .inl h
    · split at h
      · exact .inl h
      · split at h
        · exact .inl h
        · rcases List.mem_append.1 h with h | h
          · exact .inl h
          · refine .inr ⟨List.mem_singleton.1 h, fun hnil => hdim (.inl ?_)⟩
            rw [hnil]
            rfl

theorem mem_batch {s : Qembed F} {cmd t : Text} {texts : List (Option Text)} (h : t ∈ s.batch cmd texts) :
    some t ∈ texts := by
  have hpicked : ∀ (texts : List (Option Text)) (picked : List Text),
      t ∈ texts.foldl (s.pick cmd) picked → t ∈ picked ∨ some t ∈ texts := by
    intro texts
    induction texts with
    | nil => intro picked h; exact .inl h
    | cons u us ih =>
      intro picked h
      rcases ih _ h with h | h
      · unfold Qembed.pick at h
        grind
      · exact .inr (List.mem_cons_of_mem _ h)
  unfold Qembed.batch at h
  split at h
  · simp at h
  · simp only at h
    split at h
    · simp at h
    · exact (hpicked texts [] h).resolve_left (by simp)

/-- What a batch stores for a text is what the text is answered with as a query. -/
theorem emitted_of_batch {cmd t : Text} (hcmd : cmd ≠ [])
    (hsame : embedCommandIsHttp cmd → e.answer cmd none t = e.answer cmd (some .query) t)
    (hvec : ((e.answer cmd none t).getD []).take e.maxDim ≠ []) :
    ((e.answer cmd none t).getD []).take e.maxDim = (emitted e cmd t).take e.maxDim := by
  have hquery : queryAnswer e cmd t = (e.answer cmd none t).getD [] := by
    rw [queryAnswer, if_neg hcmd]
    split
    · rename_i hhttp
      rw [hsame hhttp]
    · rfl
  have hne : (e.answer cmd none t).getD [] ≠ [] := by
    intro hnil
    simp [hnil] at hvec
  rw [emitted, hquery, if_neg fun h => hne h.1]

theorem AllStored.prewarm {pre : List EmbedCall} {s : Qembed F} (h : AllStored e pre s)
    {texts : List (Option Text)} {command : Option Text} (hok : Repeatable e pre s (.prewarm texts command)) :
    AllStored e (pre ++ [.prewarm texts command]) (embedStep e s (.prewarm texts command)) := by
  have hkept : AllStored e (pre ++ [.prewarm texts command]) s := h.mono (List.subset_append_left _ _)
  have hputs : ∀ (batch : List Text), (∀ t ∈ batch, t ∈ s.batch (e.effectiveCmd command) texts) →
      ∀ s' : Qembed F, AllStored e (pre ++ [.prewarm texts command]) s' →
        AllStored e (pre ++ [.prewarm texts command]) (batch.foldl (fun s t => s.put e
          ⟨e.effectiveCmd command, t, ((e.answer (e.effectiveCmd command) none t).getD []).take e.maxDim⟩) s') := by
    intro batch
    induction batch with
    | nil => exact fun _ s' hs' => hs'
    | cons t ts ih =>
      intro hbatch s' hs'
      refine ih (fun u hu => hbatch u (List.mem_cons_of_mem _ hu)) _ fun x hx => ?_
      rcases mem_put hx with hold | ⟨rfl, hne⟩
      · exact hs' x hold
      · have ht := hbatch t List.mem_cons_self
        obtain ⟨hcmd, hsame⟩ := hok t ht
        refine ⟨e.maxDim, .inr ⟨texts, command, ?_, mem_batch ht, rfl, rfl⟩, emitted_of_batch hcmd hsame hne⟩
        exact List.mem_append_right _ (List.mem_singleton.2 rfl)
  simp only [embedStep, memoryQueryEmbedPrewarm]
  split
  · exact hputs _ (fun _ ht => ht) s hkept
  · exact hkept

/-- In a run from an empty memo whose calls are all repeatable, every call gets the vector, and the
dimension, of a fresh embed with the same arguments. -/
theorem memo_transparent (cs : List EmbedCall) (h : Meets (embedStep e) (Repeatable e) {} cs) :
    Meets (embedStep e) (fun _ => ServesFresh e) {} cs := by
  intro pre c post hsplit
  have hpre : Meets (embedStep e) (Repeatable e) {} pre := (hsplit ▸ h).init
  have hkept : AllStored e pre (run (embedStep e) {} pre) := by
    refine run_invariant (I := AllStored e) (fun x hx => by simp at hx) (fun pre s c hs hc => ?_) pre hpre
    cases c with
    | prewarm texts command => exact hs.prewarm hc
    | embed t command maxDim => exact hs.embed t command maxDim
  exact hkept.servesFresh (h pre c post hsplit)

end Run

/-! ## Two services -/

/-- A service that embeds queries and other texts apart, two numbers a text. -/
def prefixingService : Embedding ℤ where
  answer _ inputType _ := some (if inputType = some .query then [1, 0] else [0, 1])
  answersBatch _ _ := true
  effectiveCmd command := command.getD (text "http://embedder")
  maxDim := 4

/-- A recall that asks a command for the same text twice. -/
theorem memo_transparent_twice :
    Meets (embedStep prefixingService) (fun _ => ServesFresh prefixingService) {}
      [.embed (some (text "a")) (some (text "embed")) 4, .embed (some (text "a")) (some (text "embed")) 4] :=
  memo_transparent _ (by
    intro pre c post hsplit
    have hsame : ∀ c' ∈ pre ++ c :: post, c' = .embed (some (text "a")) (some (text "embed")) 4 := by
      rw [← hsplit]
      simp
    rw [hsame c (by simp)]
    -- each call has room for four numbers
    rintro t - room (⟨command, maxDim, hmem, -, rfl⟩ | ⟨_, _, _, _, _, rfl⟩)
    · obtain ⟨-, -, rfl⟩ := EmbedCall.embed.inj (hsame _ (List.mem_append_left _ hmem))
      exact .inl le_rfl
    · exact .inl le_rfl)

/-- A text that a batch has embedded is served as the document that it is not. -/
theorem batch_loses_polarity :
    ¬ Meets (embedStep prefixingService) (fun _ => ServesFresh prefixingService) {}
      [.prewarm [some (text "a"), some (text "b")] (some (text "http://embedder")),
        .embed (some (text "a")) (some (text "http://embedder")) 4] := by
  decide

/-- A vector that was cut to one number is served where there is room for two. -/
theorem cut_vector_served :
    ¬ Meets (embedStep prefixingService) (fun _ => ServesFresh prefixingService) {}
      [.embed (some (text "a")) (some (text "embed")) 1, .embed (some (text "a")) (some (text "embed")) 4] := by
  decide

end AimeeMemory.Recall
