import AimeeMemory.Core.Gate

/-!
# The scope of a memory

`memory_core_scope_embed.c`: the primary scope of a memory, which is the narrowest that it is
tagged with, and the tagging of a new memory with the workspaces that it belongs to.

## What is proved

* **`primaryScope_iff`**: the primary scope is the narrowest one exactly when the tag that says so is among the first
  eight of the memory.
* **`ninthTag_missed`**: a project named by the ninth tag.
* **`autoTag_inBuffer_iff`**: the lower-case buffer of the tagging is kept to exactly when key and content leave room for
  three bytes more, or the key leaves it for just two.
* **`fullBuffer_overrun`**: a content that fills the buffer.

## Honest scope

The name of the shared workspace and the sizes of a tag are in a header that is not in the repository: the first is a
parameter, and a tag is what the database lists.
-/

namespace AimeeMemory.Core

/-- `memory_scope_tag_t`. -/
structure ScopeTag where
  type : Text
  value : Text
  deriving DecidableEq, Repr

/-- `memory_scope_level_t`. -/
inductive ScopeLevel where
  | none
  | global
  | workspace
  | project
  deriving DecidableEq, Repr

/-- The scope tags in the database, each memory's in the order they are listed in. -/
structure ScopeDb where
  tags : ℤ → List ScopeTag
  hasScopeType : ℤ → Text → Bool
  scopesList : ℤ → ℕ → List ScopeTag
  hasScopeType_eq : ∀ id type, hasScopeType id type = (tags id).any (·.type = type)
  scopesList_eq : ∀ id cap, scopesList id cap = (tags id).take cap

/-- `memory_collect_scopes`. -/
def memoryCollectScopes (db : ScopeDb) (id : ℤ) (max : ℕ) : List ScopeTag :=
  if id ≤ 0 ∨ max = 0 then []
  else
    let got := db.scopesList id (min 16 max)
    if got = [] then [⟨text "global", text "_global"⟩] else got

/-- The tag of a type among the first eight of a memory, where it has one at all. -/
def collectedTag (db : ScopeDb) (id : ℤ) (type : Text) : Option ScopeTag :=
  if db.hasScopeType id type then (memoryCollectScopes db id 8).find? (·.type = type) else none

/-- `memory_primary_scope`: the level, and its value in a buffer of `valueLen` bytes. -/
def memoryPrimaryScope (db : ScopeDb) (id : ℤ) (valueLen : ℕ) : ScopeLevel × Text :=
  if id ≤ 0 then (.none, [])
  else
    match collectedTag db id (text "project") with
    | some tag => (.project, tag.value.take (valueLen - 1))
    | none =>
      match collectedTag db id (text "workspace") with
      | some tag => (.workspace, tag.value.take (valueLen - 1))
      | none => (.global, (text "_global").take (valueLen - 1))

/-- A memory carries a tag of a type. -/
def Carries (tags : List ScopeTag) (type : String) : Prop := ∃ tag ∈ tags, tag.type = text type

instance (tags : List ScopeTag) (type : String) : Decidable (Carries tags type) :=
  inferInstanceAs (Decidable (∃ tag ∈ tags, tag.type = text type))

/-- A level does not widen what the tags say. -/
structure NeverWidens (tags : List ScopeTag) (level : ScopeLevel) : Prop where
  project : Carries tags "project" → level = .project
  workspace : ¬ Carries tags "project" → Carries tags "workspace" → level = .workspace
  global : level = .global → ¬ Carries tags "project" ∧ ¬ Carries tags "workspace"

/-- The narrowest tag is among the first eight. -/
def NarrowestInSight (tags : List ScopeTag) : Prop :=
  (Carries tags "project" → Carries (tags.take 8) "project") ∧
    (¬ Carries tags "project" → Carries tags "workspace" → Carries (tags.take 8) "workspace")

variable {db : ScopeDb} {id : ℤ}

/-- A tag is collected exactly if it is one of the first eight. -/
theorem collectedTag_isSome (db : ScopeDb) (h : 0 < id) (type : String) (hglobal : text "global" ≠ text type) :
    (collectedTag db id (text type)).isSome ↔ Carries ((db.tags id).take 8) type := by
  have hcollect : memoryCollectScopes db id 8 =
      if (db.tags id).take 8 = [] then [⟨text "global", text "_global"⟩] else (db.tags id).take 8 := by
    rw [memoryCollectScopes, if_neg (by omega), db.scopesList_eq]
    rfl
  rw [collectedTag, db.hasScopeType_eq, hcollect]
  by_cases hnone : (db.tags id).take 8 = []
  · simp [hnone, hglobal, Carries]
  · rw [if_neg hnone]
    split
    · simp [Carries]
    · rename_i hany
      refine iff_of_false (by simp) ?_
      rintro ⟨tag, htag, htype⟩
      refine hany (List.any_eq_true.2 ⟨tag, List.mem_of_mem_take htag, ?_⟩)
      exact decide_eq_true htype

theorem Carries.of_take {tags : List ScopeTag} {type : String} (h : Carries (tags.take 8) type) : Carries tags type := by
  obtain ⟨tag, htag, htype⟩ := h
  exact ⟨tag, List.mem_of_mem_take htag, htype⟩

/-- The level by the tags that are collected. -/
theorem memoryPrimaryScope_level (db : ScopeDb) (h : 0 < id) (valueLen : ℕ) :
    (memoryPrimaryScope db id valueLen).1 =
      if (collectedTag db id (text "project")).isSome then .project
      else if (collectedTag db id (text "workspace")).isSome then .workspace
      else .global := by
  rw [memoryPrimaryScope, if_neg (by omega)]
  cases collectedTag db id (text "project") with
  | some tag => rfl
  | none => cases collectedTag db id (text "workspace") <;> rfl

/-- **The primary scope never widens** exactly where the narrowest tag is among the first eight. -/
theorem primaryScope_iff (h : 0 < id) (valueLen : ℕ) :
    NeverWidens (db.tags id) (memoryPrimaryScope db id valueLen).1 ↔ NarrowestInSight (db.tags id) := by
  have hlevel := memoryPrimaryScope_level db h valueLen
  simp only [collectedTag_isSome db h "project" (by decide +kernel), collectedTag_isSome db h "workspace" (by decide +kernel)]
    at hlevel
  rw [hlevel]
  constructor
  · intro hnever
    refine ⟨fun hproject => ?_, fun hnot hworkspace => ?_⟩
    · by_contra hhidden
      have hreported := hnever.project hproject
      rw [if_neg hhidden] at hreported
      split_ifs at hreported
    · by_contra hhidden
      have hreported := hnever.workspace hnot hworkspace
      rw [if_neg fun hseen => hnot hseen.of_take, if_neg hhidden] at hreported
      cases hreported
  · rintro ⟨hproject, hworkspace⟩
    refine ⟨fun hp => if_pos (hproject hp), fun hnot hw => ?_, fun hreported => ?_⟩
    · rw [if_neg fun hseen => hnot hseen.of_take, if_pos (hworkspace hnot hw)]
    · split_ifs at hreported with hp hw
      have hnot : ¬ Carries (db.tags id) "project" := fun hcarries => hp (hproject hcarries)
      exact ⟨hnot, fun hcarries => hw (hworkspace hnot hcarries)⟩

/-! ### A memory with nine tags -/

/-- A database in which every memory has these tags. -/
def taggedDb (tags : List ScopeTag) : ScopeDb where
  tags _ := tags
  hasScopeType _ type := tags.any (·.type = type)
  scopesList _ cap := tags.take cap
  hasScopeType_eq _ _ := rfl
  scopesList_eq _ _ := rfl

/-- The tags of so many workspaces, and of a project behind them. -/
def workspacesThenProject (n : ℕ) : List ScopeTag :=
  (List.range n).map (fun i => ⟨text "workspace", text (toString i)⟩) ++ [⟨text "project", text "atlas"⟩]

/-- Behind eight workspaces the project is not seen. -/
theorem ninthTag_missed : (memoryPrimaryScope (taggedDb (workspacesThenProject 8)) 1 128).1 = .workspace ∧
    ¬ NeverWidens ((taggedDb (workspacesThenProject 8)).tags 1) (memoryPrimaryScope (taggedDb (workspacesThenProject 8)) 1 128).1 := by
  have hlevel : (memoryPrimaryScope (taggedDb (workspacesThenProject 8)) 1 128).1 = .workspace := by decide +kernel
  refine ⟨hlevel, fun hnever => ?_⟩
  have hreported := hnever.project (by decide +kernel)
  rw [hlevel] at hreported
  cases hreported

/-- Behind seven it is. -/
theorem eighthTag_seen : NeverWidens ((taggedDb (workspacesThenProject 7)).tags 1)
    (memoryPrimaryScope (taggedDb (workspacesThenProject 7)) 1 128).1 := by
  refine (primaryScope_iff (by decide) 128).2 ⟨fun _ => ?_, fun hnot => absurd ?_ hnot⟩
  · decide +kernel
  · decide +kernel

/-! ### Tagging a new memory -/

/-- What `memory_tag_workspace` inserts. -/
inductive TagInsert where
  | workspaceTag (id : ℤ) (workspace : Text)
  | scopeTag (id : ℤ) (tag : ScopeTag)
  deriving DecidableEq, Repr

/-- `memory_tag_workspace`. -/
def memoryTagWorkspace (id : ℤ) (workspace : Text) : List TagInsert :=
  if id ≤ 0 ∨ workspace = [] then []
  else [.workspaceTag id workspace, .scopeTag id ⟨text "workspace", workspace⟩]

/-- What the tagging finds around it. -/
structure TagEnv where
  cwd : Option Text
  workspaces : List Text
  /-- `SHARED_WORKSPACE`. -/
  sharedWorkspace : Text

/-- `shared_keywords`. -/
def sharedKeywords : List String :=
  ["network", "deploy", "auth", "datastore", "spire", "proxmox", "cert", "tls", "ssl", "firewall", "gateway", "dns",
    "database", "backup", "security"]

/-- A directory is a workspace or in it. -/
def inWorkspace (cwd workspace : Text) : Bool :=
  workspace ≠ [] && workspace.isPrefixOf cwd &&
    (cwd.length = workspace.length || (cwd.drop workspace.length).head? = some 47)

/-- The name of a workspace, behind its last slash. -/
def workspaceName (workspace : Text) : Text := (workspace.reverse.takeWhile (· ≠ 47)).reverse

/-- The workspace that the current directory is in. -/
def cwdTags (env : TagEnv) (id : ℤ) : List TagInsert :=
  match env.cwd.bind fun cwd => env.workspaces.find? (inWorkspace cwd) with
  | some workspace => memoryTagWorkspace id (workspaceName workspace)
  | none => []

/-- `lower_buf` has 1024 bytes, of which a text is copied to the first 1023. -/
def lowerCap : ℕ := 1023

/-- The inner loop: a text in lower case. -/
def lowerText : Text → Text → Text
  | [], buf => buf
  | c :: cs, buf => if buf.length < lowerCap then lowerText cs (buf ++ [tolower c]) else buf

/-- The outer loop: a blank is written behind each text, wherever the text has ended. -/
def lowerTexts : List Text → Text → Text
  | [], buf => buf
  | t :: ts, buf => if buf.length < lowerCap then lowerTexts ts (lowerText t buf ++ [32]) else buf

/-- `memory_auto_tag_workspace`: what it returns, the tags that it inserts, and the indices of the lower-case buffer that it
writes. Each byte is written at the index that counts those before it, and the terminator behind the last. -/
def memoryAutoTagWorkspace (env : TagEnv) (id : ℤ) (key content : Text) : ℤ × List TagInsert × List ℕ :=
  if id ≤ 0 then (-1, [], [])
  else
    let lower := lowerTexts [key, content] []
    let shared := sharedKeywords.any fun keyword => text keyword <:+: lower
    (0, cwdTags env id ++ (if shared then memoryTagWorkspace id env.sharedWorkspace else []), List.range (lower.length + 1))

theorem length_lowerText (t buf : Text) (hbuf : buf.length ≤ lowerCap) :
    (lowerText t buf).length = min lowerCap (buf.length + t.length) := by
  induction t generalizing buf with
  | nil => rw [lowerText, List.length_nil, Nat.add_zero, Nat.min_eq_right hbuf]
  | cons c cs ih =>
    rw [lowerText]
    split
    · rename_i hroom
      rw [ih _ (by rw [List.length_append]; exact hroom)]
      simp only [List.length_append, List.length_cons, List.length_nil]
      omega
    · rename_i hfull
      rw [List.length_cons]
      omega

/-- The bytes in the buffer: a blank more than the two texts, unless the key fills it. -/
theorem length_lowerTexts (key content : Text) :
    (lowerTexts [key, content] []).length =
      if key.length < 1022 then min 1023 (key.length + 1 + content.length) + 1 else min 1023 key.length + 1 := by
  have hkey := length_lowerText key [] (Nat.zero_le _)
  simp only [lowerCap, List.length_nil, Nat.zero_add] at hkey
  rw [lowerTexts, if_pos (by decide), lowerTexts, List.length_append, hkey, List.length_singleton, lowerCap]
  by_cases hroom : key.length < 1022
  · have hblank : (lowerText key [] ++ [32]).length = key.length + 1 := by
      rw [List.length_append, hkey, List.length_singleton]
      omega
    have hcontent := length_lowerText content (lowerText key [] ++ [32]) (by rw [hblank, lowerCap]; omega)
    rw [if_pos (by omega), if_pos hroom, lowerTexts, List.length_append, hcontent, hblank, List.length_singleton, lowerCap]
  · rw [if_neg (by omega), if_neg hroom, List.length_append, hkey, List.length_singleton]

/-- The bytes and the terminator are written. -/
theorem memoryAutoTagWorkspace_written (env : TagEnv) (h : ¬ id ≤ 0) (key content : Text) :
    (memoryAutoTagWorkspace env id key content).2.2 = List.range ((lowerTexts [key, content] []).length + 1) := by
  rw [memoryAutoTagWorkspace, if_neg h]

/-- **The tagging stays in its buffer** exactly when the texts and their blanks are shorter than it, or the key with its blank
leaves just the terminator's place. -/
theorem autoTag_inBuffer_iff (env : TagEnv) (id : ℤ) (key content : Text) :
    (∀ i ∈ (memoryAutoTagWorkspace env id key content).2.2, i < 1024) ↔
      id ≤ 0 ∨ key.length + content.length < 1022 ∨ key.length = 1022 := by
  by_cases hid : id ≤ 0
  · simp [memoryAutoTagWorkspace, hid]
  · simp only [memoryAutoTagWorkspace_written env hid, List.mem_range]
    have hlength := length_lowerTexts key content
    constructor
    · intro hbelow
      have hlast := hbelow (lowerTexts [key, content] []).length (Nat.lt_succ_self _)
      split_ifs at hlength <;> omega
    · intro hfits i hi
      split_ifs at hlength <;> omega

/-- A content that fills the buffer: its terminator is written behind it. -/
theorem fullBuffer_overrun :
    1024 ∈ (memoryAutoTagWorkspace ⟨none, [], text "_shared"⟩ 1 (text "port") (List.replicate 1018 97)).2.2 := by
  have hkey : (text "port").length = 4 := by decide +kernel
  rw [memoryAutoTagWorkspace_written _ (by decide), length_lowerTexts, hkey, List.length_replicate]
  decide +kernel

end AimeeMemory.Core
