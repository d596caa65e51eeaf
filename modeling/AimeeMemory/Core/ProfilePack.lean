import AimeeMemory.Core.Json

/-!
# Profile packs

`memory_profile_pack_validate_file` and `memory_profile_pack_load` of `memory_profile_pack.c`. A
pack is a JSON file that an operator writes: it narrows the tiers and the kinds of memories, and
sets the defaults of their scope. A pack is loaded when it is valid, by a second walk over it, into
a record of fixed lists and widths.

## What is proved

* `memoryProfilePackLoad_eq`: a valid pack is loaded, as the second walk finds it.
* **`load_faithful_iff`**: it has the tiers and the kinds that the file lists, and no default tier
  or a known one, exactly where it has a name and fits (`PackFits`): no more tiers and kinds than
  the record has room for, every kind a string of at most 15 bytes, and a default tier that is known.
* **`numbered_kinds_load`**: a valid pack whose list of kinds is loaded empty, which allows all.

## Honest scope

The files and the JSON parser are parameters. A file does not change between the two reads, and
memory can be had.
-/

namespace AimeeMemory.Core

/-! ### Files -/

/-- What the packs are read with. -/
structure PackFiles where
  /-- `AIMEE_PACK_DIR`. -/
  env : Option Text
  /-- `aimee_home`. -/
  home : Option Text
  /-- `MAX_PATH_LEN`. -/
  maxPathLen : ℕ
  contents : Text → Option (List UInt8)
  /-- `cJSON_Parse`. -/
  parse : Text → Option Json

/-- `memory_profile_pack_dir`. -/
def memoryProfilePackDir (files : PackFiles) : Text :=
  let fallback := (files.home.getD (text "/tmp/.config/aimee") ++ text "/packs").take (files.maxPathLen - 1)
  match files.env with
  | some env => if env ≠ [] then env.take (files.maxPathLen - 1) else fallback
  | none => fallback

/-- The file of a pack. -/
def packPath (files : PackFiles) (name : Text) : Text :=
  (memoryProfilePackDir files ++ text "/" ++ name ++ text ".json").take (files.maxPathLen - 1)

/-- What the parser sees of a file: all before the first zero byte. -/
def packRoot (files : PackFiles) (contents : List UInt8) : Option Json := files.parse (contents.takeWhile (· ≠ 0))

/-! ### Validation -/

/-- `s_known_tiers`. -/
def knownTiers : List Text := ["L0", "L1", "L2", "L3"].map text

/-- `s_known_top_keys`. -/
def knownTopKeys : List Text :=
  ["name", "description", "extraction_hints", "validation_rules", "scope_defaults", "explain_labels"].map text

/-- `is_known_tier`. -/
def isKnownTier (tier : Text) : Bool := tier ∈ knownTiers

def checkName (root : Json) : Except Text Unit :=
  match root.text? "name" with
  | some (_ :: _) => .ok ()
  | _ => .error (text "missing required field: name")

def checkDescription (root : Json) : Except Text Unit :=
  match root.text? "description" with
  | some _ => .ok ()
  | none => .error (text "missing required field: description")

def checkTopKeys : Json → Except Text Unit
  | .obj fields =>
    match fields.find? (·.1 ∉ knownTopKeys) with
    | some field => .error (text "unknown key: " ++ field.1)
    | none => .ok ()
  | _ => .ok ()

/-- The first tier that is not known. -/
def checkTiers : List Json → Except Text Unit
  | [] => .ok ()
  | .str tier :: items => if isKnownTier tier then checkTiers items else .error (text "unknown tier: " ++ tier)
  | _ :: _ => .error (text "unknown tier: (non-string)")

def checkAllowedTiers (rules : Json) : Except Text Unit :=
  match rules.field? "allowed_tiers" with
  | none => .ok ()
  | some (.arr items) => checkTiers items
  | some _ => .error (text "validation_rules.allowed_tiers must be an array")

def checkAllowedKinds (rules : Json) : Except Text Unit :=
  match rules.field? "allowed_kinds" with
  | none => .ok ()
  | some (.arr _) => .ok ()
  | some _ => .error (text "validation_rules.allowed_kinds must be an array")

def checkValidationRules (root : Json) : Except Text Unit :=
  match root.field? "validation_rules" with
  | none => .ok ()
  | some (.obj fields) => do
    checkAllowedTiers (.obj fields)
    checkAllowedKinds (.obj fields)
  | some _ => .error (text "validation_rules must be an object")

/-- A part that is an object if it is there. -/
def checkObject (key : String) (root : Json) : Except Text Unit :=
  match root.field? key with
  | none => .ok ()
  | some (.obj _) => .ok ()
  | some _ => .error (text key ++ text " must be an object")

/-- The checks of a pack that is parsed, in their order. -/
def validatePack (root : Json) : Except Text Unit := do
  checkName root
  checkDescription root
  checkTopKeys root
  checkValidationRules root
  checkObject "scope_defaults" root
  checkObject "extraction_hints" root
  checkObject "explain_labels" root

/-- `memory_profile_pack_validate_file`. -/
def memoryProfilePackValidateFile (files : PackFiles) (path : Text) : Except Text Unit :=
  if path = [] then .error (text "no path given")
  else
    match files.contents path with
    | none => .error (text "cannot open " ++ path)
    | some contents =>
      if contents.length = 0 ∨ 65536 < contents.length then
        .error (text "file size out of range (" ++ text (toString contents.length) ++ text " bytes)")
      else
        match packRoot files contents with
        | none => .error (text "invalid JSON")
        | some root => validatePack root

/-! ### Loading -/

/-- `memory_profile_pack_t`. -/
structure ProfilePack where
  name : Text
  description : Text
  allowedTiers : List Text
  allowedKinds : List Text
  defaultTier : Text
  defaultVisibility : Text
  deriving DecidableEq, Repr

/-- The strings of a list, each cut to its slot, while there are slots. -/
def loadList (slots width : ℕ) (items : List Json) : List Text :=
  items.foldl (fun out item =>
    match item with
    | .str s => if out.length < slots then out ++ [s.take width] else out
    | _ => out) []

/-- The items of a list of the rules. -/
def ruleItems (key : String) (root : Json) : List Json :=
  match root.field? "validation_rules" with
  | some rules => rules.items key
  | none => []

/-- A default of the scope, where it is a string. -/
def scopeDefault (key : String) (root : Json) : Text :=
  match root.field? "scope_defaults" with
  | some defaults => (defaults.text? key).getD []
  | none => []

/-- The second walk over a pack. -/
def loadPack (root : Json) : ProfilePack where
  name := ((root.text? "name").getD []).take 63
  description := ((root.text? "description").getD []).take 255
  allowedTiers := loadList 8 3 (ruleItems "allowed_tiers" root)
  allowedKinds := loadList 16 15 (ruleItems "allowed_kinds" root)
  defaultTier := (scopeDefault "tier" root).take 3
  defaultVisibility := (scopeDefault "visibility" root).take 15

/-- `memory_profile_pack_load`, with the buffer of the caller for the error. -/
def memoryProfilePackLoad (files : PackFiles) (name : Text) (errlen : ℕ) : Except Text ProfilePack :=
  if name = [] then .error ((text "invalid arguments").take (errlen - 1))
  else
    match memoryProfilePackValidateFile files (packPath files name) with
    | .error valerr => .error ((valerr.take 255).take (errlen - 1))
    | .ok () =>
      match files.contents (packPath files name) with
      | none => .error ((text "cannot open " ++ packPath files name).take (errlen - 1))
      | some contents =>
        match packRoot files contents with
        | none => .error ((text "invalid JSON").take (errlen - 1))
        | some root => .ok (loadPack root)

/-! ### What validation says -/

variable {files : PackFiles} {path name : Text} {root : Json} {items : List Json} {errlen : ℕ}

theorem ok_of_bind {ε α β : Type} {x : Except ε α} {f : α → Except ε β} {b : β} (h : x >>= f = .ok b) :
    ∃ a, x = .ok a ∧ f a = .ok b := by
  cases x with
  | error e => cases h
  | ok a => exact ⟨a, rfl, h⟩

/-- A file that is accepted parses to a pack that is. -/
theorem validateFile_ok (h : memoryProfilePackValidateFile files path = .ok ()) :
    ∃ contents root, files.contents path = some contents ∧ packRoot files contents = some root ∧
      validatePack root = .ok () := by
  unfold memoryProfilePackValidateFile at h
  split at h
  · cases h
  · split at h
    · cases h
    · next contents hcontents =>
      split at h
      · cases h
      · split at h
        · cases h
        · next root hroot => exact ⟨contents, root, hcontents, hroot, h⟩

theorem checkTiers_ok (h : checkTiers items = .ok ()) : ∀ item ∈ items, ∃ tier, item = .str tier ∧ isKnownTier tier := by
  induction items with
  | nil => exact fun _ hitem => absurd hitem List.not_mem_nil
  | cons item items ih =>
    cases item with
    | str tier =>
      rw [checkTiers] at h
      split at h
      · next hknown => exact List.forall_mem_cons.2 ⟨⟨tier, rfl, hknown⟩, ih h⟩
      · cases h
    | num | arr | obj | other => cases h

/-- The tiers that a valid pack lists are known. -/
theorem validatePack_tiers (h : validatePack root = .ok ()) :
    ∀ item ∈ ruleItems "allowed_tiers" root, ∃ tier, item = .str tier ∧ isKnownTier tier := by
  obtain ⟨_, _, h⟩ := ok_of_bind h
  obtain ⟨_, _, h⟩ := ok_of_bind h
  obtain ⟨_, _, h⟩ := ok_of_bind h
  obtain ⟨_, hrules, _⟩ := ok_of_bind h
  unfold checkValidationRules at hrules
  unfold ruleItems
  split at hrules
  · next hnone =>
    rw [hnone]
    exact fun _ hitem => absurd hitem List.not_mem_nil
  · next fields hsome =>
    rw [hsome]
    obtain ⟨_, htiers, _⟩ := ok_of_bind hrules
    unfold checkAllowedTiers at htiers
    simp only [Json.items]
    split at htiers
    · next hfield =>
      rw [hfield]
      exact fun _ hitem => absurd hitem List.not_mem_nil
    · next hfield =>
      rw [hfield]
      exact checkTiers_ok htiers
    · cases htiers
  · cases hrules

theorem length_of_known {tier : Text} (h : isKnownTier tier) : tier.length = 2 := by
  have hall : ∀ t ∈ knownTiers, t.length = 2 := by decide
  exact hall tier (of_decide_eq_true h)

/-! ### What is loaded -/

/-- A list is loaded as its first strings, each cut to its slot. -/
theorem loadList_eq (slots width : ℕ) (items : List Json) :
    loadList slots width items = ((items.filterMap Json.str?).take slots).map (·.take width) := by
  have hfold : ∀ (items : List Json) (out : List Text), items.foldl (fun out item =>
      match item with
      | .str s => if out.length < slots then out ++ [s.take width] else out
      | _ => out) out = out ++ ((items.filterMap Json.str?).take (slots - out.length)).map (·.take width) := by
    intro items
    induction items with
    | nil => simp
    | cons item items ih =>
      intro out
      rw [List.foldl_cons, ih]
      cases item with
      | str s =>
        dsimp only
        rw [List.filterMap_cons_some (show (Json.str s).str? = some s from rfl)]
        split_ifs with hroom
        · obtain ⟨k, hk⟩ : ∃ k, slots - out.length = k + 1 := ⟨slots - out.length - 1, by omega⟩
          rw [hk, List.length_append, List.length_singleton, show slots - (out.length + 1) = k by omega]
          simp
        · rw [show slots - out.length = 0 by omega, List.take_zero, List.take_zero]
      | num | arr | obj | other => rw [List.filterMap_cons_none rfl]
  exact hfold items []

/-- A list is loaded unaltered where it fits: so many strings, each as wide as its slot at most. -/
theorem loadList_faithful_iff (slots width : ℕ) (items : List Json) :
    (loadList slots width items).map Json.str = items ↔
      items.length ≤ slots ∧ ∀ item ∈ items, ∃ s : Text, item = .str s ∧ s.length ≤ width := by
  rw [loadList_eq]
  constructor
  · intro h
    refine ⟨?_, fun item hitem => ?_⟩
    · rw [← h, List.length_map, List.length_map]
      exact List.length_take_le _ _
    · rw [← h] at hitem
      obtain ⟨s, hs, rfl⟩ := List.mem_map.1 hitem
      obtain ⟨s, -, rfl⟩ := List.mem_map.1 hs
      exact ⟨_, rfl, List.length_take_le _ _⟩
  · rintro ⟨hlen, hfits⟩
    have hstr : (items.filterMap Json.str?).map Json.str = items := by
      rw [List.map_filterMap]
      refine (List.filterMap_congr fun item hitem => ?_).trans List.filterMap_some
      obtain ⟨s, rfl, -⟩ := hfits item hitem
      rfl
    have hwidth : ∀ s ∈ items.filterMap Json.str?, s.take width = s := by
      intro s hs
      obtain ⟨item, hitem, heq⟩ := List.mem_filterMap.1 hs
      obtain ⟨s', rfl, hs'⟩ := hfits item hitem
      cases heq
      exact List.take_of_length_le hs'
    have hall : (items.filterMap Json.str?).length ≤ slots := (List.length_filterMap_le _ _).trans hlen
    rw [List.take_of_length_le hall, List.map_congr_left hwidth, List.map_id', hstr]

/-- A valid pack is loaded as the second walk finds it. -/
theorem memoryProfilePackLoad_eq (hname : name ≠ []) {contents : List UInt8}
    (hvalid : memoryProfilePackValidateFile files (packPath files name) = .ok ())
    (hcontents : files.contents (packPath files name) = some contents) (hroot : packRoot files contents = some root) :
    memoryProfilePackLoad files name errlen = .ok (loadPack root) := by
  rw [memoryProfilePackLoad, if_neg hname, hvalid]
  simp only [hcontents, hroot]

/-- A pack that has the tiers and the kinds of its file, unaltered and in order, and no default
tier or a known one. -/
structure LoadedFaithfully (root : Json) (pack : ProfilePack) : Prop where
  tiers : pack.allowedTiers.map Json.str = ruleItems "allowed_tiers" root
  kinds : pack.allowedKinds.map Json.str = ruleItems "allowed_kinds" root
  defaultTier : pack.defaultTier = [] ∨ isKnownTier pack.defaultTier

/-- A file that fits the record. -/
structure PackFits (root : Json) : Prop where
  tiers : (ruleItems "allowed_tiers" root).length ≤ 8
  kinds : (ruleItems "allowed_kinds" root).length ≤ 16
  kindWidth : ∀ item ∈ ruleItems "allowed_kinds" root, ∃ kind : Text, item = .str kind ∧ kind.length ≤ 15
  defaultTier : scopeDefault "tier" root = [] ∨ isKnownTier (scopeDefault "tier" root)

/-- A tier is loaded as none or a known one where it is so. -/
theorem knownTier_take_iff (tier : Text) :
    (tier.take 3 = [] ∨ isKnownTier (tier.take 3)) ↔ tier = [] ∨ isKnownTier tier := by
  rcases le_or_gt tier.length 3 with hle | hgt
  · rw [List.take_of_length_le hle]
  · have htake : (tier.take 3).length = 3 := by rw [List.length_take]; omega
    constructor
    · rintro (h | h)
      · rw [h] at htake
        cases htake
      · have := length_of_known h
        omega
    · rintro (rfl | h)
      · exact .inl rfl
      · have := length_of_known h
        omega

theorem loadPack_faithful_iff (hvalid : validatePack root = .ok ()) :
    LoadedFaithfully root (loadPack root) ↔ PackFits root := by
  have htiers := loadList_faithful_iff 8 3 (ruleItems "allowed_tiers" root)
  have hkinds := loadList_faithful_iff 16 15 (ruleItems "allowed_kinds" root)
  have hdefault := knownTier_take_iff (scopeDefault "tier" root)
  constructor
  · rintro ⟨ht, hk, hd⟩
    exact ⟨(htiers.1 ht).1, (hkinds.1 hk).1, (hkinds.1 hk).2, hdefault.1 hd⟩
  · rintro ⟨ht, hk, hw, hd⟩
    refine ⟨htiers.2 ⟨ht, fun item hitem => ?_⟩, hkinds.2 ⟨hk, hw⟩, hdefault.2 hd⟩
    -- a known tier fits its slot
    obtain ⟨tier, rfl, hknown⟩ := validatePack_tiers hvalid item hitem
    exact ⟨tier, rfl, by rw [length_of_known hknown]; decide⟩

/-- A pack whose file is accepted is loaded faithfully exactly where it is asked for by a name and
its file fits. -/
theorem load_faithful_iff (files : PackFiles) (name : Text) (errlen : ℕ)
    (hvalid : memoryProfilePackValidateFile files (packPath files name) = .ok ()) :
    ∃ contents root, files.contents (packPath files name) = some contents ∧ packRoot files contents = some root ∧
      ((∃ pack, memoryProfilePackLoad files name errlen = .ok pack ∧ LoadedFaithfully root pack) ↔
        name ≠ [] ∧ PackFits root) := by
  obtain ⟨contents, root, hcontents, hroot, hpack⟩ := validateFile_ok hvalid
  refine ⟨contents, root, hcontents, hroot, ?_⟩
  by_cases hname : name = []
  · constructor
    · rintro ⟨pack, hload, -⟩
      rw [memoryProfilePackLoad, if_pos hname] at hload
      cases hload
    · rintro ⟨hne, -⟩
      exact absurd hname hne
  · have hload : memoryProfilePackLoad files name errlen = .ok (loadPack root) :=
      memoryProfilePackLoad_eq hname hvalid hcontents hroot
    rw [← loadPack_faithful_iff hpack]
    constructor
    · rintro ⟨pack, hpack, hfaithful⟩
      cases hload.symm.trans hpack
      exact ⟨hname, hfaithful⟩
    · rintro ⟨-, hfaithful⟩
      exact ⟨_, hload, hfaithful⟩

/-! ### A list of kinds that is loaded empty -/

/-- A pack with a kind. -/
def packJson (kind : Json) : Json :=
  .obj [(text "name", .str (text "n")), (text "description", .str (text "d")),
    (text "validation_rules", .obj [(text "allowed_kinds", .arr [kind])])]

/-- A directory that holds a pack `n`, which the parser reads. -/
def packFiles (contents : String) (kind : Json) : PackFiles where
  env := some (text "/p")
  home := none
  maxPathLen := 4096
  contents path := if path = text "/p/n.json" then some (text contents) else none
  parse t := if t = text contents then some (packJson kind) else none

/-- A pack that narrows the kinds to facts. -/
def factFiles : PackFiles :=
  packFiles "\x7b\"name\":\"n\",\"description\":\"d\",\"validation_rules\":\x7b\"allowed_kinds\":[\"fact\"]\x7d\x7d"
    (.str (text "fact"))

theorem factFiles_faithful :
    memoryProfilePackValidateFile factFiles (packPath factFiles (text "n")) = .ok () ∧
      ∃ contents root, factFiles.contents (packPath factFiles (text "n")) = some contents ∧
        packRoot factFiles contents = some root ∧
        ((∃ pack, memoryProfilePackLoad factFiles (text "n") 256 = .ok pack ∧ LoadedFaithfully root pack) ↔
          text "n" ≠ [] ∧ PackFits root) :=
  ⟨by rfl, load_faithful_iff factFiles (text "n") 256 (by rfl)⟩

/-- A pack that names its one kind by a number. -/
def numberedFiles : PackFiles :=
  packFiles "\x7b\"name\":\"n\",\"description\":\"d\",\"validation_rules\":\x7b\"allowed_kinds\":[7]\x7d\x7d" (.num 7)

/-- The pack is valid, its list of kinds is loaded empty. -/
theorem numbered_kinds_load :
    memoryProfilePackValidateFile numberedFiles (packPath numberedFiles (text "n")) = .ok () ∧
      memoryProfilePackLoad numberedFiles (text "n") 256 = .ok (loadPack (packJson (.num 7))) ∧
      ruleItems "allowed_kinds" (packJson (.num 7)) = [.num 7] ∧ (loadPack (packJson (.num 7))).allowedKinds = [] ∧
      ¬ LoadedFaithfully (packJson (.num 7)) (loadPack (packJson (.num 7))) := by
  refine ⟨by rfl, by rfl, by rfl, by rfl, fun h => ?_⟩
  exact absurd h.kinds (List.cons_ne_nil _ _).symm

end AimeeMemory.Core
