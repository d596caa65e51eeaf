import AimeeMemory.Context.Sections

/-!
# The buffer of a dependency hint

The loop of `append_untasked_context` that writes what a key fact depends on, into a buffer of 128
bytes: each append goes to the sum of the lengths that `snprintf` reports, whether or not they were
written, and is told what is left of the buffer, as an unsigned word.

## What is proved

* `depHintBuffer_shown`: where no append is out of room, the buffer holds the hint, as much of it as
  it has room for.
* **`hintFits_iff`**: every append has room exactly where the keys that are not empty, with two bytes
  for each, have fewer than 116 bytes together.
* **`longKey_wraps`**: a key of 200 bytes, after which the room is that of an unsigned word.

## Honest scope

The sum of the lengths is an `int`.
-/

namespace AimeeMemory.Context

open AimeeMemory.Core AimeeMemory.Lib

/-- The buffer, the place of the next append, and those of the appends so far. -/
structure HintBuffer where
  dpos : ℕ := 0
  shown : Text := []
  appends : List ℕ := []

/-- `sizeof(dep_hint) - dpos`. -/
def remainingSize (dpos : ℕ) : UInt64 := 128 - .ofNat dpos

/-- `snprintf` to the next place, by the length of the text. -/
def HintBuffer.append (b : HintBuffer) (t : Text) : HintBuffer where
  dpos := b.dpos + t.length
  shown := b.shown ++ t.take ((remainingSize b.dpos).toNat - 1)
  appends := b.appends ++ [b.dpos]

def HintBuffer.key (b : HintBuffer) (key : Text) : HintBuffer :=
  if key = [] then b else b.append ((if b.dpos = 0 then text " (depends on: " else text ", ") ++ key)

/-- The hint of a key fact as it is built. -/
def depHintBuffer (keys : List Text) : HintBuffer :=
  let b := keys.foldl HintBuffer.key {}
  if 0 < b.dpos then b.append (text ")") else b

/-- What the keys that are not empty take, with two bytes for each. -/
def keyBytes (keys : List Text) : ℕ := ((keys.filter (· ≠ [])).map fun key => key.length + 2).sum

/-- No append is behind the buffer, and each has some room. -/
structure HintFits (keys : List Text) : Prop where
  inBuffer : ∀ dpos ∈ (depHintBuffer keys).appends, dpos ≤ 128
  positive : ∀ dpos ∈ (depHintBuffer keys).appends, 0 < (128 : ℤ) - dpos

/-! ### Appending -/

/-- A buffer that a text was appended to, in parts: it holds the text, where there was room. -/
structure HintBuffer.Given (b : HintBuffer) (t : Text) : Prop where
  dpos : b.dpos = t.length
  shown : t.length < 128 → b.shown = t
  appends : ∀ dpos ∈ b.appends, dpos ≤ t.length

variable {b : HintBuffer} {t key : Text} {keys rest : List Text}

theorem toNat_remainingSize {dpos : ℕ} (h : dpos ≤ 128) : (remainingSize dpos).toNat = 128 - dpos := by
  have hofNat : (UInt64.ofNat dpos).toNat = dpos := UInt64.toNat_ofNat_of_lt' (by rw [UInt64.size]; omega)
  have hle : UInt64.ofNat dpos ≤ 128 := by
    rw [UInt64.le_iff_toNat_le, hofNat]
    exact h
  rw [remainingSize, UInt64.toNat_sub_of_le _ _ hle, hofNat]
  rfl

theorem HintBuffer.Given.append (h : b.Given t) (s : Text) : (b.append s).Given (t ++ s) where
  dpos := by rw [HintBuffer.append, h.dpos, List.length_append]
  shown hlt := by
    rw [List.length_append] at hlt
    have hwhole : s.take ((remainingSize b.dpos).toNat - 1) = s := by
      refine List.take_of_length_le ?_
      rw [toNat_remainingSize (by rw [h.dpos]; omega), h.dpos]
      omega
    show b.shown ++ s.take ((remainingSize b.dpos).toNat - 1) = t ++ s
    rw [hwhole, h.shown (by omega)]
  appends dpos hdpos := by
    rw [List.length_append]
    rcases List.mem_append.1 hdpos with hdpos | hdpos
    · have := h.appends dpos hdpos
      omega
    · rw [List.mem_singleton.1 hdpos, h.dpos]
      omega

/-- The keys behind the first one. -/
theorem HintBuffer.Given.foldl_key (h : b.Given t) (ht : t ≠ []) (hkeys : ∀ key ∈ keys, key ≠ []) :
    (keys.foldl HintBuffer.key b).Given (t ++ keys.flatMap fun key => text ", " ++ key) := by
  induction keys generalizing b t with
  | nil =>
    rw [List.flatMap_nil, List.append_nil]
    exact h
  | cons key keys ih =>
    obtain ⟨hkey, hkeys⟩ := List.forall_mem_cons.1 hkeys
    have hopened : b.dpos ≠ 0 := by
      rw [h.dpos]
      exact fun hzero => ht (List.length_eq_zero_iff.1 hzero)
    have hnext := h.append (text ", " ++ key)
    rw [List.foldl_cons, HintBuffer.key, if_neg hkey, if_neg hopened, List.flatMap_cons, ← List.append_assoc]
    exact ih hnext (List.append_ne_nil_of_left_ne_nil ht _) hkeys

theorem foldl_key_filter (keys : List Text) (b : HintBuffer) :
    keys.foldl HintBuffer.key b = (keys.filter (· ≠ [])).foldl HintBuffer.key b := by
  induction keys generalizing b with
  | nil => rfl
  | cons key keys ih =>
    rw [List.foldl_cons, ih]
    by_cases hkey : key = []
    · rw [List.filter_cons_of_neg (by simpa using hkey), HintBuffer.key, if_pos hkey]
    · rw [List.filter_cons_of_pos (by simpa using hkey), List.foldl_cons]

/-- The hint before its end. -/
theorem given_keys (hfilter : keys.filter (· ≠ []) = key :: rest) :
    (keys.foldl HintBuffer.key {}).Given
      (text " (depends on: " ++ key ++ rest.flatMap fun key => text ", " ++ key) := by
  have hall : ∀ k ∈ key :: rest, k ≠ [] := by
    intro k hk
    rw [← hfilter] at hk
    exact of_decide_eq_true (List.mem_filter.1 hk).2
  obtain ⟨hkey, hrest⟩ := List.forall_mem_cons.1 hall
  have hstart : ({} : HintBuffer).Given [] := ⟨rfl, fun _ => rfl, fun _ h => absurd h List.not_mem_nil⟩
  have hfirst := hstart.append (text " (depends on: " ++ key)
  rw [foldl_key_filter, hfilter, List.foldl_cons, HintBuffer.key, if_neg hkey, if_pos rfl]
  exact hfirst.foldl_key (List.append_ne_nil_of_right_ne_nil _ (List.append_ne_nil_of_right_ne_nil _ hkey)) hrest

/-! ### The hint -/

/-- How much the keys behind the first one take. -/
theorem length_flatMap_keys (keys : List Text) :
    (keys.flatMap fun key => text ", " ++ key).length = (keys.map fun key => key.length + 2).sum := by
  induction keys with
  | nil => rfl
  | cons key keys ih =>
    rw [List.flatMap_cons, List.length_append, List.length_append, ih, List.map_cons, List.sum_cons,
      show (text ", ").length = 2 by decide, Nat.add_comm 2]

theorem keyBytes_cons (hfilter : keys.filter (· ≠ []) = key :: rest) :
    keyBytes keys = key.length + 2 + (rest.flatMap fun key => text ", " ++ key).length := by
  rw [keyBytes, hfilter, length_flatMap_keys]
  rfl

/-- The hint before its end, and where its end is put. -/
theorem depHintBuffer_cons (hfilter : keys.filter (· ≠ []) = key :: rest) :
    ∃ t, (keys.foldl HintBuffer.key {}).Given t ∧ depHint keys = t ++ text ")" ∧
      t.length = 12 + keyBytes keys ∧
      depHintBuffer keys = (keys.foldl HintBuffer.key {}).append (text ")") := by
  have hgiven := given_keys hfilter
  refine ⟨_, hgiven, ?_, ?_, ?_⟩
  · rw [depHint, hfilter]
  · rw [keyBytes_cons hfilter, List.length_append, List.length_append, show (text " (depends on: ").length = 14 by decide]
    omega
  · rw [depHintBuffer]
    refine if_pos ?_
    rw [hgiven.dpos, List.length_append, List.length_append, show (text " (depends on: ").length = 14 by decide]
    omega

theorem depHintBuffer_nil (hfilter : keys.filter (· ≠ []) = []) : depHintBuffer keys = {} := by
  rw [depHintBuffer, foldl_key_filter, hfilter]
  rfl

/-- Every append has room exactly where the keys that are not empty, with two bytes for each, have
fewer than 116 bytes. -/
theorem hintFits_iff (keys : List Text) :
    HintFits keys ↔ keyBytes keys < 116 := by
  cases hfilter : keys.filter (· ≠ []) with
  | nil =>
    have hnone : ∀ dpos, dpos ∉ (depHintBuffer keys).appends := by
      rw [depHintBuffer_nil hfilter]
      exact fun _ => List.not_mem_nil
    have hzero : keyBytes keys = 0 := by rw [keyBytes, hfilter]; rfl
    exact ⟨fun _ => hzero.trans_lt (by omega), fun _ => ⟨fun _ h => absurd h (hnone _), fun _ h => absurd h (hnone _)⟩⟩
  | cons key rest =>
    obtain ⟨t, hgiven, -, hlen, hbuffer⟩ := depHintBuffer_cons hfilter
    constructor
    · rintro ⟨-, hpositive⟩
      -- the end of the hint is put behind all keys
      have hlast : t.length ∈ (depHintBuffer keys).appends := by
        rw [hbuffer, ← hgiven.dpos]
        exact List.mem_append_right _ (List.mem_singleton_self _)
      have hroom := hpositive _ hlast
      omega
    · intro hsum
      have hall : ∀ dpos ∈ (depHintBuffer keys).appends, dpos ≤ t.length := by
        intro dpos hdpos
        rw [hbuffer] at hdpos
        rcases List.mem_append.1 hdpos with hdpos | hdpos
        · exact hgiven.appends dpos hdpos
        · rw [List.mem_singleton.1 hdpos, hgiven.dpos]
      refine ⟨fun dpos hdpos => ?_, fun dpos hdpos => ?_⟩
      · have hle := hall dpos hdpos
        omega
      · have hle := hall dpos hdpos
        omega

/-- Where every append has room the buffer holds the hint, as much of it as it has room for. -/
theorem depHintBuffer_shown (h : keyBytes keys < 116) :
    (depHintBuffer keys).shown = (depHint keys).take 127 := by
  cases hfilter : keys.filter (· ≠ []) with
  | nil =>
    rw [depHintBuffer_nil hfilter, depHint, hfilter]
    rfl
  | cons key rest =>
    obtain ⟨t, hgiven, hhint, hlen, hbuffer⟩ := depHintBuffer_cons hfilter
    have hdpos := hgiven.dpos
    have hshown : ((keys.foldl HintBuffer.key {}).append (text ")")).shown =
        (keys.foldl HintBuffer.key {}).shown ++
          (text ")").take ((remainingSize (keys.foldl HintBuffer.key {}).dpos).toNat - 1) := rfl
    rw [hbuffer, hshown, hhint, hgiven.shown (by omega), hdpos, toNat_remainingSize (by omega), List.take_append,
      List.take_of_length_le (show t.length ≤ 127 by omega)]
    congr 2
    omega

/-- One key of 200 bytes: the end of the hint is put 86 bytes behind the buffer, with the room of an
unsigned word. -/
theorem longKey_wraps :
    [List.replicate 200 107].length ≤ 3 ∧ 214 ∈ (depHintBuffer [List.replicate 200 107]).appends ∧
      (remainingSize 214).toNat = 2 ^ 64 - 86 ∧ ¬ HintFits [List.replicate 200 107] := by
  have hlast : 214 ∈ (depHintBuffer [List.replicate 200 107]).appends := by decide +kernel
  refine ⟨by decide, hlast, by decide, fun h => ?_⟩
  have hle := h.inBuffer 214 hlast
  omega

end AimeeMemory.Context
