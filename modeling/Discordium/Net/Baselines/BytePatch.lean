import Discordium.Lib.Bytes
import Discordium.Lib.Fallible
import Discordium.Net.Baselines.Link

/-!
# Net — Baselines — BytePatch

The byte patch of `replication/baselines/bytes.rs`: a value is the bytes it shares with its base at
the front, a replaced middle, and the bytes it shares at the back.  A patch is the length of the
value and of the two shared parts, as 32-bit words, and the middle.  Every slice of the source that
could be out of range panics here if it is.

**Round trip** (`bytePatch_round_trip`).  What `encode_delta` makes of a value, `decode_delta` makes
the value of again; and no bytes whatever make `decode_delta` panic or return more than its limit.
So the patch is a faithful codec (`bytePatch_faithful`), which the agreement of baselines asks of
one.
-/

namespace Net.Baselines
open Lib

namespace BytePatch

/-- The number of equal elements two strings begin with. -/
def common (xs ys : List UInt8) : ℕ := ((xs.zip ys).takeWhile fun (x, y) => x == y).length

def decodeFull (bytes : List UInt8) (limit : ℕ) : Except ReplicationError (List UInt8) :=
  if limit < bytes.length then .error .capacity else .ok bytes

def encodeFull (value : List UInt8) (limit : ℕ) : Except ReplicationError (List UInt8) :=
  decodeFull value limit

def encodeDelta (base value : List UInt8) (limit : ℕ) : Answer ReplicationError (List UInt8) :=
  let leading := common base value
  expecting (slice base leading base.length) fun baseRest =>
  expecting (slice value leading value.length) fun valueRest =>
    let trailing := common baseRest.reverse valueRest.reverse
    expecting (checkedSub value.length trailing) fun stop =>
    expecting (slice value leading stop) fun middle =>
      match checkedAdd 64 middle.length 12 with
      | none => .err .capacity
      | some size =>
        if limit < size then .err .capacity
        else if wordMax 32 < value.length ∨ wordMax 32 < leading ∨ wordMax 32 < trailing
          then .err .capacity
        else .ok (leBytes 4 value.length ++ leBytes 4 leading ++ leBytes 4 trailing ++ middle)

/-- One of the three words of a patch. -/
def field (bytes : List UInt8) (offset : ℕ) : Option ℕ :=
  (slice bytes offset (offset + 4)).map ofLeBytes

def decodeDelta (base bytes : List UInt8) (limit : ℕ) : Answer ReplicationError (List UInt8) :=
  if bytes.length < 12 then .err .invalidPayload
  else
    expecting (field bytes 0) fun length =>
    expecting (field bytes 4) fun leading =>
    expecting (field bytes 8) fun trailing =>
      if limit < length then .err .capacity
      else match checkedAdd 64 leading trailing with
        | none => .err .invalidPayload
        | some shared =>
          if base.length < shared ∨ length < shared ∨ length - shared ≠ bytes.length - 12 then
            .err .invalidPayload
          else
            expecting (slice base 0 leading) fun front =>
            expecting (slice bytes 12 bytes.length) fun middle =>
            expecting (checkedSub base.length trailing) fun start =>
            expecting (slice base start base.length) fun back =>
              .ok (front ++ middle ++ back)

/-! ### Shared parts -/

theorem common_le (xs ys : List UInt8) : common xs ys ≤ xs.length ∧ common xs ys ≤ ys.length := by
  have hle : common xs ys ≤ (xs.zip ys).length := (List.takeWhile_sublist _).length_le
  rw [List.length_zip] at hle
  exact ⟨hle.trans (min_le_left _ _), hle.trans (min_le_right _ _)⟩

/-- What two strings begin with in common is in common. -/
theorem take_common (xs ys : List UInt8) : xs.take (common xs ys) = ys.take (common xs ys) := by
  induction xs generalizing ys with
  | nil =>
    rw [Nat.le_zero.mp (common_le [] ys).1]
    rfl
  | cons x xs ih =>
    cases ys with
    | nil =>
      rw [Nat.le_zero.mp (common_le (x :: xs) []).2]
      rfl
    | cons y ys =>
      by_cases h : x = y
      · have hsucc : common (x :: xs) (y :: ys) = common xs ys + 1 := by
          simp [common, h]
        rw [hsucc, List.take_succ_cons, List.take_succ_cons, h, ih ys]
      · have hzero : common (x :: xs) (y :: ys) = 0 := by
          simp [common, h]
        rw [hzero]
        rfl

section patch
variable {base value : List UInt8}

/-- The bytes shared at the back, of what is left after the front. -/
def trailing (base value : List UInt8) : ℕ :=
  common (base.drop (common base value)).reverse (value.drop (common base value)).reverse

/-- The two shared parts do not overlap, in either string. -/
theorem shared_le : common base value + trailing base value ≤ base.length ∧
    common base value + trailing base value ≤ value.length := by
  have hfront := common_le base value
  have hback :=
    common_le (base.drop (common base value)).reverse (value.drop (common base value)).reverse
  rw [List.length_reverse, List.length_drop, List.length_reverse, List.length_drop] at hback
  unfold trailing
  omega

/-- The back of the value is the back of the base. -/
theorem drop_trailing : value.drop (value.length - trailing base value) =
    base.drop (base.length - trailing base value) := by
  have hshared := @shared_le base value
  have heq : (base.drop (common base value)).reverse.take (trailing base value) =
      (value.drop (common base value)).reverse.take (trailing base value) := take_common _ _
  rw [List.take_reverse, List.take_reverse, List.reverse_inj, List.length_drop, List.length_drop,
    List.drop_drop, List.drop_drop] at heq
  have hbase : common base value + (base.length - common base value - trailing base value) =
      base.length - trailing base value := by omega
  have hvalue : common base value + (value.length - common base value - trailing base value) =
      value.length - trailing base value := by omega
  rw [hbase, hvalue] at heq
  exact heq.symm

/-- What lies between the shared parts. -/
def middle (base value : List UInt8) : List UInt8 :=
  (value.take (value.length - trailing base value)).drop (common base value)

/-- **A value is put together again from its base and its middle.** -/
theorem assemble : base.take (common base value) ++ middle base value ++
    base.drop (base.length - trailing base value) = value := by
  have hshared := @shared_le base value
  have hfront : value.take (common base value) =
      (value.take (value.length - trailing base value)).take (common base value) := by
    rw [List.take_take, min_eq_left (by omega)]
  rw [take_common, ← drop_trailing, hfront, middle, List.take_append_drop, List.take_append_drop]

theorem length_middle : (middle base value).length =
    value.length - (common base value + trailing base value) := by
  rw [middle, List.length_drop, List.length_take]
  omega

/-! ### Encoding -/

/-- The patch of a value. -/
def patch (base value : List UInt8) : List UInt8 :=
  leBytes 4 value.length ++ leBytes 4 (common base value) ++ leBytes 4 (trailing base value) ++
    middle base value

/-- **Spec of `encode_delta`**: its slices are in range, and it fails only for want of room. -/
theorem encodeDelta_eq (base value : List UInt8) (limit : ℕ) :
    encodeDelta base value limit =
      if (middle base value).length + 12 ≤ limit ∧ (middle base value).length + 12 ≤ wordMax 64 ∧
          value.length ≤ wordMax 32 then .ok (patch base value)
      else .err .capacity := by
  have hshared := @shared_le base value
  have hfront := common_le base value
  rw [encodeDelta]
  dsimp only
  rw [slice_end hfront.1, expecting_some, slice_end hfront.2, expecting_some, ← trailing,
    checkedSub_eq_some.mpr ⟨by omega, rfl⟩, expecting_some, slice_of_le (by omega) (by omega),
    expecting_some,
    ← middle]
  by_cases hword : (middle base value).length + 12 ≤ wordMax 64
  · rw [checkedAdd_eq_some.mpr ⟨rfl, hword⟩]
    dsimp only
    split_ifs <;> first | rfl | omega
  · have hnone : checkedAdd 64 (middle base value).length 12 = none := if_neg hword
    rw [hnone]
    exact (if_neg fun hfits => hword hfits.2.1).symm

/-! ### Decoding -/

theorem length_patch : (patch base value).length = 12 + (middle base value).length := by
  simp only [patch, List.length_append, length_leBytes]

/-- The three words of a patch. -/
theorem field_patch (h : value.length ≤ wordMax 32) :
    field (patch base value) 0 = some value.length ∧
    field (patch base value) 4 = some (common base value) ∧
    field (patch base value) 8 = some (trailing base value) := by
  have hshared := @shared_le base value
  have hword : ∀ n ≤ value.length, ofLeBytes (leBytes 4 n) = n := fun n hn =>
    ofLeBytes_leBytes (Nat.lt_of_le_pred (by decide) (hn.trans h))
  have hfirst := slice_append [] (leBytes 4 value.length)
    (leBytes 4 (common base value) ++ leBytes 4 (trailing base value) ++ middle base value)
  have hsecond := slice_append (leBytes 4 value.length) (leBytes 4 (common base value))
    (leBytes 4 (trailing base value) ++ middle base value)
  have hthird := slice_append (leBytes 4 value.length ++ leBytes 4 (common base value))
    (leBytes 4 (trailing base value)) (middle base value)
  simp only [List.nil_append, List.length_nil, List.length_append,
    length_leBytes, ← List.append_assoc, Nat.zero_add] at hfirst hsecond hthird
  refine ⟨?_, ?_, ?_⟩
  · rw [field, patch, hfirst, Option.map_some, hword _ le_rfl]
  · rw [field, patch, hsecond, Option.map_some, hword _ (by omega)]
  · rw [field, patch, hthird, Option.map_some, hword _ (by omega)]

theorem decodeDelta_patch {limit : ℕ} (h : value.length ≤ wordMax 32)
    (hlimit : value.length ≤ limit) : decodeDelta base (patch base value) limit = .ok value := by
  have hshared := @shared_le base value
  have hmiddle := @length_middle base value
  have hlength := @length_patch base value
  obtain ⟨hfirst, hsecond, hthird⟩ := @field_patch base value h
  have hword : common base value + trailing base value ≤ wordMax 64 :=
    hshared.2.trans (h.trans (by decide))
  have hdrop : (patch base value).drop 12 = middle base value :=
    List.drop_left' (by simp only [List.length_append, length_leBytes])
  have hrest : slice (patch base value) 12 (patch base value).length =
      some (middle base value) := by
    rw [slice_end (by omega), hdrop]
  rw [decodeDelta, if_neg (by omega), hfirst, hsecond, hthird, expecting_some, expecting_some,
    expecting_some, if_neg (by omega), checkedAdd_eq_some.mpr ⟨rfl, hword⟩]
  dsimp only
  rw [if_neg (by omega), slice_of_le (Nat.zero_le _) (by omega), hrest,
    checkedSub_eq_some.mpr ⟨by omega, rfl⟩, expecting_some, expecting_some, expecting_some,
    slice_end (Nat.sub_le _ _), expecting_some, List.drop_zero,
    assemble]

end patch

/-- **Spec of `decode_delta`**: it answers, and a value it returns is as long as the patch says. -/
theorem decodeDelta_total (base bytes : List UInt8) (limit : ℕ) :
    decodeDelta base bytes limit ≠ .panic ∧
      ∀ value, decodeDelta base bytes limit = .ok value → value.length ≤ limit := by
  rw [decodeDelta]
  split_ifs with hshort
  · exact ⟨nofun, nofun⟩
  have hfield : ∀ offset, offset + 4 ≤ 12 → ∃ word, field bytes offset = some word := by
    intro offset hoffset
    exact ⟨_, by rw [field, slice_of_le (by omega) (by omega), Option.map_some]⟩
  obtain ⟨length, hlength⟩ := hfield 0 (by omega)
  obtain ⟨leading, hleading⟩ := hfield 4 (by omega)
  obtain ⟨trailing, htrailing⟩ := hfield 8 (by omega)
  rw [hlength, hleading, htrailing, expecting_some, expecting_some, expecting_some]
  split_ifs with hlimit
  · exact ⟨nofun, nofun⟩
  cases hsum : checkedAdd 64 leading trailing with
  | none => exact ⟨nofun, nofun⟩
  | some shared =>
    obtain ⟨rfl, -⟩ := checkedAdd_eq_some.mp hsum
    dsimp only
    split_ifs with hbad
    · exact ⟨nofun, nofun⟩
    -- the shared parts lie within the base, so both of its slices are in range
    rw [slice_of_le (Nat.zero_le _) (by omega), expecting_some, slice_end (by omega),
      expecting_some, checkedSub_eq_some.mpr ⟨by omega, rfl⟩, expecting_some,
      slice_end (Nat.sub_le _ _), expecting_some]
    refine ⟨nofun, fun value hvalue => ?_⟩
    cases hvalue
    simp only [List.length_append, List.length_drop, List.length_take]
    omega

end BytePatch

open BytePatch

/-- **The byte patch round-trips**, and arbitrary bytes are decoded without a panic and within the
limit. -/
theorem bytePatch_round_trip (base value : List UInt8) (encodeLimit decodeLimit : ℕ) :
    (value.length < 2 ^ 32 → value.length + 12 ≤ encodeLimit →
      ∃ patch, encodeDelta base value encodeLimit = .ok patch) ∧
    (∀ patch, encodeDelta base value encodeLimit = .ok patch → value.length ≤ decodeLimit →
      decodeDelta base patch decodeLimit = .ok value) ∧
    ∀ patch, decodeDelta base patch decodeLimit ≠ .panic ∧
      ∀ decoded, decodeDelta base patch decodeLimit = .ok decoded →
        decoded.length ≤ decodeLimit := by
  refine ⟨fun hvalue hlimit => ?_, fun patch hpatch hlimit => ?_,
    fun patch => decodeDelta_total base patch decodeLimit⟩
  · have hmiddle := @length_middle base value
    have hword : value.length ≤ wordMax 32 := Nat.le_pred_of_lt hvalue
    have hwide : wordMax 32 + 12 ≤ wordMax 64 := by decide
    exact ⟨_, by rw [encodeDelta_eq, if_pos ⟨by omega, by omega, hword⟩]⟩
  · rw [encodeDelta_eq] at hpatch
    split_ifs at hpatch with hfits
    cases hpatch
    exact decodeDelta_patch hfits.2.2 hlimit

/-- A vector with no spare capacity. -/
def ByteVec.ofList (bytes : List UInt8) : ByteVec :=
  let capacity := bytes.length
  ⟨bytes, capacity, Nat.le_refl capacity⟩

/-- The byte patch as a codec of baselines; it does not panic. -/
def bytePatch : BaselineCodec (List UInt8) where
  encodeFull value limit := (encodeFull value limit).map .ofList
  encodeDelta base value limit :=
    match encodeDelta base value limit with
    | .ok bytes => .ok (.ofList bytes)
    | .err error => .error error
    | .panic => .error .invalidPayload
  decodeFull := decodeFull
  decodeDelta base bytes limit :=
    match decodeDelta base bytes limit with
    | .ok value => .ok value
    | .err error => .error error
    | .panic => .error .invalidPayload
  validate _ := true

/-- **The byte patch is a faithful codec.** -/
theorem bytePatch_faithful : bytePatch.Faithful where
  full v limit bytes limit' henc hlimit := by
    obtain ⟨encoded, hencoded, rfl⟩ := map_eq_ok.mp henc
    rw [encodeFull, decodeFull] at hencoded
    split_ifs at hencoded
    cases hencoded
    exact if_neg (not_lt.mpr hlimit)
  delta base v limit bytes limit' henc hlimit := by
    simp only [bytePatch, encodeDelta_eq] at henc ⊢
    split_ifs at henc with hfits
    cases henc
    dsimp only [ByteVec.ofList]
    rw [decodeDelta_patch hfits.2.2 hlimit]

end Net.Baselines
