import Discordium.Lib.Greedy
import Discordium.Net.Commands.Inbox

/-!
# Net — Commands — Packing

The redundant bundles of `commands.rs`.  A fingerprint hashes what the serializer writes of a
command and stops at the first write over its limit, so it is also the test whether a command fits
(`fingerprint_length`).  `packRedundant` puts the newest command first and adds older ones of the
same owner while there are records and bytes left.

The serializer is a parameter: the writes it makes of a command, in order.  So is the hash.  A push
over the bound and a subtraction below zero answer `panic`.

**`packRedundant_bundles`**: the newest command fits or nothing is packed; what is packed with it is
a greedy choice of the older commands, each sequence once.
-/

namespace Net
open Lib

/-! ### Fingerprints -/

/-- A streaming hash. -/
structure Hasher (H F : Type) where
  new : H
  update : H → List UInt8 → H
  finalize : H → F

structure FingerprintWriter (H : Type) where
  hasher : H
  length : ℕ
  limit : ℕ

section fingerprint
variable {I A H F : Type} (hash : Hasher H F) (encode : Command I A → List (List UInt8))

/-- `write`: nothing when the bytes are over what is left of the limit. -/
def FingerprintWriter.write (writer : FingerprintWriter H) (bytes : List UInt8) :
    Option (FingerprintWriter H) :=
  if writer.limit - writer.length < bytes.length then none
  else some { writer with
    hasher := hash.update writer.hasher bytes, length := writer.length + bytes.length }

/-- The fingerprint of a command and its encoded length; nothing when a write fails. -/
def fingerprint (command : Command I A) (limit : ℕ) : Option (F × ℕ) :=
  ((encode command).foldlM (FingerprintWriter.write hash) ⟨hash.new, 0, limit⟩).map fun writer =>
    (hash.finalize writer.hasher, writer.length)

/-- The encoded size of a command. -/
def encodedSize (command : Command I A) : ℕ := load List.length (encode command)

/-- The writes go through exactly when all of them together are within the limit. -/
theorem foldlM_write (writes : List (List UInt8)) (writer : FingerprintWriter H)
    (hle : writer.length ≤ writer.limit) :
    (writes.foldlM (FingerprintWriter.write hash) writer).map (·.length) =
      if writer.length + load List.length writes ≤ writer.limit then
        some (writer.length + load List.length writes)
      else none := by
  induction writes generalizing writer with
  | nil => simp [load, hle]
  | cons bytes writes ih =>
    have hload : load List.length (bytes :: writes) = bytes.length + load List.length writes := rfl
    rw [List.foldlM_cons, hload, FingerprintWriter.write]
    split_ifs with hover hfits hfits
    · omega
    · rfl
    · rw [Option.bind_eq_bind, Option.bind_some, ih _ (by dsimp only; omega), ← Nat.add_assoc,
        if_pos (by dsimp only; omega)]
    · rw [Option.bind_eq_bind, Option.bind_some, ih _ (by dsimp only; omega),
        if_neg (by dsimp only; omega)]

/-- **A fingerprint is a fit test.**  It answers the encoded size when that is within the limit, and
nothing otherwise. -/
theorem fingerprint_length (command : Command I A) (limit : ℕ) :
    (fingerprint hash encode command limit).map Prod.snd =
      if encodedSize encode command ≤ limit then some (encodedSize encode command) else none := by
  have h := foldlM_write hash (encode command) ⟨hash.new, 0, limit⟩ (Nat.zero_le _)
  simp only [Nat.zero_add] at h
  rw [fingerprint, Option.map_map]
  exact h

end fingerprint

/-! ### Bundles -/

/-- The errors `packRedundant` answers. -/
inductive BundleError where
  | invalidBundleLimit
  | newestDoesNotFit
  deriving DecidableEq

section packing
variable {I A F : Type} (fingerprint : Command I A → ℕ → Option (F × ℕ))

/-- The loop of `packRedundant` over the older commands. -/
def packOlder (newest : Command I A) (maxRecords : ℕ) (result : BoundedVec (Command I A) 8)
    (seen : List (ℕ × ℕ)) (remaining : ℕ) :
    List (Command I A) → Answer BundleError (BoundedVec (Command I A) 8)
  | [] => .ok result
  | command :: older =>
    if result.1.length = maxRecords then .ok result
    else if command.owner ≠ newest.owner ∨ (command.owner.stream, command.sequence) ∈ seen then
      packOlder newest maxRecords result seen remaining older
    else
      -- the sequence counts as seen whether its command fits or not
      let seen := (command.owner.stream, command.sequence) :: seen
      match fingerprint command remaining with
      | none => packOlder newest maxRecords result seen remaining older
      | some (_, bytes) =>
        match checkedSub remaining bytes, result.push command with
        | some remaining, some result => packOlder newest maxRecords result seen remaining older
        | _, _ => .panic

def packRedundant (newest : Command I A) (older : List (Command I A))
    (maxRecords payloadBudget : ℕ) : Answer BundleError (BoundedVec (Command I A) 8) :=
  if ¬(1 ≤ maxRecords ∧ maxRecords ≤ 8) then .err .invalidBundleLimit
  else match fingerprint newest payloadBudget with
    | none => .err .newestDoesNotFit
    | some (_, newestBytes) =>
      match (checkedSub payloadBudget 8).bind (checkedSub · newestBytes) with
      | none => .err .newestDoesNotFit
      | some remaining =>
        match (BoundedVec.empty : BoundedVec (Command I A) 8).push newest with
        | none => .panic
        | some result =>
          packOlder fingerprint newest maxRecords result [(newest.owner.stream, newest.sequence)]
            remaining older

end packing

/-! ### Candidates -/

section candidates
variable {I A : Type} {owner : OwnerStream} {seen : List (ℕ × ℕ)}

/-- The commands of the owner that are the first with their sequence. -/
def candidates (owner : OwnerStream) (seen : List (ℕ × ℕ)) : List (Command I A) → List (Command I A)
  | [] => []
  | command :: older =>
    if command.owner ≠ owner ∨ (command.owner.stream, command.sequence) ∈ seen then
      candidates owner seen older
    else command :: candidates owner ((command.owner.stream, command.sequence) :: seen) older

theorem candidates_sublist (older : List (Command I A)) :
    (candidates owner seen older).Sublist older := by
  induction older generalizing seen with
  | nil => exact .slnil
  | cons command older ih =>
    rw [candidates]
    split_ifs
    · exact ih.cons command
    · exact ih.cons_cons command

theorem mem_candidates {older : List (Command I A)} {command : Command I A}
    (h : command ∈ candidates owner seen older) :
    command.owner = owner ∧ (owner.stream, command.sequence) ∉ seen := by
  induction older generalizing seen with
  | nil => cases h
  | cons first older ih =>
    rw [candidates] at h
    split_ifs at h with hskip
    · exact ih h
    · push Not at hskip
      rcases List.mem_cons.mp h with rfl | h
      · exact ⟨hskip.1, hskip.1 ▸ hskip.2⟩
      · exact ⟨(ih h).1, fun hseen => (ih h).2 (List.mem_cons_of_mem _ hseen)⟩

theorem candidates_nodup (older : List (Command I A)) :
    ((candidates owner seen older).map Command.sequence).Nodup := by
  induction older generalizing seen with
  | nil => exact List.nodup_nil
  | cons command older ih =>
    rw [candidates]
    split_ifs with hskip
    · exact ih
    · push Not at hskip
      refine List.nodup_cons.mpr ⟨fun hmem => ?_, ih⟩
      obtain ⟨later, hlater, hsame⟩ := List.mem_map.mp hmem
      refine (mem_candidates hlater).2 ?_
      rw [hsame, ← hskip.1]
      exact List.mem_cons_self

/-- A command of the owner that is the first with its sequence is a candidate, after those before
it. -/
theorem candidates_split {before after : List (Command I A)} {command : Command I A}
    (howner : command.owner = owner) (hseen : (owner.stream, command.sequence) ∉ seen)
    (hfirst : ∀ c ∈ before, c.owner = owner → c.sequence ≠ command.sequence) :
    ∃ rest, candidates owner seen (before ++ command :: after) =
      candidates owner seen before ++ command :: rest := by
  induction before generalizing seen with
  | nil =>
    subst howner
    exact ⟨_, if_neg (not_or.mpr ⟨not_not.mpr rfl, hseen⟩)⟩
  | cons first before ih =>
    have hlater := fun c hc => hfirst c (List.mem_cons_of_mem first hc)
    rw [List.cons_append, candidates, candidates]
    split_ifs with hskip
    · exact ih hseen hlater
    · push Not at hskip
      have hseen' : (owner.stream, command.sequence) ∉ (first.owner.stream, first.sequence) ::
          seen := by
        rw [List.mem_cons, not_or, Prod.mk.injEq, not_and]
        exact ⟨fun _ hsame => hfirst first List.mem_cons_self hskip.1 hsame.symm, hseen⟩
      obtain ⟨rest, hrest⟩ := ih hseen' hlater
      exact ⟨rest, by rw [hrest, List.cons_append]⟩

end candidates

/-! ### The greedy choice -/

section bundles
variable {I A H F : Type} {hash : Hasher H F} {encode : Command I A → List (List UInt8)}
  {newest : Command I A} {older : List (Command I A)} {maxRecords payloadBudget : ℕ}

theorem fingerprint_cases (hash : Hasher H F) (encode : Command I A → List (List UInt8))
    (command : Command I A) (limit : ℕ) :
    fingerprint hash encode command limit = none ∧ limit < encodedSize encode command ∨
    ∃ digest, fingerprint hash encode command limit = some (digest, encodedSize encode command) ∧
      encodedSize encode command ≤ limit := by
  have h := fingerprint_length hash encode command limit
  split_ifs at h with hfits
  · obtain ⟨⟨digest, bytes⟩, hsome, rfl⟩ := Option.map_eq_some_iff.mp h
    exact .inr ⟨digest, hsome, hfits⟩
  · exact .inl ⟨Option.map_eq_none_iff.mp h, not_le.mp hfits⟩

/-- There are a record and the bytes left for a command. -/
def fits (encode : Command I A → List (List UInt8)) (maxRecords room : ℕ)
    (taken : List (Command I A)) (command : Command I A) : Bool :=
  taken.length < maxRecords ∧ encodedSize encode command ≤ room - load (encodedSize encode) taken

theorem length_greedy_fits {room : ℕ} (h : 1 ≤ maxRecords) (items : List (Command I A)) :
    (greedy (fits encode maxRecords room) [newest] items).length ≤ maxRecords := by
  refine greedy_invariant (P := fun taken : List (Command I A) => taken.length ≤ maxRecords) h ?_
  intro taken command _ _ hfits
  simp only [fits, decide_eq_true_eq] at hfits
  rw [List.length_append, List.length_singleton]
  exact hfits.1

theorem load_greedy_fits {room : ℕ} (h : encodedSize encode newest ≤ room)
    (items : List (Command I A)) :
    load (encodedSize encode) (greedy (fits encode maxRecords room) [newest] items) ≤ room := by
  refine load_greedy_le (by rwa [load_singleton]) fun taken command hfits => ?_
  simp only [fits, decide_eq_true_eq] at hfits
  exact hfits.2

/-- The loop is a greedy pass over the candidates. -/
theorem packOlder_eq {room remaining : ℕ} {seen : List (ℕ × ℕ)}
    {result : BoundedVec (Command I A) 8} (hmax : maxRecords ≤ 8)
    (hlen : result.1.length ≤ maxRecords)
    (hroom : load (encodedSize encode) result.1 + remaining = room) :
    ∃ records, packOlder (fingerprint hash encode) newest maxRecords result seen remaining older =
      .ok records ∧
        records.1 = greedy (fits encode maxRecords room) result.1
        (candidates newest.owner seen older) := by
  induction older generalizing result seen remaining with
  | nil => exact ⟨result, rfl, rfl⟩
  | cons command older ih =>
    rw [packOlder, candidates]
    split_ifs with hfull hskip hskip
    · exact ⟨result, rfl, (greedy_eq_self fun c _ => by simp [fits, hfull]).symm⟩
    · exact ⟨result, rfl, (greedy_eq_self fun c _ => by simp [fits, hfull]).symm⟩
    · exact ih hlen hroom
    have hlt : result.1.length < maxRecords := lt_of_le_of_ne hlen hfull
    rw [greedy_cons]
    obtain ⟨hnone, hover⟩ | ⟨digest, hsome, hfits⟩ :=
      fingerprint_cases hash encode command remaining
    · have hno : fits encode maxRecords room result.1 command = false := by
        simp only [fits, decide_eq_false_iff_not]
        omega
      simp only [hnone, hno]
      exact ih hlen hroom
    · have hyes : fits encode maxRecords room result.1 command = true := by
        simp only [fits, decide_eq_true_eq]
        omega
      obtain ⟨result', hpush, hresult⟩ := BoundedVec.push_of_lt command (hlt.trans_le hmax)
      simp only [hsome, checkedSub, hfits, if_true, hpush, hyes]
      rw [← hresult]
      refine ih ?_ ?_
      · rw [hresult, List.length_append, List.length_singleton]
        exact hlt
      · rw [hresult, load_append, load_singleton]
        omega

/-- A bundle is the newest command with a greedy choice of the candidates, when the newest fits at
all. -/
theorem packRedundant_eq (hmax : 1 ≤ maxRecords ∧ maxRecords ≤ 8) :
    packRedundant (fingerprint hash encode) newest older maxRecords payloadBudget =
      .err .newestDoesNotFit ∧ payloadBudget < 8 + encodedSize encode newest ∨
    8 + encodedSize encode newest ≤ payloadBudget ∧
      ∃ records, packRedundant (fingerprint hash encode) newest older maxRecords payloadBudget =
        .ok records ∧ records.1 = greedy (fits encode maxRecords (payloadBudget - 8)) [newest]
          (candidates newest.owner [(newest.owner.stream, newest.sequence)] older) := by
  rw [packRedundant, if_neg (not_not.mpr hmax)]
  obtain ⟨hnone, hover⟩ | ⟨digest, hsome, hfits⟩ :=
    fingerprint_cases hash encode newest payloadBudget
  · exact .inl ⟨by simp only [hnone], by omega⟩
  simp only [hsome]
  by_cases hbudget : 8 + encodedSize encode newest ≤ payloadBudget
  · have hremaining :
        ((checkedSub payloadBudget 8).bind (checkedSub · (encodedSize encode newest))) =
        some (payloadBudget - 8 - encodedSize encode newest) := by
      rw [checkedSub, if_pos (by omega), Option.bind_some, checkedSub, if_pos (by omega)]
    have hempty : (BoundedVec.empty : BoundedVec (Command I A) 8).1.length < 8 := Nat.zero_lt_succ 7
    obtain ⟨result, hpush, hresult⟩ := BoundedVec.push_of_lt newest hempty
    have hone : result.1 = [newest] := hresult
    simp only [hremaining, hpush]
    refine .inr ⟨hbudget, hone ▸ packOlder_eq hmax.2 ?_ ?_⟩
    · rw [hone]
      exact hmax.1
    · rw [hone, load_singleton]
      omega
  · have hremaining :
        ((checkedSub payloadBudget 8).bind (checkedSub · (encodedSize encode newest))) = none := by
      by_cases height : 8 ≤ payloadBudget
      · rw [checkedSub, if_pos height, Option.bind_some, checkedSub, if_neg (by omega)]
      · rw [checkedSub, if_neg height, Option.bind_none]
    exact .inl ⟨by simp only [hremaining], by omega⟩

/-- What a bundle of the newest command and some older ones is. -/
structure Bundles (fingerprint : Command I A → ℕ → Option (F × ℕ)) (size : Command I A → ℕ)
    (newest : Command I A) (older : List (Command I A)) (maxRecords payloadBudget : ℕ)
    (records : List (Command I A)) : Prop where
  newest_first : ∃ taken, records = newest :: taken ∧ taken.Sublist older
  owned : ∀ command ∈ records, command.owner = newest.owner
  distinct : (records.map Command.sequence).Nodup
  records_le : records.length ≤ maxRecords
  bytes_le : 8 + load size records ≤ payloadBudget
  /-- The first command with its sequence is left out only for want of a record or of bytes at its
  turn. -/
  greedy : ∀ (before after : List (Command I A)) (command : Command I A),
    older = before ++ command :: after → command.owner = newest.owner →
    command.sequence ≠ newest.sequence →
    (∀ c ∈ before, c.owner = newest.owner → c.sequence ≠ command.sequence) → command ∉ records →
    ∃ taken, packRedundant fingerprint newest before maxRecords payloadBudget = .ok taken ∧
      taken.1 <+: records ∧
      (taken.1.length = maxRecords ∨ payloadBudget < 8 + load size taken.1 + size command)

theorem packRedundant_ok {records : BoundedVec (Command I A) 8}
    (hmax : 1 ≤ maxRecords ∧ maxRecords ≤ 8)
    (h : packRedundant (fingerprint hash encode) newest older maxRecords payloadBudget =
      .ok records) :
    Bundles (fingerprint hash encode) (encodedSize encode) newest older maxRecords payloadBudget
      records.1 := by
  obtain ⟨hfail, -⟩ | ⟨hbudget, records', hok, hrecords⟩ :=
    @packRedundant_eq I A H F hash encode newest
    older maxRecords payloadBudget hmax
  · cases hfail.symm.trans h
  cases hok.symm.trans h
  obtain ⟨taken, htaken, hsub⟩ :=
    greedy_eq_append (fits encode maxRecords (payloadBudget - 8)) [newest]
    (candidates newest.owner [(newest.owner.stream, newest.sequence)] older)
  rw [← hrecords, List.singleton_append] at htaken
  have hcandidate : ∀ c ∈ taken, c.owner = newest.owner ∧ c.sequence ≠ newest.sequence := by
    intro c hc
    obtain ⟨howner, hseen⟩ := mem_candidates (hsub.subset hc)
    exact ⟨howner, fun hsame => hseen (by rw [hsame]; exact List.mem_singleton_self _)⟩
  refine ⟨⟨taken, htaken, hsub.trans (candidates_sublist older)⟩, ?_, ?_, ?_, ?_, ?_⟩
  · rw [htaken]
    rintro c (_ | ⟨_, hc⟩)
    · rfl
    · exact (hcandidate c hc).1
  · rw [htaken, List.map_cons, List.nodup_cons]
    refine ⟨fun hmem => ?_, (candidates_nodup older).sublist (hsub.map _)⟩
    obtain ⟨c, hc, hsame⟩ := List.mem_map.mp hmem
    exact (hcandidate c hc).2 hsame
  · rw [hrecords]
    exact length_greedy_fits hmax.1 _
  · have hnewest : encodedSize encode newest ≤ payloadBudget - 8 := by omega
    have hload := hrecords ▸ load_greedy_fits hnewest _
    omega
  · rintro before after command rfl howner hsequence hfirst hleft
    obtain ⟨-, hbefore⟩ | ⟨-, earlier, hearlier, htaken'⟩ :=
      @packRedundant_eq I A H F hash encode newest
      before maxRecords payloadBudget hmax
    · exact absurd hbudget (not_le.mpr hbefore)
    have hseen : (newest.owner.stream, command.sequence) ∉
        [(newest.owner.stream, newest.sequence)] := by
      simpa using hsequence
    obtain ⟨rest, hrest⟩ :=
      @candidates_split I A newest.owner _ before after command howner hseen hfirst
    refine ⟨earlier, hearlier, ?_, ?_⟩
    · rw [hrecords, htaken', hrest, greedy_append]
      exact prefix_greedy _
    · -- with a record and the bytes left at its turn the command is taken, and stays taken
      by_contra hroom
      refine hleft ?_
      have hlength : earlier.1.length ≤ maxRecords := htaken' ▸ length_greedy_fits hmax.1 _
      rw [hrecords, hrest]
      refine (greedy_turn ?_).subset (List.mem_append_right _ List.mem_cons_self)
      rw [← htaken']
      simp only [fits, decide_eq_true_eq]
      omega

/-- **Redundant packing.**  The newest command is packed if and only if it fits; then the bundle is
within its records and bytes, has every sequence once, and leaves out no older command that there
was room for. -/
theorem packRedundant_bundles (hash : Hasher H F) (encode : Command I A → List (List UInt8))
    (newest : Command I A) (older : List (Command I A)) (payloadBudget : ℕ)
    (hmax : 1 ≤ maxRecords ∧ maxRecords ≤ 8) :
    (packRedundant (fingerprint hash encode) newest older maxRecords payloadBudget =
        .err .newestDoesNotFit ↔ payloadBudget < 8 + encodedSize encode newest) ∧
    (8 + encodedSize encode newest ≤ payloadBudget →
      ∃ records, packRedundant (fingerprint hash encode) newest older maxRecords payloadBudget =
        .ok records ∧ Bundles (fingerprint hash encode) (encodedSize encode) newest older maxRecords
          payloadBudget
          records.1) := by
  obtain ⟨hfail, hover⟩ | ⟨hbudget, records, hok, -⟩ := @packRedundant_eq I A H F hash encode newest
    older maxRecords payloadBudget hmax
  · exact ⟨⟨fun _ => hover, fun _ => hfail⟩, fun hfits => absurd hfits (not_le.mpr hover)⟩
  · refine ⟨⟨fun h => ?_, fun h => absurd hbudget (not_le.mpr h)⟩, fun _ =>
      ⟨records, hok, packRedundant_ok hmax hok⟩⟩
    cases hok.symm.trans h

end bundles

/-- A hash that keeps what it is given. -/
def plainHash : Hasher (List UInt8) (List UInt8) := ⟨[], (· ++ ·), id⟩

/-- A command whose encoding is one write of `bytes` bytes. -/
def sized (sequence bytes : ℕ) : Command ℕ Unit :=
  ⟨⟨1, 1, 1, ⟨1, 1⟩, 1⟩, sequence, sequence, bytes, .empty⟩

def sizedEncode (command : Command ℕ Unit) : List (List UInt8) := [List.replicate command.input 0]

/-- The command of 20 bytes does not fit after the newest one; the older and smaller one does. -/
theorem packRedundant_bundles_sized :
    ∃ records, packRedundant (fingerprint plainHash sizedEncode) (sized 3 10)
      [sized 2 20, sized 1 5] 8 30 =
        .ok records ∧ records.1.map Command.sequence = [3, 1] ∧
      Bundles (fingerprint plainHash sizedEncode) (encodedSize sizedEncode) (sized 3 10)
        [sized 2 20, sized 1 5] 8 30 records.1 := by
  obtain ⟨records, hok, hbundles⟩ := (packRedundant_bundles plainHash sizedEncode (sized 3 10)
    [sized 2 20, sized 1 5] 30 (show 1 ≤ 8 ∧ 8 ≤ 8 by decide)).2 (by decide)
  refine ⟨records, hok, ?_, hbundles⟩
  have hrun : packRedundant (fingerprint plainHash sizedEncode)
      (sized 3 10) [sized 2 20, sized 1 5] 8 30 =
      .ok ⟨[sized 3 10, sized 1 5], by decide⟩ := by decide
  cases hok.symm.trans hrun
  rfl

end Net
