import Discordium.Net.Baselines.Endpoints

/-!
# Net — Baselines — Sound

One cache against the log of the states a server has put on the wire.  `Coherent` says that the log
itself is in order: one state a snapshot, metadata that grows with the snapshots, one payload a
version within a generation.  `Sound` says that a cache holds states of the log, of its own
generation, above its retired mark and in ascending order, and that its newest state is the one its
high-water mark names.  Every cache operation keeps `Sound`, and a logged state that passes the
identity check of a sound cache is never in conflict with it.
-/

namespace Net.Baselines
open Lib

variable {P : Type}

/-! ### The log -/

/-- The metadata of a receipt is at most that of another. -/
structure BaselineReceipt.Le (r s : BaselineReceipt) : Prop where
  generation : r.generation ≤ s.generation
  version : r.version ≤ s.version
  endTick : r.endTick ≤ s.endTick

/-- The states put on the wire agree with each other. -/
structure Coherent (context : BaselineContext) (log : List (BaselineState P)) : Prop where
  context_eq : ∀ t ∈ log, t.receipt.context = context
  positive : ∀ t ∈ log,
    t.receipt.generation ≠ 0 ∧ t.receipt.snapshot ≠ 0 ∧ t.receipt.version ≠ 0
  unique : ∀ t ∈ log, ∀ u ∈ log, t.receipt.snapshot = u.receipt.snapshot → t = u
  ordered : ∀ t ∈ log, ∀ u ∈ log, t.receipt.snapshot < u.receipt.snapshot → t.receipt.Le u.receipt
  same_version : ∀ t ∈ log, ∀ u ∈ log, t.receipt.generation = u.receipt.generation →
    t.receipt.version = u.receipt.version → t.payload = u.payload

variable {context : BaselineContext}

theorem Coherent.le {log : List (BaselineState P)}
    (h : Coherent context log) {t u : BaselineState P} (ht : t ∈ log) (hu : u ∈ log)
    (hle : t.receipt.snapshot ≤ u.receipt.snapshot) : t.receipt.Le u.receipt := by
  rcases hle.eq_or_lt with heq | hlt
  · rw [h.unique t ht u hu heq]
    exact ⟨le_rfl, le_rfl, le_rfl⟩
  · exact h.ordered t ht u hu hlt

theorem Coherent.subset {log log' : List (BaselineState P)}
    (h : Coherent context log) (hsub : ∀ t ∈ log', t ∈ log) : Coherent context log' where
  context_eq t ht := h.context_eq t (hsub t ht)
  positive t ht := h.positive t (hsub t ht)
  unique t ht u hu := h.unique t (hsub t ht) u (hsub u hu)
  ordered t ht u hu := h.ordered t (hsub t ht) u (hsub u hu)
  same_version t ht u hu := h.same_version t (hsub t ht) u (hsub u hu)

namespace Cache
variable {cache : Cache P} {log log' : List (BaselineState P)}

/-! ### What the checks establish -/

/-- The states held, oldest first. -/
def states (cache : Cache P) : List (BaselineState P) := cache.entries.map (·.state)

variable {context : BaselineContext} {generation snapshot through : ℕ} {state s : BaselineState P}
  {fence : BaselineRetirement}

theorem envelope_eq_none :
    cache.envelope context generation = none ↔
      cache.closed = false ∧ context = cache.context ∧ generation = cache.generation := by
  simp only [envelope, ite_eq_right_iff, reduceCtorEq, imp_false, not_or, not_not,
    Bool.not_eq_true]

/-- A receipt with a well-formed identity, current and above the retired mark. -/
structure Admits (cache : Cache P) (receipt : BaselineReceipt) : Prop where
  opened : cache.closed = false
  context : receipt.context = cache.context
  generation : receipt.generation = cache.generation
  snapshot : receipt.snapshot ≠ 0
  version : receipt.version ≠ 0
  retired : cache.retired < receipt.snapshot

theorem identity_eq_none {receipt : BaselineReceipt} :
    cache.identity receipt = none ↔ cache.Admits receipt := by
  simp only [identity]
  cases henv : cache.envelope receipt.context receipt.generation with
  | some error =>
    simp only [reduceCtorEq, false_iff]
    intro h
    rw [envelope_eq_none.mpr ⟨h.opened, h.context, h.generation⟩] at henv
    cases henv
  | none =>
    obtain ⟨h₁, h₂, h₃⟩ := envelope_eq_none.mp henv
    dsimp only
    split_ifs with hid hret
    · simp only [false_iff]
      rintro ⟨-, -, -, hs, hv, -⟩
      tauto
    · simp only [false_iff]
      rintro ⟨-, -, -, -, -, hr⟩
      omega
    · simp only [true_iff]
      exact ⟨h₁, h₂, h₃, by tauto, by tauto, by omega⟩

theorem find_some {e : Entry P} (h : cache.find snapshot = some e) :
    e ∈ cache.entries ∧ e.state.receipt.snapshot = snapshot :=
  ⟨List.mem_of_find?_eq_some h, by simpa using List.find?_some h⟩

theorem find_none (h : cache.find snapshot = none) {e : Entry P}
    (he : e ∈ cache.entries) : e.state.receipt.snapshot ≠ snapshot := by
  simpa using List.find?_eq_none.mp h e he

/-- What the order check establishes against the high-water mark. -/
theorem checkLatest_none [DecidableEq P] {latest : BaselineReceipt}
    (h : cache.checkLatest state = none) (hl : cache.latest = some latest) :
    latest.snapshot < state.receipt.snapshot ∧ latest.version ≤ state.receipt.version ∧
      latest.endTick ≤ state.receipt.endTick ∧
      (state.receipt.version = latest.version →
        ∀ e, cache.entries.getLast? = some e → e.state.payload = state.payload) := by
  simp only [checkLatest, hl] at h
  split_ifs at h with hv ho hc
  simp only [not_or, not_le, not_lt] at hc
  refine ⟨hc.1, hc.2.1, hc.2.2, fun heq e he => ?_⟩
  by_contra hne
  exact hv ⟨heq, by simp [he, hne]⟩

/-- A state accepted for insertion. -/
structure Accepts [DecidableEq P] [Payload P] (cache : Cache P)
    (state : BaselineState P) : Prop where
  admits : cache.Admits state.receipt
  fits : Payload.retainedBytes state.payload ≤ cache.limits.payloadBytes
  fresh : cache.find state.receipt.snapshot = none
  order : cache.checkLatest state = none

theorem check_ok [DecidableEq P] [Payload P] {insert : Bool} (h : cache.check state = .ok insert) :
    cache.Admits state.receipt ∧ Payload.retainedBytes state.payload ≤ cache.limits.payloadBytes ∧
      (if insert then cache.Accepts state else state ∈ cache.states) := by
  simp only [check] at h
  cases hid : cache.identity state.receipt with
  | some error => rw [hid] at h; cases h
  | none =>
    have hadm := identity_eq_none.mp hid
    by_cases hsize : cache.limits.payloadBytes < Payload.retainedBytes state.payload
    · rw [hid] at h
      simp only [if_pos hsize, reduceCtorEq] at h
    rw [hid] at h
    simp only [if_neg hsize] at h
    have hsize := not_lt.mp hsize
    cases hfind : cache.find state.receipt.snapshot with
    | some e =>
      rw [hfind] at h
      by_cases heq : e.state = state
      · simp only [if_pos heq, Except.ok.injEq] at h
        subst h
        exact ⟨hadm, hsize, List.mem_map.mpr ⟨e, (find_some hfind).1, heq⟩⟩
      · simp only [if_neg heq, reduceCtorEq] at h
    | none =>
      rw [hfind] at h
      cases horder : cache.checkLatest state with
      | some error => rw [horder] at h; cases h
      | none =>
        rw [horder] at h
        dsimp only at h
        split_ifs at h
        cases h
        exact ⟨hadm, hsize, hadm, hsize, hfind, horder⟩

theorem mem_states : s ∈ cache.states ↔ ∃ e ∈ cache.entries, e.state = s :=
  List.mem_map

/-! ### Sound caches -/

/-- The invariant of one cache against the log. -/
structure Sound (log : List (BaselineState P)) (cache : Cache P) : Prop where
  held : ∀ s ∈ cache.states, s ∈ log
  current : ∀ s ∈ cache.states, s.receipt.generation = cache.generation
  unretired : ∀ s ∈ cache.states, cache.retired < s.receipt.snapshot
  ascending : cache.states.Pairwise (·.receipt.snapshot < ·.receipt.snapshot)
  latest_logged : ∀ r, cache.latest = some r →
    r.generation ≤ cache.generation ∧ ∃ t ∈ log, t.receipt = r
  last_latest : ∀ s, cache.states.getLast? = some s → cache.latest = some s.receipt
  latest_held : cache.closed = false → ∀ r, cache.latest = some r →
    r.generation = cache.generation → cache.states ≠ []

theorem Sound.mono (h : cache.Sound log) (hsub : ∀ t ∈ log, t ∈ log') : cache.Sound log' :=
  { h with
    held := fun s hs => hsub s (h.held s hs)
    latest_logged := fun r hr =>
      let ⟨hgen, t, ht, heq⟩ := h.latest_logged r hr
      ⟨hgen, t, hsub t ht, heq⟩ }

/-- No state held is newer than the last one. -/
theorem Sound.le_last (h : cache.Sound log) {last : BaselineState P} (hs : s ∈ cache.states)
    (hlast : cache.states.getLast? = some last) : s.receipt.snapshot ≤ last.receipt.snapshot := by
  obtain ⟨init, hinit⟩ := List.getLast?_eq_some_iff.mp hlast
  rw [hinit] at hs
  have hasc := h.ascending
  rw [hinit, List.pairwise_append] at hasc
  rcases List.mem_append.mp hs with hs | hs
  · exact (hasc.2.2 s hs last (List.mem_singleton_self last)).le
  · rw [List.mem_singleton.mp hs]

/-- The high-water mark of a current generation names the last state held. -/
theorem Sound.last_of_latest (h : cache.Sound log) (hopen : cache.closed = false)
    {r : BaselineReceipt} (hr : cache.latest = some r) (hgen : r.generation = cache.generation) :
    ∃ last, cache.states.getLast? = some last ∧ last.receipt = r := by
  have hne := h.latest_held hopen r hr hgen
  have hlast := List.getLast?_eq_some_getLast hne
  refine ⟨_, hlast, ?_⟩
  exact Option.some.inj ((h.last_latest _ hlast).symm.trans hr)

theorem new_sound {layout : Layout}
    {limits : BaselineLimits} (h : new layout context generation limits = .ok cache) :
    cache.Sound log ∧ cache.context = context ∧ cache.generation = generation ∧
      cache.limits = limits ∧ cache.retired = 0 ∧ cache.latest = none ∧ cache.entries = [] ∧
      context.validate = none ∧ generation ≠ 0 := by
  simp only [new] at h
  split at h
  · cases h
  rename_i hctx
  split_ifs at h with hgen
  split at h
  · split_ifs at h
    split at h
    · cases h
    split_ifs at h
    cases h
    refine ⟨?_, rfl, rfl, rfl, rfl, rfl, rfl, hctx, hgen⟩
    constructor <;> simp [states]
  · cases h

theorem insert_states [Payload P] (cache : Cache P) (state : BaselineState P) (decoded : Bool) :
    (cache.insert state decoded).states = cache.states ++ [state] := by
  simp [states, insert]

/-- Inserting an accepted state of the log. -/
theorem Sound.insert [DecidableEq P] [Payload P] (h : cache.Sound log)
    (hacc : cache.Accepts state) (hmem : state ∈ log) (decoded : Bool) :
    (cache.insert state decoded).Sound log := by
  have hnewer : ∀ s ∈ cache.states, s.receipt.snapshot < state.receipt.snapshot := by
    intro s hs
    obtain ⟨last, hlast⟩ : ∃ last, cache.states.getLast? = some last :=
      ⟨_, List.getLast?_eq_some_getLast (List.ne_nil_of_mem hs)⟩
    exact (h.le_last hs hlast).trans_lt (checkLatest_none hacc.order (h.last_latest last hlast)).1
  constructor
  · intro s hs
    rcases List.mem_append.mp (insert_states cache state decoded ▸ hs) with hs | hs
    · exact h.held s hs
    · rwa [List.mem_singleton.mp hs]
  · intro s hs
    rcases List.mem_append.mp (insert_states cache state decoded ▸ hs) with hs | hs
    · exact h.current s hs
    · rw [List.mem_singleton.mp hs]
      exact hacc.admits.generation
  · intro s hs
    rcases List.mem_append.mp (insert_states cache state decoded ▸ hs) with hs | hs
    · exact h.unretired s hs
    · rw [List.mem_singleton.mp hs]
      exact hacc.admits.retired
  · rw [insert_states, List.pairwise_append]
    refine ⟨h.ascending, List.pairwise_singleton _ _, fun s hs t ht => ?_⟩
    rw [List.mem_singleton.mp ht]
    exact hnewer s hs
  · rintro r ⟨⟩
    exact ⟨hacc.admits.generation.le, state, hmem, rfl⟩
  · intro s hs
    rw [insert_states, List.getLast?_append] at hs
    cases hs
    rfl
  · intro _ _ _ _
    simp [insert_states]

/-- What a fence that passes the retirement check leaves behind: a newer decoded state. -/
theorem retirement_none (h : cache.retirement fence = none) (hlt : cache.retired < fence.through) :
    ∃ e ∈ cache.entries, e.decoded = true ∧ fence.through < e.state.receipt.snapshot := by
  simp only [retirement] at h
  split at h
  · cases h
  split_ifs at h with h₀ hle hany
  · omega
  · simpa using hany

theorem discard_states [Payload P] (hlt : cache.retired < through) :
    (cache.discard through).states =
      cache.states.filter (fun s => decide (through < s.receipt.snapshot)) := by
  simp only [states, discard, if_neg (not_le.mpr hlt), List.filter_map]
  rfl

/-- Discarding a prefix below a state that stays. -/
theorem Sound.discard [Payload P] (h : cache.Sound log)
    (hkeep : cache.retired < through → ∃ s ∈ cache.states, through < s.receipt.snapshot) :
    (cache.discard through).Sound log := by
  by_cases hle : through ≤ cache.retired
  · rwa [show cache.discard through = cache from if_pos hle]
  have hlt := not_le.mp hle
  obtain ⟨kept, hkept, hnewer⟩ := hkeep hlt
  have hdis : cache.discard through =
      { cache with
        bytes := (cache.discard through).bytes, entries := (cache.discard through).entries
        retired := through } := by
    simp [Cache.discard, hle]
  have hlast : (cache.discard through).states.getLast? = cache.states.getLast? := by
    -- the last state is newer than the one kept, so the filter keeps it too
    obtain ⟨last, hl⟩ : ∃ last, cache.states.getLast? = some last :=
      ⟨_, List.getLast?_eq_some_getLast (List.ne_nil_of_mem hkept)⟩
    obtain ⟨init, hinit⟩ := List.getLast?_eq_some_iff.mp hl
    have hthrough : through < last.receipt.snapshot := hnewer.trans_le (h.le_last hkept hl)
    rw [discard_states hlt, hinit, List.filter_append]
    simp [hthrough]
  have hmem : ∀ s ∈ (cache.discard through).states,
      s ∈ cache.states ∧ through < s.receipt.snapshot := by
    intro s hs
    rw [discard_states hlt, List.mem_filter] at hs
    simpa using hs
  constructor
  · exact fun s hs => h.held s (hmem s hs).1
  · intro s hs
    rw [hdis]
    exact h.current s (hmem s hs).1
  · intro s hs
    rw [hdis]
    exact (hmem s hs).2
  · rw [discard_states hlt]
    exact h.ascending.filter _
  · rw [hdis]
    exact h.latest_logged
  · rw [hlast, hdis]
    exact h.last_latest
  · intro _ _ _ _
    rw [discard_states hlt]
    exact List.ne_nil_of_mem (List.mem_filter.mpr ⟨hkept, by simpa using hnewer⟩)

/-- A reset to a newer generation drops every state and keeps the high-water mark. -/
theorem Sound.reset [Payload P] (h : cache.Sound log)
    (hlt : cache.generation < generation) : Sound log { cache.clear with generation } := by
  constructor
  · simp [states, clear]
  · simp [states, clear]
  · simp [states, clear]
  · simp [states, clear]
  · intro r hr
    obtain ⟨hgen, ht⟩ := h.latest_logged r hr
    exact ⟨hgen.trans hlt.le, ht⟩
  · simp [states, clear]
  · intro _ r hr heq
    have hgen := (h.latest_logged r hr).1
    simp only at heq
    omega

theorem Sound.close [Payload P] (h : cache.Sound log) : cache.close.Sound log := by
  constructor
  · simp [states, Cache.close, clear]
  · simp [states, Cache.close, clear]
  · simp [states, Cache.close, clear]
  · simp [states, Cache.close, clear]
  · exact h.latest_logged
  · simp [states, Cache.close, clear]
  · simp [Cache.close]

/-- The retired mark after a discard. -/
theorem discard_retired [Payload P] (cache : Cache P) (through : ℕ) :
    (cache.discard through).retired = max cache.retired through := by
  simp only [Cache.discard]
  split_ifs with hle
  · exact (max_eq_left hle).symm
  · exact (max_eq_right (not_le.mp hle).le).symm

theorem discard_frame [Payload P] (cache : Cache P) (through : ℕ) :
    (cache.discard through).context = cache.context ∧
      (cache.discard through).generation = cache.generation ∧
      (cache.discard through).limits = cache.limits ∧ (cache.discard through).latest =
        cache.latest ∧
      (cache.discard through).closed = cache.closed ∧
      ∀ e ∈ (cache.discard through).entries, e ∈ cache.entries := by
  simp only [Cache.discard]
  split_ifs
  · exact ⟨rfl, rfl, rfl, rfl, rfl, fun _ he => he⟩
  · exact ⟨rfl, rfl, rfl, rfl, rfl, fun _ he => List.mem_of_mem_filter he⟩

/-- A cache that passes the retirement check of a fence stays sound through the discard. -/
theorem Sound.retire [Payload P] (h : cache.Sound log) (hfence : cache.retirement fence = none) :
    (cache.discard fence.through).Sound log := by
  refine h.discard fun hlt => ?_
  obtain ⟨e, he, -, hnewer⟩ := retirement_none hfence hlt
  exact ⟨e.state, mem_states.mpr ⟨e, he, rfl⟩, hnewer⟩

/-- What a reset that is accepted does to a cache. -/
theorem reset_cases [Payload P] (cache : Cache P) (reset : BaselineReset) :
    (cache.reset reset = (cache, some .stale)) ∨
    (cache.reset reset = (cache, none) ∧ reset.generation = cache.generation) ∨
    (cache.reset reset = ({ cache.clear with generation := reset.generation }, none) ∧
      cache.generation < reset.generation) := by
  simp only [Cache.reset]
  by_cases hstale : cache.closed ∨ reset.context ≠ cache.context ∨
    reset.generation < cache.generation
  · exact .inl (if_pos hstale)
  rw [if_neg hstale]
  by_cases heq : reset.generation = cache.generation
  · exact .inr (.inl ⟨if_pos heq, heq⟩)
  · rw [if_neg heq]
    exact .inr (.inr ⟨rfl, by omega⟩)

/-! ### Logged states and sound caches -/

/-- The entry of a receipt the cache holds. -/
theorem Sound.entry_of_mem (h : cache.Sound log) (hlog : Coherent context log)
    (hs : s ∈ cache.states) (hadm : cache.Admits s.receipt) :
    ∃ e ∈ cache.entries, cache.entry s.receipt = .ok e ∧ e.state = s := by
  cases hfind : cache.find s.receipt.snapshot with
  | none =>
    obtain ⟨e, he, rfl⟩ := mem_states.mp hs
    exact absurd rfl (find_none hfind he)
  | some e =>
    obtain ⟨he, hsnap⟩ := find_some hfind
    have heq : e.state = s :=
      hlog.unique _ (h.held _ (mem_states.mpr ⟨e, he, rfl⟩)) _ (h.held s hs) hsnap
    refine ⟨e, he, ?_, heq⟩
    simp only [entry, identity_eq_none.mpr hadm, hfind, heq, ne_eq, not_true_eq_false, if_false]

/-- **A logged state is never in conflict with a sound cache.**  Once it passes the identity check
and is not behind the newest state, `check` answers it or runs out of room. -/
theorem Sound.check_logged [DecidableEq P] [Payload P]
    (h : cache.Sound log) (hlog : Coherent context log) (hs : s ∈ log)
    (hadm : cache.Admits s.receipt)
    (hcur : ∀ r, cache.latest = some r → s.receipt.snapshot < r.snapshot →
      (cache.find s.receipt.snapshot).isSome = true) :
    (∃ insert, cache.check s = .ok insert) ∨ cache.check s = .error .capacity := by
  simp only [check, identity_eq_none.mpr hadm]
  by_cases hsize : cache.limits.payloadBytes < Payload.retainedBytes s.payload
  · exact .inr (if_pos hsize)
  rw [if_neg hsize]
  cases hfind : cache.find s.receipt.snapshot with
  | some e =>
    obtain ⟨he, hsnap⟩ := find_some hfind
    have heq : e.state = s := hlog.unique _ (h.held _ (mem_states.mpr ⟨e, he, rfl⟩)) s hs hsnap
    exact .inl ⟨false, if_pos heq⟩
  | none =>
    have horder : cache.checkLatest s = none := by
      simp only [checkLatest]
      cases hlatest : cache.latest with
      | none => rfl
      | some r =>
        obtain ⟨hrgen, t, ht, rfl⟩ := h.latest_logged r hlatest
        have hlt : t.receipt.snapshot < s.receipt.snapshot := by
          rcases lt_trichotomy t.receipt.snapshot s.receipt.snapshot with hlt | heq | hgt
          · exact hlt
          · -- the newest state itself would still be held
            have hts := hlog.unique t ht s hs heq
            obtain ⟨last, hlast, hreceipt⟩ := h.last_of_latest hadm.opened hlatest
              (by rw [hts]; exact hadm.generation)
            obtain ⟨e, he, rfl⟩ := mem_states.mp (List.mem_of_getLast? hlast)
            exact absurd (by rw [hreceipt, heq]) (find_none hfind he)
          · have := hcur _ hlatest hgt
            simp [hfind] at this
        have hle := hlog.ordered t ht s hs hlt
        have hlast : ∀ e, cache.entries.getLast? = some e →
            s.receipt.version = t.receipt.version → e.state.payload = s.payload := by
          intro e he hveq
          have hlast : cache.states.getLast? = some e.state := by
            rw [states, List.getLast?_map, he]
            rfl
          have hmem := List.mem_of_getLast? hlast
          have hreceipt := Option.some.inj (hlatest.symm.trans (h.last_latest _ hlast))
          refine hlog.same_version _ (h.held _ hmem) s hs ?_ (by rw [← hreceipt, hveq])
          rw [h.current _ hmem, hadm.generation]
        have hvle := hle.version
        have htle := hle.endTick
        dsimp only
        rw [if_neg, if_neg (by omega), if_neg (by omega)]
        rintro ⟨hveq, hany⟩
        cases hgl : cache.entries.getLast? with
        | none => simp [hgl] at hany
        | some e => simp [hgl, hlast e hgl hveq] at hany
    rw [horder]
    dsimp only
    split_ifs
    · exact .inr rfl
    · exact .inl ⟨true, rfl⟩

end Cache

/-! ### The decoded marks -/

/-- The states of the entries do not depend on the decoded marks. -/
theorem markDecoded_states (receipt : BaselineReceipt) (entries : List (Entry P)) :
    (ServerBaselines.markDecoded receipt entries).map (·.state) = entries.map (·.state) := by
  induction entries with
  | nil => rfl
  | cons e es ih =>
    simp only [ServerBaselines.markDecoded]
    split_ifs
    · rfl
    · simp [ih]

/-- A decoded mark is an old one or that of the receipt. -/
theorem mem_markDecoded {receipt : BaselineReceipt} {entries : List (Entry P)} {e : Entry P}
    (he : e ∈ ServerBaselines.markDecoded receipt entries) :
    e ∈ entries ∨ e.state.receipt = receipt := by
  induction entries with
  | nil => exact .inl he
  | cons a es ih =>
    simp only [ServerBaselines.markDecoded] at he
    split_ifs at he with ha
    · rcases List.mem_cons.mp he with rfl | he
      · exact .inr ha
      · exact .inl (List.mem_cons_of_mem a he)
    · rcases List.mem_cons.mp he with rfl | he
      · exact .inl List.mem_cons_self
      · exact (ih he).imp_left (List.mem_cons_of_mem a)

end Net.Baselines
