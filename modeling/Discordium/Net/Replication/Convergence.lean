import Discordium.Net.Replication.Feed

/-!
# Net — Replication — Convergence

Two clients that get the same messages of a run of a server end with the same fences and the same
states, in whatever order and however often the messages come.  A delivery that is not refused for
room writes one register per index, `Lib.write`; so a record is the greatest acceptable message of
its index.
-/

namespace Net.ClientScopes
open Lib

variable {P : Type}

/-- The payload of the message, if it has one, passes the callback. -/
def acceptable (validate : P → Bool) : Message P → Bool
  | .full state => validate state.payload
  | _ => true

/-! ### Rejections -/

section Rejections
variable [Payload P] {client client' : ClientScopes P} {error : ReplicationError}

theorem applyFull_error [DecidableEq P] {state : FullState P} {validate : P → Bool}
    (h : client.applyFull state validate = (client', .error error)) : client' = client := by
  simp only [applyFull] at h
  repeat' split at h
  all_goals first
    | exact (Prod.mk.inj h).1.symm
    | exact absurd (Prod.mk.inj h).2 (by simp)

theorem applyExit_error {e : ScopeExit} (h : client.applyExit e = (client', .error error)) :
    client' = client := by
  simp only [applyExit] at h
  repeat' split at h
  all_goals first
    | exact (Prod.mk.inj h).1.symm
    | exact absurd (Prod.mk.inj h).2 (by simp)

theorem applyDestroy_error {d : Destroy} (h : client.applyDestroy d = (client', .error error)) :
    client' = client := by
  simp only [applyDestroy] at h
  repeat' split at h
  all_goals first
    | exact (Prod.mk.inj h).1.symm
    | exact absurd (Prod.mk.inj h).2 (by simp)

/-- **A rejected message leaves the client as it was.** -/
theorem apply_error [DecidableEq P] {m : Message P} {validate : P → Bool}
    (h : (client.apply m validate).2 = .error error) : (client.apply m validate).1 = client := by
  cases m with
  | full state =>
    cases ha : client.applyFull state validate with
    | mk client' answer =>
      cases answer with
      | ok receipt => simp [apply, ha, Except.map] at h
      | error e => simpa [apply, ha] using applyFull_error ha
  | exit e =>
    cases ha : client.applyExit e with
    | mk client' answer =>
      cases answer with
      | ok receipt => simp [apply, ha, Except.map] at h
      | error e => simpa [apply, ha] using applyExit_error ha
  | destroy d =>
    cases ha : client.applyDestroy d with
    | mk client' answer =>
      cases answer with
      | ok receipt => simp [apply, ha, Except.map] at h
      | error e => simpa [apply, ha] using applyDestroy_error ha

end Rejections

/-! ### Registers -/

section Registers
variable [DecidableEq P] [Payload P] (validate : P → Bool)

/-- One delivery. -/
def delivery (client : ClientScopes P) (m : Message P) : ClientScopes P :=
  (client.apply m validate).1

/-- The limits of the client are not hit by a delivery. -/
def HasRoom (client : ClientScopes P) (m : Message P) : Prop :=
  (client.apply m validate).2 ≠ .error .resetRequired ∧ (client.apply m validate).2 ≠
    .error .capacity

instance (client : ClientScopes P) (m : Message P) : Decidable (client.HasRoom validate m) :=
  inferInstanceAs (Decidable (_ ∧ _))

/-- The messages of an index that a client may accept. -/
def acceptableAt (i : ℕ) (m : Message P) : Bool := acceptable validate m && m.index = i

/-- The records of a client are the registers, each of which holds a message of the wire. -/
structure Represents (client : ClientScopes P) (net : List (Message P))
    (registers : ℕ → Option (Message P)) : Prop where
  records : ∀ i : ℕ, client.records[i]? = (registers i).map Message.replica
  held : ∀ (i : ℕ) (w : Message P), registers i = some w → w ∈ net ∧ w.index = i

/-- The registers after one message. -/
def writeRegisters (registers : ℕ → Option (Message P)) (m : Message P) (i : ℕ) :
    Option (Message P) :=
  if acceptableAt validate i m then write Message.key (registers i) m else registers i

variable {validate} {client : ClientScopes P} {net : List (Message P)}
  {registers : ℕ → Option (Message P)}

/-- **A delivery with room writes the register of its index.** -/
theorem Represents.delivery (h : client.Represents net registers) {m : Message P} (hm : m ∈ net)
    (hvalid : ∀ m ∈ net, m.Valid client.connection)
    (hcoherent : ∀ m ∈ net, ∀ n ∈ net, m.index = n.index → m.Compatible n)
    (hroom : client.HasRoom validate m) :
    (delivery validate client m).Represents net (writeRegisters validate registers m) ∧
      (delivery validate client m).connection = client.connection := by
  have hleft : client.LeftBy (registers m.index) m := by
    refine ⟨h.records m.index, fun old hold => ?_⟩
    obtain ⟨hnet, hindex⟩ := h.held _ old hold
    exact ⟨hindex, hcoherent old hnet m hm hindex⟩
  -- a register that ignores the message stays as it is
  have hkeep : (∀ old, registers m.index = some old → acceptable validate m = true →
      m.key ≤ old.key) → (registers m.index = none → acceptable validate m = false) →
      writeRegisters validate registers m = registers := by
    intro hle hnone
    funext i
    by_cases hi : acceptableAt validate i m = true
    · rw [writeRegisters, if_pos hi]
      simp only [acceptableAt, Bool.and_eq_true, decide_eq_true_eq] at hi
      obtain ⟨hok, rfl⟩ := hi
      cases hold : registers m.index with
      | none => simp [hnone hold] at hok
      | some old => exact write_of_le (hle old hold hok)
    · rw [writeRegisters, if_neg hi]
  have happlied := apply_applied validate (hvalid m hm) hleft
  cases hans : client.apply m validate with
  | mk client' answer =>
    have hroom : ∀ error, answer = .error error → ¬NoRoom error := by
      rintro error rfl
      simpa [HasRoom, NoRoom, hans] using hroom
    rw [hans] at happlied
    have hdelivery : ClientScopes.delivery validate client m = client' := by
      simp [ClientScopes.delivery, hans]
    rw [hdelivery]
    cases happlied with
    | full error hfull => exact absurd hfull (hroom error rfl)
    | invalid state hstate hinvalid =>
      have hreject : acceptable validate m = false := by rw [hstate]; exact hinvalid
      rw [hkeep (fun _ _ hok => by simp [hreject] at hok) fun _ => hreject]
      exact ⟨h, rfl⟩
    | fenced old hold hle =>
      rw [hkeep (fun old' hold' _ => ?_) fun hnone => ?_]
      · exact ⟨h, rfl⟩
      · rwa [← Option.some.inj (hold.symm.trans hold')]
      · simp [hold] at hnone
    | written bytes hle hvalidated =>
      have haccept : acceptable validate m = true := by
        cases m with
        | full state => exact hvalidated state rfl
        | exit e => rfl
        | destroy d => rfl
      have hwrite : write Message.key (registers m.index) m = some m := by
        cases hold : registers m.index with
        | none => rfl
        | some old =>
          obtain ⟨hnet, hindex⟩ := h.held _ old hold
          refine write_of_ge (fun hkey => ?_) (hle old hold)
          exact (hcoherent old hnet m hm hindex).eq_of_key (hvalid old hnet) (hvalid m hm)
            hindex hkey
      refine ⟨⟨fun i => ?_, fun i w hw => ?_⟩, rfl⟩
      · rw [lookup_insert]
        by_cases hi : m.index = i
        · subst hi
          simp [writeRegisters, acceptableAt, haccept, hwrite]
        · simp [writeRegisters, acceptableAt, hi, h.records i]
      · by_cases hi : m.index = i
        · subst hi
          simp only [writeRegisters, acceptableAt, haccept, decide_true, Bool.and_self, if_true,
            hwrite, Option.some.injEq] at hw
          exact hw ▸ ⟨hm, rfl⟩
        · simp only [writeRegisters, acceptableAt, hi, decide_false, Bool.and_false,
            Bool.false_eq_true, if_false] at hw
          exact h.held i w hw

/-- The registers after a list of messages. -/
theorem Represents.run (h : client.Represents net registers) {ms : List (Message P)}
    (hms : ∀ m ∈ ms, m ∈ net) (hvalid : ∀ m ∈ net, m.Valid client.connection)
    (hcoherent : ∀ m ∈ net, ∀ n ∈ net, m.index = n.index → m.Compatible n)
    (hroom : Meets (ClientScopes.delivery validate) (HasRoom validate) client ms) (i : ℕ) :
    (Lib.run (ClientScopes.delivery validate) client ms).records[i]? =
      ((ms.filter (acceptableAt validate i)).foldl (write Message.key) (registers i)).map
        Message.replica := by
  induction ms generalizing client registers with
  | nil => exact h.records i
  | cons m ms ih =>
    obtain ⟨hnext, hconnection⟩ := h.delivery (hms m List.mem_cons_self) hvalid hcoherent hroom.1
    rw [run_cons, ih hnext (fun n hn => hms n (List.mem_cons_of_mem m hn))
      (fun n hn => hconnection ▸ hvalid n hn) hroom.2, List.filter_cons]
    by_cases hi : acceptableAt validate i m <;> simp [writeRegisters, hi]

end Registers

/-- **Client scope convergence.**  Two deliveries of the same messages of a run of a server, in any
order and with any repetitions, leave equal fences and equal states, when the limits of the client
are not hit; and a rejected message never changes a client. -/
theorem scope_convergence [DecidableEq P] [Payload P] {connection epoch worldRevision policy : ℕ}
    {limits limits' : ScopeLimits} {server : ServerScopes P} {client : ClientScopes P}
    (hserver : ServerScopes.new connection epoch worldRevision policy limits = .ok server)
    (hclient : ClientScopes.new epoch limits' = .ok client) (calls : List (ServerScopes.Call P))
    (validate : P → Bool) (ms ns : List (Message P))
    (hemitted : ∀ m ∈ ms, m ∈ (Lib.run Feed.step ⟨server, []⟩ calls).net)
    (hsame : ∀ m, m ∈ ms ↔ m ∈ ns) (hroom : Meets (delivery validate) (HasRoom validate) client ms)
    (hroom' : Meets (delivery validate) (HasRoom validate) client ns) :
    let first := Lib.run (delivery validate) client ms
    let second := Lib.run (delivery validate) client ns
    (∀ i, first.fence i = second.fence i) ∧ (∀ entity, first.state entity = second.state entity) ∧
      ∀ (any : ClientScopes P) (m : Message P) (error : ReplicationError),
        (any.apply m validate).2 = .error error → (any.apply m validate).1 = any := by
  intro first second
  obtain ⟨hordered, hepoch⟩ := Feed.ordered_run hserver calls
  generalize Lib.run Feed.step ⟨server, []⟩ calls = feed at hemitted hordered hepoch
  obtain ⟨hempty, hconnection⟩ := new_ok hclient
  have hvalid : ∀ m ∈ feed.net, m.Valid client.connection := by
    rw [hconnection, ← hepoch]
    exact hordered.valid
  have hstart : client.Represents feed.net fun _ => none := ⟨by simp [hempty], by simp⟩
  have hrun : ∀ ds : List (Message P), (∀ m ∈ ds, m ∈ feed.net) →
      Meets (delivery validate) (HasRoom validate) client ds → ∀ i : ℕ,
      (Lib.run (delivery validate) client ds).records[i]? =
        ((ds.filter (acceptableAt validate i)).argmax Message.key).map Message.replica := by
    intro ds hds hds' i
    rw [hstart.run hds hvalid hordered.coherent hds' i, foldl_write]
  have hrecords : ∀ i : ℕ, first.records[i]? = second.records[i]? := by
    intro i
    rw [hrun ms hemitted hroom i, hrun ns (fun m hm => hemitted m ((hsame m).mpr hm)) hroom' i]
    congr 1
    refine argmax_eq_of_mem_iff (fun m => by simp only [List.mem_filter, hsame m]) ?_
    -- two messages of one index with one key are one message
    intro m hm n hn hkey
    simp only [List.mem_filter, acceptableAt, Bool.and_eq_true, decide_eq_true_eq] at hm hn
    have hindex : m.index = n.index := hm.2.2.trans hn.2.2.symm
    exact (hordered.coherent m (hemitted m hm.1) n (hemitted n hn.1) hindex).eq_of_key
      (hordered.valid m (hemitted m hm.1)) (hordered.valid n (hemitted n hn.1)) hindex hkey
  refine ⟨fun i => ?_, fun entity => ?_, fun any m error => apply_error⟩
  · simp only [fence, hrecords i]
  · simp only [state, hrecords entity.index]

/-- A state, its exit, a state of the next scope and a destruction, delivered forwards and backwards
with repetitions. -/
theorem scope_convergence_lifecycle :
    let limits : ScopeLimits := ⟨4, 4, 64, 16, 2⟩
    let entity : EntityId := ⟨7, 1⟩
    let grants : EligibleSet := ⟨9, 1, 1, 10, fun _ => some ⟨⟨1, 1, 1, true⟩, 1⟩⟩
    let publish : List (ServerScopes.Call (List UInt8)) :=
      [.offer grants entity false fun _ => [1, 2, 3], .transmitPending entity fun _ => true]
    let calls := publish ++ [.exit entity] ++ publish ++ [.destroy entity]
    ∃ server client, ServerScopes.new 9 1 1 1 limits = .ok server ∧
      ClientScopes.new 1 limits = .ok client ∧
      let net := (Lib.run Feed.step ⟨server, []⟩ calls).net
      net.length = 4 ∧
      ∀ i, (Lib.run (delivery fun _ => true) client net).fence i =
        (Lib.run (delivery fun _ => true) client (net.reverse ++ net)).fence i := by
  intro limits entity grants publish calls
  refine ⟨_, _, rfl, rfl, by decide, ?_⟩
  refine (@scope_convergence (List UInt8) _ _ 9 1 1 1 limits limits _ _ rfl rfl calls
    (fun _ => true)
    _ _ (fun _ => id) (by simp) ?_ ?_).1 <;> decide

end Net.ClientScopes
