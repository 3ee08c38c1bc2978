import Discordium.Net.Types

/-!
# Net — Replication — Audience

Event disclosure, as `replication/audience.rs` has it: an event is shown with its source, shown
anonymously, or not at all, by a policy of its own that spatial relevance does not enter.  An
approval holds for one connection and one policy revision, and is checked again when the event is
projected.
-/

namespace Net

inductive EventDisclosure where
  | sourceVisible
  | anonymous

/-- What a game says about its events of type `E`.  The revision is read twice by `authorize`; a
policy here is a value, so both reads agree. -/
structure EventAudiencePolicy (E : Type) where
  revision : ℕ
  disclosure : ℕ → E → Option EventDisclosure

/-- An approval of one event for one connection under one policy revision. -/
structure EventAudience (E : Type) where
  event : E
  connection : ℕ
  policy : ℕ
  disclosure : EventDisclosure

/-- The one error of `project`. -/
inductive AudienceError where
  | unauthorized

namespace EventAudience
variable {E P : Type}

def authorize (connection : ℕ) (event : E) (policy : EventAudiencePolicy E) :
    Option (EventAudience E) :=
  if connection ≠ 0 ∧ policy.revision ≠ 0 then
    (policy.disclosure connection event).map fun disclosure =>
      ⟨event, connection, policy.revision, disclosure⟩
  else none

def project (audience : EventAudience E) (connection currentPolicy : ℕ)
    (visible anonymous : E → Option P) : Except AudienceError P :=
  if audience.connection ≠ connection ∨ audience.policy ≠ currentPolicy then .error .unauthorized
  else
    let projected := match audience.disclosure with
      | .sourceVisible => visible audience.event
      | .anonymous => anonymous audience.event
    match projected with
    | some value => .ok value
    | none => .error .unauthorized

/-- **An event projected under the policy that approved it** is shown as that policy discloses
it. -/
theorem project_authorize {connection : ℕ} {event : E} {policy : EventAudiencePolicy E}
    {visible anonymous : E → Option P} :
    ((authorize connection event policy).bind fun audience =>
      (audience.project connection policy.revision visible anonymous).toOption) =
    if connection ≠ 0 ∧ policy.revision ≠ 0 then
      (policy.disclosure connection event).bind fun
        | .sourceVisible => visible event
        | .anonymous => anonymous event
    else none := by
  unfold authorize
  split_ifs
  · cases policy.disclosure connection event with
    | none => rfl
    | some disclosure =>
      simp only [Option.map_some, Option.bind_some, project, ne_eq, not_true_eq_false,
        or_self, if_false]
      cases disclosure
      · cases visible event <;> rfl
      · cases anonymous event <;> rfl
  · rfl

end EventAudience
end Net
