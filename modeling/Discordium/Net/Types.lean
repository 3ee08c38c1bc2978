import Discordium.Lib.Maps
import Discordium.Lib.Words

/-!
# Net — Types

The portable protocol identities of the networking crate.  Every counter newtype of `types.rs`
(`ServerTick`, `TargetTick`, `CommandSeq`, `SnapshotId`, the epochs and revisions) is a natural
number here, and the field that holds it keeps its name; `checkedNext` and the saturating sums carry
the width where the code's own arithmetic depends on it.
-/

namespace Net
open Lib

/-- `checked_next` of a 64-bit identity. -/
def checkedNext (n : ℕ) : Option ℕ := checkedAdd 64 n 1

theorem checkedNext_eq_some {n m : ℕ} : checkedNext n = some m ↔ m = n + 1 ∧ n + 1 ≤ wordMax 64 :=
  checkedAdd_eq_some

/-- Stable simulation identity, independent of an ECS slot or a connection scope. -/
@[ext] structure EntityId where
  index : ℕ
  generation : ℕ
  deriving DecidableEq

namespace EntityId

/-- The fields in the order they are compared in. -/
def path (entity : EntityId) : List ℕ := [entity.index, entity.generation]

theorem path_injective : Function.Injective path := by
  rintro ⟨⟩ ⟨⟩ h
  simpa [path] using h

instance : Ord EntityId := ⟨compareOn path⟩

instance : Std.TransOrd EntityId := inferInstanceAs (Std.TransCmp (compareOn path))

instance : Std.LawfulEqOrd EntityId := lawfulEqCmp_compareOn path_injective

end EntityId

/-- Stable action identity, which survives redundant delivery and replay. -/
structure ActionKey where
  connection : ℕ
  stream : ℕ
  command : ℕ
  slot : ℕ
  deriving DecidableEq

namespace ActionKey

/-- The fields in the order they are compared in. -/
def path (key : ActionKey) : List ℕ := [key.connection, key.stream, key.command, key.slot]

theorem path_injective : Function.Injective path := by
  rintro ⟨⟩ ⟨⟩ h
  simpa [path] using h

instance : Ord ActionKey := ⟨compareOn path⟩

instance : Std.TransOrd ActionKey := inferInstanceAs (Std.TransCmp (compareOn path))

instance : Std.LawfulEqOrd ActionKey := lawfulEqCmp_compareOn path_injective

end ActionKey

/-- A vector that cannot exceed its count bound. -/
abbrev BoundedVec (α : Type) (n : ℕ) := { items : List α // items.length ≤ n }

/-- The empty bounded vector, `BoundedVec::default()`. -/
def BoundedVec.empty {α : Type} {n : ℕ} : BoundedVec α n := ⟨[], Nat.zero_le n⟩

/-- `push`: nothing when the vector is full. -/
def BoundedVec.push {α : Type} {n : ℕ} (items : BoundedVec α n) (value : α) :
    Option (BoundedVec α n) :=
  if h : items.1.length = n then none
  else some ⟨items.1 ++ [value], by
    have := items.2
    rw [List.length_append, List.length_singleton]
    omega⟩

theorem BoundedVec.push_of_lt {α : Type} {n : ℕ} {items : BoundedVec α n} (value : α)
    (h : items.1.length < n) :
    ∃ items', items.push value = some items' ∧ items'.1 = items.1 ++ [value] :=
  ⟨_, dif_neg h.ne, rfl⟩

end Net
