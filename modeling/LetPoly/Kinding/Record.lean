import LetPoly.Kinding.Constraint
import LetPoly.Syntax.Expr

/-!
# Recording kinds

The kinds that a walk found for the empty slots are recorded one after the other, each in the slot
at the place of its node. A slot is written once: a kind for a slot that has one already is an
error, and what was recorded up to there stays.
-/

namespace LetPoly

open Slotted

/-- Change the field of the given number, counted over all constructors of a list. -/
def modifyField (f : Ty → Ty) : List Constructor → Nat → List Constructor
  | [], _ => []
  | ⟨name, fields⟩ :: constructors, n =>
    if n < fields.length then ⟨name, fields.modify n f⟩ :: constructors
    else ⟨name, fields⟩ :: modifyField f constructors (n - fields.length)

/-- Change the type of the given number in a datatype. -/
def Datatype.modifyType (f : Ty → Ty) (d : Datatype) : Nat → Datatype
  | 0 => { d with head := f d.head }
  | n + 1 => { d with constructors := modifyField f d.constructors n }

/-- The types of a datatype are the children of its root. -/
instance : Slotted Datatype where
  slotAt d place := slotAt d.types place
  putSlot d
    | [], _ => d
    | n :: place, kind => d.modifyType (putSlot · place kind) n

/-- The same node of a tree that is child `i` of a larger one. -/
def Leaf.under (i : Nat) (leaf : Leaf) : Leaf := { leaf with place := i :: leaf.place }

/-- Record the kinds of leaves, each in the slot at its place. -/
def recordLeaves {α : Type} [Slotted α] : List Leaf → α → α × Except KindError Unit
  | [], a => (a, .ok ())
  | leaf :: leaves, a =>
    match (slotAt a leaf.place).assign leaf.kind with
    | (slot, none) => recordLeaves leaves (putSlot a leaf.place slot)
    | (slot, some _) => (a, .error (.alreadyAssigned leaf.name (slot.getD .atomic)))

end LetPoly
