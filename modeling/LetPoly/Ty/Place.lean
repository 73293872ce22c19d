import LetPoly.Ty.Basic

/-!
# Kind slots by place

A kind slot is found again by the place of its node: the way from the root of the tree, which says
at each node which child to go to. `slotAt` reads the slot at a place and `putSlot` replaces it, in
a type, in a list of types and in what else has types in it.
-/

namespace LetPoly

/-- The way from the root of a tree to one of its nodes. -/
abbrev Place := List Nat

/-- Data with kind slots. -/
class Slotted (α : Type) where
  /-- The slot at a place, empty if there is none. -/
  slotAt : α → Place → KindSlot
  /-- Put a slot in the place of the one there, if there is one. -/
  putSlot : α → Place → KindSlot → α

open Slotted

namespace Ty

/-- The child of a node: the head of an application is number 0 and its arguments follow. -/
def child? : Ty → Nat → Option Ty
  | .app head _, 0 => some head
  | .app _ args, i + 1 => args[i]?
  | .scheme _ body, 0 => some body
  | _, _ => none

/-- Change a child of a node. -/
def modifyChild (f : Ty → Ty) : Ty → Nat → Ty
  | .app head args, 0 => .app (f head) args
  | .app head args, i + 1 => .app head (args.modify i f)
  | .scheme vars body, 0 => .scheme vars (f body)
  | t, _ => t

/-- Replace the kind slot of a constructor or variable. -/
def withSlot : Ty → KindSlot → Ty
  | .con name _, kind => .con name kind
  | .var name sort _, kind => .var name sort kind
  | t, _ => t

/-- The slot at a place of a type. -/
def slotBelow : Ty → Place → KindSlot
  | t, [] => t.slot
  | t, i :: place => (t.child? i).bind (·.slotBelow place)

/-- Replace the slot at a place of a type. -/
def putSlotBelow : Ty → Place → KindSlot → Ty
  | t, [], kind => t.withSlot kind
  | t, i :: place, kind => t.modifyChild (·.putSlotBelow place kind) i

instance : Slotted Ty := ⟨slotBelow, putSlotBelow⟩

end Ty

/-- In a list, the elements are the children of the root. -/
instance {α : Type} [Slotted α] : Slotted (List α) where
  slotAt as
    | [] => none
    | i :: place => as[i]?.bind (slotAt · place)
  putSlot as
    | [], _ => as
    | i :: place, kind => as.modify i (putSlot · place kind)

end LetPoly
