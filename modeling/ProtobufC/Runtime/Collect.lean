import ProtobufC.Runtime.Schema

/-! # Walking through a message

`Message.collect` lists what `leaf` says of the values of a message, in the order of the fields and
at every level below it.
-/

namespace ProtobufC
set_option autoImplicit false

section Collect
variable {α : Type} (S : Schema) (leaf : FieldDescriptor → Value → List α)
  (visits : FieldDescriptor → Int32 → Value → Bool)

mutual
/-- What `leaf` says of the values below a message, `visits` telling which members are looked at. -/
def Message.collect : Message → List α
  | .mk d slots _ => collectSlots (S.desc d).fields slots

def collectSlots : List FieldDescriptor → List Slot → List α
  | field :: fields, slot :: slots => slot.collect field ++ collectSlots fields slots
  | _, _ => []

def Slot.collect (field : FieldDescriptor) : Slot → List α
  | .singular has v => if visits field has v then v.collect field else []
  | .repeated ⟨_, _, _, vs⟩ => collectValues field vs

def collectValues (field : FieldDescriptor) : List Value → List α
  | [] => []
  | v :: vs => v.collect field ++ collectValues field vs

def Value.collect (field : FieldDescriptor) : Value → List α
  | .message (.ref _ m) => m.collect
  | v => leaf field v
end

end Collect

section
variable {α : Type} {S : Schema} {leaf : FieldDescriptor → Value → List α}
  {visits : FieldDescriptor → Int32 → Value → Bool} {field : FieldDescriptor}

theorem collectValues_eq (vs : List Value) :
    collectValues S leaf visits field vs = vs.flatMap (Value.collect S leaf visits field) := by
  induction vs with
  | nil => rfl
  | cons v vs ih => rw [collectValues, ih, List.flatMap_cons]

theorem Slot.collect_repeated (a : CArray Value) :
    (Slot.repeated a).collect S leaf visits field =
      a.elems.flatMap (Value.collect S leaf visits field) := by
  obtain ⟨n, addr, cap, vs⟩ := a
  rw [Slot.collect, collectValues_eq]

end

end ProtobufC
