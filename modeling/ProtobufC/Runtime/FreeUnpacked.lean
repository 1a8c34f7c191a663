import ProtobufC.Runtime.Allocator
import ProtobufC.Runtime.PackedSize

/-! # `protobuf_c_message_free_unpacked`

A message is released together with everything below it, default values excepted.
-/

namespace ProtobufC
open Library
set_option autoImplicit false

variable {σ : Type}

section Walk
variable (A : Allocator σ) (sub : Addr × Message → Run σ Unit)

/-- `for (i = 0; i < n; i++) FREE (allocator, ptr (arr[i]));` -/
def freeLoop {α : Type} (ptr : α → Except Fault (Option Addr)) : List α → Run σ Unit
  | [] => pure ()
  | v :: vs => do
      let p ← require (ptr v)
      A.freePtr p
      freeLoop ptr vs

/-- `protobuf_c_message_free_unpacked (message, allocator)`, which reads `message->descriptor`. -/
def freeMessage (message : MessagePtr) : Run σ Unit :=
  match message with
  | .ref addr msg => sub (addr, msg)
  | .null => fault .null

/-- `for (i = 0; i < n; i++) protobuf_c_message_free_unpacked (arr[i], allocator);` -/
def freeMessages : List Value → Run σ Unit
  | [] => pure ()
  | v :: vs => do
      let message ← require v.loadMessage
      freeMessage sub message
      freeMessages vs

/-- The elements of a repeated field. -/
def freeElements (type : FieldType) (arr : CArray Value) : Run σ Unit :=
  match type with
  | .string => do
      let vs ← require (arr.load arr.n)
      freeLoop A (fun v => do return (← v.loadString).map Ptr.addr) vs
  | .bytes => do
      let vs ← require (arr.load arr.n)
      freeLoop A (fun v => do return (← v.loadBytes).2.map Ptr.addr) vs
  | .message => do
      let vs ← require (arr.load arr.n)
      freeMessages sub vs
  | _ => pure ()

/-- A member that is no array. -/
def freeMember (field : FieldDescriptor) (member : Value) : Run σ Unit :=
  match field.type with
  | .string => do
      let str ← require member.loadString
      let p := str.map Ptr.addr
      if p ≠ none ∧ p ≠ field.defaultPointer then A.freePtr p else pure ()
  | .bytes => do
      let (_, data) ← require member.loadBytes
      let p := data.map Ptr.addr
      if p ≠ none ∧ p ≠ field.defaultPointer then A.freePtr p else pure ()
  | .message => do
      let sm ← require member.loadMessage
      let p := (Value.message sm).pointer
      if p ≠ none ∧ p ≠ field.defaultPointer then freeMessage sub sm else pure ()
  | _ => pure ()

/-- The body of the loop over `desc->fields`. -/
def freeField (field : FieldDescriptor) (slot : Slot) : Run σ Unit :=
  match field.label, slot with
  | .repeated, .repeated arr => do
      freeElements A sub field.type arr
      A.freePtr arr.addr
  | .repeated, .singular _ _ => fault .access
  | _, .singular _ member => freeMember A sub field member
  | _, .repeated _ => fault .access

/-- The loop over `desc->fields`. -/
def freeFields : List FieldDescriptor → List Slot → Run σ Unit
  | [], _ => pure ()
  | field :: fields, slot :: slots => do
      freeField A sub field slot
      freeFields fields slots
  | _ :: _, [] => fault .access

/-- The body of `protobuf_c_message_free_unpacked`. -/
def messageFreeUnpackedLayer (S : Schema) (message : Addr × Message) : Run σ Unit := do
  freeFields A sub (S.desc message.2.descriptor).fields message.2.slots
  let unknown_fields ← require (message.2.unknown.load message.2.unknown.n)
  freeLoop A (fun u => .ok (u.data.map Ptr.addr)) unknown_fields
  A.freePtr message.2.unknown.addr
  A.freePtr (some message.1)

end Walk

/-- `protobuf_c_message_free_unpacked` -/
def messageFreeUnpacked (A : Allocator σ) (S : Schema) : Addr × Message → Run σ Unit :=
  layerRec (fun message => message.2.depth) (fun sub => messageFreeUnpackedLayer A sub S)
    (fault .access)

end ProtobufC
