import ProtobufC.Runtime.Message

/-! # Messages up to the addresses of their blocks

Two runs of the decoder allocate different blocks for the same message.  `erase` gives every block
the number 0 and cuts the blocks of arrays to the elements in them, and keeps everything else: the
values, the counts, which pointers are NULL and which are default values.
-/

namespace ProtobufC
set_option autoImplicit false

def Addr.erase : Addr → Addr
  | .static k => .static k
  | .block _ => .block 0

def Ptr.erase {α : Type} (p : Ptr α) : Ptr α := ⟨p.addr.erase, p.val⟩

def MessageUnknownField.erase (u : MessageUnknownField) : MessageUnknownField :=
  { u with data := u.data.map Ptr.erase }

/-- The array with its block renamed and cut, and `f` applied to its elements. -/
def CArray.erase {α : Type} (f : α → α) (a : CArray α) : CArray α :=
  ⟨a.n, a.addr.map Addr.erase, a.elems.length, a.elems.map f⟩

mutual
def MessagePtr.erase : MessagePtr → MessagePtr
  | .null => .null
  | .ref a m => .ref a.erase m.erase

def Message.erase : Message → Message
  | .mk d slots u => .mk d (eraseSlots slots) (u.erase MessageUnknownField.erase)

def eraseSlots : List Slot → List Slot
  | [] => []
  | s :: ss => s.erase :: eraseSlots ss

def Slot.erase : Slot → Slot
  | .singular has v => .singular has v.erase
  | .repeated ⟨n, addr, _, vs⟩ => .repeated ⟨n, addr.map Addr.erase, vs.length, eraseValues vs⟩

def eraseValues : List Value → List Value
  | [] => []
  | v :: vs => v.erase :: eraseValues vs

def Value.erase : Value → Value
  | .word32 v => .word32 v
  | .word64 v => .word64 v
  | .boolean v => .boolean v
  | .string p => .string (p.map Ptr.erase)
  | .bytes len p => .bytes len (p.map Ptr.erase)
  | .message p => .message p.erase
end

@[simp] theorem eraseSlots_eq (ss : List Slot) : eraseSlots ss = ss.map Slot.erase := by
  induction ss with
  | nil => rfl
  | cons s ss ih => rw [eraseSlots, ih, List.map_cons]

@[simp] theorem eraseValues_eq (vs : List Value) : eraseValues vs = vs.map Value.erase := by
  induction vs with
  | nil => rfl
  | cons v vs ih => rw [eraseValues, ih, List.map_cons]

@[simp] theorem Message.erase_mk (d : DescriptorId) (ss : List Slot)
    (u : CArray MessageUnknownField) :
    (Message.mk d ss u).erase = .mk d (ss.map Slot.erase) (u.erase MessageUnknownField.erase) := by
  rw [Message.erase, eraseSlots_eq]

@[simp] theorem Slot.erase_singular (has : Int32) (v : Value) :
    (Slot.singular has v).erase = .singular has v.erase := rfl

@[simp] theorem Slot.erase_repeated (a : CArray Value) :
    (Slot.repeated a).erase = .repeated (a.erase Value.erase) := by
  obtain ⟨n, addr, cap, vs⟩ := a
  rw [Slot.erase, eraseValues_eq, CArray.erase]

@[simp] theorem MessagePtr.erase_null : MessagePtr.null.erase = .null := rfl

@[simp] theorem MessagePtr.erase_ref (a : Addr) (m : Message) :
    (MessagePtr.ref a m).erase = .ref a.erase m.erase := rfl

@[simp] theorem Value.erase_word32 (v : UInt32) : (Value.word32 v).erase = .word32 v := rfl

@[simp] theorem Value.erase_word64 (v : UInt64) : (Value.word64 v).erase = .word64 v := rfl

@[simp] theorem Value.erase_boolean (v : Int32) : (Value.boolean v).erase = .boolean v := rfl

@[simp] theorem Value.erase_string (p : Option (Ptr (List UInt8))) :
    (Value.string p).erase = .string (p.map Ptr.erase) := rfl

@[simp] theorem Value.erase_bytes (len : ℕ) (p : Option (Ptr (List UInt8))) :
    (Value.bytes len p).erase = .bytes len (p.map Ptr.erase) := rfl

@[simp] theorem Value.erase_message (p : MessagePtr) :
    (Value.message p).erase = .message p.erase := rfl

@[simp] theorem Addr.erase_static (k : ℕ) : (Addr.static k).erase = .static k := rfl
@[simp] theorem Addr.erase_block (b : ℕ) : (Addr.block b).erase = .block 0 := rfl

theorem Addr.erase_eq_static {a : Addr} {k : ℕ} : a.erase = .static k ↔ a = .static k := by
  cases a <;> simp [Addr.erase]

end ProtobufC
