import ProtobufC.Runtime.FreeUnpacked

/-! # What a message owns

`Message.blocks` is the multiset of blocks reachable from a message through pointers to blocks;
what a static pointer refers to belongs to somebody else.  `Message.Owned` is the shape in which
`protobuf_c_message_free_unpacked` releases exactly these blocks, each once.
-/

namespace ProtobufC
open Library
set_option autoImplicit false

/-! ## Blocks -/

/-- The blocks of `unknown_fields`. -/
def unknownBlocks (u : CArray MessageUnknownField) : Multiset ℕ :=
  blockOf u.addr + (u.elems.map fun e => blockOf (e.data.map Ptr.addr)).sum

mutual
def MessagePtr.blocks : MessagePtr → Multiset ℕ
  | .null => 0
  | .ref (.static _) _ => 0
  | .ref (.block b) m => {b} + m.blocks

/-- The blocks below a message, its own block excepted. -/
def Message.blocks : Message → Multiset ℕ
  | .mk _ slots u => blocksSlots slots + unknownBlocks u

def blocksSlots : List Slot → Multiset ℕ
  | [] => 0
  | s :: ss => s.blocks + blocksSlots ss

def Slot.blocks : Slot → Multiset ℕ
  | .singular _ v => v.blocks
  | .repeated ⟨_, addr, _, vs⟩ => blocksValues vs + blockOf addr

def blocksValues : List Value → Multiset ℕ
  | [] => 0
  | v :: vs => v.blocks + blocksValues vs

def Value.blocks : Value → Multiset ℕ
  | .word32 _ => 0
  | .word64 _ => 0
  | .boolean _ => 0
  | .string p => blockOf (p.map Ptr.addr)
  | .bytes _ p => blockOf (p.map Ptr.addr)
  | .message p => p.blocks
end

@[simp] theorem blocksSlots_eq (ss : List Slot) : blocksSlots ss = (ss.map Slot.blocks).sum := by
  induction ss with
  | nil => rfl
  | cons s ss ih => rw [blocksSlots, ih, List.map_cons, List.sum_cons]

@[simp] theorem blocksValues_eq (vs : List Value) :
    blocksValues vs = (vs.map Value.blocks).sum := by
  induction vs with
  | nil => rfl
  | cons v vs ih => rw [blocksValues, ih, List.map_cons, List.sum_cons]

theorem Message.blocks_eq (m : Message) :
    m.blocks = (m.slots.map Slot.blocks).sum + unknownBlocks m.unknown := by
  obtain ⟨d, ss, u⟩ := m
  rw [Message.blocks, blocksSlots_eq, slots_mk, unknown_mk]

@[simp] theorem Slot.blocks_singular (has : Int32) (v : Value) :
    (Slot.singular has v).blocks = v.blocks := rfl

@[simp] theorem Slot.blocks_repeated (a : CArray Value) :
    (Slot.repeated a).blocks = (a.elems.map Value.blocks).sum + blockOf a.addr := by
  obtain ⟨n, addr, cap, vs⟩ := a
  rw [Slot.blocks, blocksValues_eq]

@[simp] theorem Value.blocks_word32 (v : UInt32) : (Value.word32 v).blocks = 0 := rfl

@[simp] theorem Value.blocks_word64 (v : UInt64) : (Value.word64 v).blocks = 0 := rfl

@[simp] theorem Value.blocks_boolean (v : Int32) : (Value.boolean v).blocks = 0 := rfl

@[simp] theorem Value.blocks_string (p : Option (Ptr (List UInt8))) :
    (Value.string p).blocks = blockOf (p.map Ptr.addr) := rfl

@[simp] theorem Value.blocks_bytes (len : ℕ) (p : Option (Ptr (List UInt8))) :
    (Value.bytes len p).blocks = blockOf (p.map Ptr.addr) := rfl

@[simp] theorem Value.blocks_message (p : MessagePtr) : (Value.message p).blocks = p.blocks := rfl

@[simp] theorem MessagePtr.blocks_null : MessagePtr.null.blocks = 0 := rfl

@[simp] theorem MessagePtr.blocks_static (k : ℕ) (m : Message) :
    (MessagePtr.ref (.static k) m).blocks = 0 := rfl

@[simp] theorem MessagePtr.blocks_block (b : ℕ) (m : Message) :
    (MessagePtr.ref (.block b) m).blocks = {b} + m.blocks := rfl

theorem Value.blocks_eq_zero {v : Value} (h : ∀ a, v.pointer = some a → ∃ k, a = .static k) :
    v.blocks = 0 := by
  match v, h with
  | .word32 _, _ | .word64 _, _ | .boolean _, _ | .string none, _ | .bytes _ none, _
  | .message .null, _ => simp
  | .string (some p), h | .bytes _ (some p), h =>
    obtain ⟨k, hk⟩ := h p.addr rfl
    simp [hk]
  | .message (.ref a m), h =>
    obtain ⟨k, rfl⟩ := h a rfl
    simp

/-! ## Owned messages -/

/-- The messages that the value owns. -/
def Value.ownedChildren : Value → List Message
  | .message (.ref (.block _) m) => [m]
  | _ => []

def Slot.ownedChildren : Slot → List Message
  | .singular _ v => v.ownedChildren
  | .repeated a => a.elems.flatMap Value.ownedChildren

def Message.ownedChildren (m : Message) : List Message := m.slots.flatMap Slot.ownedChildren

theorem Value.ownedChildren_eq_nil {v : Value} (h : ∀ a, v.pointer = some a → ∃ k, a = .static k) :
    v.ownedChildren = [] := by
  cases v with
  | message p =>
    cases p with
    | null => rfl
    | ref a m =>
      obtain ⟨k, rfl⟩ := h a rfl
      rfl
  | _ => rfl

theorem Value.ownedChildren_subset (v : Value) : ∀ c ∈ v.ownedChildren, c ∈ v.children := by
  intro c hc
  match v, hc with
  | .message (.ref (.block b) m), hc => exact hc

theorem Message.ownedChildren_subset (m : Message) : ∀ c ∈ m.ownedChildren, c ∈ m.children := by
  intro c hc
  obtain ⟨s, hs, hc⟩ := List.mem_flatMap.mp hc
  refine List.mem_flatMap.mpr ⟨s, hs, ?_⟩
  cases s with
  | singular has v => exact v.ownedChildren_subset c hc
  | repeated a =>
    obtain ⟨v, hv, hc⟩ := List.mem_flatMap.mp hc
    exact List.mem_flatMap.mpr ⟨v, hv, v.ownedChildren_subset c hc⟩

/-- The pointer is NULL or a block. -/
def IsBlock (p : Option Addr) : Prop := ∀ a, p = some a → ∃ b, a = .block b

theorem isBlock_none : IsBlock none := by simp [IsBlock]

theorem isBlock_block (b : ℕ) : IsBlock (some (.block b)) := by simp [IsBlock]

/-- The value has the field's type, and its pointer is NULL, the default pointer or a block. -/
def Value.Held (type : FieldType) (default : Option Addr) (v : Value) : Prop :=
  Value.HasType type v ∧ ∀ a, v.pointer = some a → some a = default ∨ ∃ b, a = .block b

/-- The member of the field can be released. -/
def SlotOwned (field : FieldDescriptor) : Slot → Prop
  | .singular _ v => field.label ≠ .repeated ∧ v.Held field.type field.defaultPointer
  | .repeated a => field.label = .repeated ∧ a.n = a.elems.length ∧ IsBlock a.addr ∧
      ∀ v ∈ a.elems, v.Held field.type none ∧ v ≠ .message .null

/-- The unknown fields can be released. -/
def UnknownOwned (u : CArray MessageUnknownField) : Prop :=
  u.n = u.elems.length ∧ IsBlock u.addr ∧ ∀ e ∈ u.elems, IsBlock (e.data.map Ptr.addr)

/-- The message can be released, at every level. -/
inductive Message.Owned (S : Schema) : Message → Prop
  | intro (m : Message) (slots : List.Forall₂ SlotOwned (S.desc m.descriptor).fields m.slots)
      (unknown : UnknownOwned m.unknown)
      (children : ∀ c ∈ m.ownedChildren, Message.Owned S c) : Message.Owned S m

theorem FieldDescriptor.Generated.defaultPointer_static {field : FieldDescriptor}
    (h : field.Generated) {a : Addr} (ha : field.defaultPointer = some a) : ∃ k, a = .static k := by
  unfold FieldDescriptor.defaultPointer at ha
  cases hv : field.defaultValue with
  | none => simp [hv] at ha
  | some v =>
    rw [hv, Option.bind_some] at ha
    exact (h.default v hv).2.1.2 a ha

/-! ## Releasing -/

variable {σ : Type}

/-- `x` releases the blocks `bs` and does nothing else to the heap. -/
def Frees (H : HeapAllocator σ) (x : Run σ Unit) (bs : Multiset ℕ) : Prop :=
  ∀ s L, H.live s = bs + L →
    Meets NoFault x s fun _ s' => H.live s' = L ∧ H.failures s' = H.failures s

section Rules
variable {H : HeapAllocator σ}

theorem frees_pure : Frees H (pure ()) 0 := by
  intro s L hlive
  rw [Multiset.zero_add] at hlive
  exact ⟨hlive, rfl⟩

theorem Frees.bind {x y : Run σ Unit} {b₁ b₂ : Multiset ℕ} (hx : Frees H x b₁)
    (hy : Frees H y b₂) : Frees H (do x; y) (b₁ + b₂) := by
  intro s L hlive
  rw [Multiset.add_assoc] at hlive
  refine (hx s _ hlive).bind ?_
  rintro - s' ⟨hlive', hfail⟩
  refine (hy s' L hlive').imp ?_
  rintro - s'' ⟨hlive'', hfail'⟩
  exact ⟨hlive'', hfail'.trans hfail⟩

theorem frees_freePtr {p : Option Addr} (hp : IsBlock p) : Frees H (H.freePtr p) (blockOf p) := by
  intro s L hlive
  refine meets_freePtr H ?_ hlive
  rintro k rfl
  obtain ⟨b, hb⟩ := hp _ rfl
  exact absurd hb (by simp)

theorem frees_freeLoop {α : Type} {ptr : α → Except Fault (Option Addr)} {p : α → Option Addr}
    {vs : List α} (hptr : ∀ v ∈ vs, ptr v = .ok (p v)) (hblock : ∀ v ∈ vs, IsBlock (p v)) :
    Frees H (freeLoop H.toAllocator ptr vs) (vs.map fun v => blockOf (p v)).sum := by
  induction vs with
  | nil => exact frees_pure
  | cons v vs ih =>
    rw [freeLoop, hptr v (by simp), require_ok, pure_bind, List.map_cons, List.sum_cons]
    exact (frees_freePtr (hblock v (by simp))).bind
      (ih (fun w hw => hptr w (by simp [hw])) fun w hw => hblock w (by simp [hw]))

end Rules

section Walk
variable {H : HeapAllocator σ} {S : Schema} {field : FieldDescriptor}
  {sub : Addr × Message → Run σ Unit}

/-- What the walk assumes of its calls on sub-messages. -/
def FreesChildren (H : HeapAllocator σ) (sub : Addr × Message → Run σ Unit) (cs : List Message) :
    Prop :=
  ∀ c ∈ cs, ∀ b, Frees H (sub (.block b, c)) ({b} + c.blocks)

theorem frees_freeMessages {vs : List Value}
    (hvs : ∀ v ∈ vs, v.Held .message none ∧ v ≠ .message .null)
    (hsub : ∀ v ∈ vs, FreesChildren H sub v.ownedChildren) :
    Frees H (freeMessages sub vs) (vs.map Value.blocks).sum := by
  induction vs with
  | nil => exact frees_pure
  | cons v vs ih =>
    have htail := ih (fun w hw => hvs w (by simp [hw])) fun w hw => hsub w (by simp [hw])
    obtain ⟨⟨htype, hptr⟩, hnull⟩ := hvs v (by simp)
    have hv := hsub v (by simp)
    match v, htype with
    | .message .null, _ => exact absurd rfl hnull
    | .message (.ref a m), _ =>
      obtain ⟨b, rfl⟩ : ∃ b, a = .block b := by simpa using hptr a rfl
      rw [freeMessages, List.map_cons, List.sum_cons]
      simp only [Value.loadMessage, require_ok, pure_bind, freeMessage, Value.blocks_message,
        MessagePtr.blocks_block]
      exact (hv m (by simp [Value.ownedChildren]) b).bind htail

theorem Value.blocks_of_packable {type : FieldType} {v : Value} (hp : isPackableType type = true)
    (hv : Value.HasType type v) : v.blocks = 0 := by
  cases type <;> cases v <;> first
    | exact False.elim hv
    | exact absurd hp (by decide)
    | simp

theorem frees_freeElements {a : CArray Value} (hn : a.n = a.elems.length)
    (hvs : ∀ v ∈ a.elems, v.Held field.type none ∧ v ≠ .message .null)
    (hsub : ∀ v ∈ a.elems, FreesChildren H sub v.ownedChildren) :
    Frees H (freeElements H.toAllocator sub field.type a) (a.elems.map Value.blocks).sum := by
  have hload := CArray.load_self hn
  generalize field.type = type at hvs ⊢
  by_cases hp : isPackableType type = true
  · have hzero : (a.elems.map Value.blocks).sum = 0 := by
      refine List.sum_eq_zero fun b hb => ?_
      obtain ⟨v, hv, rfl⟩ := List.mem_map.mp hb
      exact Value.blocks_of_packable hp (hvs v hv).1.1
    rw [hzero]
    cases type <;> first
      | exact absurd hp (by decide)
      | exact frees_pure
  · -- strings, byte arrays and messages
    have hblock : ∀ v ∈ a.elems, IsBlock v.pointer := fun v hv x hx => by
      simpa using (hvs v hv).1.2 x hx
    cases type <;> first
      | exact absurd rfl hp
      | skip
    case string =>
      have hpt : ∀ v ∈ a.elems, (do return (← v.loadString).map Ptr.addr : Except Fault _) =
          .ok v.pointer ∧ v.blocks = blockOf v.pointer := by
        intro v hv
        match v, (hvs v hv).1.1 with
        | .string none, _ => exact ⟨rfl, by simp [Value.pointer]⟩
        | .string (some p), _ => exact ⟨rfl, by simp [Value.pointer]⟩
      rw [List.map_congr_left fun v hv => (hpt v hv).2]
      simp only [freeElements, hload, require_ok, pure_bind]
      exact frees_freeLoop (fun v hv => (hpt v hv).1) hblock
    case bytes =>
      have hpt : ∀ v ∈ a.elems, (do return (← v.loadBytes).2.map Ptr.addr : Except Fault _) =
          .ok v.pointer ∧ v.blocks = blockOf v.pointer := by
        intro v hv
        match v, (hvs v hv).1.1 with
        | .bytes _ none, _ => exact ⟨rfl, by simp [Value.pointer]⟩
        | .bytes _ (some p), _ => exact ⟨rfl, by simp [Value.pointer]⟩
      rw [List.map_congr_left fun v hv => (hpt v hv).2]
      simp only [freeElements, hload, require_ok, pure_bind]
      exact frees_freeLoop (fun v hv => (hpt v hv).1) hblock
    case message =>
      simp only [freeElements, hload, require_ok, pure_bind]
      exact frees_freeMessages hvs hsub

theorem frees_freeMember (hg : field.Generated) {v : Value}
    (hv : v.Held field.type field.defaultPointer) (hsub : FreesChildren H sub v.ownedChildren) :
    Frees H (freeMember H.toAllocator sub field v) v.blocks := by
  have hdefault : v.pointer = field.defaultPointer → v.blocks = 0 := fun he =>
    Value.blocks_eq_zero fun a ha => hg.defaultPointer_static (he ▸ ha)
  have hblock : v.pointer ≠ field.defaultPointer → IsBlock v.pointer := by
    intro hne a ha
    exact (hv.2 a ha).resolve_left fun he => hne (ha.trans he)
  have hguard : ∀ x : Run σ Unit, (v.pointer ≠ none → v.pointer ≠ field.defaultPointer →
      Frees H x v.blocks) → (v.pointer = none → v.blocks = 0) →
      Frees H (if v.pointer ≠ none ∧ v.pointer ≠ field.defaultPointer then x else pure ())
        v.blocks := by
    intro x hx hnone
    by_cases hc : v.pointer ≠ none ∧ v.pointer ≠ field.defaultPointer
    · rw [if_pos hc]
      exact hx hc.1 hc.2
    · have hzero : v.blocks = 0 := by
        by_cases hn : v.pointer = none
        · exact hnone hn
        · exact hdefault (by_contra fun hd => hc ⟨hn, hd⟩)
      rw [if_neg hc, hzero]
      exact frees_pure
  have htype := hv.1
  clear hdefault
  unfold freeMember
  generalize field.type = type at htype
  cases type <;> cases v <;> first
    | exact False.elim htype
    | (simp only [Value.blocks_word32, Value.blocks_word64, Value.blocks_boolean]; exact frees_pure)
    | skip
  case string.string p =>
    have hp : p.map Ptr.addr = (Value.string p).pointer := by cases p <;> rfl
    simp only [Value.loadString, require_ok, pure_bind, hp]
    refine hguard _ (fun _ hne => ?_) fun hn => by rw [Value.blocks_string, hp, hn, blockOf_none]
    rw [Value.blocks_string, hp]
    exact frees_freePtr (hblock hne)
  case bytes.bytes len p =>
    have hp : p.map Ptr.addr = (Value.bytes len p).pointer := by cases p <;> rfl
    simp only [Value.loadBytes, require_ok, pure_bind, hp]
    refine hguard _ (fun _ hne => ?_) fun hn => by rw [Value.blocks_bytes, hp, hn, blockOf_none]
    rw [Value.blocks_bytes, hp]
    exact frees_freePtr (hblock hne)
  case message.message p =>
    simp only [Value.loadMessage, require_ok, pure_bind]
    cases p with
    | null => exact hguard _ (fun hn => absurd rfl hn) fun _ => by simp
    | ref a m =>
      refine hguard _ (fun _ hne => ?_) fun hn => by simp [Value.pointer] at hn
      obtain ⟨b, rfl⟩ := hblock hne a rfl
      rw [Value.blocks_message, MessagePtr.blocks_block]
      exact hsub m (by simp [Value.ownedChildren]) b

theorem frees_freeField (hg : field.Generated) {s : Slot} (hs : SlotOwned field s)
    (hsub : FreesChildren H sub s.ownedChildren) :
    Frees H (freeField H.toAllocator sub field s) s.blocks := by
  cases s with
  | singular has v =>
    obtain ⟨hlabel, hv⟩ := hs
    have hmember := frees_freeMember hg hv hsub
    rw [Slot.blocks_singular]
    unfold freeField
    cases hl : field.label with
    | repeated => exact absurd hl hlabel
    | required => exact hmember
    | optional => exact hmember
  | repeated a =>
    obtain ⟨hlabel, hn, haddr, hvs⟩ := hs
    rw [Slot.blocks_repeated]
    simp only [freeField, hlabel]
    exact (frees_freeElements hn hvs fun v hv c hc =>
      hsub c (List.mem_flatMap.mpr ⟨v, hv, hc⟩)).bind (frees_freePtr haddr)

theorem frees_freeFields {fields : List FieldDescriptor} {slots : List Slot}
    (hg : ∀ f ∈ fields, f.Generated) (hs : List.Forall₂ SlotOwned fields slots)
    (hsub : ∀ s ∈ slots, FreesChildren H sub s.ownedChildren) :
    Frees H (freeFields H.toAllocator sub fields slots) (slots.map Slot.blocks).sum := by
  induction hs with
  | nil => exact frees_pure
  | @cons f s fields slots hfs _ ih =>
    rw [freeFields, List.map_cons, List.sum_cons]
    exact (frees_freeField (hg f (by simp)) hfs (hsub s (by simp))).bind
      (ih (fun f' hf' => hg f' (by simp [hf'])) fun s' hs' => hsub s' (by simp [hs']))

/-- `protobuf_c_message_free_unpacked` releases the block of the message and the blocks below. -/
theorem frees_messageFreeUnpacked {m : Message} (hm : m.Owned S) (b : ℕ) :
    Frees H (messageFreeUnpacked H.toAllocator S (.block b, m)) ({b} + m.blocks) := by
  refine layerRec_spec (P := fun (am : Addr × Message) (r : Run σ Unit) => ∀ b, am.1 = .block b →
    am.2.Owned S → Frees H r ({b} + am.2.blocks)) ?_ (.block b, m) b rfl hm
  rintro ⟨a, m⟩ sub hsub b rfl hm
  obtain ⟨_, hslots, ⟨hn, haddr, hdata⟩, hchildren⟩ := hm
  have hchild : ∀ s ∈ m.slots, FreesChildren H sub s.ownedChildren := by
    intro s hs c hc b'
    have hmem : c ∈ m.ownedChildren := List.mem_flatMap.mpr ⟨s, hs, hc⟩
    exact hsub (.block b', c) (m.depth_children c (m.ownedChildren_subset c hmem)) b' rfl
      (hchildren c hmem)
  have hload : m.unknown.load m.unknown.n = .ok m.unknown.elems := CArray.load_self hn
  have hfields := frees_freeFields (S.generated m.descriptor).field hslots hchild
  have hunknown := frees_freeLoop (H := H) (fun v _ => rfl) hdata
  have hall := hfields.bind (hunknown.bind ((frees_freePtr haddr).bind
    (frees_freePtr (isBlock_block b))))
  rw [messageFreeUnpackedLayer, hload, require_ok]
  simp only [pure_bind]
  rw [Message.blocks_eq, unknownBlocks]
  convert hall using 1
  rw [blockOf_block]
  abel

end Walk

end ProtobufC
