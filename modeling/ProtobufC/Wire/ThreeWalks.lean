import ProtobufC.Wire.BufferWalk
import ProtobufC.Wire.PackWalk
import ProtobufC.Wire.SizeWalk

/-! # The three serialisation walks agree

`protobuf_c_message_get_packed_size`, `protobuf_c_message_pack` and
`protobuf_c_message_pack_to_buffer` all compute `Message.encode`: its length, its bytes in an array
of exactly that length, and its bytes behind what a buffer holds already.
-/

namespace ProtobufC
open Library
set_option autoImplicit false

theorem BufferSimple.init_inv {alloced : ℕ} (h : 0 < alloced) : (BufferSimple.init alloced).Inv :=
  ⟨h, Nat.zero_le _, by simp [BufferSimple.init]⟩

/-- A buffer that keeps the appended chunks apart. -/
def chunkAppend {η : Type} : Append (List (List UInt8)) η := fun len data =>
  if len ≤ data.length then modify fun (chunks, h) => (chunks ++ [data.take len], h)
  else fault .access

def chunkTarget {η : Type} (H : HeapAllocator η) : Target H chunkAppend where
  content := List.flatten
  owned _ := 0
  inv _ := True
  append_meets := by
    intro chunks h L len data _ hlive hlen
    rw [chunkAppend, if_pos hlen, meets_modify]
    exact ⟨by simp, trivial, hlive⟩

theorem splice_all {buf bs : List UInt8} (h : buf.length = bs.length) : splice buf 0 bs = bs := by
  rw [splice, Nat.zero_add, List.drop_of_length_le (by omega)]
  simp

/-- The size that the first walk returns is the one the other two return, the number of bytes that
the second leaves in an array of that size and that the third appends in chunks, and they are the
same bytes. -/
theorem messagePack_agrees {η : Type} (S : Schema) (H : HeapAllocator η) (hinf : H.Infallible)
    {m : Message} (hm : m.Packable S) :
    ∃ size, messageGetPackedSize S m = .ok size ∧ (size < 2 ^ 32 →
      ∃ bytes : List UInt8, bytes.length = size ∧
        (∀ out : List UInt8, out.length = size → messagePack S m 0 out = .ok (size, bytes)) ∧
        (∀ h, ∃ chunks h', messagePackToBuffer H.toAllocator chunkAppend S m ([], h) =
          .ok (size, (chunks, h')) ∧ chunks.flatten = bytes) ∧
        (∀ alloced h, 0 < alloced → ∃ b h',
          messagePackToBuffer H.toAllocator (bufferSimpleAppend H.toAllocator) S m
            (BufferSimple.init alloced, h) = .ok (size, (b, h')) ∧ b.data = bytes) ∧
        ∀ {β : Type} {append : Append β η} (T : Target H append),
          T.Appends (messagePackToBuffer H.toAllocator append S m) bytes) := by
  refine ⟨_, messageGetPackedSize_eq hm, fun hlt => ?_⟩
  have happends : ∀ {β : Type} {append : Append β η} (T : Target H append),
      T.Appends (messagePackToBuffer H.toAllocator append S m) (m.encode S) := fun T =>
    T.appends_messagePackToBuffer hinf hm hlt
  refine ⟨m.encode S, rfl, ?_, ?_, ?_, happends⟩
  · intro out hout
    have h := emits_messagePack hm hlt 0 out (by omega)
    rwa [splice_all hout] at h
  · intro h
    have hrun := happends (chunkTarget H) [] h (H.live h) trivial (by simp [chunkTarget])
    obtain ⟨n, ⟨chunks, h'⟩, hx, rfl, hc, -, -⟩ := hrun.total fun _ => id
    exact ⟨chunks, h', hx, by simpa [chunkTarget] using hc⟩
  · intro alloced h halloced
    have hrun := happends (simpleTarget hinf) (BufferSimple.init alloced) h (H.live h)
      (BufferSimple.init_inv halloced) (by simp [simpleTarget, BufferSimple.owned, BufferSimple.init])
    obtain ⟨n, ⟨b, h'⟩, hx, rfl, hc, -, -⟩ := hrun.total fun _ => id
    exact ⟨b, h', hx, by simpa [simpleTarget, BufferSimple.init] using hc⟩

/-- A message without sub-messages. -/
def leafMessage : Message := .mk 0 [.singular 0 (.bytes 0 none), .repeated .null] .null

/-- A message with a sub-message and an unknown field. -/
def treeMessage : Message :=
  .mk 0 [.singular 0 (.bytes 1 (some ⟨.static 0, [7, 8]⟩)),
    .repeated ⟨1, some (.static 1), 1, [.message (.ref (.static 2) leafMessage)]⟩]
    ⟨1, some (.static 3), 1, [⟨9, .varint, 2, some ⟨.static 4, [0x80, 1]⟩⟩]⟩

theorem treeMessage_packable : treeMessage.Packable nestedSchema := by
  have hleaf : leafMessage.Packable nestedSchema :=
    .intro _ (.cons ⟨by decide, trivial, fun _ => Nat.zero_le _⟩
      (.cons ⟨rfl, rfl, fun _ hv => absurd hv List.not_mem_nil⟩ .nil)) rfl
      (fun _ hu => absurd hu List.not_mem_nil) fun _ hc => absurd hc List.not_mem_nil
  refine .intro _ (.cons ⟨by decide, trivial, fun _ => Nat.le_succ 1⟩ (.cons ⟨rfl, rfl, ?_⟩ .nil)) rfl ?_ ?_
  · intro v hv
    rw [List.mem_singleton.mp hv]
    exact ⟨trivial, trivial, by simp [Value.NonNull]⟩
  · intro u hu
    rw [List.mem_singleton.mp hu]
    decide
  · intro c hc
    rw [List.mem_singleton.mp (show c ∈ [leafMessage] from hc)]
    exact hleaf

/-- `messagePack_agrees` on a message with a sub-message and an unknown field. -/
theorem messagePack_agrees_tree : messageGetPackedSize nestedSchema treeMessage = .ok 10 ∧
    ∃ bytes : List UInt8, bytes.length = 10 ∧ (∀ out : List UInt8, out.length = 10 →
      messagePack nestedSchema treeMessage 0 out = .ok (10, bytes)) ∧
      ∃ chunks h, messagePackToBuffer countingHeap.toAllocator chunkAppend nestedSchema treeMessage
        ([], (0, [])) = .ok (10, (chunks, h)) ∧ chunks.flatten = bytes := by
  have hsize : messageGetPackedSize nestedSchema treeMessage = .ok 10 := by rfl
  obtain ⟨size, hsize', h⟩ :=
    messagePack_agrees nestedSchema countingHeap countingHeap_infallible treeMessage_packable
  rw [hsize, Except.ok.injEq] at hsize'
  subst hsize'
  obtain ⟨bytes, hlen, hpack, happend, -⟩ := h (by norm_num)
  exact ⟨hsize, bytes, hlen, hpack, happend (0, [])⟩

end ProtobufC
