import ProtobufC.Runtime.MessageCheck
import ProtobufC.Wire.ThreeWalks

/-! # Buffered packing when memory runs out

`protobuf_c_buffer_simple_append` returns nothing; where an allocation fails it leaves the buffer as
it is.  The walk above it goes on to add up lengths, and hands the sum and the shorter data to the
buffer of the message around.

`guarded` is an `append` that is never called with a length beyond its data.  `Message.chunks` lists
what the walk appends for a message and `Message.growths` counts the blocks that its temporary buffers
ask for; `Sink.Packs` says what a part of the walk does for every choice of the calls that fail.
-/

namespace ProtobufC
open Library
set_option autoImplicit false

variable {α β : Type} {S : Schema} {field : FieldDescriptor}

/-! ## Failing allocations -/

/-- The allocator whose `n`-th call returns NULL unless `ok n`; its state counts the calls. -/
def choosing (ok : ℕ → Bool) : Allocator ℕ where
  alloc _ n := (if ok n then some n else none, n + 1)
  free _ n := some n
  tmpAlloc := none

/-- `append`, which is only called with a length that its data has. -/
def guarded {η : Type} (append : Append β η) : Append β η := fun len data =>
  if len ≤ data.length then append len data else fault .access

/-- `protobuf_c_message_pack_to_buffer` into a `simple_buffer`, with every call of `append` guarded. -/
def messagePackToSimpleGuarded {η : Type} (A : Allocator η) (S : Schema) :
    Message → Run (BufferSimple × η) ℕ :=
  layerRec Message.depth
    (fun sub => messagePackToBufferLayer A (guarded (bufferSimpleAppend A)) sub S) (fault .access)

/-- `protobuf_c_message_pack_to_buffer`, with every call of `append` guarded. -/
def messagePackToBufferGuarded {η : Type} (A : Allocator η) (append : Append β η) (S : Schema)
    (message : Message) : Run (β × η) ℕ :=
  messagePackToBufferLayer A (guarded append) (messagePackToSimpleGuarded A S) S message

/-! ## What is appended -/

/-- The two calls of `append` for a value behind a length, or the one for another value. -/
def Value.chunks (S : Schema) (field : FieldDescriptor) (v : Value) : List (List UInt8) :=
  let header := orFirst (tagPack field.id) field.type.wireType.code
  let body := v.body (Message.encode S)
  if isPackableType field.type then [header ++ scalarBytes field.type v]
  else [header ++ uint32Pack (UInt32.ofNat body.length), body]

/-- A packed array: one call where no packing is needed, else one for each element. -/
def payloadChunks (type : FieldType) (vs : List Value) : List (List UInt8) :=
  match type with
  | .sfixed32 | .fixed32 | .float | .sfixed64 | .fixed64 | .double => [vs.flatMap (scalarBytes type)]
  | _ => vs.map (scalarBytes type)

def packedChunks (field : FieldDescriptor) (vs : List Value) : List (List UInt8) :=
  (orFirst (tagPack field.id) WireType.lengthPrefixed.code ++
    uint32Pack (UInt32.ofNat (vs.flatMap (scalarBytes field.type)).length)) ::
      payloadChunks field.type vs

def Slot.chunks (S : Schema) (field : FieldDescriptor) : Slot → List (List UInt8)
  | .singular has v => if field.writes has v then v.chunks S field else []
  | .repeated a =>
      if a.n = 0 then []
      else if field.packed then packedChunks field a.elems
      else a.elems.flatMap (Value.chunks S field)

def unknownChunks (u : MessageUnknownField) : List (List UInt8) :=
  [orFirst (tagPack u.tag) u.wireType.code, (u.data.elim [] Ptr.val).take u.len]

/-- What the walk appends for a message, call by call. -/
def Message.chunks (S : Schema) (m : Message) : List (List UInt8) :=
  (List.zipWith (Slot.chunks S) (S.desc m.descriptor).fields m.slots).flatten ++
    m.unknown.elems.flatMap unknownChunks

theorem Value.chunks_flatten (S : Schema) (v : Value) :
    (v.chunks S field).flatten = (v.record (Message.encode S) field).bytes := by
  unfold Value.chunks Value.record Value.payload Record.bytes
  dsimp only
  split
  · rw [List.flatten_singleton]
  · rw [List.flatten_cons, List.flatten_singleton, prefixed, List.append_assoc]

theorem payloadChunks_flatten (type : FieldType) (vs : List Value) :
    (payloadChunks type vs).flatten = vs.flatMap (scalarBytes type) := by
  unfold payloadChunks
  cases type
  all_goals first
    | exact List.flatten_singleton
    | exact List.flatMap_def.symm

theorem packedChunks_flatten (vs : List Value) :
    (packedChunks field vs).flatten = (packedRecord field vs).bytes := by
  rw [packedChunks, List.flatten_cons, payloadChunks_flatten, packedRecord, Record.bytes, prefixed,
    List.append_assoc]

theorem flatten_flatMap_chunks (vs : List Value) :
    (vs.flatMap (Value.chunks S field)).flatten =
      (vs.map (Value.record (Message.encode S) field)).flatMap Record.bytes := by
  induction vs with
  | nil => rfl
  | cons v vs ih =>
    rw [List.flatMap_cons, List.flatten_append, ih, v.chunks_flatten, List.map_cons, List.flatMap_cons]

theorem Slot.chunks_flatten {slot : Slot} (hs : SlotPackable field slot) :
    (slot.chunks S field).flatten = (slotRecords (Message.encode S) field slot).flatMap Record.bytes := by
  cases slot with
  | singular has v =>
    rw [Slot.chunks, slotRecords]
    by_cases hwrites : field.label = .required ∨ field.isSet has v
    · rw [if_pos hwrites, if_pos (by simpa [FieldDescriptor.writes] using hwrites), v.chunks_flatten,
        List.flatMap_cons, List.flatMap_nil, List.append_nil]
    · rw [if_neg hwrites, if_neg (by simpa [FieldDescriptor.writes] using hwrites)]
      rfl
  | repeated a =>
    obtain ⟨-, hn, -⟩ := hs
    rw [Slot.chunks, slotRecords]
    by_cases h0 : a.n = 0
    · have hnil : a.elems = [] := List.length_eq_zero_iff.mp (by omega)
      rw [if_pos h0, if_pos h0, hnil]
      split
      · rfl
      · rfl
    · rw [if_neg h0, if_neg h0]
      split
      · rw [packedChunks_flatten, List.flatMap_cons, List.flatMap_nil, List.append_nil]
      · rw [flatten_flatMap_chunks]

theorem unknownChunks_flatten (u : MessageUnknownField) :
    (unknownChunks u).flatten = (unknownRecord u).bytes := by
  rw [unknownChunks, List.flatten_cons, List.flatten_singleton]
  rfl

theorem Message.chunks_flatten {m : Message} (hm : m.Packable S) :
    (m.chunks S).flatten = m.encode S := by
  obtain ⟨_, hslots, -, -, -⟩ := hm
  have hfields : ∀ {fields : List FieldDescriptor} {slots : List Slot},
      List.Forall₂ SlotPackable fields slots →
      (List.zipWith (Slot.chunks S) fields slots).flatten.flatten =
        (List.zipWith (slotRecords (Message.encode S)) fields slots).flatten.flatMap Record.bytes := by
    intro fields slots hs
    induction hs with
    | nil => rfl
    | cons hfield _ ih =>
      rw [List.zipWith_cons_cons, List.zipWith_cons_cons, List.flatten_cons, List.flatten_append, ih,
        Slot.chunks_flatten hfield, List.flatten_cons, List.flatMap_append]
  have hunknown : (m.unknown.elems.flatMap unknownChunks).flatten =
      (m.unknown.elems.map unknownRecord).flatMap Record.bytes := by
    rw [List.flatMap_map, List.flatMap_def, List.flatten_flatten, List.map_map, List.flatMap_def]
    exact congrArg List.flatten (List.map_congr_left fun u _ => unknownChunks_flatten u)
  rw [m.encode_eq S, Message.records, recordsLayer, List.flatMap_append, Message.chunks,
    List.flatten_append, hfields hslots, hunknown]

/-! ## How often a buffer grows -/

/-- The size that a buffer grows to. -/
def grownSize (alloced newLen : ℕ) : ℕ := (growLoop newLen (newLen + 1) (alloced * 2)).getD 0

/-- The blocks that a buffer asks for, given the lengths of what is appended. -/
def growthSteps : ℕ → ℕ → List ℕ → ℕ
  | _, _, [] => 0
  | alloced, len, c :: cs =>
      if len + c ≤ alloced then growthSteps alloced (len + c) cs
      else growthSteps (grownSize alloced (len + c)) (len + c) cs + 1

section
variable (S : Schema)

mutual
/-- The blocks that the buffers of the sub-messages ask for. -/
def Message.growths : Message → ℕ
  | .mk d slots _ => slotsGrowths (S.desc d).fields slots

def slotsGrowths : List FieldDescriptor → List Slot → ℕ
  | field :: fields, slot :: slots => slot.growths field + slotsGrowths fields slots
  | _, _ => 0

def Slot.growths (field : FieldDescriptor) : Slot → ℕ
  | .singular has v => if field.writes has v then v.growths else 0
  | .repeated ⟨_, _, _, vs⟩ => valuesGrowths vs

def valuesGrowths : List Value → ℕ
  | [] => 0
  | v :: vs => v.growths + valuesGrowths vs

/-- A sub-message has a buffer on an array of 256 bytes. -/
def Value.growths : Value → ℕ
  | .message (.ref _ m) => m.growths + growthSteps 256 0 ((m.chunks S).map List.length)
  | _ => 0
end

end

/-! ## Choices -/

/-- The calls `n`, .., `n + k - 1` return blocks. -/
def Granted (ok : ℕ → Bool) (n k : ℕ) : Prop := ∀ i < k, ok (n + i) = true

theorem granted_zero (ok : ℕ → Bool) (n : ℕ) : Granted ok n 0 := fun i hi => absurd hi (Nat.not_lt_zero i)

theorem granted_one {ok : ℕ → Bool} {n : ℕ} : Granted ok n 1 ↔ ok n = true := by
  constructor
  · intro h
    exact h 0 (by omega)
  · intro h i hi
    obtain rfl : i = 0 := by omega
    exact h

theorem granted_add {ok : ℕ → Bool} {n j k : ℕ} :
    Granted ok n (j + k) ↔ Granted ok n j ∧ Granted ok (n + j) k := by
  constructor
  · intro h
    refine ⟨fun i hi => h i (by omega), fun i hi => ?_⟩
    rw [Nat.add_assoc]
    exact h (j + i) (by omega)
  · intro h i hi
    by_cases hij : i < j
    · exact h.1 i hij
    · have hsecond := h.2 (i - j) (by omega)
      rwa [show n + j + (i - j) = n + i by omega] at hsecond

/-! ## Parts of the walk -/

/-- What the walk relies on of a buffer: `growths b cs` is how many blocks it asks for when `cs` are
appended to it. -/
structure Sink (β : Type) where
  inv : β → Prop
  content : β → List UInt8
  growths : β → List (List UInt8) → ℕ
  growths_nil : ∀ b, growths b [] = 0
  growths_le : ∀ b cs cs', growths b cs ≤ growths b (cs ++ cs')

/-- The buffer after `cs` were appended. -/
structure Sink.After (T : Sink β) (b : β) (cs : List (List UInt8)) (b' : β) : Prop where
  inv : T.inv b'
  content : T.content b' = T.content b ++ cs.flatten
  growths : ∀ cs', T.growths b (cs ++ cs') = T.growths b cs + T.growths b' cs'

/-- The run did not return, or returned and left something out. -/
def Sink.Short (T : Sink β) (r : Except Fault (α × β × ℕ)) (a : α) (b : β)
    (cs : List (List UInt8)) : Prop :=
  (∃ e, r = .error e) ∨ ∃ b' n', r = .ok (a, b', n') ∧ T.inv b' ∧
    (T.content b').length < (T.content b).length + cs.flatten.length

/-- `x` returns `a`, appends `cs` and asks for `k` more blocks; where an allocation fails it leaves
something out. -/
def Sink.Packs (T : Sink β) (ok : ℕ → Bool) (x : Run (β × ℕ) α) (a : α) (cs : List (List UInt8))
    (k : ℕ) : Prop :=
  ∀ b n, T.inv b →
    (Granted ok n (k + T.growths b cs) →
      ∃ b', x (b, n) = .ok (a, b', n + (k + T.growths b cs)) ∧ T.After b cs b') ∧
    (¬ Granted ok n (k + T.growths b cs) → T.Short (x (b, n)) a b cs)

section Packs
variable {T : Sink β} {ok : ℕ → Bool}

theorem Sink.Packs.bounded {x : Run (β × ℕ) α} {a : α} {cs : List (List UInt8)} {k : ℕ}
    (hx : T.Packs ok x a cs k) {b : β} (n : ℕ) (hb : T.inv b) :
    (∃ e, x (b, n) = .error e) ∨ ∃ b' n', x (b, n) = .ok (a, b', n') ∧ T.inv b' ∧
      (T.content b').length ≤ (T.content b).length + cs.flatten.length := by
  by_cases hgranted : Granted ok n (k + T.growths b cs)
  · obtain ⟨b', hrun, hafter⟩ := (hx b n hb).1 hgranted
    refine .inr ⟨b', _, hrun, hafter.inv, ?_⟩
    rw [hafter.content, List.length_append]
  · obtain herror | ⟨b', n', hrun, hinv, hlt⟩ := (hx b n hb).2 hgranted
    · exact .inl herror
    · exact .inr ⟨b', n', hrun, hinv, hlt.le⟩

theorem Sink.Packs.bind {γ : Type} {x : Run (β × ℕ) α} {f : α → Run (β × ℕ) γ} {a : α} {c : γ}
    {cs cs' : List (List UInt8)} {k k' : ℕ} (hx : T.Packs ok x a cs k)
    (hf : T.Packs ok (f a) c cs' k') : T.Packs ok (x >>= f) c (cs ++ cs') (k + k') := by
  intro b n hb
  by_cases hfirst : Granted ok n (k + T.growths b cs)
  · obtain ⟨b₁, hrun₁, hafter₁⟩ := (hx b n hb).1 hfirst
    have hcount : k + k' + T.growths b (cs ++ cs') =
        k + T.growths b cs + (k' + T.growths b₁ cs') := by
      rw [hafter₁.growths]
      omega
    rw [hcount, granted_add, run_bind hrun₁]
    obtain ⟨hgood, hbad⟩ := hf b₁ (n + (k + T.growths b cs)) hafter₁.inv
    constructor
    · intro hall
      obtain ⟨b₂, hrun₂, hafter₂⟩ := hgood hall.2
      refine ⟨b₂, by rw [hrun₂, Nat.add_assoc], hafter₂.inv, ?_, fun cs'' => ?_⟩
      · rw [hafter₂.content, hafter₁.content, List.flatten_append, List.append_assoc]
      · rw [List.append_assoc, hafter₁.growths, hafter₁.growths, hafter₂.growths, Nat.add_assoc]
    · intro hsome
      obtain herror | ⟨b₂, n₂, hrun₂, hinv₂, hlt⟩ := hbad fun hall => hsome ⟨hfirst, hall⟩
      · exact .inl herror
      · refine .inr ⟨b₂, n₂, hrun₂, hinv₂, ?_⟩
        rw [hafter₁.content, List.length_append] at hlt
        rw [List.flatten_append, List.length_append]
        omega
  · -- what the first part left out is not made up for
    refine ⟨fun hall => ?_, fun _ => ?_⟩
    · have hle := T.growths_le b cs cs'
      exact absurd (fun i hi => hall i (by omega)) hfirst
    · obtain ⟨e, herror⟩ | ⟨b₁, n₁, hrun₁, hinv₁, hlt₁⟩ := (hx b n hb).2 hfirst
      · refine .inl ⟨e, ?_⟩
        simp only [Bind.bind, StateT.bind, herror, Except.bind]
      · rw [run_bind hrun₁]
        obtain herror | ⟨b₂, n₂, hrun₂, hinv₂, hle₂⟩ := hf.bounded n₁ hinv₁
        · exact .inl herror
        · refine .inr ⟨b₂, n₂, hrun₂, hinv₂, ?_⟩
          rw [List.flatten_append, List.length_append]
          omega

theorem Sink.packs_pure (a : α) : T.Packs ok (pure a) a [] 0 := by
  intro b n hb
  rw [T.growths_nil]
  refine ⟨fun _ => ⟨b, rfl, hb, by simp, fun cs' => ?_⟩, fun hnone => absurd (granted_zero ok n) hnone⟩
  rw [T.growths_nil, List.nil_append, Nat.zero_add]

theorem Sink.Packs.map {γ : Type} {x : Run (β × ℕ) α} {a : α} {cs : List (List UInt8)} {k : ℕ}
    (hx : T.Packs ok x a cs k) (f : α → γ) : T.Packs ok (do return f (← x)) (f a) cs k := by
  have h := hx.bind (f := fun a => pure (f a)) (T.packs_pure (f a))
  rwa [List.append_nil] at h

/-! ## Calls of `append` -/

variable {append : Append β ℕ}

/-- `append` does what it should where it is called as it should be. -/
def Sink.Takes (T : Sink β) (ok : ℕ → Bool) (append : Append β ℕ) : Prop :=
  ∀ len data, len ≤ data.length → T.Packs ok (append len data) () [data.take len] 0

theorem packs_guarded (happend : T.Takes ok append) {len : ℕ} {data : List UInt8}
    (h : len ≤ data.length) : T.Packs ok (guarded append len data) () [data.take len] 0 := by
  rw [guarded, if_pos h]
  exact happend len data h

theorem packs_scratch (happend : T.Takes ok append) {size : ℕ} {bytes : List UInt8}
    (h : bytes.length ≤ size) :
    T.Packs ok (appendScratch (guarded append) size bytes) bytes.length [bytes] 0 := by
  unfold appendScratch scratchBytes
  rw [if_pos h]
  have hrun := (packs_guarded happend (le_refl bytes.length)).bind
    (f := fun _ => pure bytes.length) (T.packs_pure bytes.length)
  rwa [List.take_length, List.append_nil] at hrun

theorem packs_header (happend : T.Takes ok append) {size len : ℕ} {header data : List UInt8}
    (hsize : header.length ≤ size) (hlen : len ≤ data.length) :
    T.Packs ok (do
      let rv ← appendScratch (guarded append) size header
      guarded append len data
      return rv + len) (header.length + len) [header, data.take len] 0 :=
  (packs_scratch happend hsize).bind (f := fun rv => do guarded append len data; return rv + len)
    ((packs_guarded happend hlen).bind (f := fun _ => pure (header.length + len))
      (T.packs_pure (header.length + len)))

/-! ## The simple buffer -/

theorem growthSteps_append (cs cs' : List ℕ) : ∀ alloced len,
    growthSteps alloced len cs ≤ growthSteps alloced len (cs ++ cs') := by
  induction cs with
  | nil => exact fun _ _ => Nat.zero_le _
  | cons c cs ih =>
    intro alloced len
    rw [List.cons_append, growthSteps, growthSteps]
    split
    · exact ih _ _
    · exact Nat.succ_le_succ (ih _ _)

/-- A simple buffer grows. -/
def simpleSink : Sink BufferSimple where
  inv := BufferSimple.Inv
  content := BufferSimple.data
  growths b cs := growthSteps b.alloced b.data.length (cs.map List.length)
  growths_nil _ := rfl
  growths_le b cs cs' := by
    rw [List.map_append]
    exact growthSteps_append _ _ _ _

/-- `FREE (&protobuf_c_default_allocator, ..)` of a block of a simple buffer. -/
theorem freePtr_choosing {addr : Option Addr} (h : ∀ k, addr ≠ some (.static k)) (n : ℕ) :
    (choosing ok).freePtr addr n = .ok ((), n) := by
  cases addr with
  | none => rfl
  | some addr =>
    cases addr with
    | static k => exact absurd rfl (h k)
    | block k => rfl

theorem bufferSimpleClear_choosing {b : BufferSimple} (hb : b.Inv) (n : ℕ) :
    bufferSimpleClear (choosing ok) b n = .ok ((), n) := by
  unfold bufferSimpleClear
  cases hmust : b.mustFreeData with
  | false => rfl
  | true =>
    obtain ⟨k, hk⟩ := hb.addr hmust
    rw [if_pos rfl]
    exact freePtr_choosing (by simp [hk]) n

/-- A buffer with a larger block. -/
def BufferSimple.grow (b : BufferSimple) (newLen n : ℕ) : BufferSimple :=
  { b with alloced := grownSize b.alloced newLen, addr := some (.block n), mustFreeData := true }

theorem grownSize_spec {b : BufferSimple} (hb : b.Inv) (newLen : ℕ) :
    growLoop newLen (newLen + 1) (b.alloced * 2) = some (grownSize b.alloced newLen) ∧
      newLen ≤ grownSize b.alloced newLen ∧ 1 ≤ grownSize b.alloced newLen := by
  have hpos := hb.alloced_pos
  obtain ⟨size, hsize, hle, hge⟩ := growLoop_eq newLen (newLen + 1) (b.alloced * 2) (by omega)
    (by omega) (by omega)
  rw [grownSize, hsize, Option.getD_some]
  exact ⟨rfl, hle, by omega⟩

theorem bufferSimpleReserve_choosing {b : BufferSimple} (hb : b.Inv) (newLen n : ℕ) :
    bufferSimpleReserve (choosing ok) newLen (b, n) =
      if newLen ≤ b.alloced then .ok (true, (b, n))
      else if ok n then .ok (true, (b.grow newLen n, n + 1))
      else .ok (false, (b, n + 1)) := by
  obtain ⟨hgrow, -, hpos⟩ := grownSize_spec hb newLen
  have hget : (get : Run (BufferSimple × ℕ) (BufferSimple × ℕ)) (b, n) = .ok ((b, n), (b, n)) := rfl
  unfold bufferSimpleReserve
  rw [run_bind hget]
  simp only [hgrow]
  by_cases hroom : newLen ≤ b.alloced
  · rw [if_pos hroom, if_pos hroom]
    rfl
  · rw [if_neg hroom, if_neg hroom]
    have halloc : (choosing ok).doAlloc (grownSize b.alloced newLen) n =
        .ok (if ok n then some (some (.block n)) else none, n + 1) := by
      have hcall : (choosing ok).alloc (grownSize b.alloced newLen) n =
          (if ok n then some n else none, n + 1) := rfl
      rw [Allocator.doAlloc, if_neg (by omega), hcall]
      cases ok n with
      | false => rfl
      | true => rfl
    have honheap : (onHeap ((choosing ok).doAlloc (grownSize b.alloced newLen)) :
        Run (BufferSimple × ℕ) _) (b, n) =
        .ok (if ok n then some (some (.block n)) else none, (b, n + 1)) := by
      simp only [onHeap, halloc]
    rw [run_bind honheap]
    cases ok n with
    | false => rfl
    | true =>
      have hfree : (onHeap (if b.mustFreeData then (choosing ok).freePtr b.addr else pure ()) :
          Run (BufferSimple × ℕ) Unit) (b, n + 1) = .ok ((), (b, n + 1)) := by
        have hclear : bufferSimpleClear (choosing ok) b (n + 1) = .ok ((), n + 1) :=
          bufferSimpleClear_choosing hb (n + 1)
        unfold bufferSimpleClear at hclear
        simp only [onHeap, hclear]
      simp only [if_true]
      rw [run_bind hfree]
      rfl

/-- `protobuf_c_buffer_simple_append`: it asks for a block when it needs one, and appends nothing when
it gets none. -/
theorem bufferSimpleAppend_choosing {b : BufferSimple} (hb : b.Inv) {len : ℕ} {data : List UInt8}
    (hlen : len ≤ data.length) (n : ℕ) :
    bufferSimpleAppend (choosing ok) len data (b, n) =
      if b.data.length + len ≤ b.alloced then .ok ((), ({ b with data := b.data ++ data.take len }, n))
      else if ok n then
        .ok ((), ({ b.grow (b.data.length + len) n with data := b.data ++ data.take len }, n + 1))
      else .ok ((), (b, n + 1)) := by
  have hget : (get : Run (BufferSimple × ℕ) (BufferSimple × ℕ)) (b, n) = .ok ((b, n), (b, n)) := rfl
  have hreserve : bufferSimpleReserve (choosing ok) (b.data.length + len) (b, n) = _ :=
    bufferSimpleReserve_choosing hb (b.data.length + len) n
  unfold bufferSimpleAppend
  rw [run_bind hget]
  dsimp only
  by_cases hroom : b.data.length + len ≤ b.alloced
  · rw [if_pos hroom] at hreserve ⊢
    rw [run_bind hreserve, if_pos rfl, if_pos hlen]
    rfl
  · rw [if_neg hroom] at hreserve ⊢
    cases hok : ok n with
    | false =>
      rw [hok] at hreserve
      rw [run_bind hreserve]
      rfl
    | true =>
      rw [hok] at hreserve
      rw [run_bind hreserve, if_pos rfl, if_pos hlen]
      rfl

theorem simpleSink_growths (b : BufferSimple) (c : List UInt8) (cs : List (List UInt8)) :
    simpleSink.growths b (c :: cs) =
      if b.data.length + c.length ≤ b.alloced then
        growthSteps b.alloced (b.data.length + c.length) (cs.map List.length)
      else growthSteps (grownSize b.alloced (b.data.length + c.length)) (b.data.length + c.length)
        (cs.map List.length) + 1 := by
  show growthSteps b.alloced b.data.length ((c :: cs).map List.length) = _
  rw [List.map_cons, growthSteps]

theorem simple_takes : simpleSink.Takes ok (bufferSimpleAppend (choosing ok)) := by
  intro len data hlen b n hb
  have hrun : bufferSimpleAppend (choosing ok) len data (b, n) = _ :=
    bufferSimpleAppend_choosing hb hlen n
  have htake : (data.take len).length = len := by
    rw [List.length_take]
    omega
  have hcost := fun cs => simpleSink_growths b (data.take len) cs
  rw [htake] at hcost
  by_cases hroom : b.data.length + len ≤ b.alloced
  · simp only [if_pos hroom] at hrun hcost
    have hone : simpleSink.growths b [data.take len] = 0 := hcost []
    rw [hone]
    refine ⟨fun _ => ⟨_, hrun, ⟨hb.alloced_pos, ?_, hb.addr⟩, ?_, fun cs' => ?_⟩,
      fun hnone => absurd (granted_zero ok n) hnone⟩
    · simp only [List.length_append, htake]
      exact hroom
    · rw [List.flatten_singleton]
      rfl
    · rw [hone, List.singleton_append, hcost, Nat.zero_add]
      show _ = growthSteps _ (b.data ++ data.take len).length _
      rw [List.length_append, htake]
  · simp only [if_neg hroom] at hrun hcost
    have hone : simpleSink.growths b [data.take len] = 1 := hcost []
    rw [hone, granted_one]
    constructor
    · intro hok
      rw [if_pos hok] at hrun
      obtain ⟨-, hle, hpos⟩ := grownSize_spec hb (b.data.length + len)
      refine ⟨_, hrun, ⟨hpos, ?_, fun _ => ⟨n, rfl⟩⟩, ?_, fun cs' => ?_⟩
      · simp only [List.length_append, htake]
        exact hle
      · rw [List.flatten_singleton]
        rfl
      · rw [hone, List.singleton_append, hcost, Nat.add_comm]
        show _ = 1 + growthSteps _ (b.data ++ data.take len).length _
        rw [List.length_append, htake]
        rfl
    · intro hfail
      rw [if_neg hfail] at hrun
      refine .inr ⟨b, n + 1, hrun, hb, ?_⟩
      have hfits : b.data.length ≤ b.alloced := hb.fits
      show b.data.length < b.data.length + _
      rw [List.flatten_singleton, htake]
      omega

/-- Other computations of the walk leave the buffer and the count alone. -/
theorem Sink.packs_frame {x : Run (β × ℕ) α} {a : α} (h : ∀ b n, T.inv b → x (b, n) = .ok (a, (b, n))) :
    T.Packs ok x a [] 0 := by
  intro b n hb
  have hpure : T.Packs ok (pure a) a [] 0 := T.packs_pure a
  obtain ⟨hgood, hbad⟩ := hpure b n hb
  rw [show (pure a : Run (β × ℕ) α) (b, n) = x (b, n) from (h b n hb).symm] at hgood hbad
  exact ⟨hgood, hbad⟩

/-! ## Fields -/

section Fields
variable (happend : T.Takes ok append) {sub : Message → Run (BufferSimple × ℕ) ℕ}

/-- What the walk assumes of its calls on sub-messages. -/
def GrowsBelow (S : Schema) (ok : ℕ → Bool) (sub : Message → Run (BufferSimple × ℕ) ℕ)
    (cs : List Message) : Prop :=
  ∀ c ∈ cs, (c.encode S).length < 2 ^ 32 →
    simpleSink.Packs ok (sub c) (c.encode S).length (c.chunks S) (c.growths S) ∧
      (c.chunks S).flatten = c.encode S

include happend

/-- The sub-message goes through a temporary buffer.  Where that buffer could not grow it holds less
than the length returned, which is then handed on with it. -/
theorem packs_simple {m : Message} {tag body : List UInt8} {cs : List (List UInt8)} {k : ℕ}
    (htag : tag.length ≤ 5) (hm : simpleSink.Packs ok (sub m) body.length cs k)
    (hcs : cs.flatten = body) :
    T.Packs ok (do
      let (sublen, simple_buffer) ← withSimpleBuffer (sub m) (BufferSimple.init 256)
      let rv ← appendScratch (guarded append) 20 (tag ++ uint32Pack (UInt32.ofNat sublen))
      guarded append sublen simple_buffer.data
      onHeap (bufferSimpleClear (choosing ok) simple_buffer)
      return rv + sublen) ((tag ++ uint32Pack (UInt32.ofNat body.length)).length + body.length)
      [tag ++ uint32Pack (UInt32.ofNat body.length), body]
      (k + growthSteps 256 0 (cs.map List.length)) := by
  have hheader : (tag ++ uint32Pack (UInt32.ofNat body.length)).length ≤ 20 := by
    have := length_uint32Pack_le (UInt32.ofNat body.length)
    rw [List.length_append]
    omega
  have hinit : (BufferSimple.init 256).Inv := BufferSimple.init_inv (by norm_num)
  intro b n hb
  obtain ⟨hgood, hbad⟩ := hm (BufferSimple.init 256) n hinit
  change (Granted ok n (k + growthSteps 256 0 (cs.map List.length)) → _) at hgood
  change (¬ Granted ok n (k + growthSteps 256 0 (cs.map List.length)) → _) at hbad
  rw [granted_add]
  by_cases hfirst : Granted ok n (k + growthSteps 256 0 (cs.map List.length))
  · -- the temporary buffer holds the sub-message
    obtain ⟨simple, hrun, hafter⟩ := hgood hfirst
    have hdata : simple.data = body := hafter.content.trans hcs
    have hsub : (withSimpleBuffer (sub m) (BufferSimple.init 256) : Run (β × ℕ) _) (b, n) =
        .ok ((body.length, simple), (b, n + (k + growthSteps 256 0 (cs.map List.length)))) := by
      simp only [withSimpleBuffer, hrun]
      rfl
    have hclear : T.Packs ok (onHeap (bufferSimpleClear (choosing ok) simple)) () [] 0 :=
      Sink.packs_frame fun b' n' _ => by
        simp only [onHeap, bufferSimpleClear_choosing hafter.inv]
    have htail : T.Packs ok (do
        let rv ← appendScratch (guarded append) 20 (tag ++ uint32Pack (UInt32.ofNat body.length))
        guarded append body.length simple.data
        onHeap (bufferSimpleClear (choosing ok) simple)
        return rv + body.length)
        ((tag ++ uint32Pack (UInt32.ofNat body.length)).length + body.length)
        [tag ++ uint32Pack (UInt32.ofNat body.length), simple.data.take body.length] 0 :=
      (packs_scratch happend hheader).bind
        (f := fun rv => do
          guarded append body.length simple.data
          onHeap (bufferSimpleClear (choosing ok) simple)
          return rv + body.length)
        ((packs_guarded happend (by rw [hdata])).bind
          (f := fun _ => do
            onHeap (bufferSimpleClear (choosing ok) simple)
            return (tag ++ uint32Pack (UInt32.ofNat body.length)).length + body.length)
          (hclear.bind (f := fun _ => pure _) (T.packs_pure _)))
    obtain ⟨hgood', hbad'⟩ := htail b (n + (k + growthSteps 256 0 (cs.map List.length))) hb
    rw [run_bind hsub]
    dsimp only
    rw [show simple.data.take body.length = body by rw [hdata, List.take_length], Nat.zero_add]
      at hgood' hbad'
    constructor
    · intro hall
      obtain ⟨b', hrun', hafter'⟩ := hgood' hall.2
      exact ⟨b', by rw [hrun', Nat.add_assoc], hafter'⟩
    · intro hsome
      exact hbad' fun hall => hsome ⟨hfirst, hall⟩
  · refine ⟨fun hall => absurd hall.1 hfirst, fun _ => .inl ?_⟩
    obtain ⟨e, herror⟩ | ⟨simple, n', hrun, -, hlt⟩ := hbad hfirst
    · refine ⟨e, ?_⟩
      simp only [Bind.bind, StateT.bind, withSimpleBuffer, herror, Except.bind]
    · -- the length returned is not there
      have hsub : (withSimpleBuffer (sub m) (BufferSimple.init 256) : Run (β × ℕ) _) (b, n) =
          .ok ((body.length, simple), (b, n')) := by
        simp only [withSimpleBuffer, hrun]
      have hlen : simple.data.length < body.length := by
        rw [hcs] at hlt
        exact Nat.lt_of_lt_of_eq hlt (Nat.zero_add _)
      have hfault : ∀ s : β × ℕ, guarded append body.length simple.data s = .error .access := by
        intro s
        rw [guarded, if_neg (by omega)]
        rfl
      rw [run_bind hsub]
      dsimp only
      obtain ⟨e, herror⟩ | ⟨b', n'', hscratch, -⟩ := (packs_scratch happend hheader).bounded n' hb
      · refine ⟨e, ?_⟩
        simp only [Bind.bind, StateT.bind, herror, Except.bind]
      · refine ⟨.access, ?_⟩
        rw [run_bind hscratch]
        simp only [Bind.bind, StateT.bind, hfault, Except.bind]

omit happend in
theorem length_flatten_pair (xs ys : List UInt8) : [xs, ys].flatten.length = xs.length + ys.length := by
  rw [List.flatten_cons, List.flatten_singleton, List.length_append]

theorem packs_requiredField {v : Value} (hv : Value.HasType field.type v) (hr : v.Readable)
    (hsub : GrowsBelow S ok sub v.children)
    (hlt : (v.record (Message.encode S) field).bytes.length < 2 ^ 32) :
    T.Packs ok (requiredFieldPackToBuffer (choosing ok) (guarded append) sub field v)
      (v.chunks S field).flatten.length (v.chunks S field) (v.growths S) := by
  have hbody : ∀ p, field.type = .message → v = .message p →
      (Value.body (Message.encode S) (.message p)).length < 2 ^ 32 := by
    intro p ht hv
    rw [hv] at hlt
    exact length_body_lt hlt ht
  have hheader : ∀ code n, (orFirst (tagPack field.id) code ++ uint32Pack n).length ≤ 20 := by
    intro code n
    have htag := length_tag_le field.id code
    have hprefix := length_uint32Pack_le n
    rw [List.length_append]
    omega
  have hscalar : ∀ code bytes, bytes.length ≤ 10 →
      T.Packs ok (appendScratch (guarded append) 20 (orFirst (tagPack field.id) code ++ bytes))
        [orFirst (tagPack field.id) code ++ bytes].flatten.length
        [orFirst (tagPack field.id) code ++ bytes] 0 := by
    intro code bytes hle
    have htag := length_tag_le field.id code
    rw [List.flatten_singleton]
    exact packs_scratch happend (by rw [List.length_append]; omega)
  have hdata : ∀ code len (data : List UInt8), len ≤ data.length →
      T.Packs ok (do
        let rv ← appendScratch (guarded append) 20
          (orFirst (tagPack field.id) code ++ uint32Pack (UInt32.ofNat len))
        guarded append len data
        return rv + len)
        [orFirst (tagPack field.id) code ++ uint32Pack (UInt32.ofNat len),
          data.take len].flatten.length
        [orFirst (tagPack field.id) code ++ uint32Pack (UInt32.ofNat len), data.take len] 0 := by
    intro code len data hle
    rw [length_flatten_pair, List.length_take, Nat.min_eq_left hle]
    exact packs_header happend (hheader _ _) hle
  have hlen := fun hp => (length_scalarBytes hp hv).2
  unfold requiredFieldPackToBuffer Value.chunks
  generalize field.type = type at hv hbody hlen ⊢
  cases type <;> cases v <;> try exact False.elim hv
  case string.string p =>
    cases p with
    | none => exact hdata _ 0 [] (le_refl _)
    | some p =>
      have hle : (cString p.val).length ≤ p.val.length := (List.takeWhile_prefix _).length_le
      have htake : p.val.take (cString p.val).length = cString p.val :=
        (List.prefix_iff_eq_take.mp (List.takeWhile_prefix _)).symm
      have hrun := hdata WireType.lengthPrefixed.code (cString p.val).length p.val hle
      rw [htake] at hrun
      exact hrun
  case bytes.bytes len p =>
    have hlength : ((p.elim [] Ptr.val).take len).length = len := by
      rw [List.length_take]
      exact Nat.min_eq_left hr
    have hrun := hdata WireType.lengthPrefixed.code len (p.elim [] Ptr.val) hr
    simp only [body_bytes, hlength]
    exact hrun
  case message.message p =>
    cases p with
    | null =>
      have hclear : (onHeap (bufferSimpleClear (choosing ok) (BufferSimple.init 256)) :
          Run (β × ℕ) Unit) = pure () := onHeap_pure ()
      simp only [Value.loadMessage, require_ok, pure_bind, hclear]
      exact hdata _ 0 [] (le_refl _)
    | ref addr msg =>
      obtain ⟨hmsg, hchunks⟩ := hsub msg List.mem_cons_self (hbody _ rfl rfl)
      have hrun := packs_simple happend (length_tag_le field.id WireType.lengthPrefixed.code) hmsg hchunks
      rw [← length_flatten_pair] at hrun
      exact hrun
  all_goals exact hscalar _ _ (hlen rfl)

theorem packs_appendLoop {pack : Value → Except Fault (List UInt8)} {g : Value → List UInt8}
    {vs : List Value} (h : ∀ v ∈ vs, pack v = .ok (g v) ∧ (g v).length ≤ 10) (rv : ℕ) :
    T.Packs ok (appendLoop (guarded append) pack vs rv) (rv + (vs.flatMap g).length) (vs.map g) 0 := by
  induction vs generalizing rv with
  | nil => exact T.packs_pure rv
  | cons v vs ih =>
    obtain ⟨hpack, hle⟩ := h v List.mem_cons_self
    rw [appendLoop, hpack, require_ok, pure_bind, List.flatMap_cons, List.length_append,
      ← Nat.add_assoc, List.map_cons]
    exact (packs_scratch happend (by omega)).bind
      (f := fun len => appendLoop (guarded append) pack vs (rv + len))
      (ih (fun w hw => h w (List.mem_cons_of_mem _ hw)) (rv + (g v).length))

theorem packs_packedPayload {type : FieldType} (hp : isPackableType type = true)
    {vs : List Value} (hvs : ∀ v ∈ vs, Value.HasType type v)
    (hlt : (vs.flatMap (scalarBytes type)).length < 2 ^ 32) :
    T.Packs ok (packBufferPackedPayload (guarded append) type vs.length vs)
      (vs.flatMap (scalarBytes type)).length (payloadChunks type vs) 0 := by
  have hlen : ∀ v ∈ vs, (scalarBytes type v).length ≤ 10 := fun v hv =>
    (length_scalarBytes hp (hvs v hv)).2
  have hloop : ∀ pack : Value → Except Fault (List UInt8),
      (∀ v ∈ vs, pack v = .ok (scalarBytes type v)) →
      T.Packs ok (appendLoop (guarded append) pack vs 0) (vs.flatMap (scalarBytes type)).length
        (vs.map (scalarBytes type)) 0 := by
    intro pack hpack
    have hrun := packs_appendLoop happend (fun v hv => ⟨hpack v hv, hlen v hv⟩) 0
    rwa [Nat.zero_add] at hrun
  have hwords : ∀ k, ∀ pack : Value → Except Fault (List UInt8),
      (∀ v ∈ vs, pack v = .ok (scalarBytes type v) ∧ (scalarBytes type v).length = k) →
      T.Packs ok (do
        let array ← require (arrayBytes pack vs)
        let rv := vs.length * k % 2 ^ 32
        guarded append rv array
        return rv) (vs.flatMap (scalarBytes type)).length [vs.flatMap (scalarBytes type)] 0 := by
    intro k pack hpack
    have hk : (vs.flatMap (scalarBytes type)).length = vs.length * k := by
      rw [List.length_flatMap, List.map_congr_left fun v hv => (hpack v hv).2]
      simp
    rw [arrayBytes_eq fun v hv => (hpack v hv).1, require_ok, pure_bind, ← hk]
    simp only [Nat.mod_eq_of_lt hlt]
    have hrun := (packs_guarded happend (le_refl (vs.flatMap (scalarBytes type)).length)).bind
      (f := fun _ => pure (vs.flatMap (scalarBytes type)).length) (T.packs_pure _)
    rwa [List.take_length] at hrun
  unfold packBufferPackedPayload payloadChunks
  cases type
  case string | bytes | message => exact absurd hp (by decide)
  case sfixed32 | fixed32 | float =>
    refine hwords 4 _ fun v hv => ?_
    have ht := hvs v hv
    cases v <;> first | exact False.elim ht | exact ⟨rfl, rfl⟩
  case sfixed64 | fixed64 | double =>
    refine hwords 8 _ fun v hv => ?_
    have ht := hvs v hv
    cases v <;> first | exact False.elim ht | exact ⟨rfl, rfl⟩
  case bool =>
    have hone : (vs.flatMap (scalarBytes .bool)).length = vs.length := by
      rw [List.length_flatMap, List.map_congr_left (g := fun _ => 1)]
      · simp
      · intro v hv
        have ht := hvs v hv
        cases v <;> first | exact False.elim ht | rfl
    have hrun := hloop (fun v => return booleanPack (← v.loadBoolean)) fun v hv => by
      have ht := hvs v hv
      cases v <;> first | exact False.elim ht | rfl
    rw [hone] at hrun ⊢
    exact hrun.map fun _ => vs.length
  all_goals
    refine hloop _ fun v hv => ?_
    have ht := hvs v hv
    cases v <;> first | exact False.elim ht | rfl

theorem packs_packedField {a : CArray Value} (hg : field.Generated) (hp : field.packed = true)
    (ha : SlotPackable field (.repeated a)) (h0 : a.n ≠ 0)
    (hlt : (a.elems.flatMap (scalarBytes field.type)).length < 2 ^ 32) :
    T.Packs ok (repeatedFieldPackToBuffer (choosing ok) (guarded append) sub field a.n a)
      (packedChunks field a.elems).flatten.length (packedChunks field a.elems) 0 := by
  obtain ⟨-, hn, hvs⟩ := ha
  have hpackable := (hg.packed hp).2
  have hvs' : ∀ v ∈ a.elems, Value.HasType field.type v := fun v hv => (hvs v hv).1
  have hpayload := packs_packedPayload happend hpackable hvs' hlt
  have hlength := getPackedPayloadLength_eq hpackable hvs' hlt
  rw [← hn] at hpayload hlength
  unfold repeatedFieldPackToBuffer packedChunks
  rw [if_neg h0, CArray.load_self hn, require_ok, pure_bind, if_pos hp, hlength, require_ok,
    pure_bind, List.flatten_cons, payloadChunks_flatten, List.length_append]
  have hscratch : (orFirst (tagPack field.id) WireType.lengthPrefixed.code ++
      uint32Pack (UInt32.ofNat (a.elems.flatMap (scalarBytes field.type)).length)).length ≤ 20 := by
    have := length_tag_le field.id WireType.lengthPrefixed.code
    have := length_uint32Pack_le (UInt32.ofNat (a.elems.flatMap (scalarBytes field.type)).length)
    rw [List.length_append]
    omega
  generalize a.elems.flatMap (scalarBytes field.type) = body at hpayload hscratch ⊢
  have htail : ∀ rv, T.Packs ok (do
      let tmp ← packBufferPackedPayload (guarded append) field.type a.n a.elems
      if tmp ≠ body.length then fault .assertion
      return rv + body.length) (rv + body.length) (payloadChunks field.type a.elems) 0 := by
    intro rv
    have hcheck : T.Packs ok (do
        if body.length ≠ body.length then fault .assertion
        return rv + body.length : Run (β × ℕ) ℕ) (rv + body.length) [] 0 := by
      rw [if_neg (not_not.mpr rfl)]
      exact T.packs_pure _
    have hrun := hpayload.bind (f := fun tmp => do
      if tmp ≠ body.length then fault .assertion
      return rv + body.length) hcheck
    rwa [List.append_nil] at hrun
  exact (packs_scratch happend hscratch).bind (f := fun rv => do
    let tmp ← packBufferPackedPayload (guarded append) field.type a.n a.elems
    if tmp ≠ body.length then fault .assertion
    return rv + body.length) (htail _)

theorem packs_requiredFieldLoop {vs : List Value}
    (hvs : ∀ v ∈ vs, Value.HasType field.type v ∧ v.Readable ∧ v.NonNull)
    (hsub : ∀ v ∈ vs, GrowsBelow S ok sub v.children) {rv : ℕ}
    (hlt : rv + ((vs.map (Value.record (Message.encode S) field)).flatMap
      Record.bytes).length < 2 ^ 32) :
    T.Packs ok (requiredFieldPackToBufferLoop (choosing ok) (guarded append) sub field vs rv)
      (rv + (vs.flatMap (Value.chunks S field)).flatten.length) (vs.flatMap (Value.chunks S field))
      (valuesGrowths S vs) := by
  induction vs generalizing rv with
  | nil => exact T.packs_pure rv
  | cons v vs ih =>
    obtain ⟨ht, hr, -⟩ := hvs v List.mem_cons_self
    rw [List.map_cons, List.flatMap_cons, List.length_append] at hlt
    have hsize : (v.chunks S field).flatten.length =
      (v.record (Message.encode S) field).bytes.length := congrArg List.length (v.chunks_flatten S)
    have hone := packs_requiredField happend ht hr (hsub v List.mem_cons_self) (by omega)
    have hmod : (rv + (v.chunks S field).flatten.length) % 2 ^ 32 =
        rv + (v.chunks S field).flatten.length := Nat.mod_eq_of_lt (by omega)
    have hrest := ih (fun w hw => hvs w (List.mem_cons_of_mem _ hw))
      (fun w hw => hsub w (List.mem_cons_of_mem _ hw))
      (show rv + (v.chunks S field).flatten.length + _ < 2 ^ 32 by omega)
    rw [← hmod] at hrest
    rw [requiredFieldPackToBufferLoop, List.flatMap_cons, List.flatten_append, List.length_append,
      ← Nat.add_assoc, valuesGrowths]
    have hrun := hone.bind (f := fun n => requiredFieldPackToBufferLoop (choosing ok)
      (guarded append) sub field vs ((rv + n) % 2 ^ 32)) hrest
    rwa [hmod] at hrun

theorem packs_field {slot : Slot} (hg : field.Generated) (hs : SlotPackable field slot)
    (hsub : GrowsBelow S ok sub (slot.writtenChildren field))
    (hlt : ((slotRecords (Message.encode S) field slot).flatMap Record.bytes).length < 2 ^ 32) :
    T.Packs ok (fieldPackToBuffer (choosing ok) (guarded append) sub field slot)
      (slot.chunks S field).flatten.length (slot.chunks S field) (slot.growths S field) := by
  unfold fieldPackToBuffer
  cases slot with
  | singular has v =>
    obtain ⟨hlabel, hv, hr⟩ := hs
    have hrecord : field.label = .required ∨ field.isSet has v = true →
        T.Packs ok (requiredFieldPackToBuffer (choosing ok) (guarded append) sub field v)
          ((Slot.singular has v).chunks S field).flatten.length
          ((Slot.singular has v).chunks S field) ((Slot.singular has v).growths S field) := by
      intro hwrites
      rw [slotRecords, if_pos hwrites, List.flatMap_cons, List.flatMap_nil, List.append_nil] at hlt
      have hset : field.writes has v = true := by simpa [FieldDescriptor.writes] using hwrites
      rw [Slot.chunks, Slot.growths, if_pos hset, if_pos hset]
      exact packs_requiredField happend hv (hr hwrites)
        (Slot.writtenChildren_singular hwrites ▸ hsub) hlt
    cases hl : field.label with
    | required => exact hrecord (.inl hl)
    | optional =>
      simp only [optionalFieldPackToBuffer]
      by_cases hset : field.isSet has v = true
      · rw [if_pos hset]
        exact hrecord (.inr hset)
      · have hunset : ¬ field.writes has v = true := by simp [FieldDescriptor.writes, hl, hset]
        rw [if_neg hset, Slot.chunks, Slot.growths, if_neg hunset, if_neg hunset]
        exact T.packs_pure 0
    | repeated => exact absurd hl hlabel
  | repeated a =>
    have hs' := hs
    obtain ⟨hlabel, hn, hvs⟩ := hs'
    have hgrowths : (Slot.repeated a).growths S field = valuesGrowths S a.elems := rfl
    simp only [hlabel]
    rw [hgrowths, Slot.chunks]
    by_cases h0 : a.n = 0
    · have hnil : a.elems = [] := List.length_eq_zero_iff.mp (by omega)
      simp only [repeatedFieldPackToBuffer, h0, Nat.zero_mod, if_true, hnil]
      exact T.packs_pure 0
    · rw [if_neg h0]
      by_cases hp : field.packed = true
      · have hpackable := (hg.packed hp).2
        have hnone : ∀ vs : List Value, (∀ v ∈ vs, Value.HasType field.type v) →
            valuesGrowths S vs = 0 := by
          intro vs
          induction vs with
          | nil => exact fun _ => rfl
          | cons v vs ih =>
            intro hvs
            rw [valuesGrowths, ih fun w hw => hvs w (List.mem_cons_of_mem _ hw), Nat.add_zero]
            have ht := hvs v List.mem_cons_self
            generalize field.type = type at ht hpackable
            cases v with
            | message p => cases type <;> first | exact False.elim ht | exact absurd hpackable (by decide)
            | _ => rfl
        have hlt' : (a.elems.flatMap (scalarBytes field.type)).length < 2 ^ 32 := by
          simp only [slotRecords, hp, h0, if_true, if_false, List.flatMap_cons, List.flatMap_nil,
            List.append_nil, length_bytes, packedRecord, length_prefixed] at hlt
          omega
        have hcount : a.n < 2 ^ 32 := by
          have hmin := (minLength_le hpackable fun v hv => (hvs v hv).1).1
          have hpos : 1 ≤ getTypeMinSize field.type := by
            unfold getTypeMinSize
            split_ifs <;> norm_num
          have := Nat.mul_le_mul_right a.elems.length hpos
          omega
        rw [if_pos hp, hnone a.elems fun v hv => (hvs v hv).1, Nat.mod_eq_of_lt hcount]
        exact packs_packedField happend hg hp hs h0 hlt'
      · rw [slotRecords, if_neg hp] at hlt
        have hcount := length_le_flatMap_bytes (a.elems.map (Value.record (Message.encode S) field))
        rw [List.length_map, ← hn] at hcount
        have hmod : a.n % 2 ^ 32 = a.n := Nat.mod_eq_of_lt (lt_of_le_of_lt hcount hlt)
        have hloop := packs_requiredFieldLoop happend hvs
          (fun v hv c hc => hsub c (List.mem_flatMap.mpr ⟨v, hv, hc⟩))
          (show 0 + _ < 2 ^ 32 by rw [Nat.zero_add]; exact hlt)
        rw [Nat.zero_add] at hloop
        rw [if_neg hp, hmod, repeatedFieldPackToBuffer, if_neg h0, CArray.load_self hn, require_ok,
          pure_bind, if_neg hp]
        exact hloop

theorem packs_fields {fields : List FieldDescriptor} {slots : List Slot}
    (hg : ∀ f ∈ fields, f.Generated) (hs : List.Forall₂ SlotPackable fields slots)
    (hsub : ∀ p ∈ fields.zip slots, GrowsBelow S ok sub (p.2.writtenChildren p.1)) (rv : ℕ)
    (hlt : ((List.zipWith (slotRecords (Message.encode S)) fields slots).flatten.flatMap
      Record.bytes).length < 2 ^ 32) :
    T.Packs ok (fieldsPackToBuffer (choosing ok) (guarded append) sub fields slots rv)
      (rv + (List.zipWith (Slot.chunks S) fields slots).flatten.flatten.length)
      (List.zipWith (Slot.chunks S) fields slots).flatten (slotsGrowths S fields slots) := by
  induction hs generalizing rv with
  | nil => exact T.packs_pure rv
  | @cons f s fields slots hfield _ ih =>
    rw [List.zipWith_cons_cons, List.flatten_cons, List.flatMap_append, List.length_append] at hlt
    have hone := packs_field happend (hg f List.mem_cons_self) hfield
      (hsub (f, s) List.mem_cons_self) (by omega)
    have hrest := ih (fun f' hf' => hg f' (List.mem_cons_of_mem _ hf'))
      (fun p hp => hsub p (List.mem_cons_of_mem _ hp)) (rv + (s.chunks S f).flatten.length)
      (by omega)
    rw [fieldsPackToBuffer, List.zipWith_cons_cons, List.flatten_cons, List.flatten_append,
      List.length_append, ← Nat.add_assoc, slotsGrowths]
    exact hone.bind (f := fun n => fieldsPackToBuffer (choosing ok) (guarded append) sub fields slots
      (rv + n)) hrest

theorem packs_unknownFields {us : List MessageUnknownField}
    (hus : ∀ u ∈ us, u.len ≤ (u.data.elim [] Ptr.val).length) (rv : ℕ) :
    T.Packs ok (unknownFieldsPackToBuffer (guarded append) us rv)
      (rv + (us.flatMap unknownChunks).flatten.length) (us.flatMap unknownChunks) 0 := by
  induction us generalizing rv with
  | nil => exact T.packs_pure rv
  | cons u us ih =>
    have hu := hus u List.mem_cons_self
    have hone : T.Packs ok (unknownFieldPackToBuffer (guarded append) u)
        (unknownChunks u).flatten.length (unknownChunks u) 0 := by
      have htag := length_tag_le u.tag u.wireType.code
      rw [unknownChunks, length_flatten_pair, List.length_take, Nat.min_eq_left hu]
      exact packs_header happend (by omega) hu
    rw [unknownFieldsPackToBuffer, List.flatMap_cons, List.flatten_append, List.length_append,
      ← Nat.add_assoc]
    exact hone.bind (f := fun n => unknownFieldsPackToBuffer (guarded append) us (rv + n))
      (ih (fun w hw => hus w (List.mem_cons_of_mem _ hw)) _)

theorem packs_messageLayer {m : Message} (hm : m.Packable S)
    (hsub : GrowsBelow S ok sub (m.writtenChildren S)) (hlt : (m.encode S).length < 2 ^ 32) :
    T.Packs ok (messagePackToBufferLayer (choosing ok) (guarded append) sub S m) (m.encode S).length
      (m.chunks S) (m.growths S) := by
  have hflatten := Message.chunks_flatten hm
  obtain ⟨_, hslots, hn, hunknown, -⟩ := hm
  have hgrowths : m.growths S = slotsGrowths S (S.desc m.descriptor).fields m.slots := by
    obtain ⟨d, slots, unknown⟩ := m
    rfl
  have hfields := packs_fields happend (S.generated m.descriptor).field hslots
    (fun p hp c hc => hsub c (Message.mem_writtenChildren.mpr ⟨p, hp, hc⟩)) 0 (by
      rw [m.encode_eq S, Message.records, recordsLayer, List.flatMap_append, List.length_append] at hlt
      omega)
  have hall := hfields.bind (f := fun rv => unknownFieldsPackToBuffer (guarded append)
    m.unknown.elems rv) (packs_unknownFields happend hunknown _)
  rw [← hflatten, hgrowths, Message.chunks, List.flatten_append, List.length_append]
  unfold messagePackToBufferLayer
  rw [CArray.load_self hn, require_ok]
  rw [Nat.zero_add] at hall
  exact hall

end Fields

theorem packs_messagePackToSimple {m : Message} (hm : m.Packable S)
    (hlt : (m.encode S).length < 2 ^ 32) :
    simpleSink.Packs ok (messagePackToSimpleGuarded (choosing ok) S m) (m.encode S).length
      (m.chunks S) (m.growths S) := by
  refine layerRec_spec (P := fun m (r : Run (BufferSimple × ℕ) ℕ) => m.Packable S →
    (m.encode S).length < 2 ^ 32 →
      simpleSink.Packs ok r (m.encode S).length (m.chunks S) (m.growths S)) ?_ m hm hlt
  intro m sub hsub hm hlt
  have hchildren : ∀ c ∈ m.writtenChildren S, c.Packable S := by
    obtain ⟨_, _, _, _, hchildren⟩ := hm
    exact hchildren
  refine packs_messageLayer simple_takes hm (fun c hc hlt => ?_) hlt
  have hdepth := m.depth_children c (Message.writtenChildren_subset hc)
  exact ⟨hsub c hdepth (hchildren c hc) hlt, Message.chunks_flatten (hchildren c hc)⟩

end Packs

/-! ## The whole walk -/

/-- A buffer that keeps the appended chunks apart. -/
def chunkSink : Sink (List (List UInt8)) where
  inv _ := True
  content := List.flatten
  growths _ _ := 0
  growths_nil _ := rfl
  growths_le _ _ _ := le_refl 0

theorem chunk_takes {ok : ℕ → Bool} : chunkSink.Takes ok chunkAppend := by
  intro len data hlen chunks n _
  have hrun : chunkAppend len data (chunks, n) = .ok ((), (chunks ++ [data.take len], n)) := by
    rw [chunkAppend, if_pos hlen]
    rfl
  refine ⟨fun _ => ⟨_, hrun, trivial, ?_, fun _ => rfl⟩, fun hnone => absurd (granted_zero ok n) hnone⟩
  exact List.flatten_append

/-- No call of `append` was given a length beyond its data, and what the target was given is the
encoding, in which every sub-message stands behind its length. -/
def PacksConsistently (S : Schema) (ok : ℕ → Bool) (n : ℕ) (m : Message) : Prop :=
  ∃ chunks n', messagePackToBufferGuarded (choosing ok) chunkAppend S m ([], n) =
    .ok ((m.encode S).length, (chunks, n')) ∧ chunks.flatten = m.encode S

theorem packs_messagePackToBuffer {ok : ℕ → Bool} {m : Message} (hm : m.Packable S)
    (hlt : (m.encode S).length < 2 ^ 32) :
    chunkSink.Packs ok (messagePackToBufferGuarded (choosing ok) chunkAppend S m) (m.encode S).length
      (m.chunks S) (m.growths S) := by
  have hchildren : ∀ c ∈ m.writtenChildren S, c.Packable S := by
    obtain ⟨_, _, _, _, hchildren⟩ := hm
    exact hchildren
  exact packs_messageLayer chunk_takes hm (fun c hc hlt =>
    ⟨packs_messagePackToSimple (hchildren c hc) hlt, Message.chunks_flatten (hchildren c hc)⟩) hlt

/-- Packing is consistent exactly when the buffers of the sub-messages get every block that they ask
for. -/
theorem packsConsistently_iff (S : Schema) (ok : ℕ → Bool) (n : ℕ) (m : Message) (hm : m.Packable S)
    (hlt : (m.encode S).length < 2 ^ 32) :
    PacksConsistently S ok n m ↔ ∀ i < m.growths S, ok (n + i) = true := by
  have hpacks : chunkSink.Packs ok (messagePackToBufferGuarded (choosing ok) chunkAppend S m)
      (m.encode S).length (m.chunks S) (m.growths S) := packs_messagePackToBuffer hm hlt
  obtain ⟨hgood, hbad⟩ := hpacks [] n trivial
  change (Granted ok n (m.growths S) → _) at hgood
  change (¬ Granted ok n (m.growths S) → _) at hbad
  constructor
  · intro h
    by_contra hsome
    obtain ⟨chunks, n', hrun, hcontent⟩ := h
    obtain ⟨e, herror⟩ | ⟨b', n'', hrun', -, hlt'⟩ := hbad hsome
    · exact absurd (hrun.symm.trans herror) (by simp)
    · obtain ⟨rfl, rfl⟩ : chunks = b' ∧ n' = n'' := by
        have hsame := Except.ok.inj (hrun.symm.trans hrun')
        simp only [Prod.mk.injEq, true_and] at hsame
        exact hsame
      rw [Message.chunks_flatten hm] at hlt'
      change chunks.flatten.length < 0 + _ at hlt'
      rw [hcontent] at hlt'
      omega
  · intro h
    obtain ⟨chunks, hrun, hafter⟩ := hgood h
    refine ⟨chunks, _, hrun, ?_⟩
    have hcontent : chunks.flatten = [] ++ (m.chunks S).flatten := hafter.content
    rw [hcontent, Message.chunks_flatten hm, List.nil_append]

/-- A sub-message of 260 bytes in a message. -/
def nestedMessage : Message :=
  .mk 0 [.singular 0 (.bytes 0 none), .repeated ⟨1, some (.static 0), 1, [.message (.ref (.static 1)
    (.mk 0 [.singular 0 (.bytes 257 (some ⟨.static 2, List.replicate 257 0⟩)), .repeated .null]
      .null))]⟩] .null

theorem nestedMessage_packable : nestedMessage.Packable nestedSchema := by
  refine .intro _
    (.cons ⟨by decide, trivial, fun _ => Nat.zero_le _⟩ (.cons ⟨rfl, rfl, fun v hv => ?_⟩ .nil))
    rfl (fun _ hu => absurd hu List.not_mem_nil) fun c hc => ?_
  · rw [List.mem_singleton.mp hv]
    exact ⟨trivial, trivial, MessagePtr.noConfusion⟩
  · rw [List.mem_singleton.mp hc]
    exact .intro _ (.cons ⟨by decide, trivial, fun _ => List.length_replicate.ge⟩
      (.cons ⟨rfl, rfl, fun _ hv => absurd hv List.not_mem_nil⟩ .nil)) rfl
      (fun _ hu => absurd hu List.not_mem_nil) fun _ hc => absurd hc List.not_mem_nil

/-- `packsConsistently_iff` where the buffer of the sub-message has to grow once, and can. -/
theorem packsConsistently_nested : nestedMessage.growths nestedSchema = 1 ∧
    PacksConsistently nestedSchema (fun i => i = 0) 0 nestedMessage := by
  have hgrowths : nestedMessage.growths nestedSchema = 1 := by decide +kernel
  refine ⟨hgrowths, (packsConsistently_iff nestedSchema _ 0 nestedMessage nestedMessage_packable
    (by decide +kernel)).mpr fun i hi => ?_⟩
  rw [hgrowths, Nat.lt_one_iff] at hi
  rw [hi]
  rfl

/-- The buffer of the sub-message cannot grow: three bytes of it are there, and 260 are handed on. -/
theorem packsConsistently_fails :
    messagePackToBufferGuarded (choosing fun _ => false) chunkAppend nestedSchema nestedMessage
        ([], 0) = .error .access ∧
      ¬ PacksConsistently nestedSchema (fun _ => false) 0 nestedMessage := by
  have hrun : messagePackToBufferGuarded (choosing fun _ => false) chunkAppend nestedSchema
      nestedMessage ([], 0) = .error .access := by decide +kernel
  refine ⟨hrun, fun h => ?_⟩
  obtain ⟨chunks, n', hok, -⟩ := h
  exact absurd (hrun.symm.trans hok) (by simp)

end ProtobufC
