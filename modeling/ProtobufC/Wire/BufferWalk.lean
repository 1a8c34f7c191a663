import ProtobufC.Runtime.PackToBuffer
import ProtobufC.Wire.PackWalk

/-! # `protobuf_c_message_pack_to_buffer` appends the encoding

`Target` is what the walk relies on of a buffer: `append` adds the bytes it is given to the buffer's
contents.  A `ProtobufCBufferSimple` is one as long as its allocations succeed, and the walk appends
the encoding to any target, whatever temporary buffers it needs for sub-messages.
-/

namespace ProtobufC
open Library
set_option autoImplicit false

variable {β η : Type} {S : Schema} {field : FieldDescriptor}

/-! ## Rules for the two stores -/

@[simp] theorem meets_onHeap {α : Type} {ub : Fault → Prop} (x : Run η α) (b : β) (h : η)
    (Q : α → β × η → Prop) :
    Meets ub (onHeap x) (b, h) Q ↔ Meets ub x h fun a h' => Q a (b, h') := by
  unfold Meets onHeap
  simp only
  cases x h <;> rfl

@[simp] theorem onHeap_pure {α : Type} (a : α) :
    (onHeap (pure a : Run η α) : Run (β × η) α) = pure a := rfl

@[simp] theorem meets_withSimpleBuffer {α : Type} {ub : Fault → Prop}
    (x : Run (BufferSimple × η) α) (simple : BufferSimple) (b : β) (h : η)
    (Q : α × BufferSimple → β × η → Prop) :
    Meets ub (withSimpleBuffer x simple) (b, h) Q ↔
      Meets ub x (simple, h) fun a s' => Q (a, s'.1) (b, s'.2) := by
  unfold Meets withSimpleBuffer
  simp only
  cases x (simple, h) <;> rfl

/-- What the walk relies on of a buffer. -/
structure Target (H : HeapAllocator η) (append : Append β η) where
  content : β → List UInt8
  owned : β → Multiset ℕ
  inv : β → Prop
  append_meets : ∀ {b h L len data}, inv b → H.live h = owned b + L → len ≤ data.length →
    Meets NoFault (append len data) (b, h) fun _ s' =>
      content s'.1 = content b ++ data.take len ∧ inv s'.1 ∧ H.live s'.2 = owned s'.1 + L

/-- `x` appends `bs` and returns their number. -/
def Target.Appends {H : HeapAllocator η} {append : Append β η} (T : Target H append)
    (x : Run (β × η) ℕ) (bs : List UInt8) : Prop :=
  ∀ b h L, T.inv b → H.live h = T.owned b + L → Meets NoFault x (b, h) fun n s' =>
    n = bs.length ∧ T.content s'.1 = T.content b ++ bs ∧ T.inv s'.1 ∧
      H.live s'.2 = T.owned s'.1 + L

/-! ## The simple buffer -/

theorem growLoop_eq (newLen fuel : ℕ) : ∀ a, 1 ≤ a → 1 ≤ fuel → newLen < fuel + a →
    ∃ n, growLoop newLen fuel a = some n ∧ newLen ≤ n ∧ a ≤ n := by
  induction fuel with
  | zero => intro a _ hfuel; omega
  | succ fuel ih =>
    intro a ha _ hlt
    rw [growLoop]
    split_ifs with hgrow
    · obtain ⟨n, hn, hle, hge⟩ := ih (a + a) (by omega) (by omega) (by omega)
      exact ⟨n, hn, hle, by omega⟩
    · exact ⟨a, rfl, by omega, le_refl a⟩

/-- The invariant of a `ProtobufCBufferSimple`. -/
structure BufferSimple.Inv (b : BufferSimple) : Prop where
  alloced_pos : 1 ≤ b.alloced
  fits : b.data.length ≤ b.alloced
  addr : b.mustFreeData = true → ∃ n, b.addr = some (.block n)

/-- The block a simple buffer has to release. -/
def BufferSimple.owned (b : BufferSimple) : Multiset ℕ :=
  if b.mustFreeData then blockOf b.addr else 0

theorem bufferSimpleReserve_meets {H : HeapAllocator η} (hinf : H.Infallible) {b : BufferSimple}
    {h : η} {L : Multiset ℕ} {newLen : ℕ} (hb : b.Inv) (hlen : b.data.length ≤ newLen)
    (hlive : H.live h = b.owned + L) :
    Meets NoFault (bufferSimpleReserve H.toAllocator newLen) (b, h) fun room s' =>
      room = true ∧ s'.1.data = b.data ∧ newLen ≤ s'.1.alloced ∧ s'.1.Inv ∧
        H.live s'.2 = s'.1.owned + L := by
  have hb' := hb
  obtain ⟨hpos, hfits, haddr⟩ := hb'
  obtain ⟨n, hn, hle, hge⟩ := growLoop_eq newLen (newLen + 1) (b.alloced * 2) (by omega)
    (by omega) (by omega)
  unfold bufferSimpleReserve
  simp only [meets_bind, meets_get, hn]
  rw [meets_ite]
  refine ⟨fun hroom => (meets_pure _ _ _).mpr ⟨rfl, rfl, hroom, hb, hlive⟩, fun hgrow => ?_⟩
  simp only [meets_bind, meets_onHeap]
  refine (meets_doAlloc_infallible H hinf n).imp ?_
  rintro r h' ⟨dst, rfl, hlive', -, hnull, hblock⟩
  obtain ⟨k, rfl⟩ : ∃ k, dst = some (.block k) := by
    cases dst with
    | none => exact absurd (hnull.mp rfl) (by omega)
    | some a =>
      obtain ⟨k, rfl⟩ := hblock a rfl
      exact ⟨k, rfl⟩
  have hstart : H.live h' = b.owned + ({k} + L) := by
    rw [hlive', hlive, blockOf_block]
    exact add_left_comm _ _ _
  have hfree : Meets NoFault (if b.mustFreeData then H.freePtr b.addr else pure ()) h'
      fun _ h'' => H.live h'' = {k} + L := by
    unfold BufferSimple.owned at hstart
    cases hm : b.mustFreeData with
    | true =>
      obtain ⟨m, hm'⟩ := haddr hm
      rw [hm, if_pos rfl] at hstart
      exact (meets_freePtr H (by simp [hm']) hstart).imp fun _ _ h => h.1
    | false =>
      rw [hm] at hstart
      simpa using hstart
  simp only [meets_bind, meets_onHeap, meets_modify, meets_pure, true_and]
  refine hfree.imp fun _ h'' hlive'' => ⟨hle, ⟨?_, ?_, ?_⟩, ?_⟩
  · simp only
    omega
  · simp only
    omega
  · exact fun _ => ⟨k, rfl⟩
  · simpa [BufferSimple.owned] using hlive''

theorem bufferSimpleAppend_meets {H : HeapAllocator η} (hinf : H.Infallible) {b : BufferSimple}
    {h : η} {L : Multiset ℕ} {len : ℕ} {data : List UInt8} (hb : b.Inv)
    (hlive : H.live h = b.owned + L) (hlen : len ≤ data.length) :
    Meets NoFault (bufferSimpleAppend H.toAllocator len data) (b, h) fun _ s' =>
      s'.1.data = b.data ++ data.take len ∧ s'.1.Inv ∧ H.live s'.2 = s'.1.owned + L := by
  unfold bufferSimpleAppend
  simp only [meets_bind, meets_get]
  refine (bufferSimpleReserve_meets hinf hb (Nat.le_add_right _ len) hlive).imp ?_
  rintro room ⟨b', h'⟩ ⟨rfl, hdata, halloced, hinv, hlive'⟩
  simp only at hdata halloced hinv hlive'
  simp only [if_true, hlen, require_ok, pure_bind, meets_modify]
  refine ⟨by rw [hdata], ⟨hinv.alloced_pos, ?_, hinv.addr⟩, hlive'⟩
  simp only [List.length_append, List.length_take, hdata]
  omega

/-- A simple buffer is a target. -/
def simpleTarget {H : HeapAllocator η} (hinf : H.Infallible) :
    Target H (bufferSimpleAppend H.toAllocator) where
  content := BufferSimple.data
  owned := BufferSimple.owned
  inv := BufferSimple.Inv
  append_meets := fun hb hlive hlen => bufferSimpleAppend_meets hinf hb hlive hlen

/-! ## Appending -/

section Appends
variable {H : HeapAllocator η} {append : Append β η} (T : Target H append)

theorem Target.appends_zero : T.Appends (pure 0) [] := by
  intro b h L hb hlive
  exact ⟨rfl, by simp, hb, hlive⟩

theorem Target.Appends.bind {x : Run (β × η) ℕ} {f : ℕ → Run (β × η) ℕ} {b₁ b₂ : List UInt8}
    {T : Target H append} {g : ℕ → ℕ → ℕ} (hx : T.Appends x b₁) (hf : T.Appends (f b₁.length) b₂)
    (hg : g b₁.length b₂.length = b₁.length + b₂.length) :
    T.Appends (do let n ← x; let k ← f n; return g n k) (b₁ ++ b₂) := by
  intro b h L hb hlive
  simp only [meets_bind, meets_pure]
  refine (hx b h L hb hlive).imp ?_
  rintro n ⟨b', h'⟩ ⟨rfl, hc, hb', hlive'⟩
  refine (hf b' h' L hb' hlive').imp ?_
  rintro k ⟨b'', h''⟩ ⟨rfl, hc', hb'', hlive''⟩
  refine ⟨by rw [hg, List.length_append], ?_, hb'', hlive''⟩
  simp only at hc hc' ⊢
  rw [hc', hc, List.append_assoc]

theorem Target.appends_scratch (size : ℕ) (bytes : List UInt8) (h : bytes.length ≤ size) :
    T.Appends (appendScratch append size bytes) bytes := by
  intro b heap L hb hlive
  unfold appendScratch scratchBytes
  simp only [h, if_true, require_ok, pure_bind, meets_bind, meets_pure]
  refine (T.append_meets hb hlive (le_refl _)).imp ?_
  rintro - s' ⟨hc, hb', hlive'⟩
  rw [List.take_length] at hc
  exact ⟨trivial, hc, hb', hlive'⟩

theorem Target.appends_data (len : ℕ) (data : List UInt8) (h : len ≤ data.length) :
    T.Appends (do append len data; return len) (data.take len) := by
  intro b heap L hb hlive
  simp only [meets_bind, meets_pure]
  refine (T.append_meets hb hlive h).imp ?_
  rintro - s' ⟨hc, hb', hlive'⟩
  exact ⟨by rw [List.length_take, Nat.min_eq_left h], hc, hb', hlive'⟩

theorem Target.appends_header (size len : ℕ) (header data : List UInt8)
    (hsize : header.length ≤ size) (hlen : len ≤ data.length) :
    T.Appends (do
      let rv ← appendScratch append size header
      append len data
      return rv + len) (header ++ data.take len) := by
  have h := (T.appends_scratch size header hsize).bind (f := fun _ => do append len data; return len)
    (g := (· + ·)) (T.appends_data len data hlen) rfl
  simpa [bind_assoc] using h

end Appends

/-! ## Fields -/

theorem length_tag_le (id : UInt32) (code : UInt8) : (orFirst (tagPack id) code).length ≤ 5 := by
  have := id.toNat_lt
  rw [length_orFirst, tagPack_eq]
  exact length_base128_le (k := 4) (by omega)

theorem length_uint32Pack_le (v : UInt32) : (uint32Pack v).length ≤ 5 := by
  have := v.toNat_lt
  rw [uint32Pack_eq]
  exact length_base128_le (k := 4) (by omega)

section Fields
variable {H : HeapAllocator η} (hinf : H.Infallible) {append : Append β η} (T : Target H append)
  {sub : Message → Run (BufferSimple × η) ℕ}

/-- What the walk assumes of its calls on sub-messages. -/
def BuffersChildren (S : Schema) (sub : Message → Run (BufferSimple × η) ℕ) (cs : List Message) :
    Prop :=
  ∀ c ∈ cs, (c.encode S).length < 2 ^ 32 → (simpleTarget hinf).Appends (sub c) (c.encode S)

variable {hinf}

/-- The sub-message goes through a temporary buffer, which is released. -/
theorem Target.appends_simple {m : Message} {tag body : List UInt8} (htag : tag.length ≤ 5)
    (hm : (simpleTarget hinf).Appends (sub m) body) :
    T.Appends (do
      let (sublen, simple_buffer) ← withSimpleBuffer (sub m) (BufferSimple.init 256)
      let rv ← appendScratch append 20 (tag ++ uint32Pack (UInt32.ofNat sublen))
      append sublen simple_buffer.data
      onHeap (bufferSimpleClear H.toAllocator simple_buffer)
      return rv + sublen) (tag ++ prefixed body) := by
  intro b h L hb hlive
  have hinit : (BufferSimple.init 256).Inv := ⟨by decide, by decide, by simp [BufferSimple.init]⟩
  have hstart : H.live h = (BufferSimple.init 256).owned + (T.owned b + L) := by
    simpa [BufferSimple.init, BufferSimple.owned] using hlive
  simp only [meets_bind, meets_withSimpleBuffer]
  refine (hm _ h _ hinit hstart).imp ?_
  rintro n ⟨simple, h₁⟩ ⟨rfl, hc, hinv, hlive₁⟩
  have hdata : simple.data = body := hc
  have hlive₁' : H.live h₁ = T.owned b + (simple.owned + L) := by
    rw [show H.live h₁ = simple.owned + (T.owned b + L) from hlive₁]
    exact add_left_comm _ _ _
  have hscratch := T.appends_header 20 body.length
    (tag ++ uint32Pack (UInt32.ofNat body.length)) simple.data
    (by have := length_uint32Pack_le (UInt32.ofNat body.length); simp only [List.length_append]; omega)
    (by rw [hdata])
  have hrun := hscratch b h₁ _ hb hlive₁'
  simp only [meets_bind, meets_pure] at hrun
  refine hrun.imp fun rv s₂ h₂ => h₂.imp ?_
  rintro - ⟨b₃, h₃⟩ ⟨hn, hc₃, hb₃, hlive₃⟩
  have hlive₃' : H.live h₃ = simple.owned + (T.owned b₃ + L) := by
    rw [show H.live h₃ = T.owned b₃ + (simple.owned + L) from hlive₃]
    exact add_left_comm _ _ _
  have hclear : Meets NoFault (bufferSimpleClear H.toAllocator simple) h₃
      fun _ h₄ => H.live h₄ = T.owned b₃ + L := by
    unfold bufferSimpleClear
    unfold BufferSimple.owned at hlive₃'
    cases hmust : simple.mustFreeData with
    | true =>
      obtain ⟨k, hk⟩ : ∃ k, simple.addr = some (.block k) := hinv.addr hmust
      rw [hmust, if_pos rfl] at hlive₃'
      exact (meets_freePtr H (by simp [hk]) hlive₃').imp fun _ _ h => h.1
    | false =>
      rw [hmust] at hlive₃'
      simpa using hlive₃'
  simp only [meets_onHeap]
  refine hclear.imp fun _ h₄ hlive₄ => ?_
  rw [hdata, List.take_length, List.append_assoc] at hn hc₃
  exact ⟨hn, hc₃, hb₃, hlive₄⟩

theorem Target.appends_requiredField {v : Value} (hv : Value.HasType field.type v)
    (hr : v.Readable) (hsub : BuffersChildren hinf S sub v.children)
    (hlt : (v.record (Message.encode S) field).bytes.length < 2 ^ 32) :
    T.Appends (requiredFieldPackToBuffer H.toAllocator append sub field v)
      (v.record (Message.encode S) field).bytes := by
  have hbody : ∀ p, field.type = .message → v = .message p →
      (Value.body (Message.encode S) (.message p)).length < 2 ^ 32 := by
    rintro p ht rfl
    exact length_body_lt hlt ht
  have hscratch : ∀ code bytes, bytes.length ≤ 10 →
      (orFirst (tagPack field.id) code ++ bytes).length ≤ 20 := by
    intro code bytes hle
    have := length_tag_le field.id code
    rw [List.length_append]
    omega
  have hlen := fun hp => (length_scalarBytes hp hv).2
  unfold requiredFieldPackToBuffer Value.record Value.payload Record.bytes
  generalize field.type = type at hv hbody hlen ⊢
  cases type <;> cases v <;> try exact False.elim hv
  case string.string p =>
    have hheader : ∀ n, (orFirst (tagPack field.id) WireType.lengthPrefixed.code ++
        uint32Pack n).length ≤ 20 := fun n => hscratch _ _ (by
          have := length_uint32Pack_le n
          omega)
    simp only [Value.loadString, require_ok, pure_bind]
    cases p with
    | none =>
      have := T.appends_header _ _ _ _ (hheader 0) (Nat.zero_le ([] : List UInt8).length)
      simpa [FieldType.wireType, isPackableType, Value.body, prefixed] using this
    | some p =>
      have hle : (cString p.val).length ≤ p.val.length := (List.takeWhile_prefix _).length_le
      have htake : p.val.take (cString p.val).length = cString p.val :=
        (List.prefix_iff_eq_take.mp (List.takeWhile_prefix _)).symm
      have := T.appends_header _ _ _ _ (hheader (UInt32.ofNat (cString p.val).length)) hle
      rw [htake] at this
      simpa [FieldType.wireType, isPackableType, Value.body, prefixed] using this
  case bytes.bytes len p =>
    have hheader : ∀ n, (orFirst (tagPack field.id) WireType.lengthPrefixed.code ++
        uint32Pack n).length ≤ 20 := fun n => hscratch _ _ (by
          have := length_uint32Pack_le n
          omega)
    have hlen : ((p.elim [] Ptr.val).take len).length = len := by
      rw [List.length_take]
      exact Nat.min_eq_left hr
    have := T.appends_header _ _ _ _ (hheader (UInt32.ofNat len)) hr
    simp only [Value.loadBytes, require_ok, pure_bind]
    simpa [FieldType.wireType, isPackableType, body_bytes, prefixed, hlen] using this
  case message.message p =>
    simp only [Value.loadMessage, require_ok, pure_bind]
    cases p with
    | null =>
      have hheader := T.appends_header 20 0
        (orFirst (tagPack field.id) WireType.lengthPrefixed.code ++ uint32Pack 0) []
        (hscratch _ _ (by decide)) (le_refl _)
      simpa [FieldType.wireType, isPackableType, Value.body, prefixed, BufferSimple.init,
        bufferSimpleClear] using hheader
    | ref a m =>
      exact T.appends_simple (length_tag_le _ _)
        (hsub m (by simp [Value.children]) (hbody _ rfl rfl))
  all_goals exact T.appends_scratch _ _ (hscratch _ _ (hlen rfl))

theorem Target.appends_loop {pack : Value → Except Fault (List UInt8)} {g : Value → List UInt8}
    {vs : List Value} (h : ∀ v ∈ vs, pack v = .ok (g v) ∧ (g v).length ≤ 10) (rv : ℕ)
    {b : β} {heap : η} {L : Multiset ℕ} (hb : T.inv b) (hlive : H.live heap = T.owned b + L) :
    Meets NoFault (appendLoop append pack vs rv) (b, heap) fun n s' =>
      n = rv + (vs.flatMap g).length ∧ T.content s'.1 = T.content b ++ vs.flatMap g ∧
        T.inv s'.1 ∧ H.live s'.2 = T.owned s'.1 + L := by
  induction vs generalizing rv b heap with
  | nil =>
    rw [appendLoop, meets_pure]
    exact ⟨by simp, by simp, hb, hlive⟩
  | cons v vs ih =>
    obtain ⟨hpack, hlen⟩ := h v (by simp)
    rw [appendLoop, hpack, require_ok, pure_bind, meets_bind]
    refine (T.appends_scratch _ _ (by omega) b heap L hb hlive).imp ?_
    rintro n ⟨b', heap'⟩ ⟨rfl, hc, hb', hlive'⟩
    refine (ih (fun w hw => h w (by simp [hw])) _ hb' hlive').imp ?_
    rintro n ⟨b'', heap''⟩ ⟨rfl, hc', hb'', hlive''⟩
    simp only at hc hc' ⊢
    refine ⟨?_, ?_, hb'', hlive''⟩
    · rw [List.flatMap_cons, List.length_append, Nat.add_assoc]
    · rw [hc', hc, List.flatMap_cons, List.append_assoc]

theorem arrayBytes_eq {pack : Value → Except Fault (List UInt8)} {g : Value → List UInt8}
    {vs : List Value} (h : ∀ v ∈ vs, pack v = .ok (g v)) :
    arrayBytes pack vs = .ok (vs.flatMap g) := by
  have hmap : vs.mapM pack = .ok (vs.map g) := by
    induction vs with
    | nil => rfl
    | cons v vs ih =>
      rw [List.mapM_cons, h v (by simp), ih fun w hw => h w (by simp [hw])]
      rfl
  unfold arrayBytes
  rw [hmap]
  rfl

theorem packedElementsLength_eq {type : FieldType} (hp : isPackableType type = true)
    {vs : List Value} (hvs : ∀ v ∈ vs, Value.HasType type v) :
    packedElementsLength type vs.length vs = .ok (vs.flatMap (scalarBytes type)).length := by
  have hconst : ∀ k, (∀ v ∈ vs, (scalarBytes type v).length = k) →
      vs.length * k = (vs.map fun v => (scalarBytes type v).length).sum := by
    intro k hk
    rw [List.map_congr_left hk]
    simp
  rw [List.length_flatMap]
  unfold packedElementsLength
  cases type
  case string | bytes | message => exact absurd hp (by decide)
  case sfixed32 | fixed32 | float =>
    refine congrArg Except.ok (hconst 4 fun v hv => ?_)
    have ht := hvs v hv
    cases v <;> first | exact False.elim ht | rfl
  case sfixed64 | fixed64 | double =>
    refine congrArg Except.ok (hconst 8 fun v hv => ?_)
    have ht := hvs v hv
    cases v <;> first | exact False.elim ht | rfl
  case bool =>
    refine congrArg Except.ok (((Nat.mul_one _).symm.trans (hconst 1 fun v hv => ?_)))
    have ht := hvs v hv
    cases v <;> first | exact False.elim ht | rfl
  all_goals
    refine sumSizes_eq fun v hv => ?_
    have ht := hvs v hv
    cases v <;> first
      | exact False.elim ht
      | simp [Value.loadWord32, Value.loadWord64, scalarBytes]

/-- The length announced for a packed field is that of its elements. -/
theorem getPackedPayloadLength_eq {type : FieldType} (hp : isPackableType type = true)
    {vs : List Value} (hvs : ∀ v ∈ vs, Value.HasType type v)
    (hlt : (vs.flatMap (scalarBytes type)).length < 2 ^ 32) :
    getPackedPayloadLength type vs.length vs =
      .ok (vs.flatMap (scalarBytes type)).length := by
  unfold getPackedPayloadLength
  rw [packedElementsLength_eq hp hvs, except_ok_bind, Nat.mod_eq_of_lt hlt]
  rfl

theorem Target.appends_packedPayload {type : FieldType} (hp : isPackableType type = true)
    {vs : List Value} (hvs : ∀ v ∈ vs, Value.HasType type v)
    (hlt : (vs.flatMap (scalarBytes type)).length < 2 ^ 32) :
    T.Appends (packBufferPackedPayload append type vs.length vs)
      (vs.flatMap (scalarBytes type)) := by
  have hlen : ∀ v ∈ vs, (scalarBytes type v).length ≤ 10 := fun v hv =>
    (length_scalarBytes hp (hvs v hv)).2
  have hloop : ∀ pack : Value → Except Fault (List UInt8),
      (∀ v ∈ vs, pack v = .ok (scalarBytes type v)) →
      T.Appends (appendLoop append pack vs 0) (vs.flatMap (scalarBytes type)) := by
    intro pack hpack b h L hb hlive
    have := T.appends_loop (fun v hv => ⟨hpack v hv, hlen v hv⟩) 0 hb hlive
    simpa using this
  have hwords : ∀ k, ∀ pack : Value → Except Fault (List UInt8),
      (∀ v ∈ vs, pack v = .ok (scalarBytes type v) ∧ (scalarBytes type v).length = k) →
      T.Appends (do
        let array ← require (arrayBytes pack vs)
        let rv := vs.length * k % 2 ^ 32
        append rv array
        return rv) (vs.flatMap (scalarBytes type)) := by
    intro k pack hpack
    have hk : (vs.flatMap (scalarBytes type)).length = vs.length * k := by
      rw [List.length_flatMap, List.map_congr_left fun v hv => (hpack v hv).2]
      simp
    have hmod : vs.length * k % 2 ^ 32 = vs.length * k := Nat.mod_eq_of_lt (by omega)
    rw [arrayBytes_eq fun v hv => (hpack v hv).1, require_ok, pure_bind]
    simp only [hmod]
    have := T.appends_data (vs.length * k) (vs.flatMap (scalarBytes type)) (by omega)
    rwa [← hk, List.take_length, hk] at this
  unfold packBufferPackedPayload
  cases type
  case string | bytes | message => exact absurd hp (by decide)
  case sfixed32 | fixed32 | float =>
    refine hwords 4 _ fun v hv => ?_
    have ht := hvs v hv
    cases v <;> first | exact False.elim ht | exact ⟨rfl, rfl⟩
  case sfixed64 | fixed64 | double =>
    refine hwords 8 _ fun v hv => ?_
    have ht := hvs v hv
    cases v <;> first | exact False.elim ht | exact ⟨rfl, rfl⟩
  case bool =>
    have hone : (vs.flatMap (scalarBytes .bool)).length = vs.length := by
      rw [List.length_flatMap, List.map_congr_left (g := fun _ => 1)]
      · simp
      · intro v hv
        have ht := hvs v hv
        cases v <;> first | exact False.elim ht | rfl
    have hrun := hloop (fun v => return booleanPack (← v.loadBoolean)) fun v hv => by
      have ht := hvs v hv
      cases v <;> first | exact False.elim ht | rfl
    intro b h L hb hlive
    simp only [meets_bind, meets_pure]
    refine (hrun b h L hb hlive).imp ?_
    rintro n s' ⟨-, hrest⟩
    exact ⟨hone.symm, hrest⟩
  all_goals
    refine hloop _ fun v hv => ?_
    have ht := hvs v hv
    cases v <;> first | exact False.elim ht | rfl

theorem Target.appends_packedField {a : CArray Value} (hg : field.Generated)
    (hp : field.packed = true) (ha : SlotPackable field (.repeated a)) (h0 : a.n ≠ 0)
    (hlt : (a.elems.flatMap (scalarBytes field.type)).length < 2 ^ 32) :
    T.Appends (repeatedFieldPackToBuffer H.toAllocator append sub field a.n a)
      (packedRecord field a.elems).bytes := by
  obtain ⟨-, hn, hvs⟩ := ha
  have hpackable := (hg.packed hp).2
  have hvs' : ∀ v ∈ a.elems, Value.HasType field.type v := fun v hv => (hvs v hv).1
  have hpayload := T.appends_packedPayload hpackable hvs' hlt
  have hlength := getPackedPayloadLength_eq hpackable hvs' hlt
  rw [← hn] at hpayload hlength
  unfold repeatedFieldPackToBuffer packedRecord Record.bytes prefixed
  rw [if_neg h0, CArray.load_self hn, require_ok, pure_bind, if_pos hp, hlength, require_ok,
    pure_bind]
  generalize a.elems.flatMap (scalarBytes field.type) = body at *
  have hscratch := T.appends_scratch 20
    (orFirst (tagPack field.id) WireType.lengthPrefixed.code ++
      uint32Pack (UInt32.ofNat body.length)) (by
        have := length_tag_le field.id WireType.lengthPrefixed.code
        have := length_uint32Pack_le (UInt32.ofNat body.length)
        rw [List.length_append]
        omega)
  intro b h L hb hlive
  rw [meets_bind, ← List.append_assoc]
  refine (hscratch b h L hb hlive).imp ?_
  rintro rv ⟨b', h'⟩ ⟨hrv, hc, hb', hlive'⟩
  rw [meets_bind]
  refine (hpayload b' h' L hb' hlive').imp ?_
  rintro tmp ⟨b'', h''⟩ ⟨rfl, hc', hb'', hlive''⟩
  simp only at hc hc'
  rw [if_neg (not_not.mpr rfl), meets_pure]
  refine ⟨by simp only [hrv, List.length_append], ?_, hb'', hlive''⟩
  simp only
  rw [hc', hc, List.append_assoc]

theorem Target.appends_requiredFieldLoop {vs : List Value}
    (hvs : ∀ v ∈ vs, Value.HasType field.type v ∧ v.Readable ∧ v.NonNull)
    (hsub : ∀ v ∈ vs, BuffersChildren hinf S sub v.children) {rv : ℕ} {b : β} {h : η}
    {L : Multiset ℕ} (hb : T.inv b) (hlive : H.live h = T.owned b + L)
    (hlt : rv + ((vs.map (Value.record (Message.encode S) field)).flatMap
      Record.bytes).length < 2 ^ 32) :
    Meets NoFault (requiredFieldPackToBufferLoop H.toAllocator append sub field vs rv) (b, h)
      fun n s' => n = rv + ((vs.map (Value.record (Message.encode S) field)).flatMap
        Record.bytes).length ∧ T.content s'.1 = T.content b ++
          (vs.map (Value.record (Message.encode S) field)).flatMap Record.bytes ∧
            T.inv s'.1 ∧ H.live s'.2 = T.owned s'.1 + L := by
  induction vs generalizing rv b h with
  | nil =>
    rw [requiredFieldPackToBufferLoop, meets_pure]
    exact ⟨by simp, by simp, hb, hlive⟩
  | cons v vs ih =>
    rw [List.map_cons, List.flatMap_cons, List.length_append] at hlt
    obtain ⟨ht, hr, -⟩ := hvs v (by simp)
    have hone := T.appends_requiredField ht hr (hsub v (by simp)) (by omega)
    rw [requiredFieldPackToBufferLoop, meets_bind]
    refine (hone b h L hb hlive).imp ?_
    rintro n ⟨b', h'⟩ ⟨rfl, hc, hb', hlive'⟩
    rw [Nat.mod_eq_of_lt (by omega)]
    refine (ih (fun w hw => hvs w (by simp [hw])) (fun w hw => hsub w (by simp [hw])) hb' hlive'
      (by omega)).imp ?_
    rintro k ⟨b'', h''⟩ ⟨rfl, hc', hb'', hlive''⟩
    simp only at hc hc'
    refine ⟨?_, ?_, hb'', hlive''⟩
    · rw [List.map_cons, List.flatMap_cons, List.length_append, Nat.add_assoc]
    · simp only
      rw [hc', hc, List.map_cons, List.flatMap_cons, List.append_assoc]

/-- Every record takes a byte, so there are fewer than `2^32` of them. -/
theorem length_le_flatMap_bytes (rs : List Record) : rs.length ≤ (rs.flatMap Record.bytes).length := by
  induction rs with
  | nil => simp
  | cons r rs ih =>
    have := List.length_pos_of_ne_nil r.bytes_ne_nil
    rw [List.flatMap_cons, List.length_append, List.length_cons]
    omega

theorem Target.appends_field {slot : Slot} (hg : field.Generated) (hs : SlotPackable field slot)
    (hsub : BuffersChildren hinf S sub (slot.writtenChildren field))
    (hlt : ((slotRecords (Message.encode S) field slot).flatMap Record.bytes).length < 2 ^ 32) :
    T.Appends (fieldPackToBuffer H.toAllocator append sub field slot)
      ((slotRecords (Message.encode S) field slot).flatMap Record.bytes) := by
  unfold fieldPackToBuffer
  cases slot with
  | singular has v =>
    obtain ⟨hl, ht, hr⟩ := hs
    have hrecord : field.label = .required ∨ field.isSet has v = true →
        T.Appends (requiredFieldPackToBuffer H.toAllocator append sub field v)
          ((slotRecords (Message.encode S) field (.singular has v)).flatMap Record.bytes) := by
      intro hset
      simp only [slotRecords, hset, if_true, List.flatMap_cons, List.flatMap_nil,
        List.append_nil] at hlt ⊢
      exact T.appends_requiredField ht (hr hset) (Slot.writtenChildren_singular hset ▸ hsub) hlt
    cases hlabel : field.label with
    | required => exact hrecord (.inl hlabel)
    | optional =>
      simp only [optionalFieldPackToBuffer]
      by_cases hset : field.isSet has v = true
      · rw [if_pos hset]
        exact hrecord (.inr hset)
      · rw [if_neg hset]
        simp only [slotRecords, hlabel, hset, reduceCtorEq, or_self, if_false, List.flatMap_nil]
        exact T.appends_zero
    | repeated => exact absurd hlabel hl
  | repeated a =>
    have hs' := hs
    obtain ⟨hl, hn, hvs⟩ := hs'
    simp only [hl]
    by_cases h0 : a.n = 0
    · have hnil : a.elems = [] := List.length_eq_zero_iff.mp (by omega)
      simp only [repeatedFieldPackToBuffer, slotRecords, h0, hnil, if_true, Nat.zero_mod, List.map_nil,
        ite_self, List.flatMap_nil]
      exact T.appends_zero
    by_cases hp : field.packed = true
    · have hlt' : (a.elems.flatMap (scalarBytes field.type)).length < 2 ^ 32 := by
        simp only [slotRecords, hp, h0, if_true, if_false, List.flatMap_cons, List.flatMap_nil,
          List.append_nil, length_bytes, packedRecord, length_prefixed] at hlt
        omega
      have hcount : a.n < 2 ^ 32 := by
        have hmin := (minLength_le (hg.packed hp).2 fun v hv => (hvs v hv).1).1
        have hpos : 1 ≤ getTypeMinSize field.type := by
          unfold getTypeMinSize
          split_ifs <;> norm_num
        have := Nat.mul_le_mul_right a.elems.length hpos
        omega
      simp only [slotRecords, hp, h0, if_true, if_false, List.flatMap_cons, List.flatMap_nil,
        List.append_nil, Nat.mod_eq_of_lt hcount]
      exact T.appends_packedField hg hp hs h0 hlt'
    · simp only [slotRecords, hp] at hlt ⊢
      have hcount := length_le_flatMap_bytes (a.elems.map (Value.record (Message.encode S) field))
      rw [List.length_map, ← hn] at hcount
      intro b h L hb hlive
      have hloop := T.appends_requiredFieldLoop hvs
        (fun v hv c hc => hsub c (List.mem_flatMap.mpr ⟨v, hv, hc⟩)) hb hlive
        (by rw [Nat.zero_add]; exact hlt)
      have hmod : a.n % 2 ^ 32 = a.n := Nat.mod_eq_of_lt (lt_of_le_of_lt hcount hlt)
      simp only [repeatedFieldPackToBuffer, hmod, h0, hp, if_false, CArray.load_self hn, require_ok,
        pure_bind, Bool.false_eq_true]
      simpa using hloop

theorem Target.appends_fields {fields : List FieldDescriptor} {slots : List Slot}
    (hg : ∀ f ∈ fields, f.Generated) (hs : List.Forall₂ SlotPackable fields slots)
    (hsub : ∀ p ∈ fields.zip slots, BuffersChildren hinf S sub (p.2.writtenChildren p.1)) {rv : ℕ}
    {b : β} {h : η} {L : Multiset ℕ} (hb : T.inv b) (hlive : H.live h = T.owned b + L)
    (hlt : ((List.zipWith (slotRecords (Message.encode S)) fields slots).flatten.flatMap
      Record.bytes).length < 2 ^ 32) :
    Meets NoFault (fieldsPackToBuffer H.toAllocator append sub fields slots rv) (b, h)
      fun n s' => n = rv + ((List.zipWith (slotRecords (Message.encode S)) fields
        slots).flatten.flatMap Record.bytes).length ∧ T.content s'.1 = T.content b ++
          (List.zipWith (slotRecords (Message.encode S)) fields slots).flatten.flatMap
            Record.bytes ∧ T.inv s'.1 ∧ H.live s'.2 = T.owned s'.1 + L := by
  induction hs generalizing rv b h with
  | nil =>
    rw [fieldsPackToBuffer, meets_pure]
    exact ⟨by simp, by simp, hb, hlive⟩
  | @cons f s fields slots hfs _ ih =>
    rw [List.zipWith_cons_cons, List.flatten_cons, List.flatMap_append, List.length_append] at hlt
    have hone := T.appends_field (hg f (by simp)) hfs (hsub (f, s) (by simp)) (by omega)
    rw [fieldsPackToBuffer, meets_bind]
    refine (hone b h L hb hlive).imp ?_
    rintro n ⟨b', h'⟩ ⟨rfl, hc, hb', hlive'⟩
    refine (ih (fun f' hf' => hg f' (by simp [hf'])) (fun p hp => hsub p (by simp [hp])) hb'
      hlive' (by omega)).imp ?_
    rintro k ⟨b'', h''⟩ ⟨rfl, hc', hb'', hlive''⟩
    simp only at hc hc'
    refine ⟨?_, ?_, hb'', hlive''⟩
    · rw [List.zipWith_cons_cons, List.flatten_cons, List.flatMap_append, List.length_append,
        Nat.add_assoc]
    · simp only
      rw [hc', hc, List.zipWith_cons_cons, List.flatten_cons, List.flatMap_append,
        List.append_assoc]

theorem Target.appends_unknownFields {us : List MessageUnknownField}
    (hus : ∀ u ∈ us, u.len ≤ (u.data.elim [] Ptr.val).length) {rv : ℕ} {b : β} {h : η}
    {L : Multiset ℕ} (hb : T.inv b) (hlive : H.live h = T.owned b + L) :
    Meets NoFault (unknownFieldsPackToBuffer append us rv) (b, h) fun n s' =>
      n = rv + ((us.map unknownRecord).flatMap Record.bytes).length ∧
        T.content s'.1 = T.content b ++ (us.map unknownRecord).flatMap Record.bytes ∧
          T.inv s'.1 ∧ H.live s'.2 = T.owned s'.1 + L := by
  induction us generalizing rv b h with
  | nil =>
    rw [unknownFieldsPackToBuffer, meets_pure]
    exact ⟨by simp, by simp, hb, hlive⟩
  | cons u us ih =>
    have hu := hus u (by simp)
    have hone : T.Appends (unknownFieldPackToBuffer append u) (unknownRecord u).bytes :=
      T.appends_header 10 _ _ _ (by have := length_tag_le u.tag u.wireType.code; omega) hu
    rw [unknownFieldsPackToBuffer, meets_bind]
    refine (hone b h L hb hlive).imp ?_
    rintro n ⟨b', h'⟩ ⟨rfl, hc, hb', hlive'⟩
    refine (ih (fun w hw => hus w (by simp [hw])) hb' hlive').imp ?_
    rintro k ⟨b'', h''⟩ ⟨rfl, hc', hb'', hlive''⟩
    simp only at hc hc'
    refine ⟨?_, ?_, hb'', hlive''⟩
    · rw [List.map_cons, List.flatMap_cons, List.length_append, Nat.add_assoc]
    · simp only
      rw [hc', hc, List.map_cons, List.flatMap_cons, List.append_assoc]

/-! ## Messages -/

theorem Target.appends_messageLayer {m : Message} (hm : m.Packable S)
    (hsub : ∀ c ∈ m.writtenChildren S, (c.encode S).length < 2 ^ 32 →
      (simpleTarget hinf).Appends (sub c) (c.encode S))
    (hlt : (m.encode S).length < 2 ^ 32) :
    T.Appends (messagePackToBufferLayer H.toAllocator append sub S m) (m.encode S) := by
  obtain ⟨_, hslots, hn, hunknown, hchildren⟩ := hm
  have hchild : ∀ p ∈ (S.desc m.descriptor).fields.zip m.slots,
      BuffersChildren hinf S sub (p.2.writtenChildren p.1) := fun p hp c hc =>
    hsub c (Message.mem_writtenChildren.mpr ⟨p, hp, hc⟩)
  rw [m.encode_eq S, Message.records, recordsLayer, List.flatMap_append] at hlt ⊢
  rw [List.length_append] at hlt
  intro b h L hb hlive
  unfold messagePackToBufferLayer
  rw [meets_bind]
  refine (T.appends_fields (S.generated _).field hslots hchild hb hlive (by omega)).imp ?_
  rintro n ⟨b', h'⟩ ⟨rfl, hc, hb', hlive'⟩
  rw [CArray.load_self hn, require_ok, pure_bind]
  refine (T.appends_unknownFields hunknown hb' hlive').imp ?_
  rintro k ⟨b'', h''⟩ ⟨rfl, hc', hb'', hlive''⟩
  simp only at hc hc'
  refine ⟨by rw [List.length_append, Nat.zero_add], ?_, hb'', hlive''⟩
  simp only
  rw [hc', hc, List.append_assoc]

variable (hinf)

theorem appends_messagePackToSimple {m : Message} (hm : m.Packable S)
    (hlt : (m.encode S).length < 2 ^ 32) :
    (simpleTarget hinf).Appends (messagePackToSimple H.toAllocator S m) (m.encode S) := by
  refine layerRec_spec (P := fun m (r : Run (BufferSimple × η) ℕ) => m.Packable S →
    (m.encode S).length < 2 ^ 32 → (simpleTarget hinf).Appends r (m.encode S)) ?_ m hm hlt
  intro m sub hsub hm hlt
  have hchildren : ∀ c ∈ m.writtenChildren S, c.Packable S := by
    obtain ⟨_, _, _, _, hchildren⟩ := hm
    exact hchildren
  exact (simpleTarget hinf).appends_messageLayer hm
    (fun c hc => hsub c (m.depth_children c (Message.writtenChildren_subset hc)) (hchildren c hc)) hlt

include hinf in
theorem Target.appends_messagePackToBuffer {m : Message} (hm : m.Packable S)
    (hlt : (m.encode S).length < 2 ^ 32) :
    T.Appends (messagePackToBuffer H.toAllocator append S m) (m.encode S) := by
  have hchildren : ∀ c ∈ m.writtenChildren S, c.Packable S := by
    obtain ⟨_, _, _, _, hchildren⟩ := hm
    exact hchildren
  exact T.appends_messageLayer hm
    (fun c hc hc' => appends_messagePackToSimple hinf (hchildren c hc) hc') hlt

end Fields

end ProtobufC
