import ProtobufC.Buffer.DataBuffer
import ProtobufC.Dispatch.ExactTable
import ProtobufC.Library.Store
import ProtobufC.Runtime.VarintPack
import ProtobufC.Runtime.VarintParse

/-! # The protocol of remote calls

What the two ends of `protobuf-c-rpc.c` share: the services they talk about, the words of the headers,
and the functions that they register with the dispatcher.  A header word is little-endian; the request
number is sent as the machine holds it, which is little-endian too.
-/

namespace ProtobufC
open Library
set_option autoImplicit false

/-! ## Services -/

/-- `ProtobufCMethodDescriptor`, without the name. -/
structure MethodDescriptor where
  input : DescriptorId
  output : DescriptorId
  deriving DecidableEq

/-- `ProtobufCServiceDescriptor`, without what is there for lookups by name. -/
structure ServiceDescriptor where
  methods : List MethodDescriptor
  deriving DecidableEq

/-- `n_methods` -/
def ServiceDescriptor.nMethods (desc : ServiceDescriptor) : ℕ := desc.methods.length

/-- What the two ends need of messages: `protobuf_c_message_pack`, and `protobuf_c_message_unpack`
with the descriptor it is given. -/
structure Codec (μ : Type) where
  pack : μ → List UInt8
  unpack : DescriptorId → List UInt8 → Option μ

/-! ## Headers -/

/-- `ProtobufC_RPC_Status_Code` -/
inductive StatusCode
  | success
  | serviceFailed
  | tooManyPending
  deriving DecidableEq

def StatusCode.code : StatusCode → UInt32
  | .success => 0
  | .serviceFailed => 1
  | .tooManyPending => 2

/-- `uint32_from_le (header[i])`, and `header[i]` for the request number. -/
def headerWord (header : List UInt8) (i : ℕ) : UInt32 := parseFixedUint32 (header.drop (4 * i))

/-- The bytes of a header. -/
def headerBytes (words : List UInt32) : List UInt8 := words.flatMap fixed32Pack

/-- What `protobuf_c_data_buffer_read` leaves in a new block of `length` bytes; where the buffer holds
fewer, the rest of the block stays as it was allocated. -/
def readBlock (incoming : List UInt8) (length : ℕ) : List UInt8 :=
  incoming.take length ++ List.replicate (length - incoming.length) 0

/-! ## Events -/

/-- `PROTOBUF_C_EVENT_READABLE` -/
def eventReadable : UInt32 := 1

/-- `PROTOBUF_C_EVENT_WRITABLE` -/
def eventWritable : UInt32 := 2

/-- How many bytes `protobuf_c_data_buffer_writev` takes from the buffer. -/
def WritevOutcome.count : WritevOutcome → ℕ
  | .accepts count => count
  | .ignorable | .fails => 0

/-- What `read` does. -/
inductive ReadOutcome
  /-- It delivers bytes, and none at the end of the file. -/
  | received (data : List UInt8)
  | ignorable
  | fails
  deriving DecidableEq

/-- The functions that are registered. -/
inductive RpcHandler
  | clientConnectEvents
  | clientEvents
  | serverConnectionEvents
  deriving DecidableEq

/-- A function with its data, the number of the client or of the connection. -/
def RpcHandler.callback (handler : RpcHandler) (data : ℕ) : Callback :=
  match handler with
  | .clientConnectEvents => ⟨1, data⟩
  | .clientEvents => ⟨2, data⟩
  | .serverConnectionEvents => ⟨3, data⟩

/-! ## Header words -/

theorem length_headerBytes (words : List UInt32) : (headerBytes words).length = 4 * words.length := by
  unfold headerBytes
  induction words with
  | nil => rfl
  | cons word words ih =>
    rw [List.flatMap_cons, List.length_append, length_fixed32Pack, ih, List.length_cons]
    omega

theorem headerWord_headerBytes : ∀ (words : List UInt32) (i : ℕ) (word : UInt32)
    (rest : List UInt8), words[i]? = some word →
    headerWord (headerBytes words ++ rest) i = word := by
  intro words
  induction words with
  | nil => intro i word rest h; exact absurd h (by simp)
  | cons w words ih =>
    intro i word rest h
    have happ : headerBytes (w :: words) ++ rest = fixed32Pack w ++ (headerBytes words ++ rest) := by
      unfold headerBytes
      rw [List.flatMap_cons, List.append_assoc]
    cases i with
    | zero =>
      obtain rfl : w = word := by simpa using h
      unfold headerWord
      rw [happ, Nat.mul_zero, List.drop_zero, parseFixedUint32_fixed32Pack]
    | succ i =>
      have hi := ih i word rest (by simpa using h)
      unfold headerWord at hi ⊢
      rw [happ, show 4 * (i + 1) = (fixed32Pack w).length + 4 * i by rw [length_fixed32Pack]; omega,
        ← List.drop_drop, List.drop_left]
      exact hi

end ProtobufC
