import ProtobufC.Library.Simulation
import ProtobufC.Rpc.Client

/-! # Remote calls

What the two ends of a connection are for.  A call is asked by the client, given to the service, answered
by it, and returned to the closure of the client.  The calls are given in the order in which they are
asked; they are answered in any order, and returned in the order in which they are answered.  An answer
without a message comes back as whatever an empty payload is read as.

`traced_of_trace` says that a closure gets the answer to its own call, and `perm_asked` that it gets it
once.
-/

namespace ProtobufC
open Library
set_option autoImplicit false

variable {μ : Type}

/-- A request, as the client makes it. -/
structure RemoteCall (μ : Type) where
  serial : ℕ
  requestId : UInt32
  methodIndex : ℕ
  method : MethodDescriptor
  input : μ

/-- The payload of a response. -/
def Codec.reply (codec : Codec μ) : Option μ → List UInt8
  | none => []
  | some message => codec.pack message

namespace RemoteCall
variable (codec : Codec μ) (call : RemoteCall μ) (answer : Option μ)

/-- The bytes of a request. -/
def request : List UInt8 :=
  headerBytes [UInt32.ofNat call.methodIndex, UInt32.ofNat (codec.pack call.input).length,
    call.requestId] ++ codec.pack call.input

/-- The status in the header of a response. -/
def status : Option μ → StatusCode
  | none => .serviceFailed
  | some _ => .success

/-- The bytes of a response. -/
def response : List UInt8 :=
  headerBytes [(status answer).code, UInt32.ofNat call.methodIndex,
    UInt32.ofNat (codec.reply answer).length, call.requestId] ++ codec.reply answer

theorem length_request : (call.request codec).length = 12 + (codec.pack call.input).length := by
  unfold request
  rw [List.length_append, length_headerBytes]
  rfl

theorem headerWord_request (more : List UInt8) :
    headerWord (call.request codec ++ more) 0 = UInt32.ofNat call.methodIndex ∧
    headerWord (call.request codec ++ more) 1 = UInt32.ofNat (codec.pack call.input).length ∧
    headerWord (call.request codec ++ more) 2 = call.requestId := by
  unfold request
  rw [List.append_assoc]
  exact ⟨headerWord_headerBytes _ 0 _ _ rfl, headerWord_headerBytes _ 1 _ _ rfl,
    headerWord_headerBytes _ 2 _ _ rfl⟩

theorem drop_request (more : List UInt8) :
    (call.request codec ++ more).drop 12 = codec.pack call.input ++ more := by
  unfold request
  rw [List.append_assoc]
  exact List.drop_left' (length_headerBytes _)

theorem length_response :
    (call.response codec answer).length = 16 + (codec.reply answer).length := by
  unfold response
  rw [List.length_append, length_headerBytes]
  rfl

theorem headerWord_response (more : List UInt8) :
    headerWord (call.response codec answer ++ more) 2 = UInt32.ofNat (codec.reply answer).length ∧
    headerWord (call.response codec answer ++ more) 3 = call.requestId := by
  unfold response
  rw [List.append_assoc]
  exact ⟨headerWord_headerBytes _ 2 _ _ rfl, headerWord_headerBytes _ 3 _ _ rfl⟩

theorem drop_response (more : List UInt8) :
    (call.response codec answer ++ more).drop 16 = codec.reply answer ++ more := by
  unfold response
  rw [List.append_assoc]
  exact List.drop_left' (length_headerBytes _)

end RemoteCall

theorem readBlock_append (data more : List UInt8) : readBlock (data ++ more) data.length = data := by
  unfold readBlock
  rw [List.take_left, List.length_append, Nat.sub_eq_zero_of_le (Nat.le_add_right _ _),
    List.replicate_zero, List.append_nil]

/-- The bytes that `read` delivers. -/
def receivedBytes : Option ReadOutcome → List UInt8
  | some (.received data) => data
  | some .ignorable | some .fails | none => []

/-- Neither the end of the stream nor an error. -/
def Alive (readable : Option ReadOutcome) : Prop :=
  readable ≠ some .fails ∧ readable ≠ some (.received [])

/-- How many bytes are written. -/
def writeCount : Option WritevOutcome → ℕ
  | none => 0
  | some outcome => outcome.count

/-- The calls of a connection, by how far they have come. -/
structure Exchange (μ : Type) where
  asked : List (RemoteCall μ)
  /-- The service has them, under these numbers. -/
  given : List (ℕ × RemoteCall μ)
  answered : List (RemoteCall μ × Option μ)

/-- Nothing was asked. -/
def Exchange.empty : Exchange μ := ⟨[], [], []⟩

/-- What can be seen of a call. -/
inductive RpcEvent (μ : Type)
  | ask (call : RemoteCall μ)
  | give (request : ℕ) (message : μ)
  | answer (request : ℕ) (message : Option μ)
  | return_ (serial : ℕ) (message : μ)

namespace RpcEvent

def asked? : RpcEvent μ → Option (RemoteCall μ)
  | .ask call => some call
  | _ => none

def given? : RpcEvent μ → Option (ℕ × μ)
  | .give request message => some (request, message)
  | _ => none

def answered? : RpcEvent μ → Option (ℕ × Option μ)
  | .answer request message => some (request, message)
  | _ => none

def returned? : RpcEvent μ → Option (ℕ × μ)
  | .return_ serial message => some (serial, message)
  | _ => none

/-- The number of the service that an event is about. -/
def request? : RpcEvent μ → Option ℕ
  | .give request _ | .answer request _ => some request
  | .ask _ | .return_ _ _ => none

end RpcEvent

namespace Exchange

/-- The calls that have not returned. -/
def calls (e : Exchange μ) : List (RemoteCall μ) :=
  e.asked ++ e.given.map Prod.snd ++ e.answered.map Prod.fst

/-- How a call goes on. -/
inductive Step (codec : Codec μ) : Exchange μ → RpcEvent μ → Exchange μ → Prop
  | ask (e : Exchange μ) (call : RemoteCall μ) :
      Step codec e (.ask call) { e with asked := e.asked ++ [call] }
  | give (e : Exchange μ) (call : RemoteCall μ) (asked : List (RemoteCall μ)) (request : ℕ)
      (message : μ) (first : e.asked = call :: asked)
      (read : codec.unpack call.method.input (codec.pack call.input) = some message)
      (fresh : request ∉ e.given.map Prod.fst) :
      Step codec e (.give request message) { e with
        asked := asked
        given := e.given ++ [(request, call)] }
  | answer (e : Exchange μ) (call : RemoteCall μ) (request : ℕ) (message : Option μ)
      (has : (request, call) ∈ e.given) :
      Step codec e (.answer request message) { e with
        given := e.given.filter fun g => g.1 ≠ request
        answered := e.answered ++ [(call, message)] }
  | return_ (e : Exchange μ) (call : RemoteCall μ) (answer : Option μ)
      (answered : List (RemoteCall μ × Option μ)) (message : μ)
      (first : e.answered = (call, answer) :: answered)
      (read : codec.unpack call.method.output (codec.reply answer) = some message) :
      Step codec e (.return_ call.serial message) { e with answered := answered }

/-! ## What every trace keeps -/

variable {codec : Codec μ} {es : List (RpcEvent μ)} {e : Exchange μ}

/-- The service was given the message of the call, which is as far in the order of the calls that were
asked as the message is in the order of those that were given; and the number has not been used since. -/
def GivenAs (codec : Codec μ) (es : List (RpcEvent μ)) (call : RemoteCall μ) (request : ℕ) : Prop :=
  ∃ before after message, es = before ++ .give request message :: after ∧
    (es.filterMap RpcEvent.asked?)[(before.filterMap RpcEvent.given?).length]? = some call ∧
    codec.unpack call.method.input (codec.pack call.input) = some message ∧
    ∀ event ∈ after, event.request? ≠ some request

/-- The next answer under that number is this one. -/
def AnsweredWith (codec : Codec μ) (es : List (RpcEvent μ)) (call : RemoteCall μ)
    (answer : Option μ) : Prop :=
  ∃ before after request, es = before ++ .answer request answer :: after ∧
    GivenAs codec before call request

/-- Whenever a call returns, its closure gets what its own answer is read as. -/
def ReturnedOwn (codec : Codec μ) (es : List (RpcEvent μ)) : Prop :=
  ∀ before serial message after, es = before ++ .return_ serial message :: after →
    ∃ call answer, AnsweredWith codec before call answer ∧ serial = call.serial ∧
      codec.unpack call.method.output (codec.reply answer) = some message

theorem GivenAs.later {call : RemoteCall μ} {request : ℕ} (h : GivenAs codec es call request)
    {event : RpcEvent μ} (hother : event.request? ≠ some request) :
    GivenAs codec (es ++ [event]) call request := by
  obtain ⟨before, after, message, rfl, hasked, hread, hunused⟩ := h
  refine ⟨before, after ++ [event], message, by simp, ?_, hread, fun other hother' => ?_⟩
  · rw [List.filterMap_append]
    exact List.getElem?_append_left (List.getElem?_eq_some_iff.mp hasked).1 ▸ hasked
  · obtain hother' | hother' := List.mem_append.mp hother'
    · exact hunused other hother'
    · rw [List.mem_singleton.mp hother']
      exact hother

theorem AnsweredWith.later {call : RemoteCall μ} {answer : Option μ}
    (h : AnsweredWith codec es call answer) (event : RpcEvent μ) :
    AnsweredWith codec (es ++ [event]) call answer := by
  obtain ⟨before, after, request, rfl, hgiven⟩ := h
  exact ⟨before, after ++ [event], request, by simp, hgiven⟩

theorem ReturnedOwn.later (h : ReturnedOwn codec es) {event : RpcEvent μ}
    (hevent : ∀ serial message, event = .return_ serial message → ∃ call answer,
      AnsweredWith codec es call answer ∧ serial = call.serial ∧
        codec.unpack call.method.output (codec.reply answer) = some message) :
    ReturnedOwn codec (es ++ [event]) := by
  intro before serial message after heq
  obtain rfl | ⟨after, last, rfl⟩ := after.eq_nil_or_concat
  · obtain ⟨rfl, hlast⟩ := List.append_inj' heq rfl
    exact hevent serial message (List.singleton_inj.mp hlast)
  · refine h before serial message after ?_
    rw [List.concat_eq_append, ← List.cons_append, ← List.append_assoc] at heq
    exact (List.append_inj' heq rfl).1

/-- Every call has come as far as the exchange says, by what could be seen of it. -/
structure Traced (codec : Codec μ) (es : List (RpcEvent μ)) (e : Exchange μ) : Prop where
  asked : ∃ before, es.filterMap RpcEvent.asked? = before ++ e.asked ∧
    before.length = (es.filterMap RpcEvent.given?).length
  given : ∀ g ∈ e.given, GivenAs codec es g.2 g.1
  answered : ∀ a ∈ e.answered, AnsweredWith codec es a.1 a.2
  returned : ReturnedOwn codec es

theorem Traced.step (h : Traced codec es e) {event : RpcEvent μ} {e' : Exchange μ}
    (hstep : Step codec e event e') : Traced codec (es ++ [event]) e' := by
  obtain ⟨before, hasked, hlength⟩ := h.asked
  cases hstep with
  | ask call =>
    refine ⟨⟨before, ?_, ?_⟩, fun g hg => (h.given g hg).later (by simp [RpcEvent.request?]),
      fun a ha => (h.answered a ha).later _, h.returned.later fun _ _ heq => absurd heq (by simp)⟩
    · rw [List.filterMap_append, hasked, List.append_assoc]
      rfl
    · rw [hlength, List.filterMap_append]
      simp [RpcEvent.given?]
  | give call asked request message first read fresh =>
    refine ⟨⟨before ++ [call], ?_, ?_⟩, fun g hg => ?_, fun a ha => (h.answered a ha).later _,
      h.returned.later fun _ _ heq => absurd heq (by simp)⟩
    · rw [List.filterMap_append, hasked, first]
      simp [RpcEvent.asked?]
    · rw [List.filterMap_append, List.length_append, List.length_append, hlength]
      rfl
    · obtain hg | hg := List.mem_append.mp hg
      · refine (h.given g hg).later fun heq => fresh ?_
        rw [Option.some.inj heq]
        exact List.mem_map_of_mem hg
      · obtain rfl := List.mem_singleton.mp hg
        refine ⟨es, [], message, rfl, ?_, read, fun _ hevent => absurd hevent List.not_mem_nil⟩
        rw [List.filterMap_append, hasked, first, ← hlength]
        simp [RpcEvent.asked?]
  | answer call request message has =>
    refine ⟨⟨before, ?_, ?_⟩, fun g hg => ?_, fun a ha => ?_,
      h.returned.later fun _ _ heq => absurd heq (by simp)⟩
    · rw [List.filterMap_append, hasked]
      exact List.append_nil _
    · rw [hlength, List.filterMap_append]
      simp [RpcEvent.given?]
    · obtain ⟨hg, hne⟩ := List.mem_filter.mp hg
      exact (h.given g hg).later fun heq => of_decide_eq_true hne (Option.some.inj heq).symm
    · obtain ha | ha := List.mem_append.mp ha
      · exact (h.answered a ha).later _
      · obtain rfl := List.mem_singleton.mp ha
        exact ⟨es, [], request, rfl, h.given _ has⟩
  | return_ call answer answered message first read =>
    refine ⟨⟨before, ?_, ?_⟩, fun g hg => (h.given g hg).later (by simp [RpcEvent.request?]),
      fun a ha => (h.answered a (first ▸ List.mem_cons_of_mem _ ha)).later _,
      h.returned.later fun serial message' heq => ?_⟩
    · rw [List.filterMap_append, hasked]
      exact List.append_nil _
    · rw [hlength, List.filterMap_append]
      simp [RpcEvent.given?]
    · obtain ⟨rfl, rfl⟩ := RpcEvent.return_.inj heq
      exact ⟨call, answer, h.answered _ (first ▸ List.mem_cons_self), rfl, read⟩

/-- A closure gets the answer to its own call. -/
theorem traced_of_trace (h : Trace (Step codec) .empty es e) : Traced codec es e :=
  h.invariant ⟨⟨[], rfl, rfl⟩, fun _ hg => absurd hg List.not_mem_nil,
    fun _ ha => absurd ha List.not_mem_nil, fun before _ _ _ heq => absurd heq (by simp)⟩
    fun _ _ _ _ htraced hstep => htraced.step hstep

/-- The calls that were given have different numbers. -/
theorem nodup_given (h : Trace (Step codec) .empty es e) : (e.given.map Prod.fst).Nodup := by
  refine h.invariant (I := fun _ e => (e.given.map Prod.fst).Nodup) List.nodup_nil
    fun es e event e' ih hstep => ?_
  cases hstep with
  | ask call => exact ih
  | give call asked request message first read fresh =>
    rw [List.map_append]
    exact ih.append (List.nodup_singleton request) (by simpa using fresh)
  | answer call request message has => exact ih.sublist (List.filter_sublist.map Prod.fst)
  | return_ call answer answered message first read => exact ih

theorem perm_filter_ne {α : Type} {given : List (ℕ × α)} (hnodup : (given.map Prod.fst).Nodup)
    {request : ℕ} {call : α} (has : (request, call) ∈ given) :
    given.Perm ((request, call) :: given.filter fun g => g.1 ≠ request) := by
  obtain ⟨front, back, rfl⟩ := List.append_of_mem has
  rw [List.map_append, List.map_cons, List.nodup_middle, List.nodup_cons] at hnodup
  have hrest : (front ++ (request, call) :: back).filter (fun g => g.1 ≠ request) = front ++ back := by
    have hkeep : ∀ g ∈ front ++ back, decide (g.1 ≠ request) = true := by
      intro g hg
      refine decide_eq_true fun heq => hnodup.1 ?_
      rw [← heq, ← List.map_append]
      exact List.mem_map.mpr ⟨g, hg, rfl⟩
    rw [List.filter_append, List.filter_cons_of_neg (by simp), ← List.filter_append,
      List.filter_eq_self.mpr hkeep]
  rw [hrest]
  exact List.perm_middle

/-- Every call that was asked has returned or is under way, and not more than once. -/
theorem perm_asked (h : Trace (Step codec) .empty es e) :
    (e.calls.map RemoteCall.serial ++ (es.filterMap RpcEvent.returned?).map Prod.fst).Perm
      ((es.filterMap RpcEvent.asked?).map RemoteCall.serial) := by
  have hcount : ∀ k, (e.calls.map RemoteCall.serial).count k +
      ((es.filterMap RpcEvent.returned?).map Prod.fst).count k =
        ((es.filterMap RpcEvent.asked?).map RemoteCall.serial).count k := by
    intro k
    induction h with
    | refl => rfl
    | tail event htrace hstep ih =>
      have hnodup := nodup_given htrace
      cases hstep with
      | ask call =>
        simp only [calls, List.map_append, List.count_append, List.filterMap_append, List.map_cons,
          List.map_nil, List.filterMap_cons, List.filterMap_nil, RpcEvent.asked?,
          RpcEvent.returned?, List.count_nil] at ih ⊢
        omega
      | give call asked request message first read fresh =>
        simp only [calls, first, List.map_append, List.count_append, List.filterMap_append, List.map_cons,
          List.map_nil, List.filterMap_cons, List.filterMap_nil, RpcEvent.asked?,
          RpcEvent.returned?, List.count_nil, List.count_cons] at ih ⊢
        omega
      | answer call request message has =>
        have hperm := (((perm_filter_ne hnodup has).map Prod.snd).map RemoteCall.serial).count_eq k
        simp only [calls, List.map_append, List.count_append, List.filterMap_append, List.map_cons,
          List.map_nil, List.filterMap_cons, List.filterMap_nil, RpcEvent.asked?,
          RpcEvent.returned?, List.count_nil, List.count_cons] at ih hperm ⊢
        omega
      | return_ call answer answered message first read =>
        simp only [calls, first, List.map_append, List.count_append, List.filterMap_append, List.map_cons,
          List.map_nil, List.filterMap_cons, List.filterMap_nil, RpcEvent.asked?,
          RpcEvent.returned?, List.count_nil, List.count_cons] at ih ⊢
        omega
  refine List.perm_iff_count.mpr fun k => ?_
  rw [List.count_append]
  exact hcount k

/-- The service is given the messages of the calls in the order in which they are asked. -/
theorem given_in_order (h : Trace (Step codec) .empty es e) : ∃ before,
    es.filterMap RpcEvent.asked? = before ++ e.asked ∧
      List.Forall₂ (fun call g => codec.unpack call.method.input (codec.pack call.input) = some g.2)
        before (es.filterMap RpcEvent.given?) := by
  induction h with
  | refl => exact ⟨[], rfl, .nil⟩
  | tail event _ hstep ih =>
    obtain ⟨before, hasked, hgiven⟩ := ih
    cases hstep with
    | ask call =>
      refine ⟨before, ?_, ?_⟩
      · rw [List.filterMap_append, hasked, List.append_assoc]
        rfl
      · rw [List.filterMap_append, show [RpcEvent.ask call].filterMap RpcEvent.given? = [] from rfl,
          List.append_nil]
        exact hgiven
    | give call asked request message first read fresh =>
      refine ⟨before ++ [call], ?_, ?_⟩
      · rw [List.filterMap_append, hasked, first]
        simp [RpcEvent.asked?]
      · rw [List.filterMap_append]
        exact List.rel_append hgiven (.cons read .nil)
    | answer call request message has =>
      refine ⟨before, ?_, ?_⟩
      · rw [List.filterMap_append, hasked]
        exact List.append_nil _
      · rw [List.filterMap_append,
          show [RpcEvent.answer request message].filterMap RpcEvent.given? = [] from rfl, List.append_nil]
        exact hgiven
    | return_ call answer answered message first read =>
      refine ⟨before, ?_, ?_⟩
      · rw [List.filterMap_append, hasked]
        exact List.append_nil _
      · rw [List.filterMap_append,
          show [RpcEvent.return_ call.serial message].filterMap RpcEvent.given? = [] from rfl,
          List.append_nil]
        exact hgiven

end Exchange

end ProtobufC
