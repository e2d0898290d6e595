import Lapq.Semantics.Protocol

/-!
The state that the client's code works on, and programs over it.

A program returns or aborts, changes the world, and emits events: the messages
handed to the connection, the calls on result objects, the messages dispatched
by the state machine and the invocations of user handlers. What happened before
an abort is kept.

Callbacks are first-order: every closure the source passes to a connection is a
constructor that holds what the closure captures.
-/

namespace Lapq

inductive State where
  | AUTH
  | CONN
  | IDLE
  | QUERY
  | EQUERY
  | CLOSE
  | END
deriving DecidableEq, Repr

/-- A user's completion handler, by identity. -/
abbrev HandlerId := Nat

/-- A result object of the user, by address. -/
abbrev ResultId := Nat

/-- The members of `FSM`. A moved-from or never assigned `std::function` is
`none`, and so is a null pointer. -/
structure FSM where
  query : Option DBQuery
  result : Option ResultId
  ehandler : Option HandlerId
  state : State
deriving DecidableEq, Repr

/-- `FSM::FSM`. -/
def FSM.init : FSM := ⟨none, none, none, .AUTH⟩

/-- Closures of type `EHandler` passed to a connection. -/
inductive EHandler where
  | connected (option : DBOption)
  | sslConnected (option : DBOption) (ehandler : Option HandlerId)
  | handshaken (option : DBOption) (ehandler : Option HandlerId)

/-- Closures of type `RHandler`: the two stages of `FSM::receive`. -/
inductive RHandler where
  | header
  | body (header : Header)
deriving DecidableEq, Repr

/-- Closures of type `WHandler`. -/
inductive WHandler where
  | startUpWritten
  | sslStartUpWritten (ehandler : Option HandlerId)
  | queryWritten
  | bindWritten (ehandler : Option HandlerId)
  | describeWritten (ehandler : Option HandlerId)
  | executeWritten (ehandler : Option HandlerId)
  | syncWritten (ehandler : Option HandlerId)
  | parseWritten (ehandler : Option HandlerId)
  | parseSyncWritten (ehandler : Option HandlerId)
  | passwordWritten
  | terminateWritten
deriving DecidableEq, Repr

inductive Event where
  | write (msg : Message)
  | dispatch (state : State) (header : Header) (body : Buffer)
  | result (id : ResultId) (call : ResultCall)
  | handler (id : HandlerId) (ec : ErrorCode) (state : State)
  | closed
  | abort (e : Abort)

def Event.invoked? : Event → Option HandlerId
  | .handler id _ _ => some id
  | _ => none

/-- The handlers called, in order. -/
def invoked (events : List Event) : List HandlerId := events.filterMap Event.invoked?

/-- `ν` is what the connection keeps and `ρ` a result object. -/
structure World (ν ρ : Type) where
  fsm : FSM
  results : ResultId → ρ
  net : ν

structure Outcome (ν ρ α : Type) where
  value : Except Abort α
  world : World ν ρ
  events : List Event

def Act (ν ρ α : Type) := World ν ρ → Outcome ν ρ α

namespace Act

variable {ν ρ α β : Type}

def bind (x : Act ν ρ α) (f : α → Act ν ρ β) : Act ν ρ β := fun w =>
  match x w with
  | ⟨.ok a, w', es⟩ => ⟨(f a w').value, (f a w').world, es ++ (f a w').events⟩
  | ⟨.error e, w', es⟩ => ⟨.error e, w', es⟩

instance : Monad (Act ν ρ) where
  pure a := fun w => ⟨.ok a, w, []⟩
  bind := Act.bind

@[simp] theorem pure_apply (a : α) (w : World ν ρ) :
    (pure a : Act ν ρ α) w = ⟨.ok a, w, []⟩ := rfl

theorem bind_apply (x : Act ν ρ α) (f : α → Act ν ρ β) (w : World ν ρ) :
    (x >>= f) w = match x w with
      | ⟨.ok a, w', es⟩ => ⟨(f a w').value, (f a w').world, es ++ (f a w').events⟩
      | ⟨.error e, w', es⟩ => ⟨.error e, w', es⟩ := rfl

theorem bind_ok {x : Act ν ρ α} {f : α → Act ν ρ β} {w w' : World ν ρ} {a : α}
    {es : List Event} (h : x w = ⟨.ok a, w', es⟩) :
    (x >>= f) w = ⟨(f a w').value, (f a w').world, es ++ (f a w').events⟩ := by
  rw [bind_apply, h]

theorem bind_error {x : Act ν ρ α} {f : α → Act ν ρ β} {w w' : World ν ρ} {e : Abort}
    {es : List Event} (h : x w = ⟨.error e, w', es⟩) :
    (x >>= f) w = ⟨.error e, w', es⟩ := by
  rw [bind_apply, h]

def throw (e : Abort) : Act ν ρ α := fun w => ⟨.error e, w, []⟩

def emit (e : Event) : Act ν ρ Unit := fun w => ⟨.ok (), w, [e]⟩

/-- A decoder that does not touch the world. -/
def lift : Except Abort α → Act ν ρ α
  | .ok a => pure a
  | .error e => throw e

def getFsm : Act ν ρ FSM := fun w => ⟨.ok w.fsm, w, []⟩

def modifyFsm (f : FSM → FSM) : Act ν ρ Unit := fun w =>
  ⟨.ok (), { w with fsm := f w.fsm }, []⟩

def setState (s : State) : Act ν ρ Unit := modifyFsm fun fsm => { fsm with state := s }

/-- Call a `std::function`: an empty one throws. -/
def invoke (ehandler : Option HandlerId) (ec : ErrorCode) : Act ν ρ Unit := fun w =>
  match ehandler with
  | some h => ⟨.ok (), w, [.handler h ec w.fsm.state]⟩
  | none => ⟨.error .badFunctionCall, w, []⟩

/-- `m_ehandler(ec)`. -/
def callHandler (ec : ErrorCode) : Act ν ρ Unit := fun w => invoke w.fsm.ehandler ec w

/-- A call on the result object at `id`. -/
def callResult (base : ResultBase ρ) (id : ResultId) (call : ResultCall) : Act ν ρ Unit :=
  fun w => match base.call call (w.results id) with
    | .ok r => ⟨.ok (), { w with results := Function.update w.results id r }, [.result id call]⟩
    | .error e => ⟨.error e, w, [.result id call]⟩

end Act

/-- What the client relies on and does not contain: the implementation of its
result objects, OpenSSL's `MD5`, and the value of an uninitialised salt. -/
structure Externals (ρ : Type) where
  base : ResultBase ρ
  md5 : Str → List UInt8
  uninitialised : Byte4

/-- Result objects that forget what they are told. -/
def Externals.forgetful : Externals Unit := ⟨⟨fun _ _ => .ok ()⟩, fun _ => [], (0, 0, 0, 0)⟩

/-- `ConnectionBase`. `readInto` is given a buffer that could be allocated. The
close of a socket calls its handler in place in every implementation, so it is
part of `FSM.close`. -/
structure ConnectionBase (ν ρ : Type) where
  connect : EHandler → Act ν ρ Unit
  handshake : EHandler → Act ν ρ Unit
  readInto : Nat → RHandler → Act ν ρ Unit
  writeBuffers : Message → WHandler → Act ν ρ Unit

namespace ConnectionBase

variable {ν ρ : Type} (con : ConnectionBase ν ρ)

/-- Every `read` starts by allocating its buffer, which throws if the length
is out of reach. -/
def read (len : Nat) (rh : RHandler) : Act ν ρ Unit :=
  if maxSize < len then Act.throw .lengthError else con.readInto len rh

def write (msg : Message) (wh : WHandler) : Act ν ρ Unit := do
  Act.emit (.write msg)
  con.writeBuffers msg wh

end ConnectionBase

end Lapq
