import Lapq.Lib.Machine
import Lapq.Semantics.Fsm

/-!
Connections (`connection.h`, `connection.cpp`) without TLS, and the state
machine driven over them.

`Connection` performs each call when it is made and calls the callback in
place, so the callbacks nest. `AsyncConnection` only notes the call; the event
loop completes the outstanding calls later, in any order. Calls of the state
machine by the user are labels of the same machine as the completions. A user
handler is always the last thing the state machine calls, so the calls a user
makes inside a handler are the labels that follow its invocation. How long the
closure of a running handler lives is left out here; `Lapq.Semantics.Handlers`
adds it.
-/

namespace Lapq

/-- A call on a connection with the closure given to it. -/
inductive ConnCall where
  | connect (eh : EHandler)
  | read (len : Nat) (rh : RHandler)
  | write (msg : Message) (wh : WHandler)

/-- What the operating system reports for a call: an error code, the number of
bytes moved, and for a read the bytes. -/
structure Completion where
  ec : ErrorCode
  bytes : Nat
  data : Buffer

abbrev IOError := { e : ErrorCode // e.isError = true }

variable {ν ρ : Type} (ext : Externals ρ)

/-- A connection without TLS, from what it does with a call. The inherited
`handshake` reports `ENOSYS`. -/
def ConnectionBase.ofCalls (perform : ConnCall → Act ν ρ Unit) : ConnectionBase ν ρ where
  connect eh := perform (.connect eh)
  handshake eh := eh.fail .enosys
  readInto len rh := perform (.read len rh)
  writeBuffers msg wh := perform (.write msg wh)

/-- A short write without an error is reported as `ENOSPC`. -/
def Completion.written (msg : Message) (r : Completion) : ErrorCode :=
  if !r.ec.isError && r.bytes ≠ msg.wire.length then .enospc else r.ec

/-- The closure of a call, given what was reported. -/
def ConnCall.resume (con : ConnectionBase ν ρ) (r : Completion) : ConnCall → Act ν ρ Unit
  | .connect eh => eh.run con r.ec
  | .read _ rh => rh.run ext con r.ec r.data
  | .write msg wh => wh.run con (r.written msg)

/-- The other end of the socket: the bytes the server will have sent, the error
of a read that they cannot fill, and injected failures by I/O step. -/
structure Peer where
  input : Buffer
  eof : IOError
  fault : Nat → Option IOError
  step : Nat

/-- One I/O step. A read takes exactly its bytes, or all there are with an
error; the closures do not look at the buffer of a failed read. -/
def Peer.serve (p : Peer) (call : ConnCall) : Completion × Peer :=
  match p.fault p.step with
  | some e => (⟨e, 0, []⟩, { p with step := p.step + 1 })
  | none => match call with
    | .connect _ => (⟨.success, 0, []⟩, { p with step := p.step + 1 })
    | .write msg _ => (⟨.success, msg.wire.length, []⟩, { p with step := p.step + 1 })
    | .read len _ =>
        if len ≤ p.input.length then
          (⟨.success, len, p.input.take len⟩,
            { p with input := p.input.drop len, step := p.step + 1 })
        else (⟨p.eof, p.input.length, []⟩, { p with input := [], step := p.step + 1 })

namespace Connection

def io (call : ConnCall) : Act Peer ρ Completion := fun w =>
  ⟨.ok (w.net.serve call).1, { w with net := (w.net.serve call).2 }, []⟩

/-- The blocking connection, followed through `n` nested callbacks. -/
def nested : Nat → ConnectionBase Peer ρ
  | 0 => .ofCalls fun _ => Act.throw .depth
  | n + 1 => .ofCalls fun call => do
      let r ← io call
      call.resume ext (nested n) r

end Connection

namespace AsyncConnection

/-- Note a call as outstanding. -/
def push (call : ConnCall) : Act (List ConnCall) ρ Unit := fun w =>
  ⟨.ok (), { w with net := w.net ++ [call] }, []⟩

def con : ConnectionBase (List ConnCall) ρ := .ofCalls push

end AsyncConnection

/-- The calls of the user on the state machine. `connect` of the interface makes a
new one first; before that the interface has none, and these calls are not made. -/
inductive Call where
  | connect (option : DBOption) (eh : HandlerId)
  | exec (q : Str) (res : Option ResultId) (eh : HandlerId)
  | execQuery (q : DBQuery) (res : Option ResultId) (eh : HandlerId)
  | parse (q : DBQuery) (eh : HandlerId)
  | close (eh : HandlerId)

def Call.run (con : ConnectionBase ν ρ) : Call → Act ν ρ Unit
  | .connect option eh => FSM.connect con option eh
  | .exec q res eh => FSM.exec con q res eh
  | .execQuery q res eh => FSM.execQuery con q res eh
  | .parse q eh => FSM.parse con q eh
  | .close eh => FSM.close con eh

/-- The handler passed with a call. -/
def Call.handler : Call → HandlerId
  | .connect _ eh | .exec _ _ eh | .execQuery _ _ eh | .parse _ eh | .close eh => eh

/-- A successful read brings as many bytes as were asked for, and no other call
brings any. -/
def ConnCall.Admits (r : Completion) : ConnCall → Prop
  | .read len _ => r.data.length = if r.ec.isError then 0 else len
  | .connect _ | .write .. => r.data = []

instance (r : Completion) : (call : ConnCall) → Decidable (call.Admits r)
  | .read len _ =>
      inferInstanceAs (Decidable (r.data.length = if r.ec.isError then 0 else len))
  | .connect _ | .write .. => inferInstanceAs (Decidable (r.data = []))

inductive Label where
  | call (c : Call)
  | complete (i : Nat) (r : Completion)

/-- What a program leaves to the event loop. An exception that escapes ends the
callback and is an event; the loop can be run again. -/
def Outcome.settle (o : Outcome ν ρ Unit) : World ν ρ × List Event :=
  match o.value with
  | .ok _ => (o.world, o.events)
  | .error e => (o.world, o.events ++ [.abort e])

namespace AsyncConnection

/-- A completion may come for any outstanding call, with any result. -/
def machine : Machine (World (List ConnCall) ρ) Label Event where
  step w
    | .call c => some (c.run con w).settle
    | .complete i r =>
        match w.net[i]? with
        | none => none
        | some call =>
            if call.Admits r then
              some (call.resume ext con r { w with net := w.net.eraseIdx i }).settle
            else none

/-- The event loop against a peer: complete the oldest outstanding call until
none is left. -/
def drain : Nat → Peer → World (List ConnCall) ρ →
    Outcome (List ConnCall) ρ Unit × Peer
  | 0, p, w => (⟨.ok (), w, []⟩, p)
  | n + 1, p, w =>
      match w.net with
      | [] => (⟨.ok (), w, []⟩, p)
      | call :: rest =>
          let (r, p) := p.serve call
          let o := call.resume ext con r { w with net := rest }
          match o.value with
          | .error _ => (o, p)
          | .ok _ =>
              let (o', p) := drain n p o.world
              ({ o' with events := o.events ++ o'.events }, p)

end AsyncConnection

end Lapq
