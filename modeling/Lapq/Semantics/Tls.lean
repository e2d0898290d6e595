import Lapq.Semantics.Connection

/-!
The connections with TLS (`SSLConnection` and `SSLAsyncConnection`). Both hold a
TLS stream over a socket; the stream's `next_layer()` is the socket itself, on
which the server is asked for TLS before the handshake. They keep a log of the
operations on the two, which the source does not have.
-/

namespace Lapq

inductive Stream where
  | plain
  | tls
deriving DecidableEq, Repr

/-- The operations on the socket or on the TLS stream over it. -/
inductive StreamOp where
  | connect
  | write (stream : Stream) (msg : Message)
  | read (stream : Stream) (len : Nat)
  | handshake

/-- A successful read brings as many bytes as were asked for, and no other
operation brings any. -/
def StreamOp.Admits (r : Completion) : StreamOp → Prop
  | .read _ len => r.data.length = if r.ec.isError then 0 else len
  | .connect | .write .. | .handshake => r.data = []

instance (r : Completion) : (op : StreamOp) → Decidable (op.Admits r)
  | .read _ len =>
      inferInstanceAs (Decidable (r.data.length = if r.ec.isError then 0 else len))
  | .connect | .write .. | .handshake => inferInstanceAs (Decidable (r.data = []))

inductive StreamEvent where
  | started (op : StreamOp)
  | finished (op : StreamOp) (r : Completion)

/-- What the read of the server's answer to an `SSLRequest` comes to. Any byte
other than `S` is reported as `EMSGSIZE`. -/
def Completion.sslAnswer (r : Completion) : ErrorCode :=
  if r.ec.isError then r.ec
  else if r.bytes ≠ 1 then .emsgsize
  else if r.data[0]? ≠ some 'S'.toUInt8 then .emsgsize
  else .success

variable {ρ : Type} (ext : Externals ρ)

/-- The other end of a blocking connection: what it makes of an operation, given
the log so far. -/
structure SslPeer where
  answer : List StreamEvent → (op : StreamOp) → { r : Completion // op.Admits r }
  log : List StreamEvent

namespace SSLConnection

def io (op : StreamOp) : Act SslPeer ρ Completion := fun w =>
  let log := w.net.log ++ [.started op]
  let r := (w.net.answer log op).val
  ⟨.ok r, { w with net := { w.net with log := log ++ [.finished op r] } }, []⟩

/-- `SSLConnection::handshake`, whose callback runs over `con`. -/
def handshake (con : ConnectionBase SslPeer ρ) (eh : EHandler) : Act SslPeer ρ Unit := do
  let r ← io (.write .plain .sslRequest)
  let ec := r.written .sslRequest
  if ec.isError then eh.run con ec
  else do
    let r ← io (.read .plain 1)
    let ec := r.sslAnswer
    if ec.isError then eh.run con ec
    else do
      let r ← io .handshake
      eh.run con r.ec

/-- The blocking connection, followed through `n` nested callbacks. -/
def nested : Nat → ConnectionBase SslPeer ρ
  | 0 => ⟨fun _ => Act.throw .depth, fun _ => Act.throw .depth, fun _ _ => Act.throw .depth,
      fun _ _ => Act.throw .depth⟩
  | n + 1 =>
    { connect := fun eh => do
        let r ← io .connect
        eh.run (nested n) r.ec
      handshake := handshake (nested n)
      readInto := fun len rh => do
        let r ← io (.read .tls len)
        rh.run ext (nested n) r.ec r.data
      writeBuffers := fun msg wh => do
        let r ← io (.write .tls msg)
        wh.run (nested n) (r.written msg) }

end SSLConnection

/-- A call on the asynchronous connection with the closure given to it. The
handshake is three of them, one in the callback of the other. -/
inductive SslCall where
  | connect (eh : EHandler)
  | request (eh : EHandler)
  | answer (eh : EHandler)
  | handshake (eh : EHandler)
  | read (len : Nat) (rh : RHandler)
  | write (msg : Message) (wh : WHandler)

def SslCall.op : SslCall → StreamOp
  | .connect _ => .connect
  | .request _ => .write .plain .sslRequest
  | .answer _ => .read .plain 1
  | .handshake _ => .handshake
  | .read len _ => .read .tls len
  | .write msg _ => .write .tls msg

/-- The outstanding calls of an asynchronous connection. -/
structure SslQueue where
  pending : List SslCall
  log : List StreamEvent

namespace SSLAsyncConnection

/-- Start an operation and note its closure. -/
def start (call : SslCall) : Act SslQueue ρ Unit := fun w =>
  ⟨.ok (), { w with net := ⟨w.net.pending ++ [call], w.net.log ++ [.started call.op]⟩ }, []⟩

def con : ConnectionBase SslQueue ρ where
  connect eh := start (.connect eh)
  handshake eh := start (.request eh)
  readInto len rh := start (.read len rh)
  writeBuffers msg wh := start (.write msg wh)

/-- The closure of a call, given what was reported. -/
def resume (r : Completion) : SslCall → Act SslQueue ρ Unit
  | .connect eh => eh.run con r.ec
  | .request eh =>
      let ec := r.written .sslRequest
      if ec.isError then eh.run con ec else start (.answer eh)
  | .answer eh =>
      let ec := r.sslAnswer
      if ec.isError then eh.run con ec else start (.handshake eh)
  | .handshake eh => eh.run con r.ec
  | .read _ rh => rh.run ext con r.ec r.data
  | .write msg wh => wh.run con (r.written msg)

/-- The world in which a completion is handled. -/
def finish (w : World SslQueue ρ) (i : Nat) (call : SslCall) (r : Completion) :
    World SslQueue ρ :=
  { w with net := ⟨w.net.pending.eraseIdx i, w.net.log ++ [.finished call.op r]⟩ }

/-- A completion may come for any outstanding call, with any result. -/
def machine : Machine (World SslQueue ρ) Label Event where
  step w
    | .call c => some (c.run con w).settle
    | .complete i r =>
        match w.net.pending[i]? with
        | none => none
        | some call =>
            if call.op.Admits r then some (resume ext r call (finish w i call r)).settle
            else none

end SSLAsyncConnection

end Lapq
