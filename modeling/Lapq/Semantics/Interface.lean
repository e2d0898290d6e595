import Lapq.Semantics.Connection

/-!
The operations of the state machine over `ConnectionBase`. A connection answers
each of its four calls with a result for the callback, in place or later; which
one it is and what the result is made of is its own affair. The calls and their
results are kept as a trace, which the source does not have.
-/

namespace Lapq

variable {ν ρ : Type} (ext : Externals ρ)

/-- The calls of `ConnectionBase`. -/
inductive IoCall where
  | connect (eh : EHandler)
  | handshake (eh : EHandler)
  | read (len : Nat) (rh : RHandler)
  | write (msg : Message) (wh : WHandler)

def ConnectionBase.perform (con : ConnectionBase ν ρ) : IoCall → Act ν ρ Unit
  | .connect eh => con.connect eh
  | .handshake eh => con.handshake eh
  | .read len rh => con.readInto len rh
  | .write msg wh => con.writeBuffers msg wh

def ConnectionBase.ofPerform (f : IoCall → Act ν ρ Unit) : ConnectionBase ν ρ where
  connect eh := f (.connect eh)
  handshake eh := f (.handshake eh)
  readInto len rh := f (.read len rh)
  writeBuffers msg wh := f (.write msg wh)

@[simp] theorem perform_ofPerform (f : IoCall → Act ν ρ Unit) (call : IoCall) :
    (ConnectionBase.ofPerform f).perform call = f call := by
  cases call <;> rfl

/-- The callback of a call. None of them looks at the number of bytes. -/
def IoCall.resume (con : ConnectionBase ν ρ) (r : Completion) : IoCall → Act ν ρ Unit
  | .connect eh | .handshake eh => eh.run con r.ec
  | .read _ rh => rh.run ext con r.ec r.data
  | .write _ wh => wh.run con r.ec

abbrev Trace := List (IoCall × Completion)

/-- A connection that calls back later. -/
structure Outstanding where
  pending : List IoCall
  trace : Trace

namespace Deferred

def push (call : IoCall) : Act Outstanding ρ Unit := fun w =>
  ⟨.ok (), { w with net := { w.net with pending := w.net.pending ++ [call] } }, []⟩

def con : ConnectionBase Outstanding ρ := .ofPerform push

/-- Any of the outstanding calls is completed, with any result. -/
def machine : Machine (World Outstanding ρ) (Nat × Completion) Event where
  step w label :=
    match w.net.pending[label.1]? with
    | none => none
    | some call => some (call.resume ext con label.2
        { w with net := ⟨w.net.pending.eraseIdx label.1,
          w.net.trace ++ [(call, label.2)]⟩ }).settle

end Deferred

/-- A connection that calls back in place. Its results may depend on all that
was done before. -/
structure Answering where
  answer : Trace → IoCall → Completion
  trace : Trace

namespace InPlace

def io (call : IoCall) : Act Answering ρ Completion := fun w =>
  let r := w.net.answer w.net.trace call
  ⟨.ok r, { w with net := { w.net with trace := w.net.trace ++ [(call, r)] } }, []⟩

/-- What the connection does with a call, `n` callbacks deep. -/
def perform : Nat → IoCall → Act Answering ρ Unit
  | 0, _ => Act.throw .depth
  | n + 1, call => do
      let r ← io call
      call.resume ext (.ofPerform (perform n)) r

def con (n : Nat) : ConnectionBase Answering ρ := .ofPerform (perform ext n)

end InPlace

/-- The operations of the state machine. -/
inductive Operation where
  | call (c : Call)
  | connectSSL (option : DBOption) (eh : HandlerId)

namespace Operation

def run (con : ConnectionBase ν ρ) : Operation → Act ν ρ Unit
  | .call c => c.run con
  | .connectSSL option eh => FSM.connectSSL con option eh

def handler : Operation → HandlerId
  | .call c => c.handler
  | .connectSSL _ eh => eh

/-- The operations that store the handler and then capture what is left of it. -/
def moves : Operation → Bool
  | .connectSSL .. | .call (.execQuery ..) | .call (.parse ..) => true
  | .call (.connect ..) | .call (.exec ..) | .call (.close _) => false

end Operation

end Lapq
