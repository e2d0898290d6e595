import Lapq.Semantics.Connection

/-!
User handlers while they run. `m_ehandler(ec)` runs the closure that the slot
holds; a refused request runs the one it was passed, which its caller keeps. The
event loop completes nothing before the handler returns, but the handler may call
the state machine. A call that is not refused assigns to `m_ehandler`, which
destroys the closure that runs from there: what the handler does with its captures
afterwards has no defined behaviour. Neither has the call itself if its text, query
or options is one of these captures, for every function assigns before it reads
them.
-/

namespace Lapq

variable {ρ : Type}

/-- Where the closure of a running handler is. -/
inductive Place where
  | slot
  | caller
  | destroyed
deriving DecidableEq, Repr

structure Running where
  id : HandlerId
  place : Place
deriving DecidableEq, Repr

/-- `m_ehandler` is assigned to. -/
def Running.overwritten (f : Running) : Running :=
  if f.place = .slot then { f with place := .destroyed } else f

/-- The innermost handler runs without its closure. -/
def lostClosure (running : List Running) : Bool :=
  match running with
  | [] => false
  | f :: _ => f.place == .destroyed

def Call.refused (state : State) : Call → Bool
  | .exec .. | .execQuery .. | .parse .. => state != .IDLE
  | .connect .. | .close _ => false

/-- The handlers that run are listed from the innermost. -/
structure Thread (ρ : Type) where
  world : World (List ConnCall) ρ
  running : List Running
  defined : Bool

/-- What happens next: a call, by the innermost handler or by none, whose arguments
may be captures of that handler; a completion; or the innermost handler uses a
capture, or returns. -/
inductive Deed where
  | call (c : Call) (captured : Bool)
  | complete (i : Nat) (r : Completion)
  | use
  | ret

namespace Thread

def init (results : ResultId → ρ) : Thread ρ := ⟨⟨FSM.init, results, []⟩, [], true⟩

/-- The running handlers, once a call has assigned to `m_ehandler` or was refused. -/
def entered (s : Thread ρ) (c : Call) : List Running :=
  if c.refused s.world.fsm.state then s.running else s.running.map Running.overwritten

/-- A step of the machine without handlers; those it invokes start to run. -/
def advance (ext : Externals ρ) (s : Thread ρ) (label : Label) (place : Place)
    (running : List Running) : Option (Thread ρ × List Event) := do
  let (w, es) ← (AsyncConnection.machine ext).step s.world label
  pure (⟨w, (invoked es).map (fun id => ⟨id, place⟩) ++ running, true⟩, es)

def undefine (s : Thread ρ) : Thread ρ × List Event :=
  ({ s with defined := false }, [.abort .undefined])

/-- Nothing is said of what follows undefined behaviour. -/
def machine (ext : Externals ρ) : Machine (Thread ρ) Deed Event where
  step s deed :=
    if s.defined then
      match deed with
      | .call c captured =>
          if captured && lostClosure (s.entered c) then some s.undefine
          else s.advance ext (.call c) .caller (s.entered c)
      | .complete i r =>
          if s.running.isEmpty then s.advance ext (.complete i r) .slot [] else none
      | .use =>
          match s.running with
          | [] => none
          | _ :: _ => if lostClosure s.running then some s.undefine else some (s, [])
      | .ret =>
          match s.running with
          | [] => none
          | _ :: rest => some ({ s with running := rest }, [])
    else none

end Thread

end Lapq
