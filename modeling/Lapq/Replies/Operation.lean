import Lapq.Replies.Receive

/-!
One operation from the request to the handler: the messages it writes, the
reply it receives, and what is left behind. Over the event loop this is
`AsyncConnection.complete`; the blocking connection does the same.
-/

namespace Lapq

open Bytes

variable {ρ : Type} {ext : Externals ρ} {w : World (List ConnCall) ρ}

namespace Call

/-- The state machine while an accepted request is in progress. -/
def opened (fsm : FSM) : Call → FSM
  | .exec _ res eh => { fsm with result := res, ehandler := some eh, state := .QUERY }
  | .execQuery q res eh => ⟨some q, res, some eh, .EQUERY⟩
  | .parse q eh => { fsm with query := some q, ehandler := some eh, state := .QUERY }
  | .connect .. | .close _ => fsm

/-- The result object passed with a call. -/
def result : Call → Option ResultId
  | .exec _ res _ => res
  | .execQuery _ res _ => res
  | .connect .. | .parse .. | .close _ => none

def isParse : Call → Bool
  | .parse .. => true
  | _ => false

/-- The messages of an accepted request. -/
def writes : Call → List Message
  | .exec q _ _ => [.query q]
  | .execQuery q _ _ =>
      [.bind q.name q.portal q.bindValue, .describe q.name q.portal, .execute q.portal, .sync]
  | .parse q _ => [.parse q.name q.query [], .sync]
  | .connect .. | .close _ => []

end Call

/-- The state of a request does not depend on what was before. -/
theorem opened_state (c : Call) (hc : c.isRequest = true) (fsm : FSM) :
    (c.opened fsm).state = (c.opened FSM.init).state := by
  cases c with
  | connect option eh => cases hc
  | close eh => cases hc
  | exec q res eh => rfl
  | execQuery q res eh => rfl
  | parse q eh => rfl

/-- Neither does its result object, unless it is a `parse`. -/
theorem opened_result {c : Call} (hc : c.isRequest = true) (fsm : FSM) :
    (c.opened fsm).result = if c.isParse then fsm.result else c.result := by
  cases c with
  | connect option eh => cases hc
  | close eh => cases hc
  | exec q res eh => rfl
  | execQuery q res eh => rfl
  | parse q eh => rfl

theorem opened_waits {c : Call} (hc : c.isRequest = true) (fsm : FSM) :
    (c.opened fsm).ehandler = some c.handler ∧
      ((c.opened fsm).state = .QUERY ∨ (c.opened fsm).state = .EQUERY) := by
  cases c with
  | connect option eh => cases hc
  | close eh => cases hc
  | exec q res eh => exact ⟨rfl, Or.inl rfl⟩
  | execQuery q res eh => exact ⟨rfl, Or.inr rfl⟩
  | parse q eh => exact ⟨rfl, Or.inl rfl⟩

/-- Completing `k` writes leads from one world to another and emits events,
whatever a faultless peer has to say. -/
def Sends (ext : Externals ρ) (k : Nat) (w : World (List ConnCall) ρ) (es : List Event)
    (w' : World (List ConnCall) ρ) : Prop :=
  ∀ p : Peer, p.Faultless → ∀ n, AsyncConnection.drain ext (n + k) p w =
    ((AsyncConnection.drain ext n (p.later p.input k) w').1.after es,
      (AsyncConnection.drain ext n (p.later p.input k) w').2)

theorem Sends.trans {k k' : Nat} {w₁ w₂ w₃ : World (List ConnCall) ρ} {es es' : List Event}
    (h : Sends ext k w₁ es w₂) (h' : Sends ext k' w₂ es' w₃) :
    Sends ext (k + k') w₁ (es ++ es') w₃ := by
  intro p hp n
  have hfirst := h p hp (n + k')
  have hsecond := h' (p.later p.input k) (hp.later _ _) n
  rw [show n + (k + k') = n + k' + k by omega, hfirst, hsecond]
  simp [Outcome.after, Peer.later, Nat.add_assoc]

theorem Sends.write (ext : Externals ρ) {msg : Message} {wh : WHandler}
    (hnet : w.net = [.write msg wh]) {w' : World (List ConnCall) ρ} {es : List Event}
    (hrun : wh.run AsyncConnection.con .success { w with net := [] } = ⟨.ok (), w', es⟩) :
    Sends ext 1 w es w' := by
  intro p hp n
  have hserve := serve_write hp msg wh
  have hresume : ConnCall.resume ext AsyncConnection.con (p.serve (.write msg wh)).1
      (.write msg wh) { w with net := [] } = ⟨.ok (), w', es⟩ := by
    rw [hserve]
    change wh.run AsyncConnection.con ((Completion.sent msg).written msg) _ = _
    rw [written_sent]
    exact hrun
  rw [AsyncConnection.drain_ok n hnet hresume rfl, hserve]

/-- The event loop writes the messages of a request and then waits for the
reply. -/
theorem request_sends (ext : Externals ρ) (c : Call) (hc : c.isRequest = true)
    (hstate : w.fsm.state = .IDLE) (hnet : w.net = []) :
    ∃ first msg more, c.run AsyncConnection.con w = ⟨.ok (), first, [.write msg]⟩ ∧
      c.writes.map Event.write = .write msg :: more ∧
      Sends ext c.writes.length first more ⟨c.opened w.fsm, w.results, [.header]⟩ := by
  obtain ⟨⟨query, result, ehandler, state⟩, results, net⟩ := w
  cases hstate
  cases hnet
  cases c with
  | connect option eh => cases hc
  | close eh => cases hc
  | exec q res eh => exact ⟨_, _, [], rfl, rfl, Sends.write ext rfl rfl⟩
  | execQuery q res eh =>
      refine ⟨_, _, _, rfl, rfl, ?_⟩
      have hbind := Sends.write ext
        (w := ⟨⟨some q, res, some eh, .EQUERY⟩, results,
          [.write (.bind q.name q.portal q.bindValue) (.bindWritten none)]⟩) rfl rfl
      have hdescribe := hbind.trans (Sends.write ext rfl rfl)
      have hexecute := hdescribe.trans (Sends.write ext rfl rfl)
      exact hexecute.trans (Sends.write ext rfl rfl)
  | parse q eh =>
      refine ⟨_, _, _, rfl, rfl, ?_⟩
      have hparse := Sends.write ext
        (w := ⟨⟨some q, result, some eh, .QUERY⟩, results,
          [.write (.parse q.name q.query []) (.parseWritten none)]⟩) rfl rfl
      exact hparse.trans (Sends.write ext rfl rfl)

namespace AsyncConnection

/-- A call of the user and the event loop after it, against the peer of the
world, for at most `n` completions. -/
def complete (ext : Externals ρ) (n : Nat) (c : Call) (w : World Peer ρ) : Outcome Peer ρ Unit :=
  let first := c.run con (w.withNet [])
  let later := drain ext n w.net first.world
  (later.1.after first.events).withNet later.2

end AsyncConnection

/-- A request in `IDLE`, driven by the event loop, against a peer that answers
with a well-formed reply which the result object takes. -/
theorem complete_reply (ext : Externals ρ) (c : Call) (hc : c.isRequest = true)
    (w : World Peer ρ) (hstate : w.fsm.state = .IDLE) (hp : w.net.Faultless) (reply : Reply)
    (rest : Buffer) (hinput : w.net.input = reply.wire ++ rest)
    (hreply : reply.WellFormed (c.opened w.fsm).state) {results' : ResultId → ρ}
    (habs : Reply.Absorbed ext (c.opened w.fsm).result w.results reply.messages results')
    (n : Nat) (hn : c.writes.length + 2 * reply.messages.length + 2 ≤ n) :
    ∃ steps, AsyncConnection.complete ext n c w =
      ⟨.ok (), ⟨{ c.opened w.fsm with state := .IDLE }, results', w.net.later rest steps⟩,
        c.writes.map Event.write ++
          reply.events (c.opened w.fsm).state (c.opened w.fsm).result c.handler⟩ := by
  obtain ⟨first, msg, more, hrun, hwrites, hsends⟩ :=
    request_sends (w := w.withNet []) ext c hc hstate rfl
  have hopen := opened_waits hc w.fsm
  obtain ⟨extra, rfl⟩ := Nat.exists_eq_add_of_le hn
  have hdrain := hsends w.net hp (extra + (2 * reply.messages.length + 2))
  have hreceive := drain_reply (w := ⟨c.opened w.fsm, w.results, [.header]⟩) ext reply
    (hp.later w.net.input c.writes.length) hopen.1 hopen.2 rfl hreply hinput habs extra
  dsimp only [World.withNet] at hdrain
  rw [hreceive] at hdrain
  refine ⟨c.writes.length + (2 * reply.messages.length + 2), ?_⟩
  unfold AsyncConnection.complete
  rw [hrun, show c.writes.length + 2 * reply.messages.length + 2 + extra =
    extra + (2 * reply.messages.length + 2) + c.writes.length by omega]
  dsimp only
  rw [hdrain, hwrites]
  simp [Outcome.after, Outcome.withNet, World.withNet, Peer.later, Nat.add_assoc]

end Lapq
