import Lapq.Runs.Agreement
import Lapq.Wire.Backend

/-!
One message of a reply, received by the event loop: the header and the body are
read, the message is dispatched, and the next header is waited for. What the
message does to the result object is the list of its calls.
-/

namespace Lapq

open Bytes Backend

variable {ρ : Type} {ext : Externals ρ} {w : World (List ConnCall) ρ}

namespace Backend

def isRow : Backend → Bool
  | .dataRow _ => true
  | _ => false

/-- The messages of a reply in a state, other than its end. A message of a type
that the state has no handler for is an `other`. -/
def Listed (state : State) : Backend → Prop
  | .rowDescription _ | .dataRow _ | .commandComplete _ | .noticeResponse _
  | .errorResponse _ => True
  | .parseComplete => state = .QUERY
  | .bindComplete | .parameterDescription _ => state = .EQUERY
  | .other mtype _ => ∀ transition, tableRow state = some transition →
      transition.find mtype = none
  | .authentication .. | .parameterStatus .. | .backendKeyData .. | .readyForQuery _
  | .closeComplete => False

end Backend

/-- The result object takes the calls of a message, if there is one. Without
one there is no place for a row. -/
def Absorbs (ext : Externals ρ) (result : Option ResultId) (results : ResultId → ρ)
    (msg : Backend) (results' : ResultId → ρ) (es : List Event) : Prop :=
  match result with
  | some id => ∃ r, ext.base.run msg.calls (results id) = .ok r ∧
      results' = Function.update results id r ∧ es = msg.calls.map (Event.result id)
  | none => msg.isRow = false ∧ results' = results ∧ es = []

theorem Absorbs.quiet {msg : Backend} (hcalls : msg.calls = [])
    {result : Option ResultId} {results results' : ResultId → ρ} {es : List Event}
    (habs : Absorbs ext result results msg results' es) : results' = results ∧ es = [] := by
  unfold Absorbs at habs
  cases result with
  | none => exact habs.2
  | some id =>
      simp only [hcalls] at habs
      obtain ⟨r, hrun, hresults, hes⟩ := habs
      cases hrun
      exact ⟨hresults.trans (Function.update_eq_self id results), hes⟩

/-! Dispatch. -/

theorem next_listed {transition : Transition} {action : Action} (head : Header) (body : Buffer)
    (hrow : tableRow w.fsm.state = some transition)
    (hfind : transition.find head.mtype = some action)
    {o : Outcome (List ConnCall) ρ Unit}
    (hrun : action.run ext AsyncConnection.con head body w = o) :
    FSM.next ext AsyncConnection.con head.mtype head body w =
      o.after [.dispatch w.fsm.state head body] := by
  unfold FSM.next
  simp [Act.bind_apply, hrow, hfind, hrun, Outcome.after]

theorem next_unlisted {transition : Transition} (head : Header) (body : Buffer)
    (hrow : tableRow w.fsm.state = some transition)
    (hfind : transition.find head.mtype = none) :
    FSM.next ext AsyncConnection.con head.mtype head body w =
      ⟨.ok (), { w with net := w.net ++ [.header] }, [.dispatch w.fsm.state head body]⟩ := by
  unfold FSM.next
  simp [Act.bind_apply, hrow, hfind]

/-- The handler that the two states of an operation have for a message. -/
def replyAction (state : State) : Backend → Option Action
  | .rowDescription _ => some .rowDescription
  | .dataRow _ => some .dataRow
  | .commandComplete _ => some .commandComplete
  | .noticeResponse _ => some .noticeResponse
  | .errorResponse _ => some .queryError
  | .readyForQuery _ => some .readyForQuery
  | .parseComplete => if state = .QUERY then some .parseComplete else none
  | .bindComplete => if state = .EQUERY then some .bindComplete else none
  | .parameterDescription _ => if state = .EQUERY then some .parameterDescription else none
  | _ => none

theorem replyAction_find {state : State} (hstate : state = .QUERY ∨ state = .EQUERY)
    (msg : Backend) {action : Action} (haction : replyAction state msg = some action) :
    ∃ transition, tableRow state = some transition ∧
      transition.find msg.header.mtype = some action := by
  rcases hstate with rfl | rfl <;> cases msg <;> cases haction <;> exact ⟨_, rfl, rfl⟩

theorem callResultThenReceive_absorbs {call : ResultCall} {msg : Backend}
    (hcalls : msg.calls = [call]) {results' : ResultId → ρ} {es : List Event}
    (habs : Absorbs ext w.fsm.result w.results msg results' es) :
    (do
      let fsm ← Act.getFsm
      match fsm.result with
      | some id => Act.callResult ext.base id call
      | none => pure ()
      FSM.receive AsyncConnection.con : Act (List ConnCall) ρ Unit) w =
      ⟨.ok (), { w with results := results', net := w.net ++ [.header] }, es⟩ := by
  unfold Absorbs at habs
  cases hres : w.fsm.result with
  | none =>
      rw [hres] at habs
      obtain ⟨_, rfl, rfl⟩ := habs
      simp [Act.bind_apply, hres]
  | some id =>
      rw [hres] at habs
      obtain ⟨r, hrun, rfl, rfl⟩ := habs
      simp only [hcalls, ResultBase.run] at hrun ⊢
      cases hcall : ext.base.call call (w.results id) with
      | error e =>
          rw [hcall] at hrun
          cases hrun
      | ok r' =>
          rw [hcall, ok_bind] at hrun
          cases hrun
          simp [Act.bind_apply, hres, Act.callResult, hcall]

/-- A handler of a reply takes its message and goes on reading. -/
theorem action_absorbs {msg : Backend} (hmsg : msg.WellFormed)
    (hlisted : msg.Listed w.fsm.state) {action : Action}
    (haction : replyAction w.fsm.state msg = some action)
    {results' : ResultId → ρ} {es : List Event}
    (habs : Absorbs ext w.fsm.result w.results msg results' es) :
    action.run ext AsyncConnection.con msg.header msg.body w =
      ⟨.ok (), { w with results := results', net := w.net ++ [.header] }, es⟩ := by
  cases msg with
  | authentication code data => cases haction
  | parameterStatus name value => cases haction
  | backendKeyData pid key => cases haction
  | closeComplete => cases haction
  | other type bytes => cases haction
  | readyForQuery status => exact hlisted.elim
  | rowDescription fs =>
      cases haction
      have hdec := rowDescription_deserialize fs [] hmsg.valid.1 hmsg.valid.2
      simp only [Action.run, FSM.rowDescription, hdec, Act.lift_ok]
      exact callResultThenReceive_absorbs rfl habs
  | errorResponse fields =>
      cases haction
      have hdec := errorResponse_deserialize fields hmsg.valid
      simp only [Action.run, FSM.queryError, hdec, Act.lift_ok]
      exact callResultThenReceive_absorbs rfl habs
  | dataRow columns =>
      cases haction
      unfold Absorbs at habs
      cases hres : w.fsm.result with
      | none =>
          rw [hres] at habs
          cases habs.1
      | some id =>
          rw [hres] at habs
          obtain ⟨r, hrun, rfl, rfl⟩ := habs
          have hsizes : ∀ bytes ∈ columns, bytes.length < 2 ^ 31 := by
            intro bytes hbytes
            have hle := column_le_body hbytes
            have hfit := hmsg.length
            omega
          have hdec := dataRow_deserialize columns hmsg.valid hsizes id hrun
          simp [Action.run, FSM.dataRow, Act.bind_apply, hres, hdec, FSM.receiveUnless]
  | commandComplete tag =>
      cases haction
      obtain ⟨rfl, rfl⟩ := habs.quiet rfl
      have hdec := commandComplete_deserialize tag hmsg
      simp [Action.run, FSM.commandComplete, hdec, Act.bind_apply, FSM.receiveUnless]
  | noticeResponse fields =>
      cases haction
      obtain ⟨rfl, rfl⟩ := habs.quiet rfl
      have hdec := noticeResponse_deserialize fields hmsg.valid
      simp [Action.run, FSM.noticeResponse, hdec, Act.bind_apply, FSM.receiveUnless]
  | parameterDescription oids =>
      obtain ⟨rfl, rfl⟩ := habs.quiet rfl
      have hstate : w.fsm.state = .EQUERY := hlisted
      simp only [replyAction, hstate, if_true, Option.some.injEq] at haction
      subst haction
      have hdec := parameterDescription_deserialize oids hmsg
      simp [Action.run, FSM.parameterDescription, hdec, Act.bind_apply, FSM.receiveUnless]
  | parseComplete =>
      obtain ⟨rfl, rfl⟩ := habs.quiet rfl
      have hstate : w.fsm.state = .QUERY := hlisted
      simp only [replyAction, hstate, if_true, Option.some.injEq] at haction
      subst haction
      rfl
  | bindComplete =>
      obtain ⟨rfl, rfl⟩ := habs.quiet rfl
      have hstate : w.fsm.state = .EQUERY := hlisted
      simp only [replyAction, hstate, if_true, Option.some.injEq] at haction
      subst haction
      rfl

theorem next_absorbs {msg : Backend} (hmsg : msg.WellFormed)
    (hstate : w.fsm.state = .QUERY ∨ w.fsm.state = .EQUERY)
    (hlisted : msg.Listed w.fsm.state) {results' : ResultId → ρ} {es : List Event}
    (habs : Absorbs ext w.fsm.result w.results msg results' es) :
    FSM.next ext AsyncConnection.con msg.header.mtype msg.header msg.body w =
      ⟨.ok (), { w with results := results', net := w.net ++ [.header] },
        .dispatch w.fsm.state msg.header msg.body :: es⟩ := by
  cases haction : replyAction w.fsm.state msg with
  | some action =>
      obtain ⟨transition, hrow, hfind⟩ := replyAction_find hstate msg haction
      rw [next_listed _ _ hrow hfind (action_absorbs hmsg hlisted haction habs)]
      rfl
  | none =>
      obtain ⟨type, bytes, rfl⟩ : ∃ type bytes, msg = .other type bytes := by
        cases msg with
        | other type bytes => exact ⟨type, bytes, rfl⟩
        | parseComplete =>
            have hquery : w.fsm.state = .QUERY := hlisted
            simp [replyAction, hquery] at haction
        | bindComplete =>
            have hequery : w.fsm.state = .EQUERY := hlisted
            simp [replyAction, hequery] at haction
        | parameterDescription oids =>
            have hequery : w.fsm.state = .EQUERY := hlisted
            simp [replyAction, hequery] at haction
        | authentication code data => exact hlisted.elim
        | parameterStatus name value => exact hlisted.elim
        | backendKeyData pid key => exact hlisted.elim
        | readyForQuery status => exact hlisted.elim
        | closeComplete => exact hlisted.elim
        | rowDescription fs => cases haction
        | dataRow columns => cases haction
        | commandComplete tag => cases haction
        | noticeResponse fields => cases haction
        | errorResponse fields => cases haction
      obtain ⟨rfl, rfl⟩ := habs.quiet rfl
      obtain ⟨transition, hrow⟩ : ∃ transition, tableRow w.fsm.state = some transition := by
        rcases hstate with h | h <;> rw [h] <;> exact ⟨_, rfl⟩
      exact next_unlisted _ _ hrow (hlisted transition hrow)

/-- The end of a reply: the state becomes `IDLE` and the handler is told so. -/
theorem next_ready (ext : Externals ρ) (status : UInt8) {h : HandlerId}
    (hh : w.fsm.ehandler = some h) (hstate : w.fsm.state = .QUERY ∨ w.fsm.state = .EQUERY) :
    FSM.next ext AsyncConnection.con ReadyForQuery.mtype (header (.readyForQuery status))
        (body (.readyForQuery status)) w =
      ⟨.ok (), { w with fsm := { w.fsm with state := .IDLE } },
        [.dispatch w.fsm.state (header (.readyForQuery status)) (body (.readyForQuery status)),
          .handler h .success .IDLE]⟩ := by
  obtain ⟨transition, hrow, hfind⟩ := replyAction_find hstate (.readyForQuery status) rfl
  have hdec := readyForQuery_deserialize status
  have hrun : Action.run ext AsyncConnection.con (header (.readyForQuery status))
      (body (.readyForQuery status)) .readyForQuery w =
      ⟨.ok (), { w with fsm := { w.fsm with state := .IDLE } },
        [.handler h .success .IDLE]⟩ := by
    simp only [Action.run, FSM.readyForQuery, hdec, Act.lift_ok, Act.bind_apply, Act.pure_apply,
      Act.setState_apply, List.nil_append]
    rw [Act.callHandler_of_some (by simpa using hh)]
  exact next_listed _ _ hrow hfind hrun

/-! The event loop. -/

/-- A peer that never fails a call. -/
def Peer.Faultless (p : Peer) : Prop := ∀ k, p.fault k = none

/-- The peer some steps later, with `rest` still to be read. -/
def Peer.later (p : Peer) (rest : Buffer) (steps : Nat) : Peer :=
  { p with input := rest, step := p.step + steps }

theorem Peer.Faultless.later {p : Peer} (hp : p.Faultless) (rest : Buffer) (steps : Nat) :
    (p.later rest steps).Faultless := hp

theorem serve_read {p : Peer} (hp : p.Faultless) (rh : RHandler) {len : Nat} {x rest : Buffer}
    (hlen : x.length = len) (hinput : p.input = x ++ rest) :
    p.serve (.read len rh) = (.delivered x, p.later rest 1) := by
  subst hlen
  unfold Peer.serve
  rw [hp p.step, hinput]
  simp [Completion.delivered, Peer.later]

theorem serve_write {p : Peer} (hp : p.Faultless) (msg : Message) (wh : WHandler) :
    p.serve (.write msg wh) = (.sent msg, p.later p.input 1) := by
  unfold Peer.serve
  rw [hp p.step]
  rfl

/-- A header that was read asks for the body it announces. -/
theorem header_resume {msg : Backend} (hlength : msg.body.length + 4 < 2 ^ 31) :
    ConnCall.header.resume ext AsyncConnection.con
        (.delivered (msg.mtype :: be32 (msg.body.length + 4))) { w with net := [] } =
      ⟨.ok (), { w with net := [.read msg.body.length (.body msg.header)] }, []⟩ := by
  have hdec := header_deserialize msg hlength
  have hsize : toSize msg.header.bodyLen = msg.body.length :=
    toSize_natCast msg.body.length (by omega)
  have hfits : ¬ maxSize < msg.body.length := by
    unfold maxSize
    omega
  change RHandler.run ext AsyncConnection.con .header .success
    (msg.mtype :: be32 (msg.body.length + 4)) { w with net := [] } = _
  simp only [RHandler.run, ErrorCode.isError_success, Bool.false_eq_true, ↓reduceIte, hdec,
    Act.lift_ok, Act.bind_apply, Act.pure_apply, ConnectionBase.read, hsize, if_neg hfits]
  rfl

/-- The first read of a message. -/
theorem drain_header (ext : Externals ρ) {p : Peer} {rest : Buffer} {msg : Backend}
    (hlength : msg.body.length + 4 < 2 ^ 31) (hp : p.Faultless)
    (hinput : p.input = (msg.mtype :: be32 (msg.body.length + 4)) ++ rest)
    (hnet : w.net = [.header]) (n : Nat) :
    AsyncConnection.drain ext (n + 1) p w =
      AsyncConnection.drain ext n (p.later rest 1)
        { w with net := [.read msg.body.length (.body msg.header)] } := by
  have hhead : p.serve .header =
      (.delivered (msg.mtype :: be32 (msg.body.length + 4)), p.later rest 1) :=
    serve_read hp .header rfl hinput
  have hrun : ConnCall.header.resume ext AsyncConnection.con (p.serve .header).1
      { w with net := [] } =
      ⟨.ok (), { w with net := [.read msg.body.length (.body msg.header)] }, []⟩ := by
    rw [hhead]
    exact header_resume hlength
  rw [AsyncConnection.drain_ok n hnet hrun rfl, hhead]
  rfl

theorem Backend.wire_append (msg : Backend) (rest : Buffer) :
    msg.wire ++ rest = (msg.mtype :: be32 (msg.body.length + 4)) ++ (msg.body ++ rest) :=
  List.append_assoc _ _ _

/-- The two reads of a message and its dispatch. -/
theorem drain_message {p : Peer} {rest : Buffer} {msg : Backend}
    (hlength : msg.body.length + 4 < 2 ^ 31) (hp : p.Faultless)
    (hinput : p.input = msg.wire ++ rest) (hnet : w.net = [.header])
    {o : Outcome (List ConnCall) ρ Unit}
    (hnext : FSM.next ext AsyncConnection.con msg.header.mtype msg.header msg.body
      { w with net := [] } = o) (hvalue : o.value = .ok ()) (n : Nat) :
    AsyncConnection.drain ext (n + 2) p w =
      ((AsyncConnection.drain ext n (p.later rest 2) o.world).1.after o.events,
        (AsyncConnection.drain ext n (p.later rest 2) o.world).2) := by
  have hbody : (p.later (msg.body ++ rest) 1).serve (.read msg.body.length (.body msg.header)) =
      (.delivered msg.body, p.later rest 2) :=
    serve_read (hp.later _ _) (.body msg.header) rfl rfl
  have hrun : ConnCall.resume ext AsyncConnection.con
      ((p.later (msg.body ++ rest) 1).serve (.read msg.body.length (.body msg.header))).1
      (.read msg.body.length (.body msg.header)) { w with net := [] } = o := by
    rw [hbody]
    exact hnext
  have hrest := AsyncConnection.drain_ok
    (w := { w with net := [.read msg.body.length (.body msg.header)] }) n rfl hrun hvalue
  rw [hbody] at hrest
  rw [drain_header ext hlength hp (hinput.trans (msg.wire_append rest)) hnet (n + 1), hrest]

/-! Whole replies. -/

/-- The messages of a reply before its `ReadyForQuery`, and that one's status. -/
structure Reply where
  messages : List Backend
  status : UInt8

namespace Reply

def wire (reply : Reply) : Buffer :=
  reply.messages.flatMap Backend.wire ++ (Backend.readyForQuery reply.status).wire

/-- The result object of an operation takes a whole reply. -/
def Absorbed (ext : Externals ρ) (result : Option ResultId) (results : ResultId → ρ)
    (messages : List Backend) (results' : ResultId → ρ) : Prop :=
  match result with
  | some id => ∃ r, ext.base.run (messages.flatMap Backend.calls) (results id) = .ok r ∧
      results' = Function.update results id r
  | none => (∀ msg ∈ messages, msg.isRow = false) ∧ results' = results

/-- What a message emits: its dispatch and its calls. -/
def messageEvents (state : State) (result : Option ResultId) (msg : Backend) : List Event :=
  .dispatch state msg.header msg.body :: match result with
    | some id => msg.calls.map (Event.result id)
    | none => []

/-- What a whole reply emits; the handler is told last. -/
def events (state : State) (result : Option ResultId) (h : HandlerId) (reply : Reply) :
    List Event :=
  reply.messages.flatMap (messageEvents state result) ++
    [.dispatch state (Backend.header (.readyForQuery reply.status))
      (Backend.body (.readyForQuery reply.status)), .handler h .success .IDLE]

/-- The messages may come in the state, and follow their formats. -/
def WellFormed (state : State) (reply : Reply) : Prop :=
  ∀ msg ∈ reply.messages, msg.WellFormed ∧ msg.Listed state

end Reply

theorem run_append (base : ResultBase ρ) (calls more : List ResultCall) (r : ρ) :
    base.run (calls ++ more) r = base.run calls r >>= base.run more := by
  induction calls generalizing r with
  | nil => rfl
  | cons call calls ih =>
      simp only [List.cons_append, ResultBase.run]
      cases base.call call r with
      | error e => rfl
      | ok r' => exact ih r'

theorem Reply.Absorbed.cons {result : Option ResultId} {results results' : ResultId → ρ}
    {msg : Backend} {messages : List Backend}
    (habs : Absorbed ext result results (msg :: messages) results') :
    ∃ between, Absorbs ext result results msg between ((messageEvents .IDLE result msg).tail) ∧
      Absorbed ext result between messages results' := by
  unfold Absorbed at habs
  cases result with
  | none =>
      obtain ⟨hrows, rfl⟩ := habs
      exact ⟨results', ⟨hrows msg List.mem_cons_self, rfl, rfl⟩,
        fun m hm => hrows m (List.mem_cons_of_mem _ hm), rfl⟩
  | some id =>
      obtain ⟨r, hrun, rfl⟩ := habs
      rw [List.flatMap_cons, run_append] at hrun
      cases hfirst : ext.base.run msg.calls (results id) with
      | error e =>
          rw [hfirst] at hrun
          cases hrun
      | ok r' =>
          rw [hfirst, ok_bind] at hrun
          exact ⟨Function.update results id r', ⟨r', hfirst, rfl, rfl⟩, r,
            by simpa using hrun, by simp⟩

theorem Reply.Absorbed.nil {result : Option ResultId} {results results' : ResultId → ρ}
    (habs : Absorbed ext result results [] results') : results' = results := by
  unfold Absorbed at habs
  cases result with
  | none => exact habs.2
  | some id =>
      obtain ⟨r, hrun, rfl⟩ := habs
      cases hrun
      exact Function.update_eq_self id results

/-- The event loop receives messages of a reply and goes on: it takes exactly
their bytes, and the result object their calls. -/
theorem drain_messages (ext : Externals ρ) {p : Peer} {rest : Buffer} (messages : List Backend)
    (hp : p.Faultless) (hstate : w.fsm.state = .QUERY ∨ w.fsm.state = .EQUERY)
    (hnet : w.net = [.header])
    (hmessages : ∀ msg ∈ messages, msg.WellFormed ∧ msg.Listed w.fsm.state)
    (hinput : p.input = messages.flatMap Backend.wire ++ rest) {results' : ResultId → ρ}
    (habs : Reply.Absorbed ext w.fsm.result w.results messages results') (n : Nat) :
    let later := AsyncConnection.drain ext n (p.later rest (2 * messages.length))
      { w with results := results' }
    AsyncConnection.drain ext (n + 2 * messages.length) p w =
      (later.1.after (messages.flatMap (Reply.messageEvents w.fsm.state w.fsm.result)),
        later.2) := by
  induction messages generalizing w p with
  | nil =>
      have hrest : p.later rest 0 = p := by
        simp only [List.flatMap_nil, List.nil_append] at hinput
        rw [← hinput]
        rfl
      rw [habs.nil]
      simp only [List.length_nil, Nat.mul_zero, hrest, List.flatMap_nil]
      rfl
  | cons msg messages ih =>
      obtain ⟨hmsg, hlisted⟩ := hmessages msg List.mem_cons_self
      obtain ⟨between, hfirst, hmore⟩ := habs.cons
      have hnext := next_absorbs (w := { w with net := [] }) hmsg hstate hlisted hfirst
      have hbytes : p.input = msg.wire ++ (messages.flatMap Backend.wire ++ rest) := by
        rw [hinput]
        simp
      have hstep := drain_message hmsg.length hp hbytes hnet hnext rfl (n + 2 * messages.length)
      have hrest := ih (w := { w with results := between, net := [.header] })
        (p := p.later (messages.flatMap Backend.wire ++ rest) 2) (hp.later _ _) hstate rfl
        (fun m hm => hmessages m (List.mem_cons_of_mem _ hm)) rfl hmore
      rw [List.length_cons, show n + 2 * (messages.length + 1) = n + 2 * messages.length + 2 by
        omega, hstep]
      simp only [List.nil_append, hrest]
      simp only [Outcome.after, List.flatMap_cons, List.append_assoc, Peer.later]
      rw [show p.step + 2 + 2 * messages.length = p.step + 2 * (messages.length + 1) by omega,
        hnet]
      rfl

/-- The event loop receives a reply: it takes exactly the bytes of the reply,
the result object its calls, and the handler is told once, in `IDLE`. -/
theorem drain_reply (ext : Externals ρ) {p : Peer} {rest : Buffer} (reply : Reply)
    {h : HandlerId} (hp : p.Faultless) (hh : w.fsm.ehandler = some h)
    (hstate : w.fsm.state = .QUERY ∨ w.fsm.state = .EQUERY)
    (hnet : w.net = [.header]) (hreply : reply.WellFormed w.fsm.state)
    (hinput : p.input = reply.wire ++ rest) {results' : ResultId → ρ}
    (habs : Reply.Absorbed ext w.fsm.result w.results reply.messages results') (n : Nat) :
    AsyncConnection.drain ext (n + (2 * reply.messages.length + 2)) p w =
      (⟨.ok (), ⟨{ w.fsm with state := .IDLE }, results', []⟩,
          reply.events w.fsm.state w.fsm.result h⟩,
        p.later rest (2 * reply.messages.length + 2)) := by
  have hbytes : p.input = reply.messages.flatMap Backend.wire ++
      ((Backend.readyForQuery reply.status).wire ++ rest) := by
    rw [hinput, Reply.wire, List.append_assoc]
  have hmessages := drain_messages ext reply.messages hp hstate hnet hreply hbytes habs (n + 2)
  have hready := next_ready (w := ⟨w.fsm, results', []⟩) ext reply.status hh hstate
  have hend : (p.later ((Backend.readyForQuery reply.status).wire ++ rest)
      (2 * reply.messages.length)).input = (Backend.readyForQuery reply.status).wire ++ rest := rfl
  have hlast := drain_message (w := { w with results := results' }) (by simp [Backend.body])
    (hp.later _ _) hend hnet hready rfl n
  rw [show n + (2 * reply.messages.length + 2) = n + 2 + 2 * reply.messages.length by omega,
    hmessages, hlast, AsyncConnection.drain_nil n _ rfl]
  rfl

end Lapq
