import Lapq.Wire.Bounds
import Lapq.Replies.Completion

/-!
A request is answered with `busy` by a look at the state alone. The state is
`IDLE` while no handler is waited for, and only then, as long as no handler is
called on a way out that leaves the state as it is.
-/

namespace Lapq

variable {ν ρ α β : Type} {ext : Externals ρ}

/-! Decoders that have passed their check. -/

/-- A decoder that does not report an error of its own. -/
def Succeeds (x : Except Abort (ErrorCode × α)) : Prop :=
  ∀ a, x = .ok a → a.1.isError = false

theorem Succeeds.pure (a : α) : Succeeds (.ok (.success, a)) := by
  intro b hb
  cases hb
  rfl

theorem Succeeds.bind {x : Except Abort β} {f : β → Except Abort (ErrorCode × α)}
    (hf : ∀ b, Succeeds (f b)) : Succeeds (x >>= f) := by
  intro a ha
  obtain ⟨b, _, hb⟩ := bind_ok_inv ha
  exact hf b a hb

theorem Succeeds.checked {type : MessageType} {head : Header} {body : Buffer} {a : α}
    {x : Except Abort (ErrorCode × α)} (hpass : (Message.check type head body).isError = false)
    (hx : Succeeds x) :
    Succeeds (if (Message.check type head body).isError then
      .ok (Message.check type head body, a) else x) := by
  rw [hpass]
  exact hx

section Decoders

variable {head : Header} {body : Buffer}

theorem authentication_succeeds (uninitialised : Byte4)
    (hpass : (Message.check Authentication.mtype head body).isError = false) :
    Succeeds (Authentication.deserialize uninitialised head body) := by
  apply Succeeds.checked hpass
  apply Succeeds.bind
  intro ⟨code, pos⟩
  dsimp only
  split
  · exact Succeeds.bind fun _ => Succeeds.pure _
  · exact Succeeds.pure _

theorem sqlError_succeeds {type : MessageType}
    (hpass : (Message.check type head body).isError = false) :
    Succeeds (SQLError.deserialize type head body) :=
  Succeeds.checked hpass <| Succeeds.bind fun _ => Succeeds.bind fun _ => Succeeds.pure _

theorem parameterDescription_succeeds (v : List Int)
    (hpass : (Message.check ParameterDescription.mtype head body).isError = false) :
    Succeeds (ParameterDescription.deserialize head body v) :=
  Succeeds.checked hpass <| Succeeds.bind fun _ => Succeeds.bind fun _ => Succeeds.pure _

theorem rowDescription_succeeds (fsvec : List FieldSpec)
    (hpass : (Message.check RowDescription.mtype head body).isError = false) :
    Succeeds (RowDescription.deserialize head body fsvec) :=
  Succeeds.checked hpass <| Succeeds.bind fun _ => Succeeds.bind fun _ => Succeeds.pure _

theorem parameterStatus_succeeds
    (hpass : (Message.check ParameterStatus.mtype head body).isError = false) :
    Succeeds (ParameterStatus.deserialize head body) :=
  Succeeds.checked hpass <| Succeeds.bind fun _ => Succeeds.bind fun _ => Succeeds.pure _

theorem backendKeyData_succeeds
    (hpass : (Message.check BackendKeyData.mtype head body).isError = false) :
    Succeeds (BackendKeyData.deserialize head body) :=
  Succeeds.checked hpass <| Succeeds.bind fun _ => Succeeds.bind fun _ => Succeeds.pure _

theorem commandComplete_succeeds
    (hpass : (Message.check CommandComplete.mtype head body).isError = false) :
    Succeeds (CommandComplete.deserialize head body) :=
  Succeeds.checked hpass <| Succeeds.bind fun _ => Succeeds.pure _

end Decoders

/-! Programs that call no handler. -/

/-- The program calls no user's handler, and what it returns has a property. -/
def Act.Quietly (P : α → Prop) (x : Act ν ρ α) : Prop :=
  ∀ w, invoked (x w).events = [] ∧ ∀ a, (x w).value = .ok a → P a

/-- The program calls no user's handler. -/
def Act.Quiet (x : Act ν ρ α) : Prop := Act.Quietly (fun _ => True) x

namespace Act

variable {P : α → Prop} {Q : β → Prop}

theorem Quietly.bind {x : Act ν ρ α} {f : α → Act ν ρ β} (hx : Quietly P x)
    (hf : ∀ a, P a → Quietly Q (f a)) : Quietly Q (x >>= f) := by
  intro w
  obtain ⟨hevents, hvalue⟩ := hx w
  rw [bind_apply]
  cases hrun : x w with
  | mk value w' es =>
      rw [hrun] at hevents hvalue
      cases value with
      | error e => exact ⟨hevents, by simp⟩
      | ok a =>
          obtain ⟨hrest, hend⟩ := hf a (hvalue a rfl) w'
          refine ⟨?_, hend⟩
          change invoked (es ++ (f a w').events) = []
          rw [invoked_append, hrest]
          simpa using hevents

theorem Quietly.pure {a : α} (ha : P a) : Quietly P (Pure.pure a : Act ν ρ α) := by
  intro w
  refine ⟨rfl, ?_⟩
  intro b hb
  cases hb
  exact ha

theorem Quietly.throw (e : Abort) : Quietly P (Act.throw e : Act ν ρ α) :=
  fun w => ⟨rfl, by simp⟩

theorem Quietly.lift {x : Except Abort α} (hx : ∀ a, x = .ok a → P a) :
    Quietly P (Act.lift x : Act ν ρ α) := by
  cases x with
  | error e => exact Quietly.throw e
  | ok a => exact Quietly.pure (hx a rfl)

theorem Quiet.getFsm : Quiet (Act.getFsm : Act ν ρ FSM) := fun w => ⟨rfl, by simp⟩

theorem Quiet.setState (s : State) : Quiet (Act.setState s : Act ν ρ Unit) :=
  fun w => ⟨rfl, by simp⟩

theorem Quiet.callResult (base : ResultBase ρ) (id : ResultId) (call : ResultCall) :
    Quiet (Act.callResult base id call : Act ν ρ Unit) := by
  intro w
  refine ⟨?_, by simp⟩
  unfold Act.callResult
  split
  · rfl
  · rfl

theorem Quiet.receive : Quiet (FSM.receive AsyncConnection.con : Act (List ConnCall) ρ Unit) :=
  fun w => ⟨rfl, by simp⟩

theorem Quiet.write (msg : Message) (wh : WHandler) :
    Quiet (AsyncConnection.con.write msg wh : Act (List ConnCall) ρ Unit) :=
  fun w => ⟨rfl, by simp⟩

theorem Quiet.receiveUnless {ec : ErrorCode} (hec : ec.isError = false) :
    Quiet (FSM.receiveUnless AsyncConnection.con ec : Act (List ConnCall) ρ Unit) := by
  unfold FSM.receiveUnless
  rw [hec]
  exact Quiet.receive

theorem Quiet.readColumns (ext : Externals ρ) (id : ResultId) (buf : Buffer) (n : Nat) (i : Int)
    (pos : Nat) : Quiet (DataRow.readColumns ext id buf n i pos : Act ν ρ Unit) := by
  induction n generalizing i pos with
  | zero => exact Quietly.pure trivial
  | succ n ih =>
      apply Quietly.bind (P := fun _ => True) (Quietly.lift fun _ _ => trivial)
      intro ⟨sz, taken⟩ _
      exact Quietly.bind (Quiet.callResult _ _ _) fun _ _ => ih _ _

theorem Quietly.dataRow {ext : Externals ρ} {head : Header} {body : Buffer}
    (hpass : (Message.check DataRow.mtype head body).isError = false) (id : ResultId) :
    Quietly (fun ec => ec.isError = false)
      (DataRow.deserialize ext head body id : Act ν ρ ErrorCode) := by
  simp only [DataRow.deserialize, hpass, Bool.false_eq_true, if_false]
  apply Quietly.bind (P := fun _ => True) (Quietly.lift fun _ _ => trivial)
  intro ⟨num, pos⟩ _
  apply Quietly.bind (Quiet.callResult _ _ _)
  intro _ _
  apply Quietly.bind (Quiet.readColumns _ _ _ _ _ _)
  intro _ _
  exact Quietly.pure rfl

end Act

/-- The message type that an action handler decodes. -/
def Action.mtype : Action → MessageType
  | .authenticate => Authentication.mtype
  | .authError | .queryError => ErrorResponse.mtype
  | .backendKeyData => BackendKeyData.mtype
  | .readyForQuery => ReadyForQuery.mtype
  | .parameterStatus => ParameterStatus.mtype
  | .rowDescription => RowDescription.mtype
  | .dataRow => DataRow.mtype
  | .commandComplete => CommandComplete.mtype
  | .parseComplete => ParseComplete.mtype
  | .noticeResponse => NoticeResponse.mtype
  | .bindComplete => BindComplete.mtype
  | .parameterDescription => ParameterDescription.mtype
  | .closeComplete => CloseComplete.mtype

/-- The table lists every action handler under the type that it decodes. -/
theorem tableEntries_mtype : ∀ entry ∈ tableEntries, entry.2.1 = entry.2.2.mtype := by
  decide

/-- An action handler that is no way out. -/
def Action.isExit : Action → Bool
  | .authError | .readyForQuery | .closeComplete => true
  | _ => false

/-- A call on the result object, if there is one, and the next read. -/
theorem quiet_callResultThenReceive (call : ResultCall) :
    Act.Quiet (do
      let fsm ← Act.getFsm
      match fsm.result with
      | some id => Act.callResult ext.base id call
      | none => pure ()
      FSM.receive AsyncConnection.con : Act (List ConnCall) ρ Unit) := by
  apply Act.Quietly.bind Act.Quiet.getFsm
  intro fsm _
  cases fsm.result with
  | none => exact Act.Quiet.receive
  | some id => exact Act.Quietly.bind (Act.Quiet.callResult _ _ _) fun _ _ => Act.Quiet.receive

theorem quiet_receiveUnless {x : Except Abort (ErrorCode × α)} (hx : Succeeds x) :
    Act.Quiet (Act.lift x >>= fun a =>
      (FSM.receiveUnless AsyncConnection.con a.1 : Act (List ConnCall) ρ Unit)) :=
  Act.Quietly.bind (Act.Quietly.lift hx) fun _ hec => Act.Quiet.receiveUnless hec

/-- A message that passes its check makes no handler be called on the way. -/
theorem action_quiet {action : Action} {head : Header} {body : Buffer}
    (hpass : (Message.check action.mtype head body).isError = false)
    (haction : action.isExit = false) :
    Act.Quiet (action.run ext AsyncConnection.con head body) := by
  cases action with
  | authError => cases haction
  | readyForQuery => cases haction
  | closeComplete => cases haction
  | authenticate =>
      apply Act.Quietly.bind (Act.Quietly.lift (authentication_succeeds _ hpass))
      intro ⟨ec, msg⟩ hec
      dsimp only at hec ⊢
      rw [hec]
      simp only [Bool.false_eq_true, if_false]
      split
      · exact Act.Quietly.bind (Act.Quiet.setState _) fun _ _ => Act.Quiet.receive
      split
      · exact Act.Quietly.bind (Act.Quiet.setState _) fun _ _ =>
          Act.Quietly.bind (Act.Quiet.write _ _) fun _ _ => Act.Quiet.receive
      · exact Act.Quiet.receive
  | rowDescription =>
      apply Act.Quietly.bind (Act.Quietly.lift (rowDescription_succeeds _ hpass))
      intro ⟨ec, fs⟩ hec
      dsimp only at hec ⊢
      rw [hec]
      exact quiet_callResultThenReceive _
  | queryError =>
      apply Act.Quietly.bind (Act.Quietly.lift (sqlError_succeeds hpass))
      intro ⟨ec, error⟩ hec
      dsimp only at hec ⊢
      rw [hec]
      exact quiet_callResultThenReceive _
  | dataRow =>
      apply Act.Quietly.bind Act.Quiet.getFsm
      intro fsm _
      cases fsm.result with
      | none => exact Act.Quietly.throw _
      | some id =>
          exact Act.Quietly.bind (Act.Quietly.dataRow hpass id) fun _ hec =>
            Act.Quiet.receiveUnless hec
  | parseComplete => exact Act.Quiet.receive
  | bindComplete => exact Act.Quiet.receive
  | backendKeyData => exact quiet_receiveUnless (backendKeyData_succeeds hpass)
  | parameterStatus => exact quiet_receiveUnless (parameterStatus_succeeds hpass)
  | commandComplete => exact quiet_receiveUnless (commandComplete_succeeds hpass)
  | noticeResponse => exact quiet_receiveUnless (sqlError_succeeds hpass)
  | parameterDescription => exact quiet_receiveUnless (parameterDescription_succeeds _ hpass)

/-! One completion. -/

/-- The closure of the call hands an error to the handler in the slot. Those of a
prepared query hold an empty function, and throw. -/
def ConnCall.Tells (r : Completion) : ConnCall → Prop
  | .connect _ | .read .. => r.ec.isError = true
  | .write msg .startUpWritten | .write msg .queryWritten | .write msg .passwordWritten =>
      (r.written msg).isError = true
  | .write _ .terminateWritten => True
  | .write .. => False

/-- The body of an `ErrorResponse` that its decoder can read. -/
def ConnCall.BringsError (r : Completion) : ConnCall → Prop
  | .read _ (.body head) => head.mtype = ErrorResponse.mtype ∧
      ∃ a, ErrorResponse.deserialize head r.data = .ok a
  | _ => False

section Completion

variable {w : World (List ConnCall) ρ} {r : Completion} {h : HandlerId}

/-- The body of a message is as long as its header says. -/
theorem check_passes {len : Nat} {head : Header} {action : Action} {state : State}
    (hplain : ConnCall.Plain (.read len (.body head)))
    (hadmits : ConnCall.Admits r (.read len (.body head))) (hok : r.ec.isError = false)
    (hentry : (state, head.mtype, action) ∈ tableEntries) :
    (Message.check action.mtype head r.data).isError = false := by
  have hlength := hadmits.length_eq hok
  have htype := tableEntries_mtype _ hentry
  have hlen : len = toSize head.bodyLen := hplain.1
  apply Bool.eq_false_iff.mpr
  intro hcheck
  rcases (check_isError_iff _ _ _).mp hcheck with hshort | hother
  · omega
  · exact hother htype

/-- A message makes a handler be called on an exit only. -/
theorem action_exits {action : Action} {head : Header} {body : Buffer}
    (hh : w.fsm.ehandler = some h) (hentry : (w.fsm.state, head.mtype, action) ∈ tableEntries)
    (hpass : (Message.check action.mtype head body).isError = false)
    (herror : w.fsm.state = .AUTH → head.mtype = ErrorResponse.mtype →
      ¬ ∃ a, ErrorResponse.deserialize head body = .ok a) :
    invoked (action.run ext AsyncConnection.con head body w).events = [] ∨
      (action.run ext AsyncConnection.con head body w).world.fsm.state = .IDLE ∨
      w.fsm.state = .CLOSE := by
  obtain ⟨_, hauthError, _, hclose, _⟩ := tableEntries_spec _ hentry
  cases haction : action.isExit with
  | false => exact Or.inl (action_quiet hpass haction w).1
  | true =>
      cases action with
      | authError =>
          obtain ⟨hstate, htype⟩ := hauthError rfl
          refine Or.inl ?_
          cases hread : ErrorResponse.deserialize head body with
          | error e => simp [Action.run, FSM.authError, hread, Act.bind_apply, invoked]
          | ok a => exact absurd ⟨a, hread⟩ (herror hstate htype)
      | readyForQuery =>
          cases hread : ReadyForQuery.deserialize head body with
          | error e =>
              exact Or.inl (by simp [Action.run, FSM.readyForQuery, hread, Act.bind_apply, invoked])
          | ok a =>
              refine Or.inr (Or.inl ?_)
              simp only [Action.run, FSM.readyForQuery, hread, Act.lift_ok, Act.bind_apply,
                Act.pure_apply, Act.setState_apply]
              rw [Act.callHandler_of_some (by simpa using hh)]
      | closeComplete => exact Or.inr (Or.inr (hclose rfl))
      | _ => cases haction

theorem next_exits {head : Header} {body : Buffer} (hh : w.fsm.ehandler = some h)
    (hpass : ∀ action, (w.fsm.state, head.mtype, action) ∈ tableEntries →
      (Message.check action.mtype head body).isError = false)
    (herror : w.fsm.state = .AUTH → head.mtype = ErrorResponse.mtype →
      ¬ ∃ a, ErrorResponse.deserialize head body = .ok a) :
    invoked (FSM.next ext AsyncConnection.con head.mtype head body w).events = [] ∨
      (FSM.next ext AsyncConnection.con head.mtype head body w).world.fsm.state = .IDLE ∨
      w.fsm.state = .CLOSE := by
  cases hrow : tableRow w.fsm.state with
  | none =>
      refine Or.inl ?_
      unfold FSM.next
      simp [Act.bind_apply, hrow, invoked, Event.invoked?]
  | some transition =>
      cases hfind : transition.find head.mtype with
      | none =>
          rw [next_unlisted _ _ hrow hfind]
          exact Or.inl rfl
      | some action =>
          have hentry := mem_tableEntries hrow hfind
          rw [next_listed _ _ hrow hfind rfl]
          exact action_exits hh hentry (hpass action hentry) herror

theorem quiet_andThen {x : Act ν ρ Unit} (hx : Act.Quiet x) (ec : ErrorCode) :
    Act.Quiet (WHandler.andThen none ec x) := by
  unfold WHandler.andThen
  split
  · exact fun w => ⟨rfl, by simp⟩
  · exact hx

theorem quiet_withQuery {x : DBQuery → Act ν ρ Unit} (hx : ∀ q, Act.Quiet (x q)) :
    Act.Quiet (FSM.withQuery x) := by
  apply Act.Quietly.bind Act.Quiet.getFsm
  intro fsm _
  cases fsm.query with
  | none => exact Act.Quietly.throw _
  | some q => exact hx q

theorem write_quiet {msg : Message} {wh : WHandler} (hplain : ConnCall.Plain (.write msg wh))
    (htells : ¬ ConnCall.Tells r (.write msg wh)) :
    Act.Quiet (wh.run AsyncConnection.con (r.written msg) : Act (List ConnCall) ρ Unit) := by
  cases wh with
  | startUpWritten => exact Act.Quiet.receiveUnless (Bool.eq_false_iff.mpr htells)
  | queryWritten => exact Act.Quiet.receiveUnless (Bool.eq_false_iff.mpr htells)
  | passwordWritten => exact Act.Quiet.receiveUnless (Bool.eq_false_iff.mpr htells)
  | terminateWritten => exact absurd trivial htells
  | sslStartUpWritten eh => exact hplain.elim
  | syncWritten eh =>
      subst hplain
      exact quiet_andThen Act.Quiet.receive _
  | parseSyncWritten eh =>
      subst hplain
      exact quiet_andThen Act.Quiet.receive _
  | bindWritten eh =>
      subst hplain
      exact quiet_andThen (quiet_withQuery fun q => Act.Quiet.write _ _) _
  | describeWritten eh =>
      subst hplain
      exact quiet_andThen (quiet_withQuery fun q => Act.Quiet.write _ _) _
  | executeWritten eh =>
      subst hplain
      exact quiet_andThen (Act.Quiet.write _ _) _
  | parseWritten eh =>
      subst hplain
      exact quiet_andThen (Act.Quiet.write _ _) _

/-- A completion that hands on no error makes a handler be called on an exit
only. -/
theorem resume_exits {call : ConnCall} (hh : w.fsm.ehandler = some h) (hplain : call.Plain)
    (hadmits : call.Admits r) (htells : ¬ call.Tells r)
    (herror : w.fsm.state = .AUTH → ¬ call.BringsError r) :
    invoked (call.resume ext AsyncConnection.con r w).events = [] ∨
      (call.resume ext AsyncConnection.con r w).world.fsm.state = .IDLE ∨
      w.fsm.state = .CLOSE := by
  cases call with
  | connect eh =>
      cases eh with
      | sslConnected option ehandler => exact hplain.elim
      | handshaken option ehandler => exact hplain.elim
      | connected option =>
          refine Or.inl ?_
          have hok : ¬ r.ec.isError = true := htells
          simp only [ConnCall.resume, EHandler.run, if_neg hok]
          rfl
  | write msg wh => exact Or.inl (write_quiet hplain htells w).1
  | read len rh =>
      have hok : r.ec.isError = false := Bool.eq_false_iff.mpr htells
      simp only [ConnCall.resume, RHandler.run, hok, Bool.false_eq_true, if_false]
      cases rh with
      | header =>
          refine Or.inl (Act.Quietly.bind (P := fun _ => True) (Q := fun _ => True)
            (Act.Quietly.lift fun _ _ => trivial) (fun a _ => ?_) w).1
          unfold ConnectionBase.read
          split
          · exact Act.Quietly.throw _
          · exact fun w => ⟨rfl, by simp⟩
      | body head =>
          apply next_exits hh
          · intro action hentry
            exact check_passes hplain hadmits hok hentry
          · intro hstate htype hread
            exact herror hstate ⟨htype, hread⟩

/-- A completion keeps the slot. It calls no handler and neither reaches nor
leaves `IDLE`, or it calls the one in the slot. -/
theorem Resumes.answers {call : ConnCall} {w' : World (List ConnCall) ρ} {es : List Event}
    (hres : Resumes h w r call w' es) (hclose : w.fsm.state ≠ .CLOSE) :
    w'.fsm.ehandler = w.fsm.ehandler ∧ w'.fsm.state ≠ .CLOSE ∧
      (invoked es = [] ∧ (w'.fsm.state = .IDLE ↔ w.fsm.state = .IDLE) ∨
        invoked es = [h] ∧ (w'.fsm.state = .IDLE ∨ w'.fsm.state = w.fsm.state)) := by
  cases hres with
  | reported _ ec _ => exact ⟨rfl, hclose, Or.inr ⟨rfl, Or.inr rfl⟩⟩
  | lost _ e => exact ⟨rfl, hclose, Or.inl ⟨rfl, Iff.rfl⟩⟩
  | wrote _ msg wh _ _ _ _ _ => exact ⟨rfl, hclose, Or.inl ⟨rfl, Iff.rfl⟩⟩
  | reading msg wh _ => exact ⟨rfl, hclose, Or.inl ⟨rfl, Iff.rfl⟩⟩
  | header len head _ _ _ _ => exact ⟨rfl, hclose, Or.inl ⟨rfl, Iff.rfl⟩⟩
  | closed msg ec => exact ⟨rfl, hclose, Or.inr ⟨rfl, Or.inr rfl⟩⟩
  | dispatched len head hok o hreact =>
      rcases hreact with ⟨_, rfl⟩ | ⟨_, hreact⟩
      · exact ⟨rfl, hclose, Or.inl ⟨rfl, Iff.rfl⟩⟩
      cases hreact with
      | goOn results es hes _ => exact ⟨rfl, hclose, Or.inl ⟨hes.invoked_nil, Iff.rfl⟩⟩
      | authOk hstate _ => exact ⟨rfl, by simp, Or.inl ⟨rfl, by simp [hstate]⟩⟩
      | md5 _ _ msg _ => exact ⟨rfl, hclose, Or.inl ⟨rfl, Iff.rfl⟩⟩
      | report ec _ => exact ⟨rfl, hclose, Or.inr ⟨rfl, Or.inr rfl⟩⟩
      | authError _ _ ec => exact ⟨rfl, hclose, Or.inr ⟨rfl, Or.inr rfl⟩⟩
      | ready _ _ ec => exact ⟨rfl, by simp, Or.inr ⟨rfl, Or.inl rfl⟩⟩
      | ended hstate ec => exact absurd hstate hclose
      | aborted e results es hes =>
          refine ⟨rfl, hclose, Or.inl ⟨?_, Iff.rfl⟩⟩
          change invoked (es ++ [.abort e]) = []
          rw [invoked_append, hes.invoked_nil]
          rfl

end Completion

theorem invoked_settle (o : Outcome ν ρ Unit) : invoked o.settle.2 = invoked o.events := by
  unfold Outcome.settle
  split
  · rfl
  · rw [invoked_append]
    exact List.append_nil _

/-! A whole run. -/

/-- A run with one `connect`, which comes first, and no `close`. While an operation
is under way no error is handed to its handler, neither by the connection nor by
the server's `ErrorResponse` to the start-up. -/
def Steady (w : World (List ConnCall) ρ) : Label → Prop
  | .call (.connect ..) => w.fsm.ehandler = none
  | .call (.exec ..) | .call (.execQuery ..) | .call (.parse ..) => w.fsm.ehandler ≠ none
  | .call (.close _) => False
  | .complete i r => ∀ call, w.net[i]? = some call →
      (w.fsm.state ≠ .IDLE → ¬ call.Tells r) ∧ (w.fsm.state = .AUTH → ¬ call.BringsError r)

theorem Steady.handler_ne_none {w : World (List ConnCall) ρ} {c : Call}
    (hsteady : Steady w (.call c)) (hc : c.isRequest = true) : w.fsm.ehandler ≠ none := by
  cases c with
  | connect option eh => cases hc
  | close eh => cases hc
  | exec q res eh => exact hsteady
  | execQuery q res eh => exact hsteady
  | parse q eh => exact hsteady

/-- The handler was passed in and is not called yet. -/
def Pending (labels : List Label) (events : List Event) (h : HandlerId) : Prop :=
  h ∈ issued labels ∧ h ∉ invoked events

/-- Outside `IDLE` the handler in the slot is the one that is waited for, and in
`IDLE` none is. -/
structure Attended (labels : List Label) (w : World (List ConnCall) ρ) (events : List Event) :
    Prop where
  known : ∀ h ∈ invoked events, h ∈ issued labels
  close : w.fsm.state ≠ .CLOSE
  new : w.fsm.ehandler = none → w.fsm.state = .AUTH ∧ issued labels = []
  held : ∀ h, w.fsm.ehandler = some h → h ∈ issued labels
  slot : ∀ h, w.fsm.ehandler = some h →
    ∀ own, Pending labels events own ↔ own = h ∧ w.fsm.state ≠ .IDLE

section Runs

variable {w w' : World (List ConnCall) ρ} {labels : List Label} {events es : List Event}

theorem complete_answers {i : Nat} {r : Completion} (hsound : Sound w)
    (hclose : w.fsm.state ≠ .CLOSE) (hsteady : Steady w (.complete i r))
    (hstep : (AsyncConnection.machine ext).step w (.complete i r) = some (w', es)) :
    ∃ h, w.fsm.ehandler = some h ∧ w'.fsm.ehandler = some h ∧ w'.fsm.state ≠ .CLOSE ∧
      (invoked es = [] ∧ (w'.fsm.state = .IDLE ↔ w.fsm.state = .IDLE) ∨
        invoked es = [h] ∧ w'.fsm.state = .IDLE) := by
  have hcase := step_cases hsound hstep
  cases hcase with
  | complete _ _ call hcall hadmits h hh hres =>
      obtain ⟨hkept, hopen, hanswers⟩ := hres.answers hclose
      refine ⟨h, hh, hkept.trans hh, hopen, ?_⟩
      rcases hanswers with hquiet | ⟨htold, hidle | hsame⟩
      · exact Or.inl hquiet
      · exact Or.inr ⟨htold, hidle⟩
      by_cases hstate : w.fsm.state = .IDLE
      · exact Or.inr ⟨htold, hsame.trans hstate⟩
      -- Only an exit calls a handler, and the only one that is left leads to `IDLE`.
      have hsettle : (call.resume ext AsyncConnection.con r
          { w with net := w.net.eraseIdx i }).settle = (w', es) := by
        simpa [AsyncConnection.machine, hcall, hadmits] using hstep
      obtain ⟨htells, herror⟩ := hsteady call hcall
      have hexits := @resume_exits ρ ext { w with net := w.net.eraseIdx i } r h call hh
        (hsound.plain call (List.mem_of_getElem? hcall)) hadmits (htells hstate) herror
      rw [← invoked_settle, ← settle_world, hsettle] at hexits
      rcases hexits with hnone | hidle | hclosed
      · rw [htold] at hnone
        cases hnone
      · exact Or.inr ⟨htold, hidle⟩
      · exact absurd hclosed hclose

/-- A call whose handler goes into an empty slot: nothing else is waited for. -/
theorem Attended.fills {c : Call} (hinv : Attended labels w events)
    (hfresh : c.handler ∉ issued labels) (hfree : ∀ own, ¬ Pending labels events own)
    (hh : w'.fsm.ehandler = some c.handler) (hstate : w'.fsm.state ≠ .IDLE)
    (hclose : w'.fsm.state ≠ .CLOSE) (hes : invoked es = []) :
    Attended (labels ++ [.call c]) w' (events ++ es) := by
  have hinvoked : invoked (events ++ es) = invoked events := by
    rw [invoked_append, hes, List.append_nil]
  refine ⟨?_, hclose, ?_, ?_, ?_⟩
  · intro h hcalled
    rw [hinvoked] at hcalled
    rw [issued_call]
    exact List.mem_append_left _ (hinv.known h hcalled)
  · intro hnone
    rw [hh] at hnone
    cases hnone
  · intro h hslot
    rw [hh] at hslot
    cases hslot
    rw [issued_call]
    exact List.mem_append_right _ List.mem_cons_self
  · intro h hslot own
    rw [hh] at hslot
    cases hslot
    unfold Pending
    rw [issued_call, hinvoked, List.mem_append, List.mem_singleton]
    constructor
    · intro ⟨hmem, hmissing⟩
      rcases hmem with hold | hnew
      · exact absurd ⟨hold, hmissing⟩ (hfree own)
      · exact ⟨hnew, hstate⟩
    · intro ⟨hown, _⟩
      rw [hown]
      exact ⟨Or.inr rfl, fun hcalled => hfresh (hinv.known _ hcalled)⟩

/-- A refused call is answered at once and changes nothing. -/
theorem Attended.refuses {c : Call} {ec : ErrorCode} {state : State}
    (hinv : Attended labels w events) (hfresh : c.handler ∉ issued labels)
    (hslot : w.fsm.ehandler ≠ none) :
    Attended (labels ++ [.call c]) w (events ++ [.handler c.handler ec state]) := by
  have hinvoked : invoked (events ++ [.handler c.handler ec state]) =
      invoked events ++ [c.handler] := invoked_append _ _
  refine ⟨?_, hinv.close, fun hnone => absurd hnone hslot, ?_, ?_⟩
  · intro h hcalled
    rw [hinvoked] at hcalled
    rw [issued_call]
    rcases List.mem_append.mp hcalled with hold | hnew
    · exact List.mem_append_left _ (hinv.known h hold)
    · exact List.mem_append_right _ hnew
  · intro h hh
    rw [issued_call]
    exact List.mem_append_left _ (hinv.held h hh)
  · intro h hh own
    rw [← hinv.slot h hh own]
    unfold Pending
    rw [issued_call, hinvoked]
    simp only [List.mem_append, List.mem_singleton]
    constructor
    · intro ⟨hmem, hmissing⟩
      rcases hmem with hold | hnew
      · exact ⟨hold, fun hcalled => hmissing (Or.inl hcalled)⟩
      · exact absurd (Or.inr hnew) hmissing
    · intro ⟨hmem, hmissing⟩
      refine ⟨Or.inl hmem, ?_⟩
      intro hcalled
      rcases hcalled with hold | rfl
      · exact hmissing hold
      · exact hfresh hmem

theorem Attended.completes {i : Nat} {r : Completion} (hinv : Attended labels w events)
    (hsound : Sound w) (hsteady : Steady w (.complete i r))
    (hstep : (AsyncConnection.machine ext).step w (.complete i r) = some (w', es)) :
    Attended (labels ++ [.complete i r]) w' (events ++ es) := by
  obtain ⟨h, hh, hkept, hclose, hanswers⟩ := complete_answers hsound hinv.close hsteady hstep
  have hslot := hinv.slot h hh
  refine ⟨?_, hclose, ?_, ?_, ?_⟩
  · intro own hcalled
    rw [invoked_append] at hcalled
    rw [issued_complete]
    rcases List.mem_append.mp hcalled with hold | hnew
    · exact hinv.known own hold
    · rcases hanswers with ⟨hnone, _⟩ | ⟨htold, _⟩
      · rw [hnone] at hnew
        cases hnew
      · rw [htold] at hnew
        rw [List.mem_singleton.mp hnew]
        exact hinv.held h hh
  · intro hnone
    rw [hkept] at hnone
    cases hnone
  · intro own hown
    rw [hkept] at hown
    cases hown
    rw [issued_complete]
    exact hinv.held h hh
  · intro own hown other
    rw [hkept] at hown
    cases hown
    unfold Pending at hslot ⊢
    rw [issued_complete, invoked_append]
    rcases hanswers with ⟨hnone, hidle⟩ | ⟨htold, hidle⟩
    · rw [hnone, List.append_nil, hslot other, ne_eq, ne_eq, hidle]
    · rw [htold, hidle]
      simp only [List.mem_append, List.mem_singleton, ne_eq, not_true_eq_false, and_false,
        iff_false]
      intro ⟨hmem, hmissing⟩
      have hpending := (hslot other).mp ⟨hmem, fun hcalled => hmissing (Or.inl hcalled)⟩
      exact hmissing (Or.inr hpending.1)

theorem Attended.step {label : Label} (hinv : Attended labels w events) (hsound : Sound w)
    (hsteady : Steady w label) (hown : (issued (labels ++ [label])).Nodup)
    (hstep : (AsyncConnection.machine ext).step w label = some (w', es)) :
    Attended (labels ++ [label]) w' (events ++ es) := by
  cases label with
  | complete i r => exact hinv.completes hsound hsteady hstep
  | call c =>
      rw [issued_call] at hown
      have hfresh : c.handler ∉ issued labels := by
        intro hmem
        exact (List.nodup_append.mp hown).2.2 _ hmem _ List.mem_cons_self rfl
      have hcase := step_cases hsound hstep
      cases hcase with
      | close eh => exact hsteady.elim
      | connect option eh =>
          obtain ⟨hstate, hnone⟩ := hinv.new hsteady
          refine hinv.fills hfresh ?_ rfl ?_ hinv.close rfl
          · intro own hpending
            have hmem := hpending.1
            rw [hnone] at hmem
            cases hmem
          · simp [hstate]
      | reject c hc hstate =>
          exact hinv.refuses hfresh (hsteady.handler_ne_none hc)
      | accept c hc hstate fsm hhandler hnext msg wh _ _ _ =>
          have hslot : w.fsm.ehandler ≠ none := by
            intro hnone
            rw [(hinv.new hnone).1] at hstate
            cases hstate
          obtain ⟨h, hh⟩ := Option.ne_none_iff_exists'.mp hslot
          have hopen : fsm.state ≠ .IDLE ∧ fsm.state ≠ .CLOSE := by
            rcases hnext with hquery | hquery
            · simp [hquery]
            · simp [hquery]
          refine hinv.fills hfresh ?_ hhandler hopen.1 hopen.2 rfl
          intro own hpending
          exact ((hinv.slot h hh own).mp hpending).2 hstate

theorem attended_run {results : ResultId → ρ}
    (hrun : (AsyncConnection.machine ext).Run Steady (World.init results) labels w events)
    (hown : (issued labels).Nodup) : Attended labels w events := by
  have hinit : Attended [] (World.init results) [] :=
    ⟨by simp [invoked], by simp [World.init, FSM.init], fun _ => ⟨rfl, rfl⟩, by
      simp [World.init, FSM.init], by simp [World.init, FSM.init]⟩
  have hinv : Sound w ∧ ((issued labels).Nodup → Attended labels w events) := by
    refine hrun.invariant (fun labels w events => Sound w ∧
      ((issued labels).Nodup → Attended labels w events)) ⟨Sound.init results, fun _ => hinit⟩ ?_
    intro labels w w' past es label hbefore hsteady hstep
    obtain ⟨hsound, hinv⟩ := hbefore
    refine ⟨hsound.step (step_cases hsound hstep), fun hown => ?_⟩
    have hearlier : (issued labels).Nodup := by
      unfold issued at hown
      rw [List.filterMap_append] at hown
      exact (List.nodup_append.mp hown).1
    exact (hinv hearlier).step hsound hsteady hown hstep
  exact hinv.2 hown

end Runs

/-- A call is answered with `busy`. -/
def AnsweredBusy (ext : Externals ρ) (w : World (List ConnCall) ρ) (c : Call) : Prop :=
  ∃ w' es state, (AsyncConnection.machine ext).step w (.call c) = some (w', es) ∧
    .handler c.handler (makeErrorCode .busy) state ∈ es

theorem answeredBusy_iff {w : World (List ConnCall) ρ} {c : Call} (hc : c.isRequest = true) :
    AnsweredBusy ext w c ↔ w.fsm.state ≠ .IDLE := by
  constructor
  · intro ⟨w', es, state, hstep, hbusy⟩ hidle
    obtain ⟨fsm, msg, wh, haccept, _⟩ := accept_run c hc hidle
    simp only [AsyncConnection.machine, haccept, settle_ok] at hstep
    cases hstep
    simp at hbusy
  · intro hstate
    have hreject := reject_run AsyncConnection.con c hc hstate
    refine ⟨w, [.handler c.handler (makeErrorCode .busy) w.fsm.state], w.fsm.state, ?_,
      List.mem_cons_self⟩
    simp only [AsyncConnection.machine, hreject, settle_ok]

/-- In every state of a steady run a request is answered with `busy` if and only
if the handler of an earlier call has not been called yet. -/
theorem busy_iff_pending (ext : Externals ρ) (results : ResultId → ρ) (labels : List Label)
    (t : World (List ConnCall) ρ) (events : List Event)
    (hrun : (AsyncConnection.machine ext).Run Steady (World.init results) labels t events)
    (hown : (issued labels).Nodup) (c : Call) (hc : c.isRequest = true)
    (hsteady : Steady t (.call c)) :
    AnsweredBusy ext t c ↔ ∃ h, Pending labels events h := by
  have hinv := attended_run hrun hown
  obtain ⟨h, hh⟩ := Option.ne_none_iff_exists'.mp (hsteady.handler_ne_none hc)
  rw [answeredBusy_iff hc]
  constructor
  · intro hstate
    exact ⟨h, (hinv.slot h hh h).mpr ⟨rfl, hstate⟩⟩
  · intro ⟨own, hpending⟩
    exact ((hinv.slot h hh own).mp hpending).2

theorem steady_complete {w : World (List ConnCall) ρ} {i : Nat} {r : Completion} {call : ConnCall}
    (hcall : w.net[i]? = some call) (htells : ¬ call.Tells r) (herror : ¬ call.BringsError r) :
    Steady w (.complete i r) := by
  intro other hother
  rw [hcall] at hother
  cases hother
  exact ⟨fun _ => htells, fun _ => herror⟩

/-- After the log-on a query is under way, and the next one has to wait. -/
theorem busy_iff_pending_query :
    ∃ t events, (AsyncConnection.machine (Externals.standard fun _ => [])).Run Steady
        (World.init fun _ => []) (logOn .empty 0 ++ [.call (.exec (ascii "a") none 1)]) t events ∧
      AnsweredBusy (Externals.standard fun _ => []) t (.exec (ascii "b") none 2) := by
  have hrun : ∃ t events, (AsyncConnection.machine (Externals.standard fun _ => [])).Run Steady
      (World.init fun _ => []) (logOn .empty 0 ++ [.call (.exec (ascii "a") none 1)]) t events ∧
      t.fsm.ehandler = some 1 ∧ invoked events = [0] := by
    refine ⟨_, _, .cons rfl rfl <| .cons ?_ rfl <| .cons ?_ rfl <| .cons ?_ rfl <|
      .cons ?_ rfl <| .cons ?_ rfl <| .cons ?_ rfl <| .cons ?_ rfl .nil, rfl, rfl⟩
    · exact steady_complete rfl Bool.false_ne_true id
    · exact steady_complete rfl Bool.false_ne_true id
    · exact steady_complete rfl Bool.false_ne_true id
    · exact steady_complete rfl Bool.false_ne_true fun hbrings => absurd hbrings.1 (by decide)
    · exact steady_complete rfl Bool.false_ne_true id
    · exact steady_complete rfl Bool.false_ne_true fun hbrings => absurd hbrings.1 (by decide)
    · exact Option.some_ne_none 0
  obtain ⟨t, events, hrun, hh, hinvoked⟩ := hrun
  have hslot : t.fsm.ehandler ≠ none := by simp [hh]
  refine ⟨t, events, hrun, ?_⟩
  apply (busy_iff_pending _ _ _ t events hrun (by decide) (.exec (ascii "b") none 2) rfl hslot).mpr
  exact ⟨1, by decide, by simp [hinvoked]⟩

/-- Any run without a `close`. -/
def Unclosed (_ : World (List ConnCall) ρ) : Label → Prop
  | .call (.close _) => False
  | _ => True

/-- The write of a query fails, its handler is told so, and the next query is
refused all the same. -/
theorem not_busy_iff_pending :
    ¬ ∀ labels t events, (AsyncConnection.machine (Externals.standard fun _ => [])).Run Unclosed
        (World.init fun _ => []) labels t events → (issued labels).Nodup →
      ∀ c : Call, c.isRequest = true →
        (AnsweredBusy (Externals.standard fun _ => []) t c ↔ ∃ h, Pending labels events h) := by
  intro hall
  have hrun : ∃ t events, (AsyncConnection.machine (Externals.standard fun _ => [])).Run Unclosed
      (World.init fun _ => []) (logOn .empty 0 ++
        [.call (.exec (ascii "a") none 1), .complete 0 ⟨⟨32, .external 0⟩, 0, []⟩]) t events ∧
      t.fsm.state = .QUERY ∧ invoked events = [0, 1] := by
    refine ⟨_, _, .cons trivial rfl <| .cons trivial rfl <| .cons trivial rfl <|
      .cons trivial rfl <| .cons trivial rfl <| .cons trivial rfl <| .cons trivial rfl <|
      .cons trivial rfl <| .cons trivial rfl .nil, rfl, rfl⟩
  obtain ⟨t, events, hrun, hstate, hinvoked⟩ := hrun
  have hbusy := hall _ t events hrun (by decide) (.exec (ascii "b") none 2) rfl
  rw [answeredBusy_iff rfl] at hbusy
  obtain ⟨h, hmem, hmissing⟩ := hbusy.mp (by simp [hstate])
  rw [hinvoked] at hmissing
  exact hmissing hmem

end Lapq
