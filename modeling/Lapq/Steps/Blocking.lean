import Lapq.Steps.Machine

/-!
Every callback makes its call on the connection last. So a callback over a
connection that performs the call in place does the same as over one that notes
it, followed by the call. The exception is a request for an MD5 password, which
makes two calls.
-/

namespace Lapq

variable {ν ρ α β : Type} {ext : Externals ρ}

/-- The same state machine and results over another connection. -/
def World.withNet {μ : Type} (w : World ν ρ) (net : μ) : World μ ρ := ⟨w.fsm, w.results, net⟩

def Outcome.withNet {μ : Type} (o : Outcome ν ρ α) (net : μ) : Outcome μ ρ α :=
  ⟨o.value, o.world.withNet net, o.events⟩

/-- What happened before, put in front. -/
def Outcome.after (es : List Event) (o : Outcome ν ρ α) : Outcome ν ρ α :=
  { o with events := es ++ o.events }

/-- From `w`, both programs do the same and leave their connection alone. -/
structure Inert (x : Act (List ConnCall) ρ α) (y : Act ν ρ α)
    (w : World (List ConnCall) ρ) : Prop where
  net : (x w).world.net = w.net
  same : ∀ net, y (w.withNet net) = (x w).withNet net

/-- From `w`, both programs do the same, up to one call at the end, which `x`
notes and `y` performs as `f` does. -/
def Tail (f : ConnCall → Act ν ρ Unit) (x : Act (List ConnCall) ρ Unit) (y : Act ν ρ Unit)
    (w : World (List ConnCall) ρ) : Prop :=
  Inert x y w ∨ ∃ call, (x w).value = .ok () ∧ (x w).world.net = w.net ++ [call] ∧
    ∀ net, y (w.withNet net) = (f call ((x w).world.withNet net)).after (x w).events

variable {f : ConnCall → Act ν ρ Unit} {w : World (List ConnCall) ρ}

theorem Inert.bind {x : Act (List ConnCall) ρ α} {y : Act ν ρ α}
    {k : α → Act (List ConnCall) ρ β} {k' : α → Act ν ρ β} (hx : Inert x y w)
    (hk : ∀ a, (x w).value = .ok a → Inert (k a) (k' a) (x w).world) :
    Inert (x >>= k) (y >>= k') w := by
  obtain ⟨hnet, hsame⟩ := hx
  cases hrun : x w with
  | mk value world es =>
      rw [hrun] at hnet hsame hk
      cases value with
      | error e =>
          constructor
          · rw [Act.bind_error hrun]
            exact hnet
          · intro net
            rw [Act.bind_error (hsame net), Act.bind_error hrun]
            rfl
      | ok a =>
          obtain ⟨hnet', hsame'⟩ := hk a rfl
          constructor
          · rw [Act.bind_ok hrun]
            exact hnet'.trans hnet
          · intro net
            have hthen : k' a (world.withNet net) = (k a world).withNet net := hsame' net
            rw [Act.bind_ok (hsame net), Act.bind_ok hrun]
            simp only [hthen]
            rfl

theorem Tail.bind {x : Act (List ConnCall) ρ α} {y : Act ν ρ α}
    {k : α → Act (List ConnCall) ρ Unit} {k' : α → Act ν ρ Unit} (hx : Inert x y w)
    (hk : ∀ a, (x w).value = .ok a → Tail f (k a) (k' a) (x w).world) :
    Tail f (x >>= k) (y >>= k') w := by
  cases hrun : x w with
  | mk value world es =>
      cases value with
      | error e =>
          refine Or.inl (hx.bind ?_)
          intro a ha
          rw [hrun] at ha
          cases ha
      | ok a =>
          rcases hk a (by rw [hrun]) with hinert | ⟨call, hvalue, hnet, hsame⟩
          · refine Or.inl (hx.bind ?_)
            intro b hb
            rw [hrun] at hb
            cases hb
            exact hinert
          · rw [hrun] at hvalue hnet hsame
            have hkept := hx.net
            rw [hrun] at hkept
            refine Or.inr ⟨call, ?_, ?_, ?_⟩
            · rw [Act.bind_ok hrun]
              exact hvalue
            · rw [Act.bind_ok hrun]
              exact hnet.trans (congrArg (· ++ [call]) hkept)
            · intro net
              have hfirst := hx.same net
              rw [hrun] at hfirst
              have hthen : k' a (world.withNet net) =
                (f call ((k a world).world.withNet net)).after (k a world).events := hsame net
              rw [Act.bind_ok hfirst, Act.bind_ok hrun]
              simp only [hthen]
              simp [Outcome.after, List.append_assoc]

theorem Tail.perform (f : ConnCall → Act ν ρ Unit) (call : ConnCall) :
    Tail f (AsyncConnection.push call) (f call) w := by
  refine Or.inr ⟨call, rfl, rfl, ?_⟩
  intro net
  simp [AsyncConnection.push, Outcome.after, World.withNet]

/-! Programs that do not use the connection. -/

theorem Inert.pure (a : α) : Inert (Pure.pure a) (Pure.pure a : Act ν ρ α) w :=
  ⟨rfl, fun _ => rfl⟩

theorem Inert.throw (e : Abort) : Inert (Act.throw e) (Act.throw e : Act ν ρ α) w :=
  ⟨rfl, fun _ => rfl⟩

theorem Inert.emit (e : Event) : Inert (Act.emit e) (Act.emit e : Act ν ρ Unit) w :=
  ⟨rfl, fun _ => rfl⟩

theorem Inert.lift (x : Except Abort α) : Inert (Act.lift x) (Act.lift x : Act ν ρ α) w := by
  cases x with
  | ok a => exact Inert.pure a
  | error e => exact Inert.throw e

theorem Inert.getFsm : Inert Act.getFsm (Act.getFsm : Act ν ρ FSM) w :=
  ⟨rfl, fun _ => rfl⟩

theorem Inert.modifyFsm (g : FSM → FSM) :
    Inert (Act.modifyFsm g) (Act.modifyFsm g : Act ν ρ Unit) w :=
  ⟨rfl, fun _ => rfl⟩

theorem Inert.setState (s : State) :
    Inert (Act.setState s) (Act.setState s : Act ν ρ Unit) w :=
  Inert.modifyFsm _

theorem Inert.invoke (eh : Option HandlerId) (ec : ErrorCode) :
    Inert (Act.invoke eh ec) (Act.invoke eh ec : Act ν ρ Unit) w := by
  cases eh with
  | none => exact ⟨rfl, fun _ => rfl⟩
  | some h => exact ⟨rfl, fun _ => rfl⟩

theorem Inert.callHandler (ec : ErrorCode) :
    Inert (Act.callHandler ec) (Act.callHandler ec : Act ν ρ Unit) w := by
  obtain ⟨hnet, hsame⟩ := Inert.invoke (ν := ν) (w := w) w.fsm.ehandler ec
  exact ⟨hnet, hsame⟩

theorem Inert.callResult (base : ResultBase ρ) (id : ResultId) (call : ResultCall) :
    Inert (Act.callResult base id call) (Act.callResult base id call : Act ν ρ Unit) w := by
  cases hcall : base.call call (w.results id) with
  | ok r =>
      constructor
      · simp [Act.callResult, hcall]
      · intro net
        simp [Act.callResult, World.withNet, Outcome.withNet, hcall]
  | error e =>
      constructor
      · simp [Act.callResult, hcall]
      · intro net
        simp [Act.callResult, World.withNet, Outcome.withNet, hcall]

theorem Inert.readColumns (id : ResultId) (buf : Buffer) (n : Nat) (i : Int) (pos : Nat) :
    Inert (DataRow.readColumns ext id buf n i pos)
      (DataRow.readColumns ext id buf n i pos : Act ν ρ Unit) w := by
  induction n generalizing i pos w with
  | zero => exact Inert.pure ()
  | succ n ih =>
      unfold DataRow.readColumns
      apply Inert.bind (Inert.lift _)
      rintro ⟨sz, taken⟩ _
      apply Inert.bind (Inert.callResult _ _ _)
      intro _ _
      exact ih _ _

theorem Inert.dataRow (head : Header) (body : Buffer) (id : ResultId) :
    Inert (DataRow.deserialize ext head body id)
      (DataRow.deserialize ext head body id : Act ν ρ ErrorCode) w := by
  unfold DataRow.deserialize
  dsimp only
  split
  · exact Inert.pure _
  · apply Inert.bind (Inert.lift _)
    rintro ⟨num, pos⟩ _
    apply Inert.bind (Inert.callResult _ _ _)
    intro _ _
    apply Inert.bind (Inert.readColumns _ _ _ _ _)
    intro _ _
    exact Inert.pure _

/-! The state machine. -/

theorem Tail.write (msg : Message) (wh : WHandler) :
    Tail f (AsyncConnection.con.write msg wh) ((ConnectionBase.ofCalls f).write msg wh) w :=
  Tail.bind (Inert.emit _) fun _ _ => Tail.perform f (.write msg wh)

theorem Tail.read (len : Nat) (rh : RHandler) :
    Tail f (AsyncConnection.con.read len rh) ((ConnectionBase.ofCalls f).read len rh) w := by
  unfold ConnectionBase.read
  split
  · exact Or.inl (Inert.throw _)
  · exact Tail.perform f (.read len rh)

theorem Tail.receive :
    Tail f (FSM.receive AsyncConnection.con) (FSM.receive (ConnectionBase.ofCalls f)) w :=
  Tail.read Header.size .header

theorem Tail.receiveUnless (ec : ErrorCode) :
    Tail f (FSM.receiveUnless AsyncConnection.con ec)
      (FSM.receiveUnless (ConnectionBase.ofCalls f) ec) w := by
  unfold FSM.receiveUnless
  split
  · exact Or.inl (Inert.callHandler ec)
  · exact Tail.receive

theorem Tail.authenticate {head : Header} {body : Buffer}
    (htype : head.mtype = Authentication.mtype) (hmsg : ¬ IsAuthentication 5 head body) :
    Tail f (FSM.authenticate ext AsyncConnection.con head body)
      (FSM.authenticate ext (ConnectionBase.ofCalls f) head body) w := by
  unfold FSM.authenticate
  cases hdec : Authentication.deserialize ext.uninitialised head body with
  | error e => exact Tail.bind (Inert.throw e) (fun a ha => by cases ha)
  | ok decoded =>
      apply Tail.bind (Inert.pure decoded)
      rintro ⟨ec, msg⟩ hvalue
      cases hvalue
      dsimp only
      split
      · exact Or.inl (Inert.callHandler _)
      rename_i hec
      have hcode := authentication_type (Bool.eq_false_iff.mpr hec) hdec
      split
      · exact Tail.bind (Inert.setState _) fun _ _ => Tail.receive
      · have hother : ¬ msg.authType = Authentication.authMd5Password := by
          intro hmd5
          exact hmsg ⟨htype, by rw [hcode, hmd5]; rfl⟩
        simp only [hother, if_false]
        exact Tail.receive

theorem Tail.callResultThenReceive (call : ResultCall) :
    Tail f
      (do
        let fsm ← Act.getFsm
        match fsm.result with
        | some id => Act.callResult ext.base id call
        | none => pure ()
        FSM.receive AsyncConnection.con)
      (do
        let fsm ← Act.getFsm
        match fsm.result with
        | some id => Act.callResult ext.base id call
        | none => pure ()
        FSM.receive (ConnectionBase.ofCalls f)) w := by
  apply Tail.bind Inert.getFsm
  intro fsm _
  cases fsm.result with
  | none => exact Tail.receive
  | some id => exact Tail.bind (Inert.callResult _ _ _) fun _ _ => Tail.receive

theorem Tail.action {head : Header} {body : Buffer} {action : Action}
    (hentry : (w.fsm.state, head.mtype, action) ∈ tableEntries)
    (hmsg : w.fsm.state = .AUTH → ¬ IsAuthentication 5 head body) :
    Tail f (action.run ext AsyncConnection.con head body)
      (action.run ext (ConnectionBase.ofCalls f) head body) w := by
  cases action with
  | authenticate =>
      obtain ⟨hstate, htype⟩ := (tableEntries_spec _ hentry).1 rfl
      exact Tail.authenticate htype (hmsg hstate)
  | authError => exact Tail.bind (Inert.lift _) fun a _ => Or.inl (Inert.callHandler a.1)
  | readyForQuery =>
      apply Tail.bind (Inert.lift _)
      intro a _
      exact Tail.bind (Inert.setState _) fun _ _ => Or.inl (Inert.callHandler a.1)
  | closeComplete =>
      exact Tail.bind (Inert.setState _) fun _ _ => Or.inl (Inert.callHandler _)
  | rowDescription =>
      apply Tail.bind (Inert.lift _)
      rintro ⟨ec, fs⟩ _
      dsimp only
      split
      · exact Or.inl (Inert.callHandler _)
      · exact Tail.callResultThenReceive _
  | queryError =>
      apply Tail.bind (Inert.lift _)
      rintro ⟨ec, error⟩ _
      dsimp only
      split
      · exact Or.inl (Inert.callHandler _)
      · exact Tail.callResultThenReceive _
  | dataRow =>
      apply Tail.bind Inert.getFsm
      intro fsm _
      cases fsm.result with
      | none => exact Or.inl (Inert.throw _)
      | some id =>
          exact Tail.bind (Inert.dataRow _ _ _) fun ec _ => Tail.receiveUnless ec
  | parseComplete => exact Tail.receive
  | bindComplete => exact Tail.receive
  | backendKeyData => exact Tail.bind (Inert.lift _) fun a _ => Tail.receiveUnless a.1
  | parameterStatus => exact Tail.bind (Inert.lift _) fun a _ => Tail.receiveUnless a.1
  | commandComplete => exact Tail.bind (Inert.lift _) fun a _ => Tail.receiveUnless a.1
  | noticeResponse => exact Tail.bind (Inert.lift _) fun a _ => Tail.receiveUnless a.1
  | parameterDescription => exact Tail.bind (Inert.lift _) fun a _ => Tail.receiveUnless a.1

theorem Tail.next (head : Header) (body : Buffer)
    (hmsg : w.fsm.state = .AUTH → ¬ IsAuthentication 5 head body) :
    Tail f (FSM.next ext AsyncConnection.con head.mtype head body)
      (FSM.next ext (ConnectionBase.ofCalls f) head.mtype head body) w := by
  unfold FSM.next
  apply Tail.bind Inert.getFsm
  intro fsm hfsm
  cases hfsm
  apply Tail.bind (Inert.emit _)
  intro _ _
  cases hrow : tableRow w.fsm.state with
  | none => exact Or.inl (Inert.throw _)
  | some transition =>
      cases hfind : transition.find head.mtype with
      | none =>
          simp only [hfind]
          exact Tail.receive
      | some action =>
          simp only [hfind]
          exact Tail.action (mem_tableEntries hrow hfind) hmsg

theorem Tail.readHandler (rh : RHandler) (ec : ErrorCode) (buf : Buffer)
    (hmsg : ∀ head, rh = .body head → ec.isError = false → w.fsm.state = .AUTH →
      ¬ IsAuthentication 5 head buf) :
    Tail f (rh.run ext AsyncConnection.con ec buf)
      (rh.run ext (ConnectionBase.ofCalls f) ec buf) w := by
  unfold RHandler.run
  split
  · exact Or.inl (Inert.callHandler ec)
  rename_i hec
  cases rh with
  | header =>
      apply Tail.bind (Inert.lift _)
      rintro ⟨er, head⟩ _
      exact Tail.read _ _
  | body head => exact Tail.next head buf (hmsg head rfl (Bool.eq_false_iff.mpr hec))

theorem Tail.andThen (eh : Option HandlerId) (ec : ErrorCode)
    {x : Act (List ConnCall) ρ Unit} {y : Act ν ρ Unit} (hxy : Tail f x y w) :
    Tail f (WHandler.andThen eh ec x) (WHandler.andThen eh ec y) w := by
  unfold WHandler.andThen
  split
  · exact Or.inl (Inert.invoke eh ec)
  · exact hxy

theorem Tail.withQuery {x : DBQuery → Act (List ConnCall) ρ Unit} {y : DBQuery → Act ν ρ Unit}
    (hxy : ∀ q, Tail f (x q) (y q) w) : Tail f (FSM.withQuery x) (FSM.withQuery y) w := by
  unfold FSM.withQuery
  apply Tail.bind Inert.getFsm
  intro fsm hfsm
  cases hfsm
  cases w.fsm.query with
  | none => exact Or.inl (Inert.throw _)
  | some q => exact hxy q

theorem Tail.writeHandler (wh : WHandler) (ec : ErrorCode) :
    Tail f (wh.run AsyncConnection.con ec) (wh.run (ConnectionBase.ofCalls f) ec) w := by
  cases wh with
  | startUpWritten => exact Tail.receiveUnless ec
  | queryWritten => exact Tail.receiveUnless ec
  | passwordWritten => exact Tail.receiveUnless ec
  | sslStartUpWritten eh => exact Tail.andThen eh ec Tail.receive
  | syncWritten eh => exact Tail.andThen eh ec Tail.receive
  | parseSyncWritten eh => exact Tail.andThen eh ec Tail.receive
  | bindWritten eh => exact Tail.andThen eh ec (Tail.withQuery fun q => Tail.write _ _)
  | describeWritten eh => exact Tail.andThen eh ec (Tail.withQuery fun q => Tail.write _ _)
  | executeWritten eh => exact Tail.andThen eh ec (Tail.write _ _)
  | parseWritten eh => exact Tail.andThen eh ec (Tail.write _ _)
  | terminateWritten =>
      exact Tail.bind (Inert.emit _) fun _ _ => Or.inl (Inert.callHandler ec)

theorem Inert.failConnect (eh : EHandler) (ec : ErrorCode) :
    Inert (eh.fail ec) (eh.fail ec : Act ν ρ Unit) w := by
  cases eh with
  | connected option => exact Inert.callHandler ec
  | sslConnected option ehandler => exact Inert.invoke ehandler ec
  | handshaken option ehandler => exact Inert.invoke ehandler ec

theorem Tail.connectHandler (eh : EHandler) (ec : ErrorCode) :
    Tail f (eh.run AsyncConnection.con ec) (eh.run (ConnectionBase.ofCalls f) ec) w := by
  unfold EHandler.run
  split
  · exact Or.inl (Inert.failConnect eh ec)
  cases eh with
  | connected option => exact Tail.write _ _
  | sslConnected option ehandler =>
      exact Or.inl (Inert.failConnect (.handshaken option ehandler) .enosys)
  | handshaken option ehandler => exact Tail.write _ _

theorem Tail.resume (ext : Externals ρ) (r : Completion) (call : ConnCall)
    (hmsg : ∀ len head, call = .read len (.body head) → r.ec.isError = false →
      w.fsm.state = .AUTH → ¬ IsAuthentication 5 head r.data) :
    Tail f (call.resume ext AsyncConnection.con r)
      (call.resume ext (ConnectionBase.ofCalls f) r) w := by
  cases call with
  | connect eh => exact Tail.connectHandler eh r.ec
  | read len rh =>
      apply Tail.readHandler rh r.ec r.data
      rintro head rfl
      exact hmsg len head rfl
  | write msg wh => exact Tail.writeHandler wh _

theorem Tail.request (c : Call) :
    Tail f (c.run AsyncConnection.con) (c.run (ConnectionBase.ofCalls f)) w := by
  cases c with
  | connect option eh =>
      exact Tail.bind (Inert.modifyFsm _) fun _ _ => Tail.perform f _
  | close eh =>
      refine Tail.bind (Inert.setState _) fun _ _ => ?_
      exact Tail.bind (Inert.modifyFsm _) fun _ _ => Tail.write _ _
  | exec q res eh =>
      refine Tail.bind Inert.getFsm fun fsm _ => ?_
      split
      · exact Or.inl (Inert.invoke _ _)
      · refine Tail.bind (Inert.modifyFsm _) fun _ _ => ?_
        exact Tail.bind (Inert.setState _) fun _ _ => Tail.write _ _
  | execQuery q res eh =>
      refine Tail.bind Inert.getFsm fun fsm _ => ?_
      split
      · exact Or.inl (Inert.invoke _ _)
      · refine Tail.bind (Inert.modifyFsm _) fun _ _ => ?_
        refine Tail.bind (Inert.modifyFsm _) fun _ _ => ?_
        exact Tail.bind (Inert.setState _) fun _ _ => Tail.write _ _
  | parse q eh =>
      refine Tail.bind Inert.getFsm fun fsm _ => ?_
      split
      · exact Or.inl (Inert.invoke _ _)
      · refine Tail.bind (Inert.modifyFsm _) fun _ _ => ?_
        exact Tail.bind (Inert.setState _) fun _ _ => Tail.write _ _

/-! Messages that a chain has received. -/

/-- The server did not ask for an MD5 password. -/
def NoPassword (events : List Event) : Prop :=
  ∀ head body, .dispatch .AUTH head body ∈ events → ¬ IsAuthentication 5 head body

theorem NoPassword.of_append_left {events more : List Event}
    (hpassword : NoPassword (events ++ more)) : NoPassword events :=
  fun head body hmem => hpassword head body (List.mem_append_left _ hmem)

theorem NoPassword.of_append_right {events more : List Event}
    (hpassword : NoPassword (events ++ more)) : NoPassword more :=
  fun head body hmem => hpassword head body (List.mem_append_right _ hmem)

theorem NoPassword.append {events more : List Event} (hevents : NoPassword events)
    (hmore : NoPassword more) : NoPassword (events ++ more) :=
  fun head body hmem => (List.mem_append.mp hmem).elim (hevents head body) (hmore head body)

/-- A message is dispatched before anything is done about it. -/
theorem not_password (con : ConnectionBase ν ρ) {head : Header} {ec : ErrorCode} {buf : Buffer}
    {w : World ν ρ} (hok : ec.isError = false)
    (hpassword : NoPassword (RHandler.run ext con (.body head) ec buf w).events)
    (hstate : w.fsm.state = .AUTH) : ¬ IsAuthentication 5 head buf := by
  have hrun : RHandler.run ext con (.body head) ec buf = FSM.next ext con head.mtype head buf := by
    unfold RHandler.run
    rw [if_neg (by simp [hok])]
  have hmem : .dispatch w.fsm.state head buf ∈
      (FSM.next ext con head.mtype head buf w).events := List.mem_cons_self
  rw [hrun] at hpassword
  apply hpassword
  rw [← hstate]
  exact hmem

end Lapq
