import Lapq.Semantics.Connection

/-!
What handing one message to the state machine can do over an asynchronous
connection. Every later invariant is a case analysis of `Reacts`; no other
module looks into the bodies of the action handlers for it.
-/

namespace Lapq

variable {ν ρ α : Type} {ext : Externals ρ}

namespace Act

@[simp] theorem emit_apply (e : Event) (w : World ν ρ) :
    emit e w = ⟨.ok (), w, [e]⟩ := rfl

@[simp] theorem throw_apply (e : Abort) (w : World ν ρ) :
    (throw e : Act ν ρ α) w = ⟨.error e, w, []⟩ := rfl

@[simp] theorem lift_ok (a : α) : (lift (.ok a) : Act ν ρ α) = pure a := rfl

@[simp] theorem lift_error (e : Abort) : (lift (.error e) : Act ν ρ α) = throw e := rfl

@[simp] theorem getFsm_apply (w : World ν ρ) : getFsm w = ⟨.ok w.fsm, w, []⟩ := rfl

@[simp] theorem modifyFsm_apply (f : FSM → FSM) (w : World ν ρ) :
    modifyFsm f w = ⟨.ok (), { w with fsm := f w.fsm }, []⟩ := rfl

@[simp] theorem setState_apply (s : State) (w : World ν ρ) :
    setState s w = ⟨.ok (), { w with fsm := { w.fsm with state := s } }, []⟩ := rfl

@[simp] theorem invoke_some (h : HandlerId) (ec : ErrorCode) (w : World ν ρ) :
    invoke (some h) ec w = ⟨.ok (), w, [.handler h ec w.fsm.state]⟩ := rfl

@[simp] theorem invoke_none (ec : ErrorCode) (w : World ν ρ) :
    invoke none ec w = ⟨.error .badFunctionCall, w, []⟩ := rfl

theorem callHandler_of_some {h : HandlerId} {w : World ν ρ}
    (hh : w.fsm.ehandler = some h) (ec : ErrorCode) :
    callHandler ec w = ⟨.ok (), w, [.handler h ec w.fsm.state]⟩ := by
  unfold callHandler
  rw [hh, invoke_some]

end Act

/-- The read that `FSM::receive` starts. -/
def ConnCall.header : ConnCall := .read Header.size .header

@[simp] theorem asyncReceive_apply (w : World (List ConnCall) ρ) :
    FSM.receive AsyncConnection.con w =
      ⟨.ok (), { w with net := w.net ++ [.header] }, []⟩ := rfl

@[simp] theorem asyncWrite_apply (msg : Message) (wh : WHandler)
    (w : World (List ConnCall) ρ) :
    AsyncConnection.con.write msg wh w =
      ⟨.ok (), { w with net := w.net ++ [.write msg wh] }, [.write msg]⟩ := rfl

/-! Callbacks that are given an error. -/

section Fails

variable (con : ConnectionBase ν ρ) {ec : ErrorCode}

theorem EHandler.run_fails (eh : EHandler) (hfail : ec.isError = true) :
    eh.run con ec = eh.fail ec := by
  unfold EHandler.run
  rw [if_pos hfail]

theorem WHandler.andThen_fails (ehandler : Option HandlerId) (x : Act ν ρ Unit)
    (hfail : ec.isError = true) : WHandler.andThen ehandler ec x = Act.invoke ehandler ec := by
  unfold WHandler.andThen
  rw [if_pos hfail]

theorem FSM.receiveUnless_fails (hfail : ec.isError = true) :
    FSM.receiveUnless con ec = Act.callHandler ec := by
  unfold FSM.receiveUnless
  rw [if_pos hfail]

theorem RHandler.run_fails (ext : Externals ρ) (rh : RHandler) (buf : Buffer)
    (hfail : ec.isError = true) :
    RHandler.run ext con rh ec buf = Act.callHandler ec := by
  unfold RHandler.run
  rw [if_pos hfail]

end Fails

/-- The code of an authentication message. -/
def authCode (body : Buffer) : Option Int := (Bytes.read32 body).map Bytes.signed32

def IsAuthentication (code : Int) (head : Header) (body : Buffer) : Prop :=
  head.mtype = Authentication.mtype ∧ authCode body = some code

instance (code : Int) (head : Header) (body : Buffer) :
    Decidable (IsAuthentication code head body) :=
  inferInstanceAs (Decidable (head.mtype = Authentication.mtype ∧ authCode body = some code))

/-- Only calls on the result object of the operation in progress. -/
def ResultEvents (fsm : FSM) (es : List Event) : Prop :=
  ∀ e ∈ es, ∃ id call, fsm.result = some id ∧ e = .result id call

/-- The message that ends the authentication, where it is waited for. -/
def GrantsAccess (state : State) (head : Header) (body : Buffer) : Prop :=
  state = .AUTH ∧ IsAuthentication 0 head body

/-- The outcomes of an action handler in a world whose handler is `h`. -/
inductive Reacts (h : HandlerId) (w : World (List ConnCall) ρ) (head : Header)
    (body : Buffer) : Outcome (List ConnCall) ρ Unit → Prop
  | goOn (results : ResultId → ρ) (es : List Event) (hes : ResultEvents w.fsm es)
      (hmsg : ¬ GrantsAccess w.fsm.state head body) :
      Reacts h w head body
        ⟨.ok (), { w with results := results, net := w.net ++ [.header] }, es⟩
  | authOk (hstate : w.fsm.state = .AUTH) (hmsg : IsAuthentication 0 head body) :
      Reacts h w head body
        ⟨.ok (), { w with fsm := { w.fsm with state := .CONN }, net := w.net ++ [.header] }, []⟩
  | md5 (hstate : w.fsm.state = .AUTH) (hmsg : IsAuthentication 5 head body)
      (msg : Message) (hpassword : ∃ text, msg = .password text) :
      Reacts h w head body
        ⟨.ok (), { w with net := w.net ++ [.write msg .passwordWritten, .header] }, [.write msg]⟩
  | report (ec : ErrorCode) (hec : ec.isError = true) :
      Reacts h w head body ⟨.ok (), w, [.handler h ec w.fsm.state]⟩
  | authError (hstate : w.fsm.state = .AUTH) (hmsg : head.mtype = ErrorResponse.mtype)
      (ec : ErrorCode) :
      Reacts h w head body ⟨.ok (), w, [.handler h ec .AUTH]⟩
  | ready (hstate : w.fsm.state ∈ [State.CONN, .QUERY, .EQUERY])
      (hmsg : head.mtype = ReadyForQuery.mtype) (ec : ErrorCode) :
      Reacts h w head body
        ⟨.ok (), { w with fsm := { w.fsm with state := .IDLE } }, [.handler h ec .IDLE]⟩
  | ended (hstate : w.fsm.state = .CLOSE) (ec : ErrorCode) :
      Reacts h w head body
        ⟨.ok (), { w with fsm := { w.fsm with state := .END } }, [.handler h ec .END]⟩
  | aborted (e : Abort) (results : ResultId → ρ) (es : List Event)
      (hes : ResultEvents w.fsm es) :
      Reacts h w head body ⟨.error e, { w with results := results }, es⟩

variable {h : HandlerId} {w : World (List ConnCall) ρ} {head : Header} {body : Buffer}

theorem Reacts.receive (hmsg : ¬ GrantsAccess w.fsm.state head body) :
    Reacts h w head body (FSM.receive AsyncConnection.con w) := by
  rw [asyncReceive_apply]
  exact Reacts.goOn w.results [] (by simp [ResultEvents]) hmsg

theorem Reacts.throw (e : Abort) : Reacts h w head body (Act.throw e w) :=
  Reacts.aborted e w.results [] (by simp [ResultEvents])

theorem Reacts.receiveUnless (hh : w.fsm.ehandler = some h)
    (hmsg : ¬ GrantsAccess w.fsm.state head body) (ec : ErrorCode) :
    Reacts h w head body (FSM.receiveUnless AsyncConnection.con ec w) := by
  unfold FSM.receiveUnless
  split
  · rename_i hec
    rw [Act.callHandler_of_some hh]
    exact Reacts.report ec hec
  · exact Reacts.receive hmsg

/-- A decoder that fails aborts; otherwise the handler goes on with its result. -/
theorem Reacts.ofLift {x : Except Abort α} {f : α → Act (List ConnCall) ρ Unit}
    (hok : ∀ a, x = .ok a → Reacts h w head body (f a w)) :
    Reacts h w head body ((Act.lift x >>= f) w) := by
  cases hx : x with
  | error e => exact Reacts.throw e
  | ok a =>
      have hrest := hok a hx
      simpa [Act.bind_apply] using hrest

/-- A call on the result, if there is one, followed by the next read. -/
theorem Reacts.callResultThenReceive (hmsg : ¬ GrantsAccess w.fsm.state head body)
    (call : ResultCall) :
    Reacts h w head body
      ((do
        let fsm ← Act.getFsm
        match fsm.result with
        | some id => Act.callResult ext.base id call
        | none => pure ()
        FSM.receive AsyncConnection.con : Act (List ConnCall) ρ Unit) w) := by
  cases hres : w.fsm.result with
  | none =>
      simp only [Act.bind_apply, Act.getFsm_apply, hres, asyncReceive_apply,
        List.nil_append]
      exact Reacts.goOn w.results [] (by simp [ResultEvents]) hmsg
  | some id =>
      have hes : ResultEvents w.fsm [.result id call] := by
        intro e he
        exact ⟨id, call, hres, List.mem_singleton.mp he⟩
      cases hcall : ext.base.call call (w.results id) with
      | ok r =>
          simp only [Act.bind_apply, Act.getFsm_apply, hres, Act.callResult, hcall,
            asyncReceive_apply, List.nil_append, List.append_nil]
          exact Reacts.goOn _ [.result id call] hes hmsg
      | error e =>
          simp only [Act.bind_apply, Act.getFsm_apply, hres, Act.callResult, hcall,
            List.nil_append]
          exact Reacts.aborted e w.results [.result id call] hes

/-- One column: its length word, then the call with the bytes after it. -/
theorem readColumns_succ {id : ResultId} {buf : Buffer} {pos taken : Nat} {i sz : Int}
    {w : World ν ρ} {r : ρ} (n : Nat)
    (hsize : deserializeInt32 buf pos = .ok (sz, taken))
    (hcall : ext.base.call (.addColumn i buf (pos + taken) sz) (w.results id) = .ok r) :
    DataRow.readColumns ext id buf (n + 1) i pos w =
      let o := DataRow.readColumns ext id buf n (i + 1) (toSize ((pos + taken : Nat) + sz))
        { w with results := Function.update w.results id r }
      ⟨o.value, o.world, .result id (.addColumn i buf (pos + taken) sz) :: o.events⟩ := by
  conv_lhs => unfold DataRow.readColumns
  rw [hsize]
  simp only [Act.lift_ok, Act.bind_apply, Act.pure_apply, Act.callResult, hcall,
    List.nil_append, List.singleton_append]

theorem readColumns_fail {id : ResultId} {buf : Buffer} {pos taken : Nat} {i sz : Int}
    {w : World ν ρ} {e : Abort} (n : Nat)
    (hsize : deserializeInt32 buf pos = .ok (sz, taken))
    (hcall : ext.base.call (.addColumn i buf (pos + taken) sz) (w.results id) = .error e) :
    DataRow.readColumns ext id buf (n + 1) i pos w =
      ⟨.error e, w, [.result id (.addColumn i buf (pos + taken) sz)]⟩ := by
  conv_lhs => unfold DataRow.readColumns
  rw [hsize]
  simp only [Act.lift_ok, Act.bind_apply, Act.pure_apply, Act.callResult, hcall,
    List.nil_append]

/-- Reading columns only calls the result object it was given. -/
theorem readColumns_frame (ext : Externals ρ) (id : ResultId) (buf : Buffer) (n : Nat) (i : Int)
    (pos : Nat) (w : World ν ρ) :
    ∃ results es, (DataRow.readColumns ext id buf n i pos w).world =
        { w with results := results } ∧
      (DataRow.readColumns ext id buf n i pos w).events = es ∧
      ∀ e ∈ es, ∃ call, e = .result id call := by
  induction n generalizing i pos w with
  | zero => exact ⟨w.results, [], rfl, rfl, by simp⟩
  | succ n ih =>
      cases hsize : deserializeInt32 buf pos with
      | error e =>
          refine ⟨w.results, [], ?_, ?_, by simp⟩ <;>
            simp [DataRow.readColumns, hsize, Act.bind_apply]
      | ok size =>
          obtain ⟨sz, taken⟩ := size
          let call := ResultCall.addColumn i buf (pos + taken) sz
          cases hcall : ext.base.call call (w.results id) with
          | error e =>
              rw [readColumns_fail n hsize hcall]
              refine ⟨w.results, [.result id call], rfl, rfl, ?_⟩
              intro e he
              exact ⟨call, List.mem_singleton.mp he⟩
          | ok r =>
              obtain ⟨results, es, hworld, hevents, hes⟩ :=
                ih (i + 1) (toSize ((pos + taken : Nat) + sz))
                  { w with results := Function.update w.results id r }
              rw [readColumns_succ n hsize hcall]
              refine ⟨results, .result id call :: es, hworld, ?_, ?_⟩
              · exact congrArg (List.cons _) hevents
              · exact List.forall_mem_cons.mpr ⟨⟨call, rfl⟩, hes⟩

/-- A data row changes nothing but its result object, and a verdict other than
success comes before any call. -/
theorem dataRow_deserialize_frame (ext : Externals ρ) (head : Header) (body : Buffer)
    (id : ResultId) (w : World ν ρ) :
    ∃ value results es,
      DataRow.deserialize ext head body id w = ⟨value, { w with results := results }, es⟩ ∧
      (∀ e ∈ es, ∃ call, e = .result id call) ∧
      (∀ ec, value = .ok ec → ec.isError = true → es = [] ∧ results = w.results) := by
  unfold DataRow.deserialize
  split
  · exact ⟨_, w.results, [], rfl, by simp, by simp⟩
  cases hnum : deserializeInt16 body 0 with
  | error e => exact ⟨.error e, w.results, [], rfl, by simp, by simp⟩
  | ok size =>
      obtain ⟨num, pos⟩ := size
      cases hcall : ext.base.call .addRow (w.results id) with
      | error e =>
          refine ⟨.error e, w.results, [.result id .addRow], ?_, by simp, by simp⟩
          simp only [Act.lift_ok, Act.bind_apply, Act.pure_apply, Act.callResult, hcall,
            List.nil_append]
      | ok r =>
          obtain ⟨results, es, hworld, hevents, hes⟩ :=
            readColumns_frame ext id body num.toNat 0 pos
              { w with results := Function.update w.results id r }
          cases hrest : DataRow.readColumns ext id body num.toNat 0 pos
              { w with results := Function.update w.results id r } with
          | mk value world events =>
              rw [hrest] at hworld hevents
              simp only at hworld hevents
              subst hworld hevents
              refine ⟨value.map fun _ => .success, results, .result id .addRow :: events, ?_, ?_,
                ?_⟩
              · cases value <;>
                  simp [Act.bind_apply, Act.callResult, hcall, hrest, Except.map]
              · exact List.forall_mem_cons.mpr ⟨⟨.addRow, rfl⟩, hes⟩
              · intro ec hec herr
                cases value with
                | error e => cases hec
                | ok _ =>
                    cases hec
                    simp at herr

theorem Reacts.dataRow (hh : w.fsm.ehandler = some h)
    (hmsg : ¬ GrantsAccess w.fsm.state head body) :
    Reacts h w head body (FSM.dataRow ext AsyncConnection.con head body w) := by
  unfold FSM.dataRow
  cases hres : w.fsm.result with
  | none =>
      simp only [Act.bind_apply, Act.getFsm_apply, hres, Act.throw_apply, List.nil_append]
      exact Reacts.throw .undefined
  | some id =>
      obtain ⟨value, results, es, hrun, hes, hquiet⟩ :=
        dataRow_deserialize_frame ext head body id w
      have hevents : ResultEvents w.fsm es := by
        intro e he
        obtain ⟨call, rfl⟩ := hes e he
        exact ⟨id, call, hres, rfl⟩
      simp only [Act.bind_apply, Act.getFsm_apply, hres, hrun, List.nil_append]
      cases value with
      | error e => exact Reacts.aborted e results es hevents
      | ok ec =>
          simp only [FSM.receiveUnless]
          split
          · rename_i hec
            obtain ⟨rfl, rfl⟩ := hquiet ec rfl hec
            rw [Act.callHandler_of_some (by simpa using hh)]
            exact Reacts.report ec hec
          · simp only [asyncReceive_apply, List.append_nil]
            exact Reacts.goOn results es hevents hmsg

theorem authentication_type {uninitialised : Byte4} {ec : ErrorCode}
    {msg : Authentication.Fields} (hec : ec.isError = false)
    (hmsg : Authentication.deserialize uninitialised head body = .ok (ec, msg)) :
    authCode body = some msg.authType := by
  simp only [Authentication.deserialize] at hmsg
  split at hmsg
  · rename_i hcheck
    cases hmsg
    rw [hcheck] at hec
    cases hec
  unfold deserializeInt32 at hmsg
  rw [List.drop_zero] at hmsg
  cases hread : Bytes.read32 body with
  | none => simp [hread, bind, Except.bind] at hmsg
  | some n =>
      have hcode : authCode body = some (Bytes.signed32 n) := by
        unfold authCode
        rw [hread]
        rfl
      simp only [hread, bind, Except.bind] at hmsg
      split at hmsg
      · split at hmsg
        · cases hmsg
        · cases hmsg
          exact hcode
      · cases hmsg
        exact hcode

theorem Reacts.authenticate (hh : w.fsm.ehandler = some h) (hstate : w.fsm.state = .AUTH)
    (htype : head.mtype = Authentication.mtype) :
    Reacts h w head body (FSM.authenticate ext AsyncConnection.con head body w) := by
  unfold FSM.authenticate
  apply Reacts.ofLift
  rintro ⟨ec, msg⟩ hmsg
  simp only
  split
  · rename_i hec
    rw [Act.callHandler_of_some hh]
    exact Reacts.report ec hec
  rename_i hec
  have hcode := authentication_type (Bool.eq_false_iff.mpr hec) hmsg
  split
  · rename_i hok
    simp only [Act.bind_apply, Act.setState_apply, asyncReceive_apply, List.nil_append]
    exact Reacts.authOk hstate ⟨htype, by rw [hcode, hok]; rfl⟩
  rename_i hother
  split
  · rename_i hmd5
    simp only [Act.bind_apply, Act.setState_apply, asyncWrite_apply, asyncReceive_apply,
      List.nil_append, List.append_nil, List.append_assoc, List.singleton_append]
    rw [← hstate]
    exact Reacts.md5 hstate ⟨htype, by rw [hcode, hmd5]; rfl⟩ _ ⟨_, rfl⟩
  · apply Reacts.receive
    rintro ⟨_, _, hgrants⟩
    rw [hcode] at hgrants
    exact hother (Option.some.inj hgrants)

/-- The entries of the state table, one by one. -/
def tableEntries : List (State × MessageType × Action) :=
  stateTable.flatMap fun row => row.2.map fun entry => (row.1, entry.1, entry.2)

private theorem mem_of_lookup {κ β : Type} [BEq κ] [LawfulBEq κ] {l : List (κ × β)} {k : κ}
    {b : β} (hfound : l.lookup k = some b) : (k, b) ∈ l := by
  obtain ⟨before, after, rfl, _⟩ := List.lookup_eq_some_iff.mp hfound
  simp

theorem mem_tableEntries {state : State} {transition : Transition} {event : MessageType}
    {action : Action} (hrow : tableRow state = some transition)
    (hfind : transition.find event = some action) :
    (state, event, action) ∈ tableEntries := by
  have hmem := mem_of_lookup hrow
  have hentry := mem_of_lookup hfind
  apply List.mem_flatMap.mpr
  exact ⟨(state, transition), hmem, List.mem_map.mpr ⟨(event, action), hentry, rfl⟩⟩

/-- The states and message types each handler with its own rules is run for. -/
theorem tableEntries_spec : ∀ entry ∈ tableEntries,
    (entry.2.2 = .authenticate → entry.1 = .AUTH ∧ entry.2.1 = Authentication.mtype) ∧
    (entry.2.2 = .authError → entry.1 = .AUTH ∧ entry.2.1 = ErrorResponse.mtype) ∧
    (entry.2.2 = .readyForQuery → entry.1 ∈ [State.CONN, .QUERY, .EQUERY] ∧
      entry.2.1 = ReadyForQuery.mtype) ∧
    (entry.2.2 = .closeComplete → entry.1 = .CLOSE) ∧
    (entry.1 = .AUTH → entry.2.1 = Authentication.mtype → entry.2.2 = .authenticate) := by
  decide

theorem Reacts.action (hh : w.fsm.ehandler = some h) {action : Action}
    (hentry : (w.fsm.state, head.mtype, action) ∈ tableEntries) :
    Reacts h w head body (action.run ext AsyncConnection.con head body w) := by
  obtain ⟨hauth, herror, hready, hclose, hgrants⟩ := tableEntries_spec _ hentry
  have hother (hne : action ≠ .authenticate) : ¬ GrantsAccess w.fsm.state head body := by
    rintro ⟨hstate, htype, _⟩
    exact hne (hgrants hstate htype)
  cases action with
  | authenticate =>
      obtain ⟨hstate, htype⟩ := hauth rfl
      exact Reacts.authenticate hh hstate htype
  | authError =>
      obtain ⟨hstate, htype⟩ := herror rfl
      change w.fsm.state = .AUTH at hstate
      apply Reacts.ofLift
      rintro ⟨ec, error⟩ _
      simp only
      rw [Act.callHandler_of_some hh, hstate]
      exact Reacts.authError hstate htype ec
  | readyForQuery =>
      obtain ⟨hstate, htype⟩ := hready rfl
      apply Reacts.ofLift
      rintro ⟨ec, status⟩ _
      simp only [Act.bind_apply, Act.setState_apply]
      rw [Act.callHandler_of_some (by simpa using hh)]
      exact Reacts.ready hstate htype ec
  | closeComplete =>
      simp only [Action.run, FSM.closeComplete, Act.bind_apply, Act.setState_apply]
      rw [Act.callHandler_of_some (by simpa using hh)]
      exact Reacts.ended (hclose rfl) _
  | rowDescription =>
      apply Reacts.ofLift
      rintro ⟨ec, fs⟩ _
      simp only
      split
      · rename_i hec
        rw [Act.callHandler_of_some hh]
        exact Reacts.report ec hec
      · exact Reacts.callResultThenReceive (hother (by decide)) (.addFields fs)
  | queryError =>
      apply Reacts.ofLift
      rintro ⟨ec, error⟩ _
      simp only
      split
      · rename_i hec
        rw [Act.callHandler_of_some hh]
        exact Reacts.report ec hec
      · exact Reacts.callResultThenReceive (hother (by decide)) (.addError error)
  | dataRow => exact Reacts.dataRow hh (hother (by decide))
  | parseComplete => exact Reacts.receive (hother (by decide))
  | bindComplete => exact Reacts.receive (hother (by decide))
  | backendKeyData =>
      exact Reacts.ofLift fun a _ => Reacts.receiveUnless hh (hother (by decide)) a.1
  | parameterStatus =>
      exact Reacts.ofLift fun a _ => Reacts.receiveUnless hh (hother (by decide)) a.1
  | commandComplete =>
      exact Reacts.ofLift fun a _ => Reacts.receiveUnless hh (hother (by decide)) a.1
  | noticeResponse =>
      exact Reacts.ofLift fun a _ => Reacts.receiveUnless hh (hother (by decide)) a.1
  | parameterDescription =>
      exact Reacts.ofLift fun a _ => Reacts.receiveUnless hh (hother (by decide)) a.1

/-- Handing a message to the state machine: it is dispatched in the current
state, which either has no row, or reacts. -/
theorem next_cases (ext : Externals ρ) (hh : w.fsm.ehandler = some h) (head : Header)
    (body : Buffer) :
    ∃ o, FSM.next ext AsyncConnection.con head.mtype head body w =
        ⟨o.value, o.world, .dispatch w.fsm.state head body :: o.events⟩ ∧
      (tableRow w.fsm.state = none ∧ o = ⟨.error .stateTableAt, w, []⟩ ∨
        (tableRow w.fsm.state).isSome = true ∧ Reacts h w head body o) := by
  unfold FSM.next
  cases hrow : tableRow w.fsm.state with
  | none =>
      refine ⟨⟨.error .stateTableAt, w, []⟩, ?_, Or.inl ⟨rfl, rfl⟩⟩
      simp [Act.bind_apply, hrow]
  | some transition =>
      cases hfind : transition.find head.mtype with
      | none =>
          refine ⟨FSM.receive AsyncConnection.con w, ?_, Or.inr ⟨rfl, Reacts.receive ?_⟩⟩
          · simp [Act.bind_apply, hrow, hfind]
          · rintro ⟨hstate, htype, _⟩
            rw [hstate] at hrow
            cases hrow
            rw [htype] at hfind
            cases hfind
      | some action =>
          refine ⟨action.run ext AsyncConnection.con head body w, ?_, Or.inr ⟨rfl, ?_⟩⟩
          · simp [Act.bind_apply, hrow, hfind]
          · exact Reacts.action hh (mem_tableEntries hrow hfind)

end Lapq
