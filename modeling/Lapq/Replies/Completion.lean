import Mathlib.Data.List.Nodup
import Lapq.Replies.Receive

/-!
Every call gets its handler called exactly once. The state machine has one slot
for a handler: as long as `close` waits for the end of the operation before it,
the slot holds the one handler that was passed in and not called yet, and one
call on the connection is outstanding for it.
-/

namespace Lapq

open Bytes Backend

variable {ρ : Type} {ext : Externals ρ} {w : World (List ConnCall) ρ} {h : HandlerId}

def Label.handler? : Label → Option HandlerId
  | .call c => some c.handler
  | .complete .. => none

/-- The handlers passed in by the user, in order. -/
def issued (labels : List Label) : List HandlerId := labels.filterMap Label.handler?

namespace Backend

/-- A message of a type that the client knows follows the format of its type. -/
def Proper : Backend → Prop
  | .other mtype _ => ∀ entry ∈ tableEntries, entry.2.1 ≠ mtype
  | _ => True

def asksPassword : Backend → Bool
  | .authentication code _ => code == Authentication.authMd5Password
  | _ => false

theorem Proper.unlisted {type : MessageType} {bytes : Buffer} {state : State}
    {transition : Transition} (hproper : Proper (.other type bytes))
    (hrow : tableRow state = some transition) : transition.find type = none := by
  cases hfind : transition.find type with
  | none => rfl
  | some action => exact absurd rfl (hproper _ (mem_tableEntries hrow hfind))

end Backend

/-- What a well-behaved server lets a read bring: the header of a message, and
its body after its header. It asks for no password. -/
def ConnCall.Brings (r : Completion) : ConnCall → Prop
  | .read _ .header => r.ec.isError = false →
      ∃ msg : Backend, msg.WellFormed ∧ r.data = msg.mtype :: be32 (msg.body.length + 4)
  | .read _ (.body head) => r.ec.isError = false →
      ∃ msg : Backend, msg.WellFormed ∧ msg.Proper ∧ msg.asksPassword = false ∧
        msg.header = head ∧ msg.body = r.data
  | .connect _ | .write .. => True

/-- The calls that `AsyncConnection` has, with one `connect`, against a server
whose messages are well-formed. -/
def AsyncApi (w : World (List ConnCall) ρ) : Label → Prop
  | .call (.connect ..) => w.fsm = FSM.init
  | .call (.exec ..) | .call (.close _) => True
  | .call (.execQuery ..) | .call (.parse ..) => False
  | .complete i r => ∀ call, w.net[i]? = some call → call.Brings r

/-- The result object of the operation in progress takes the calls of a message. -/
def Takes (ext : Externals ρ) (w : World (List ConnCall) ρ) (msg : Backend) : Prop :=
  ∃ results es, Absorbs ext w.fsm.result w.results msg results es

/-- `close` is called with nothing outstanding, and the result object takes the
messages of a reply. -/
def InTurn (ext : Externals ρ) (w : World (List ConnCall) ρ) : Label → Prop
  | .call (.close _) => w.net = []
  | .call _ => True
  | .complete i r => ∀ len head, w.net[i]? = some (.read len (.body head)) →
      r.ec.isError = false → w.fsm.state = .QUERY → ∀ msg : Backend, msg.WellFormed →
        msg.Proper → msg.header = head → msg.body = r.data → Takes ext w msg

/-! One message. -/

theorem authenticate_value (code : Int) (data : Buffer)
    (hmsg : WellFormed (.authentication code data)) :
    (FSM.authenticate ext AsyncConnection.con (header (.authentication code data))
      (body (.authentication code data)) w).value = .ok () := by
  obtain ⟨salt, hdec⟩ := authentication_deserialize ext.uninitialised code data hmsg
  unfold FSM.authenticate
  simp only [hdec, Act.lift_ok, Act.bind_apply, Act.pure_apply]
  rw [if_neg (by simp)]
  split
  · rfl
  split
  · rfl
  · rfl

theorem next_skips {msg : Backend} {transition : Transition}
    (hrow : tableRow w.fsm.state = some transition)
    (hfind : transition.find msg.header.mtype = none) :
    (FSM.next ext AsyncConnection.con msg.header.mtype msg.header msg.body w).value = .ok () := by
  rw [next_unlisted _ _ hrow hfind]

theorem next_runs {msg : Backend} {transition : Transition} {action : Action}
    (hrow : tableRow w.fsm.state = some transition)
    (hfind : transition.find msg.header.mtype = some action)
    (hvalue : (action.run ext AsyncConnection.con msg.header msg.body w).value = .ok ()) :
    (FSM.next ext AsyncConnection.con msg.header.mtype msg.header msg.body w).value = .ok () := by
  rw [next_listed _ _ hrow hfind rfl]
  exact hvalue

theorem next_value_auth {msg : Backend} (hmsg : msg.WellFormed) (hproper : msg.Proper)
    (hh : w.fsm.ehandler = some h) (hstate : w.fsm.state = .AUTH) :
    (FSM.next ext AsyncConnection.con msg.header.mtype msg.header msg.body w).value = .ok () := by
  obtain ⟨transition, hrow, hrest⟩ : ∃ transition, tableRow w.fsm.state = some transition ∧
      some transition = tableRow .AUTH := ⟨_, by rw [hstate]; rfl, rfl⟩
  cases hrest
  cases msg with
  | authentication code data => exact next_runs hrow rfl (authenticate_value code data hmsg)
  | errorResponse fields =>
      apply next_runs hrow rfl
      have hdec := errorResponse_deserialize fields hmsg.valid
      simp [Action.run, FSM.authError, hdec, Act.bind_apply, Act.callHandler_of_some hh]
  | other type bytes => exact next_skips hrow (hproper.unlisted hrow)
  | _ => exact next_skips hrow rfl

theorem next_value_conn {msg : Backend} (hmsg : msg.WellFormed) (hproper : msg.Proper)
    (hh : w.fsm.ehandler = some h) (hstate : w.fsm.state = .CONN) :
    (FSM.next ext AsyncConnection.con msg.header.mtype msg.header msg.body w).value = .ok () := by
  obtain ⟨transition, hrow, hrest⟩ : ∃ transition, tableRow w.fsm.state = some transition ∧
      some transition = tableRow .CONN := ⟨_, by rw [hstate]; rfl, rfl⟩
  cases hrest
  cases msg with
  | backendKeyData pid key =>
      apply next_runs hrow rfl
      have hdec := backendKeyData_deserialize pid key hmsg
      simp [Action.run, FSM.backendKeyData, hdec, Act.bind_apply, FSM.receiveUnless]
  | parameterStatus name value =>
      apply next_runs hrow rfl
      have hdec := parameterStatus_deserialize name value hmsg
      simp [Action.run, FSM.parameterStatus, hdec, Act.bind_apply, FSM.receiveUnless]
  | readyForQuery status =>
      apply next_runs hrow rfl
      have hdec := readyForQuery_deserialize status
      simp only [Action.run, FSM.readyForQuery, hdec, Act.lift_ok, Act.bind_apply,
        Act.pure_apply, Act.setState_apply]
      rw [Act.callHandler_of_some (by simpa using hh)]
  | other type bytes => exact next_skips hrow (hproper.unlisted hrow)
  | _ => exact next_skips hrow rfl

theorem next_value_query {msg : Backend} (hmsg : msg.WellFormed) (hproper : msg.Proper)
    (hh : w.fsm.ehandler = some h) (hstate : w.fsm.state = .QUERY) (htakes : Takes ext w msg) :
    (FSM.next ext AsyncConnection.con msg.header.mtype msg.header msg.body w).value = .ok () := by
  obtain ⟨results, es, habs⟩ := htakes
  have hlisted (hlist : msg.Listed .QUERY) :
      (FSM.next ext AsyncConnection.con msg.header.mtype msg.header msg.body w).value = .ok () := by
    rw [next_absorbs hmsg (Or.inl hstate) (by rw [hstate]; exact hlist) habs]
  obtain ⟨transition, hrow, hrest⟩ : ∃ transition, tableRow w.fsm.state = some transition ∧
      some transition = tableRow .QUERY := ⟨_, by rw [hstate]; rfl, rfl⟩
  cases hrest
  cases msg with
  | readyForQuery status =>
      change (FSM.next ext AsyncConnection.con ReadyForQuery.mtype _ _ w).value = _
      rw [next_ready ext status hh (Or.inl hstate)]
  | authentication code data => exact next_skips hrow rfl
  | parameterStatus name value => exact next_skips hrow rfl
  | backendKeyData pid key => exact next_skips hrow rfl
  | bindComplete => exact next_skips hrow rfl
  | parameterDescription oids => exact next_skips hrow rfl
  | closeComplete => exact next_skips hrow rfl
  | other type bytes => exact next_skips hrow (hproper.unlisted hrow)
  | parseComplete => exact hlisted rfl
  | _ => exact hlisted trivial

/-- A well-formed message is dispatched without an exception. -/
theorem next_value {msg : Backend} (hmsg : msg.WellFormed) (hproper : msg.Proper)
    (hh : w.fsm.ehandler = some h)
    (hstate : w.fsm.state = .AUTH ∨ w.fsm.state = .CONN ∨ w.fsm.state = .QUERY)
    (htakes : w.fsm.state = .QUERY → Takes ext w msg) :
    (FSM.next ext AsyncConnection.con msg.header.mtype msg.header msg.body w).value = .ok () := by
  rcases hstate with hauth | hconn | hquery
  · exact next_value_auth hmsg hproper hh hauth
  · exact next_value_conn hmsg hproper hh hconn
  · exact next_value_query hmsg hproper hh hquery (htakes hquery)

/-! One completion. -/

/-- The calls that may be outstanding in a state. -/
def Waits (state : State) : ConnCall → Prop
  | .connect (.connected _) | .write _ .startUpWritten => state = .AUTH
  | .read .. => state = .AUTH ∨ state = .CONN ∨ state = .QUERY
  | .write _ .queryWritten => state = .QUERY
  | .write _ .terminateWritten => state = .END
  | .connect _ | .write .. => False

/-- The chain of callbacks of the operation whose handler is `h` goes on with
one call, or ends by calling `h`. -/
def Settles (h : HandlerId) (w w' : World (List ConnCall) ρ) (es : List Event) : Prop :=
  w'.fsm.ehandler = w.fsm.ehandler ∧
    ((∃ next, w'.net = w.net ++ [next] ∧ Waits w'.fsm.state next ∧ invoked es = []) ∨
      w'.net = w.net ∧ invoked es = [h])

theorem Settles.told {ec : ErrorCode} {state : State} :
    Settles h w w [.handler h ec state] := ⟨rfl, Or.inr ⟨rfl, rfl⟩⟩

theorem ResultEvents.invoked_nil {fsm : FSM} {es : List Event} (hes : ResultEvents fsm es) :
    invoked es = [] := by
  apply List.filterMap_eq_nil_iff.mpr
  intro e he
  obtain ⟨id, call, _, rfl⟩ := hes e he
  rfl

/-- A handler that returns settles, unless it asks for a password. -/
theorem Reacts.settles {head : Header} {body : Buffer} {o : Outcome (List ConnCall) ρ Unit}
    (hreact : Reacts h w head body o) (hvalue : o.value = .ok ())
    (hstate : w.fsm.state = .AUTH ∨ w.fsm.state = .CONN ∨ w.fsm.state = .QUERY)
    (hmd5 : ¬ IsAuthentication 5 head body) : Settles h w o.world o.events := by
  cases hreact with
  | goOn results es hes =>
      exact ⟨rfl, Or.inl ⟨.header, rfl, hstate, hes.invoked_nil⟩⟩
  | authOk _ _ => exact ⟨rfl, Or.inl ⟨.header, rfl, Or.inr (Or.inl rfl), rfl⟩⟩
  | md5 _ hmsg msg _ => exact absurd hmsg hmd5
  | report ec _ => exact Settles.told
  | authError _ _ ec => exact Settles.told
  | ready _ _ ec => exact ⟨rfl, Or.inr ⟨rfl, rfl⟩⟩
  | ended _ ec => exact ⟨rfl, Or.inr ⟨rfl, rfl⟩⟩
  | aborted e results es _ => cases hvalue

theorem not_md5 {msg : Backend} (hmsg : msg.WellFormed) (hproper : msg.Proper)
    (hasks : msg.asksPassword = false) : ¬ IsAuthentication 5 msg.header msg.body := by
  rintro ⟨htype, hcode⟩
  cases msg with
  | authentication code data =>
      have hread := read32_be32 (pattern 32 code) data (pattern_lt 32 code)
      have hvalue : authCode (body (.authentication code data)) = some code := by
        unfold authCode body int32
        rw [hread, Option.map_some, signed32_pattern code hmsg.valid.1.1 hmsg.valid.1.2]
      rw [hvalue] at hcode
      cases hcode
      cases hasks
  | other type bytes =>
      exact hproper (.AUTH, Authentication.mtype, .authenticate) (by decide) htype.symm
  | _ => cases htype

theorem receiveUnless_settles (ec : ErrorCode) (hh : w.fsm.ehandler = some h)
    (hstate : w.fsm.state = .AUTH ∨ w.fsm.state = .CONN ∨ w.fsm.state = .QUERY) :
    ∃ w' es, FSM.receiveUnless AsyncConnection.con ec w = ⟨.ok (), w', es⟩ ∧
      Settles h w w' es := by
  unfold FSM.receiveUnless
  split
  · rw [Act.callHandler_of_some hh]
    exact ⟨_, _, rfl, Settles.told⟩
  · exact ⟨_, _, rfl, rfl, Or.inl ⟨.header, rfl, hstate, rfl⟩⟩

theorem read_settles (len : Nat) (rh : RHandler) (r : Completion)
    (hwaits : Waits w.fsm.state (.read len rh)) (hh : w.fsm.ehandler = some h)
    (hbrings : ConnCall.Brings r (.read len rh))
    (htakes : ∀ head, rh = .body head → r.ec.isError = false → w.fsm.state = .QUERY →
      ∀ msg : Backend, msg.WellFormed → msg.Proper → msg.header = head → msg.body = r.data →
        Takes ext w msg) :
    ∃ w' es, rh.run ext AsyncConnection.con r.ec r.data w = ⟨.ok (), w', es⟩ ∧
      Settles h w w' es := by
  unfold RHandler.run
  split
  · rw [Act.callHandler_of_some hh]
    exact ⟨_, _, rfl, Settles.told⟩
  rename_i hec
  have hok : r.ec.isError = false := Bool.eq_false_iff.mpr hec
  cases rh with
  | header =>
      obtain ⟨msg, hmsg, hdata⟩ := hbrings hok
      have hlength := hmsg.length
      have hsize : toSize msg.header.bodyLen = msg.body.length :=
        toSize_natCast msg.body.length (by omega)
      have hfits : ¬ maxSize < msg.body.length := by
        unfold maxSize
        omega
      simp only [hdata, header_deserialize msg hlength, Act.lift_ok, Act.bind_apply,
        Act.pure_apply, ConnectionBase.read, hsize, if_neg hfits]
      exact ⟨_, _, rfl, rfl, Or.inl ⟨.read msg.body.length (.body msg.header), rfl, hwaits, rfl⟩⟩
  | body head =>
      obtain ⟨msg, hmsg, hproper, hasks, rfl, hdata⟩ := hbrings hok
      have hvalue := next_value hmsg hproper hh hwaits fun hquery =>
        htakes msg.header rfl hok hquery msg hmsg hproper rfl hdata
      obtain ⟨o, hnext, hcases⟩ := next_cases ext hh msg.header msg.body
      simp only [← hdata]
      rw [hnext] at hvalue ⊢
      rcases hcases with ⟨_, rfl⟩ | ⟨_, hreact⟩
      · cases hvalue
      · obtain ⟨hkept, hsettles⟩ := hreact.settles hvalue hwaits (not_md5 hmsg hproper hasks)
        have hdone : o.value = .ok () := hvalue
        exact ⟨o.world, .dispatch w.fsm.state msg.header msg.body :: o.events, by rw [hdone], hkept,
          hsettles⟩

theorem resume_settles (ext : Externals ρ) (call : ConnCall) (r : Completion)
    (hwaits : Waits w.fsm.state call) (hh : w.fsm.ehandler = some h) (hbrings : call.Brings r)
    (htakes : ∀ len head, call = .read len (.body head) → r.ec.isError = false →
      w.fsm.state = .QUERY → ∀ msg : Backend, msg.WellFormed → msg.Proper → msg.header = head →
        msg.body = r.data → Takes ext w msg) :
    ∃ w' es, call.resume ext AsyncConnection.con r w = ⟨.ok (), w', es⟩ ∧ Settles h w w' es := by
  cases call with
  | connect eh =>
      cases eh with
      | sslConnected option ehandler => exact hwaits.elim
      | handshaken option ehandler => exact hwaits.elim
      | connected option =>
          change ∃ w' es, EHandler.run AsyncConnection.con (.connected option) r.ec w = _ ∧ _
          unfold EHandler.run
          split
          · simp only [EHandler.fail]
            rw [Act.callHandler_of_some hh]
            exact ⟨_, _, rfl, Settles.told⟩
          · exact ⟨_, _, rfl, rfl, Or.inl ⟨.write (.startUp option) .startUpWritten, rfl, hwaits,
              rfl⟩⟩
  | read len rh =>
      apply read_settles len rh r hwaits hh hbrings
      rintro head rfl
      exact htakes len head rfl
  | write msg wh =>
      cases wh with
      | startUpWritten => exact receiveUnless_settles _ hh (Or.inl hwaits)
      | queryWritten => exact receiveUnless_settles _ hh (Or.inr (Or.inr hwaits))
      | terminateWritten =>
          simp only [ConnCall.resume, WHandler.run, Act.bind_apply, Act.emit_apply]
          rw [Act.callHandler_of_some hh]
          exact ⟨_, _, rfl, rfl, Or.inr ⟨rfl, rfl⟩⟩
      | _ => exact hwaits.elim

/-! Whole runs. -/

theorem invoked_append (events es : List Event) :
    invoked (events ++ es) = invoked events ++ invoked es := List.filterMap_append

theorem issued_call (labels : List Label) (c : Call) :
    issued (labels ++ [.call c]) = issued labels ++ [c.handler] := List.filterMap_append

theorem issued_complete (labels : List Label) (i : Nat) (r : Completion) :
    issued (labels ++ [.complete i r]) = issued labels := by
  simp [issued, Label.handler?]

/-- Every handler passed in was called or, while a call on the connection is
outstanding, is the one in the slot. -/
def Accounted (labels : List Label) (w : World (List ConnCall) ρ) (events : List Event) : Prop :=
  (w.net = [] ∧ (invoked events).Perm (issued labels)) ∨
    ∃ call h, w.net = [call] ∧ Waits w.fsm.state call ∧ w.fsm.ehandler = some h ∧
      (h :: invoked events).Perm (issued labels)

/-- A new operation takes the slot when nothing is outstanding. -/
theorem Accounted.starts {labels : List Label} {events es : List Event} {fsm : FSM} {c : Call}
    {call : ConnCall} (hinv : Accounted labels w events) (hnet : w.net = [])
    (hwaits : Waits fsm.state call) (hhandler : fsm.ehandler = some c.handler)
    (hes : invoked es = []) :
    Accounted (labels ++ [.call c]) { w with fsm := fsm, net := w.net ++ [call] }
      (events ++ es) := by
  have hperm : (invoked events).Perm (issued labels) := by
    rcases hinv with ⟨_, hperm⟩ | ⟨other, _, hother, _⟩
    · exact hperm
    · rw [hnet] at hother
      cases hother
  refine Or.inr ⟨call, c.handler, by simp [hnet], hwaits, hhandler, ?_⟩
  rw [invoked_append, hes, List.append_nil, issued_call]
  exact (List.perm_append_singleton c.handler (invoked events)).symm.trans
    (hperm.append_right [c.handler])

/-- A refused operation is told so at once and does not touch the slot. -/
theorem Accounted.refuses {labels : List Label} {events es : List Event} {c : Call}
    (hinv : Accounted labels w events) (hes : invoked es = [c.handler]) :
    Accounted (labels ++ [.call c]) w (events ++ es) := by
  unfold Accounted
  rw [invoked_append, hes, issued_call]
  rcases hinv with ⟨hnet, hperm⟩ | ⟨call, h, hnet, hwaits, hh, hperm⟩
  · exact Or.inl ⟨hnet, hperm.append_right [c.handler]⟩
  · exact Or.inr ⟨call, h, hnet, hwaits, hh, hperm.append_right [c.handler]⟩

theorem Accounted.completes {labels : List Label} {events : List Event} {i : Nat}
    {r : Completion} {call : ConnCall} (hinv : Accounted labels w events)
    (hcall : w.net[i]? = some call) (hapi : AsyncApi w (.complete i r))
    (hturn : InTurn ext w (.complete i r)) :
    ∃ w' es, call.resume ext AsyncConnection.con r { w with net := w.net.eraseIdx i } =
        ⟨.ok (), w', es⟩ ∧
      Accounted (labels ++ [.complete i r]) w' (events ++ es) := by
  rcases hinv with ⟨hnet, _⟩ | ⟨own, h, hnet, hwaits, hh, hperm⟩
  · rw [hnet] at hcall
    cases hcall
  obtain ⟨rfl, rfl, herase⟩ := only_call hnet hcall
  obtain ⟨w', es, hresume, hkept, hsettles⟩ := resume_settles (h := h)
    (w := { w with net := w.net.eraseIdx 0 }) ext own r hwaits hh (hapi own hcall) (by
      rintro len head rfl
      exact hturn len head hcall)
  refine ⟨w', es, hresume, ?_⟩
  unfold Accounted
  rw [invoked_append, issued_complete]
  rcases hsettles with ⟨next, hnext, hwaits', hes⟩ | ⟨hnone, hes⟩
  · rw [herase] at hnext
    rw [hes, List.append_nil]
    exact Or.inr ⟨next, h, hnext, hwaits', hkept.trans hh, hperm⟩
  · rw [herase] at hnone
    refine Or.inl ⟨hnone, ?_⟩
    rw [hes]
    exact (List.perm_append_singleton h (invoked events)).trans hperm

theorem Accounted.step {labels : List Label} {w' : World (List ConnCall) ρ} {label : Label}
    {events es : List Event} (hinv : Accounted labels w events) (hapi : AsyncApi w label)
    (hturn : InTurn ext w label)
    (hstep : (AsyncConnection.machine ext).step w label = some (w', es)) :
    Accounted (labels ++ [label]) w' (events ++ es) := by
  cases label with
  | complete i r =>
      simp only [AsyncConnection.machine] at hstep
      split at hstep
      · cases hstep
      rename_i call hcall
      split at hstep
      · obtain ⟨w'', es', hresume, hinv'⟩ := hinv.completes hcall hapi hturn
        rw [hresume] at hstep
        cases hstep
        exact hinv'
      · cases hstep
  | call c =>
      have hsettle : (c.run AsyncConnection.con w).settle = (w', es) := by
        simpa [AsyncConnection.machine] using hstep
      cases c with
      | execQuery q res eh => exact hapi.elim
      | parse q eh => exact hapi.elim
      | connect option eh =>
          cases hsettle
          have hnew : w.fsm = FSM.init := hapi
          have hnet : w.net = [] := by
            rcases hinv with ⟨hnet, _⟩ | ⟨_, h, _, _, hh, _⟩
            · exact hnet
            · rw [hnew] at hh
              cases hh
          exact hinv.starts hnet (congrArg FSM.state hnew) rfl rfl
      | close eh =>
          cases hsettle
          exact hinv.starts hturn rfl rfl rfl
      | exec q res eh =>
          by_cases hstate : w.fsm.state = .IDLE
          · have hnet : w.net = [] := by
              rcases hinv with ⟨hnet, _⟩ | ⟨call, _, _, hwaits, _⟩
              · exact hnet
              · rw [hstate] at hwaits
                unfold Waits at hwaits
                split at hwaits <;> simp at hwaits
            have hrun : Call.run AsyncConnection.con (.exec q res eh) w =
                ⟨.ok (), { w with
                  fsm := { w.fsm with result := res, ehandler := some eh, state := .QUERY },
                  net := w.net ++ [.write (.query q) .queryWritten] }, [.write (.query q)]⟩ := by
              simp [Call.run, FSM.exec, Act.bind_apply, hstate]
            rw [hrun] at hsettle
            cases hsettle
            exact hinv.starts hnet rfl rfl rfl
          · rw [reject_run AsyncConnection.con _ rfl hstate] at hsettle
            cases hsettle
            exact hinv.refuses rfl

/-- Over the calls of `AsyncConnection`, with a handler of its own for each and a
server whose messages are well-formed: as long as `close` waits for its turn, no
handler is called twice, and when nothing is outstanding every handler was called.
The data rows that come in have no NULL column, in `QUERY` or outside it. -/
theorem completes_once (ext : Externals ρ) (results : ResultId → ρ) (labels : List Label)
    (t : World (List ConnCall) ρ) (events : List Event)
    (hrun : (AsyncConnection.machine ext).Run
      (fun w label => AsyncApi w label ∧ InTurn ext w label) (World.init results) labels t events)
    (hown : (issued labels).Nodup) :
    (∀ h, (invoked events).count h ≤ 1) ∧
      (t.net = [] → ∀ h ∈ issued labels, (invoked events).count h = 1) ∧
      ∀ h ∈ issued labels, h ∉ invoked events → t.fsm.ehandler = some h := by
  have hinv : Accounted labels t events := by
    refine hrun.invariant Accounted (Or.inl ⟨rfl, List.Perm.refl _⟩) ?_
    rintro labels w w' past es label hinv ⟨hapi, hturn⟩ hstep
    exact hinv.step hapi hturn hstep
  rcases hinv with ⟨hnet, hperm⟩ | ⟨call, own, hnet, _, hh, hperm⟩
  · have hnodup := hperm.nodup_iff.mpr hown
    refine ⟨List.nodup_iff_count_le_one.mp hnodup, ?_, ?_⟩
    · intro _ h hmem
      exact List.count_eq_one_of_mem hnodup (hperm.mem_iff.mpr hmem)
    · intro h hmem hmissing
      exact absurd (hperm.mem_iff.mpr hmem) hmissing
  · have hnodup := (List.nodup_cons.mp (hperm.nodup_iff.mpr hown)).2
    refine ⟨List.nodup_iff_count_le_one.mp hnodup, ?_, ?_⟩
    · intro hnone
      rw [hnet] at hnone
      cases hnone
    · intro h hmem hmissing
      rcases List.mem_cons.mp (hperm.mem_iff.mpr hmem) with rfl | hcalled
      · exact hh
      · exact absurd hcalled hmissing

theorem authenticationOk_wellFormed : WellFormed (.authentication 0 []) :=
  ⟨⟨⟨by decide, by decide⟩, by rintro ⟨⟩⟩, by decide⟩

theorem readyForQuery_wellFormed : WellFormed (.readyForQuery 73) := ⟨trivial, by decide⟩

/-- A query is refused while the connection is being made, and `close` waits
until that is done. -/
def patientSession : List Label :=
  [.call (.connect .empty 0), .call (.exec (ascii "a") (some 0) 1), .complete 0 (.delivered []),
    .complete 0 (.sent (.startUp .empty)),
    .complete 0 (.delivered [82, 0, 0, 0, 8]), .complete 0 (.delivered [0, 0, 0, 0]),
    .complete 0 (.delivered [90, 0, 0, 0, 5]), .complete 0 (.delivered [73]),
    .call (.close 2), .complete 0 (.sent .terminate)]

theorem completes_once_patient :
    ∃ t events, (AsyncConnection.machine (Externals.standard fun _ => [])).Run
        (fun w label => AsyncApi w label ∧ InTurn (Externals.standard fun _ => []) w label)
        (World.init fun _ => []) patientSession t events ∧
      t.net = [] ∧ ∀ h ∈ issued patientSession, (invoked events).count h = 1 := by
  have hrun : ∃ t events, (AsyncConnection.machine (Externals.standard fun _ => [])).Run
      (fun w label => AsyncApi w label ∧ InTurn (Externals.standard fun _ => []) w label)
      (World.init fun _ => []) patientSession t events ∧ t.net = [] := by
    refine ⟨_, _, .cons ⟨rfl, trivial⟩ rfl <| .cons ⟨trivial, trivial⟩ rfl <|
      .cons ⟨?_, ?_⟩ rfl <| .cons ⟨?_, ?_⟩ rfl <| .cons ⟨?_, ?_⟩ rfl <| .cons ⟨?_, ?_⟩ rfl <|
      .cons ⟨?_, ?_⟩ rfl <| .cons ⟨?_, ?_⟩ rfl <| .cons ⟨trivial, rfl⟩ rfl <|
      .cons ⟨?_, ?_⟩ rfl .nil, rfl⟩
    · rintro _ ⟨⟩
      trivial
    · rintro _ _ ⟨⟩
    · rintro _ ⟨⟩
      trivial
    · rintro _ _ ⟨⟩
    · rintro _ ⟨⟩ _
      exact ⟨.authentication 0 [], authenticationOk_wellFormed, rfl⟩
    · rintro _ _ ⟨⟩
    · rintro _ ⟨⟩ _
      exact ⟨.authentication 0 [], authenticationOk_wellFormed, trivial, rfl, by decide, rfl⟩
    · intro _ _ _ _ hstate
      exact absurd hstate (by decide)
    · rintro _ ⟨⟩ _
      exact ⟨.readyForQuery 73, readyForQuery_wellFormed, rfl⟩
    · rintro _ _ ⟨⟩
    · rintro _ ⟨⟩ _
      exact ⟨.readyForQuery 73, readyForQuery_wellFormed, trivial, rfl, by decide, rfl⟩
    · intro _ _ _ _ hstate
      exact absurd hstate (by decide)
    · rintro _ ⟨⟩
      trivial
    · rintro _ _ ⟨⟩
  obtain ⟨t, events, hrun, hnet⟩ := hrun
  exact ⟨t, events, hrun, hnet, (completes_once _ _ _ _ _ hrun (by decide)).2.1 hnet⟩

/-- `close` while the server's answer is waited for: its handler is called for
the read that fails and again for its own write, and that of `connect` never. -/
theorem not_completes_once :
    ¬ ∀ labels t events, (AsyncConnection.machine (Externals.standard fun _ => [])).Run AsyncApi
        (World.init fun _ => []) labels t events → (issued labels).Nodup →
      (∀ h, (invoked events).count h ≤ 1) ∧
        (t.net = [] → ∀ h ∈ issued labels, (invoked events).count h = 1) := by
  intro hall
  have hrun : ∃ t events, (AsyncConnection.machine (Externals.standard fun _ => [])).Run AsyncApi
      (World.init fun _ => [])
      [.call (.connect .empty 0), .complete 0 (.delivered []),
        .complete 0 (.sent (.startUp .empty)), .call (.close 1),
        .complete 0 ⟨⟨125, .external 0⟩, 0, []⟩, .complete 0 (.sent .terminate)] t events ∧
      t.net = [] ∧ invoked events = [1, 1] := by
    refine ⟨_, _, .cons rfl rfl <| .cons ?_ rfl <| .cons ?_ rfl <| .cons trivial rfl <|
      .cons ?_ rfl <| .cons ?_ rfl .nil, rfl, rfl⟩
    · rintro _ ⟨⟩
      trivial
    · rintro _ ⟨⟩
      trivial
    · rintro _ ⟨⟩ ⟨⟩
    · rintro _ ⟨⟩
      trivial
  obtain ⟨t, events, hrun, hnet, hinvoked⟩ := hrun
  have honce := (hall _ t events hrun (by decide)).2 hnet 0 (by decide)
  rw [hinvoked] at honce
  cases honce

end Lapq
