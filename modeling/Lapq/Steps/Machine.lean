import Lapq.Steps.Dispatch

/-!
What one step of the asynchronous machine can do: a call of the user, or the
completion of an outstanding call. `step_cases` is the only place where the
bodies of the calls and of the connection closures are opened; the invariants of
whole runs are case analyses of `StepCase`.
-/

namespace Lapq

variable {ρ : Type} {ext : Externals ρ}

/-- The first message of a request: only these come from `exec` and `parse`. -/
def Message.isRequest : Message → Bool
  | .query _ | .bind .. | .parse .. => true
  | _ => false

def Message.isTerminate : Message → Bool
  | .terminate => true
  | _ => false

def Event.isWrite : Event → Bool
  | .write _ => true
  | _ => false

def Event.isHandler : Event → Bool
  | .handler .. => true
  | _ => false

def Call.isRequest : Call → Bool
  | .exec .. | .execQuery .. | .parse .. => true
  | .connect .. | .close _ => false

/-- The calls made over a connection without TLS. What a closure captured after
a move is empty, and a read asks for a header or for the body of one. -/
def ConnCall.Plain : ConnCall → Prop
  | .connect (.connected _) => True
  | .connect _ => False
  | .read len .header => len = Header.size
  | .read len (.body head) => len = toSize head.bodyLen ∧ len ≤ maxSize
  | .write _ (.sslStartUpWritten _) => False
  | .write _ (.bindWritten eh) | .write _ (.describeWritten eh)
  | .write _ (.executeWritten eh) | .write _ (.syncWritten eh)
  | .write _ (.parseWritten eh) | .write _ (.parseSyncWritten eh) => eh = none
  | .write .. => True

def ConnCall.isTerminate : ConnCall → Bool
  | .write _ .terminateWritten => true
  | _ => false

/-- How far a call is from the read that waits for the server: it falls along
every chain of calls, and with the two reads of a message also counted by the
bytes that a header takes. -/
def ConnCall.rank : ConnCall → Nat
  | .read _ .header => 1
  | .read _ (.body _) => 2
  | .connect _ => 4
  | .write _ (.bindWritten _) => 6
  | .write _ (.describeWritten _) => 5
  | .write _ (.executeWritten _) => 4
  | .write _ (.parseWritten _) => 4
  | .write .. => 3

/-- Outstanding calls are plain, and someone waits for them. -/
structure Sound (w : World (List ConnCall) ρ) : Prop where
  plain : ∀ call ∈ w.net, call.Plain
  handler : w.net ≠ [] → ∃ h, w.fsm.ehandler = some h

/-- The outcomes of a completion, in the world without the completed call. -/
inductive Resumes (h : HandlerId) (w : World (List ConnCall) ρ) (r : Completion) :
    ConnCall → World (List ConnCall) ρ → List Event → Prop
  | reported {call : ConnCall} (hcall : call.isTerminate = false) (ec : ErrorCode)
      (hec : ec.isError = true) : Resumes h w r call w [.handler h ec w.fsm.state]
  | lost {call : ConnCall} (hcall : call.isTerminate = false) (e : Abort) :
      Resumes h w r call w [.abort e]
  | wrote {call : ConnCall} (hcall : call.isTerminate = false) (msg : Message) (wh : WHandler)
      (hplain : ConnCall.Plain (.write msg wh))
      (hwrite : ConnCall.isTerminate (.write msg wh) = false)
      (hmsg : msg.isRequest = false ∧ msg.isTerminate = false)
      (hfrom : (∃ eh, call = .connect eh) ∨ ∃ msg wh, call = .write msg wh)
      (hrank : ConnCall.rank (.write msg wh) < call.rank) :
      Resumes h w r call { w with net := w.net ++ [.write msg wh] } [.write msg]
  | reading (msg : Message) (wh : WHandler)
      (hcall : ConnCall.isTerminate (.write msg wh) = false) :
      Resumes h w r (.write msg wh) { w with net := w.net ++ [.header] } []
  | header (len : Nat) (head : Header) (hok : r.ec.isError = false)
      (er : ErrorCode) (hhead : Header.deserialize r.data = .ok (er, head))
      (hlen : toSize head.bodyLen ≤ maxSize) :
      Resumes h w r (.read len .header)
        { w with net := w.net ++ [.read (toSize head.bodyLen) (.body head)] } []
  | dispatched (len : Nat) (head : Header) (hok : r.ec.isError = false)
      (o : Outcome (List ConnCall) ρ Unit)
      (hreact : tableRow w.fsm.state = none ∧ o = ⟨.error .stateTableAt, w, []⟩ ∨
        (tableRow w.fsm.state).isSome = true ∧ Reacts h w head r.data o) :
      Resumes h w r (.read len (.body head)) o.settle.1
        (.dispatch w.fsm.state head r.data :: o.settle.2)
  | closed (msg : Message) (ec : ErrorCode) :
      Resumes h w r (.write msg .terminateWritten) w [.closed, .handler h ec w.fsm.state]

inductive StepCase (w : World (List ConnCall) ρ) :
    Label → World (List ConnCall) ρ → List Event → Prop
  | connect (option : DBOption) (h : HandlerId) :
      StepCase w (.call (.connect option h))
        { w with fsm := { w.fsm with ehandler := some h },
                 net := w.net ++ [.connect (.connected option)] } []
  | reject (c : Call) (hc : c.isRequest = true) (hstate : w.fsm.state ≠ .IDLE) :
      StepCase w (.call c) w [.handler c.handler (makeErrorCode .busy) w.fsm.state]
  | accept (c : Call) (hc : c.isRequest = true) (hstate : w.fsm.state = .IDLE)
      (fsm : FSM) (hhandler : fsm.ehandler = some c.handler)
      (hnext : fsm.state = .QUERY ∨ fsm.state = .EQUERY)
      (msg : Message) (wh : WHandler) (hmsg : msg.isRequest = true)
      (hplain : ConnCall.Plain (.write msg wh))
      (hwrite : ConnCall.isTerminate (.write msg wh) = false) :
      StepCase w (.call c) { w with fsm := fsm, net := w.net ++ [.write msg wh] } [.write msg]
  | close (h : HandlerId) :
      StepCase w (.call (.close h))
        { w with fsm := { w.fsm with state := .END, ehandler := some h },
                 net := w.net ++ [.write .terminate .terminateWritten] } [.write .terminate]
  | complete (i : Nat) (r : Completion) (call : ConnCall) (hcall : w.net[i]? = some call)
      (hadmits : call.Admits r) (h : HandlerId) (hh : w.fsm.ehandler = some h)
      {w' : World (List ConnCall) ρ} {es : List Event}
      (hres : Resumes h { w with net := w.net.eraseIdx i } r call w' es) :
      StepCase w (.complete i r) w' es

variable {h : HandlerId} {w : World (List ConnCall) ρ} {r : Completion}

@[simp] theorem settle_ok (w : World (List ConnCall) ρ) (es : List Event) :
    (⟨.ok (), w, es⟩ : Outcome (List ConnCall) ρ Unit).settle = (w, es) := rfl

@[simp] theorem settle_error (e : Abort) (w : World (List ConnCall) ρ) (es : List Event) :
    (⟨.error e, w, es⟩ : Outcome (List ConnCall) ρ Unit).settle = (w, es ++ [.abort e]) := rfl

theorem settle_world {ν : Type} (o : Outcome ν ρ Unit) : o.settle.1 = o.world := by
  unfold Outcome.settle
  split
  · rfl
  · rfl

theorem settle_of_ok {o : Outcome (List ConnCall) ρ Unit} (hvalue : o.value = .ok ()) :
    o.settle = (o.world, o.events) := by
  simp [Outcome.settle, hvalue]

/-- A read that succeeds brings as many bytes as it asked for. -/
theorem ConnCall.Admits.length_eq {len : Nat} {rh : RHandler}
    (hadmits : ConnCall.Admits r (.read len rh)) (hok : r.ec.isError = false) :
    r.data.length = len := by
  simp only [ConnCall.Admits, hok] at hadmits
  simpa using hadmits

/-- With one call outstanding, that is the one that completes. -/
theorem only_call {own call : ConnCall} {i : Nat} (hnet : w.net = [own])
    (hcall : w.net[i]? = some call) : i = 0 ∧ own = call ∧ w.net.eraseIdx i = [] := by
  rw [hnet] at hcall ⊢
  cases i with
  | zero =>
      cases hcall
      exact ⟨rfl, rfl, rfl⟩
  | succ i => cases hcall

theorem resumes_read (hh : w.fsm.ehandler = some h) (len : Nat) (rh : RHandler) :
    Resumes h w r (.read len rh) (rh.run ext AsyncConnection.con r.ec r.data w).settle.1
      (rh.run ext AsyncConnection.con r.ec r.data w).settle.2 := by
  unfold RHandler.run
  split
  · rename_i hec
    rw [Act.callHandler_of_some hh]
    exact Resumes.reported rfl r.ec hec
  rename_i hec
  have hok : r.ec.isError = false := Bool.eq_false_iff.mpr hec
  cases rh with
  | header =>
      cases hdec : Header.deserialize r.data with
      | error e =>
          simp only [Act.lift_error, Act.bind_apply, Act.throw_apply, settle_error,
            List.nil_append]
          exact Resumes.lost rfl e
      | ok decoded =>
          obtain ⟨er, head⟩ := decoded
          simp only [Act.lift_ok, Act.bind_apply, Act.pure_apply,
            ConnectionBase.read]
          split
          · simp only [Act.throw_apply, List.append_nil, settle_error, List.nil_append]
            exact Resumes.lost rfl _
          · rename_i hlen
            exact Resumes.header len head hok er hdec (Nat.le_of_not_lt hlen)
  | body head =>
      obtain ⟨o, hrun, hreact⟩ := next_cases ext hh head r.data
      simp only [hrun]
      have hdisp := Resumes.dispatched len head hok o hreact
      cases hvalue : o.value with
      | ok _ =>
          simpa [Outcome.settle, hvalue] using hdisp
      | error e =>
          simpa [Outcome.settle, hvalue] using hdisp

theorem resumes_andThen {msg : Message} {wh : WHandler} (ec : ErrorCode)
    (hcall : ConnCall.isTerminate (.write msg wh) = false)
    {go : Act (List ConnCall) ρ Unit}
    (hgo : Resumes h w r (.write msg wh) (go w).settle.1 (go w).settle.2) :
    Resumes h w r (.write msg wh) (WHandler.andThen none ec go w).settle.1
      (WHandler.andThen none ec go w).settle.2 := by
  unfold WHandler.andThen
  split
  · simp only [Act.invoke_none, settle_error, List.nil_append]
    exact Resumes.lost hcall _
  · exact hgo

theorem resumes_withQuery {msg : Message} {wh : WHandler}
    (hcall : ConnCall.isTerminate (.write msg wh) = false)
    {go : DBQuery → Act (List ConnCall) ρ Unit}
    (hgo : ∀ q, Resumes h w r (.write msg wh) (go q w).settle.1 (go q w).settle.2) :
    Resumes h w r (.write msg wh) (FSM.withQuery go w).settle.1
      (FSM.withQuery go w).settle.2 := by
  unfold FSM.withQuery
  cases hquery : w.fsm.query with
  | none =>
      simp only [Act.bind_apply, Act.getFsm_apply, hquery, Act.throw_apply, List.append_nil,
        settle_error, List.nil_append]
      exact Resumes.lost hcall _
  | some q =>
      simp only [Act.bind_apply, Act.getFsm_apply, hquery, List.nil_append]
      exact hgo q

theorem resumes_write (hh : w.fsm.ehandler = some h) {msg : Message} {wh : WHandler}
    (hplain : ConnCall.Plain (.write msg wh)) (ec : ErrorCode) :
    Resumes h w r (.write msg wh) (wh.run AsyncConnection.con ec w).settle.1
      (wh.run AsyncConnection.con ec w).settle.2 := by
  have hreceive (hcall : ConnCall.isTerminate (.write msg wh) = false) :
      Resumes h w r (.write msg wh) (FSM.receiveUnless AsyncConnection.con ec w).settle.1
        (FSM.receiveUnless AsyncConnection.con ec w).settle.2 := by
    unfold FSM.receiveUnless
    split
    · rename_i hec
      rw [Act.callHandler_of_some hh]
      exact Resumes.reported hcall ec hec
    · exact Resumes.reading msg wh hcall
  cases wh with
  | startUpWritten => exact hreceive rfl
  | queryWritten => exact hreceive rfl
  | passwordWritten => exact hreceive rfl
  | sslStartUpWritten eh => exact hplain.elim
  | syncWritten eh =>
      subst hplain
      exact resumes_andThen ec rfl (Resumes.reading msg _ rfl)
  | parseSyncWritten eh =>
      subst hplain
      exact resumes_andThen ec rfl (Resumes.reading msg _ rfl)
  | bindWritten eh =>
      subst hplain
      exact resumes_andThen ec rfl (resumes_withQuery rfl fun q =>
        Resumes.wrote rfl _ _ rfl rfl ⟨rfl, rfl⟩ (Or.inr ⟨_, _, rfl⟩) (by simp [ConnCall.rank]))
  | describeWritten eh =>
      subst hplain
      exact resumes_andThen ec rfl (resumes_withQuery rfl fun q =>
        Resumes.wrote rfl _ _ rfl rfl ⟨rfl, rfl⟩ (Or.inr ⟨_, _, rfl⟩) (by simp [ConnCall.rank]))
  | executeWritten eh =>
      subst hplain
      exact resumes_andThen ec rfl
        (Resumes.wrote rfl _ _ rfl rfl ⟨rfl, rfl⟩ (Or.inr ⟨_, _, rfl⟩) (by simp [ConnCall.rank]))
  | parseWritten eh =>
      subst hplain
      exact resumes_andThen ec rfl
        (Resumes.wrote rfl _ _ rfl rfl ⟨rfl, rfl⟩ (Or.inr ⟨_, _, rfl⟩) (by simp [ConnCall.rank]))
  | terminateWritten =>
      simp only [WHandler.run, Act.bind_apply, Act.emit_apply]
      rw [Act.callHandler_of_some hh]
      exact Resumes.closed msg ec

theorem resumes_connect (hh : w.fsm.ehandler = some h) {eh : EHandler}
    (hplain : ConnCall.Plain (.connect eh)) (ec : ErrorCode) :
    Resumes h w r (.connect eh) (eh.run AsyncConnection.con ec w).settle.1
      (eh.run AsyncConnection.con ec w).settle.2 := by
  cases eh with
  | connected option =>
      unfold EHandler.run
      split
      · rename_i hec
        simp only [EHandler.fail]
        rw [Act.callHandler_of_some hh]
        exact Resumes.reported rfl ec hec
      · exact Resumes.wrote rfl _ _ trivial rfl ⟨rfl, rfl⟩ (Or.inl ⟨_, rfl⟩)
          (by simp [ConnCall.rank])
  | sslConnected option ehandler => exact hplain.elim
  | handshaken option ehandler => exact hplain.elim

theorem resumes_of_complete (ext : Externals ρ) (hh : w.fsm.ehandler = some h)
    (r : Completion) {call : ConnCall} (hplain : call.Plain) :
    Resumes h w r call (call.resume ext AsyncConnection.con r w).settle.1
      (call.resume ext AsyncConnection.con r w).settle.2 := by
  cases call with
  | connect eh => exact resumes_connect hh hplain r.ec
  | read len rh => exact resumes_read hh len rh
  | write msg wh => exact resumes_write hh hplain _

/-- A request in `IDLE` writes its first message and waits for that. -/
theorem accept_run (c : Call) (hc : c.isRequest = true) (hstate : w.fsm.state = .IDLE) :
    ∃ fsm msg wh, c.run AsyncConnection.con w =
        ⟨.ok (), { w with fsm := fsm, net := w.net ++ [.write msg wh] }, [.write msg]⟩ ∧
      fsm.ehandler = some c.handler ∧ (fsm.state = .QUERY ∨ fsm.state = .EQUERY) ∧
      msg.isRequest = true ∧ ConnCall.Plain (.write msg wh) ∧
      ConnCall.isTerminate (.write msg wh) = false := by
  cases c with
  | connect option eh => cases hc
  | close eh => cases hc
  | exec q res eh =>
      refine ⟨{ w.fsm with result := res, ehandler := some eh, state := .QUERY }, .query q,
        .queryWritten, ?_, rfl, Or.inl rfl, rfl, trivial, rfl⟩
      simp [Call.run, FSM.exec, Act.bind_apply, hstate]
  | execQuery q res eh =>
      refine ⟨⟨some q, res, some eh, .EQUERY⟩, .bind q.name q.portal q.bindValue,
        .bindWritten none, ?_, rfl, Or.inr rfl, rfl, rfl, rfl⟩
      simp [Call.run, FSM.execQuery, Act.bind_apply, hstate]
  | parse q eh =>
      refine ⟨{ w.fsm with query := some q, ehandler := some eh, state := .QUERY },
        .parse q.name q.query [], .parseWritten none, ?_, rfl, Or.inl rfl, rfl, rfl, rfl⟩
      simp [Call.run, FSM.parse, Act.bind_apply, hstate]

/-- A request in any other state answers with `busy` and changes nothing. -/
theorem reject_run {ν : Type} {w : World ν ρ} (con : ConnectionBase ν ρ) (c : Call)
    (hc : c.isRequest = true) (hstate : w.fsm.state ≠ .IDLE) :
    c.run con w =
      ⟨.ok (), w, [.handler c.handler (makeErrorCode .busy) w.fsm.state]⟩ := by
  cases c with
  | connect option eh => cases hc
  | close eh => cases hc
  | exec q res eh => simp [Call.run, FSM.exec, Act.bind_apply, hstate, Call.handler]
  | execQuery q res eh => simp [Call.run, FSM.execQuery, Act.bind_apply, hstate, Call.handler]
  | parse q eh => simp [Call.run, FSM.parse, Act.bind_apply, hstate, Call.handler]

theorem request_cases (c : Call) (hc : c.isRequest = true)
    (w : World (List ConnCall) ρ) :
    StepCase w (.call c) (c.run AsyncConnection.con w).settle.1
      (c.run AsyncConnection.con w).settle.2 := by
  by_cases hstate : w.fsm.state = .IDLE
  · obtain ⟨fsm, msg, wh, hrun, hhandler, hnext, hmsg, hplain, hwrite⟩ := accept_run c hc hstate
    rw [hrun]
    exact StepCase.accept c hc hstate fsm hhandler hnext msg wh hmsg hplain hwrite
  · rw [reject_run AsyncConnection.con c hc hstate]
    exact StepCase.reject c hc hstate

theorem step_cases {w' : World (List ConnCall) ρ} {label : Label} {es : List Event}
    (hsound : Sound w)
    (hstep : (AsyncConnection.machine ext).step w label = some (w', es)) :
    StepCase w label w' es := by
  cases label with
  | call c =>
      have hsettle : (c.run AsyncConnection.con w).settle = (w', es) := by
        simpa [AsyncConnection.machine] using hstep
      cases c with
      | connect option eh =>
          cases hsettle
          exact StepCase.connect option eh
      | close eh =>
          cases hsettle
          exact StepCase.close eh
      | exec q res eh =>
          have hcase := request_cases (.exec q res eh) rfl w
          rwa [hsettle] at hcase
      | execQuery q res eh =>
          have hcase := request_cases (.execQuery q res eh) rfl w
          rwa [hsettle] at hcase
      | parse q eh =>
          have hcase := request_cases (.parse q eh) rfl w
          rwa [hsettle] at hcase
  | complete i r =>
      simp only [AsyncConnection.machine] at hstep
      split at hstep
      · cases hstep
      rename_i call hcall
      split at hstep
      · rename_i hadmits
        have hmem : call ∈ w.net := List.mem_of_getElem? hcall
        obtain ⟨h, hh⟩ := hsound.handler (List.ne_nil_of_mem hmem)
        have hres := resumes_of_complete ext (h := h) (w := { w with net := w.net.eraseIdx i }) hh r
          (hsound.plain call hmem)
        have hsettle := Option.some.inj hstep
        rw [hsettle] at hres
        exact StepCase.complete i r call hcall hadmits h hh hres
      · cases hstep

theorem ResultEvents.ne_dispatch {fsm : FSM} {es : List Event} (hes : ResultEvents fsm es)
    (state : State) (head : Header) (body : Buffer) : Event.dispatch state head body ∉ es := by
  intro hmem
  obtain ⟨id, call, _, heq⟩ := hes _ hmem
  cases heq

/-- An action handler does not dispatch messages itself. -/
theorem Reacts.no_dispatch {head : Header} {body : Buffer}
    {o : Outcome (List ConnCall) ρ Unit} (hreact : Reacts h w head body o)
    (state : State) (head' : Header) (body' : Buffer) :
    Event.dispatch state head' body' ∉ o.settle.2 := by
  cases hreact with
  | goOn results es hes => exact hes.ne_dispatch state head' body'
  | authOk _ _ => simp
  | md5 _ _ msg _ => simp
  | report ec _ => simp
  | authError _ _ ec => simp
  | ready _ _ ec => simp
  | ended _ ec => simp
  | aborted e results es hes =>
      simpa using hes.ne_dispatch state head' body'

/-- The calls a completion issues, after those that were outstanding. -/
theorem Resumes.issued {call : ConnCall} {w' : World (List ConnCall) ρ} {es : List Event}
    (hres : Resumes h w r call w' es) :
    ∃ issued, w'.net = w.net ++ issued ∧ (∀ c ∈ issued, c.Plain) ∧
      w'.fsm.ehandler = w.fsm.ehandler := by
  cases hres with
  | reported _ ec _ => exact ⟨[], by simp, by simp, rfl⟩
  | lost _ e => exact ⟨[], by simp, by simp, rfl⟩
  | wrote _ msg wh hplain _ _ _ _ => exact ⟨[.write msg wh], rfl, by simpa using hplain, rfl⟩
  | reading msg wh _ => exact ⟨[.header], rfl, by simp [ConnCall.header, ConnCall.Plain], rfl⟩
  | header len head _ _ _ hlen =>
      refine ⟨[.read (toSize head.bodyLen) (.body head)], rfl, ?_, rfl⟩
      intro c hc
      rw [List.mem_singleton.mp hc]
      exact ⟨rfl, hlen⟩
  | closed msg ec => exact ⟨[], by simp, by simp, rfl⟩
  | dispatched len head hok o hreact =>
      have hheader : ConnCall.header.Plain := rfl
      rcases hreact with ⟨_, rfl⟩ | ⟨_, hreact⟩
      · exact ⟨[], by simp, by simp, rfl⟩
      cases hreact with
      | goOn results es _ => exact ⟨[.header], rfl, by simpa using hheader, rfl⟩
      | authOk _ _ => exact ⟨[.header], rfl, by simpa using hheader, rfl⟩
      | md5 _ _ msg _ =>
          refine ⟨[.write msg .passwordWritten, .header], rfl, ?_, rfl⟩
          intro c hc
          rcases List.mem_cons.mp hc with rfl | hmem
          · trivial
          · rw [List.mem_singleton.mp hmem]
            exact hheader
      | report ec _ => exact ⟨[], by simp, by simp, rfl⟩
      | authError _ _ ec => exact ⟨[], by simp, by simp, rfl⟩
      | ready _ _ ec => exact ⟨[], by simp, by simp, rfl⟩
      | ended _ ec => exact ⟨[], by simp, by simp, rfl⟩
      | aborted e results es _ => exact ⟨[], by simp, by simp, rfl⟩

/-- No completion leads back to `AUTH`. -/
theorem Resumes.state_ne_auth {call : ConnCall} {w' : World (List ConnCall) ρ}
    {es : List Event} (hres : Resumes h w r call w' es) (hstate : w.fsm.state ≠ .AUTH) :
    w'.fsm.state ≠ .AUTH := by
  cases hres with
  | reported _ ec _ => exact hstate
  | lost _ e => exact hstate
  | wrote _ msg wh _ _ _ _ _ => exact hstate
  | reading msg wh _ => exact hstate
  | header len head _ _ _ _ => exact hstate
  | closed msg ec => exact hstate
  | dispatched len head hok o hreact =>
      rcases hreact with ⟨_, rfl⟩ | ⟨_, hreact⟩
      · exact hstate
      cases hreact with
      | goOn results es _ => exact hstate
      | authOk hauth _ => exact absurd hauth hstate
      | md5 hauth _ msg _ => exact absurd hauth hstate
      | report ec _ => exact hstate
      | authError hauth _ ec => exact hstate
      | ready _ _ ec => exact (by decide : State.IDLE ≠ .AUTH)
      | ended _ ec => exact (by decide : State.END ≠ .AUTH)
      | aborted e results es _ => exact hstate

theorem Sound.step {w' : World (List ConnCall) ρ} {label : Label} {es : List Event}
    (hsound : Sound w) (hcase : StepCase w label w' es) : Sound w' := by
  have hplain (call : ConnCall) (hcall : call.Plain) (issued : ConnCall)
      (hmem : issued ∈ w.net ++ [call]) : issued.Plain := by
    rcases List.mem_append.mp hmem with hold | hnew
    · exact hsound.plain issued hold
    · rw [List.mem_singleton.mp hnew]
      exact hcall
  cases hcase with
  | connect option h => exact ⟨hplain _ trivial, fun _ => ⟨h, rfl⟩⟩
  | reject c _ _ => exact hsound
  | accept c _ _ fsm hhandler _ msg wh _ hwrite _ =>
      exact ⟨hplain _ hwrite, fun _ => ⟨c.handler, hhandler⟩⟩
  | close h => exact ⟨hplain _ trivial, fun _ => ⟨h, rfl⟩⟩
  | complete i r call hcall _ h hh hres =>
      obtain ⟨issued, hnet, hissued, hkept⟩ := hres.issued
      refine ⟨?_, fun _ => ⟨h, hkept.trans hh⟩⟩
      intro c hc
      rw [hnet] at hc
      rcases List.mem_append.mp hc with hold | hnew
      · exact hsound.plain c (List.mem_of_mem_eraseIdx hold)
      · exact hissued c hnew

/-- The world of a new state machine. -/
def World.init (results : ResultId → ρ) : World (List ConnCall) ρ := ⟨FSM.init, results, []⟩

theorem Sound.init (results : ResultId → ρ) : Sound (World.init results) :=
  ⟨by simp [World.init], by simp [World.init]⟩

/-- The result objects of the library's own kind, over its own formats. -/
def Externals.standard (md5 : Str → List UInt8) : Externals (ResultSet Pg.Value) :=
  ⟨ResultSet.base Pg.Format.standard.decode, md5, (0, 0, 0, 0)⟩

def Completion.delivered (data : Buffer) : Completion := ⟨.success, data.length, data⟩

def Completion.sent (msg : Message) : Completion := ⟨.success, msg.wire.length, []⟩

@[simp] theorem written_sent (msg : Message) : (Completion.sent msg).written msg = .success := by
  simp [Completion.sent, Completion.written]

/-- The steps of a connect that needs no password: the socket connects, the
start-up message goes out, and `AuthenticationOk` and `ReadyForQuery` come in. -/
def logOn (option : DBOption) (h : HandlerId) : List Label :=
  [.call (.connect option h), .complete 0 (.delivered []),
    .complete 0 (.sent (.startUp option)),
    .complete 0 (.delivered [82, 0, 0, 0, 8]), .complete 0 (.delivered [0, 0, 0, 0]),
    .complete 0 (.delivered [90, 0, 0, 0, 5]), .complete 0 (.delivered [73])]

/-- An invariant of runs of a new state machine, from its step cases. -/
theorem run_invariant {C : World (List ConnCall) ρ → Label → Prop}
    {results : ResultId → ρ} {labels : List Label} {t : World (List ConnCall) ρ}
    {events : List Event} (I : List Label → World (List ConnCall) ρ → List Event → Prop)
    (hinit : I [] (World.init results) [])
    (hstep : ∀ labels w w' label events es, Sound w → I labels w events → C w label →
      StepCase w label w' es → I (labels ++ [label]) w' (events ++ es))
    (hrun : (AsyncConnection.machine ext).Run C (World.init results) labels t events) :
    Sound t ∧ I labels t events := by
  refine hrun.invariant (fun labels w events => Sound w ∧ I labels w events)
    ⟨Sound.init results, hinit⟩ ?_
  rintro labels w w' past es label ⟨hsound, hI⟩ hcond hs
  have hcase := step_cases hsound hs
  exact ⟨hsound.step hcase, hstep labels w w' label past es hsound hI hcond hcase⟩

end Lapq
