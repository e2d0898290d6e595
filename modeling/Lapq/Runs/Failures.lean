import Lapq.Semantics.Interface
import Lapq.Steps.Blocking

/-!
Failed calls on the connection. Every callback makes at most one call, its last
action, unless the server asked for an MD5 password; so an operation is a chain
of calls, and the first that fails is the last. Whether its callback reaches the
handler of the user depends on what the callback captured.
-/

namespace Lapq

variable {ν ρ : Type} {ext : Externals ρ}

namespace IoCall

def isRead : IoCall → Bool
  | .read .. => true
  | _ => false

/-- The calls of an operation, by whether it captures a moved-from handler. Those
that do have it in every callback but that of a read. -/
def Issued (moves : Bool) : IoCall → Prop
  | .connect (.connected _) => moves = false
  | .connect (.sslConnected _ eh) => moves = true ∧ eh = none
  | .handshake (.handshaken _ eh) => moves = true ∧ eh = none
  | .connect (.handshaken ..) | .handshake (.connected _) | .handshake (.sslConnected ..) => False
  | .read .. => True
  | .write _ .startUpWritten | .write _ .queryWritten | .write _ .terminateWritten =>
      moves = false
  | .write _ .passwordWritten => False
  | .write _ (.sslStartUpWritten eh) | .write _ (.bindWritten eh)
  | .write _ (.describeWritten eh) | .write _ (.executeWritten eh)
  | .write _ (.syncWritten eh) | .write _ (.parseWritten eh)
  | .write _ (.parseSyncWritten eh) => moves = true ∧ eh = none

end IoCall

/-- A program that leaves the connection alone, or makes one call as its last
action, before which no handler was called. -/
def Onward (con : ConnectionBase ν ρ) (moves : Bool) (x : Act ν ρ Unit) (w : World ν ρ) : Prop :=
  (x w).world.net = w.net ∨ ∃ call w' es, IoCall.Issued moves call ∧ w'.net = w.net ∧
    w'.fsm.ehandler = w.fsm.ehandler ∧ es.filter Event.isHandler = [] ∧
    x w = (con.perform call w').after es

section Onward

variable {con : ConnectionBase ν ρ} {moves : Bool} {w : World ν ρ}

theorem Onward.receive : Onward con moves (FSM.receive con) w :=
  Or.inr ⟨.read Header.size .header, w, [], trivial, rfl, rfl, rfl, rfl⟩

theorem Onward.write (msg : Message) {wh : WHandler} (hcall : IoCall.Issued moves (.write msg wh)) :
    Onward con moves (con.write msg wh) w :=
  Or.inr ⟨.write msg wh, w, [.write msg], hcall, rfl, rfl, rfl, rfl⟩

theorem Onward.withQuery {x : DBQuery → Act ν ρ Unit} (hx : ∀ q, Onward con moves (x q) w) :
    Onward con moves (FSM.withQuery x) w := by
  cases hquery : w.fsm.query with
  | none =>
      refine Or.inl ?_
      simp [FSM.withQuery, Act.bind_apply, hquery]
  | some q =>
      have hrun : FSM.withQuery x w = x q w := by
        simp [FSM.withQuery, Act.bind_apply, hquery]
      unfold Onward
      rw [hrun]
      exact hx q

end Onward

/-! Callbacks that succeed. -/

/-- What the asynchronous connection without TLS would be told to do. -/
def ConnectionBase.plainCall (con : ConnectionBase ν ρ) : ConnCall → Act ν ρ Unit
  | .connect eh => con.connect eh
  | .read len rh => con.readInto len rh
  | .write msg wh => con.writeBuffers msg wh

theorem ResultEvents.filter_handler {fsm : FSM} {es : List Event} (hes : ResultEvents fsm es) :
    es.filter Event.isHandler = [] := by
  apply List.filter_eq_nil_iff.mpr
  intro e he
  obtain ⟨id, call, _, rfl⟩ := hes e he
  simp [Event.isHandler]

/-- A read whose callback makes a call calls no handler, and the call is a read. -/
theorem Resumes.read_onward {h : HandlerId} {w w' : World (List ConnCall) ρ} {r : Completion}
    {len : Nat} {rh : RHandler} {es : List Event} {call : ConnCall}
    (hres : Resumes h w r (.read len rh) w' es) (hempty : w.net = []) (hnext : w'.net = [call]) :
    (∃ len' rh', call = .read len' rh') ∧ w'.fsm.ehandler = w.fsm.ehandler ∧
      es.filter Event.isHandler = [] := by
  cases hres with
  | reported _ ec _ => simp [hempty] at hnext
  | lost _ e => simp [hempty] at hnext
  | wrote _ msg wh _ _ _ hfrom _ =>
      rcases hfrom with ⟨_, heq⟩ | ⟨_, _, heq⟩
      · cases heq
      · cases heq
  | header len head _ _ _ _ =>
      simp only [hempty, List.nil_append, List.cons.injEq, and_true] at hnext
      exact ⟨⟨_, _, hnext.symm⟩, rfl, rfl⟩
  | dispatched len head hok o hreact =>
      have hheader (heq : [ConnCall.header] = [call]) : ∃ len' rh', call = .read len' rh' :=
        ⟨_, _, (List.cons.inj heq).1.symm⟩
      rcases hreact with ⟨_, rfl⟩ | ⟨_, hreact⟩
      · simp [hempty] at hnext
      cases hreact with
      | goOn results es hes _ =>
          refine ⟨hheader (by simpa [hempty] using hnext), rfl, ?_⟩
          simpa [Event.isHandler] using hes.filter_handler
      | authOk _ _ => exact ⟨hheader (by simpa [hempty] using hnext), rfl, rfl⟩
      | md5 _ _ msg _ => simp [hempty] at hnext
      | report ec _ => simp [hempty] at hnext
      | authError _ _ ec => simp [hempty] at hnext
      | ready _ _ ec => simp [hempty] at hnext
      | ended _ ec => simp [hempty] at hnext
      | aborted e results es _ => simp [hempty] at hnext

section Succeed

variable {con : ConnectionBase ν ρ} {moves : Bool} {w : World ν ρ} {h : HandlerId}

theorem Onward.readHandler (hh : w.fsm.ehandler = some h) (rh : RHandler) (r : Completion)
    (hmsg : ∀ head, rh = .body head → w.fsm.state = .AUTH → ¬ IsAuthentication 5 head r.data) :
    Onward con moves (rh.run ext con r.ec r.data) w := by
  have htail : Tail con.plainCall (rh.run ext AsyncConnection.con r.ec r.data)
      (rh.run ext con r.ec r.data) (w.withNet []) :=
    Tail.readHandler rh r.ec r.data fun head hrh _ hauth => hmsg head hrh hauth
  have hres : Resumes h (w.withNet []) r (.read 0 rh)
      (rh.run ext AsyncConnection.con r.ec r.data (w.withNet [])).settle.1
      (rh.run ext AsyncConnection.con r.ec r.data (w.withNet [])).settle.2 :=
    resumes_read hh 0 rh
  rcases htail with hinert | ⟨call, hvalue, hnet, hsame⟩
  · exact Or.inl (congrArg (fun o => o.world.net) (hinert.same w.net))
  · rw [settle_of_ok hvalue] at hres
    obtain ⟨⟨len, rh', rfl⟩, hkept, hquiet⟩ := hres.read_onward rfl hnet
    let w' := (rh.run ext AsyncConnection.con r.ec r.data (w.withNet [])).world
    exact Or.inr ⟨.read len rh', w'.withNet w.net, _, trivial, rfl, hkept, hquiet, hsame w.net⟩

theorem Onward.andThen {ec : ErrorCode} (hok : ec.isError = false) (eh : Option HandlerId)
    {x : Act ν ρ Unit} (hx : Onward con moves x w) :
    Onward con moves (WHandler.andThen eh ec x) w := by
  unfold WHandler.andThen
  rw [if_neg (by simp [hok])]
  exact hx

theorem Onward.receiveUnless {ec : ErrorCode} (hok : ec.isError = false) :
    Onward con moves (FSM.receiveUnless con ec) w := by
  unfold FSM.receiveUnless
  rw [if_neg (by simp [hok])]
  exact Onward.receive

theorem Onward.writeHandler {msg : Message} {wh : WHandler}
    (hcall : IoCall.Issued moves (.write msg wh)) {ec : ErrorCode} (hok : ec.isError = false) :
    Onward con moves (wh.run con ec) w := by
  cases wh with
  | startUpWritten => exact Onward.receiveUnless hok
  | queryWritten => exact Onward.receiveUnless hok
  | passwordWritten => exact hcall.elim
  | sslStartUpWritten eh => exact Onward.andThen hok eh Onward.receive
  | syncWritten eh => exact Onward.andThen hok eh Onward.receive
  | parseSyncWritten eh => exact Onward.andThen hok eh Onward.receive
  | bindWritten eh =>
      exact Onward.andThen hok eh (Onward.withQuery fun q => Onward.write _ hcall)
  | describeWritten eh =>
      exact Onward.andThen hok eh (Onward.withQuery fun q => Onward.write _ hcall)
  | executeWritten eh => exact Onward.andThen hok eh (Onward.write _ hcall)
  | parseWritten eh => exact Onward.andThen hok eh (Onward.write _ hcall)
  | terminateWritten =>
      have hinert : Inert (WHandler.terminateWritten.run AsyncConnection.con ec)
          (WHandler.terminateWritten.run con ec) (w.withNet []) :=
        Inert.bind (Inert.emit _) fun _ _ => Inert.callHandler ec
      exact Or.inl (congrArg (fun o => o.world.net) (hinert.same w.net))

theorem Onward.resume (ext : Externals ρ) (con : ConnectionBase ν ρ) {call : IoCall}
    (hcall : call.Issued moves) (hh : w.fsm.ehandler = some h) {r : Completion}
    (hok : r.ec.isError = false)
    (hmsg : ∀ len head, call = .read len (.body head) → w.fsm.state = .AUTH →
      ¬ IsAuthentication 5 head r.data) :
    Onward con moves (call.resume ext con r) w := by
  have hpass : ¬ r.ec.isError = true := by simp [hok]
  cases call with
  | connect eh =>
      cases eh with
      | connected option =>
          simp only [IoCall.resume, EHandler.run, if_neg hpass]
          exact Onward.write _ hcall
      | sslConnected option ehandler =>
          simp only [IoCall.resume, EHandler.run, if_neg hpass]
          exact Or.inr ⟨.handshake (.handshaken option ehandler), w, [], hcall, rfl, rfl, rfl, rfl⟩
      | handshaken option ehandler => exact hcall.elim
  | handshake eh =>
      cases eh with
      | connected option => exact hcall.elim
      | sslConnected option ehandler => exact hcall.elim
      | handshaken option ehandler =>
          simp only [IoCall.resume, EHandler.run, if_neg hpass]
          exact Onward.write _ hcall
  | read len rh =>
      apply Onward.readHandler hh rh r
      rintro head rfl
      exact hmsg len head rfl
  | write msg wh => exact Onward.writeHandler hcall hok

/-- An operation starts as its callbacks go on, and its handler is in place. -/
theorem Operation.onward (op : Operation) (con : ConnectionBase ν ρ) (w : World ν ρ) :
    (op.run con w).world.net = w.net ∨ ∃ call w' es, call.Issued op.moves ∧ w'.net = w.net ∧
      w'.fsm.ehandler = some op.handler ∧ es.filter Event.isHandler = [] ∧
      op.run con w = (con.perform call w').after es := by
  cases op with
  | connectSSL option eh =>
      exact Or.inr ⟨.connect (.sslConnected option none),
        { w with fsm := { w.fsm with ehandler := some eh } }, [], ⟨rfl, rfl⟩, rfl, rfl, rfl, rfl⟩
  | call c =>
      cases c with
      | connect option eh =>
          exact Or.inr ⟨.connect (.connected option),
            { w with fsm := { w.fsm with ehandler := some eh } }, [], rfl, rfl, rfl, rfl, rfl⟩
      | close eh =>
          exact Or.inr ⟨.write .terminate .terminateWritten,
            { w with fsm := { w.fsm with state := .END, ehandler := some eh } },
            [.write .terminate], rfl, rfl, rfl, rfl, rfl⟩
      | exec q res eh =>
          by_cases hstate : w.fsm.state = .IDLE
          · refine Or.inr ⟨.write (.query q) .queryWritten, { w with fsm :=
              { w.fsm with result := res, ehandler := some eh, state := .QUERY } },
              [.write (.query q)], rfl, rfl, rfl, rfl, ?_⟩
            simp [Operation.run, Call.run, FSM.exec, Act.bind_apply, hstate, ConnectionBase.write,
              ConnectionBase.perform, Outcome.after]
          · exact Or.inl (congrArg (fun o => o.world.net) (reject_run con _ rfl hstate))
      | execQuery q res eh =>
          by_cases hstate : w.fsm.state = .IDLE
          · refine Or.inr ⟨.write (.bind q.name q.portal q.bindValue) (.bindWritten none),
              { w with fsm := ⟨some q, res, some eh, .EQUERY⟩ },
              [.write (.bind q.name q.portal q.bindValue)], ⟨rfl, rfl⟩, rfl, rfl, rfl, ?_⟩
            simp [Operation.run, Call.run, FSM.execQuery, Act.bind_apply, hstate,
              ConnectionBase.write, ConnectionBase.perform, Outcome.after]
          · exact Or.inl (congrArg (fun o => o.world.net) (reject_run con _ rfl hstate))
      | parse q eh =>
          by_cases hstate : w.fsm.state = .IDLE
          · refine Or.inr ⟨.write (.parse q.name q.query []) (.parseWritten none), { w with fsm :=
              { w.fsm with query := some q, ehandler := some eh, state := .QUERY } },
              [.write (.parse q.name q.query [])], ⟨rfl, rfl⟩, rfl, rfl, rfl, ?_⟩
            simp [Operation.run, Call.run, FSM.parse, Act.bind_apply, hstate,
              ConnectionBase.write, ConnectionBase.perform, Outcome.after]
          · exact Or.inl (congrArg (fun o => o.world.net) (reject_run con _ rfl hstate))

end Succeed

/-! Callbacks that fail. -/

/-- A program that changes nothing and tells the handlers `told`. -/
def Ends (x : Act ν ρ Unit) (w : World ν ρ) (told : List Event) : Prop :=
  ∃ value es, x w = ⟨value, w, es⟩ ∧ es.filter Event.isHandler = told

section Fails

variable {moves : Bool} {w : World ν ρ} {h : HandlerId} {ec : ErrorCode}

theorem Ends.told (hh : w.fsm.ehandler = some h) (ec : ErrorCode) :
    Ends (Act.callHandler ec) w [.handler h ec w.fsm.state] :=
  ⟨_, _, Act.callHandler_of_some hh ec, rfl⟩

/-- A callback that captured a moved-from handler throws. -/
theorem Ends.lost (ec : ErrorCode) : Ends (Act.invoke none ec) w [] := ⟨_, _, rfl, rfl⟩

/-- The callback of a write that failed. -/
theorem WHandler.run_ends (con : ConnectionBase ν ρ) (msg : Message) {wh : WHandler}
    (hcall : IoCall.Issued moves (.write msg wh)) (hh : w.fsm.ehandler = some h)
    (hfail : ec.isError = true) :
    Ends (wh.run con ec) w (if moves then [] else [.handler h ec w.fsm.state]) := by
  cases wh with
  | startUpWritten | queryWritten =>
      cases hcall
      rw [WHandler.run, FSM.receiveUnless_fails con hfail]
      exact Ends.told hh ec
  | passwordWritten => exact hcall.elim
  | terminateWritten =>
      cases hcall
      refine ⟨.ok (), [.closed, .handler h ec w.fsm.state], ?_, rfl⟩
      simp only [WHandler.run, Act.bind_apply, Act.emit_apply, Act.callHandler_of_some hh ec]
      rfl
  | sslStartUpWritten eh | syncWritten eh | parseSyncWritten eh | bindWritten eh
  | describeWritten eh | executeWritten eh | parseWritten eh =>
      obtain ⟨rfl, rfl⟩ := hcall
      rw [WHandler.run, WHandler.andThen_fails none _ hfail]
      exact Ends.lost ec

end Fails

/-- A failed call ends the chain: its callback tells the handler, or throws
because what it captured is empty. -/
theorem resume_fails (ext : Externals ρ) (con : ConnectionBase ν ρ) {moves : Bool} {call : IoCall}
    (hcall : call.Issued moves) {w : World ν ρ} {h : HandlerId} (hh : w.fsm.ehandler = some h)
    {r : Completion} (hfail : r.ec.isError = true) :
    Ends (call.resume ext con r) w
      (if moves && !call.isRead then [] else [.handler h r.ec w.fsm.state]) := by
  cases call with
  | read len rh =>
      rw [IoCall.resume, RHandler.run_fails con ext rh r.data hfail]
      simpa [IoCall.isRead] using Ends.told hh r.ec
  | connect eh =>
      rw [IoCall.resume, EHandler.run_fails con eh hfail]
      cases eh with
      | connected option =>
          cases hcall
          exact Ends.told hh r.ec
      | sslConnected option ehandler =>
          obtain ⟨rfl, rfl⟩ := hcall
          exact Ends.lost r.ec
      | handshaken option ehandler => exact hcall.elim
  | handshake eh =>
      rw [IoCall.resume, EHandler.run_fails con eh hfail]
      cases eh with
      | connected option => exact hcall.elim
      | sslConnected option ehandler => exact hcall.elim
      | handshaken option ehandler =>
          obtain ⟨rfl, rfl⟩ := hcall
          exact Ends.lost r.ec
  | write msg wh =>
      rw [IoCall.resume]
      simpa [IoCall.isRead] using WHandler.run_ends con msg hcall hh hfail

/-! Whole operations. -/

/-- No call has failed. -/
def AllOk (trace : Trace) : Prop := ∀ s ∈ trace, s.2.ec.isError = false

/-- The last call has failed, as the first, and the handler was told of it if the
callback could reach it. -/
def Broken (op : Operation) (trace : Trace) (events : List Event) : Prop :=
  ∃ before call r state, trace = before ++ [(call, r)] ∧ AllOk before ∧ r.ec.isError = true ∧
    events.filter Event.isHandler =
      if op.moves && !call.isRead then [] else [.handler op.handler r.ec state]

/-- The handler was told of an error, once. -/
def Told (h : HandlerId) (e : ErrorCode) (events : List Event) : Prop :=
  ∃ state, events.filter Event.isHandler = [.handler h e state]

theorem AllOk.append {trace : Trace} (htrace : AllOk trace) {call : IoCall} {r : Completion}
    (hok : r.ec.isError = false) : AllOk (trace ++ [(call, r)]) := by
  intro s hs
  rcases List.mem_append.mp hs with hold | hnew
  · exact htrace s hold
  · rw [List.mem_singleton.mp hnew]
    exact hok

/-- The first failed call of a trace. -/
theorem first_failure {before before' after after' : Trace} {s s' : IoCall × Completion}
    (h : before ++ s :: after = before' ++ s' :: after') (hbefore : AllOk before)
    (hbefore' : AllOk before') (hs : s.2.ec.isError = true) (hs' : s'.2.ec.isError = true) :
    before = before' ∧ s = s' ∧ after = after' := by
  induction before generalizing before' with
  | nil =>
      cases before' with
      | nil =>
          obtain ⟨rfl, rfl⟩ := List.cons.inj h
          exact ⟨rfl, rfl, rfl⟩
      | cons x before' =>
          obtain ⟨rfl, _⟩ := List.cons.inj h
          rw [hbefore' s List.mem_cons_self] at hs
          cases hs
  | cons x before ih =>
      cases before' with
      | nil =>
          obtain ⟨rfl, _⟩ := List.cons.inj h
          rw [hbefore x List.mem_cons_self] at hs'
          cases hs'
      | cons y before' =>
          obtain ⟨rfl, hrest⟩ := List.cons.inj h
          obtain ⟨rfl, rfl, rfl⟩ := ih hrest (fun z hz => hbefore z (List.mem_cons_of_mem _ hz))
            (fun z hz => hbefore' z (List.mem_cons_of_mem _ hz))
          exact ⟨rfl, rfl, rfl⟩

/-- What became of an operation whose trace has a failed call. -/
theorem Broken.told_iff {op : Operation} {trace before after : Trace} {events : List Event}
    {call : IoCall} {r : Completion} (hend : AllOk trace ∨ Broken op trace events)
    (htrace : trace = before ++ (call, r) :: after) (hbefore : AllOk before)
    (hfail : r.ec.isError = true) :
    after = [] ∧ (Told op.handler r.ec events ↔ (op.moves = true → call.isRead = true)) := by
  rcases hend with hok | ⟨before', call', r', state, hsplit, hbefore', hfail', htold⟩
  · have hr := hok (call, r) (by rw [htrace]; simp)
    rw [hfail] at hr
    cases hr
  · obtain ⟨_, hcall, hafter⟩ := first_failure (htrace.symm.trans hsplit) hbefore hbefore' hfail
      hfail'
    cases hcall
    refine ⟨hafter, ?_⟩
    unfold Told
    rw [htold]
    cases op.moves with
    | false => simp
    | true =>
        cases call.isRead with
        | false => simp
        | true => simp

theorem not_password_io {con : ConnectionBase ν ρ} {call : IoCall} {r : Completion}
    {w : World ν ρ} (hok : r.ec.isError = false)
    (hpassword : NoPassword (call.resume ext con r w).events) (len : Nat) (head : Header)
    (hcall : call = .read len (.body head)) (hstate : w.fsm.state = .AUTH) :
    ¬ IsAuthentication 5 head r.data := by
  subst hcall
  exact not_password con hok hpassword hstate

/-- An escaped exception is no call of a handler, and hides none. -/
theorem settle_handlers (o : Outcome ν ρ Unit) :
    o.settle.2.filter Event.isHandler = o.events.filter Event.isHandler := by
  unfold Outcome.settle
  split
  · rfl
  · simp [Event.isHandler]

theorem NoPassword.of_settle {o : Outcome ν ρ Unit} (hpassword : NoPassword o.settle.2) :
    NoPassword o.events := by
  unfold Outcome.settle at hpassword
  split at hpassword
  · exact hpassword
  · exact hpassword.of_append_left

/-! Callbacks later. -/

namespace Deferred

/-- One call is outstanding and none has failed or told the handler, or it is all
over. -/
def Inv (op : Operation) (w : World Outstanding ρ) (events : List Event) : Prop :=
  (∃ call, w.net.pending = [call] ∧ call.Issued op.moves ∧
    w.fsm.ehandler = some op.handler ∧ events.filter Event.isHandler = [] ∧ AllOk w.net.trace) ∨
  w.net.pending = [] ∧ (AllOk w.net.trace ∨ Broken op w.net.trace events)

theorem Inv.start (op : Operation) (fsm : FSM) (results : ResultId → ρ) :
    Inv op (op.run con ⟨fsm, results, [], []⟩).world
      (op.run con ⟨fsm, results, [], []⟩).events := by
  rcases op.onward con ⟨fsm, results, [], []⟩ with hnet |
    ⟨call, w', es, hcall, hnet, hh, hquiet, hrun⟩
  · refine Or.inr ⟨by rw [hnet], Or.inl ?_⟩
    rw [hnet]
    intro s hs
    cases hs
  · have hpush : op.run con ⟨fsm, results, [], []⟩ = (push call w').after es := hrun.trans
      (by rw [con, perform_ofPerform])
    rw [hpush]
    refine Or.inl ⟨call, ?_, hcall, hh, ?_, ?_⟩
    · simp [push, Outcome.after, hnet]
    · simpa [push, Outcome.after] using hquiet
    · simp [push, Outcome.after, hnet, AllOk]

/-- The only outstanding call is completed. -/
theorem step_only {w w' : World Outstanding ρ} {label : Nat × Completion} {es : List Event}
    {call : IoCall} (hpending : w.net.pending = [call])
    (hstep : (machine ext).step w label = some (w', es)) :
    let o := call.resume ext con label.2
      { w with net := ⟨[], w.net.trace ++ [(call, label.2)]⟩ }
    w' = o.world ∧ es = o.settle.2 := by
  obtain ⟨i, r⟩ := label
  simp only [machine, hpending] at hstep
  cases i with
  | succ i => cases hstep
  | zero =>
      have hsettle := Option.some.inj hstep
      exact ⟨(congrArg Prod.fst hsettle).symm.trans (settle_world _),
        (congrArg Prod.snd hsettle).symm⟩

theorem Inv.step (ext : Externals ρ) {op : Operation} {w w' : World Outstanding ρ}
    {label : Nat × Completion} {events es : List Event} (hinv : Inv op w events)
    (hpassword : NoPassword es) (hstep : (machine ext).step w label = some (w', es)) :
    Inv op w' (events ++ es) := by
  rcases hinv with ⟨call, hpending, hcall, hh, hquiet, hok⟩ | ⟨hpending, _⟩
  · obtain ⟨rfl, rfl⟩ := step_only hpending hstep
    have hnone := hpassword.of_settle
    unfold Inv Broken
    simp only [List.filter_append, settle_handlers, hquiet, List.nil_append]
    by_cases hfail : label.2.ec.isError = true
    · obtain ⟨value, es, hrun, htold⟩ := resume_fails ext con hcall
        (w := { w with net := ⟨[], w.net.trace ++ [(call, label.2)]⟩ }) hh hfail
      rw [hrun]
      exact Or.inr ⟨rfl, Or.inr ⟨w.net.trace, call, label.2, w.fsm.state, rfl, hok, hfail, htold⟩⟩
    · have hgood := Bool.eq_false_iff.mpr hfail
      have honward := Onward.resume ext con hcall
        (w := { w with net := ⟨[], w.net.trace ++ [(call, label.2)]⟩ }) hh hgood
        (not_password_io hgood hnone)
      rcases honward with hnet | ⟨call', w'', es, hcall', hnet, hh', hquiet', hrun⟩
      · refine Or.inr ⟨by rw [hnet], Or.inl ?_⟩
        rw [hnet]
        exact hok.append hgood
      · rw [con, perform_ofPerform] at hrun
        rw [con, hrun]
        refine Or.inl ⟨call', ?_, hcall', hh'.trans hh, ?_, ?_⟩
        · simp [push, Outcome.after, hnet]
        · simpa [push, Outcome.after] using hquiet'
        · simpa [push, Outcome.after, hnet] using hok.append hgood
  · simp only [machine, hpending] at hstep
    cases hstep

theorem Inv.run (ext : Externals ρ) (op : Operation) (fsm : FSM) (results : ResultId → ρ)
    {labels : List (Nat × Completion)} {t : World Outstanding ρ} {events : List Event}
    (hrun : (machine ext).Run (fun _ _ => True) (op.run con ⟨fsm, results, [], []⟩).world labels
      t events) (hpassword : NoPassword events) :
    Inv op t ((op.run con ⟨fsm, results, [], []⟩).events ++ events) := by
  apply hrun.invariant (fun _ w events => NoPassword events → Inv op w
    ((op.run con ⟨fsm, results, [], []⟩).events ++ events)) _ _ hpassword
  · intro _
    simpa using Inv.start op fsm results
  · intro _ w w' events es label hinv _ hstep hnone
    have hnext := (hinv hnone.of_append_left).step ext hnone.of_append_right hstep
    rwa [List.append_assoc] at hnext

end Deferred

/-! Callbacks in place. -/

namespace InPlace

/-- A call, and all that its callback leads to. -/
theorem perform_ends (ext : Externals ρ) (op : Operation) (n : Nat) {call : IoCall}
    (hcall : call.Issued op.moves) {w : World Answering ρ} (hh : w.fsm.ehandler = some op.handler)
    (hok : AllOk w.net.trace) (hpassword : NoPassword (perform ext n call w).events) :
    AllOk (perform ext n call w).world.net.trace ∨
      Broken op (perform ext n call w).world.net.trace (perform ext n call w).events := by
  induction n generalizing call w with
  | zero => exact Or.inl hok
  | succ n ih =>
      obtain ⟨r, hrun⟩ : ∃ r, perform ext (n + 1) call w =
          call.resume ext (.ofPerform (perform ext n)) r
            { w with net := ⟨w.net.answer, w.net.trace ++ [(call, r)]⟩ } := ⟨_, rfl⟩
      rw [hrun] at hpassword ⊢
      by_cases hfail : r.ec.isError = true
      · obtain ⟨value, es, hrun, htold⟩ := resume_fails ext (.ofPerform (perform ext n)) hcall
          (w := { w with net := ⟨w.net.answer, w.net.trace ++ [(call, r)]⟩ }) hh hfail
        rw [hrun]
        exact Or.inr ⟨w.net.trace, call, r, w.fsm.state, rfl, hok, hfail, htold⟩
      · have hgood := Bool.eq_false_iff.mpr hfail
        have honward := Onward.resume ext (.ofPerform (perform ext n)) hcall
          (w := { w with net := ⟨w.net.answer, w.net.trace ++ [(call, r)]⟩ }) hh hgood
          (not_password_io hgood hpassword)
        rcases honward with hnet | ⟨call', w', es, hcall', hnet, hh', hquiet, hrun⟩
        · rw [hnet]
          exact Or.inl (hok.append hgood)
        · rw [perform_ofPerform] at hrun
          rw [hrun] at hpassword ⊢
          have hok' : AllOk w'.net.trace := by
            rw [hnet]
            exact hok.append hgood
          have hrest := ih hcall' (hh'.trans hh) hok' hpassword.of_append_right
          unfold Broken at hrest ⊢
          simpa [Outcome.after, hquiet] using hrest

theorem run_ends (ext : Externals ρ) (op : Operation) (n : Nat) (fsm : FSM)
    (results : ResultId → ρ) (answer : Trace → IoCall → Completion)
    (hpassword : NoPassword (op.run (con ext n) ⟨fsm, results, answer, []⟩).events) :
    AllOk (op.run (con ext n) ⟨fsm, results, answer, []⟩).world.net.trace ∨
      Broken op (op.run (con ext n) ⟨fsm, results, answer, []⟩).world.net.trace
        (op.run (con ext n) ⟨fsm, results, answer, []⟩).events := by
  have hempty : AllOk [] := by
    intro s hs
    cases hs
  rcases op.onward (con ext n) ⟨fsm, results, answer, []⟩ with hnet |
    ⟨call, w', es, hcall, hnet, hh, hquiet, hrun⟩
  · rw [hnet]
    exact Or.inl hempty
  · rw [con, perform_ofPerform] at hrun
    rw [con, hrun] at hpassword ⊢
    have hok : AllOk w'.net.trace := by
      rw [hnet]
      exact hempty
    have hrest := perform_ends ext op n hcall hh hok hpassword.of_append_right
    unfold Broken at hrest ⊢
    simpa [Outcome.after, hquiet] using hrest

end InPlace

/-- A call of an operation fails, and all before it succeeded. It is the last
call, and unless the server asked for an MD5 password the handler is told of it
exactly when the operation still has it, or the call is a read. -/
theorem io_failure_told_iff (ext : Externals ρ) (op : Operation) (fsm : FSM)
    (results : ResultId → ρ) (before after : Trace) (call : IoCall) (r : Completion)
    (hbefore : AllOk before) (hfail : r.ec.isError = true) :
    (∀ labels t events, (Deferred.machine ext).Run (fun _ _ => True)
        (op.run Deferred.con ⟨fsm, results, [], []⟩).world labels t events →
      NoPassword events → t.net.trace = before ++ (call, r) :: after →
      (after = [] ∧ t.net.pending = [] ∧ Told op.handler r.ec
        ((op.run Deferred.con ⟨fsm, results, [], []⟩).events ++ events) ↔
          (op.moves = true → call.isRead = true))) ∧
    ∀ n answer, NoPassword (op.run (InPlace.con ext n) ⟨fsm, results, answer, []⟩).events →
      (op.run (InPlace.con ext n) ⟨fsm, results, answer, []⟩).world.net.trace =
        before ++ (call, r) :: after →
      (after = [] ∧ Told op.handler r.ec
        (op.run (InPlace.con ext n) ⟨fsm, results, answer, []⟩).events ↔
          (op.moves = true → call.isRead = true)) := by
  constructor
  · intro labels t events hrun hpassword htrace
    have hinv := Deferred.Inv.run ext op fsm results hrun hpassword
    rcases hinv with ⟨_, _, _, _, _, hok⟩ | ⟨hpending, hend⟩
    · have hr := hok (call, r) (by rw [htrace]; simp)
      rw [hfail] at hr
      cases hr
    · obtain ⟨hafter, htold⟩ := Broken.told_iff hend htrace hbefore hfail
      rw [← htold]
      exact ⟨fun h => h.2.2, fun h => ⟨hafter, hpending, h⟩⟩
  · intro n answer hpassword htrace
    have hend := InPlace.run_ends ext op n fsm results answer hpassword
    obtain ⟨hafter, htold⟩ := Broken.told_iff hend htrace hbefore hfail
    rw [← htold]
    exact ⟨fun h => h.2, fun h => ⟨hafter, h⟩⟩

/-- The read that fails in the runs below. -/
def reset : Completion := ⟨⟨104, .system⟩, 0, []⟩

/-- A query is written, and the connection is lost before the reply. -/
theorem io_failure_told_iff_query :
    let idle : FSM := ⟨none, none, none, .IDLE⟩
    let op : Operation := .call (.exec (ascii "a") none 7)
    let answer (trace : Trace) (_ : IoCall) : Completion :=
      if trace.length = 0 then .sent (.query (ascii "a")) else reset
    (∃ t events, (Deferred.machine .forgetful).Run (fun _ _ => True)
        (op.run Deferred.con ⟨idle, fun _ => (), [], []⟩).world
        [(0, .sent (.query (ascii "a"))), (0, reset)] t events ∧
      Told 7 reset.ec ((op.run Deferred.con ⟨idle, fun _ => (), [], []⟩).events ++ events)) ∧
    Told 7 reset.ec
      (op.run (InPlace.con .forgetful 5) ⟨idle, fun _ => (), answer, []⟩).events := by
  intro idle op answer
  have hbefore : AllOk [(.write (.query (ascii "a")) .queryWritten,
      .sent (.query (ascii "a")))] := by
    intro s hs
    rw [List.mem_singleton.mp hs]
    rfl
  have hboth := io_failure_told_iff .forgetful op idle (fun _ => ()) _ []
    (.read Header.size .header) reset hbefore rfl
  constructor
  · obtain ⟨t, events, hexec, htrace, hevents⟩ : ∃ t events,
        (Deferred.machine .forgetful).exec (op.run Deferred.con ⟨idle, fun _ => (), [], []⟩).world
          [(0, .sent (.query (ascii "a"))), (0, reset)] = some (t, events) ∧
        t.net.trace = [(.write (.query (ascii "a")) .queryWritten, .sent (.query (ascii "a")))] ++
          [(.read Header.size .header, reset)] ∧
        events = [.handler 7 reset.ec .QUERY] :=
      ⟨_, _, rfl, rfl, rfl⟩
    have hrun := Machine.run_of_exec hexec
    have hpassword : NoPassword events := by
      rw [hevents]
      intro head body hmem
      simp at hmem
    have htold := (hboth.1 _ t events hrun hpassword htrace).mpr (fun h => by cases h)
    exact ⟨t, events, hrun, htold.2.2⟩
  · have hpassword : NoPassword
        (op.run (InPlace.con .forgetful 5) ⟨idle, fun _ => (), answer, []⟩).events := by
      have hevents : (op.run (InPlace.con .forgetful 5) ⟨idle, fun _ => (), answer, []⟩).events =
          [.write (.query (ascii "a")), .handler 7 reset.ec .QUERY] := rfl
      rw [hevents]
      intro head body hmem
      simp at hmem
    exact ((hboth.2 5 answer hpassword rfl).mpr (fun h => by cases h)).2

/-- The socket of `connectSSL` does not connect. The handler that was passed to it
is never called: the callback captured what was left of it. -/
theorem io_failure_not_told :
    ¬ ∀ (op : Operation) (labels : List (Nat × Completion)) (t : World Outstanding Unit)
      (events : List Event), (Deferred.machine .forgetful).Run (fun _ _ => True)
        (op.run Deferred.con ⟨FSM.init, fun _ => (), [], []⟩).world labels t events →
      ∀ before call r after, AllOk before → r.ec.isError = true →
        t.net.trace = before ++ (call, r) :: after →
        after = [] ∧ t.net.pending = [] ∧ Told op.handler r.ec
          ((op.run Deferred.con ⟨FSM.init, fun _ => (), [], []⟩).events ++ events) := by
  intro hall
  obtain ⟨t, events, hexec, htrace, hevents⟩ : ∃ t events,
      (Deferred.machine .forgetful).exec (Operation.run Deferred.con (.connectSSL .empty 0)
        ⟨FSM.init, fun _ => (), [], []⟩).world [(0, reset)] = some (t, events) ∧
      t.net.trace = [(.connect (.sslConnected .empty none), reset)] ∧
      events = [.abort .badFunctionCall] :=
    ⟨_, _, rfl, rfl, rfl⟩
  obtain ⟨_, _, state, htold⟩ := hall (.connectSSL .empty 0) _ t events
    (Machine.run_of_exec hexec) [] _ reset [] (by simp [AllOk]) rfl htrace
  rw [hevents] at htold
  cases htold

end Lapq
