import Mathlib.Data.List.InsertIdx
import Lapq.Runs.Tls
import Lapq.Runs.Implements

/-!
TLS is a tunnel. Once it is set up and the start-up message is out, a connection
with TLS cannot be told from one without: they take the same steps, with the same
events, and are left with the same calls to complete.
-/

namespace Lapq

variable {ρ : Type} {w : World (List ConnCall) ρ}

/-- The call on the connection with TLS. -/
def ConnCall.overTls : ConnCall → SslCall
  | .connect eh => .connect eh
  | .read len rh => .read len rh
  | .write msg wh => .write msg wh

/-- The same calls are outstanding, whatever was logged. -/
def Tunnels (calls : List ConnCall) (q : SslQueue) : Prop :=
  q.pending = calls.map ConnCall.overTls

theorem admits_overTls (r : Completion) (call : ConnCall) :
    call.overTls.op.Admits r ↔ call.Admits r := by
  cases call <;> exact Iff.rfl

theorem tunnels_push (call : ConnCall) :
    Related Tunnels (AsyncConnection.push call : Act _ ρ Unit)
      (SSLAsyncConnection.start call.overTls) := by
  constructor
  intro w q hq
  refine ⟨⟨q.pending ++ [call.overTls], q.log ++ [.started call.overTls.op]⟩, ?_, rfl⟩
  change q.pending ++ [call.overTls] = (w.net ++ [call]).map ConnCall.overTls
  rw [hq, List.map_append]
  rfl

theorem con_tunnels :
    Corresponds (ρ := ρ) Tunnels AsyncConnection.con SSLAsyncConnection.con :=
  ⟨fun len rh => tunnels_push (.read len rh), fun msg wh => tunnels_push (.write msg wh)⟩

theorem call_tunnels (c : Call) :
    Related Tunnels (c.run AsyncConnection.con : Act _ ρ Unit) (c.run SSLAsyncConnection.con) :=
  Related.call con_tunnels (fun option => tunnels_push (.connect (.connected option))) c

theorem resume_tunnels (ext : Externals ρ) (r : Completion) {call : ConnCall}
    (hplain : call.Plain) :
    Related Tunnels (call.resume ext AsyncConnection.con r)
      (SSLAsyncConnection.resume ext r call.overTls) := by
  cases call with
  | connect eh =>
      apply Related.connectHandler con_tunnels
      rintro option ehandler rfl
      exact hplain.elim
  | read len rh => exact Related.readHandler con_tunnels rh r.ec r.data
  | write msg wh => exact Related.writeHandler con_tunnels wh (r.written msg)

/-- The two connections are in the same state, up to the log. -/
def Alike (w : World (List ConnCall) ρ) (u : World SslQueue ρ) : Prop :=
  Sound w ∧ ∃ q, Tunnels w.net q ∧ u = w.withNet q

theorem Related.settles {x : Act (List ConnCall) ρ Unit} {y : Act SslQueue ρ Unit}
    (hx : Related Tunnels x y) {q : SslQueue} (hq : Tunnels w.net q) :
    ∃ q', Tunnels (x w).settle.1.net q' ∧
      (y (w.withNet q)).settle = ((x w).settle.1.withNet q', (x w).settle.2) := by
  obtain ⟨q', hq', hsame⟩ := hx.same w q hq
  refine ⟨q', ?_, ?_⟩
  · rw [settle_world]
    exact hq'
  · rw [hsame]
    exact settle_withNet _ q'

/-- A step of the one is a step of the other. -/
theorem Alike.step (ext : Externals ρ) {u : World SslQueue ρ} (halike : Alike w u)
    (label : Label) :
    Option.Rel (fun x y => Alike x.1 y.1 ∧ x.2 = y.2)
      ((AsyncConnection.machine ext).step w label)
      ((SSLAsyncConnection.machine ext).step u label) := by
  obtain ⟨hsound, q, hq, rfl⟩ := halike
  have hkept {w' : World (List ConnCall) ρ} {es : List Event}
      (hstep : (AsyncConnection.machine ext).step w label = some (w', es)) : Sound w' :=
    hsound.step (step_cases hsound hstep)
  cases label with
  | call c =>
      obtain ⟨q', hq', hsettle⟩ := (call_tunnels c).settles hq
      refine Option.Rel.some ⟨⟨hkept rfl, q', hq', ?_⟩, ?_⟩
      · exact congrArg Prod.fst hsettle
      · exact (congrArg Prod.snd hsettle).symm
  | complete i r =>
      have hpending : (w.withNet q).net.pending[i]? = (w.net[i]?).map ConnCall.overTls := by
        change q.pending[i]? = _
        rw [hq, List.getElem?_map]
      simp only [AsyncConnection.machine, SSLAsyncConnection.machine, hpending] at hkept ⊢
      cases hcall : w.net[i]? with
      | none => exact Option.Rel.none
      | some call =>
          simp only [hcall, Option.map_some, admits_overTls] at hkept ⊢
          by_cases hadmits : call.Admits r
          · simp only [if_pos hadmits] at hkept ⊢
            have hplain := hsound.plain call (List.mem_of_getElem? hcall)
            have hleft : Tunnels (w.net.eraseIdx i) ⟨q.pending.eraseIdx i,
                q.log ++ [.finished call.overTls.op r]⟩ := by
              change q.pending.eraseIdx i = (w.net.eraseIdx i).map ConnCall.overTls
              rw [hq, List.eraseIdx_map]
            obtain ⟨q', hq', hsettle⟩ := (resume_tunnels ext r hplain).settles
              (w := { w with net := w.net.eraseIdx i }) hleft
            refine Option.Rel.some ⟨⟨hkept rfl, q', hq', ?_⟩, ?_⟩
            · exact congrArg Prod.fst hsettle
            · exact (congrArg Prod.snd hsettle).symm
          · simp only [if_neg hadmits]
            exact Option.Rel.none

/-- The steps of `connectSSL` up to the start-up message have succeeded. -/
structure SetUp (option : DBOption) (connected requested answered secured sent : Completion) :
    Prop where
  connected : StreamOp.connect.Admits connected ∧ connected.ec.isError = false
  requested : (StreamOp.write .plain .sslRequest).Admits requested ∧
    (requested.written .sslRequest).isError = false
  answered : (StreamOp.read .plain 1).Admits answered ∧ answered.sslAnswer.isError = false
  secured : StreamOp.handshake.Admits secured ∧ secured.ec.isError = false
  sent : (StreamOp.write .tls (.startUp option)).Admits sent ∧
    (sent.written (.startUp option)).isError = false

/-- The completion of the only call. -/
theorem complete_only (ext : Externals ρ) {fsm : FSM} {results : ResultId → ρ} {call : ConnCall}
    {r : Completion} (hadmits : call.Admits r) :
    (AsyncConnection.machine ext).step ⟨fsm, results, [call]⟩ (.complete 0 r) =
      some (call.resume ext AsyncConnection.con r ⟨fsm, results, []⟩).settle :=
  if_pos hadmits

/-- The completion of the only call of a connection with TLS leaves one other,
whatever the log. -/
def Passes (ext : Externals ρ) (fsm : FSM) (results : ResultId → ρ) (call : SslCall)
    (r : Completion) (call' : SslCall) (es : List Event) : Prop :=
  ∀ log, ∃ log', (SSLAsyncConnection.machine ext).step ⟨fsm, results, [call], log⟩
    (.complete 0 r) = some (⟨fsm, results, [call'], log'⟩, es)

theorem Passes.of_resume (ext : Externals ρ) {fsm : FSM} {results : ResultId → ρ}
    {call call' : SslCall} {r : Completion} {es : List Event} (hadmits : call.op.Admits r)
    (hresume : ∀ log, ∃ log', SSLAsyncConnection.resume ext r call ⟨fsm, results, [], log⟩ =
      ⟨.ok (), ⟨fsm, results, [call'], log'⟩, es⟩) :
    Passes ext fsm results call r call' es := by
  intro log
  obtain ⟨log', hlog'⟩ := hresume (log ++ [.finished call.op r])
  refine ⟨log', (if_pos hadmits).trans ?_⟩
  exact congrArg (fun o => some o.settle) hlog'

section SetUp

variable {option : DBOption} {connected requested answered secured sent : Completion}

/-- Without TLS the first message of the server is then waited for. -/
theorem opened_exec (ext : Externals ρ) (fsm : FSM) (results : ResultId → ρ) (eh : HandlerId)
    (hsetup : SetUp option connected requested answered secured sent) :
    (AsyncConnection.machine ext).exec ⟨fsm, results, []⟩
        [.call (.connect option eh), .complete 0 connected, .complete 0 sent] =
      some (⟨{ fsm with ehandler := some eh }, results, [.header]⟩,
        [.write (.startUp option)]) := by
  obtain ⟨hconnects, hconnected⟩ := hsetup.connected
  obtain ⟨hsends, hsent⟩ := hsetup.sent
  have hcall : (AsyncConnection.machine ext).step ⟨fsm, results, []⟩
      (.call (.connect option eh)) = some (⟨{ fsm with ehandler := some eh }, results,
        [.connect (.connected option)]⟩, []) := rfl
  have hconnect : (AsyncConnection.machine ext).step ⟨{ fsm with ehandler := some eh }, results,
      [.connect (.connected option)]⟩ (.complete 0 connected) = some
        (⟨{ fsm with ehandler := some eh }, results, [.write (.startUp option) .startUpWritten]⟩,
          [.write (.startUp option)]) := by
    rw [complete_only ext ((admits_overTls _ (.connect (.connected option))).mp hconnects)]
    simp only [ConnCall.resume, EHandler.run, hconnected, Bool.false_eq_true, if_false]
    rfl
  have hwrite : (AsyncConnection.machine ext).step ⟨{ fsm with ehandler := some eh }, results,
      [.write (.startUp option) .startUpWritten]⟩ (.complete 0 sent) = some
        (⟨{ fsm with ehandler := some eh }, results, [.header]⟩, []) := by
    rw [complete_only ext ((admits_overTls _ (.write (.startUp option) .startUpWritten)).mp hsends)]
    simp only [ConnCall.resume, WHandler.run, FSM.receiveUnless, hsent, Bool.false_eq_true,
      if_false]
    rfl
  simp [Machine.exec, hcall, hconnect, hwrite]

/-- With TLS it is waited for as well. -/
theorem secured_exec (ext : Externals ρ) (fsm : FSM) (results : ResultId → ρ) (eh : HandlerId)
    (hsetup : SetUp option connected requested answered secured sent) :
    ∃ log, (SSLAsyncConnection.machine ext).exec
        (FSM.connectSSL SSLAsyncConnection.con option eh ⟨fsm, results, [], []⟩).world
        [.complete 0 connected, .complete 0 requested, .complete 0 answered, .complete 0 secured,
          .complete 0 sent] =
      some (⟨{ fsm with ehandler := some eh }, results, [ConnCall.header.overTls], log⟩,
        [.write (.startUp option)]) := by
  obtain ⟨hconnects, hconnected⟩ := hsetup.connected
  obtain ⟨hrequests, hrequested⟩ := hsetup.requested
  obtain ⟨hanswers, hanswered⟩ := hsetup.answered
  obtain ⟨hsecures, hsecured⟩ := hsetup.secured
  obtain ⟨hsends, hsent⟩ := hsetup.sent
  have hconnect : Passes ext { fsm with ehandler := some eh } results
      (.connect (.sslConnected option none)) connected (.request (.handshaken option none)) [] := by
    apply Passes.of_resume ext hconnects
    intro log
    simp only [SSLAsyncConnection.resume, EHandler.run, hconnected, Bool.false_eq_true, if_false]
    exact ⟨_, rfl⟩
  have hrequest : Passes ext { fsm with ehandler := some eh } results
      (.request (.handshaken option none)) requested (.answer (.handshaken option none)) [] := by
    apply Passes.of_resume ext hrequests
    intro log
    simp only [SSLAsyncConnection.resume, hrequested, Bool.false_eq_true, if_false]
    exact ⟨_, rfl⟩
  have hanswer : Passes ext { fsm with ehandler := some eh } results
      (.answer (.handshaken option none)) answered (.handshake (.handshaken option none)) [] := by
    apply Passes.of_resume ext hanswers
    intro log
    simp only [SSLAsyncConnection.resume, hanswered, Bool.false_eq_true, if_false]
    exact ⟨_, rfl⟩
  have hsecure : Passes ext { fsm with ehandler := some eh } results
      (.handshake (.handshaken option none)) secured
      (.write (.startUp option) (.sslStartUpWritten none)) [.write (.startUp option)] := by
    apply Passes.of_resume ext hsecures
    intro log
    simp only [SSLAsyncConnection.resume, EHandler.run, hsecured, Bool.false_eq_true, if_false]
    exact ⟨_, rfl⟩
  have hwrite : Passes ext { fsm with ehandler := some eh } results
      (.write (.startUp option) (.sslStartUpWritten none)) sent ConnCall.header.overTls [] := by
    apply Passes.of_resume ext hsends
    intro log
    simp only [SSLAsyncConnection.resume, WHandler.run, WHandler.andThen, hsent,
      Bool.false_eq_true, if_false]
    exact ⟨_, rfl⟩
  have hcall : (FSM.connectSSL SSLAsyncConnection.con option eh ⟨fsm, results, [], []⟩).world =
      ⟨{ fsm with ehandler := some eh }, results, [.connect (.sslConnected option none)],
        [.started .connect]⟩ := rfl
  obtain ⟨log₁, h₁⟩ := hconnect [.started .connect]
  obtain ⟨log₂, h₂⟩ := hrequest log₁
  obtain ⟨log₃, h₃⟩ := hanswer log₂
  obtain ⟨log₄, h₄⟩ := hsecure log₃
  obtain ⟨log₅, h₅⟩ := hwrite log₄
  rw [hcall]
  exact ⟨log₅, by simp [Machine.exec, h₁, h₂, h₃, h₄, h₅]⟩

/-- What is left of a session with TLS when its log is not looked at. -/
def World.unlogged (w : World SslQueue ρ) : World (List SslCall) ρ := w.withNet w.net.pending

/-- A session without TLS, with its calls as those of one with TLS. -/
def World.overTls (w : World (List ConnCall) ρ) : World (List SslCall) ρ :=
  w.withNet (w.net.map ConnCall.overTls)

/-- A connection with TLS that was set up goes on as one without TLS whose socket
was connected: whatever the user calls, the server sends and in whatever order I/O
completes, the same steps can be taken, and they have the same events and lead to
the same state machine, results and outstanding calls. -/
theorem tls_transparent (ext : Externals ρ) (fsm : FSM) (results : ResultId → ρ)
    (option : DBOption) (eh : HandlerId)
    (connected requested answered secured sent : Completion)
    (hsetup : SetUp option connected requested answered secured sent) (labels : List Label) :
    ((SSLAsyncConnection.machine ext).exec
        (FSM.connectSSL SSLAsyncConnection.con option eh ⟨fsm, results, [], []⟩).world
        ([.complete 0 connected, .complete 0 requested, .complete 0 answered,
          .complete 0 secured, .complete 0 sent] ++ labels)).map
        (fun x => (x.1.unlogged, x.2)) =
      ((AsyncConnection.machine ext).exec ⟨fsm, results, []⟩
        ([.call (.connect option eh), .complete 0 connected, .complete 0 sent] ++ labels)).map
        (fun x => (x.1.overTls, x.2)) := by
  obtain ⟨log, hsecured⟩ := secured_exec ext fsm results eh hsetup
  rw [Machine.exec_append hsecured, Machine.exec_append (opened_exec ext fsm results eh hsetup)]
  have halike : Alike (⟨{ fsm with ehandler := some eh }, results, [.header]⟩ : World _ ρ)
      ⟨{ fsm with ehandler := some eh }, results, [ConnCall.header.overTls], log⟩ := by
    refine ⟨⟨?_, fun _ => ⟨eh, rfl⟩⟩, ⟨[ConnCall.header.overTls], log⟩, rfl, rfl⟩
    intro call hcall
    cases List.mem_singleton.mp hcall
    rfl
  have hrest := Machine.exec_related Alike (fun _ _ label hw => hw.step ext label) halike labels
  generalize (AsyncConnection.machine ext).exec _ labels = x,
    (SSLAsyncConnection.machine ext).exec _ labels = y at hrest
  cases hrest with
  | none => rfl
  | some hrest =>
      obtain ⟨⟨_, q, hq, hworld⟩, hevents⟩ := hrest
      have hpending : q.pending = List.map ConnCall.overTls _ := hq
      simp only [Option.map_some, hworld, hevents, World.unlogged, World.overTls, ← hpending]
      rfl

/-- A query whose reply is awaited while another is refused and the session is
closed. -/
def tunnelled : List Label :=
  [.complete 0 (.delivered [82, 0, 0, 0, 8]), .complete 0 (.delivered [0, 0, 0, 0]),
    .complete 0 (.delivered [90, 0, 0, 0, 5]), .complete 0 (.delivered [73]),
    .call (.exec (ascii "a") none 1), .call (.exec (ascii "b") none 2), .call (.close 3),
    .complete 1 (.sent .terminate)]

theorem tls_transparent_tunnelled :
    ∃ t u events, (AsyncConnection.machine .forgetful).exec ⟨FSM.init, fun _ => (), []⟩
          ([.call (.connect .empty 0), .complete 0 (.delivered []),
            .complete 0 (.sent (.startUp .empty))] ++ tunnelled) = some (t, events) ∧
      (SSLAsyncConnection.machine .forgetful).exec
          (FSM.connectSSL SSLAsyncConnection.con .empty 0 ⟨FSM.init, fun _ => (), [], []⟩).world
          ([.complete 0 (.delivered []), .complete 0 (.sent .sslRequest),
            .complete 0 (.delivered ['S'.toUInt8]), .complete 0 (.delivered []),
            .complete 0 (.sent (.startUp .empty))] ++ tunnelled) = some (u, events) ∧
      u.unlogged = t.overTls ∧ t.fsm.state = .END := by
  have hsetup : SetUp .empty (.delivered []) (.sent .sslRequest) (.delivered ['S'.toUInt8])
      (.delivered []) (.sent (.startUp .empty)) :=
    ⟨⟨rfl, rfl⟩, ⟨rfl, rfl⟩, ⟨rfl, rfl⟩, ⟨rfl, rfl⟩, ⟨rfl, rfl⟩⟩
  have hsame := tls_transparent .forgetful FSM.init (fun _ => ()) .empty 0 _ _ _ _ _ hsetup
    tunnelled
  obtain ⟨t, events, hexec, hend⟩ : ∃ t events, (AsyncConnection.machine .forgetful).exec
        ⟨FSM.init, fun _ => (), []⟩ ([.call (.connect .empty 0), .complete 0 (.delivered []),
          .complete 0 (.sent (.startUp .empty))] ++ tunnelled) = some (t, events) ∧
      t.fsm.state = .END := ⟨_, _, rfl, rfl⟩
  rw [hexec] at hsame
  obtain ⟨⟨u, es⟩, hssl, hview⟩ := Option.map_eq_some_iff.mp hsame
  obtain ⟨hworld, hevents⟩ := Prod.mk.inj hview
  dsimp only at hevents
  subst hevents
  exact ⟨t, u, es, hexec, hssl, hworld, hend⟩

end SetUp

end Lapq
