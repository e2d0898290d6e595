import Lapq.Replies.Transparent
import Lapq.Runs.Conversation

/-!
The life of a connection. Blocking or asynchronous, it comes to the same, as long
as no MD5 password is asked for. Against a server that keeps to the protocol it is
a greeting, any number of exchanges, and the end of the session.
-/

namespace Lapq

open Bytes Backend

variable {ρ V : Type} {ext : Externals ρ}

/-! Any server. -/

theorem outcomes_cons {mode : Mode} {n : Nat} {c : Call} {w : World Peer ρ}
    {o : Outcome Peer ρ Unit} (hdrive : mode.drive ext n c w = o) (calls : List Call) :
    outcomes ext mode n w (c :: calls) = o :: outcomes ext mode n o.world calls := by
  rw [outcomes, hdrive]

/-- Any calls, one after the other, against any server and whatever I/O fails: if
no MD5 password is asked for, they come to the same over a blocking connection and
over an asynchronous one whose event loop is run after each. -/
theorem sessions_agree (ext : Externals ρ) (calls : List Call) (w : World Peer ρ) (n : Nat)
    (hn : 2 * w.net.input.length + 6 ≤ n)
    (hquiet : ∀ o ∈ outcomes ext .async n w calls, NoPassword o.events) :
    outcomes ext .blocking n w calls = outcomes ext .async n w calls := by
  induction calls generalizing w with
  | nil => rfl
  | cons c calls ih =>
      rw [outcomes_cons rfl] at hquiet
      have hfirst := hquiet _ List.mem_cons_self
      have hsame : Mode.blocking.drive ext n c w = Mode.async.drive ext n c w :=
        (call_drain ext c w.fsm w.results w.net n hn (Or.inr hfirst.of_append_right)).1
      have hless : (Mode.async.drive ext n c w).world.net.input.length ≤ w.net.input.length :=
        (AsyncConnection.drain_suffix n).length_le
      rw [outcomes_cons hsame, outcomes_cons rfl, ih _ (by omega)]
      exact fun o ho => hquiet o (List.mem_cons_of_mem _ ho)

/-- The dispatch of a message that asks for an MD5 password. -/
def Event.asksPassword : Event → Bool
  | .dispatch state head body => state = .AUTH && decide (IsAuthentication 5 head body)
  | _ => false

/-- A server that greets and then breaks off in the middle of a reply. -/
def breakingOff : Buffer :=
  [82, 0, 0, 0, 8, 0, 0, 0, 0, 90, 0, 0, 0, 5, 73, 67, 0, 0, 0, 13, 83]

theorem sessions_agree_breakingOff :
    let w : World Peer (ResultSet Pg.Value) := { connected breakingOff with fsm := FSM.init }
    let calls : List Call := [.connect .empty 0, .exec (ascii "a") (some 0) 1,
      .exec (ascii "b") (some 0) 2, .close 3]
    outcomes (Externals.standard fun _ => []) .blocking 48 w calls =
      outcomes (Externals.standard fun _ => []) .async 48 w calls := by
  intro w calls
  have hasks : (outcomes (Externals.standard fun _ => []) .async 48 w calls).all
      (fun o => o.events.all fun e => !e.asksPassword) = true := by
    decide +kernel
  have hquiet : ∀ o ∈ outcomes (Externals.standard fun _ => []) .async 48 w calls,
      NoPassword o.events := by
    intro o ho head body hmem hmsg
    have hnot := List.all_eq_true.mp (List.all_eq_true.mp hasks o ho) _ hmem
    simp [Event.asksPassword, hmsg] at hnot
  exact sessions_agree _ calls w 48 (by decide) hquiet

/-! A server that keeps to the protocol. -/

/-- A message that is read and has no consequences in a state. -/
def Backend.Passed (state : State) (msg : Backend) : Prop :=
  msg.Dropped state ∨ state = .CONN ∧ msg.WellFormed ∧
    ((∃ name value, msg = .parameterStatus name value) ∨ ∃ pid key, msg = .backendKeyData pid key)

theorem Backend.Passed.length {state : State} {msg : Backend} (hmsg : msg.Passed state) :
    msg.body.length + 4 < 2 ^ 31 := by
  rcases hmsg with hdropped | ⟨_, hformed, _⟩
  · exact hdropped.1
  · exact hformed.length

theorem Peer.later_later (p : Peer) (input rest : Buffer) (m n : Nat) :
    (p.later input m).later rest n = p.later rest (m + n) := by
  simp only [Peer.later, Nat.add_assoc]

section Greeting

variable {w : World (List ConnCall) ρ} {h : HandlerId}

theorem next_passed (ext : Externals ρ) {msg : Backend} (hmsg : msg.Passed w.fsm.state) :
    FSM.next ext AsyncConnection.con msg.header.mtype msg.header msg.body w =
      ⟨.ok (), { w with net := w.net ++ [.header] },
        [.dispatch w.fsm.state msg.header msg.body]⟩ := by
  rcases hmsg with hdropped | ⟨hstate, hformed, hsetting⟩
  · exact next_dropped ext hdropped
  obtain ⟨transition, hrow, hrest⟩ : ∃ transition, tableRow w.fsm.state = some transition ∧
      some transition = tableRow .CONN := ⟨_, by rw [hstate]; rfl, rfl⟩
  cases hrest
  rcases hsetting with ⟨name, value, rfl⟩ | ⟨pid, key, rfl⟩
  · have hdec := parameterStatus_deserialize name value hformed
    have hrun : Action.run ext AsyncConnection.con (header (.parameterStatus name value))
        (body (.parameterStatus name value)) .parameterStatus w =
        ⟨.ok (), { w with net := w.net ++ [.header] }, []⟩ := by
      simp [Action.run, FSM.parameterStatus, hdec, Act.bind_apply, FSM.receiveUnless]
    exact next_listed _ _ hrow rfl hrun
  · have hdec := backendKeyData_deserialize pid key hformed
    have hrun : Action.run ext AsyncConnection.con (header (.backendKeyData pid key))
        (body (.backendKeyData pid key)) .backendKeyData w =
        ⟨.ok (), { w with net := w.net ++ [.header] }, []⟩ := by
      simp [Action.run, FSM.backendKeyData, hdec, Act.bind_apply, FSM.receiveUnless]
    exact next_listed _ _ hrow rfl hrun

/-- `AuthenticationOk` as it is waited for. -/
theorem next_granted (ext : Externals ρ) (hstate : w.fsm.state = .AUTH) :
    FSM.next ext AsyncConnection.con Authentication.mtype (header (.authentication 0 []))
        (body (.authentication 0 [])) w =
      ⟨.ok (), { w with fsm := { w.fsm with state := .CONN }, net := w.net ++ [.header] },
        [.dispatch w.fsm.state (header (.authentication 0 [])) (body (.authentication 0 []))]⟩ := by
  have hrow : tableRow w.fsm.state = tableRow .AUTH := congrArg tableRow hstate
  have hrun : Action.run ext AsyncConnection.con (header (.authentication 0 []))
      (body (.authentication 0 [])) .authenticate w =
      ⟨.ok (), { w with fsm := { w.fsm with state := .CONN }, net := w.net ++ [.header] }, []⟩ := by
    have hformed : Backend.WellFormed (.authentication 0 []) :=
      ⟨⟨⟨by decide, by decide⟩, by decide⟩, by decide⟩
    obtain ⟨salt, hdec⟩ := authentication_deserialize ext.uninitialised 0 [] hformed
    simp only [Action.run, FSM.authenticate, hdec, Act.lift_ok]
    rfl
  exact next_listed _ _ hrow rfl hrun

/-- The `ReadyForQuery` that ends a greeting. -/
theorem next_welcomed (ext : Externals ρ) (status : UInt8) (hh : w.fsm.ehandler = some h)
    (hstate : w.fsm.state = .CONN) :
    FSM.next ext AsyncConnection.con ReadyForQuery.mtype (header (.readyForQuery status))
        (body (.readyForQuery status)) w =
      ⟨.ok (), { w with fsm := { w.fsm with state := .IDLE } },
        [.dispatch w.fsm.state (header (.readyForQuery status)) (body (.readyForQuery status)),
          .handler h .success .IDLE]⟩ := by
  have hrow : tableRow w.fsm.state = tableRow .CONN := congrArg tableRow hstate
  have hdec := readyForQuery_deserialize status
  have hrun : Action.run ext AsyncConnection.con (header (.readyForQuery status))
      (body (.readyForQuery status)) .readyForQuery w =
      ⟨.ok (), { w with fsm := { w.fsm with state := .IDLE } },
        [.handler h .success .IDLE]⟩ := by
    simp only [Action.run, FSM.readyForQuery, hdec, Act.lift_ok, Act.bind_apply, Act.pure_apply,
      Act.setState_apply, List.nil_append]
    rw [Act.callHandler_of_some (by simpa using hh)]
  exact next_listed _ _ hrow rfl hrun

/-- The event loop reads messages without consequences and waits for a header
again. -/
theorem drain_passed (ext : Externals ρ) {p : Peer} {rest : Buffer} (messages : List Backend)
    (hp : p.Faultless) (hnet : w.net = [.header])
    (hmessages : ∀ msg ∈ messages, msg.Passed w.fsm.state)
    (hinput : p.input = messages.flatMap Backend.wire ++ rest) (n : Nat) :
    let later := AsyncConnection.drain ext n (p.later rest (2 * messages.length)) w
    AsyncConnection.drain ext (n + 2 * messages.length) p w =
      (later.1.after (messages.map fun msg => .dispatch w.fsm.state msg.header msg.body),
        later.2) := by
  induction messages generalizing p with
  | nil =>
      have hrest : p.later rest 0 = p := by
        simp only [List.flatMap_nil, List.nil_append] at hinput
        rw [← hinput]
        rfl
      simp only [List.length_nil, Nat.mul_zero, hrest, List.map_nil]
      rfl
  | cons msg messages ih =>
      have hmsg := hmessages msg List.mem_cons_self
      have hnext := next_passed ext (w := { w with net := [] }) hmsg
      have hback : ({ w with net := [] ++ [.header] } : World (List ConnCall) ρ) = w := by
        rw [List.nil_append, ← hnet]
      rw [hback] at hnext
      have hbytes : p.input = msg.wire ++ (messages.flatMap Backend.wire ++ rest) := by
        rw [hinput, List.flatMap_cons, List.append_assoc]
      have hstep := drain_message hmsg.length hp hbytes hnet hnext rfl (n + 2 * messages.length)
      have hrest := ih (p := p.later (messages.flatMap Backend.wire ++ rest) 2) (hp.later _ _)
        (fun m hm => hmessages m (List.mem_cons_of_mem _ hm)) rfl
      rw [Peer.later_later, Nat.add_comm, ← Nat.mul_succ] at hrest
      rw [List.length_cons, show n + 2 * (messages.length + 1) = n + 2 * messages.length + 2 by
        omega, hstep]
      simp only [hrest]
      rfl

end Greeting

/-- What a server sends to a client that connects without a password: messages of
no interest, `AuthenticationOk`, its settings, and `ReadyForQuery`. -/
structure Greeting where
  first : List Backend
  settings : List Backend
  status : UInt8

namespace Greeting

def wire (g : Greeting) : Buffer :=
  g.first.flatMap Backend.wire ++ ((Backend.authentication 0 []).wire ++
    (g.settings.flatMap Backend.wire ++ (Backend.readyForQuery g.status).wire))

structure WellFormed (g : Greeting) : Prop where
  first : ∀ msg ∈ g.first, msg.Passed .AUTH
  settings : ∀ msg ∈ g.settings, msg.Passed .CONN

def events (g : Greeting) (h : HandlerId) : List Event :=
  g.first.map (fun msg => .dispatch .AUTH msg.header msg.body) ++
    (.dispatch .AUTH (header (.authentication 0 [])) (body (.authentication 0 [])) ::
      (g.settings.map (fun msg => .dispatch .CONN msg.header msg.body) ++
        [.dispatch .CONN (header (.readyForQuery g.status)) (body (.readyForQuery g.status)),
          .handler h .success .IDLE]))

/-- How many completions it takes. -/
def rounds (g : Greeting) : Nat := 2 * g.first.length + 2 * g.settings.length + 4

theorem rounds_le (g : Greeting) : g.rounds ≤ g.wire.length := by
  have hfirst := messages_length_le g.first
  have hsettings := messages_length_le g.settings
  simp only [rounds, wire, List.length_append, Backend.wire, List.cons_append, List.length_cons,
    be32_length]
  omega

end Greeting

section

variable {w : World (List ConnCall) ρ} {p : Peer} {rest : Buffer} {h : HandlerId}

theorem drain_granted (ext : Externals ρ) (hp : p.Faultless) (hstate : w.fsm.state = .AUTH)
    (hnet : w.net = [.header]) (hinput : p.input = (Backend.authentication 0 []).wire ++ rest)
    (n : Nat) :
    let later := AsyncConnection.drain ext n (p.later rest 2)
      { w with fsm := { w.fsm with state := .CONN } }
    AsyncConnection.drain ext (n + 2) p w =
      (later.1.after
        [.dispatch .AUTH (header (.authentication 0 [])) (body (.authentication 0 []))],
        later.2) := by
  have hnext := next_granted ext (w := { w with net := [] }) hstate
  have hstep := drain_message (by decide) hp hinput hnet hnext rfl n
  rw [hstep]
  simp only [List.nil_append, ← hnet, hstate]

theorem drain_welcomed (ext : Externals ρ) (status : UInt8) (hp : p.Faultless)
    (hh : w.fsm.ehandler = some h) (hstate : w.fsm.state = .CONN) (hnet : w.net = [.header])
    (hinput : p.input = (Backend.readyForQuery status).wire ++ rest) (n : Nat) :
    AsyncConnection.drain ext (n + 2) p w =
      (⟨.ok (), { w with fsm := { w.fsm with state := .IDLE }, net := [] },
        [.dispatch .CONN (header (.readyForQuery status)) (body (.readyForQuery status)),
          .handler h .success .IDLE]⟩, p.later rest 2) := by
  have hnext := next_welcomed ext status (w := { w with net := [] }) hh hstate
  have hstep := drain_message (by simp [Backend.body]) hp hinput hnet hnext rfl n
  rw [hstep, AsyncConnection.drain_nil n _ rfl]
  simp only [Outcome.after, List.append_nil, hstate]

theorem drain_greeting (ext : Externals ρ) (g : Greeting) (hg : g.WellFormed) (hp : p.Faultless)
    (hh : w.fsm.ehandler = some h) (hstate : w.fsm.state = .AUTH) (hnet : w.net = [.header])
    (hinput : p.input = g.wire ++ rest) (n : Nat) :
    AsyncConnection.drain ext (n + g.rounds) p w =
      (⟨.ok (), { w with fsm := { w.fsm with state := .IDLE }, net := [] }, g.events h⟩,
        p.later rest g.rounds) := by
  have hbytes : p.input = g.first.flatMap Backend.wire ++ ((Backend.authentication 0 []).wire ++
      (g.settings.flatMap Backend.wire ++ ((Backend.readyForQuery g.status).wire ++ rest))) := by
    rw [hinput, Greeting.wire]
    simp only [List.append_assoc]
  have hfirst := drain_passed ext g.first hp hnet (by rw [hstate]; exact hg.first) hbytes
    (n + 2 + 2 * g.settings.length + 2)
  have hgranted := drain_granted ext (hp.later _ (2 * g.first.length)) hstate hnet
    (p := p.later ((Backend.authentication 0 []).wire ++ (g.settings.flatMap Backend.wire ++
      ((Backend.readyForQuery g.status).wire ++ rest))) (2 * g.first.length)) rfl
    (n + 2 + 2 * g.settings.length)
  have hsettings := drain_passed ext g.settings
    (w := { w with fsm := { w.fsm with state := .CONN } })
    (p := p.later (g.settings.flatMap Backend.wire ++ ((Backend.readyForQuery g.status).wire ++
      rest)) (2 * g.first.length + 2)) (hp.later _ _) hnet hg.settings rfl (n + 2)
  have hwelcomed := drain_welcomed ext g.status
    (w := { w with fsm := { w.fsm with state := .CONN } })
    (p := p.later ((Backend.readyForQuery g.status).wire ++ rest)
      (2 * g.first.length + 2 + 2 * g.settings.length)) (hp.later _ _) hh rfl hnet rfl n
  have hrounds : n + g.rounds = n + 2 + 2 * g.settings.length + 2 + 2 * g.first.length := by
    unfold Greeting.rounds
    omega
  have hsteps : 2 * g.first.length + 2 + 2 * g.settings.length + 2 = g.rounds := by
    unfold Greeting.rounds
    omega
  rw [hrounds, hfirst]
  simp only [hgranted, Peer.later_later, hsettings, hwelcomed, hsteps]
  simp only [Outcome.after, Greeting.events, hstate, List.singleton_append]

theorem serve_connect (hp : p.Faultless) (eh : EHandler) :
    p.serve (.connect eh) = (.delivered [], p.later p.input 1) := by
  unfold Peer.serve
  rw [hp p.step]
  rfl

end

/-! The calls that open and end a session. -/

section Calls

variable {w : World Peer ρ} {rest : Buffer} {option : DBOption} {h : HandlerId}

theorem complete_connect (ext : Externals ρ) (g : Greeting) (hg : g.WellFormed)
    (hp : w.net.Faultless) (hstate : w.fsm.state = .AUTH) (hinput : w.net.input = g.wire ++ rest)
    (n : Nat) (hn : g.rounds + 2 ≤ n) :
    AsyncConnection.complete ext n (.connect option h) w =
      ⟨.ok (), ⟨{ w.fsm with ehandler := some h, state := .IDLE }, w.results,
          w.net.later rest (g.rounds + 2)⟩, .write (.startUp option) :: g.events h⟩ := by
  obtain ⟨extra, rfl⟩ := Nat.exists_eq_add_of_le hn
  have hcall : (Call.connect option h).run AsyncConnection.con (w.withNet []) =
      ⟨.ok (), ⟨{ w.fsm with ehandler := some h }, w.results, [.connect (.connected option)]⟩,
        []⟩ := rfl
  have hserve := serve_connect hp (.connected option)
  have hresume : ConnCall.resume ext AsyncConnection.con
      (w.net.serve (.connect (.connected option))).1 (.connect (.connected option))
      ⟨{ w.fsm with ehandler := some h }, w.results, []⟩ =
      ⟨.ok (), ⟨{ w.fsm with ehandler := some h }, w.results,
        [.write (.startUp option) .startUpWritten]⟩, [.write (.startUp option)]⟩ := by
    rw [hserve]
    rfl
  have hconnect := AsyncConnection.drain_ok (w := ⟨{ w.fsm with ehandler := some h }, w.results,
    [.connect (.connected option)]⟩) (extra + g.rounds + 1) rfl hresume rfl
  have hsends : Sends ext 1 ⟨{ w.fsm with ehandler := some h }, w.results,
      [.write (.startUp option) .startUpWritten]⟩ []
      ⟨{ w.fsm with ehandler := some h }, w.results, [.header]⟩ := Sends.write ext rfl rfl
  have hgreeted := drain_greeting (w := ⟨{ w.fsm with ehandler := some h }, w.results, [.header]⟩)
    (p := w.net.later w.net.input 2) ext g hg (hp.later _ _) rfl hstate rfl hinput extra
  unfold AsyncConnection.complete
  dsimp only
  rw [hcall, show g.rounds + 2 + extra = extra + g.rounds + 1 + 1 by omega, hconnect, hserve]
  dsimp only
  rw [hsends _ (hp.later _ _) (extra + g.rounds), Peer.later_later]
  dsimp only [Peer.later] at hgreeted ⊢
  rw [hgreeted, show w.net.step + (g.rounds + 2) = w.net.step + 2 + g.rounds by omega]
  rfl

theorem complete_close (ext : Externals ρ) (hp : w.net.Faultless) (n : Nat) :
    AsyncConnection.complete ext (n + 1) (.close h) w =
      ⟨.ok (), ⟨{ w.fsm with ehandler := some h, state := .END }, w.results,
          w.net.later w.net.input 1⟩,
        [.write .terminate, .closed, .handler h .success .END]⟩ := by
  have hclose : (Call.close h).run AsyncConnection.con (w.withNet []) =
      ⟨.ok (), ⟨{ w.fsm with ehandler := some h, state := .END }, w.results,
        [.write .terminate .terminateWritten]⟩, [.write .terminate]⟩ := rfl
  have hsends := Sends.write ext (w := ⟨{ w.fsm with ehandler := some h, state := .END },
    w.results, [.write .terminate .terminateWritten]⟩) rfl rfl w.net hp n
  unfold AsyncConnection.complete
  dsimp only
  rw [hclose, hsends, AsyncConnection.drain_nil n _ rfl]
  rfl

/-- A greeting asks for no password. -/
theorem Greeting.noPassword (g : Greeting) (hg : g.WellFormed) : NoPassword (g.events h) := by
  have hfirst : ∀ msg ∈ g.first, msg.Dropped .AUTH := by
    intro msg hmsg
    rcases hg.first msg hmsg with hdropped | ⟨hstate, _⟩
    · exact hdropped
    · cases hstate
  apply NoPassword.append (Backend.Dropped.noPassword hfirst)
  intro head body hmem
  rcases List.mem_cons.mp hmem with hgranted | hmem
  · cases hgranted
    decide
  · exfalso
    rcases List.mem_append.mp hmem with hsetting | hlast
    · obtain ⟨msg, _, hevent⟩ := List.mem_map.mp hsetting
      cases hevent
    · simp at hlast

/-- A connect against a server that greets, in either mode. -/
theorem drive_connect (ext : Externals ρ) (mode : Mode) (g : Greeting) (hg : g.WellFormed)
    (hp : w.net.Faultless) (hstate : w.fsm.state = .AUTH) (hinput : w.net.input = g.wire ++ rest)
    (n : Nat) (hn : 2 * w.net.input.length + 6 ≤ n) :
    mode.drive ext n (.connect option h) w =
      ⟨.ok (), ⟨{ w.fsm with ehandler := some h, state := .IDLE }, w.results,
          w.net.later rest (g.rounds + 2)⟩, .write (.startUp option) :: g.events h⟩ := by
  have hrounds : g.rounds + 2 ≤ 2 * w.net.input.length + 6 := by
    have hbytes := g.rounds_le
    rw [hinput, List.length_append]
    omega
  have hsafe : Passwordless ext (.connect option h) w.fsm w.results w.net := by
    have hstart : NoPassword [.write (.startUp option)] := by simp [NoPassword]
    have hquiet : NoPassword (AsyncConnection.complete ext (2 * w.net.input.length + 6)
        (.connect option h) w).events := by
      rw [complete_connect ext g hg hp hstate hinput _ hrounds]
      exact hstart.append (g.noPassword hg)
    exact Or.inr hquiet.of_append_right
  rw [(hsafe.drive_eq hn mode).1]
  exact complete_connect ext g hg hp hstate hinput n (by omega)

theorem drive_close (ext : Externals ρ) (mode : Mode) (hp : w.net.Faultless) (n : Nat)
    (hn : 2 * w.net.input.length + 6 ≤ n) :
    mode.drive ext n (.close h) w =
      ⟨.ok (), ⟨{ w.fsm with ehandler := some h, state := .END }, w.results,
          w.net.later w.net.input 1⟩,
        [.write .terminate, .closed, .handler h .success .END]⟩ := by
  have hsafe : Passwordless ext (.close h) w.fsm w.results w.net :=
    Or.inl (by simp [Call.started, Call.run, FSM.close, Act.bind_apply])
  obtain ⟨m, rfl⟩ : ∃ m, n = m + 1 := ⟨n - 1, by omega⟩
  rw [(hsafe.drive_eq hn mode).1]
  exact complete_close ext hp m

end Calls

/-! Whole sessions. -/

/-- A preparation that the server accepts: nothing in its reply is for a result
object, as an error response would be. -/
structure Exchange.Prepared (x : Exchange) : Prop where
  parse : x.call.isParse = true
  reply : x.reply.WellFormed .QUERY
  quiet : ∀ msg ∈ x.reply.messages, msg.calls = []

/-- The result objects after an exchange. -/
def Exchange.fill (read : FieldSpec → Buffer → V) (results : ResultId → ResultSet V)
    (x : Exchange) : ResultId → ResultSet V :=
  match x.call.result with
  | some id => Function.update results id (results id ++ assemble read x.reply.messages)
  | none => results

theorem Exchange.Prepared.absorbed {x : Exchange} (hx : x.Prepared) (result : Option ResultId)
    (results : ResultId → ρ) : Reply.Absorbed ext result results x.reply.messages results := by
  have hcalls : x.reply.messages.flatMap Backend.calls = [] :=
    List.flatMap_eq_nil_iff.mpr hx.quiet
  unfold Reply.Absorbed
  cases result with
  | none =>
      refine ⟨?_, rfl⟩
      intro msg hmsg
      cases msg with
      | dataRow columns => cases hx.quiet _ hmsg
      | _ => rfl
  | some id =>
      refine ⟨results id, ?_, (Function.update_eq_self id results).symm⟩
      rw [hcalls]
      rfl

/-- What the exchange of a request with a valid reply comes to, in either mode. -/
theorem drive_exchange {decode : FieldSpec → Pg.DecodeFunction V}
    {read : FieldSpec → Buffer → V} (md5 : Str → List UInt8) (salt : Byte4) (mode : Mode)
    {x : Exchange} (hx : x.Valid decode read ∨ x.Prepared) {w : World Peer (ResultSet V)}
    (hstate : w.fsm.state = .IDLE) (hp : w.net.Faultless) {rest : Buffer}
    (hinput : w.net.input = x.reply.wire ++ rest) (n : Nat)
    (hn : 2 * w.net.input.length + 6 ≤ n) :
    ∃ fsm steps state result, fsm.state = State.IDLE ∧
      mode.drive ⟨ResultSet.base decode, md5, salt⟩ n x.call w =
        ⟨.ok (), ⟨fsm, x.fill read w.results, w.net.later rest steps⟩,
          x.call.writes.map Event.write ++ x.reply.events state result x.call.handler⟩ := by
  rcases hx with hx | hx
  · obtain ⟨id, hid⟩ := hx.result
    have hresult := (hx.opened_result w.fsm).trans hid
    have hfill := (run_messages decode read x.reply.messages).2 (w.results id) hx.rows
    have habs : Reply.Absorbed (⟨ResultSet.base decode, md5, salt⟩ : Externals (ResultSet V))
        (x.call.opened w.fsm).result w.results x.reply.messages (x.fill read w.results) := by
      rw [hresult]
      unfold Exchange.fill
      rw [hid]
      exact ⟨_, hfill, rfl⟩
    have hreply : x.reply.WellFormed (x.call.opened w.fsm).state := by
      rw [opened_state x.call hx.isRequest w.fsm]
      exact hx.reply
    obtain ⟨steps, hdrive⟩ := drive_reply _ mode x.call hx.isRequest w hstate hp x.reply rest
      hinput hreply habs n hn
    exact ⟨_, steps, _, _, rfl, hdrive⟩
  · obtain ⟨call, reply⟩ := x
    obtain ⟨q, eh, hcall⟩ : ∃ q eh, call = .parse q eh := by
      cases call with
      | parse q eh => exact ⟨q, eh, rfl⟩
      | _ => cases hx.parse
    subst hcall
    obtain ⟨steps, hdrive⟩ := drive_reply ⟨ResultSet.base decode, md5, salt⟩ mode (.parse q eh) rfl
      w hstate hp reply rest hinput hx.reply (hx.absorbed w.fsm.result w.results) n hn
    exact ⟨_, steps, _, _, rfl, hdrive⟩

theorem said_dispatches (state : State) (messages : List Backend) :
    said (messages.map fun msg => .dispatch state msg.header msg.body) = [] := by
  apply List.filterMap_eq_nil_iff.mpr
  intro e he
  obtain ⟨msg, _, rfl⟩ := List.mem_map.mp he
  rfl

theorem filter_dispatches (state : State) (messages : List Backend) :
    (messages.map fun msg => Event.dispatch state msg.header msg.body).filter Event.isHandler =
      [] := by
  apply List.filter_eq_nil_iff.mpr
  intro e he
  obtain ⟨msg, _, rfl⟩ := List.mem_map.mp he
  simp [Event.isHandler]

theorem Greeting.said_events (g : Greeting) (h : HandlerId) : said (g.events h) = [] := by
  rw [Greeting.events, said_append, said_dispatches, List.nil_append, said_dispatch, said_append,
    said_dispatches]
  rfl

theorem Greeting.filter_events (g : Greeting) (h : HandlerId) :
    (g.events h).filter Event.isHandler = [.handler h .success .IDLE] := by
  rw [Greeting.events, List.filter_append, filter_dispatches, List.nil_append,
    List.filter_cons_of_neg (by simp [Event.isHandler]), List.filter_append, filter_dispatches]
  rfl

theorem said_writes (writes : List Message) : said (writes.map Event.write) = writes := by
  induction writes with
  | nil => rfl
  | cons msg writes ih => rw [List.map_cons, said_write, ih]

theorem said_messageEvents (state : State) (result : Option ResultId) (messages : List Backend) :
    said (messages.flatMap (Reply.messageEvents state result)) = [] := by
  apply List.filterMap_eq_nil_iff.mpr
  intro e he
  obtain ⟨msg, _, hmem⟩ := List.mem_flatMap.mp he
  rcases List.mem_cons.mp hmem with rfl | hcall
  · rfl
  cases result with
  | none => cases hcall
  | some id =>
      obtain ⟨call, _, rfl⟩ := List.mem_map.mp hcall
      rfl

/-- The messages of an exchange are those of its request. -/
theorem said_exchange (writes : List Message) (reply : Reply) (state : State)
    (result : Option ResultId) (h : HandlerId) :
    said (writes.map Event.write ++ reply.events state result h) = writes := by
  rw [said_append, said_writes, Reply.events, said_append, said_messageEvents]
  exact List.append_nil _

/-- How a session ends that has some exchanges left. -/
structure Concludes (read : FieldSpec → Buffer → V) (h : HandlerId) (rest : Buffer)
    (results : ResultId → ResultSet V) (exchanges : List Exchange)
    (os : List (Outcome Peer (ResultSet V) Unit)) : Prop where
  values : ∀ o ∈ os, o.value = .ok ()
  messages : said (os.flatMap Outcome.events) =
    exchanges.flatMap (fun x => x.call.writes) ++ [.terminate]
  handlers : (os.flatMap Outcome.events).filter Event.isHandler =
    exchanges.map (fun x => .handler x.call.handler .success .IDLE) ++ [.handler h .success .END]
  last : ∃ o, os.getLast? = some o ∧ o.world.fsm.state = .END ∧
    o.world.results = exchanges.foldl (Exchange.fill read) results ∧ o.world.net.input = rest

theorem concludes_outcomes {decode : FieldSpec → Pg.DecodeFunction V}
    {read : FieldSpec → Buffer → V} (md5 : Str → List UInt8) (salt : Byte4) (mode : Mode)
    (h : HandlerId) (exchanges : List Exchange)
    (hvalid : ∀ x ∈ exchanges, x.Valid decode read ∨ x.Prepared) {w : World Peer (ResultSet V)}
    (hstate : w.fsm.state = .IDLE) (hp : w.net.Faultless) {rest : Buffer}
    (hinput : w.net.input = Exchange.stream exchanges ++ rest) (n : Nat)
    (hn : 2 * w.net.input.length + 6 ≤ n) :
    Concludes read h rest w.results exchanges (outcomes ⟨ResultSet.base decode, md5, salt⟩ mode n w
      (exchanges.map Exchange.call ++ [.close h])) := by
  induction exchanges generalizing w with
  | nil =>
      have hclose := drive_close (h := h) ⟨ResultSet.base decode, md5, salt⟩ mode hp n hn
      rw [List.map_nil, List.nil_append, outcomes_cons hclose]
      exact ⟨by simp [outcomes], rfl, rfl, _, rfl, rfl, rfl, hinput⟩
  | cons x exchanges ih =>
      have hbytes : w.net.input = x.reply.wire ++ (Exchange.stream exchanges ++ rest) := by
        rw [hinput]
        simp [Exchange.stream]
      obtain ⟨fsm, steps, state, result, hidle, hdrive⟩ := drive_exchange md5 salt mode
        (hvalid x List.mem_cons_self) hstate hp hbytes n hn
      have hless := congrArg List.length hbytes
      rw [List.length_append] at hless
      have hrest := ih (w := ⟨fsm, x.fill read w.results,
          w.net.later (Exchange.stream exchanges ++ rest) steps⟩)
        (fun y hy => hvalid y (List.mem_cons_of_mem _ hy)) hidle (hp.later _ _) rfl
        (by simp only [Peer.later]; omega)
      rw [List.map_cons, List.cons_append, outcomes_cons hdrive]
      obtain ⟨o, hlast, hend, hresults, hleft⟩ := hrest.last
      refine ⟨?_, ?_, ?_, o, ?_, hend, hresults, hleft⟩
      · intro o' ho'
        rcases List.mem_cons.mp ho' with rfl | hlater
        · rfl
        · exact hrest.values o' hlater
      · rw [List.flatMap_cons, said_append, said_exchange, hrest.messages, List.flatMap_cons,
          List.append_assoc]
      · rw [List.flatMap_cons, List.filter_append, reply_events_handlers, hrest.handlers]
        rfl
      · rw [List.getLast?_cons, hlast]
        rfl

/-- What a whole connection comes to, in either mode, against a server that sends a
greeting, answers each query and accepts each preparation: no call fails, the
messages are the start-up message, those of each request, and `Terminate`; each
handler is called once, in turn and with success, when the state is `IDLE` or, at
last, `END`; the result objects have what was sent for them, and no byte more is
read. -/
theorem session_lifetime (decode : FieldSpec → Pg.DecodeFunction V)
    (read : FieldSpec → Buffer → V) (md5 : Str → List UInt8) (salt : Byte4) (mode : Mode)
    (option : DBOption) (h h' : HandlerId) (g : Greeting) (hg : g.WellFormed)
    (exchanges : List Exchange) (hvalid : ∀ x ∈ exchanges, x.Valid decode read ∨ x.Prepared)
    (w : World Peer (ResultSet V)) (hstate : w.fsm.state = .AUTH) (hp : w.net.Faultless)
    (rest : Buffer) (hinput : w.net.input = g.wire ++ (Exchange.stream exchanges ++ rest))
    (n : Nat) (hn : 2 * w.net.input.length + 6 ≤ n) :
    let os := outcomes ⟨ResultSet.base decode, md5, salt⟩ mode n w
      (.connect option h :: (exchanges.map Exchange.call ++ [.close h']))
    let events := os.flatMap Outcome.events
    (∀ o ∈ os, o.value = .ok ()) ∧
      said events = .startUp option :: (exchanges.flatMap (fun x => x.call.writes) ++
        [.terminate]) ∧
      events.filter Event.isHandler = .handler h .success .IDLE ::
        (exchanges.map (fun x => .handler x.call.handler .success .IDLE) ++
          [.handler h' .success .END]) ∧
      ∃ o, os.getLast? = some o ∧ o.world.fsm.state = .END ∧
        o.world.results = exchanges.foldl (Exchange.fill read) w.results ∧
        o.world.net.input = rest := by
  have hconnect : mode.drive ⟨ResultSet.base decode, md5, salt⟩ n (.connect option h) w = _ :=
    drive_connect _ mode g hg hp hstate hinput n hn
  have hless : 2 * (Exchange.stream exchanges ++ rest).length + 6 ≤ n := by
    rw [hinput, List.length_append] at hn
    omega
  have hrest := concludes_outcomes md5 salt mode h' exchanges hvalid
    (w := ⟨{ w.fsm with ehandler := some h, state := .IDLE }, w.results,
      w.net.later (Exchange.stream exchanges ++ rest) (g.rounds + 2)⟩) rfl (hp.later _ _) rfl n
    hless
  dsimp only
  rw [outcomes_cons hconnect]
  obtain ⟨o, hlast, hend, hresults, hleft⟩ := hrest.last
  refine ⟨?_, ?_, ?_, o, ?_, hend, hresults, hleft⟩
  · intro o' ho'
    rcases List.mem_cons.mp ho' with rfl | hlater
    · rfl
    · exact hrest.values o' hlater
  · rw [List.flatMap_cons, said_append, said_write, g.said_events, hrest.messages]
    rfl
  · rw [List.flatMap_cons, List.filter_append, List.filter_cons_of_neg (by simp [Event.isHandler]),
      g.filter_events, hrest.handlers]
    rfl
  · rw [List.getLast?_cons, hlast]
    rfl

/-- A server that names a setting and its key. -/
def plainGreeting : Greeting :=
  ⟨[], [.parameterStatus (ascii "TimeZone") (ascii "UTC"), .backendKeyData 7 9], 73⟩

theorem plainGreeting_wellFormed : plainGreeting.WellFormed := by
  refine ⟨by simp [plainGreeting], ?_⟩
  intro msg hmsg
  simp only [plainGreeting, List.mem_cons, List.not_mem_nil, or_false] at hmsg
  rcases hmsg with rfl | rfl
  · refine Or.inr ⟨rfl, ⟨⟨?_, ?_⟩, ?_⟩, Or.inl ⟨_, _, rfl⟩⟩ <;> decide
  · exact Or.inr ⟨rfl, ⟨⟨⟨by decide, by decide⟩, ⟨by decide, by decide⟩⟩, by decide⟩,
      Or.inr ⟨_, _, rfl⟩⟩

/-- A statement that is prepared. -/
def preparing : Exchange := ⟨.parse ⟨ascii "select 1", ascii "a", []⟩ 2, ⟨[.parseComplete], 73⟩⟩

theorem preparing_prepared : preparing.Prepared := by
  refine ⟨rfl, ?_, ?_⟩
  · intro msg hmsg
    cases List.mem_singleton.mp hmsg
    exact ⟨⟨trivial, by decide⟩, rfl⟩
  · intro msg hmsg
    cases List.mem_singleton.mp hmsg
    rfl

theorem session_lifetime_prepared :
    let exchanges := [preparing, textExchange]
    let input := plainGreeting.wire ++ (Exchange.stream exchanges ++ [])
    let os := outcomes (Externals.standard fun _ => []) .async (2 * input.length + 6)
      { connected input with fsm := FSM.init }
      (.connect .empty 1 :: (exchanges.map Exchange.call ++ [.close 4]))
    said (os.flatMap Outcome.events) = [.startUp .empty,
        .parse (ascii "a") (ascii "select 1") [], .sync, .query (ascii "select 'x'"), .terminate] ∧
      (os.flatMap Outcome.events).filter Event.isHandler =
        [.handler 1 .success .IDLE, .handler 2 .success .IDLE, .handler 3 .success .IDLE,
          .handler 4 .success .END] := by
  intro exchanges input os
  have hvalid : ∀ x ∈ exchanges,
      x.Valid Pg.Format.standard.decode (fun _ bytes => .text bytes) ∨ x.Prepared := by
    intro x hx
    rcases List.mem_cons.mp hx with rfl | hx
    · exact Or.inr preparing_prepared
    · cases List.mem_singleton.mp hx
      exact Or.inl textExchange_valid
  have hlife := session_lifetime Pg.Format.standard.decode (fun _ bytes => .text bytes)
    (fun _ => []) (0, 0, 0, 0) .async .empty 1 4 plainGreeting plainGreeting_wellFormed exchanges
    hvalid { connected input with fsm := FSM.init } rfl (fun _ => rfl) [] rfl
    (2 * input.length + 6) (le_refl _)
  exact ⟨hlife.2.1, hlife.2.2.1⟩

end Lapq
