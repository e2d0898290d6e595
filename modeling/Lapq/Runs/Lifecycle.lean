import Lapq.Runs.Busy

/-!
The life of a state machine as the wire shows it. Its state is a function of the
messages dispatched and written, in order: no I/O error, no handler and no
exception changes it. A closed one stays closed, and `CLOSE`, the state in which
`CloseComplete` would be waited for, is never reached.
-/

namespace Lapq

variable {ρ : Type} {ext : Externals ρ} {w w' : World (List ConnCall) ρ}
  {h : HandlerId} {r : Completion} {call : ConnCall} {events es : List Event}
  {state : State}

namespace State

/-- The state after a message of the server. -/
def hears (state : State) (head : Header) (body : Buffer) : State :=
  if state = .AUTH ∧ IsAuthentication 0 head body then .CONN
  else if state ∈ [State.CONN, .QUERY, .EQUERY] ∧ head.mtype = ReadyForQuery.mtype ∧ body ≠ [] then
    .IDLE
  else state

/-- The state after a message to the server. -/
def tells (state : State) : Message → State
  | .query _ | .parse .. => .QUERY
  | .bind .. => .EQUERY
  | .terminate => .END
  | _ => state

def follows (state : State) : Event → State
  | .dispatch _ head body => state.hears head body
  | .write msg => state.tells msg
  | _ => state

end State

/-- The state that the event records, if it records one. -/
def Event.SeenIn (state : State) : Event → Prop
  | .dispatch seen _ _ | .handler _ _ seen => seen = state
  | _ => True

/-- The events lead from one state to the other, and record the states on the way. -/
def Leads : State → List Event → State → Prop
  | start, [], stop => start = stop
  | start, e :: es, stop => e.SeenIn start ∧ Leads (start.follows e) es stop

theorem Leads.append {start stop : State} (hevents : Leads start events state)
    (hes : Leads state es stop) : Leads start (events ++ es) stop := by
  induction events generalizing start with
  | nil =>
      cases hevents
      exact hes
  | cons e events ih => exact ⟨hevents.1, ih hevents.2⟩

theorem Leads.foldl {start stop : State} (hevents : Leads start events stop) :
    stop = events.foldl State.follows start := by
  induction events generalizing start with
  | nil => exact hevents.symm
  | cons e events ih => exact ih hevents.2

theorem Leads.seen {start stop : State} {before after : List Event} {e : Event}
    (hevents : Leads start (before ++ e :: after) stop) :
    e.SeenIn (before.foldl State.follows start) := by
  induction before generalizing start with
  | nil => exact hevents.1
  | cons first before ih => exact ih hevents.2

/-- Calls on a result object say nothing about the state. -/
theorem ResultEvents.leads {fsm : FSM} (hes : ResultEvents fsm es) {stop : State}
    {more : List Event} (hmore : Leads state more stop) : Leads state (es ++ more) stop := by
  induction es with
  | nil => exact hmore
  | cons e es ih =>
      obtain ⟨id, call, _, rfl⟩ := hes e List.mem_cons_self
      exact ⟨trivial, ih fun e' he' => hes e' (List.mem_cons_of_mem _ he')⟩

/-! One message of the server. -/

section Messages

variable {head : Header} {body : Buffer}

theorem hears_of_not_granted (hgrants : ¬ GrantsAccess state head body)
    (hready : ¬ (state ∈ [State.CONN, .QUERY, .EQUERY] ∧ head.mtype = ReadyForQuery.mtype)) :
    state.hears head body = state := by
  have hother : ¬ (state ∈ [State.CONN, .QUERY, .EQUERY] ∧ head.mtype = ReadyForQuery.mtype ∧
      body ≠ []) := by
    rintro ⟨hstate, htype, _⟩
    exact hready ⟨hstate, htype⟩
  exact (if_neg hgrants).trans (if_neg hother)

theorem hears_of_auth (hgrants : ¬ IsAuthentication 0 head body) :
    State.AUTH.hears head body = .AUTH := by
  apply hears_of_not_granted
  · rintro ⟨_, hmsg⟩
    exact hgrants hmsg
  · rintro ⟨hstate, _⟩
    simp at hstate

/-- The code of `AuthenticationOk` is read, and no salt after it. -/
theorem authentication_granted (uninitialised : Byte4) (hmsg : IsAuthentication 0 head body)
    (hpass : (Message.check Authentication.mtype head body).isError = false) :
    Authentication.deserialize uninitialised head body =
      .ok (.success, ⟨Authentication.authOk, uninitialised⟩) := by
  obtain ⟨n, hread, hzero⟩ := Option.map_eq_some_iff.mp hmsg.2
  have hcode : deserializeInt32 body 0 = .ok (0, 4) := by
    unfold deserializeInt32
    rw [List.drop_zero, hread, ← hzero]
  have hsalt : ¬ (head.bodyLen > 4 ∧ (0 : Int) = Authentication.authMd5Password) := by
    rintro ⟨_, hmd5⟩
    cases hmd5
  simp only [Authentication.deserialize, hpass, Bool.false_eq_true, if_false, hcode]
  exact if_neg hsalt

theorem authenticate_hears (ext : Externals ρ) (hstate : w.fsm.state = .AUTH)
    (htype : head.mtype = Authentication.mtype)
    (hpass : (Message.check Authentication.mtype head body).isError = false) :
    (FSM.authenticate ext AsyncConnection.con head body w).world.fsm.state =
      w.fsm.state.hears head body := by
  unfold FSM.authenticate
  by_cases hmsg : IsAuthentication 0 head body
  · rw [authentication_granted _ hmsg hpass]
    exact (if_pos ⟨hstate, hmsg⟩).symm
  rw [hstate, hears_of_auth hmsg]
  cases hread : Authentication.deserialize ext.uninitialised head body with
  | error e => exact hstate
  | ok a =>
      obtain ⟨ec, msg⟩ := a
      have hec : ec.isError = false := authentication_succeeds _ hpass _ hread
      have hcode := authentication_type hec hread
      have hother : msg.authType ≠ Authentication.authOk := by
        intro hok
        exact hmsg ⟨htype, by rw [hcode, hok]; rfl⟩
      simp only [Act.lift_ok, Act.bind_apply, Act.pure_apply, hec, Bool.false_eq_true, if_false,
        if_neg hother]
      split
      · rfl
      · exact hstate

theorem readyForQuery_hears (hh : w.fsm.ehandler = some h)
    (hstate : w.fsm.state ∈ [State.CONN, .QUERY, .EQUERY])
    (htype : head.mtype = ReadyForQuery.mtype)
    (hpass : (Message.check ReadyForQuery.mtype head body).isError = false) :
    (FSM.readyForQuery head body w).world.fsm.state = w.fsm.state.hears head body := by
  have hgrants : ¬ (w.fsm.state = .AUTH ∧ IsAuthentication 0 head body) := by
    rintro ⟨hauth, _⟩
    rw [hauth] at hstate
    simp at hstate
  have hheard : w.fsm.state.hears head body = if body ≠ [] then .IDLE else w.fsm.state := by
    unfold State.hears
    rw [if_neg hgrants]
    exact if_congr ⟨fun hready => hready.2.2, fun hbody => ⟨hstate, htype, hbody⟩⟩ rfl rfl
  rw [hheard]
  unfold FSM.readyForQuery
  cases body with
  | nil => simp [ReadyForQuery.deserialize, hpass, deserializeByte1, readByte, Act.bind_apply]
  | cons status rest =>
      have hread : ReadyForQuery.deserialize head (status :: rest) = .ok (.success, status) := by
        simp only [ReadyForQuery.deserialize, hpass, Bool.false_eq_true, if_false]
        rfl
      simp only [hread, Act.lift_ok, Act.bind_apply, Act.pure_apply, Act.setState_apply]
      rw [Act.callHandler_of_some (by simpa using hh)]
      rfl

/-- The table has one entry for `ReadyForQuery` in each state that waits for it. -/
theorem tableEntries_ready : ∀ entry ∈ tableEntries,
    entry.1 ∈ [State.CONN, .QUERY, .EQUERY] → entry.2.1 = ReadyForQuery.mtype →
      entry.2.2 = .readyForQuery := by
  decide

theorem Reacts.keeps_state {o : Outcome (List ConnCall) ρ Unit} (hreact : Reacts h w head body o)
    (hclose : w.fsm.state ≠ .CLOSE) (hgrants : ¬ GrantsAccess w.fsm.state head body)
    (hready : ¬ (w.fsm.state ∈ [State.CONN, .QUERY, .EQUERY] ∧
      head.mtype = ReadyForQuery.mtype)) :
    o.world.fsm.state = w.fsm.state := by
  cases hreact with
  | goOn results es hes _ => rfl
  | authOk hstate hmsg => exact absurd ⟨hstate, hmsg⟩ hgrants
  | md5 hstate hmsg msg _ => rfl
  | report ec _ => rfl
  | authError _ _ ec => rfl
  | ready hstate hmsg ec => exact absurd ⟨hstate, hmsg⟩ hready
  | ended hstate ec => exact absurd hstate hclose
  | aborted e results es hes => rfl

theorem action_hears (ext : Externals ρ) {action : Action} (hh : w.fsm.ehandler = some h)
    (hclose : w.fsm.state ≠ .CLOSE)
    (hentry : (w.fsm.state, head.mtype, action) ∈ tableEntries)
    (hpass : (Message.check action.mtype head body).isError = false) :
    (action.run ext AsyncConnection.con head body w).world.fsm.state =
      w.fsm.state.hears head body := by
  obtain ⟨hauth, _, hready, _, hgrants⟩ := tableEntries_spec _ hentry
  by_cases hdone : action = .readyForQuery
  · subst hdone
    obtain ⟨hstate, htype⟩ := hready rfl
    exact readyForQuery_hears hh hstate htype hpass
  by_cases hcode : action = .authenticate
  · subst hcode
    obtain ⟨hstate, htype⟩ := hauth rfl
    exact authenticate_hears ext hstate htype hpass
  -- Every other entry leaves the state as it is.
  have hno : ¬ GrantsAccess w.fsm.state head body := by
    rintro ⟨hstate, htype, _⟩
    exact hcode (hgrants hstate htype)
  have hnot : ¬ (w.fsm.state ∈ [State.CONN, .QUERY, .EQUERY] ∧
      head.mtype = ReadyForQuery.mtype) := by
    rintro ⟨hstate, htype⟩
    exact hdone (tableEntries_ready _ hentry hstate htype)
  rw [hears_of_not_granted hno hnot]
  exact (Reacts.action hh hentry).keeps_state hclose hno hnot

theorem next_hears (ext : Externals ρ) (hh : w.fsm.ehandler = some h)
    (hclose : w.fsm.state ≠ .CLOSE)
    (hpass : ∀ action, (w.fsm.state, head.mtype, action) ∈ tableEntries →
      (Message.check action.mtype head body).isError = false) :
    (FSM.next ext AsyncConnection.con head.mtype head body w).world.fsm.state =
      w.fsm.state.hears head body := by
  cases hrow : tableRow w.fsm.state with
  | none =>
      have hkept : w.fsm.state.hears head body = w.fsm.state := by
        cases hstate : w.fsm.state with
        | IDLE => simp [State.hears]
        | END => simp [State.hears]
        | _ =>
            rw [hstate] at hrow
            cases hrow
      rw [hkept]
      unfold FSM.next
      simp [Act.bind_apply, hrow]
  | some transition =>
      cases hfind : transition.find head.mtype with
      | some action =>
          have hentry := mem_tableEntries hrow hfind
          rw [next_listed _ _ hrow hfind rfl]
          exact action_hears ext hh hclose hentry (hpass action hentry)
      | none =>
          rw [next_unlisted _ _ hrow hfind]
          refine (hears_of_not_granted ?_ ?_).symm
          · rintro ⟨hstate, htype, _⟩
            rw [hstate] at hrow
            cases hrow
            rw [htype] at hfind
            cases hfind
          · rintro ⟨hstate, htype⟩
            rw [htype] at hfind
            simp only [List.mem_cons, List.not_mem_nil, or_false] at hstate
            rcases hstate with hstate | hstate | hstate <;> rw [hstate] at hrow <;> cases hrow <;>
              cases hfind

/-- What follows the dispatch of a message says nothing more about the state. -/
theorem Reacts.leads {o : Outcome (List ConnCall) ρ Unit} (hreact : Reacts h w head body o) :
    Leads o.world.fsm.state o.settle.2 o.world.fsm.state := by
  cases hreact with
  | goOn results es hes _ =>
      have hend : Leads w.fsm.state [] w.fsm.state := rfl
      simpa using hes.leads hend
  | authOk _ _ => rfl
  | md5 _ _ msg hpassword =>
      obtain ⟨text, rfl⟩ := hpassword
      exact ⟨trivial, rfl⟩
  | report ec _ => exact ⟨rfl, rfl⟩
  | authError hstate _ ec => exact ⟨hstate.symm, rfl⟩
  | ready _ _ ec => exact ⟨rfl, rfl⟩
  | ended _ ec => exact ⟨rfl, rfl⟩
  | aborted e results es hes => exact hes.leads ⟨trivial, rfl⟩

end Messages

/-! One step. -/

theorem tells_other {msg : Message} (hmsg : msg.isRequest = false ∧ msg.isTerminate = false) :
    state.tells msg = state := by
  obtain ⟨hrequest, hterminate⟩ := hmsg
  cases msg with
  | query q => cases hrequest
  | parse name q oids => cases hrequest
  | bind name portal values => cases hrequest
  | terminate => cases hterminate
  | _ => rfl

theorem Resumes.leads (hres : Resumes h w r call w' es)
    (hheard : ∀ len head, call = .read len (.body head) → r.ec.isError = false →
      w'.fsm.state = w.fsm.state.hears head r.data) :
    Leads w.fsm.state es w'.fsm.state := by
  cases hres with
  | reported _ ec _ => exact ⟨rfl, rfl⟩
  | lost _ e => exact ⟨trivial, rfl⟩
  | wrote _ msg wh _ _ hmsg _ _ => exact ⟨trivial, tells_other hmsg⟩
  | reading msg wh _ => rfl
  | header len head _ _ _ _ => rfl
  | closed msg ec => exact ⟨trivial, rfl, rfl⟩
  | dispatched len head hok o hreact =>
      have hstate := hheard len head rfl hok
      refine ⟨rfl, ?_⟩
      change Leads (w.fsm.state.hears head r.data) o.settle.2 o.settle.1.fsm.state
      rw [← hstate, settle_world]
      rcases hreact with ⟨_, rfl⟩ | ⟨_, hreact⟩
      · exact ⟨trivial, rfl⟩
      · exact hreact.leads

/-- The message of an accepted request is the one its state stands for. -/
theorem accept_leads (c : Call) (hc : c.isRequest = true) (hstate : w.fsm.state = .IDLE) :
    Leads w.fsm.state (c.run AsyncConnection.con w).settle.2
      (c.run AsyncConnection.con w).settle.1.fsm.state := by
  cases c with
  | connect option eh => cases hc
  | close eh => cases hc
  | exec q res eh => simp [Call.run, FSM.exec, Act.bind_apply, hstate, Leads, Event.SeenIn,
      State.follows, State.tells]
  | execQuery q res eh => simp [Call.run, FSM.execQuery, Act.bind_apply, hstate, Leads,
      Event.SeenIn, State.follows, State.tells]
  | parse q eh => simp [Call.run, FSM.parse, Act.bind_apply, hstate, Leads, Event.SeenIn,
      State.follows, State.tells]

theorem ResultEvents.no_write {fsm : FSM} (hes : ResultEvents fsm es) (msg : Message) :
    Event.write msg ∉ es := by
  intro hmem
  obtain ⟨id, call, _, hevent⟩ := hes _ hmem
  cases hevent

/-- A completion neither closes the state machine nor opens it again. -/
theorem Resumes.stays (hres : Resumes h w r call w' es) (hclose : w.fsm.state ≠ .CLOSE) :
    w'.fsm.state ≠ .CLOSE ∧ (w'.fsm.state = .END ↔ w.fsm.state = .END) ∧
      Event.write .terminate ∉ es := by
  cases hres with
  | reported _ ec _ => simp [hclose]
  | lost _ e => simp [hclose]
  | wrote _ msg wh _ _ hmsg _ _ =>
      refine ⟨hclose, Iff.rfl, ?_⟩
      intro hmem
      cases List.mem_singleton.mp hmem
      cases hmsg.2
  | reading msg wh _ => simp [hclose]
  | header len head _ _ _ _ => simp [hclose]
  | closed msg ec => simp [hclose]
  | dispatched len head hok o hreact =>
      rcases hreact with ⟨_, rfl⟩ | ⟨_, hreact⟩
      · simp [hclose]
      cases hreact with
      | goOn results es hes _ => simp [hclose, hes.no_write]
      | authOk hstate _ => simp [hstate]
      | md5 _ _ msg hpassword =>
          obtain ⟨text, rfl⟩ := hpassword
          simp [hclose]
      | report ec _ => simp [hclose]
      | authError _ _ ec => simp [hclose]
      | ready hstate _ ec =>
          have hopen : w.fsm.state ≠ .END := by
            intro hend
            rw [hend] at hstate
            simp at hstate
          simp [hopen]
      | ended hstate ec => exact absurd hstate hclose
      | aborted e results es hes => simp [hclose, hes.no_write]

/-! A whole run. -/

structure Lived (w : World (List ConnCall) ρ) (events : List Event) : Prop where
  leads : Leads .AUTH events w.fsm.state
  close : w.fsm.state ≠ .CLOSE
  ended : Event.write .terminate ∈ events ↔ w.fsm.state = .END

theorem Lived.init (results : ResultId → ρ) : Lived (World.init results) [] :=
  ⟨rfl, by simp [World.init, FSM.init], by simp [World.init, FSM.init]⟩

theorem Lived.step {label : Label} (hlived : Lived w events) (hsound : Sound w)
    (hstep : (AsyncConnection.machine ext).step w label = some (w', es)) :
    Lived w' (events ++ es) := by
  obtain ⟨hleads, hclose, hended⟩ := hlived
  cases step_cases hsound hstep with
  | connect option h =>
      rw [List.append_nil]
      exact ⟨hleads, hclose, hended⟩
  | reject c _ _ =>
      exact ⟨hleads.append ⟨rfl, rfl⟩, hclose, by simpa using hended⟩
  | accept c hc hstate fsm _ hnext msg wh hmsg _ _ =>
      have hsettle := Option.some.inj hstep
      have hfirst := accept_leads (w := w) c hc hstate
      rw [hsettle] at hfirst
      have hopen : Event.write .terminate ∉ events := by
        intro hmem
        rw [hended.mp hmem] at hstate
        cases hstate
      refine ⟨hleads.append hfirst, ?_, ?_⟩
      · rcases hnext with hnext | hnext <;> simp [hnext]
      · rcases hnext with hnext | hnext <;> cases msg <;> simp_all [Message.isRequest]
  | close h => exact ⟨hleads.append ⟨trivial, rfl⟩, by simp, by simp⟩
  | complete i r call hcall hadmits h hh hres =>
      obtain ⟨hkept, hend, hquiet⟩ := hres.stays hclose
      refine ⟨hleads.append (hres.leads ?_), hkept, ?_⟩
      · rintro len head rfl hok
        have hsettle : (ConnCall.resume ext AsyncConnection.con r (.read len (.body head))
            { w with net := w.net.eraseIdx i }).settle = (w', es) := by
          simpa [AsyncConnection.machine, hcall, hadmits] using hstep
        have hpass : ∀ action, (w.fsm.state, head.mtype, action) ∈ tableEntries →
            (Message.check action.mtype head r.data).isError = false :=
          fun action hentry => check_passes
            (hsound.plain _ (List.mem_of_getElem? hcall)) hadmits hok hentry
        have hnext := next_hears (w := { w with net := w.net.eraseIdx i }) ext hh hclose hpass
        rw [← hnext, ← settle_world]
        simp only [ConnCall.resume, RHandler.run, hok, Bool.false_eq_true, if_false] at hsettle
        rw [hsettle]
      · rw [hend, List.mem_append, hended]
        simp [hquiet]

/-- In every run, whatever the user and the server do and in whatever order I/O
completes, the state is read off the messages dispatched and written so far: so
do a message when it is dispatched and a handler when it is called find it. It is
never `CLOSE`, and it is `END` from the first `close` on. -/
theorem state_follows_wire (ext : Externals ρ) (results : ResultId → ρ) (labels : List Label)
    (t : World (List ConnCall) ρ) (events : List Event)
    (hrun : (AsyncConnection.machine ext).Run (fun _ _ => True) (World.init results) labels t
      events) :
    t.fsm.state = events.foldl State.follows .AUTH ∧
      (∀ before e after, events = before ++ e :: after →
        e.SeenIn (before.foldl State.follows .AUTH)) ∧
      t.fsm.state ≠ .CLOSE ∧ (t.fsm.state = .END ↔ Event.write .terminate ∈ events) := by
  have hinv : Sound t ∧ Lived t events := by
    refine hrun.invariant (fun _ w events => Sound w ∧ Lived w events)
      ⟨Sound.init results, Lived.init results⟩ ?_
    rintro labels w w' events es label ⟨hsound, hlived⟩ _ hstep
    exact ⟨hsound.step (step_cases hsound hstep), hlived.step hsound hstep⟩
  obtain ⟨_, hlived⟩ := hinv
  refine ⟨hlived.leads.foldl, ?_, hlived.close, hlived.ended.symm⟩
  rintro before e after rfl
  exact hlived.leads.seen

/-- A statement whose reply is cut by a `close`: the `ReadyForQuery` that comes
all the same is thrown away. -/
def overtaken : List Label :=
  logOn .empty 0 ++
    [.call (.exec (ascii "select 1") none 1), .complete 0 (.sent (.query (ascii "select 1"))),
      .call (.close 2), .complete 0 (.delivered [90, 0, 0, 0, 5]),
      .complete 1 (.delivered [73])]

theorem state_follows_wire_overtaken :
    ∃ t events, (AsyncConnection.machine (Externals.standard fun _ => [])).Run (fun _ _ => True)
        (World.init fun _ => []) overtaken t events ∧
      t.fsm.state = .END ∧ events.foldl State.follows .AUTH = .END := by
  have hexec : ∃ t events, (AsyncConnection.machine (Externals.standard fun _ => [])).exec
        (World.init fun _ => []) overtaken = some (t, events) ∧ t.fsm.state = .END :=
    ⟨_, _, rfl, rfl⟩
  obtain ⟨t, events, hexec, hend⟩ := hexec
  have hrun := Machine.run_of_exec hexec
  obtain ⟨hstate, _⟩ := state_follows_wire _ _ _ _ _ hrun
  exact ⟨t, events, hrun, hend, hstate.symm.trans hend⟩

end Lapq
