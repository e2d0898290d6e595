import Lapq.Steps.Machine

/-!
Requests are accepted only when the server is ready for one, and a refused
request leaves no trace but its own answer.
-/

namespace Lapq

variable {ρ : Type} {ext : Externals ρ} {w w' : World (List ConnCall) ρ}

def Event.isRequest : Event → Bool
  | .write msg => msg.isRequest
  | _ => false

/-- An authentication message with code 0 was dispatched in `AUTH`. -/
def Authenticated (events : List Event) : Prop :=
  ∃ head body, Event.dispatch .AUTH head body ∈ events ∧ IsAuthentication 0 head body

/-- After the authentication a `ReadyForQuery` was dispatched, and no request
was written since. -/
def Granted (events : List Event) : Prop :=
  ∃ before state head body after,
    events = before ++ .dispatch state head body :: after ∧
    Authenticated before ∧ head.mtype = ReadyForQuery.mtype ∧
    ∀ e ∈ after, e.isRequest = false

theorem Authenticated.append {events : List Event} (h : Authenticated events)
    (es : List Event) : Authenticated (events ++ es) := by
  obtain ⟨head, body, hmem, hmsg⟩ := h
  exact ⟨head, body, List.mem_append_left es hmem, hmsg⟩

theorem Granted.authenticated {events : List Event} (h : Granted events) :
    Authenticated events := by
  obtain ⟨before, state, head, body, after, rfl, hauth, _, _⟩ := h
  exact hauth.append _

theorem Granted.append {events es : List Event} (h : Granted events)
    (hes : ∀ e ∈ es, e.isRequest = false) : Granted (events ++ es) := by
  obtain ⟨before, state, head, body, after, rfl, hauth, htype, hafter⟩ := h
  refine ⟨before, state, head, body, after ++ es, by simp, hauth, htype, ?_⟩
  intro e he
  rcases List.mem_append.mp he with hold | hnew
  · exact hafter e hold
  · exact hes e hnew

theorem ResultEvents.not_request {fsm : FSM} {es : List Event} (hes : ResultEvents fsm es)
    (e : Event) (he : e ∈ es) : e.isRequest = false := by
  obtain ⟨id, call, _, rfl⟩ := hes e he
  rfl

/-- Every request message was written at a moment when one was granted. -/
def WritesGranted (events : List Event) : Prop :=
  ∀ before msg after, events = before ++ .write msg :: after → msg.isRequest = true →
    Granted before

theorem WritesGranted.append {events es : List Event} (h : WritesGranted events)
    (hes : ∀ e ∈ es, e.isRequest = false) : WritesGranted (events ++ es) := by
  intro before msg after hsplit hmsg
  rcases List.append_eq_append_iff.mp hsplit with ⟨mid, _, hnew⟩ | ⟨mid, hold, hnew⟩
  · have hmem : Event.write msg ∈ es := by
      rw [hnew]
      simp
    have hfalse := hes _ hmem
    rw [show (Event.write msg).isRequest = msg.isRequest from rfl, hmsg] at hfalse
    cases hfalse
  · cases mid with
    | nil =>
        have hmem : Event.write msg ∈ es := by
          rw [← List.nil_append es, ← hnew]
          simp
        have hfalse := hes _ hmem
        rw [show (Event.write msg).isRequest = msg.isRequest from rfl, hmsg] at hfalse
        cases hfalse
    | cons e mid =>
        cases hnew
        exact h before msg mid hold hmsg

theorem WritesGranted.request {events : List Event} (h : WritesGranted events)
    (hgranted : Granted events) (msg : Message) : WritesGranted (events ++ [.write msg]) := by
  intro before msg' after hsplit hmsg
  rcases List.eq_nil_or_concat after with rfl | ⟨init, last, rfl⟩
  · obtain ⟨rfl, _⟩ := List.append_inj' hsplit rfl
    exact hgranted
  · have hsplit' : events ++ [.write msg] = (before ++ .write msg' :: init) ++ [last] := by
      simpa using hsplit
    obtain ⟨rfl, _⟩ := List.append_inj' hsplit' rfl
    exact h before msg' init rfl hmsg

/-- The history that the current state speaks of. -/
structure History (labels : List Label) (w : World (List ConnCall) ρ)
    (events : List Event) : Prop where
  authenticated : w.fsm.state ∈ [State.CONN, .QUERY, .EQUERY] → Authenticated events
  granted : w.fsm.state = .IDLE → Granted events
  closed : ∀ h, Label.call (.close h) ∈ labels → w.fsm.state = .END
  written : WritesGranted events

theorem History.keep {labels : List Label} {label : Label} {events es : List Event}
    (hist : History labels w events) (hstate : w'.fsm.state = w.fsm.state)
    (hes : ∀ e ∈ es, e.isRequest = false)
    (hlabel : ∀ h, label ≠ .call (.close h)) :
    History (labels ++ [label]) w' (events ++ es) := by
  refine ⟨?_, ?_, ?_, hist.written.append hes⟩
  · intro h
    rw [hstate] at h
    exact (hist.authenticated h).append es
  · intro h
    rw [hstate] at h
    exact (hist.granted h).append hes
  · intro h hmem
    rw [hstate]
    rcases List.mem_append.mp hmem with hold | hnew
    · exact hist.closed h hold
    · exact absurd (List.mem_singleton.mp hnew).symm (hlabel h)

/-- A completion keeps the history: only a `ReadyForQuery` leads to `IDLE`, and
only an `AuthenticationOk` out of `AUTH`. -/
theorem History.resumes {labels : List Label} {i : Nat} {r : Completion} {call : ConnCall}
    {h : HandlerId} {events es : List Event} (hist : History labels w events)
    {net : List ConnCall} (hres : Resumes h { w with net := net } r call w' es) :
    History (labels ++ [.complete i r]) w' (events ++ es) := by
  have hlabel (h : HandlerId) : Label.complete i r ≠ .call (.close h) := by
    intro heq
    cases heq
  have hclosed (h' : HandlerId) (hmem : Label.call (.close h') ∈ labels ++ [.complete i r]) :
      w.fsm.state = .END := by
    rcases List.mem_append.mp hmem with hold | hnew
    · exact hist.closed h' hold
    · exact absurd (List.mem_singleton.mp hnew).symm (hlabel h')
  cases hres with
  | reported _ ec _ => exact hist.keep rfl (by simp [Event.isRequest]) hlabel
  | lost _ e => exact hist.keep rfl (by simp [Event.isRequest]) hlabel
  | wrote _ msg wh _ _ hmsg _ _ =>
      exact hist.keep rfl (by simpa [Event.isRequest] using hmsg.1) hlabel
  | reading msg wh _ => exact hist.keep rfl (by simp) hlabel
  | header len head _ _ _ _ => exact hist.keep rfl (by simp) hlabel
  | closed msg ec => exact hist.keep rfl (by simp [Event.isRequest]) hlabel
  | dispatched len head hok o hreact =>
      rcases hreact with ⟨_, rfl⟩ | ⟨_, hreact⟩
      · exact hist.keep rfl (by simp [Event.isRequest]) hlabel
      cases hreact with
      | goOn results es hes =>
          refine hist.keep rfl ?_ hlabel
          intro e he
          rcases List.mem_cons.mp he with rfl | hmem
          · rfl
          · exact hes.not_request e hmem
      | authOk hstate hmsg =>
          refine ⟨?_, ?_, ?_, hist.written.append (by simp [Event.isRequest])⟩
          · intro _
            refine ⟨head, r.data, ?_, hmsg⟩
            simp [show w.fsm.state = .AUTH from hstate]
          · intro hidle
            cases hidle
          · intro h' hmem
            have hend := hclosed h' hmem
            rw [show w.fsm.state = .AUTH from hstate] at hend
            cases hend
      | md5 _ _ msg hpassword =>
          obtain ⟨text, rfl⟩ := hpassword
          exact hist.keep rfl (by simp [Event.isRequest, Message.isRequest]) hlabel
      | report ec _ => exact hist.keep rfl (by simp [Event.isRequest]) hlabel
      | authError _ _ ec => exact hist.keep rfl (by simp [Event.isRequest]) hlabel
      | ready hstate hmsg ec =>
          refine ⟨by simp, ?_, ?_, hist.written.append (by simp [Event.isRequest])⟩
          · intro _
            exact ⟨events, w.fsm.state, head, r.data, [.handler h ec .IDLE], rfl,
              hist.authenticated hstate, hmsg, by simp [Event.isRequest]⟩
          · intro h' hmem
            have hend := hclosed h' hmem
            rw [show w.fsm.state = .END from hend] at hstate
            simp at hstate
      | ended _ ec =>
          exact ⟨by simp, by simp, fun _ _ => rfl,
            hist.written.append (by simp [Event.isRequest])⟩
      | aborted e results es hes =>
          refine hist.keep rfl ?_ hlabel
          intro event he
          simp only [settle_error, List.mem_cons, List.mem_append, List.not_mem_nil,
            or_false] at he
          rcases he with rfl | hmem | rfl
          · rfl
          · exact hes.not_request event hmem
          · rfl

theorem History.step {labels : List Label} {label : Label} {events es : List Event}
    (hist : History labels w events) (hcase : StepCase w label w' es) :
    History (labels ++ [label]) w' (events ++ es) := by
  cases hcase with
  | connect option h => exact hist.keep rfl (by simp) (by simp)
  | reject c hc _ =>
      apply hist.keep rfl (by simp [Event.isRequest])
      rintro h heq
      cases heq
      cases hc
  | accept c hc hstate fsm _ hnext msg wh _ _ _ =>
      refine ⟨?_, ?_, ?_, hist.written.request (hist.granted hstate) msg⟩
      · intro _
        exact (hist.granted hstate).authenticated.append _
      · intro hidle
        rcases hnext with h | h <;> rw [show fsm.state = .IDLE from hidle] at h <;> cases h
      · intro h hmem
        rcases List.mem_append.mp hmem with hold | hnew
        · have hend := hist.closed h hold
          rw [hstate] at hend
          cases hend
        · cases List.mem_singleton.mp hnew
          cases hc
  | close h =>
      exact ⟨by simp, by simp, fun _ _ => rfl,
        hist.written.append (by simp [Event.isRequest, Message.isRequest])⟩
  | complete i r call _ _ h _ hres => exact hist.resumes hres

theorem history_of_run {results : ResultId → ρ} {labels : List Label}
    {t : World (List ConnCall) ρ} {events : List Event}
    (hrun : (AsyncConnection.machine ext).Run (fun _ _ => True) (World.init results) labels t
      events) : History labels t events := by
  refine (run_invariant History ?_ ?_ hrun).2
  · exact ⟨by simp [World.init, FSM.init], by simp [World.init, FSM.init], by simp,
      by simp [WritesGranted]⟩
  · intro labels w w' label events es _ hist _ hcase
    exact hist.step hcase

/-- A request made while the machine is busy. -/
def Label.rejected (w : World (List ConnCall) ρ) : Label → Bool
  | .call c => c.isRequest && w.fsm.state != .IDLE
  | .complete .. => false

/-- A step of a run, whether it was a rejected request, and what it emitted. -/
structure Entry where
  label : Label
  rejected : Bool
  events : List Event

/-- The steps of a run, up to the first label that is not enabled. -/
def steps (ext : Externals ρ) : World (List ConnCall) ρ → List Label → List Entry
  | _, [] => []
  | w, label :: rest =>
      match (AsyncConnection.machine ext).step w label with
      | none => []
      | some (w', es) => ⟨label, label.rejected w, es⟩ :: steps ext w' rest

/-- The labels of a run without its rejected requests. -/
def withoutRejected (ext : Externals ρ) (w : World (List ConnCall) ρ)
    (labels : List Label) : List Label :=
  ((steps ext w labels).filter fun entry => !entry.rejected).map Entry.label

/-- A rejected request answers with `busy` and changes nothing. -/
theorem rejected_step (ext : Externals ρ) {label : Label} (hrej : label.rejected w = true) :
    ∃ c, label = .call c ∧ c.isRequest = true ∧
      (AsyncConnection.machine ext).step w label =
        some (w, [.handler c.handler (makeErrorCode .busy) w.fsm.state]) := by
  cases label with
  | complete i r => cases hrej
  | call c =>
      simp only [Label.rejected, Bool.and_eq_true, bne_iff_ne] at hrej
      obtain ⟨hc, hstate⟩ := hrej
      refine ⟨c, rfl, hc, ?_⟩
      simp [AsyncConnection.machine, reject_run AsyncConnection.con c hc hstate]

theorem steps_cons {label : Label} (rest : List Label) {u : World (List ConnCall) ρ}
    {emitted : List Event}
    (hstep : (AsyncConnection.machine ext).step w label = some (u, emitted)) :
    steps ext w (label :: rest) =
      ⟨label, label.rejected w, emitted⟩ :: steps ext u rest := by
  simp [steps, hstep]

/-- Deleting the rejected requests of a run leaves its other steps as they
were, and the same final world. The induction is on the labels: a deleted step
does not change the world the rest of the run starts in. -/
theorem run_withoutRejected {labels : List Label} {w t : World (List ConnCall) ρ}
    {events : List Event}
    (hexec : (AsyncConnection.machine ext).exec w labels = some (t, events)) :
    let kept := (steps ext w labels).filter fun entry => !entry.rejected
    events = (steps ext w labels).flatMap Entry.events ∧
      steps ext w (withoutRejected ext w labels) = kept ∧
      (AsyncConnection.machine ext).exec w (withoutRejected ext w labels) =
        some (t, kept.flatMap Entry.events) := by
  induction labels generalizing w events with
  | nil =>
      cases hexec
      exact ⟨rfl, rfl, rfl⟩
  | cons label rest ih =>
      simp only [Machine.exec, bind, Option.bind] at hexec
      split at hexec
      · cases hexec
      rename_i first hfirst
      obtain ⟨u, emitted⟩ := first
      simp only at hexec
      split at hexec
      · cases hexec
      rename_i last hlast
      obtain ⟨v, later⟩ := last
      cases hexec
      obtain ⟨hevents, hsteps, hrest⟩ := ih hlast
      have hunfold := steps_cons rest hfirst
      cases hrej : label.rejected w with
      | true =>
          obtain ⟨c, _, _, hquiet⟩ := rejected_step ext hrej
          have hsame : u = w := by
            rw [hquiet] at hfirst
            cases hfirst
            rfl
          subst hsame
          have hdrop : withoutRejected ext u (label :: rest) = withoutRejected ext u rest := by
            simp [withoutRejected, hunfold, hrej]
          simp only [hunfold, hrej, hdrop, List.filter_cons, Bool.not_true,
            Bool.false_eq_true, if_false, List.flatMap_cons]
          exact ⟨congrArg (emitted ++ ·) hevents, hsteps, hrest⟩
      | false =>
          have hkeep : withoutRejected ext w (label :: rest) =
              label :: withoutRejected ext u rest := by
            simp [withoutRejected, hunfold, hrej]
          simp only [hunfold, hrej, hkeep, List.filter_cons, Bool.not_false, if_true,
            List.flatMap_cons]
          refine ⟨congrArg (emitted ++ ·) hevents, ?_, ?_⟩
          · rw [steps_cons _ hfirst, hrej, hsteps]
          · simp [Machine.exec, hfirst, hrest]

/-- An accepted request writes its first message. -/
def Call.accepted (w : World (List ConnCall) ρ) (c : Call) : Prop :=
  ∃ msg, msg.isRequest = true ∧ (c.run AsyncConnection.con w).events = [.write msg]

/-- In every run, a request is accepted, and its first message written, only
after an `AuthenticationOk`, a `ReadyForQuery` after it and after the last
accepted request, and no `close`; every other request is answered with `busy` in
place and changes nothing, and the run without its rejected requests is the same
run without their answers. -/
theorem requests_gated (ext : Externals ρ) (results : ResultId → ρ) (labels : List Label)
    (t : World (List ConnCall) ρ) (events : List Event)
    (hexec : (AsyncConnection.machine ext).exec (World.init results) labels =
      some (t, events)) :
    (∀ c : Call, c.isRequest = true →
      (c.accepted t ∧ Granted events ∧ ∀ h, Label.call (.close h) ∉ labels) ∨
      (¬ c.accepted t ∧ c.run AsyncConnection.con t =
        ⟨.ok (), t, [.handler c.handler (makeErrorCode .busy) t.fsm.state]⟩)) ∧
    WritesGranted events ∧
    (let run := steps ext (World.init results) labels
     let kept := run.filter fun entry => !entry.rejected
     let labels' := withoutRejected ext (World.init results) labels
     events = run.flatMap Entry.events ∧
     steps ext (World.init results) labels' = kept ∧
     (AsyncConnection.machine ext).exec (World.init results) labels' =
       some (t, kept.flatMap Entry.events)) := by
  have hist := history_of_run (Machine.run_of_exec hexec)
  refine ⟨?_, hist.written, run_withoutRejected hexec⟩
  intro c hc
  by_cases hstate : t.fsm.state = .IDLE
  · refine Or.inl ⟨?_, hist.granted hstate, ?_⟩
    · obtain ⟨fsm, msg, wh, hrun, _, _, hmsg, _, _⟩ := accept_run c hc hstate
      exact ⟨msg, hmsg, by rw [hrun]⟩
    · intro h hmem
      have hend := hist.closed h hmem
      rw [hstate] at hend
      cases hend
  · have hbusy := reject_run AsyncConnection.con c hc hstate
    refine Or.inr ⟨?_, hbusy⟩
    rintro ⟨msg, _, hwrite⟩
    rw [hbusy] at hwrite
    cases hwrite

end Lapq
