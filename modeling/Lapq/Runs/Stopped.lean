import Lapq.Runs.Exclusive
import Lapq.Runs.Gating
import Lapq.Runs.Implements

/-!
A connection that has failed. The state machine goes back to `IDLE` at the regular
end of an operation only, so after a failure it is left in the state of the
operation with nothing outstanding. It takes no request any more, and has nothing
left to say but the farewell.
-/

namespace Lapq

variable {ρ : Type} {ext : Externals ρ} {w w' : World (List ConnCall) ρ} {h : HandlerId}
  {r : Completion} {call : ConnCall} {es : List Event}

/-- Nothing is outstanding but the farewell, and no operation can start. -/
structure Dead (w : World (List ConnCall) ρ) : Prop where
  live : w.live = 0
  state : w.fsm.state ≠ .IDLE

/-- A label that is no new attempt to connect. -/
def Label.Resigned : Label → Prop
  | .call (.connect ..) => False
  | _ => True

/-- What a dead connection does: it refuses requests, says farewell, and tells of
that. -/
def Farewell : Label → List Event → Prop
  | .call (.close _), es => es = [.write .terminate]
  | .call c, es => ∃ state, state ≠ .IDLE ∧
      es = [.handler c.handler (makeErrorCode .busy) state]
  | .complete .., es => ∃ h ec state, state ≠ .IDLE ∧ es = [.closed, .handler h ec state]

theorem Dead.terminates (hdead : Dead w) (hmem : call ∈ w.net) : call.isTerminate = true := by
  have hnone := List.countP_eq_zero.mp hdead.live call hmem
  simpa [ConnCall.isLive] using hnone

/-- One step of a dead connection. -/
theorem Dead.step {label : Label} (hdead : Dead w) (hlabel : label.Resigned)
    (hcase : StepCase w label w' es) :
    Dead w' ∧ w'.results = w.results ∧ Farewell label es := by
  cases hcase with
  | connect option h => exact hlabel.elim
  | reject c hc hstate =>
      refine ⟨hdead, rfl, ?_⟩
      cases c with
      | connect option eh => cases hc
      | close eh => cases hc
      | exec q res eh => exact ⟨_, hstate, rfl⟩
      | execQuery q res eh => exact ⟨_, hstate, rfl⟩
      | parse q eh => exact ⟨_, hstate, rfl⟩
  | accept c _ hstate _ _ _ _ _ _ _ _ => exact absurd hstate hdead.state
  | close h =>
      have hlive := World.live_push w { w.fsm with state := .END, ehandler := some h }
        (.write .terminate .terminateWritten)
      rw [hdead.live] at hlive
      exact ⟨⟨hlive, by simp⟩, rfl, rfl⟩
  | complete i r call hcall _ h _ hres =>
      have hterm := hdead.terminates (List.mem_of_getElem? hcall)
      obtain ⟨rfl, ec, rfl⟩ := hres.terminated hterm
      have herase := World.live_erase hcall
      simp only [ConnCall.isLive, hterm, Bool.not_true, Bool.false_eq_true, if_false,
        Nat.add_zero] at herase
      exact ⟨⟨herase.symm.trans hdead.live, hdead.state⟩, rfl, h, ec, _, hdead.state, rfl⟩

/-- A dead connection stays so. -/
theorem Dead.run {labels : List Label} {t : World (List ConnCall) ρ} {events : List Event}
    (hsound : Sound w) (hdead : Dead w) (hlabels : ∀ label ∈ labels, label.Resigned)
    (hexec : (AsyncConnection.machine ext).exec w labels = some (t, events)) :
    Dead t ∧ t.results = w.results ∧
      ∀ entry ∈ steps ext w labels, Farewell entry.label entry.events := by
  induction labels generalizing w events with
  | nil =>
      cases hexec
      exact ⟨hdead, rfl, by simp [steps]⟩
  | cons label labels ih =>
      obtain ⟨u, emitted, later, hfirst, hlast, rfl⟩ := Machine.exec_cons_inv hexec
      have hcase := step_cases hsound hfirst
      obtain ⟨hnext, hresults, hfarewell⟩ :=
        hdead.step (hlabels label List.mem_cons_self) hcase
      obtain ⟨hend, hkept, hrest⟩ := ih (hsound.step hcase) hnext
        (fun l hl => hlabels l (List.mem_cons_of_mem _ hl)) hlast
      refine ⟨hend, hkept.trans hresults, ?_⟩
      rw [steps_cons labels hfirst]
      intro entry hentry
      rcases List.mem_cons.mp hentry with rfl | hmem
      · exact hfarewell
      · exact hrest entry hmem

/-! Failures. -/

/-- A call that fails ends its operation with the handler or with an exception,
and starts no other. -/
theorem resume_reported (ext : Externals ρ) (hh : w.fsm.ehandler = some h) (hplain : call.Plain)
    (hlive : call.isLive = true) (hfail : (call.reported r).ec.isError = true) :
    ∃ value es, call.resume ext AsyncConnection.con r w = ⟨value, w, es⟩ ∧
      (value = .ok () ∧ es = [.handler h (call.reported r).ec w.fsm.state] ∨
        value = .error .badFunctionCall ∧ es = []) := by
  have htold (ec : ErrorCode) : ∃ value es,
      (Act.callHandler ec : Act (List ConnCall) ρ Unit) w = ⟨value, w, es⟩ ∧
      (value = .ok () ∧ es = [.handler h ec w.fsm.state] ∨
        value = .error .badFunctionCall ∧ es = []) :=
    ⟨_, _, Act.callHandler_of_some hh ec, Or.inl ⟨rfl, rfl⟩⟩
  cases call with
  | connect eh =>
      have herror : r.ec.isError = true := hfail
      rw [ConnCall.resume, EHandler.run_fails AsyncConnection.con eh herror]
      cases eh with
      | connected option => exact htold r.ec
      | sslConnected option ehandler => exact hplain.elim
      | handshaken option ehandler => exact hplain.elim
  | read len rh =>
      have herror : r.ec.isError = true := hfail
      rw [ConnCall.resume, RHandler.run_fails AsyncConnection.con ext rh r.data herror]
      exact htold r.ec
  | write msg wh =>
      have herror : (r.written msg).isError = true := hfail
      rw [ConnCall.resume]
      cases wh with
      | startUpWritten | queryWritten | passwordWritten =>
          rw [WHandler.run, FSM.receiveUnless_fails AsyncConnection.con herror]
          exact htold (r.written msg)
      | terminateWritten => cases hlive
      | sslStartUpWritten eh => exact hplain.elim
      | syncWritten eh | parseSyncWritten eh | bindWritten eh | describeWritten eh
      | executeWritten eh | parseWritten eh =>
          -- The callback captured the handler after it was moved from.
          subst hplain
          rw [WHandler.run, WHandler.andThen_fails none _ herror]
          exact ⟨_, _, rfl, Or.inr ⟨rfl, rfl⟩⟩

theorem chain_run {results : ResultId → ρ} {labels : List Label} {t : World (List ConnCall) ρ}
    {events : List Event}
    (hrun : (AsyncConnection.machine ext).Run OneChain (World.init results) labels t events) :
    Sound t ∧ ChainInv t events := by
  refine run_invariant (fun _ w events => ChainInv w events) ?_ ?_ hrun
  · exact ⟨by simp [World.live, World.init], by simp [World.live, World.init],
      by simp [DispatchTotal, dispatchStates]⟩
  · intro labels w w' label events es _ hinv hcond hcase
    exact hinv.step hcond hcase

/-- A failure of the only operation leaves a dead connection. -/
theorem failure_dead {events : List Event} (hsound : Sound w) (hinv : ChainInv w events) {i : Nat}
    (hcall : w.net[i]? = some call) (hlive : call.isLive = true)
    (hfail : (call.reported r).ec.isError = true)
    (hstep : (AsyncConnection.machine ext).step w (.complete i r) = some (w', es)) :
    Dead w' ∧ w'.results = w.results ∧ ∃ h, w.fsm.ehandler = some h ∧
      (es = [.handler h (call.reported r).ec w.fsm.state] ∨ es = [.abort .badFunctionCall]) := by
  have hmem := List.mem_of_getElem? hcall
  obtain ⟨h, hh⟩ := hsound.handler (List.ne_nil_of_mem hmem)
  have herase := World.live_erase hcall
  rw [hlive, if_pos rfl] at herase
  have hone := hinv.live
  have hrow := hinv.row (by omega)
  have hdead : Dead ({ w with net := w.net.eraseIdx i } : World (List ConnCall) ρ) := by
    refine ⟨by omega, ?_⟩
    intro hidle
    change w.fsm.state = .IDLE at hidle
    rw [hidle] at hrow
    cases hrow
  obtain ⟨value, emitted, hresume, hends⟩ := resume_reported ext
    (w := { w with net := w.net.eraseIdx i }) hh (hsound.plain call hmem) hlive hfail
  simp only [AsyncConnection.machine, hcall] at hstep
  split at hstep
  · rw [hresume] at hstep
    rcases hends with ⟨rfl, rfl⟩ | ⟨rfl, rfl⟩
    · cases hstep
      exact ⟨hdead, rfl, h, hh, Or.inl rfl⟩
    · cases hstep
      exact ⟨hdead, rfl, h, hh, Or.inr rfl⟩
  · cases hstep

/-- Once a read, a write or the connect of an operation has failed, and until
`connect` is called again, every request is refused as `busy`, a `close` sends its
farewell and nothing else is sent, nothing is read, no result object changes, and
the state machine is never `IDLE`, whatever is called and whatever completes. -/
theorem failure_final (ext : Externals ρ) (results : ResultId → ρ) (before : List Label)
    (w : World (List ConnCall) ρ) (past : List Event)
    (hrun : (AsyncConnection.machine ext).Run OneChain (World.init results) before w past)
    (i : Nat) (r : Completion) (call : ConnCall) (hcall : w.net[i]? = some call)
    (hlive : call.isLive = true) (hfail : (call.reported r).ec.isError = true)
    (u : World (List ConnCall) ρ) (es : List Event)
    (hstep : (AsyncConnection.machine ext).step w (.complete i r) = some (u, es))
    (labels : List Label) (hlabels : ∀ label ∈ labels, label.Resigned)
    (t : World (List ConnCall) ρ) (events : List Event)
    (hexec : (AsyncConnection.machine ext).exec u labels = some (t, events)) :
    (∃ h, w.fsm.ehandler = some h ∧
      (es = [.handler h (call.reported r).ec w.fsm.state] ∨ es = [.abort .badFunctionCall])) ∧
      events = (steps ext u labels).flatMap Entry.events ∧
      (∀ entry ∈ steps ext u labels, Farewell entry.label entry.events) ∧
      t.live = 0 ∧ t.fsm.state ≠ .IDLE ∧ t.results = w.results := by
  obtain ⟨hsound, hinv⟩ := chain_run hrun
  obtain ⟨hdead, hkept, htold⟩ := failure_dead hsound hinv hcall hlive hfail hstep
  have hsound' := hsound.step (step_cases hsound hstep)
  obtain ⟨hend, hresults, hfarewell⟩ := hdead.run hsound' hlabels hexec
  exact ⟨htold, (run_withoutRejected hexec).1, hfarewell, hend.live, hend.state,
    hresults.trans hkept⟩

def brokenPipe : Completion := ⟨⟨32, .system⟩, 0, []⟩

/-- What is tried after the failure of a write. -/
def attempts : List Label :=
  [.call (.exec (ascii "b") none 2), .call (.close 3), .complete 0 (.sent .terminate),
    .call (.exec (ascii "c") none 4)]

theorem failure_final_query :
    ∃ w past u t events,
      (AsyncConnection.machine (Externals.standard fun _ => [])).Run OneChain
        (World.init fun _ => []) (logOn .empty 0 ++ [.call (.exec (ascii "a") none 1)]) w past ∧
      (AsyncConnection.machine (Externals.standard fun _ => [])).step w
        (.complete 0 brokenPipe) = some (u, [.handler 1 ⟨32, .system⟩ .QUERY]) ∧
      (AsyncConnection.machine (Externals.standard fun _ => [])).exec u attempts =
        some (t, events) ∧ events.length = 5 ∧
      (∀ entry ∈ steps (Externals.standard fun _ => []) u attempts,
        Farewell entry.label entry.events) ∧ t.fsm.state ≠ .IDLE := by
  have hexec : ∃ w past, ((AsyncConnection.machine (Externals.standard fun _ => [])).restrict
        OneChain).exec (World.init fun _ => [])
        (logOn .empty 0 ++ [.call (.exec (ascii "a") none 1)]) = some (w, past) ∧
      w.net[0]? = some (.write (.query (ascii "a")) .queryWritten) ∧
      ∃ u, (AsyncConnection.machine (Externals.standard fun _ => [])).step w
        (.complete 0 brokenPipe) = some (u, [.handler 1 ⟨32, .system⟩ .QUERY]) ∧
      ∃ t events, (AsyncConnection.machine (Externals.standard fun _ => [])).exec u attempts =
        some (t, events) ∧ events.length = 5 :=
    ⟨_, _, rfl, rfl, _, rfl, _, _, rfl, rfl⟩
  obtain ⟨w, past, hbefore, hcall, u, hstep, t, events, hafter, hlength⟩ := hexec
  have hrun := Machine.run_of_exec_restrict hbefore
  have hlabels : ∀ label ∈ attempts, label.Resigned := by
    simp [attempts, Label.Resigned]
  obtain ⟨_, _, hfarewell, _, hstate, _⟩ := failure_final _ _ _ w past hrun 0 brokenPipe _ hcall rfl
    rfl u _ hstep attempts hlabels t events hafter
  exact ⟨w, past, u, t, events, hrun, hstep, hafter, hlength, hfarewell, hstate⟩

end Lapq
