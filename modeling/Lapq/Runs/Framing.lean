import Lapq.Runs.Conversation

/-!
What the client hears. The bytes that the reads of a run have brought are the
frames of the messages dispatched, in order, and at most the header of one more:
none is lost, taken twice or cut in another place, also when an operation ends
and the next one starts to read.
-/

namespace Lapq

open Bytes

variable {ρ : Type} {ext : Externals ρ} {w w' : World (List ConnCall) ρ}
  {h : HandlerId} {r : Completion} {call : ConnCall} {events es : List Event}
  {labels : List Label}

def Event.heard? : Event → Option (MessageType × Buffer)
  | .dispatch _ head body => some (head.mtype, body)
  | _ => none

/-- The messages that were dispatched. -/
def heard (events : List Event) : List (MessageType × Buffer) := events.filterMap Event.heard?

theorem heard_append (events more : List Event) :
    heard (events ++ more) = heard events ++ heard more :=
  List.filterMap_append

theorem heard_nil {es : List Event} (hes : ∀ state head body, .dispatch state head body ∉ es) :
    heard es = [] := by
  apply List.filterMap_eq_nil_iff.mpr
  intro e he
  cases e with
  | dispatch state head body => exact absurd he (hes state head body)
  | _ => rfl

theorem heard_dispatch {state : State} {head : Header} {body : Buffer} {es : List Event}
    (hes : ∀ state head body, .dispatch state head body ∉ es) :
    heard (.dispatch state head body :: es) = [(head.mtype, body)] := by
  have hrest := heard_nil hes
  unfold heard at hrest ⊢
  rw [List.filterMap_cons, hrest]
  rfl

/-- What was read is the frames of the messages, and the part of a frame that
belongs to the call outstanding. -/
def Hears (labels : List Label) (w : World (List ConnCall) ρ) (events : List Event) : Prop :=
  ∃ tail, received labels = framed (heard events) ++ tail ∧ tail.length ≤ Header.size ∧
    (∀ c ∈ w.chain, tail = c.ahead) ∧
    (w.fsm.state = .IDLE ∨ w.fsm.ehandler = none → tail = [])

theorem ahead_length (call : ConnCall) : call.ahead.length ≤ Header.size := by
  unfold ConnCall.ahead
  split <;> simp [Header.size, be32_length]

/-- A body that was read is dispatched before anything else is done. -/
theorem step_dispatches {i len : Nat} {head : Header}
    (hcall : w.net[i]? = some (.read len (.body head))) (hok : r.ec.isError = false)
    (hstep : (AsyncConnection.machine ext).step w (.complete i r) = some (w', es)) :
    ∃ rest, es = .dispatch w.fsm.state head r.data :: rest := by
  simp only [AsyncConnection.machine, hcall] at hstep
  split at hstep
  · have hrun : ConnCall.resume ext AsyncConnection.con r (.read len (.body head)) =
        FSM.next ext AsyncConnection.con head.mtype head r.data := by
      simp only [ConnCall.resume, RHandler.run, hok, Bool.false_eq_true, if_false]
    rw [hrun] at hstep
    have hnext : ∃ rest, (FSM.next ext AsyncConnection.con head.mtype head r.data
        { w with net := w.net.eraseIdx i }).events = .dispatch w.fsm.state head r.data :: rest :=
      ⟨_, rfl⟩
    obtain ⟨rest, hrest⟩ := hnext
    generalize FSM.next ext AsyncConnection.con head.mtype head r.data
      { w with net := w.net.eraseIdx i } = o at hstep hrest
    obtain ⟨value, world, es'⟩ := o
    subst hrest
    cases value with
    | ok u =>
        cases hstep
        exact ⟨rest, rfl⟩
    | error e =>
        cases hstep
        exact ⟨rest ++ [.abort e], rfl⟩
  · cases hstep

/-- Without a body in it, what was read is at most a header. -/
theorem short_tail (hadmits : call.Admits r) (hplain : call.Plain)
    (hbody : ∀ len head, call = .read len (.body head) → r.ec.isError = true) :
    (call.ahead ++ r.data).length ≤ Header.size := by
  cases call with
  | connect eh =>
      have hdata : r.data = [] := hadmits
      simp [ConnCall.ahead, hdata]
  | write msg wh =>
      have hdata : r.data = [] := hadmits
      simp [ConnCall.ahead, hdata]
  | read len rh =>
      cases rh with
      | header =>
          have hlen : len = Header.size := hplain
          have hdata : r.data.length = if r.ec.isError then 0 else len := hadmits
          simp only [ConnCall.ahead, List.nil_append, hdata, hlen]
          split <;> omega
      | body head =>
          have hdata : r.data.length = if r.ec.isError then 0 else len := hadmits
          rw [if_pos (hbody len head rfl)] at hdata
          rw [List.eq_nil_of_length_eq_zero hdata, List.append_nil]
          exact ahead_length _

/-- A completed call hands its bytes on to the next call, or dispatches them. -/
theorem Resumes.hears (hres : Resumes h w r call w' es) (hadmits : call.Admits r)
    (hplain : call.Plain) (hempty : w.chain = [])
    (hbody : ∀ len head, call = .read len (.body head) → r.ec.isError = false →
      ∃ rest, es = .dispatch w.fsm.state head r.data :: rest) :
    ∃ tail, call.ahead ++ r.data = framed (heard es) ++ tail ∧ tail.length ≤ Header.size ∧
      (∀ c ∈ w'.chain, tail = c.ahead) ∧ (w'.fsm.state = w.fsm.state ∨ tail = []) := by
  have hpush {net : List ConnCall} {next c : ConnCall} (hnet : net.filter ConnCall.isLive = [])
      (hc : c ∈ (net ++ [next]).filter ConnCall.isLive) : c = next := by
    rw [List.filter_append, hnet, List.nil_append] at hc
    exact List.mem_singleton.mp (List.mem_of_mem_filter hc)
  have hnone {c : ConnCall} (hc : c ∈ w.chain) : False := by
    rw [hempty] at hc
    cases hc
  have hquiet (hes : ∀ state head body, .dispatch state head body ∉ es) :
      (call.ahead ++ r.data).length ≤ Header.size ∧
        call.ahead ++ r.data = framed (heard es) ++ (call.ahead ++ r.data) := by
    constructor
    · apply short_tail hadmits hplain
      intro len head hcall
      by_contra hok
      obtain ⟨rest, hrest⟩ := hbody len head hcall (Bool.eq_false_iff.mpr hok)
      apply hes w.fsm.state head r.data
      rw [hrest]
      exact List.mem_cons_self
    · rw [heard_nil hes]
      rfl
  cases hres with
  | reported _ ec _ =>
      obtain ⟨hlength, hbytes⟩ := hquiet (by simp)
      exact ⟨_, hbytes, hlength, fun c hc => (hnone hc).elim, Or.inl rfl⟩
  | lost _ e =>
      obtain ⟨hlength, hbytes⟩ := hquiet (by simp)
      exact ⟨_, hbytes, hlength, fun c hc => (hnone hc).elim, Or.inl rfl⟩
  | closed msg ec =>
      obtain ⟨hlength, hbytes⟩ := hquiet (by simp)
      exact ⟨_, hbytes, hlength, fun c hc => (hnone hc).elim, Or.inl rfl⟩
  | wrote _ msg wh _ _ _ hfrom _ =>
      obtain ⟨hlength, hbytes⟩ := hquiet (by simp)
      refine ⟨_, hbytes, hlength, ?_, Or.inl rfl⟩
      intro c hc
      rw [hpush hempty hc]
      rcases hfrom with ⟨eh, rfl⟩ | ⟨msg', wh', rfl⟩ <;> exact hadmits
  | reading msg wh _ =>
      obtain ⟨hlength, hbytes⟩ := hquiet (by simp)
      refine ⟨_, hbytes, hlength, ?_, Or.inl rfl⟩
      intro c hc
      rw [hpush hempty hc]
      exact hadmits
  | header len head hok er hhead hlen =>
      obtain ⟨hlength, hbytes⟩ := hquiet (by simp)
      refine ⟨_, hbytes, hlength, ?_, Or.inl rfl⟩
      intro c hc
      rw [hpush hempty hc]
      exact header_bytes ((hadmits.length_eq hok).trans hplain) hhead hlen
  | dispatched len head hok o hreact =>
      have hlength := hadmits.length_eq hok
      have hframe : ConnCall.ahead (.read len (.body head)) ++ r.data =
          framed [(head.mtype, r.data)] ++ [] := by
        simp [framed, frame, ConnCall.ahead, hlength]
      rcases hreact with ⟨_, rfl⟩ | ⟨_, hreact⟩
      · refine ⟨[], ?_, by simp [Header.size], fun c hc => (hnone hc).elim, Or.inr rfl⟩
        rw [hframe, heard_dispatch (by simp)]
      · refine ⟨[], ?_, by simp [Header.size], ?_, Or.inr rfl⟩
        · rw [hframe, heard_dispatch hreact.no_dispatch]
        · intro c hc
          cases hreact with
          | goOn results es _ => rw [hpush hempty hc]; rfl
          | authOk _ _ => rw [hpush hempty hc]; rfl
          | md5 _ _ msg _ =>
              have hnew : c ∈ [ConnCall.write msg .passwordWritten, .header] := by
                simp only [settle_ok, World.chain, List.filter_append] at hc
                rcases List.mem_append.mp hc with hold | hlast
                · exact (hnone hold).elim
                · exact List.mem_of_mem_filter hlast
              rcases List.mem_cons.mp hnew with rfl | hlast
              · rfl
              · rw [List.mem_singleton.mp hlast]
                rfl
          | report ec _ => exact (hnone hc).elim
          | authError _ _ ec => exact (hnone hc).elim
          | ready _ _ ec => exact (hnone hc).elim
          | ended _ ec => exact (hnone hc).elim
          | aborted e results es _ => exact (hnone hc).elim

theorem Hears.step {s : Speaker} {label : Label} (hhears : Hears labels w events)
    (hconv : Conversing w events s) (hsound : Sound w) (hcond : Orderly w label)
    (hstep : (AsyncConnection.machine ext).step w label = some (w', es)) :
    Hears (labels ++ [label]) w' (events ++ es) := by
  obtain ⟨tail, hbytes, hlength, hchain, hready⟩ := hhears
  have hquiet {c : Call} (hes : ∀ state head body, .dispatch state head body ∉ es) :
      received (labels ++ [.call c]) = framed (heard (events ++ es)) ++ tail := by
    rw [received_call, heard_append, heard_nil hes, List.append_nil]
    exact hbytes
  cases step_cases hsound hstep with
  | connect option h =>
      have hnew : w.fsm = FSM.init := hcond
      have hnone : tail = [] := hready (Or.inr (by rw [hnew]; rfl))
      refine ⟨tail, hquiet (by simp), hlength, ?_, fun _ => hnone⟩
      intro c hc
      rcases List.mem_append.mp (List.mem_of_mem_filter hc) with hold | hlast
      · obtain ⟨h', hh'⟩ := hsound.handler (List.ne_nil_of_mem hold)
        rw [hnew] at hh'
        cases hh'
      · rw [List.mem_singleton.mp hlast]
        exact hnone
  | reject c _ _ => exact ⟨tail, hquiet (by simp), hlength, hchain, hready⟩
  | accept c hc hstate fsm hhandler hnext msg wh _ _ _ =>
      have hnone : tail = [] := hready (Or.inl hstate)
      refine ⟨tail, hquiet (by simp), hlength, ?_, fun _ => hnone⟩
      obtain ⟨live, hlive, _, hidle⟩ := hconv.chain
      rw [(hidle hstate).1] at hlive
      intro c hc
      rw [World.chain, List.filter_append] at hc
      rcases List.mem_append.mp hc with hold | hlast
      · rw [show w.net.filter ConnCall.isLive = [] from hlive] at hold
        cases hold
      · rw [List.mem_singleton.mp (List.mem_of_mem_filter hlast)]
        exact hnone
  | close h =>
      refine ⟨tail, hquiet (by simp), hlength, ?_, by simp⟩
      intro c hc
      apply hchain
      simpa [World.chain, List.filter_append, ConnCall.isLive, ConnCall.isTerminate] using hc
  | complete i r call hcall hadmits h hh hres =>
      obtain ⟨live, hlive, _, hidle⟩ := hconv.chain
      obtain ⟨_, _, _, hslot⟩ := hres.issued
      cases hterm : call.isLive with
      | false =>
          obtain ⟨rfl, ec, rfl⟩ := hres.terminated (by simpa [ConnCall.isLive] using hterm)
          have hdata : r.data = [] := by
            cases call with
            | write msg wh => exact hadmits
            | connect eh => cases hterm
            | read len rh => cases hterm
          refine ⟨tail, ?_, hlength, ?_, hready⟩
          · have hnone : heard [.closed, .handler h ec w.fsm.state] = [] := rfl
            rw [received_complete, hdata, List.append_nil, heard_append]
            change _ = framed (heard events ++ heard [.closed, .handler h ec w.fsm.state]) ++ tail
            rw [hnone, List.append_nil]
            exact hbytes
          · rw [World.chain, chain_terminate hcall hterm]
            exact hchain
      | true =>
          obtain ⟨rfl, hrest⟩ := chain_complete hcall hterm hlive
          have hplain := hsound.plain call (List.mem_of_getElem? hcall)
          have htail : tail = call.ahead := by
            apply hchain
            rw [hlive]
            exact List.mem_cons_self
          have hbusy : w.fsm.state ≠ .IDLE := by
            intro hstate
            cases (hidle hstate).1
          have hbody (len : Nat) (head : Header) (hread : call = .read len (.body head))
              (hok : r.ec.isError = false) :
              ∃ rest, es = .dispatch w.fsm.state head r.data :: rest := by
            subst hread
            exact step_dispatches hcall hok hstep
          obtain ⟨tail', hbytes', hlength', hchain', hready'⟩ :=
            hres.hears hadmits hplain hrest hbody
          refine ⟨tail', ?_, hlength', hchain', ?_⟩
          · rw [received_complete, hbytes, htail, List.append_assoc, hbytes', heard_append,
              framed, framed, framed, List.flatMap_append, List.append_assoc]
          · rintro (hstate | hnone)
            · rcases hready' with hsame | htail'
              · rw [hsame] at hstate
                exact absurd hstate hbusy
              · exact htail'
            · rw [hslot, hh] at hnone
              cases hnone

/-- In every run on which the state machine is connected once and no MD5 password
is asked for, the bytes received are the frames of the messages dispatched, in
order, and at most one header; in `IDLE` there is no such header. -/
theorem stream_heard (ext : Externals ρ) (results : ResultId → ρ) (labels : List Label)
    (t : World (List ConnCall) ρ) (events : List Event)
    (hrun : (AsyncConnection.machine ext).Run Orderly (World.init results) labels t events) :
    ∃ tail, received labels = framed (heard events) ++ tail ∧ tail.length ≤ Header.size ∧
      (t.fsm.state = .IDLE → tail = []) := by
  have hinv := hrun.invariant (fun labels w events => (Sound w ∧ ∃ s, Conversing w events s) ∧
    Hears labels w events) ?_ ?_
  · obtain ⟨_, tail, hbytes, hlength, _, hready⟩ := hinv
    exact ⟨tail, hbytes, hlength, fun hidle => hready (Or.inl hidle)⟩
  · exact ⟨⟨Sound.init results, _, Conversing.init results⟩, [], rfl, by simp,
      by simp [World.chain, World.init], by simp⟩
  · rintro labels w w' events es label ⟨⟨hsound, s, hconv⟩, hhears⟩ hcond hstep
    exact ⟨⟨hsound.step (step_cases hsound hstep), hconv.step hsound hcond hstep⟩,
      hhears.step hconv hsound hcond hstep⟩

/-- The reply to a statement is read up to the header of its second message. -/
theorem stream_heard_cut :
    ∃ t events tail, (AsyncConnection.machine (Externals.standard fun _ => [])).Run Orderly
        (World.init fun _ => []) (logOn .empty 0 ++
          [.call (.exec (ascii "a") none 1), .complete 0 (.sent (.query (ascii "a"))),
            .complete 0 (.delivered [73, 0, 0, 0, 4]), .complete 0 (.delivered []),
            .complete 0 (.delivered [90, 0, 0, 0, 5])]) t events ∧
      heard events = [(82, [0, 0, 0, 0]), (90, [73]), (73, [])] ∧
      [82, 0, 0, 0, 8, 0, 0, 0, 0, 90, 0, 0, 0, 5, 73, 73, 0, 0, 0, 4, 90, 0, 0, 0, 5] =
        framed (heard events) ++ tail := by
  have hexec : ∃ t events, ((AsyncConnection.machine (Externals.standard fun _ => [])).restrict
        Orderly).exec (World.init fun _ => []) (logOn .empty 0 ++
          [.call (.exec (ascii "a") none 1), .complete 0 (.sent (.query (ascii "a"))),
            .complete 0 (.delivered [73, 0, 0, 0, 4]), .complete 0 (.delivered []),
            .complete 0 (.delivered [90, 0, 0, 0, 5])]) = some (t, events) ∧
      heard events = [(82, [0, 0, 0, 0]), (90, [73]), (73, [])] := ⟨_, _, rfl, rfl⟩
  obtain ⟨t, events, hexec, hheard⟩ := hexec
  have hrun := Machine.run_of_exec_restrict hexec
  obtain ⟨tail, hbytes, _⟩ := stream_heard _ _ _ _ _ hrun
  exact ⟨t, events, tail, hrun, hheard, hbytes⟩

end Lapq
