import Lapq.Runs.Schedule
import Lapq.Replies.Prepare

/-!
Blocking calls on one state machine. The functions of the blocking interface
(`Connection` of `dbconnection.h`) make one call each, with a handler that stores
the code it gets in a local variable, and return that variable. The state machine
keeps the handler when the function has returned, so it matters that no later call
invokes it. `connect` of the interface makes a new state machine before its call;
the sequences of calls here stay on the same one.
-/

namespace Lapq

variable {ρ : Type} {ext : Externals ρ} {w : World (List ConnCall) ρ}

/-- The call of the user that a label stands for. -/
def Label.call? : Label → Option Call
  | .call c => some c
  | .complete .. => none

theorem call?_length (labels : List Label) :
    (labels.filterMap Label.call?).length = labels.countP Label.isCall := by
  induction labels with
  | nil => rfl
  | cons label labels ih =>
      cases label with
      | call c => simpa [Label.call?, List.filterMap_cons, List.countP_cons] using ih
      | complete i r => simpa [Label.call?, List.filterMap_cons, List.countP_cons] using ih

theorem Completes.calls {labels : List Label} {u : World (List ConnCall) ρ} {events : List Event}
    (hrun : (AsyncConnection.machine ext).Run Completes w labels u events) :
    labels.filterMap Label.call? = [] := by
  refine hrun.invariant (fun labels _ _ => labels.filterMap Label.call? = []) rfl ?_
  intro labels t u events emitted label hnone hlabel _
  cases label with
  | call c => cases hlabel
  | complete i r =>
      rw [List.filterMap_append, hnone]
      rfl

/-- Blocking calls, one after the other, are a run of the event loop, and do not
depend on the depth that their callbacks may go to. -/
theorem session_scheduled (ext : Externals ρ) (calls : List Call) (w : World (List ConnCall) ρ)
    (p : Peer) (hsound : Sound w) :
    ∃ os labels u p', (∀ n, p.input.length + 6 ≤ n →
        outcomes ext .blocking n (w.withNet p) calls = os ∧
        Mode.blocking.after ext n (w.withNet p) calls = u.withNet p') ∧
      (AsyncConnection.machine ext).Run (fun _ _ => True) w labels u
        (os.flatMap fun o => o.settle.2) ∧
      labels.filterMap Label.call? = calls ∧ received labels ++ p'.input <+: p.input := by
  induction calls generalizing w p with
  | nil =>
      exact ⟨[], [], w, p, fun _ _ => ⟨rfl, rfl⟩, Machine.Run.nil, rfl, List.prefix_refl _⟩
  | cons c calls ih =>
      obtain ⟨labels, first, u, es, rest, hstep, hrest, hevents, hworld, _, hinput, _⟩ :=
        call_scheduled ext c w hsound p (p.input.length + 6) (le_refl _)
      have hrun : (AsyncConnection.machine ext).Run (fun _ _ => True) w (.call c :: labels) u
          (es ++ rest) := Machine.Run.cons trivial hstep (hrest.weaken fun _ _ _ => trivial)
      rw [← hevents] at hrun
      have hstable (n : Nat) (hn : p.input.length + 6 ≤ n) :=
        call_stable ext c w hsound p n (p.input.length + 6) hn (le_refl _)
      generalize c.run (Connection.nested ext (p.input.length + 6)) (w.withNet p) = o
        at hrun hworld hinput hstable hevents
      have hle := hinput.length_le
      rw [List.length_append] at hle
      obtain ⟨os, labels', u', p', hsame, hrun', hcalls, hinput'⟩ :=
        ih u o.world.net (run_balance hsound hrun).1
      rw [← hworld] at hsame
      refine ⟨o :: os, .call c :: labels ++ labels', u', p', ?_, ?_, ?_, ?_⟩
      · intro n hn
        obtain ⟨hos, hlast⟩ := hsame n (by omega)
        rw [outcomes, Mode.after, Mode.drive, hstable n hn, hos, hlast]
        exact ⟨rfl, rfl⟩
      · exact hrun.trans hrun'
      · rw [List.filterMap_append, hcalls, List.filterMap_cons, Completes.calls hrest]
        rfl
      · have hsplit : received (.call c :: labels ++ labels') =
            received labels ++ received labels' := by
          simp [received, Label.data]
        rw [hsplit, List.append_assoc]
        exact ((List.prefix_append_right_inj _).mpr hinput').trans hinput

/-- Every sequence of blocking calls on a new state machine, against any peer,
comes to an end: from some depth on it is the same, and it is a run of the event
loop with as many completions as the calls and the bytes of the peer allow for. -/
theorem blocking_refines_async (ext : Externals ρ) (results : ResultId → ρ) (p : Peer)
    (calls : List Call) :
    ∃ os labels u p', (∀ n, p.input.length + 6 ≤ n →
        outcomes ext .blocking n ⟨FSM.init, results, p⟩ calls = os ∧
        Mode.blocking.after ext n ⟨FSM.init, results, p⟩ calls = u.withNet p') ∧
      (AsyncConnection.machine ext).Run (fun _ _ => True) (World.init results) labels u
        (os.flatMap fun o => o.settle.2) ∧
      labels.filterMap Label.call? = calls ∧
      labels.length ≤ 7 * calls.length + p.input.length ∧
      received labels ++ p'.input <+: p.input := by
  obtain ⟨os, labels, u, p', hsame, hrun, hcalls, hinput⟩ :=
    session_scheduled ext calls (World.init results) p (Sound.init results)
  refine ⟨os, labels, u, p', hsame, hrun, hcalls, ?_, hinput⟩
  have hwork := run_work (Sound.init results) hrun
  have hle := hinput.length_le
  rw [List.length_append] at hle
  rw [← call?_length, hcalls] at hwork
  simp only [World.init, work_nil] at hwork
  omega

/-- A server that asks for an MD5 password, is content with it, and sends no
more. -/
def contented : Peer :=
  ⟨[82, 0, 0, 0, 12, 0, 0, 0, 5, 1, 2, 3, 4, 82, 0, 0, 0, 8, 0, 0, 0, 0, 90, 0, 0, 0, 5, 73],
    ⟨⟨1, .external 0⟩, rfl⟩, fun _ => none, 0⟩

/-- A password, then a query that nobody answers, then the end. -/
theorem blocking_refines_async_contented :
    let ext : Externals (ResultSet Pg.Value) := Externals.standard fun _ => []
    let calls : List Call := [.connect .empty 1, .exec (ascii "a") (some 0) 2, .close 3]
    ∃ labels u events, (AsyncConnection.machine ext).Run (fun _ _ => True)
        (World.init fun _ => []) labels u events ∧
      labels.filterMap Label.call? = calls ∧ labels.length ≤ 49 ∧
      invoked events = [1, 1, 2, 3] := by
  intro ext calls
  obtain ⟨os, labels, u, p', hsame, hrun, hcalls, hlength, _⟩ :=
    blocking_refines_async ext (fun _ => []) contented calls
  refine ⟨labels, u, _, hrun, hcalls, hlength, ?_⟩
  rw [← (hsame 34 (by decide)).1]
  decide +kernel

/-! What a blocking call returns. -/

/-- Completions invoke the handler in the slot and leave it there. -/
theorem run_slot {labels : List Label} {u : World (List ConnCall) ρ} {events : List Event}
    {h : HandlerId} (hsound : Sound w) (hh : w.fsm.ehandler = some h)
    (hrun : (AsyncConnection.machine ext).Run Completes w labels u events) (own : HandlerId)
    (ec : ErrorCode) (st : State) (hmem : Event.handler own ec st ∈ events) : own = h := by
  have hinv := hrun.invariant (fun _ u events => Sound u ∧ u.fsm.ehandler = some h ∧
    ∀ own ec st, Event.handler own ec st ∈ events → own = h) ⟨hsound, hh, by simp⟩ ?_
  · exact hinv.2.2 own ec st hmem
  · rintro labels u v events emitted label ⟨hu, hkept, hown⟩ hlabel hstep
    have hcase := step_cases hu hstep
    refine ⟨hu.step hcase, ?_⟩
    cases hcase with
    | connect option eh => cases hlabel
    | reject c _ _ => cases hlabel
    | accept c _ _ fsm _ _ msg wh _ _ _ => cases hlabel
    | close eh => cases hlabel
    | complete i r call _ _ h' hh' hres =>
        have hsame : h' = h := Option.some.inj (hh'.symm.trans hkept)
        subst hsame
        obtain ⟨_, _, _, hleft⟩ := hres.issued
        refine ⟨hleft.trans hkept, ?_⟩
        intro own ec st hmem
        rcases List.mem_append.mp hmem with hold | hnew
        · exact hown own ec st hold
        · exact hres.handler_eq hnew

/-- Out of `AUTH`, completions send no password. -/
theorem run_passwords {labels : List Label} {u : World (List ConnCall) ρ} {events : List Event}
    (hsound : Sound w) (hstate : w.fsm.state ≠ .AUTH)
    (hrun : (AsyncConnection.machine ext).Run Completes w labels u events) :
    passwords events = 0 := by
  have hinv := hrun.invariant (fun _ u events => Sound u ∧ u.fsm.state ≠ .AUTH ∧
    passwords events = 0) ⟨hsound, hstate, rfl⟩ ?_
  · exact hinv.2.2
  · rintro labels u v events emitted label ⟨hu, hauth, hnone⟩ hlabel hstep
    have hcase := step_cases hu hstep
    refine ⟨hu.step hcase, ?_⟩
    cases hcase with
    | connect option eh => cases hlabel
    | reject c _ _ => cases hlabel
    | accept c _ _ fsm _ _ msg wh _ _ _ => cases hlabel
    | close eh => cases hlabel
    | complete i r call hcall _ h _ hres =>
        refine ⟨hres.state_ne_auth hauth, ?_⟩
        rw [passwords_append, hnone, Nat.zero_add]
        cases hread : call.isRead with
        | true => exact hres.no_password hread hauth
        | false => exact step_passwords hu hcall hread hstep

theorem settle_events (o : Outcome Peer ρ Unit) {e : Event} (he : e ∈ o.events) :
    e ∈ o.settle.2 := by
  obtain ⟨value, world, es⟩ := o
  cases value with
  | ok u => exact he
  | error a => exact List.mem_append_left _ he

theorem ends_of_quiet {events : List Event} (hquiet : ∀ e ∈ events, e.isAbort = false) :
    ends events = events.countP Event.isHandler := by
  apply List.countP_congr
  intro e he
  have hnot := hquiet e he
  cases e with
  | abort a => cases hnot
  | _ => simp [Event.isHandler]

/-- A call that is not refused puts its handler in the slot and calls none. -/
theorem call_slot {c : Call} {first : World (List ConnCall) ρ} {es : List Event}
    (hsound : Sound w) (hready : c.isRequest = true → w.fsm.state = .IDLE)
    (hstep : (AsyncConnection.machine ext).step w (.call c) = some (first, es)) :
    first.fsm.ehandler = some c.handler ∧ es.countP Event.isHandler = 0 ∧ passwords es = 0 ∧
      ((∀ option eh, c ≠ .connect option eh) → first.fsm.state ≠ .AUTH) := by
  cases step_cases hsound hstep with
  | connect option h => exact ⟨rfl, rfl, rfl, fun hno => absurd rfl (hno option h)⟩
  | reject _ hc hstate => exact absurd (hready hc) hstate
  | accept _ hc _ fsm hhandler hnext msg wh hmsg _ _ =>
      have hpassword : msg.isPassword = false := by
        cases msg <;> first | rfl | cases hmsg
      refine ⟨hhandler, by simp [Event.isHandler], by simp [hpassword], ?_⟩
      intro _
      rcases hnext with hstate | hstate <;> simp [hstate]
  | close h => exact ⟨rfl, rfl, rfl, by simp⟩

theorem last_of_countP {α : Type} {q : α → Bool} {l : List α} (hpos : 0 < l.countP q) :
    ∃ before x after, l = before ++ x :: after ∧ q x = true ∧ ∀ y ∈ after, q y = false := by
  induction l with
  | nil => simp at hpos
  | cons a l ih =>
      by_cases hlater : 0 < l.countP q
      · obtain ⟨before, x, after, rfl, hx, hafter⟩ := ih hlater
        exact ⟨a :: before, x, after, rfl, hx, hafter⟩
      · have hnone : l.countP q = 0 := Nat.eq_zero_of_not_pos hlater
        rw [List.countP_cons, hnone] at hpos
        refine ⟨[], a, l, rfl, ?_, ?_⟩
        · by_contra ha
          simp [ha] at hpos
        · intro y hy
          exact Bool.eq_false_iff.mpr (List.countP_eq_zero.mp hnone y hy)

/-- The code that was stored last is returned. -/
theorem returned_last {h : HandlerId} {o : Outcome Peer ρ Unit} {before after : List Event}
    {ec : ErrorCode} {st : State} (hvalue : o.value = .ok ())
    (hevents : o.events = before ++ .handler h ec st :: after)
    (hafter : ∀ e ∈ after, e.isHandler = false) : o.returned h = .ok ec := by
  have hnone : after.filterMap (Event.codeFor? h) = [] := by
    apply List.filterMap_eq_nil_iff.mpr
    intro e he
    have hother := hafter e he
    cases e <;> first | rfl | cases hother
  simp [Outcome.returned, hvalue, hevents, hnone, Except.map, Event.codeFor?]

/-- The invocations of a blocking call. -/
theorem call_invokes (ext : Externals ρ) (c : Call) (w : World Peer ρ) (n : Nat)
    (hn : w.net.input.length + 6 ≤ n) :
    let o := c.run (Connection.nested ext n) w
    (∀ h ec st, Event.handler h ec st ∈ o.events → h = c.handler) ∧
      (o.value = .ok () → o.events.countP Event.isHandler = 1 + passwords o.events ∧
        ((∀ option eh, c ≠ .connect option eh) → passwords o.events = 0)) := by
  dsimp only
  by_cases hready : c.isRequest = true → w.fsm.state = .IDLE
  · have hsound : Sound (⟨w.fsm, w.results, []⟩ : World (List ConnCall) ρ) :=
      ⟨by simp, by simp⟩
    obtain ⟨labels, first, u, es, rest, hstep, hrest, hevents, _, hnet, _, hquiet⟩ :=
      call_scheduled ext c ⟨w.fsm, w.results, []⟩ hsound w.net n hn
    change (c.run (Connection.nested ext n) w).settle.2 = es ++ rest at hevents
    change (c.run (Connection.nested ext n) w).value = .ok () → u.net = [] at hnet
    change ∀ e ∈ (c.run (Connection.nested ext n) w).events, e.isAbort = false at hquiet
    generalize c.run (Connection.nested ext n) w = o at hevents hnet hquiet
    obtain ⟨hslot, hnone, hfirst, hauth⟩ := call_slot hsound hready hstep
    have hsound' := hsound.step (step_cases hsound hstep)
    constructor
    · intro h ec st hmem
      have hall : Event.handler h ec st ∈ es ++ rest := by
        rw [← hevents]
        exact settle_events o hmem
      rcases List.mem_append.mp hall with hold | hnew
      · exact absurd rfl (List.countP_eq_zero.mp hnone _ hold)
      · exact run_slot hsound' hslot hrest h ec st hnew
    · intro hvalue
      have hsame : o.events = es ++ rest := by
        rw [← hevents]
        simp [Outcome.settle, hvalue]
      have hrun : (AsyncConnection.machine ext).Run (fun _ _ => True) _ (.call c :: labels) u
          (es ++ rest) := Machine.Run.cons trivial hstep (hrest.weaken fun _ _ _ => trivial)
      have hbalance := (run_balance hsound hrun).2
      rw [← call?_length, List.filterMap_cons, Completes.calls hrest, hnet hvalue] at hbalance
      rw [← hsame, ends_of_quiet hquiet] at hbalance
      refine ⟨by simpa [Label.call?, Nat.add_comm] using hbalance, ?_⟩
      intro hno
      rw [hsame, passwords_append, hfirst, run_passwords hsound' (hauth hno) hrest]
  · push Not at hready
    obtain ⟨hc, hstate⟩ := hready
    rw [reject_run (Connection.nested ext n) c hc hstate]
    refine ⟨?_, fun _ => ⟨rfl, fun _ => rfl⟩⟩
    intro h ec st hmem
    cases List.mem_singleton.mp hmem
    rfl

/-- Whatever was done on a connection before, a blocking call invokes no handler
but its own. If it returns, it has invoked that once, and once more for every
password it has sent, which only `connect` does; and it returns the code of the
last invocation. -/
theorem call_returns (ext : Externals ρ) (c : Call) (w : World Peer ρ) (n : Nat)
    (hn : w.net.input.length + 6 ≤ n) :
    let o := c.run (Connection.nested ext n) w
    (∀ h ec st, Event.handler h ec st ∈ o.events → h = c.handler) ∧
      (o.value = .ok () → o.events.countP Event.isHandler = 1 + passwords o.events ∧
        ((∀ option eh, c ≠ .connect option eh) → passwords o.events = 0) ∧
        ∃ before ec st after, o.events = before ++ .handler c.handler ec st :: after ∧
          (∀ e ∈ after, e.isHandler = false) ∧ o.returned c.handler = .ok ec) := by
  obtain ⟨hown, hreturn⟩ := call_invokes ext c w n hn
  refine ⟨hown, ?_⟩
  intro hvalue
  obtain ⟨hcount, hno⟩ := hreturn hvalue
  refine ⟨hcount, hno, ?_⟩
  have hpos : 0 < (c.run (Connection.nested ext n) w).events.countP Event.isHandler := by
    rw [hcount]
    omega
  obtain ⟨before, e, after, hevents, he, hafter⟩ := last_of_countP hpos
  cases e with
  | handler h ec st =>
      have hsame : h = c.handler := hown h ec st (by rw [hevents]; simp)
      subst hsame
      exact ⟨before, ec, st, after, hevents, hafter, returned_last hvalue hevents hafter⟩
  | _ => cases he

/-- The connection is ready when its handler is told so, and the handler is told
of the end of the input after that. -/
theorem call_returns_contented :
    let o := Call.run (Connection.nested (Externals.standard fun _ => []) 34)
      (.connect .empty 1) ⟨FSM.init, fun _ => [], contented⟩
    o.events.countP Event.isHandler = 1 + 1 ∧ o.world.fsm.state = .IDLE ∧
      o.returned 1 = .ok ⟨1, .external 0⟩ := by
  have hreturns := (call_returns (Externals.standard fun _ => []) (.connect .empty 1)
    ⟨FSM.init, fun _ => [], contented⟩ 34 (by decide)).2 rfl
  exact ⟨hreturns.1, rfl, rfl⟩

end Lapq
