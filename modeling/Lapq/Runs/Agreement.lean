import Lapq.Steps.Blocking
import Lapq.Wire.Backend

/-!
The blocking and the asynchronous connection agree on a request. The blocking
connection nests the callbacks of a chain of calls, the event loop completes
the chain one call at a time; outside `AUTH` a chain has one call outstanding at
each step, and it ends because every header takes bytes off the input.
-/

namespace Lapq

variable {ρ : Type} {ext : Externals ρ} {w : World (List ConnCall) ρ}

namespace Connection

/-- What the blocking connection does with a call, `n` callbacks deep. -/
def perform (ext : Externals ρ) : Nat → ConnCall → Act Peer ρ Unit
  | 0, _ => Act.throw .depth
  | n + 1, call => do
      let r ← io call
      call.resume ext (nested ext n) r

theorem nested_eq (ext : Externals ρ) (n : Nat) :
    nested ext n = ConnectionBase.ofCalls (perform ext n) := by
  cases n <;> rfl

theorem perform_succ (n : Nat) (call : ConnCall) (p : Peer) :
    perform ext (n + 1) call (w.withNet p) =
      call.resume ext (.ofCalls (perform ext n)) (p.serve call).1
        (w.withNet (p.serve call).2) := by
  rw [← nested_eq]
  rfl

end Connection

namespace AsyncConnection

theorem drain_nil (n : Nat) (p : Peer) (hnet : w.net = []) :
    drain ext n p w = (⟨.ok (), w, []⟩, p) := by
  cases n with
  | zero => rfl
  | succ n => simp [drain, hnet]

variable {p : Peer} {call : ConnCall} {rest : List ConnCall}
  {o : Outcome (List ConnCall) ρ Unit}

theorem drain_error (n : Nat) {e : Abort} (hnet : w.net = call :: rest)
    (hrun : call.resume ext con (p.serve call).1 { w with net := rest } = o)
    (hvalue : o.value = .error e) : drain ext (n + 1) p w = (o, (p.serve call).2) := by
  simp [drain, hnet, hrun, hvalue]

theorem drain_ok (n : Nat) (hnet : w.net = call :: rest)
    (hrun : call.resume ext con (p.serve call).1 { w with net := rest } = o)
    (hvalue : o.value = .ok ()) :
    drain ext (n + 1) p w =
      ((drain ext n (p.serve call).2 o.world).1.after o.events,
        (drain ext n (p.serve call).2 o.world).2) := by
  simp [drain, hnet, hrun, hvalue, Outcome.after]

/-- A loop that has nothing left to complete stays as it is with more rounds. -/
theorem drain_more {n : Nat} (k : Nat) {w : World (List ConnCall) ρ} {p : Peer}
    (hdone : (drain ext n p w).1.world.net = []) :
    drain ext (n + k) p w = drain ext n p w := by
  induction n generalizing p w with
  | zero =>
      change w.net = [] at hdone
      rw [drain_nil _ p hdone, drain_nil _ p hdone]
  | succ n ih =>
      cases hnet : w.net with
      | nil => rw [drain_nil _ p hnet, drain_nil _ p hnet]
      | cons call rest =>
          rw [Nat.add_right_comm]
          cases hvalue : (call.resume ext con (p.serve call).1 { w with net := rest }).value with
          | error e => rw [drain_error _ hnet rfl hvalue, drain_error _ hnet rfl hvalue]
          | ok u =>
              rw [drain_ok _ hnet rfl hvalue] at hdone
              rw [drain_ok _ hnet rfl hvalue, drain_ok _ hnet rfl hvalue, ih hdone]

end AsyncConnection

theorem serve_read_ok {p : Peer} {len : Nat} {rh : RHandler}
    (hok : (p.serve (.read len rh)).1.ec.isError = false) :
    len ≤ p.input.length ∧ (p.serve (.read len rh)).1.data = p.input.take len ∧
      (p.serve (.read len rh)).2.input = p.input.drop len := by
  unfold Peer.serve at hok ⊢
  cases hfault : p.fault p.step with
  | some e =>
      simp only [hfault] at hok
      rw [e.property] at hok
      cases hok
  | none =>
      simp only [hfault] at hok ⊢
      split
      · rename_i hle
        exact ⟨hle, rfl, rfl⟩
      · rename_i hshort
        rw [if_neg hshort] at hok
        simp only [p.eof.property] at hok
        cases hok

theorem serve_input_le (p : Peer) (call : ConnCall) :
    (p.serve call).2.input.length ≤ p.input.length := by
  unfold Peer.serve
  cases p.fault p.step with
  | some e => exact le_refl _
  | none =>
      cases call with
      | connect eh => exact le_refl _
      | write msg wh => exact le_refl _
      | read len rh =>
          dsimp only
          split
          · simp
          · simp

/-- A call that a completion issues is nearer to the end of the chain. -/
theorem Resumes.decreases {h : HandlerId} {w' : World (List ConnCall) ρ} {es : List Event}
    {p : Peer} {call next : ConnCall} (hres : Resumes h w (p.serve call).1 call w' es)
    (hplain : call.Plain) (hempty : w.net = []) (hnext : w'.net = [next]) :
    2 * (p.serve call).2.input.length + next.rank < 2 * p.input.length + call.rank := by
  have hle := serve_input_le p call
  cases hres with
  | reported _ ec _ => simp [hempty] at hnext
  | lost _ e => simp [hempty] at hnext
  | closed msg ec => simp [hempty] at hnext
  | wrote _ msg wh _ _ _ _ hrank =>
      simp only [hempty, List.nil_append, List.cons.injEq, and_true] at hnext
      rw [← hnext]
      omega
  | reading msg wh _ =>
      simp only [hempty, List.nil_append, List.cons.injEq, and_true] at hnext
      have hwrite : 1 < ConnCall.rank (.write msg wh) := by
        cases wh <;> simp [ConnCall.rank]
      rw [← hnext, show ConnCall.header.rank = 1 from rfl]
      omega
  | header len head hok er _ _ =>
      simp only [hempty, List.nil_append, List.cons.injEq, and_true] at hnext
      obtain ⟨hlen, _, hinput⟩ := serve_read_ok hok
      have hsize : len = 5 := hplain
      rw [← hnext, hinput, List.length_drop]
      simp only [ConnCall.rank]
      omega
  | dispatched len head hok o hreact =>
      rcases hreact with ⟨_, rfl⟩ | ⟨_, hreact⟩
      · simp [hempty] at hnext
      have hheader (heq : [ConnCall.header] = [next]) :
          2 * (p.serve (.read len (.body head))).2.input.length + next.rank <
            2 * p.input.length + ConnCall.rank (.read len (.body head)) := by
        cases heq
        simp only [ConnCall.rank, ConnCall.header]
        omega
      cases hreact with
      | goOn results es _ => exact hheader (by simpa [hempty] using hnext)
      | authOk _ _ => exact hheader (by simpa [hempty] using hnext)
      | md5 _ _ msg _ => simp [hempty] at hnext
      | report ec _ => simp [hempty] at hnext
      | authError _ _ ec => simp [hempty] at hnext
      | ready _ _ ec => simp [hempty] at hnext
      | ended _ ec => simp [hempty] at hnext
      | aborted e results es _ => simp [hempty] at hnext

/-- One call of a chain that asks for no MD5 password: its callback ends the
chain, or issues one call that is nearer to the end. Performing that call in
place is the only difference a blocking connection makes. -/
theorem chain_step (ext : Externals ρ) (f : ConnCall → Act Peer ρ Unit)
    (w : World (List ConnCall) ρ) (p : Peer) (call : ConnCall) (hnet : w.net = [call])
    (hsound : Sound w)
    (hmsg : ∀ len head, call = .read len (.body head) → (p.serve call).1.ec.isError = false →
      w.fsm.state = .AUTH → ¬ IsAuthentication 5 head (p.serve call).1.data) :
    ∃ o, call.resume ext AsyncConnection.con (p.serve call).1 { w with net := [] } = o ∧
      let sync := call.resume ext (.ofCalls f) (p.serve call).1 (w.withNet (p.serve call).2)
      (o.world.net = [] ∧ sync = o.withNet (p.serve call).2 ∨
        ∃ next, o.value = .ok () ∧ o.world.net = [next] ∧ Sound o.world ∧
          o.world.fsm.ehandler = w.fsm.ehandler ∧
          (w.fsm.state ≠ .AUTH → o.world.fsm.state ≠ .AUTH) ∧
          2 * (p.serve call).2.input.length + next.rank < 2 * p.input.length + call.rank ∧
          sync = (f next (o.world.withNet (p.serve call).2)).after o.events) := by
  obtain ⟨h, hh⟩ := hsound.handler (by rw [hnet]; simp)
  have hplain : call.Plain := hsound.plain call (by rw [hnet]; simp)
  have hres := resumes_of_complete ext (w := { w with net := [] }) hh (p.serve call).1 hplain
  have htail := Tail.resume (f := f) (w := { w with net := [] }) ext (p.serve call).1 call hmsg
  refine ⟨_, rfl, ?_⟩
  unfold Tail at htail
  rcases htail with ⟨hnone, hsame⟩ | ⟨next, hvalue, hnext, hsame⟩
  · exact Or.inl ⟨hnone, hsame (p.serve call).2⟩
  · have hsync := hsame (p.serve call).2
    generalize call.resume ext AsyncConnection.con (p.serve call).1
      { w with net := [] } = o at hres hvalue hnext hsync
    rw [settle_of_ok hvalue] at hres
    obtain ⟨issued, hissued, hissuedPlain, hkept⟩ := hres.issued
    have hsound' : Sound o.world := by
      refine ⟨?_, fun _ => ⟨h, hkept.trans hh⟩⟩
      intro c hc
      rw [hissued] at hc
      exact hissuedPlain c (by simpa using hc)
    exact Or.inr ⟨next, hvalue, hnext, hsound', hkept, hres.state_ne_auth,
      hres.decreases hplain rfl hnext, hsync⟩

/-- A message that the first round receives. -/
theorem NoPassword.of_drain {n : Nat} {p : Peer} {call : ConnCall} {rest : List ConnCall}
    (hpassword : NoPassword (AsyncConnection.drain ext (n + 1) p w).1.events)
    (hnet : w.net = call :: rest) :
    NoPassword (call.resume ext AsyncConnection.con (p.serve call).1
      { w with net := rest }).events := by
  cases hvalue : (call.resume ext AsyncConnection.con (p.serve call).1
      { w with net := rest }).value with
  | error e =>
      rw [AsyncConnection.drain_error n hnet rfl hvalue] at hpassword
      exact hpassword
  | ok u =>
      rw [AsyncConnection.drain_ok n hnet rfl hvalue] at hpassword
      exact hpassword.of_append_left

/-- The first round receives no request for an MD5 password. -/
theorem first_not_password {n : Nat} {p : Peer} {call : ConnCall} (hnet : w.net = [call])
    (hsafe : w.fsm.state ≠ .AUTH ∨ NoPassword (AsyncConnection.drain ext (n + 1) p w).1.events)
    (len : Nat) (head : Header) (hcall : call = .read len (.body head))
    (hok : (p.serve call).1.ec.isError = false) (hauth : w.fsm.state = .AUTH) :
    ¬ IsAuthentication 5 head (p.serve call).1.data := by
  subst hcall
  rcases hsafe with hstate | hpassword
  · exact absurd hauth hstate
  · exact not_password AsyncConnection.con hok (hpassword.of_drain hnet) hauth

/-- With as many rounds as the input allows for, the event loop comes to an end
and the nested callbacks have done the same, if no MD5 password is asked for. -/
theorem perform_drain (ext : Externals ρ) (n : Nat) (w : World (List ConnCall) ρ) (p : Peer)
    (call : ConnCall) (hnet : w.net = [call]) (hsound : Sound w)
    (hsafe : w.fsm.state ≠ .AUTH ∨ NoPassword (AsyncConnection.drain ext n p w).1.events)
    (hn : 2 * p.input.length + call.rank ≤ n) :
    let d := AsyncConnection.drain ext n p w
    d.1.world.net = [] ∧ Connection.perform ext n call (w.withNet p) = d.1.withNet d.2 := by
  induction n generalizing w p call with
  | zero =>
      have hpos : 0 < call.rank := by
        unfold ConnCall.rank
        split <;> omega
      omega
  | succ n ih =>
      obtain ⟨o, hrun, hcases⟩ := chain_step ext (Connection.perform ext n) w p call hnet hsound
        (first_not_password hnet hsafe)
      rw [Connection.perform_succ]
      rcases hcases with ⟨hnone, hsync⟩ |
        ⟨next, hvalue, hnext, hsound', _, hstate', hless, hsync⟩
      · cases hvalue : o.value with
        | error e =>
            rw [AsyncConnection.drain_error n hnet hrun hvalue]
            exact ⟨hnone, hsync⟩
        | ok u =>
            rw [AsyncConnection.drain_ok n hnet hrun hvalue, AsyncConnection.drain_nil n _ hnone]
            refine ⟨hnone, hsync.trans ?_⟩
            simp [Outcome.withNet, Outcome.after, hvalue]
      · rw [AsyncConnection.drain_ok n hnet hrun hvalue] at hsafe ⊢
        have hsafe' : o.world.fsm.state ≠ .AUTH ∨
            NoPassword (AsyncConnection.drain ext n (p.serve call).2 o.world).1.events :=
          hsafe.imp hstate' NoPassword.of_append_right
        obtain ⟨hdone, hrest⟩ := ih o.world (p.serve call).2 next hnext hsound' hsafe' (by omega)
        refine ⟨hdone, hsync.trans ?_⟩
        rw [hrest]
        rfl

/-- Callback by callback the nested callbacks leave the state machine as the
event loop does, however deep they may go. -/
theorem perform_fsm (ext : Externals ρ) (n k : Nat) (w : World (List ConnCall) ρ) (p : Peer)
    (call : ConnCall) (hnet : w.net = [call]) (hsound : Sound w)
    (hsafe : w.fsm.state ≠ .AUTH ∨
      NoPassword (AsyncConnection.drain ext (n + k) p w).1.events) :
    (Connection.perform ext n call (w.withNet p)).world.fsm =
      (AsyncConnection.drain ext n p w).1.world.fsm := by
  induction n generalizing w p call with
  | zero => rfl
  | succ n ih =>
      rw [Nat.add_right_comm] at hsafe
      obtain ⟨o, hrun, hcases⟩ := chain_step ext (Connection.perform ext n) w p call hnet hsound
        (first_not_password hnet hsafe)
      rw [Connection.perform_succ]
      rcases hcases with ⟨hnone, hsync⟩ | ⟨next, hvalue, hnext, hsound', _, hstate', _, hsync⟩
      · cases hvalue : o.value with
        | error e =>
            rw [AsyncConnection.drain_error n hnet hrun hvalue]
            exact congrArg (fun o => o.world.fsm) hsync
        | ok u =>
            rw [AsyncConnection.drain_ok n hnet hrun hvalue, AsyncConnection.drain_nil n _ hnone]
            exact congrArg (fun o => o.world.fsm) hsync
      · rw [AsyncConnection.drain_ok _ hnet hrun hvalue] at hsafe ⊢
        have hsafe' : o.world.fsm.state ≠ .AUTH ∨
            NoPassword (AsyncConnection.drain ext (n + k) (p.serve call).2 o.world).1.events :=
          hsafe.imp hstate' NoPassword.of_append_right
        exact (congrArg (fun o => o.world.fsm) hsync).trans
          (ih o.world (p.serve call).2 next hnext hsound' hsafe')

theorem ConnCall.rank_le (call : ConnCall) : call.rank ≤ 6 := by
  unfold ConnCall.rank
  split <;> omega

/-- A call of the user only starts something, and that does not fail. -/
theorem call_value (c : Call) (w : World (List ConnCall) ρ) :
    (c.run AsyncConnection.con w).value = .ok () := by
  have hrequest (hc : c.isRequest = true) : (c.run AsyncConnection.con w).value = .ok () := by
    by_cases hstate : w.fsm.state = .IDLE
    · obtain ⟨fsm, msg, wh, hrun, _⟩ := accept_run c hc hstate
      rw [hrun]
    · rw [reject_run AsyncConnection.con c hc hstate]
  cases c with
  | connect option eh => rfl
  | close eh => rfl
  | exec q res eh => exact hrequest rfl
  | execQuery q res eh => exact hrequest rfl
  | parse q eh => exact hrequest rfl

theorem call_sound (ext : Externals ρ) (c : Call) (fsm : FSM) (results : ResultId → ρ) :
    Sound (c.run AsyncConnection.con ⟨fsm, results, []⟩).world := by
  have hempty : Sound (⟨fsm, results, []⟩ : World (List ConnCall) ρ) := ⟨by simp, by simp⟩
  have hstep : (AsyncConnection.machine ext).step ⟨fsm, results, []⟩ (.call c) =
      some (_, _) := congrArg some (settle_of_ok (call_value c _))
  exact hempty.step (step_cases hempty hstep)

/-- A call with as many rounds as nested callbacks. -/
theorem call_drain (ext : Externals ρ) (c : Call) (fsm : FSM) (results : ResultId → ρ) (p : Peer)
    (n : Nat) (hn : 2 * p.input.length + 6 ≤ n) :
    let first := c.run AsyncConnection.con ⟨fsm, results, []⟩
    let later := AsyncConnection.drain ext n p first.world
    (first.world.fsm.state ≠ .AUTH ∨ NoPassword later.1.events) →
    c.run (Connection.nested ext n) ⟨fsm, results, p⟩ =
        (later.1.after first.events).withNet later.2 ∧ first.value = .ok () ∧
      later.1.world.net = [] := by
  intro first later hsafe
  have hvalue : first.value = .ok () := call_value c _
  have htail := Tail.request (f := Connection.perform ext n)
    (w := (⟨fsm, results, []⟩ : World (List ConnCall) ρ)) c
  rw [Connection.nested_eq]
  rcases htail with ⟨hnone, hsame⟩ | ⟨call, _, hnet, hsame⟩
  · have hlater : later = (⟨.ok (), first.world, []⟩, p) := AsyncConnection.drain_nil n p hnone
    refine ⟨?_, hvalue, by rw [hlater]; exact hnone⟩
    rw [hlater]
    refine (hsame p).trans ?_
    change first.withNet p = _
    simp [Outcome.withNet, Outcome.after, hvalue]
  · have hrank := call.rank_le
    obtain ⟨hdone, hperform⟩ :=
      perform_drain ext n first.world p call hnet (call_sound ext c fsm results) hsafe (by omega)
    refine ⟨(hsame p).trans ?_, hvalue, hdone⟩
    change (Connection.perform ext n call (first.world.withNet p)).after first.events = _
    rw [hperform]
    rfl

/-- The state machine after `n` nested callbacks and after `n` rounds. -/
theorem call_fsm (ext : Externals ρ) (c : Call) (fsm : FSM) (results : ResultId → ρ) (p : Peer)
    (n k : Nat) :
    let first := c.run AsyncConnection.con ⟨fsm, results, []⟩
    (first.world.fsm.state ≠ .AUTH ∨
      NoPassword (AsyncConnection.drain ext (n + k) p first.world).1.events) →
    (c.run (Connection.nested ext n) ⟨fsm, results, p⟩).world.fsm =
      (AsyncConnection.drain ext n p first.world).1.world.fsm := by
  intro first hsafe
  have htail := Tail.request (f := Connection.perform ext n)
    (w := (⟨fsm, results, []⟩ : World (List ConnCall) ρ)) c
  rw [Connection.nested_eq]
  rcases htail with ⟨hnone, hsame⟩ | ⟨call, _, hnet, hsame⟩
  · rw [AsyncConnection.drain_nil n p hnone]
    exact congrArg (fun o => o.world.fsm) (hsame p)
  · exact (congrArg (fun o => o.world.fsm) (hsame p)).trans
      (perform_fsm ext n k first.world p call hnet (call_sound ext c fsm results) hsafe)

/-- A request in `IDLE` with as many rounds as nested callbacks. -/
theorem request_drain (ext : Externals ρ) (c : Call) (hc : c.isRequest = true)
    (fsm : FSM) (results : ResultId → ρ) (p : Peer) (hidle : fsm.state = .IDLE) (n : Nat)
    (hn : 2 * p.input.length + 6 ≤ n) :
    let first := c.run AsyncConnection.con ⟨fsm, results, []⟩
    let later := AsyncConnection.drain ext n p first.world
    c.run (Connection.nested ext n) ⟨fsm, results, p⟩ =
        (later.1.after first.events).withNet later.2 ∧ first.value = .ok () ∧
      later.1.world.net = [] := by
  obtain ⟨fsm', msg, wh, hrun, _, hnext, _, _, _⟩ :=
    accept_run (w := (⟨fsm, results, []⟩ : World (List ConnCall) ρ)) c hc hidle
  apply call_drain ext c fsm results p n hn
  rw [hrun]
  apply Or.inl
  rcases hnext with h | h <;> simp [h]

/-- A request in `IDLE` against any peer: the blocking connection, with room for
enough nested callbacks, and the event loop, with enough rounds, end with the
same value, events, state machine, results and peer, and the event loop has
nothing left to do. -/
theorem blocking_async_agree (ext : Externals ρ) (c : Call) (hc : c.isRequest = true)
    (fsm : FSM) (results : ResultId → ρ) (p : Peer) (hidle : fsm.state = .IDLE) (n m : Nat)
    (hn : 2 * p.input.length + 6 ≤ n) (hm : 2 * p.input.length + 6 ≤ m) :
    let sync := c.run (Connection.nested ext n) ⟨fsm, results, p⟩
    let first := c.run AsyncConnection.con ⟨fsm, results, []⟩
    let later := AsyncConnection.drain ext m p first.world
    sync = (later.1.after first.events).withNet later.2 ∧ first.value = .ok () ∧
      later.1.world.net = [] := by
  obtain ⟨_, _, hbase⟩ := request_drain ext c hc fsm results p hidle _ (le_refl _)
  obtain ⟨hsync, hvalue, hdone⟩ := request_drain ext c hc fsm results p hidle n hn
  -- More rounds than the loop needs change nothing.
  have hrounds :
      AsyncConnection.drain ext m p (c.run AsyncConnection.con ⟨fsm, results, []⟩).world =
        AsyncConnection.drain ext n p (c.run AsyncConnection.con ⟨fsm, results, []⟩).world := by
    rw [← Nat.add_sub_of_le hn, ← Nat.add_sub_of_le hm,
      AsyncConnection.drain_more _ hbase, AsyncConnection.drain_more _ hbase]
  dsimp only
  rw [hrounds]
  exact ⟨hsync, hvalue, hdone⟩

/-- A query that is answered by two rows. -/
theorem blocking_async_agree_query :
    let ext := Externals.standard fun _ => []
    let fsm : FSM := ⟨none, none, none, .IDLE⟩
    let columns : List FieldSpec :=
      [⟨ascii "a", 0, 0, 25, 65535, -1, 0⟩, ⟨ascii "b", 0, 0, 23, 4, -1, 0⟩]
    let reply : List Backend := [.rowDescription columns, .dataRow [ascii "x", ascii "7"],
      .dataRow [[], ascii "8"], .commandComplete (ascii "SELECT 2"),
      .readyForQuery 'I'.toUInt8]
    let p : Peer := ⟨reply.flatMap Backend.wire, ⟨⟨2, .external 0⟩, rfl⟩, fun _ => none, 0⟩
    let n := 2 * p.input.length + 6
    let sync := Call.run (Connection.nested ext n) (.exec (ascii "a") (some 0) 1)
      ⟨fsm, fun _ => [], p⟩
    let first := Call.run AsyncConnection.con (.exec (ascii "a") (some 0) 1)
      ⟨fsm, fun _ => [], []⟩
    let later := AsyncConnection.drain ext n p first.world
    sync = (later.1.after first.events).withNet later.2 ∧ first.value = .ok () ∧
      later.1.world.net = [] := by
  intro ext fsm columns reply p n
  have hn : 2 * p.input.length + 6 ≤ n := le_refl n
  clear_value n p
  exact blocking_async_agree ext (.exec (ascii "a") (some 0) 1) rfl fsm (fun _ => []) p rfl n n
    hn hn

end Lapq
