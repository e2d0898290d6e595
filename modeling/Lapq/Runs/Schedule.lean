import Lapq.Runs.Account
import Lapq.Runs.Implements

/-!
The blocking connection as a schedule of the event loop. It performs the calls
that a callback starts in place, one after the other, each to the end of its own
callbacks; the event loop may complete its outstanding calls in that order too.
So whatever a blocking call does is a run of the asynchronous machine, also when
a request for an MD5 password makes two calls at once.
-/

namespace Lapq

open Bytes

variable {ν ρ : Type} {ext : Externals ρ} {w : World (List ConnCall) ρ}

/-- Perform calls one after the other, up to the first that aborts. -/
def performAll (f : ConnCall → Act ν ρ Unit) : List ConnCall → Act ν ρ Unit
  | [] => pure ()
  | call :: calls => do
      f call
      performAll f calls

theorem performAll_singleton (f : ConnCall → Act ν ρ Unit) (call : ConnCall) (w : World ν ρ) :
    performAll f [call] w = f call w := by
  simp only [performAll]
  cases hrun : f call w with
  | mk value world es =>
      cases value with
      | error e => rw [Act.bind_error hrun]
      | ok u =>
          rw [Act.bind_ok hrun]
          simp

/-- A program that goes on where another has returned. -/
def Outcome.andThen (o : Outcome ν ρ Unit) (k : Act ν ρ Unit) : Outcome ν ρ Unit :=
  match o.value with
  | .ok _ => (k o.world).after o.events
  | .error _ => o

theorem performAll_cons (f : ConnCall → Act ν ρ Unit) (call : ConnCall) (calls : List ConnCall)
    (w : World ν ρ) : performAll f (call :: calls) w = (f call w).andThen (performAll f calls) := by
  rw [performAll, Act.bind_apply]
  cases hrun : f call w with
  | mk value world es => cases value <;> rfl

theorem andThen_congr {o : Outcome ν ρ Unit} {k k' : Act ν ρ Unit}
    (hsame : o.value = .ok () → k o.world = k' o.world) : o.andThen k = o.andThen k' := by
  obtain ⟨value, world, es⟩ := o
  cases value with
  | error e => rfl
  | ok _ => exact congrArg (Outcome.after es) (hsame rfl)

theorem andThen_events {o : Outcome ν ρ Unit} {k : Act ν ρ Unit} (hvalue : o.value = .ok ()) :
    (o.andThen k).settle.2 = o.events ++ (k o.world).settle.2 := by
  obtain ⟨value, world, es⟩ := o
  cases hvalue
  cases hlast : k world with
  | mk value' world' es' =>
      cases value' <;> simp [Outcome.andThen, Outcome.after, Outcome.settle, hlast]

/-- From `w`, both programs do the same, up to the calls that `x` notes and `y`
performs as `f` does. -/
def Spread (f : ConnCall → Act ν ρ Unit) (x : Act (List ConnCall) ρ Unit) (y : Act ν ρ Unit)
    (w : World (List ConnCall) ρ) : Prop :=
  ∃ calls, (x w).world.net = w.net ++ calls ∧
    ∀ net, y (w.withNet net) = ((x w).withNet net).andThen (performAll f calls)

variable {f : ConnCall → Act ν ρ Unit}

theorem Tail.spread {x : Act (List ConnCall) ρ Unit} {y : Act ν ρ Unit} (htail : Tail f x y w) :
    Spread f x y w := by
  rcases htail with hinert | ⟨call, hvalue, hnet, hsame⟩
  · refine ⟨[], by rw [hinert.net, List.append_nil], ?_⟩
    intro net
    rw [hinert.same net]
    cases hrun : x w with
    | mk value world es =>
        cases value <;> simp [Outcome.andThen, Outcome.withNet, Outcome.after, performAll]
  · refine ⟨[call], hnet, ?_⟩
    intro net
    rw [hsame net]
    simp [Outcome.andThen, Outcome.withNet, hvalue, performAll_singleton]

theorem Spread.bind {α : Type} {x : Act (List ConnCall) ρ α} {y : Act ν ρ α}
    {k : α → Act (List ConnCall) ρ Unit} {k' : α → Act ν ρ Unit} (hx : Inert x y w)
    (hk : ∀ a, (x w).value = .ok a → Spread f (k a) (k' a) (x w).world) :
    Spread f (x >>= k) (y >>= k') w := by
  cases hrun : x w with
  | mk value world es =>
      have hnet := hx.net
      have hsame := hx.same
      rw [hrun] at hnet hsame hk
      cases value with
      | error e =>
          refine ⟨[], ?_, ?_⟩
          · rw [Act.bind_error hrun, List.append_nil]
            exact hnet
          · intro net
            rw [Act.bind_error (hsame net), Act.bind_error hrun]
            rfl
      | ok a =>
          obtain ⟨calls, hcalls, hthen⟩ := hk a rfl
          refine ⟨calls, ?_, ?_⟩
          · rw [Act.bind_ok hrun]
            exact hcalls.trans (congrArg (· ++ calls) hnet)
          · intro net
            have hgo : k' a (world.withNet net) =
              ((k a world).withNet net).andThen (performAll f calls) := hthen net
            rw [Act.bind_ok (hsame net), Act.bind_ok hrun]
            simp only [hgo]
            cases hlast : k a world with
            | mk value' world' es' =>
                cases value' <;> simp [Outcome.andThen, Outcome.withNet, Outcome.after]

/-- A write and then a read: both are noted before either is performed. -/
theorem Spread.writeThenReceive (msg : Message) (wh : WHandler) :
    Spread f
      (do
        AsyncConnection.con.write msg wh
        FSM.receive AsyncConnection.con)
      (do
        (ConnectionBase.ofCalls f).write msg wh
        FSM.receive (ConnectionBase.ofCalls f)) w := by
  refine ⟨[.write msg wh, .header], by simp [Act.bind_apply], ?_⟩
  intro net
  have hwrite (u : World ν ρ) : (ConnectionBase.ofCalls f).write msg wh u =
      (f (.write msg wh) u).after [.write msg] := rfl
  have hreceive : FSM.receive (ConnectionBase.ofCalls f) = f .header := by
    unfold FSM.receive ConnectionBase.read
    rw [if_neg (by decide)]
    rfl
  have hfirst := hwrite (w.withNet net)
  have hall : performAll f [.write msg wh, .header] (w.withNet net) =
      (f (.write msg wh) >>= fun _ => f .header) (w.withNet net) := by
    rw [performAll]
    cases hrun : f (.write msg wh) (w.withNet net) with
    | mk value world es =>
        cases value with
        | error e => rw [Act.bind_error hrun, Act.bind_error hrun]
        | ok u => rw [Act.bind_ok hrun, Act.bind_ok hrun, performAll_singleton]
  rw [hreceive]
  cases hrun : f (.write msg wh) (w.withNet net) with
  | mk value world es =>
      rw [hrun] at hfirst
      change _ = (performAll f [.write msg wh, .header] (w.withNet net)).after [.write msg]
      rw [hall]
      cases value with
      | error e =>
          rw [Act.bind_error hrun, Act.bind_error hfirst]
          rfl
      | ok u =>
          rw [Act.bind_ok hrun, Act.bind_ok hfirst]
          rfl

theorem Spread.authenticate (head : Header) (body : Buffer) :
    Spread f (FSM.authenticate ext AsyncConnection.con head body)
      (FSM.authenticate ext (ConnectionBase.ofCalls f) head body) w := by
  unfold FSM.authenticate
  cases hdec : Authentication.deserialize ext.uninitialised head body with
  | error e => exact Spread.bind (Inert.throw e) (fun a ha => by cases ha)
  | ok decoded =>
      apply Spread.bind (Inert.pure decoded)
      intro a _
      dsimp only
      split
      · exact Tail.spread (Or.inl (Inert.callHandler _))
      split
      · exact Spread.bind (Inert.setState _) fun _ _ => Tail.receive.spread
      split
      · exact Spread.bind (Inert.setState _) fun _ _ => Spread.writeThenReceive _ _
      · exact Tail.receive.spread

/-- The callback of a call. Only a request for an MD5 password starts two. -/
theorem Spread.resume (ext : Externals ρ) (r : Completion) (call : ConnCall) :
    Spread f (call.resume ext AsyncConnection.con r)
      (call.resume ext (ConnectionBase.ofCalls f) r) w := by
  by_cases hmsg : ∀ len head, call = .read len (.body head) → r.ec.isError = false →
      w.fsm.state = .AUTH → ¬ IsAuthentication 5 head r.data
  · exact (Tail.resume ext r call hmsg).spread
  · push Not at hmsg
    obtain ⟨len, head, rfl, hok, hstate, htype, _⟩ := hmsg
    have hrun (con : ConnectionBase ν ρ) :
        RHandler.run ext con (.body head) r.ec r.data =
          FSM.next ext con head.mtype head r.data := by
      unfold RHandler.run
      rw [if_neg (by simp [hok])]
    have hrun' : RHandler.run ext (AsyncConnection.con (ρ := ρ)) (.body head) r.ec r.data =
        FSM.next ext AsyncConnection.con head.mtype head r.data := by
      unfold RHandler.run
      rw [if_neg (by simp [hok])]
    simp only [ConnCall.resume, hrun, hrun']
    unfold FSM.next
    apply Spread.bind Inert.getFsm
    intro fsm hfsm
    cases hfsm
    apply Spread.bind (Inert.emit _)
    intro _ _
    rw [hstate, htype]
    exact Spread.authenticate head r.data

/-! Schedules. -/

/-- A step that completes a call. -/
def Completes (_ : World (List ConnCall) ρ) (label : Label) : Prop := label.isCall = false

/-- What was done over the peer `p`, the event loop may do with its outstanding
calls, one completion after the other, and have the calls `kept` left; the
completions bring what was taken off the peer's input. -/
def Scheduled (ext : Externals ρ) (w : World (List ConnCall) ρ) (p : Peer) (kept : List ConnCall)
    (o : Outcome Peer ρ Unit) : Prop :=
  ∃ labels u, (AsyncConnection.machine ext).Run Completes w labels u o.settle.2 ∧
    o.world = u.withNet o.world.net ∧ (o.value = .ok () → u.net = kept) ∧
    received labels ++ o.world.net.input <+: p.input ∧ ∀ e ∈ o.events, e.isAbort = false

theorem Scheduled.input_le {p : Peer} {kept : List ConnCall} {o : Outcome Peer ρ Unit}
    (hsched : Scheduled ext w p kept o) : o.world.net.input.length ≤ p.input.length := by
  obtain ⟨labels, u, _, _, _, hinput, _⟩ := hsched
  have hle := hinput.length_le
  rw [List.length_append] at hle
  omega

/-- One schedule after another. -/
theorem Scheduled.andThen {p : Peer} {mid kept : List ConnCall} {o : Outcome Peer ρ Unit}
    {k : Act Peer ρ Unit} (hfirst : Scheduled ext w p mid o)
    (hthen : ∀ u, o.value = .ok () → u.net = mid → (Sound w → Sound u) →
      Scheduled ext u o.world.net kept (k (u.withNet o.world.net))) :
    Scheduled ext w p kept (o.andThen k) := by
  obtain ⟨labels, u, hrun, hworld, hnet, hinput, hquiet⟩ := hfirst
  obtain ⟨value, world, es⟩ := o
  cases value with
  | error e =>
      refine ⟨labels, u, hrun, hworld, ?_, hinput, hquiet⟩
      intro hok
      cases hok
  | ok _ =>
      obtain ⟨labels', u', hrun', hworld', hnet', hinput', hquiet'⟩ :=
        hthen u rfl (hnet rfl) fun hsound => (run_balance hsound hrun).1
      rw [← hworld] at hrun' hworld' hnet' hinput' hquiet'
      refine ⟨labels ++ labels', u', ?_, hworld', hnet', ?_, ?_⟩
      · rw [andThen_events rfl]
        exact hrun.trans hrun'
      · have hsplit : received (labels ++ labels') = received labels ++ received labels' := by
          simp [received]
        rw [hsplit, List.append_assoc]
        exact ((List.prefix_append_right_inj _).mpr hinput').trans hinput
      · intro e he
        exact (List.mem_append.mp he).elim (hquiet e) (hquiet' e)

/-- One callback: the event loop completes the call, and the blocking connection
goes on to perform the calls that the callback started. They need less depth than
the call did. -/
theorem perform_first (ext : Externals ρ) (p : Peer) {call : ConnCall}
    {before after : List ConnCall} (hsound : Sound w) (hnet : w.net = before ++ call :: after) :
    ∃ (o : Outcome (List ConnCall) ρ Unit) (calls : List ConnCall),
      Scheduled ext w p (before ++ after ++ calls) (o.withNet (p.serve call).2) ∧
      work calls + (p.serve call).2.input.length < call.rank + p.input.length ∧
      ∀ n, Connection.perform ext (n + 1) call (w.withNet p) =
        (o.withNet (p.serve call).2).andThen (performAll (Connection.perform ext n) calls) := by
  have hcall : w.net[before.length]? = some call := by
    rw [hnet]
    simp
  have herase : w.net.eraseIdx before.length = before ++ after := by
    rw [hnet, List.eraseIdx_append_of_length_le (le_refl _)]
    simp
  have hadmits := serve_admits p call
  have hplain := hsound.plain call (List.mem_of_getElem? hcall)
  obtain ⟨h, hh⟩ := hsound.handler (List.ne_nil_of_mem (List.mem_of_getElem? hcall))
  have hwork := (resumes_of_complete ext (w := { w with net := before ++ after }) hh
    (p.serve call).1 hplain).work hadmits hplain
  have hstep : (AsyncConnection.machine ext).step w (.complete before.length (p.serve call).1) =
      some (call.resume ext AsyncConnection.con (p.serve call).1
        { w with net := before ++ after }).settle := by
    simp only [AsyncConnection.machine, hcall, if_pos hadmits, herase]
  have hspread (n : Nat) := Spread.resume (f := Connection.perform ext n)
    (w := { w with net := before ++ after }) ext (p.serve call).1 call
  have hsucc (n : Nat) : Connection.perform ext (n + 1) call (w.withNet p) =
      call.resume ext (.ofCalls (Connection.perform ext n)) (p.serve call).1
        (World.withNet { w with net := before ++ after } (p.serve call).2) :=
    Connection.perform_succ n call p
  have hquiet := resume_no_abort (w := { w with net := before ++ after }) (r := (p.serve call).1)
    ext hh hplain
  unfold Spread at hspread
  generalize call.resume ext AsyncConnection.con (p.serve call).1
    { w with net := before ++ after } = o at hstep hspread hwork hquiet
  obtain ⟨calls, hcalls, _⟩ := hspread 0
  dsimp only at hcalls
  have htakes := serve_takes p call
  refine ⟨o, calls, ?_, ?_, ?_⟩
  · have hsettle : o.settle = (o.world, o.settle.2) := by
      rw [← settle_world]
    refine ⟨[.complete before.length (p.serve call).1], o.world, ?_, rfl, fun _ => hcalls, ?_,
      hquiet⟩
    · rw [settle_withNet]
      rw [hsettle] at hstep
      exact Machine.Run.snoc Machine.Run.nil rfl hstep
    · simpa [received, Label.data, Outcome.withNet, World.withNet] using htakes
  · have hle := htakes.length_le
    rw [List.length_append] at hle
    rw [settle_world, hcalls, work_append] at hwork
    dsimp only at hwork
    omega
  · intro n
    obtain ⟨calls', hcalls', hsame⟩ := hspread n
    have hboth : calls' = calls := List.append_cancel_left (hcalls'.symm.trans hcalls)
    subst hboth
    rw [hsucc n]
    exact hsame _

/-- Calls that are performed one after the other, if each of them is a schedule. -/
theorem performAll_scheduled {n : Nat}
    (hperform : ∀ (w : World (List ConnCall) ρ) (p : Peer) (call : ConnCall)
      (before after : List ConnCall), Sound w → w.net = before ++ call :: after →
      p.input.length + call.rank ≤ n →
      Scheduled ext w p (before ++ after) (Connection.perform ext n call (w.withNet p)))
    (calls before : List ConnCall) (w : World (List ConnCall) ρ) (p : Peer) (hsound : Sound w)
    (hnet : w.net = before ++ calls) (hn : p.input.length + work calls ≤ n) :
    Scheduled ext w p before (performAll (Connection.perform ext n) calls (w.withNet p)) := by
  induction calls generalizing w p with
  | nil =>
      refine ⟨[], w, Machine.Run.nil, rfl, ?_, List.prefix_refl _, by rintro e ⟨⟩⟩
      intro _
      rw [hnet, List.append_nil]
  | cons call calls ih =>
      rw [work_cons] at hn
      have hfirst := hperform w p call before calls hsound hnet (by omega)
      have hle := hfirst.input_le
      rw [performAll_cons]
      apply hfirst.andThen
      intro u _ hu hkeep
      exact ih u _ (hkeep hsound) hu (by omega)

/-- The nested callbacks of an outstanding call are a schedule of it, if they may
go as deep as the input asks for. -/
theorem perform_scheduled (ext : Externals ρ) (n : Nat) (w : World (List ConnCall) ρ) (p : Peer)
    (call : ConnCall) (before after : List ConnCall) (hsound : Sound w)
    (hnet : w.net = before ++ call :: after) (hn : p.input.length + call.rank ≤ n) :
    Scheduled ext w p (before ++ after) (Connection.perform ext n call (w.withNet p)) := by
  induction n generalizing w p call before after with
  | zero =>
      have hpos := call.rank_pos
      omega
  | succ n ih =>
      obtain ⟨o, calls, hfirst, hless, hsucc⟩ := perform_first ext p hsound hnet
      rw [hsucc n]
      apply hfirst.andThen
      intro u _ hu hkeep
      apply performAll_scheduled ih calls (before ++ after) u _ (hkeep hsound) hu
      dsimp only [Outcome.withNet, World.withNet]
      omega

/-- The world that a schedule has led to, if it did not abort. -/
theorem Scheduled.reached {p : Peer} {kept : List ConnCall} {o : Outcome Peer ρ Unit}
    (hsched : Scheduled ext w p kept o) (hsound : Sound w) (hvalue : o.value = .ok ()) :
    ∃ u, Sound u ∧ u.net = kept ∧ o.world = u.withNet o.world.net := by
  obtain ⟨labels, u, hrun, hworld, hnet, _, _⟩ := hsched
  exact ⟨u, (run_balance hsound hrun).1, hnet hvalue, hworld⟩

theorem performAll_stable {n m : Nat}
    (hstable : ∀ (w : World (List ConnCall) ρ) (p : Peer) (call : ConnCall)
      (before after : List ConnCall), Sound w → w.net = before ++ call :: after →
      p.input.length + call.rank ≤ n → p.input.length + call.rank ≤ m →
      Connection.perform ext n call (w.withNet p) = Connection.perform ext m call (w.withNet p))
    (calls before : List ConnCall) (w : World (List ConnCall) ρ) (p : Peer) (hsound : Sound w)
    (hnet : w.net = before ++ calls) (hn : p.input.length + work calls ≤ n)
    (hm : p.input.length + work calls ≤ m) :
    performAll (Connection.perform ext n) calls (w.withNet p) =
      performAll (Connection.perform ext m) calls (w.withNet p) := by
  induction calls generalizing w p with
  | nil => rfl
  | cons call calls ih =>
      rw [work_cons] at hn hm
      have hfirst := perform_scheduled ext n w p call before calls hsound hnet (by omega)
      have hle := hfirst.input_le
      rw [performAll_cons, performAll_cons,
        ← hstable w p call before calls hsound hnet (by omega) (by omega)]
      apply andThen_congr
      intro hvalue
      obtain ⟨u, hu, hunet, hworld⟩ := hfirst.reached hsound hvalue
      rw [hworld]
      exact ih u _ hu hunet (by omega) (by omega)

/-- A greater depth than the input asks for changes nothing. -/
theorem perform_stable (ext : Externals ρ) (n m : Nat) (w : World (List ConnCall) ρ) (p : Peer)
    (call : ConnCall) (before after : List ConnCall) (hsound : Sound w)
    (hnet : w.net = before ++ call :: after) (hn : p.input.length + call.rank ≤ n)
    (hm : p.input.length + call.rank ≤ m) :
    Connection.perform ext n call (w.withNet p) = Connection.perform ext m call (w.withNet p) := by
  induction n generalizing w p call before after m with
  | zero =>
      have hpos := call.rank_pos
      omega
  | succ n ih =>
      cases m with
      | zero =>
          have hpos := call.rank_pos
          omega
      | succ m =>
          obtain ⟨o, calls, hfirst, hless, hsucc⟩ := perform_first ext p hsound hnet
          rw [hsucc n, hsucc m]
          apply andThen_congr
          intro hvalue
          obtain ⟨u, hu, hunet, hworld⟩ := hfirst.reached hsound hvalue
          rw [hworld]
          apply performAll_stable (fun w p call before after hs hw hn' hm' =>
            ih m w p call before after hs hw hn' hm') calls (before ++ after) u _ hu hunet
          · dsimp only [Outcome.withNet, World.withNet]
            omega
          · dsimp only [Outcome.withNet, World.withNet]
            omega

/-- A call of the user: the calls on the connection that it starts, noted or
performed. -/
theorem call_first (ext : Externals ρ) (c : Call) (hsound : Sound w) :
    ∃ (first : Outcome (List ConnCall) ρ Unit) (calls : List ConnCall),
      (AsyncConnection.machine ext).step w (.call c) = some (first.world, first.events) ∧
      first.value = .ok () ∧ Sound first.world ∧ first.world.net = w.net ++ calls ∧
      work calls ≤ 6 ∧ (∀ e ∈ first.events, e.isAbort = false) ∧
      ∀ (p : Peer) n, c.run (Connection.nested ext n) (w.withNet p) =
        (first.withNet p).andThen (performAll (Connection.perform ext n) calls) := by
  have hvalue := call_value c w
  have hstep : (AsyncConnection.machine ext).step w (.call c) =
      some ((c.run AsyncConnection.con w).world, (c.run AsyncConnection.con w).events) :=
    congrArg some (settle_of_ok hvalue)
  have hspread (n : Nat) := (Tail.request (f := Connection.perform ext n) (w := w) c).spread
  obtain ⟨calls, hcalls, _⟩ := hspread 0
  have hwork := step_work hsound hstep
  have hcase := step_cases hsound hstep
  refine ⟨_, calls, hstep, hvalue, hsound.step hcase, hcalls, ?_, ?_, ?_⟩
  · simp only [hcalls, work_append, List.countP_singleton, Label.isCall, if_true, Label.data,
      List.length_nil] at hwork
    omega
  · generalize (c.run AsyncConnection.con w).events = es at hcase
    generalize (c.run AsyncConnection.con w).world = w' at hcase
    cases hcase <;> simp
  · intro p n
    obtain ⟨calls', hcalls', hsame⟩ := hspread n
    have hboth : calls' = calls := List.append_cancel_left (hcalls'.symm.trans hcalls)
    subst hboth
    rw [Connection.nested_eq]
    exact hsame p

/-- A blocking call is a run of the event loop that completes what the call
starts, and nothing that was outstanding before. -/
theorem call_scheduled (ext : Externals ρ) (c : Call) (w : World (List ConnCall) ρ)
    (hsound : Sound w) (p : Peer) (n : Nat) (hn : p.input.length + 6 ≤ n) :
    let o := c.run (Connection.nested ext n) (w.withNet p)
    ∃ labels first u es rest,
      (AsyncConnection.machine ext).step w (.call c) = some (first, es) ∧
      (AsyncConnection.machine ext).Run Completes first labels u rest ∧
      o.settle.2 = es ++ rest ∧ o.world = u.withNet o.world.net ∧
      (o.value = .ok () → u.net = w.net) ∧ received labels ++ o.world.net.input <+: p.input ∧
      ∀ e ∈ o.events, e.isAbort = false := by
  obtain ⟨first, calls, hstep, hvalue, hfirst, hcalls, hwork, hquiet, hsync⟩ :=
    call_first ext c hsound
  obtain ⟨labels, u, hrun, hworld, hnet, hinput, hquiet'⟩ := performAll_scheduled
    (perform_scheduled ext n) calls w.net first.world p hfirst hcalls (by omega)
  dsimp only
  rw [hsync p n]
  obtain ⟨value, world, es⟩ := first
  cases hvalue
  refine ⟨labels, world, u, es, _, hstep, hrun, andThen_events rfl, hworld, hnet, hinput, ?_⟩
  intro e he
  exact (List.mem_append.mp he).elim (hquiet e) (hquiet' e)

theorem call_stable (ext : Externals ρ) (c : Call) (w : World (List ConnCall) ρ)
    (hsound : Sound w) (p : Peer) (n m : Nat) (hn : p.input.length + 6 ≤ n)
    (hm : p.input.length + 6 ≤ m) :
    c.run (Connection.nested ext n) (w.withNet p) =
      c.run (Connection.nested ext m) (w.withNet p) := by
  obtain ⟨first, calls, _, _, hfirst, hcalls, hwork, _, hsync⟩ := call_first ext c hsound
  rw [hsync p n, hsync p m]
  apply andThen_congr
  intro _
  exact performAll_stable (perform_stable ext n m) calls w.net first.world p hfirst hcalls
    (by omega) (by omega)

end Lapq
