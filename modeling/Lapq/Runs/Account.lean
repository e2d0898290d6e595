import Lapq.Runs.Exclusive
import Lapq.Runs.Truthful

/-!
Where the work of a run comes from and where it ends. Every call of the user
brings one handler invocation: at once, or at the end of a chain of calls on the
connection, unless an exception ends the chain. A request for an MD5 password
splits its chain in two. Chains are short but for the bytes the server sends.
-/

namespace Lapq

open Bytes

variable {ρ : Type} {ext : Externals ρ} {w w' : World (List ConnCall) ρ}
  {h : HandlerId} {r : Completion} {call : ConnCall} {es : List Event}

/-- A chain of calls ends in the invocation of a handler or in an exception. -/
@[simp] def Event.isEnd : Event → Bool
  | .handler .. | .abort _ => true
  | _ => false

def Message.isPassword : Message → Bool
  | .password _ => true
  | _ => false

@[simp] def Event.isPassword : Event → Bool
  | .write msg => msg.isPassword
  | _ => false

@[simp] def Event.isAbort : Event → Bool
  | .abort _ => true
  | _ => false

@[simp] def Label.isCall : Label → Bool
  | .call _ => true
  | .complete .. => false

def ends (events : List Event) : Nat := events.countP Event.isEnd

def passwords (events : List Event) : Nat := events.countP Event.isPassword

@[simp] theorem ends_nil : ends [] = 0 := rfl

@[simp] theorem ends_cons (e : Event) (events : List Event) :
    ends (e :: events) = ends events + if e.isEnd then 1 else 0 :=
  List.countP_cons

@[simp] theorem ends_append (events more : List Event) :
    ends (events ++ more) = ends events + ends more :=
  List.countP_append

@[simp] theorem passwords_nil : passwords [] = 0 := rfl

@[simp] theorem passwords_cons (e : Event) (events : List Event) :
    passwords (e :: events) = passwords events + if e.isPassword then 1 else 0 :=
  List.countP_cons

@[simp] theorem passwords_append (events more : List Event) :
    passwords (events ++ more) = passwords events + passwords more :=
  List.countP_append

theorem ResultEvents.quiet {fsm : FSM} (hes : ResultEvents fsm es) :
    ends es = 0 ∧ passwords es = 0 := by
  constructor
  · apply List.countP_eq_zero.mpr
    intro e he
    obtain ⟨id, call, _, rfl⟩ := hes e he
    simp
  · apply List.countP_eq_zero.mpr
    intro e he
    obtain ⟨id, call, _, rfl⟩ := hes e he
    simp

/-! Every chain has one end. -/

/-- A message goes on with its chain, ends it, or asks for a password and splits
it. -/
theorem Reacts.balance {head : Header} {body : Buffer} {o : Outcome (List ConnCall) ρ Unit}
    (hreact : Reacts h w head body o) :
    ends o.settle.2 + o.settle.1.net.length = w.net.length + 1 + passwords o.settle.2 := by
  cases hreact with
  | goOn results es hes =>
      obtain ⟨hends, hpasswords⟩ := hes.quiet
      simp [hends, hpasswords]
  | authOk _ _ => simp
  | md5 _ _ msg hpassword =>
      obtain ⟨text, rfl⟩ := hpassword
      simp [Message.isPassword]
  | report ec _ => simp [Nat.add_comm]
  | authError _ _ ec => simp [Nat.add_comm]
  | ready _ _ ec => simp [Nat.add_comm]
  | ended _ ec => simp [Nat.add_comm]
  | aborted e results es hes =>
      obtain ⟨hends, hpasswords⟩ := hes.quiet
      simp [hends, hpasswords, Nat.add_comm]

theorem Reacts.no_abort {head : Header} {body : Buffer} {o : Outcome (List ConnCall) ρ Unit}
    (hreact : Reacts h w head body o) : ∀ e ∈ o.events, e.isAbort = false := by
  have hresults {es : List Event} (hes : ResultEvents w.fsm es) : ∀ e ∈ es, e.isAbort = false := by
    intro e he
    obtain ⟨id, call, _, rfl⟩ := hes e he
    rfl
  cases hreact with
  | goOn results es hes => exact hresults hes
  | authOk _ _ => simp
  | md5 _ _ msg _ => simp
  | report ec _ => simp
  | authError _ _ ec => simp
  | ready _ _ ec => simp
  | ended _ ec => simp
  | aborted e results es hes => exact hresults hes

/-- An event of a program itself, and neither the exception that ends it nor a
password. -/
def Event.isPlain (e : Event) : Bool := !e.isAbort && !e.isPassword

/-- The closures of `connect` and of a write send no password. -/
theorem resume_plain (ext : Externals ρ) (hplain : call.Plain) (hread : call.isRead = false) :
    ∀ e ∈ (call.resume ext AsyncConnection.con r w).events, e.isPlain = true := by
  have hinvoke (eh : Option HandlerId) (ec : ErrorCode) :
      ∀ e ∈ (Act.invoke eh ec w : Outcome (List ConnCall) ρ Unit).events, e.isPlain = true := by
    cases eh <;> simp [Event.isPlain]
  have hunless (ec : ErrorCode) :
      ∀ e ∈ (FSM.receiveUnless AsyncConnection.con ec w).events, e.isPlain = true := by
    unfold FSM.receiveUnless
    split
    · exact hinvoke w.fsm.ehandler ec
    · simp
  have hthen (eh : Option HandlerId) (ec : ErrorCode) {x : Act (List ConnCall) ρ Unit}
      (hx : ∀ e ∈ (x w).events, e.isPlain = true) :
      ∀ e ∈ (WHandler.andThen eh ec x w).events, e.isPlain = true := by
    unfold WHandler.andThen
    split
    · exact hinvoke eh ec
    · exact hx
  have hquery {x : DBQuery → Act (List ConnCall) ρ Unit}
      (hx : ∀ q, ∀ e ∈ (x q w).events, e.isPlain = true) :
      ∀ e ∈ (FSM.withQuery x w).events, e.isPlain = true := by
    unfold FSM.withQuery
    cases hq : w.fsm.query with
    | none => simp [Act.bind_apply, hq]
    | some q => simpa [Act.bind_apply, hq] using hx q
  have hwrite {msg : Message} (hmsg : msg.isPassword = false) (wh : WHandler) :
      ∀ e ∈ (AsyncConnection.con.write msg wh w : Outcome (List ConnCall) ρ Unit).events,
        e.isPlain = true := by
    simp [Event.isPlain, hmsg]
  cases call with
  | read len rh => cases hread
  | connect eh =>
      cases eh with
      | connected option =>
          simp only [ConnCall.resume, EHandler.run]
          split
          · exact hinvoke w.fsm.ehandler r.ec
          · exact hwrite rfl _
      | sslConnected option eh => cases hplain
      | handshaken option eh => cases hplain
  | write msg wh =>
      cases wh with
      | startUpWritten => exact hunless _
      | queryWritten => exact hunless _
      | passwordWritten => exact hunless _
      | sslStartUpWritten eh => cases hplain
      | syncWritten eh => exact hthen eh _ (by simp)
      | parseSyncWritten eh => exact hthen eh _ (by simp)
      | bindWritten eh => exact hthen eh _ (hquery fun q => hwrite rfl _)
      | describeWritten eh => exact hthen eh _ (hquery fun q => hwrite rfl _)
      | executeWritten eh => exact hthen eh _ (hwrite rfl _)
      | parseWritten eh => exact hthen eh _ (hwrite rfl _)
      | terminateWritten =>
          cases hh : w.fsm.ehandler <;>
            simp [ConnCall.resume, WHandler.run, Act.bind_apply, Act.callHandler, hh,
              Event.isPlain]

/-- The closures of a read do not throw by an event either. -/
theorem read_no_abort (ext : Externals ρ) (hh : w.fsm.ehandler = some h) (rh : RHandler) :
    ∀ e ∈ (rh.run ext AsyncConnection.con r.ec r.data w).events, e.isAbort = false := by
  unfold RHandler.run
  split
  · rw [Act.callHandler_of_some hh]
    simp
  cases rh with
  | header =>
      cases hdec : Header.deserialize r.data with
      | error e => simp [Act.bind_apply]
      | ok decoded =>
          simp only [Act.lift_ok, Act.bind_apply, Act.pure_apply, ConnectionBase.read]
          split <;> simp [AsyncConnection.con, ConnectionBase.ofCalls, AsyncConnection.push]
  | body head =>
      obtain ⟨o, hrun, hreact⟩ := next_cases ext hh head r.data
      simp only [hrun]
      intro e he
      rcases List.mem_cons.mp he with rfl | hmem
      · rfl
      rcases hreact with ⟨_, rfl⟩ | ⟨_, hreact⟩
      · cases hmem
      · exact hreact.no_abort e hmem

theorem resume_no_abort (ext : Externals ρ) (hh : w.fsm.ehandler = some h)
    (hplain : call.Plain) :
    ∀ e ∈ (call.resume ext AsyncConnection.con r w).events, e.isAbort = false := by
  have hother (hread : call.isRead = false) :
      ∀ e ∈ (call.resume ext AsyncConnection.con r w).events, e.isAbort = false := by
    intro e he
    have hevent := resume_plain ext hplain hread e he
    simp only [Event.isPlain, Bool.and_eq_true, Bool.not_eq_true'] at hevent
    exact hevent.1
  cases call with
  | read len rh => exact read_no_abort ext hh rh
  | connect eh => exact hother rfl
  | write msg wh => exact hother rfl

theorem passwords_settle (o : Outcome (List ConnCall) ρ Unit) :
    passwords o.settle.2 = passwords o.events := by
  obtain ⟨value, world, es⟩ := o
  cases value <;> simp [Outcome.settle]

/-- A completed call goes on with its chain, ends it, or splits it. -/
theorem Resumes.balance (hres : Resumes h w r call w' es)
    (hquiet : call.isRead = false → passwords es = 0) :
    ends es + w'.net.length = w.net.length + 1 + passwords es := by
  cases hres with
  | reported _ ec _ => simp [Nat.add_comm]
  | lost _ e => simp [Nat.add_comm]
  | wrote _ msg wh _ _ _ hfrom _ =>
      have hread : call.isRead = false := by
        rcases hfrom with ⟨eh, rfl⟩ | ⟨msg', wh', rfl⟩ <;> rfl
      simp [hquiet hread]
  | reading msg wh _ => simp
  | header len head _ _ _ _ => simp
  | closed msg ec => simp [Nat.add_comm]
  | dispatched len head _ o hreact =>
      rcases hreact with ⟨_, rfl⟩ | ⟨_, hreact⟩
      · simp [Nat.add_comm]
      · simpa using hreact.balance

/-- Only a message that is read makes the state machine send a password. -/
theorem step_passwords {i : Nat} (hsound : Sound w) (hcall : w.net[i]? = some call)
    (hread : call.isRead = false)
    (hstep : (AsyncConnection.machine ext).step w (.complete i r) = some (w', es)) :
    passwords es = 0 := by
  have hplain := hsound.plain call (List.mem_of_getElem? hcall)
  have hresume := resume_plain (w := { w with net := w.net.eraseIdx i }) (r := r) ext
    hplain hread
  simp only [AsyncConnection.machine, hcall] at hstep
  split at hstep
  · have hsettle := passwords_settle (call.resume ext AsyncConnection.con r
      { w with net := w.net.eraseIdx i })
    rw [Option.some.inj hstep] at hsettle
    rw [hsettle]
    apply List.countP_eq_zero.mpr
    intro e he
    have hevent := hresume e he
    simp only [Event.isPlain, Bool.and_eq_true, Bool.not_eq_true'] at hevent
    exact ne_true_of_eq_false hevent.2
  · cases hstep

theorem step_balance {label : Label} (hsound : Sound w)
    (hstep : (AsyncConnection.machine ext).step w label = some (w', es)) :
    ends es + w'.net.length =
      w.net.length + passwords es + [label].countP Label.isCall := by
  cases step_cases hsound hstep with
  | connect option h => simp
  | reject c _ _ => simp [Nat.add_comm]
  | accept c hc hstate fsm _ _ msg wh hmsg _ _ =>
      have hpassword : msg.isPassword = false := by
        cases msg <;> first | rfl | cases hmsg
      simp [hpassword]
  | close h => simp [Message.isPassword]
  | complete i r call hcall _ h _ hres =>
      have hlength : w.net.length = (w.net.eraseIdx i).length + 1 := by
        obtain ⟨hi, _⟩ := List.getElem?_eq_some_iff.mp hcall
        rw [List.length_eraseIdx_add_one hi]
      have hbalance := hres.balance fun hread => step_passwords hsound hcall hread hstep
      simp only [List.countP_singleton, Label.isCall]
      simp at hbalance ⊢
      omega

/-- In a run from any sound world, what was outstanding, was called, or was
split off for a password has ended or is outstanding. -/
theorem run_balance {C : World (List ConnCall) ρ → Label → Prop} {labels : List Label}
    {t : World (List ConnCall) ρ} {events : List Event} (hsound : Sound w)
    (hrun : (AsyncConnection.machine ext).Run C w labels t events) :
    Sound t ∧ ends events + t.net.length =
      w.net.length + passwords events + labels.countP Label.isCall := by
  refine hrun.invariant (fun labels t events => Sound t ∧ ends events + t.net.length =
    w.net.length + passwords events + labels.countP Label.isCall) ⟨hsound, by simp⟩ ?_
  rintro labels t u events emitted label ⟨ht, hbalance⟩ _ hstep
  have hone := step_balance ht hstep
  refine ⟨ht.step (step_cases ht hstep), ?_⟩
  simp only [ends_append, passwords_append, List.countP_append]
  omega

/-- A message that is read out of `AUTH` is no request for a password. -/
theorem Resumes.no_password (hres : Resumes h w r call w' es) (hread : call.isRead = true)
    (hstate : w.fsm.state ≠ .AUTH) : passwords es = 0 := by
  cases hres with
  | reported _ ec _ => simp
  | lost _ e => simp
  | wrote _ msg wh _ _ _ hfrom _ =>
      rcases hfrom with ⟨eh, rfl⟩ | ⟨msg', wh', rfl⟩ <;> cases hread
  | reading msg wh _ => cases hread
  | header len head _ _ _ _ => simp
  | closed msg ec => cases hread
  | dispatched len head _ o hreact =>
      rcases hreact with ⟨_, rfl⟩ | ⟨_, hreact⟩
      · simp
      cases hreact with
      | goOn results es hes => simp [hes.quiet.2]
      | authOk hauth _ => exact absurd hauth hstate
      | md5 hauth _ msg _ => exact absurd hauth hstate
      | report ec _ => simp
      | authError hauth _ ec => exact absurd hauth hstate
      | ready _ _ ec => simp
      | ended _ ec => simp
      | aborted e results es hes => simp [hes.quiet.2]

/-- In every run, the calls of the user and the passwords sent are as many as
the invocations of handlers, the exceptions and the calls outstanding. -/
theorem calls_accounted (ext : Externals ρ) (results : ResultId → ρ) (labels : List Label)
    (t : World (List ConnCall) ρ) (events : List Event)
    (hrun : (AsyncConnection.machine ext).Run (fun _ _ => True) (World.init results) labels t
      events) :
    labels.countP Label.isCall + passwords events = ends events + t.net.length := by
  have hbalance := (run_balance (Sound.init results) hrun).2
  simp only [World.init, List.length_nil] at hbalance
  omega

/-- A server that asks for an MD5 password. -/
def challenged : List Label :=
  [.call (.connect .empty 0), .complete 0 (.delivered []), .complete 0 (.sent (.startUp .empty)),
    .complete 0 (.delivered [82, 0, 0, 0, 12]), .complete 0 (.delivered [0, 0, 0, 5, 1, 2, 3, 4])]

theorem calls_accounted_challenged :
    ∃ t events, (AsyncConnection.machine (Externals.standard fun _ => [])).exec
        (World.init fun _ => []) challenged = some (t, events) ∧
      1 + passwords events = ends events + t.net.length ∧ t.net.length = 2 :=
  ⟨_, _, rfl, calls_accounted (Externals.standard fun _ => []) _ challenged _ _
    (Machine.run_of_exec rfl), rfl⟩

/-! The work of a run. -/

/-- What is left to do of the calls outstanding, but for what the server sends. -/
def work (calls : List ConnCall) : Nat := (calls.map ConnCall.rank).sum

@[simp] theorem work_nil : work [] = 0 := rfl

@[simp] theorem work_cons (call : ConnCall) (calls : List ConnCall) :
    work (call :: calls) = call.rank + work calls := rfl

@[simp] theorem work_append (calls more : List ConnCall) :
    work (calls ++ more) = work calls + work more := by
  simp [work]

theorem work_of_getElem? {calls : List ConnCall} {i : Nat} (hcall : calls[i]? = some call) :
    work calls = call.rank + work (calls.eraseIdx i) := by
  obtain ⟨hi, rfl⟩ := List.getElem?_eq_some_iff.mp hcall
  exact ((List.getElem_cons_eraseIdx_perm hi).map ConnCall.rank).sum_nat.symm

theorem ConnCall.rank_pos (call : ConnCall) : 1 ≤ call.rank := by
  unfold ConnCall.rank
  split <;> omega

/-- The code of an authentication message takes four bytes. -/
theorem authCode_length {body : Buffer} {code : Int} (hcode : authCode body = some code) :
    4 ≤ body.length := by
  obtain ⟨n, hread, _⟩ := Option.map_eq_some_iff.mp hcode
  obtain ⟨_, rest, hbody⟩ := read32_some hread
  rw [hbody, List.length_append, be32_length]
  omega

/-- Every completion leaves less to do than there was with the bytes it brings. -/
theorem Resumes.work (hres : Resumes h w r call w' es) (hadmits : call.Admits r)
    (hplain : call.Plain) :
    work w'.net + 1 ≤ work w.net + call.rank + r.data.length := by
  have hpos := call.rank_pos
  cases hres with
  | reported _ ec _ => omega
  | lost _ e => omega
  | wrote _ msg wh _ _ _ _ hrank =>
      simp only [work_append, work_cons, work_nil]
      omega
  | reading msg wh _ =>
      have hwrite : 3 ≤ ConnCall.rank (.write msg wh) := by
        cases wh <;> simp [ConnCall.rank]
      simp only [work_append, work_cons, work_nil, show ConnCall.header.rank = 1 from rfl]
      omega
  | header len head hok _ _ _ =>
      have hlength := hadmits.length_eq hok
      have hsize : len = 5 := hplain
      simp only [work_append, work_cons, work_nil, ConnCall.rank]
      omega
  | closed msg ec => omega
  | dispatched len head hok o hreact =>
      have hlength := hadmits.length_eq hok
      rcases hreact with ⟨_, rfl⟩ | ⟨_, hreact⟩
      · simp only [settle_error, ConnCall.rank]
        omega
      cases hreact with
      | md5 _ hmsg msg _ =>
          have hfour := authCode_length hmsg.2
          simp only [settle_ok, work_append, work_cons, work_nil, ConnCall.rank, ConnCall.header]
          omega
      | goOn results es _ =>
          simp only [settle_ok, work_append, work_cons, work_nil, ConnCall.rank, ConnCall.header]
          omega
      | authOk _ _ =>
          simp only [settle_ok, work_append, work_cons, work_nil, ConnCall.rank, ConnCall.header]
          omega
      | report ec _ => simp only [settle_ok]; omega
      | authError _ _ ec => simp only [settle_ok]; omega
      | ready _ _ ec => simp only [settle_ok]; omega
      | ended _ ec => simp only [settle_ok]; omega
      | aborted e results es _ => simp only [settle_error]; omega

theorem step_work {label : Label} (hsound : Sound w)
    (hstep : (AsyncConnection.machine ext).step w label = some (w', es)) :
    work w'.net + 1 ≤ work w.net + 7 * [label].countP Label.isCall + label.data.length := by
  have hcall (call : ConnCall) : work (w.net ++ [call]) + 1 ≤ work w.net + 7 := by
    have hrank := call.rank_le
    simp only [work_append, work_cons, work_nil]
    omega
  cases step_cases hsound hstep with
  | connect option h => simpa [Label.data] using hcall _
  | reject c _ _ => simp [Label.data]
  | accept c _ _ fsm _ _ msg wh _ _ _ => simpa [Label.data] using hcall (.write msg wh)
  | close h => simpa [Label.data] using hcall _
  | complete i r call hi hadmits h _ hres =>
      have hwork := hres.work hadmits (hsound.plain call (List.mem_of_getElem? hi))
      have hsplit := work_of_getElem? hi
      simp only [List.countP_singleton, Label.isCall, Label.data] at hwork ⊢
      simp only [Bool.false_eq_true, if_false]
      omega

theorem run_work {C : World (List ConnCall) ρ → Label → Prop} {labels : List Label}
    {t : World (List ConnCall) ρ} {events : List Event} (hsound : Sound w)
    (hrun : (AsyncConnection.machine ext).Run C w labels t events) :
    labels.length + work t.net ≤
      work w.net + 7 * labels.countP Label.isCall + (received labels).length := by
  have hinv : Sound t ∧ labels.length + work t.net ≤
      work w.net + 7 * labels.countP Label.isCall + (received labels).length := by
    refine hrun.invariant (fun labels t _ => Sound t ∧ labels.length + work t.net ≤
      work w.net + 7 * labels.countP Label.isCall + (received labels).length)
      ⟨hsound, by simp⟩ ?_
    rintro labels t u events emitted label ⟨ht, hwork⟩ _ hstep
    have hone := step_work ht hstep
    have hdata : received (labels ++ [label]) = received labels ++ label.data := by
      simp [received]
    refine ⟨ht.step (step_cases ht hstep), ?_⟩
    simp only [hdata, List.length_append, List.countP_append, List.length_singleton]
    omega
  exact hinv.2

/-- In every run, whatever the server sends and in whatever order, at most six
completions are handled for each call of the user, and one for each byte
received; the calls outstanding are part of the six. -/
theorem work_bounded (ext : Externals ρ) (results : ResultId → ρ) (labels : List Label)
    (t : World (List ConnCall) ρ) (events : List Event)
    (hrun : (AsyncConnection.machine ext).Run (fun _ _ => True) (World.init results) labels t
      events) :
    labels.countP (fun label => !label.isCall) + t.net.length ≤
      6 * labels.countP Label.isCall + (received labels).length := by
  have hwork := run_work (Sound.init results) hrun
  have hsplit : labels.length = labels.countP Label.isCall +
      labels.countP (fun label => !label.isCall) := by
    simpa using List.length_eq_countP_add_countP Label.isCall (l := labels)
  have hnet (calls : List ConnCall) : calls.length ≤ work calls := by
    induction calls with
    | nil => simp
    | cons call calls ih =>
        have hpos := call.rank_pos
        simp only [List.length_cons, work_cons]
        omega
  have hleft := hnet t.net
  simp only [World.init, work_nil] at hwork
  omega

theorem work_bounded_challenged :
    ∃ t events, (AsyncConnection.machine (Externals.standard fun _ => [])).exec
        (World.init fun _ => []) challenged = some (t, events) ∧
      4 + t.net.length ≤ 6 * 1 + 13 :=
  ⟨_, _, rfl, work_bounded (Externals.standard fun _ => []) _ challenged _ _
    (Machine.run_of_exec rfl)⟩

end Lapq
