import Lapq.Replies.Session

/-!
Messages that make no difference. A message of a type that the state has no
handler for is read and dropped, and so is a notice in an operation; the event
loop then stands where it stood, with these bytes less. Two runs, with and
without such messages, are compared round by round up to the place where they
are inserted and from there on.
-/

namespace Lapq

open Bytes Backend

variable {ρ : Type} {ext : Externals ρ}

/-- Events that a user, the server or a result object can see. -/
def Event.isVisible : Event → Bool
  | .dispatch .. => false
  | _ => true

/-- A well-framed message that the state machine drops in a state: its type has
no entry in the row of the state, or it is a notice in an operation. -/
def Backend.Dropped (state : State) (msg : Backend) : Prop :=
  msg.body.length + 4 < 2 ^ 31 ∧
    ((∃ transition, tableRow state = some transition ∧ transition.find msg.mtype = none) ∨
      (state = .QUERY ∨ state = .EQUERY) ∧
        ∃ fields, msg = .noticeResponse fields ∧ ∀ f ∈ fields, ValidErrorField f)

/-! Peers with the same bytes to send. -/

namespace Peer

theorem serve_fault (p : Peer) (call : ConnCall) : (p.serve call).2.fault = p.fault := by
  unfold serve
  split
  · rfl
  · split
    · rfl
    · rfl
    · split
      · rfl
      · rfl

theorem Faultless.serve {p : Peer} (hp : p.Faultless) (call : ConnCall) :
    (p.serve call).2.Faultless := by
  intro k
  rw [serve_fault]
  exact hp k

/-- The same bytes, and the same error behind them. -/
def Alike (p q : Peer) : Prop := p.input = q.input ∧ p.eof = q.eof

theorem Alike.serve {p q : Peer} (h : Alike p q) (hp : p.Faultless) (hq : q.Faultless)
    (call : ConnCall) :
    (p.serve call).1 = (q.serve call).1 ∧ Alike (p.serve call).2 (q.serve call).2 := by
  obtain ⟨hinput, heof⟩ := h
  unfold Peer.serve
  rw [hp p.step, hq q.step]
  cases call with
  | connect eh => exact ⟨rfl, hinput, heof⟩
  | write msg wh => exact ⟨rfl, hinput, heof⟩
  | read len rh =>
      dsimp only
      rw [hinput, heof]
      split
      · exact ⟨rfl, rfl, rfl⟩
      · exact ⟨rfl, rfl, rfl⟩

theorem serve_suffix (p : Peer) (call : ConnCall) : (p.serve call).2.input <:+ p.input := by
  unfold serve
  split
  · exact List.suffix_refl _
  · split
    · exact List.suffix_refl _
    · exact List.suffix_refl _
    · split
      · exact List.drop_suffix _ _
      · exact List.nil_suffix

/-- The peer with other bytes to send. -/
def sending (p : Peer) (input : Buffer) : Peer := { p with input := input }

/-- A read that succeeds and leaves `post` to be read does not notice what
stands before that. -/
theorem serve_sending {p : Peer} (hp : p.Faultless) {pre pre' post : Buffer} (ins : Buffer)
    (call : ConnCall) (hinput : p.input = pre ++ post)
    (hok : ∀ len rh, call = .read len rh → (p.serve call).1.ec.isError = false)
    (hpost : (p.serve call).2.input = pre' ++ post) :
    (p.sending (pre ++ (ins ++ post))).serve call =
      ((p.serve call).1, (p.serve call).2.sending (pre' ++ (ins ++ post))) := by
  unfold Peer.serve sending at *
  rw [hp p.step] at *
  cases call with
  | connect eh =>
      rw [hinput] at hpost
      rw [List.append_cancel_right hpost]
  | write msg wh =>
      rw [hinput] at hpost
      rw [List.append_cancel_right hpost]
  | read len rh =>
      dsimp only at *
      by_cases hlen : len ≤ p.input.length
      · rw [if_pos hlen] at hpost ⊢
        have hlengths := congrArg List.length hpost
        simp only [hinput, List.length_drop, List.length_append] at hlengths hlen
        have hle : len ≤ pre.length := by
          omega
        have hdrop : pre.drop len = pre' := by
          dsimp only at hpost
          rw [hinput, List.drop_append_of_le_length hle] at hpost
          exact List.append_cancel_right hpost
        rw [if_pos (by rw [List.length_append]; omega), hinput,
          List.take_append_of_le_length hle, List.take_append_of_le_length hle,
          List.drop_append_of_le_length hle, hdrop]
      · have herror := hok len rh rfl
        rw [if_neg hlen] at herror
        rw [p.eof.property] at herror
        cases herror

end Peer

/-! Rounds of the event loop. -/

namespace AsyncConnection

variable {p q : Peer} {w : World (List ConnCall) ρ}

theorem drain_faultless (hp : p.Faultless) (n : Nat) : (drain ext n p w).2.Faultless := by
  induction n generalizing p w with
  | zero => exact hp
  | succ n ih =>
      cases hnet : w.net with
      | nil =>
          rw [drain_nil _ p hnet]
          exact hp
      | cons call rest =>
          cases hvalue : (call.resume ext con (p.serve call).1 { w with net := rest }).value with
          | error e =>
              rw [drain_error n hnet rfl hvalue]
              exact hp.serve call
          | ok u =>
              rw [drain_ok n hnet rfl hvalue]
              exact ih (hp.serve call)

theorem drain_suffix (n : Nat) : (drain ext n p w).2.input <:+ p.input := by
  induction n generalizing p w with
  | zero => exact List.suffix_refl _
  | succ n ih =>
      cases hnet : w.net with
      | nil => simp [drain_nil _ p hnet]
      | cons call rest =>
          cases hvalue : (call.resume ext con (p.serve call).1 { w with net := rest }).value with
          | error e =>
              rw [drain_error n hnet rfl hvalue]
              exact p.serve_suffix call
          | ok u =>
              rw [drain_ok n hnet rfl hvalue]
              exact ih.trans (p.serve_suffix call)

/-- Only the bytes of a peer matter, not its count of steps. -/
theorem drain_alike (ext : Externals ρ) (w : World (List ConnCall) ρ) (h : Peer.Alike p q)
    (hp : p.Faultless) (hq : q.Faultless) (n : Nat) :
    (drain ext n p w).1 = (drain ext n q w).1 ∧
      Peer.Alike (drain ext n p w).2 (drain ext n q w).2 := by
  induction n generalizing p q w with
  | zero => exact ⟨rfl, h⟩
  | succ n ih =>
      cases hnet : w.net with
      | nil =>
          rw [drain_nil _ p hnet, drain_nil _ q hnet]
          exact ⟨rfl, h⟩
      | cons call rest =>
          obtain ⟨hsame, halike⟩ := h.serve hp hq call
          have hrun : call.resume ext con (q.serve call).1 { w with net := rest } =
              call.resume ext con (p.serve call).1 { w with net := rest } := by
            rw [hsame]
          cases hvalue : (call.resume ext con (p.serve call).1 { w with net := rest }).value with
          | error e =>
              rw [drain_error n hnet rfl hvalue, drain_error n hnet hrun hvalue]
              exact ⟨rfl, halike⟩
          | ok u =>
              rw [drain_ok n hnet rfl hvalue, drain_ok n hnet hrun hvalue]
              obtain ⟨houtcome, hrest⟩ := ih _ halike (hp.serve call) (hq.serve call)
              exact ⟨congrArg (Outcome.after _) houtcome, hrest⟩

/-- More rounds go on from where the first ones ended. -/
theorem drain_add (k n : Nat) (hvalue : (drain ext k p w).1.value = .ok ()) :
    drain ext (k + n) p w =
      ((drain ext n (drain ext k p w).2 (drain ext k p w).1.world).1.after
          (drain ext k p w).1.events,
        (drain ext n (drain ext k p w).2 (drain ext k p w).1.world).2) := by
  induction k generalizing p w with
  | zero =>
      rw [Nat.zero_add]
      rfl
  | succ k ih =>
      cases hnet : w.net with
      | nil =>
          rw [drain_nil _ p hnet, drain_nil _ p hnet, drain_nil _ p hnet]
          rfl
      | cons call rest =>
          rw [Nat.add_right_comm]
          cases hstep : (call.resume ext con (p.serve call).1 { w with net := rest }).value with
          | error e =>
              rw [drain_error k hnet rfl hstep, hstep] at hvalue
              cases hvalue
          | ok u =>
              rw [drain_ok k hnet rfl hstep] at hvalue
              rw [drain_ok _ hnet rfl hstep, drain_ok k hnet rfl hstep, ih hvalue]
              simp [Outcome.after, List.append_assoc]

theorem drain_value_le (i j : Nat) (hvalue : (drain ext (i + j) p w).1.value = .ok ()) :
    (drain ext i p w).1.value = .ok () := by
  induction i generalizing p w with
  | zero => rfl
  | succ i ih =>
      rw [Nat.add_right_comm] at hvalue
      cases hnet : w.net with
      | nil => rw [drain_nil _ p hnet]
      | cons call rest =>
          cases hstep : (call.resume ext con (p.serve call).1 { w with net := rest }).value with
          | error e =>
              rw [drain_error (i + j) hnet rfl hstep, hstep] at hvalue
              cases hvalue
          | ok u =>
              rw [drain_ok _ hnet rfl hstep] at hvalue ⊢
              exact ih hvalue

/-- A read that fails ends in an exception or in a call of the handler. -/
theorem read_ok {len : Nat} {rh : RHandler} {r : Completion}
    (hvalue : (ConnCall.resume ext con r (.read len rh) w).value = .ok ())
    (hquiet : (ConnCall.resume ext con r (.read len rh) w).events.filter Event.isHandler = []) :
    r.ec.isError = false := by
  by_contra hec
  have hfail : r.ec.isError = true := by simpa using hec
  have hrun : ConnCall.resume ext con r (.read len rh) w = Act.callHandler r.ec w :=
    congrFun (RHandler.run_fails con ext rh r.data hfail) w
  rw [hrun] at hvalue hquiet
  unfold Act.callHandler at hvalue hquiet
  cases hh : w.fsm.ehandler with
  | none =>
      rw [hh] at hvalue
      cases hvalue
  | some h =>
      rw [hh] at hquiet
      cases hquiet

/-- As long as `post` is not touched, what is inserted before it is not noticed. -/
theorem drain_upTo (hp : p.Faultless) {pre pre' post : Buffer} (ins : Buffer)
    (hinput : p.input = pre ++ post) (k : Nat) (hvalue : (drain ext k p w).1.value = .ok ())
    (hquiet : (drain ext k p w).1.events.filter Event.isHandler = [])
    (hpost : (drain ext k p w).2.input = pre' ++ post) :
    drain ext k (p.sending (pre ++ (ins ++ post))) w =
      ((drain ext k p w).1, (drain ext k p w).2.sending (pre' ++ (ins ++ post))) := by
  induction k generalizing p w pre with
  | zero =>
      have hsame : pre = pre' := List.append_cancel_right (hinput.symm.trans hpost)
      rw [hsame]
      rfl
  | succ k ih =>
      cases hnet : w.net with
      | nil =>
          rw [drain_nil _ p hnet] at hpost
          have hsame : pre = pre' := List.append_cancel_right (hinput.symm.trans hpost)
          rw [drain_nil _ p hnet, drain_nil _ _ hnet, hsame]
      | cons call rest =>
          cases hstep : (call.resume ext con (p.serve call).1 { w with net := rest }).value with
          | error e =>
              rw [drain_error k hnet rfl hstep, hstep] at hvalue
              cases hvalue
          | ok u =>
              rw [drain_ok k hnet rfl hstep] at hvalue hquiet hpost
              simp only [Outcome.after, List.filter_append, List.append_eq_nil_iff] at hquiet
              have hsuffix : (drain ext k (p.serve call).2
                  (call.resume ext con (p.serve call).1 { w with net := rest }).world).2.input <:+
                  (p.serve call).2.input := drain_suffix k
              obtain ⟨x, hx⟩ := hsuffix
              have hnext : (p.serve call).2.input = (x ++ pre') ++ post := by
                rw [List.append_assoc, ← hpost]
                exact hx.symm
              have hread : ∀ len rh, call = .read len rh →
                  (p.serve call).1.ec.isError = false := by
                rintro len rh rfl
                exact read_ok hstep hquiet.1
              have hserve := Peer.serve_sending hp ins call hinput hread hnext
              have hrun : call.resume ext con ((p.sending (pre ++ (ins ++ post))).serve call).1
                  { w with net := rest } =
                  call.resume ext con (p.serve call).1 { w with net := rest } := by
                rw [hserve]
              rw [drain_ok k hnet rfl hstep, drain_ok k hnet hrun hstep, hserve]
              dsimp only
              rw [ih (hp.serve call) hnext hvalue hquiet.2 hpost]

end AsyncConnection

/-! Messages that are dropped. -/

theorem next_dropped (ext : Externals ρ) {w : World (List ConnCall) ρ} {msg : Backend}
    (hmsg : msg.Dropped w.fsm.state) :
    FSM.next ext AsyncConnection.con msg.header.mtype msg.header msg.body w =
      ⟨.ok (), { w with net := w.net ++ [.header] },
        [.dispatch w.fsm.state msg.header msg.body]⟩ := by
  obtain ⟨hlength, ⟨transition, hrow, hfind⟩ | ⟨hstate, fields, rfl, hfields⟩⟩ := hmsg
  · exact next_unlisted msg.header msg.body hrow hfind
  · obtain ⟨transition, hrow, hfind⟩ := replyAction_find hstate (.noticeResponse fields) rfl
    have hdec := noticeResponse_deserialize fields hfields
    have hrun : Action.run ext AsyncConnection.con (header (.noticeResponse fields))
        (body (.noticeResponse fields)) .noticeResponse w =
        ⟨.ok (), { w with net := w.net ++ [.header] }, []⟩ := by
      simp [Action.run, FSM.noticeResponse, hdec, Act.bind_apply, FSM.receiveUnless]
    exact next_listed _ _ hrow hfind hrun

namespace AsyncConnection

variable {p : Peer} {w : World (List ConnCall) ρ}

/-- The event loop drops messages and waits for a header again: it has taken
exactly their bytes. -/
theorem drain_dropped (ext : Externals ρ) {rest : Buffer} (messages : List Backend)
    (hp : p.Faultless) (hnet : w.net = [.header])
    (hmessages : ∀ msg ∈ messages, msg.Dropped w.fsm.state)
    (hinput : p.input = messages.flatMap Backend.wire ++ rest) (n : Nat) :
    let later := drain ext n (p.later rest (2 * messages.length)) w
    drain ext (2 * messages.length + n) p w =
      (later.1.after (messages.map fun msg => .dispatch w.fsm.state msg.header msg.body),
        later.2) := by
  induction messages generalizing p with
  | nil =>
      have hrest : p.later rest 0 = p := by
        simp only [List.flatMap_nil, List.nil_append] at hinput
        rw [← hinput]
        rfl
      simp only [List.length_nil, Nat.mul_zero, Nat.zero_add, hrest, List.map_nil]
      rfl
  | cons msg messages ih =>
      have hmsg := hmessages msg List.mem_cons_self
      have hnext := next_dropped ext (w := { w with net := [] }) hmsg
      have hbytes : p.input = msg.wire ++ (messages.flatMap Backend.wire ++ rest) := by
        rw [hinput]
        simp
      have hstep := drain_message hmsg.1 hp hbytes hnet hnext rfl (2 * messages.length + n)
      have hback : ({ w with net := [] ++ [.header] } : World (List ConnCall) ρ) = w := by
        rw [List.nil_append, ← hnet]
      have hrest := ih (p := p.later (messages.flatMap Backend.wire ++ rest) 2) (hp.later _ _)
        (fun m hm => hmessages m (List.mem_cons_of_mem _ hm)) rfl
      rw [List.length_cons, show 2 * (messages.length + 1) + n = 2 * messages.length + n + 2 by
        omega, hstep]
      simp only [hback, hrest]
      simp only [Outcome.after, List.map_cons, Peer.later]
      rw [show p.step + 2 + 2 * messages.length = p.step + 2 * (messages.length + 1) by omega]
      rfl

/-- The state does not change meanwhile, also not between a header and its body. -/
theorem drain_dropped_state (ext : Externals ρ) {rest : Buffer} (messages : List Backend)
    (hp : p.Faultless) (hnet : w.net = [.header])
    (hmessages : ∀ msg ∈ messages, msg.Dropped w.fsm.state)
    (hinput : p.input = messages.flatMap Backend.wire ++ rest) {i : Nat}
    (hi : i ≤ 2 * messages.length) : (drain ext i p w).1.world.fsm.state = w.fsm.state := by
  -- `i` rounds drop `i / 2` messages, and may have read one header more.
  obtain ⟨first, last, rfl, hlength⟩ : ∃ first last, messages = first ++ last ∧
      first.length = i / 2 := by
    refine ⟨messages.take (i / 2), messages.drop (i / 2), by simp, ?_⟩
    rw [List.length_take]
    omega
  have hbytes : p.input = first.flatMap Backend.wire ++ (last.flatMap Backend.wire ++ rest) := by
    rw [hinput]
    simp
  have hfirst := drain_dropped ext first hp hnet
    (fun msg hmsg => hmessages msg (List.mem_append_left _ hmsg)) hbytes (i % 2)
  rw [hlength, Nat.div_add_mod] at hfirst
  rw [hfirst]
  rcases Nat.mod_two_eq_zero_or_one i with heven | hodd
  · rw [heven]
    rfl
  · rw [hodd]
    cases last with
    | nil =>
        simp at hi
        omega
    | cons msg last =>
        have hmsg := hmessages msg (by simp)
        have hlast : (p.later ((msg :: last).flatMap Backend.wire ++ rest)
            (2 * first.length)).input = (msg.mtype :: be32 (msg.body.length + 4)) ++
              (msg.body ++ (last.flatMap Backend.wire ++ rest)) := by
          rw [← msg.wire_append]
          simp [Peer.later]
        rw [← hlength, drain_header ext hmsg.1 (hp.later _ _) hlast hnet 0]
        rfl

/-! Messages inserted where the event loop waits for a header. -/

/-- A message boundary: after `k` rounds without an exception and without a call
of the handler, the event loop waits for a header, and `post` is left to be read. -/
structure Boundary (ext : Externals ρ) (k : Nat) (p : Peer) (w : World (List ConnCall) ρ)
    (post : Buffer) : Prop where
  value : (drain ext k p w).1.value = .ok ()
  quiet : (drain ext k p w).1.events.filter Event.isHandler = []
  waits : (drain ext k p w).1.world.net = [.header]
  unread : (drain ext k p w).2.input = post

variable {pre post : Buffer} {k : Nat}

/-- What is inserted at a boundary is not noticed before it. -/
theorem Boundary.before (hb : Boundary ext k p w post) (hp : p.Faultless)
    (hinput : p.input = pre ++ post) (ins : Buffer) {i : Nat} (hi : i ≤ k) :
    (drain ext i (p.sending (pre ++ (ins ++ post))) w).1 = (drain ext i p w).1 := by
  obtain ⟨j, rfl⟩ := Nat.exists_eq_add_of_le hi
  have hfirst := drain_value_le i j hb.value
  have hquiet := hb.quiet
  have hpost := hb.unread
  rw [drain_add i j hfirst] at hquiet hpost
  simp only [Outcome.after, List.filter_append, List.append_eq_nil_iff] at hquiet
  have hsuffix : post <:+ (drain ext i p w).2.input := by
    rw [← hpost]
    exact drain_suffix j
  obtain ⟨between, hbetween⟩ := hsuffix
  rw [drain_upTo hp ins hinput i hfirst hquiet.1 hbetween.symm]

/-- At the boundary only the bytes to be read differ. -/
theorem Boundary.here (hb : Boundary ext k p w post) (hp : p.Faultless)
    (hinput : p.input = pre ++ post) (ins : Buffer) :
    drain ext k (p.sending (pre ++ (ins ++ post))) w =
      ((drain ext k p w).1, (drain ext k p w).2.sending (ins ++ post)) := by
  have hunread : (drain ext k p w).2.input = [] ++ post := hb.unread
  exact drain_upTo hp ins hinput k hb.value hb.quiet hunread

/-- Messages that are inserted at a boundary and dropped there delay the event
loop by two rounds each and are dispatched; nothing else differs. -/
theorem Boundary.drain_inserted (hb : Boundary ext k p w post) (hp : p.Faultless)
    (hinput : p.input = pre ++ post) (messages : List Backend)
    (hmessages : ∀ msg ∈ messages, msg.Dropped (drain ext k p w).1.world.fsm.state) (n : Nat) :
    let run := drain ext (k + n) p w
    let run' := drain ext (k + 2 * messages.length + n)
      (p.sending (pre ++ (messages.flatMap Backend.wire ++ post))) w
    run'.1.value = run.1.value ∧ run'.1.world = run.1.world ∧
      (∃ before later, run.1.events = before ++ later ∧
        run'.1.events = before ++ (messages.map (fun msg =>
          .dispatch (drain ext k p w).1.world.fsm.state msg.header msg.body) ++ later)) ∧
      Peer.Alike run'.2 run.2 := by
  have hhere := hb.here hp hinput (messages.flatMap Backend.wire)
  have hfaultless : (drain ext k p w).2.Faultless := drain_faultless hp k
  have hdropped := drain_dropped ext messages (p := (drain ext k p w).2.sending
    (messages.flatMap Backend.wire ++ post)) hfaultless hb.waits hmessages rfl n
  have halike : Peer.Alike (((drain ext k p w).2.sending (messages.flatMap Backend.wire ++
      post)).later post (2 * messages.length)) (drain ext k p w).2 := ⟨hb.unread.symm, rfl⟩
  obtain ⟨hsame, hrest⟩ := drain_alike ext (drain ext k p w).1.world halike hfaultless
    hfaultless n
  dsimp only at hdropped
  rw [hsame] at hdropped
  have hadd := drain_add k n hb.value
  have hadd' := drain_add (p := p.sending (pre ++ (messages.flatMap Backend.wire ++ post))) k
    (2 * messages.length + n) (by rw [hhere]; exact hb.value)
  rw [hhere, hdropped, ← Nat.add_assoc] at hadd'
  dsimp only
  rw [hadd, hadd']
  exact ⟨rfl, rfl, ⟨_, _, rfl, rfl⟩, hrest⟩

/-- The event loop visits the same states. -/
theorem Boundary.visited_inserted (hb : Boundary ext k p w post) (hp : p.Faultless)
    (hinput : p.input = pre ++ post) (messages : List Backend)
    (hmessages : ∀ msg ∈ messages, msg.Dropped (drain ext k p w).1.world.fsm.state)
    (start : State) (n : Nat) :
    Machine.visited start (fun i => (drain ext i (p.sending (pre ++
      (messages.flatMap Backend.wire ++ post))) w).1.world.fsm.state)
      (k + 2 * messages.length + n) =
      Machine.visited start (fun i => (drain ext i p w).1.world.fsm.state) (k + n) := by
  apply Machine.visited_pause
  · intro i hi
    rw [hb.before hp hinput _ hi]
  · intro i hi
    have hhere := hb.here hp hinput (messages.flatMap Backend.wire)
    rw [drain_add k i (by rw [hhere]; exact hb.value), hhere]
    exact drain_dropped_state ext messages (p := (drain ext k p w).2.sending
      (messages.flatMap Backend.wire ++ post)) (drain_faultless hp k) hb.waits hmessages rfl hi
  · intro i
    have hworld := (hb.drain_inserted hp hinput messages hmessages i).2.1
    exact congrArg (fun w => w.fsm.state) hworld

end AsyncConnection

/-! Whole runs. -/

/-- Peers `p` and `q` that an operation does not tell apart within `n` callbacks:
the same ending, the same calls on result objects, writes and calls of the
handler, and the same states one after the other. From `q` it takes `inserted`
bytes more. -/
structure Unnoticed (run : Nat → Peer → Outcome Peer ρ Unit) (start : State) (n : Nat)
    (p q : Peer) (inserted : Nat) : Prop where
  value : (run n q).value = (run n p).value
  fsm : (run n q).world.fsm = (run n p).world.fsm
  results : (run n q).world.results = (run n p).world.results
  visible : (run n q).events.filter Event.isVisible = (run n p).events.filter Event.isVisible
  states : Machine.visited start (fun i => (run i q).world.fsm.state) n =
    Machine.visited start (fun i => (run i p).world.fsm.state) n
  unread : (run n q).world.net.input = (run n p).world.net.input
  consumed : q.input.length - (run n q).world.net.input.length =
    p.input.length - (run n p).world.net.input.length + inserted

theorem Unnoticed.trans {run : Nat → Peer → Outcome Peer ρ Unit} {start : State} {n i j : Nat}
    {p q r : Peer} (h : Unnoticed run start n p q i) (h' : Unnoticed run start n q r j) :
    Unnoticed run start n p r (i + j) where
  value := h'.value.trans h.value
  fsm := h'.fsm.trans h.fsm
  results := h'.results.trans h.results
  visible := h'.visible.trans h.visible
  states := h'.states.trans h.states
  unread := h'.unread.trans h.unread
  consumed := by rw [h'.consumed, h.consumed, Nat.add_assoc]

/-- Only the outcomes of a way to run an operation matter, and the states on the
way to them. -/
theorem Unnoticed.congr {run run' : Nat → Peer → Outcome Peer ρ Unit} {start : State}
    {n inserted : Nat} {p q : Peer} (h : Unnoticed run start n p q inserted)
    (hp : run' n p = run n p) (hq : run' n q = run n q)
    (hstates : ∀ i ≤ n, (run' i p).world.fsm = (run i p).world.fsm)
    (hstates' : ∀ i ≤ n, (run' i q).world.fsm = (run i q).world.fsm) :
    Unnoticed run' start n p q inserted where
  value := by rw [hp, hq, h.value]
  fsm := by rw [hp, hq, h.fsm]
  results := by rw [hp, hq, h.results]
  visible := by rw [hp, hq, h.visible]
  states := by
    rw [Machine.visited_congr fun i hi => congrArg FSM.state (hstates' i hi),
      Machine.visited_congr fun i hi => congrArg FSM.state (hstates i hi), h.states]
  unread := by rw [hp, hq, h.unread]
  consumed := by rw [hp, hq, h.consumed]

section Padded

variable (ext : Externals ρ) (c : Call) (fsm : FSM) (results : ResultId → ρ)

/-- The call was made, and what it asked of the connection is outstanding. -/
def Call.started : World (List ConnCall) ρ := (c.run AsyncConnection.con ⟨fsm, results, []⟩).world

/-- `q` sends what `p` sends, with messages inserted at boundaries of the run of
the call, and each of them dropped in the state that it comes in. -/
inductive Padded (p : Peer) : List Backend → Peer → Prop
  | nil : Padded p [] p
  | insert {q : Peer} {messages more : List Backend} {pre post : Buffer} {k : Nat} :
      Padded p messages q → q.input = pre ++ post →
      AsyncConnection.Boundary ext k q (c.started fsm results) post →
      (∀ msg ∈ more, msg.Dropped
        (AsyncConnection.drain ext k q (c.started fsm results)).1.world.fsm.state) →
      Padded p (messages ++ more) (q.sending (pre ++ (more.flatMap Backend.wire ++ post)))

/-- The run of a call, with as many rounds as the input allows for, asks for no
MD5 password. -/
def Passwordless (p : Peer) : Prop :=
  (c.started fsm results).fsm.state ≠ .AUTH ∨ NoPassword
    (AsyncConnection.drain ext (2 * p.input.length + 6) p (c.started fsm results)).1.events

variable {ext c fsm results} {p q : Peer}

theorem Passwordless.done (hsafe : Passwordless ext c fsm results p) :
    (AsyncConnection.drain ext (2 * p.input.length + 6) p
      (c.started fsm results)).1.world.net = [] :=
  (call_drain ext c fsm results p _ (Nat.le_refl _) hsafe).2.2

theorem Passwordless.rounds (hsafe : Passwordless ext c fsm results p) {n : Nat}
    (hn : 2 * p.input.length + 6 ≤ n) :
    AsyncConnection.drain ext n p (c.started fsm results) =
      AsyncConnection.drain ext (2 * p.input.length + 6) p (c.started fsm results) := by
  rw [← Nat.add_sub_of_le hn, AsyncConnection.drain_more _ hsafe.done]

/-- The boundaries of a run come before its end. -/
theorem Passwordless.boundary_lt (hsafe : Passwordless ext c fsm results p) {k : Nat}
    {post : Buffer} (hb : AsyncConnection.Boundary ext k p (c.started fsm results) post) :
    k < 2 * p.input.length + 6 := by
  by_contra hk
  have hwaits := hb.waits
  rw [hsafe.rounds (Nat.le_of_not_lt hk), hsafe.done] at hwaits
  cases hwaits

/-- A dropped message is no request for a password. -/
theorem Backend.Dropped.noPassword {state : State} {messages : List Backend}
    (hmessages : ∀ msg ∈ messages, msg.Dropped state) :
    NoPassword (messages.map fun msg => .dispatch state msg.header msg.body) := by
  rintro head body hmem ⟨htype, _⟩
  obtain ⟨msg, hmsg, heq⟩ := List.mem_map.mp hmem
  cases heq
  obtain ⟨_, ⟨transition, hrow, hfind⟩ | ⟨hstate, _⟩⟩ := hmessages msg hmsg
  · cases hrow
    rw [show msg.mtype = Authentication.mtype from htype] at hfind
    cases hfind
  · rcases hstate with h | h <;> cases h

section Insert

variable {messages : List Backend} {pre post : Buffer} {k : Nat}

/-- The rounds of the run with the messages are those of the run without, and
two more for each of them. -/
theorem Passwordless.insert_rounds (hsafe : Passwordless ext c fsm results q)
    (hinput : q.input = pre ++ post)
    (hb : AsyncConnection.Boundary ext k q (c.started fsm results) post)
    (messages : List Backend) {n : Nat}
    (hn : 2 * (pre ++ (messages.flatMap Backend.wire ++ post)).length + 6 ≤ n) :
    ∃ m, n = k + 2 * messages.length + m ∧ 2 * q.input.length + 6 ≤ k + m := by
  have hk := hsafe.boundary_lt hb
  have hle := messages_length_le messages
  simp only [hinput, List.length_append] at hk hn ⊢
  exact ⟨n - (k + 2 * messages.length), by omega, by omega⟩

variable (hq : q.Faultless) (hsafe : Passwordless ext c fsm results q)
  (hinput : q.input = pre ++ post)
  (hb : AsyncConnection.Boundary ext k q (c.started fsm results) post)
  (hmessages : ∀ msg ∈ messages, msg.Dropped
    (AsyncConnection.drain ext k q (c.started fsm results)).1.world.fsm.state)

include hq hsafe hinput hb hmessages

theorem Passwordless.insert :
    Passwordless ext c fsm results
      (q.sending (pre ++ (messages.flatMap Backend.wire ++ post))) := by
  apply hsafe.imp id
  intro hpassword
  obtain ⟨m, hn, hm⟩ := hsafe.insert_rounds hinput hb messages (Nat.le_refl _)
  obtain ⟨_, _, ⟨before, later, hevents, hevents'⟩, _⟩ :=
    hb.drain_inserted hq hinput messages hmessages m
  rw [hsafe.rounds hm] at hevents
  rw [hevents] at hpassword
  rw [← hn] at hevents'
  change NoPassword (AsyncConnection.drain ext
    (2 * (pre ++ (messages.flatMap Backend.wire ++ post)).length + 6) _ _).1.events
  rw [hevents']
  exact hpassword.of_append_left.append
    ((Dropped.noPassword hmessages).append hpassword.of_append_right)

/-- Messages inserted at one boundary of a run of the event loop. -/
theorem complete_insert {n : Nat}
    (hn : 2 * (pre ++ (messages.flatMap Backend.wire ++ post)).length + 6 ≤ n) :
    Unnoticed (fun i p => AsyncConnection.complete ext i c ⟨fsm, results, p⟩) fsm.state n q
      (q.sending (pre ++ (messages.flatMap Backend.wire ++ post)))
      (messages.flatMap Backend.wire).length := by
  obtain ⟨m, rfl, hm⟩ := hsafe.insert_rounds hinput hb messages hn
  obtain ⟨hvalue, hworld, ⟨before, later, hevents, hevents'⟩, hinputs, _⟩ :=
    hb.drain_inserted hq hinput messages hmessages m
  have hvisited := hb.visited_inserted hq hinput messages hmessages fsm.state m
  have hdispatches : (messages.map fun msg => Event.dispatch (AsyncConnection.drain ext k q
      (c.started fsm results)).1.world.fsm.state msg.header msg.body).filter
      Event.isVisible = [] := by
    simp [Event.isVisible]
  -- The run without the messages is over by then.
  have hover (i : Nat) : AsyncConnection.drain ext (k + m + i) q (c.started fsm results) =
      AsyncConnection.drain ext (k + m) q (c.started fsm results) := by
    rw [hsafe.rounds (Nat.le_add_right_of_le hm), hsafe.rounds hm]
  have hsame := hover (2 * messages.length)
  have hrest : Machine.visited fsm.state
      (fun i => (AsyncConnection.drain ext i q (c.started fsm results)).1.world.fsm.state)
      (k + m + 2 * messages.length) = Machine.visited fsm.state _ (k + m) :=
    Machine.visited_rest fun i _ => congrArg (fun d => d.1.world.fsm.state) (hover i)
  rw [Nat.add_right_comm] at hsame hrest
  have hleft : (AsyncConnection.drain ext (k + m) q
      (c.started fsm results)).2.input.length ≤ q.input.length :=
    (AsyncConnection.drain_suffix _).length_le
  constructor
  · exact hvalue.trans (congrArg (fun d => d.1.value) hsame.symm)
  · exact (congrArg World.fsm hworld).trans (congrArg (fun d => d.1.world.fsm) hsame.symm)
  · exact (congrArg World.results hworld).trans
      (congrArg (fun d => d.1.world.results) hsame.symm)
  · change ((c.run AsyncConnection.con _).events ++
        (AsyncConnection.drain ext _ _ (c.started fsm results)).1.events).filter _ =
      ((c.run AsyncConnection.con _).events ++
        (AsyncConnection.drain ext _ _ (c.started fsm results)).1.events).filter _
    rw [hsame, hevents, hevents']
    simp only [List.filter_append, hdispatches, List.nil_append]
    rfl
  · exact hvisited.trans hrest.symm
  · exact hinputs.trans (congrArg (fun d => d.2.input) hsame.symm)
  · change (pre ++ (messages.flatMap Backend.wire ++ post)).length -
        (AsyncConnection.drain ext _ _ (c.started fsm results)).2.input.length =
      q.input.length - (AsyncConnection.drain ext _ q (c.started fsm results)).2.input.length + _
    rw [hinputs, hsame]
    simp only [hinput, List.length_append] at hleft ⊢
    omega

end Insert

variable {messages : List Backend}

theorem Padded.faultless (hpadded : Padded ext c fsm results p messages q)
    (hp : p.Faultless) : q.Faultless := by
  induction hpadded with
  | nil => exact hp
  | insert _ _ _ _ ih => exact ih

theorem Padded.passwordless (hpadded : Padded ext c fsm results p messages q)
    (hp : p.Faultless) (hsafe : Passwordless ext c fsm results p) :
    Passwordless ext c fsm results q := by
  induction hpadded with
  | nil => exact hsafe
  | insert hbefore hinput hb hmore ih =>
      exact ih.insert (hbefore.faultless hp) hinput hb hmore

/-- Messages inserted at boundaries of a run of the event loop. -/
theorem Padded.complete (hpadded : Padded ext c fsm results p messages q) (hp : p.Faultless)
    (hsafe : Passwordless ext c fsm results p) {n : Nat} (hn : 2 * q.input.length + 6 ≤ n) :
    2 * p.input.length + 6 ≤ n ∧
      Unnoticed (fun i p => AsyncConnection.complete ext i c ⟨fsm, results, p⟩) fsm.state n p q
        (messages.flatMap Backend.wire).length := by
  induction hpadded with
  | nil => exact ⟨hn, rfl, rfl, rfl, rfl, rfl, rfl, rfl⟩
  | @insert q messages more pre post k hbefore hinput hb hmore ih =>
      have hstep := complete_insert (hbefore.faultless hp) (hbefore.passwordless hp hsafe) hinput
        hb hmore hn
      have hless : 2 * q.input.length + 6 ≤ n := by
        simp only [Peer.sending, hinput, List.length_append] at hn ⊢
        omega
      obtain ⟨hrounds, hunnoticed⟩ := ih hless
      refine ⟨hrounds, ?_⟩
      rw [List.flatMap_append, List.length_append]
      exact hunnoticed.trans hstep

/-- Both ways to run a call are the same, callback by callback. -/
theorem Passwordless.drive_eq (hsafe : Passwordless ext c fsm results p) {n : Nat}
    (hn : 2 * p.input.length + 6 ≤ n) (mode : Mode) :
    mode.drive ext n c ⟨fsm, results, p⟩ = AsyncConnection.complete ext n c ⟨fsm, results, p⟩ ∧
      ∀ i ≤ n, (mode.drive ext i c ⟨fsm, results, p⟩).world.fsm =
        (AsyncConnection.complete ext i c ⟨fsm, results, p⟩).world.fsm := by
  have hevents : (c.started fsm results).fsm.state ≠ .AUTH ∨
      NoPassword (AsyncConnection.drain ext n p (c.started fsm results)).1.events := by
    rw [hsafe.rounds hn]
    exact hsafe
  cases mode with
  | async => exact ⟨rfl, fun _ _ => rfl⟩
  | blocking =>
      refine ⟨(call_drain ext c fsm results p n hn hevents).1, ?_⟩
      intro i hi
      rw [← Nat.add_sub_of_le hi] at hevents
      exact call_fsm ext c fsm results p i (n - i) hevents

/-- Dropped messages make no difference to a call: not to a request in `IDLE`,
and to no other call whose run asks for no MD5 password, blocking or not. With
as many callbacks as the input allows for, the two runs end in the same way, call
the result objects and the handler and write to the server alike, and pass
through the same states; only the bytes of the messages are consumed in addition. -/
theorem dropped_unnoticed (ext : Externals ρ) (mode : Mode) (c : Call) (fsm : FSM)
    (results : ResultId → ρ) (hp : p.Faultless)
    (hsafe : c.isRequest = true ∧ fsm.state = .IDLE ∨ NoPassword
      (AsyncConnection.complete ext (2 * p.input.length + 6) c ⟨fsm, results, p⟩).events)
    (hpadded : Padded ext c fsm results p messages q) (n : Nat)
    (hn : 2 * q.input.length + 6 ≤ n) :
    Unnoticed (fun i p => mode.drive ext i c ⟨fsm, results, p⟩) fsm.state n p q
      (messages.flatMap Backend.wire).length := by
  have hpasswordless : Passwordless ext c fsm results p := by
    rcases hsafe with ⟨hc, hidle⟩ | hpassword
    · obtain ⟨fsm', msg, wh, hrun, _, hnext, _, _, _⟩ :=
        accept_run (w := (⟨fsm, results, []⟩ : World (List ConnCall) ρ)) c hc hidle
      apply Or.inl
      unfold Call.started
      rw [hrun]
      rcases hnext with h | h <;> simp [h]
    · exact Or.inr hpassword.of_append_right
  obtain ⟨hrounds, hcomplete⟩ := hpadded.complete hp hpasswordless hn
  obtain ⟨hsame, hstates⟩ := hpasswordless.drive_eq hrounds mode
  obtain ⟨hsame', hstates'⟩ := (hpadded.passwordless hp hpasswordless).drive_eq hn mode
  exact hcomplete.congr hsame hsame' hstates hstates'

/-- A notification and a notice before the `ReadyForQuery` of a query. -/
theorem dropped_unnoticed_notice :
    let ext := Externals.standard fun _ => []
    let fsm : FSM := ⟨none, none, none, .IDLE⟩
    let c : Call := .exec (ascii "a") (some 0) 1
    let messages : List Backend := [.other 65 [1, 2], .noticeResponse [(83, ascii "x")]]
    let p : Peer := ⟨[90, 0, 0, 0, 5, 73], ⟨⟨2, .external 0⟩, rfl⟩, fun _ => none, 0⟩
    Unnoticed (fun i p => Mode.blocking.drive ext i c ⟨fsm, fun _ => [], p⟩) .IDLE 100 p
      (p.sending (messages.flatMap Backend.wire ++ p.input)) 16 := by
  intro ext fsm c messages p
  have hb : AsyncConnection.Boundary ext 1 p (c.started fsm fun _ => []) p.input :=
    ⟨rfl, rfl, rfl, rfl⟩
  have hmessages : ∀ msg ∈ messages, msg.Dropped
      (AsyncConnection.drain ext 1 p (c.started fsm fun _ => [])).1.world.fsm.state := by
    intro msg hmsg
    rcases List.mem_cons.mp hmsg with rfl | hmsg
    · exact ⟨by decide, Or.inl ⟨_, rfl, rfl⟩⟩
    · cases List.mem_singleton.mp hmsg
      refine ⟨by decide, Or.inr ⟨Or.inl rfl, _, rfl, ?_⟩⟩
      intro f hf
      cases List.mem_singleton.mp hf
      exact ⟨by decide, by decide⟩
  have hpadded : Padded ext c fsm (fun _ => []) p messages
      (p.sending ([] ++ (messages.flatMap Backend.wire ++ p.input))) :=
    .insert .nil rfl hb hmessages
  exact dropped_unnoticed ext .blocking c fsm (fun _ => []) (fun _ => rfl) (Or.inl ⟨rfl, rfl⟩)
    hpadded 100 (by decide)

end Padded

end Lapq
