import Lapq.Runs.Agreement

/-!
What the handler of `connect` is told. As long as the server neither answers the
start-up message with an error nor asks for an MD5 password, one call is
outstanding until the handler is called, the bytes read so far are whole messages
up to that call, and success means that `AuthenticationOk` and `ReadyForQuery`
are among them.
-/

namespace Lapq

open Bytes

variable {ρ : Type} {ext : Externals ρ} {w : World (List ConnCall) ρ} {h : HandlerId}

/-- A message of the server on the wire: its type, the length with its own four
bytes, and the body. -/
def frame (m : MessageType × Buffer) : Buffer := m.1 :: be32 (m.2.length + 4) ++ m.2

def framed (ms : List (MessageType × Buffer)) : Buffer := ms.flatMap frame

theorem framed_snoc (ms : List (MessageType × Buffer)) (m : MessageType × Buffer) :
    framed (ms ++ [m]) = framed ms ++ frame m := by
  simp [framed]

def IsAuthenticationOk (m : MessageType × Buffer) : Prop :=
  m.1 = Authentication.mtype ∧ authCode m.2 = some 0

/-- The server has sent whole messages, one of them `AuthenticationOk`, and the
last one `ReadyForQuery`. -/
def LoggedOn (bytes : Buffer) : Prop :=
  ∃ before ok between status, IsAuthenticationOk ok ∧
    bytes = framed (before ++ ok :: between ++ [(ReadyForQuery.mtype, status)])

def Label.data : Label → Buffer
  | .call _ => []
  | .complete _ r => r.data

/-- The bytes that the reads of a run have brought. -/
def received (labels : List Label) : Buffer := labels.flatMap Label.data

theorem received_call (labels : List Label) (c : Call) :
    received (labels ++ [.call c]) = received labels := by
  simp [received, Label.data]

theorem received_complete (labels : List Label) (i : Nat) (r : Completion) :
    received (labels ++ [.complete i r]) = received labels ++ r.data := by
  simp [received, Label.data]

/-- `connect` is called on a new state machine with the handler `h`, which is
used for no other call. -/
def Dials (h : HandlerId) (w : World (List ConnCall) ρ) : Label → Prop
  | .call (.connect _ eh) => w.fsm = FSM.init ∧ eh = h
  | .call c => c.handler ≠ h
  | .complete .. => True

/-- No message dispatched in `AUTH` is an error response or asks for an MD5
password. -/
def Welcomed (w : World (List ConnCall) ρ) : Label → Prop
  | .call _ => True
  | .complete i r => ∀ len head, w.net[i]? = some (.read len (.body head)) →
      r.ec.isError = false → w.fsm.state = .AUTH →
        head.mtype ≠ ErrorResponse.mtype ∧ ¬ IsAuthentication 5 head r.data

/-! One completion. -/

/-- A header that announces a body which can be read is the head of a frame. -/
theorem header_bytes {data : Buffer} {er : ErrorCode} {head : Header}
    (hlength : data.length = Header.size) (hhead : Header.deserialize data = .ok (er, head))
    (hlen : toSize head.bodyLen ≤ maxSize) :
    data = head.mtype :: be32 (toSize head.bodyLen + 4) := by
  cases data with
  | nil => cases hlength
  | cons type bytes =>
      obtain ⟨n, hn, hread, hbytes⟩ := read32_of_length (l := bytes)
        (by simpa [Header.size] using hlength)
      have htype : deserializeByte1 (type :: bytes) 0 = .ok (type, 1) := rfl
      have hint : deserializeInt32 (type :: bytes) 1 = .ok (signed32 n, 4) := by
        simp [deserializeInt32, hread]
      rw [Header.deserialize, if_neg (by simp [hlength]), htype] at hhead
      simp only [bind, Except.bind, hint] at hhead
      split at hhead
      · cases hhead
      cases hhead
      -- A negative length is a size out of reach.
      have hsize : toSize (signed32 n - 4) + 4 = n := by
        have hfits : toSize (signed32 n - 4) ≤ maxSize := hlen
        unfold toSize pattern maxSize signed32 at *
        split at hfits <;> split <;> omega
      rw [hsize, hbytes]

/-- The bytes of a frame that are read before the given call. -/
def ConnCall.ahead : ConnCall → Buffer
  | .read len (.body head) => head.mtype :: be32 (len + 4)
  | .read _ .header | .connect _ | .write .. => []

/-- The state that the messages read so far lead to. -/
def Reaches (ms : List (MessageType × Buffer)) (state : State) : Prop :=
  (state = .AUTH ∧ ∀ m ∈ ms, ¬ IsAuthenticationOk m) ∨
    (state = .CONN ∧ ∃ m ∈ ms, IsAuthenticationOk m)

/-- The bytes read so far are whole messages, up to the one call outstanding. -/
def Follows (bytes : Buffer) (w : World (List ConnCall) ρ) : Prop :=
  w.net = [] ∨ ∃ call ms, w.net = [call] ∧ call.isTerminate = false ∧ Reaches ms w.fsm.state ∧
    bytes = framed ms ++ call.ahead

/-- Whatever the handler is told is true. -/
def Truthful (h : HandlerId) (bytes : Buffer) (state : State) (es : List Event) : Prop :=
  ∀ ec st, Event.handler h ec st ∈ es → ec.isError = false →
    st = .IDLE ∧ state = .IDLE ∧ LoggedOn bytes

theorem Truthful.quiet {bytes : Buffer} {state : State} {es : List Event}
    (hes : ∀ ec st, Event.handler h ec st ∉ es) : Truthful h bytes state es :=
  fun ec st hmem _ => absurd hmem (hes ec st)

theorem Truthful.failed {bytes : Buffer} {state st : State} {ec : ErrorCode}
    (hec : ec.isError = true) : Truthful h bytes state [.handler h ec st] := by
  intro ec' st' hmem hok
  cases List.mem_singleton.mp hmem
  rw [hec] at hok
  cases hok

theorem ResultEvents.no_handler {fsm : FSM} {es : List Event} (hes : ResultEvents fsm es)
    (id : HandlerId) (ec : ErrorCode) (st : State) : Event.handler id ec st ∉ es := by
  intro hmem
  obtain ⟨_, _, _, heq⟩ := hes _ hmem
  cases heq

theorem Truthful.dispatched {bytes : Buffer} {state st : State} {es : List Event} {head : Header}
    {body : Buffer} (hes : Truthful h bytes state es) :
    Truthful h bytes state (.dispatch st head body :: es) := by
  intro ec st' hmem hok
  rcases List.mem_cons.mp hmem with heq | hrest
  · cases heq
  · exact hes ec st' hrest hok

/-- A message dispatched while the connection is made. -/
theorem Reacts.truthful {head : Header} {body bytes : Buffer}
    {o : Outcome (List ConnCall) ρ Unit} (hreact : Reacts h w head body o) (hnet : w.net = [])
    {ms : List (MessageType × Buffer)} (hreaches : Reaches ms w.fsm.state)
    (hbytes : bytes = framed (ms ++ [(head.mtype, body)]))
    (hwelcome : w.fsm.state = .AUTH →
      head.mtype ≠ ErrorResponse.mtype ∧ ¬ IsAuthentication 5 head body) :
    Follows bytes o.settle.1 ∧ Truthful h bytes o.settle.1.fsm.state o.settle.2 := by
  cases hreact with
  | goOn results es hes hmsg =>
      refine ⟨Or.inr ⟨.header, ms ++ [(head.mtype, body)], by simp [hnet], rfl, ?_, ?_⟩,
        Truthful.quiet (hes.no_handler h)⟩
      · rcases hreaches with ⟨hauth, hnone⟩ | ⟨hconn, m, hm, hok⟩
        · refine Or.inl ⟨hauth, ?_⟩
          intro m hm hok
          rcases List.mem_append.mp hm with hold | hnew
          · exact hnone m hold hok
          · rw [List.mem_singleton.mp hnew] at hok
            exact hmsg ⟨hauth, hok⟩
        · exact Or.inr ⟨hconn, m, List.mem_append_left _ hm, hok⟩
      · rw [hbytes]
        exact (List.append_nil _).symm
  | authOk hstate hmsg =>
      refine ⟨Or.inr ⟨.header, ms ++ [(head.mtype, body)], by simp [hnet], rfl, ?_, ?_⟩,
        Truthful.quiet (by simp)⟩
      · exact Or.inr ⟨rfl, _, List.mem_append_right _ List.mem_cons_self, hmsg⟩
      · rw [hbytes]
        exact (List.append_nil _).symm
  | md5 hstate hmsg msg _ => exact absurd hmsg (hwelcome hstate).2
  | authError hstate hmsg ec => exact absurd hmsg (hwelcome hstate).1
  | report ec hec => exact ⟨Or.inl hnet, Truthful.failed hec⟩
  | ready hstate hmsg ec =>
      refine ⟨Or.inl hnet, ?_⟩
      intro ec' st hmem _
      cases List.mem_singleton.mp hmem
      refine ⟨rfl, rfl, ?_⟩
      rcases hreaches with ⟨hauth, _⟩ | ⟨_, m, hm, hok⟩
      · rw [hauth] at hstate
        exact absurd hstate (by decide)
      · obtain ⟨before, between, rfl⟩ := List.append_of_mem hm
        refine ⟨before, m, between, body, hok, ?_⟩
        rw [hbytes, hmsg]
  | ended hstate ec =>
      rcases hreaches with ⟨hauth, _⟩ | ⟨hconn, _⟩
      · rw [hauth] at hstate
        cases hstate
      · rw [hconn] at hstate
        cases hstate
  | aborted e results es hes =>
      refine ⟨Or.inl hnet, Truthful.quiet ?_⟩
      intro ec st hmem
      rcases List.mem_append.mp hmem with hold | hnew
      · exact hes.no_handler h ec st hold
      · cases List.mem_singleton.mp hnew

/-- A completion while the connection is made. -/
theorem Resumes.truthful {r : Completion} {call : ConnCall} {w' : World (List ConnCall) ρ}
    {es : List Event} (hres : Resumes h w r call w' es) (hnet : w.net = [])
    (hadmits : call.Admits r) (hplain : call.Plain) (hlive : call.isTerminate = false)
    {ms : List (MessageType × Buffer)} (hreaches : Reaches ms w.fsm.state)
    (hwelcome : ∀ len head, call = .read len (.body head) → r.ec.isError = false →
      w.fsm.state = .AUTH → head.mtype ≠ ErrorResponse.mtype ∧ ¬ IsAuthentication 5 head r.data) :
    Follows (framed ms ++ call.ahead ++ r.data) w' ∧
      Truthful h (framed ms ++ call.ahead ++ r.data) w'.fsm.state es := by
  cases hres with
  | reported _ ec hec => exact ⟨Or.inl hnet, Truthful.failed hec⟩
  | lost _ e => exact ⟨Or.inl hnet, Truthful.quiet (by simp)⟩
  | closed msg ec => cases hlive
  | wrote _ msg wh _ hwrite _ hfrom _ =>
      refine ⟨Or.inr ⟨.write msg wh, ms, by simp [hnet], hwrite, hreaches, ?_⟩,
        Truthful.quiet (by simp)⟩
      rcases hfrom with ⟨eh, rfl⟩ | ⟨msg', wh', rfl⟩
      · have hdata : r.data = [] := hadmits
        rw [hdata, List.append_nil]
        rfl
      · have hdata : r.data = [] := hadmits
        rw [hdata, List.append_nil]
        rfl
  | reading msg wh _ =>
      refine ⟨Or.inr ⟨.header, ms, by simp [hnet], rfl, hreaches, ?_⟩, Truthful.quiet (by simp)⟩
      have hdata : r.data = [] := hadmits
      rw [hdata, List.append_nil]
      rfl
  | header len head hok er hhead hlen =>
      have hlength : r.data.length = Header.size := (hadmits.length_eq hok).trans hplain
      refine ⟨Or.inr ⟨.read (toSize head.bodyLen) (.body head), ms, by simp [hnet], rfl, hreaches,
        ?_⟩, Truthful.quiet (by simp)⟩
      rw [header_bytes hlength hhead hlen]
      simp [ConnCall.ahead]
  | dispatched len head hok o hreact =>
      have hlength := hadmits.length_eq hok
      rcases hreact with ⟨_, rfl⟩ | ⟨_, hreact⟩
      · exact ⟨Or.inl hnet, Truthful.quiet (by simp)⟩
      · have hbytes : framed ms ++ ConnCall.ahead (.read len (.body head)) ++ r.data =
            framed (ms ++ [(head.mtype, r.data)]) := by
          simp [framed_snoc, frame, ConnCall.ahead, hlength]
        obtain ⟨hfollows, htrue⟩ := hreact.truthful hnet hreaches hbytes (hwelcome len head rfl hok)
        exact ⟨hfollows, htrue.dispatched⟩

/-! Whole runs. -/

/-- A completion calls no handler but the one in the slot. -/
theorem Resumes.handler_eq {r : Completion} {call : ConnCall} {w' : World (List ConnCall) ρ}
    {es : List Event} (hres : Resumes h w r call w' es) {id : HandlerId} {ec : ErrorCode}
    {st : State} (hmem : Event.handler id ec st ∈ es) : id = h := by
  have hone (ec' : ErrorCode) (st' : State)
      (hmem : Event.handler id ec st ∈ [Event.handler h ec' st']) : id = h := by
    cases List.mem_singleton.mp hmem
    rfl
  cases hres with
  | reported _ ec' _ => exact hone _ _ hmem
  | lost _ e => simp at hmem
  | wrote _ msg wh _ _ _ _ _ => simp at hmem
  | reading msg wh _ => cases hmem
  | header len head _ _ _ _ => cases hmem
  | closed msg ec' =>
      rcases List.mem_cons.mp hmem with heq | hrest
      · cases heq
      · exact hone _ _ hrest
  | dispatched len head hok o hreact =>
      rcases List.mem_cons.mp hmem with heq | hrest
      · cases heq
      rcases hreact with ⟨_, rfl⟩ | ⟨_, hreact⟩
      · simp at hrest
      cases hreact with
      | goOn results es hes _ => exact absurd hrest (hes.no_handler id ec st)
      | authOk _ _ => cases hrest
      | md5 _ _ msg _ => simp at hrest
      | report ec' _ => exact hone _ _ hrest
      | authError _ _ ec' => exact hone _ _ hrest
      | ready _ _ ec' => exact hone _ _ hrest
      | ended _ ec' => exact hone _ _ hrest
      | aborted e results es hes =>
          rcases List.mem_append.mp hrest with hold | hnew
          · exact absurd hold (hes.no_handler id ec st)
          · cases List.mem_singleton.mp hnew

/-- Nothing was done yet, or while the slot holds the handler of `connect` the
bytes read follow the outstanding call. -/
structure Dialing (h : HandlerId) (labels : List Label) (w : World (List ConnCall) ρ) :
    Prop where
  fresh : w.fsm = FSM.init → w.net = [] ∧ received labels = []
  follows : w.fsm.ehandler = some h → Follows (received labels) w

theorem Dialing.ofOther {labels : List Label} {other : HandlerId}
    (hhandler : w.fsm.ehandler = some other) (hne : other ≠ h) : Dialing h labels w := by
  constructor
  · intro hfresh
    rw [hfresh] at hhandler
    cases hhandler
  · intro hown
    rw [hhandler] at hown
    exact absurd (Option.some.inj hown) hne

theorem Dialing.completes {labels : List Label} {w' : World (List ConnCall) ρ} {i : Nat}
    {r : Completion} {call : ConnCall} {own : HandlerId} {es : List Event} (hsound : Sound w)
    (hinv : Dialing h labels w) (hwelcome : Welcomed w (.complete i r))
    (hcall : w.net[i]? = some call) (hadmits : call.Admits r) (hh : w.fsm.ehandler = some own)
    (hres : Resumes own { w with net := w.net.eraseIdx i } r call w' es) :
    Dialing h (labels ++ [.complete i r]) w' ∧
      Truthful h (received (labels ++ [.complete i r])) w'.fsm.state es := by
  obtain ⟨_, _, _, hkept⟩ := hres.issued
  have hhandler : w'.fsm.ehandler = some own := hkept.trans hh
  by_cases hown : own = h
  · subst hown
    rcases hinv.follows hh with hnone | ⟨only, ms, hnet, hlive, hreaches, hbytes⟩
    · rw [hnone] at hcall
      cases hcall
    obtain ⟨rfl, rfl, herase⟩ := only_call hnet hcall
    obtain ⟨hfollows, htrue⟩ := hres.truthful herase hadmits
      (hsound.plain only (List.mem_of_getElem? hcall)) hlive hreaches (by
        rintro len head rfl
        exact hwelcome len head hcall)
    rw [received_complete, hbytes]
    refine ⟨⟨?_, fun _ => ?_⟩, htrue⟩
    · intro hfresh
      rw [hfresh] at hhandler
      cases hhandler
    · rw [received_complete, hbytes]
      exact hfollows
  · refine ⟨Dialing.ofOther hhandler hown, Truthful.quiet ?_⟩
    intro ec st hmem
    exact hown (hres.handler_eq hmem).symm

theorem Dials.handler_ne {c : Call} (hdials : Dials h w (.call c)) (hc : c.isRequest = true) :
    c.handler ≠ h := by
  cases c with
  | connect option eh => cases hc
  | _ => exact hdials

theorem Dialing.step {labels : List Label} {w' : World (List ConnCall) ρ} {label : Label}
    {es : List Event} (hsound : Sound w) (hinv : Dialing h labels w) (hdials : Dials h w label)
    (hwelcome : Welcomed w label) (hcase : StepCase w label w' es) :
    Dialing h (labels ++ [label]) w' ∧
      Truthful h (received (labels ++ [label])) w'.fsm.state es := by
  cases hcase with
  | complete i r call hcall hadmits own hh hres =>
      exact hinv.completes hsound hwelcome hcall hadmits hh hres
  | connect option eh =>
      obtain ⟨hfresh, rfl⟩ := hdials
      obtain ⟨hnet, hnone⟩ := hinv.fresh hfresh
      refine ⟨⟨fun hinit => ?_, fun _ => ?_⟩, Truthful.quiet (by simp)⟩
      · rw [FSM.init, FSM.mk.injEq] at hinit
        cases hinit.2.2.1
      · refine Or.inr ⟨.connect (.connected option), [], by simp [hnet], rfl, ?_, ?_⟩
        · exact Or.inl ⟨congrArg FSM.state hfresh, by simp⟩
        · rw [received_call, hnone]
          rfl
  | reject c hc hstate =>
      refine ⟨⟨?_, ?_⟩, Truthful.quiet ?_⟩
      · rw [received_call]
        exact hinv.fresh
      · rw [received_call]
        exact hinv.follows
      · intro ec st hmem
        cases List.mem_singleton.mp hmem
        exact hdials.handler_ne hc rfl
  | accept c hc hstate fsm hhandler _ msg wh _ _ _ =>
      exact ⟨Dialing.ofOther hhandler (hdials.handler_ne hc), Truthful.quiet (by simp)⟩
  | close eh =>
      have hne : eh ≠ h := hdials
      exact ⟨Dialing.ofOther rfl hne, Truthful.quiet (by simp)⟩

theorem dialing_run {results : ResultId → ρ} {labels : List Label} {events : List Event}
    (hrun : (AsyncConnection.machine ext).Run (fun w label => Dials h w label ∧ Welcomed w label)
      (World.init results) labels w events) : Sound w ∧ Dialing h labels w := by
  refine run_invariant (fun labels w _ => Dialing h labels w) ?_ ?_ hrun
  · exact ⟨fun _ => ⟨rfl, rfl⟩, fun hhandler => by cases hhandler⟩
  · rintro labels w w' label events es hsound hinv ⟨hdials, hwelcome⟩ hcase
    exact (hinv.step hsound hdials hwelcome hcase).1

theorem truthful_step {results : ResultId → ρ} {labels : List Label} {events : List Event}
    {label : Label} {w' : World (List ConnCall) ρ} {es : List Event}
    (hrun : (AsyncConnection.machine ext).Run (fun w label => Dials h w label ∧ Welcomed w label)
      (World.init results) labels w events) (hdials : Dials h w label)
    (hwelcome : Welcomed w label)
    (hstep : (AsyncConnection.machine ext).step w label = some (w', es)) :
    Truthful h (received (labels ++ [label])) w'.fsm.state es := by
  obtain ⟨hsound, hinv⟩ := dialing_run hrun
  exact (hinv.step hsound hdials hwelcome (step_cases hsound hstep)).2

/-! The blocking connection. -/

theorem serve_admits (p : Peer) (call : ConnCall) : call.Admits (p.serve call).1 := by
  unfold Peer.serve
  cases p.fault p.step with
  | some e =>
      cases call with
      | connect eh => rfl
      | write msg wh => rfl
      | read len rh => simp [ConnCall.Admits, e.property]
  | none =>
      cases call with
      | connect eh => rfl
      | write msg wh => rfl
      | read len rh =>
          dsimp only
          split
          · rename_i hle
            simp [ConnCall.Admits, hle]
          · simp [ConnCall.Admits, p.eof.property]

/-- A read takes its bytes off the front of the input. -/
theorem serve_takes (p : Peer) (call : ConnCall) :
    (p.serve call).1.data ++ (p.serve call).2.input <+: p.input := by
  unfold Peer.serve
  cases p.fault p.step with
  | some e => exact List.prefix_refl _
  | none =>
      cases call with
      | connect eh => exact List.prefix_refl _
      | write msg wh => exact List.prefix_refl _
      | read len rh =>
          dsimp only
          split
          · exact ⟨[], by rw [List.append_nil, List.take_append_drop]⟩
          · exact List.nil_prefix

/-- Up to the first `AuthenticationOk`, the messages of the server are no error
response and no request for an MD5 password. -/
def Welcoming (input : Buffer) : Prop :=
  ∀ ms m, framed (ms ++ [m]) <+: input → (∀ earlier ∈ ms, ¬ IsAuthenticationOk earlier) →
    m.1 ≠ ErrorResponse.mtype ∧ ¬ (m.1 = Authentication.mtype ∧ authCode m.2 = some 5)

/-- The next message is welcome if the stream is. -/
theorem welcomed_of_stream {input : Buffer} (hinput : Welcoming input) {labels : List Label}
    (hinv : Dialing h labels w) (hh : w.fsm.ehandler = some h) {r : Completion} {call : ConnCall}
    (hnet : w.net = [call]) (hadmits : call.Admits r)
    (hread : received labels ++ r.data <+: input) :
    Welcomed w (.complete 0 r) := by
  intro len head hcall hok hstate
  have hbody : call = .read len (.body head) := by
    simpa [hnet] using hcall
  subst hbody
  rcases hinv.follows hh with hnone | ⟨only, ms, honly, _, hreaches, hbytes⟩
  · rw [hnone] at hnet
    cases hnet
  have hsame : only = .read len (.body head) := by
    rw [hnet] at honly
    exact (List.head_eq_of_cons_eq honly).symm
  subst hsame
  have hnone : ∀ earlier ∈ ms, ¬ IsAuthenticationOk earlier := by
    rcases hreaches with ⟨_, hnone⟩ | ⟨hconn, _⟩
    · exact hnone
    · rw [hstate] at hconn
      cases hconn
  have hlength := hadmits.length_eq hok
  have hframes : framed (ms ++ [(head.mtype, r.data)]) = received labels ++ r.data := by
    rw [hbytes]
    simp [framed_snoc, frame, ConnCall.ahead, hlength]
  exact hinput ms (head.mtype, r.data) (hframes ▸ hread) hnone

/-- The nested callbacks from an outstanding call on do what a run of the event
loop does, one step at a time. -/
theorem perform_truthful {results : ResultId → ρ} {input : Buffer} (hinput : Welcoming input)
    (n : Nat) {labels : List Label} {events : List Event} {p : Peer} {call : ConnCall}
    (hrun : (AsyncConnection.machine ext).Run (fun w label => Dials h w label ∧ Welcomed w label)
      (World.init results) labels w events) (hnet : w.net = [call])
    (hh : w.fsm.ehandler = some h) (hread : received labels ++ p.input <+: input)
    (ec : ErrorCode) (st : State)
    (hmem : Event.handler h ec st ∈ (Connection.perform ext n call (w.withNet p)).events)
    (hok : ec.isError = false) : st = .IDLE ∧ ∃ bytes, bytes <+: input ∧ LoggedOn bytes := by
  induction n generalizing labels events p call w with
  | zero => cases hmem
  | succ n ih =>
      obtain ⟨hsound, hinv⟩ := dialing_run hrun
      have hdials : Dials h w (.complete 0 (p.serve call).1) := trivial
      have htaken : received labels ++ (p.serve call).1.data ++ (p.serve call).2.input <+:
          input := by
        rw [List.append_assoc]
        exact ((List.prefix_append_right_inj _).mpr (serve_takes p call)).trans hread
      have hwelcome := welcomed_of_stream hinput hinv hh hnet (serve_admits p call)
        ((List.prefix_append _ _).trans htaken)
      obtain ⟨o, ho, hcases⟩ := chain_step ext (Connection.perform ext n) w p call hnet hsound (by
        rintro len head rfl hread hstate
        exact (hwelcome len head (by simp [hnet]) hread hstate).2)
      have hstep : (AsyncConnection.machine ext).step w (.complete 0 (p.serve call).1) =
          some (o.settle.1, o.settle.2) := by
        simp [AsyncConnection.machine, hnet, serve_admits p call, ho]
      have hbytes : received (labels ++ [.complete 0 (p.serve call).1]) ++
          (p.serve call).2.input <+: input := by
        rw [received_complete]
        exact htaken
      have hhere (hstepped : Event.handler h ec st ∈ o.events) :
          st = .IDLE ∧ ∃ bytes, bytes <+: input ∧ LoggedOn bytes := by
        have hsettled : Event.handler h ec st ∈ o.settle.2 := by
          unfold Outcome.settle
          split
          · exact hstepped
          · exact List.mem_append_left _ hstepped
        obtain ⟨hidle, _, hlogged⟩ := truthful_step hrun hdials hwelcome hstep ec st hsettled hok
        exact ⟨hidle, _, (List.prefix_append _ _).trans hbytes, hlogged⟩
      rw [Connection.perform_succ] at hmem
      rcases hcases with ⟨_, hsync⟩ | ⟨next, hvalue, hnext, _, hkept, _, _, hsync⟩
      · rw [hsync] at hmem
        exact hhere hmem
      · rw [hsync] at hmem
        rcases List.mem_append.mp hmem with hstepped | hlater
        · exact hhere hstepped
        · have hmore := Machine.Run.snoc hrun ⟨hdials, hwelcome⟩ hstep
          rw [settle_of_ok hvalue] at hmore
          exact ih hmore hnext (hkept.trans hh) hbytes hlater

/-- As long as the server neither refuses the start-up message with an error nor
asks for an MD5 password: whenever the handler of `connect` is told success, over
the event loop or over the blocking connection, the state is `IDLE` and the server
has sent `AuthenticationOk` and after it `ReadyForQuery`. -/
theorem connect_truthful (ext : Externals ρ) (h : HandlerId) (results : ResultId → ρ) :
    (∀ labels w events label w' es,
      (AsyncConnection.machine ext).Run (fun w label => Dials h w label ∧ Welcomed w label)
        (World.init results) labels w events → Dials h w label → Welcomed w label →
      (AsyncConnection.machine ext).step w label = some (w', es) →
      Truthful h (received (labels ++ [label])) w'.fsm.state es) ∧
    ∀ option p n ec st, Welcoming p.input →
      Event.handler h ec st ∈
        (Call.run (Connection.nested ext n) (.connect option h) ⟨FSM.init, results, p⟩).events →
      ec.isError = false → st = .IDLE ∧ ∃ bytes, bytes <+: p.input ∧ LoggedOn bytes := by
  constructor
  · intro labels w events label w' es hrun hdials hwelcome hstep
    exact truthful_step hrun hdials hwelcome hstep
  · intro option p n ec st hinput hmem hok
    let w : World (List ConnCall) ρ :=
      ⟨{ FSM.init with ehandler := some h }, results, [.connect (.connected option)]⟩
    have hrun : (AsyncConnection.machine ext).Run
        (fun w label => Dials h w label ∧ Welcomed w label) (World.init results)
        [.call (.connect option h)] w ([] ++ []) :=
      Machine.Run.cons ⟨⟨rfl, rfl⟩, trivial⟩ rfl Machine.Run.nil
    rw [Connection.nested_eq] at hmem
    exact perform_truthful (w := w) hinput n hrun rfl rfl (List.prefix_refl p.input) ec st hmem hok

/-- A frame can be told from what follows it. -/
theorem frame_unique {m m' : MessageType × Buffer} {x y : Buffer}
    (h : frame m ++ x = frame m' ++ y) (hm : m.2.length + 4 < 2 ^ 32)
    (hm' : m'.2.length + 4 < 2 ^ 32) : m = m' := by
  obtain ⟨type, body⟩ := m
  obtain ⟨type', body'⟩ := m'
  simp only [frame, List.cons_append, List.append_assoc, List.cons.injEq] at h
  obtain ⟨rfl, hrest⟩ := h
  obtain ⟨hlength, hbodies⟩ := List.append_inj hrest rfl
  have hread := read32_be32 (body.length + 4) [] hm
  rw [hlength, read32_be32 _ [] hm'] at hread
  have hsame : body'.length = body.length := by
    simpa using hread
  rw [(List.append_inj hbodies hsame.symm).1]

/-- A server that asks for nothing is welcoming. -/
theorem welcoming_of_ok (ok : MessageType × Buffer) (hok : IsAuthenticationOk ok) (rest : Buffer)
    (hlength : (frame ok ++ rest).length < 2 ^ 32) : Welcoming (frame ok ++ rest) := by
  have hfirst (m : MessageType × Buffer) (x : Buffer) (hframe : frame m ++ x <+: frame ok ++ rest) :
      m = ok := by
    obtain ⟨y, hy⟩ := hframe
    rw [List.append_assoc] at hy
    have hbytes := congrArg List.length hy
    simp only [frame, List.cons_append, List.length_cons, List.length_append, be32_length]
      at hbytes hlength
    exact frame_unique hy (by omega) (by omega)
  intro ms m hframes hnone
  cases ms with
  | nil =>
      have hm := hfirst m [] (by simpa [framed] using hframes)
      rw [hm]
      refine ⟨?_, ?_⟩
      · rw [hok.1]
        decide
      · rintro ⟨_, hcode⟩
        rw [hok.2] at hcode
        cases hcode
  | cons earlier ms =>
      have hearlier := hfirst earlier (framed (ms ++ [m])) (by simpa [framed] using hframes)
      exact absurd (hearlier ▸ hok) (hnone earlier List.mem_cons_self)

/-- The bytes of a server that lets anyone in. -/
def trustingServer : Buffer := [82, 0, 0, 0, 8, 0, 0, 0, 0, 90, 0, 0, 0, 5, 73]

theorem connect_truthful_trusting :
    LoggedOn (received (logOn .empty 0)) ∧
      let p : Peer := ⟨trustingServer, ⟨⟨2, .external 0⟩, rfl⟩, fun _ => none, 0⟩
      let o := Call.run (Connection.nested (Externals.standard fun _ => []) 6) (.connect .empty 0)
        ⟨FSM.init, fun _ => [], p⟩
      Welcoming p.input ∧ Event.handler 0 .success .IDLE ∈ o.events ∧
        ∃ bytes, bytes <+: p.input ∧ LoggedOn bytes := by
  have htrue := connect_truthful (Externals.standard fun _ => []) 0 fun _ => []
  constructor
  · refine (htrue.1
      [.call (.connect .empty 0), .complete 0 (.delivered []),
        .complete 0 (.sent (.startUp .empty)), .complete 0 (.delivered [82, 0, 0, 0, 8]),
        .complete 0 (.delivered [0, 0, 0, 0]), .complete 0 (.delivered [90, 0, 0, 0, 5])] _ _
      (.complete 0 (.delivered [73])) _ _
      (.cons ⟨⟨rfl, rfl⟩, trivial⟩ rfl <| .cons ⟨trivial, ?_⟩ rfl <| .cons ⟨trivial, ?_⟩ rfl <|
        .cons ⟨trivial, ?_⟩ rfl <| .cons ⟨trivial, ?_⟩ rfl <| .cons ⟨trivial, ?_⟩ rfl .nil)
      trivial ?_ rfl .success .IDLE (List.mem_of_getElem? (i := 1) rfl) rfl).2.2
    · rintro _ _ ⟨⟩
    · rintro _ _ ⟨⟩
    · rintro _ _ ⟨⟩
    · intro len head hcall _ _
      obtain ⟨_, hbody⟩ := ConnCall.read.inj (Option.some.inj hcall)
      rw [← RHandler.body.inj hbody]
      exact ⟨by decide, by decide⟩
    · rintro _ _ ⟨⟩
    · intro _ _ _ _ hstate
      exact absurd hstate (by decide)
  · intro p o
    have hinput : Welcoming p.input :=
      welcoming_of_ok (82, [0, 0, 0, 0]) ⟨rfl, by decide⟩ [90, 0, 0, 0, 5, 73] (by decide)
    have hlast : o.events.getLast? = some (.handler 0 .success .IDLE) := rfl
    have hmem := List.mem_of_getLast? hlast
    obtain ⟨_, hlogged⟩ := htrue.2 .empty p 6 .success .IDLE hinput hmem rfl
    exact ⟨hinput, hmem, hlogged⟩

/-- A server that answers the start-up message with an error: the handler is
told success, in `AUTH`. -/
theorem not_connect_truthful :
    ¬ ∀ labels w events label w' es,
      (AsyncConnection.machine (Externals.standard fun _ => [])).Run (Dials 0)
        (World.init fun _ => []) labels w events → Dials 0 w label →
      (AsyncConnection.machine (Externals.standard fun _ => [])).step w label = some (w', es) →
      Truthful 0 (received (labels ++ [label])) w'.fsm.state es := by
  intro hall
  have htrue := hall
    [.call (.connect .empty 0), .complete 0 (.delivered []),
      .complete 0 (.sent (.startUp .empty)), .complete 0 (.delivered [69, 0, 0, 0, 12])] _ _
    (.complete 0 (.delivered [67, 50, 56, 80, 48, 49, 0, 0])) _ _
    (.cons ⟨rfl, rfl⟩ rfl <| .cons trivial rfl <| .cons trivial rfl <| .cons trivial rfl .nil)
    trivial rfl
  have hidle := (htrue .success .AUTH (List.mem_of_getElem? (i := 1) rfl) rfl).1
  cases hidle

end Lapq
