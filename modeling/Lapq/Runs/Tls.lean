import Lapq.Semantics.Tls
import Lapq.Steps.Frame

/-!
No plaintext over a connection with TLS. The log of the operations starts with
the same steps over both connections, and a message of the protocol is written
only behind the last of them.
-/

namespace Lapq

variable {ρ : Type} {ext : Externals ρ}

/-- The operations before the first message: the socket connects, the server is
asked for TLS and answers, and the handshake is made. -/
def setup (connected requested answered secured : Completion) : List StreamEvent :=
  [.started .connect, .finished .connect connected,
    .started (.write .plain .sslRequest), .finished (.write .plain .sslRequest) requested,
    .started (.read .plain 1), .finished (.read .plain 1) answered,
    .started .handshake, .finished .handshake secured]

/-- All of them succeeded: the request was written to its last byte, and the one
byte that came back is an `S`. -/
structure Arranged (connected requested answered secured : Completion) : Prop where
  connected : connected.ec.isError = false
  requested : requested.ec.isError = false ∧
    requested.bytes = Message.sslRequest.wire.length
  answered : answered.ec.isError = false ∧ answered.data = ['S'.toUInt8]
  secured : secured.ec.isError = false

def StreamEvent.onTls : StreamEvent → Bool
  | .started (.write .tls _) | .started (.read .tls _) => true
  | .finished (.write .tls _) _ | .finished (.read .tls _) _ => true
  | _ => false

/-- The TLS stream was set up, and since then only it was used. -/
def Established (log : List StreamEvent) : Prop :=
  ∃ c q a h rest, Arranged c q a h ∧ log = setup c q a h ++ rest ∧ ∀ e ∈ rest, e.onTls = true

/-- No message but the request for TLS is written, and that one on the socket. -/
def OnlyRequest (log : List StreamEvent) : Prop :=
  ∀ stream msg, .started (.write stream msg) ∈ log → stream = .plain ∧ msg = .sslRequest

/-- Each write in a log is the request for TLS on the socket, before any other
write, or it is on the TLS stream after that was set up. If the stream was never
set up there is none of the second kind. -/
structure NoPlaintext (log : List StreamEvent) : Prop where
  each : ∀ before stream msg after, log = before ++ .started (.write stream msg) :: after →
    stream = .plain ∧ msg = .sslRequest ∧ (∀ s m, .started (.write s m) ∉ before) ∨
      stream = .tls ∧ Established before
  otherwise : ¬ Established log → OnlyRequest log

/-! Logs. -/

theorem Established.append {log : List StreamEvent} (hlog : Established log) {e : StreamEvent}
    (he : e.onTls = true) : Established (log ++ [e]) := by
  obtain ⟨c, q, a, h, rest, harranged, rfl, hrest⟩ := hlog
  refine ⟨c, q, a, h, rest ++ [e], harranged, List.append_assoc _ _ _, ?_⟩
  intro x hx
  rcases List.mem_append.mp hx with hold | hnew
  · exact hrest x hold
  · rw [List.mem_singleton.mp hnew]
    exact he

/-- A log grows by an event that is no write, or by an allowed one. -/
theorem NoPlaintext.append {log : List StreamEvent} (hlog : NoPlaintext log) {e : StreamEvent}
    (hwrite : ∀ stream msg, e = .started (.write stream msg) →
      stream = .plain ∧ msg = .sslRequest ∧ (∀ s m, .started (.write s m) ∉ log) ∨
        stream = .tls ∧ Established log)
    (hotherwise : ¬ Established (log ++ [e]) → OnlyRequest (log ++ [e])) :
    NoPlaintext (log ++ [e]) := by
  refine ⟨?_, hotherwise⟩
  intro before stream msg after hsplit
  rcases List.eq_nil_or_concat after with rfl | ⟨init, last, rfl⟩
  · obtain ⟨rfl, hlast⟩ := List.append_inj' hsplit rfl
    exact hwrite stream msg (List.cons.inj hlast).1
  · rw [List.concat_eq_append, ← List.cons_append, ← List.append_assoc] at hsplit
    obtain ⟨hinit, _⟩ := List.append_inj' hsplit rfl
    exact hlog.each before stream msg init hinit

/-- Behind the handshake, the log grows by what is done on the TLS stream. -/
theorem NoPlaintext.append_tls {log : List StreamEvent} (hlog : NoPlaintext log)
    (hestablished : Established log) {e : StreamEvent} (he : e.onTls = true) :
    NoPlaintext (log ++ [e]) := by
  apply hlog.append
  · rintro (stream | stream) msg rfl
    · cases he
    · exact Or.inr ⟨rfl, hestablished⟩
  · intro hnot
    exact absurd (hestablished.append he) hnot

theorem OnlyRequest.append {log : List StreamEvent} (hlog : OnlyRequest log) {e : StreamEvent}
    (he : ∀ stream msg, e = .started (.write stream msg) →
      stream = .plain ∧ msg = .sslRequest) : OnlyRequest (log ++ [e]) := by
  intro stream msg hmem
  rcases List.mem_append.mp hmem with hold | hnew
  · exact hlog stream msg hold
  · exact he stream msg (List.mem_singleton.mp hnew).symm

/-- A log without a write on the TLS stream, of which the request is the first. -/
structure Opening (log : List StreamEvent) : Prop where
  noPlaintext : NoPlaintext log
  request : OnlyRequest log

theorem Opening.append {log : List StreamEvent} (hlog : Opening log) {e : StreamEvent}
    (he : ∀ stream msg, e ≠ .started (.write stream msg)) : Opening (log ++ [e]) := by
  have honly := hlog.request.append fun stream msg heq => absurd heq (he stream msg)
  exact ⟨hlog.noPlaintext.append (fun stream msg heq => absurd heq (he stream msg)) fun _ => honly,
    honly⟩

theorem opening_nil : Opening [] :=
  ⟨⟨by simp, by simp [OnlyRequest]⟩, by simp [OnlyRequest]⟩

theorem Completion.written_ok {msg : Message} {r : Completion}
    (h : (r.written msg).isError = false) : r.ec.isError = false ∧ r.bytes = msg.wire.length := by
  unfold Completion.written at h
  split at h
  · cases h
  · rename_i hshort
    refine ⟨h, ?_⟩
    simpa [h] using hshort

theorem Completion.sslAnswer_ok {r : Completion} (hadmits : (StreamOp.read .plain 1).Admits r)
    (h : r.sslAnswer.isError = false) : r.ec.isError = false ∧ r.data = ['S'.toUInt8] := by
  unfold Completion.sslAnswer at h
  split at h
  · rename_i hec
    rw [h] at hec
    cases hec
  rename_i hec
  split at h
  · cases h
  split at h
  · cases h
  rename_i hbyte
  have hok : r.ec.isError = false := Bool.eq_false_iff.mpr hec
  refine ⟨hok, ?_⟩
  have hlength : r.data.length = 1 := by
    simpa [StreamOp.Admits, hok] using hadmits
  obtain ⟨b, hb⟩ := List.length_eq_one_iff.mp hlength
  rw [hb] at hbyte ⊢
  simpa using hbyte

/-- A log of four operations that all succeeded. -/
theorem established_setup {c q a h : Completion} (harranged : Arranged c q a h) :
    Established (setup c q a h) :=
  ⟨c, q, a, h, [], harranged, (List.append_nil _).symm, by simp⟩

/-- The logs on the way to it. -/
theorem opening_connect (c : Completion) :
    Opening [.started .connect, .finished .connect c] :=
  (opening_nil.append (e := .started .connect) (by simp)).append
    (e := .finished .connect c) (by simp)

theorem opening_request (c : Completion) :
    Opening [.started .connect, .finished .connect c,
      .started (.write .plain .sslRequest)] := by
  obtain ⟨hplain, honly⟩ := opening_connect c
  have hrequest : OnlyRequest ([.started .connect, .finished .connect c] ++
      [.started (.write .plain .sslRequest)]) := by
    apply honly.append
    rintro stream msg heq
    cases heq
    exact ⟨rfl, rfl⟩
  refine ⟨hplain.append ?_ fun _ => hrequest, hrequest⟩
  intro stream msg heq
  cases heq
  exact Or.inl ⟨rfl, rfl, by simp⟩

theorem opening_requested (c q : Completion) :
    Opening [.started .connect, .finished .connect c, .started (.write .plain .sslRequest),
      .finished (.write .plain .sslRequest) q] :=
  (opening_request c).append (e := .finished (.write .plain .sslRequest) q) (by simp)

theorem opening_answer (c q : Completion) :
    Opening [.started .connect, .finished .connect c, .started (.write .plain .sslRequest),
      .finished (.write .plain .sslRequest) q, .started (.read .plain 1)] :=
  (opening_requested c q).append (e := .started (.read .plain 1)) (by simp)

theorem opening_answered (c q a : Completion) :
    Opening [.started .connect, .finished .connect c, .started (.write .plain .sslRequest),
      .finished (.write .plain .sslRequest) q, .started (.read .plain 1),
      .finished (.read .plain 1) a] :=
  (opening_answer c q).append (e := .finished (.read .plain 1) a) (by simp)

theorem opening_handshake (c q a : Completion) :
    Opening [.started .connect, .finished .connect c, .started (.write .plain .sslRequest),
      .finished (.write .plain .sslRequest) q, .started (.read .plain 1),
      .finished (.read .plain 1) a, .started .handshake] :=
  (opening_answered c q a).append (e := .started .handshake) (by simp)

theorem opening_setup (c q a h : Completion) : Opening (setup c q a h) :=
  (opening_handshake c q a).append (e := .finished .handshake h) (by simp)

/-- The callback of a failed step throws, as the handler it captured was moved
from. -/
theorem fail_world {ν : Type} (con : ConnectionBase ν ρ) {eh : EHandler} {option : DBOption}
    (heh : eh = .sslConnected option none ∨ eh = .handshaken option none) {ec : ErrorCode}
    (hec : ec.isError = true) (w : World ν ρ) : (eh.run con ec w).world = w := by
  rw [EHandler.run_fails con eh hec]
  rcases heh with rfl | rfl
  · rfl
  · rfl

/-! The blocking connection. -/

namespace SSLConnection

/-- Behind the handshake. -/
def Secured (p : SslPeer) : Prop := NoPlaintext p.log ∧ Established p.log

theorem keeps_io {op : StreamOp} (hstarted : (StreamEvent.started op).onTls = true)
    (hfinished : ∀ r, (StreamEvent.finished op r).onTls = true) :
    Keeps Secured (io op : Act SslPeer ρ Completion) := by
  constructor
  rintro w ⟨hplain, hestablished⟩
  have hstart := hestablished.append hstarted
  exact ⟨(hplain.append_tls hestablished hstarted).append_tls hstart (hfinished _),
    hstart.append (hfinished _)⟩

theorem nested_kept (ext : Externals ρ) (n : Nat) : KeptBy Secured (nested ext n) := by
  induction n with
  | zero => exact ⟨fun _ _ => Keeps.throw _, fun _ _ => Keeps.throw _⟩
  | succ n ih =>
      constructor
      · intro len rh
        apply Keeps.bind (keeps_io rfl fun _ => rfl)
        intro r
        exact Keeps.readHandler ih rh r.ec r.data
      · intro msg wh
        apply Keeps.bind (keeps_io rfl fun _ => rfl)
        intro r
        exact Keeps.writeHandler ih wh _

/-- The TLS stream is set up, or nothing but the request for it was written. In
the second case the state is still that of the start. -/
def Safe (s : State) (w : World SslPeer ρ) : Prop :=
  Secured w.net ∨ Opening w.net.log ∧ w.fsm.state = s

theorem Safe.noPlaintext {s : State} {w : World SslPeer ρ} (hsafe : Safe s w) :
    NoPlaintext w.net.log := by
  rcases hsafe with ⟨hplain, _⟩ | ⟨hopening, _⟩
  · exact hplain
  · exact hopening.noPlaintext

/-- One operation, then what its result leads to. -/
theorem io_bind_world (op : StreamOp) (f : Completion → Act SslPeer ρ Unit) (w : World SslPeer ρ) :
    ∃ r, op.Admits r ∧ ((io op >>= f) w).world =
      (f r { w with net := ⟨w.net.answer,
        w.net.log ++ [.started op] ++ [.finished op r]⟩ }).world :=
  ⟨_, (w.net.answer _ op).property, rfl⟩

theorem safe_handshake (ext : Externals ρ) (n : Nat) (option : DBOption) {w : World SslPeer ρ}
    {c : Completion} (hc : c.ec.isError = false)
    (hlog : w.net.log = [.started .connect, .finished .connect c]) :
    Safe w.fsm.state (handshake (nested ext n) (.handshaken option none) w).world := by
  unfold handshake
  obtain ⟨q, _, hworld⟩ := io_bind_world (.write .plain .sslRequest) _ w
  rw [hworld, hlog]
  dsimp only
  split
  · rename_i hec
    rw [fail_world _ (Or.inr rfl) hec]
    exact Or.inr ⟨opening_requested c q, rfl⟩
  rename_i hrequested
  obtain ⟨a, hadmits, hworld⟩ := io_bind_world (.read .plain 1) _ _
  rw [hworld]
  dsimp only
  split
  · rename_i hec
    rw [fail_world _ (Or.inr rfl) hec]
    exact Or.inr ⟨opening_answered c q a, rfl⟩
  rename_i hanswered
  obtain ⟨h, _, hworld⟩ := io_bind_world .handshake _ _
  rw [hworld]
  by_cases hec : h.ec.isError = true
  · rw [fail_world _ (Or.inr rfl) hec]
    exact Or.inr ⟨opening_setup c q a h, rfl⟩
  · have harranged : Arranged c q a h :=
      ⟨hc, Completion.written_ok (Bool.eq_false_iff.mpr hrequested),
        Completion.sslAnswer_ok hadmits (Bool.eq_false_iff.mpr hanswered),
        Bool.eq_false_iff.mpr hec⟩
    unfold EHandler.run
    rw [if_neg hec]
    apply Or.inl
    apply (Keeps.write (nested_kept ext n) _ _).kept
    exact ⟨(opening_setup c q a h).noPlaintext, established_setup harranged⟩

theorem safe_connectSSL (ext : Externals ρ) (n : Nat) (option : DBOption) (eh : HandlerId)
    {w : World SslPeer ρ} (hlog : w.net.log = []) :
    Safe w.fsm.state (FSM.connectSSL (nested ext n) option eh w).world := by
  let w' : World SslPeer ρ := { w with fsm := { w.fsm with ehandler := some eh } }
  change Safe w.fsm.state ((nested ext n).connect (.sslConnected option none) w').world
  cases n with
  | zero =>
      refine Or.inr ⟨?_, rfl⟩
      change Opening w.net.log
      rw [hlog]
      exact opening_nil
  | succ n =>
      change Safe w.fsm.state ((io .connect >>= fun r => EHandler.run (nested ext n)
        (.sslConnected option none) r.ec) w').world
      obtain ⟨c, _, hworld⟩ := io_bind_world .connect
        (fun r => EHandler.run (nested ext n) (.sslConnected option none) r.ec) w'
      have hlog' : w'.net.log = [] := hlog
      rw [hworld, hlog']
      by_cases hec : c.ec.isError = true
      · rw [fail_world _ (Or.inl rfl) hec]
        exact Or.inr ⟨opening_connect c, rfl⟩
      · unfold EHandler.run
        rw [if_neg hec]
        cases n with
        | zero => exact Or.inr ⟨opening_connect c, rfl⟩
        | succ n => exact safe_handshake ext n option (Bool.eq_false_iff.mpr hec) rfl

theorem Safe.request (ext : Externals ρ) (n : Nat) {s : State} {w : World SslPeer ρ}
    (hsafe : Safe s w) (c : Call) (hc : c.isRequest = true) (hs : s ≠ .IDLE) :
    Safe s (c.run (nested ext n) w).world := by
  rcases hsafe with hsecured | ⟨hopening, rfl⟩
  · exact Or.inl ((Keeps.request (nested_kept ext n) c hc).kept w hsecured)
  · rw [reject_run (nested ext n) c hc hs]
    exact Or.inr ⟨hopening, rfl⟩

/-- Calls of the user, one after the other. An exception that escapes from one
does not keep the user from the next. -/
def calls (ext : Externals ρ) (n : Nat) (cs : List Call) (w : World SslPeer ρ) : World SslPeer ρ :=
  cs.foldl (fun w c => (c.run (nested ext n) w).world) w

theorem Safe.calls (ext : Externals ρ) (n : Nat) {s : State} (cs : List Call)
    (hcs : ∀ c ∈ cs, c.isRequest = true ∧ s ≠ .IDLE) {w : World SslPeer ρ} (hsafe : Safe s w) :
    Safe s (SSLConnection.calls ext n cs w) := by
  induction cs generalizing w with
  | nil => exact hsafe
  | cons c cs ih =>
      apply ih (fun d hd => hcs d (List.mem_cons_of_mem _ hd))
      obtain ⟨hc, hs⟩ := hcs c List.mem_cons_self
      exact hsafe.request ext n c hc hs

end SSLConnection

/-! The asynchronous connection. -/

def SslCall.isTls : SslCall → Bool
  | .read .. | .write .. => true
  | _ => false

theorem SslCall.isTls_op {call : SslCall} (hcall : call.isTls = true) :
    (StreamEvent.started call.op).onTls = true ∧
      ∀ r, (StreamEvent.finished call.op r).onTls = true := by
  cases call with
  | read len rh => exact ⟨rfl, fun _ => rfl⟩
  | write msg wh => exact ⟨rfl, fun _ => rfl⟩
  | connect eh => cases hcall
  | request eh => cases hcall
  | answer eh => cases hcall
  | handshake eh => cases hcall

namespace SSLAsyncConnection

/-- Behind the handshake. -/
structure Secured (q : SslQueue) : Prop where
  noPlaintext : NoPlaintext q.log
  established : Established q.log
  pending : ∀ call ∈ q.pending, call.isTls = true

theorem Secured.start {q : SslQueue} (hq : Secured q) {call : SslCall}
    (hcall : call.isTls = true) :
    Secured ⟨q.pending ++ [call], q.log ++ [.started call.op]⟩ := by
  have hop := (SslCall.isTls_op hcall).1
  refine ⟨hq.noPlaintext.append_tls hq.established hop, hq.established.append hop, ?_⟩
  intro other hmem
  rcases List.mem_append.mp hmem with hold | hnew
  · exact hq.pending other hold
  · rw [List.mem_singleton.mp hnew]
    exact hcall

theorem Secured.finish {w : World SslQueue ρ} (hw : Secured w.net) {i : Nat} {call : SslCall}
    (hcall : call.isTls = true) (r : Completion) : Secured (finish w i call r).net := by
  have hop := (SslCall.isTls_op hcall).2 r
  refine ⟨hw.noPlaintext.append_tls hw.established hop, hw.established.append hop, ?_⟩
  intro other hmem
  exact hw.pending other (List.mem_of_mem_eraseIdx hmem)

theorem con_kept : KeptBy Secured (con : ConnectionBase SslQueue ρ) :=
  ⟨fun _ _ => ⟨fun _ hw => hw.start rfl⟩, fun _ _ => ⟨fun _ hw => hw.start rfl⟩⟩

/-- Where the connection stands before the TLS stream is set up. -/
inductive Stage (option : DBOption) : SslQueue → Prop
  | connecting : Stage option ⟨[.connect (.sslConnected option none)], [.started .connect]⟩
  | requesting (c : Completion) (hc : c.ec.isError = false) :
      Stage option ⟨[.request (.handshaken option none)],
        [.started .connect, .finished .connect c, .started (.write .plain .sslRequest)]⟩
  | answering (c q : Completion) (hc : c.ec.isError = false)
      (hq : (q.written .sslRequest).isError = false) :
      Stage option ⟨[.answer (.handshaken option none)],
        [.started .connect, .finished .connect c, .started (.write .plain .sslRequest),
          .finished (.write .plain .sslRequest) q, .started (.read .plain 1)]⟩
  | shaking (c q a : Completion) (hc : c.ec.isError = false)
      (hq : (q.written .sslRequest).isError = false)
      (ha : a.ec.isError = false ∧ a.data = ['S'.toUInt8]) :
      Stage option ⟨[.handshake (.handshaken option none)],
        [.started .connect, .finished .connect c, .started (.write .plain .sslRequest),
          .finished (.write .plain .sslRequest) q, .started (.read .plain 1),
          .finished (.read .plain 1) a, .started .handshake]⟩
  | failed (log : List StreamEvent) (hlog : Opening log) : Stage option ⟨[], log⟩

theorem Stage.opening {option : DBOption} {q : SslQueue} (hq : Stage option q) :
    Opening q.log := by
  cases hq with
  | connecting => exact opening_nil.append (e := .started .connect) (by simp)
  | requesting c _ => exact opening_request c
  | answering c q _ _ => exact opening_answer c q
  | shaking c q a _ _ _ => exact opening_handshake c q a
  | failed log hlog => exact hlog

/-- The TLS stream is set up, or on the way. In the second case the state is still
that of the start. -/
def Safe (option : DBOption) (s : State) (w : World SslQueue ρ) : Prop :=
  Secured w.net ∨ Stage option w.net ∧ w.fsm.state = s

theorem Safe.noPlaintext {option : DBOption} {s : State} {w : World SslQueue ρ}
    (hsafe : Safe option s w) :
    NoPlaintext w.net.log := by
  rcases hsafe with hsecured | ⟨hstage, _⟩
  · exact hsecured.noPlaintext
  · exact hstage.opening.noPlaintext

/-- A call on the TLS stream is completed. -/
theorem Secured.resume (ext : Externals ρ) {w : World SslQueue ρ} (hw : Secured w.net)
    {call : SslCall} (hcall : call.isTls = true) (r : Completion) :
    Secured (resume ext r call w).world.net := by
  cases call with
  | read len rh => exact (Keeps.readHandler con_kept rh r.ec r.data).kept w hw
  | write msg wh => exact (Keeps.writeHandler con_kept wh _).kept w hw
  | connect eh => cases hcall
  | request eh => cases hcall
  | answer eh => cases hcall
  | handshake eh => cases hcall

theorem only_pending {own call : SslCall} {i : Nat} (hcall : [own][i]? = some call) :
    own = call ∧ [own].eraseIdx i = [] := by
  cases i with
  | zero =>
      cases hcall
      exact ⟨rfl, rfl⟩
  | succ i => cases hcall

/-- The steps of the handshake, each of which is the only one outstanding. -/
theorem Stage.resume (ext : Externals ρ) {option : DBOption} {q : SslQueue}
    (hq : Stage option q) (fsm : FSM) (results : ResultId → ρ) {i : Nat} {call : SslCall}
    (hcall : q.pending[i]? = some call) {r : Completion} (hadmits : call.op.Admits r) :
    Safe option fsm.state (SSLAsyncConnection.resume ext r call
      (finish ⟨fsm, results, q⟩ i call r)).world := by
  cases hq with
  | failed log hlog => cases hcall
  | connecting =>
      obtain ⟨rfl, hrest⟩ := only_pending hcall
      simp only [finish, hrest]
      change Safe option fsm.state (EHandler.run con (.sslConnected option none) r.ec _).world
      by_cases hec : r.ec.isError = true
      · rw [fail_world con (Or.inl rfl) hec]
        exact Or.inr ⟨Stage.failed _ (opening_connect r), rfl⟩
      · unfold EHandler.run
        rw [if_neg hec]
        exact Or.inr ⟨Stage.requesting r (Bool.eq_false_iff.mpr hec), rfl⟩
  | requesting c hc =>
      obtain ⟨rfl, hrest⟩ := only_pending hcall
      simp only [finish, hrest, SSLAsyncConnection.resume]
      split
      · rename_i hec
        rw [fail_world con (Or.inr rfl) hec]
        exact Or.inr ⟨Stage.failed _ (opening_requested c r), rfl⟩
      · rename_i hec
        exact Or.inr ⟨Stage.answering c r hc (Bool.eq_false_iff.mpr hec), rfl⟩
  | answering c q hc hq =>
      obtain ⟨rfl, hrest⟩ := only_pending hcall
      simp only [finish, hrest, SSLAsyncConnection.resume]
      split
      · rename_i hec
        rw [fail_world con (Or.inr rfl) hec]
        exact Or.inr ⟨Stage.failed _ (opening_answered c q r), rfl⟩
      · rename_i hec
        have hanswer := Completion.sslAnswer_ok hadmits (Bool.eq_false_iff.mpr hec)
        exact Or.inr ⟨Stage.shaking c q r hc hq hanswer, rfl⟩
  | shaking c q a hc hq ha =>
      obtain ⟨rfl, hrest⟩ := only_pending hcall
      simp only [finish, hrest]
      change Safe option fsm.state (EHandler.run con (.handshaken option none) r.ec _).world
      by_cases hec : r.ec.isError = true
      · rw [fail_world con (Or.inr rfl) hec]
        exact Or.inr ⟨Stage.failed _ (opening_setup c q a r), rfl⟩
      · have harranged : Arranged c q a r :=
          ⟨hc, Completion.written_ok hq, ha, Bool.eq_false_iff.mpr hec⟩
        unfold EHandler.run
        rw [if_neg hec]
        apply Or.inl
        apply (Keeps.write con_kept _ _).kept
        exact ⟨(opening_setup c q a r).noPlaintext, established_setup harranged, by simp⟩

/-- What may happen while a connection is made by a state machine that was in
`s`: completions, and requests of the user if it is not taken for idle. -/
def Allowed (s : State) (_ : World SslQueue ρ) : Label → Prop
  | .call c => c.isRequest = true ∧ s ≠ .IDLE
  | .complete .. => True

instance (s : State) (w : World SslQueue ρ) : (label : Label) → Decidable (Allowed s w label)
  | .call c => inferInstanceAs (Decidable (c.isRequest = true ∧ s ≠ .IDLE))
  | .complete .. => inferInstanceAs (Decidable True)

theorem Safe.step (ext : Externals ρ) {option : DBOption} {s : State} {w w' : World SslQueue ρ}
    {label : Label} {es : List Event} (hsafe : Safe option s w) (hallowed : Allowed s w label)
    (hstep : (machine ext).step w label = some (w', es)) : Safe option s w' := by
  cases label with
  | call c =>
      have hsettle : (c.run con w).settle = (w', es) := Option.some.inj hstep
      have hworld : (c.run con w).world = w' := by
        rw [← settle_world, hsettle]
      rw [← hworld]
      rcases hsafe with hsecured | ⟨hstage, rfl⟩
      · exact Or.inl ((Keeps.request con_kept c hallowed.1).kept w hsecured)
      · rw [reject_run con c hallowed.1 hallowed.2]
        exact Or.inr ⟨hstage, rfl⟩
  | complete i r =>
      simp only [machine] at hstep
      split at hstep
      · cases hstep
      rename_i call hcall
      split at hstep
      · rename_i hadmits
        have hsettle := Option.some.inj hstep
        have hworld : (resume ext r call (finish w i call r)).world = w' := by
          rw [← settle_world, hsettle]
        rw [← hworld]
        rcases hsafe with hsecured | ⟨hstage, rfl⟩
        · have htls := hsecured.pending call (List.mem_of_getElem? hcall)
          exact Or.inl ((hsecured.finish htls r).resume ext htls r)
        · exact hstage.resume ext w.fsm w.results hcall hadmits
      · cases hstep

end SSLAsyncConnection

/-- Over both connections, whatever the server and the operating system do: a
message is written only on the TLS stream, and only after the server was asked
for TLS, has agreed, and the handshake has succeeded; in every other case nothing
but the question is written. The user may make requests meanwhile, as a new state
machine is not idle. -/
theorem no_plaintext_downgrade (ext : Externals ρ) (fsm : FSM) (results : ResultId → ρ)
    (option : DBOption) (eh : HandlerId) :
    (∀ labels w events, (SSLAsyncConnection.machine ext).Run
      (SSLAsyncConnection.Allowed fsm.state)
      (FSM.connectSSL SSLAsyncConnection.con option eh ⟨fsm, results, [], []⟩).world
      labels w events → NoPlaintext w.net.log) ∧
    ∀ (n : Nat) (answer : List StreamEvent → (op : StreamOp) → { r : Completion // op.Admits r })
      (cs : List Call), (∀ c ∈ cs, c.isRequest = true ∧ fsm.state ≠ .IDLE) →
      NoPlaintext (SSLConnection.calls ext n cs
        (FSM.connectSSL (SSLConnection.nested ext n) option eh
          ⟨fsm, results, answer, []⟩).world).net.log := by
  constructor
  · intro labels w events hrun
    have hsafe := hrun.invariant (fun _ w _ => SSLAsyncConnection.Safe option fsm.state w)
      (Or.inr ⟨SSLAsyncConnection.Stage.connecting, rfl⟩)
      (fun _ _ _ _ _ _ hsafe hallowed hstep => hsafe.step ext hallowed hstep)
    exact hsafe.noPlaintext
  · intro n answer cs hcs
    have hopen := SSLConnection.safe_connectSSL ext n option eh
      (w := ⟨fsm, results, answer, []⟩) rfl
    exact (hopen.calls ext n cs hcs).noPlaintext

/-- A server that agrees to TLS, and a user who does not wait for it. -/
def agreeing : List Label :=
  [.complete 0 (.delivered []), .complete 0 (.sent .sslRequest),
    .complete 0 (.delivered ['S'.toUInt8]), .complete 0 (.delivered []),
    .call (.exec (ascii "a") none 1)]

/-- The same server over the blocking connection. It has no messages to send. -/
def agrees (_ : List StreamEvent) : (op : StreamOp) → { r : Completion // op.Admits r }
  | .connect => ⟨.delivered [], rfl⟩
  | .write _ msg => ⟨.sent msg, rfl⟩
  | .read .plain 1 => ⟨.delivered ['S'.toUInt8], rfl⟩
  | .read _ _ => ⟨⟨.ebadmsg, 0, []⟩, rfl⟩
  | .handshake => ⟨.delivered [], rfl⟩

theorem no_plaintext_downgrade_agreed :
    (∃ w events, (SSLAsyncConnection.machine .forgetful).Run (SSLAsyncConnection.Allowed .AUTH)
        (FSM.connectSSL SSLAsyncConnection.con .empty 0
          ⟨FSM.init, fun _ => (), [], []⟩).world agreeing w events ∧
      NoPlaintext w.net.log ∧ w.net.log.length = 9) ∧
    ∃ w, w = SSLConnection.calls .forgetful 9 [.exec (ascii "a") none 1]
        (FSM.connectSSL (SSLConnection.nested .forgetful 9) .empty 0
          ⟨FSM.init, fun _ => (), agrees, []⟩).world ∧
      NoPlaintext w.net.log ∧ w.net.log.length = 12 := by
  have hboth := no_plaintext_downgrade .forgetful FSM.init (fun _ => ()) .empty 0
  constructor
  · obtain ⟨w, events, hexec, hlength⟩ : ∃ w events,
        ((SSLAsyncConnection.machine .forgetful).restrict
          (SSLAsyncConnection.Allowed .AUTH)).exec (FSM.connectSSL SSLAsyncConnection.con .empty 0
            ⟨FSM.init, fun _ => (), [], []⟩).world agreeing = some (w, events) ∧
        w.net.log.length = 9 :=
      ⟨_, _, rfl, rfl⟩
    have hrun := Machine.run_of_exec_restrict hexec
    exact ⟨w, events, hrun, hboth.1 agreeing w events hrun, hlength⟩
  · refine ⟨_, rfl, hboth.2 9 agrees [.exec (ascii "a") none 1] (by decide), ?_⟩
    rfl

end Lapq
