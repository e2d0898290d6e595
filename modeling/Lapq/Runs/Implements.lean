import Mathlib.Data.List.Perm.Basic
import Lapq.Semantics.Tls
import Lapq.Runs.Agreement
import Lapq.Runs.Failures
import Lapq.Steps.Frame

/-!
The connections of the library are implementations of `ConnectionBase` as its
callers see it. What an asynchronous one does, a connection that calls back later
may do, with the same events; what a blocking one does, one that calls back in
place does, with results that depend on the calls before. The handshake of the
TLS connections, three operations on two streams, is one call.
-/

namespace Lapq

variable {ν μ ρ : Type} {ext : Externals ρ}

theorem settle_withNet (o : Outcome ν ρ Unit) (net : μ) :
    (o.withNet net).settle = (o.settle.1.withNet net, o.settle.2) := by
  obtain ⟨value, world, events⟩ := o
  cases value <;> rfl

/-- The callback of a call over two connections that do the same. -/
theorem Related.resume (ext : Externals ρ) {R : ν → μ → Prop} {con : ConnectionBase ν ρ}
    {con' : ConnectionBase μ ρ} (hcon : Corresponds R con con') (call : IoCall) (r : Completion)
    (hshake : ∀ option ehandler, call = .connect (.sslConnected option ehandler) ∨
      call = .handshake (.sslConnected option ehandler) →
      Related R (con.handshake (.handshaken option ehandler))
        (con'.handshake (.handshaken option ehandler))) :
    Related R (call.resume ext con r) (call.resume ext con' r) := by
  cases call with
  | connect eh =>
      apply Related.connectHandler hcon eh r.ec
      rintro option ehandler rfl
      exact hshake option ehandler (Or.inl rfl)
  | handshake eh =>
      apply Related.connectHandler hcon eh r.ec
      rintro option ehandler rfl
      exact hshake option ehandler (Or.inr rfl)
  | read len rh => exact Related.readHandler hcon rh r.ec r.data
  | write msg wh => exact Related.writeHandler hcon wh r.ec

/-! Callbacks later. -/

section Noted

variable {κ : Type} {io : κ → IoCall}

/-- The same calls are outstanding, in some order. -/
def Noted (io : κ → IoCall) (t : Trace) (calls : List κ) (o : Outstanding) : Prop :=
  o.pending.Perm (calls.map io) ∧ o.trace = t

/-- The call that is completed, and what is left without it. -/
theorem Noted.pick {calls : List κ} {o : Outstanding} (hnoted : Noted io o.trace calls o)
    {i : Nat} {call : κ} (hcall : calls[i]? = some call) :
    ∃ j, o.pending[j]? = some (io call) ∧
      (o.pending.eraseIdx j).Perm ((calls.eraseIdx i).map io) := by
  obtain ⟨hi, rfl⟩ := List.getElem?_eq_some_iff.mp hcall
  have hmem : io calls[i] ∈ o.pending := by
    rw [hnoted.1.mem_iff]
    exact List.mem_map_of_mem (List.getElem_mem hi)
  obtain ⟨j, hj, hget⟩ := List.getElem_of_mem hmem
  refine ⟨j, List.getElem?_eq_some_iff.mpr ⟨hj, hget⟩, ?_⟩
  have hleft := List.getElem_cons_eraseIdx_perm hj
  have hright := (List.getElem_cons_eraseIdx_perm hi).map io
  rw [hget] at hleft
  exact (hleft.trans (hnoted.1.trans hright.symm)).cons_inv

/-- One call takes the place of another that the interface does not tell from it. -/
theorem Noted.requeue {calls : List κ} {t : Trace} {o : Outstanding} (hnoted : Noted io t calls o)
    {i : Nat} {call next : κ} (hcall : calls[i]? = some call) (hnext : io next = io call) :
    Noted io t (calls.eraseIdx i ++ [next]) o := by
  obtain ⟨hi, rfl⟩ := List.getElem?_eq_some_iff.mp hcall
  refine ⟨hnoted.1.trans ?_, hnoted.2⟩
  rw [List.map_append, List.map_singleton, hnext]
  exact ((List.getElem_cons_eraseIdx_perm hi).map io).symm.trans
    (List.perm_append_singleton _ _).symm

/-- A completion whose callback does the same over both connections. -/
theorem Deferred.step_of_related (ext : Externals ρ) (calls : ν → List κ) {w : World ν ρ}
    {before : List κ} {o : Outstanding} (hnoted : Noted io o.trace before o) {i : Nat} {call : κ}
    (hcall : before[i]? = some call) (hrest : calls w.net = before.eraseIdx i) (r : Completion)
    {x : Act ν ρ Unit}
    (hx : ∀ t, Related (fun net o => Noted io t (calls net) o) x ((io call).resume ext con r)) :
    ∃ label o', (machine ext).step (w.withNet o) label =
      some ((x w).settle.1.withNet o', (x w).settle.2) ∧
        Noted io o'.trace (calls (x w).settle.1.net) o' := by
  obtain ⟨j, hj, hperm⟩ := hnoted.pick hcall
  rw [← hrest] at hperm
  obtain ⟨o', ho', hsame⟩ := (hx (o.trace ++ [(io call, r)])).same w
    ⟨o.pending.eraseIdx j, o.trace ++ [(io call, r)]⟩ ⟨hperm, rfl⟩
  have hstep : (machine ext).step (w.withNet o) (j, r) = some ((io call).resume ext con r
      (w.withNet ⟨o.pending.eraseIdx j, o.trace ++ [(io call, r)]⟩)).settle := by
    simp only [machine, World.withNet, hj]
  rw [hsame, settle_withNet] at hstep
  rw [settle_world] at hstep ⊢
  exact ⟨(j, r), o', hstep, ho'.1, rfl⟩

end Noted

def ConnCall.io : ConnCall → IoCall
  | .connect eh => .connect eh
  | .read len rh => .read len rh
  | .write msg wh => .write msg wh

/-- What the callback of the state machine is given of a result. -/
def ConnCall.reported (r : Completion) : ConnCall → Completion
  | .write msg _ => { r with ec := r.written msg }
  | .connect _ | .read .. => r

theorem ConnCall.resume_io (con : ConnectionBase ν ρ) (r : Completion) (call : ConnCall) :
    call.resume ext con r = call.io.resume ext con (call.reported r) := by
  cases call <;> rfl

namespace AsyncConnection

theorem related_push (t : Trace) (call : ConnCall) :
    Related (Noted ConnCall.io t) (push call : Act (List ConnCall) ρ Unit)
      (Deferred.push call.io) := by
  constructor
  rintro w o ⟨hperm, htrace⟩
  refine ⟨⟨o.pending ++ [call.io], o.trace⟩, ⟨?_, htrace⟩, rfl⟩
  simpa [push] using hperm.append_right [call.io]

theorem con_corresponds (t : Trace) :
    Corresponds (Noted ConnCall.io t) (con : ConnectionBase (List ConnCall) ρ) Deferred.con :=
  ⟨fun len rh => related_push t (.read len rh), fun msg wh => related_push t (.write msg wh)⟩

theorem resume_related (ext : Externals ρ) (t : Trace) {call : ConnCall} (hplain : call.Plain)
    (r : Completion) :
    Related (Noted ConnCall.io t) (call.resume ext con r)
      (call.io.resume ext Deferred.con (call.reported r)) := by
  rw [ConnCall.resume_io]
  apply Related.resume ext (con_corresponds t)
  rintro option ehandler (hcall | hcall)
  · cases call with
    | connect eh =>
        cases hcall
        exact hplain.elim
    | read len rh => cases hcall
    | write msg wh => cases hcall
  · cases call <;> cases hcall

/-- The two connections have the same outstanding calls. -/
def Matches (w : World (List ConnCall) ρ) (t : World Outstanding ρ) : Prop :=
  Sound w ∧ ∃ o, t = w.withNet o ∧ Noted ConnCall.io o.trace w.net o

theorem Matches.step (ext : Externals ρ) {w w' : World (List ConnCall) ρ}
    {t : World Outstanding ρ} (hmatches : Matches w t) {i : Nat} {r : Completion}
    {es : List Event} (hstep : (machine ext).step w (.complete i r) = some (w', es)) :
    ∃ label t', (Deferred.machine ext).step t label = some (t', es) ∧ Matches w' t' := by
  obtain ⟨hsound, o, rfl, hnoted⟩ := hmatches
  have hsound' := hsound.step (step_cases hsound hstep)
  simp only [machine] at hstep
  split at hstep
  · cases hstep
  rename_i call hcall
  split at hstep
  · have hplain := hsound.plain call (List.mem_of_getElem? hcall)
    obtain ⟨label, o', hmatched, hnoted'⟩ := Deferred.step_of_related ext id
      (w := { w with net := w.net.eraseIdx i }) hnoted hcall rfl _
      fun t => resume_related ext t hplain r
    rw [Option.some.inj hstep] at hmatched hnoted'
    exact ⟨label, w'.withNet o', hmatched, hsound', o', rfl, hnoted'⟩
  · cases hstep

/-- What the connection without TLS does, one that calls back later may do. -/
theorem implements (ext : Externals ρ) (c : Call) (fsm : FSM) (results : ResultId → ρ)
    {labels : List Label} {w : World (List ConnCall) ρ} {events : List Event}
    (hrun : (machine ext).Run (fun _ label => ∃ i r, label = .complete i r)
      (c.run con ⟨fsm, results, []⟩).world labels w events) :
    ∃ first labels' o, c.run Deferred.con ⟨fsm, results, ⟨[], []⟩⟩ =
        (c.run con ⟨fsm, results, []⟩).withNet first ∧
      (Deferred.machine ext).Run (fun _ _ => True)
        ((c.run con ⟨fsm, results, []⟩).world.withNet first) labels' (w.withNet o) events ∧
      Noted ConnCall.io o.trace w.net o := by
  obtain ⟨first, hfirst, hsame⟩ := (Related.call (con_corresponds []) (fun option =>
    related_push [] (.connect (.connected option))) c).same ⟨fsm, results, []⟩ ⟨[], []⟩
      ⟨List.Perm.refl _, rfl⟩
  have hstart : Matches (c.run con ⟨fsm, results, []⟩).world
      ((c.run con ⟨fsm, results, []⟩).world.withNet first) :=
    ⟨call_sound ext c fsm results, first, rfl, hfirst.1, rfl⟩
  obtain ⟨labels', t, hmatched, _, o, rfl, hnoted⟩ := hrun.simulate Matches (by
    rintro w t label w' es hmatches ⟨i, r, rfl⟩ hstep
    exact Or.inl (hmatches.step ext hstep)) hstart
  exact ⟨first, labels', o, hsame, hmatched, hnoted⟩

end AsyncConnection

/-- The handshake is one call, whichever of its operations is outstanding. -/
def SslCall.io : SslCall → IoCall
  | .connect eh => .connect eh
  | .request eh | .answer eh | .handshake eh => .handshake eh
  | .read len rh => .read len rh
  | .write msg wh => .write msg wh

namespace SSLAsyncConnection

theorem related_start (t : Trace) (call : SslCall) :
    Related (fun q => Noted SslCall.io t q.pending) (start call : Act SslQueue ρ Unit)
      (Deferred.push call.io) := by
  constructor
  rintro w o ⟨hperm, htrace⟩
  refine ⟨⟨o.pending ++ [call.io], o.trace⟩, ⟨?_, htrace⟩, rfl⟩
  simpa [start] using hperm.append_right [call.io]

theorem con_corresponds (t : Trace) :
    Corresponds (fun q => Noted SslCall.io t q.pending) (con : ConnectionBase SslQueue ρ)
      Deferred.con :=
  ⟨fun len rh => related_start t (.read len rh), fun msg wh => related_start t (.write msg wh)⟩

/-- A closure is that of the call, or starts the next operation of the handshake. -/
theorem resume_cases (ext : Externals ρ) (r : Completion) (call : SslCall) :
    (∃ r', resume ext r call = call.io.resume ext con r') ∨
      ∃ next : SslCall, next.io = call.io ∧ resume ext r call = start next := by
  cases call with
  | connect eh => exact Or.inl ⟨r, rfl⟩
  | handshake eh => exact Or.inl ⟨r, rfl⟩
  | read len rh => exact Or.inl ⟨r, rfl⟩
  | write msg wh => exact Or.inl ⟨{ r with ec := r.written msg }, rfl⟩
  | request eh =>
      by_cases hec : (r.written .sslRequest).isError = true
      · exact Or.inl ⟨{ r with ec := r.written .sslRequest }, by simp [resume, hec]; rfl⟩
      · exact Or.inr ⟨.answer eh, rfl, by simp [resume, hec]⟩
  | answer eh =>
      by_cases hec : r.sslAnswer.isError = true
      · exact Or.inl ⟨{ r with ec := r.sslAnswer }, by simp [resume, hec]; rfl⟩
      · exact Or.inr ⟨.handshake eh, rfl, by simp [resume, hec]⟩

/-- The two connections have the same outstanding calls. -/
def Matches (w : World SslQueue ρ) (t : World Outstanding ρ) : Prop :=
  ∃ o, t = w.withNet o ∧ Noted SslCall.io o.trace w.net.pending o

theorem Matches.step (ext : Externals ρ) {w w' : World SslQueue ρ} {t : World Outstanding ρ}
    (hmatches : Matches w t) {i : Nat} {r : Completion} {es : List Event}
    (hstep : (machine ext).step w (.complete i r) = some (w', es)) :
    (∃ label t', (Deferred.machine ext).step t label = some (t', es) ∧ Matches w' t') ∨
      es = [] ∧ Matches w' t := by
  obtain ⟨o, rfl, hnoted⟩ := hmatches
  simp only [machine] at hstep
  split at hstep
  · cases hstep
  rename_i call hcall
  split at hstep
  · rcases resume_cases ext r call with ⟨r', hresume⟩ | ⟨next, hnext, hresume⟩
    · rw [hresume] at hstep
      obtain ⟨label, o', hmatched, hnoted'⟩ := Deferred.step_of_related ext SslQueue.pending
        (w := finish w i call r) hnoted hcall rfl r' fun t =>
          Related.resume ext (con_corresponds t) call.io r' fun option ehandler _ =>
            related_start t (.request (.handshaken option ehandler))
      rw [Option.some.inj hstep] at hmatched hnoted'
      exact Or.inl ⟨label, w'.withNet o', hmatched, o', rfl, hnoted'⟩
    · rw [hresume] at hstep
      cases hstep
      exact Or.inr ⟨rfl, o, rfl, hnoted.requeue hcall hnext⟩
  · cases hstep

/-- What the connection with TLS does, one that calls back later may do. -/
theorem implements (ext : Externals ρ) (op : Operation) (fsm : FSM) (results : ResultId → ρ)
    {labels : List Label} {w : World SslQueue ρ} {events : List Event}
    (hrun : (machine ext).Run (fun _ label => ∃ i r, label = .complete i r)
      (op.run con ⟨fsm, results, ⟨[], []⟩⟩).world labels w events) :
    ∃ first labels' o, op.run Deferred.con ⟨fsm, results, ⟨[], []⟩⟩ =
        (op.run con ⟨fsm, results, ⟨[], []⟩⟩).withNet first ∧
      (Deferred.machine ext).Run (fun _ _ => True)
        ((op.run con ⟨fsm, results, ⟨[], []⟩⟩).world.withNet first) labels' (w.withNet o) events ∧
      Noted SslCall.io o.trace w.net.pending o := by
  have hstart : Related (fun q => Noted SslCall.io [] q.pending)
      (op.run (con : ConnectionBase SslQueue ρ)) (op.run Deferred.con) := by
    have hconnect (eh : EHandler) := related_start (ρ := ρ) [] (.connect eh)
    cases op with
    | call c => exact Related.call (con_corresponds []) (fun _ => hconnect _) c
    | connectSSL option eh => exact Related.bind (Related.modifyFsm _) fun _ => hconnect _
  obtain ⟨first, hfirst, hsame⟩ :=
    hstart.same ⟨fsm, results, ⟨[], []⟩⟩ ⟨[], []⟩ ⟨List.Perm.refl _, rfl⟩
  have hmatches : Matches (op.run con ⟨fsm, results, ⟨[], []⟩⟩).world
      ((op.run con ⟨fsm, results, ⟨[], []⟩⟩).world.withNet first) := ⟨first, rfl, hfirst.1, rfl⟩
  obtain ⟨labels', t, hmatched, o, rfl, hnoted⟩ := hrun.simulate Matches (by
    rintro w t label w' es hmatches ⟨i, r, rfl⟩ hstep
    exact hmatches.step ext hstep) hmatches
  exact ⟨first, labels', o, hsame, hmatched, hnoted⟩

/-- An operation has one operation outstanding on the socket or the TLS stream at
a time, as the stream asks for, if the server asks for no MD5 password. -/
theorem outstanding_le_one (ext : Externals ρ) (op : Operation) (fsm : FSM)
    (results : ResultId → ρ) {labels : List Label} {w : World SslQueue ρ} {events : List Event}
    (hrun : (machine ext).Run (fun _ label => ∃ i r, label = .complete i r)
      (op.run con ⟨fsm, results, ⟨[], []⟩⟩).world labels w events) (hpassword : NoPassword events) :
    w.net.pending.length ≤ 1 := by
  obtain ⟨first, labels', o, hsame, hmatched, hnoted⟩ := implements ext op fsm results hrun
  have hworld := congrArg Outcome.world hsame
  change _ = (op.run con ⟨fsm, results, ⟨[], []⟩⟩).world.withNet first at hworld
  rw [← hworld] at hmatched
  have hlength := hnoted.1.length_eq
  rw [List.length_map] at hlength
  rw [← hlength]
  rcases Deferred.Inv.run ext op fsm results hmatched hpassword with
    ⟨call, hpending, _⟩ | ⟨hpending, _⟩
  · exact (congrArg List.length hpending).le
  · exact (congrArg List.length hpending).le.trans (Nat.zero_le 1)

end SSLAsyncConnection

/-! Callbacks in place. -/

section Replays

variable {σ : Type} (serve : IoCall → σ → Completion × σ)

/-- Where the other end of a connection stands after the calls of a trace. -/
def replay (s : σ) (t : Trace) : σ := t.foldl (fun s step => (serve step.1 s).2) s

/-- What the other end makes of a call, by the calls before. -/
def answers (s : σ) (t : Trace) (call : IoCall) : Completion := (serve call (replay serve s t)).1

def Replays (s₀ s : σ) (a : Answering) : Prop :=
  a.answer = answers serve s₀ ∧ s = replay serve s₀ a.trace

/-- A connection that performs the allowed calls with `serve` and then calls back,
followed through a number of nested callbacks. -/
structure Performs (ext : Externals ρ) (allowed : IoCall → Prop)
    (con : Nat → ConnectionBase σ ρ) : Prop where
  stop : ∀ call, allowed call → (con 0).perform call = Act.throw .depth
  step : ∀ n call, allowed call → ∀ w, (con (n + 1)).perform call w =
    call.resume ext (con n) (serve call w.net).1 { w with net := (serve call w.net).2 }
  read : ∀ len rh, allowed (.read len rh)
  write : ∀ msg wh, allowed (.write msg wh)
  shake : ∀ option ehandler call, allowed call →
    call = .connect (.sslConnected option ehandler) ∨
      call = .handshake (.sslConnected option ehandler) →
    allowed (.handshake (.handshaken option ehandler))

variable {serve} {allowed : IoCall → Prop} {con : Nat → ConnectionBase σ ρ}

theorem Performs.related (hcon : Performs serve ext allowed con) (s₀ : σ) (n : Nat)
    {call : IoCall} (hcall : allowed call) :
    Related (Replays serve s₀) ((con n).perform call) (InPlace.perform ext n call) := by
  induction n generalizing call with
  | zero =>
      rw [hcon.stop call hcall]
      exact Related.throw .depth
  | succ n ih =>
      have hboth : Corresponds (Replays serve s₀) (con n) (InPlace.con ext n) :=
        ⟨fun len rh => ih (hcon.read len rh), fun msg wh => ih (hcon.write msg wh)⟩
      constructor
      rintro w a ⟨hanswer, hs⟩
      have hr : a.answer a.trace call = (serve call w.net).1 := by
        rw [hanswer, hs]
        rfl
      have hreplays : Replays serve s₀ (serve call w.net).2
          ⟨a.answer, a.trace ++ [(call, (serve call w.net).1)]⟩ := by
        refine ⟨hanswer, ?_⟩
        rw [hs]
        simp [replay]
      have hresume := Related.resume ext hboth call (serve call w.net).1
        (fun option ehandler h => ih (hcon.shake option ehandler call hcall h))
      obtain ⟨a', ha', hsame⟩ := hresume.same { w with net := (serve call w.net).2 } _ hreplays
      have hperform : InPlace.perform ext (n + 1) call (w.withNet a) =
          call.resume ext (InPlace.con ext n) (a.answer a.trace call)
            (w.withNet ⟨a.answer, a.trace ++ [(call, a.answer a.trace call)]⟩) := rfl
      rw [hr] at hperform
      rw [hcon.step n call hcall w, hperform]
      exact ⟨a', ha', hsame⟩

end Replays

namespace Connection

/-- The calls that the state machine makes without TLS. -/
def Allowed : IoCall → Prop
  | .connect (.connected _) | .read .. | .write .. => True
  | .connect _ | .handshake _ => False

/-- What a peer makes of a call. -/
def serve : IoCall → Peer → Completion × Peer
  | .connect eh, p => p.serve (.connect eh)
  | .handshake _, p => (⟨.enosys, 0, []⟩, p)
  | .read len rh, p => p.serve (.read len rh)
  | .write msg wh, p =>
      let (r, p) := p.serve (.write msg wh)
      ({ r with ec := r.written msg }, p)

theorem nested_performs (ext : Externals ρ) : Performs serve ext Allowed (nested ext) where
  stop call hcall := by
    cases call with
    | handshake eh => exact hcall.elim
    | connect eh => rfl
    | read len rh => rfl
    | write msg wh => rfl
  step n call hcall w := by
    cases call with
    | handshake eh => exact hcall.elim
    | connect eh => rfl
    | read len rh => rfl
    | write msg wh => rfl
  read _ _ := trivial
  write _ _ := trivial
  shake option ehandler call hcall hsame := by
    rcases hsame with rfl | rfl
    · exact hcall.elim
    · exact hcall.elim

/-- What the connection without TLS does, one that calls back in place does. -/
theorem implements (ext : Externals ρ) (c : Call) (n : Nat) (fsm : FSM) (results : ResultId → ρ)
    (p : Peer) :
    ∃ a, Replays serve p (c.run (nested ext n) ⟨fsm, results, p⟩).world.net a ∧
      c.run (InPlace.con ext n) ⟨fsm, results, ⟨answers serve p, []⟩⟩ =
        (c.run (nested ext n) ⟨fsm, results, p⟩).withNet a := by
  have hperform (call : IoCall) (hcall : Allowed call) :=
    (nested_performs ext).related p n hcall
  have hcon : Corresponds (Replays serve p) (nested ext n) (InPlace.con ext n) :=
    ⟨fun len rh => hperform (.read len rh) trivial, fun msg wh => hperform (.write msg wh) trivial⟩
  have hrun := Related.call hcon (fun option => hperform (.connect (.connected option)) trivial) c
  exact hrun.same ⟨fsm, results, p⟩ ⟨answers serve p, []⟩ ⟨rfl, rfl⟩

end Connection

namespace SSLConnection

/-- An operation on the socket or the TLS stream. -/
def ask (op : StreamOp) (p : SslPeer) : Completion × SslPeer :=
  let log := p.log ++ [.started op]
  let r := (p.answer log op).val
  (r, { p with log := log ++ [.finished op r] })

/-- What a peer makes of a call. -/
def serve : IoCall → SslPeer → Completion × SslPeer
  | .connect _, p => ask .connect p
  | .read len _, p => ask (.read .tls len) p
  | .write msg _, p =>
      let (r, p) := ask (.write .tls msg) p
      ({ r with ec := r.written msg }, p)
  | .handshake _, p =>
      let (r, p) := ask (.write .plain .sslRequest) p
      if (r.written .sslRequest).isError then ({ r with ec := r.written .sslRequest }, p)
      else
        let (r, p) := ask (.read .plain 1) p
        if r.sslAnswer.isError then ({ r with ec := r.sslAnswer }, p)
        else ask .handshake p

theorem handshake_serve (con : ConnectionBase SslPeer ρ) (eh : EHandler) (w : World SslPeer ρ) :
    handshake con eh w = eh.run con (serve (.handshake eh) w.net).1.ec
      { w with net := (serve (.handshake eh) w.net).2 } := by
  have hio (op : StreamOp) {α : Type} (f : Completion → Act SslPeer ρ α) (w : World SslPeer ρ) :
      (io op >>= f) w = f (ask op w.net).1 { w with net := (ask op w.net).2 } := rfl
  unfold handshake serve
  rw [hio]
  dsimp only
  split
  · rfl
  rw [hio]
  dsimp only
  split
  · rfl
  · rfl

theorem nested_performs (ext : Externals ρ) : Performs serve ext (fun _ => True) (nested ext) where
  stop call _ := by cases call <;> rfl
  step n call _ w := by
    cases call with
    | handshake eh => exact handshake_serve (nested ext n) eh w
    | connect eh => rfl
    | read len rh => rfl
    | write msg wh => rfl
  read _ _ := trivial
  write _ _ := trivial
  shake _ _ _ _ _ := trivial

/-- What the connection with TLS does, one that calls back in place does. -/
theorem implements (ext : Externals ρ) (op : Operation) (n : Nat) (fsm : FSM)
    (results : ResultId → ρ) (p : SslPeer) :
    ∃ a, Replays serve p (op.run (nested ext n) ⟨fsm, results, p⟩).world.net a ∧
      op.run (InPlace.con ext n) ⟨fsm, results, ⟨answers serve p, []⟩⟩ =
        (op.run (nested ext n) ⟨fsm, results, p⟩).withNet a := by
  have hperform (call : IoCall) : Related (Replays serve p) ((nested ext n).perform call)
      (InPlace.perform ext n call) := (nested_performs ext).related p n trivial
  have hcon : Corresponds (Replays serve p) (nested ext n) (InPlace.con ext n) :=
    ⟨fun len rh => hperform (.read len rh), fun msg wh => hperform (.write msg wh)⟩
  have hrun : Related (Replays serve p) (op.run (nested ext n)) (op.run (InPlace.con ext n)) := by
    cases op with
    | call c => exact Related.call hcon (fun option => hperform (.connect (.connected option))) c
    | connectSSL option eh =>
        exact Related.bind (Related.modifyFsm _) fun _ =>
          hperform (.connect (.sslConnected option none))
  exact hrun.same ⟨fsm, results, p⟩ ⟨answers serve p, []⟩ ⟨rfl, rfl⟩

end SSLConnection

end Lapq
