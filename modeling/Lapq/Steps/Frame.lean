import Lapq.Steps.Blocking

/-!
The state machine is parametric in its connection: over two connections whose
reads and writes correspond it does the same, and their states go on to
correspond. With one connection on both sides that is a frame rule: what it
keeps when it reads and writes, the state machine keeps. Only `connect` and
`connectSSL` make other calls.
-/

namespace Lapq

variable {ν μ ρ α β : Type} {ext : Externals ρ}

/-- From worlds that differ in the connection only, both programs do the same,
whether they return or abort, and what holds between the connections still does. -/
structure Related (R : ν → μ → Prop) (x : Act ν ρ α) (y : Act μ ρ α) : Prop where
  same : ∀ w net, R w.net net →
    ∃ net', R (x w).world.net net' ∧ y (w.withNet net) = (x w).withNet net'

section Related

variable {R : ν → μ → Prop}

theorem Related.bind {x : Act ν ρ α} {y : Act μ ρ α} {f : α → Act ν ρ β} {g : α → Act μ ρ β}
    (hx : Related R x y) (hf : ∀ a, Related R (f a) (g a)) : Related R (x >>= f) (y >>= g) := by
  constructor
  intro w net hnet
  obtain ⟨net', hnet', hsame⟩ := hx.same w net hnet
  cases hrun : x w with
  | mk value world es =>
      rw [hrun] at hnet' hsame
      cases value with
      | error e =>
          rw [Act.bind_error hrun, Act.bind_error hsame]
          exact ⟨net', hnet', rfl⟩
      | ok a =>
          obtain ⟨net'', hnet'', hthen⟩ := (hf a).same world net' hnet'
          rw [Act.bind_ok hrun, Act.bind_ok hsame]
          refine ⟨net'', hnet'', ?_⟩
          have hthen' : g a (world.withNet net') = (f a world).withNet net'' := hthen
          simp only [hthen']
          rfl

/-- Programs that leave the connection alone. -/
theorem Related.of_inert {x : Act (List ConnCall) ρ α} {y : Act ν ρ α} {z : Act μ ρ α}
    (hy : ∀ w, Inert x y w) (hz : ∀ w, Inert x z w) : Related R y z := by
  constructor
  intro w net hnet
  have hfirst : y w = (x (w.withNet [])).withNet w.net := (hy (w.withNet [])).same w.net
  have hsecond : z (w.withNet net) = (x (w.withNet [])).withNet net :=
    (hz (w.withNet [])).same net
  rw [hfirst, hsecond]
  exact ⟨net, hnet, rfl⟩

theorem Related.throw (e : Abort) : Related R (Act.throw e : Act ν ρ α) (Act.throw e) :=
  Related.of_inert (fun _ => Inert.throw e) fun _ => Inert.throw e

theorem Related.emit (e : Event) : Related R (Act.emit e : Act ν ρ Unit) (Act.emit e) :=
  Related.of_inert (fun _ => Inert.emit e) fun _ => Inert.emit e

theorem Related.lift (x : Except Abort α) : Related R (Act.lift x : Act ν ρ α) (Act.lift x) :=
  Related.of_inert (fun _ => Inert.lift x) fun _ => Inert.lift x

theorem Related.getFsm : Related R (Act.getFsm : Act ν ρ FSM) Act.getFsm :=
  Related.of_inert (fun _ => Inert.getFsm) fun _ => Inert.getFsm

theorem Related.modifyFsm (g : FSM → FSM) :
    Related R (Act.modifyFsm g : Act ν ρ Unit) (Act.modifyFsm g) :=
  Related.of_inert (fun _ => Inert.modifyFsm g) fun _ => Inert.modifyFsm g

theorem Related.setState (s : State) :
    Related R (Act.setState s : Act ν ρ Unit) (Act.setState s) :=
  Related.modifyFsm _

theorem Related.invoke (eh : Option HandlerId) (ec : ErrorCode) :
    Related R (Act.invoke eh ec : Act ν ρ Unit) (Act.invoke eh ec) :=
  Related.of_inert (fun _ => Inert.invoke eh ec) fun _ => Inert.invoke eh ec

theorem Related.callHandler (ec : ErrorCode) :
    Related R (Act.callHandler ec : Act ν ρ Unit) (Act.callHandler ec) :=
  Related.of_inert (fun _ => Inert.callHandler ec) fun _ => Inert.callHandler ec

theorem Related.andThen (eh : Option HandlerId) (ec : ErrorCode) {x : Act ν ρ Unit}
    {y : Act μ ρ Unit} (hx : Related R x y) :
    Related R (WHandler.andThen eh ec x) (WHandler.andThen eh ec y) := by
  unfold WHandler.andThen
  split
  · exact Related.invoke eh ec
  · exact hx

theorem Related.withQuery {x : DBQuery → Act ν ρ Unit} {y : DBQuery → Act μ ρ Unit}
    (hx : ∀ q, Related R (x q) (y q)) : Related R (FSM.withQuery x) (FSM.withQuery y) := by
  apply Related.bind (Related.getFsm)
  intro fsm
  cases fsm.query with
  | none => exact Related.throw _
  | some q => exact hx q

/-- Connections whose reads and writes do the same. -/
structure Corresponds (R : ν → μ → Prop) (con : ConnectionBase ν ρ)
    (con' : ConnectionBase μ ρ) : Prop where
  read : ∀ len rh, Related R (con.readInto len rh) (con'.readInto len rh)
  write : ∀ msg wh, Related R (con.writeBuffers msg wh) (con'.writeBuffers msg wh)

section Connection

variable {con : ConnectionBase ν ρ} {con' : ConnectionBase μ ρ} (hcon : Corresponds R con con')

include hcon

theorem Related.read (len : Nat) (rh : RHandler) :
    Related R (con.read len rh) (con'.read len rh) := by
  unfold ConnectionBase.read
  split
  · exact Related.throw _
  · exact hcon.read len rh

theorem Related.write (msg : Message) (wh : WHandler) :
    Related R (con.write msg wh) (con'.write msg wh) :=
  Related.bind (Related.emit _) fun _ => hcon.write msg wh

theorem Related.receive : Related R (FSM.receive con) (FSM.receive con') :=
  Related.read hcon Header.size .header

theorem Related.receiveUnless (ec : ErrorCode) :
    Related R (FSM.receiveUnless con ec) (FSM.receiveUnless con' ec) := by
  unfold FSM.receiveUnless
  split
  · exact Related.callHandler ec
  · exact Related.receive hcon

theorem Related.authenticate (head : Header) (body : Buffer) :
    Related R (FSM.authenticate ext con head body) (FSM.authenticate ext con' head body) := by
  apply Related.bind (Related.lift _)
  rintro ⟨ec, msg⟩
  dsimp only
  split
  · exact Related.callHandler ec
  split
  · apply Related.bind (Related.setState _)
    intro _
    exact Related.receive hcon
  split
  · apply Related.bind (Related.setState _)
    intro _
    exact Related.bind (Related.write hcon _ _) fun _ => Related.receive hcon
  · exact Related.receive hcon

theorem Related.callResultThenReceive (call : ResultCall) :
    Related R
      (do
        let fsm ← Act.getFsm
        match fsm.result with
        | some id => Act.callResult ext.base id call
        | none => pure ()
        FSM.receive con)
      (do
        let fsm ← Act.getFsm
        match fsm.result with
        | some id => Act.callResult ext.base id call
        | none => pure ()
        FSM.receive con') := by
  apply Related.bind Related.getFsm
  intro fsm
  cases fsm.result with
  | none => exact Related.receive hcon
  | some id =>
      apply Related.bind (Related.of_inert (fun _ => Inert.callResult _ _ _)
        fun _ => Inert.callResult _ _ _)
      intro _
      exact Related.receive hcon

theorem Related.action (head : Header) (body : Buffer) (action : Action) :
    Related R (action.run ext con head body) (action.run ext con' head body) := by
  cases action with
  | authenticate => exact Related.authenticate hcon head body
  | authError => exact Related.bind (Related.lift _) fun a => Related.callHandler a.1
  | readyForQuery =>
      apply Related.bind (Related.lift _)
      intro a
      exact Related.bind (Related.setState _) fun _ => Related.callHandler a.1
  | closeComplete => exact Related.bind (Related.setState _) fun _ => Related.callHandler _
  | rowDescription =>
      apply Related.bind (Related.lift _)
      rintro ⟨ec, fs⟩
      dsimp only
      split
      · exact Related.callHandler ec
      · exact Related.callResultThenReceive hcon _
  | queryError =>
      apply Related.bind (Related.lift _)
      rintro ⟨ec, error⟩
      dsimp only
      split
      · exact Related.callHandler ec
      · exact Related.callResultThenReceive hcon _
  | dataRow =>
      apply Related.bind Related.getFsm
      intro fsm
      cases fsm.result with
      | none => exact Related.throw _
      | some id =>
          apply Related.bind (Related.of_inert (fun _ => Inert.dataRow head body id)
            fun _ => Inert.dataRow head body id)
          intro ec
          exact Related.receiveUnless hcon ec
  | parseComplete => exact Related.receive hcon
  | bindComplete => exact Related.receive hcon
  | backendKeyData => exact Related.bind (Related.lift _) fun a => Related.receiveUnless hcon a.1
  | parameterStatus => exact Related.bind (Related.lift _) fun a => Related.receiveUnless hcon a.1
  | commandComplete => exact Related.bind (Related.lift _) fun a => Related.receiveUnless hcon a.1
  | noticeResponse => exact Related.bind (Related.lift _) fun a => Related.receiveUnless hcon a.1
  | parameterDescription =>
      exact Related.bind (Related.lift _) fun a => Related.receiveUnless hcon a.1

theorem Related.next (head : Header) (body : Buffer) :
    Related R (FSM.next ext con head.mtype head body)
      (FSM.next ext con' head.mtype head body) := by
  apply Related.bind Related.getFsm
  intro fsm
  apply Related.bind (Related.emit _)
  intro _
  split
  · exact Related.throw _
  split
  · exact Related.action hcon head body _
  · exact Related.receive hcon

theorem Related.readHandler (rh : RHandler) (ec : ErrorCode) (buf : Buffer) :
    Related R (rh.run ext con ec buf) (rh.run ext con' ec buf) := by
  unfold RHandler.run
  split
  · exact Related.callHandler ec
  cases rh with
  | header =>
      apply Related.bind (Related.lift _)
      rintro ⟨er, head⟩
      exact Related.read hcon _ _
  | body head => exact Related.next hcon head buf

theorem Related.writeHandler (wh : WHandler) (ec : ErrorCode) :
    Related R (wh.run con ec) (wh.run con' ec) := by
  cases wh with
  | startUpWritten => exact Related.receiveUnless hcon ec
  | queryWritten => exact Related.receiveUnless hcon ec
  | passwordWritten => exact Related.receiveUnless hcon ec
  | sslStartUpWritten eh => exact Related.andThen eh ec (Related.receive hcon)
  | syncWritten eh => exact Related.andThen eh ec (Related.receive hcon)
  | parseSyncWritten eh => exact Related.andThen eh ec (Related.receive hcon)
  | bindWritten eh =>
      exact Related.andThen eh ec (Related.withQuery fun q => Related.write hcon _ _)
  | describeWritten eh =>
      exact Related.andThen eh ec (Related.withQuery fun q => Related.write hcon _ _)
  | executeWritten eh => exact Related.andThen eh ec (Related.write hcon _ _)
  | parseWritten eh => exact Related.andThen eh ec (Related.write hcon _ _)
  | terminateWritten =>
      exact Related.bind (Related.emit _) fun _ => Related.callHandler ec

theorem Related.request (c : Call) (hc : c.isRequest = true) :
    Related R (c.run con) (c.run con') := by
  cases c with
  | connect option eh => cases hc
  | close eh => cases hc
  | exec q res eh =>
      apply Related.bind Related.getFsm
      intro fsm
      split
      · exact Related.invoke _ _
      · apply Related.bind (Related.modifyFsm _)
        intro _
        exact Related.bind (Related.modifyFsm _) fun _ => Related.write hcon _ _
  | execQuery q res eh =>
      apply Related.bind Related.getFsm
      intro fsm
      split
      · exact Related.invoke _ _
      · apply Related.bind (Related.modifyFsm _)
        intro _
        apply Related.bind (Related.modifyFsm _)
        intro _
        exact Related.bind (Related.modifyFsm _) fun _ => Related.write hcon _ _
  | parse q eh =>
      apply Related.bind Related.getFsm
      intro fsm
      split
      · exact Related.invoke _ _
      · apply Related.bind (Related.modifyFsm _)
        intro _
        exact Related.bind (Related.modifyFsm _) fun _ => Related.write hcon _ _

theorem Related.call (hconnect : ∀ option, Related R (con.connect (.connected option))
    (con'.connect (.connected option))) (c : Call) : Related R (c.run con) (c.run con') := by
  cases c with
  | connect option eh => exact Related.bind (Related.modifyFsm _) fun _ => hconnect _
  | close eh =>
      apply Related.bind (Related.setState _)
      intro _
      exact Related.bind (Related.modifyFsm _) fun _ => Related.write hcon _ _
  | exec q res eh => exact Related.request hcon (.exec q res eh) rfl
  | execQuery q res eh => exact Related.request hcon (.execQuery q res eh) rfl
  | parse q eh => exact Related.request hcon (.parse q eh) rfl

/-- The callback of `connect` or of the handshake. -/
theorem Related.connectHandler (eh : EHandler) (ec : ErrorCode)
    (hshake : ∀ option ehandler, eh = .sslConnected option ehandler →
      Related R (con.handshake (.handshaken option ehandler))
        (con'.handshake (.handshaken option ehandler))) :
    Related R (eh.run con ec) (eh.run con' ec) := by
  unfold EHandler.run
  split
  · cases eh with
    | connected option => exact Related.callHandler ec
    | sslConnected option ehandler => exact Related.invoke ehandler ec
    | handshaken option ehandler => exact Related.invoke ehandler ec
  · cases eh with
    | connected option => exact Related.write hcon _ _
    | sslConnected option ehandler => exact hshake option ehandler rfl
    | handshaken option ehandler => exact Related.write hcon _ _

end Connection

end Related

/-! One connection on both sides. -/

/-- A program that keeps a property of the connection, whether it returns or
aborts. -/
structure Keeps (P : ν → Prop) (x : Act ν ρ α) : Prop where
  kept : ∀ w, P w.net → P (x w).world.net

section Keeps

variable {P : ν → Prop} {con : ConnectionBase ν ρ}

theorem Keeps.related {x : Act ν ρ α} (hx : Keeps P x) :
    Related (fun a b => a = b ∧ P a) x x := by
  constructor
  rintro w net ⟨rfl, hw⟩
  exact ⟨(x w).world.net, ⟨rfl, hx.kept w hw⟩, rfl⟩

theorem Related.keeps {x : Act ν ρ α} (hx : Related (fun a b => a = b ∧ P a) x x) :
    Keeps P x := by
  constructor
  intro w hw
  obtain ⟨_, ⟨_, hkept⟩, _⟩ := hx.same w w.net ⟨rfl, hw⟩
  exact hkept

theorem Keeps.bind {x : Act ν ρ α} {f : α → Act ν ρ β} (hx : Keeps P x)
    (hf : ∀ a, Keeps P (f a)) : Keeps P (x >>= f) :=
  (hx.related.bind fun a => (hf a).related).keeps

theorem Keeps.throw (e : Abort) : Keeps P (Act.throw e : Act ν ρ α) := (Related.throw e).keeps

/-- A connection whose reads and writes keep a property. -/
structure KeptBy (P : ν → Prop) (con : ConnectionBase ν ρ) : Prop where
  read : ∀ len rh, Keeps P (con.readInto len rh)
  write : ∀ msg wh, Keeps P (con.writeBuffers msg wh)

variable (hcon : KeptBy P con)

include hcon

theorem KeptBy.corresponds : Corresponds (fun a b => a = b ∧ P a) con con :=
  ⟨fun len rh => (hcon.read len rh).related, fun msg wh => (hcon.write msg wh).related⟩

theorem Keeps.write (msg : Message) (wh : WHandler) : Keeps P (con.write msg wh) :=
  (Related.write hcon.corresponds msg wh).keeps

theorem Keeps.readHandler (rh : RHandler) (ec : ErrorCode) (buf : Buffer) :
    Keeps P (rh.run ext con ec buf) :=
  (Related.readHandler hcon.corresponds rh ec buf).keeps

theorem Keeps.writeHandler (wh : WHandler) (ec : ErrorCode) : Keeps P (wh.run con ec) :=
  (Related.writeHandler hcon.corresponds wh ec).keeps

theorem Keeps.request (c : Call) (hc : c.isRequest = true) : Keeps P (c.run con) :=
  (Related.request hcon.corresponds c hc).keeps

end Keeps

end Lapq
