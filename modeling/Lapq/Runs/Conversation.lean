import Lapq.Runs.Account

/-!
What the client says to the server. `Speaker` is a client of the protocol as its
message flow has it: a start-up message, then exchanges one at a time, each with
its messages in order and about one statement and portal. `FSM::close` looks at no
state, so that a `Terminate` may stand anywhere among them: before the start-up
message, in the middle of an exchange, whose messages then still follow, and more
than once. No exchange starts after one. Over an asynchronous connection the state
machine is such a speaker, as long as it is connected once and no MD5 password is
asked for.
-/

namespace Lapq

variable {ρ : Type} {ext : Externals ρ} {w w' : World (List ConnCall) ρ}
  {h : HandlerId} {r : Completion} {call : ConnCall} {es : List Event}

/-- How far an exchange has come. -/
inductive Phase where
  | start
  | ready
  | parsed
  | bound (name portal : Str)
  | described (portal : Str)
  | executed
deriving DecidableEq, Repr

structure Speaker where
  phase : Phase
  ended : Bool
deriving DecidableEq, Repr

namespace Speaker

def init : Speaker := ⟨.start, false⟩

/-- The message, if it may be said now. A `Terminate` may always be said, and does
not keep what was begun from being finished. -/
def say (s : Speaker) (msg : Message) : Option Speaker :=
  match s.phase, msg with
  | _, .terminate => some { s with ended := true }
  | .start, .startUp _ => some { s with phase := .ready }
  | .ready, .query _ => if s.ended then none else some s
  | .ready, .parse .. => if s.ended then none else some { s with phase := .parsed }
  | .ready, .bind name portal _ =>
      if s.ended then none else some { s with phase := .bound name portal }
  | .parsed, .sync => some { s with phase := .ready }
  | .bound name portal, .describe name' portal' =>
      if name' = name ∧ portal' = portal then some { s with phase := .described portal } else none
  | .described portal, .execute portal' =>
      if portal' = portal then some { s with phase := .executed } else none
  | .executed, .sync => some { s with phase := .ready }
  | _, _ => none

def sayAll (s : Speaker) (msgs : List Message) : Option Speaker := msgs.foldlM say s

@[simp] theorem sayAll_nil (s : Speaker) : s.sayAll [] = some s := rfl

@[simp] theorem sayAll_singleton (s : Speaker) (msg : Message) : s.sayAll [msg] = s.say msg := by
  simp [sayAll]

theorem sayAll_append {s t : Speaker} {msgs : List Message} (hmsgs : s.sayAll msgs = some t)
    (more : List Message) : s.sayAll (msgs ++ more) = t.sayAll more := by
  unfold sayAll at hmsgs ⊢
  rw [List.foldlM_append, hmsgs]
  rfl

end Speaker

def Event.message? : Event → Option Message
  | .write msg => some msg
  | _ => none

/-- The messages among the events. -/
def said (events : List Event) : List Message := events.filterMap Event.message?

@[simp] theorem said_nil : said [] = [] := rfl

@[simp] theorem said_append (events more : List Event) :
    said (events ++ more) = said events ++ said more :=
  List.filterMap_append

@[simp] theorem said_write (msg : Message) (events : List Event) :
    said (.write msg :: events) = msg :: said events := rfl

@[simp] theorem said_handler (id : HandlerId) (ec : ErrorCode) (state : State)
    (events : List Event) : said (.handler id ec state :: events) = said events := rfl

@[simp] theorem said_dispatch (state : State) (head : Header) (body : Buffer)
    (events : List Event) : said (.dispatch state head body :: events) = said events := rfl

@[simp] theorem said_abort (e : Abort) (events : List Event) :
    said (.abort e :: events) = said events := rfl

@[simp] theorem said_closed (events : List Event) : said (.closed :: events) = said events := rfl

theorem ResultEvents.said {fsm : FSM} (hes : ResultEvents fsm es) : said es = [] := by
  apply List.filterMap_eq_nil_iff.mpr
  intro e he
  obtain ⟨id, call, _, rfl⟩ := hes e he
  rfl

/-- The phase in which a call on the connection is outstanding. -/
def ConnCall.Fits (query : Option DBQuery) (phase : Phase) : ConnCall → Prop
  | .connect _ => phase = .start
  | .write _ (.bindWritten _) => ∃ q, query = some q ∧ phase = .bound q.name q.portal
  | .write _ (.describeWritten _) => ∃ q, query = some q ∧ phase = .described q.portal
  | .write _ (.executeWritten _) => phase = .executed
  | .write _ (.parseWritten _) => phase = .parsed
  | .write .. | .read .. => phase = .ready

/-- The program says what the speaker may say, and leaves at most one call, for
which the speaker is then ready. -/
def Talks (w : World (List ConnCall) ρ) (s : Speaker) (o : Outcome (List ConnCall) ρ Unit) :
    Prop :=
  ∃ (issued : Option ConnCall) (s' : Speaker),
    o.settle.1 = { w with net := w.net ++ issued.toList } ∧ s.sayAll (said o.settle.2) = some s' ∧
    s'.ended = s.ended ∧ ∀ c ∈ issued, c.isLive = true ∧ c.Fits w.fsm.query s'.phase

section Talks

variable {s : Speaker}

theorem Talks.invoke (eh : Option HandlerId) (ec : ErrorCode) :
    Talks w s (Act.invoke eh ec w) := by
  refine ⟨none, s, ?_, ?_, rfl, by simp⟩
  · cases eh <;> simp
  · cases eh <;> simp

theorem Talks.receive (hphase : s.phase = .ready) :
    Talks w s (FSM.receive AsyncConnection.con w) := by
  refine ⟨some .header, s, rfl, rfl, rfl, ?_⟩
  rintro c ⟨rfl⟩
  exact ⟨rfl, hphase⟩

theorem Talks.receiveUnless (hphase : s.phase = .ready) (ec : ErrorCode) :
    Talks w s (FSM.receiveUnless AsyncConnection.con ec w) := by
  unfold FSM.receiveUnless
  split
  · exact Talks.invoke w.fsm.ehandler ec
  · exact Talks.receive hphase

theorem Talks.andThen (eh : Option HandlerId) (ec : ErrorCode) {x : Act (List ConnCall) ρ Unit}
    (hx : Talks w s (x w)) : Talks w s (WHandler.andThen eh ec x w) := by
  unfold WHandler.andThen
  split
  · exact Talks.invoke eh ec
  · exact hx

theorem Talks.write {msg : Message} {wh : WHandler} {phase : Phase}
    (hsay : s.say msg = some { s with phase := phase })
    (hlive : ConnCall.isLive (.write msg wh) = true)
    (hfits : ConnCall.Fits w.fsm.query phase (.write msg wh)) :
    Talks w s (AsyncConnection.con.write msg wh w) := by
  refine ⟨some (.write msg wh), { s with phase := phase }, rfl, ?_, rfl, ?_⟩
  · simpa using hsay
  · rintro c ⟨rfl⟩
    exact ⟨hlive, hfits⟩

theorem Talks.withQuery {q : DBQuery} (hq : w.fsm.query = some q)
    {x : DBQuery → Act (List ConnCall) ρ Unit} (hx : Talks w s (x q w)) :
    Talks w s (FSM.withQuery x w) := by
  have hrun : FSM.withQuery x w = x q w := by
    unfold FSM.withQuery
    simp [Act.bind_apply, hq]
  rw [hrun]
  exact hx

/-- The closure of `connect` or of a write goes on with the exchange. -/
theorem Talks.resume (ext : Externals ρ) (hplain : call.Plain) (hlive : call.isLive = true)
    (hread : call.isRead = false) (hfits : call.Fits w.fsm.query s.phase) :
    Talks w s (call.resume ext AsyncConnection.con r w) := by
  cases call with
  | read len rh => cases hread
  | connect eh =>
      cases eh with
      | sslConnected option eh => cases hplain
      | handshaken option eh => cases hplain
      | connected option =>
          have hstart : s.phase = .start := hfits
          simp only [ConnCall.resume, EHandler.run]
          split
          · exact Talks.invoke w.fsm.ehandler r.ec
          · exact Talks.write (by simp [Speaker.say, hstart]) rfl rfl
  | write msg wh =>
      cases wh with
      | startUpWritten => exact Talks.receiveUnless hfits _
      | queryWritten => exact Talks.receiveUnless hfits _
      | passwordWritten => exact Talks.receiveUnless hfits _
      | sslStartUpWritten eh => cases hplain
      | syncWritten eh => exact Talks.andThen eh _ (Talks.receive hfits)
      | parseSyncWritten eh => exact Talks.andThen eh _ (Talks.receive hfits)
      | bindWritten eh =>
          obtain ⟨q, hq, hphase⟩ := hfits
          apply Talks.andThen eh _ (Talks.withQuery hq _)
          exact Talks.write (by simp [Speaker.say, hphase]) rfl ⟨q, hq, rfl⟩
      | describeWritten eh =>
          obtain ⟨q, hq, hphase⟩ := hfits
          apply Talks.andThen eh _ (Talks.withQuery hq _)
          exact Talks.write (by simp [Speaker.say, hphase]) rfl rfl
      | executeWritten eh =>
          have hphase : s.phase = .executed := hfits
          exact Talks.andThen eh _ (Talks.write (by simp [Speaker.say, hphase]) rfl rfl)
      | parseWritten eh =>
          have hphase : s.phase = .parsed := hfits
          exact Talks.andThen eh _ (Talks.write (by simp [Speaker.say, hphase]) rfl rfl)
      | terminateWritten => cases hlive

/-- A message that is read lets the client say nothing. The state is kept, or
becomes `CONN`, or is `IDLE` with nothing left to do. -/
theorem Resumes.listens (hres : Resumes h w r call w' es) (hread : call.isRead = true)
    (hclose : w.fsm.state ≠ .CLOSE)
    (hpassword : ∀ len head, call = .read len (.body head) → r.ec.isError = false →
      w.fsm.state = .AUTH → ¬ IsAuthentication 5 head r.data) :
    said es = [] ∧ w'.fsm.query = w.fsm.query ∧
      (w'.fsm.state = .END ↔ w.fsm.state = .END) ∧ w'.fsm.state ≠ .CLOSE ∧
      ∃ issued : Option ConnCall, w'.net = w.net ++ issued.toList ∧
        (∀ c ∈ issued, c.isLive = true ∧ c.isRead = true) ∧
        (w'.fsm.state = .IDLE → issued = none ∨ w.fsm.state = .IDLE) := by
  cases hres with
  | reported _ ec _ =>
      exact ⟨by simp, rfl, Iff.rfl, hclose, none, by simp, by simp, fun _ => Or.inl rfl⟩
  | lost _ e => exact ⟨by simp, rfl, Iff.rfl, hclose, none, by simp, by simp, fun _ => Or.inl rfl⟩
  | wrote _ msg wh _ _ _ hfrom _ =>
      rcases hfrom with ⟨eh, rfl⟩ | ⟨msg', wh', rfl⟩ <;> cases hread
  | reading msg wh _ => cases hread
  | closed msg ec => cases hread
  | header len head _ _ _ _ =>
      refine ⟨rfl, rfl, Iff.rfl, hclose, some (.read (toSize head.bodyLen) (.body head)), rfl, ?_,
        Or.inr⟩
      rintro c ⟨rfl⟩
      exact ⟨rfl, rfl⟩
  | dispatched len head hok o hreact =>
      rcases hreact with ⟨_, rfl⟩ | ⟨hrow, hreact⟩
      · exact ⟨by simp, rfl, Iff.rfl, hclose, none, by simp, by simp, fun _ => Or.inl rfl⟩
      have hheader : ∀ c ∈ some ConnCall.header, c.isLive = true ∧ c.isRead = true := by
        rintro c ⟨rfl⟩
        exact ⟨rfl, rfl⟩
      have hend : w.fsm.state ≠ .END := by
        intro hend
        rw [hend] at hrow
        cases hrow
      cases hreact with
      | goOn results es hes =>
          exact ⟨by simp [hes.said], rfl, Iff.rfl, hclose, some .header, rfl, hheader, Or.inr⟩
      | authOk _ _ =>
          exact ⟨by simp, rfl, by simp [hend], by simp, some .header, rfl, hheader, by simp⟩
      | md5 hstate hmsg msg _ => exact absurd hmsg (hpassword len head rfl hok hstate)
      | report ec _ =>
          exact ⟨by simp, rfl, Iff.rfl, hclose, none, by simp, by simp, fun _ => Or.inl rfl⟩
      | authError _ _ ec =>
          exact ⟨by simp, rfl, Iff.rfl, hclose, none, by simp, by simp, fun _ => Or.inl rfl⟩
      | ready _ _ ec =>
          exact ⟨by simp, rfl, by simp [hend], by simp, none, by simp, by simp, fun _ => Or.inl rfl⟩
      | ended hstate ec => exact absurd hstate hclose
      | aborted e results es hes =>
          exact ⟨by simp [hes.said], rfl, Iff.rfl, hclose, none, by simp, by simp,
            fun _ => Or.inl rfl⟩

end Talks

/-! Runs. -/

/-- The state machine is connected once, when it is new, and no MD5 password is
asked for. -/
def Orderly (w : World (List ConnCall) ρ) : Label → Prop
  | .call (.connect ..) => w.fsm = FSM.init
  | .call _ => True
  | .complete i r => ¬ AsksPassword w (.complete i r)

instance (w : World (List ConnCall) ρ) : (label : Label) → Decidable (Orderly w label)
  | .call (.connect ..) => inferInstanceAs (Decidable (w.fsm = FSM.init))
  | .call (.exec ..) | .call (.execQuery ..) | .call (.parse ..) | .call (.close _) =>
      inferInstanceAs (Decidable True)
  | .complete i r => inferInstanceAs (Decidable (¬ AsksPassword w (.complete i r)))

/-- The calls that belong to an operation. -/
def World.chain (w : World (List ConnCall) ρ) : List ConnCall := w.net.filter ConnCall.isLive

theorem chain_split {calls : List ConnCall} {i : Nat} (hcall : calls[i]? = some call) :
    ∃ before after, calls = before ++ call :: after ∧ calls.eraseIdx i = before ++ after := by
  obtain ⟨hi, rfl⟩ := List.getElem?_eq_some_iff.mp hcall
  refine ⟨calls.take i, calls.drop (i + 1), ?_, List.eraseIdx_eq_take_drop_succ calls i⟩
  rw [List.getElem_cons_drop, List.take_append_drop]

/-- The end of a session is no part of the chain. -/
theorem chain_terminate {i : Nat} (hcall : w.net[i]? = some call) (hlive : call.isLive = false) :
    (w.net.eraseIdx i).filter ConnCall.isLive = w.chain := by
  obtain ⟨before, after, hnet, herase⟩ := chain_split hcall
  rw [herase, World.chain, hnet]
  simp [List.filter_append, hlive]

/-- A completed call of an operation is the whole chain. -/
theorem chain_complete {i : Nat} {live : Option ConnCall} (hcall : w.net[i]? = some call)
    (hlive : call.isLive = true) (hchain : w.chain = live.toList) :
    live = some call ∧ (w.net.eraseIdx i).filter ConnCall.isLive = [] := by
  obtain ⟨before, after, hnet, herase⟩ := chain_split hcall
  rw [World.chain, hnet, List.filter_append, List.filter_cons, if_pos hlive] at hchain
  rw [herase, List.filter_append]
  cases live with
  | none => simp at hchain
  | some c =>
      have hlength := congrArg List.length hchain
      simp only [List.length_append, List.length_cons, Option.toList_some, List.length_nil]
        at hlength
      have hbefore : before.filter ConnCall.isLive = [] :=
        List.eq_nil_of_length_eq_zero (by omega)
      have hafter : after.filter ConnCall.isLive = [] :=
        List.eq_nil_of_length_eq_zero (by omega)
      rw [hbefore, hafter] at hchain ⊢
      refine ⟨?_, rfl⟩
      simpa using hchain.symm

theorem chain_issued {net : List ConnCall} (hnet : net.filter ConnCall.isLive = [])
    (issued : Option ConnCall) (hissued : ∀ c ∈ issued, c.isLive = true) :
    (net ++ issued.toList).filter ConnCall.isLive = issued.toList := by
  rw [List.filter_append, hnet, List.nil_append]
  cases issued with
  | none => rfl
  | some c => simp [hissued c rfl]

/-- What was said is what a speaker says, who is now at `s`. -/
structure Conversing (w : World (List ConnCall) ρ) (events : List Event) (s : Speaker) : Prop where
  told : Speaker.init.sayAll (said events) = some s
  ended : s.ended = true ↔ w.fsm.state = .END
  close : w.fsm.state ≠ .CLOSE
  fresh : w.fsm.ehandler = none → s.phase = .start
  chain : ∃ live : Option ConnCall, w.chain = live.toList ∧
    (∀ c ∈ live, c.Fits w.fsm.query s.phase) ∧
    (w.fsm.state = .IDLE → live = none ∧ s.phase = .ready)

variable {events : List Event} {s : Speaker}

theorem Conversing.init (results : ResultId → ρ) :
    Conversing (World.init results) [] Speaker.init :=
  ⟨rfl, by simp [World.init, FSM.init, Speaker.init], by simp [World.init, FSM.init],
    fun _ => rfl, none, rfl, by simp, by simp [World.init, FSM.init]⟩

theorem Conversing.completes (hconv : Conversing w events s) (hsound : Sound w) {i : Nat}
    (hcond : ¬ AsksPassword w (.complete i r)) (hcall : w.net[i]? = some call)
    (hh : w.fsm.ehandler = some h)
    (hres : Resumes h { w with net := w.net.eraseIdx i } r call w' es)
    (hstep : (AsyncConnection.machine ext).step w (.complete i r) = some (w', es)) :
    ∃ s', Conversing w' (events ++ es) s' := by
  obtain ⟨live, hchain, hfits, hidle⟩ := hconv.chain
  have hplain := hsound.plain call (List.mem_of_getElem? hcall)
  cases hlive : call.isLive with
  | false =>
      have hterm : call.isTerminate = true := by
        simpa [ConnCall.isLive] using hlive
      obtain ⟨rfl, ec, rfl⟩ := hres.terminated hterm
      refine ⟨s, ?_, hconv.ended, hconv.close, hconv.fresh, live, ?_, hfits, hidle⟩
      · simpa using hconv.told
      · exact (chain_terminate hcall hlive).trans hchain
  | true =>
      obtain ⟨rfl, hrest⟩ := chain_complete hcall hlive hchain
      have hfit := hfits call rfl
      have hbusy : w.fsm.state ≠ .IDLE := by
        intro hstate
        cases (hidle hstate).1
      cases hread : call.isRead with
      | false =>
          have htalks := Talks.resume (w := { w with net := w.net.eraseIdx i }) (r := r) ext hplain
            hlive hread hfit
          simp only [AsyncConnection.machine, hcall] at hstep
          split at hstep
          · unfold Talks at htalks
            rw [Option.some.inj hstep] at htalks
            obtain ⟨issued, s', hworld, hsay, hended, hissued⟩ := htalks
            dsimp only at hworld hsay
            subst hworld
            refine ⟨s', ?_, ?_, hconv.close, ?_, issued, ?_, ?_, ?_⟩
            · rw [said_append, Speaker.sayAll_append hconv.told, hsay]
            · rw [hended]
              exact hconv.ended
            · intro hnone
              rw [hh] at hnone
              cases hnone
            · exact chain_issued hrest issued fun c hc => (hissued c hc).1
            · exact fun c hc => (hissued c hc).2
            · exact fun hstate => absurd hstate hbusy
          · cases hstep
      | true =>
          have hready : s.phase = .ready := by
            cases call with
            | read len rh => exact hfit
            | connect eh => cases hread
            | write msg wh => cases hread
          have hpassword := not_asksPassword hcall hcond
          obtain ⟨_, _, _, hslot⟩ := hres.issued
          obtain ⟨hsaid, hquery, hend, hclose, issued, hnet, hissued, hafter⟩ :=
            hres.listens hread hconv.close hpassword
          refine ⟨s, ?_, ?_, hclose, ?_, issued, ?_, ?_, ?_⟩
          · rw [said_append, hsaid, List.append_nil]
            exact hconv.told
          · rw [hconv.ended]
            exact hend.symm
          · intro hnone
            rw [hslot, hh] at hnone
            cases hnone
          · rw [World.chain, hnet]
            exact chain_issued hrest issued fun c hc => (hissued c hc).1
          · intro c hc
            have hreads := (hissued c hc).2
            cases c with
            | read len rh => exact hready
            | connect eh => cases hreads
            | write msg wh => cases hreads
          · intro hstate
            exact ⟨(hafter hstate).resolve_right hbusy, hready⟩

/-- A request in `IDLE` opens an exchange. -/
theorem accept_says (c : Call) (hc : c.isRequest = true) (hstate : w.fsm.state = .IDLE) :
    ∃ fsm msg wh phase, (c.run AsyncConnection.con w).settle =
        ({ w with fsm := fsm, net := w.net ++ [.write msg wh] }, [.write msg]) ∧
      fsm.ehandler = some c.handler ∧ (fsm.state = .QUERY ∨ fsm.state = .EQUERY) ∧
      ConnCall.isLive (.write msg wh) = true ∧ ConnCall.Fits fsm.query phase (.write msg wh) ∧
      (∀ s : Speaker, s.phase = .ready → s.ended = false →
        s.say msg = some { s with phase := phase }) := by
  cases c with
  | connect option eh => cases hc
  | close eh => cases hc
  | exec q res eh =>
      refine ⟨{ w.fsm with result := res, ehandler := some eh, state := .QUERY }, .query q,
        .queryWritten, .ready, ?_, rfl, Or.inl rfl, rfl, rfl, ?_⟩
      · simp [Call.run, FSM.exec, Act.bind_apply, hstate]
      · rintro ⟨phase, ended⟩ rfl rfl
        rfl
  | execQuery q res eh =>
      refine ⟨⟨some q, res, some eh, .EQUERY⟩, .bind q.name q.portal q.bindValue,
        .bindWritten none, .bound q.name q.portal, ?_, rfl, Or.inr rfl, rfl, ⟨q, rfl, rfl⟩, ?_⟩
      · simp [Call.run, FSM.execQuery, Act.bind_apply, hstate]
      · rintro ⟨phase, ended⟩ rfl rfl
        rfl
  | parse q eh =>
      refine ⟨{ w.fsm with query := some q, ehandler := some eh, state := .QUERY },
        .parse q.name q.query [], .parseWritten none, .parsed, ?_, rfl, Or.inl rfl, rfl, rfl, ?_⟩
      · simp [Call.run, FSM.parse, Act.bind_apply, hstate]
      · rintro ⟨phase, ended⟩ rfl rfl
        rfl

theorem Conversing.step {label : Label} (hconv : Conversing w events s) (hsound : Sound w)
    (hcond : Orderly w label)
    (hstep : (AsyncConnection.machine ext).step w label = some (w', es)) :
    ∃ s', Conversing w' (events ++ es) s' := by
  obtain ⟨live, hchain, hfits, hidle⟩ := hconv.chain
  cases step_cases hsound hstep with
  | connect option h =>
      have hnew : w.fsm = FSM.init := hcond
      have hnone : w.fsm.ehandler = none := by
        rw [hnew]
        rfl
      have hnet : w.net = [] := by
        by_contra hne
        obtain ⟨h', hh'⟩ := hsound.handler hne
        rw [hnone] at hh'
        cases hh'
      refine ⟨s, ?_, hconv.ended, hconv.close, by simp, some (.connect (.connected option)), ?_, ?_,
        ?_⟩
      · simpa using hconv.told
      · simp [World.chain, hnet, ConnCall.isLive, ConnCall.isTerminate]
      · rintro c ⟨rfl⟩
        exact hconv.fresh hnone
      · intro hstate
        have hauth : w.fsm.state = .AUTH := by
          rw [hnew]
          rfl
        rw [show w.fsm.state = .IDLE from hstate] at hauth
        cases hauth
  | reject c _ _ =>
      refine ⟨s, ?_, hconv.ended, hconv.close, hconv.fresh, live, hchain, hfits, hidle⟩
      simpa using hconv.told
  | accept c hc hstate _ _ _ _ _ _ _ _ =>
      obtain ⟨fsm, msg, wh, phase, hrun, hhandler, hnext, hlive, hfit, hsay⟩ :=
        accept_says c hc hstate
      have hsame := Option.some.inj (hstep.symm.trans (congrArg some hrun))
      obtain ⟨rfl, hready⟩ := hidle hstate
      have hended : s.ended = false := by
        apply Bool.eq_false_iff.mpr
        intro hended
        rw [hconv.ended.mp hended] at hstate
        cases hstate
      rw [Prod.mk.injEq] at hsame
      rw [hsame.1, hsame.2]
      refine ⟨{ s with phase := phase }, ?_, ?_, ?_, ?_, some (.write msg wh), ?_, ?_, ?_⟩
      · rw [said_append, Speaker.sayAll_append hconv.told]
        simpa using hsay s hready hended
      · rcases hnext with hnext | hnext <;> simp [hended, hnext]
      · rcases hnext with hnext | hnext <;> simp [hnext]
      · intro hnone
        rw [show fsm.ehandler = none from hnone] at hhandler
        cases hhandler
      · apply chain_issued hchain (some (.write msg wh))
        rintro c ⟨rfl⟩
        exact hlive
      · rintro c ⟨rfl⟩
        exact hfit
      · intro hback
        rcases hnext with hnext | hnext <;> rw [show fsm.state = .IDLE from hback] at hnext <;>
          cases hnext
  | close h =>
      refine ⟨{ s with ended := true }, ?_, by simp, by simp, by simp, live, ?_, ?_, by simp⟩
      · rw [said_append, Speaker.sayAll_append hconv.told]
        simp [Speaker.say]
      · rw [← hchain]
        simp [World.chain, List.filter_append, ConnCall.isLive, ConnCall.isTerminate]
      · exact hfits
  | complete i r call hcall _ h hh hres =>
      exact hconv.completes hsound hcond hcall hh hres hstep

theorem conversing_run {results : ResultId → ρ} {labels : List Label}
    {t : World (List ConnCall) ρ}
    (hrun : (AsyncConnection.machine ext).Run Orderly (World.init results) labels t events) :
    Sound t ∧ ∃ s, Conversing t events s := by
  refine hrun.invariant (fun _ w events => Sound w ∧ ∃ s, Conversing w events s)
    ⟨Sound.init results, _, Conversing.init results⟩ ?_
  rintro labels w w' events es label ⟨hsound, s, hconv⟩ hcond hstep
  exact ⟨hsound.step (step_cases hsound hstep), hconv.step hsound hcond hstep⟩

/-- In every run on which the state machine is connected once and no MD5 password
is asked for, requests and closes at any time, the messages sent are those of a
speaker: of all but `Terminate` the start-up message is the first. The speaker has
ended the session if and only if the state is `END`, and is between exchanges when
the state is `IDLE`. -/
theorem client_converses (ext : Externals ρ) (results : ResultId → ρ) (labels : List Label)
    (t : World (List ConnCall) ρ) (events : List Event)
    (hrun : (AsyncConnection.machine ext).Run Orderly (World.init results) labels t events) :
    ∃ s, Speaker.init.sayAll (said events) = some s ∧ (s.ended = true ↔ t.fsm.state = .END) ∧
      (t.fsm.state = .IDLE → s = ⟨.ready, false⟩) := by
  obtain ⟨_, s, hconv⟩ := conversing_run hrun
  refine ⟨s, hconv.told, hconv.ended, ?_⟩
  intro hidle
  obtain ⟨live, _, _, hready⟩ := hconv.chain
  have hended : s.ended = false := by
    apply Bool.eq_false_iff.mpr
    intro hended
    rw [hconv.ended.mp hended] at hidle
    cases hidle
  obtain ⟨phase, ended⟩ := s
  cases hended
  cases (hready hidle).2
  rfl

/-- A session that is closed while the messages of a statement are being sent. -/
def interrupted : List Label :=
  logOn .empty 0 ++
    [.call (.execQuery ⟨[], ascii "a", []⟩ none 1),
      .complete 0 (.sent (.bind (ascii "a") (ascii "aport") [])), .call (.close 2),
      .complete 0 (.sent (.describe (ascii "a") (ascii "aport")))]

theorem client_converses_interrupted :
    ∃ t events s, (AsyncConnection.machine (Externals.standard fun _ => [])).Run Orderly
        (World.init fun _ => []) interrupted t events ∧
      said events = [.startUp .empty, .bind (ascii "a") (ascii "aport") [],
        .describe (ascii "a") (ascii "aport"), .terminate, .execute (ascii "aport")] ∧
      Speaker.init.sayAll (said events) = some s ∧ s.ended = true := by
  have hexec : ∃ t events, ((AsyncConnection.machine (Externals.standard fun _ => [])).restrict
        Orderly).exec (World.init fun _ => []) interrupted = some (t, events) ∧
      t.fsm.state = .END ∧ said events = [.startUp .empty, .bind (ascii "a") (ascii "aport") [],
        .describe (ascii "a") (ascii "aport"), .terminate, .execute (ascii "aport")] :=
    ⟨_, _, rfl, rfl, rfl⟩
  obtain ⟨t, events, hexec, hend, hsaid⟩ := hexec
  have hrun := Machine.run_of_exec_restrict hexec
  obtain ⟨s, hsay, hended, _⟩ := client_converses _ _ _ _ _ hrun
  exact ⟨t, events, s, hrun, hsaid, hsay, hended.mpr hend⟩

end Lapq
