import Lapq.Runs.Conversation
import Lapq.Runs.Gating
import Lapq.Wire.Frontend

/-!
What a server that understands the messages runs, and what the user asked for. A
prepared statement is run through a portal, over four messages that are written
one after the other; whatever is called and whatever fails in between, the portal
is still that of the request, and its statement is the one prepared under the
name. How the server answers is not part of it.
-/

namespace Lapq

variable {ρ : Type} {ext : Externals ρ} {w w' : World (List ConnCall) ρ}
  {events es : List Event}

/-- The texts that a server has under the names of statements. -/
abbrev Statements := Str → Option Str

/-- A statement that is run: its text, if there is one under the name, and its
parameters. -/
abbrev Command := Option Str × List (Option Str)

/-- What the statements become when a text is to be prepared under a name: a server
may refuse it, also for what it has under the name already. -/
abbrev Preparing := Statements → Str → Str → Statements

/-! What the messages say. -/

structure Server where
  statements : Statements
  portals : Str → Option Command
  ran : List Command

namespace Server

def init : Server := ⟨fun _ => none, fun _ => none, []⟩

def read (prepare : Preparing) (server : Server) : Fields → Server
  | .query text => { server with ran := server.ran ++ [(some text, [])] }
  | .parse name text _ => { server with statements := prepare server.statements name text }
  | .bind portal statement _ values _ =>
      { server with
        portals := Function.update server.portals portal
          (some (server.statements statement, values)) }
  | .execute portal _ => { server with ran := server.ran ++ (server.portals portal).toList }
  | _ => server

theorem read_describe (prepare : Preparing) (server : Server) (name portal : Str) :
    server.read prepare (Message.describe name portal).fields = server := by
  cases portal <;> rfl

end Server

/-! What the user asks for. -/

structure Orders where
  statements : Statements
  asked : List Command

/-- The first message of a call. -/
def Call.opening : Call → Message
  | .connect option _ => .startUp option
  | .exec q _ _ => .query q
  | .execQuery q _ _ => .bind q.name q.portal q.bindValue
  | .parse q _ => .parse q.name q.query []
  | .close _ => .terminate

namespace Orders

def init : Orders := ⟨fun _ => none, []⟩

def ask (prepare : Preparing) (o : Orders) : Call → Orders
  | .exec q _ _ => { o with asked := o.asked ++ [(some q, [])] }
  | .execQuery q _ _ =>
      { o with asked := o.asked ++ [(o.statements q.name, q.bindValue.map some)] }
  | .parse q _ => { o with statements := prepare o.statements q.name q.query }
  | .connect .. | .close _ => o

/-- The orders, as the first message of each of them has it. -/
def note (prepare : Preparing) (o : Orders) : Message → Orders
  | .query text => { o with asked := o.asked ++ [(some text, [])] }
  | .bind name _ values => { o with asked := o.asked ++ [(o.statements name, values.map some)] }
  | .parse name text _ => { o with statements := prepare o.statements name text }
  | _ => o

variable (prepare : Preparing)

theorem note_opening (o : Orders) (c : Call) : o.note prepare c.opening = o.ask prepare c := by
  cases c <;> rfl

theorem note_of_not_request (o : Orders) {msg : Message} (hmsg : msg.isRequest = false) :
    o.note prepare msg = o := by
  cases msg <;> first | rfl | cases hmsg

theorem foldl_note_of_not_request (o : Orders) {msgs : List Message}
    (hmsgs : ∀ msg ∈ msgs, msg.isRequest = false) : msgs.foldl (note prepare) o = o := by
  induction msgs with
  | nil => rfl
  | cons msg msgs ih =>
      rw [List.foldl_cons, note_of_not_request prepare o (hmsgs msg List.mem_cons_self)]
      exact ih fun m hm => hmsgs m (List.mem_cons_of_mem _ hm)

end Orders

/-! What a speaker says. -/

/-- What a speaker says in a phase, and the next one. -/
inductive Turn : Phase → Message → Phase → Prop
  | terminate (phase : Phase) : Turn phase .terminate phase
  | startUp (option : DBOption) : Turn .start (.startUp option) .ready
  | query (text : Str) : Turn .ready (.query text) .ready
  | parse (name text : Str) (oids : List Int) : Turn .ready (.parse name text oids) .parsed
  | prepared : Turn .parsed .sync .ready
  | bind (name portal : Str) (values : List Str) :
      Turn .ready (.bind name portal values) (.bound name portal)
  | describe (name portal : Str) :
      Turn (.bound name portal) (.describe name portal) (.described portal)
  | execute (portal : Str) : Turn (.described portal) (.execute portal) .executed
  | executed : Turn .executed .sync .ready

theorem Speaker.turn {s s' : Speaker} {msg : Message} (hsay : s.say msg = some s') :
    Turn s.phase msg s'.phase := by
  obtain ⟨phase, ended⟩ := s
  simp only [Speaker.say] at hsay
  split at hsay
  · cases hsay
    exact .terminate phase
  · cases hsay
    exact .startUp _
  · split at hsay
    · cases hsay
    · cases hsay
      exact .query _
  · split at hsay
    · cases hsay
    · cases hsay
      exact .parse _ _ _
  · split at hsay
    · cases hsay
    · cases hsay
      exact .bind _ _ _
  · cases hsay
    exact .prepared
  · split at hsay
    · rename_i heq
      obtain ⟨rfl, rfl⟩ := heq
      cases hsay
      exact .describe _ _
    · cases hsay
  · split at hsay
    · rename_i heq
      obtain rfl := heq
      cases hsay
      exact .execute _
    · cases hsay
  · cases hsay
    exact .executed
  · cases hsay

theorem Speaker.sayAll_cons {s s' : Speaker} {msg : Message} {msgs : List Message}
    (hsay : s.sayAll (msg :: msgs) = some s') :
    ∃ next, s.say msg = some next ∧ next.sayAll msgs = some s' := by
  unfold Speaker.sayAll at hsay
  rw [List.foldlM_cons] at hsay
  exact Option.bind_eq_some_iff.mp hsay

/-- All that was asked for was run, but for a statement whose portal is bound. -/
def Settled (phase : Phase) (server : Server) (asked : List Command) : Prop :=
  match phase with
  | .bound _ portal | .described portal =>
      ∃ item, server.portals portal = some item ∧ asked = server.ran ++ [item]
  | .start | .ready | .parsed | .executed => asked = server.ran

theorem Settled.pending {phase : Phase} {server : Server} {asked : List Command}
    (hsettled : Settled phase server asked) :
    ∃ pending, asked = server.ran ++ pending ∧ pending.length ≤ 1 ∧
      (phase = .ready → pending = []) := by
  cases phase with
  | bound name portal =>
      obtain ⟨item, _, hasked⟩ := hsettled
      exact ⟨[item], hasked, Nat.le_refl 1, by simp⟩
  | described portal =>
      obtain ⟨item, _, hasked⟩ := hsettled
      exact ⟨[item], hasked, Nat.le_refl 1, by simp⟩
  | start | ready | parsed | executed =>
      exact ⟨[], hsettled.trans (List.append_nil _).symm, Nat.zero_le 1, fun _ => rfl⟩

structure Understood (s : Speaker) (server : Server) (o : Orders) : Prop where
  statements : server.statements = o.statements
  settled : Settled s.phase server o.asked

section Understood

variable {prepare : Preparing} {s s' : Speaker} {server : Server} {o : Orders}

theorem Understood.init : Understood Speaker.init Server.init Orders.init := ⟨rfl, rfl⟩

theorem Understood.say {msg : Message} (hunder : Understood s server o)
    (hsay : s.say msg = some s') :
    Understood s' (server.read prepare msg.fields) (o.note prepare msg) := by
  obtain ⟨hstatements, hsettled⟩ := hunder
  have hturn := Speaker.turn hsay
  obtain ⟨phase, ended⟩ := s
  obtain ⟨phase', ended'⟩ := s'
  dsimp only at hturn hsettled
  cases hturn with
  | terminate | startUp | prepared | executed => exact ⟨hstatements, hsettled⟩
  | query text => exact ⟨hstatements, congrArg (· ++ [(some text, [])]) hsettled⟩
  | parse name text oids =>
      refine ⟨?_, hsettled⟩
      change prepare server.statements name text = _
      rw [hstatements]
      rfl
  | bind name portal values =>
      have hran : o.asked = server.ran := hsettled
      refine ⟨hstatements, (server.statements name, values.map some), Function.update_self .., ?_⟩
      change o.asked ++ [(o.statements name, values.map some)] = _
      rw [hran, ← hstatements]
      rfl
  | describe name portal =>
      rw [Server.read_describe]
      exact ⟨hstatements, hsettled⟩
  | execute portal =>
      obtain ⟨item, hitem, hasked⟩ := hsettled
      refine ⟨hstatements, ?_⟩
      change o.asked = server.ran ++ (server.portals portal).toList
      rw [hitem, hasked]
      rfl

theorem Understood.sayAll {msgs : List Message} (hunder : Understood s server o)
    (hsay : s.sayAll msgs = some s') :
    Understood s' ((msgs.map Message.fields).foldl (Server.read prepare) server)
      (msgs.foldl (Orders.note prepare) o) := by
  induction msgs generalizing s server o with
  | nil =>
      cases hsay
      exact hunder
  | cons msg msgs ih =>
      obtain ⟨next, hfirst, hrest⟩ := Speaker.sayAll_cons hsay
      exact ih (hunder.say hfirst) hrest

end Understood

/-! What is asked for along a run. -/

/-- The request of a step that was not refused. -/
def Entry.request? (entry : Entry) : Option Call :=
  match entry.label with
  | .call c => if c.isRequest && !entry.rejected then some c else none
  | .complete .. => none

/-- The requests of a run that were accepted. -/
def accepted (ext : Externals ρ) (w : World (List ConnCall) ρ) (labels : List Label) :
    List Call :=
  (steps ext w labels).filterMap Entry.request?

theorem steps_snoc {labels : List Label} {s t u : World (List ConnCall) ρ} {label : Label}
    (hexec : (AsyncConnection.machine ext).exec s labels = some (t, events))
    (hstep : (AsyncConnection.machine ext).step t label = some (u, es)) :
    steps ext s (labels ++ [label]) = steps ext s labels ++ [⟨label, label.rejected t, es⟩] := by
  induction labels generalizing s events with
  | nil =>
      cases hexec
      exact steps_cons [] hstep
  | cons first labels ih =>
      obtain ⟨v, emitted, later, hfirst, hlast, rfl⟩ := Machine.exec_cons_inv hexec
      rw [List.cons_append, steps_cons _ hfirst, steps_cons _ hfirst, ih hlast, List.cons_append]

theorem accepted_snoc {labels : List Label} {s t u : World (List ConnCall) ρ} {label : Label}
    (hexec : (AsyncConnection.machine ext).exec s labels = some (t, events))
    (hstep : (AsyncConnection.machine ext).step t label = some (u, es)) :
    accepted ext s (labels ++ [label]) =
      accepted ext s labels ++ (Entry.request? ⟨label, label.rejected t, es⟩).toList := by
  unfold accepted
  rw [steps_snoc hexec hstep, List.filterMap_append, List.filterMap_cons]
  cases Entry.request? ⟨label, label.rejected t, es⟩ <;> rfl

/-- A completion writes no request. -/
theorem Resumes.no_request {h : HandlerId} {r : Completion} {call : ConnCall}
    (hres : Resumes h w r call w' es) : ∀ msg ∈ said es, msg.isRequest = false := by
  cases hres with
  | reported _ ec _ => simp
  | lost _ e => simp
  | wrote _ msg wh _ _ hmsg _ _ => simpa using hmsg.1
  | reading msg wh _ => simp
  | header len head _ _ _ _ => simp
  | closed msg ec => simp
  | dispatched len head hok o hreact =>
      rcases hreact with ⟨_, rfl⟩ | ⟨_, hreact⟩
      · simp
      cases hreact with
      | md5 _ _ msg hpassword =>
          obtain ⟨text, rfl⟩ := hpassword
          simp [Message.isRequest]
      | goOn results es hes => simp [hes.said]
      | aborted e results es hes => simp [hes.said]
      | authOk _ _ => simp
      | report ec _ => simp
      | authError _ _ ec => simp
      | ready _ _ ec => simp
      | ended _ ec => simp

/-- An accepted request writes its first message. -/
theorem accept_opening (c : Call) (hc : c.isRequest = true) (hstate : w.fsm.state = .IDLE) :
    said (c.run AsyncConnection.con w).settle.2 = [c.opening] := by
  cases c with
  | connect option eh => cases hc
  | close eh => cases hc
  | exec q res eh => simp [Call.run, FSM.exec, Act.bind_apply, hstate, Call.opening]
  | execQuery q res eh => simp [Call.run, FSM.execQuery, Act.bind_apply, hstate, Call.opening]
  | parse q eh => simp [Call.run, FSM.parse, Act.bind_apply, hstate, Call.opening]

/-- The messages that a step writes are noted as the request that it accepts. -/
theorem step_notes {label : Label} (prepare : Preparing) (hsound : Sound w)
    (hstep : (AsyncConnection.machine ext).step w label = some (w', es)) (o : Orders) :
    (said es).foldl (Orders.note prepare) o =
      (Entry.request? ⟨label, label.rejected w, es⟩).toList.foldl (Orders.ask prepare) o := by
  cases step_cases hsound hstep with
  | connect option h => rfl
  | close h => rfl
  | reject c hc hstate => simp [Entry.request?, Label.rejected, hc, hstate]
  | accept c hc hstate fsm _ _ msg wh _ _ _ =>
      have hopening := accept_opening c hc hstate
      rw [Option.some.inj hstep] at hopening
      rw [hopening]
      simp [Entry.request?, Label.rejected, hc, hstate, Orders.note_opening]
  | complete i r call _ _ h _ hres =>
      exact o.foldl_note_of_not_request prepare hres.no_request

/-- What was said is understood as what was asked for. -/
def Minded (ext : Externals ρ) (prepare : Preparing) (results : ResultId → ρ)
    (labels : List Label) (w : World (List ConnCall) ρ) (events : List Event) : Prop :=
  (AsyncConnection.machine ext).exec (World.init results) labels = some (w, events) ∧
    ∃ s, Conversing w events s ∧
      Understood s (((said events).map Message.fields).foldl (Server.read prepare) .init)
        ((accepted ext (World.init results) labels).foldl (Orders.ask prepare) .init)

theorem Minded.step {prepare : Preparing} {results : ResultId → ρ} {labels : List Label}
    {label : Label} (hminded : Minded ext prepare results labels w events) (hsound : Sound w)
    (hcond : Orderly w label)
    (hstep : (AsyncConnection.machine ext).step w label = some (w', es)) :
    Minded ext prepare results (labels ++ [label]) w' (events ++ es) := by
  obtain ⟨hexec, s, hconv, hunder⟩ := hminded
  obtain ⟨s', hconv'⟩ := hconv.step hsound hcond hstep
  have htold := hconv'.told
  rw [said_append, Speaker.sayAll_append hconv.told] at htold
  refine ⟨?_, s', hconv', ?_⟩
  · rw [Machine.exec_append hexec]
    simp [Machine.exec, hstep]
  · rw [said_append, List.map_append, List.foldl_append, accepted_snoc hexec hstep,
      List.foldl_append, ← step_notes prepare hsound hstep]
    exact hunder.sayAll htold

end Lapq
