import Lapq.Runs.Orders

/-!
What the server runs, from the bytes that have reached it. They may end in the
middle of a message, and then the whole messages before it are understood: the
server runs what the user asked for, in that order, and nothing else.
-/

namespace Lapq

open Bytes

variable {ρ : Type} {ext : Externals ρ} {w w' : World (List ConnCall) ρ}
  {events es : List Event} {labels : List Label} {s s' : Speaker} {msg : Message}
  {msgs : List Message}

/-! A stream that is still coming in. -/

namespace Decoder

/-- The fields of the whole frames that have arrived. -/
def arrived (untyped : Nat) (bytes : Buffer) : List Fields :=
  (Reader.arrived (fun k => frame (untyped ≤ k)) (bytes.length + 1) 0 bytes).filterMap fun f =>
    Reader.whole (body f.mtype) f.body

end Decoder

/-- The messages of an exchange that are still to come. -/
def Phase.Sendable : Phase → Prop
  | .bound name portal =>
      (Message.describe name portal).Sendable ∧ (Message.execute portal).Sendable
  | .described portal => (Message.execute portal).Sendable
  | .start | .ready | .parsed | .executed => True

theorem Speaker.say_untyped (hsay : s.say msg = some s') (huntyped : msg.untyped = true) :
    s.phase = .start ∧ ∃ option, msg = .startUp option := by
  have hturn := Speaker.turn hsay
  generalize s.phase = phase, s'.phase = phase' at hturn
  cases hturn with
  | startUp option => exact ⟨rfl, option, rfl⟩
  | _ => cases huntyped

def Opens (labels : List Label) (msg : Message) : Prop :=
  ∃ c, Label.call c ∈ labels ∧ c.opening = msg

theorem Opens.snoc (hopens : Opens labels msg) (label : Label) : Opens (labels ++ [label]) msg := by
  obtain ⟨c, hc, hmsg⟩ := hopens
  exact ⟨c, List.mem_append_left _ hc, hmsg⟩

/-- The start-up message and the first message of each request are those of a call. -/
structure Called (labels : List Label) (w : World (List ConnCall) ρ) (events : List Event) :
    Prop where
  said : ∀ msg ∈ said events, msg.isRequest = true ∨ msg.untyped = true → Opens labels msg
  connecting : ∀ option, .connect (.connected option) ∈ w.net →
    Opens labels (.startUp option)

theorem Called.init (results : ResultId → ρ) : Called [] (World.init results) [] :=
  ⟨by simp, by simp [World.init]⟩

theorem Called.extend {label : Label} (hcalled : Called labels w events)
    (hsaid : ∀ msg ∈ Lapq.said es, msg.isRequest = true ∨ msg.untyped = true →
      Opens (labels ++ [label]) msg)
    (hnet : ∀ option, .connect (.connected option) ∈ w'.net →
      .connect (.connected option) ∈ w.net ∨ Opens (labels ++ [label]) (.startUp option)) :
    Called (labels ++ [label]) w' (events ++ es) := by
  refine ⟨?_, ?_⟩
  · intro msg hmsg hkind
    rw [said_append] at hmsg
    rcases List.mem_append.mp hmsg with hold | hnew
    · exact (hcalled.said msg hold hkind).snoc label
    · exact hsaid msg hnew hkind
  · intro option hmem
    rcases hnet option hmem with hold | hnew
    · exact (hcalled.connecting option hold).snoc label
    · exact hnew

section Completion

variable {h : HandlerId} {r : Completion} {call : ConnCall}

/-- A completion connects nothing. -/
theorem Resumes.no_connect (hres : Resumes h w r call w' es) (eh : EHandler)
    (hmem : .connect eh ∈ w'.net) : .connect eh ∈ w.net := by
  cases hres with
  | reported _ ec _ => exact hmem
  | lost _ e => exact hmem
  | wrote _ msg wh _ _ _ _ _ => simpa using hmem
  | reading msg wh _ => simpa [ConnCall.header] using hmem
  | header len head _ _ _ _ => simpa using hmem
  | closed msg ec => exact hmem
  | dispatched len head hok o hreact =>
      rcases hreact with ⟨_, rfl⟩ | ⟨_, hreact⟩
      · exact hmem
      cases hreact with
      | goOn results es hes => simpa [ConnCall.header] using hmem
      | authOk _ _ => simpa [ConnCall.header] using hmem
      | md5 _ _ msg _ => simpa [ConnCall.header] using hmem
      | report ec _ => exact hmem
      | authError _ _ ec => exact hmem
      | ready _ _ ec => exact hmem
      | ended _ ec => exact hmem
      | aborted e results es hes => exact hmem

/-- A message without a type byte is all that a completion writes, and it is one of an
operation. -/
theorem Resumes.said_untyped (hres : Resumes h w r call w' es) (hmsg : msg ∈ said es)
    (huntyped : msg.untyped = true) :
    es = [.write msg] ∧ call.isLive = true := by
  cases hres with
  | wrote hcall msg' wh _ _ _ _ _ =>
      cases List.mem_singleton.mp hmsg
      exact ⟨rfl, by simp [ConnCall.isLive, hcall]⟩
  | reported _ ec _ => simp at hmsg
  | lost _ e => simp at hmsg
  | reading msg wh _ => simp at hmsg
  | header len head _ _ _ _ => simp at hmsg
  | closed msg ec => simp at hmsg
  | dispatched len head hok o hreact =>
      rcases hreact with ⟨_, rfl⟩ | ⟨_, hreact⟩
      · simp at hmsg
      cases hreact with
      | md5 _ _ msg' hpassword =>
          obtain ⟨text, rfl⟩ := hpassword
          cases List.mem_singleton.mp hmsg
          cases huntyped
      | goOn results es hes => simp [hes.said] at hmsg
      | aborted e results es hes => simp [hes.said] at hmsg
      | authOk _ _ => simp at hmsg
      | report ec _ => simp at hmsg
      | authError _ _ ec => simp at hmsg
      | ready _ _ ec => simp at hmsg
      | ended _ ec => simp at hmsg

/-- No write is outstanding for a speaker that has said nothing. -/
theorem ConnCall.Fits.start {query : Option DBQuery} (hfits : call.Fits query .start) :
    ∃ eh, call = .connect eh := by
  cases call with
  | connect eh => exact ⟨eh, rfl⟩
  | read len rh => cases hfits
  | write m wh =>
      cases wh with
      | bindWritten eh =>
          obtain ⟨q, _, hphase⟩ := hfits
          cases hphase
      | describeWritten eh =>
          obtain ⟨q, _, hphase⟩ := hfits
          cases hphase
      | _ => cases hfits

/-- A completion that writes the start-up message is that of the connect. -/
theorem Conversing.starts {i : Nat} (hconv : Conversing w events s)
    (hconv' : Conversing w' (events ++ es) s') (hsound : Sound w) (hcall : w.net[i]? = some call)
    (hres : Resumes h { w with net := w.net.eraseIdx i } r call w' es)
    (hstep : (AsyncConnection.machine ext).step w (.complete i r) = some (w', es))
    (hmsg : msg ∈ said es) (huntyped : msg.untyped = true) :
    ∃ option, call = .connect (.connected option) ∧ msg = .startUp option := by
  obtain ⟨rfl, hlive⟩ := hres.said_untyped hmsg huntyped
  have htold := hconv'.told
  rw [said_append, Speaker.sayAll_append hconv.told] at htold
  have hstart := (Speaker.say_untyped (by simpa using htold) huntyped).1
  obtain ⟨live, hchain, hfits, _⟩ := hconv.chain
  obtain ⟨rfl, _⟩ := chain_complete hcall hlive hchain
  have hfit := hfits call rfl
  rw [hstart] at hfit
  obtain ⟨eh, rfl⟩ := hfit.start
  have hplain := hsound.plain _ (List.mem_of_getElem? hcall)
  cases eh with
  | sslConnected option eh => cases hplain
  | handshaken option eh => cases hplain
  | connected option =>
      refine ⟨option, rfl, ?_⟩
      simp only [AsyncConnection.machine, hcall] at hstep
      split at hstep
      · have hwritten := congrArg Prod.snd (Option.some.inj hstep)
        simp only [ConnCall.resume, EHandler.run] at hwritten
        split at hwritten
        · simp only [EHandler.fail, Act.callHandler, Act.invoke] at hwritten
          split at hwritten <;> cases hwritten
        · cases hwritten
          rfl
      · cases hstep

end Completion

theorem Called.step {label : Label} (hcalled : Called labels w events)
    (hconv : Conversing w events s) (hconv' : Conversing w' (events ++ es) s') (hsound : Sound w)
    (hstep : (AsyncConnection.machine ext).step w label = some (w', es)) :
    Called (labels ++ [label]) w' (events ++ es) := by
  have hself (c : Call) : Opens (labels ++ [.call c]) c.opening :=
    ⟨c, List.mem_append_right _ (List.mem_singleton_self _), rfl⟩
  cases step_cases hsound hstep with
  | connect option h =>
      apply hcalled.extend (by simp)
      intro option' hmem
      rcases List.mem_append.mp hmem with hold | hnew
      · exact Or.inl hold
      · cases List.mem_singleton.mp hnew
        exact Or.inr (hself (.connect option h))
  | reject c hc hstate => exact hcalled.extend (by simp) fun option hmem => Or.inl hmem
  | accept c hc hstate fsm _ _ msg wh _ _ _ =>
      have hopening := accept_opening c hc hstate
      rw [Option.some.inj hstep] at hopening
      apply hcalled.extend
      · rw [hopening]
        intro m hm _
        rw [List.mem_singleton.mp hm]
        exact hself c
      · intro option hmem
        exact Or.inl (by simpa using hmem)
  | close h =>
      apply hcalled.extend (by simp [Message.isRequest, Message.untyped])
      intro option hmem
      exact Or.inl (by simpa using hmem)
  | complete i r call hcall _ h _ hres =>
      apply hcalled.extend
      · intro m hm hkind
        rcases hkind with hreq | huntyped
        · rw [hres.no_request m hm] at hreq
          cases hreq
        · obtain ⟨option, rfl, rfl⟩ := hconv.starts hconv' hsound hcall hres hstep hm huntyped
          exact (hcalled.connecting option (List.mem_of_getElem? hcall)).snoc _
      · intro option hmem
        exact Or.inl (List.mem_of_mem_eraseIdx (hres.no_connect _ hmem))

/-! What the server runs. -/

/-- The server, once some bytes have arrived. -/
def Server.serve (prepare : Preparing) (bytes : Buffer) : Server :=
  (Decoder.arrived 1 bytes).foldl (Server.read prepare) .init

/-- A statement that is prepared, and one that is refused meanwhile; then the first
is run. -/
def prepared : List Label :=
  logOn .empty 0 ++
    [.call (.parse ⟨ascii "select $1", ascii "a", []⟩ 1), .call (.exec (ascii "select 2") none 2),
      .complete 0 (.sent (.parse (ascii "a") (ascii "select $1") [])), .complete 0 (.sent .sync),
      .complete 0 (.delivered [90, 0, 0, 0, 5]), .complete 0 (.delivered [73]),
      .call (.execQuery ⟨[], ascii "a", [ascii "7"]⟩ none 3),
      .complete 0 (.sent (.bind (ascii "a") (ascii "aport") [ascii "7"])),
      .complete 0 (.sent (.describe (ascii "a") (ascii "aport")))]

end Lapq
