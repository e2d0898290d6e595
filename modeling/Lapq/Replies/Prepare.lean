import Lapq.Replies.Isolation

/-!
What `Connection::prepare` returns. An error response to a `Parse` is handed to
the result object that happens to be in place and then forgotten; the handler
gets the verdict on the `ReadyForQuery` that follows.
-/

namespace Lapq

open Bytes Backend

variable {ν ρ : Type} {ext : Externals ρ}

/-- The code given to a handler, if the event is a call of it. -/
def Event.codeFor? (h : HandlerId) : Event → Option ErrorCode
  | .handler own ec _ => if own = h then some ec else none
  | _ => none

/-- What a blocking operation returns: the handler `h` it passes stores the code
it gets in a local variable, which starts as a success. -/
def Outcome.returned (h : HandlerId) (o : Outcome ν ρ Unit) : Except Abort ErrorCode :=
  o.value.map fun _ => ((o.events.filterMap (Event.codeFor? h)).getLast?).getD .success

/-- `Connection::prepare`. -/
def Connection.prepare (ext : Externals ρ) (n : Nat) (q : DBQuery) (h : HandlerId)
    (w : World Peer ρ) : Except Abort ErrorCode :=
  ((Call.parse q h).run (Connection.nested ext n) w).returned h

/-- The world after the operations of a session. -/
def Mode.after (ext : Externals ρ) (mode : Mode) (n : Nat) : World Peer ρ → List Call → World Peer ρ
  | w, [] => w
  | w, c :: calls => Mode.after ext mode n (mode.drive ext n c w).world calls

/-- Operations that were answered leave the connection ready for the next. -/
theorem after_answered (mode : Mode) (history : List Exchange)
    (hhistory : ∀ x ∈ history, x.Answered ext) (w : World Peer ρ) (hstate : w.fsm.state = .IDLE)
    (hp : w.net.Faultless) (rest : Buffer)
    (hinput : w.net.input = Exchange.stream history ++ rest) (n : Nat)
    (hn : 2 * w.net.input.length + 6 ≤ n) :
    let last := mode.after ext n w (history.map Exchange.call)
    last.fsm.state = .IDLE ∧ last.net.Faultless ∧ last.net.input = rest := by
  induction history generalizing w with
  | nil => exact ⟨hstate, hp, hinput⟩
  | cons x history ih =>
      have hbytes : w.net.input = x.reply.wire ++ (Exchange.stream history ++ rest) := by
        rw [hinput]
        simp [Exchange.stream]
      obtain ⟨results, steps, hdrive⟩ :=
        drive_answered mode (hhistory x List.mem_cons_self) w hstate hp _ hbytes n hn
      have hlength := congrArg List.length hbytes
      rw [List.length_append] at hlength
      apply ih (fun y hy => hhistory y (List.mem_cons_of_mem _ hy))
        (mode.drive ext n x.call w).world
      · rw [hdrive]
      · rw [hdrive]
        exact hp.later _ _
      · rw [hdrive]
        rfl
      · rw [hdrive]
        simp only [Peer.later]
        omega

/-- Whatever is answered, the handler of a request gets the success of the
`ReadyForQuery`. -/
theorem returned_reply (state : State) (result : Option ResultId) (h : HandlerId) (reply : Reply)
    (writes : List Message) (w : World ν ρ) :
    (⟨.ok (), w, writes.map Event.write ++ reply.events state result h⟩ :
      Outcome ν ρ Unit).returned h = .ok .success := by
  unfold Outcome.returned Reply.events
  simp [← List.append_assoc, List.filterMap_append, Event.codeFor?, Except.map]

/-- So a `prepare` that is answered returns a success. -/
theorem prepare_answered {q : DBQuery} {h : HandlerId} {reply : Reply}
    (hreply : (⟨.parse q h, reply⟩ : Exchange).Answered ext) (w : World Peer ρ)
    (hstate : w.fsm.state = .IDLE) (hp : w.net.Faultless) (rest : Buffer)
    (hinput : w.net.input = reply.wire ++ rest) (n : Nat)
    (hn : 2 * w.net.input.length + 6 ≤ n) : Connection.prepare ext n q h w = .ok .success := by
  obtain ⟨results, steps, hdrive⟩ :=
    drive_answered .blocking hreply w hstate hp rest hinput n hn
  unfold Connection.prepare
  change (Mode.blocking.drive ext n (.parse q h) w).returned h = _
  rw [hdrive]
  exact returned_reply _ _ h reply _ _

/-- After any operations, a `prepare` tells whether the statement was prepared
exactly when it was: an answer without a `ParseComplete` has an error, and no
error is told. -/
theorem prepare_reports_iff (ext : Externals ρ) (history : List Exchange)
    (hhistory : ∀ x ∈ history, x.Answered ext) (q : DBQuery) (h : HandlerId) (reply : Reply)
    (hreply : (⟨.parse q h, reply⟩ : Exchange).Answered ext)
    (hanswer : .parseComplete ∈ reply.messages ∨ reply.hasError = true)
    (w : World Peer ρ) (hstate : w.fsm.state = .IDLE) (hp : w.net.Faultless) (rest : Buffer)
    (hinput : w.net.input = Exchange.stream history ++ (reply.wire ++ rest)) (n : Nat)
    (hn : 2 * w.net.input.length + 6 ≤ n) :
    let last := Mode.blocking.after ext n w (history.map Exchange.call)
    ((∃ ec, Connection.prepare ext n q h last = .ok ec ∧ ec.isError = false) ↔
        .parseComplete ∈ reply.messages ∧ reply.hasError = false) ↔
      reply.hasError = false := by
  obtain ⟨hidle, hfaultless, hleft⟩ :=
    after_answered .blocking history hhistory w hstate hp _ hinput n hn
  intro last
  have hlength := congrArg List.length hinput
  rw [List.length_append] at hlength
  have hreturns := prepare_answered hreply last hidle hfaultless rest hleft n
    (by rw [hleft]; omega)
  have hempty : ∃ ec, Connection.prepare ext n q h last = .ok ec ∧ ec.isError = false :=
    ⟨_, hreturns, rfl⟩
  constructor
  · intro hreports
    exact (hreports.mp hempty).2
  · intro hquiet
    have hcomplete : .parseComplete ∈ reply.messages := by
      rcases hanswer with hcomplete | herror
      · exact hcomplete
      · rw [hquiet] at herror
        cases herror
    exact ⟨fun _ => ⟨hcomplete, hquiet⟩, fun _ => hempty⟩

/-- A statement that the server prepares. -/
def soundParse : Exchange where
  call := .parse ⟨ascii "select 1", ascii "s", []⟩ 5
  reply := ⟨[.parseComplete], 'I'.toUInt8⟩

theorem soundParse_answered : soundParse.Answered (Externals.standard fun _ => []) := by
  refine ⟨rfl, ?_, ?_, ?_, ?_⟩
  · intro msg hmsg
    rw [List.mem_singleton.mp hmsg]
    exact ⟨⟨trivial, by decide⟩, rfl⟩
  · intro _ msg hmsg
    rw [List.mem_singleton.mp hmsg]
    trivial
  · intro _ msg hmsg
    rw [List.mem_singleton.mp hmsg]
    rfl
  · exact Exchange.taken_of_rowsFit _ (fun _ bytes => .text bytes) _ trivial

theorem prepare_reports_iff_sound :
    ∃ ec, Connection.prepare (Externals.standard fun _ => [])
      (2 * (soundParse.reply.wire).length + 6) ⟨ascii "select 1", ascii "s", []⟩ 5
      (connected soundParse.reply.wire) = .ok ec ∧ ec.isError = false := by
  have hiff := prepare_reports_iff (Externals.standard fun _ => []) [] (by simp)
    ⟨ascii "select 1", ascii "s", []⟩ 5 soundParse.reply soundParse_answered
    (Or.inl List.mem_cons_self) (connected soundParse.reply.wire) rfl (fun _ => rfl) []
    (List.append_nil _).symm _ (le_refl _)
  exact (hiff.mpr rfl).mpr ⟨List.mem_cons_self, rfl⟩

/-- A statement that the server refuses is prepared without an error. -/
theorem prepare_not_reports :
    ¬ ∀ (q : DBQuery) (h : HandlerId) (reply : Reply),
      (⟨.parse q h, reply⟩ : Exchange).Answered (Externals.standard fun _ => []) →
      (.parseComplete ∈ reply.messages ∨ reply.hasError = true) →
      ((∃ ec, Connection.prepare (Externals.standard fun _ => []) (2 * reply.wire.length + 6) q h
          (connected reply.wire) = .ok ec ∧ ec.isError = false) ↔
        .parseComplete ∈ reply.messages ∧ reply.hasError = false) := by
  intro hall
  have hwrong := hall ⟨ascii "selec", ascii "s", []⟩ 5 failedParse.reply failedParse_answered
    (Or.inr rfl)
  have hreturns := prepare_answered failedParse_answered (connected failedParse.reply.wire) rfl
    (fun _ => rfl) [] (List.append_nil _).symm _ (le_refl _)
  cases (hwrong.mp ⟨_, hreturns, rfl⟩).2

end Lapq
