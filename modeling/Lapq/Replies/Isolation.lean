import Lapq.Replies.Session

/-!
Which result objects the operations of a session call. `m_result` is set by both
forms of `exec` and left alone by `parse`, so an error response to a `parse` goes
to the result object of the request before it.
-/

namespace Lapq

open Bytes Backend

variable {ρ : Type} {ext : Externals ρ}

namespace Backend

def isError : Backend → Bool
  | .errorResponse _ => true
  | _ => false

/-- What a server may answer to a `Parse` before its `ReadyForQuery`. -/
def AnswersParse : Backend → Prop
  | .parseComplete | .noticeResponse _ | .errorResponse _ | .other .. => True
  | _ => False

theorem AnswersParse.quiet {msg : Backend} (h : msg.AnswersParse) (herror : msg.isError = false) :
    msg.calls = [] := by
  cases msg with
  | errorResponse fields => cases herror
  | parseComplete => rfl
  | noticeResponse fields => rfl
  | other type bytes => rfl
  | authentication code data => exact h.elim
  | parameterStatus name value => exact h.elim
  | backendKeyData pid key => exact h.elim
  | readyForQuery status => exact h.elim
  | rowDescription fs => exact h.elim
  | dataRow columns => exact h.elim
  | commandComplete tag => exact h.elim
  | bindComplete => exact h.elim
  | parameterDescription oids => exact h.elim
  | closeComplete => exact h.elim

end Backend

def Reply.hasError (reply : Reply) : Bool := reply.messages.any Backend.isError

namespace Exchange

/-- A request with a well-formed reply whose calls a result object takes. A
reply has rows only if the request came with a place for them. -/
structure Answered (ext : Externals ρ) (x : Exchange) : Prop where
  request : x.call.isRequest = true
  reply : x.reply.WellFormed (x.call.opened FSM.init).state
  parse : x.call.isParse = true → ∀ msg ∈ x.reply.messages, msg.AnswersParse
  rows : x.call.result = none → ∀ msg ∈ x.reply.messages, msg.isRow = false
  taken : ∀ r, ∃ r', ext.base.run (x.reply.messages.flatMap Backend.calls) r = .ok r'

/-- Result sets take every reply whose rows fit their descriptions. -/
theorem taken_of_rowsFit {V : Type} (decode : FieldSpec → Pg.DecodeFunction V)
    (read : FieldSpec → Buffer → V) (messages : List Backend)
    (hrows : RowsFit decode read none messages) (r : ResultSet V) :
    ∃ r', (ResultSet.base decode).run (messages.flatMap Backend.calls) r = .ok r' :=
  ⟨_, (run_messages decode read messages).2 r hrows⟩

end Exchange

/-- An operation calls no result object but the one it was given, and no more
once its handler was told. -/
def Isolated (c : Call) (events : List Event) : Prop :=
  (∀ id call, Event.result id call ∈ events → c.result = some id) ∧
    ∃ before ec state, events = before ++ [.handler c.handler ec state]

/-- The calls on result objects along a reply. -/
theorem result_mem_events {state : State} {result : Option ResultId} {h : HandlerId}
    {reply : Reply} {writes : List Message} {id : ResultId} {call : ResultCall} :
    Event.result id call ∈ writes.map Event.write ++ reply.events state result h ↔
      result = some id ∧ call ∈ reply.messages.flatMap Backend.calls := by
  unfold Reply.events Reply.messageEvents
  cases result with
  | none => simp
  | some own =>
      simp only [List.mem_append, List.mem_map, List.mem_flatMap, List.mem_cons,
        List.not_mem_nil, reduceCtorEq, and_false, exists_false, false_or, or_false,
        Event.result.injEq, Option.some.injEq]
      constructor
      · rintro ⟨msg, hmsg, call', hcall, rfl, rfl⟩
        exact ⟨rfl, msg, hmsg, hcall⟩
      · rintro ⟨rfl, msg, hmsg, hcall⟩
        exact ⟨msg, hmsg, call, hcall, rfl, rfl⟩

/-- Whether a request, in a state machine whose last result object is `result`,
keeps to its own. -/
def Exchange.Keeps (result : Option ResultId) (x : Exchange) : Prop :=
  x.call.isParse = true → result = none ∨ x.reply.hasError = false

/-- The calls on a result object that the reply to a `parse` leads to. -/
theorem parse_calls {reply : Reply} (hanswers : ∀ msg ∈ reply.messages, msg.AnswersParse) :
    (∃ call, call ∈ reply.messages.flatMap Backend.calls) ↔ reply.hasError = true := by
  unfold Reply.hasError
  rw [List.any_eq_true]
  constructor
  · rintro ⟨call, hcall⟩
    obtain ⟨msg, hmsg, hmem⟩ := List.mem_flatMap.mp hcall
    refine ⟨msg, hmsg, ?_⟩
    by_contra hother
    rw [(hanswers msg hmsg).quiet (Bool.eq_false_iff.mpr hother)] at hmem
    cases hmem
  · rintro ⟨msg, hmsg, herror⟩
    obtain ⟨fields, rfl⟩ : ∃ fields, msg = .errorResponse fields := by
      cases msg <;> first | exact ⟨_, rfl⟩ | cases herror
    exact ⟨_, List.mem_flatMap.mpr ⟨_, hmsg, List.mem_singleton.mpr rfl⟩⟩

theorem isolated_iff_keeps {x : Exchange} (hx : x.Answered ext) (fsm : FSM) :
    Isolated x.call (x.call.writes.map Event.write ++
        x.reply.events (x.call.opened fsm).state (x.call.opened fsm).result x.call.handler) ↔
      x.Keeps fsm.result := by
  have hlast : ∃ before ec state, x.call.writes.map Event.write ++
      x.reply.events (x.call.opened fsm).state (x.call.opened fsm).result x.call.handler =
        before ++ [.handler x.call.handler ec state] :=
    ⟨_, _, _, by rw [Reply.events, List.append_cons, ← List.append_assoc, ← List.append_assoc]⟩
  unfold Isolated Exchange.Keeps
  simp only [hlast, and_true, result_mem_events]
  obtain ⟨call, reply⟩ := x
  cases call with
  | connect option eh => cases hx.request
  | close eh => cases hx.request
  | exec q res eh =>
      constructor
      · rintro _ ⟨⟩
      · rintro _ id call ⟨hresult, _⟩
        exact hresult
  | execQuery q res eh =>
      constructor
      · rintro _ ⟨⟩
      · rintro _ id call ⟨hresult, _⟩
        exact hresult
  | parse q eh =>
      have hcalls := parse_calls (hx.parse rfl)
      simp only [Call.opened, Call.isParse, Call.result, forall_const]
      constructor
      · intro hnone
        cases hresult : fsm.result with
        | none => exact Or.inl rfl
        | some id =>
            right
            apply Bool.eq_false_iff.mpr
            intro herror
            obtain ⟨call, hcall⟩ := hcalls.mpr herror
            cases hnone id call ⟨hresult, hcall⟩
      · rintro hkeeps id call ⟨hresult, hcall⟩
        rcases hkeeps with hnone | hquiet
        · rw [hnone] at hresult
          cases hresult
        · rw [hcalls.mp ⟨call, hcall⟩] at hquiet
          cases hquiet

/-- An exchange ends in `IDLE`, with the events of its reply and its result
object, or the one before, in place. -/
theorem drive_answered (mode : Mode) {x : Exchange} (hx : x.Answered ext) (w : World Peer ρ)
    (hstate : w.fsm.state = .IDLE) (hp : w.net.Faultless) (rest : Buffer)
    (hinput : w.net.input = x.reply.wire ++ rest) (n : Nat)
    (hn : 2 * w.net.input.length + 6 ≤ n) :
    ∃ results steps, mode.drive ext n x.call w =
      ⟨.ok (), ⟨{ x.call.opened w.fsm with state := .IDLE }, results, w.net.later rest steps⟩,
        x.call.writes.map Event.write ++
          x.reply.events (x.call.opened w.fsm).state (x.call.opened w.fsm).result
            x.call.handler⟩ := by
  have hreply : x.reply.WellFormed (x.call.opened w.fsm).state := by
    rw [opened_state x.call hx.request w.fsm]
    exact hx.reply
  obtain ⟨results, habs⟩ : ∃ results, Reply.Absorbed ext (x.call.opened w.fsm).result w.results
      x.reply.messages results := by
    cases hresult : (x.call.opened w.fsm).result with
    | some id =>
        obtain ⟨r, hr⟩ := hx.taken (w.results id)
        exact ⟨_, r, hr, rfl⟩
    | none =>
        refine ⟨w.results, hx.rows ?_, rfl⟩
        obtain ⟨call, reply⟩ := x
        cases call with
        | connect option eh => cases hx.request
        | close eh => cases hx.request
        | exec q res eh => exact hresult
        | execQuery q res eh => exact hresult
        | parse q eh => rfl
  obtain ⟨steps, hdrive⟩ := drive_reply ext mode x.call hx.request w hstate hp x.reply rest hinput
    hreply habs n hn
  exact ⟨results, steps, hdrive⟩

/-- No `parse` of a session meets an error response while the result object of
an earlier request is in place. -/
def Guarded : Option ResultId → List Exchange → Prop
  | _, [] => True
  | result, x :: exchanges =>
      x.Keeps result ∧ Guarded (if x.call.isParse then result else x.call.result) exchanges

theorem isolated_iff_guarded (mode : Mode) (exchanges : List Exchange)
    (hanswered : ∀ x ∈ exchanges, x.Answered ext) (w : World Peer ρ)
    (hstate : w.fsm.state = .IDLE) (hp : w.net.Faultless) (rest : Buffer)
    (hinput : w.net.input = Exchange.stream exchanges ++ rest) (n : Nat)
    (hn : 2 * w.net.input.length + 6 ≤ n) :
    List.Forall₂ (fun x o => Isolated x.call o.events) exchanges
        (outcomes ext mode n w (exchanges.map Exchange.call)) ↔
      Guarded w.fsm.result exchanges := by
  induction exchanges generalizing w with
  | nil => simp [outcomes, Guarded]
  | cons x exchanges ih =>
      have hx := hanswered x List.mem_cons_self
      have hbytes : w.net.input = x.reply.wire ++ (Exchange.stream exchanges ++ rest) := by
        rw [hinput]
        simp [Exchange.stream]
      obtain ⟨results, steps, hdrive⟩ := drive_answered mode hx w hstate hp _ hbytes n hn
      have hmore := ih (fun y hy => hanswered y (List.mem_cons_of_mem _ hy))
        (mode.drive ext n x.call w).world (by rw [hdrive])
        (by rw [hdrive]; exact hp.later _ _) (by rw [hdrive]; rfl) (by
          have hlength := congrArg List.length hbytes
          rw [List.length_append] at hlength
          rw [hdrive]
          simp only [Peer.later]
          omega)
      rw [List.map_cons, outcomes, List.forall₂_cons, hmore, hdrive, isolated_iff_keeps hx, Guarded,
        opened_result hx.request]

/-- The operations of a session call no result object but their own exactly when
every `parse` that is answered with an error comes before the first request that
left a result object in place. It is said of replies without NULL columns. -/
theorem results_isolated_iff (ext : Externals ρ) (mode : Mode) (exchanges : List Exchange)
    (hanswered : ∀ x ∈ exchanges, x.Answered ext) (w : World Peer ρ)
    (hstate : w.fsm.state = .IDLE) (hresult : w.fsm.result = none) (hp : w.net.Faultless)
    (rest : Buffer) (hinput : w.net.input = Exchange.stream exchanges ++ rest) (n : Nat)
    (hn : 2 * w.net.input.length + 6 ≤ n) :
    List.Forall₂ (fun x o => Isolated x.call o.events) exchanges
        (outcomes ext mode n w (exchanges.map Exchange.call)) ↔
      Guarded none exchanges := by
  rw [← hresult]
  exact isolated_iff_guarded mode exchanges hanswered w hstate hp rest hinput n hn

/-- A statement that the server refuses to prepare. -/
def failedParse : Exchange where
  call := .parse ⟨ascii "selec", ascii "s", []⟩ 5
  reply := ⟨[.errorResponse [(SQLErrorField.code, ascii "42601")]], 'I'.toUInt8⟩

theorem failedParse_answered : failedParse.Answered (Externals.standard fun _ => []) := by
  refine ⟨rfl, ?_, ?_, ?_, ?_⟩
  · intro msg hmsg
    rw [List.mem_singleton.mp hmsg]
    refine ⟨⟨?_, by decide⟩, trivial⟩
    intro f hf
    rw [List.mem_singleton.mp hf]
    exact ⟨by decide, by decide⟩
  · intro _ msg hmsg
    rw [List.mem_singleton.mp hmsg]
    trivial
  · intro _ msg hmsg
    rw [List.mem_singleton.mp hmsg]
    rfl
  · exact Exchange.taken_of_rowsFit _ (fun _ bytes => .text bytes) _ trivial

theorem textExchange_answered : textExchange.Answered (Externals.standard fun _ => []) := by
  refine ⟨rfl, textExchange_valid.reply, ?_, ?_, ?_⟩
  · rintro ⟨⟩
  · rintro ⟨⟩
  · exact Exchange.taken_of_rowsFit _ _ _ textExchange_valid.rows

/-- A failed `parse` before the first query does no harm. -/
theorem results_isolated_iff_parse_first :
    List.Forall₂ (fun x o => Isolated x.call o.events) [failedParse, textExchange]
      (outcomes (Externals.standard fun _ => []) .async
        (2 * (Exchange.stream [failedParse, textExchange]).length + 6)
        (connected (Exchange.stream [failedParse, textExchange]))
        ([failedParse, textExchange].map Exchange.call)) := by
  refine (results_isolated_iff _ .async _ ?_ _ rfl rfl (fun _ => rfl) []
    (List.append_nil _).symm _ (le_refl _)).mpr ⟨fun _ => Or.inl rfl, ?_, trivial⟩
  · intro x hx
    rcases List.mem_cons.mp hx with rfl | hmem
    · exact failedParse_answered
    · rw [List.mem_singleton.mp hmem]
      exact textExchange_answered
  · rintro ⟨⟩

/-- After a query, the error of a failed `parse` goes to the result object of
the query. -/
theorem results_not_isolated :
    ¬ ∀ exchanges : List Exchange,
      (∀ x ∈ exchanges, x.Answered (Externals.standard fun _ => [])) →
      List.Forall₂ (fun x o => Isolated x.call o.events) exchanges
        (outcomes (Externals.standard fun _ => []) .blocking
          (2 * (Exchange.stream exchanges).length + 6) (connected (Exchange.stream exchanges))
          (exchanges.map Exchange.call)) := by
  intro hall
  have hanswered : ∀ x ∈ [textExchange, failedParse],
      x.Answered (Externals.standard fun _ => []) := by
    intro x hx
    rcases List.mem_cons.mp hx with rfl | hmem
    · exact textExchange_answered
    · rw [List.mem_singleton.mp hmem]
      exact failedParse_answered
  have hiff := isolated_iff_guarded .blocking _ hanswered
    (connected (Exchange.stream [textExchange, failedParse])) rfl (fun _ => rfl) []
    (List.append_nil _).symm _ (le_refl _)
  obtain ⟨_, hkeeps, _⟩ := hiff.mp (hall _ hanswered)
  rcases hkeeps rfl with hnone | hquiet
  · cases hnone
  · cases hquiet

end Lapq
