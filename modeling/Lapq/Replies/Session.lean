import Lapq.Replies.Assemble

/-!
Sessions: operations one after the other on one connection, blocking or
asynchronous, each issued when the handler of the one before has run, against a
server that answers each with one reply.
-/

namespace Lapq

open Bytes Backend

variable {ρ V : Type} {ext : Externals ρ}

/-- How the operations of a session are driven. -/
inductive Mode where
  | blocking
  | async
deriving DecidableEq, Repr

/-- An operation from the call to the end of its callbacks. `n` is the depth of
callbacks or the number of completions that is followed. -/
def Mode.drive (ext : Externals ρ) (n : Nat) (c : Call) (w : World Peer ρ) :
    Mode → Outcome Peer ρ Unit
  | .blocking => c.run (Connection.nested ext n) w
  | .async => AsyncConnection.complete ext n c w

/-- The outcomes of the operations of a session. -/
def outcomes (ext : Externals ρ) (mode : Mode) (n : Nat) :
    World Peer ρ → List Call → List (Outcome Peer ρ Unit)
  | _, [] => []
  | w, c :: calls =>
      mode.drive ext n c w :: outcomes ext mode n (mode.drive ext n c w).world calls

theorem messages_length_le (messages : List Backend) :
    5 * messages.length ≤ (messages.flatMap Backend.wire).length := by
  induction messages with
  | nil => simp
  | cons msg messages ih =>
      simp only [List.length_cons, List.flatMap_cons, List.length_append, Backend.wire,
        List.cons_append, be32_length]
      omega

/-- Both modes drive a request in `IDLE` to the same end. -/
theorem drive_eq_complete (ext : Externals ρ) (mode : Mode) (c : Call) (hc : c.isRequest = true)
    (w : World Peer ρ) (hstate : w.fsm.state = .IDLE) (n : Nat)
    (hn : 2 * w.net.input.length + 6 ≤ n) :
    mode.drive ext n c w = AsyncConnection.complete ext n c w := by
  cases mode with
  | async => rfl
  | blocking => exact (request_drain ext c hc w.fsm w.results w.net hstate n hn).1

/-- A request in `IDLE` against a peer that answers it, in either mode. -/
theorem drive_reply (ext : Externals ρ) (mode : Mode) (c : Call) (hc : c.isRequest = true)
    (w : World Peer ρ) (hstate : w.fsm.state = .IDLE) (hp : w.net.Faultless) (reply : Reply)
    (rest : Buffer) (hinput : w.net.input = reply.wire ++ rest)
    (hreply : reply.WellFormed (c.opened w.fsm).state) {results' : ResultId → ρ}
    (habs : Reply.Absorbed ext (c.opened w.fsm).result w.results reply.messages results')
    (n : Nat) (hn : 2 * w.net.input.length + 6 ≤ n) :
    ∃ steps, mode.drive ext n c w =
      ⟨.ok (), ⟨{ c.opened w.fsm with state := .IDLE }, results', w.net.later rest steps⟩,
        c.writes.map Event.write ++
          reply.events (c.opened w.fsm).state (c.opened w.fsm).result c.handler⟩ := by
  have hbound : c.writes.length + 2 * reply.messages.length + 2 ≤ n := by
    have hwrites : c.writes.length ≤ 4 := by
      cases c <;> simp [Call.writes]
    have hlength := congrArg List.length hinput
    have hmessages := messages_length_le reply.messages
    simp only [Reply.wire, List.length_append] at hlength
    omega
  rw [drive_eq_complete ext mode c hc w hstate n hn]
  exact complete_reply ext c hc w hstate hp reply rest hinput hreply habs n hbound

/-- A request and the reply of the server to it. -/
structure Exchange where
  call : Call
  reply : Reply

/-- Messages dispatch and call the result object, and no more. -/
theorem filter_messageEvents (p : Event → Bool)
    (hdispatch : ∀ state head body, p (.dispatch state head body) = false)
    (hresult : ∀ id call, p (.result id call) = false) (state : State)
    (result : Option ResultId) (messages : List Backend) :
    (messages.flatMap (Reply.messageEvents state result)).filter p = [] := by
  apply List.filter_eq_nil_iff.mpr
  intro e he
  obtain ⟨msg, _, hmem⟩ := List.mem_flatMap.mp he
  rcases List.mem_cons.mp hmem with rfl | hcall
  · simp [hdispatch]
  · cases result with
    | none => simp at hcall
    | some id =>
        obtain ⟨call, _, rfl⟩ := List.mem_map.mp hcall
        simp [hresult]

theorem writes_not_handlers (writes : List Message) :
    (writes.map Event.write).filter Event.isHandler = [] := by
  apply List.filter_eq_nil_iff.mpr
  intro e he
  obtain ⟨msg, _, rfl⟩ := List.mem_map.mp he
  simp [Event.isHandler]

theorem reply_events_handlers (state : State) (result : Option ResultId) (h : HandlerId)
    (reply : Reply) (writes : List Message) :
    (writes.map Event.write ++ reply.events state result h).filter Event.isHandler =
      [.handler h .success .IDLE] := by
  have hmessages := filter_messageEvents Event.isHandler (fun _ _ _ => rfl) (fun _ _ => rfl) state
    result reply.messages
  simp only [Reply.events, List.filter_append, writes_not_handlers, hmessages, List.nil_append]
  rfl

namespace Exchange

/-- The bytes the server sends in a session. -/
def stream (exchanges : List Exchange) : Buffer := exchanges.flatMap fun x => x.reply.wire

/-- A request with a result set of its own and a well-formed reply whose rows
fit their descriptions and can be decoded. -/
structure Valid (decode : FieldSpec → Pg.DecodeFunction V) (read : FieldSpec → Buffer → V)
    (x : Exchange) : Prop where
  exec : (∃ q res eh, x.call = .exec q res eh) ∨ ∃ q res eh, x.call = .execQuery q res eh
  result : ∃ id, x.call.result = some id
  reply : x.reply.WellFormed (x.call.opened FSM.init).state
  rows : RowsFit decode read none x.reply.messages

end Exchange

/-- What one exchange of a session leaves behind. -/
structure Exchange.Served (read : FieldSpec → Buffer → V) (x : Exchange)
    (w : World Peer (ResultSet V)) (o : Outcome Peer (ResultSet V) Unit) : Prop where
  value : o.value = .ok ()
  handler : o.events.filter Event.isHandler = [.handler x.call.handler .success .IDLE]
  last : ∃ before state head body, o.events =
    before ++ [.dispatch state head body, .handler x.call.handler .success .IDLE] ∧ state ≠ .IDLE
  idle : o.world.fsm.state = .IDLE
  faultless : o.world.net.Faultless
  consumed : w.net.input = x.reply.wire ++ o.world.net.input
  results : ∀ id, x.call.result = some id → o.world.results =
    Function.update w.results id (w.results id ++ assemble read x.reply.messages)

theorem Exchange.Valid.isRequest {decode : FieldSpec → Pg.DecodeFunction V}
    {read : FieldSpec → Buffer → V} {x : Exchange} (hx : x.Valid decode read) :
    x.call.isRequest = true := by
  rcases hx.exec with ⟨q, res, eh, hcall⟩ | ⟨q, res, eh, hcall⟩ <;> rw [hcall] <;> rfl

theorem Exchange.Valid.opened_result {decode : FieldSpec → Pg.DecodeFunction V}
    {read : FieldSpec → Buffer → V} {x : Exchange} (hx : x.Valid decode read) (fsm : FSM) :
    (x.call.opened fsm).result = x.call.result := by
  rcases hx.exec with ⟨q, res, eh, hcall⟩ | ⟨q, res, eh, hcall⟩ <;> rw [hcall] <;> rfl

theorem served_of_valid {decode : FieldSpec → Pg.DecodeFunction V}
    {read : FieldSpec → Buffer → V} (md5 : Str → List UInt8) (salt : Byte4) (mode : Mode)
    {x : Exchange} (hx : x.Valid decode read) (w : World Peer (ResultSet V))
    (hstate : w.fsm.state = .IDLE) (hp : w.net.Faultless) (rest : Buffer)
    (hinput : w.net.input = x.reply.wire ++ rest) (n : Nat)
    (hn : 2 * w.net.input.length + 6 ≤ n) :
    x.Served read w (mode.drive ⟨ResultSet.base decode, md5, salt⟩ n x.call w) ∧
      (mode.drive ⟨ResultSet.base decode, md5, salt⟩ n x.call w).world.net.input = rest := by
  obtain ⟨id, hid⟩ := hx.result
  have hresult := (hx.opened_result w.fsm).trans hid
  have hfill := (run_messages decode read x.reply.messages).2 (w.results id) hx.rows
  have habs : Reply.Absorbed (⟨ResultSet.base decode, md5, salt⟩ : Externals (ResultSet V))
      (x.call.opened w.fsm).result w.results x.reply.messages
      (Function.update w.results id (w.results id ++ assemble read x.reply.messages)) := by
    rw [hresult]
    exact ⟨_, hfill, rfl⟩
  have hreply : x.reply.WellFormed (x.call.opened w.fsm).state := by
    rw [opened_state x.call hx.isRequest w.fsm]
    exact hx.reply
  obtain ⟨steps, hdrive⟩ := drive_reply _ mode x.call hx.isRequest w hstate hp x.reply rest
    hinput hreply habs n hn
  rw [hdrive]
  refine ⟨⟨rfl, ?_, ?_, rfl, hp, hinput, ?_⟩, rfl⟩
  · exact reply_events_handlers _ _ _ _ _
  · refine ⟨x.call.writes.map Event.write ++ x.reply.messages.flatMap
        (Reply.messageEvents (x.call.opened w.fsm).state (x.call.opened w.fsm).result),
      (x.call.opened w.fsm).state, header (.readyForQuery x.reply.status),
      body (.readyForQuery x.reply.status), ?_, ?_⟩
    · simp [Reply.events]
    · rcases hx.exec with ⟨q, res, eh, hcall⟩ | ⟨q, res, eh, hcall⟩ <;> rw [hcall] <;>
        simp [Call.opened]
  · intro id' hid'
    rw [hid] at hid'
    cases hid'
    rfl

/-- The outcomes of a session, each as its exchange says. -/
inductive Serves (read : FieldSpec → Buffer → V) (rest : Buffer) :
    World Peer (ResultSet V) → List Exchange → List (Outcome Peer (ResultSet V) Unit) → Prop
  | nil {w : World Peer (ResultSet V)} (hinput : w.net.input = rest) : Serves read rest w [] []
  | cons {w : World Peer (ResultSet V)} {x : Exchange} {exchanges : List Exchange}
      {o : Outcome Peer (ResultSet V) Unit} {os : List (Outcome Peer (ResultSet V) Unit)}
      (hinput : o.world.net.input = Exchange.stream exchanges ++ rest)
      (hserved : x.Served read w o) (hmore : Serves read rest o.world exchanges os) :
      Serves read rest w (x :: exchanges) (o :: os)

theorem serves_outcomes {decode : FieldSpec → Pg.DecodeFunction V}
    {read : FieldSpec → Buffer → V} (md5 : Str → List UInt8) (salt : Byte4) (mode : Mode)
    (exchanges : List Exchange) (hvalid : ∀ x ∈ exchanges, x.Valid decode read)
    (w : World Peer (ResultSet V)) (hstate : w.fsm.state = .IDLE) (hp : w.net.Faultless)
    (rest : Buffer) (hinput : w.net.input = Exchange.stream exchanges ++ rest) (n : Nat)
    (hn : 2 * w.net.input.length + 6 ≤ n) :
    Serves read rest w exchanges (outcomes ⟨ResultSet.base decode, md5, salt⟩ mode n w
      (exchanges.map Exchange.call)) := by
  induction exchanges generalizing w with
  | nil => exact Serves.nil hinput
  | cons x exchanges ih =>
      have hbytes : w.net.input = x.reply.wire ++ (Exchange.stream exchanges ++ rest) := by
        rw [hinput]
        simp [Exchange.stream]
      obtain ⟨hserved, hleft⟩ := served_of_valid md5 salt mode (hvalid x List.mem_cons_self) w
        hstate hp _ hbytes n hn
      apply Serves.cons hleft hserved
      apply ih (fun y hy => hvalid y (List.mem_cons_of_mem _ hy)) _ hserved.idle
        hserved.faultless hleft
      have hless := congrArg List.length hserved.consumed
      rw [List.length_append] at hless
      omega

/-- A result object that no exchange was given keeps its contents. -/
theorem Serves.frame {read : FieldSpec → Buffer → V} {rest : Buffer}
    {w : World Peer (ResultSet V)} {exchanges : List Exchange}
    {os : List (Outcome Peer (ResultSet V) Unit)} (hserves : Serves read rest w exchanges os)
    (hresult : ∀ x ∈ exchanges, ∃ id, x.call.result = some id)
    (id : ResultId) (hid : ∀ x ∈ exchanges, x.call.result ≠ some id)
    (o : Outcome Peer (ResultSet V) Unit) (ho : o ∈ os) :
    o.world.results id = w.results id := by
  induction hserves with
  | nil => cases ho
  | @cons w x exchanges first os hinput hserved hmore ih =>
      have hfirst : first.world.results id = w.results id := by
        obtain ⟨own, hown⟩ := hresult x List.mem_cons_self
        have hne : id ≠ own := by
          rintro rfl
          exact hid x List.mem_cons_self hown
        rw [hserved.results own hown, Function.update_of_ne hne]
      rcases List.mem_cons.mp ho with rfl | hlater
      · exact hfirst
      · rw [ih (fun y hy => hresult y (List.mem_cons_of_mem _ hy))
          (fun y hy => hid y (List.mem_cons_of_mem _ hy)) hlater, hfirst]

theorem Serves.length {read : FieldSpec → Buffer → V} {rest : Buffer}
    {w : World Peer (ResultSet V)} {exchanges : List Exchange}
    {os : List (Outcome Peer (ResultSet V) Unit)} (hserves : Serves read rest w exchanges os) :
    os.length = exchanges.length := by
  induction hserves with
  | nil => rfl
  | cons _ _ _ ih => rw [List.length_cons, List.length_cons, ih]

/-- Every operation of a session calls its handler once, with success, when the
state becomes `IDLE`; it takes exactly the bytes of its reply; and its result
set has the record sets of the reply, then and until the end. -/
theorem session_results (decode : FieldSpec → Pg.DecodeFunction V)
    (read : FieldSpec → Buffer → V) (md5 : Str → List UInt8) (salt : Byte4) (mode : Mode)
    (exchanges : List Exchange) (hvalid : ∀ x ∈ exchanges, x.Valid decode read)
    (hown : (exchanges.map fun x => x.call.result).Nodup)
    (w : World Peer (ResultSet V)) (hstate : w.fsm.state = .IDLE) (hp : w.net.Faultless)
    (rest : Buffer) (hinput : w.net.input = Exchange.stream exchanges ++ rest) (n : Nat)
    (hn : 2 * w.net.input.length + 6 ≤ n) :
    let os := outcomes ⟨ResultSet.base decode, md5, salt⟩ mode n w (exchanges.map Exchange.call)
    os.length = exchanges.length ∧ ∀ (k : Nat) (x : Exchange), exchanges[k]? = some x →
      ∃ o id, os[k]? = some o ∧ x.call.result = some id ∧ o.value = .ok () ∧
        o.events.filter Event.isHandler = [.handler x.call.handler .success .IDLE] ∧
        (∃ before state head body, o.events = before ++
          [.dispatch state head body, .handler x.call.handler .success .IDLE] ∧
          state ≠ .IDLE) ∧
        o.world.fsm.state = .IDLE ∧
        o.world.net.input = Exchange.stream (exchanges.drop (k + 1)) ++ rest ∧
        ∀ (j : Nat) (later : Outcome Peer (ResultSet V) Unit), k ≤ j → os[j]? = some later →
          later.world.results id = w.results id ++ assemble read x.reply.messages := by
  have hserves := serves_outcomes md5 salt mode exchanges hvalid w hstate hp rest hinput n hn
  have hresult : ∀ x ∈ exchanges, ∃ id, x.call.result = some id := fun x hx =>
    (hvalid x hx).result
  dsimp only
  generalize outcomes ⟨ResultSet.base decode, md5, salt⟩ mode n w
    (exchanges.map Exchange.call) = os at hserves
  clear hvalid hstate hp hinput hn
  refine ⟨hserves.length, ?_⟩
  induction hserves with
  | nil => intro k x hx; simp at hx
  | @cons w y exchanges first os hinput hserved hmore ih =>
      obtain ⟨hfresh, hrest⟩ := List.nodup_cons.mp hown
      obtain ⟨own, hy⟩ := hresult y List.mem_cons_self
      have hother : ∀ z ∈ exchanges, z.call.result ≠ y.call.result := by
        intro z hz heq
        exact hfresh (List.mem_map.mpr ⟨z, hz, heq⟩)
      intro k x hx
      cases k with
      | zero =>
          cases hx
          refine ⟨first, own, rfl, hy, hserved.value, hserved.handler, hserved.last, hserved.idle,
            hinput, ?_⟩
          intro j later _ hlater
          have hset : first.world.results own =
              w.results own ++ assemble read y.reply.messages := by
            rw [hserved.results own hy, Function.update_self]
          cases j with
          | zero =>
              cases hlater
              exact hset
          | succ j =>
              rw [hmore.frame (fun z hz => hresult z (List.mem_cons_of_mem _ hz)) own
                (fun z hz => hy ▸ hother z hz) later (List.mem_of_getElem? hlater), hset]
      | succ k =>
          obtain ⟨o, id, ho, hid, hvalue, hhandler, hlast, hidle, hleft, hset⟩ :=
            ih hrest (fun z hz => hresult z (List.mem_cons_of_mem _ hz)) k x hx
          refine ⟨o, id, ho, hid, hvalue, hhandler, hlast, hidle, hleft, ?_⟩
          intro j later hj hlater
          have hne : id ≠ own := by
            rintro rfl
            exact hother x (List.mem_of_getElem? hx) (hid.trans hy.symm)
          have hkept : first.world.results id = w.results id := by
            rw [hserved.results own hy, Function.update_of_ne hne]
          cases j with
          | zero => omega
          | succ j => rw [hset j later (by omega) hlater, hkept]

/-- A column of type `text` of no table. -/
def textColumn (name : Str) : FieldSpec := ⟨name, 0, 0, 25, 65535, -1, 0⟩

/-- A query that returns one row with one text column. -/
def textExchange : Exchange where
  call := .exec (ascii "select 'x'") (some 7) 3
  reply := ⟨[.rowDescription [textColumn (ascii "c")], .dataRow [ascii "x"],
    .commandComplete (ascii "SELECT 1")], 'I'.toUInt8⟩

/-- A query that returns two rows with two text columns, one of them empty. -/
def pairsExchange : Exchange where
  call := .exec (ascii "values ('x', 'y'), ('', 'z')") (some 8) 4
  reply := ⟨[.rowDescription [textColumn (ascii "a"), textColumn (ascii "b")],
    .dataRow [ascii "x", ascii "y"], .dataRow [[], ascii "z"],
    .commandComplete (ascii "SELECT 2")], 'I'.toUInt8⟩

/-- A connection on which nothing was done since it became ready. -/
def connected (input : Buffer) : World Peer (ResultSet V) :=
  ⟨⟨none, none, none, .IDLE⟩, fun _ => [], ⟨input, ⟨⟨2, .external 0⟩, rfl⟩, fun _ => none, 0⟩⟩

theorem textColumn_valid (name : Str) (hname : NulFree name) : ValidField (textColumn name) := by
  have hzero32 : InInt32 0 := ⟨by decide, by decide⟩
  have hzero16 : InUInt16 0 := ⟨by decide, by decide⟩
  have htype : InInt32 25 := ⟨by decide, by decide⟩
  have hsize : InUInt16 65535 := ⟨by decide, by decide⟩
  have hmod : InInt32 (-1) := ⟨by decide, by decide⟩
  exact ⟨hname, hzero32, hzero16, htype, hsize, hmod, hzero16⟩

theorem textColumns_fit (names columns : List Str) (hcount : columns.length = names.length)
    (hsizes : ∀ bytes ∈ columns, bytes.length < 2 ^ 31) :
    RowFits Pg.Format.standard.decode (fun _ bytes => .text bytes) (names.map textColumn)
      columns := by
  refine ⟨by rw [hcount, List.length_map], ?_⟩
  intro pair hpair
  obtain ⟨hfield, hbytes⟩ := List.of_mem_zip hpair
  obtain ⟨name, _, hname⟩ := List.mem_map.mp hfield
  rw [← hname]
  exact readsAs_text _ zero_ne_one rfl _ (hsizes _ hbytes)

theorem textExchange_valid :
    textExchange.Valid Pg.Format.standard.decode fun _ bytes => .text bytes := by
  refine ⟨Or.inl ⟨_, _, _, rfl⟩, ⟨7, rfl⟩, ?_, ?_⟩
  · intro msg hmsg
    simp only [textExchange, List.mem_cons, List.not_mem_nil, or_false] at hmsg
    rcases hmsg with rfl | rfl | rfl
    · refine ⟨⟨⟨by decide, ?_⟩, by decide⟩, trivial⟩
      intro f hf
      rw [List.mem_singleton.mp hf]
      exact textColumn_valid _ (by decide)
    · exact ⟨⟨show _ < _ by decide, by decide⟩, trivial⟩
    · exact ⟨⟨show NulFree _ by decide, by decide⟩, trivial⟩
  · exact ⟨⟨_, rfl, textColumns_fit [ascii "c"] [ascii "x"] rfl (by decide)⟩, trivial⟩

theorem pairsExchange_valid :
    pairsExchange.Valid Pg.Format.standard.decode fun _ bytes => .text bytes := by
  refine ⟨Or.inl ⟨_, _, _, rfl⟩, ⟨8, rfl⟩, ?_, ?_⟩
  · intro msg hmsg
    simp only [pairsExchange, List.mem_cons, List.not_mem_nil, or_false] at hmsg
    rcases hmsg with rfl | rfl | rfl | rfl
    · refine ⟨⟨⟨by decide, ?_⟩, by decide⟩, trivial⟩
      intro f hf
      obtain ⟨name, hname, rfl⟩ : ∃ name, NulFree name ∧ textColumn name = f := by
        rcases List.mem_pair.mp hf with rfl | rfl
        · exact ⟨ascii "a", by decide, rfl⟩
        · exact ⟨ascii "b", by decide, rfl⟩
      exact textColumn_valid name hname
    · exact ⟨⟨show _ < _ by decide, by decide⟩, trivial⟩
    · exact ⟨⟨show _ < _ by decide, by decide⟩, trivial⟩
    · exact ⟨⟨show NulFree _ by decide, by decide⟩, trivial⟩
  · have hfits := textColumns_fit [ascii "a", ascii "b"]
    exact ⟨⟨_, rfl, hfits [ascii "x", ascii "y"] rfl (by decide)⟩,
      ⟨_, rfl, hfits [[], ascii "z"] rfl (by decide)⟩, trivial⟩

theorem session_results_text :
    let exchanges := [textExchange, pairsExchange]
    let os := outcomes (Externals.standard fun _ => []) .blocking
      (2 * (Exchange.stream exchanges).length + 6) (connected (Exchange.stream exchanges))
      (exchanges.map Exchange.call)
    ∃ first second, os[0]? = some first ∧ os[1]? = some second ∧
      first.events.filter Event.isHandler = [.handler 3 .success .IDLE] ∧
      second.events.filter Event.isHandler = [.handler 4 .success .IDLE] ∧
      second.world.results 7 = assemble (fun _ bytes => .text bytes) textExchange.reply.messages ∧
      second.world.results 8 =
        assemble (fun _ bytes => .text bytes) pairsExchange.reply.messages := by
  intro exchanges os
  have hvalid : ∀ x ∈ exchanges,
      x.Valid Pg.Format.standard.decode fun _ bytes => .text bytes := by
    intro x hx
    rcases List.mem_pair.mp hx with rfl | rfl
    · exact textExchange_valid
    · exact pairsExchange_valid
  have hall := (session_results Pg.Format.standard.decode (fun _ bytes => .text bytes)
    (fun _ => []) (0, 0, 0, 0) .blocking exchanges hvalid (by decide)
    (connected (Exchange.stream exchanges)) rfl (fun _ => rfl) []
    (List.append_nil _).symm _ (le_refl _)).2
  obtain ⟨first, id, hfirst, hid, _, hhandler, _, _, _, hresults⟩ := hall 0 textExchange rfl
  obtain ⟨second, id', hsecond, hid', _, hhandler', _, _, _, hresults'⟩ :=
    hall 1 pairsExchange rfl
  cases hid
  cases hid'
  exact ⟨first, second, hfirst, hsecond, hhandler, hhandler',
    hresults 1 second (by decide) hsecond, hresults' 1 second (le_refl _) hsecond⟩

end Lapq
