import Lapq.Replies.Flag

/-!
Replies that are cut off. The connection reports an error to the read that
cannot be filled; whatever byte the cut falls on, that is either the read of a
header or the read of the body after it.
-/

namespace Lapq

open Bytes Backend

variable {ρ V : Type} {ext : Externals ρ} {w : World (List ConnCall) ρ}

/-- The messages that lie wholly in the first `n` bytes of a stream. -/
def wholeIn : Nat → List Backend → List Backend
  | _, [] => []
  | n, msg :: messages =>
      if msg.wire.length ≤ n then msg :: wholeIn (n - msg.wire.length) messages else []

/-- The reads that are started on the first `n` bytes of a stream that ends
there: two for each whole message, and those for the message that is cut, which
are its header and, if that is whole, its body. -/
def readsIn (n : Nat) (messages : List Backend) : Nat :=
  2 * (wholeIn n messages).length +
    if n - ((wholeIn n messages).flatMap Backend.wire).length < Header.size then 1 else 2

/-- A stream that is cut ends within a message, or before it. -/
theorem split_cut (messages : List Backend) (last : Backend) (cut rest : Buffer)
    (h : messages.flatMap Backend.wire ++ last.wire = cut ++ rest) (hrest : rest ≠ []) :
    ∃ next part left more, messages ++ [last] = wholeIn cut.length messages ++ next :: more ∧
      cut = (wholeIn cut.length messages).flatMap Backend.wire ++ part ∧
      next.wire = part ++ left ∧ left ≠ [] := by
  induction messages generalizing cut with
  | nil => exact ⟨last, cut, rest, [], rfl, rfl, by simpa using h, hrest⟩
  | cons msg messages ih =>
      rw [List.flatMap_cons, List.append_assoc] at h
      by_cases hwhole : msg.wire.length ≤ cut.length
      · obtain ⟨tail, rfl⟩ : ∃ tail, cut = msg.wire ++ tail := by
          obtain ⟨tail, htail⟩ := List.prefix_of_prefix_length_le ⟨_, h⟩
            (List.prefix_append cut rest) hwhole
          exact ⟨tail, htail.symm⟩
        obtain ⟨next, part, left, more, hsplit, hcut, hnext, hleft⟩ :=
          ih tail (by simpa using h)
        refine ⟨next, part, left, more, ?_, ?_, hnext, hleft⟩
        · simp [wholeIn, hsplit]
        · simp [wholeIn, ← hcut]
      · obtain ⟨left, hleft⟩ : ∃ left, msg.wire = cut ++ left := by
          obtain ⟨left, hleft⟩ := List.prefix_of_prefix_length_le (List.prefix_append cut rest)
            ⟨_, h⟩ (by omega)
          exact ⟨left, hleft.symm⟩
        refine ⟨msg, cut, left, messages ++ [last], ?_, ?_, hleft, ?_⟩
        · simp [wholeIn, hwhole]
        · simp [wholeIn, hwhole]
        · rintro rfl
          rw [List.append_nil] at hleft
          rw [hleft] at hwhole
          exact hwhole (le_refl _)

theorem wholeIn_append (n : Nat) (messages : List Backend) :
    ∃ more, messages = wholeIn n messages ++ more := by
  induction messages generalizing n with
  | nil => exact ⟨[], rfl⟩
  | cons msg messages ih =>
      unfold wholeIn
      split
      · obtain ⟨more, hmore⟩ := ih (n - msg.wire.length)
        refine ⟨more, ?_⟩
        rw [List.cons_append, ← hmore]
      · exact ⟨msg :: messages, rfl⟩

/-- The reads are no more than the bytes allow for. -/
theorem readsIn_le (messages : List Backend) (cut part : Buffer)
    (hcut : cut = (wholeIn cut.length messages).flatMap Backend.wire ++ part) :
    readsIn cut.length messages ≤ 2 * cut.length + 2 := by
  have hbytes := messages_length_le (wholeIn cut.length messages)
  have hlength := congrArg List.length hcut
  rw [List.length_append] at hlength
  unfold readsIn
  split
  · omega
  · omega

/-- A read that the input cannot fill. -/
theorem serve_short {p : Peer} (hp : p.Faultless) {len : Nat} (rh : RHandler)
    (hshort : p.input.length < len) :
    p.serve (.read len rh) = (⟨p.eof, p.input.length, []⟩, p.later [] 1) := by
  unfold Peer.serve
  rw [hp p.step]
  simp [Nat.not_le.mpr hshort, Peer.later]

theorem read_fails {p : Peer} {len : Nat} {rh : RHandler} {h : HandlerId} (hp : p.Faultless)
    (hh : w.fsm.ehandler = some h) (hnet : w.net = [.read len rh])
    (hshort : p.input.length < len) (n : Nat) :
    AsyncConnection.drain ext (n + 1) p w =
      (⟨.ok (), { w with net := [] }, [.handler h p.eof w.fsm.state]⟩, p.later [] 1) := by
  have hserve := serve_short hp rh hshort
  have hresume : ConnCall.resume ext AsyncConnection.con (p.serve (.read len rh)).1
      (.read len rh) { w with net := [] } =
      ⟨.ok (), { w with net := [] }, [.handler h p.eof w.fsm.state]⟩ := by
    rw [hserve]
    change RHandler.run ext AsyncConnection.con rh p.eof [] _ = _
    rw [RHandler.run_fails AsyncConnection.con ext rh [] p.eof.property]
    exact Act.callHandler_of_some (w := { w with net := [] }) hh _
  rw [AsyncConnection.drain_ok n hnet hresume rfl, hserve, AsyncConnection.drain_nil n _ rfl]
  rfl

/-- The event loop at the end of a stream that is cut within a message. -/
theorem drain_cut (ext : Externals ρ) {p : Peer} {next : Backend} {left : Buffer} {h : HandlerId}
    (hlength : next.body.length + 4 < 2 ^ 31) (hp : p.Faultless)
    (hh : w.fsm.ehandler = some h) (hnet : w.net = [.header])
    (hcut : next.wire = p.input ++ left) (hleft : left ≠ []) (n k : Nat)
    (hk : k = if p.input.length < Header.size then 1 else 2) :
    AsyncConnection.drain ext (n + k) p w =
      (⟨.ok (), { w with net := [] }, [.handler h p.eof w.fsm.state]⟩, p.later [] k) := by
  subst hk
  split
  · rename_i hshort
    exact read_fails hp hh hnet hshort n
  · rename_i hheader
    -- The header is whole, so the cut falls into the body.
    have hframe : (next.mtype :: be32 (next.body.length + 4)) ++ next.body = p.input ++ left := hcut
    obtain ⟨part, hpart⟩ : ∃ part,
        p.input = (next.mtype :: be32 (next.body.length + 4)) ++ part := by
      obtain ⟨part, hpart⟩ := List.prefix_of_prefix_length_le ⟨_, hframe⟩
        (List.prefix_append p.input left) (by simpa [Header.size] using hheader)
      exact ⟨part, hpart.symm⟩
    have hbody : next.body = part ++ left := by
      rw [hpart, List.append_assoc] at hframe
      exact List.append_cancel_left hframe
    have hlong : part.length < next.body.length := by
      rw [hbody, List.length_append]
      have hpos := List.length_pos_of_ne_nil hleft
      omega
    rw [drain_header ext hlength hp hpart hnet (n + 1),
      read_fails (w := { w with net := [.read next.body.length (.body next.header)] })
        (hp.later part 1) hh rfl hlong n]
    rfl

/-- A request in `IDLE`, driven by the event loop, whose well-formed reply is cut
off where the input of the peer ends. -/
theorem complete_cut (ext : Externals ρ) (c : Call) (hc : c.isRequest = true)
    (w : World Peer ρ) (hstate : w.fsm.state = .IDLE) (hp : w.net.Faultless) (reply : Reply)
    (rest : Buffer) (hcut : reply.wire = w.net.input ++ rest) (hrest : rest ≠ [])
    (hreply : reply.WellFormed (c.opened w.fsm).state) {results' : ResultId → ρ}
    (habs : Reply.Absorbed ext (c.opened w.fsm).result w.results
      (wholeIn w.net.input.length reply.messages) results')
    (n : Nat) (hn : c.writes.length + readsIn w.net.input.length reply.messages ≤ n) :
    AsyncConnection.complete ext n c w =
      ⟨.ok (), ⟨c.opened w.fsm, results', w.net.later []
          (c.writes.length + readsIn w.net.input.length reply.messages)⟩,
        c.writes.map Event.write ++ ((wholeIn w.net.input.length reply.messages).flatMap
            (Reply.messageEvents (c.opened w.fsm).state (c.opened w.fsm).result) ++
          [.handler c.handler w.net.eof (c.opened w.fsm).state])⟩ := by
  obtain ⟨first, msg, more, hrun, hwrites, hsends⟩ :=
    request_sends (w := w.withNet []) ext c hc hstate rfl
  obtain ⟨hhandler, hopen⟩ := opened_waits hc w.fsm
  obtain ⟨next, part, left, others, hsplit, hinput, hnext, hleft⟩ :=
    split_cut reply.messages (.readyForQuery reply.status) w.net.input rest hcut hrest
  generalize hwhole : wholeIn w.net.input.length reply.messages = whole at *
  have hmessages : ∀ m ∈ whole, m.WellFormed ∧ m.Listed (c.opened w.fsm).state := by
    intro m hm
    obtain ⟨others, hothers⟩ := wholeIn_append w.net.input.length reply.messages
    rw [hwhole] at hothers
    apply hreply m
    rw [hothers]
    exact List.mem_append_left _ hm
  have hlength : next.body.length + 4 < 2 ^ 31 := by
    have hmem : next ∈ reply.messages ++ [.readyForQuery reply.status] := by
      rw [hsplit]
      simp
    rcases List.mem_append.mp hmem with hin | hlast
    · exact (hreply next hin).1.length
    · rw [List.mem_singleton.mp hlast]
      simp [Backend.body]
  have hpart : w.net.input.length - (whole.flatMap Backend.wire).length = part.length := by
    have hlen := congrArg List.length hinput
    rw [List.length_append] at hlen
    omega
  obtain ⟨k, hk, hreads⟩ : ∃ k, k = (if part.length < Header.size then 1 else 2) ∧
      readsIn w.net.input.length reply.messages = 2 * whole.length + k := by
    rw [readsIn, hwhole, hpart]
    exact ⟨_, rfl, rfl⟩
  rw [hreads] at hn ⊢
  obtain ⟨extra, rfl⟩ := Nat.exists_eq_add_of_le hn
  have hdrain := hsends w.net hp (extra + k + 2 * whole.length)
  have hreceive := drain_messages (w := ⟨c.opened w.fsm, w.results, [.header]⟩) ext whole
    (hp.later w.net.input c.writes.length) hopen rfl hmessages hinput habs (extra + k)
  have hend := drain_cut ext (w := ⟨c.opened w.fsm, results', [.header]⟩)
    (p := (w.net.later w.net.input c.writes.length).later part (2 * whole.length)) hlength
    ((hp.later _ _).later _ _) hhandler rfl hnext hleft extra k hk
  dsimp only [World.withNet] at hdrain hreceive
  rw [hreceive, hend] at hdrain
  unfold AsyncConnection.complete
  rw [hrun, show c.writes.length + (2 * whole.length + k) + extra =
    extra + k + 2 * whole.length + c.writes.length by omega]
  dsimp only
  rw [hdrain, hwrites]
  simp [Outcome.after, Outcome.withNet, World.withNet, Peer.later, Nat.add_assoc]

/-- What is left behind by a request whose reply is cut off: the handler is told
the error, last of all, and nothing was read or written that the messages up to
the cut do not account for. -/
structure CutOff (read : FieldSpec → Buffer → V) (x : Exchange) (cut : Nat)
    (w : World Peer (ResultSet V)) (o : Outcome Peer (ResultSet V) Unit) : Prop where
  value : o.value = .ok ()
  handler : o.events.filter Event.isHandler =
    [.handler x.call.handler w.net.eof (x.call.opened w.fsm).state]
  last : ∃ before, o.events =
    before ++ [.handler x.call.handler w.net.eof (x.call.opened w.fsm).state]
  writes : o.events.filter Event.isWrite = x.call.writes.map Event.write
  reads : o.world.net.step =
    w.net.step + (x.call.writes.length + readsIn cut x.reply.messages)
  results : ∀ id, x.call.result = some id → o.world.results = Function.update w.results id
    (w.results id ++ assemble read (wholeIn cut x.reply.messages))

/-- A reply that is cut off at any byte: the handler is told once, the error of
the read that could not be filled; the result set has the record sets of the
messages before the cut and no part of the next; and nothing more is read,
written or outstanding. -/
theorem truncated_reply (decode : FieldSpec → Pg.DecodeFunction V)
    (read : FieldSpec → Buffer → V) (md5 : Str → List UInt8) (salt : Byte4) (mode : Mode)
    (x : Exchange) (hx : x.Valid decode read) (w : World Peer (ResultSet V))
    (hstate : w.fsm.state = .IDLE) (hp : w.net.Faultless) (rest : Buffer)
    (hcut : x.reply.wire = w.net.input ++ rest) (hrest : rest ≠ []) (n : Nat)
    (hn : 2 * w.net.input.length + 6 ≤ n) :
    let ext : Externals (ResultSet V) := ⟨ResultSet.base decode, md5, salt⟩
    CutOff read x w.net.input.length w (mode.drive ext n x.call w) ∧
      (AsyncConnection.drain ext n w.net
        (x.call.run AsyncConnection.con (w.withNet [])).world).1.world.net = [] := by
  intro ext
  obtain ⟨id, hid⟩ := hx.result
  have hresult := (hx.opened_result w.fsm).trans hid
  obtain ⟨others, hothers⟩ := wholeIn_append w.net.input.length x.reply.messages
  obtain ⟨_, part, _, _, _, hinput, _, _⟩ :=
    split_cut x.reply.messages (.readyForQuery x.reply.status) w.net.input rest hcut hrest
  have hrows : RowsFit decode read none (wholeIn w.net.input.length x.reply.messages) := by
    apply rowsFit_append _ none others
    rw [← hothers]
    exact hx.rows
  have hfill := (run_messages decode read _).2 (w.results id) hrows
  have habs : Reply.Absorbed ext (x.call.opened w.fsm).result w.results
      (wholeIn w.net.input.length x.reply.messages) (Function.update w.results id
        (w.results id ++ assemble read (wholeIn w.net.input.length x.reply.messages))) := by
    rw [hresult]
    exact ⟨_, hfill, rfl⟩
  have hreply : x.reply.WellFormed (x.call.opened w.fsm).state := by
    rw [opened_state x.call hx.isRequest w.fsm]
    exact hx.reply
  have hbound : x.call.writes.length + readsIn w.net.input.length x.reply.messages ≤ n := by
    have hwrites : x.call.writes.length ≤ 4 := by
      cases x.call <;> simp [Call.writes]
    have hreads := readsIn_le x.reply.messages w.net.input part hinput
    omega
  have hasync := complete_cut ext x.call hx.isRequest w hstate hp x.reply rest hcut hrest hreply
    habs n hbound
  obtain ⟨_, _, hdone⟩ :=
    request_drain ext x.call hx.isRequest w.fsm w.results w.net hstate n hn
  refine ⟨?_, hdone⟩
  rw [drive_eq_complete ext mode x.call hx.isRequest w hstate n hn, hasync]
  have hquiet (p : Event → Bool) (hdispatch : ∀ state head body, p (.dispatch state head body) =
      false) (hcalls : ∀ id call, p (.result id call) = false) := filter_messageEvents p hdispatch
    hcalls (x.call.opened w.fsm).state (x.call.opened w.fsm).result
    (wholeIn w.net.input.length x.reply.messages)
  refine ⟨rfl, ?_, ?_, ?_, rfl, ?_⟩
  · simp only [List.filter_append, writes_not_handlers,
      hquiet Event.isHandler (fun _ _ _ => rfl) (fun _ _ => rfl), List.nil_append]
    rfl
  · exact ⟨_, (List.append_assoc _ _ _).symm⟩
  · have hwrites : (x.call.writes.map Event.write).filter Event.isWrite =
        x.call.writes.map Event.write := by
      apply List.filter_eq_self.mpr
      intro e he
      obtain ⟨msg, _, rfl⟩ := List.mem_map.mp he
      rfl
    simp only [List.filter_append, hwrites,
      hquiet Event.isWrite (fun _ _ _ => rfl) (fun _ _ => rfl), List.nil_append]
    simp [Event.isWrite]
  · intro id' hid'
    rw [hid] at hid'
    cases hid'
    rfl

/-- The reply of `textExchange`, cut off in the body of its row. -/
theorem truncated_reply_text :
    let cut := textExchange.reply.wire.take 38
    CutOff (fun _ bytes => .text bytes) textExchange 38 (connected cut)
      (Mode.async.drive (Externals.standard fun _ => []) 82 textExchange.call (connected cut)) ∧
    (wholeIn 38 textExchange.reply.messages).length = 1 := by
  refine ⟨?_, by decide⟩
  have hcut := truncated_reply Pg.Format.standard.decode (fun _ bytes => .text bytes)
    (fun _ => []) (0, 0, 0, 0) .async textExchange textExchange_valid
    (connected (textExchange.reply.wire.take 38)) rfl (fun _ => rfl)
    (textExchange.reply.wire.drop 38) (List.take_append_drop 38 _).symm (by decide) 82 (by decide)
  exact hcut.1

end Lapq
