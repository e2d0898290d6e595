import Lapq.Wire.Frontend
import Lapq.Replies.Operation

/-!
A prepared statement and its execution. `parse` and `exec` write their messages
from nested callbacks, each from what `m_query` says at that time, and the server
has to see one statement and one portal in all of them. The server reads the
length of a message as a signed number, so that a query or values too long for
it are what can come apart.
-/

namespace Lapq

open Bytes

variable {ν ρ : Type}

/-! The messages on their way. -/

/-- From a callback on: each message is handed to the connection when the callback
of the one before it is called without an error, and after the last the reply is
read. The world at each of these moments is whatever the connection has made of
it, as long as `m_query` is the query of the operation. -/
inductive Chain (con : ConnectionBase ν ρ) (q : DBQuery) : WHandler → List Message → Prop
  | reads {wh : WHandler}
      (hrun : ∀ w, w.fsm.query = some q → wh.run con .success w = FSM.receive con w) :
      Chain con q wh []
  | writes {wh next : WHandler} {msg : Message} {msgs : List Message}
      (hrun : ∀ w, w.fsm.query = some q → wh.run con .success w = con.write msg next w)
      (hrest : Chain con q next msgs) : Chain con q wh (msg :: msgs)

/-- The operation is accepted in `IDLE` and then writes these messages, one after
the other, before it reads. -/
def Pipelines (con : ConnectionBase ν ρ) (q : DBQuery) (operation : Act ν ρ Unit)
    (msgs : List Message) : Prop :=
  ∃ first next rest, msgs = first :: rest ∧ Chain con q next rest ∧
    ∀ w, w.fsm.state = .IDLE → ∃ fsm, fsm.query = some q ∧
      operation w = con.write first next { w with fsm := fsm }

theorem withQuery_apply {q : DBQuery} {w : World ν ρ} (hquery : w.fsm.query = some q)
    (go : DBQuery → Act ν ρ Unit) : FSM.withQuery go w = go q w := by
  simp [FSM.withQuery, Act.bind_apply, hquery]

theorem parse_pipelines (con : ConnectionBase ν ρ) (q : DBQuery) (eh : HandlerId) :
    Pipelines con q (FSM.parse con q eh) (Call.writes (.parse q eh)) := by
  have hsync : Chain con q (.parseSyncWritten none) [] := Chain.reads fun w _ => rfl
  have hparse : Chain con q (.parseWritten none) [.sync] := Chain.writes (fun w _ => rfl) hsync
  refine ⟨_, .parseWritten none, [.sync], rfl, hparse, ?_⟩
  intro w hstate
  refine ⟨{ w.fsm with query := some q, ehandler := some eh, state := .QUERY }, rfl, ?_⟩
  simp [FSM.parse, Act.bind_apply, hstate]

theorem execQuery_pipelines (con : ConnectionBase ν ρ) (q : DBQuery) (res : Option ResultId)
    (eh : HandlerId) :
    Pipelines con q (FSM.execQuery con q res eh) (Call.writes (.execQuery q res eh)) := by
  have hsync : Chain con q (.syncWritten none) [] := Chain.reads fun w _ => rfl
  have hexecute : Chain con q (.executeWritten none) [.sync] :=
    Chain.writes (fun w _ => rfl) hsync
  have hdescribe : Chain con q (.describeWritten none) [.execute q.portal, .sync] :=
    Chain.writes (fun w hquery => withQuery_apply hquery _) hexecute
  have hbind : Chain con q (.bindWritten none)
      [.describe q.name q.portal, .execute q.portal, .sync] :=
    Chain.writes (fun w hquery => withQuery_apply hquery _) hdescribe
  refine ⟨_, .bindWritten none, _, rfl, hbind, ?_⟩
  intro w hstate
  refine ⟨⟨some q, res, some eh, .EQUERY⟩, rfl, ?_⟩
  simp [FSM.execQuery, Act.bind_apply, hstate]

/-! The messages at the server. -/

namespace Decoder

/-- The length of a body from the length field, which is signed and counts itself. -/
def bodyLength : Reader Nat := do
  let n ← Reader.u32
  if n < 4 ∨ 2 ^ 31 ≤ n then Reader.fail else pure (n - 4)

/-- A message with a type byte, as its fields. -/
def message : Reader Fields := do
  let mtype ← Reader.byte
  let len ← bodyLength
  let bytes ← Reader.take len
  Reader.ofOption (Reader.whole (body (some mtype)) bytes)

def messages (bytes : Buffer) : Option (List Fields) :=
  Reader.exhaust (fun _ => message) (bytes.length + 1) 0 bytes

end Decoder

theorem reads_message (msg : Message) (hmsg : msg.Sendable) (htyped : msg.untyped = false) :
    Reads Decoder.message msg.wire msg.fields := by
  have hlength := hmsg.length
  have hlen : Reads Decoder.bodyLength (be32 (msg.body.length + 4)) msg.body.length := by
    rw [← List.append_nil (be32 _)]
    apply Reads.bind (Reads.u32 (msg.body.length + 4) (by omega))
    rw [if_neg (by omega), Nat.add_sub_cancel]
    exact Reads.pure msg.body.length
  have hbody : Reader.whole (Decoder.body (some msg.messageType)) msg.body = some msg.fields := by
    have hframe : msg.frame.mtype = some msg.messageType := by
      simp [Message.frame, htyped]
    have hwhole := (reads_body msg hmsg).whole
    rwa [hframe] at hwhole
  have hfields : Reads (Reader.ofOption (Reader.whole (Decoder.body (some msg.messageType))
      msg.body)) [] msg.fields := by
    rw [hbody]
    exact Reads.pure msg.fields
  have hlast := Reads.bind (f := fun bytes => Reader.ofOption
    (Reader.whole (Decoder.body (some msg.messageType)) bytes)) (Reads.take msg.body) hfields
  rw [List.append_nil] at hlast
  rw [Message.wire_eq msg hlength, htyped]
  apply Reads.bind (Reads.byte msg.messageType)
  apply Reads.bind hlen
  exact hlast

theorem messages_wire (msgs : List Message) (hmsgs : ∀ m ∈ msgs, m.Sendable)
    (htyped : ∀ m ∈ msgs, m.untyped = false) :
    Decoder.messages (msgs.flatMap Message.wire) = some (msgs.map Message.fields) := by
  apply Reads.exhaust
  · exact Nat.lt_succ_of_le (length_le_wire msgs hmsgs)
  · intro i msg hmsg
    have hmem := List.mem_of_getElem? hmsg
    exact reads_message msg (hmsgs msg hmem) (htyped msg hmem)
  · intro msg hmsg
    exact wire_ne_nil msg (hmsgs msg hmsg)

/-- The bytes that the fields of a Parse and of a Bind take. -/
def Fields.size : Fields → Nat
  | .parse name text oids => name.length + 1 + (text.length + 1) + (2 + (oids.map fun _ => 4).sum)
  | .bind portal statement formats values resultFormats =>
      portal.length + 1 + (statement.length + 1) + (2 + (formats.map fun _ => 2).sum) +
        (2 + (values.map fun v => 4 + (v.getD []).length).sum) +
        (2 + (resultFormats.map fun _ => 2).sum)
  | _ => 0

theorem sized_counted {α : Type} {r : Reader α} {size : α → Nat} (hr : Sized r size) :
    Sized (Decoder.counted r) fun l => 2 + (l.map size).sum := by
  apply Sized.bind Sized.u16
  intro n x l rest h
  have hlength : x.length = (l.map size).sum + rest.length := hr.times n x l rest h
  omega

theorem sized_value : Sized Decoder.value fun v => 4 + (v.getD []).length := by
  apply Sized.bind Sized.u32
  intro n x v rest h
  split at h
  · cases h
    simp
  · obtain ⟨s, mid, htake, hpure⟩ := Reader.bind_inv h
    cases hpure
    have hlength := Sized.take n x s _ htake
    simp only [Option.getD_some]
    omega

theorem sized_parseBody : Sized Decoder.parseBody Fields.size := by
  apply Sized.bind Sized.cstring
  intro name x fields rest h
  obtain ⟨query, x', hquery, h⟩ := Reader.bind_inv h
  obtain ⟨oids, x'', hoids, h⟩ := Reader.bind_inv h
  cases h
  have hsecond := Sized.cstring x query x' hquery
  have hthird := sized_counted Sized.u32 x' oids _ hoids
  simp only [Fields.size] at hsecond hthird ⊢
  omega

theorem sized_bindBody : Sized Decoder.bindBody Fields.size := by
  apply Sized.bind Sized.cstring
  intro portal x fields rest h
  obtain ⟨statement, x₁, hstatement, h⟩ := Reader.bind_inv h
  obtain ⟨formats, x₂, hformats, h⟩ := Reader.bind_inv h
  obtain ⟨values, x₃, hvalues, h⟩ := Reader.bind_inv h
  obtain ⟨resultFormats, x₄, hresults, h⟩ := Reader.bind_inv h
  cases h
  have h₁ := Sized.cstring x statement x₁ hstatement
  have h₂ := sized_counted Sized.u16 x₁ formats x₂ hformats
  have h₃ := sized_counted sized_value x₂ values x₃ hvalues
  have h₄ := sized_counted Sized.u16 x₃ resultFormats _ hresults
  simp only [Fields.size] at h₁ h₂ h₃ h₄ ⊢
  omega

theorem bodyLength_le {x rest : Buffer} {n : Nat}
    (h : Decoder.bodyLength x = some (n, rest)) : n ≤ 2 ^ 31 - 5 := by
  obtain ⟨m, mid, _, hrest⟩ := Reader.bind_inv h
  split at hrest
  · cases hrest
  · cases hrest
    omega

/-- A message that was decoded has a length that fits. -/
theorem message_size {mtype : MessageType} {bytes rest : Buffer} {fields : Fields}
    (hbody : Sized (Decoder.body (some mtype)) Fields.size)
    (h : Decoder.message (mtype :: bytes) = some (fields, rest)) : fields.size ≤ 2 ^ 31 - 5 := by
  obtain ⟨type, x, htype, h⟩ := Reader.bind_inv h
  cases htype
  obtain ⟨len, x', hlen, h⟩ := Reader.bind_inv h
  obtain ⟨content, x'', hcontent, h⟩ := Reader.bind_inv h
  have hle := bodyLength_le hlen
  have hlength : content.length ≤ len := by
    unfold Reader.take at hcontent
    split at hcontent
    · cases hcontent
      exact List.length_take_le len x'
    · cases hcontent
  cases hwhole : Reader.whole (Decoder.body (some mtype)) content with
  | none =>
      rw [hwhole] at h
      cases h
  | some result =>
      rw [hwhole] at h
      cases h
      rw [← hbody.whole hwhole]
      omega

theorem messages_first (mtype : MessageType) {bytes : Buffer} {fields : Fields}
    {more : List Fields} (hbody : Sized (Decoder.body (some mtype)) Fields.size)
    (h : Decoder.messages (mtype :: bytes) = some (fields :: more)) :
    fields.size ≤ 2 ^ 31 - 5 := by
  unfold Decoder.messages at h
  rw [Reader.exhaust] at h
  · cases hfirst : Decoder.message (mtype :: bytes) with
    | none => simp [hfirst] at h
    | some result =>
        obtain ⟨found, rest⟩ := result
        rw [hfirst] at h
        obtain ⟨_, hpair, h⟩ := Option.bind_eq_some_iff.mp h
        cases hpair
        obtain ⟨later, _, hall⟩ := Option.bind_eq_some_iff.mp h
        cases hall
        exact message_size hbody hfirst
  · simp

theorem parse_body_length (name query : Str) :
    (Message.body (.parse name query [])).length = name.length + query.length + 4 := by
  change (Parse.serialize name query [] []).length = _
  simp only [Parse.serialize, serializeOids, serializeString, serializeInt16, List.foldl_nil,
    List.length_append, List.length_nil, List.length_singleton, be16_length]
  omega

theorem bind_body_length (name portal : Str) (values : List Str) :
    (Message.body (.bind name portal values)).length =
      portal.length + name.length + (values.map fun v => v.length + 4).sum + 10 := by
  have hfold (buf : Buffer) := foldl_serialize
    (fun s b => serializeByte s (serializeInt32 (List.length s) b))
    (fun s : Str => be32 (pattern 32 s.length) ++ s)
    (fun s buf => by simp [serializeByte, serializeInt32]) values buf
  have hvalues : (values.flatMap fun s => be32 (pattern 32 s.length) ++ s).length =
      (values.map fun v => v.length + 4).sum := by
    simp only [List.length_flatMap, List.length_append, be32_length, Nat.add_comm 4]
  change (Bind.serialize name portal values []).length = _
  simp only [Bind.serialize, hfold, serializeString, serializeInt16, List.length_append,
    List.length_nil, List.length_singleton, be16_length, hvalues]
  omega

/-! The whole pipeline. -/

/-- The lengths of a query whose Parse and whose Bind have bodies that the length
field of a message can hold. -/
structure DBQuery.FitsMessages (q : DBQuery) : Prop where
  parse : q.name.length + q.query.length + 4 ≤ 2 ^ 31 - 5
  bind : q.portal.length + q.name.length + (q.bindValue.map fun v => v.length + 4).sum + 10 ≤
    2 ^ 31 - 5

/-- `parse` and `exec` of a query write their messages before they read, the
server takes one statement and one portal from them with the values as text, and
a query of another name has others. -/
structure Consistent (con : ConnectionBase ν ρ) (q : DBQuery) (res : Option ResultId)
    (eh eh' : HandlerId) : Prop where
  parses : Pipelines con q (FSM.parse con q eh) (Call.writes (.parse q eh))
  prepared : Decoder.messages ((Call.writes (.parse q eh)).flatMap Message.wire) =
    some [.parse q.name q.query [], .sync]
  executes : Pipelines con q (FSM.execQuery con q res eh') (Call.writes (.execQuery q res eh'))
  bound : Decoder.messages ((Call.writes (.execQuery q res eh')).flatMap Message.wire) =
    some [.bind q.portal q.name [] (q.bindValue.map some) [0],
      if q.name = [] then .describe 'S'.toUInt8 q.name else .describe 'P'.toUInt8 q.portal,
      .execute q.portal 0, .sync]
  named : ∀ other : DBQuery, q.name ≠ [] → other.name ≠ [] → q.name ≠ other.name →
    q.portal ≠ other.portal ∧ q.portal ≠ [] ∧ other.portal ≠ []

theorem portal_of_name {q : DBQuery} (hname : q.name ≠ []) :
    q.portal = q.name ++ ascii "port" := by
  unfold DBQuery.portal
  rw [if_neg (by simpa using hname)]

theorem portals_differ {q other : DBQuery} (hname : q.name ≠ []) (hother : other.name ≠ [])
    (hdiffer : q.name ≠ other.name) :
    q.portal ≠ other.portal ∧ q.portal ≠ [] ∧ other.portal ≠ [] := by
  rw [portal_of_name hname, portal_of_name hother]
  refine ⟨?_, by simp [hname], by simp [hother]⟩
  intro hsame
  exact hdiffer (List.append_cancel_right hsame)

theorem portal_nulFree {q : DBQuery} (hname : NulFree q.name) : NulFree q.portal := by
  unfold DBQuery.portal
  split
  · exact nulFree_nil
  · intro b hb
    rcases List.mem_append.mp hb with hleft | hright
    · exact hname b hleft
    · exact (by decide : NulFree (ascii "port")) b hright

theorem Consistent.fits {con : ConnectionBase ν ρ} {q : DBQuery} {res : Option ResultId}
    {eh eh' : HandlerId} (h : Consistent con q res eh eh') : q.FitsMessages := by
  have hparse := messages_first 'P'.toUInt8 sized_parseBody h.prepared
  have hbind := messages_first 'B'.toUInt8 sized_bindBody h.bound
  have hvalues : ((q.bindValue.map some).map fun v : Option Str => 4 + (v.getD []).length).sum =
      (q.bindValue.map fun v => v.length + 4).sum := by
    simp only [List.map_map, Function.comp_def, Option.getD_some, Nat.add_comm 4]
  simp only [Fields.size, List.map_nil, List.sum_nil, hvalues, List.map_cons, List.sum_cons] at *
  exact ⟨by omega, by omega⟩

theorem writes_sendable {q : DBQuery} (hname : NulFree q.name) (hquery : NulFree q.query)
    (hvalues : q.bindValue.length ≤ 65535) (hfits : q.FitsMessages) (res : Option ResultId)
    (eh eh' : HandlerId) :
    ∀ msg ∈ Call.writes (.parse q eh) ++ Call.writes (.execQuery q res eh'), msg.Sendable := by
  have hportal := portal_nulFree hname
  have hparse := hfits.parse
  have hbind := hfits.bind
  intro msg hmsg
  simp only [Call.writes, List.cons_append, List.nil_append, List.mem_cons, List.not_mem_nil,
    or_false] at hmsg
  rcases hmsg with rfl | rfl | rfl | rfl | rfl | rfl
  · exact ⟨⟨hname, hquery, rfl⟩, by rw [parse_body_length]; exact hparse⟩
  · exact ⟨trivial, by decide⟩
  · exact ⟨⟨hname, hportal, hvalues⟩, by rw [bind_body_length]; exact hbind⟩
  · refine ⟨⟨hname, hportal⟩, ?_⟩
    change (Describe.serialize q.name q.portal []).length ≤ _
    unfold Describe.serialize
    split
    · simp only [serializeString, serializeByte1, List.length_append, List.length_singleton,
        List.length_nil]
      omega
    · simp only [serializeString, serializeByte1, List.length_append, List.length_singleton,
        List.length_nil]
      omega
  · refine ⟨hportal, ?_⟩
    change (Execute.serialize q.portal []).length ≤ _
    simp only [Execute.serialize, serializeString, serializeInt32, List.length_append,
      List.length_singleton, List.length_nil, be32_length]
    omega
  · exact ⟨trivial, by decide⟩

theorem writes_typed (c : Call) : ∀ msg ∈ c.writes, msg.untyped = false := by
  cases c <;> simp [Call.writes, Message.untyped]

/-- The portal is empty exactly if the name is. -/
theorem describe_fields (q : DBQuery) :
    Message.fields (.describe q.name q.portal) =
      if q.name = [] then .describe 'S'.toUInt8 q.name else .describe 'P'.toUInt8 q.portal := by
  by_cases hname : q.name = []
  · have hportal : q.portal = [] := by
      simp [DBQuery.portal, hname]
    simp [Message.fields, hname, hportal]
  · simp [Message.fields, hname, portal_of_name hname]

/-- What `parse` and `exec` of a query write is one pipeline exactly if the query's
texts are short enough for the length fields of its Parse and its Bind. -/
theorem consistent_iff (con : ConnectionBase ν ρ) (q : DBQuery) (hname : NulFree q.name)
    (hquery : NulFree q.query) (hvalues : q.bindValue.length ≤ 65535) (res : Option ResultId)
    (eh eh' : HandlerId) : Consistent con q res eh eh' ↔ q.FitsMessages := by
  constructor
  · exact Consistent.fits
  · intro hfits
    have hsendable := writes_sendable hname hquery hvalues hfits res eh eh'
    refine ⟨parse_pipelines con q eh, ?_, execQuery_pipelines con q res eh', ?_, ?_⟩
    · exact messages_wire _ (fun msg hmsg => hsendable msg (List.mem_append_left _ hmsg))
        (writes_typed _)
    · rw [messages_wire _ (fun msg hmsg => hsendable msg (List.mem_append_right _ hmsg))
        (writes_typed _), ← describe_fields]
      rfl
    · intro other hnamed hother hdiffer
      exact portals_differ hnamed hother hdiffer

theorem consistent_iff_named :
    Consistent (AsyncConnection.con : ConnectionBase (List ConnCall) Unit)
      ⟨ascii "select $1", ascii "s", [ascii "1"]⟩ none 0 1 := by
  apply (consistent_iff _ ⟨ascii "select $1", ascii "s", [ascii "1"]⟩ ?_ ?_ ?_ none 0 1).mpr
  · exact ⟨by decide, by decide⟩
  · decide
  · decide
  · decide

/-- A query with one value of the given length. -/
def oneValue (n : Nat) : DBQuery := ⟨ascii "select $1", [], [List.replicate n 97]⟩

theorem oneValue_not_fits (n : Nat) (hn : 2 ^ 31 ≤ n) : ¬ (oneValue n).FitsMessages := by
  intro hfits
  have hsum : ((oneValue n).bindValue.map fun v => v.length + 4).sum = n + 4 := by
    simp [oneValue]
  have hbind := hfits.bind
  rw [hsum] at hbind
  omega

/-- With a value of 2 GiB the length field of the Bind is negative. -/
theorem oneValue_not_consistent :
    NulFree (oneValue (2 ^ 31)).name ∧ NulFree (oneValue (2 ^ 31)).query ∧
      (oneValue (2 ^ 31)).bindValue.length ≤ 65535 ∧
      ¬ Consistent (AsyncConnection.con : ConnectionBase (List ConnCall) Unit)
        (oneValue (2 ^ 31)) none 0 1 := by
  have hquery : NulFree (ascii "select $1") := by decide
  have hcount (n : Nat) : (oneValue n).bindValue.length ≤ 65535 := by
    simp [oneValue]
  refine ⟨nulFree_nil, hquery, hcount _, ?_⟩
  intro hconsistent
  exact oneValue_not_fits _ (Nat.le_refl _) hconsistent.fits

end Lapq
