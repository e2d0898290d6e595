import Lapq.Lib.Reader
import Lapq.Semantics.Protocol

/-!
The frontend messages on the wire. A reference decoder of the protocol reads
what the server reads: frames with or without a type byte, and the fields of
each body. It knows how many frames at the start of the stream have no type
byte. Reading back what a sequence of messages was written as gives the frames
and the fields of these messages.
-/

namespace Lapq

open Bytes

/-! The reference decoder. -/

structure Frame where
  mtype : Option MessageType
  body : Buffer
deriving DecidableEq, Repr

/-- The fields of a message, as the protocol lays them out. A parameter value
may be NULL, and format codes and row limits are explicit. The source's `Close`
has none of its fields, and the decoder reads no such message. -/
inductive Fields where
  | sslRequest
  | startUp (version : Nat) (option : List (Str × Str))
  | password (text : Str)
  | query (text : Str)
  | parse (name query : Str) (oids : List Nat)
  | bind (portal statement : Str) (formats : List Nat) (values : List (Option Str))
      (resultFormats : List Nat)
  | describe (kind : UInt8) (name : Str)
  | execute (portal : Str) (maxRows : Nat)
  | close
  | flush
  | sync
  | terminate
deriving DecidableEq, Repr

namespace Decoder

def frame (typed : Bool) : Reader Frame :=
  if typed then do
    let mtype ← Reader.byte
    let len ← Reader.u32
    if len < 4 then Reader.fail
    else do
      let body ← Reader.take (len - 4)
      pure ⟨some mtype, body⟩
  else do
    let len ← Reader.u32
    if len < 4 then Reader.fail
    else do
      let body ← Reader.take (len - 4)
      pure ⟨none, body⟩

def frames (untyped : Nat) (bytes : Buffer) : Option (List Frame) :=
  Reader.exhaust (fun k => frame (untyped ≤ k)) (bytes.length + 1) 0 bytes

/-- A 16-bit count, read as unsigned, and as many items. -/
def counted {α : Type} (item : Reader α) : Reader (List α) := do
  let n ← Reader.u16
  Reader.times item n

/-- A parameter value; the length -1 stands for NULL. -/
def value : Reader (Option Str) := do
  let n ← Reader.u32
  if n = 2 ^ 32 - 1 then pure none
  else do
    let s ← Reader.take n
    pure (some s)

/-- A name and its setting; an empty name ends the list. -/
def setting : Reader (Option (Str × Str)) := do
  let key ← Reader.cstring
  if key.isEmpty then pure none
  else do
    let text ← Reader.cstring
    pure (some (key, text))

def untypedBody : Reader Fields := do
  let code ← Reader.u32
  if code = 80877103 then pure .sslRequest
  else do
    let option ← Reader.many setting
    pure (.startUp code option)

def bindBody : Reader Fields := do
  let portal ← Reader.cstring
  let statement ← Reader.cstring
  let formats ← counted Reader.u16
  let values ← counted value
  let resultFormats ← counted Reader.u16
  pure (.bind portal statement formats values resultFormats)

def parseBody : Reader Fields := do
  let name ← Reader.cstring
  let query ← Reader.cstring
  let oids ← counted Reader.u32
  pure (.parse name query oids)

def describeBody : Reader Fields := do
  let kind ← Reader.byte
  let name ← Reader.cstring
  pure (.describe kind name)

def executeBody : Reader Fields := do
  let portal ← Reader.cstring
  let maxRows ← Reader.u32
  pure (.execute portal maxRows)

def textBody (make : Str → Fields) : Reader Fields := do
  let text ← Reader.cstring
  pure (make text)

/-- The body of a frame, by its type. -/
def body : Option MessageType → Reader Fields
  | none => untypedBody
  | some mtype =>
      if mtype = 'p'.toUInt8 then textBody .password
      else if mtype = 'Q'.toUInt8 then textBody .query
      else if mtype = 'P'.toUInt8 then parseBody
      else if mtype = 'B'.toUInt8 then bindBody
      else if mtype = 'D'.toUInt8 then describeBody
      else if mtype = 'E'.toUInt8 then executeBody
      else if mtype = 'H'.toUInt8 then pure .flush
      else if mtype = 'S'.toUInt8 then pure .sync
      else if mtype = 'X'.toUInt8 then pure .terminate
      else Reader.fail

/-- The frames of a stream, each with the fields of its body. -/
def stream (untyped : Nat) (bytes : Buffer) : Option (List (Frame × Fields)) := do
  let fs ← frames untyped bytes
  fs.mapM fun f => do
    let fields ← Reader.whole (body f.mtype) f.body
    pure (f, fields)

end Decoder

/-! What the messages mean. -/

namespace Message

def untyped : Message → Bool
  | .sslRequest | .startUp _ => true
  | _ => false

def body (msg : Message) : Buffer := (msg.serializeBody []).2

def frame (msg : Message) : Frame :=
  ⟨if msg.untyped then none else some msg.messageType, msg.body⟩

/-- The fields a message carries. All parameters are sent in text format, one
result format asks for text, and the row limit 0 asks for all rows. -/
def fields : Message → Fields
  | .sslRequest => .sslRequest
  | .startUp option => .startUp 196608 option.entries
  | .bind name portal values => .bind portal name [] (values.map some) [0]
  | .describe name portal =>
      if portal.isEmpty then .describe 'S'.toUInt8 name else .describe 'P'.toUInt8 portal
  | .execute portal => .execute portal 0
  | .parse name text _ => .parse name text []
  | .password text => .password text
  | .query text => .query text
  | .close => .close
  | .flush => .flush
  | .sync => .sync
  | .terminate => .terminate

/-- Strings have no NUL byte, names of options are not empty, and counts fit
their fields. -/
def Valid : Message → Prop
  | .sslRequest | .flush | .sync | .terminate => True
  | .close => False
  | .startUp option => ∀ e ∈ option.entries, e.1 ≠ [] ∧ NulFree e.1 ∧ NulFree e.2
  | .bind name portal values => NulFree name ∧ NulFree portal ∧ values.length ≤ 65535
  | .describe name portal => NulFree name ∧ NulFree portal
  | .execute portal => NulFree portal
  | .parse name text oid => NulFree name ∧ NulFree text ∧ oid = []
  | .password text => NulFree text
  | .query text => NulFree text

/-- A message that can be sent: its length fits the header. -/
structure Sendable (msg : Message) : Prop where
  valid : msg.Valid
  length : msg.body.length ≤ 2 ^ 31 - 5

end Message

/-! Reading back one message. -/

theorem serializeBody_success (msg : Message) (buf : Buffer) :
    (msg.serializeBody buf).1 = .success := by
  cases msg <;> rfl

theorem foldl_serialize {α : Type} (write : α → Buffer → Buffer) (encode : α → Buffer)
    (hwrite : ∀ a buf, write a buf = buf ++ encode a) (l : List α) (buf : Buffer) :
    l.foldl (fun b a => write a b) buf = buf ++ l.flatMap encode := by
  simp only [hwrite, List.foldl_append_eq_append, List.flatMap_def]

namespace Message

/-- A message on the wire: the type byte if it has one, its length and its body. -/
theorem wire_eq (msg : Message) (hlength : msg.body.length ≤ 2 ^ 31 - 5) :
    msg.wire = (if msg.untyped then [] else [msg.messageType]) ++
      (be32 (msg.body.length + 4) ++ msg.body) := by
  have hlen : signed32 (pattern 32 msg.body.length) = msg.body.length := by
    apply signed32_pattern
    · omega
    · omega
  have hpattern : pattern 32 ((msg.body.length : Int) + 4) = msg.body.length + 4 := by
    exact_mod_cast pattern_natCast 32 (msg.body.length + 4) (by omega)
  have hok := serializeBody_success msg []
  have hheader : msg.serialize.2.1 =
      (if msg.messageType ≠ 0 then [msg.messageType] else []) ++ be32 (msg.body.length + 4) := by
    unfold Message.serialize
    rw [show msg.serializeBody [] = (.success, msg.body) from Prod.ext hok rfl]
    simp only [ErrorCode.isError_success, Bool.false_eq_true, if_false, hlen,
      Header.serialize, serializeInt32, serializeByte1, hpattern, List.nil_append]
  have hbody : msg.serialize.2.2 = msg.body := by
    unfold Message.serialize
    rw [show msg.serializeBody [] = (.success, msg.body) from Prod.ext hok rfl]
    rfl
  have htag : (if msg.messageType ≠ 0 then [msg.messageType] else []) =
      if msg.untyped then [] else [msg.messageType] := by
    cases msg <;> rfl
  rw [Message.wire, hheader, hbody, htag, List.append_assoc]

theorem reads_frame (msg : Message) (hlength : msg.body.length ≤ 2 ^ 31 - 5) :
    Reads (Decoder.frame (!msg.untyped)) msg.wire msg.frame := by
  have hlen := Reads.u32 (msg.body.length + 4) (by omega)
  have hshort : ¬ (msg.body.length + 4 < 4) := by omega
  have htake : Reads (Reader.take (msg.body.length + 4 - 4)) msg.body msg.body := by
    rw [Nat.add_sub_cancel]
    exact Reads.take msg.body
  rw [wire_eq msg hlength]
  cases huntyped : msg.untyped with
  | true =>
      have hframe : msg.frame = ⟨none, msg.body⟩ := by
        simp [frame, huntyped]
      simp only [Decoder.frame, Bool.not_true, Bool.false_eq_true, if_false, if_true,
        List.nil_append, hframe]
      apply Reads.bind hlen
      rw [if_neg hshort]
      exact Reads.map htake _
  | false =>
      have hframe : msg.frame = ⟨some msg.messageType, msg.body⟩ := by
        simp [frame, huntyped]
      simp only [Decoder.frame, Bool.not_false, if_true, Bool.false_eq_true, if_false, hframe]
      apply Reads.bind (Reads.byte msg.messageType)
      apply Reads.bind hlen
      rw [if_neg hshort]
      exact Reads.map htake _

end Message

theorem reads_counted {α γ : Type} {r : Reader α} {encode : γ → Buffer} (value : γ → α)
    (l : List γ) (hcount : l.length < 2 ^ 16)
    (hitem : ∀ c ∈ l, Reads r (encode c) (value c)) :
    Reads (Decoder.counted r) (be16 l.length ++ l.flatMap encode) (l.map value) :=
  Reads.bind (Reads.u16 l.length hcount) (Reads.times value l hitem)

theorem reads_value (s : Str) (hs : s.length < 2 ^ 32 - 1) :
    Reads Decoder.value (be32 s.length ++ s) (some s) := by
  apply Reads.bind (Reads.u32 s.length (by omega))
  rw [if_neg (by omega)]
  exact Reads.map (Reads.take s) some

theorem reads_setting (e : Str × Str) (hkey : e.1 ≠ []) (hname : NulFree e.1)
    (htext : NulFree e.2) : Reads Decoder.setting (cstr e.1 ++ cstr e.2) (some e) := by
  apply Reads.bind (Reads.cstring e.1 hname)
  rw [if_neg (by simpa using hkey)]
  exact Reads.map (Reads.cstring e.2 htext) fun text => some (e.1, text)

theorem reads_sslRequest :
    Reads Decoder.untypedBody (Message.body .sslRequest) (Message.fields .sslRequest) := by
  have hbody : Message.body .sslRequest = be32 80877103 ++ [] := by decide
  rw [hbody]
  apply Reads.bind (Reads.u32 80877103 (by decide))
  rw [if_pos rfl]
  exact Reads.pure Fields.sslRequest

theorem reads_startUp (option : DBOption) (hvalid : Message.Valid (.startUp option)) :
    Reads Decoder.untypedBody (Message.body (.startUp option))
      (Message.fields (.startUp option)) := by
  have hbody : Message.body (.startUp option) =
      be32 196608 ++ (option.entries.flatMap (fun e => cstr e.1 ++ cstr e.2) ++ cstr []) := by
    have hfold := foldl_serialize (fun e b => serializeString e.2 (serializeString e.1 b))
      (fun e : Str × Str => cstr e.1 ++ cstr e.2)
      (fun e buf => by simp [serializeString, cstr]) option.entries (be32 196608)
    change serializeOption option (serializeInt32 protocolVersion []) = _
    unfold serializeOption
    rw [show serializeInt32 protocolVersion [] = be32 196608 from rfl, hfold]
    simp [cstr]
  have hstop : Reads Decoder.setting (cstr []) none := by
    have hbind := Reads.bind (f := fun key : Str => if key.isEmpty then pure none else do
      let text ← Reader.cstring
      pure (some (key, text))) (Reads.cstring [] nulFree_nil) (Reads.pure none)
    exact hbind
  have hsettings := Reads.many id option.entries
    (fun e he => reads_setting e (hvalid e he).1 (hvalid e he).2.1 (hvalid e he).2.2) hstop
    (fun e _ => by simp)
  rw [List.map_id] at hsettings
  rw [hbody]
  apply Reads.bind (Reads.u32 196608 (by decide))
  rw [if_neg (by decide)]
  exact Reads.map hsettings (Fields.startUp 196608)

theorem reads_bind (name portal : Str) (values : List Str)
    (hvalid : Message.Valid (.bind name portal values))
    (hlength : (Message.body (.bind name portal values)).length ≤ 2 ^ 31 - 5) :
    Reads Decoder.bindBody (Message.body (.bind name portal values))
      (Message.fields (.bind name portal values)) := by
  obtain ⟨hname, hportal, hcount⟩ := hvalid
  have hpattern : pattern 16 (values.length : Int) = values.length :=
    pattern_natCast 16 values.length (by omega)
  have hfold (buf : Buffer) := foldl_serialize
    (fun s b => serializeByte s (serializeInt32 (List.length s) b))
    (fun s : Str => be32 (pattern 32 s.length) ++ s)
    (fun s buf => by simp [serializeByte, serializeInt32]) values buf
  have hbody : Message.body (.bind name portal values) =
      cstr portal ++ (cstr name ++ ((be16 0 ++ []) ++ ((be16 values.length ++
        values.flatMap fun s => be32 (pattern 32 s.length) ++ s) ++
        (be16 1 ++ [0].flatMap be16)))) := by
    change Bind.serialize name portal values [] = _
    simp only [Bind.serialize, hfold, serializeInt16, serializeString, hpattern]
    simp [cstr, pattern]
  have hvalue (s : Str) (hs : s ∈ values) :
      Reads Decoder.value (be32 (pattern 32 s.length) ++ s) (some s) := by
    have hle : s.length ≤ 2 ^ 31 - 5 := by
      have hmem : (be32 (pattern 32 s.length) ++ s).length ≤
          (values.flatMap fun s => be32 (pattern 32 s.length) ++ s).length := by
        have hmap := List.mem_map_of_mem (f := fun s : Str => be32 (pattern 32 s.length) ++ s) hs
        rw [List.flatMap_def]
        exact (List.sublist_flatten_of_mem hmap).length_le
      rw [hbody] at hlength
      simp only [List.length_append] at hlength hmem
      omega
    rw [pattern_natCast 32 s.length (by omega)]
    exact reads_value s (by omega)
  rw [hbody]
  refine Reads.bind (Reads.cstring portal hportal) (Reads.bind (Reads.cstring name hname) ?_)
  apply Reads.bind (a := []) (Reads.bind (Reads.u16 0 (by decide)) (Reads.pure []))
  apply Reads.bind (reads_counted some values (by omega) hvalue)
  have hformat := reads_counted id [0] (by decide)
    (fun n hn => Reads.u16 n (by rw [List.mem_singleton.mp hn]; decide))
  exact Reads.map hformat (Fields.bind portal name [] (values.map some))

theorem reads_text (make : Str → Fields) (text : Str) (htext : NulFree text) :
    Reads (Decoder.textBody make) (cstr text) (make text) :=
  Reads.map (Reads.cstring text htext) make

theorem reads_describe (name portal : Str) (hname : NulFree name) (hportal : NulFree portal) :
    Reads Decoder.describeBody (Message.body (.describe name portal))
      (Message.fields (.describe name portal)) := by
  have hkind (kind : UInt8) (s : Str) (hs : NulFree s) :
      Reads Decoder.describeBody ([kind] ++ cstr s) (.describe kind s) :=
    Reads.bind (Reads.byte kind) (Reads.map (Reads.cstring s hs) (Fields.describe kind))
  cases portal with
  | nil => exact hkind 'S'.toUInt8 name hname
  | cons c rest => exact hkind 'P'.toUInt8 (c :: rest) hportal

theorem reads_execute (portal : Str) (hportal : NulFree portal) :
    Reads Decoder.executeBody (Message.body (.execute portal))
      (Message.fields (.execute portal)) :=
  Reads.bind (Reads.cstring portal hportal)
    (Reads.map (Reads.u32 0 (by decide)) (Fields.execute portal))

theorem reads_parse (name query : Str) (hname : NulFree name) (hquery : NulFree query) :
    Reads Decoder.parseBody (Message.body (.parse name query []))
      (Message.fields (.parse name query [])) := by
  have hnone : Reads (Decoder.counted Reader.u32) (be16 0) [] :=
    Reads.bind (Reads.u16 0 (by decide)) (Reads.pure [])
  have hbody : Message.body (.parse name query []) = cstr name ++ (cstr query ++ be16 0) := by
    change Parse.serialize name query [] [] = _
    simp [Parse.serialize, serializeOids, serializeString, serializeInt16, cstr, pattern]
  rw [hbody]
  exact Reads.bind (Reads.cstring name hname)
    (Reads.bind (Reads.cstring query hquery) (Reads.map hnone (Fields.parse name query)))

theorem reads_body (msg : Message) (hmsg : msg.Sendable) :
    Reads (Decoder.body msg.frame.mtype) msg.body msg.fields := by
  obtain ⟨hvalid, hlength⟩ := hmsg
  cases msg with
  | sslRequest => exact reads_sslRequest
  | startUp option => exact reads_startUp option hvalid
  | bind name portal values => exact reads_bind name portal values hvalid hlength
  | close => exact hvalid.elim
  | describe name portal => exact reads_describe name portal hvalid.1 hvalid.2
  | execute portal => exact reads_execute portal hvalid
  | flush => exact Reads.pure Fields.flush
  | parse name query oid =>
      obtain ⟨hname, hquery, rfl⟩ := hvalid
      exact reads_parse name query hname hquery
  | password text => exact reads_text .password text hvalid
  | query text => exact reads_text .query text hvalid
  | sync => exact Reads.pure Fields.sync
  | terminate => exact Reads.pure Fields.terminate

/-! Reading back a stream. -/

theorem wire_ne_nil (msg : Message) (hmsg : msg.Sendable) : msg.wire ≠ [] := by
  rw [Message.wire_eq msg hmsg.length]
  simp [be32]

theorem length_le_wire (msgs : List Message) (hmsgs : ∀ m ∈ msgs, m.Sendable) :
    msgs.length ≤ (msgs.flatMap Message.wire).length := by
  induction msgs with
  | nil => simp
  | cons msg rest ih =>
      have hhead := List.length_pos_iff.mpr (wire_ne_nil msg (hmsgs msg List.mem_cons_self))
      have htail := ih fun m hm => hmsgs m (List.mem_cons_of_mem _ hm)
      simp only [List.length_cons, List.flatMap_cons, List.length_append]
      omega

/-- The frames at the start have no type byte and the others have one. -/
theorem reads_frame_at {opening rest : List Message}
    (hmsgs : ∀ m ∈ opening ++ rest, m.Sendable)
    (hopening : ∀ m ∈ opening, m.untyped = true) (hrest : ∀ m ∈ rest, m.untyped = false)
    (i : Nat) (msg : Message) (hmsg : (opening ++ rest)[i]? = some msg) :
    Reads (Decoder.frame (opening.length ≤ 0 + i)) msg.wire msg.frame := by
  have hframe := msg.reads_frame (hmsgs msg (List.mem_of_getElem? hmsg)).length
  have htyped : decide (opening.length ≤ 0 + i) = !msg.untyped := by
    rw [Nat.zero_add]
    rcases Nat.lt_or_ge i opening.length with hlt | hge
    · rw [List.getElem?_append_left hlt] at hmsg
      rw [hopening msg (List.mem_of_getElem? hmsg)]
      simpa using hlt
    · rw [List.getElem?_append_right hge] at hmsg
      rw [hrest msg (List.mem_of_getElem? hmsg)]
      simpa using hge
  rw [htyped]
  exact hframe

theorem frames_wire (opening rest : List Message)
    (hmsgs : ∀ m ∈ opening ++ rest, m.Sendable)
    (hopening : ∀ m ∈ opening, m.untyped = true) (hrest : ∀ m ∈ rest, m.untyped = false) :
    Decoder.frames opening.length ((opening ++ rest).flatMap Message.wire) =
      some ((opening ++ rest).map Message.frame) := by
  apply Reads.exhaust
  · exact Nat.lt_succ_of_le (length_le_wire _ hmsgs)
  · exact reads_frame_at hmsgs hopening hrest
  · intro msg hmsg
    exact wire_ne_nil msg (hmsgs msg hmsg)

/-- A stream of frontend messages, those without a type byte first, decodes to
exactly its frames and their fields. -/
theorem frontend_roundtrip (opening rest : List Message)
    (hmsgs : ∀ m ∈ opening ++ rest, m.Sendable)
    (hopening : ∀ m ∈ opening, m.untyped = true) (hrest : ∀ m ∈ rest, m.untyped = false) :
    (∀ m ∈ opening ++ rest, m.wire = (if m.untyped then [] else [m.messageType]) ++
      (be32 (m.body.length + 4) ++ m.body)) ∧
    Decoder.stream opening.length ((opening ++ rest).flatMap Message.wire) =
      some ((opening ++ rest).map fun m => (m.frame, m.fields)) := by
  constructor
  · intro m hm
    exact m.wire_eq (hmsgs m hm).length
  · simp only [Decoder.stream, frames_wire opening rest hmsgs hopening hrest]
    generalize opening ++ rest = msgs at hmsgs
    change (msgs.map Message.frame).mapM _ = _
    induction msgs with
    | nil => rfl
    | cons msg more ih =>
        have hbody : Reader.whole (Decoder.body msg.frame.mtype) msg.frame.body =
            some msg.fields := (reads_body msg (hmsgs msg List.mem_cons_self)).whole
        have hmore := ih fun m hm => hmsgs m (List.mem_cons_of_mem _ hm)
        rw [List.map_cons, List.mapM_cons, hmore, hbody]
        rfl

theorem frontend_roundtrip_prepared :
    let opening := [Message.sslRequest,
      .startUp (OrderedMap.empty.emplace (ascii "user") (ascii "u"))]
    let rest := [Message.parse (ascii "s") (ascii "select $1") [],
      .bind (ascii "s") (ascii "sport") [[0, 255]], .describe (ascii "s") (ascii "sport"), .sync]
    Decoder.stream 2 ((opening ++ rest).flatMap Message.wire) =
      some ((opening ++ rest).map fun m => (m.frame, m.fields)) := by
  refine (frontend_roundtrip
    [.sslRequest, .startUp (OrderedMap.empty.emplace (ascii "user") (ascii "u"))]
    [.parse (ascii "s") (ascii "select $1") [], .bind (ascii "s") (ascii "sport") [[0, 255]],
      .describe (ascii "s") (ascii "sport"), .sync] ?_ (by decide) (by decide)).2
  intro m hm
  simp only [List.cons_append, List.nil_append, List.mem_cons, List.not_mem_nil,
    or_false] at hm
  rcases hm with rfl | rfl | rfl | rfl | rfl | rfl
  · exact ⟨trivial, by decide⟩
  · refine ⟨?_, by decide⟩
    change ∀ e ∈ [(ascii "user", ascii "u")], e.1 ≠ [] ∧ NulFree e.1 ∧ NulFree e.2
    decide
  · exact ⟨⟨by decide, by decide, rfl⟩, by decide⟩
  · exact ⟨⟨by decide, by decide, by decide⟩, by decide⟩
  · exact ⟨⟨by decide, by decide⟩, by decide⟩
  · exact ⟨trivial, by decide⟩

end Lapq
