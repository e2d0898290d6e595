import Lapq.Semantics.Result

/-!
Messages of the protocol (`protocol.h`, `protocol.cpp`): how the frontend
messages are written and how the backend messages are read.

The readers follow the source's cursor: each helper takes the buffer and a
position and returns the value with the number of bytes it took. None of them
checks the buffer's length, so a read past its end aborts as undefined.
`DataRow::deserialize` calls the result while it reads and stands with the
state machine.
-/

namespace Lapq

open Bytes

abbrev MessageType := UInt8

/-- The connection options, in the key order of `std::map`. -/
abbrev DBOption := OrderedMap Str Str

abbrev Byte4 := UInt8 × UInt8 × UInt8 × UInt8

def protocolVersion : Int := 196608

def sslRequestCode : Int := 80877103

/-! Writing. The integer helpers take any integer: narrowing to the width of
the field is what the implicit conversions at the call sites do. -/

def serializeInt16 (val : Int) (buf : Buffer) : Buffer := buf ++ be16 (pattern 16 val)

def serializeInt32 (val : Int) (buf : Buffer) : Buffer := buf ++ be32 (pattern 32 val)

def serializeByte1 (c : UInt8) (buf : Buffer) : Buffer := buf ++ [c]

def serializeByte (s : Str) (buf : Buffer) : Buffer := buf ++ s

def serializeString (s : Str) (buf : Buffer) : Buffer := buf ++ s ++ [0]

def serializeOption (option : DBOption) (buf : Buffer) : Buffer :=
  (option.entries.foldl (fun b e => serializeString e.2 (serializeString e.1 b)) buf) ++ [0]

/-- The bytes of a 32-bit value in the memory of a little-endian host, which is
what the generic `serialize` appends. -/
def serializeRaw32 (val : Int) (buf : Buffer) : Buffer := buf ++ (be32 (pattern 32 val)).reverse

def serializeOids (oid : List Int) (buf : Buffer) : Buffer :=
  oid.foldl (fun b t => serializeRaw32 t b) (serializeInt16 oid.length buf)

/-- The messages the client sends. -/
inductive Message where
  | sslRequest
  | startUp (option : DBOption)
  | bind (name portal : Str) (values : List Str)
  | close
  | describe (name portal : Str)
  | execute (portal : Str)
  | flush
  | parse (name query : Str) (oid : List Int)
  | password (md5hex : Str)
  | query (q : Str)
  | sync
  | terminate

def Message.messageType : Message → MessageType
  | .sslRequest | .startUp _ => 0
  | .bind .. => 'B'.toUInt8
  | .close => 'C'.toUInt8
  | .describe .. => 'D'.toUInt8
  | .execute _ => 'E'.toUInt8
  | .flush => 'H'.toUInt8
  | .parse .. => 'P'.toUInt8
  | .password _ => 'p'.toUInt8
  | .query _ => 'Q'.toUInt8
  | .sync => 'S'.toUInt8
  | .terminate => 'X'.toUInt8

def StartUp.serialize (option : DBOption) (buf : Buffer) : Buffer :=
  serializeOption option (serializeInt32 protocolVersion buf)

def Bind.serialize (name portal : Str) (bind : List Str) (buf : Buffer) : Buffer :=
  let buf := serializeString portal buf
  let buf := serializeString name buf
  let buf := serializeInt16 0 buf
  let buf := serializeInt16 bind.length buf
  let buf := bind.foldl (fun b s => serializeByte s (serializeInt32 s.length b)) buf
  serializeInt16 0 (serializeInt16 1 buf)

def Describe.serialize (name portal : Str) (buf : Buffer) : Buffer :=
  if !portal.isEmpty then serializeString portal (serializeByte1 'P'.toUInt8 buf)
  else serializeString name (serializeByte1 'S'.toUInt8 buf)

def Execute.serialize (portal : Str) (buf : Buffer) : Buffer :=
  serializeInt32 0 (serializeString portal buf)

def Parse.serialize (name query : Str) (oid : List Int) (buf : Buffer) : Buffer :=
  serializeOids oid (serializeString query (serializeString name buf))

/-- The virtual `serialize` of each message. Every one of them reports success. -/
def Message.serializeBody (buf : Buffer) : Message → ErrorCode × Buffer
  | .sslRequest => (.success, serializeInt32 sslRequestCode buf)
  | .startUp option => (.success, StartUp.serialize option buf)
  | .bind name portal values => (.success, Bind.serialize name portal values buf)
  | .describe name portal => (.success, Describe.serialize name portal buf)
  | .execute portal => (.success, Execute.serialize portal buf)
  | .parse name text oid => (.success, Parse.serialize name text oid buf)
  | .password md5hex => (.success, serializeString md5hex buf)
  | .query q => (.success, serializeString q buf)
  | .close | .flush | .sync | .terminate => (.success, buf)

structure Header where
  mtype : MessageType
  bodyLen : Int
deriving DecidableEq, Repr

def Header.size : Nat := 5

/-- The source adds the 4 as an `int`, which for body lengths from `2 ^ 31 - 4` to
`2 ^ 31 - 1` overflows and has no defined behaviour. The sum wraps here: writing is
a function of every message, and what is proved of a message that can be sent
assumes a shorter body. -/
def Header.serialize (header : Header) (buf : Buffer) : ErrorCode × Buffer :=
  let buf := if header.mtype ≠ 0 then serializeByte1 header.mtype buf else buf
  (.success, serializeInt32 (header.bodyLen + 4) buf)

/-- `Message::serialize` into fresh buffers: the header buffer and the body
buffer. The body size is narrowed to 32 bits by the header's constructor. -/
def Message.serialize (msg : Message) : ErrorCode × Buffer × Buffer :=
  let (ec, body) := msg.serializeBody []
  if ec.isError then (ec, [], body)
  else
    let header : Header := ⟨msg.messageType, signed32 (pattern 32 body.length)⟩
    let (ec, head) := header.serialize []
    (ec, head, body)

/-- What `syncWrite` and `asyncWrite` hand to the socket. They do not look at
the error code of `Message::serialize`. -/
def Message.wire (msg : Message) : Buffer := msg.serialize.2.1 ++ msg.serialize.2.2

/-- `Password::Password`. The hash is a parameter: it is OpenSSL's. -/
def toHex (t : List UInt8) : Str :=
  let digit (n : UInt8) : UInt8 := if n < 10 then 48 + n else 87 + n
  t.flatMap fun b => [digit (b / 16), digit (b % 16)]

def Password.make (md5 : Str → List UInt8) (user pass : Str) (salt : Byte4) : Message :=
  let s := toHex (md5 (pass ++ user))
  let s := s ++ [salt.1, salt.2.1, salt.2.2.1, salt.2.2.2]
  .password (ascii "md5" ++ toHex (md5 s))

/-! Reading. -/

def deserializeString (buf : Buffer) (pos : Nat) : Except Abort (Str × Nat) :=
  match readCstr (buf.drop pos) with
  | some s => .ok (s, s.length + 1)
  | none => .error .undefined

/-- The 16 bits are not sign-extended. -/
def deserializeInt16 (buf : Buffer) (pos : Nat) : Except Abort (Int × Nat) :=
  match read16 (buf.drop pos) with
  | some n => .ok (n, 2)
  | none => .error .undefined

def deserializeInt32 (buf : Buffer) (pos : Nat) : Except Abort (Int × Nat) :=
  match read32 (buf.drop pos) with
  | some n => .ok (signed32 n, 4)
  | none => .error .undefined

def deserializeByte1 (buf : Buffer) (pos : Nat) : Except Abort (UInt8 × Nat) := do
  let c ← readByte buf pos
  pure (c, 1)

def deserializeByte4 (buf : Buffer) (pos : Nat) : Except Abort (Byte4 × Nat) :=
  match buf.drop pos with
  | a :: b :: c :: d :: _ => .ok ((a, b, c, d), 4)
  | _ => .error .undefined

/-- `Header::deserialize`: the subtraction overflows on the four smallest
lengths. -/
def Header.deserialize (buf : Buffer) : Except Abort (ErrorCode × Header) :=
  if buf.length < Header.size then .ok (.emsgsize, ⟨0, 0⟩)
  else do
    let (mtype, pos) ← deserializeByte1 buf 0
    let (len, _) ← deserializeInt32 buf pos
    if len - 4 < -2 ^ 31 then .error .undefined
    else pure (.success, ⟨mtype, len - 4⟩)

/-- The two checks at the head of every `deserialize`. The signed length is
compared as a `std::size_t`. -/
def Message.check (mtype : MessageType) (header : Header) (buf : Buffer) : ErrorCode :=
  if buf.length < toSize header.bodyLen then .emsgsize
  else if header.mtype ≠ mtype then .ebadmsg
  else .success

namespace Authentication

def mtype : MessageType := 'R'.toUInt8

def authOk : Int := 0

def authMd5Password : Int := 5

structure Fields where
  authType : Int
  salt : Byte4
deriving DecidableEq, Repr

/-- `Authentication::deserialize`. A salt that is not read keeps the value of
the uninitialised member, which is a parameter. -/
def deserialize (uninitialised : Byte4) (header : Header) (buf : Buffer) :
    Except Abort (ErrorCode × Fields) :=
  let ec := Message.check mtype header buf
  if ec.isError then .ok (ec, ⟨0, uninitialised⟩)
  else do
    let (authType, pos) ← deserializeInt32 buf 0
    if header.bodyLen > 4 ∧ authType = authMd5Password then
      let (salt, _) ← deserializeByte4 buf pos
      pure (.success, ⟨authType, salt⟩)
    else pure (.success, ⟨authType, uninitialised⟩)

end Authentication

/-- The loop of `ErrorResponse::deserialize` and `NoticeResponse::deserialize`.
A round starts by reading at the cursor, so no loop over a buffer has more
rounds than the buffer has bytes, and the count given to it never runs out. -/
def SQLError.readFields (buf : Buffer) :
    Nat → UInt8 → Nat → SQLError → Except Abort (SQLError × Nat)
  | 0, _, _, _ => .error .undefined
  | rounds + 1, fieldType, pos, error =>
      if fieldType = 0 then .ok (error, pos)
      else do
        let (text, taken) ← deserializeString buf pos
        let pos := pos + taken
        let error := error.emplace fieldType text
        let (fieldType, taken) ← deserializeByte1 buf pos
        readFields buf rounds fieldType (pos + taken) error

/-- `ErrorResponse::deserialize` and `NoticeResponse::deserialize`. The map
starts with the fields of a default `SQLError`. -/
def SQLError.deserialize (mtype : MessageType) (header : Header) (buf : Buffer) :
    Except Abort (ErrorCode × SQLError) :=
  let ec := Message.check mtype header buf
  if ec.isError then .ok (ec, .init)
  else do
    let (fieldType, pos) ← deserializeByte1 buf 0
    let (error, _) ← SQLError.readFields buf (buf.length + 1) fieldType pos .init
    pure (.success, error)

def ErrorResponse.mtype : MessageType := 'E'.toUInt8

def ErrorResponse.deserialize := SQLError.deserialize ErrorResponse.mtype

def NoticeResponse.mtype : MessageType := 'N'.toUInt8

def NoticeResponse.deserialize := SQLError.deserialize NoticeResponse.mtype

def ParameterDescription.mtype : MessageType := 't'.toUInt8

def ParameterDescription.readOids (buf : Buffer) :
    Nat → Nat → List Int → Except Abort (List Int × Nat)
  | 0, pos, v => .ok (v, pos)
  | n + 1, pos, v => do
      let (oid, taken) ← deserializeInt32 buf pos
      readOids buf n (pos + taken) (v ++ [oid])

def ParameterDescription.deserialize (header : Header) (buf : Buffer) (v : List Int) :
    Except Abort (ErrorCode × List Int) :=
  let ec := Message.check mtype header buf
  if ec.isError then .ok (ec, v)
  else do
    let (num, pos) ← deserializeInt16 buf 0
    let (v, _) ← readOids buf num.toNat pos v
    pure (.success, v)

def RowDescription.mtype : MessageType := 'T'.toUInt8

def RowDescription.readFields (buf : Buffer) :
    Nat → Nat → List FieldSpec → Except Abort (List FieldSpec × Nat)
  | 0, pos, fsvec => .ok (fsvec, pos)
  | n + 1, pos, fsvec => do
      let (name, taken) ← deserializeString buf pos
      let pos := pos + taken
      let (tableOid, taken) ← deserializeInt32 buf pos
      let pos := pos + taken
      let (colNum, taken) ← deserializeInt16 buf pos
      let pos := pos + taken
      let (typeOid, taken) ← deserializeInt32 buf pos
      let pos := pos + taken
      let (typeSize, taken) ← deserializeInt16 buf pos
      let pos := pos + taken
      let (typeMod, taken) ← deserializeInt32 buf pos
      let pos := pos + taken
      let (typeFormat, taken) ← deserializeInt16 buf pos
      let pos := pos + taken
      readFields buf n pos
        (fsvec ++ [⟨name, tableOid, colNum, typeOid, typeSize, typeMod, typeFormat⟩])

def RowDescription.deserialize (header : Header) (buf : Buffer) (fsvec : List FieldSpec) :
    Except Abort (ErrorCode × List FieldSpec) :=
  let ec := Message.check mtype header buf
  if ec.isError then .ok (ec, fsvec)
  else do
    let (num, pos) ← deserializeInt16 buf 0
    let (fsvec, _) ← readFields buf num.toNat pos fsvec
    pure (.success, fsvec)

def ParameterStatus.mtype : MessageType := 'S'.toUInt8

/-- The name and the value are read and kept by the message only. -/
def ParameterStatus.deserialize (header : Header) (buf : Buffer) :
    Except Abort (ErrorCode × Str × Str) :=
  let ec := Message.check mtype header buf
  if ec.isError then .ok (ec, [], [])
  else do
    let (name, pos) ← deserializeString buf 0
    let (value, _) ← deserializeString buf pos
    pure (.success, name, value)

def BackendKeyData.mtype : MessageType := 'K'.toUInt8

def BackendKeyData.deserialize (header : Header) (buf : Buffer) :
    Except Abort (ErrorCode × Int × Int) :=
  let ec := Message.check mtype header buf
  if ec.isError then .ok (ec, 0, 0)
  else do
    let (pid, pos) ← deserializeInt32 buf 0
    let (key, _) ← deserializeInt32 buf pos
    pure (.success, pid, key)

def ReadyForQuery.mtype : MessageType := 'Z'.toUInt8

def ReadyForQuery.deserialize (header : Header) (buf : Buffer) :
    Except Abort (ErrorCode × UInt8) :=
  let ec := Message.check mtype header buf
  if ec.isError then .ok (ec, 0)
  else do
    let (status, _) ← deserializeByte1 buf 0
    pure (.success, status)

def CommandComplete.mtype : MessageType := 'C'.toUInt8

def CommandComplete.deserialize (header : Header) (buf : Buffer) :
    Except Abort (ErrorCode × Str) :=
  let ec := Message.check mtype header buf
  if ec.isError then .ok (ec, [])
  else do
    let (tag, _) ← deserializeString buf 0
    pure (.success, tag)

def DataRow.mtype : MessageType := 'D'.toUInt8

/-! The messages without fields. -/

def ParseComplete.mtype : MessageType := '1'.toUInt8

def ParseComplete.deserialize := Message.check ParseComplete.mtype

def BindComplete.mtype : MessageType := '2'.toUInt8

def BindComplete.deserialize := Message.check BindComplete.mtype

def CloseComplete.mtype : MessageType := '3'.toUInt8

def CloseComplete.deserialize := Message.check CloseComplete.mtype

end Lapq
