import Lapq.Semantics.World

/-!
The protocol state machine (`fsm.h`, `fsm.cpp`) over any connection.

Each function is the source's body in the source's order. A function that
captures its `EHandler &&eh` after moving it into `m_ehandler` captures an
empty function, which is `none` here.
-/

namespace Lapq

variable {ν ρ : Type} (ext : Externals ρ) (con : ConnectionBase ν ρ)

/-- The columns of a data row. The position is a `std::size_t`, so that adding
the signed size of a column wraps around. -/
def DataRow.readColumns (id : ResultId) (buf : Buffer) : Nat → Int → Nat → Act ν ρ Unit
  | 0, _, _ => pure ()
  | n + 1, i, pos => do
      let (sz, taken) ← Act.lift (deserializeInt32 buf pos)
      let pos := pos + taken
      Act.callResult ext.base id (.addColumn i buf pos sz)
      DataRow.readColumns id buf n (i + 1) (toSize (pos + sz))

def DataRow.deserialize (header : Header) (buf : Buffer) (id : ResultId) :
    Act ν ρ ErrorCode :=
  let ec := Message.check DataRow.mtype header buf
  if ec.isError then pure ec
  else do
    let (num, pos) ← Act.lift (deserializeInt16 buf 0)
    Act.callResult ext.base id .addRow
    DataRow.readColumns ext id buf num.toNat 0 pos
    pure .success

/-- The member functions named in the state table. -/
inductive Action where
  | authenticate
  | authError
  | backendKeyData
  | readyForQuery
  | parameterStatus
  | rowDescription
  | dataRow
  | commandComplete
  | parseComplete
  | noticeResponse
  | queryError
  | bindComplete
  | parameterDescription
  | closeComplete
deriving DecidableEq, Repr

def Transition := List (MessageType × Action)

/-- `m_state_table`: the states `IDLE` and `END` have no row. -/
def stateTable : List (State × Transition) :=
  [(.AUTH, [(Authentication.mtype, .authenticate),
      (ErrorResponse.mtype, .authError)]),
    (.CONN, [(BackendKeyData.mtype, .backendKeyData),
      (ReadyForQuery.mtype, .readyForQuery),
      (ParameterStatus.mtype, .parameterStatus)]),
    (.QUERY, [(RowDescription.mtype, .rowDescription),
      (DataRow.mtype, .dataRow),
      (CommandComplete.mtype, .commandComplete),
      (ParseComplete.mtype, .parseComplete),
      (ReadyForQuery.mtype, .readyForQuery),
      (NoticeResponse.mtype, .noticeResponse),
      (ErrorResponse.mtype, .queryError)]),
    (.EQUERY, [(BindComplete.mtype, .bindComplete),
      (RowDescription.mtype, .rowDescription),
      (ParameterDescription.mtype, .parameterDescription),
      (DataRow.mtype, .dataRow),
      (CommandComplete.mtype, .commandComplete),
      (ReadyForQuery.mtype, .readyForQuery),
      (NoticeResponse.mtype, .noticeResponse),
      (ErrorResponse.mtype, .queryError)]),
    (.CLOSE, [(CloseComplete.mtype, .closeComplete)])]

def tableRow (state : State) : Option Transition := stateTable.lookup state

def Transition.find (transition : Transition) (event : MessageType) : Option Action :=
  transition.lookup event

namespace FSM

def receive : Act ν ρ Unit := con.read Header.size .header

/-- Hand on a decoding error, else go on reading. -/
def receiveUnless (ec : ErrorCode) : Act ν ρ Unit :=
  if ec.isError then Act.callHandler ec else receive con

/-- The `switch` has no case for the other codes, and both of its cases leave
it for the `receive` at the end. -/
def authenticate (head : Header) (body : Buffer) : Act ν ρ Unit := do
  let (ec, msg) ← Act.lift (Authentication.deserialize ext.uninitialised head body)
  if ec.isError then Act.callHandler ec
  else do
    if msg.authType = Authentication.authOk then Act.setState .CONN
    else if msg.authType = Authentication.authMd5Password then do
      Act.setState .AUTH
      con.write (Password.make ext.md5 (ascii "gptest") (ascii "secret") msg.salt)
        .passwordWritten
    receive con

def closeComplete (head : Header) (body : Buffer) : Act ν ρ Unit := do
  let ec := CloseComplete.deserialize head body
  Act.setState .END
  Act.callHandler ec

def authError (head : Header) (body : Buffer) : Act ν ρ Unit := do
  let (ec, _) ← Act.lift (ErrorResponse.deserialize head body)
  Act.callHandler ec

def rowDescription (head : Header) (body : Buffer) : Act ν ρ Unit := do
  let (ec, fs) ← Act.lift (RowDescription.deserialize head body [])
  if ec.isError then Act.callHandler ec
  else do
    let fsm ← Act.getFsm
    match fsm.result with
    | some id => Act.callResult ext.base id (.addFields fs)
    | none => pure ()
    receive con

def parameterStatus (head : Header) (body : Buffer) : Act ν ρ Unit := do
  let (ec, _) ← Act.lift (ParameterStatus.deserialize head body)
  receiveUnless con ec

def backendKeyData (head : Header) (body : Buffer) : Act ν ρ Unit := do
  let (ec, _) ← Act.lift (BackendKeyData.deserialize head body)
  receiveUnless con ec

def readyForQuery (head : Header) (body : Buffer) : Act ν ρ Unit := do
  let (ec, _) ← Act.lift (ReadyForQuery.deserialize head body)
  Act.setState .IDLE
  Act.callHandler ec

/-- `*m_result` is not checked for null. -/
def dataRow (head : Header) (body : Buffer) : Act ν ρ Unit := do
  let fsm ← Act.getFsm
  match fsm.result with
  | none => Act.throw .undefined
  | some id =>
      let ec ← DataRow.deserialize ext head body id
      receiveUnless con ec

def commandComplete (head : Header) (body : Buffer) : Act ν ρ Unit := do
  let (ec, _) ← Act.lift (CommandComplete.deserialize head body)
  receiveUnless con ec

/-- The two completions without fields do not look at the decoder's verdict. -/
def parseComplete (head : Header) (body : Buffer) : Act ν ρ Unit := do
  let _ec := ParseComplete.deserialize head body
  receive con

def bindComplete (head : Header) (body : Buffer) : Act ν ρ Unit := do
  let _ec := BindComplete.deserialize head body
  receive con

def parameterDescription (head : Header) (body : Buffer) : Act ν ρ Unit := do
  let (ec, _) ← Act.lift (ParameterDescription.deserialize head body [])
  receiveUnless con ec

def noticeResponse (head : Header) (body : Buffer) : Act ν ρ Unit := do
  let (ec, _) ← Act.lift (NoticeResponse.deserialize head body)
  receiveUnless con ec

def queryError (head : Header) (body : Buffer) : Act ν ρ Unit := do
  let (ec, error) ← Act.lift (ErrorResponse.deserialize head body)
  if ec.isError then Act.callHandler ec
  else do
    let fsm ← Act.getFsm
    match fsm.result with
    | some id => Act.callResult ext.base id (.addError error)
    | none => pure ()
    receive con

end FSM

def Action.run (head : Header) (body : Buffer) : Action → Act ν ρ Unit
  | .authenticate => FSM.authenticate ext con head body
  | .authError => FSM.authError head body
  | .backendKeyData => FSM.backendKeyData con head body
  | .readyForQuery => FSM.readyForQuery head body
  | .parameterStatus => FSM.parameterStatus con head body
  | .rowDescription => FSM.rowDescription ext con head body
  | .dataRow => FSM.dataRow ext con head body
  | .commandComplete => FSM.commandComplete con head body
  | .parseComplete => FSM.parseComplete con head body
  | .noticeResponse => FSM.noticeResponse con head body
  | .queryError => FSM.queryError ext con head body
  | .bindComplete => FSM.bindComplete con head body
  | .parameterDescription => FSM.parameterDescription con head body
  | .closeComplete => FSM.closeComplete head body

namespace FSM

/-- `m_state_table.at` throws for a state without a row; a message type that
the row does not list is skipped. -/
def next (event : MessageType) (head : Header) (body : Buffer) : Act ν ρ Unit := do
  let fsm ← Act.getFsm
  Act.emit (.dispatch fsm.state head body)
  match tableRow fsm.state with
  | none => Act.throw .stateTableAt
  | some transition =>
      match transition.find event with
      | some action => action.run ext con head body
      | none => receive con

def connect (option : DBOption) (eh : HandlerId) : Act ν ρ Unit := do
  Act.modifyFsm fun fsm => { fsm with ehandler := some eh }
  con.connect (.connected option)

def connectSSL (option : DBOption) (eh : HandlerId) : Act ν ρ Unit := do
  Act.modifyFsm fun fsm => { fsm with ehandler := some eh }
  con.connect (.sslConnected option none)

def exec (q : Str) (res : Option ResultId) (eh : HandlerId) : Act ν ρ Unit := do
  let fsm ← Act.getFsm
  if fsm.state ≠ .IDLE then Act.invoke (some eh) (makeErrorCode .busy)
  else do
    Act.modifyFsm fun fsm => { fsm with result := res, ehandler := some eh }
    Act.setState .QUERY
    con.write (.query q) .queryWritten

def execQuery (q : DBQuery) (res : Option ResultId) (eh : HandlerId) : Act ν ρ Unit := do
  let fsm ← Act.getFsm
  if fsm.state ≠ .IDLE then Act.invoke (some eh) (makeErrorCode .busy)
  else do
    Act.modifyFsm fun fsm => { fsm with ehandler := some eh }
    Act.modifyFsm fun fsm => { fsm with query := some q, result := res }
    Act.setState .EQUERY
    con.write (.bind q.name q.portal q.bindValue) (.bindWritten none)

def parse (q : DBQuery) (eh : HandlerId) : Act ν ρ Unit := do
  let fsm ← Act.getFsm
  if fsm.state ≠ .IDLE then Act.invoke (some eh) (makeErrorCode .busy)
  else do
    Act.modifyFsm fun fsm => { fsm with ehandler := some eh, query := some q }
    Act.setState .QUERY
    con.write (.parse q.name q.query []) (.parseWritten none)

def close (eh : HandlerId) : Act ν ρ Unit := do
  Act.setState .END
  Act.modifyFsm fun fsm => { fsm with ehandler := some eh }
  con.write .terminate .terminateWritten

end FSM

/-- What an `EHandler` closure does with an error. -/
def EHandler.fail (ec : ErrorCode) : EHandler → Act ν ρ Unit
  | .connected _ => Act.callHandler ec
  | .sslConnected _ ehandler => Act.invoke ehandler ec
  | .handshaken _ ehandler => Act.invoke ehandler ec

def EHandler.run (eh : EHandler) (ec : ErrorCode) : Act ν ρ Unit :=
  if ec.isError then eh.fail ec
  else match eh with
    | .connected option => con.write (.startUp option) .startUpWritten
    | .sslConnected option ehandler => con.handshake (.handshaken option ehandler)
    | .handshaken option ehandler =>
        con.write (.startUp option) (.sslStartUpWritten ehandler)

/-- The header's own decoding error is computed but the source tests the read's
error again. -/
def RHandler.run (rh : RHandler) (ec : ErrorCode) (buf : Buffer) : Act ν ρ Unit :=
  if ec.isError then Act.callHandler ec
  else match rh with
    | .header => do
        let (_er, head) ← Act.lift (Header.deserialize buf)
        if ec.isError then Act.callHandler ec
        else con.read (toSize head.bodyLen) (.body head)
    | .body head => FSM.next ext con head.mtype head buf

/-- A chained write, or the captured handler on an error. -/
def WHandler.andThen (ehandler : Option HandlerId) (ec : ErrorCode)
    (go : Act ν ρ Unit) : Act ν ρ Unit :=
  if ec.isError then Act.invoke ehandler ec else go

/-- `m_query` as the chained closures use it. -/
def FSM.withQuery (go : DBQuery → Act ν ρ Unit) : Act ν ρ Unit := do
  let fsm ← Act.getFsm
  match fsm.query with
  | none => Act.throw .undefined
  | some q => go q

def WHandler.run (wh : WHandler) (ec : ErrorCode) : Act ν ρ Unit :=
  match wh with
  | .startUpWritten | .queryWritten | .passwordWritten => FSM.receiveUnless con ec
  | .sslStartUpWritten ehandler | .syncWritten ehandler | .parseSyncWritten ehandler =>
      WHandler.andThen ehandler ec (FSM.receive con)
  | .bindWritten ehandler => WHandler.andThen ehandler ec <| FSM.withQuery fun q =>
      con.write (.describe q.name q.portal) (.describeWritten ehandler)
  | .describeWritten ehandler => WHandler.andThen ehandler ec <| FSM.withQuery fun q =>
      con.write (.execute q.portal) (.executeWritten ehandler)
  | .executeWritten ehandler => WHandler.andThen ehandler ec
      (con.write .sync (.syncWritten ehandler))
  | .parseWritten ehandler => WHandler.andThen ehandler ec
      (con.write .sync (.parseSyncWritten ehandler))
  | .terminateWritten => do
      -- The socket is closed whatever became of the message, and the handler
      -- gets the error of the write.
      Act.emit .closed
      Act.callHandler ec

end Lapq
