import Lapq.Semantics.Fsm
import Lapq.Steps.Dispatch

/-!
The messages of the server on the wire, and what the client's decoders make of
them. Each decoder moves a cursor over the body, so its lemma says where the
cursor stands by what is left of the body from there.
-/

namespace Lapq

open Bytes

variable {ν ρ : Type}

/-- The messages a server sends. The 16-bit fields of a row description are
given as the unsigned numbers they are read as. A column of a data row has a value:
there is no NULL, whose cursor goes astray in `DataRow::deserialize`. `other` is a
message of a type that no handler of the current state is registered for. -/
inductive Backend where
  | authentication (code : Int) (data : Buffer)
  | parameterStatus (name value : Str)
  | backendKeyData (pid key : Int)
  | readyForQuery (status : UInt8)
  | rowDescription (fs : List FieldSpec)
  | dataRow (columns : List Buffer)
  | commandComplete (tag : Str)
  | noticeResponse (fields : List (SQLErrorField × Str))
  | errorResponse (fields : List (SQLErrorField × Str))
  | parseComplete
  | bindComplete
  | parameterDescription (oids : List Int)
  | closeComplete
  | other (mtype : MessageType) (body : Buffer)

namespace Backend

def mtype : Backend → MessageType
  | .authentication .. => Authentication.mtype
  | .parameterStatus .. => ParameterStatus.mtype
  | .backendKeyData .. => BackendKeyData.mtype
  | .readyForQuery _ => ReadyForQuery.mtype
  | .rowDescription _ => RowDescription.mtype
  | .dataRow _ => DataRow.mtype
  | .commandComplete _ => CommandComplete.mtype
  | .noticeResponse _ => NoticeResponse.mtype
  | .errorResponse _ => ErrorResponse.mtype
  | .parseComplete => ParseComplete.mtype
  | .bindComplete => BindComplete.mtype
  | .parameterDescription _ => ParameterDescription.mtype
  | .closeComplete => CloseComplete.mtype
  | .other mtype _ => mtype

def int32 (v : Int) : Buffer := be32 (pattern 32 v)

def int16 (v : Int) : Buffer := be16 (pattern 16 v)

def field (fs : FieldSpec) : Buffer :=
  cstr fs.name ++ (int32 fs.tableOid ++ (int16 fs.colNum ++ (int32 fs.typeOid ++
    (int16 fs.typeSize ++ (int32 fs.typeMod ++ int16 fs.typeFormat)))))

def column (bytes : Buffer) : Buffer := be32 bytes.length ++ bytes

def errorField (f : SQLErrorField × Str) : Buffer := f.1 :: cstr f.2

def body : Backend → Buffer
  | .authentication code data => int32 code ++ data
  | .parameterStatus name value => cstr name ++ cstr value
  | .backendKeyData pid key => int32 pid ++ int32 key
  | .readyForQuery status => [status]
  | .rowDescription fs => be16 fs.length ++ fs.flatMap field
  | .dataRow columns => be16 columns.length ++ columns.flatMap column
  | .commandComplete tag => cstr tag
  | .noticeResponse fields | .errorResponse fields => fields.flatMap errorField ++ [0]
  | .parseComplete | .bindComplete | .closeComplete => []
  | .parameterDescription oids => be16 oids.length ++ oids.flatMap int32
  | .other _ body => body

def header (msg : Backend) : Header := ⟨msg.mtype, msg.body.length⟩

/-- A frame: the type byte, the length with its own four bytes, and the body. -/
def wire (msg : Backend) : Buffer :=
  msg.mtype :: be32 (msg.body.length + 4) ++ msg.body

def InInt32 (v : Int) : Prop := -2 ^ 31 ≤ v ∧ v < 2 ^ 31

def InUInt16 (v : Int) : Prop := 0 ≤ v ∧ v < 2 ^ 16

/-- A description whose name has no NUL byte and whose numbers fit. -/
structure ValidField (fs : FieldSpec) : Prop where
  name : NulFree fs.name
  tableOid : InInt32 fs.tableOid
  colNum : InUInt16 fs.colNum
  typeOid : InInt32 fs.typeOid
  typeSize : InUInt16 fs.typeSize
  typeMod : InInt32 fs.typeMod
  typeFormat : InUInt16 fs.typeFormat

def ValidErrorField (f : SQLErrorField × Str) : Prop := f.1 ≠ 0 ∧ NulFree f.2

/-- The contents of a message follow its format. -/
def Valid : Backend → Prop
  | .authentication code data => InInt32 code ∧ (code = 5 → data.length = 4)
  | .parameterStatus name value => NulFree name ∧ NulFree value
  | .backendKeyData pid key => InInt32 pid ∧ InInt32 key
  | .rowDescription fs => fs.length < 2 ^ 16 ∧ ∀ f ∈ fs, ValidField f
  | .dataRow columns => columns.length < 2 ^ 16
  | .commandComplete tag => NulFree tag
  | .noticeResponse fields | .errorResponse fields => ∀ f ∈ fields, ValidErrorField f
  | .parameterDescription oids => oids.length < 2 ^ 16 ∧ ∀ oid ∈ oids, InInt32 oid
  | .readyForQuery _ | .parseComplete | .bindComplete | .closeComplete | .other .. => True

/-- A message that fits a frame. -/
structure WellFormed (msg : Backend) : Prop where
  valid : msg.Valid
  length : msg.body.length + 4 < 2 ^ 31

end Backend

open Backend

/-! Headers. -/

theorem ok_bind {α β : Type} (a : α) (f : α → Except Abort β) : (Except.ok a >>= f) = f a := rfl

/-- A program that goes on with what was read. -/
theorem bind_ok_inv {α β : Type} {x : Except Abort α} {f : α → Except Abort β} {b : β}
    (h : (x >>= f) = .ok b) : ∃ a, x = .ok a ∧ f a = .ok b := by
  cases x with
  | error e => cases h
  | ok a => exact ⟨a, rfl, h⟩

theorem header_deserialize (msg : Backend) (hlength : msg.body.length + 4 < 2 ^ 31) :
    Header.deserialize (msg.mtype :: be32 (msg.body.length + 4)) =
      .ok (.success, msg.header) := by
  have hbytes := read32_be32 (msg.body.length + 4) [] (by omega)
  rw [List.append_nil] at hbytes
  have hread : deserializeInt32 (msg.mtype :: be32 (msg.body.length + 4)) 1 =
      .ok (((msg.body.length + 4 : Nat) : Int), 4) := by
    rw [deserializeInt32, List.drop_succ_cons, List.drop_zero, hbytes]
    simp only [signed32_of_lt _ hlength]
  have htype : deserializeByte1 (msg.mtype :: be32 (msg.body.length + 4)) 0 =
      .ok (msg.mtype, 1) := rfl
  have hlen : ((msg.body.length + 4 : Nat) : Int) - 4 = msg.body.length := by
    omega
  have hsize : ¬ (msg.mtype :: be32 (msg.body.length + 4)).length < Header.size := by
    simp [Header.size]
  rw [Header.deserialize, if_neg hsize, htype, ok_bind]
  dsimp only
  rw [hread, ok_bind]
  dsimp only
  rw [hlen, if_neg (by omega)]
  rfl

theorem toSize_natCast (n : Nat) (hn : n < 2 ^ 64) : toSize (n : Int) = n :=
  pattern_natCast 64 n hn

/-- A body as long as its header says passes the checks of its own type. -/
theorem check_length (type : MessageType) (buf : Buffer) :
    Message.check type ⟨type, buf.length⟩ buf = .success := by
  have hsize : toSize (buf.length : Int) ≤ buf.length := by
    have hmod := Nat.mod_le buf.length (2 ^ 64)
    unfold toSize pattern
    omega
  unfold Message.check
  rw [if_neg (Nat.not_lt.mpr hsize)]
  simp

theorem check_own (msg : Backend) : Message.check msg.mtype msg.header msg.body = .success :=
  check_length msg.mtype msg.body

/-! The cursor. -/

section Cursor

variable {buf rest : Buffer} {pos : Nat}

theorem deserializeString_at (s : Str) (hs : NulFree s) (h : buf.drop pos = cstr s ++ rest) :
    deserializeString buf pos = .ok (s, s.length + 1) := by
  rw [deserializeString, h, readCstr_cstr s rest hs]

theorem deserializeInt32_at (v : Int) (hv : InInt32 v) (h : buf.drop pos = int32 v ++ rest) :
    deserializeInt32 buf pos = .ok (v, 4) := by
  rw [deserializeInt32, h, int32, read32_be32 _ rest (pattern_lt 32 v)]
  simp only [signed32_pattern v hv.1 hv.2]

theorem deserializeInt16_at (v : Int) (hv : InUInt16 v) (h : buf.drop pos = int16 v ++ rest) :
    deserializeInt16 buf pos = .ok (v, 2) := by
  obtain ⟨n, rfl⟩ := Int.eq_ofNat_of_zero_le hv.1
  have hn : n < 2 ^ 16 := by
    have hlt := hv.2
    omega
  rw [deserializeInt16, h, int16, pattern_natCast 16 n hn, read16_be16 n rest hn]

theorem deserializeCount_at (n : Nat) (hn : n < 2 ^ 16) (h : buf.drop pos = be16 n ++ rest) :
    deserializeInt16 buf pos = .ok (n, 2) := by
  rw [deserializeInt16, h, read16_be16 n rest hn]

theorem deserializeLength_at (n : Nat) (hn : n < 2 ^ 31) (h : buf.drop pos = be32 n ++ rest) :
    deserializeInt32 buf pos = .ok (n, 4) := by
  rw [deserializeInt32, h, read32_be32 n rest (by omega)]
  simp only [signed32_of_lt n hn]

theorem deserializeByte1_at (b : UInt8) (h : buf.drop pos = b :: rest) :
    deserializeByte1 buf pos = .ok (b, 1) := by
  have hget : buf[pos]? = some b := by
    have hhead := congrArg List.head? h
    rwa [List.head?_drop] at hhead
  simp [deserializeByte1, readByte, hget, bind, Except.bind, pure, Except.pure]

theorem readFields_at (fs : List FieldSpec) (hfs : ∀ f ∈ fs, ValidField f)
    (acc : List FieldSpec) (h : buf.drop pos = fs.flatMap field ++ rest) :
    RowDescription.readFields buf fs.length pos acc =
      .ok (acc ++ fs, pos + (fs.flatMap field).length) := by
  induction fs generalizing pos acc with
  | nil => simp [RowDescription.readFields]
  | cons f fs ih =>
      have hf := hfs f List.mem_cons_self
      simp only [List.flatMap_cons, field, List.append_assoc] at h
      have h1 := deserializeString_at f.name hf.name h
      have hpos1 := drop_add_of_drop_eq h
      rw [cstr_length] at hpos1
      have h2 := deserializeInt32_at f.tableOid hf.tableOid hpos1
      have hpos2 := drop_add_of_drop_eq hpos1
      have h3 := deserializeInt16_at f.colNum hf.colNum hpos2
      have hpos3 := drop_add_of_drop_eq hpos2
      have h4 := deserializeInt32_at f.typeOid hf.typeOid hpos3
      have hpos4 := drop_add_of_drop_eq hpos3
      have h5 := deserializeInt16_at f.typeSize hf.typeSize hpos4
      have hpos5 := drop_add_of_drop_eq hpos4
      have h6 := deserializeInt32_at f.typeMod hf.typeMod hpos5
      have hpos6 := drop_add_of_drop_eq hpos5
      have h7 := deserializeInt16_at f.typeFormat hf.typeFormat hpos6
      have hpos7 := drop_add_of_drop_eq hpos6
      simp only [int32, int16, be32_length, be16_length] at h2 h3 h4 h5 h6 h7 hpos7
      have hrest := ih (fun g hg => hfs g (List.mem_cons_of_mem _ hg)) (acc ++ [f]) hpos7
      simp only [List.length_cons, RowDescription.readFields, h1, h2, h3, h4, h5, h6, h7,
        bind, Except.bind, hrest]
      simp only [List.append_assoc, List.singleton_append, List.flatMap_cons, field,
        List.length_append, cstr_length, int32, int16, be32_length, be16_length, Except.ok.injEq,
        Prod.mk.injEq, true_and]
      omega

theorem readOids_at (oids : List Int) (hoids : ∀ oid ∈ oids, InInt32 oid) (acc : List Int)
    (h : buf.drop pos = oids.flatMap int32 ++ rest) :
    ParameterDescription.readOids buf oids.length pos acc =
      .ok (acc ++ oids, pos + (oids.flatMap int32).length) := by
  induction oids generalizing pos acc with
  | nil => simp [ParameterDescription.readOids]
  | cons oid oids ih =>
      simp only [List.flatMap_cons, List.append_assoc] at h
      have hread := deserializeInt32_at oid (hoids oid List.mem_cons_self) h
      have hnext := drop_add_of_drop_eq h
      have hrest := ih (fun o ho => hoids o (List.mem_cons_of_mem _ ho)) (acc ++ [oid]) hnext
      simp only [int32, be32_length] at hrest
      simp only [List.length_cons, ParameterDescription.readOids, hread, bind, Except.bind, hrest]
      simp [int32, Nat.add_assoc]

/-- The map of an error message: the fields are added to the default ones. -/
def SQLError.ofFields (fields : List (SQLErrorField × Str)) (error : SQLError) : SQLError :=
  fields.foldl (fun error f => error.emplace f.1 f.2) error

/-- There is always a type byte to read: that of the first field, or the
terminator. -/
theorem errorFields_eq_cons (fields : List (SQLErrorField × Str)) (rest : Buffer) :
    ∃ b tail, fields.flatMap errorField ++ 0 :: rest = b :: tail := by
  cases fields with
  | nil => exact ⟨0, rest, rfl⟩
  | cons f fields => exact ⟨f.1, _, rfl⟩

/-- The loop over the fields: the cursor stands behind the type byte of the
first of them. -/
theorem readErrorFields_at (fields : List (SQLErrorField × Str))
    (hfields : ∀ f ∈ fields, ValidErrorField f) (rounds : Nat)
    (hrounds : fields.length < rounds) (error : SQLError) (fieldType : UInt8)
    (h : fieldType :: buf.drop pos = fields.flatMap errorField ++ 0 :: rest) :
    SQLError.readFields buf rounds fieldType pos error =
      .ok (SQLError.ofFields fields error, pos + (fields.flatMap errorField).length) := by
  induction fields generalizing rounds error fieldType pos with
  | nil =>
      obtain ⟨n, rfl⟩ := Nat.exists_eq_succ_of_ne_zero (Nat.ne_of_gt hrounds)
      simp only [List.flatMap_nil, List.nil_append, List.cons.injEq] at h
      simp [SQLError.readFields, h.1, SQLError.ofFields]
  | cons f fields ih =>
      obtain ⟨n, rfl⟩ := Nat.exists_eq_succ_of_ne_zero (Nat.ne_of_gt (Nat.zero_lt_of_lt hrounds))
      obtain ⟨htype, htext⟩ := hfields f List.mem_cons_self
      simp only [List.flatMap_cons, errorField, List.cons_append, List.append_assoc,
        List.cons.injEq] at h
      obtain ⟨rfl, hcursor⟩ := h
      have hread := deserializeString_at f.2 htext hcursor
      have hnext := drop_add_of_drop_eq hcursor
      rw [cstr_length] at hnext
      obtain ⟨b, tail, hb⟩ := errorFields_eq_cons fields rest
      rw [hb] at hnext
      have hbyte := deserializeByte1_at b hnext
      have hmore := drop_add_of_drop_eq (x := [b]) hnext
      have hrest := ih (fun g hg => hfields g (List.mem_cons_of_mem _ hg)) n
        (by simpa using hrounds) (error.emplace f.1 f.2) b (by rw [hmore, hb])
      have hlast : pos + (f.2.length + 1) + 1 + (fields.flatMap errorField).length =
          pos + ((f :: fields).flatMap errorField).length := by
        simp only [List.flatMap_cons, errorField, List.length_append, List.length_cons, cstr_length]
        omega
      rw [List.length_singleton, hlast] at hrest
      rw [SQLError.readFields, if_neg htype]
      simp only [hread, hbyte, bind, Except.bind]
      exact hrest

end Cursor

/-! Whole messages. -/

/-- The fields are added after those that were there, and the cursor ends where
they end. -/
theorem rowDescription_fields (fs acc : List FieldSpec) (hcount : fs.length < 2 ^ 16)
    (hfs : ∀ f ∈ fs, ValidField f) :
    deserializeInt16 (body (.rowDescription fs)) 0 = .ok (fs.length, 2) ∧
      RowDescription.readFields (body (.rowDescription fs)) fs.length 2 acc =
        .ok (acc ++ fs, (body (.rowDescription fs)).length) := by
  have hnum := deserializeCount_at fs.length hcount
    (List.drop_zero : (body (.rowDescription fs)).drop 0 = be16 fs.length ++ fs.flatMap field)
  have hcursor : (body (.rowDescription fs)).drop 2 = fs.flatMap field ++ [] :=
    (List.append_nil _).symm
  have hfields := readFields_at fs hfs acc hcursor
  have hend : 2 + (fs.flatMap field).length = (body (.rowDescription fs)).length := by
    simp [body]
  rw [hend] at hfields
  exact ⟨hnum, hfields⟩

theorem rowDescription_deserialize (fs acc : List FieldSpec) (hcount : fs.length < 2 ^ 16)
    (hfs : ∀ f ∈ fs, ValidField f) :
    RowDescription.deserialize (header (.rowDescription fs)) (body (.rowDescription fs)) acc =
      .ok (.success, acc ++ fs) := by
  have hcheck := check_own (.rowDescription fs)
  obtain ⟨hnum, hfields⟩ := rowDescription_fields fs acc hcount hfs
  unfold RowDescription.deserialize
  rw [show RowDescription.mtype = mtype (.rowDescription fs) from rfl, hcheck]
  simp only [ErrorCode.isError_success, Bool.false_eq_true, if_false, hnum, ok_bind,
    Int.toNat_natCast, hfields]
  rfl

theorem parameterDescription_deserialize (oids : List Int)
    (hmsg : WellFormed (.parameterDescription oids)) :
    ParameterDescription.deserialize (header (.parameterDescription oids))
      (body (.parameterDescription oids)) [] = .ok (.success, oids) := by
  obtain ⟨⟨hcount, hoids⟩, _⟩ := hmsg
  have hcheck := check_own (.parameterDescription oids)
  have hnum := deserializeCount_at oids.length hcount
    (List.drop_zero : (body (.parameterDescription oids)).drop 0 =
      be16 oids.length ++ oids.flatMap int32)
  have hcursor : (body (.parameterDescription oids)).drop 2 = oids.flatMap int32 ++ [] :=
    (List.append_nil _).symm
  have hread := readOids_at oids hoids [] hcursor
  unfold ParameterDescription.deserialize
  rw [show ParameterDescription.mtype = mtype (.parameterDescription oids) from rfl, hcheck]
  simp only [ErrorCode.isError_success, Bool.false_eq_true, if_false, hnum, ok_bind,
    Int.toNat_natCast, hread, List.nil_append]
  rfl

theorem commandComplete_deserialize (tag : Str) (hmsg : WellFormed (.commandComplete tag)) :
    CommandComplete.deserialize (header (.commandComplete tag)) (body (.commandComplete tag)) =
      .ok (.success, tag) := by
  have hcheck := check_own (.commandComplete tag)
  have hcursor : (body (.commandComplete tag)).drop 0 = cstr tag ++ [] :=
    (List.append_nil _).symm
  have hread := deserializeString_at tag hmsg.valid hcursor
  unfold CommandComplete.deserialize
  rw [show CommandComplete.mtype = mtype (.commandComplete tag) from rfl, hcheck]
  simp only [ErrorCode.isError_success, Bool.false_eq_true, if_false, hread, ok_bind]
  rfl

theorem parameterStatus_deserialize (name value : Str)
    (hmsg : WellFormed (.parameterStatus name value)) :
    ParameterStatus.deserialize (header (.parameterStatus name value))
      (body (.parameterStatus name value)) = .ok (.success, name, value) := by
  obtain ⟨⟨hname, hvalue⟩, _⟩ := hmsg
  have hcheck := check_own (.parameterStatus name value)
  have hcursor : (body (.parameterStatus name value)).drop 0 = cstr name ++ cstr value := rfl
  have hread := deserializeString_at name hname hcursor
  have hnext := drop_add_of_drop_eq hcursor
  rw [Nat.zero_add, cstr_length, ← List.append_nil (cstr value)] at hnext
  have hread' := deserializeString_at value hvalue hnext
  unfold ParameterStatus.deserialize
  rw [show ParameterStatus.mtype = mtype (.parameterStatus name value) from rfl, hcheck]
  simp only [ErrorCode.isError_success, Bool.false_eq_true, if_false, hread, hread', ok_bind]
  rfl

theorem backendKeyData_deserialize (pid key : Int)
    (hmsg : WellFormed (.backendKeyData pid key)) :
    BackendKeyData.deserialize (header (.backendKeyData pid key))
      (body (.backendKeyData pid key)) = .ok (.success, pid, key) := by
  obtain ⟨⟨hpid, hkey⟩, _⟩ := hmsg
  have hcheck := check_own (.backendKeyData pid key)
  have hcursor : (body (.backendKeyData pid key)).drop 0 = int32 pid ++ int32 key := rfl
  have hread := deserializeInt32_at pid hpid hcursor
  have hnext := drop_add_of_drop_eq hcursor
  rw [← List.append_nil (int32 key)] at hnext
  have hread' := deserializeInt32_at key hkey hnext
  rw [Nat.zero_add, int32, be32_length] at hread'
  unfold BackendKeyData.deserialize
  rw [show BackendKeyData.mtype = mtype (.backendKeyData pid key) from rfl, hcheck]
  simp only [ErrorCode.isError_success, Bool.false_eq_true, if_false, hread, hread', ok_bind]
  rfl

theorem readyForQuery_deserialize (status : UInt8) :
    ReadyForQuery.deserialize (header (.readyForQuery status)) (body (.readyForQuery status)) =
      .ok (.success, status) := by
  have hcheck := check_own (.readyForQuery status)
  unfold ReadyForQuery.deserialize
  rw [show ReadyForQuery.mtype = mtype (.readyForQuery status) from rfl, hcheck]
  rfl

/-- An authentication message is read without a complaint, as its code. -/
theorem authentication_deserialize (uninitialised : Byte4) (code : Int) (data : Buffer)
    (hmsg : WellFormed (.authentication code data)) :
    ∃ salt, Authentication.deserialize uninitialised (header (.authentication code data))
      (body (.authentication code data)) = .ok (.success, ⟨code, salt⟩) := by
  obtain ⟨⟨hcode, hsalt⟩, _⟩ := hmsg
  have hcheck := check_own (.authentication code data)
  have hcursor : (body (.authentication code data)).drop 0 = int32 code ++ data := rfl
  have hread := deserializeInt32_at code hcode hcursor
  have hnext := drop_add_of_drop_eq hcursor
  unfold Authentication.deserialize
  rw [show Authentication.mtype = mtype (.authentication code data) from rfl, hcheck]
  simp only [ErrorCode.isError_success, Bool.false_eq_true, if_false, hread, ok_bind]
  split
  · rename_i hmd5
    have hfour := hsalt hmd5.2
    obtain ⟨a, b, c, d, rfl⟩ : ∃ a b c d, data = [a, b, c, d] := by
      match data, hfour with
      | [a, b, c, d], _ => exact ⟨a, b, c, d, rfl⟩
    exact ⟨(a, b, c, d), rfl⟩
  · exact ⟨uninitialised, rfl⟩

theorem length_le_flatMap_errorField (fields : List (SQLErrorField × Str)) :
    fields.length ≤ (fields.flatMap errorField).length := by
  induction fields with
  | nil => simp
  | cons f fields ih =>
      simp only [List.length_cons, List.flatMap_cons, List.length_append, errorField]
      omega

theorem sqlError_deserialize (type : MessageType) (fields : List (SQLErrorField × Str))
    (hfields : ∀ f ∈ fields, ValidErrorField f) (head : Header)
    (hcheck : Message.check type head (fields.flatMap errorField ++ [0]) = .success) :
    SQLError.deserialize type head (fields.flatMap errorField ++ [0]) =
      .ok (.success, SQLError.ofFields fields .init) := by
  obtain ⟨b, tail, hb⟩ := errorFields_eq_cons fields []
  have hlen : fields.length < (b :: tail).length + 1 := by
    rw [← hb]
    have hle := length_le_flatMap_errorField fields
    simp only [List.length_append]
    omega
  have hcursor : b :: (b :: tail).drop 1 = fields.flatMap errorField ++ 0 :: [] := hb.symm
  have hloop := readErrorFields_at fields hfields ((b :: tail).length + 1) hlen .init b hcursor
  rw [hb] at hcheck ⊢
  unfold SQLError.deserialize
  simp only [hcheck, ErrorCode.isError_success, Bool.false_eq_true, if_false]
  rw [show deserializeByte1 (b :: tail) 0 = .ok (b, 1) from rfl, ok_bind]
  simp only [hloop, ok_bind]
  rfl

theorem errorResponse_deserialize (fields : List (SQLErrorField × Str))
    (hfields : ∀ f ∈ fields, ValidErrorField f) :
    ErrorResponse.deserialize (header (.errorResponse fields)) (body (.errorResponse fields)) =
      .ok (.success, SQLError.ofFields fields .init) :=
  sqlError_deserialize _ fields hfields _ (check_own (.errorResponse fields))

theorem noticeResponse_deserialize (fields : List (SQLErrorField × Str))
    (hfields : ∀ f ∈ fields, ValidErrorField f) :
    NoticeResponse.deserialize (header (.noticeResponse fields)) (body (.noticeResponse fields)) =
      .ok (.success, SQLError.ofFields fields .init) :=
  sqlError_deserialize _ fields hfields _ (check_own (.noticeResponse fields))

/-- What the map holds is kept, whatever the server sends. -/
theorem ofFields_find_of_some (fields : List (SQLErrorField × Str)) (error : SQLError)
    (type : SQLErrorField) (text : Str) (htext : error.find type = some text) :
    (SQLError.ofFields fields error).find type = some text := by
  induction fields generalizing error with
  | nil => exact htext
  | cons f fields ih =>
      exact ih (error.emplace f.1 f.2) (OrderedMap.find_emplace_of_some _ _ _ _ _ htext)

/-! Data rows. -/

section Rows

variable {ext : Externals ρ}

/-- Calls on a result object, one after the other. -/
def ResultBase.run (base : ResultBase ρ) : List ResultCall → ρ → Except Abort ρ
  | [], r => .ok r
  | call :: calls, r => do
      let r ← base.call call r
      base.run calls r

/-- The calls for the columns of a row, the first of which is column `i` and
starts at `pos`. -/
def columnCalls (buf : Buffer) : Int → Nat → List Buffer → List ResultCall
  | _, _, [] => []
  | i, pos, bytes :: columns =>
      .addColumn i buf (pos + 4) bytes.length ::
        columnCalls buf (i + 1) (pos + 4 + bytes.length) columns

namespace Backend

/-- The calls on the result object that a message leads to. -/
def calls : Backend → List ResultCall
  | .rowDescription fs => [.addFields fs]
  | .errorResponse fields => [.addError (SQLError.ofFields fields .init)]
  | .dataRow columns => .addRow :: columnCalls (body (.dataRow columns)) 0 2 columns
  | _ => []

end Backend

/-- The columns of a row, from where the cursor stands. -/
theorem readColumns_at {ν : Type} {buf rest : Buffer} {pos : Nat} (id : ResultId)
    (columns : List Buffer) (hsizes : ∀ bytes ∈ columns, bytes.length < 2 ^ 31)
    (hpos : pos + 2 ^ 32 * columns.length < 2 ^ 64) (i : Int)
    (h : buf.drop pos = columns.flatMap column ++ rest) {w : World ν ρ} {r : ρ}
    (hcalls : ext.base.run (columnCalls buf i pos columns) (w.results id) = .ok r) :
    DataRow.readColumns ext id buf columns.length i pos w =
      ⟨.ok (), { w with results := Function.update w.results id r },
        (columnCalls buf i pos columns).map (Event.result id)⟩ := by
  induction columns generalizing i pos w with
  | nil =>
      cases hcalls
      simp [DataRow.readColumns, columnCalls]
  | cons bytes columns ih =>
      simp only [List.flatMap_cons, column, List.append_assoc] at h
      have hbytes := drop_add_of_drop_eq h
      rw [be32_length] at hbytes
      have hnext := drop_add_of_drop_eq hbytes
      have hfit := hsizes bytes List.mem_cons_self
      rw [List.length_cons] at hpos
      have hsize : toSize (((pos + 4 : Nat) : Int) + (bytes.length : Int)) =
          pos + 4 + bytes.length := by
        rw [← Int.natCast_add]
        exact toSize_natCast _ (by omega)
      simp only [columnCalls, ResultBase.run] at hcalls
      cases hcall : ext.base.call (.addColumn i buf (pos + 4) bytes.length) (w.results id) with
      | error e =>
          rw [hcall] at hcalls
          cases hcalls
      | ok r' =>
          rw [hcall, ok_bind] at hcalls
          rw [List.length_cons,
            readColumns_succ columns.length (deserializeLength_at bytes.length hfit h) hcall,
            hsize]
          have hrest := ih (fun c hc => hsizes c (List.mem_cons_of_mem _ hc)) (by omega) (i + 1)
            hnext
            (w := { w with results := Function.update w.results id r' }) (by simpa using hcalls)
          simp only [hrest, columnCalls, List.map_cons, Function.update_idem]

theorem dataRow_deserialize (columns : List Buffer) (hcount : columns.length < 2 ^ 16)
    (hsizes : ∀ bytes ∈ columns, bytes.length < 2 ^ 31) (id : ResultId) {ν : Type}
    {w : World ν ρ} {r : ρ}
    (hcalls : ext.base.run (calls (.dataRow columns)) (w.results id) = .ok r) :
    DataRow.deserialize ext (header (.dataRow columns)) (body (.dataRow columns)) id w =
      ⟨.ok .success, { w with results := Function.update w.results id r },
        (calls (.dataRow columns)).map (Event.result id)⟩ := by
  have hcheck := check_own (.dataRow columns)
  have hnum := deserializeCount_at columns.length hcount
    (List.drop_zero : (body (.dataRow columns)).drop 0 =
      be16 columns.length ++ columns.flatMap column)
  simp only [calls, ResultBase.run] at hcalls
  cases hcall : ext.base.call .addRow (w.results id) with
  | error e =>
      rw [hcall] at hcalls
      cases hcalls
  | ok r' =>
      rw [hcall, ok_bind] at hcalls
      have hcursor : (body (.dataRow columns)).drop 2 = columns.flatMap column ++ [] :=
        (List.append_nil _).symm
      have hread := readColumns_at id columns hsizes (by omega) 0 hcursor
        (w := { w with results := Function.update w.results id r' }) (by simpa using hcalls)
      unfold DataRow.deserialize
      rw [show DataRow.mtype = mtype (.dataRow columns) from rfl, hcheck]
      dsimp only
      rw [if_neg (by simp)]
      simp only [hnum, Act.lift_ok, Act.bind_apply, Act.pure_apply, Act.callResult, hcall,
        Int.toNat_natCast, hread, Function.update_idem, List.nil_append, List.append_nil, calls,
        List.map_cons, List.singleton_append]

/-- No column is longer than its row. -/
theorem column_le_body {columns : List Buffer} {bytes : Buffer} (hmem : bytes ∈ columns) :
    bytes.length ≤ (body (.dataRow columns)).length := by
  obtain ⟨before, after, rfl⟩ := List.append_of_mem hmem
  simp only [body, List.flatMap_append, List.flatMap_cons, column, List.length_append]
  omega

end Rows

end Lapq
