import Lapq.Wire.Backend

/-!
When the decoders stay inside the message. The check at the head of a decoder
compares the lengths only; what is read after it follows counts, sizes and NUL
bytes of the message itself, so that the condition is that the message starts
with a whole encoding.
-/

namespace Lapq

open Bytes Backend

variable {ν ρ α β γ : Type} {buf : Buffer} {pos taken : Nat}

/-! What was read at the cursor is there. -/

theorem deserializeString_inv {s : Str} (h : deserializeString buf pos = .ok (s, taken)) :
    taken = s.length + 1 ∧ NulFree s ∧ ∃ rest, buf.drop pos = cstr s ++ rest := by
  unfold deserializeString at h
  split at h
  · rename_i hread
    cases h
    exact ⟨rfl, readCstr_some hread⟩
  · cases h

theorem deserializeInt16_inv {v : Int} (h : deserializeInt16 buf pos = .ok (v, taken)) :
    taken = 2 ∧ InUInt16 v ∧ ∃ rest, buf.drop pos = int16 v ++ rest := by
  unfold deserializeInt16 at h
  split at h
  · rename_i n hread
    cases h
    obtain ⟨hn, hrest⟩ := read16_some hread
    have hform : int16 n = be16 n := by
      rw [int16, pattern_natCast 16 n hn]
    rw [hform]
    refine ⟨rfl, ⟨by omega, by omega⟩, hrest⟩
  · cases h

theorem deserializeInt32_inv {v : Int} (h : deserializeInt32 buf pos = .ok (v, taken)) :
    taken = 4 ∧ InInt32 v ∧ ∃ rest, buf.drop pos = int32 v ++ rest := by
  unfold deserializeInt32 at h
  split at h
  · rename_i n hread
    cases h
    obtain ⟨hn, hrest⟩ := read32_some hread
    have hform : int32 (signed32 n) = be32 n := by
      rw [int32, pattern_signed32 n hn]
    rw [hform]
    exact ⟨rfl, signed32_bounds n hn, hrest⟩
  · cases h

theorem deserializeByte1_inv {b : UInt8} (h : deserializeByte1 buf pos = .ok (b, taken)) :
    taken = 1 ∧ ∃ rest, buf.drop pos = b :: rest := by
  unfold deserializeByte1 readByte at h
  cases hget : buf[pos]? with
  | none => simp [hget, bind, Except.bind] at h
  | some c =>
      simp only [hget, ok_bind] at h
      cases h
      obtain ⟨hlt, hc⟩ := List.getElem?_eq_some_iff.mp hget
      exact ⟨rfl, buf.drop (pos + 1), by rw [List.drop_eq_getElem_cons hlt, hc]⟩

/-! The loops. -/

theorem readErrorFields_inv {rounds last : Nat} {fieldType : UInt8} {error out : SQLError}
    (h : SQLError.readFields buf rounds fieldType pos error = .ok (out, last)) :
    ∃ (fields : List (SQLErrorField × Str)) (rest : Buffer),
      (∀ f ∈ fields, ValidErrorField f) ∧ fields.length < rounds ∧
      fieldType :: buf.drop pos = fields.flatMap errorField ++ 0 :: rest := by
  induction rounds generalizing fieldType pos error with
  | zero => cases h
  | succ rounds ih =>
      rw [SQLError.readFields] at h
      split at h
      · rename_i hend
        exact ⟨[], buf.drop pos, by simp, by simp, by rw [hend]; rfl⟩
      · rename_i htype
        obtain ⟨⟨text, k⟩, hread, h⟩ := bind_ok_inv h
        obtain ⟨rfl, htext, _, hbytes⟩ := deserializeString_inv hread
        have hcur := drop_add_of_drop_eq hbytes
        rw [cstr_length] at hcur
        obtain ⟨⟨next, k⟩, hread', h⟩ := bind_ok_inv h
        obtain ⟨rfl, _, hbyte⟩ := deserializeByte1_inv hread'
        have hcur' := drop_add_of_drop_eq (x := [next]) hbyte
        obtain ⟨fields, rest, hfields, hcount, hrest⟩ := ih h
        refine ⟨(fieldType, text) :: fields, rest, ?_, by simpa using hcount, ?_⟩
        · intro f hf
          rcases List.mem_cons.mp hf with rfl | hmem
          · exact ⟨htype, htext⟩
          · exact hfields f hmem
        · rw [List.length_singleton] at hcur'
          rw [hbytes, ← hcur, hbyte, ← hcur', hrest]
          simp only [List.flatMap_cons, errorField, List.append_assoc, List.cons_append]

/-- The loop over the fields of a body with the read before it, for a number of
rounds. The loop of the source has no such bound. -/
def SQLError.fieldLoop (buf : Buffer) (rounds : Nat) : Except Abort (SQLError × Nat) := do
  let (fieldType, pos) ← deserializeByte1 buf 0
  SQLError.readFields buf rounds fieldType pos .init

/-- With enough rounds the loop reads the fields at the start of a body, and the
cursor ends behind their terminator. -/
theorem fieldLoop_of_start {fields : List (SQLErrorField × Str)} {buf : Buffer}
    (hfields : ∀ f ∈ fields, ValidErrorField f) (hstart : fields.flatMap errorField ++ [0] <+: buf)
    (rounds : Nat) (hrounds : fields.length < rounds) :
    SQLError.fieldLoop buf rounds =
      .ok (SQLError.ofFields fields .init, (fields.flatMap errorField ++ [0]).length) := by
  obtain ⟨rest, hrest⟩ := hstart
  rw [List.append_assoc] at hrest
  obtain ⟨b, tail, hb⟩ := errorFields_eq_cons fields rest
  have hbuf : buf = b :: tail := hrest.symm.trans hb
  have hbyte : deserializeByte1 buf 0 = .ok (b, 1) := by
    rw [hbuf]
    rfl
  have hcursor : b :: buf.drop 1 = fields.flatMap errorField ++ 0 :: rest := by
    rw [hbuf]
    exact hb.symm
  have hloop := readErrorFields_at fields hfields rounds hrounds .init b hcursor
  unfold SQLError.fieldLoop
  rw [hbyte, ok_bind]
  dsimp only
  rw [hloop, List.length_append, List.length_singleton, Nat.add_comm 1]

/-- A loop that ends has read fields and their terminator. -/
theorem fieldLoop_inv {buf : Buffer} {rounds last : Nat} {error : SQLError}
    (h : SQLError.fieldLoop buf rounds = .ok (error, last)) :
    ∃ fields : List (SQLErrorField × Str), (∀ f ∈ fields, ValidErrorField f) ∧
      fields.length < rounds ∧ fields.flatMap errorField ++ [0] <+: buf ∧
      error = SQLError.ofFields fields .init ∧
      last = (fields.flatMap errorField ++ [0]).length := by
  obtain ⟨⟨fieldType, k⟩, hbyte, hloop⟩ := bind_ok_inv h
  obtain ⟨rfl, tail, hcur⟩ := deserializeByte1_inv hbyte
  obtain ⟨fields, rest, hfields, hcount, hrest⟩ := readErrorFields_inv hloop
  have hnext : buf.drop 1 = tail := drop_add_of_drop_eq (x := [fieldType]) hcur
  have hstart : fields.flatMap errorField ++ [0] <+: buf := by
    refine ⟨rest, ?_⟩
    rw [List.append_assoc, List.singleton_append, ← hrest, hnext, ← hcur, List.drop_zero]
  have hsame := h.symm.trans (fieldLoop_of_start hfields hstart rounds hcount)
  simp only [Except.ok.injEq, Prod.mk.injEq] at hsame
  exact ⟨fields, hfields, hcount, hstart, hsame.1, hsame.2⟩

/-- A body that starts with fields has rounds for all of them. -/
theorem errorFields_lt {fields : List (SQLErrorField × Str)} {buf : Buffer}
    (hstart : fields.flatMap errorField ++ [0] <+: buf) : fields.length < buf.length + 1 := by
  have hcount := length_le_flatMap_errorField fields
  have hle := hstart.length_le
  rw [List.length_append] at hle
  omega

/-- A decoder is its check and the loop. -/
theorem sqlError_deserialize_checked (type : MessageType) (header : Header) (buf : Buffer) :
    SQLError.deserialize type header buf =
      if (Message.check type header buf).isError then .ok (Message.check type header buf, .init)
      else SQLError.fieldLoop buf (buf.length + 1) >>= fun r => pure (.success, r.1) := by
  unfold SQLError.deserialize SQLError.fieldLoop
  cases deserializeByte1 buf 0 <;> rfl

/-! The checks at the head. -/

/-- The check turns the message down: the body is shorter than the header says,
compared as a `std::size_t`, or the type is another one. -/
def Rejected (type : MessageType) (header : Header) (buf : Buffer) : Prop :=
  buf.length < toSize header.bodyLen ∨ header.mtype ≠ type

theorem check_isError_iff (type : MessageType) (header : Header) (buf : Buffer) :
    (Message.check type header buf).isError = true ↔ Rejected type header buf := by
  unfold Message.check Rejected
  split
  · rename_i hshort
    exact iff_of_true rfl (Or.inl hshort)
  · rename_i hlong
    split
    · rename_i htype
      exact iff_of_true rfl (Or.inr htype)
    · rename_i htype
      simp [hlong, htype]

/-- The buffer starts with the contents of a message, in its format. -/
def Begins (buf : Buffer) (msg : Backend) : Prop := msg.Valid ∧ msg.body <+: buf

section Rows

variable {ext : Externals ρ} {id : ResultId}

/-- A result object that takes every call. -/
def ResultBase.Total (base : ResultBase ρ) : Prop := ∀ call r, ∃ r', base.call call r = .ok r'

/-- A chain of length words inside the buffer. Each is followed there by as many
bytes as it says, and the next one stands behind these; a negative length leads
back. -/
def ColumnChain (buf : Buffer) : Nat → Int → Prop
  | 0, _ => True
  | n + 1, pos => 0 ≤ pos ∧ ∃ size, read32 (buf.drop pos.toNat) = some size ∧
      pos + 4 + signed32 size ≤ buf.length ∧ ColumnChain buf n (pos + 4 + signed32 size)

/-- The buffer starts with a number of columns and has so many in a chain. -/
def Chained (buf : Buffer) : Prop := ∃ num, read16 buf = some num ∧ ColumnChain buf num 2

/-- A row that passes the check: the call for the row, then the loop. -/
theorem dataRow_deserialize_read {header : Header} {num : Nat} {w : World ν ρ} {r : ρ}
    (hcheck : ¬ (Message.check DataRow.mtype header buf).isError = true)
    (hread : deserializeInt16 buf 0 = .ok (num, 2))
    (hcall : ext.base.call .addRow (w.results id) = .ok r) :
    DataRow.deserialize ext header buf id w =
      match DataRow.readColumns ext id buf num 0 (toSize 2)
          { w with results := Function.update w.results id r } with
      | ⟨.ok _, w', es⟩ => ⟨.ok .success, w', .result id .addRow :: es⟩
      | ⟨.error e, w', es⟩ => ⟨.error e, w', .result id .addRow :: es⟩ := by
  have htwo : toSize 2 = 2 := rfl
  unfold DataRow.deserialize
  dsimp only
  rw [if_neg hcheck, hread, htwo]
  simp only [Act.lift_ok, Act.bind_apply, Act.pure_apply, Act.callResult, hcall,
    Int.toNat_natCast, List.nil_append]
  cases DataRow.readColumns ext id buf num 0 2
      { w with results := Function.update w.results id r } with
  | mk value w' es =>
      cases value with
      | error e => rfl
      | ok _ => simp

end Rows

/-! All of them. -/

/-- The decoders of the messages with fields. -/
inductive Decoder where
  | authentication
  | noticeResponse
  | errorResponse
  | parameterDescription
  | rowDescription
  | parameterStatus
  | backendKeyData
  | readyForQuery
  | dataRow
  | commandComplete

namespace Decoder

def mtype : Decoder → MessageType
  | .authentication => Authentication.mtype
  | .noticeResponse => NoticeResponse.mtype
  | .errorResponse => ErrorResponse.mtype
  | .parameterDescription => ParameterDescription.mtype
  | .rowDescription => RowDescription.mtype
  | .parameterStatus => ParameterStatus.mtype
  | .backendKeyData => BackendKeyData.mtype
  | .readyForQuery => ReadyForQuery.mtype
  | .dataRow => DataRow.mtype
  | .commandComplete => CommandComplete.mtype

/-- The buffer starts with the whole contents of a message. For an
authentication it is one that has a salt, and the header says that it is longer
than its code. -/
def Fits (header : Header) (buf : Buffer) : Decoder → Prop
  | .authentication => 4 < header.bodyLen ∧
      ∃ data, Begins buf (.authentication Authentication.authMd5Password data)
  | .noticeResponse | .errorResponse => ∃ fields, Begins buf (.errorResponse fields)
  | .parameterDescription => ∃ oids, Begins buf (.parameterDescription oids)
  | .rowDescription => ∃ fs, Begins buf (.rowDescription fs)
  | .parameterStatus => ∃ name value, Begins buf (.parameterStatus name value)
  | .backendKeyData => ∃ pid key, Begins buf (.backendKeyData pid key)
  | .readyForQuery => ∃ status, Begins buf (.readyForQuery status)
  | .dataRow => Chained buf
  | .commandComplete => ∃ tag, Begins buf (.commandComplete tag)

end Decoder

end Lapq
