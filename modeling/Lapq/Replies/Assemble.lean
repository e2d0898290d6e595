import Lapq.Replies.Operation

/-!
What a result set holds after a reply, said without the order of calls: one
record set for every row description and every error response, with the rows
that follow the description up to the next of them.
-/

namespace Lapq

open Bytes Backend

variable {V : Type}

/-- The decoder reads a column from wherever its bytes stand in a body. -/
def ReadsAs (decode : FieldSpec → Pg.DecodeFunction V) (fs : FieldSpec) (bytes : Buffer)
    (v : V) : Prop :=
  ∀ before after : Buffer, decode fs (before ++ (bytes ++ after)) before.length bytes.length =
    .ok v

theorem ReadsAs.at_cursor {decode : FieldSpec → Pg.DecodeFunction V} {fs : FieldSpec}
    {bytes : Buffer} {v : V} (h : ReadsAs decode fs bytes v) {buf rest : Buffer} {pos : Nat}
    (hpos : pos ≤ buf.length) (hcursor : buf.drop pos = bytes ++ rest) :
    decode fs buf pos bytes.length = .ok v := by
  have hread := h (buf.take pos) rest
  rwa [← hcursor, List.take_append_drop, List.length_take_of_le hpos] at hread

namespace Backend

/-- The messages that start a record set. -/
def opens : Backend → Bool
  | .rowDescription _ | .errorResponse _ => true
  | _ => false

def columns? : Backend → Option (List Buffer)
  | .dataRow columns => some columns
  | _ => none

end Backend

/-- The rows up to the next record set. -/
def rowsOf (read : FieldSpec → Buffer → V) (fs : List FieldSpec) (messages : List Backend) :
    List (List V) :=
  ((messages.takeWhile fun msg => !msg.opens).filterMap Backend.columns?).map fun columns =>
    List.zipWith read fs columns

/-- The record sets of a reply. -/
def assemble (read : FieldSpec → Buffer → V) : List Backend → ResultSet V
  | [] => []
  | msg :: messages =>
      match msg with
      | .rowDescription fs =>
          ⟨fs, RecordSet.indexNames fs, rowsOf read fs messages, .init⟩ :: assemble read messages
      | .errorResponse fields =>
          ⟨[], .empty, [], SQLError.ofFields fields .init⟩ :: assemble read messages
      | _ => assemble read messages

/-- A row has a column for each field, and each can be read. -/
structure RowFits (decode : FieldSpec → Pg.DecodeFunction V) (read : FieldSpec → Buffer → V)
    (fs : List FieldSpec) (columns : List Buffer) : Prop where
  length : columns.length = fs.length
  reads : ∀ pair ∈ fs.zip columns, ReadsAs decode pair.1 pair.2 (read pair.1 pair.2)

/-- Every row fits the last description before it, and no error stands between
them. The first argument is that description, if there is one. -/
def RowsFit (decode : FieldSpec → Pg.DecodeFunction V) (read : FieldSpec → Buffer → V) :
    Option (List FieldSpec) → List Backend → Prop
  | _, [] => True
  | current, msg :: messages =>
      match msg with
      | .rowDescription fs => RowsFit decode read (some fs) messages
      | .errorResponse _ => RowsFit decode read none messages
      | .dataRow columns => (∃ fs, current = some fs ∧ RowFits decode read fs columns) ∧
          RowsFit decode read current messages
      | _ => RowsFit decode read current messages

theorem modifyBack_append {α : Type} (f : α → Except Abort α) (before : List α) (x : α) :
    ResultSet.modifyBack f (before ++ [x]) = f x >>= fun y => pure (before ++ [y]) := by
  simp [ResultSet.modifyBack]

section Row

variable {decode : FieldSpec → Pg.DecodeFunction V} {read : FieldSpec → Buffer → V}

theorem call_addRow (before : List (RecordSet V)) (last : RecordSet V) :
    (ResultSet.base decode).call .addRow (before ++ [last]) =
      .ok (before ++ [{ last with row := last.row ++ [[]] }]) := by
  simp only [ResultSet.base, ResultSet.addRow, modifyBack_append, ok_bind]
  rfl

/-- A column is decoded with the description at its place and goes to the end of
the last row. -/
theorem call_addColumn (before : List (RecordSet V)) (last : RecordSet V) (rows : List (List V))
    (done : List V) {i : Nat} {f : FieldSpec} (hfield : last.fieldSpec[i]? = some f)
    (buf : Buffer) (pos : Nat) (sz : Int) :
    (ResultSet.base decode).call (.addColumn i buf pos sz)
        (before ++ [{ last with row := rows ++ [done] }]) =
      (decode f buf pos sz).map fun v =>
        before ++ [{ last with row := rows ++ [done ++ [v]] }] := by
  simp only [ResultSet.base, ResultSet.addColumn, modifyBack_append, Int.toNat_natCast, hfield]
  cases decode f buf pos sz with
  | error e => rfl
  | ok v => rfl

/-- The columns of a row, from column `done.length` on. -/
theorem run_columnCalls (before : List (RecordSet V)) (last : RecordSet V)
    (rows : List (List V)) (done : List V) (fs : List FieldSpec) (columns : List Buffer)
    (hfs : last.fieldSpec.drop done.length = fs) (hfits : RowFits decode read fs columns)
    {buf rest : Buffer} {pos : Nat} (hcursor : buf.drop pos = columns.flatMap column ++ rest) :
    (ResultSet.base decode).run (columnCalls buf done.length pos columns)
        (before ++ [{ last with row := rows ++ [done] }]) =
      .ok (before ++ [{ last with row := rows ++ [done ++ List.zipWith read fs columns] }]) := by
  induction columns generalizing done fs pos with
  | nil => simp [columnCalls, ResultBase.run]
  | cons bytes columns ih =>
      cases fs with
      | nil => exact absurd hfits.length (by simp)
      | cons f fs =>
          simp only [List.flatMap_cons, column, List.append_assoc] at hcursor
          have hbytes := drop_add_of_drop_eq hcursor
          rw [be32_length] at hbytes
          have hnext := drop_add_of_drop_eq hbytes
          have hpos : pos + 4 ≤ buf.length := by
            have hlength := congrArg List.length hcursor
            simp only [List.length_drop, List.length_append, be32_length] at hlength
            omega
          have hread : decode f buf (pos + 4) bytes.length = .ok (read f bytes) :=
            (hfits.reads (f, bytes) (by simp)).at_cursor hpos hbytes
          have hfield : last.fieldSpec[done.length]? = some f := by
            have hhead := congrArg List.head? hfs
            rwa [List.head?_drop] at hhead
          have hmore : last.fieldSpec.drop (done ++ [read f bytes]).length = fs := by
            rw [List.length_append, ← List.drop_drop, hfs]
            rfl
          have hrest := ih (done ++ [read f bytes]) fs hmore
            ⟨by simpa using hfits.length, fun pair hpair => hfits.reads pair
              (by rw [List.zip_cons_cons]; exact List.mem_cons_of_mem _ hpair)⟩ hnext
          simp only [columnCalls, ResultBase.run]
          have hcall : (ResultSet.base decode).call
              (.addColumn done.length buf (pos + 4) bytes.length)
              (before ++ [{ last with row := rows ++ [done] }]) =
              .ok (before ++ [{ last with row := rows ++ [done ++ [read f bytes]] }]) := by
            rw [call_addColumn before last rows done hfield, hread]
            rfl
          rw [hcall, ok_bind]
          simpa using hrest

theorem run_dataRow (before : List (RecordSet V)) (last : RecordSet V) (columns : List Buffer)
    (hfits : RowFits decode read last.fieldSpec columns) :
    (ResultSet.base decode).run (calls (.dataRow columns)) (before ++ [last]) =
      .ok (before ++
        [{ last with row := last.row ++ [List.zipWith read last.fieldSpec columns] }]) := by
  have hcursor : (body (.dataRow columns)).drop 2 = columns.flatMap column ++ [] :=
    (List.append_nil _).symm
  have hcolumns := run_columnCalls before last last.row [] last.fieldSpec columns rfl hfits hcursor
  simp only [calls, ResultBase.run]
  rw [call_addRow, ok_bind]
  exact hcolumns

/-- A reply fills a result set with its record sets, after what was there. Both
forms are needed along the reply: with an open record set, to which rows are
added, and without one. -/
theorem run_messages (decode : FieldSpec → Pg.DecodeFunction V) (read : FieldSpec → Buffer → V)
    (messages : List Backend) :
    (∀ before last, RowsFit decode read (some last.fieldSpec) messages →
      (ResultSet.base decode).run (messages.flatMap calls) (before ++ [last]) =
        .ok (before ++ { last with row := last.row ++ rowsOf read last.fieldSpec messages } ::
          assemble read messages)) ∧
    (∀ sets, RowsFit decode read none messages →
      (ResultSet.base decode).run (messages.flatMap calls) sets =
        .ok (sets ++ assemble read messages)) := by
  induction messages with
  | nil => exact ⟨fun before last _ => by simp [ResultBase.run, rowsOf, assemble],
      fun sets _ => by simp [ResultBase.run, assemble]⟩
  | cons msg messages ih =>
      obtain ⟨hopen, hclosed⟩ := ih
      -- A message without calls that starts no record set changes nothing.
      have hquiet (hcalls : msg.calls = []) (hopens : msg.opens = false)
          (hcolumns : msg.columns? = none)
          (hassemble : assemble read (msg :: messages) = assemble read messages)
          (hfit : ∀ current, RowsFit decode read current (msg :: messages) →
            RowsFit decode read current messages) :
          (∀ before last, RowsFit decode read (some last.fieldSpec) (msg :: messages) →
            (ResultSet.base decode).run ((msg :: messages).flatMap calls) (before ++ [last]) =
              .ok (before ++ { last with
                row := last.row ++ rowsOf read last.fieldSpec (msg :: messages) } ::
                assemble read (msg :: messages))) ∧
          (∀ sets, RowsFit decode read none (msg :: messages) →
            (ResultSet.base decode).run ((msg :: messages).flatMap calls) sets =
              .ok (sets ++ assemble read (msg :: messages))) := by
        have hrows (fs : List FieldSpec) :
            rowsOf read fs (msg :: messages) = rowsOf read fs messages := by
          simp [rowsOf, hopens, hcolumns]
        simp only [List.flatMap_cons, hcalls, List.nil_append, hassemble, hrows]
        exact ⟨fun before last h => hopen before last (hfit _ h),
          fun sets h => hclosed sets (hfit _ h)⟩
      cases msg with
      | rowDescription fs =>
          have hadd (sets : ResultSet V) (h : RowsFit decode read (some fs) messages) :
              (ResultSet.base decode).run ((.rowDescription fs :: messages).flatMap calls) sets =
                .ok (sets ++ assemble read (.rowDescription fs :: messages)) := by
            have hrest := hopen sets (RecordSet.ofFields fs) h
            simpa [calls, ResultBase.run, ResultSet.base, assemble, ok_bind, RecordSet.ofFields]
              using hrest
          constructor
          · intro before last h
            have hset := hadd (before ++ [last]) h
            simpa [rowsOf, opens] using hset
          · exact hadd
      | errorResponse fields =>
          have hadd (sets : ResultSet V) (h : RowsFit decode read none messages) :
              (ResultSet.base decode).run ((.errorResponse fields :: messages).flatMap calls) sets =
                .ok (sets ++ assemble read (.errorResponse fields :: messages)) := by
            have hrest := hclosed (sets ++ [.ofError (SQLError.ofFields fields .init)]) h
            simpa [calls, ResultBase.run, ResultSet.base, assemble, ok_bind, RecordSet.ofError]
              using hrest
          constructor
          · intro before last h
            have hset := hadd (before ++ [last]) h
            simpa [rowsOf, opens] using hset
          · exact hadd
      | dataRow columns =>
          constructor
          · rintro before last ⟨⟨fs, hfs, hfits⟩, h⟩
            cases hfs
            have hrest := hopen before
              { last with row := last.row ++ [List.zipWith read last.fieldSpec columns] } h
            rw [List.flatMap_cons, run_append, run_dataRow before last columns hfits, ok_bind,
              hrest]
            simp [rowsOf, opens, columns?, assemble]
          · rintro sets ⟨⟨fs, hfs, _⟩, _⟩
            cases hfs
      | authentication code data => exact hquiet rfl rfl rfl rfl fun _ h => h
      | parameterStatus name value => exact hquiet rfl rfl rfl rfl fun _ h => h
      | backendKeyData pid key => exact hquiet rfl rfl rfl rfl fun _ h => h
      | readyForQuery status => exact hquiet rfl rfl rfl rfl fun _ h => h
      | commandComplete tag => exact hquiet rfl rfl rfl rfl fun _ h => h
      | noticeResponse fields => exact hquiet rfl rfl rfl rfl fun _ h => h
      | parseComplete => exact hquiet rfl rfl rfl rfl fun _ h => h
      | bindComplete => exact hquiet rfl rfl rfl rfl fun _ h => h
      | parameterDescription oids => exact hquiet rfl rfl rfl rfl fun _ h => h
      | closeComplete => exact hquiet rfl rfl rfl rfl fun _ h => h
      | other type bytes => exact hquiet rfl rfl rfl rfl fun _ h => h

end Row

/-- The library's decoder reads a text column as its bytes. -/
theorem readsAs_text (fs : FieldSpec) (hformat : fs.typeFormat ≠ 1) (htype : fs.typeOid = 25)
    (bytes : Buffer) (hlength : bytes.length < 2 ^ 31) :
    ReadsAs Pg.Format.standard.decode fs bytes (.text bytes) := by
  intro before after
  have hfind : Pg.Format.standard.decoder.find 25 = some Pg.decodeText := rfl
  have hsize : toSize (bytes.length : Int) = bytes.length := toSize_natCast _ (by omega)
  have hshort : ¬ maxSize < bytes.length := by
    unfold maxSize
    omega
  have hinside : ¬ (before ++ (bytes ++ after)).length < before.length + bytes.length := by
    simp only [List.length_append]
    omega
  unfold Pg.Format.decode
  rw [if_neg hformat, htype, hfind]
  dsimp only
  unfold Pg.decodeText readString
  rw [hsize, if_neg hshort, if_neg hinside, ok_bind, List.drop_left, List.take_left]
  rfl

end Lapq
