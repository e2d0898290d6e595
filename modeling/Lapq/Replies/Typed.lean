import Lapq.Lib.Numeral
import Lapq.Replies.Session
import Lapq.Replies.Access

/-!
Values of the column types, from the text that the server makes of them to the
value that the user gets from a result set. The types with a built-in decoder keep
it, whatever decoders are registered; another type has the decoder that was
registered for it first, and is text if there is none.
-/

namespace Lapq

open Bytes Backend

variable {V T : Type} {embed : Pg.Value → V}

/-! Decoders. -/

namespace Pg

/-- A byte that starts a number is no space. -/
theorem isSpace_of_isDigit {c : UInt8} (hc : isDigit c = true) :
    isSpace c = false ∧ c ≠ 45 ∧ c ≠ 43 := by
  refine ⟨?_, ?_, ?_⟩
  · simp only [isDigit, Bool.and_eq_true, decide_eq_true_eq, UInt8.le_iff_toNat_le] at hc
    have hlow : 48 ≤ c.toNat := hc.1
    simp only [isSpace, Bool.or_eq_false_iff, Bool.and_eq_false_iff, decide_eq_false_iff_not,
      UInt8.le_iff_toNat_le]
    refine ⟨?_, Or.inr ?_⟩
    · rintro rfl
      exact absurd hlow (by decide)
    · change ¬ c.toNat ≤ 13
      omega
  · rintro rfl
    exact absurd hc (by decide)
  · rintro rfl
    exact absurd hc (by decide)

theorem digits_ofNat (n : Nat) : digits (Numeral.ofNat n) = n := by
  have htake : (Numeral.ofNat n).takeWhile isDigit = Numeral.ofNat n := Numeral.takeWhile_ofNat n
  unfold digits
  rw [htake]
  exact Numeral.value_ofNat n

/-- The text of a number is read back as the number. -/
theorem stoi_ofInt {n : Int} (hn : InInt32 n) : stoi (Numeral.ofInt n) = .ok n := by
  have htake : (Numeral.ofNat n.natAbs).takeWhile isDigit = Numeral.ofNat n.natAbs :=
    Numeral.takeWhile_ofNat _
  have hsome : (Numeral.ofNat n.natAbs).isEmpty = false :=
    List.isEmpty_eq_false_iff.mpr (Numeral.ofNat_ne_nil _)
  have hrange : ¬ (n < -2 ^ 31 || 2 ^ 31 ≤ n) = true := by
    have hlow := hn.1
    have hhigh := hn.2
    simp only [Bool.or_eq_true, decide_eq_true_eq, not_or]
    omega
  unfold Numeral.ofInt
  split
  · have hvalue : -(n.natAbs : Int) = n := by omega
    have hsign : (45 :: Numeral.ofNat n.natAbs).dropWhile isSpace =
        45 :: Numeral.ofNat n.natAbs := List.dropWhile_cons_of_neg (by decide)
    simp only [stoi, hsign, htake, hsome, digits_ofNat, if_true, hvalue, if_neg hrange]
    rfl
  · have hvalue : (n.natAbs : Int) = n := by omega
    cases hnumber : Numeral.ofNat n.natAbs with
    | nil => exact absurd hnumber (Numeral.ofNat_ne_nil _)
    | cons c rest =>
        have hdigit : isDigit c = true :=
          Numeral.isDigit_ofNat n.natAbs c (by rw [hnumber]; exact List.mem_cons_self)
        obtain ⟨hspace, hminus, hplus⟩ := isSpace_of_isDigit hdigit
        have hbody : (c :: rest).dropWhile isSpace = c :: rest :=
          List.dropWhile_cons_of_neg (by rw [hspace]; decide)
        have hdigits := digits_ofNat n.natAbs
        rw [hnumber] at hdigits htake hsome
        simp only [stoi, hbody]
        split
        · rename_i heq
          exact absurd (List.cons.inj heq).1 hminus
        · rename_i heq
          exact absurd (List.cons.inj heq).1 hplus
        · simp only [htake, hsome, hdigits, hvalue, Bool.false_eq_true, if_false]
          rw [if_neg hrange]

/-- The decoders that a program registers, in order. -/
def Format.registered (format : Format V) (decoders : List (Int × DecodeFunction V)) : Format V :=
  decoders.foldl (fun format d => format.emplace d.1 d.2) format

/-- What a program decodes with that registers some decoders. -/
abbrev Format.ofProgram (embed : Value → V) (decoders : List (Int × DecodeFunction V)) : Format V :=
  (Format.holding embed).registered decoders

/-- A type keeps the decoder that it has, or gets the first one. -/
theorem find_registered (format : Format V) (decoders : List (Int × DecodeFunction V))
    (oid : Int) :
    (format.registered decoders).decoder.find oid =
      (format.decoder.find oid).or ((decoders.find? fun d => d.1 = oid).map Prod.snd) := by
  unfold Format.registered
  induction decoders generalizing format with
  | nil => simp
  | cons d decoders ih =>
      rw [List.foldl_cons, ih, Format.emplace, OrderedMap.find_emplace, List.find?_cons]
      by_cases hoid : oid = d.1
      · subst hoid
        cases format.decoder.find d.1 <;> simp
      · have hother : ¬ d.1 = oid := fun h => hoid h.symm
        simp [hoid, hother]

theorem registered_text (format : Format V) (decoders : List (Int × DecodeFunction V)) :
    (format.registered decoders).text = format.text := by
  unfold Format.registered
  induction decoders generalizing format with
  | nil => rfl
  | cons d decoders ih => exact ih _

/-- The text that the server sends for a value. -/
def Value.sent : Value → Buffer
  | .bool b => if b then ascii "t" else ascii "f"
  | .int n => Numeral.ofInt n
  | .text s => s

/-- The value is one of the type. -/
def Value.Fits (oid : Int) : Value → Prop
  | .bool _ => oid = 16
  | .int n => oid = 23 ∧ InInt32 n
  | .text _ => oid ≠ 16 ∧ oid ≠ 23

end Pg

/-- Reading a string where its bytes stand. -/
theorem readString_at (before bytes after : Buffer) (hlength : bytes.length < 2 ^ 31) :
    readString (before ++ (bytes ++ after)) before.length (toSize (bytes.length : Int)) =
      .ok bytes := by
  have hsize : toSize (bytes.length : Int) = bytes.length := toSize_natCast _ (by omega)
  have hshort : ¬ maxSize < bytes.length := by
    unfold maxSize
    omega
  have hinside : ¬ (before ++ (bytes ++ after)).length < before.length + bytes.length := by
    simp only [List.length_append]
    omega
  unfold readString
  rw [hsize, if_neg hshort, if_neg hinside, List.drop_left, List.take_left]

namespace Pg

section Reads

variable {decoders : List (Int × DecodeFunction V)} {fs : FieldSpec} {bytes : Buffer}

/-- The decoder of a column, when its type has one. -/
theorem decode_found {format : Format V} {f : DecodeFunction V} (hformat : fs.typeFormat ≠ 1)
    (hfind : format.decoder.find fs.typeOid = some f) : format.decode fs = f := by
  funext buf pos sz
  unfold Format.decode
  rw [if_neg hformat, hfind]

theorem decode_missing {format : Format V} (hformat : fs.typeFormat ≠ 1)
    (hfind : format.decoder.find fs.typeOid = none) : format.decode fs = format.text := by
  funext buf pos sz
  unfold Format.decode
  rw [if_neg hformat, hfind]

theorem find_holding (embed : Value → V) {oid : Int} (hbool : oid ≠ 16) (hint : oid ≠ 23)
    (htext : oid ≠ 25) : (Format.holding embed).decoder.find oid = none := by
  unfold Format.holding
  rw [OrderedMap.find_emplace, if_neg htext, OrderedMap.find_emplace, if_neg hint,
    OrderedMap.find_emplace, if_neg hbool]
  rfl

theorem into_ok {f : DecodeFunction Value} {buf : Buffer} {pos : Nat} {sz : Int} {v : Value}
    (h : f buf pos sz = .ok v) : f.into embed buf pos sz = .ok (embed v) := by
  unfold DecodeFunction.into
  rw [h]
  rfl

/-- A value of a type that has a built-in decoder, or none, is read from its text. -/
theorem readsAs_text_of {v : Value} (hformat : fs.typeFormat ≠ 1) (hv : v.Fits fs.typeOid)
    (hown : fs.typeOid ∈ [16, 23, 25] ∨ ∀ d ∈ decoders, d.1 ≠ fs.typeOid)
    (hlength : v.sent.length < 2 ^ 31) :
    ReadsAs (Format.ofProgram embed decoders).decode fs v.sent (embed v) := by
  intro before after
  cases v with
  | bool b =>
      have hfind : (Format.ofProgram embed decoders).decoder.find fs.typeOid =
          some (decodeBool.into embed) := by
        rw [find_registered, show fs.typeOid = 16 from hv]
        rfl
      rw [decode_found hformat hfind]
      have hbyte (c : UInt8) : readByte (before ++ ([c] ++ after)) before.length = .ok c := by
        simp [readByte]
      have hbool (c : UInt8) (sz : Int) : decodeBool (before ++ ([c] ++ after)) before.length sz =
          .ok (.bool (c = 't'.toUInt8 || c = 'T'.toUInt8)) := by
        unfold decodeBool
        rw [hbyte, ok_bind]
        rfl
      cases b with
      | true => exact into_ok (hbool 't'.toUInt8 _)
      | false => exact into_ok (hbool 'f'.toUInt8 _)
  | int n =>
      have hfind : (Format.ofProgram embed decoders).decoder.find fs.typeOid =
          some (decodeInt4.into embed) := by
        rw [find_registered, hv.1]
        rfl
      rw [decode_found hformat hfind]
      apply into_ok
      unfold decodeInt4
      rw [readString_at before _ after hlength, ok_bind]
      change (stoi (Numeral.ofInt n) >>= fun n => pure (Value.int n)) = _
      rw [stoi_ofInt hv.2]
      rfl
  | text s =>
      have hread : decodeText (before ++ (s ++ after)) before.length s.length =
          .ok (.text s) := by
        unfold decodeText
        rw [readString_at before s after hlength, ok_bind]
        rfl
      have hdecode : (Format.ofProgram embed decoders).decode fs = decodeText.into embed := by
        by_cases htext : fs.typeOid = 25
        · apply decode_found hformat
          rw [find_registered, htext]
          rfl
        · have hfree : ∀ d ∈ decoders, d.1 ≠ fs.typeOid := by
            rcases hown with hbuiltin | hfree
            · simp [hv.1, hv.2, htext] at hbuiltin
            · exact hfree
          have hfind : (Format.ofProgram embed decoders).decoder.find fs.typeOid = none := by
            rw [find_registered, find_holding embed hv.1 hv.2 htext,
              List.find?_eq_none.mpr fun d hd => by simpa using hfree d hd]
            rfl
          rw [decode_missing hformat hfind, registered_text]
          rfl
      rw [hdecode]
      exact into_ok hread

theorem readsAs_registered {v : V} (hformat : fs.typeFormat ≠ 1)
    (htype : fs.typeOid ∉ [16, 23, 25]) {d : Int × DecodeFunction V}
    (hfirst : decoders.find? (fun d => d.1 = fs.typeOid) = some d)
    (hreads : ReadsAs (fun _ => d.2) fs bytes v) :
    ReadsAs (Format.ofProgram embed decoders).decode fs bytes v := by
  simp only [List.mem_cons, List.not_mem_nil, or_false, not_or] at htype
  have hfind : (Format.ofProgram embed decoders).decoder.find fs.typeOid = some d.2 := by
    rw [find_registered, find_holding embed htype.1 htype.2.1 htype.2.2, hfirst]
    rfl
  intro before after
  rw [decode_found hformat hfind]
  exact hreads before after

end Reads

end Pg

/-! Tables. -/

/-- A column of a row: the bytes that the server sends, and the value that they
stand for. -/
inductive Holds (embed : Pg.Value → V) (decoders : List (Int × Pg.DecodeFunction V))
    (fs : FieldSpec) : Buffer × V → Prop
  | own (v : Pg.Value) (hv : v.Fits fs.typeOid)
      (hown : fs.typeOid ∈ [16, 23, 25] ∨ ∀ d ∈ decoders, d.1 ≠ fs.typeOid) :
      Holds embed decoders fs (v.sent, embed v)
  | registered {bytes : Buffer} {v : V} (htype : fs.typeOid ∉ [16, 23, 25])
      {d : Int × Pg.DecodeFunction V}
      (hfirst : decoders.find? (fun d => d.1 = fs.typeOid) = some d)
      (hreads : ReadsAs (fun _ => d.2) fs bytes v) : Holds embed decoders fs (bytes, v)

/-- What a statement returns. -/
structure Table (V : Type) where
  fields : List FieldSpec
  rows : List (List (Buffer × V))
  tag : Str

namespace Table

def messages (t : Table V) : List Backend :=
  .rowDescription t.fields :: (t.rows.map (fun row => .dataRow (row.map Prod.fst)) ++
    [.commandComplete t.tag])

/-- The record set of a table, as the user sees it. -/
def record (t : Table V) : RecordSet V :=
  ⟨t.fields, RecordSet.indexNames t.fields, t.rows.map fun row => row.map Prod.snd, .init⟩

/-- The messages follow their formats, the columns are in text format, and every
row has a value for each of them. -/
structure Valid (embed : Pg.Value → V) (decoders : List (Int × Pg.DecodeFunction V))
    (t : Table V) : Prop where
  wellFormed : ∀ msg ∈ t.messages, msg.WellFormed
  format : ∀ fs ∈ t.fields, fs.typeFormat ≠ 1
  rows : ∀ row ∈ t.rows, List.Forall₂ (Holds embed decoders) t.fields row

end Table

section Tables

variable {decoders : List (Int × Pg.DecodeFunction V)}

theorem Holds.readsAs {fs : FieldSpec} {cell : Buffer × V} (hcell : Holds embed decoders fs cell)
    (hformat : fs.typeFormat ≠ 1) (hlength : cell.1.length < 2 ^ 31) :
    ReadsAs (Pg.Format.ofProgram embed decoders).decode fs cell.1 cell.2 := by
  cases hcell with
  | own v hv hown => exact Pg.readsAs_text_of hformat hv hown hlength
  | registered htype hfirst hreads => exact Pg.readsAs_registered hformat htype hfirst hreads

/-- The value of a column by itself. -/
def readValue (embed : Pg.Value → V) (decoders : List (Int × Pg.DecodeFunction V))
    (fs : FieldSpec) (bytes : Buffer) : V :=
  match (Pg.Format.ofProgram embed decoders).decode fs bytes 0 bytes.length with
  | .ok v => v
  | .error _ => embed (.text bytes)

theorem readValue_eq {fs : FieldSpec} {bytes : Buffer} {v : V}
    (hreads : ReadsAs (Pg.Format.ofProgram embed decoders).decode fs bytes v) :
    readValue embed decoders fs bytes = v := by
  have hread := hreads [] []
  rw [List.append_nil, List.nil_append, List.length_nil] at hread
  unfold readValue
  rw [hread]

/-- The columns of a row are read as the values that they stand for. -/
theorem row_read {fs : List FieldSpec} {row : List (Buffer × V)}
    (hrow : List.Forall₂ (Holds embed decoders) fs row) (hformat : ∀ f ∈ fs, f.typeFormat ≠ 1)
    (hlength : ∀ cell ∈ row, cell.1.length < 2 ^ 31) :
    RowFits (Pg.Format.ofProgram embed decoders).decode (readValue embed decoders) fs
        (row.map Prod.fst) ∧
      List.zipWith (readValue embed decoders) fs (row.map Prod.fst) = row.map Prod.snd := by
  induction hrow with
  | nil => exact ⟨⟨rfl, by simp⟩, rfl⟩
  | @cons f cell fs row hcell hrow ih =>
      obtain ⟨hfits, hvalues⟩ := ih (fun g hg => hformat g (List.mem_cons_of_mem _ hg))
        fun c hc => hlength c (List.mem_cons_of_mem _ hc)
      have hreads := hcell.readsAs (hformat f List.mem_cons_self)
        (hlength cell List.mem_cons_self)
      have hvalue := readValue_eq hreads
      refine ⟨⟨?_, ?_⟩, ?_⟩
      · rw [List.map_cons, List.length_cons, List.length_cons, hfits.length]
      · intro pair hpair
        rw [List.map_cons, List.zip_cons_cons] at hpair
        rcases List.mem_cons.mp hpair with rfl | hmem
        · rw [hvalue]
          exact hreads
        · exact hfits.reads pair hmem
      · rw [List.map_cons, List.zipWith_cons_cons, hvalue, hvalues, List.map_cons]

theorem Table.Valid.row_read {t : Table V} (ht : t.Valid embed decoders)
    {row : List (Buffer × V)} (hrow : row ∈ t.rows) :
    RowFits (Pg.Format.ofProgram embed decoders).decode (readValue embed decoders) t.fields
        (row.map Prod.fst) ∧
      List.zipWith (readValue embed decoders) t.fields (row.map Prod.fst) = row.map Prod.snd := by
  apply Lapq.row_read (ht.rows row hrow) ht.format
  intro cell hcell
  have hmsg : (Backend.dataRow (row.map Prod.fst)).WellFormed := ht.wellFormed _
    (List.mem_cons_of_mem _ (List.mem_append_left _ (List.mem_map_of_mem hrow)))
  have hle := column_le_body (List.mem_map_of_mem (f := Prod.fst) hcell)
  have hbody := hmsg.length
  omega

/-- Rows of one table, and the messages after them. -/
theorem rowsFit_rows {decode : FieldSpec → Pg.DecodeFunction V} {read : FieldSpec → Buffer → V}
    {fs : List FieldSpec} {rows : List (List Buffer)} {more : List Backend}
    (hrows : ∀ columns ∈ rows, RowFits decode read fs columns)
    (hmore : RowsFit decode read (some fs) more) (tag : Str) :
    RowsFit decode read (some fs) (rows.map Backend.dataRow ++ (.commandComplete tag :: more)) := by
  induction rows with
  | nil => exact hmore
  | cons columns rows ih =>
      exact ⟨⟨fs, rfl, hrows columns List.mem_cons_self⟩,
        ih fun c hc => hrows c (List.mem_cons_of_mem _ hc)⟩

/-- The rows of a table are in messages of their own. -/
theorem Table.messages_eq (t : Table V) (more : List Backend) :
    t.messages ++ more = .rowDescription t.fields ::
      ((t.rows.map fun row => row.map Prod.fst).map Backend.dataRow ++
        (.commandComplete t.tag :: more)) := by
  simp [Table.messages, Function.comp_def]

theorem Table.rowsFit {tables : List (Table V)} (htables : ∀ t ∈ tables, t.Valid embed decoders)
    (current : Option (List FieldSpec)) :
    RowsFit (Pg.Format.ofProgram embed decoders).decode (readValue embed decoders) current
      (tables.flatMap Table.messages) := by
  induction tables generalizing current with
  | nil => trivial
  | cons t tables ih =>
      have ht := htables t List.mem_cons_self
      have hrest := ih (fun t ht => htables t (List.mem_cons_of_mem _ ht)) (some t.fields)
      rw [List.flatMap_cons, Table.messages_eq]
      change RowsFit _ _ (some t.fields) _
      refine rowsFit_rows ?_ hrest t.tag
      intro columns hcolumns
      obtain ⟨row, hrow, rfl⟩ := List.mem_map.mp hcolumns
      exact (ht.row_read hrow).1

/-- The rows of a record set end where the next one opens. -/
theorem rowsOf_rows (read : FieldSpec → Buffer → V) (fs : List FieldSpec)
    (rows : List (List Buffer)) (tag : Str) {more : List Backend}
    (hmore : ∀ msg ∈ more.head?, msg.opens = true) :
    rowsOf read fs (rows.map Backend.dataRow ++ (.commandComplete tag :: more)) =
      rows.map (List.zipWith read fs) := by
  unfold rowsOf
  induction rows with
  | nil =>
      cases more with
      | nil => rfl
      | cons msg more =>
          have hopens : msg.opens = true := hmore msg rfl
          have hcommand : (Backend.commandComplete tag).opens = false := rfl
          have hnone : (Backend.commandComplete tag).columns? = none := rfl
          simp [hopens, hcommand, hnone]
  | cons columns rows ih =>
      simpa [Backend.opens, Backend.columns?] using ih

theorem assemble_rows (read : FieldSpec → Buffer → V) (rows : List (List Buffer)) (tag : Str)
    (more : List Backend) :
    assemble read (rows.map Backend.dataRow ++ (.commandComplete tag :: more)) =
      assemble read more := by
  induction rows with
  | nil => rfl
  | cons columns rows ih => exact ih

/-- A reply is assembled to its tables. -/
theorem assemble_tables {tables : List (Table V)} (htables : ∀ t ∈ tables, t.Valid embed decoders) :
    assemble (readValue embed decoders) (tables.flatMap Table.messages) =
      tables.map Table.record := by
  induction tables with
  | nil => rfl
  | cons t tables ih =>
      have ht := htables t List.mem_cons_self
      have hmore : ∀ msg ∈ (tables.flatMap Table.messages).head?, msg.opens = true := by
        cases tables with
        | nil => simp
        | cons next tables =>
            intro msg hmsg
            cases hmsg
            rfl
      have hvalues : (t.rows.map fun row => row.map Prod.fst).map
          (List.zipWith (readValue embed decoders) t.fields) =
          t.rows.map fun row => row.map Prod.snd := by
        rw [List.map_map]
        exact List.map_congr_left fun row hrow => (ht.row_read hrow).2
      rw [List.flatMap_cons, Table.messages_eq, List.map_cons, assemble, assemble_rows,
        rowsOf_rows _ _ _ _ hmore, hvalues, ih fun t ht => htables t (List.mem_cons_of_mem _ ht)]
      rfl

/-- Messages before the first table, such as that of a bound portal, add nothing. -/
theorem lead_quiet (decode : FieldSpec → Pg.DecodeFunction V) (read : FieldSpec → Buffer → V)
    {lead : List Backend} (hlead : ∀ msg ∈ lead, msg.opens = false ∧ msg.columns? = none)
    (more : List Backend) :
    assemble read (lead ++ more) = assemble read more ∧
      (RowsFit decode read none more → RowsFit decode read none (lead ++ more)) := by
  induction lead with
  | nil => exact ⟨rfl, id⟩
  | cons msg lead ih =>
      obtain ⟨hassemble, hfit⟩ := ih fun m hm => hlead m (List.mem_cons_of_mem _ hm)
      obtain ⟨hopens, hcolumns⟩ := hlead msg List.mem_cons_self
      cases msg with
      | rowDescription fs => cases hopens
      | errorResponse fields => cases hopens
      | dataRow columns => cases hcolumns
      | _ => exact ⟨hassemble, hfit⟩

/-- The messages of tables may come in both states. -/
theorem Table.messages_listed {tables : List (Table V)} (state : State) {msg : Backend}
    (hmsg : msg ∈ tables.flatMap Table.messages) : msg.Listed state := by
  obtain ⟨t, _, hmem⟩ := List.mem_flatMap.mp hmsg
  rcases List.mem_cons.mp hmem with rfl | hrest
  · trivial
  · rcases List.mem_append.mp hrest with hrow | hlast
    · obtain ⟨row, _, rfl⟩ := List.mem_map.mp hrow
      trivial
    · rw [List.mem_singleton.mp hlast]
      trivial

theorem Table.record_get {t : Table V} {i j : Nat} {row : List (Buffer × V)}
    {cell : Buffer × V} (hrow : t.rows[i]? = some row) (hcell : row[j]? = some cell)
    (anyCast : V → Option T) :
    t.record.get anyCast i j = (anyCast cell.2).elim (.error .badAnyCast) .ok := by
  have hrecord : t.record.row[i]? = some (row.map Prod.snd) := by
    simp [Table.record, hrow]
  unfold RecordSet.get Record.get
  rw [hrecord]
  dsimp only
  rw [List.getElem?_map, hcell, Option.map_some]
  dsimp only
  cases anyCast cell.2 <;> rfl

end Tables

/-- Whatever decoders a program registers, the values of the tables that a server
answers with are in the result set that was passed, table after table, and are
read from it by place and by name; the handler has run once, with success. -/
theorem typed_results (embed : Pg.Value → V) (decoders : List (Int × Pg.DecodeFunction V))
    (md5 : Str → List UInt8) (salt : Byte4) (mode : Mode) (x : Exchange)
    (hexec : (∃ q res eh, x.call = .exec q res eh) ∨ ∃ q res eh, x.call = .execQuery q res eh)
    (id : ResultId) (hid : x.call.result = some id) (lead : List Backend)
    (hlead : ∀ msg ∈ lead, msg.WellFormed ∧ msg.Listed (x.call.opened FSM.init).state ∧
      msg.opens = false ∧ msg.columns? = none)
    (tables : List (Table V)) (htables : ∀ t ∈ tables, t.Valid embed decoders)
    (hmessages : x.reply.messages = lead ++ tables.flatMap Table.messages)
    (w : World Peer (ResultSet V)) (hstate : w.fsm.state = .IDLE)
    (hp : w.net.Faultless) (rest : Buffer) (hinput : w.net.input = x.reply.wire ++ rest)
    (n : Nat) (hn : 2 * w.net.input.length + 6 ≤ n) :
    let o := mode.drive
      ⟨ResultSet.base (Pg.Format.ofProgram embed decoders).decode, md5, salt⟩ n x.call w
    o.value = .ok () ∧ o.events.filter Event.isHandler = [.handler x.call.handler .success .IDLE] ∧
      o.world.net.input = rest ∧
      (o.world.results id).length = (w.results id).length + tables.length ∧
      (∀ other, other ≠ id → o.world.results other = w.results other) ∧
      ∀ k t, tables[k]? = some t → ∃ r, (o.world.results id)[(w.results id).length + k]? = some r ∧
        r.fieldSpec = t.fields ∧ r.ok = true ∧ r.row.length = t.rows.length ∧
        ∀ i row, t.rows[i]? = some row → ∀ j cell, row[j]? = some cell →
          ∀ (T : Type) (anyCast : V → Option T),
            r.get anyCast i j = (anyCast cell.2).elim (.error .badAnyCast) .ok ∧
            ∀ name, IsFirst t.fields name j →
              r.getByName anyCast i name = (anyCast cell.2).elim (.error .badAnyCast) .ok := by
  have hquiet := lead_quiet (Pg.Format.ofProgram embed decoders).decode (readValue embed decoders)
    (fun msg hmsg => (hlead msg hmsg).2.2) (tables.flatMap Table.messages)
  have hvalid : x.Valid (Pg.Format.ofProgram embed decoders).decode (readValue embed decoders) := by
    refine ⟨hexec, ⟨id, hid⟩, ?_, ?_⟩
    · intro msg hmsg
      rw [hmessages] at hmsg
      rcases List.mem_append.mp hmsg with hmem | hmem
      · exact ⟨(hlead msg hmem).1, (hlead msg hmem).2.1⟩
      · refine ⟨?_, Table.messages_listed _ hmem⟩
        obtain ⟨t, ht, hmem⟩ := List.mem_flatMap.mp hmem
        exact (htables t ht).wellFormed msg hmem
    · rw [hmessages]
      exact hquiet.2 (Table.rowsFit htables none)
  obtain ⟨hserved, hleft⟩ := served_of_valid md5 salt mode hvalid w hstate hp rest hinput n hn
  have hresults := hserved.results id hid
  rw [hmessages, hquiet.1, assemble_tables htables] at hresults
  refine ⟨hserved.value, hserved.handler, hleft, ?_, ?_, ?_⟩
  · rw [hresults, Function.update_self, List.length_append, List.length_map]
  · intro other hother
    rw [hresults, Function.update_of_ne hother]
  · intro k t ht
    refine ⟨t.record, ?_, rfl, rfl, List.length_map .., ?_⟩
    · rw [hresults, Function.update_self, List.getElem?_append_right (Nat.le_add_right _ _),
        Nat.add_sub_cancel_left, List.getElem?_map, ht]
      rfl
    · intro i row hrow j cell hcell T anyCast
      have hget := Table.record_get hrow hcell anyCast
      refine ⟨hget, ?_⟩
      intro name hfirst
      rw [getByName_first anyCast rfl hfirst, hget]

/-- The built-in decoders alone. -/
example : Pg.Format.holding id = Pg.Format.standard := by
  have hid (f : Pg.DecodeFunction Pg.Value) : f.into id = f := by
    funext buf pos sz
    exact congrFun Except.map_id (f buf pos sz)
  unfold Pg.Format.holding Pg.Format.standard
  simp only [hid]

/-- A flag, and a 64-bit number, of a type that the program below has registered. -/
def flagTable : Table (Pg.Value ⊕ Int) where
  fields := [⟨ascii "flag", 0, 0, 16, 1, -1, 0⟩, ⟨ascii "n", 0, 0, 20, 8, -1, 0⟩]
  rows := [[(ascii "t", .inl (.bool true)), (ascii "-42", .inr (-42))]]
  tag := ascii "SELECT 1"

/-- It gives a value that is none of the built-in ones. -/
def int8Decoder : List (Int × Pg.DecodeFunction (Pg.Value ⊕ Int)) :=
  [(20, fun buf pos sz => do
    let s ← readString buf pos (toSize sz)
    let n ← Pg.stoi s
    pure (.inr n))]

def flagExchange : Exchange where
  call := .execQuery ⟨ascii "select flag, n from t", ascii "s", []⟩ (some 4) 3
  reply := ⟨[.bindComplete] ++ [flagTable].flatMap Table.messages, 'I'.toUInt8⟩

theorem flagTable_valid : flagTable.Valid .inl int8Decoder := by
  refine ⟨?_, by decide, ?_⟩
  · intro msg hmsg
    simp only [flagTable, Table.messages, List.map_cons, List.map_nil, List.mem_cons,
      List.cons_append, List.nil_append, List.not_mem_nil, or_false] at hmsg
    rcases hmsg with rfl | rfl | rfl
    · refine ⟨⟨by decide, ?_⟩, by decide⟩
      intro f hf
      simp only [List.mem_cons, List.not_mem_nil, or_false] at hf
      rcases hf with rfl | rfl
      · exact ⟨by decide, ⟨by decide, by decide⟩, ⟨by decide, by decide⟩, ⟨by decide, by decide⟩,
          ⟨by decide, by decide⟩, ⟨by decide, by decide⟩, ⟨by decide, by decide⟩⟩
      · exact ⟨by decide, ⟨by decide, by decide⟩, ⟨by decide, by decide⟩, ⟨by decide, by decide⟩,
          ⟨by decide, by decide⟩, ⟨by decide, by decide⟩, ⟨by decide, by decide⟩⟩
    · exact ⟨show _ < _ by decide, by decide⟩
    · exact ⟨show NulFree _ by decide, by decide⟩
  · intro row hrow
    rw [List.mem_singleton.mp hrow]
    refine .cons (.own (.bool true) rfl (Or.inl (by decide)))
      (.cons (.registered (d := int8Decoder.head (by decide)) (by decide) rfl ?_) .nil)
    intro before after
    change (readString _ _ _ >>= fun s => Pg.stoi s >>= fun n => pure (Sum.inr n)) = _
    rw [readString_at before (ascii "-42") after (by decide), ok_bind]
    rfl

theorem typed_results_flag :
    let o := Mode.drive ⟨ResultSet.base (Pg.Format.ofProgram .inl int8Decoder).decode,
      fun _ => [], (0, 0, 0, 0)⟩ (2 * flagExchange.reply.wire.length + 6) flagExchange.call
      (connected flagExchange.reply.wire) .async
    ∃ r, (o.world.results 4)[0]? = some r ∧
      r.getByName (fun v => some v) 0 (ascii "n") = .ok (.inr (-42)) := by
  obtain ⟨_, _, _, _, _, hall⟩ := typed_results Sum.inl int8Decoder (fun _ => []) (0, 0, 0, 0)
    .async flagExchange (Or.inr ⟨_, _, _, rfl⟩) 4 rfl [.bindComplete]
    (fun msg hmsg => by
      rw [List.mem_singleton.mp hmsg]
      exact ⟨⟨trivial, by decide⟩, rfl, rfl, rfl⟩)
    [flagTable] (fun t ht => by rw [List.mem_singleton.mp ht]; exact flagTable_valid) rfl
    (connected flagExchange.reply.wire) rfl (fun _ => rfl) [] (List.append_nil _).symm
    (2 * flagExchange.reply.wire.length + 6) (le_refl _)
  obtain ⟨r, hr, _, _, _, hget⟩ := hall 0 flagTable rfl
  have hfirst : IsFirst flagTable.fields (ascii "n") 1 :=
    (find_indexNames_iff flagTable.fields (ascii "n") 1).mp (by decide)
  have hvalue := (hget 0 [(ascii "t", .inl (.bool true)), (ascii "-42", .inr (-42))] rfl 1
    (ascii "-42", .inr (-42)) rfl (Pg.Value ⊕ Int) fun v => some v).2 (ascii "n") hfirst
  have hzero : ((connected (V := Pg.Value ⊕ Int) flagExchange.reply.wire).results 4).length + 0 =
    0 := rfl
  rw [hzero] at hr
  exact ⟨r, hr, hvalue⟩

end Lapq
