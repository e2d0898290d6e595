import Lapq.Replies.Assemble

/-!
Data rows with NULL columns. A NULL is a length word of -1 without bytes, and
the cursor is moved by that length too, so that it stands one byte before the
next column.
-/

namespace Lapq

open Bytes Backend

variable {ν ρ V : Type} {ext : Externals ρ}

/-- A column as the protocol has it: NULL, or its bytes. -/
abbrev Cell := Option Buffer

namespace Cell

def wire : Cell → Buffer
  | none => int32 (-1)
  | some bytes => column bytes

/-- The call for a column has exactly its bytes. The one for a NULL has no
bytes, but the length from the wire. -/
def Carried (buf : Buffer) (pos : Nat) (sz : Int) : Cell → Prop
  | none => sz = -1
  | some bytes => sz = bytes.length ∧ (buf.drop pos).take bytes.length = bytes

end Cell

namespace DataRow

def bodyOf (cells : List Cell) : Buffer := be16 cells.length ++ cells.flatMap Cell.wire

/-- The cursor of the loop over the columns, some columns further. -/
def cursor (buf : Buffer) : Nat → Nat → Except Abort Nat
  | 0, pos => .ok pos
  | n + 1, pos => do
      let (sz, taken) ← deserializeInt32 buf pos
      cursor buf n (toSize ((pos + taken : Nat) + sz))

end DataRow

/-- A decoder that has a value for every column in text format. -/
def Pg.Total (decode : FieldSpec → Pg.DecodeFunction V) : Prop :=
  ∀ fs : FieldSpec, fs.typeFormat = 0 → ∀ (buf : Buffer) (pos n : Nat), n < 2 ^ 31 →
    pos + n ≤ buf.length → ∃ v, decode fs buf pos n = .ok v

/-- A row is read as it was sent: one call for the row and one for each column in
order, and after every column the cursor stands at the next one. -/
structure DataRow.Correct (ext : Externals ρ) (cells : List Cell) (id : ResultId)
    (w : World ν ρ) : Prop where
  value : (DataRow.deserialize ext ⟨DataRow.mtype, (bodyOf cells).length⟩ (bodyOf cells) id
    w).value = .ok .success
  calls : ∃ calls, (DataRow.deserialize ext ⟨DataRow.mtype, (bodyOf cells).length⟩ (bodyOf cells)
      id w).events = .result id .addRow :: calls.map (Event.result id) ∧
    List.Forall₂ (fun (c : Cell × Nat) call => ∃ pos sz,
      call = ResultCall.addColumn c.2 (bodyOf cells) pos sz ∧ c.1.Carried (bodyOf cells) pos sz)
      cells.zipIdx calls
  cursor : ∀ i ≤ cells.length, DataRow.cursor (bodyOf cells) i 2 =
    .ok (2 + ((cells.take i).flatMap Cell.wire).length)

/-! Rows without NULL. -/

theorem bodyOf_some (columns : List Buffer) :
    DataRow.bodyOf (columns.map some) = body (.dataRow columns) := by
  simp only [DataRow.bodyOf, body, List.length_map, List.flatMap_map]
  rfl

/-- The length word of a column and the bytes after it. -/
theorem column_at {buf rest bytes : Buffer} {columns : List Buffer} {pos : Nat}
    (hlen : buf.length < 2 ^ 31)
    (h : buf.drop pos = (bytes :: columns).flatMap column ++ rest) :
    deserializeInt32 buf pos = .ok ((bytes.length : Int), 4) ∧
      buf.drop (pos + 4) = bytes ++ (columns.flatMap column ++ rest) ∧
      buf.drop (pos + 4 + bytes.length) = columns.flatMap column ++ rest ∧
      pos + 4 + bytes.length ≤ buf.length ∧
      toSize ((pos + 4 : Nat) + (bytes.length : Int)) = pos + 4 + bytes.length := by
  simp only [List.flatMap_cons, column, List.append_assoc] at h
  have hbytes := drop_add_of_drop_eq h
  rw [be32_length] at hbytes
  have hall := congrArg List.length h
  simp only [List.length_drop, List.length_append, be32_length] at hall
  have hfit : pos + 4 + bytes.length ≤ buf.length := by
    omega
  refine ⟨deserializeLength_at bytes.length (by omega) h, hbytes, drop_add_of_drop_eq hbytes, hfit,
    ?_⟩
  rw [← Int.natCast_add]
  exact toSize_natCast _ (by omega)

theorem cursor_at {buf rest : Buffer} {pos : Nat} (columns : List Buffer)
    (hlen : buf.length < 2 ^ 31) (h : buf.drop pos = columns.flatMap column ++ rest) (i : Nat)
    (hi : i ≤ columns.length) :
    DataRow.cursor buf i pos = .ok (pos + ((columns.take i).flatMap column).length) := by
  induction columns generalizing i pos with
  | nil =>
      obtain rfl : i = 0 := by simpa using hi
      simp [DataRow.cursor]
  | cons bytes columns ih =>
      cases i with
      | zero => simp [DataRow.cursor]
      | succ i =>
          obtain ⟨hsize, _, hnext, _, hpos⟩ := column_at hlen h
          simp only [DataRow.cursor, hsize, ok_bind, hpos]
          rw [ih hnext i (by simpa using hi)]
          simp only [List.take_succ_cons, List.flatMap_cons, column, List.length_append,
            be32_length, Except.ok.injEq]
          omega

theorem columnCalls_carry {buf rest : Buffer} {pos : Nat} (columns : List Buffer)
    (hlen : buf.length < 2 ^ 31) (h : buf.drop pos = columns.flatMap column ++ rest) (k : Nat) :
    List.Forall₂ (fun (c : Cell × Nat) call => ∃ pos sz,
      call = ResultCall.addColumn c.2 buf pos sz ∧ c.1.Carried buf pos sz)
      ((columns.map some).zipIdx k) (columnCalls buf k pos columns) := by
  induction columns generalizing k pos with
  | nil => exact List.Forall₂.nil
  | cons bytes columns ih =>
      obtain ⟨_, hbytes, hnext, _, _⟩ := column_at hlen h
      refine List.Forall₂.cons ⟨pos + 4, bytes.length, rfl, rfl, ?_⟩ ?_
      · rw [hbytes, List.take_left]
      · exact_mod_cast ih hnext (k + 1)

/-! Rows with a NULL. -/

theorem cursor_succ (buf : Buffer) (n pos : Nat) :
    DataRow.cursor buf (n + 1) pos = DataRow.cursor buf n pos >>= DataRow.cursor buf 1 := by
  induction n generalizing pos with
  | zero => rfl
  | succ n ih =>
      rw [DataRow.cursor]
      conv_rhs => rw [DataRow.cursor]
      cases deserializeInt32 buf pos with
      | error e => rfl
      | ok size => exact ih _

/-- Behind a NULL the cursor is one byte short. -/
theorem cursor_not_null {cells : List Cell} (hc : none ∈ cells)
    (hcursor : ∀ i ≤ cells.length, DataRow.cursor (DataRow.bodyOf cells) i 2 =
      .ok (2 + ((cells.take i).flatMap Cell.wire).length)) : False := by
  obtain ⟨before, after, rfl⟩ := List.append_of_mem hc
  let pos := 2 + (before.flatMap Cell.wire).length
  have hhere : DataRow.cursor (DataRow.bodyOf (before ++ none :: after)) before.length 2 =
      .ok pos := by
    rw [hcursor before.length (by simp), List.take_left]
  have hnext : DataRow.cursor (DataRow.bodyOf (before ++ none :: after)) (before.length + 1) 2 =
      .ok (pos + 4) := by
    rw [hcursor (before.length + 1) (by simp), List.take_length_add_append]
    simp [Cell.wire, int32, pos, Nat.add_assoc]
  have hdrop : (DataRow.bodyOf (before ++ none :: after)).drop pos =
      int32 (-1) ++ after.flatMap Cell.wire := by
    rw [← List.drop_drop]
    change ((before ++ none :: after).flatMap Cell.wire).drop _ = _
    rw [List.flatMap_append, List.drop_left]
    rfl
  have hsize := deserializeInt32_at (-1) ⟨by decide, by decide⟩ hdrop
  rw [cursor_succ, hhere, ok_bind] at hnext
  simp only [DataRow.cursor, hsize, ok_bind] at hnext
  have hback := Except.ok.inj hnext
  unfold toSize pattern at hback
  omega

/-- A row without NULL is a list of byte strings. -/
theorem columns_of_not_null {cells : List Cell} (hnulls : ∀ c ∈ cells, c ≠ none) :
    ∃ columns : List Buffer, cells = columns.map some := by
  refine ⟨cells.map fun c => c.getD [], ?_⟩
  rw [List.map_map]
  conv_lhs => rw [← List.map_id cells]
  apply List.map_congr_left
  intro c hc
  obtain ⟨bytes, rfl⟩ := Option.ne_none_iff_exists'.mp (hnulls c hc)
  rfl

section Result

variable {decode : FieldSpec → Pg.DecodeFunction V}

/-- The columns of a row, from column `done.length` on, over a total decoder. -/
theorem run_columnCalls_total (htotal : Pg.Total decode) (before : List (RecordSet V))
    (last : RecordSet V) (hformat : ∀ f ∈ last.fieldSpec, f.typeFormat = 0)
    (rows : List (List V)) (done : List V) {buf rest : Buffer} {pos : Nat} (columns : List Buffer)
    (hlen : buf.length < 2 ^ 31) (hfields : last.fieldSpec.length = done.length + columns.length)
    (h : buf.drop pos = columns.flatMap column ++ rest) :
    ∃ r, (ResultSet.base decode).run (columnCalls buf done.length pos columns)
      (before ++ [{ last with row := rows ++ [done] }]) = .ok r := by
  induction columns generalizing done pos with
  | nil => exact ⟨_, rfl⟩
  | cons bytes columns ih =>
      obtain ⟨_, hbytes, hnext, hfit, _⟩ := column_at hlen h
      have hindex : done.length < last.fieldSpec.length := by
        rw [hfields, List.length_cons]
        omega
      have hfield := List.getElem?_eq_getElem hindex
      obtain ⟨v, hv⟩ := htotal _ (hformat _ (List.getElem_mem hindex)) buf (pos + 4) bytes.length
        (by omega) hfit
      have hcall : (ResultSet.base decode).call
          (.addColumn done.length buf (pos + 4) bytes.length)
          (before ++ [{ last with row := rows ++ [done] }]) =
          .ok (before ++ [{ last with row := rows ++ [done ++ [v]] }]) := by
        rw [call_addColumn before last rows done hfield, hv]
        rfl
      obtain ⟨r, hrest⟩ := ih (done ++ [v])
        (by rw [hfields, List.length_append, List.length_cons, List.length_singleton]; omega) hnext
      refine ⟨r, ?_⟩
      simp only [columnCalls, ResultBase.run]
      rw [hcall, ok_bind]
      simpa using hrest

/-- A row is read as it was sent exactly when none of its columns is NULL. -/
theorem dataRow_correct_iff (decode : FieldSpec → Pg.DecodeFunction V) (htotal : Pg.Total decode)
    (md5 : Str → List UInt8) (salt : Byte4) (cells : List Cell) (hcount : cells.length < 2 ^ 16)
    (hlength : (DataRow.bodyOf cells).length < 2 ^ 31) (id : ResultId)
    (w : World ν (ResultSet V)) (before : List (RecordSet V)) (last : RecordSet V)
    (hresult : w.results id = before ++ [last])
    (hfields : last.fieldSpec.length = cells.length)
    (hformat : ∀ f ∈ last.fieldSpec, f.typeFormat = 0) :
    DataRow.Correct ⟨ResultSet.base decode, md5, salt⟩ cells id w ↔ ∀ c ∈ cells, c ≠ none := by
  constructor
  · rintro ⟨_, _, hcursor⟩ c hc rfl
    exact cursor_not_null hc hcursor
  · intro hnulls
    obtain ⟨columns, rfl⟩ := columns_of_not_null hnulls
    rw [List.length_map] at hcount hfields
    rw [bodyOf_some] at hlength
    have hcursor : (body (.dataRow columns)).drop 2 = columns.flatMap column ++ [] :=
      (List.append_nil _).symm
    obtain ⟨r, hrest⟩ := run_columnCalls_total htotal before last hformat last.row [] columns
      hlength (by simpa using hfields) hcursor
    have hcalls : (ResultSet.base decode).run (calls (.dataRow columns)) (w.results id) =
        .ok r := by
      simp only [calls, ResultBase.run, hresult]
      rw [call_addRow, ok_bind]
      exact hrest
    let ext : Externals (ResultSet V) := ⟨ResultSet.base decode, md5, salt⟩
    have hread : DataRow.deserialize ext (header (.dataRow columns)) (body (.dataRow columns)) id
        w = ⟨.ok .success, { w with results := Function.update w.results id r },
          (calls (.dataRow columns)).map (Event.result id)⟩ :=
      dataRow_deserialize columns hcount
        (fun bytes hbytes => Nat.lt_of_le_of_lt (column_le_body hbytes) hlength) id hcalls
    refine ⟨?_, ?_, ?_⟩
    · rw [bodyOf_some]
      exact congrArg Outcome.value hread
    · rw [bodyOf_some]
      exact ⟨_, congrArg Outcome.events hread, columnCalls_carry columns hlength hcursor 0⟩
    · intro i hi
      rw [List.length_map] at hi
      rw [bodyOf_some, cursor_at columns hlength hcursor i hi, ← List.map_take, List.flatMap_map]
      rfl

end Result

/-- A format without decoders of its own: every column is text. -/
def Pg.Format.textOnly : Pg.Format Pg.Value := ⟨.empty, Pg.decodeText⟩

theorem textOnly_total : Pg.Total Pg.Format.textOnly.decode := by
  intro fs hformat buf pos n hn hfit
  have hsize : toSize (n : Int) = n := toSize_natCast _ (by omega)
  have hshort : ¬ maxSize < n := by
    unfold maxSize
    omega
  refine ⟨.text ((buf.drop pos).take n), ?_⟩
  unfold Pg.Format.decode
  rw [if_neg (by omega)]
  change Pg.decodeText buf pos n = _
  unfold Pg.decodeText readString
  rw [hsize, if_neg hshort, if_neg (by omega)]
  rfl

/-- A result set that was given the description of two text columns. -/
def twoColumns : World Unit (ResultSet Pg.Value) where
  fsm := FSM.init
  results _ := [.ofFields [⟨ascii "a", 0, 0, 25, 0, 0, 0⟩, ⟨ascii "b", 0, 0, 25, 0, 0, 0⟩]]
  net := ()

theorem dataRow_correct_iff_text :
    DataRow.Correct ⟨ResultSet.base Pg.Format.textOnly.decode, fun _ => [], (0, 0, 0, 0)⟩
      [some (ascii "x"), some []] 0 twoColumns := by
  apply (dataRow_correct_iff _ textOnly_total _ _ [some (ascii "x"), some []] (by decide)
    (by decide) 0 twoColumns [] _ rfl rfl ?_).mpr
  · decide
  · decide

/-- A row of a NULL and a text. The length word of the text is read one byte too
early, even by a result whose decoder takes everything. -/
theorem dataRow_not_correct :
    ¬ ∀ cells : List Cell, cells.length = 2 → (DataRow.bodyOf cells).length < 2 ^ 31 →
      DataRow.Correct ⟨ResultSet.base fun _ _ _ _ => .ok (Pg.Value.bool true), fun _ => [],
        (0, 0, 0, 0)⟩ cells 0 twoColumns := by
  intro hall
  have hcorrect := hall [none, some (ascii "x")] rfl (by decide)
  exact cursor_not_null List.mem_cons_self hcorrect.cursor

end Lapq
