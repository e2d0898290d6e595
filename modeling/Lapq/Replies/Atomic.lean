import Lapq.Wire.Bounds
import Lapq.Replies.Assemble

/-!
A data row is added to its record set before its columns are decoded, and no one
catches what a decoder throws. The row is whole exactly if every column can be
decoded; otherwise what was there before the failing column stays.
-/

namespace Lapq

open Bytes Backend

variable {ν ρ V : Type} {decode : FieldSpec → Pg.DecodeFunction V}

/-- The world with another result object at an address. -/
def World.withResult (w : World ν ρ) (id : ResultId) (r : ρ) : World ν ρ :=
  { w with results := Function.update w.results id r }

theorem World.withResult_withResult (w : World ν ρ) (id : ResultId) (r r' : ρ) :
    (w.withResult id r).withResult id r' = w.withResult id r' := by
  simp [World.withResult]

theorem World.withResult_self (w : World ν ρ) (id : ResultId) :
    w.withResult id (w.results id) = w := by
  simp [World.withResult]

/-- So many columns, from column `i` at `pos` on, can be decoded: the length of
each is in the body, its decoder has a value for the bytes at that place, and the
next one stands where the signed length leads. -/
def ColumnsDecode (decode : FieldSpec → Pg.DecodeFunction V) (fs : List FieldSpec)
    (buf : Buffer) : Nat → Nat → Nat → Prop
  | 0, _, _ => True
  | n + 1, i, pos => ∃ sz f v, deserializeInt32 buf pos = .ok (sz, 4) ∧ fs[i]? = some f ∧
      decode f buf (pos + 4) sz = .ok v ∧
      ColumnsDecode decode fs buf n (i + 1) (toSize ((pos + 4 : Nat) + sz))

/-- The body has a number of columns, and so many can be decoded. -/
def RowDecodes (decode : FieldSpec → Pg.DecodeFunction V) (fs : List FieldSpec)
    (buf : Buffer) : Prop :=
  ∃ num : Nat, deserializeInt16 buf 0 = .ok (num, 2) ∧ ColumnsDecode decode fs buf num 0 2

theorem columnsDecode_succ {fs : List FieldSpec} {buf : Buffer} {pos i : Nat} {sz : Int}
    {f : FieldSpec} (n : Nat) (hsize : deserializeInt32 buf pos = .ok (sz, 4))
    (hfield : fs[i]? = some f) :
    ColumnsDecode decode fs buf (n + 1) i pos ↔ ∃ v, decode f buf (pos + 4) sz = .ok v ∧
      ColumnsDecode decode fs buf n (i + 1) (toSize ((pos + 4 : Nat) + sz)) := by
  constructor
  · intro hdecodes
    obtain ⟨sz', f', v, hword, hf, hvalue, hmore⟩ := hdecodes
    rw [hsize] at hword
    cases hword
    rw [hfield] at hf
    cases hf
    exact ⟨v, hvalue, hmore⟩
  · intro hdecodes
    obtain ⟨v, hvalue, hmore⟩ := hdecodes
    exact ⟨sz, f, v, hsize, hfield, hvalue, hmore⟩

theorem rowDecodes_iff {fs : List FieldSpec} {buf : Buffer} {num : Nat}
    (hnum : deserializeInt16 buf 0 = .ok ((num : Int), 2)) :
    RowDecodes decode fs buf ↔ ColumnsDecode decode fs buf num 0 2 := by
  constructor
  · intro hdecodes
    obtain ⟨n, hn, hmore⟩ := hdecodes
    rw [hnum] at hn
    cases hn
    exact hmore
  · intro hmore
    exact ⟨num, hnum, hmore⟩

/-- What the loop does after its first column, with that column in front. -/
theorem readColumns_of_rest {ρ : Type} {ext : Externals ρ} {id : ResultId} {buf : Buffer}
    {pos : Nat} {i sz : Int} {w w' : World ν ρ} {r : ρ} {value : Except Abort Unit}
    {es : List Event} (n : Nat) (hsize : deserializeInt32 buf pos = .ok (sz, 4))
    (hcall : ext.base.call (.addColumn i buf (pos + 4) sz) (w.results id) = .ok r)
    (hrest : DataRow.readColumns ext id buf n (i + 1) (toSize ((pos + 4 : Nat) + sz))
      (w.withResult id r) = ⟨value, w', es⟩) :
    DataRow.readColumns ext id buf (n + 1) i pos w =
      ⟨value, w', .result id (.addColumn i buf (pos + 4) sz) :: es⟩ := by
  rw [World.withResult] at hrest
  rw [readColumns_succ n hsize hcall, hrest]

/-- The loop over the columns has added them all to the row, or it has not
returned. -/
theorem readColumns_decode (decode : FieldSpec → Pg.DecodeFunction V) (md5 : Str → List UInt8)
    (salt : Byte4) (id : ResultId) (buf : Buffer) (before : List (RecordSet V))
    (last : RecordSet V) (rows : List (List V)) (n : Nat) (done : List V) (pos : Nat)
    (w : World ν (ResultSet V))
    (hset : w.results id = before ++ [{ last with row := rows ++ [done] }])
    (hfields : done.length + n ≤ last.fieldSpec.length) :
    (ColumnsDecode decode last.fieldSpec buf n done.length pos ∧
      ∃ record es, record.length = done.length + n ∧ (∀ e ∈ es, ∃ call, e = .result id call) ∧
        DataRow.readColumns ⟨ResultSet.base decode, md5, salt⟩ id buf n done.length pos w =
          ⟨.ok (), w.withResult id (before ++ [{ last with row := rows ++ [record] }]), es⟩) ∨
    (¬ ColumnsDecode decode last.fieldSpec buf n done.length pos ∧
      (DataRow.readColumns ⟨ResultSet.base decode, md5, salt⟩ id buf n done.length pos w).value ≠
        .ok ()) := by
  induction n generalizing done pos w with
  | zero =>
      refine Or.inl ⟨trivial, done, [], rfl, by simp, ?_⟩
      rw [← hset, World.withResult_self]
      rfl
  | succ n ih =>
      cases hsize : deserializeInt32 buf pos with
      | error e =>
          refine Or.inr ⟨?_, ?_⟩
          · intro hdecodes
            obtain ⟨sz, f, v, hword, _⟩ := hdecodes
            rw [hsize] at hword
            cases hword
          · simp [DataRow.readColumns, hsize, Act.bind_apply]
      | ok size =>
          obtain ⟨sz, taken⟩ := size
          obtain ⟨rfl, _, _⟩ := deserializeInt32_inv hsize
          have hindex : done.length < last.fieldSpec.length := by omega
          have hfield := List.getElem?_eq_getElem hindex
          have hadd := @call_addColumn V decode before last rows done _ _ hfield buf (pos + 4) sz
          rw [← hset] at hadd
          cases hvalue : decode last.fieldSpec[done.length] buf (pos + 4) sz with
          | error e =>
              rw [hvalue] at hadd
              refine Or.inr ⟨?_, ?_⟩
              · simp [columnsDecode_succ n hsize hfield, hvalue]
              · rw [readColumns_fail n hsize hadd]
                simp
          | ok v =>
              rw [hvalue] at hadd
              have hlength : (done ++ [v]).length = done.length + 1 := by simp
              have hrest := ih (done ++ [v]) (toSize ((pos + 4 : Nat) + sz))
                (w.withResult id (before ++ [{ last with row := rows ++ [done ++ [v]] }]))
                (by simp [World.withResult]) (by omega)
              have hdecodes : ColumnsDecode decode last.fieldSpec buf (n + 1) done.length pos ↔
                  ColumnsDecode decode last.fieldSpec buf n (done.length + 1)
                    (toSize ((pos + 4 : Nat) + sz)) := by
                simp [columnsDecode_succ n hsize hfield, hvalue]
              have hcast : (((done ++ [v]).length : Nat) : Int) = (done.length : Int) + 1 := by simp
              rw [hcast, hlength] at hrest
              rw [hdecodes]
              rcases hrest with ⟨hmore, record, es, hrecord, hes, hrun⟩ | ⟨hmore, hrun⟩
              · rw [World.withResult_withResult] at hrun
                have hall := readColumns_of_rest n hsize hadd hrun
                refine Or.inl ⟨hmore, record, _, by omega, ?_, hall⟩
                exact List.forall_mem_cons.mpr ⟨⟨_, rfl⟩, hes⟩
              · refine Or.inr ⟨hmore, ?_⟩
                rw [readColumns_succ n hsize hadd]
                exact hrun

/-! The handler of a data row. -/

/-- A row with as many columns as the body says is added to the last record set,
and the next message is read. -/
def AddsWholeRow (ext : Externals (ResultSet V)) (head : Header) (body : Buffer) (id : ResultId)
    (before : List (RecordSet V)) (last : RecordSet V) (w : World (List ConnCall) (ResultSet V)) :
    Prop :=
  ∃ (num : Nat) (record : List V) (es : List Event), deserializeInt16 body 0 = .ok (num, 2) ∧
    record.length = num ∧ (∀ e ∈ es, ∃ call, e = .result id call) ∧
    FSM.dataRow ext AsyncConnection.con head body w =
      ⟨.ok (), { w.withResult id (before ++ [{ last with row := last.row ++ [record] }]) with
        net := w.net ++ [.header] }, es⟩

/-- Nothing has changed, and the handler is called once, with an error. -/
def LeavesResult (ext : Externals (ResultSet V)) (head : Header) (body : Buffer)
    (h : HandlerId) (w : World (List ConnCall) (ResultSet V)) : Prop :=
  ∃ ec, ec.isError = true ∧ FSM.dataRow ext AsyncConnection.con head body w =
    ⟨.ok (), w, [.handler h ec w.fsm.state]⟩

section Handler

variable {md5 : Str → List UInt8} {salt : Byte4} {id : ResultId} {h : HandlerId}
  {head : Header} {body : Buffer} {before : List (RecordSet V)} {last : RecordSet V}
  {w : World (List ConnCall) (ResultSet V)}

theorem dataRow_apply (ext : Externals (ResultSet V)) (hresult : w.fsm.result = some id) :
    FSM.dataRow ext AsyncConnection.con head body w =
      (DataRow.deserialize ext head body id >>= FSM.receiveUnless AsyncConnection.con) w := by
  simp [FSM.dataRow, Act.bind_apply, hresult]

/-- A row that the check turns down. -/
theorem dataRow_rejected (ext : Externals (ResultSet V)) (hresult : w.fsm.result = some id)
    (hh : w.fsm.ehandler = some h) (hreject : Rejected DataRow.mtype head body) :
    LeavesResult ext head body h w := by
  have hcheck := (check_isError_iff DataRow.mtype head body).mpr hreject
  refine ⟨_, hcheck, ?_⟩
  rw [dataRow_apply ext hresult]
  simp only [DataRow.deserialize, Act.bind_apply, FSM.receiveUnless, hcheck, if_true,
    Act.pure_apply, Act.callHandler_of_some hh, List.nil_append]

/-- A row that passes the check is whole, or the handler of the message does not
return. -/
theorem dataRow_accepted (hresult : w.fsm.result = some id)
    (hset : w.results id = before ++ [last])
    (hfields : ∀ num taken, deserializeInt16 body 0 = .ok (num, taken) →
      num.toNat ≤ last.fieldSpec.length) (hpass : ¬ Rejected DataRow.mtype head body) :
    (RowDecodes decode last.fieldSpec body ∧
      AddsWholeRow ⟨ResultSet.base decode, md5, salt⟩ head body id before last w) ∨
    (¬ RowDecodes decode last.fieldSpec body ∧
      (FSM.dataRow ⟨ResultSet.base decode, md5, salt⟩ AsyncConnection.con head body w).value ≠
        .ok ()) := by
  have hcheck := mt (check_isError_iff DataRow.mtype head body).mp hpass
  cases hnum : deserializeInt16 body 0 with
  | error e =>
      refine Or.inr ⟨?_, ?_⟩
      · intro ⟨num, hread, _⟩
        rw [hnum] at hread
        cases hread
      · simp [FSM.dataRow, DataRow.deserialize, Act.bind_apply, hresult, hcheck, hnum]
  | ok count =>
      obtain ⟨num, taken⟩ := count
      have hle := hfields num taken hnum
      obtain ⟨rfl, hrange, _⟩ := deserializeInt16_inv hnum
      obtain ⟨n, rfl⟩ := Int.eq_ofNat_of_zero_le hrange.1
      rw [Int.toNat_natCast] at hle
      have hrow : (ResultSet.base decode).call .addRow (w.results id) =
          .ok (before ++ [{ last with row := last.row ++ [[]] }]) := by
        rw [hset]
        exact call_addRow before last
      have hread : DataRow.deserialize ⟨ResultSet.base decode, md5, salt⟩ head body id w = _ :=
        dataRow_deserialize_read hcheck hnum hrow
      have hcolumns := readColumns_decode decode md5 salt id body before last last.row n [] 2
        (w.withResult id (before ++ [{ last with row := last.row ++ [[]] }]))
        (by simp [World.withResult]) (by simpa using hle)
      rw [rowDecodes_iff hnum]
      rcases hcolumns with ⟨hmore, record, es, hrecord, hes, hrun⟩ | ⟨hmore, hrun⟩
      · rw [World.withResult_withResult] at hrun
        refine Or.inl ⟨hmore, n, record, .result id .addRow :: es, hnum, by simpa using hrecord, ?_,
          ?_⟩
        · exact List.forall_mem_cons.mpr ⟨⟨.addRow, rfl⟩, hes⟩
        · have hdone : DataRow.deserialize ⟨ResultSet.base decode, md5, salt⟩ head body id w =
              ⟨.ok .success,
                w.withResult id (before ++ [{ last with row := last.row ++ [record] }]),
                .result id .addRow :: es⟩ := by
            have hloop : DataRow.readColumns ⟨ResultSet.base decode, md5, salt⟩ id body n 0
                (toSize 2) (w.withResult id _) = _ := hrun
            rw [World.withResult] at hloop
            rw [hread, hloop]
          rw [dataRow_apply _ hresult, Act.bind_ok hdone]
          simp [FSM.receiveUnless, World.withResult]
      · refine Or.inr ⟨hmore, ?_⟩
        have hloop : (DataRow.readColumns ⟨ResultSet.base decode, md5, salt⟩ id body n 0
            (toSize 2) (w.withResult id _)).value ≠ .ok () := hrun
        rw [World.withResult] at hloop
        rw [dataRow_apply _ hresult, Act.bind_apply, hread]
        generalize DataRow.readColumns _ id body n 0 (toSize 2) _ = loop at hloop ⊢
        obtain ⟨value, w', es⟩ := loop
        cases value with
        | ok u => exact absurd rfl hloop
        | error e => simp

/-- A data row is added whole, or turned down with the result left as it was, just
if its check turns it down or all of its columns can be decoded. -/
theorem row_whole_iff (decode : FieldSpec → Pg.DecodeFunction V) (md5 : Str → List UInt8)
    (salt : Byte4) (head : Header) (body : Buffer) (id : ResultId) (h : HandlerId)
    (w : World (List ConnCall) (ResultSet V)) (before : List (RecordSet V)) (last : RecordSet V)
    (hresult : w.fsm.result = some id) (hh : w.fsm.ehandler = some h)
    (hset : w.results id = before ++ [last])
    (hfields : ∀ num taken, deserializeInt16 body 0 = .ok (num, taken) →
      num.toNat ≤ last.fieldSpec.length) :
    AddsWholeRow ⟨ResultSet.base decode, md5, salt⟩ head body id before last w ∨
        LeavesResult ⟨ResultSet.base decode, md5, salt⟩ head body h w ↔
      Rejected DataRow.mtype head body ∨ RowDecodes decode last.fieldSpec body := by
  by_cases hreject : Rejected DataRow.mtype head body
  · exact iff_of_true (Or.inr (dataRow_rejected _ hresult hh hreject)) (Or.inl hreject)
  have haccepted := @dataRow_accepted V decode md5 salt id head body before last w hresult hset
    hfields hreject
  rcases haccepted with ⟨hdecodes, hadds⟩ | ⟨hdecodes, hvalue⟩
  · exact iff_of_true (Or.inl hadds) (Or.inr hdecodes)
  · refine iff_of_false ?_ ?_
    · intro hends
      rcases hends with ⟨_, _, _, _, _, _, hrun⟩ | ⟨_, _, hrun⟩
      · exact hvalue (congrArg Outcome.value hrun)
      · exact hvalue (congrArg Outcome.value hrun)
    · intro hcase
      exact hcase.elim hreject hdecodes

end Handler

/-- The description of a text column and an `int4` column. -/
def nameAndNumber : RecordSet Pg.Value :=
  .ofFields [⟨ascii "name", 0, 0, 25, 0, 0, 0⟩, ⟨ascii "number", 0, 0, 23, 0, 0, 0⟩]

/-- A query has been sent, and its reply has described the columns. -/
def described : World (List ConnCall) (ResultSet Pg.Value) where
  fsm := { FSM.init with state := .QUERY, ehandler := some 1, result := some 0 }
  results _ := [nameAndNumber]
  net := []

theorem row_whole_iff_number :
    AddsWholeRow ⟨ResultSet.base Pg.Format.standard.decode, fun _ => [], (0, 0, 0, 0)⟩
        (header (.dataRow [ascii "a", ascii "7"])) (body (.dataRow [ascii "a", ascii "7"])) 0 []
        nameAndNumber described ∨
      LeavesResult ⟨ResultSet.base Pg.Format.standard.decode, fun _ => [], (0, 0, 0, 0)⟩
        (header (.dataRow [ascii "a", ascii "7"])) (body (.dataRow [ascii "a", ascii "7"])) 1
        described := by
  apply (row_whole_iff Pg.Format.standard.decode _ _ _ _ 0 1 described [] nameAndNumber rfl rfl rfl
    ?_).mpr
  · refine Or.inr ⟨2, rfl, 1, _, .text (ascii "a"), by decide +kernel, rfl, rfl, ?_⟩
    exact ⟨1, _, .int 7, by decide +kernel, rfl, rfl, trivial⟩
  · intro num taken hnum
    cases hnum
    decide

/-- The second column is no number: `std::stoi` throws out of the handler of the
message, and the row stays with its first column. -/
theorem row_not_whole :
    ¬ (AddsWholeRow ⟨ResultSet.base Pg.Format.standard.decode, fun _ => [], (0, 0, 0, 0)⟩
          (header (.dataRow [ascii "a", ascii "x"])) (body (.dataRow [ascii "a", ascii "x"])) 0 []
          nameAndNumber described ∨
        LeavesResult ⟨ResultSet.base Pg.Format.standard.decode, fun _ => [], (0, 0, 0, 0)⟩
          (header (.dataRow [ascii "a", ascii "x"])) (body (.dataRow [ascii "a", ascii "x"])) 1
          described) ∧
      ((FSM.dataRow ⟨ResultSet.base Pg.Format.standard.decode, fun _ => [], (0, 0, 0, 0)⟩
        AsyncConnection.con (header (.dataRow [ascii "a", ascii "x"]))
        (body (.dataRow [ascii "a", ascii "x"])) described).world.results 0).map RecordSet.row =
          [[[.text (ascii "a")]]] := by
  refine ⟨?_, rfl⟩
  intro hends
  rcases hends with ⟨_, _, _, _, _, _, hrun⟩ | ⟨_, _, hrun⟩
  · cases congrArg Outcome.value hrun
  · cases congrArg Outcome.value hrun

end Lapq
