import Lapq.Wire.Backend

/-!
How far the decoders of row descriptions and of errors undo the protocol's own
encoding. A row description is read with 16-bit numbers that are not
sign-extended, and an error message is added to a map that already holds a code
and a text.
-/

namespace Lapq

open Bytes Backend

/-! Row descriptions. -/

def Backend.InInt16 (v : Int) : Prop := -2 ^ 15 ≤ v ∧ v < 2 ^ 15

/-- A description as the protocol allows it: all numbers are signed. -/
structure Backend.EncodableField (fs : FieldSpec) : Prop where
  name : NulFree fs.name
  tableOid : InInt32 fs.tableOid
  colNum : InInt16 fs.colNum
  typeOid : InInt32 fs.typeOid
  typeSize : InInt16 fs.typeSize
  typeMod : InInt32 fs.typeMod
  typeFormat : InInt16 fs.typeFormat

/-- A description with its 16-bit numbers as the client reads them. -/
def FieldSpec.zeroExtended (fs : FieldSpec) : FieldSpec :=
  { fs with
    colNum := pattern 16 fs.colNum
    typeSize := pattern 16 fs.typeSize
    typeFormat := pattern 16 fs.typeFormat }

theorem pattern16_inUInt16 (v : Int) : InUInt16 (pattern 16 v) := by
  have hlt := pattern_lt 16 v
  unfold InUInt16
  omega

theorem pattern16_eq_iff {v : Int} (hv : InInt16 v) : (pattern 16 v : Int) = v ↔ 0 ≤ v := by
  obtain ⟨hlow, hhigh⟩ := hv
  unfold pattern
  omega

theorem int16_pattern16 (v : Int) : int16 (pattern 16 v) = int16 v := by
  unfold int16
  rw [pattern_natCast 16 _ (pattern_lt 16 v)]

theorem Backend.EncodableField.zeroExtended {fs : FieldSpec} (hfs : EncodableField fs) :
    ValidField fs.zeroExtended where
  name := hfs.name
  tableOid := hfs.tableOid
  colNum := pattern16_inUInt16 _
  typeOid := hfs.typeOid
  typeSize := pattern16_inUInt16 _
  typeMod := hfs.typeMod
  typeFormat := pattern16_inUInt16 _

/-- Both descriptions have the same bytes. -/
theorem field_zeroExtended (fs : FieldSpec) : field fs.zeroExtended = field fs := by
  simp only [field, FieldSpec.zeroExtended, int16_pattern16]

theorem body_zeroExtended (fs : List FieldSpec) :
    body (.rowDescription (fs.map FieldSpec.zeroExtended)) = body (.rowDescription fs) := by
  simp only [body, List.length_map, List.flatMap_map, field_zeroExtended]

theorem zeroExtended_eq_iff {fs : FieldSpec} (hfs : EncodableField fs) :
    fs.zeroExtended = fs ↔ 0 ≤ fs.colNum ∧ 0 ≤ fs.typeSize ∧ 0 ≤ fs.typeFormat := by
  obtain ⟨name, tableOid, colNum, typeOid, typeSize, typeMod, typeFormat⟩ := fs
  have hcol := pattern16_eq_iff hfs.colNum
  have hsize := pattern16_eq_iff hfs.typeSize
  have hformat := pattern16_eq_iff hfs.typeFormat
  simp only [FieldSpec.zeroExtended, FieldSpec.mk.injEq, true_and, hcol, hsize, hformat]

/-- The decoder gives back the fields of a message, after those that were in the
vector, and its cursor ends at the end of the body. -/
structure RowDescription.Undoes (fs fsvec : List FieldSpec) : Prop where
  value : RowDescription.deserialize (header (.rowDescription fs)) (body (.rowDescription fs))
    fsvec = .ok (.success, fsvec ++ fs)
  cursor : ∃ num pos, deserializeInt16 (body (.rowDescription fs)) 0 = .ok (num, pos) ∧
    RowDescription.readFields (body (.rowDescription fs)) num.toNat pos fsvec =
      .ok (fsvec ++ fs, (body (.rowDescription fs)).length)

/-- What the decoder makes of any row description. -/
theorem rowDescription_reads (fs fsvec : List FieldSpec) (hcount : fs.length < 2 ^ 16)
    (hfs : ∀ f ∈ fs, EncodableField f) :
    RowDescription.deserialize (header (.rowDescription fs)) (body (.rowDescription fs)) fsvec =
        .ok (.success, fsvec ++ fs.map FieldSpec.zeroExtended) ∧
      deserializeInt16 (body (.rowDescription fs)) 0 = .ok (fs.length, 2) ∧
      RowDescription.readFields (body (.rowDescription fs)) fs.length 2 fsvec =
        .ok (fsvec ++ fs.map FieldSpec.zeroExtended, (body (.rowDescription fs)).length) := by
  have hread : ∀ f ∈ fs.map FieldSpec.zeroExtended, ValidField f := by
    intro f hf
    obtain ⟨g, hg, rfl⟩ := List.mem_map.mp hf
    exact (hfs g hg).zeroExtended
  have hlength : (fs.map FieldSpec.zeroExtended).length < 2 ^ 16 := by
    rwa [List.length_map]
  have hvalue := rowDescription_deserialize _ fsvec hlength hread
  have hcursor := rowDescription_fields _ fsvec hlength hread
  simp only [header, body_zeroExtended, List.length_map] at hvalue hcursor
  exact ⟨hvalue, hcursor⟩

/-- A row description is given back exactly when none of its 16-bit numbers is
negative. -/
theorem rowDescription_undoes_iff (fs fsvec : List FieldSpec) (hcount : fs.length ≤ 65535)
    (hfs : ∀ f ∈ fs, EncodableField f) :
    RowDescription.Undoes fs fsvec ↔
      ∀ f ∈ fs, 0 ≤ f.colNum ∧ 0 ≤ f.typeSize ∧ 0 ≤ f.typeFormat := by
  obtain ⟨hvalue, hnum, hcursor⟩ := rowDescription_reads fs fsvec (by omega) hfs
  have hsame : fs.map FieldSpec.zeroExtended = fs ↔
      ∀ f ∈ fs, 0 ≤ f.colNum ∧ 0 ≤ f.typeSize ∧ 0 ≤ f.typeFormat := by
    have hmap : fs.map FieldSpec.zeroExtended = fs.map id ↔ ∀ f ∈ fs, f.zeroExtended = id f :=
      List.map_inj_left
    rw [List.map_id] at hmap
    rw [hmap]
    exact forall₂_congr fun f hf => zeroExtended_eq_iff (hfs f hf)
  rw [← hsame]
  constructor
  · intro h
    have hback := hvalue.symm.trans h.value
    simpa using hback
  · intro h
    rw [h] at hvalue hcursor
    exact ⟨hvalue, _, _, hnum, hcursor⟩

/-- A column of type `text`, whose size the server gives as -1. -/
def textField : FieldSpec := ⟨ascii "c", 0, 1, 25, -1, -1, 0⟩

theorem textField_encodable : EncodableField textField :=
  ⟨by decide, ⟨by decide, by decide⟩, ⟨by decide, by decide⟩, ⟨by decide, by decide⟩,
    ⟨by decide, by decide⟩, ⟨by decide, by decide⟩, ⟨by decide, by decide⟩⟩

theorem rowDescription_undoes_iff_int4 :
    RowDescription.Undoes
      [{ textField with name := ascii "a", typeOid := 23, typeSize := 4 },
        { textField with name := ascii "b", colNum := 2, typeOid := 16, typeSize := 1 }]
      [textField] := by
  apply (rowDescription_undoes_iff _ [textField] (by decide) ?_).mpr
  · decide
  · intro f hf
    rcases List.mem_pair.mp hf with rfl | rfl
    · exact { textField_encodable with
        name := by decide, typeOid := ⟨by decide, by decide⟩, typeSize := ⟨by decide, by decide⟩ }
    · exact { textField_encodable with
        name := by decide, colNum := ⟨by decide, by decide⟩,
        typeOid := ⟨by decide, by decide⟩, typeSize := ⟨by decide, by decide⟩ }

/-- The size of a text column comes back as 65535. -/
theorem rowDescription_not_undoes :
    ¬ ∀ fs fsvec : List FieldSpec, fs.length ≤ 65535 → (∀ f ∈ fs, EncodableField f) →
      RowDescription.Undoes fs fsvec := by
  intro hall
  have hfs : ∀ f ∈ [textField], EncodableField f := by
    intro f hf
    rw [List.mem_singleton.mp hf]
    exact textField_encodable
  have hback := (hall [textField] [] (by decide) hfs).value
  rw [(rowDescription_reads [textField] [] (by decide) hfs).1] at hback
  revert hback
  decide

/-! Errors. -/

/-- A field of the default error stays as it is, and the others are those that
were sent. -/
theorem ofFields_find (fields : List (SQLErrorField × Str)) (error : SQLError)
    (hdistinct : (fields.map Prod.fst).Nodup) (f : SQLErrorField × Str) (hf : f ∈ fields) :
    (SQLError.ofFields fields error).find f.1 = some ((error.find f.1).getD f.2) := by
  induction fields generalizing error with
  | nil => cases hf
  | cons g fields ih =>
      obtain ⟨hfresh, hrest⟩ := List.nodup_cons.mp hdistinct
      rcases List.mem_cons.mp hf with rfl | hmem
      · have hput : (error.emplace f.1 f.2).find f.1 = some ((error.find f.1).getD f.2) := by
          rw [OrderedMap.find_emplace, if_pos rfl]
        exact ofFields_find_of_some fields _ _ _ hput
      · have hne : f.1 ≠ g.1 := by
          intro heq
          exact hfresh (List.mem_map.mpr ⟨f, hmem, heq⟩)
        have hlater := ih (error.emplace g.1 g.2) hrest hmem
        rwa [OrderedMap.find_emplace, if_neg hne] at hlater

theorem find_init (type : SQLErrorField) :
    SQLError.init.find type =
      if type = SQLErrorField.message then some (ascii "success")
      else if type = SQLErrorField.code then some SQLError.successCode else none := by
  unfold SQLError.init
  rw [OrderedMap.find_emplace, OrderedMap.find_emplace, OrderedMap.find_emplace]
  rfl

/-- The decoder gives back the fields of an error: it maps each type to the text
that was sent, a code other than `00000` makes an error of it, and the text is
the one that was sent. -/
def ErrorResponse.Undoes (fields : List (SQLErrorField × Str)) : Prop :=
  ∃ error, ErrorResponse.deserialize (header (.errorResponse fields))
      (body (.errorResponse fields)) = .ok (.success, error) ∧
    (∀ f ∈ fields, error.find f.1 = some f.2) ∧
    (∀ code, (SQLErrorField.code, code) ∈ fields → code ≠ SQLError.successCode →
      error.isError = true) ∧
    (∀ text, (SQLErrorField.message, text) ∈ fields →
      error.find SQLErrorField.message = some text)

/-- An error is given back exactly when its code and its text, if they are sent,
are the ones of a success. -/
theorem errorResponse_undoes_iff (fields : List (SQLErrorField × Str))
    (hdistinct : (fields.map Prod.fst).Nodup)
    (hfields : ∀ f ∈ fields, f.1 ≠ 0 ∧ NulFree f.2) :
    ErrorResponse.Undoes fields ↔
      (∀ code, (SQLErrorField.code, code) ∈ fields → code = ascii "00000") ∧
        ∀ text, (SQLErrorField.message, text) ∈ fields → text = ascii "success" := by
  have hread := errorResponse_deserialize fields hfields
  have hfind := ofFields_find fields .init hdistinct
  constructor
  · rintro ⟨error, hvalue, hmap, _⟩
    rw [hread] at hvalue
    cases hvalue
    constructor
    · intro code hcode
      have hboth := (hfind _ hcode).symm.trans (hmap _ hcode)
      rw [find_init] at hboth
      exact (Option.some.inj hboth).symm
    · intro text htext
      have hboth := (hfind _ htext).symm.trans (hmap _ htext)
      rw [find_init] at hboth
      exact (Option.some.inj hboth).symm
  · rintro ⟨hcode, htext⟩
    have hmap : ∀ f ∈ fields, (SQLError.ofFields fields .init).find f.1 = some f.2 := by
      rintro ⟨type, sent⟩ hf
      have hsent := hfind _ hf
      rw [find_init] at hsent
      dsimp only at hsent ⊢
      split at hsent
      · rename_i hmessage
        subst hmessage
        rw [hsent, htext sent hf]
        rfl
      · split at hsent
        · rename_i hiscode
          subst hiscode
          rw [hsent, hcode sent hf]
          rfl
        · exact hsent
    refine ⟨_, hread, hmap, ?_, ?_⟩
    · intro code hmem hne
      exact absurd (hcode code hmem) hne
    · intro text hmem
      exact hmap _ hmem

/-- The fields of a notice without a text. -/
theorem errorResponse_undoes_iff_severity :
    ErrorResponse.Undoes [('S'.toUInt8, ascii "NOTICE"), (SQLErrorField.code, ascii "00000"),
      ('R'.toUInt8, ascii "exec_simple_query")] := by
  apply (errorResponse_undoes_iff _ (by decide) (by decide)).mpr
  have hcode : SQLErrorField.code ≠ 'S'.toUInt8 ∧ SQLErrorField.code ≠ 'R'.toUInt8 := by decide
  have hmessage : SQLErrorField.message ≠ 'S'.toUInt8 ∧
      SQLErrorField.message ≠ SQLErrorField.code ∧ SQLErrorField.message ≠ 'R'.toUInt8 := by
    decide
  constructor
  · intro code hmem
    simpa [hcode] using hmem
  · intro text hmem
    simp [hmessage] at hmem

/-- A division by zero comes back as a success. -/
theorem errorResponse_not_undoes :
    ¬ ∀ fields : List (SQLErrorField × Str), (fields.map Prod.fst).Nodup →
      (∀ f ∈ fields, f.1 ≠ 0 ∧ NulFree f.2) → ErrorResponse.Undoes fields := by
  intro hall
  have hfields : ∀ f ∈ [(SQLErrorField.code, ascii "22012")], f.1 ≠ 0 ∧ NulFree f.2 := by
    intro f hf
    rw [List.mem_singleton.mp hf]
    exact ⟨by decide, by decide⟩
  obtain ⟨error, hvalue, hmap, _⟩ := hall _ (by decide) hfields
  rw [errorResponse_deserialize _ hfields] at hvalue
  cases hvalue
  have hcode := hmap _ List.mem_cons_self
  revert hcode
  decide

end Lapq
