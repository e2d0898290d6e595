import Mathlib.Order.Bounds.Basic
import Lapq.Replies.Assemble

/-!
Reading a result set by column name. The name index of a record set is built
once, from its field descriptions, and rows are added later; what the index
says of a name is the number of the first column that has it.
-/

namespace Lapq

variable {V T : Type}

/-! The name index. -/

/-- The entries that were there stay, and a new name gets the number of its first
column. -/
theorem find_emplace_names (fs : List FieldSpec) (k : Nat) (index : OrderedMap Str Nat)
    (name : Str) :
    ((fs.zipIdx k).foldl (fun index entry => index.emplace entry.1.name entry.2) index).find name =
      (index.find name).or ((fs.findIdx? fun f => f.name = name).map (· + k)) := by
  induction fs generalizing k index with
  | nil => simp
  | cons f fs ih =>
      rw [List.zipIdx_cons, List.foldl_cons, ih, OrderedMap.find_emplace, List.findIdx?_cons]
      by_cases hname : name = f.name
      · subst hname
        cases index.find f.name <;> simp
      · have hother : ¬ f.name = name := fun h => hname h.symm
        have hshift : (fun i : Nat => i + (k + 1)) = (fun i => i + k) ∘ (fun i => i + 1) := by
          funext i
          simp only [Function.comp]
          omega
        simp [hname, hother, hshift]

theorem find_indexNames (fs : List FieldSpec) (name : Str) :
    (RecordSet.indexNames fs).find name = fs.findIdx? fun f => f.name = name := by
  have hfind := find_emplace_names fs 0 .empty name
  unfold RecordSet.indexNames
  simpa [show (OrderedMap.empty : OrderedMap Str Nat).find name = none from rfl] using hfind

/-- Column `i` is the first one with the name. -/
def IsFirst (fs : List FieldSpec) (name : Str) (i : Nat) : Prop :=
  IsLeast {j | ∃ f, fs[j]? = some f ∧ f.name = name} i

theorem find_indexNames_iff (fs : List FieldSpec) (name : Str) (i : Nat) :
    (RecordSet.indexNames fs).find name = some i ↔ IsFirst fs name i := by
  rw [find_indexNames, List.findIdx?_eq_some_iff_getElem]
  constructor
  · intro ⟨hlt, hname, hbefore⟩
    refine ⟨⟨fs[i], List.getElem?_eq_getElem hlt, by simpa using hname⟩, ?_⟩
    intro j ⟨f, hf, hfname⟩
    obtain ⟨hj, rfl⟩ := List.getElem?_eq_some_iff.mp hf
    by_contra hlater
    exact hbefore j (by omega) (by simpa using hfname)
  · intro ⟨⟨f, hf, hname⟩, hleast⟩
    obtain ⟨hlt, rfl⟩ := List.getElem?_eq_some_iff.mp hf
    refine ⟨hlt, by simpa using hname, ?_⟩
    intro j hj hsame
    have hle : i ≤ j :=
      hleast ⟨fs[j], List.getElem?_eq_getElem (by omega), by simpa using hsame⟩
    omega

theorem find_indexNames_none (fs : List FieldSpec) (name : Str) :
    (RecordSet.indexNames fs).find name = none ↔ ∀ f ∈ fs, f.name ≠ name := by
  rw [find_indexNames, List.findIdx?_eq_none_iff]
  simp

/-- The keys of the index are the names, each once, and its values are numbers of
columns. -/
structure IndexesNames (fs : List FieldSpec) (index : OrderedMap Str Nat) : Prop where
  keys : ∀ name, name ∈ index.entries.map Prod.fst ↔ ∃ f ∈ fs, f.name = name
  distinct : (index.entries.map Prod.fst).Nodup
  values : ∀ e ∈ index.entries, e.2 < fs.length

theorem indexNames_spec (fs : List FieldSpec) : IndexesNames fs (RecordSet.indexNames fs) := by
  refine ⟨?_, ?_, ?_⟩
  · intro name
    have hmem : name ∈ (RecordSet.indexNames fs).entries.map Prod.fst ↔
        (RecordSet.indexNames fs).find name ≠ none := by
      rw [Option.ne_none_iff_exists']
      simp [OrderedMap.find_eq_some_iff]
    rw [hmem, Ne, find_indexNames_none]
    simp
  · rw [List.nodup_iff_pairwise_ne, List.pairwise_map]
    exact (RecordSet.indexNames fs).sorted.imp fun hlt => Std.ne_of_lt hlt
  · intro e he
    have hfind := (OrderedMap.find_eq_some_iff _ e.1 e.2).mpr he
    obtain ⟨⟨f, hf, _⟩, _⟩ := (find_indexNames_iff fs e.1 e.2).mp hfind
    exact (List.getElem?_eq_some_iff.mp hf).1

/-! Rows. -/

/-- The calls that add a row: one for the row, and one for each column with the
place and the size of its bytes. -/
def rowCalls (cells : List (Buffer × Nat × Int)) : List ResultCall :=
  .addRow :: cells.zipIdx.map fun c => .addColumn c.2 c.1.1 c.1.2.1 c.1.2.2

section Calls

variable {decode : FieldSpec → Pg.DecodeFunction V}

/-- Columns that could be added are in the row, one value each. -/
theorem run_columns_inv (before : List (RecordSet V)) (last : RecordSet V) (rows : List (List V))
    (done : List V) (cells : List (Buffer × Nat × Int))
    (hfields : done.length + cells.length ≤ last.fieldSpec.length) {s : ResultSet V}
    (hrun : (ResultSet.base decode).run
      ((cells.zipIdx done.length).map fun c => .addColumn c.2 c.1.1 c.1.2.1 c.1.2.2)
      (before ++ [{ last with row := rows ++ [done] }]) = .ok s) :
    ∃ record, record.length = done.length + cells.length ∧
      s = before ++ [{ last with row := rows ++ [record] }] := by
  induction cells generalizing done with
  | nil =>
      cases hrun
      exact ⟨done, rfl, rfl⟩
  | cons cell cells ih =>
      rw [List.length_cons] at hfields
      have hindex : done.length < last.fieldSpec.length := by omega
      rw [List.zipIdx_cons, List.map_cons, ResultBase.run,
        call_addColumn before last rows done (List.getElem?_eq_getElem hindex)] at hrun
      obtain ⟨between, hcall, hrest⟩ := bind_ok_inv hrun
      cases hvalue : decode last.fieldSpec[done.length] cell.1 cell.2.1 cell.2.2 with
      | error e =>
          rw [hvalue] at hcall
          cases hcall
      | ok v =>
          rw [hvalue] at hcall
          cases hcall
          have hlength : (done ++ [v]).length = done.length + 1 := by simp
          obtain ⟨record, hrecord, hs⟩ := ih (done ++ [v]) (by omega) (by rw [hlength]; exact hrest)
          refine ⟨record, ?_, hs⟩
          rw [hrecord, hlength, List.length_cons]
          omega

/-- Rows that could be added are in the last record set, with a value for every
column of theirs, and nothing else has changed. -/
theorem run_rows_inv (before : List (RecordSet V)) (last : RecordSet V)
    (rows : List (List (Buffer × Nat × Int)))
    (hrows : ∀ cells ∈ rows, cells.length = last.fieldSpec.length) {s : ResultSet V}
    (hrun : (ResultSet.base decode).run (rows.flatMap rowCalls) (before ++ [last]) = .ok s) :
    ∃ records : List (List V), records.length = rows.length ∧
      (∀ record ∈ records, record.length = last.fieldSpec.length) ∧
      s = before ++ [{ last with row := last.row ++ records }] := by
  induction rows generalizing last with
  | nil =>
      cases hrun
      exact ⟨[], rfl, by simp, by simp⟩
  | cons cells rows ih =>
      have hcells := hrows cells List.mem_cons_self
      rw [List.flatMap_cons, run_append] at hrun
      obtain ⟨between, hfirst, hrest⟩ := bind_ok_inv hrun
      rw [rowCalls, ResultBase.run, call_addRow, ok_bind] at hfirst
      obtain ⟨record, hrecord, rfl⟩ := run_columns_inv before last last.row [] cells
        (by simpa using hcells.le) hfirst
      obtain ⟨records, hcount, hall, rfl⟩ := ih { last with row := last.row ++ [record] }
        (fun c hc => hrows c (List.mem_cons_of_mem _ hc)) hrest
      refine ⟨record :: records, by simp [hcount], ?_, by simp⟩
      intro r hr
      rcases List.mem_cons.mp hr with rfl | hmem
      · rw [hrecord, List.length_nil, Nat.zero_add, hcells]
      · exact hall r hmem

end Calls

/-! Access. -/

section Access

variable (anyCast : V → Option T) {r : RecordSet V} {fs : List FieldSpec} {row : Nat}

/-- A value that is there is read or its type is another one. -/
theorem get_inside {i : Nat} (hrow : row < r.row.length) (hcol : i < r.row[row].length) :
    r.get anyCast row i ≠ .error .undefined ∧ r.get anyCast row i ≠ .error .outOfRange := by
  unfold RecordSet.get Record.get
  rw [List.getElem?_eq_getElem hrow]
  dsimp only
  rw [List.getElem?_eq_getElem hcol]
  dsimp only
  cases anyCast r.row[row][i] <;> simp

theorem getByName_first (hindex : r.fieldByName = RecordSet.indexNames fs) {name : Str} {i : Nat}
    (hfirst : IsFirst fs name i) : r.getByName anyCast row name = r.get anyCast row i := by
  unfold RecordSet.getByName
  rw [hindex, (find_indexNames_iff fs name i).mpr hfirst]

theorem getByName_unknown (hindex : r.fieldByName = RecordSet.indexNames fs) {name : Str}
    (hnone : ∀ f ∈ fs, f.name ≠ name) : r.getByName anyCast row name = .error .outOfRange := by
  unfold RecordSet.getByName
  rw [hindex, (find_indexNames_none fs name).mpr hnone]

/-- A name that some column has is that of a first column. -/
theorem exists_isFirst {name : Str} (hname : ¬ ∀ f ∈ fs, f.name ≠ name) :
    ∃ i, IsFirst fs name i ∧ i < fs.length := by
  rw [← find_indexNames_none] at hname
  obtain ⟨i, hi⟩ := Option.ne_none_iff_exists'.mp hname
  have hfirst := (find_indexNames_iff fs name i).mp hi
  obtain ⟨f, hf, _⟩ := hfirst.1
  exact ⟨i, hfirst, (List.getElem?_eq_some_iff.mp hf).1⟩

end Access

/-- After a description and rows with a value for each of its columns, a column
is found by name as the first one that has it, `std::out_of_range` is thrown
exactly for a name that no column has, and no access by name leaves the row. -/
theorem get_by_name (decode : FieldSpec → Pg.DecodeFunction V) (anyCast : V → Option T)
    (fs : List FieldSpec) (rows : List (List (Buffer × Nat × Int)))
    (hrows : ∀ cells ∈ rows, cells.length = fs.length) (s s' : ResultSet V)
    (hrun : (ResultSet.base decode).run (.addFields fs :: rows.flatMap rowCalls) s = .ok s') :
    IndexesNames fs (RecordSet.indexNames fs) ∧
      ∃ r : RecordSet V, s' = s ++ [r] ∧ r.fieldByName = RecordSet.indexNames fs ∧
        r.row.length = rows.length ∧
        ∀ row < r.row.length, ∀ name,
          (∀ i, IsFirst fs name i → r.getByName anyCast row name = r.get anyCast row i) ∧
          (r.getByName anyCast row name = .error .outOfRange ↔ ∀ f ∈ fs, f.name ≠ name) ∧
          r.getByName anyCast row name ≠ .error .undefined := by
  rw [ResultBase.run] at hrun
  obtain ⟨records, hcount, hrecords, rfl⟩ := run_rows_inv s (.ofFields fs) rows hrows hrun
  refine ⟨indexNames_spec fs, _, rfl, rfl, hcount, ?_⟩
  intro row hrow name
  refine ⟨fun i hfirst => getByName_first anyCast rfl hfirst, ?_⟩
  by_cases hname : ∀ f ∈ fs, f.name ≠ name
  · rw [getByName_unknown anyCast rfl hname]
    simp only [true_iff]
    exact ⟨hname, by simp⟩
  · obtain ⟨i, hfirst, hi⟩ := exists_isFirst hname
    have hcol := hrecords _ (List.getElem_mem hrow)
    obtain ⟨hdefined, hknown⟩ := get_inside anyCast hrow (hcol ▸ hi)
    rw [getByName_first anyCast rfl hfirst]
    exact ⟨iff_of_false hknown hname, hdefined⟩

/-- Two columns of one name, as a join has them, and one without a name. -/
def joinFields : List FieldSpec :=
  [⟨ascii "id", 0, 0, 25, 0, 0, 0⟩, ⟨ascii "id", 0, 0, 25, 0, 0, 0⟩, ⟨[], 0, 0, 25, 0, 0, 0⟩]

def joinRow : List (Buffer × Nat × Int) :=
  [(ascii "x", 0, 1), (ascii "yz", 0, 2), ([], 0, 0)]

theorem get_by_name_join :
    ∃ s' : ResultSet Pg.Value,
      (ResultSet.base Pg.Format.standard.decode).run
        (.addFields joinFields :: [joinRow].flatMap rowCalls) [] = .ok s' ∧
      ∃ r, s' = [] ++ [r] ∧
        r.getByName (fun v => some v) 0 (ascii "id") = r.get (fun v => some v) 0 0 := by
  refine ⟨_, rfl, ?_⟩
  obtain ⟨_, r, hs, _, hcount, hget⟩ := get_by_name Pg.Format.standard.decode
    (fun v => some v) joinFields [joinRow] (by decide) [] _ rfl
  have hfirst : IsFirst joinFields (ascii "id") 0 :=
    (find_indexNames_iff joinFields (ascii "id") 0).mp (by decide)
  exact ⟨r, hs, (hget 0 (by rw [hcount]; decide) (ascii "id")).1 0 hfirst⟩

end Lapq
