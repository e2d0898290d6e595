import Lapq.Replies.Session

/-!
The truth value of a result set. `SQLError` starts with the code of success and
keeps the first value of every field, so no record set ever counts as failed:
a result set converts to true exactly when it holds a record set.
-/

namespace Lapq

open Bytes Backend

variable {V : Type}

/-- The map says what the fields of an error message say. -/
def SQLError.Reports (e : SQLError) (fields : List (SQLErrorField × Str)) : Prop :=
  ∀ f ∈ fields, e.find f.1 = some f.2

/-- The reply to one statement of a simple query. -/
inductive Statement where
  | rows (fs : List FieldSpec) (data : List (List Buffer)) (tag : Str)
  | command (tag : Str)
  | emptyQuery

namespace Statement

def messages : Statement → List Backend
  | .rows fs data tag =>
      .rowDescription fs :: (data.map Backend.dataRow ++ [.commandComplete tag])
  | .command tag => [.commandComplete tag]
  | .emptyQuery => [.other 'I'.toUInt8 []]

def returnsRows : Statement → Bool
  | .rows .. => true
  | _ => false

/-- The rows have the columns of the description, and can be read. -/
def Fits (decode : FieldSpec → Pg.DecodeFunction V) (read : FieldSpec → Buffer → V) :
    Statement → Prop
  | .rows fs data _ => ∀ columns ∈ data, RowFits decode read fs columns
  | .command _ | .emptyQuery => True

end Statement

/-- The reply to a simple query of any number of statements. It may be cut
short, after some of its messages, by an error. -/
structure QueryReply where
  statements : List Statement
  cut : Option (Nat × List (SQLErrorField × Str))
  status : UInt8

namespace QueryReply

def messages (r : QueryReply) : List Backend :=
  match r.cut with
  | none => r.statements.flatMap Statement.messages
  | some (n, fields) =>
      (r.statements.flatMap Statement.messages).take n ++ [.errorResponse fields]

def reply (r : QueryReply) : Reply := ⟨r.messages, r.status⟩

/-- The messages follow their formats, rows fit, and an error has a code that
is not that of success. -/
structure Valid (decode : FieldSpec → Pg.DecodeFunction V) (read : FieldSpec → Buffer → V)
    (r : QueryReply) : Prop where
  messages : ∀ msg ∈ r.messages, msg.WellFormed
  rows : ∀ s ∈ r.statements, s.Fits decode read
  code : ∀ n fields, r.cut = some (n, fields) →
    ∃ code, (SQLErrorField.code, code) ∈ fields ∧ code ≠ SQLError.successCode

end QueryReply

section Rows

variable {decode : FieldSpec → Pg.DecodeFunction V} {read : FieldSpec → Buffer → V}

/-- The description that holds after a message. -/
def Backend.describes (current : Option (List FieldSpec)) : Backend → Option (List FieldSpec)
  | .rowDescription fs => some fs
  | .errorResponse _ => none
  | _ => current

theorem rowsFit_cons (current : Option (List FieldSpec)) (msg : Backend)
    (messages : List Backend) :
    RowsFit decode read current (msg :: messages) ↔
      (∀ columns, msg = .dataRow columns →
        ∃ fs, current = some fs ∧ RowFits decode read fs columns) ∧
      RowsFit decode read (msg.describes current) messages := by
  cases msg <;> simp [RowsFit, Backend.describes]

theorem rowsFit_append (messages : List Backend) (current : Option (List FieldSpec))
    (more : List Backend) (h : RowsFit decode read current (messages ++ more)) :
    RowsFit decode read current messages := by
  induction messages generalizing current with
  | nil => trivial
  | cons msg messages ih =>
      obtain ⟨hmsg, hrest⟩ := (rowsFit_cons current msg (messages ++ more)).mp h
      exact (rowsFit_cons current msg messages).mpr ⟨hmsg, ih _ hrest⟩

theorem rowsFit_error (messages : List Backend) (current : Option (List FieldSpec))
    (fields : List (SQLErrorField × Str)) (h : RowsFit decode read current messages) :
    RowsFit decode read current (messages ++ [.errorResponse fields]) := by
  induction messages generalizing current with
  | nil => trivial
  | cons msg messages ih =>
      obtain ⟨hmsg, hrest⟩ := (rowsFit_cons current msg messages).mp h
      exact (rowsFit_cons current msg _).mpr ⟨hmsg, ih _ hrest⟩

theorem rowsFit_statements (statements : List Statement)
    (hfits : ∀ s ∈ statements, s.Fits decode read) (current : Option (List FieldSpec)) :
    RowsFit decode read current (statements.flatMap Statement.messages) := by
  induction statements generalizing current with
  | nil => trivial
  | cons s statements ih =>
      have hmore := ih fun t ht => hfits t (List.mem_cons_of_mem _ ht)
      have hs := hfits s List.mem_cons_self
      rw [List.flatMap_cons]
      cases s with
      | command tag => exact hmore current
      | emptyQuery => exact hmore current
      | rows fs data tag =>
          change RowsFit decode read (some fs) ((data.map Backend.dataRow ++
            [.commandComplete tag]) ++ statements.flatMap Statement.messages)
          change ∀ columns ∈ data, RowFits decode read fs columns at hs
          clear hfits
          induction data with
          | nil => exact hmore (some fs)
          | cons columns data ihdata =>
              exact ⟨⟨fs, rfl, hs columns List.mem_cons_self⟩,
                ihdata fun c hc => hs c (List.mem_cons_of_mem _ hc)⟩

theorem QueryReply.Valid.rowsFit {r : QueryReply} (hr : r.Valid decode read) :
    RowsFit decode read none r.messages := by
  have hall := rowsFit_statements r.statements hr.rows none
  unfold QueryReply.messages
  cases r.cut with
  | none => exact hall
  | some cut =>
      obtain ⟨n, fields⟩ := cut
      apply rowsFit_error
      rw [← List.take_append_drop n (r.statements.flatMap Statement.messages)] at hall
      exact rowsFit_append _ none _ hall

theorem QueryReply.Valid.wellFormed {r : QueryReply} (hr : r.Valid decode read) :
    r.reply.WellFormed .QUERY := by
  intro msg hmsg
  refine ⟨hr.messages msg hmsg, ?_⟩
  have hstatements (m : Backend) (hm : m ∈ r.statements.flatMap Statement.messages) :
      m.Listed .QUERY := by
    obtain ⟨s, _, hs⟩ := List.mem_flatMap.mp hm
    cases s with
    | rows fs data tag =>
        simp only [Statement.messages, List.mem_cons, List.mem_append, List.mem_map,
          List.not_mem_nil, or_false] at hs
        rcases hs with rfl | ⟨columns, _, rfl⟩ | rfl <;> trivial
    | command tag =>
        rw [List.mem_singleton.mp hs]
        trivial
    | emptyQuery =>
        rw [List.mem_singleton.mp hs]
        intro transition hrow
        cases hrow
        rfl
  have hmem : msg ∈ r.messages := hmsg
  unfold QueryReply.messages at hmem
  cases hcut : r.cut with
  | none =>
      rw [hcut] at hmem
      exact hstatements msg hmem
  | some cut =>
      rw [hcut] at hmem
      rcases List.mem_append.mp hmem with htake | herror
      · exact hstatements msg (List.mem_of_mem_take htake)
      · rw [List.mem_singleton.mp herror]
        trivial

end Rows

/-! The flag. -/

theorem assemble_ok (read : FieldSpec → Buffer → V) (messages : List Backend) :
    ∀ r ∈ assemble read messages, r.ok = true := by
  have hset (r : RecordSet V)
      (hcode : r.error.find SQLErrorField.code = some SQLError.successCode) : r.ok = true := by
    rw [RecordSet.ok, SQLError.isError_of_success r.error hcode]
    rfl
  induction messages with
  | nil => simp [assemble]
  | cons msg messages ih =>
      intro r hr
      by_cases hopens : msg.opens = true
      · cases msg <;> cases hopens <;> rcases List.mem_cons.mp hr with rfl | hmore
        · exact hset _ SQLError.find_init_code
        · exact ih r hmore
        · exact hset _ (ofFields_find_of_some _ .init _ _ SQLError.find_init_code)
        · exact ih r hmore
      · have hsame : assemble read (msg :: messages) = assemble read messages := by
          cases msg <;> first | rfl | exact absurd rfl hopens
        rw [hsame] at hr
        exact ih r hr

theorem assemble_isEmpty (read : FieldSpec → Buffer → V) (messages : List Backend) :
    (assemble read messages).isEmpty = !messages.any Backend.opens := by
  induction messages with
  | nil => rfl
  | cons msg messages ih => cases msg <;> first | rfl | exact ih

/-- The result set of a reply converts to true exactly when a message started a
record set. -/
theorem assemble_flag (read : FieldSpec → Buffer → V) (messages : List Backend) :
    ResultSet.ok (assemble read messages) = messages.any Backend.opens := by
  have hempty := assemble_isEmpty read messages
  have hall := assemble_ok read messages
  cases hsets : assemble read messages with
  | nil =>
      rw [hsets] at hempty
      simp only [List.isEmpty_nil, Bool.true_eq, Bool.not_eq_true'] at hempty
      rw [hempty]
      rfl
  | cons r sets =>
      rw [hsets] at hempty hall
      simp only [List.isEmpty_cons, Bool.false_eq, Bool.not_eq_false'] at hempty
      rw [hempty]
      exact hall r List.mem_cons_self

theorem statements_open (statements : List Statement) :
    (statements.flatMap Statement.messages).any Backend.opens =
      statements.any Statement.returnsRows := by
  have hone (s : Statement) : s.messages.any Backend.opens = s.returnsRows := by
    cases s <;> rfl
  simp [List.any_flatMap, hone]

/-- The flag of a result set tells whether an error was received, and when it is
false the error is there to be found. -/
def FlagTells (s : ResultSet V) (r : QueryReply) : Prop :=
  (ResultSet.ok s = true ↔ r.cut = none) ∧
    (ResultSet.ok s = false → s ≠ [] ∧ ∃ n fields, r.cut = some (n, fields) ∧
      ∃ set ∈ s, set.error.Reports fields)

theorem flagTells_assemble (read : FieldSpec → Buffer → V) (r : QueryReply) :
    FlagTells (assemble read r.messages) r ↔
      r.cut = none ∧ ∃ s ∈ r.statements, s.returnsRows = true := by
  unfold FlagTells
  rw [assemble_flag]
  cases hcut : r.cut with
  | none =>
      have hmessages : r.messages = r.statements.flatMap Statement.messages := by
        simp [QueryReply.messages, hcut]
      rw [hmessages, statements_open]
      constructor
      · rintro ⟨hflag, _⟩
        exact ⟨rfl, List.any_eq_true.mp (hflag.mpr rfl)⟩
      · rintro ⟨_, hrows⟩
        have hany := List.any_eq_true.mpr hrows
        refine ⟨⟨fun _ => rfl, fun _ => hany⟩, ?_⟩
        intro hfalse
        rw [hany] at hfalse
        cases hfalse
  | some cut =>
      obtain ⟨n, fields⟩ := cut
      have hany : r.messages.any Backend.opens = true := by
        simp [QueryReply.messages, hcut, Backend.opens]
      constructor
      · rintro ⟨hflag, _⟩
        cases hflag.mp hany
      · rintro ⟨hnone, _⟩
        cases hnone

/-- A query that is answered by a valid reply fills a fresh result set with the
record sets of the reply. -/
theorem query_result {decode : FieldSpec → Pg.DecodeFunction V}
    {read : FieldSpec → Buffer → V} (md5 : Str → List UInt8) (salt : Byte4) (mode : Mode)
    (q : Str) (id : ResultId) (h : HandlerId) {r : QueryReply} (hr : r.Valid decode read)
    (w : World Peer (ResultSet V)) (hstate : w.fsm.state = .IDLE) (hp : w.net.Faultless)
    (hfresh : w.results id = []) (rest : Buffer) (hinput : w.net.input = r.reply.wire ++ rest)
    (n : Nat) (hn : 2 * w.net.input.length + 6 ≤ n) :
    (mode.drive ⟨ResultSet.base decode, md5, salt⟩ n (.exec q (some id) h) w).world.results id =
      assemble read r.messages := by
  have hx : Exchange.Valid decode read ⟨.exec q (some id) h, r.reply⟩ :=
    ⟨Or.inl ⟨q, some id, h, rfl⟩, ⟨id, rfl⟩, hr.wellFormed, hr.rowsFit⟩
  have hserved := (served_of_valid md5 salt mode hx w hstate hp rest hinput n hn).1
  rw [hserved.results id rfl, Function.update_self, hfresh]
  rfl

/-- The flag of the result set of a simple query tells the truth exactly when no
error was received and some statement returned a row description. It is said of
replies without NULL columns. -/
theorem flag_tells_iff (decode : FieldSpec → Pg.DecodeFunction V)
    (read : FieldSpec → Buffer → V) (md5 : Str → List UInt8) (salt : Byte4) (mode : Mode)
    (q : Str) (id : ResultId) (h : HandlerId) (r : QueryReply) (hr : r.Valid decode read)
    (w : World Peer (ResultSet V)) (hstate : w.fsm.state = .IDLE) (hp : w.net.Faultless)
    (hfresh : w.results id = []) (rest : Buffer) (hinput : w.net.input = r.reply.wire ++ rest)
    (n : Nat) (hn : 2 * w.net.input.length + 6 ≤ n) :
    FlagTells ((mode.drive ⟨ResultSet.base decode, md5, salt⟩ n (.exec q (some id) h)
        w).world.results id) r ↔
      r.cut = none ∧ ∃ s ∈ r.statements, s.returnsRows = true := by
  rw [query_result md5 salt mode q id h hr w hstate hp hfresh rest hinput n hn]
  exact flagTells_assemble read r

/-- The reply to two statements. The first returns two rows. -/
def twoStatements : QueryReply where
  statements := [.rows [textColumn (ascii "a"), textColumn (ascii "b")]
    [[ascii "x", ascii "y"], [[], ascii "z"]] (ascii "SELECT 2"), .command (ascii "BEGIN")]
  cut := none
  status := 'T'.toUInt8

theorem twoStatements_valid :
    twoStatements.Valid Pg.Format.standard.decode fun _ bytes => .text bytes := by
  refine ⟨?_, ?_, ?_⟩
  · -- The messages of the first statement are those of the exchange.
    intro msg hmsg
    rcases List.mem_append.mp (show msg ∈ pairsExchange.reply.messages ++
      [.commandComplete (ascii "BEGIN")] from hmsg) with hfirst | hlast
    · exact (pairsExchange_valid.reply msg hfirst).1
    · rw [List.mem_singleton.mp hlast]
      exact ⟨show NulFree _ by decide, by decide⟩
  · intro s hs
    rcases List.mem_pair.mp hs with rfl | rfl
    · intro columns hcolumns
      have hfits := textColumns_fit [ascii "a", ascii "b"]
      rcases List.mem_pair.mp hcolumns with rfl | rfl
      · exact hfits [ascii "x", ascii "y"] rfl (by decide)
      · exact hfits [[], ascii "z"] rfl (by decide)
    · trivial
  · intro n fields hcut
    cases hcut

theorem flag_tells_iff_rows :
    let input := twoStatements.reply.wire
    FlagTells ((Mode.drive (Externals.standard fun _ => []) (2 * input.length + 6)
      (.exec [] (some 7) 3) (connected input) .async).world.results 7) twoStatements := by
  intro input
  have hinput : input = twoStatements.reply.wire ++ [] := (List.append_nil _).symm
  clear_value input
  apply (flag_tells_iff Pg.Format.standard.decode (fun _ bytes => .text bytes) (fun _ => [])
    (0, 0, 0, 0) .async [] 7 3 twoStatements twoStatements_valid (connected input) rfl
    (fun _ => rfl) rfl [] hinput _ (le_refl _)).mpr
  exact ⟨rfl, _, List.mem_cons_self, rfl⟩

/-- A syntax error: the server sends nothing but an error response. -/
def syntaxError : QueryReply :=
  ⟨[], some (0, [(SQLErrorField.code, ascii "42601")]), 'I'.toUInt8⟩

theorem syntaxError_valid :
    syntaxError.Valid Pg.Format.standard.decode fun _ bytes => .text bytes := by
  refine ⟨?_, ?_, ?_⟩
  · intro msg hmsg
    rw [List.mem_singleton.mp hmsg]
    refine ⟨?_, by decide⟩
    intro f hf
    rw [List.mem_singleton.mp hf]
    exact ⟨by decide, by decide⟩
  · intro s hs
    cases hs
  · intro n fields hcut
    cases hcut
    exact ⟨ascii "42601", List.mem_singleton.mpr rfl, by decide⟩

/-- The result set of a syntax error converts to true. -/
theorem flag_of_syntax_error :
    ¬ ∀ r : QueryReply, r.Valid Pg.Format.standard.decode (fun _ bytes => .text bytes) →
      FlagTells ((Mode.drive (Externals.standard fun _ => [])
        (2 * r.reply.wire.length + 6) (.exec (ascii "selec") (some 7) 3)
        (connected r.reply.wire) .blocking).world.results 7) r := by
  intro hall
  have htells := hall syntaxError syntaxError_valid
  have hset := query_result (fun _ => []) (0, 0, 0, 0) .blocking (ascii "selec") 7 3
    syntaxError_valid (connected syntaxError.reply.wire) rfl (fun _ => rfl) rfl []
    (List.append_nil _).symm (2 * syntaxError.reply.wire.length + 6) (le_refl _)
  rw [Externals.standard, hset] at htells
  cases ((flagTells_assemble _ _).mp htells).1

end Lapq
