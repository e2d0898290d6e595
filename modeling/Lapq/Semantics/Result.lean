import Lapq.Semantics.Error

/-!
Queries, field descriptions, column decoders and result sets (`dbquery.h`,
`pgformat.h`, `pgformat.cpp`, `dbresult.h`).

A `const char *` into a message body is the body and a position in it, so that
a decoder can be asked to read at any position and with any size; reading past
the end of the body is undefined behaviour.
-/

namespace Lapq

open Bytes

structure FieldSpec where
  name : Str
  tableOid : Int
  colNum : Int
  typeOid : Int
  typeSize : Int
  typeMod : Int
  typeFormat : Int
deriving DecidableEq, Repr

/-- A prepared query. `portal` is derived from the name, as both constructors do. -/
structure DBQuery where
  query : Str
  name : Str
  bindValue : List Str
deriving DecidableEq, Repr

def DBQuery.portal (q : DBQuery) : Str :=
  if q.name.isEmpty then [] else q.name ++ ascii "port"

/-- A conversion of a signed 64-bit or narrower value to `std::size_t`. -/
def toSize (v : Int) : Nat := pattern 64 v

/-- `std::vector<char>::max_size()` and `std::string::max_size()` lie below
this; a longer buffer cannot be allocated. -/
def maxSize : Nat := 2 ^ 63 - 1

def readByte (buf : Buffer) (pos : Nat) : Except Abort UInt8 :=
  match buf[pos]? with
  | some b => .ok b
  | none => .error .undefined

/-- `std::string{buf + pos, size}`. -/
def readString (buf : Buffer) (pos size : Nat) : Except Abort Str :=
  if maxSize < size then .error .lengthError
  else if buf.length < pos + size then .error .undefined
  else .ok ((buf.drop pos).take size)

namespace Pg

abbrev DecodeFunction (V : Type) := Buffer → Nat → Int → Except Abort V

/-- The values that the built-in decoders put into a `std::any`. -/
inductive Value where
  | bool (b : Bool)
  | int (n : Int)
  | text (s : Str)
deriving DecidableEq, Repr

def isSpace (c : UInt8) : Bool := c = 32 || (9 ≤ c && c ≤ 13)

def isDigit (c : UInt8) : Bool := 48 ≤ c && c ≤ 57

def digits (s : Str) : Nat :=
  (s.takeWhile isDigit).foldl (fun n c => 10 * n + (c.toNat - 48)) 0

/-- `std::stoi`: leading space, a sign, then digits up to the first byte that
is none. No digits and a value outside `int` both throw. -/
def stoi (s : Str) : Except Abort Int :=
  let body := s.dropWhile isSpace
  let (negative, number) := match body with
    | 45 :: rest => (true, rest)
    | 43 :: rest => (false, rest)
    | _ => (false, body)
  let n : Int := if negative then -(digits number : Int) else digits number
  if (number.takeWhile isDigit).isEmpty then .error .thrown
  else if n < -2 ^ 31 || 2 ^ 31 ≤ n then .error .thrown
  else .ok n

def decodeBool : DecodeFunction Value := fun buf pos _ => do
  let c ← readByte buf pos
  pure (.bool (c = 't'.toUInt8 || c = 'T'.toUInt8))

def decodeInt4 : DecodeFunction Value := fun buf pos sz => do
  let s ← readString buf pos (toSize sz)
  let n ← stoi s
  pure (.int n)

def decodeText : DecodeFunction Value := fun buf pos sz => do
  let s ← readString buf pos (toSize sz)
  pure (.text s)

/-- `PGFormatType`: decoders by type OID, with `text` for the other types. -/
structure Format (V : Type) where
  decoder : OrderedMap Int (DecodeFunction V)
  text : DecodeFunction V

def Format.standard : Format Value where
  decoder := ((OrderedMap.empty.emplace 16 decodeBool).emplace 23 decodeInt4).emplace
    25 decodeText
  text := decodeText

/-- A `std::any` also holds the values of other types, which the decoders that a program
registers give: `embed` says which of all the values the built-in ones are. -/
def DecodeFunction.into {V : Type} (embed : Value → V) (f : DecodeFunction Value) :
    DecodeFunction V :=
  fun buf pos sz => (f buf pos sz).map embed

def Format.holding {V : Type} (embed : Value → V) : Format V where
  decoder := ((OrderedMap.empty.emplace 16 (decodeBool.into embed)).emplace 23
    (decodeInt4.into embed)).emplace 25 (decodeText.into embed)
  text := decodeText.into embed

/-- `PGFormatType::decode`. The binary format is not supported. -/
def Format.decode {V : Type} (format : Format V) (fs : FieldSpec) : DecodeFunction V :=
  fun buf pos sz =>
    if fs.typeFormat = 1 then .error .thrown
    else match format.decoder.find fs.typeOid with
      | some f => f buf pos sz
      | none => format.text buf pos sz

/-- `PGFormatType::emplace`: a type that has a decoder keeps it. -/
def Format.emplace {V : Type} (format : Format V) (oid : Int) (f : DecodeFunction V) : Format V :=
  { format with decoder := format.decoder.emplace oid f }

end Pg

/-- How reading a value back ends when it does not return: two exceptions, and
an index outside a vector, which `operator[]` does not check. -/
inductive AccessError where
  | outOfRange
  | badAnyCast
  | undefined
deriving DecidableEq, Repr

/-- `Record::get<T>`. A parameter says which values `std::any_cast<T>` takes and
what it makes of them. -/
def Record.get {V T : Type} (anyCast : V → Option T) (record : List V) (pos : Nat) :
    Except AccessError T :=
  match record[pos]? with
  | none => .error .undefined
  | some v => match anyCast v with
    | some t => .ok t
    | none => .error .badAnyCast

structure RecordSet (V : Type) where
  fieldSpec : List FieldSpec
  fieldByName : OrderedMap Str Nat
  row : List (List V)
  error : SQLError

namespace RecordSet

variable {V : Type}

/-- The name index of the constructor: a repeated name keeps its first column. -/
def indexNames (fs : List FieldSpec) : OrderedMap Str Nat :=
  fs.zipIdx.foldl (fun index entry => index.emplace entry.1.name entry.2) .empty

def ofFields (fs : List FieldSpec) : RecordSet V :=
  ⟨fs, indexNames fs, [], SQLError.init⟩

def ofError (e : SQLError) : RecordSet V := ⟨[], .empty, [], e⟩

/-- `RecordSet::operator bool`. -/
def ok (r : RecordSet V) : Bool := !r.error.isError

/-- `RecordSet::get<T>` with a column's number. -/
def get {T : Type} (anyCast : V → Option T) (r : RecordSet V) (row col : Nat) :
    Except AccessError T :=
  match r.row[row]? with
  | none => .error .undefined
  | some record => Record.get anyCast record col

/-- `RecordSet::get<T>` with a column's name: `std::map::at` throws for a name it
does not have. -/
def getByName {T : Type} (anyCast : V → Option T) (r : RecordSet V) (row : Nat) (col : Str) :
    Except AccessError T :=
  match r.fieldByName.find col with
  | none => .error .outOfRange
  | some i => r.get anyCast row i

end RecordSet

/-- The virtual functions of `ResultBase`, as calls on it. -/
inductive ResultCall where
  | addFields (fs : List FieldSpec)
  | addError (e : SQLError)
  | addRow
  | addColumn (i : Int) (buf : Buffer) (pos : Nat) (sz : Int)

/-- An implementation of `ResultBase` over objects of type `ρ`. A call that
throws leaves the object as it was. -/
structure ResultBase (ρ : Type) where
  call : ResultCall → ρ → Except Abort ρ

/-- `ResultSetType`, as its vector of record sets. -/
abbrev ResultSet (V : Type) := List (RecordSet V)

namespace ResultSet

variable {V : Type}

/-- Change the last element; `back()` of an empty vector is undefined. -/
def modifyBack {α : Type} (f : α → Except Abort α) (l : List α) : Except Abort (List α) :=
  match l.getLast? with
  | none => .error .undefined
  | some x => do
      let y ← f x
      pure (l.dropLast ++ [y])

def addRow : ResultSet V → Except Abort (ResultSet V) :=
  modifyBack fun r => .ok { r with row := r.row ++ [[]] }

/-- `add_column`: `fs[i]` is not bound-checked. -/
def addColumn (decode : FieldSpec → Pg.DecodeFunction V) (i : Int) (buf : Buffer)
    (pos : Nat) (sz : Int) : ResultSet V → Except Abort (ResultSet V) :=
  modifyBack fun r => do
    match r.fieldSpec[i.toNat]? with
    | none => .error .undefined
    | some fs =>
        let v ← decode fs buf pos sz
        let row ← modifyBack (fun columns => .ok (columns ++ [v])) r.row
        pure { r with row := row }

/-- The calls on a `ResultSetType` whose `PGFormatType` decodes with `decode`. -/
def base (decode : FieldSpec → Pg.DecodeFunction V) : ResultBase (ResultSet V) where
  call
    | .addFields fs => fun s => .ok (s ++ [.ofFields fs])
    | .addError e => fun s => .ok (s ++ [.ofError e])
    | .addRow => addRow
    | .addColumn i buf pos sz => addColumn decode i buf pos sz

/-- `ResultSetType::operator bool` looks at the first record set only. -/
def ok (s : ResultSet V) : Bool :=
  match s with
  | [] => false
  | r :: _ => r.ok

end ResultSet

end Lapq
