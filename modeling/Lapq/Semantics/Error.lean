import Lapq.Lib.Bytes
import Lapq.Lib.OrderedMap

/-!
Byte strings, error codes, the ways a call can end without returning, and the
error map sent by the server.
-/

namespace Lapq

/-- `std::vector<char>`, as the bytes it holds. -/
abbrev Buffer := List UInt8

/-- `std::string`, as the bytes it holds. -/
abbrev Str := List UInt8

/-- Strings are compared byte by byte, as the keys of a map. -/
instance Str.lawfulOrderLT : Std.LawfulOrderLT Str := inferInstance

/-- The bytes of an ASCII literal. -/
def ascii (s : String) : Str := s.toList.map Char.toUInt8

/-- `std::error_category`. The categories of asio and of the TLS library are
told apart by a number. -/
inductive ErrorCategory where
  | generic
  | system
  | lapq
  | external (n : Nat)
deriving DecidableEq, Repr

/-- `std::error_code`. -/
structure ErrorCode where
  value : Int
  category : ErrorCategory
deriving DecidableEq, Repr

namespace ErrorCode

/-- `std::error_code()`. -/
def success : ErrorCode := ⟨0, .system⟩

/-- `error_code::operator bool`. -/
def isError (ec : ErrorCode) : Bool := ec.value != 0

def emsgsize : ErrorCode := ⟨90, .generic⟩

def ebadmsg : ErrorCode := ⟨74, .generic⟩

def enospc : ErrorCode := ⟨28, .system⟩

def enosys : ErrorCode := ⟨38, .system⟩

@[simp] theorem isError_success : success.isError = false := rfl

end ErrorCode

/-- `lapq::errc`. -/
inductive Errc where
  | noError
  | resultEmpty
  | unsupportedFormat
  | busy
  | sqlError
deriving DecidableEq, Repr

def Errc.value : Errc → Int
  | .noError => 0
  | .resultEmpty => 1
  | .unsupportedFormat => 2
  | .busy => 3
  | .sqlError => 4

def makeErrorCode (e : Errc) : ErrorCode := ⟨e.value, .lapq⟩

/-- How a call ends when it does not return. The first four are exceptions;
`undefined` is undefined behaviour (a read outside a buffer, a null result, an
empty container's last element, signed overflow). `depth` belongs to the model
of the blocking connection: callbacks nested deeper than the model follows. -/
inductive Abort where
  | stateTableAt
  | badFunctionCall
  | lengthError
  | thrown
  | undefined
  | depth
deriving DecidableEq, Repr

/-- `SQLErrorField`, the type byte of a field of an error message. -/
abbrev SQLErrorField := UInt8

def SQLErrorField.code : SQLErrorField := 'C'.toUInt8

def SQLErrorField.message : SQLErrorField := 'M'.toUInt8

/-- `SQLError`, a map from field type to text. -/
abbrev SQLError := OrderedMap SQLErrorField Str

def SQLError.successCode : Str := ascii "00000"

/-- `SQLError::SQLError`. -/
def SQLError.init : SQLError :=
  (OrderedMap.empty.emplace SQLErrorField.code SQLError.successCode).emplace
    SQLErrorField.message (ascii "success")

/-- `SQLError::operator bool`. -/
def SQLError.isError (e : SQLError) : Bool :=
  if !e.entries.isEmpty then
    match e.find SQLErrorField.code with
    | some code => if code = SQLError.successCode then false else true
    | none => true
  else true

theorem SQLError.find_init_code :
    SQLError.init.find SQLErrorField.code = some SQLError.successCode := by
  decide

/-- A map that holds the success code is no error, whatever else it holds. -/
theorem SQLError.isError_of_success (e : SQLError)
    (hcode : e.find SQLErrorField.code = some SQLError.successCode) :
    e.isError = false := by
  have hne : e.entries.isEmpty = false := by
    cases hentries : e.entries with
    | nil => simp [OrderedMap.find, hentries] at hcode
    | cons head rest => rfl
  simp [SQLError.isError, hne, hcode]

end Lapq
