import SmallScheme.FileTree
import SmallScheme.Reader.Problem
import SmallScheme.Text.Utf8
import SmallScheme.Value.Printer

/-
Module: SmallScheme.Fault
Purpose: Everything that can stop an evaluation, one constructor for each cause, and the wording of each. Most faults
  are errors of the language: the prompt shows their text and goes on. A few are failures of the host around it
  (a numeral too long to convert, a file name that is none or out of reach, a file without room, unusable settings)
  and end the run; `Fault.isLanguageError` tells them apart.
Main exports: Kind, Fault, Fault.message, Fault.isLanguageError, Fault.ofRefusal, Fault.ofReader
-/

namespace SmallScheme

/-- What a procedure expected of an argument. -/
inductive Kind where
  | number | string | boolean | pair | port
deriving DecidableEq, Repr, Inhabited

/-- The name of an expected kind. -/
def Kind.name : Kind → String
  | .number => "number"
  | .string => "string"
  | .boolean => "boolean"
  | .pair => "pair"
  | .port => "port"

/-- Why an evaluation stopped. -/
inductive Fault where
  /-- A text that the reader cannot read. -/
  | unreadable (problem : Reader.Problem) (place : Text.Place)
  /-- The wrong count of arguments. -/
  | argumentCount (expected : Nat) (found : List Value)
  /-- An argument of the wrong kind. -/
  | wrongKind (expected : Kind) (found : Value)
  /-- An expression that no rule of evaluation covers. -/
  | badForm (form : Value)
  /-- A call of a value that is no procedure. -/
  | notProcedure (found : Value)
  /-- A call of a name that is not bound. -/
  | unknownProcedure (name : String)
  /-- A use of a name that is not bound. -/
  | unboundRead (name : String)
  /-- An assignment to a name that is not bound. -/
  | unboundWrite (name : String)
  /-- A call of a closure without a body. -/
  | emptyBody (params : List String) (rest? : Option String)
  /-- A division by zero. -/
  | divisionByZero
  /-- More nested evaluations than allowed. -/
  | depthExceeded
  /-- A file that the file system does not open for a port. -/
  | cannotOpen (name : String) (trouble : Trouble)
  /-- A file that the file system does not hand over. -/
  | cannotRead (name : String) (trouble : Trouble)
  /-- A file that is not text. -/
  | notText (name : String) (defect : Text.Utf8.Defect)
  /-- The use of a port that is closed. -/
  | closedPort
  /-- Reading from an output port. -/
  | notReadable
  /-- Writing to an input port. -/
  | notWritable
  /-- A port whose file is not text. -/
  | undecodable (error : Text.Utf8.DecodingError)
  /-- A numeral with more digits than are ever converted. -/
  | numeralTooLong (digits : Nat)
  /-- A file name with a null character. -/
  | nullInName
  /-- A path of which the file system does not even say whether it leads to a file. -/
  | outOfReach (path : Path) (trouble : Trouble)
  /-- A port that is closed, and its file cannot hold what was written to it. -/
  | noRoom
  /-- A recursion limit of digits that are not all decimal. -/
  | badRecursionLimit (text : List Char)
  /-- A recursion limit beyond what the host can count. -/
  | recursionLimitTooLarge
  /-- A list of prelude files that names none. -/
  | noPreludeFile
  /-- A prelude file that is not text. -/
  | undecodablePrelude (error : Text.Utf8.DecodingError)
deriving DecidableEq, Repr, Inhabited

namespace Fault

/-- The values of a list in written form, with a blank between neighbours. -/
def listing (vs : List Value) : String :=
  String.ofList (Value.renderAll vs)

/-- The wording of a fault. -/
def message : Fault → String
  | unreadable problem place =>
    "Parse error at line " ++ toString place.line ++ ", column " ++ toString place.column ++ ": "
      ++ problem.reason
  | argumentCount expected found =>
    "Expected " ++ toString expected ++ " args; found values " ++ listing found
  | wrongKind expected found =>
    "Invalid type: expected " ++ expected.name ++ ", found " ++ found.text
  | badForm form => "Unrecognized special form: " ++ form.text
  | notProcedure found => "Not a function: " ++ found.text
  | unknownProcedure name => "Unrecognized primitive function args: " ++ name
  | unboundRead name => "Getting an unbound variable: " ++ name
  | unboundWrite name => "Setting an unbound variable: " ++ name
  | emptyBody params rest? =>
    "Procedure has no body: " ++ String.ofList (Value.renderLambda params rest?)
  | divisionByZero => "Division by zero"
  | depthExceeded => "Recursion depth exceeded"
  | cannotOpen name trouble => "Cannot open file " ++ name ++ ": " ++ trouble.text
  | cannotRead name trouble => "Cannot read file " ++ name ++ ": " ++ trouble.text
  | notText name defect => "Cannot read file " ++ name ++ ": not valid UTF-8 (" ++ defect.reason ++ ")"
  | closedPort => "I/O error: I/O operation on closed file."
  | notReadable => "I/O error: not readable"
  | notWritable => "I/O error: not writable"
  | undecodable error => "I/O error: " ++ error.message
  | numeralTooLong digits =>
    "Exceeds the limit (" ++ toString Number.maxDigits
      ++ " digits) for integer string conversion: value has " ++ toString digits
      ++ " digits; use sys.set_int_max_str_digits() to increase the limit"
  | nullInName => "embedded null byte"
  | outOfReach path trouble =>
    "[Errno " ++ toString trouble.number ++ "] " ++ trouble.text ++ ": "
      ++ String.ofList (Text.quoted path.toString.toList)
  | noRoom => "[Errno 28] No space left on device"
  | badRecursionLimit text =>
    "invalid literal for int() with base 10: " ++ String.ofList ((Text.quoted text).take 200)
  | recursionLimitTooLarge => "Python int too large to convert to C int"
  | noPreludeFile => "list index out of range"
  | undecodablePrelude error => error.message

/-- Whether a fault is an error of the language, which the prompt survives. -/
def isLanguageError : Fault → Bool
  | numeralTooLong _ | nullInName | outOfReach .. | noRoom => false
  | badRecursionLimit _ | recursionLimitTooLarge | noPreludeFile | undecodablePrelude _ => false
  | _ => true

/-- The fault that a refusal is, where troubles of the file system are worded in the given way. -/
def ofRefusal (worded : Trouble → Fault) : Refusal → Fault
  | .nullInName => nullInName
  | .trouble trouble => worded trouble

/-- The fault that a failure of the reader is, in the text it was reading. -/
def ofReader (source : List Char) : Reader.Failure → Fault
  | .unreadable problem token? => unreadable problem (Reader.placeOf source token?)
  | .numeralTooLong digits => numeralTooLong digits

end Fault

end SmallScheme
