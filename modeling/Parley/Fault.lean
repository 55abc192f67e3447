import Parley.Text.Quoted

/-!
# Faults

What can go wrong while a statement is read, evaluated or sent to a service. A fault is its
cause; the words for it are given by the functions of this module and nowhere else: `label` is
the name of its class, `message` its text, `particulars` the items it carries, and `shown` the
form in which a failed remote call reports it.
-/

namespace Parley

/-- An item that a fault carries. -/
inductive Particular where
  | text (value : String)
  | number (value : Int)
  | bytes (value : List UInt8)
  /-- Something else, by its kind and the way it is shown. -/
  | other (kind shown : String)

/-- One item as it is shown. -/
def Particular.shown : Particular → String
  | .text s => Text.quoted s
  | .number n => toString n
  | .bytes b => Text.quotedBytes b
  | .other _ shown => shown

/-- The word for the kind of an item. -/
def Particular.kind : Particular → String
  | .text _ => "str"
  | .number _ => "int"
  | .bytes _ => "bytes"
  | .other kind _ => kind

/-- The ways of failing to open a file. -/
inductive FileFault where
  | missing
  | directory
  | notDirectory
  | present
  deriving DecidableEq, Repr

/-- A cause of failure. -/
inductive Fault where
  /-- The statement cannot be carried out; this is the fault that `try` turns into null. -/
  | evaluation (message : String)
  | missingKey (key : String)
  /-- There is no entry under a number. -/
  | missingNumber (key : Nat)
  | noAttribute (kind member : String)
  | noColour (layer colour : String)
  | notSubscriptable (kind : String)
  | notIterable (kind : String)
  | notContainer (kind : String)
  | unhashable (kind : String)
  /-- An item of the list of texts to be joined is no text. -/
  | joinItem (index : Nat) (kind : String)
  | attributeName (kind : String)
  | textResult (kind : String)
  | noLength (kind : String)
  | notCallable (kind : String)
  /-- A text or list has no place named by a text. -/
  | notIndexable (kind : String)
  /-- Data of this kind cannot be written into. -/
  | notAssignable (kind : String)
  | notComparable (relation left right : String)
  /-- Text was wanted, not data of this kind. -/
  | notText (kind : String)
  /-- The parts of an address are not all texts. -/
  | mixedParts
  /-- The two kinds cannot be added. -/
  | addition (left right : String)
  /-- There is no statement in an empty list of tokens. -/
  | noStatement
  /-- No token begins here. -/
  | unrecognized (text : String)
  | divisionByZero (float : Bool)
  | intTooLarge
  | quotientTooLarge
  | infinityToInt
  | undefinedToInt
  /-- More digits than an integer is read from. -/
  | tooManyDigits (count : Nat)
  /-- More digits than an integer is written with. -/
  | tooLongToWrite
  | tooFewParts (wanted got : Nat)
  | tooManyParts (wanted : Nat)
  | listIndex
  | textIndex
  | file (fault : FileFault) (path : String)
  | unsupportedProtocol (name : String)
  /-- A bad regular expression, or a bad replacement for one. -/
  | pattern (message : String)
  /-- A replacement names a group that does not exist. -/
  | missingGroup (name : String)
  | json (message : String)
  /-- A document that cannot be read. -/
  | markup (label message : String)
  | remote (reason : String)
  /-- A failure of the system below, with whatever items it carries. -/
  | system (label : String) (items : List Particular) (message : String)
  | http (code : Int) (reason : String)
  | unknownUrl (url : String)
  | base64 (message : String)
  | notAscii
  /-- Bytes from `start` up to `stop` are not UTF-8. -/
  | undecodable (bytes : List UInt8) (start stop : Nat) (reason : String)
  | timedOut (limit : String)
  | noPackage (name : String)
  | unboundName (name : String)
  | unreadableDate (problem text : String)
  | dateOutOfRange
  | offsetOutOfRange
  /-- A part of a date is too large; `short` if it would fit in 64 bits. -/
  | dateNumberTooLarge (short : Bool)
  /-- Evaluation is nested more deeply than the shell allows. -/
  | nestedTooDeeply

namespace Fault

/-- The sentence for a failure to open a file. -/
def fileSentence : FileFault → String
  | .missing => "No such file or directory"
  | .directory => "Is a directory"
  | .notDirectory => "Not a directory"
  | .present => "File exists"

/-- The number for a failure to open a file. -/
def fileNumber : FileFault → Int
  | .missing => 2
  | .directory => 21
  | .notDirectory => 20
  | .present => 17

/-- The name of the class of a fault. -/
def label : Fault → String
  | evaluation _ => "EvaluationError"
  | missingKey _ | missingNumber _ => "KeyError"
  | noAttribute _ _ | noColour _ _ => "AttributeError"
  | notSubscriptable _ | notIterable _ | notContainer _ | unhashable _ | joinItem _ _
  | attributeName _ | textResult _ | noLength _ | notCallable _ | notIndexable _
  | notAssignable _ | notComparable _ _ _ | notText _ | mixedParts | addition _ _
  | noStatement => "TypeError"
  | unrecognized _ => "UntokenizableError"
  | divisionByZero _ => "ZeroDivisionError"
  | intTooLarge | quotientTooLarge | infinityToInt | dateOutOfRange
  | dateNumberTooLarge _ => "OverflowError"
  | undefinedToInt | tooManyDigits _ | tooLongToWrite | tooFewParts _ _ | tooManyParts _
  | unknownUrl _ | notAscii | offsetOutOfRange => "ValueError"
  | listIndex | textIndex | missingGroup _ => "IndexError"
  | file .missing _ => "FileNotFoundError"
  | file .directory _ => "IsADirectoryError"
  | file .notDirectory _ => "NotADirectoryError"
  | file .present _ => "FileExistsError"
  | unsupportedProtocol _ => "UnsupportedProtocol"
  | pattern _ => "error"
  | json _ => "JSONDecodeError"
  | markup label _ => label
  | remote _ => "URLError"
  | system label _ _ => label
  | http _ _ => "HTTPError"
  | base64 _ => "Error"
  | undecodable _ _ _ _ => "UnicodeDecodeError"
  | timedOut _ => "Exception"
  | noPackage _ => "ModuleNotFoundError"
  | unboundName _ => "UnboundLocalError"
  | unreadableDate _ _ => "ParserError"
  | nestedTooDeeply => "RecursionError"

/-- The text of a fault that carries a single text; `none` for the others. -/
def sentence? : Fault → Option String
  | evaluation m => m
  | missingKey _ | missingNumber _ => none
  | noAttribute kind member => s!"'{kind}' object has no attribute '{member}'"
  | noColour layer colour => s!"type object '{layer}' has no attribute '{colour}'"
  | notSubscriptable kind => s!"'{kind}' object is not subscriptable"
  | notIterable kind => s!"'{kind}' object is not iterable"
  | notContainer kind => s!"argument of type '{kind}' is not iterable"
  | unhashable kind => s!"unhashable type: '{kind}'"
  | joinItem index kind => s!"sequence item {index}: expected str instance, {kind} found"
  | attributeName kind => s!"attribute name must be string, not '{kind}'"
  | textResult kind => s!"__str__ returned non-string (type {kind})"
  | noLength kind => s!"object of type '{kind}' has no len()"
  | notCallable kind => s!"'{kind}' object is not callable"
  | notIndexable kind =>
    if kind == "str" then "string indices must be integers, not 'str'"
    else s!"{kind} indices must be integers or slices, not str"
  | notAssignable kind => s!"'{kind}' object does not support item assignment"
  | notComparable relation left right =>
    s!"'{relation}' not supported between instances of '{left}' and '{right}'"
  | notText kind => s!"expected string or bytes-like object, got '{kind}'"
  | mixedParts => "Cannot mix str and non-str arguments"
  | addition left right =>
    if left == "str" || left == "list" then
      s!"can only concatenate {left} (not \"{right}\") to {left}"
    else s!"unsupported operand type(s) for +: '{left}' and '{right}'"
  | noStatement => "cannot unpack non-iterable NoneType object"
  | unrecognized text => "Unrecognized text: " ++ text
  | divisionByZero float => if float then "float division by zero" else "division by zero"
  | intTooLarge => "int too large to convert to float"
  | quotientTooLarge => "integer division result too large for a float"
  | infinityToInt => "cannot convert float infinity to integer"
  | undefinedToInt => "cannot convert float NaN to integer"
  | tooManyDigits count =>
    "Exceeds the limit (4300 digits) for integer string conversion: value has " ++
      s!"{count} digits; use sys.set_int_max_str_digits() to increase the limit"
  | tooLongToWrite =>
    "Exceeds the limit (4300 digits) for integer string conversion; " ++
      "use sys.set_int_max_str_digits() to increase the limit"
  | tooFewParts wanted got =>
    s!"not enough values to unpack (expected {wanted}, got {got})"
  | tooManyParts wanted => s!"too many values to unpack (expected {wanted})"
  | listIndex => "list index out of range"
  | textIndex => "string index out of range"
  | file _ _ => none
  | unsupportedProtocol name => "Unsupported " ++ name
  | pattern m => m
  | missingGroup name => "unknown group name " ++ Text.quoted name
  | json m => m
  | markup _ m => m
  | remote reason => reason
  | system _ _ _ => none
  | http _ _ => none
  | unknownUrl url => "unknown url type: " ++ Text.quoted url
  | base64 m => m
  | notAscii => "string argument should contain only ASCII characters"
  | undecodable _ _ _ _ => none
  | timedOut limit => s!"Call timed out after {limit} seconds"
  | noPackage name => s!"No module named '{name}'"
  | unboundName name =>
    s!"cannot access local variable '{name}' where it is not associated with a value"
  | unreadableDate _ _ => none
  | dateOutOfRange => "date value out of range"
  | offsetOutOfRange =>
    "offset must be a timedelta strictly between -timedelta(hours=24) and timedelta(hours=24)."
  | dateNumberTooLarge short =>
    if short then "signed integer is greater than maximum"
    else "Python int too large to convert to C long"
  | nestedTooDeeply => "maximum recursion depth exceeded"

/-- The items that a fault carries. -/
def particulars (f : Fault) : List Particular :=
  match f with
  | missingKey key => [.text key]
  | missingNumber key => [.number key]
  | file fault _ => [.number (fileNumber fault), .text (fileSentence fault)]
  | undecodable bytes start stop reason =>
    [.text "utf-8", .bytes bytes, .number start, .number stop, .text reason]
  | unreadableDate problem text => [.text (problem ++ ": %s"), .text text]
  | http _ _ => []
  | system _ items _ => items
  | f =>
    match f.sentence? with
    | some s => [.text s]
    | none => []

/-- The text of a fault. -/
def message (f : Fault) : String :=
  match f with
  | missingKey key => Text.quoted key
  | missingNumber key => toString key
  | file fault path =>
    s!"[Errno {fileNumber fault}] {fileSentence fault}: " ++ Text.quoted path
  | remote reason => s!"<urlopen error {reason}>"
  | http code reason => s!"HTTP Error {code}: {reason}"
  | system _ _ message => message
  | undecodable bytes start stop reason =>
    if stop = start + 1 then
      let byte := (bytes[start]?).getD 0
      "'utf-8' codec can't decode byte 0x" ++ String.ofList (Text.hexDigits 2 byte.toNat) ++
        s!" in position {start}: {reason}"
    else
      let last := stop - 1
      s!"'utf-8' codec can't decode bytes in position {start}-{last}: {reason}"
  | unreadableDate problem text => s!"{problem}: {text}"
  | f => f.sentence?.getD ""

/-- A fault as a failed remote call reports it. -/
def shown (f : Fault) : String :=
  match f with
  | http code reason => s!"<HTTPError {code}: " ++ Text.quoted reason ++ ">"
  | f => f.label ++ "(" ++ String.intercalate ", " (f.particulars.map Particular.shown) ++ ")"

/-- The first item that is no text, with its position. -/
def firstOther : Nat → List Particular → Option (Nat × String)
  | _, [] => none
  | i, .text _ :: rest => firstOther (i + 1) rest
  | i, p :: _ => some (i, p.kind)

/-- The texts that a fault carries with spaces between them. Only texts can be joined: a fault
that carries anything else fails again here. -/
def joined (f : Fault) : Except Fault String :=
  match firstOther 0 f.particulars with
  | some (i, kind) => .error (.joinItem i kind)
  | none =>
    .ok (String.intercalate " " (f.particulars.filterMap fun
      | .text s => some s
      | _ => none))

end Fault

end Parley
