import PocketCalculator.Calculation.Basic

/-!
# Command-line arguments

The arguments of the calculator are expressions and options. An option has a long name after two
dashes, a short one after a single dash, or both; short names may share a dash. Some options have
a value: the argument after the option, or what follows the name in the same argument, with an
equals sign between them that a short name does not require.

Everything after an argument that is two dashes is an expression. A single dash is one, too.

The arguments are read from front to back. The first one that asks for the version or for help,
or that cannot be read, decides.
-/

namespace PocketCalculator

/-! ## Options -/

/-- An option without a value. -/
inductive Switch
  | copy
  | help
  | version
deriving DecidableEq

/-- An option with a value. -/
inductive Parameter
  | keys
  | config
  | precision
deriving DecidableEq

def Switch.name : Switch → Text
  | copy => "copy".toList
  | help => "help".toList
  | version => "version".toList

def Parameter.name : Parameter → Text
  | keys => "keys".toList
  | config => "config".toList
  | precision => "precision".toList

def longOptions : List (Text × (Switch ⊕ Parameter)) :=
  [Parameter.keys, .config, .precision].map (fun option ↦ (option.name, .inr option)) ++
    [Switch.copy, .help, .version].map fun option ↦ (option.name, .inl option)

def shortOptions : List (Char × (Switch ⊕ Parameter)) :=
  [('k', .inr .keys), ('c', .inl .copy), ('h', .inl .help), ('V', .inl .version)]

/-! ## Requests -/

/-- What the arguments ask for. -/
structure Request where
  /-- Expressions to calculate. -/
  expressions : List Text := []
  /-- Keys to replay. -/
  keys : Option Text := none
  /-- Whether to put the last result on the clipboard. -/
  copy : Bool := false
  /-- The file with the settings. -/
  config : Option Text := none
  /-- The number of decimal places, in place of the one in the settings. -/
  precision : Option Nat := none
deriving DecidableEq

/-- Why arguments cannot be read. -/
inductive UsageError
  /-- There is no option of this name. -/
  | unknownOption (name : Text)
  /-- An option without a value was given one. -/
  | unexpectedValue (option : Switch)
  /-- An option was given no value. -/
  | missingValue (option : Parameter)
  /-- An option was given twice. -/
  | repeated (option : Switch ⊕ Parameter)
  /-- A value is none that the option can have. -/
  | invalidValue (option : Parameter) (value : Text)
deriving DecidableEq

def UsageError.message : UsageError → Text
  | unknownOption name => "unexpected argument '".toList ++ name ++ "' found".toList
  | unexpectedValue option => "unexpected value for '--".toList ++ option.name ++ ['\'']
  | missingValue option => "a value is required for '--".toList ++ option.name ++ ['\'']
  | repeated (.inl option) => "'--".toList ++ option.name ++ "' is given more than once".toList
  | repeated (.inr option) => "'--".toList ++ option.name ++ "' is given more than once".toList
  | invalidValue option value =>
    "invalid value '".toList ++ value ++ "' for '--".toList ++ option.name ++ ['\'']

/-- What ends the reading of arguments early. -/
inductive EarlyEnd
  | help
  | version
  | usage (error : UsageError)
deriving DecidableEq

/-! ## Values -/

/-- A whole number in decimal digits with an optional sign. -/
def readWhole? (text : Text) : Option Int :=
  let (negative, digits) := takeSign text
  if !digits.isEmpty && digits.all Char.isDigit then
    some (if negative then -digitsValue digits else digitsValue digits)
  else none

def readPrecision? (text : Text) : Option Nat :=
  (readWhole? text).bind fun n ↦ if 0 ≤ n && n < placesBound then some n.toNat else none

namespace Request

def set (request : Request) (option : Parameter) (value : Text) : Except EarlyEnd Request :=
  match option with
  | .keys =>
    if request.keys.isSome then .error (.usage (.repeated (.inr .keys)))
    else .ok { request with keys := some value }
  | .config =>
    if value.isEmpty then .error (.usage (.invalidValue .config value))
    else if request.config.isSome then .error (.usage (.repeated (.inr .config)))
    else .ok { request with config := some value }
  | .precision =>
    match readPrecision? value with
    | none => .error (.usage (.invalidValue .precision value))
    | some n =>
      if request.precision.isSome then .error (.usage (.repeated (.inr .precision)))
      else .ok { request with precision := some n }

def switchOn (request : Request) : Switch → Except EarlyEnd Request
  | .copy =>
    if request.copy then .error (.usage (.repeated (.inl .copy)))
    else .ok { request with copy := true }
  | .help => .error .help
  | .version => .error .version

end Request

/-! ## Reading -/

/-- The arguments as far as they are read. -/
structure Reading where
  /-- What they ask for. -/
  request : Request := {}
  /-- The option whose value the next argument is. -/
  pending : Option Parameter := none
  /-- Whether all that follows is an expression. -/
  onlyExpressions : Bool := false

/-- Whether an argument is taken for options: it begins with a dash and is more than that. -/
def isOption : Text → Bool
  | '-' :: _ :: _ => true
  | _ => false

namespace Reading

def addExpression (reading : Reading) (text : Text) : Reading :=
  { reading with
    request := { reading.request with expressions := reading.request.expressions ++ [text] } }

def set (reading : Reading) (option : Parameter) (value : Text) : Except EarlyEnd Reading :=
  match reading.request.set option value with
  | .ok request => .ok { reading with request, pending := none }
  | .error early => .error early

def switchOn (reading : Reading) (option : Switch) : Except EarlyEnd Reading :=
  match reading.request.switchOn option with
  | .ok request => .ok { reading with request }
  | .error early => .error early

/-- An option by its long name, with its value if there is an equals sign. -/
def readLong (reading : Reading) (text : Text) : Except EarlyEnd Reading :=
  let name := text.takeWhile (· ≠ '=')
  let value := (text.dropWhile (· ≠ '=')).tail?
  match longOptions.lookup name, value with
  | none, _ => .error (.usage (.unknownOption name))
  | some (.inl option), none => reading.switchOn option
  | some (.inl option), some _ => .error (.usage (.unexpectedValue option))
  | some (.inr option), some value => reading.set option value
  | some (.inr option), none => .ok { reading with pending := some option }

/-- A text without the equals sign it may start with. -/
def dropEquals : Text → Text
  | '=' :: rest => rest
  | text => text

/-- Options by their short names. What follows the name of one with a value is the value. -/
def readShort (reading : Reading) : Text → Except EarlyEnd Reading
  | [] => .ok reading
  | c :: rest =>
    match shortOptions.lookup c with
    | none => .error (.usage (.unknownOption [c]))
    | some (.inl option) =>
      match reading.switchOn option with
      | .ok reading => readShort reading rest
      | .error early => .error early
    | some (.inr option) =>
      if rest.isEmpty then .ok { reading with pending := some option }
      else reading.set option (dropEquals rest)

def readArgument (reading : Reading) (text : Text) : Except EarlyEnd Reading :=
  if reading.onlyExpressions then .ok (reading.addExpression text)
  else
    match reading.pending with
    | some option =>
      if isOption text then .error (.usage (.missingValue option))
      else reading.set option text
    | none =>
      match text with
      | ['-', '-'] => .ok { reading with onlyExpressions := true }
      | '-' :: '-' :: name => reading.readLong name
      | '-' :: c :: rest => reading.readShort (c :: rest)
      | expression => .ok (reading.addExpression expression)

/-- The rest of the arguments. -/
def readArguments (reading : Reading) : List Text → Except EarlyEnd Request
  | [] =>
    match reading.pending with
    | some option => .error (.usage (.missingValue option))
    | none => .ok reading.request
  | text :: rest =>
    match reading.readArgument text with
    | .ok reading => readArguments reading rest
    | .error early => .error early

end Reading

def Request.ofArguments (arguments : List Text) : Except EarlyEnd Request :=
  Reading.readArguments {} arguments

end PocketCalculator
