import SmallScheme.Text.DecimalDigit
import SmallScheme.Text.Quoted

/-
Module: SmallScheme.CommandLine.Arguments
Purpose: The arguments of the command. Options stand before the program file; everything behind the file belongs to the
  program. Long options may be shortened as long as they stay unique, short ones may share a dash. A double dash
  ends the options and vanishes, before the file or directly behind it. An argument that starts with a dash is no
  option if it is the dash alone, a negative number, or holds a blank.
Main exports: Flag, Word, classify, Request, Invocation, parseArguments
-/

namespace SmallScheme.CommandLine

/-- The options. -/
inductive Flag where
  | help | noPrelude | verbose
deriving DecidableEq, Repr, Inhabited

/-- The spellings of the options, in the order in which they are listed. -/
def spellings : List (List Char × Flag) :=
  [("-h".toList, .help), ("--help".toList, .help), ("--no-prelude".toList, .noPrelude),
    ("-v".toList, .verbose), ("--verbose".toList, .verbose)]

/-- How an option is called in a message: all its spellings. -/
def Flag.label (f : Flag) : String :=
  "/".intercalate ((spellings.filter (·.2 == f)).map (String.ofList ·.1))

/-- The option with exactly this spelling. -/
def Flag.ofSpelling? (cs : List Char) : Option Flag :=
  spellings.lookup cs

/-- What an argument is, seen by itself. -/
inductive Word where
  /-- No option. -/
  | plain
  /-- An option, written long or short, perhaps with text attached: behind an equals sign, or directly behind
      a short one. -/
  | option (flag : Flag) (long : Bool) (attached? : Option (List Char))
  /-- It looks like an option, but there is none of this name. -/
  | unknown
deriving DecidableEq, Repr, Inhabited

/-- The parts of an argument before and behind its first equals sign. -/
def splitEquals (arg : List Char) : List Char × Option (List Char) :=
  match arg.dropWhile (· != '=') with
  | [] => (arg, none)
  | _ :: text => (arg.takeWhile (· != '='), some text)

/-- An argument without the line feed that it may end with. -/
def dropLineFeed (arg : List Char) : List Char :=
  if arg.getLast? = some '\n' then arg.dropLast else arg

/-- Whether an argument is a minus sign before digits, with a decimal point among or before them at most. A line feed
    may follow. -/
def isNegativeNumber (arg : List Char) : Bool :=
  let decimal (c : Char) : Bool := (Text.decimalValue? c).isSome
  match dropLineFeed arg with
  | '-' :: cs =>
    match cs.dropWhile decimal with
    | [] => !cs.isEmpty
    | '.' :: places => !places.isEmpty && places.all decimal
    | _ => false
  | _ => false

/-- An argument that starts with two dashes: the long options it may abbreviate. -/
def abbreviated (arg : List Char) : List (List Char × Flag) × Option (List Char) :=
  let (stem, attached?) := splitEquals arg
  (spellings.filter fun spelling => stem.isPrefixOf spelling.1, attached?)

/-- What an argument that starts with a dash is if it is no option. -/
def classifyOther (arg : List Char) : Word :=
  if isNegativeNumber arg || arg.contains ' ' then .plain else .unknown

/-- What an argument is, or a message if it abbreviates several options. -/
def classify (arg : List Char) : Except String Word :=
  match arg with
  | '-' :: second :: rest =>
    match Flag.ofSpelling? arg with
    | some flag => .ok (.option flag (second == '-') none)
    | none =>
      let (stem, attached?) := splitEquals arg
      match attached?.bind fun _ => Flag.ofSpelling? stem with
      | some flag => .ok (.option flag (second == '-') attached?)
      | none =>
        if second = '-' then
          match abbreviated arg with
          | ([], _) => .ok (classifyOther arg)
          | ([(_, flag)], attached?) => .ok (.option flag true attached?)
          | (several, _) =>
            .error ("ambiguous option: " ++ String.ofList arg ++ " could match "
              ++ ", ".intercalate (several.map (String.ofList ·.1)))
        else
          match Flag.ofSpelling? ['-', second] with
          | some flag => .ok (.option flag false (some rest))
          | none => .ok (classifyOther arg)
  | _ => .ok .plain

/-- The message for text attached to an option, none of which takes any. -/
def attachmentRefused (flag : Flag) (text : List Char) : String :=
  "argument " ++ flag.label ++ ": ignored explicit argument " ++ String.ofList (Text.quoted text)

/-- The options in an argument that starts with a short one and goes on: every further character must be a short
    option. A refusal is put to the last option before the character that is none, and names all from there on. -/
def cluster (flag : Flag) : List Char → Except String (List Flag)
  | [] => .ok [flag]
  | c :: rest =>
    match Flag.ofSpelling? ['-', c] with
    | none => .error (attachmentRefused flag (c :: rest))
    | some next => (cluster next rest).map (flag :: ·)

/-- The options that an argument gives. A long option takes no text, not even an empty one behind an equals sign, and a
    short one takes further short options only. -/
def optionsIn (flag : Flag) (long : Bool) : Option (List Char) → Except String (List Flag)
  | none => .ok [flag]
  | some text =>
    if long || text.isEmpty then .error (attachmentRefused flag text) else cluster flag text

/-- What a run is asked to do. -/
structure Invocation where
  verbose : Bool := false
  prelude : Bool := true
  file? : Option String := none
  args : List String := []
deriving DecidableEq, Repr, Inhabited

/-- What the arguments ask for. -/
inductive Request where
  /-- Running a program, or the interactive loop. -/
  | run (invocation : Invocation)
  /-- The help text. -/
  | help
  /-- Nothing that can be done, with a message. -/
  | wrong (message : String)
deriving DecidableEq, Repr, Inhabited

/-- The invocation with some options set. -/
def Invocation.set (i : Invocation) (flags : List Flag) : Invocation :=
  { i with
    verbose := i.verbose || flags.contains .verbose
    prelude := i.prelude && !flags.contains .noPrelude }

/-- The request of a complete invocation, given the options that were not known. -/
def conclude (i : Invocation) (unknown : List String) : Request :=
  if unknown.isEmpty then .run i
  else .wrong ("unrecognized arguments: " ++ " ".intercalate unknown)

/-- Takes the arguments one by one up to the file; those behind it are taken as they are. -/
def takeArguments (i : Invocation) (unknown : List String) : List String → Request
  | [] => conclude i unknown
  | arg :: args =>
    if arg = "--" then
      conclude { i with file? := args.head?, args := args.tail } unknown
    else match classify arg.toList with
      | .error message => .wrong message
      | .ok .plain =>
        let args := if args.head? = some "--" then args.tail else args
        conclude { i with file? := some arg, args } unknown
      | .ok .unknown => takeArguments i (unknown ++ [arg]) args
      | .ok (.option flag long attached?) =>
        match optionsIn flag long attached? with
        | .error message => .wrong message
        | .ok flags =>
          if flags.contains .help then .help else takeArguments (i.set flags) unknown args

/-- The first argument before any double dash that abbreviates several options is reported before anything else is
    looked at, even behind the file. -/
def ambiguity? (args : List String) : Option String :=
  (args.takeWhile (· != "--")).findSome? fun arg =>
    match classify arg.toList with
    | .error message => some message
    | .ok _ => none

/-- What the arguments ask for. -/
def parseArguments (args : List String) : Request :=
  match ambiguity? args with
  | some message => .wrong message
  | none => takeArguments {} [] args

end SmallScheme.CommandLine
