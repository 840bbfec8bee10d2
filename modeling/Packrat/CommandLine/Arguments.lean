/-!
# Arguments

The arguments of a command: a verb, the path of a grammar, possibly the path of a source, and
options anywhere between them. Every verb takes every option. Options with a value take it from
behind an equals sign or from the next argument, which must not look like an option itself; behind
`--` nothing is an option any more.
-/

namespace Packrat

namespace CommandLine

/-- What is to be done. -/
inductive Verb where
  | check
  | dump
  | parse
  | trace
  deriving Repr, DecidableEq

/-- The verb of a name. -/
def Verb.ofName? : String → Option Verb
  | "check" => some .check
  | "dump" => some .dump
  | "parse" => some .parse
  | "trace" => some .trace
  | _ => none

/-- When output is coloured. -/
inductive Coloring where
  | auto
  | always
  | never
  deriving Repr, DecidableEq

/-- The choice of a name. -/
def Coloring.ofName? : String → Option Coloring
  | "auto" => some .auto
  | "always" => some .always
  | "never" => some .never
  | _ => none

/-- Why arguments are refused. -/
inductive ArgumentError where
  | missingVerb
  | unknownVerb (name : String)
  | unknownOption (name : String)
  | repeatedOption (name : String)
  | missingValue (name : String)
  | unwantedValue (name : String)
  | badValue (name value : String)
  | tooManyPaths (path : String)
  | missingGrammar
  deriving Repr, DecidableEq

namespace ArgumentError

/-- The error in words. -/
def message : ArgumentError → String
  | missingVerb => "a command is required: check, dump, parse or trace"
  | unknownVerb name => "unknown command " ++ name
  | unknownOption name => "unknown option " ++ name
  | repeatedOption name => name ++ " cannot be used more than once"
  | missingValue name => name ++ " needs a value"
  | unwantedValue name => name ++ " takes no value"
  | badValue name value => "bad value for " ++ name ++ ": " ++ value
  | tooManyPaths path => "unexpected argument " ++ path
  | missingGrammar => "the path of a grammar is required"

end ArgumentError

/-- What was asked for. -/
structure Request where
  verb : Verb
  grammarPath : String
  sourcePath : Option String := none
  sourceText : Option String := none
  start : Option String := none
  sync : List String := []
  json : Bool := false
  spans : Bool := false
  trivia : Bool := false
  strict : Bool := false
  verbose : Nat := 0
  fuel : Option Nat := none
  coloring : Coloring := .auto
  deriving Repr, DecidableEq

/-- The options that take a value. -/
inductive ValueOption where
  | source
  | start
  | sync
  | fuel
  | color
  deriving Repr, DecidableEq

/-- The options that take none and stand at most once. -/
inductive FlagOption where
  | json
  | spans
  | trivia
  | strict
  deriving Repr, DecidableEq

/-- The long names of the options that take a value. -/
def ValueOption.ofName? : String → Option ValueOption
  | "source" => some .source
  | "start" => some .start
  | "sync" => some .sync
  | "fuel" => some .fuel
  | "color" => some .color
  | _ => none

/-- An option as it is written. -/
def ValueOption.name : ValueOption → String
  | source => "--source"
  | start => "--start"
  | sync => "--sync"
  | fuel => "--fuel"
  | color => "--color"

/-- The names of the options that take no value. -/
def FlagOption.ofName? : String → Option FlagOption
  | "json" => some .json
  | "spans" => some .spans
  | "trivia" => some .trivia
  | "strict" => some .strict
  | _ => none

/-- The arguments that were read so far. -/
structure Reading where
  paths : List String := []
  values : List (ValueOption × String) := []
  flags : List FlagOption := []
  verbose : Nat := 0
  /-- The option whose value is the next argument. -/
  pending : Option ValueOption := none
  /-- Whether nothing is an option any more. -/
  pathsOnly : Bool := false

/-- The number that decimal digits with or without a sign spell, if it fits 32 bits. -/
def wordOf? (text : String) : Option Nat :=
  let (negative, digits) :=
    match text.toList with
    | '+' :: digits => (false, digits)
    | '-' :: digits => (true, digits)
    | digits => (false, digits)
  if digits.isEmpty || !digits.all Char.isDigit then none
  else
    let n := digits.foldl (fun n c => 10 * n + (c.toNat - '0'.toNat)) 0
    if n < UInt32.size && (!negative || n = 0) then some n else none

/-- Whether a value is one that an option takes. -/
def ValueOption.accepts (option : ValueOption) (value : String) : Bool :=
  match option with
  | fuel => (wordOf? value).isSome
  | color => (Coloring.ofName? value).isSome
  | _ => true

namespace Reading

/-- Takes the value of an option. Only tokens to stop at may be given more than once. -/
def takeValue (r : Reading) (option : ValueOption) (value : String) :
    Except ArgumentError Reading :=
  if option ≠ .sync && r.values.any (·.1 == option) then .error (.repeatedOption option.name)
  else if option.accepts value then
    .ok { r with values := r.values ++ [(option, value)], pending := none }
  else .error (.badValue option.name value)

/-- Takes an option that has a long name. -/
def takeLong (r : Reading) (name : String) (value : Option String) :
    Except ArgumentError Reading :=
  match ValueOption.ofName? name, FlagOption.ofName? name with
  | some option, _ =>
    match value with
    | some value => r.takeValue option value
    | none => .ok { r with pending := some option }
  | none, some flag =>
    if value.isSome then .error (.unwantedValue ("--" ++ name))
    else if r.flags.contains flag then .error (.repeatedOption ("--" ++ name))
    else .ok { r with flags := flag :: r.flags }
  | none, none => .error (.unknownOption ("--" ++ name))

/-- Takes options that have short names, one letter after another. -/
def takeShort (r : Reading) : List Char → Except ArgumentError Reading
  | [] => .ok r
  | 'v' :: letters => takeShort { r with verbose := r.verbose + 1 } letters
  | 's' :: [] => .ok { r with pending := some .source }
  | 's' :: '=' :: value => r.takeValue .source (String.ofList value)
  | 's' :: value => r.takeValue .source (String.ofList value)
  | letter :: _ => .error (.unknownOption ("-" ++ String.singleton letter))

/-- Takes the path of a grammar or of a source. -/
def takePath (r : Reading) (path : String) : Except ArgumentError Reading :=
  if 2 ≤ r.paths.length then .error (.tooManyPaths path)
  else if path.isEmpty then .error (.badValue "path" path)
  else .ok { r with paths := r.paths ++ [path] }

/-- The name and the value of an option that is written in one. -/
def splitValue (cs : List Char) : String × Option String :=
  match cs.dropWhile (· != '=') with
  | [] => (String.ofList cs, none)
  | _ :: value => (String.ofList (cs.takeWhile (· != '=')), some (String.ofList value))

/-- Takes an argument. -/
def take (r : Reading) (argument : String) : Except ArgumentError Reading :=
  if r.pathsOnly then r.takePath argument
  else
    match argument.toList, r.pending with
    | '-' :: _ :: _, some option => .error (.missingValue option.name)
    | _, some option => r.takeValue option argument
    | ['-', '-'], none => .ok { r with pathsOnly := true }
    | '-' :: '-' :: cs, none =>
      match splitValue cs with
      | (name, value) => r.takeLong name value
    | '-' :: letter :: letters, none => r.takeShort (letter :: letters)
    | _, none => r.takePath argument

/-- The values of an option, in order. -/
def valuesOf (r : Reading) (option : ValueOption) : List String :=
  (r.values.filter (·.1 == option)).map (·.2)

/-- The request that all arguments make. -/
def request (r : Reading) (verb : Verb) : Except ArgumentError Request :=
  match r.pending, r.paths with
  | some option, _ => .error (.missingValue option.name)
  | none, [] => .error .missingGrammar
  | none, grammarPath :: rest =>
    .ok {
      verb, grammarPath
      sourcePath := rest.head?
      sourceText := (r.valuesOf .source).head?
      start := (r.valuesOf .start).head?
      sync := r.valuesOf .sync
      json := r.flags.contains .json
      spans := r.flags.contains .spans
      trivia := r.flags.contains .trivia
      strict := r.flags.contains .strict
      verbose := r.verbose
      fuel := (r.valuesOf .fuel).head?.bind wordOf?
      coloring := ((r.valuesOf .color).head?.bind Coloring.ofName?).getD .auto }

end Reading

/-- The request that arguments make. -/
def Request.ofArguments : List String → Except ArgumentError Request
  | [] => .error .missingVerb
  | name :: arguments =>
    match Verb.ofName? name with
    | none => .error (.unknownVerb name)
    | some verb => do (← arguments.foldlM Reading.take {}).request verb

end CommandLine

end Packrat
