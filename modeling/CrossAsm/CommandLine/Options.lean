import CrossAsm.Log
import CrossAsm.Text.Plain

/-!
Command line arguments. An option's value may stand in the next argument or be attached; short
flags may share one dash; after two dashes everything is a source.
-/

namespace CrossAsm.CommandLine

/-- The options that take a value. -/
inductive ValueOption where
  | output | listing | basic | logLevel
deriving DecidableEq

namespace ValueOption

def long : ValueOption → String
  | output => "output" | listing => "listing" | basic => "basic" | logLevel => "log-level"

def shown : ValueOption → String
  | output => "--output <OUTPUT>"
  | listing => "--listing <LISTING>"
  | basic => "--basic <BASIC>"
  | logLevel => "--log-level <LOG_LEVEL>"

def ofShort? : Char → Option ValueOption
  | 'o' => some output | 'l' => some listing | 'b' => some basic | _ => none

def ofLong? (name : String) : Option ValueOption :=
  [output, listing, basic, logLevel].find? (·.long = name)

end ValueOption

/-- The options that take none. -/
inductive Flag where
  | plain | verbose | help | version
deriving DecidableEq

namespace Flag

def long : Flag → String
  | plain => "plain" | verbose => "verbose" | help => "help" | version => "version"

def shown (f : Flag) : String := "--" ++ f.long

def ofShort? : Char → Option Flag
  | 'v' => some verbose | 'h' => some help | 'V' => some version | _ => none

def ofLong? (name : String) : Option Flag :=
  [plain, verbose, help, version].find? (·.long = name)

end Flag

inductive UsageError where
  | missingSource
  | unexpected (argument : String)
  | valueRequired (option : String)
  | repeated (option : String)
  | unneededValue (value option : String)
  | invalidLevel (value : String)

/-- What is wrong, with the arguments as they would be shown. -/
def UsageError.message : UsageError → String
  | missingSource => "error: the following required arguments were not provided:"
  | unexpected argument => "error: unexpected argument '" ++ Text.plain argument ++ "' found"
  | valueRequired option => "error: a value is required for '" ++ option
      ++ "' but none was supplied"
  | repeated option => "error: the argument '" ++ option ++ "' cannot be used multiple times"
  | unneededValue value option => "error: unexpected value '" ++ Text.plain value ++ "' for '"
      ++ option ++ "' found; no more were expected"
  | invalidLevel value => "error: invalid value '" ++ Text.plain value ++ "' for '"
      ++ ValueOption.logLevel.shown ++ "': error parsing level: expected one of \"error\", "
      ++ "\"warn\", \"info\", \"debug\", \"trace\", or a number 1-5"

structure Options where
  source : String
  output : Option String
  listing : Option String
  basic : Option String
  plain : Bool
  verbose : Bool
  logLevel : Level

/-- What the arguments ask for. -/
inductive Request where
  | assemble (options : Options)
  | help
  | version

/-- A level by its rank, perhaps with a sign or zeros in front, or by its name. -/
def level? (text : String) : Option Level :=
  let digits := match text.toList with
    | '+' :: rest => rest
    | all => all
  if !digits.isEmpty && digits.all Char.isDigit then
    Level.all.find? (·.rank = Numeral.read 10 digits)
  else Level.all.find? (·.name = text.toUpper)

/-- A value that waits to be taken: of an option, which may still lack it, or of the source. -/
inductive Pending where
  | option (o : ValueOption) (value : Option String)
  | source (path : String)

/-- What the arguments so far have set. -/
structure Parsed where
  source : Option String
  output : Option String
  listing : Option String
  basic : Option String
  logLevel : Option Level
  plain : Bool
  verbose : Bool
  pending : Option Pending
  /-- Whether two dashes have been seen. -/
  trailing : Bool
  /-- Whether a second source would be one too many. -/
  sourceSeen : Bool

namespace Parsed

def start : Parsed := ⟨none, none, none, none, none, false, false, none, false, false⟩

/-- A value that may be set once, to something that is not empty. -/
def setPath (shown : String) (old : Option String) (value : String) : Except UsageError String :=
  if old.isSome then .error (.repeated shown)
  else if value = "" then .error (.valueRequired shown)
  else .ok value

def setValue (p : Parsed) (o : ValueOption) (value : String) : Except UsageError Parsed :=
  match o with
  | .output => (setPath o.shown p.output value).map fun v => { p with output := some v }
  | .listing => (setPath o.shown p.listing value).map fun v => { p with listing := some v }
  | .basic => (setPath o.shown p.basic value).map fun v => { p with basic := some v }
  | .logLevel =>
    if p.logLevel.isSome then .error (.repeated o.shown)
    else match level? value with
      | some l => .ok { p with logLevel := some l }
      | none => .error (.invalidLevel value)

/-- Takes the value that waits. -/
def settle (p : Parsed) : Except UsageError Parsed :=
  let q := { p with pending := none }
  match p.pending with
  | none => .ok q
  | some (.option o none) => .error (.valueRequired o.shown)
  | some (.option o (some value)) => q.setValue o value
  | some (.source path) =>
    (setPath "<SOURCE>" none path).map fun path => { q with source := some path }

end Parsed

/-- How far a run over the arguments has come: still going, or asked for something else. -/
inductive Progress where
  | going (p : Parsed)
  | done (r : Request)

def applyFlag (p : Parsed) (f : Flag) : Except UsageError Progress := do
  let p ← p.settle
  match f with
  | .plain =>
    if p.plain then .error (.repeated f.shown) else .ok (.going { p with plain := true })
  | .verbose =>
    if p.verbose then .error (.repeated f.shown) else .ok (.going { p with verbose := true })
  | .help => .ok (.done .help)
  | .version => .ok (.done .version)

/-- An option with its attached value, or one that waits for the next argument. -/
def applyOption (p : Parsed) (o : ValueOption) (attached : Option String) :
    Except UsageError Progress := do
  let p ← p.settle
  match attached with
  | some value => return .going (← p.setValue o value)
  | none => return .going { p with pending := some (.option o none) }

/-- The characters after a single dash. -/
def applyShort : Parsed → List Char → Except UsageError Progress
  | p, [] => .ok (.going p)
  | p, c :: rest =>
    match Flag.ofShort? c, ValueOption.ofShort? c with
    | some f, _ =>
      match applyFlag p f with
      | .ok (.going p) => applyShort p rest
      | other => other
    | none, some o =>
      match rest with
      | [] => applyOption p o none
      | '=' :: value => applyOption p o (some (String.ofList value))
      | value => applyOption p o (some (String.ofList value))
    | none, none => .error (.unexpected ("-" ++ String.singleton c))

/-- The characters after two dashes. -/
def applyLong (p : Parsed) (text : List Char) : Except UsageError Progress :=
  let (name, rest) := text.span (· ≠ '=')
  let name := String.ofList name
  let attached := match rest with
    | [] => none
    | _ :: value => some (String.ofList value)
  match Flag.ofLong? name, ValueOption.ofLong? name, attached with
  | some f, _, none => applyFlag p f
  | some f, _, some value => .error (.unneededValue value f.shown)
  | none, some o, _ => applyOption p o attached
  | none, none, _ => .error (.unexpected ("--" ++ name))

def applySource (p : Parsed) (argument : String) : Except UsageError Progress :=
  if p.sourceSeen then .error (.unexpected argument)
  else do
    let p ← p.settle
    return .going { p with pending := some (.source argument), sourceSeen := true }

/-- An argument that is no option: the value that an option waits for, or the source. -/
def applyPlain (p : Parsed) (argument : String) : Except UsageError Progress :=
  match p.pending with
  | some (.option o none) => .ok (.going { p with pending := some (.option o (some argument)) })
  | _ => applySource p argument

def apply (p : Parsed) (argument : String) : Except UsageError Progress :=
  if p.trailing then applySource p argument
  else
    match argument.toList with
    | ['-', '-'] => .ok (.going { p with trailing := true })
    | '-' :: '-' :: text => applyLong p text
    | '-' :: c :: text => applyShort p (c :: text)
    | _ => applyPlain p argument

def finish (p : Parsed) : Except UsageError Request := do
  let p ← p.settle
  match p.source with
  | none => .error .missingSource
  | some source =>
    .ok (.assemble ⟨source, p.output, p.listing, p.basic, p.plain, p.verbose,
      p.logLevel.getD .warn⟩)

def parseFrom : Parsed → List String → Except UsageError Request
  | p, [] => finish p
  | p, argument :: rest =>
    match apply p argument with
    | .error e => .error e
    | .ok (.done r) => .ok r
    | .ok (.going p) => parseFrom p rest

/-- Reads the arguments of the program. -/
def parse (arguments : List String) : Except UsageError Request := parseFrom .start arguments

end CrossAsm.CommandLine
