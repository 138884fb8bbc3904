import CrossAsm.Assembly
import CrossAsm.CommandLine.Options
import CrossAsm.FileSystem
import CrossAsm.Loader
import CrossAsm.Output
import CrossAsm.Report
import CrossAsm.Text.Quoted

/-!
What the program does once its arguments are read. It runs in any monad that has files and two
streams for text.
-/

namespace CrossAsm.CommandLine

structure Host (m : Type → Type) where
  read : String → m (Except FileFailure (List UInt8))
  write : String → List UInt8 → m (Except FileFailure Unit)
  out : String → m Unit
  err : String → m Unit
  /-- Whether reports may be coloured. -/
  color : Bool

def programName : String := "asm6502"

def versionText : String := "0.1.0"

def fieldText : FieldValue → String
  | .number n => Numeral.decimal n
  | .string s => Text.quote s
  | .display s => s

/-- An event as a line of the log. -/
def eventText (e : Event) : String :=
  e.level.name ++ " " ++ e.message
    ++ String.join (e.fields.map fun (name, value) => " " ++ name ++ "=" ++ fieldText value) ++ "\n"

/-- Exit codes. -/
def succeeded : UInt32 := 0
def faultsFound : UInt32 := 1
def badUsage : UInt32 := 2
def readFailed : UInt32 := 3
def writeFailed : UInt32 := 4

variable {m : Type → Type} [Monad m]

def logEvents (host : Host m) (level : Level) (events : List Event) : m Unit :=
  (events.filter fun e => e.level.rank ≤ level.rank).forM fun e => host.err (eventText e)

/-- Writes bytes to a file and gives the exit code of a failure. -/
def writeBytes (host : Host m) (path : String) (bytes : List UInt8) : m (Option UInt32) := do
  match ← host.write path bytes with
  | .ok () => return none
  | .error failure =>
    host.err ("Error: Cannot write " ++ path ++ ": " ++ failure.message ++ "\n")
    return some writeFailed

/-- Writes text to a file, or to standard output if the path is a dash. -/
def writeText (host : Host m) (path text : String) : m (Option UInt32) := do
  if Path.isStandard path then
    host.out text
    return none
  else writeBytes host path text.toUTF8.data.toList

/-- Writes the program in the format of the output path. -/
def writeOutput (host : Host m) (options : Options) (assembly : Assembly) (path : String)
    (format : OutputFormat) : m (Option UInt32) := do
  if options.verbose then host.out ("Writing " ++ path ++ "...\n")
  logEvents host options.logLevel (Memory.imageEvents assembly.blocks)
  let name := (Path.stem? options.source).getD "PROGRAM"
  match Output.contents (Memory.image assembly.blocks) format name with
  | .ok (bytes, events) =>
    logEvents host options.logLevel events
    writeBytes host path bytes
  | .error failure =>
    host.err ("Error: Cannot write " ++ path ++ ": " ++ failure.message ++ "\n")
    return some writeFailed

/-- The listing of a program, followed by its symbols if it has any. -/
def listingText (assembly : Assembly) : String :=
  Listing.full assembly.codeLines assembly.blocks
    ++ if assembly.symbols.size = 0 then "" else "\n" ++ Listing.symbols assembly.symbols

/-- Does what the option asks for if it is given, and what comes after it if that succeeds. -/
def whenGiven {α : Type} (option : Option α) (act : α → m (Option UInt32)) (next : m UInt32) :
    m UInt32 :=
  match option with
  | none => next
  | some a => do
    match ← act a with
    | some code => return code
    | none => next

/-- Reports the faults of a source. -/
def reportFaults (host : Host m) (options : Options) (source : String)
    (faults : List Diagnostic) : m UInt32 := do
  faults.forM fun d =>
    host.err (if options.plain then d.summary ++ "\n" else Report.render d source host.color)
  host.err (Numeral.decimal faults.length ++ (if faults.length = 1 then " error" else " errors")
    ++ " found, no output written.\n")
  return faultsFound

/-- Writes everything that is asked for. -/
def writeAll (host : Host m) (options : Options) (output : Option (String × OutputFormat))
    (assembly : Assembly) : m UInt32 :=
  whenGiven output (fun (path, format) => writeOutput host options assembly path format) <|
  whenGiven options.listing (fun path => writeText host path (listingText assembly)) <|
  whenGiven options.basic (fun path => writeText host path (Loader.text assembly.blocks)) do
    if options.verbose then host.out "Done!\n"
    else if let some path := options.output then
      host.out ("Assembled " ++ (Path.fileName? options.source).getD "" ++ " -> " ++ path ++ "\n")
    return succeeded

/-- Assembles the text of the source file. -/
def assembleText (host : Host m) (options : Options) (output : Option (String × OutputFormat))
    (source : String) : m UInt32 := do
  if options.verbose then host.out "Assembling...\n"
  let file := (Path.fileName? options.source).getD unnamedFile
  let result := Assembly.ofNamedSource source file
  logEvents host options.logLevel result.events
  match result.value with
  | .error faults => reportFaults host options source faults
  | .ok assembly =>
    if options.verbose then
      host.out ("Assembled " ++ Numeral.decimal assembly.blocks.length ++ " memory block(s), "
        ++ Numeral.decimal assembly.symbols.size ++ " symbol(s)\n")
    writeAll host options output assembly

def readText (bytes : List UInt8) : Except FileFailure String :=
  match String.fromUTF8? ⟨bytes.toArray⟩ with
  | some text => .ok text
  | none => .error .notText

def assembleFile (host : Host m) (options : Options) (output : Option (String × OutputFormat)) :
    m UInt32 := do
  if options.verbose then
    host.out ("Asm6502 Assembler v" ++ versionText ++ "\n")
    if let some (path, format) := output then
      host.out ("Output: " ++ path ++ " (" ++ format.name ++ ")\n")
    host.out ("Source: " ++ options.source ++ "\n\n")
  match (← host.read options.source).bind readText with
  | .ok source => assembleText host options output source
  | .error failure =>
    host.err ("Error: Cannot read " ++ options.source ++ ": " ++ failure.message ++ "\n")
    return readFailed

/-- Checks that there is something to write, in a known format. -/
def assemble (host : Host m) (options : Options) : m UInt32 := do
  match options.output.map fun path => (path, OutputFormat.ofPath? path) with
  | some (_, none) =>
    host.err "Error: Unknown output format. Use .prg or .d64 extension.\n"
    return badUsage
  | some (path, some format) => assembleFile host options (some (path, format))
  | none =>
    if options.listing.isNone && options.basic.isNone then
      host.err ("Error: Nothing to write. Use -o <file.prg>, -o <file.d64>, -l <file> or "
        ++ "-b <file>.\n")
      return badUsage
    else assembleFile host options none

def helpText : String :=
  "Usage: " ++ programName ++ " [OPTIONS] <SOURCE>\n\n"
    ++ "Options:\n"
    ++ "  -o, --output <OUTPUT>        Output file (.prg or .d64)\n"
    ++ "  -l, --listing <LISTING>      Listing file (- for standard output)\n"
    ++ "  -b, --basic <BASIC>          BASIC loader file (- for standard output)\n"
    ++ "      --plain                  One line for each diagnostic\n"
    ++ "  -v, --verbose                Say what is being done\n"
    ++ "      --log-level <LOG_LEVEL>  error, warn, info, debug, trace, or 1-5\n"
    ++ "  -h, --help                   Print this text\n"
    ++ "  -V, --version                Print the version\n"

/-- Carries out a request and gives the exit code. -/
def run (host : Host m) : Request → m UInt32
  | .assemble options => assemble host options
  | .help => do
    host.out helpText
    return succeeded
  | .version => do
    host.out (programName ++ " " ++ versionText ++ "\n")
    return succeeded

end CrossAsm.CommandLine
