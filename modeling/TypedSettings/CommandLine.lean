import TypedSettings.CommandLine.Arguments
import TypedSettings.Project

/-!
The command line. It opens the project that its arguments and its configuration file describe,
generates every unit, and says what became of each.
-/

namespace TypedSettings.CommandLine

variable {m : Type → Type} [Monad m]

/-- What a run prints, and the code it ends with. -/
structure Outcome where
  exit : Nat
  output : String := ""
  messages : String := ""
deriving DecidableEq, Repr

/-! ## Fixed texts -/

def programName : String := "prefs-gen"

def versionText : String := programName ++ " 0.1.0\n"

/-- The options with their letters, the name of their value, and what they do. -/
def optionTexts : List (String × String) :=
  [("-s, --source <SOURCE>", "Source root scanned for `*.rs` files [default: src]"),
   ("-o, --output <OUTPUT>", "Output directory for generated units [default: target/prefs-gen]"),
   ("-c, --config <CONFIG>", "Configuration file [default: prefs-gen.toml, if present]"),
   ("-m, --manifest <MANIFESTS>", "Additional external signature manifest (repeatable)"),
   ("    --min-api-level <MIN_API_LEVEL>", "Lowest platform level the generated code must run on"),
   ("    --serializer <SERIALIZER>",
    "Module path of the serializer access point (e.g. prefs_api::serializer)"),
   ("    --dry-run", "Print generated code without writing files"),
   ("-v, --verbose...", "Increase verbosity (-v, -vv, -vvv)"),
   ("-h, --help", "Print help"),
   ("-V, --version", "Print version")]

/-- The texts of the options start in one column. -/
def helpText : String :=
  let width := (optionTexts.map fun o => o.1.length).foldl max 0
  "Generates preference store implementations from annotated accessor traits\n\n"
    ++ "Usage: " ++ programName ++ " [OPTIONS]\n\nOptions:\n"
    ++ String.join (optionTexts.map fun o =>
        "  " ++ o.1.pushn ' ' (width - o.1.length + 2) ++ o.2 ++ "\n")

def Misuse.message : Misuse → String
  | .unexpected arg => "unexpected argument '" ++ arg ++ "' found"
  | .noValue name => "a value is required for '--" ++ name ++ "' but none was supplied"
  | .invalidValue name value => "invalid value '" ++ value ++ "' for '--" ++ name ++ "'"
  | .repeated name => "the argument '--" ++ name ++ "' cannot be used multiple times"

def Stop.outcome : Stop → Outcome
  | .help => { exit := 0, output := helpText }
  | .version => { exit := 0, output := versionText }
  | .misuse fault =>
    { exit := 2
      messages := "error: " ++ fault.message ++ "\n\nUsage: " ++ programName
        ++ " [OPTIONS]\n\nFor more information, try '--help'.\n" }

/-! ## Configuration -/

/-- A configuration as the arguments change it. Manifests are added to it. -/
def Arguments.over (a : Arguments) (c : Config) : Config :=
  { c with
    source := a.source.getD c.source
    output := a.output.getD c.output
    minLevel := a.minLevel <|> c.minLevel
    serializer := a.serializer <|> c.serializer
    manifests := c.manifests ++ a.manifests }

/-- The configuration file that is named, or else the one that is there. -/
def fileConfig (disk : Disk m) (a : Arguments) : m (Except Problem Config) := do
  match a.config with
  | some path => Config.load disk path
  | none =>
    if ← disk.isFile ⟨Config.fileName⟩ then Config.load disk ⟨Config.fileName⟩
    else return .ok {}

/-- The configuration of a run. -/
def resolveConfig (disk : Disk m) (a : Arguments) : m (Except Problem Config) := do
  match ← fileConfig disk a with
  | .error p => return .error p
  | .ok c =>
    let c := a.over c
    return (c.validate.mapError Problem.invalidConfig).map fun _ => c

/-! ## Reports -/

def line (s : String) : String := s ++ "\n"

/-- What is said when more words are asked for. -/
def settingLines (a : Arguments) (c : Config) : String :=
  if a.verbosity = 0 then ""
  else
    line ("Source directory: " ++ c.source.text) ++ line ("Output directory: " ++ c.output.text)
      ++ if a.dryRun then line "Dry run mode - no files will be written" else ""

/-- The text of a unit that is not written. -/
def unitOutput (u : UnitReport) : String :=
  match u.source with
  | some text => line ("=== " ++ u.file.text ++ " ===") ++ line text
  | none => ""

/-- What became of a unit. -/
def unitMessages (u : UnitReport) : String :=
  String.join (u.diagnostics.map fun d => line d.render)
    ++ match u.written with
      | some path => line ("generated " ++ u.root ++ " -> " ++ path.text)
      | none =>
        if u.isComplete then "" else line ("skipped " ++ u.root ++ " (incomplete, not written)")

def summary (b : Batch) : String :=
  line (toString b.units.length ++ " unit(s), " ++ toString b.errorCount ++ " error(s), "
    ++ toString b.warningCount ++ " warning(s)")

/-- What is said at the end of a run. -/
def batchOutcome (dryRun : Bool) (b : Batch) : Outcome :=
  { exit := if b.hasErrors then 1 else 0
    output := if dryRun then String.join (b.units.map unitOutput) else ""
    messages := String.join (b.units.map unitMessages) ++ summary b }

/-- What is said of a problem that ends a run. -/
def problemOutcome (p : Problem) : Outcome :=
  { exit := 1, messages := line ("error: " ++ p.message) }

/-- A fatal fault ends a run at once. -/
def abortOutcome (fault : EmitFault) : Outcome := { exit := 101, messages := line fault.message }

def Outcome.after (o : Outcome) (messages : String) : Outcome :=
  { o with messages := messages ++ o.messages }

/-! ## Runs -/

/-- Generates the units of a project. -/
def generate (disk : Disk m) (dryRun : Bool) (p : Project) : m Outcome := do
  match ← if dryRun then pure p.dryRun else p.run disk with
  | .ok b => return batchOutcome dryRun b
  | .error fault => return abortOutcome fault

/-- A run with arguments that have been read. -/
def runWith (disk : Disk m) (a : Arguments) : m Outcome := do
  match ← resolveConfig disk a with
  | .error p => return problemOutcome p
  | .ok c =>
    match ← Project.ofConfig disk c with
    | .error p => return (problemOutcome p).after (settingLines a c)
    | .ok p => return (← generate disk a.dryRun p).after (settingLines a c)

/-- A run of the program. -/
def run (disk : Disk m) (args : List String) : m Outcome :=
  match Arguments.read args with
  | .error stop => return stop.outcome
  | .ok a => runWith disk a

end TypedSettings.CommandLine
