import TypedSettings.FilePath
import TypedSettings.Text.Bits
import TypedSettings.Text.CharClass

/-!
The arguments of the command line. An option is given by its long name or its letter; its value
stands after it, or is attached to it. Letters without values may be joined. Reading goes from the
left and stops at the first misuse, or where help or the version is asked for.
-/

namespace TypedSettings.CommandLine

structure Arguments where
  source : Option FilePath := none
  output : Option FilePath := none
  config : Option FilePath := none
  manifests : List FilePath := []
  minLevel : Option Nat := none
  serializer : Option String := none
  dryRun : Bool := false
  verbosity : Nat := 0
deriving DecidableEq, Repr

/-- An option that takes a value. -/
inductive Setting where
  | source
  | output
  | config
  | manifest
  | minLevel
  | serializer
deriving DecidableEq, Repr

/-- An option without a value. -/
inductive Flag where
  | dryRun
  | verbose
  | help
  | version
deriving DecidableEq, Repr

inductive Switch where
  | setting (s : Setting)
  | flag (f : Flag)
deriving DecidableEq, Repr

/-- Why arguments cannot be taken. -/
inductive Misuse where
  | unexpected (arg : String)
  | noValue (name : String)
  | invalidValue (name value : String)
  | repeated (name : String)
deriving DecidableEq, Repr

/-- Why nothing is generated. -/
inductive Stop where
  | misuse (m : Misuse)
  | help
  | version
deriving DecidableEq, Repr

/-! ## Names -/

def Setting.name : Setting → String
  | .source => "source"
  | .output => "output"
  | .config => "config"
  | .manifest => "manifest"
  | .minLevel => "min-api-level"
  | .serializer => "serializer"

def Flag.name : Flag → String
  | .dryRun => "dry-run"
  | .verbose => "verbose"
  | .help => "help"
  | .version => "version"

/-- The options with their letters. -/
def switches : List (Switch × Option Char) :=
  [(.setting .source, some 's'), (.setting .output, some 'o'), (.setting .config, some 'c'),
   (.setting .manifest, some 'm'), (.setting .minLevel, none), (.setting .serializer, none),
   (.flag .dryRun, none), (.flag .verbose, some 'v'), (.flag .help, some 'h'),
   (.flag .version, some 'V')]

def Switch.name : Switch → String
  | .setting s => s.name
  | .flag f => f.name

def Switch.ofName? (name : String) : Option Switch :=
  (switches.find? fun s => s.1.name == name).map Prod.fst

def Switch.ofLetter? (c : Char) : Option Switch :=
  (switches.find? fun s => s.2 == some c).map Prod.fst

/-! ## Values -/

/-- A whole number with a sign or none. -/
def wholeNumber? (cs : List Char) : Option Int :=
  let digits? : List Char → Option Int := fun cs =>
    if !cs.isEmpty && cs.all Text.isAsciiDigit then
      some (cs.foldl (fun n c => 10 * n + (c.toNat - '0'.toNat : Nat)) (0 : Int))
    else none
  match cs with
  | '+' :: rest => digits? rest
  | '-' :: rest => (digits? rest).map fun n => -n
  | cs => digits? cs

/-- A platform level: a number of 32 bits without sign. -/
def level? (value : String) : Option Nat := do
  let n ← wholeNumber? value.toList
  if Text.Bits.fitsUnsigned 32 n then some n.toNat else none

def path? (value : String) : Option FilePath := if value.isEmpty then none else some ⟨value⟩

/-- Takes the value of an option. Only manifests may be given again. -/
def Arguments.set (a : Arguments) (s : Setting) (value : String) : Except Stop Arguments :=
  let once {α : Type} (old : Option α) (new : Option α) (f : α → Arguments) :
      Except Stop Arguments :=
    match old, new with
    | some _, _ => .error (.misuse (.repeated s.name))
    | none, none => .error (.misuse (.invalidValue s.name value))
    | none, some v => .ok (f v)
  match s with
  | .source => once a.source (path? value) fun v => { a with source := some v }
  | .output => once a.output (path? value) fun v => { a with output := some v }
  | .config => once a.config (path? value) fun v => { a with config := some v }
  | .manifest =>
    once (none : Option FilePath) (path? value) fun v => { a with manifests := a.manifests ++ [v] }
  | .minLevel => once a.minLevel (level? value) fun v => { a with minLevel := some v }
  | .serializer => once a.serializer (some value) fun v => { a with serializer := some v }

def Arguments.raise (a : Arguments) (f : Flag) : Except Stop Arguments :=
  match f with
  | .dryRun =>
    if a.dryRun then .error (.misuse (.repeated f.name)) else .ok { a with dryRun := true }
  | .verbose => .ok { a with verbosity := a.verbosity + 1 }
  | .help => .error .help
  | .version => .error .version

/-! ## Reading -/

/-- Whether an argument is an option and no value. -/
def isOption (arg : String) : Bool :=
  match arg.toList with
  | '-' :: _ :: _ => true
  | _ => false

/-- Reads joined letters. The rest after a letter that takes a value is its value; when nothing is
left, the result names the option that waits for its value. -/
def readLetters (a : Arguments) : List Char → Except Stop (Arguments × Option Setting)
  | [] => .ok (a, none)
  | c :: rest =>
    match Switch.ofLetter? c with
    | none => .error (.misuse (.unexpected (String.ofList ['-', c])))
    | some (.flag f) => do readLetters (← a.raise f) rest
    | some (.setting s) =>
      match rest with
      | [] => .ok (a, some s)
      | '=' :: value => do return (← a.set s (String.ofList value), none)
      | value => do return (← a.set s (String.ofList value), none)

/-- Reads one argument that is an option. The result names the option that waits for its value. -/
def readOption (a : Arguments) (arg : String) : Except Stop (Arguments × Option Setting) :=
  match arg.toList with
  | '-' :: '-' :: long =>
    let name := String.ofList (long.takeWhile (· ≠ '='))
    match Switch.ofName? name, long.dropWhile (· ≠ '=') with
    | none, _ => .error (.misuse (.unexpected arg))
    | some (.flag f), [] => do return (← a.raise f, none)
    | some (.flag _), _ => .error (.misuse (.unexpected arg))
    | some (.setting s), [] => .ok (a, some s)
    | some (.setting s), _ :: value => do return (← a.set s (String.ofList value), none)
  | _ :: letters => readLetters a letters
  | [] => .error (.misuse (.unexpected arg))

/-- Reads arguments; `waiting` is an option whose value comes next. -/
def readFrom (a : Arguments) : (waiting : Option Setting) → List String → Except Stop Arguments
  | none, [] => .ok a
  | some s, [] => .error (.misuse (.noValue s.name))
  | some s, arg :: rest =>
    if isOption arg then .error (.misuse (.noValue s.name))
    else do readFrom (← a.set s arg) none rest
  | none, "--" :: rest =>
    match rest with
    | [] => .ok a
    | arg :: _ => .error (.misuse (.unexpected arg))
  | none, arg :: rest =>
    if isOption arg then do
      let (a, waiting) ← readOption a arg
      readFrom a waiting rest
    else .error (.misuse (.unexpected arg))

/-- Reads the arguments of the command line. -/
def Arguments.read (args : List String) : Except Stop Arguments := readFrom {} none args

end TypedSettings.CommandLine
