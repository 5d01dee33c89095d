import TypedSettings.Accessor.Shape
import TypedSettings.Accessor.ValueKind

/-!
What can go wrong, as causes, and the message of each cause. A message that would go on with the
words of another reader (of source text, of configuration text, of the file system) shows the tag
of that reader in their place.
-/

namespace TypedSettings

/-! ## Causes -/

/-- Why a literal is no default for a kind of values. -/
inductive DefaultFault where
  | setLiteral
  | serializedLiteral
  | misfit (literal : String) (kind : ValueKind)
deriving DecidableEq, Repr

/-- Why a file cannot be read. -/
inductive ReadFault where
  | noSourceDirectory
  | system
deriving DecidableEq, Repr

/-- Why a list of external interfaces cannot be taken. -/
inductive ManifestFault where
  | malformed
  | type (interface method text : String)
deriving DecidableEq, Repr

/-- Why no code can be made. -/
inductive EmitFault where
  | noSerializer
  | typeText (text : String)
  | pathText (text : String)
  | invalidUnit
  /-- a name that is no identifier, where generated code needs one -/
  | notIdentifier (name : String)
  /-- code that can be read and not laid out -/
  | noLayout
deriving DecidableEq, Repr

/-- Whether a fault stops all work, not only the unit that it was found in. -/
def EmitFault.isFatal : EmitFault → Bool
  | notIdentifier _ => true
  | noLayout => true
  | _ => false

/-- Why a configuration is refused. -/
inductive ConfigFault where
  | malformed
  | serializer (path : String)
  | inFile (path : String) (fault : ConfigFault)
deriving DecidableEq, Repr

/-- Everything that makes generation fail. The first group belongs to a declaration and leaves
other declarations alone. -/
inductive Problem where
  | invalidAccessor (interface method : String) (fault : ShapeFault) (site : Attribution)
  | duplicateKey (key : String) (role : Role) (first method : String) (site : Attribution)
  | unresolvableAncestor (ancestor root : String) (site : Attribution)
  | unresolvedSerialization (type : TypeRef) (method : String) (site : Attribution)
  | invalidKey (method : String) (site : Attribution)
  | invalidDefault (method : String) (fault : DefaultFault) (site : Attribution)
  | invalidAttribute (interface : String) (fault : AttributeFault) (site : Attribution)
  | unparsable (path : String)
  | unreadable (path : String) (fault : ReadFault)
  | invalidManifest (origin : String) (fault : ManifestFault)
  | notEmitted (fault : EmitFault)
  | unwritable (path : String)
  | invalidConfig (fault : ConfigFault)
deriving DecidableEq, Repr

/-! ## Messages -/

/-- Stands for the words of the reader of source text. -/
def syntaxTag : String := "<syn>"

/-- Stands for the words of the reader of configuration text. -/
def configTag : String := "<toml>"

/-- Stands for the words of the file system. -/
def systemTag : String := "<io>"

def DefaultFault.message : DefaultFault → String
  | setLiteral => "string sets take a `default_expr`, not a literal"
  | serializedLiteral => "serialized values take a `default_expr`, not a literal"
  | misfit literal kind => "literal `" ++ literal ++ "` does not fit a " ++ kind.text ++ " value"

def AttributeFault.message : AttributeFault → String
  | malformed => syntaxTag
  | unknownMode mode => "unknown store mode `" ++ mode ++ "`"
  | unknownStoreArgument => "unknown preferences argument. Expected `name` or `mode`"
  | unknownMethodArgument => "unknown pref argument. Expected key, default or default_expr"

def ReadFault.message : ReadFault → String
  | noSourceDirectory => "source directory does not exist"
  | system => systemTag

def ManifestFault.message : ManifestFault → String
  | malformed => configTag
  | type interface method text =>
    interface ++ "::" ++ method ++ ": invalid type `" ++ text ++ "`: " ++ syntaxTag

def EmitFault.message : EmitFault → String
  | noSerializer => "serialized accessor without a serializer"
  | typeText text => "cannot emit type `" ++ text ++ "`: " ++ syntaxTag
  | pathText text => "cannot emit path `" ++ text ++ "`: " ++ syntaxTag
  | invalidUnit => "Generated code is invalid: " ++ syntaxTag
  | notIdentifier name => "`" ++ name ++ "` is not an identifier"
  | noLayout => "generated code has no layout"

def ConfigFault.message : ConfigFault → String
  | malformed => configTag
  | serializer path => "serializer '" ++ path ++ "' is not a module path"
  | inFile path fault => path ++ ": Invalid configuration: " ++ fault.message

namespace Problem

def message : Problem → String
  | invalidAccessor interface method fault _ =>
    "No valid getter or putter detected for `" ++ method ++ "` in '" ++ interface ++ "': "
      ++ fault.message
  | duplicateKey key role first method _ =>
    "Duplicate " ++ role.text ++ " for key '" ++ key ++ "': `" ++ method ++ "` repeats `" ++ first
      ++ "`"
  | unresolvableAncestor ancestor root _ =>
    "Could not load interface '" ++ ancestor ++ "' for generation of '" ++ root ++ "'"
  | unresolvedSerialization type method _ =>
    "Type `" ++ type.text ++ "` of `" ++ method ++ "` needs a serializer, but none is configured "
      ++ "(set `serializer` in prefs-gen.toml or pass --serializer)"
  | invalidKey method _ => "Derived preference key for `" ++ method ++ "` is empty"
  | invalidDefault method fault _ => "Invalid default for `" ++ method ++ "`: " ++ fault.message
  | invalidAttribute interface fault _ =>
    "Malformed attribute in '" ++ interface ++ "': " ++ fault.message
  | unparsable path => "Failed to parse '" ++ path ++ "': " ++ syntaxTag
  | unreadable path fault => "Failed to read '" ++ path ++ "': " ++ fault.message
  | invalidManifest origin fault =>
    "Invalid external manifest '" ++ origin ++ "': " ++ fault.message
  | notEmitted fault => "Code generation failed: " ++ fault.message
  | unwritable path => "Failed to write output file '" ++ path ++ "': " ++ systemTag
  | invalidConfig fault => "Invalid configuration: " ++ fault.message

/-- The declaration that a problem belongs to. -/
def attribution? : Problem → Option Attribution
  | invalidAccessor _ _ _ site => some site
  | duplicateKey _ _ _ _ site => some site
  | unresolvableAncestor _ _ site => some site
  | unresolvedSerialization _ _ site => some site
  | invalidKey _ site => some site
  | invalidDefault _ _ site => some site
  | invalidAttribute _ _ site => some site
  | _ => none

end Problem

/-! ## Warnings -/

/-- What is worth a remark and makes nothing fail. -/
inductive Warning where
  /-- a key that is only read or only written -/
  | keyAsymmetry (key : String) (missing : Role) (site : Attribution)
  /-- a key that is read and written as different types -/
  | typeMismatch (key : String) (getter putter : TypeRef) (site : Attribution)
deriving DecidableEq, Repr

namespace Warning

def message : Warning → String
  | keyAsymmetry key missing _ => "missing " ++ missing.text ++ " for key '" ++ key ++ "'"
  | typeMismatch key getter putter _ =>
    "getter and putter for key '" ++ key ++ "' disagree on the value type (`" ++ getter.text
      ++ "` vs `" ++ putter.text ++ "`)"

def attribution : Warning → Attribution
  | keyAsymmetry _ _ site => site
  | typeMismatch _ _ _ site => site

end Warning

/-! ## Reports -/

inductive Severity where
  | error
  | warning
deriving DecidableEq, Repr

def Severity.text : Severity → String
  | error => "error"
  | warning => "warning"

/-- One line of a report. -/
inductive Diagnostic where
  | error (problem : Problem)
  | warning (warning : Warning)
deriving DecidableEq, Repr

namespace Diagnostic

def severity : Diagnostic → Severity
  | error _ => .error
  | warning _ => .warning

def isError (d : Diagnostic) : Bool := d.severity == .error

def message : Diagnostic → String
  | error problem => problem.message
  | warning w => w.message

def attribution? : Diagnostic → Option Attribution
  | error problem => problem.attribution?
  | warning w => some w.attribution

/-- The text that a terminal shows. -/
def render (d : Diagnostic) : String :=
  d.severity.text ++ ": " ++ d.message
    ++ match d.attribution? with
      | some site => "\n  --> " ++ site.text
      | none => ""

end Diagnostic

end TypedSettings
