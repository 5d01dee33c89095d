import TypedSettings.FilePath
import TypedSettings.Text.Bits
import TypedSettings.Text.Toml
import TypedSettings.Unit.Target

/-!
Configurations: where sources are read and units are written, and what units are made for. Every
setting may be left out.
-/

namespace TypedSettings

open TypedSettings.Text

structure Config where
  source : FilePath := ⟨"src"⟩
  output : FilePath := ⟨"target/prefs-gen"⟩
  minLevel : Option Nat := none
  serializer : Option String := none
  manifests : List FilePath := []
  /-- whether the interfaces that come along are known -/
  bundled : Bool := true
deriving DecidableEq, Repr

namespace Config

/-- The file that holds the configuration of a directory. -/
def fileName : String := "prefs-gen.toml"

def target (c : Config) : Target := ⟨c.minLevel, c.serializer⟩

/-- Refuses a serializer that is no path. -/
def validate (c : Config) : Except ConfigFault Unit :=
  match c.serializer with
  | none => .ok ()
  | some path =>
    match Source.readPath path with
    | .ok _ => .ok ()
    | .error _ => .error (.serializer path)

/-- A number of 32 bits without sign. -/
def level? : Toml → Option Nat
  | .whole n => if Bits.fitsUnsigned 32 n then some n.toNat else none
  | _ => none

/-- Changes a configuration by one setting. -/
def set? (c : Config) (name : String) (v : Toml) : Option Config :=
  match name, v with
  | "source", .string s => some { c with source := ⟨s⟩ }
  | "output", .string s => some { c with output := ⟨s⟩ }
  | "min_api_level", v => (level? v).map fun n => { c with minLevel := some n }
  | "serializer", .string s => some { c with serializer := some s }
  | "manifests", v => do
    let paths ← (← v.elements?).mapM Toml.string?
    return { c with manifests := paths.map FilePath.mk }
  | "bundled_manifest", .bool b => some { c with bundled := b }
  | _, _ => none

/-- Reads the text of a configuration. -/
def read (text : String) : Except ConfigFault Config := do
  let entries ← match Toml.read? text with
    | some entries => pure entries
    | none => throw .malformed
  let c ← match entries.foldlM (fun c e => set? c e.1 e.2) ({} : Config) with
    | some c => pure c
    | none => throw .malformed
  c.validate
  return c

end Config

end TypedSettings
