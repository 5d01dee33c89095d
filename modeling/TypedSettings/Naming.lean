import TypedSettings.FilePath
import TypedSettings.QualifiedName
import TypedSettings.Text.Lowercase

/-!
Names of what is generated: the implementing structure, the file it is written to, and the module
that a source file stands for.
-/

namespace TypedSettings.Naming

/-- The structure that implements the interface `name`. -/
def structName (name : String) : String := name ++ "Impl"

/-! ## Words of a camel-case name -/

/-- A new word starts at a capital that follows a small letter or a digit, or that follows a
capital and precedes a small letter (`HTTPClient` is `HTTP`, `Client`). -/
def startsWord (prev c : Char) (next? : Option Char) : Bool :=
  Text.isUpper c
    && (Text.isLower prev || Text.isAsciiDigit prev
      || (Text.isUpper prev && next?.any Text.isLower))

/-- The words from the character after `prev` on. `word` holds the characters of the word that
`prev` belongs to, the last one first. An underscore separates words and belongs to none. -/
def wordsFrom (prev : Char) (word : List Char) : List Char → List (List Char)
  | [] => if word.isEmpty then [] else [word.reverse]
  | c :: rest =>
    let done := if word.isEmpty then [] else [word.reverse]
    if c = '_' ∨ prev = '_' then
      (if prev = '_' then [] else done) ++ wordsFrom c (if c = '_' then [] else [c]) rest
    else if startsWord prev c rest.head? then done ++ wordsFrom c [c] rest
    else wordsFrom c (c :: word) rest

/-- The words of a name, in order. -/
def words (name : String) : List String :=
  match name.toList with
  | [] => []
  | c :: rest => (wordsFrom c [c] rest).map String.ofList

/-- The words in lower case, joined by underscores. -/
def snakeCase (name : String) : String :=
  "_".intercalate ((words name).map Text.lowercase)

/-! ## Files and modules -/

/-- Where the unit of the interface `name` is written: a directory for each module segment, then
the snake-case name of the structure. -/
def unitPath (name : String) : FilePath :=
  FilePath.ofNames (QualifiedName.modulePath name
    ++ [snakeCase (structName (QualifiedName.simple name)) ++ ".rs"])

/-- The module that `file` holds, seen from the source directory `root`: `lib.rs` and `main.rs`
at the top are the crate itself, and `mod.rs` is the module of its directory. -/
def moduleOfFile (root file : FilePath) : List String :=
  let relative := (FilePath.below? root.components file.components).getD file.components
  let dirs := match relative.getLast? with
    | some .root => []
    | _ => relative.dropLast.map Component.text
  let stem := match relative.getLast? with
    | some (.normal name) => (FilePath.splitName name).1
    | _ => ""
  if stem = "mod" ∨ (dirs.isEmpty ∧ (stem = "lib" ∨ stem = "main")) then dirs else dirs ++ [stem]

end TypedSettings.Naming
