import TypedSettings.FilePath
import TypedSettings.Interface.TypeRef
import TypedSettings.Source.LiteralValue

/-!
Interfaces: the methods that read and write settings, what is known of each, and the interfaces
they inherit from.
-/

namespace TypedSettings

open Source

/-! ## Places -/

/-- A place in a source file. Text that comes from no file has a position alone. -/
structure SourceLocation where
  file : Option String
  position : Position
deriving DecidableEq, Repr

def SourceLocation.text (l : SourceLocation) : String :=
  match l.file with
  | some file => file ++ ":" ++ l.position.text
  | none => l.position.text

/-- The declaration that a finding belongs to. -/
structure Attribution where
  interface : String
  method : Option String
  location : Option SourceLocation
deriving DecidableEq, Repr

namespace Attribution

def ofInterface (interface : String) (location : Option SourceLocation := none) : Attribution :=
  ⟨interface, none, location⟩

def ofMethod (interface method : String) (location : Option SourceLocation := none) :
    Attribution :=
  ⟨interface, some method, location⟩

def text (a : Attribution) : String :=
  (match a.method with
   | some method => a.interface ++ "::" ++ method
   | none => a.interface)
  ++ match a.location with
   | some location => " (" ++ location.text ++ ")"
   | none => ""

end Attribution

/-! ## Methods -/

inductive Receiver where
  | shared
  | exclusive
  | owned
  | none
deriving DecidableEq, Repr

structure Param where
  name : String
  type : TypeRef
deriving DecidableEq, Repr

/-- What a read gives when nothing is stored: a literal, or an expression as its tokens. -/
inductive DefaultValue where
  | literal (value : Literal)
  | expr (tokens : List Token)
deriving Repr

def DefaultValue.tokens : DefaultValue → List Token
  | literal value => value.tokens
  | expr tokens => tokens

/-- What the annotations of a method say. -/
structure MethodMeta where
  key : Option String := none
  default : Option DefaultValue := none
deriving Repr

def MethodMeta.isEmpty (m : MethodMeta) : Bool := m.key.isNone && m.default.isNone

/-- A method without body. -/
structure MethodDecl where
  name : String
  receiver : Receiver := .shared
  params : List Param := []
  returns : TypeRef := .unit
  metadata : MethodMeta := {}
  location : Option SourceLocation := none
deriving Repr

/-! ## Interfaces -/

/-- How the store is opened. -/
inductive StoreMode where
  /-- for the owning process alone -/
  | ownProcess
  /-- other processes may read -/
  | sharedRead
  /-- other processes may read and write -/
  | sharedWrite
deriving DecidableEq, Repr

namespace StoreMode

/-- The name that an annotation gives a mode by. -/
def text : StoreMode → String
  | ownProcess => "private"
  | sharedRead => "multi_process_readable"
  | sharedWrite => "multi_process_writable"

/-- The name that generated code gives a mode by. -/
def variant : StoreMode → String
  | ownProcess => "Private"
  | sharedRead => "MultiProcessReadable"
  | sharedWrite => "MultiProcessWritable"

def all : List StoreMode := [ownProcess, sharedRead, sharedWrite]

def ofText? (s : String) : Option StoreMode := all.find? fun m => m.text == s

theorem ofText?_text (m : StoreMode) : ofText? m.text = some m := by cases m <;> decide

end StoreMode

/-- The store that a root interface opens; without a name it is the default one. -/
structure StoreConfig where
  name : Option String := none
  mode : StoreMode := .ownProcess
deriving DecidableEq, Repr

/-- An inherited interface: the path as written, and the names it may stand for, the likeliest
first. -/
structure AncestorRef where
  written : String
  candidates : List String
deriving DecidableEq, Repr

namespace AncestorRef

/-- A reference to one qualified name. -/
def exact (name : String) : AncestorRef := ⟨name, [name]⟩

def simpleName (a : AncestorRef) : String := QualifiedName.simple a.written

end AncestorRef

/-- What is wrong with an annotation. -/
inductive AttributeFault where
  /-- it does not have the form of an annotation -/
  | malformed
  | unknownMode (mode : String)
  | unknownStoreArgument
  | unknownMethodArgument
deriving DecidableEq, Repr

/-- An annotation that could not be read; without a method it is the interface's own. -/
structure AttributeIssue where
  method : Option String
  fault : AttributeFault
  location : Option SourceLocation
deriving DecidableEq, Repr

/-- An interface found in the sources. With a store it is a root. A method whose annotation could
not be read is left out and stands among the issues. -/
structure InterfaceDecl where
  name : String
  store : Option StoreConfig := none
  methods : List MethodDecl := []
  ancestors : List AncestorRef := []
  location : Option SourceLocation := none
  issues : List AttributeIssue := []
deriving Repr

def InterfaceDecl.isRoot (d : InterfaceDecl) : Bool := d.store.isSome

/-- An interface that is known by its signatures alone. -/
structure ExternalInterface where
  name : String
  ancestors : List String
  methods : List MethodDecl
deriving Repr

end TypedSettings
