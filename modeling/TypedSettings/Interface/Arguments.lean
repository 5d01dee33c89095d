import TypedSettings.Interface.Declaration
import TypedSettings.Text.CharClass

/-!
Arguments of annotations. An argument is a name, `=`, and a literal. Reading stops at the first
argument that is not as it should be, with the cause and the place.
-/

namespace TypedSettings

open Source

/-- What is wrong with an argument. -/
inductive ArgumentFault where
  /-- not of the form of an argument -/
  | malformed
  | unknownMode (mode : String)
  /-- an argument that an interface does not take -/
  | unknownStoreArgument
  /-- an argument that a method does not take; a path has no name -/
  | unknownMethodArgument (name : String)
  | blankKey
  /-- a text that should be an expression -/
  | invalidExpression
deriving DecidableEq, Repr

/-- The fault of the annotation that holds the argument. -/
def ArgumentFault.ofAttribute : ArgumentFault → AttributeFault
  | unknownMode mode => .unknownMode mode
  | unknownStoreArgument => .unknownStoreArgument
  | unknownMethodArgument _ => .unknownMethodArgument
  | malformed => .malformed
  | blankKey => .malformed
  | invalidExpression => .malformed

/-- Takes arguments from a cursor, or stops with a cause and a place. -/
abbrev ArgReader (α : Type) := StateT Cursor (Except (ArgumentFault × Position)) α

namespace ArgReader

variable {α : Type}

def fail (fault : ArgumentFault) (pos : Position) : ArgReader α := fun _ => .error (fault, pos)

/-- Reads by a parser; what it refuses is malformed. -/
def lift (p : Parser α) : ArgReader α := fun c =>
  match p c with
  | .ok r => .ok r
  | .error pos => .error (.malformed, pos)

/-- The name of an argument: a path, whose name is its only word, and its first word's place. -/
structure Name where
  text : Option String
  pos : Position

/-- A path of any words. -/
def name : ArgReader Name := do
  let lead ← lift (Parser.op? "::")
  let pos := (← get).here
  let first ← lift Parser.anyWord
  let rest ← lift (Parser.repeating do
    if ← Parser.peekOp "::" then return some [← Parser.op "::", ← Parser.anyWord]
    else return none)
  return ⟨if lead.isAbsent && rest.isEmpty then some first.word else none, pos⟩

/-- A string literal: its value, its suffix and its place. -/
structure TextValue where
  value : String
  suffix : String
  pos : Position

/-- `=` and a literal. -/
def literalValue : ArgReader Literal := do
  let _ ← lift (Parser.op "=")
  lift fun c => match Literal.read? c.rest with
    | some (l, rest) => .ok (l, { c with rest })
    | none => .error c.here

/-- `=` and a string literal. -/
def textValue : ArgReader TextValue := do
  let _ ← lift (Parser.op "=")
  let pos := (← get).here
  let l ← lift fun c => match Literal.read? c.rest with
    | some (l, rest) => .ok (l, { c with rest })
    | none => .error c.here
  match l.kind with
  | .text value => return ⟨value, l.suffix, pos⟩
  | _ => fail .malformed pos

def listFuel (argument : ArgReader α) : (fuel : Nat) → ArgReader (List α)
  | 0 => return []
  | fuel + 1 => do
    let a ← argument
    if ← lift Parser.atEnd then return [a]
    let _ ← lift (Parser.op ",")
    if ← lift Parser.atEnd then return [a]
    return a :: (← listFuel argument fuel)

/-- Arguments with commas between them and perhaps after the last. Each takes a token, so the
tokens at hand bound the recursion. -/
def list (argument : ArgReader α) : ArgReader (List α) := do
  if ← lift Parser.atEnd then return []
  listFuel argument ((← get).rest.length + 1)

/-- The arguments that an attribute holds in brackets. -/
def ofAttribute (argument : ArgReader α) (attr : Tree) :
    Except (ArgumentFault × Position) (List α) :=
  match (attr.part 2).part 0 with
  | .node .metaList [_, .run [.group _ body _ close]] => (list argument ⟨body, close⟩).map Prod.fst
  | .node .metaValue [_, eq, _] => .error (.malformed, eq.pos?.getD {})
  | content => .error (.malformed, ((content.part 0).part 1).pos?.getD {})

end ArgReader

/-! ## Arguments of methods -/

/-- What an annotation says of a method. -/
inductive MethodArg where
  | key (text : String)
  | default (value : DefaultValue)
deriving Repr

namespace MethodArg

/-- Reads the expression that a string literal holds. Its text has places of its own; a fault in
the expression stands at the literal. -/
def exprOfText (t : ArgReader.TextValue) : Except Position (List Token) :=
  match tokenize t.value with
  | .error pos => .error pos
  | .ok tokens =>
    match readTokens (fun rules => rules (.expr true)) tokens with
    | .error _ => .error t.pos
    | .ok tree => if t.suffix = "" then .ok tree.tokens else .error t.pos

/-- Reads one argument. A blank key is refused where `strict` says so. -/
def read (strict : Bool) : ArgReader MethodArg := do
  let name ← ArgReader.name
  match name.text with
  | some "key" =>
    let value ← ArgReader.textValue
    if strict && Text.trim value.value = "" then ArgReader.fail .blankKey name.pos
    return .key value.value
  | some "default" => return .default (.literal (← ArgReader.literalValue))
  | some "default_expr" =>
    match exprOfText (← ArgReader.textValue) with
    | .ok tokens => return .default (.expr tokens)
    | .error pos => ArgReader.fail .invalidExpression pos
  | other => ArgReader.fail (.unknownMethodArgument (other.getD "")) name.pos

/-- Adds what an argument says; what is said last holds. -/
def addTo (m : MethodMeta) : MethodArg → MethodMeta
  | key text => { m with key := some text }
  | default value => { m with default := some value }

end MethodArg

/-! ## Arguments of interfaces -/

/-- What an annotation says of a root interface. -/
inductive StoreArg where
  | name (text : String)
  | mode (mode : StoreMode)
deriving DecidableEq, Repr

namespace StoreArg

/-- Reads one argument. -/
def read : ArgReader StoreArg := do
  let arg ← ArgReader.name
  let value ← ArgReader.textValue
  match arg.text with
  | some "name" => return .name value.value
  | some "mode" =>
    match StoreMode.ofText? value.value with
    | some m => return .mode m
    | none => ArgReader.fail (.unknownMode value.value) arg.pos
  | _ => ArgReader.fail .unknownStoreArgument arg.pos

/-- Adds what an argument says; what is said last holds, and an empty name is none. -/
def addTo (s : StoreConfig) : StoreArg → StoreConfig
  | name text => { s with name := if text = "" then none else some text }
  | mode m => { s with mode := m }

end StoreArg

end TypedSettings
