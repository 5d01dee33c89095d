import TypedSettings.Text.Quoted
import TypedSettings.Unit.Target

/-!
Bodies of generated methods. A body is a list of statements that read the store, or that open an
editor, change it and publish the change. A statement has one written form.
-/

namespace TypedSettings

open Source Source.Token

/-- A statement of a generated body. -/
inductive Stmt where
  /-- opens an editor of the store -/
  | openEditor
  /-- writes a value that the store holds directly -/
  | put (kind : StoreKind) (key param : String)
  /-- writes a set of strings as text -/
  | putEncoded (key param : String)
  /-- writes a value as the text that a serializer makes of it -/
  | putSerialized (serializer key param : String)
  /-- removes keys, one after the other -/
  | remove (keys : List String)
  /-- removes the key that the method takes -/
  | removeGiven
  | clear
  | apply
  | commit
  /-- reads a value that the store holds directly -/
  | read (kind : StoreKind) (key : String) (default : List Token)
  /-- reads a set of strings from its text -/
  | readEncoded (key : String) (default : List Token)
  /-- reads a value from the text that a serializer made of it -/
  | readSerialized (serializer key : String) (type default : List Token)
  /-- gives the object itself -/
  | self
  /-- hands a call on to the store -/
  | delegate (method : String) (args : List String)
  /-- hands a call on to the store and ends the statement -/
  | delegateStmt (method : String) (args : List String)
  /-- writes what is read: calls a putter on its getter's value -/
  | store (putterTrait : CodePath) (putter : String) (getterTrait : CodePath) (getter : String)
  /-- takes the first branch from the level of a gate on, the second below it -/
  | gate (gate : Gate) (above below : List Stmt)

namespace Stmt

/-- The variable that holds an editor. -/
def editor : String := "__prefs_editor"

/-- The store's method that reads a kind of values. -/
def getter : StoreKind → String
  | .boolean => "get_bool"
  | .int => "get_i32"
  | .long => "get_i64"
  | .float => "get_f32"
  | .string => "get_string"
  | .stringSet => "get_string_set"

/-- The editor's method that writes a kind of values. -/
def putter : StoreKind → String
  | .boolean => "put_bool"
  | .int => "put_i32"
  | .long => "put_i64"
  | .float => "put_f32"
  | .string => "put_string"
  | .stringSet => "put_string_set"

/-! ## Written form -/

/-- A text as a string literal. -/
def quoted (s : String) : List Token := [.literal (Text.Quoted.encode s) {}]

def braced (body : List Token) : List Token := [delimited .brace body]

/-- A call of a method of the store. -/
def storeCall (method : String) (args : List (List Token)) : List Token :=
  code ["self", ".", "preferences", ".", method] ++ arguments args

/-- A call of a method of the editor. -/
def editorCall (method : String) (args : List (List Token)) : List Token :=
  code [editor, ".", method] ++ arguments args

/-- A branch that writes the text in `raw`, and one that removes the key. -/
def putOrRemove (some' none' : List Token) (key : String) : List Token :=
  braced
    (some' ++ code ["=>"] ++ editorCall "put_string" [quoted key, code ["&", "raw"]] ++ code [","]
      ++ none' ++ code ["=>"] ++ editorCall "remove" [quoted key] ++ code [","])

/-- Takes the default when there is no value. -/
def orDefault (args : List String) (default : List Token) : List Token :=
  code [".", "unwrap_or_else"] ++ arguments [args.flatMap piece ++ default]

mutual

/-- The tokens of a statement. -/
def tokens : Stmt → List Token
  | openEditor => code ["let", "mut", editor, "="] ++ storeCall "edit" [] ++ code [";"]
  | put .string key param =>
    editorCall "put_string" [quoted key, code ["&", param]] ++ code [";"]
  | put kind key param => editorCall (putter kind) [quoted key, code [param]] ++ code [";"]
  | putEncoded key param =>
    code ["match", "compat", "::", "encode_string_set"] ++ arguments [code ["&", param]]
      ++ putOrRemove (code ["Ok"] ++ arguments [code ["raw"]])
        (code ["Err"] ++ arguments [code ["_"]]) key
  | putSerialized serializer key param =>
    code ["match", serializer, "::", "serialize"] ++ arguments [code ["&", param]]
      ++ putOrRemove (code ["Some"] ++ arguments [code ["raw"]]) (code ["None"]) key
  | remove keys => keys.flatMap fun key => editorCall "remove" [quoted key] ++ code [";"]
  | removeGiven => editorCall "remove" [code ["key"]] ++ code [";"]
  | clear => editorCall "clear" [] ++ code [";"]
  | apply => editorCall "apply" [] ++ code [";"]
  | commit => code ["let", "_", "="] ++ editorCall "commit" [] ++ code [";"]
  | read kind key default => storeCall (getter kind) [quoted key, default]
  | readEncoded key default =>
    code ["compat", "::", "decode_string_set"]
      ++ arguments [code ["&"] ++ storeCall "get_string" [quoted key, quoted ""]]
      ++ orDefault ["|", "_", "|"] default
  | readSerialized serializer key type default =>
    storeCall "contains" [quoted key]
      ++ code [".", "then"]
      ++ arguments [code ["||"] ++ storeCall "get_string" [quoted key, quoted ""]]
      ++ code [".", "and_then"]
      ++ arguments [code ["|", "raw", "|", serializer, "::", "deserialize", "::", "<"] ++ type
          ++ code [">"] ++ arguments [code ["&", "raw"]]]
      ++ orDefault ["||"] default
  | self => code ["self"]
  | delegate method args => storeCall method (args.map fun a => code [a])
  | delegateStmt method args => storeCall method (args.map fun a => code [a]) ++ code [";"]
  | store putterTrait putter getterTrait getter =>
    code ["<", "Self", "as"] ++ putterTrait.tokens ++ code [">", "::", putter]
      ++ arguments [code ["self"],
          code ["<", "Self", "as"] ++ getterTrait.tokens ++ code [">", "::", getter]
            ++ arguments [code ["self"]]]
      ++ code [";"]
  | gate g above below =>
    code ["if", "build", "::", "sdk_int"] ++ arguments []
      ++ code [">=", "build", "::", g.constant]
      ++ braced (tokensAll above) ++ code ["else"] ++ braced (tokensAll below)

def tokensAll : List Stmt → List Token
  | [] => []
  | s :: rest => tokens s ++ tokensAll rest

end

/-! ## Platform levels -/

mutual

/-- What a statement does on a platform level. -/
def atLevel (level : Nat) : Stmt → List Stmt
  | gate g above below =>
    if g.level ≤ level then atLevelAll level above else atLevelAll level below
  | s => [s]

def atLevelAll (level : Nat) : List Stmt → List Stmt
  | [] => []
  | s :: rest => atLevel level s ++ atLevelAll level rest

end

end Stmt

/-- A generated method: its signature, and its body statement by statement. -/
structure GeneratedMethod where
  name : String
  signature : List Token
  body : List Stmt

/-- The tokens of a method. -/
def GeneratedMethod.tokens (m : GeneratedMethod) : List Token :=
  m.signature ++ Stmt.braced (Stmt.tokensAll m.body)

end TypedSettings
