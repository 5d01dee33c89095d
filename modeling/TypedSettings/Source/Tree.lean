import TypedSettings.Source.Token

/-!
Syntax trees. A tree is made of runs of tokens, bracketed groups whose contents have been read,
and nodes of a kind. The tokens of a tree are its leaves in order. A part that is absent is the
empty run. Text that is well formed but has no meaning of its own is kept as its tokens.
-/

namespace TypedSettings.Source

/-- What a node is. The comment after a kind names its parts in order; `…` marks a list whose
members alternate with their separators. -/
inductive Kind where
  | verbatim        -- tokens that are kept as they stand
  -- paths
  | path            -- leading `::`, segment …
  | segment         -- name, arguments
  | angleArgs       -- turbofish `::`, `<`, argument …, `>`
  | parenArgs       -- group of types …, result
  | result          -- `->`, type
  | selfPath        -- `<`, type, `as` trait path or nothing, `>`, `::`, segment …
  | lifetime        -- the tokens
  | constArg        -- expression
  | assocType       -- name, arguments, `=`, type
  | assocConst      -- name, arguments, `=`, expression
  | constraint      -- name, arguments, `:`, bounds
  -- types
  | typePath        -- path or selfPath
  | typeTuple       -- group of types …
  | typeParen       -- group of a type
  | typeArray       -- group of type, `;`, expression
  | typeSlice       -- group of a type
  | typeNever
  | typeInfer
  | typePointer     -- `*`, `const` or `mut`, type
  | typeRef         -- `&`, lifetime, `mut`, type
  | typeCall        -- call
  | typeFunction    -- bound parameters, `unsafe`, abi, `fn`, group of arguments …, result
  | typeArgument    -- attributes, name, `:`, type
  | typeVariadic    -- attributes, name, `:`, `...`
  | typeObject      -- `dyn`, bounds
  | typeImpl        -- `impl`, bounds
  -- bounds and generics
  | bounds          -- bound …
  | bound           -- modifier, bound parameters, path
  | parenBound      -- group of a bound
  | capture         -- `use`, `<`, …, `>`
  | forParams       -- `for`, `<`, parameter …, `>`
  | generics        -- `<`, parameter …, `>`
  | lifetimeParam   -- attributes, lifetime, `:`, bounds
  | typeParam       -- attributes, name, `:`, bounds, `=`, type
  | constParam      -- attributes, `const`, name, `:`, type, `=`, expression
  | whereClause     -- `where`, predicate …
  | predicate       -- bound parameters, type or lifetime, `:`, bounds
  -- attributes
  | attributes      -- attribute, attribute, and so on
  | attr            -- `#`, `!`, group of a meta
  | metaPath        -- path
  | metaList        -- path, raw group
  | metaValue       -- path, `=`, expression
  -- expressions
  | attributed      -- attributes, expression
  | array           -- group of expressions …
  | assign          -- left, `=`, right
  | asyncBlock      -- `async`, `move`, block
  | await           -- expression, `.`, `await`
  | binary          -- left, operator, right
  | blockExpr       -- label, block
  | breakExpr       -- `break`, lifetime, expression
  | call            -- function, group of expressions …
  | cast            -- expression, `as`, type
  | closure         -- bound parameters, words, `|`, list of parameters …, `|`, result, body
  | constBlock      -- `const`, block
  | continueExpr    -- `continue`, lifetime
  | field           -- expression, `.`, member
  | forLoop         -- label, `for`, pattern, `in`, expression, block
  | ifExpr          -- `if`, condition, block, `else`, expression
  | index           -- expression, group of an expression
  | infer
  | letExpr         -- `let`, pattern, `=`, expression
  | literal
  | loop            -- label, `loop`, block
  | invocation      -- path, `!`, raw group
  | matchExpr       -- `match`, expression, group of attributes and arms
  | arm             -- attributes, pattern, `if`, guard, `=>`, body, `,`
  | methodCall      -- expression, `.`, name, turbofish, group of expressions …
  | paren           -- group of an expression
  | pathExpr        -- path or selfPath
  | range           -- start, `..` or `..=`, end
  | rawAddress      -- `&`, `raw`, `const` or `mut`, expression
  | reference       -- `&`, `mut`, expression
  | repeated        -- group of expression, `;`, length
  | returnExpr      -- `return`, expression
  | structExpr      -- path, group of fields …
  | fieldValue      -- attributes, member, `:`, expression
  | rest            -- `..`, expression
  | tryExpr         -- expression, `?`
  | tryBlock        -- `try`, block
  | tuple           -- group of expressions …
  | unary           -- operator, expression
  | guardedBlock    -- `unsafe`, block
  | whileLoop       -- label, `while`, condition, block
  | yieldExpr       -- `yield`, expression
  | label           -- lifetime, `:`
  -- blocks and statements
  | block           -- group of attributes and statements
  | localStmt       -- attributes, `let`, pattern, `=`, expression, `else`, block, `;`
  | exprStmt        -- expression, `;`
  | callStmt        -- attributes, call, `;`
  | itemStmt        -- item
  | emptyStmt       -- `;`
  -- patterns
  | patIdent        -- `ref`, `mut`, name, `@`, pattern
  | patWild
  | patLiteral      -- literal
  | patConst        -- `const`, block
  | patPath         -- path or selfPath
  | patRange        -- start, operator, end
  | patRest
  | patRef          -- `&`, `mut`, pattern
  | patTuple        -- group of patterns …
  | patParen        -- group of a pattern
  | patSlice        -- group of patterns …
  | patTupleStruct  -- path, group of patterns …
  | patStruct       -- path, group of fields …
  | patField        -- attributes, words, member, `:`, pattern
  | patOr           -- leading `|`, pattern …
  | patCall         -- call
  | patTyped        -- attributes, pattern, `:`, type
  -- items
  | visibility
  | itemUse         -- attributes, visibility, `use`, leading `::`, tree, `;`
  | usePath         -- name, `::`, tree
  | useName         -- name
  | useRename       -- name, `as`, name
  | useGlob         -- `*`
  | useGroup        -- group of trees …
  | itemMod         -- attributes, visibility, `unsafe`, `mod`, name, group of attributes and items or `;`
  | itemTrait       -- attributes, visibility, `unsafe`, `auto`, `trait`, name, generics, `:`, bounds, where, group of attributes and items
  | itemTraitAlias  -- attributes, visibility, `trait`, name, generics, `=`, bounds, where, `;`
  | traitFn         -- attributes, signature, block or `;`
  | signature       -- words, `fn`, name, generics, group of parameters …, result, where
  | receiver        -- attributes, `&`, lifetime, `mut`, `self`, `:`, type
  | param           -- attributes, pattern, `:`, type
  | variadic        -- attributes, pattern, `:`, `...`
  | itemStruct      -- attributes, visibility, `struct` or `union`, name, generics, where, fields
  | itemTuple       -- attributes, visibility, `struct`, name, generics, where, fields, where, `;`
  | fieldDecl       -- attributes, visibility, name, `:`, type
  | itemImpl        -- attributes, words, generics, `!`, trait path, `for`, type, where, group of attributes and items
  | itemForeign     -- attributes, `unsafe`, abi, group of attributes and items
  | itemFn          -- attributes, visibility, `default`, signature, block or `;`
  | itemConst       -- attributes, visibility, `default`, `const`, name, `:`, type, `=`, expression, `;`
  | itemStatic      -- attributes, visibility, `static`, `mut`, name, `:`, type, `=`, expression, `;`
  | itemType        -- attributes, visibility, `default`, `type`, name, generics, `:`, bounds, where, `=`, type, where, `;`
  | foreignType     -- attributes, visibility, `type`, name, generics, where, `;`
  | itemEnum        -- attributes, visibility, `enum`, name, generics, where, group of variants …
  | variant         -- attributes, name, fields, `=`, expression
  | itemCrate       -- attributes, visibility, `extern`, `crate`, name, `as`, name, `;`
  | itemCall        -- attributes, path, `!`, name, raw group, `;`
deriving DecidableEq, Repr

inductive Tree where
  | run (tokens : List Token)
  | group (delim : Delimiter) (body : List Tree) (pos close : Position)
  | node (kind : Kind) (parts : List Tree)

instance : Inhabited Tree := ⟨.run []⟩

namespace Tree

/-- A part that is not there. -/
def absent : Tree := .run []

mutual

/-- The tokens of a tree, from the left. -/
def tokens : Tree → List Token
  | run ts => ts
  | group d body pos close => [.group d (tokensAll body) pos close]
  | node _ parts => tokensAll parts

def tokensAll : List Tree → List Token
  | [] => []
  | t :: ts => tokens t ++ tokensAll ts

end

def isAbsent : Tree → Bool
  | run [] => true
  | _ => false

def kind? : Tree → Option Kind
  | node k _ => some k
  | _ => none

def isKind (k : Kind) (t : Tree) : Bool := t.kind? == some k

def parts : Tree → List Tree
  | node _ ps => ps
  | group _ body _ _ => body
  | run _ => []

/-- The part at a place; absent when there is none. -/
def part (i : Nat) (t : Tree) : Tree := (t.parts[i]?).getD absent

/-- The members of a list whose members alternate with separators. -/
def members : List Tree → List Tree
  | [] => []
  | [t] => [t]
  | t :: _ :: rest => t :: members rest

/-- The text of a tree, as token text. -/
def text (t : Tree) : String := Token.text t.tokens

/-- The word that a one-word tree holds. -/
def word (t : Tree) : String :=
  match t.tokens with
  | .word w _ :: _ => w
  | _ => ""

/-- Where a tree starts. -/
def pos? (t : Tree) : Option Position := t.tokens.head?.map Token.pos

end Tree

end TypedSettings.Source
