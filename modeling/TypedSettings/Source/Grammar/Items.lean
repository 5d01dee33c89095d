import TypedSettings.Source.Grammar.Expressions

/-!
Items: modules, traits, uses, implementations and the rest, and whole files.

An item that is well formed and has no meaning where it stands, such as a function without a body
in a module, keeps its tokens.
-/

namespace TypedSettings.Source.Grammar

open TypedSettings.Source.Parser Token

variable (rules : Rules)

/-! ## Visibility and signatures -/

/-- A restriction in parentheses after `pub`, when the parentheses hold one. -/
def restriction? (ts : List Token) : Bool :=
  match ts with
  | .group .paren [.word w _] _ _ :: _ => w == "crate" || w == "self" || w == "super"
  | .group .paren (.word "in" _ :: rest) _ _ :: _ =>
    match runAll plainPath rest {} with
    | .ok _ => true
    | .error _ => false
  | _ => false

def visibility : Parser Tree := do
  if ← peekWord "pub" then
    let pub ← keyword "pub"
    if ← peek restriction? then return .node .visibility [pub, ← rawGroup]
    else return .node .visibility [pub]
  else return .absent

/-- The words that may stand in front of `fn`; `safe` is one of them in a foreign block. -/
def signatureWords (foreign : Bool) : Parser Tree := do
  let const ← keyword? "const"
  let async ← keyword? "async"
  let guard ← if foreign && (← peekWord "safe") then anyWord else keyword? "unsafe"
  let abi ← abi?
  return .run (const.tokens ++ async.tokens ++ guard.tokens ++ abi.tokens)

/-- Whether a function starts here. -/
def startsFn (foreign : Bool) (ts : List Token) : Bool :=
  match signatureWords foreign ⟨ts, {}⟩ with
  | .ok (_, c) => isWord "fn" c.rest
  | .error _ => false

/-- The receiver of a method. Only a receiver without `&` may name its type. -/
def receiver (attrs : Tree) : Parser Tree := do
  let amp ← op? "&"
  let l ← if amp.isAbsent then pure .absent else lifetime?
  let mut' ← keyword? "mut"
  let self ← keyword "self"
  if ← peekOp "::" then fail
  let colon ← if amp.isAbsent then op? ":" else pure .absent
  let ty ← if colon.isAbsent then pure .absent else rules (.type true)
  return .node .receiver [attrs, amp, l, mut', self, colon, ty]

/-- A parameter: a receiver, the dots of a variadic function, or a pattern with a type. A type
alone, in the old style, gets the pattern `_`. -/
def parameter : Parser Tree := do
  let attrs ← outerAttributes rules
  if ← peekOp "..." then return .node .variadic [attrs, .absent, .absent, ← op "..."]
  match ← attempt (receiver rules attrs) with
  | some t => return t
  | none =>
    if ← peek fun ts => isIdent ts && isOp "<" (skip ts) then
      return .node .param
        [attrs, .node .patWild [.run [name "_"]], .run (operator ":"), ← rules (.type true)]
    let pat ← rules .pattern
    let colon ← op ":"
    if ← peekOp "..." then return .node .variadic [attrs, pat, colon, ← op "..."]
    return .node .param [attrs, pat, colon, ← rules (.type true)]

/-- Parameters: a receiver comes first, a variadic one last. -/
def parameters : Parser Tree := do
  let body ← group .paren (commaList (parameter rules))
  let ps := Tree.members body.parts
  if ps.dropLast.any (Tree.isKind .variadic) || (ps.drop 1).any (Tree.isKind .receiver) then fail
  return body

def signature (foreign : Bool) : Parser Tree := do
  let words ← signatureWords foreign
  let fn ← keyword "fn"
  let name ← ident
  let gens ← generics rules
  let params ← parameters rules
  let res ← result rules true
  return .node .signature [words, fn, name, gens, params, res, ← whereClause rules]

/-! ## Use declarations -/

def useTree (root : Bool) : Parser Tree := do
  if ← peek fun ts => isIdent ts || isWord "self" ts || isWord "super" ts || isWord "crate" ts
      || isWord "try" ts then
    let name ← anyWord
    if ← peekOp "::" then return .node .usePath [name, ← op "::", ← rules (.useTree false)]
    else if ← peekWord "as" then
      let as' ← keyword "as"
      let renamed ← if ← peekWord "_" then anyWord else ident
      return .node .useRename [name, as', renamed]
    else return .node .useName [name]
  else if ← peekOp "*" then return .node .useGlob [← op "*"]
  else if ← peekGroup .brace then
    let body ← group .brace (commaList do
      let lead ← if root then op? "::" else pure .absent
      let tree ← rules (.useTree (root && lead.isAbsent))
      if lead.isAbsent then return tree else return .node .verbatim [lead, tree])
    return .node .useGroup [body]
  else fail

mutual

/-- Whether a path from the crate root stands in a tree, however deep. -/
def hasRootPath : Tree → Bool
  | .run _ => false
  | .group _ body _ _ => anyRootPath body
  | .node kind parts => kind == .verbatim || anyRootPath parts

def anyRootPath : List Tree → Bool
  | [] => false
  | t :: ts => hasRootPath t || anyRootPath ts

end

/-- A use declaration, unless a group in it holds a path from the crate root. -/
def useItem? (attrs vis : Tree) : Parser (Option Tree) := do
  let use' ← keyword "use"
  let lead ← op? "::"
  let tree ← rules (.useTree lead.isAbsent)
  let semi ← op ";"
  if hasRootPath tree then return none
  return some (.node .itemUse [attrs, vis, use', lead, tree, semi])

/-! ## Structures -/

/-- A field with a name. Fields in place of the type of a field without a name keep their tokens. -/
def namedField : Parser Tree := do
  let attrs ← outerAttributes rules
  let vis ← visibility
  let blank ← peekWord "_"
  let name ← if blank then anyWord else ident
  let colon ← op ":"
  let nested ← peek fun ts => isWord "struct" ts || (isWord "union" ts && isGroup .brace (skip ts))
  let ty ← if blank && nested then verbatim do
      let _ ← anyWord
      group .brace (commaList (rules .field))
    else rules (.type true)
  return .node .fieldDecl [attrs, vis, name, colon, ty]

def unnamedField : Parser Tree := do
  let attrs ← outerAttributes rules
  return .node .fieldDecl [attrs, ← visibility, .absent, .absent, ← rules (.type true)]

/-- The fields of a structure or a union in braces, after its name. -/
def bracedFields (attrs vis word name gens where' : Tree) : Parser Tree := do
  let body ← group .brace (commaList (namedField rules))
  return .node .itemStruct [attrs, vis, word, name, gens, where', body]

/-- A structure. A where clause in front, even an empty one, leaves no place for parentheses. -/
def structItem (attrs vis : Tree) : Parser Tree := do
  let word ← keyword "struct"
  let name ← ident
  let gens ← generics rules
  let clauseFirst ← peekWord "where"
  let where' ← whereClause rules
  if ← peekGroup .brace then bracedFields rules attrs vis word name gens where'
  else
    let fields ← if !clauseFirst && (← peekGroup .paren) then
        group .paren (commaList (unnamedField rules))
      else pure .absent
    let after ← if fields.isAbsent then pure .absent else whereClause rules
    return .node .itemTuple [attrs, vis, word, name, gens, where', fields, after, ← op ";"]

def unionItem (attrs vis : Tree) : Parser Tree := do
  let word ← anyWord
  let name ← ident
  let gens ← generics rules
  bracedFields rules attrs vis word name gens (← whereClause rules)

/-- A variant of an enumeration. A visibility in front of it means nothing. -/
def variant : Parser Tree := do
  let attrs ← outerAttributes rules
  let _ ← visibility
  let name ← ident
  let fields ← if ← peekGroup .brace then group .brace (commaList (namedField rules))
    else if ← peekGroup .paren then group .paren (commaList (unnamedField rules))
    else pure .absent
  let eq ← op? "="
  let value ← if eq.isAbsent then pure .absent else rules (.expr true)
  return .node .variant [attrs, name, fields, eq, value]

def enumItem (attrs vis : Tree) : Parser Tree := do
  let word ← keyword "enum"
  let name ← ident
  let gens ← generics rules
  let where' ← whereClause rules
  let body ← group .brace (commaList (variant rules))
  return .node .itemEnum [attrs, vis, word, name, gens, where', body]

/-! ## Declarations that stand alone and inside other items -/

/-- A function body, or a semicolon where there is none. -/
def bodyOrSemi : Parser Tree := do
  if ← peekOp ";" then op ";" else rules (.block true)

/-- A function, which needs no body. -/
def functionItem (attrs vis default : Tree) (foreign : Bool) : Parser Tree := do
  let sig ← signature rules foreign
  return .node .itemFn [attrs, vis, default, sig, ← bodyOrSemi rules]

/-- A function with a body. -/
def functionWithBody? (attrs vis default : Tree) : Parser (Option Tree) := do
  let t ← functionItem rules attrs vis default false
  return if (t.part 4).isKind .block then some t else none

/-- A constant, which needs no value. One that has generic parameters or a where clause, even
empty ones, is none. -/
def constItem? (attrs vis default : Tree) : Parser (Option Tree) := do
  let const ← keyword "const"
  let name ← if ← peekWord "_" then anyWord else ident
  let isGeneric ← peekOp "<"
  let _ ← generics rules
  let colon ← op ":"
  let ty ← rules (.type true)
  let eq ← op? "="
  let value ← if eq.isAbsent then pure .absent else rules (.expr true)
  let hasClause ← peekWord "where"
  let _ ← whereClause rules
  let semi ← op ";"
  if isGeneric || hasClause then return none
  return some (.node .itemConst [attrs, vis, default, const, name, colon, ty, eq, value, semi])

/-- A constant with a value. -/
def constValue? (attrs vis default : Tree) : Parser (Option Tree) := do
  return (← constItem? rules attrs vis default).filter fun t => !(t.part 7).isAbsent

/-- Where a type declaration may have its where clause. -/
inductive ClausePlace where
  | beforeDefinition
  | afterDefinition
  | either
deriving DecidableEq

/-- A type declaration, and whether it has a colon, perhaps without bounds after it. -/
def typeItem (attrs vis default : Tree) (place : ClausePlace) : Parser (Tree × Bool) := do
  let word ← keyword "type"
  let name ← ident
  let gens ← generics rules
  let colon ← op? ":"
  let stop : List Token → Bool := fun ts => isWord "where" ts || isOp "=" ts || isOp ";" ts
  let bounds ← if colon.isAbsent then pure .absent else boundsAfterColon rules stop
  let (shownColon, shownBounds) := withColon colon bounds
  let clauseFirst ← peekWord "where"
  let before ← if place = .afterDefinition then pure .absent else whereClause rules
  let eq ← op? "="
  let ty ← if eq.isAbsent then pure .absent else rules (.type true)
  let after ← if place = .afterDefinition || (place = .either && !clauseFirst)
    then whereClause rules else pure .absent
  let semi ← op ";"
  return (.node .itemType [attrs, vis, default, word, name, gens, shownColon, shownBounds, before,
    eq, ty, after, semi], !colon.isAbsent)

/-- A type declaration that defines a type and states no bounds. -/
def typeAlias? (attrs vis default : Tree) (place : ClausePlace) : Parser (Option Tree) := do
  let (t, hasColon) ← typeItem rules attrs vis default place
  return if hasColon || (t.part 9).isAbsent then none else some t

/-- A static variable with its type, which needs no value. -/
def staticItem (attrs vis : Tree) : Parser Tree := do
  let word ← keyword "static"
  let mut' ← keyword? "mut"
  let name ← ident
  let colon ← op ":"
  let ty ← rules (.type true)
  let eq ← op? "="
  let value ← if eq.isAbsent then pure .absent else rules (.expr true)
  return .node .itemStatic [attrs, vis, word, mut', name, colon, ty, eq, value, ← op ";"]

/-- A static variable that has both a type and a value; one of the two may be left out. -/
def staticValue? (attrs vis : Tree) : Parser (Option Tree) := do
  let untyped ← peek fun ts =>
    let next := skip ts
    let name := if isWord "mut" next then skip next else next
    isOp "=" (skip name)
  if untyped then
    let _ ← keyword "static"
    let _ ← keyword? "mut"
    let _ ← ident
    let _ ← op "="
    let _ ← rules (.expr true)
    let _ ← op ";"
    return none
  else return some (← staticItem rules attrs vis) |>.filter fun t => !(t.part 7).isAbsent

/-- A macro call that stands as an item, perhaps with a name; parentheses and brackets need a
semicolon. -/
def callItem (attrs : Tree) (named : Bool) : Parser Tree := do
  let base ← plainPath
  let bang ← op "!"
  let name ← if named && (← peek fun ts => isWord "try" ts || isIdent ts) then anyWord
    else pure .absent
  let body ← rawGroup
  let semi ← if isGroup .brace body.tokens then pure .absent else op ";"
  return .node .itemCall [attrs, base, bang, name, body, semi]

def startsCall (ts : List Token) : Bool :=
  isIdent ts || isWord "self" ts || isWord "super" ts || isWord "crate" ts || isOp "::" ts

/-! ## Members -/

/-- A member of a trait, unless it has a visibility or the word `default`. -/
def traitMember? : Parser (Option Tree) := do
  let attrs ← outerAttributes rules
  let vis ← visibility
  let default ← keyword? "default"
  let plain := vis.isAbsent && default.isAbsent
  let ts := (← get).rest
  let member ← if startsFn false ts then do
      let sig ← signature rules false
      pure (some (.node .traitFn [attrs, sig, ← bodyOrSemi rules]))
    else if isWord "const" ts then constItem? rules attrs .absent .absent
    else if isWord "type" ts then do
      pure (some (← typeItem rules attrs .absent .absent .afterDefinition).1)
    else if plain && startsCall ts then some <$> callItem attrs false
    else fail
  return if plain then member else none

/-- A member of an implementation: a function with a body, a constant with a value, a type, or a
macro call. -/
def implMember? : Parser (Option Tree) := do
  let attrs ← outerAttributes rules
  let vis ← visibility
  let default ← if ← peek fun ts => isWord "default" ts && !isOp "!" (skip ts) then
      keyword "default" else pure .absent
  let ts := (← get).rest
  if startsFn false ts then functionWithBody? rules attrs vis default
  else if isWord "const" ts then constValue? rules attrs vis default
  else if isWord "type" ts then typeAlias? rules attrs vis default .afterDefinition
  else if vis.isAbsent && default.isAbsent && startsCall ts then some <$> callItem attrs false
  else fail

/-- A member of a foreign block: a function without a body, a static variable without a value, a
type without a definition, or a macro call. Words that say how safe it is mean nothing here. -/
def foreignMember? : Parser (Option Tree) := do
  let attrs ← outerAttributes rules
  let vis ← visibility
  let ts := (← get).rest
  if startsFn true ts then
    let t ← functionItem rules attrs vis .absent true
    let isSafe := ((t.part 3).part 0).tokens.any fun word => isWord "safe" [word]
    return if isSafe || (t.part 4).isKind .block then none else some t
  else if isWord "static" ts then
    return some (← staticItem rules attrs vis) |>.filter fun t => (t.part 7).isAbsent
  else if (isWord "unsafe" ts || isWord "safe" ts) && isWord "static" (skip ts) then
    let _ ← anyWord
    let _ ← staticItem rules attrs vis
    return none
  else if isWord "type" ts then
    match ← typeItem rules attrs vis .absent .either with
    | (.node .itemType [attrs, vis, _, type', name, gens, _, _, before, .run [], _, after, semi],
        false) =>
      let where' := if before.isAbsent then after else before
      return some (.node .foreignType [attrs, vis, type', name, gens, where', semi])
    | _ => return none
  else if vis.isAbsent && startsCall ts then some <$> callItem attrs false
  else fail

/-! ## Items -/

/-- Attributes and members in braces. -/
def braced (member : Parser Tree) : Parser Tree :=
  group .brace do
    let attrs ← innerAttributes rules
    return attrs :: (← manyUntil List.isEmpty member)

def modItem (attrs vis guard : Tree) : Parser Tree := do
  let word ← keyword "mod"
  let name ← if ← peekWord "try" then anyWord else ident
  let body ← if ← peekOp ";" then op ";" else braced rules (rules .item)
  return .node .itemMod [attrs, vis, guard, word, name, body]

/-- A trait, or an alias of bounds. -/
def traitItem (attrs vis guard auto : Tree) : Parser Tree := do
  let word ← keyword "trait"
  let name ← ident
  let gens ← generics rules
  if guard.isAbsent && auto.isAbsent && (← peekOp "=") then
    let eq ← op "="
    let stop : List Token → Bool := fun ts => isWord "where" ts || isOp ";" ts
    let bounds : Tree := .node .bounds (← separated stop (rules (.bound false false)) "+")
    let where' ← whereClause rules
    return .node .itemTraitAlias [attrs, vis, word, name, gens, eq, bounds, where', ← op ";"]
  let colon ← op? ":"
  let stop : List Token → Bool := fun ts => isWord "where" ts || isGroup .brace ts
  let bounds ← if colon.isAbsent then pure (.node .bounds []) else do
    pure (.node .bounds (← separated stop (rules (.bound false true)) "+"))
  let colon := if bounds.parts.isEmpty then .absent else colon
  let where' ← whereClause rules
  let body ← braced rules (orVerbatim (traitMember? rules))
  return .node .itemTrait
    [attrs, vis, guard, auto, word, name, gens, colon, bounds, where', body]

/-- A trait as the only item. -/
def onlyTrait : Parser Tree := do
  let attrs ← outerAttributes rules
  let vis ← visibility
  let guard ← keyword? "unsafe"
  let auto ← keyword? "auto"
  let t ← traitItem rules attrs vis guard auto
  if t.isKind .itemTrait then return t else fail

/-- An implementation, unless it has a visibility or constness, or is one of a trait that is no
plain path. A negated type that is no trait keeps its tokens. -/
def implItem? (attrs vis : Tree) : Parser (Option Tree) := do
  let default ← keyword? "default"
  let guard ← keyword? "unsafe"
  let word ← keyword "impl"
  let gens ← if ← peek opensGenerics then generics rules else pure .absent
  let maybe ← if ← peek fun ts => isOp "?" ts && isWord "const" (skip ts) then op "?"
    else pure .absent
  let const ← keyword? "const"
  let ahead := (← get).rest
  let bang ← if ← peek fun ts => isOp "!" ts && !isGroup .brace (skip ts) then op "!"
    else pure .absent
  let first ← rules (.type true)
  let negated : Tree := .node .verbatim [.run (ahead.take (ahead.length - (← get).rest.length))]
  let for' ← keyword? "for"
  let (bang, trait', self) ← if for'.isAbsent then
      pure (Tree.absent, Tree.absent, if bang.isAbsent then first else negated)
    else do pure (bang, first, ← rules (.type true))
  let where' ← whereClause rules
  let body ← braced rules (orVerbatim (implMember? rules))
  let words : Tree := .run (default.tokens ++ guard.tokens ++ word.tokens)
  let plain := vis.isAbsent && maybe.isAbsent && const.isAbsent
    && (for'.isAbsent || (trait'.isKind .typePath && (trait'.part 0).isKind .path))
  if !plain then return none
  return some (.node .itemImpl [attrs, words, gens, bang, trait', for', self, where', body])

/-- A foreign block, or a declaration of a foreign unit of code. -/
def externItem (attrs vis guard : Tree) : Parser Tree := do
  let abi ← abi?
  if abi.tokens.length = 1 && guard.isAbsent && (← peekWord "crate") then
    let crate ← keyword "crate"
    let name ← if ← peekWord "self" then anyWord else ident
    let as' ← keyword? "as"
    let renamed ← if as'.isAbsent then pure .absent
      else if ← peekWord "_" then anyWord else ident
    return .node .itemCrate [attrs, vis, abi, crate, name, as', renamed, ← op ";"]
  if !vis.isAbsent then fail
  return .node .itemForeign
    [attrs, guard, abi, ← braced rules (orVerbatim (foreignMember? rules))]

/-- A macro definition with the word `macro`. -/
def macroDefinition : Parser Unit := do
  let _ ← keyword "macro"
  let _ ← ident
  if ← peekGroup .paren then
    let _ ← rawGroup
  if ← peekGroup .brace then
    let _ ← rawGroup
  else fail

/-- An item; `none` for one that keeps its tokens. -/
def item? : Parser (Option Tree) := do
  let attrs ← outerAttributes rules
  let vis ← visibility
  let ts := (← get).rest
  let next := skip ts
  if startsFn false ts then functionWithBody? rules attrs vis .absent
  else if isWord "extern" ts then some <$> externItem rules attrs vis .absent
  else if isWord "use" ts then useItem? rules attrs vis
  else if isWord "static" ts then staticValue? rules attrs vis
  else if isWord "const" ts then constValue? rules attrs vis .absent
  else if isWord "unsafe" ts then
    if isWord "trait" next || (isWord "auto" next && isWord "trait" (skip next)) then
      return some (← traitItem rules attrs vis (← anyWord) (← keyword? "auto"))
    else if isWord "impl" next then implItem? rules attrs vis
    else if isWord "extern" next then return some (← externItem rules attrs vis (← anyWord))
    else if isWord "mod" next then return some (← modItem rules attrs vis (← anyWord))
    else fail
  else if isWord "mod" ts then some <$> modItem rules attrs vis .absent
  else if isWord "type" ts then typeAlias? rules attrs vis .absent .beforeDefinition
  else if isWord "struct" ts then some <$> structItem rules attrs vis
  else if isWord "enum" ts then some <$> enumItem rules attrs vis
  else if isWord "union" ts && isIdent next then some <$> unionItem rules attrs vis
  else if isWord "trait" ts then some <$> traitItem rules attrs vis .absent .absent
  else if isWord "auto" ts && isWord "trait" next then
    return some (← traitItem rules attrs vis .absent (← anyWord))
  else if isWord "impl" ts || (isWord "default" ts && !isOp "!" next) then
    implItem? rules attrs vis
  else if isWord "macro" ts then
    macroDefinition
    return none
  else if vis.isAbsent && startsCall ts then some <$> callItem attrs true
  else fail

def item : Parser Tree := orVerbatim (item? rules)

/-- The attributes and items of a file. -/
def file : Parser (List Tree) := do
  let attrs ← innerAttributes rules
  return attrs :: (← manyUntil List.isEmpty (rules .item))

end TypedSettings.Source.Grammar
