import TypedSettings.Layout.Expressions

/-!
The layout of statements and items. Each ends its line.
-/

namespace TypedSettings.Layout

open Source

variable (sub : Layouts)

/-! ## Statements -/

/-- What follows the pattern of a local variable: its value, and what is done when the pattern does
not match. -/
def localStmt (pat value diverge : Tree) : List Doc :=
  let start := word "let " ++ sub .pattern pat
  if value.isAbsent then filled 0 start
  else
    let start := start ++ word " = " ++ stay ++ sub .expr value
    if diverge.isAbsent then filled 0 start
    else
      filled 0 (start ++ space ++ word "else ") ++ stay
        ++ uniform step (smallBlock sub .absent diverge)

def statement (t : Tree) : List Doc :=
  match t with
  | .node .localStmt [attrs, _, pat, _, value, _, diverge, _] =>
    attributes sub attrs ++ localStmt sub pat value diverge ++ word ";" ++ newline
  | .node .exprStmt [e, semi] =>
    let ends := if semi.isAbsent then takesSemicolon e else !losesSemicolon e
    filled 0 (sub .lineStart e ++ if ends then word ";" else []) ++ newline
  | .node .callStmt [attrs, call, semi] =>
    attributes sub attrs ++ invocation call ++ word semi.text ++ newline
  | .node .itemStmt [i] => sub .item i
  | _ => []

/-! ## Functions -/

/-- A visibility and a blank. A path word alone needs no `in`. -/
def visibility (t : Tree) : List Doc :=
  match t with
  | .node .visibility [pub] => verbatim pub ++ word " "
  | .node .visibility [pub, body] =>
    match body.tokens with
    | [.group _ inner _ _] =>
      let path := inner.filter fun t => !Token.isWord "in" [t]
      let text := String.join (path.map fun t => Token.text [t])
      verbatim pub ++ word "("
        ++ (if ["crate", "self", "super"].contains text then [] else word "in ")
        ++ word text ++ word ") "
    | _ => verbatim pub ++ word " "
  | _ => []

/-- A parameter of a function. -/
def parameter (t : Tree) : List Doc :=
  match t with
  | .node .receiver [attrs, amp, lifetime, mut', _, _, ty] =>
    attributes sub attrs ++ verbatim amp ++ wordBefore lifetime ++ wordBefore mut' ++ word "self"
      ++ if ty.isAbsent then [] else word ": " ++ sub .type ty
  | .node .param [attrs, pat, _, ty] =>
    attributes sub attrs ++ sub .pattern pat ++ word ": " ++ sub .type ty
  | .node .variadic [attrs, pat, _, dots] =>
    attributes sub attrs ++ (if pat.isAbsent then [] else sub .pattern pat ++ word ": ")
      ++ verbatim dots
  | t => verbatim t

/-- The head of a function without its where clause. -/
def signature (t : Tree) : List Doc :=
  match t with
  | .node .signature [words, _, name, gens, params, res, _] =>
    let ps := groupMembers params
    wordsBefore words ++ word "fn " ++ verbatim name ++ generics sub gens ++ word "(" ++ stay
      ++ uniform 0 (outdent (cut ++ eachThen
          (fun last => if last && ps.getLast?.any (Tree.isKind .variadic) then cut else comma last)
          (ps.map (parameter sub))))
      ++ word ")" ++ uniform (-step) (result sub res)
  | t => verbatim t
where
  /-- The words in front, of which the last may have a text after it. -/
  wordsBefore (words : Tree) : List Doc :=
    words.tokens.flatMap fun token => word (Token.text [token] ++ " ")

/-- The where clause of a function. -/
def signatureWhere (t : Tree) : Tree := t.part 6

/-- A function; `head` is what stands before its signature. -/
def functionWithBody (head : List Doc) (sig body : Tree) : List Doc :=
  uniform step (head ++ signature sub sig ++ whereBeforeBody sub (signatureWhere sig)
      ++ word "\x7b" ++ outdent (newlineInside ++ attributes sub (blockAttributes body)
        ++ statements sub (blockStatements body)))
    ++ word "\x7d" ++ newline

/-- The members of an item in braces: attributes, and items that end their lines. -/
def braces (body : Tree) : List Doc :=
  word "\x7b" ++ outdent (newlineInside ++ attributes sub (body.part 0)
    ++ (body.parts.drop 1).flatMap (sub .item))

/-! ## Use declarations -/

/-- Whether what a use declaration names ends in a group. -/
def endsInGroup (t : Tree) : Bool :=
  match t with
  | .node .usePath [_, _, rest] => endsInGroup rest
  | t => t.isKind .useGroup

/-- Whether a group of one member needs its braces: `self` alone names nothing. -/
def namesSelf (t : Tree) : Bool :=
  (t.isKind .useName || t.isKind .useRename) && (t.part 0).word == "self"

/-- The members of a group in a use declaration, set by `member`. -/
def useMembers (member : Tree → List Doc) (ts : List Tree) : List Doc :=
  let gaps := ts.map fun t => word "," ++ if endsInGroup t then newline else space
  let members := ts.map member
  uniform step (word "\x7b" ++ cut
    ++ filled 0 ((List.zipWith (· ++ ·) members gaps.dropLast).flatten
        ++ members.getLast?.getD [])
    ++ outdent (comma true) ++ word "\x7d")

/-- What a use declaration names; `depth` bounds how deep its groups are nested. -/
def useTree (depth : Nat) (t : Tree) : List Doc :=
  match depth, t with
  | depth + 1, .node .usePath [name, _, rest] => verbatim name ++ word "::" ++ useTree depth rest
  | _, .node .useRename [name, _, renamed] => verbatim name ++ word " as " ++ verbatim renamed
  | depth + 1, .node .useGroup [body] =>
    match groupMembers body with
    | [] => word "\x7b\x7d"
    | [only] =>
      if namesSelf only then useMembers (useTree depth) [only] else useTree depth only
    | ts => useMembers (useTree depth) ts
  | _, t => verbatim t

/-! ## Items -/

/-- A field of a structure. -/
def fieldDecl (t : Tree) : List Doc :=
  match t with
  | .node .fieldDecl [attrs, vis, name, _, ty] =>
    attributes sub attrs ++ visibility vis
      ++ (if name.isAbsent then [] else verbatim name ++ word ": ") ++ sub .type ty
  | t => verbatim t

/-- The fields of a structure or a variant without names, in parentheses. -/
def unnamedFields (fields : Tree) : List Doc :=
  word "(" ++ listed step ((groupMembers fields).map (fieldDecl sub)) ++ word ")"

def variant (t : Tree) : List Doc :=
  match t with
  | .node .variant [attrs, name, fields, _, value] =>
    attributes sub attrs ++ verbatim name
      ++ (match fields with
        | .group .brace _ _ _ =>
          word " \x7b" ++ uniform step (outdent (space
              ++ eachThen commaOrSpace ((groupMembers fields).map (fieldDecl sub))))
            ++ word "\x7d"
        | .group _ _ _ _ => unnamedFields sub fields
        | _ => [])
      ++ if value.isAbsent then [] else word " = " ++ sub .expr value
  | t => verbatim t

/-- A declaration with a type, and perhaps a value. -/
def valueItem (head : List Doc) (ty value : Tree) : List Doc :=
  uniform 0 (head ++ word ": " ++ sub .type ty
      ++ (if value.isAbsent then [] else word " = " ++ stay ++ sub .expr value) ++ word ";")
    ++ newline

/-- The type that a type declaration defines. -/
def definition (ty : Tree) : List Doc :=
  if ty.isAbsent then [] else word "= " ++ stay ++ filled (-step) (sub .type ty)

/-- A type declaration after its name. Its where clause stands before the definition or after it. -/
def typeDeclaration (bounds before ty after : Tree) : List Doc :=
  boundsOnLines (Tree.members bounds.parts)
    ++ (if ty.isAbsent then [] else whereInLine sub before ++ definition sub ty)
    ++ whereInLineAndSemicolon sub after
where
  boundsOnLines : List Tree → List Doc
    | [] => []
    | first :: rest =>
      word ": " ++ sub .bound first ++ rest.flatMap fun b => space ++ word "+ " ++ sub .bound b

/-- The head of an implementation up to the type. -/
def implHead (words gens bang trait' self : Tree) : List Doc :=
  filled (-step)
    (uniform step (verbatim words ++ generics sub gens) ++ word " "
      ++ (if trait'.isAbsent then []
        else verbatim bang ++ sub .type trait' ++ space ++ word "for ")
      ++ sub .type self)

/-- A function with a body, or with a semicolon in place of one. -/
def function (head : List Doc) (sig body : Tree) : List Doc :=
  if body.isKind .block then functionWithBody sub head sig body
  else
    uniform step (head ++ signature sub sig ++ whereAndSemicolon sub (signatureWhere sig))
      ++ newline

/-- An item, also one that is a member of another. -/
def item (t : Tree) : List Doc :=
  match t with
  | .node .itemUse [attrs, vis, _, lead, tree, _] =>
    attributes sub attrs ++ visibility vis ++ word "use " ++ verbatim lead
      ++ useTree (Token.count tree.tokens + 1) tree ++ word ";" ++ newline
  | .node .itemStruct [attrs, vis, keyword, name, gens, where', body] =>
    attributes sub attrs
      ++ uniform step (visibility vis ++ wordBefore keyword ++ verbatim name ++ generics sub gens
        ++ whereBeforeBody sub where' ++ word "\x7b"
        ++ outdent (newlineInside
          ++ (groupMembers body).flatMap fun f => fieldDecl sub f ++ word "," ++ newline))
      ++ word "\x7d" ++ newline
  | .node .itemImpl [attrs, words, gens, bang, trait', _, self, where', body] =>
    attributes sub attrs
      ++ uniform step (implHead sub words gens bang trait' self ++ whereBeforeBody sub where'
        ++ braces sub body)
      ++ word "\x7d" ++ newline
  | .node .itemFn [attrs, vis, default, sig, body] =>
    attributes sub attrs ++ function sub (visibility vis ++ wordBefore default) sig body
  | .node .traitFn [attrs, sig, body] => attributes sub attrs ++ function sub [] sig body
  | .node .itemMod [attrs, vis, guard, _, name, body] =>
    let head := visibility vis ++ wordBefore guard ++ word "mod " ++ verbatim name
    attributes sub attrs ++
      match body with
      | .group _ _ _ _ =>
        uniform step (head ++ word " " ++ braces sub body) ++ word "\x7d" ++ newline
      | _ => head ++ word ";" ++ newline
  | .node .itemTrait [attrs, vis, guard, auto, _, name, gens, _, bounds, where', body] =>
    attributes sub attrs
      ++ uniform step (visibility vis ++ wordBefore guard ++ wordBefore auto ++ word "trait "
        ++ verbatim name ++ generics sub gens
        ++ (if bounds.parts.isEmpty then [] else word ": " ++ boundsInLine sub bounds)
        ++ whereBeforeBody sub where' ++ braces sub body)
      ++ word "\x7d" ++ newline
  | .node .itemTraitAlias [attrs, vis, _, name, gens, _, bounds, where', _] =>
    attributes sub attrs
      ++ uniform step (visibility vis ++ word "trait " ++ verbatim name ++ generics sub gens
        ++ word " = " ++ stay
        ++ between (space ++ word "+ ") ((Tree.members bounds.parts).map (sub .bound))
        ++ whereAndSemicolon sub where')
      ++ newline
  | .node .itemConst [attrs, vis, default, _, name, _, ty, _, value, _] =>
    attributes sub attrs
      ++ valueItem sub (visibility vis ++ wordBefore default ++ word "const " ++ verbatim name) ty
        value
  | .node .itemStatic [attrs, vis, _, mut', name, _, ty, _, value, _] =>
    attributes sub attrs
      ++ valueItem sub (visibility vis ++ word "static " ++ wordBefore mut' ++ verbatim name) ty
        value
  | .node .itemType [attrs, vis, default, _, name, gens, _, bounds, before, _, ty, after, _] =>
    attributes sub attrs
      ++ uniform step (visibility vis ++ wordBefore default ++ word "type " ++ verbatim name
        ++ generics sub gens ++ typeDeclaration sub bounds before ty after)
      ++ newline
  | .node .foreignType [attrs, vis, _, name, gens, _, _] =>
    attributes sub attrs
      ++ uniform 0 (visibility vis ++ word "type " ++ verbatim name ++ generics sub gens
        ++ word ";")
      ++ newline
  | .node .itemTuple [attrs, vis, _, name, gens, where', fields, after, _] =>
    attributes sub attrs
      ++ uniform step (visibility vis ++ word "struct " ++ verbatim name ++ generics sub gens
        ++ (if fields.isAbsent then whereAndSemicolon sub where'
          else unnamedFields sub fields ++ whereAndSemicolon sub after))
      ++ newline
  | .node .itemEnum [attrs, vis, _, name, gens, where', body] =>
    attributes sub attrs
      ++ uniform step (visibility vis ++ word "enum " ++ verbatim name ++ generics sub gens
        ++ whereBeforeBody sub where' ++ word "\x7b"
        ++ outdent (newlineInside
          ++ (groupMembers body).flatMap fun v => variant sub v ++ word "," ++ newline))
      ++ word "\x7d" ++ newline
  | .node .itemCrate [attrs, vis, _, _, name, _, renamed, _] =>
    attributes sub attrs ++ visibility vis ++ word "extern crate " ++ verbatim name
      ++ (if renamed.isAbsent then [] else word " as " ++ verbatim renamed) ++ word ";" ++ newline
  | .node .itemForeign [attrs, guard, abi', body] =>
    attributes sub attrs ++ uniform step (wordBefore guard ++ abi abi' ++ braces sub body)
      ++ word "\x7d" ++ newline
  | .node .itemCall [attrs, path, _, name, body, semi] =>
    attributes sub attrs ++ callItem path name body semi ++ newline
  | t => verbatim t ++ newline

end TypedSettings.Layout
