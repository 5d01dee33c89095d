import TypedSettings.Layout.Patterns

/-!
The layout of expressions and blocks.
-/

namespace TypedSettings.Layout

open Source

variable (sub : Layouts)

/-! ## What sort of expression -/

/-- An expression that ends in brackets of its own, so that it may stand directly in the brackets
of a call or after the bars of a closure. -/
def isBracketed (e : Tree) : Bool :=
  [Kind.array, .asyncBlock, .blockExpr, .closure, .constBlock, .structExpr, .tryBlock, .tuple,
   .guardedBlock].any fun k => e.isKind k

/-- An expression without the attributes in front of it. -/
def withoutAttributes (e : Tree) : Tree :=
  match e with
  | .node .attributed [_, inner] => inner
  | e => e

/-- An expression that ends itself, as a statement or an arm. -/
def endsItself (e : Tree) : Bool :=
  [Kind.ifExpr, .matchExpr, .blockExpr, .guardedBlock, .whileLoop, .loop, .forLoop, .tryBlock,
   .constBlock].any fun k => (withoutAttributes e).isKind k

/-- The same for a statement, where a macro call in braces ends itself too. -/
def endsStatement (e : Tree) : Bool :=
  endsItself e || match withoutAttributes e with
    | .node .invocation [_, _, body] => Token.isGroup .brace body.tokens
    | _ => false

/-- Whether an expression read as a statement is still that expression: its first part ends no
statement. -/
def standsAsStatement (e : Tree) : Bool :=
  match e with
  | .node .attributed [_, inner] => standsAsStatement inner
  | .node .letExpr _ => false
  | .node .await [base, _, _] => standsAsStatement base
  | .node .field [base, _, _] => standsAsStatement base
  | .node .methodCall [base, _, _, _, _] => standsAsStatement base
  | .node .tryExpr [base, _] => standsAsStatement base
  | .node .assign [base, _, _] => !endsStatement base && standsAsStatement base
  | .node .binary [base, _, _] => !endsStatement base && standsAsStatement base
  | .node .call [base, _] => !endsStatement base && standsAsStatement base
  | .node .cast [base, _, _] => !endsStatement base && standsAsStatement base
  | .node .index [base, _] => !endsStatement base && standsAsStatement base
  | .node .range [start, _, _] =>
    start.isAbsent || (!endsStatement start && standsAsStatement start)
  | _ => true

/-- An expression that gets a semicolon as a statement even where it gives the value. -/
def takesSemicolon (e : Tree) : Bool :=
  match e with
  | .node .attributed [_, inner] => takesSemicolon inner
  | .node .binary [_, op, _] =>
    match op.text.toList.getLast? with
    | some '=' => !(["==", "<=", ">=", "!="].contains op.text)
    | _ => false
  | e => [Kind.assign, .breakExpr, .continueExpr, .returnExpr, .yieldExpr].any fun k => e.isKind k

/-- An expression whose semicolon as a statement is left out. -/
def losesSemicolon (e : Tree) : Bool :=
  match e with
  | .node .attributed [_, inner] => losesSemicolon inner
  | .node .ifExpr [_, _, _, _, branch] => branch.isAbsent || losesSemicolon branch
  | e => e.isKind .forLoop || e.isKind .whileLoop

/-- A condition that, set on several lines, has the brace after it on a line of its own. -/
def bracesApart (e : Tree) : Bool :=
  match e with
  | .node .attributed [_, inner] => bracesApart inner
  | .node .call [f, _] => bracesApart f
  | .node .letExpr [_, _, _, value] => bracesApart value
  | .node .paren [.group _ [inner] _ _] => bracesApart inner
  | .node .breakExpr [_, _, value] => bracesApart value
  | .node .returnExpr [_, value] => bracesApart value
  | .node .yieldExpr [_, value] => bracesApart value
  | .node .range [_, _, stop] => bracesApart stop
  | .node .rawAddress [_, _, _, inner] => bracesApart inner
  | .node .reference [_, _, inner] => bracesApart inner
  | .node .tryExpr [inner, _] => bracesApart inner
  | .node .unary [_, inner] => bracesApart inner
  | e => [Kind.assign, .await, .binary, .cast, .field, .index, .methodCall].any fun k => e.isKind k

/-- A name of at most four letters; what follows it stays on its line. -/
def isShortName (e : Tree) : Bool :=
  match e with
  | .node .pathExpr [.node .path [.run [], .node .segment [name, .run []]]] =>
    decide (name.text.utf8ByteSize ≤ 4)
  | _ => false

/-- Literals that fill their lines in an array. -/
def isSmallLiteral (e : Tree) : Bool :=
  match withoutAttributes e with
  | .node .literal [t] =>
    match Literal.read? t.tokens with
    | some (l, _) =>
      match l.kind with
      | .byte => true
      | .char => true
      | .int _ => true
      | .bool _ => true
      | _ => false
    | none => false
  | _ => false

/-! ## Blocks -/

/-- The attributes inside a block. -/
def blockAttributes (block : Tree) : Tree := (block.part 0).part 0

def blockStatements (block : Tree) : List Tree := (block.part 0).parts.drop 1

/-- Statements in order. -/
def statements (stmts : List Tree) : List Doc := stmts.flatMap (sub .statement)

/-- What stands in the braces of a block that takes several lines. -/
def blockLines (attrs : Tree) (stmts : List Tree) : List Doc :=
  uniform step (outdent (newlineInside ++ attributes sub attrs ++ statements sub stmts))

/-- A block that takes several lines, after what introduces it. -/
def longBlock (block : Tree) : List Doc :=
  word "\x7b" ++ stay ++ blockLines sub (blockAttributes block) (blockStatements block)
    ++ word "\x7d"

/-- A block that stays on one line when it holds one expression that fits. -/
def smallBlock (attrs : Tree) (block : Tree) : List Doc :=
  let stmts := blockStatements block
  let inside :=
    match stmts with
    | [.node .exprStmt [e, .run []]] => filled 0 (sub .lineStart e) ++ space
    | _ => statements sub stmts
  word "\x7b"
    ++ (if attrs.parts.isEmpty && stmts.isEmpty then []
      else outdent (space ++ attributes sub attrs ++ inside))
    ++ word "\x7d"

/-- A block with its attributes. -/
def ownBlock (block : Tree) : List Doc :=
  uniform step (smallBlock sub (blockAttributes block) block)

/-- An expression in braces. -/
def bracedExpr (shift : Int) (e : Tree) : List Doc :=
  word "\x7b" ++ space ++ filled shift (sub .lineStart e) ++ outdent space ++ word "\x7d"

/-! ## Fields, calls and indexes -/

/-- The arguments of a call. A single one with brackets of its own stands directly in the
parentheses. -/
def callArguments (body : Tree) : List Doc :=
  let args := groupMembers body
  word "("
    ++ (match args with
      | [arg] => if isBracketed arg then sub .expr arg else listed step [sub .expr arg]
      | _ => listed step (args.map (sub .expr)))
    ++ word ")"

/-- An index in brackets. -/
def indexAfter (body : Tree) : List Doc := word "[" ++ sub .expr (body.part 0) ++ word "]"

/-- A number that ends in a point. -/
def endsInPoint (t : Tree) : Bool := t.isKind .literal && t.text.toList.getLast? = some '.'

/-- A gap before a point. A point before it on the same line is kept apart by a blank. -/
def cutBeforePoint (lineStart : Bool) (base : Tree) : List Doc :=
  if lineStart && isShortName base then []
  else if endsInPoint base then [.gap { kept := " " }]
  else cut

/-- A chain of fields, calls and indexes without the group around it. -/
def links (lineStart shiftBack : Bool) (t : Tree) : List Doc :=
  match t with
  | .node .await [base, _, _] =>
    sub (.chain lineStart) base ++ cutBeforePoint lineStart base ++ word ".await"
  | .node .field [base, _, member] =>
    sub (.chain lineStart) base ++ cutBeforePoint lineStart base ++ word "." ++ verbatim member
  | .node .index [base, body] =>
    sub (.chain lineStart) base ++ indexAfter sub body
  | .node .tryExpr [base, _] => sub (.chain lineStart) base ++ word "?"
  | .node .call [f, args] => sub (.chain false) f ++ callArguments sub args
  | .node .methodCall [base, _, name, turbofish, args] =>
    sub (.chain lineStart) base ++ cutBeforePoint lineStart base ++ word "." ++ verbatim name
      ++ pathArguments sub .expr turbofish
      ++ uniform (if shiftBack then -step else 0) (callArguments sub args)
  | t => sub .expr t

/-- Whether an expression that ends a chain makes a group of it. -/
def isChain (t : Tree) : Bool := [Kind.await, .field, .methodCall].any fun k => t.isKind k

/-- Whether an expression goes on with the chain that it starts with. -/
def isLink (t : Tree) : Bool := isChain t || [Kind.call, .index, .tryExpr].any fun k => t.isKind k

/-- The beginning of a chain. -/
def chain (lineStart : Bool) (t : Tree) : List Doc :=
  if isLink t then links sub lineStart false t else uniform (-step) (sub .expr t)

/-- A whole chain. -/
def wholeChain (lineStart : Bool) (t : Tree) : List Doc :=
  let shiftBack := lineStart && t.isKind .methodCall && isShortName (t.part 0)
  uniform step (links sub lineStart shiftBack t)

/-! ## Branches -/

/-- The condition before a brace. -/
def condition (e : Tree) : List Doc :=
  uniform 0 (sub .expr e ++ if bracesApart e then space else word " ")

/-- The head of an `if` with its first block, which is followed by others. -/
def ifHead (cond block : Tree) : List Doc :=
  word "if " ++ uniform (-step) (condition sub cond) ++ smallBlock sub .absent block

/-- What follows `else`. -/
def otherwise (t : Tree) : List Doc :=
  match t with
  | .node .ifExpr [_, cond, block, _, branch] =>
    ifHead sub cond block
      ++ if branch.isAbsent then [] else word " else " ++ sub .otherwise branch
  | .node .blockExpr [_, block] => smallBlock sub .absent block
  | t => bracedExpr sub step t

def ifExpr (cond block branch : Tree) : List Doc :=
  uniform step <|
    if branch.isAbsent then
      let stmts := blockStatements block
      word "if " ++ uniform (-step) (condition sub cond) ++ word "\x7b"
        ++ (if stmts.isEmpty then [] else outdent (newline ++ statements sub stmts))
        ++ word "\x7d"
    else ifHead sub cond block ++ word " else " ++ sub .otherwise branch

/-- The body of an arm without the braces around a single expression. -/
def armBody (t : Tree) : Tree :=
  match t with
  | .node .blockExpr
      [.run [], .node .block [.group _ [.node .attributes [], .node .exprStmt [e, .run []]] _ _]] =>
    armBody e
  | .node .tuple [.group _ [] pos close] =>
    .node .blockExpr
      [.absent, .node .block [.group .brace [.node .attributes []] pos close]]
  | t => t

def label (t : Tree) : List Doc :=
  if t.isAbsent then [] else verbatim (t.part 0) ++ word ": "

/-- The body of an arm that is no block: braces are added when it takes several lines. -/
def armExpr (e : Tree) : List Doc :=
  let braced := standsAsStatement e
  stay ++ uniform step
    ([.gap { before := if braced then "\x7b" else "(" }]
      ++ sub .lineStart e
      ++ [.gap {
          shift := -step
          before := if braced && takesSemicolon e then ";" else ""
          after := if braced then "\x7d" else "),"
          kept := if endsItself e then "" else "," }])

/-- An arm. The attributes of a block in it are left out. -/
def arm (t : Tree) : List Doc :=
  match t with
  | .node .arm [attrs, pat, _, guard, _, body, _] =>
    attributes sub attrs ++ filled 0
      (sub .pattern pat
        ++ (if guard.isAbsent then [] else word " if " ++ sub .expr guard)
        ++ word " => "
        ++ match armBody body with
          | .node .blockExpr [l, block] => label l ++ longBlock sub block
          | .node .attributed [_, .node .blockExpr [l, block]] => label l ++ longBlock sub block
          | e => armExpr sub e)
  | t => verbatim t

def matchExpr (scrutinee body : Tree) : List Doc :=
  filled 0
    (word "match " ++ condition sub scrutinee ++ word "\x7b" ++ stay
      ++ uniform step (outdent (newlineInside ++ attributes sub (body.part 0)
        ++ (body.parts.drop 1).flatMap fun a => arm sub a ++ newline))
      ++ word "\x7d")

/-! ## Closures -/

/-- The body of a closure: braces are added when it takes several lines, unless it has brackets of
its own. -/
def closureBody (e : Tree) : List Doc :=
  if isBracketed e || e.isKind .matchExpr || e.isKind .call then sub .expr e
  else
    let braced := standsAsStatement e
    uniform step
      ([.gap { before := if braced then "\x7b" else "(" }]
        ++ sub .expr e
        ++ [.gap {
            shift := -step
            before := if braced && takesSemicolon e then ";" else ""
            after := if braced then "\x7d" else ")" }])

/-- The parameters of a closure with a comma between them. -/
def closureParams (params : List Tree) : List Doc :=
  if params.isEmpty then [] else cut ++ between (word "," ++ space) (params.map (sub .pattern))

def isPlainBlock : Tree → Bool
  | .node .blockExpr [.run [], block] => (blockAttributes block).parts.isEmpty
  | _ => false

def closure (bound words params res body : Tree) : List Doc :=
  let ps := Tree.members params.parts
  let bars := word "|" ++ closureParams sub ps
  filled 0 (boundParams sub bound
    ++ wordBefore words
    ++ if res.isAbsent then
        uniform step (bars ++ word "|" ++ outdent space) ++ stay ++ closureBody sub body
      else
        uniform step (bars ++ (if ps.isEmpty then [] else outdent (comma true)) ++ word "|")
          ++ result sub res ++ word " " ++ stay
          ++ if isPlainBlock body then sub .expr body else uniform step (bracedExpr sub 0 body))

/-! ## Structures, arrays and ranges -/

/-- A blank that keeps the dots in front of an expression from the dots that it starts with. -/
def betweenDots : Tree → List Doc
  | .node .range (.run [] :: _) => word " "
  | _ => []

def fieldValue (t : Tree) : List Doc :=
  match t with
  | .node .fieldValue [attrs, member, colon, value] =>
    attributes sub attrs ++ verbatim member
      ++ if colon.isAbsent then [] else word ": " ++ filled 0 (sub .expr value)
  | .node .rest [_, base] => word ".." ++ betweenDots base ++ sub .expr base
  | t => verbatim t

/-- The dots before the structure that gives the other fields, without that structure. -/
def isBareRest : Tree → Bool
  | .node .rest [_, base] => base.isAbsent
  | _ => false

/-- A structure literal. One that is wider than 34 columns takes several lines. Dots alone are left
out. -/
def structExpr (name body : Tree) : List Doc :=
  let fields := (groupMembers body).filter fun f => !isBareRest f
  uniformWithin 34 step
      (filled (-step) (path sub .expr name) ++ word " \x7b" ++ outdent (spaceInside
        ++ eachThen (fun last =>
            if last && fields.getLast?.any (Tree.isKind .rest) then space else commaOrSpace last)
          (fields.map (fieldValue sub))))
    ++ word "\x7d"

def array (body : Tree) : List Doc :=
  let elems := groupMembers body
  if elems.isEmpty then word "[]"
  else if elems.all isSmallLiteral then
    uniform step
      (word "[" ++ cut ++ filled 0 (between (word "," ++ space) (elems.map (sub .expr)))
        ++ outdent (comma true) ++ word "]")
  else word "[" ++ listed step (elems.map (sub .expr)) ++ word "]"

def range (start limits stop : Tree) : List Doc :=
  (if start.isAbsent then [] else sub .expr start) ++ verbatim limits
    ++ if stop.isAbsent then [] else betweenDots stop ++ sub .expr stop

/-- A word with a value, when there is one. -/
def wordAndValue (w : String) (value : Tree) : List Doc :=
  word w ++ if value.isAbsent then [] else word " " ++ sub .expr value

/-- The text of a literal; a minus stands directly before its digits. -/
def literalText (t : Tree) : String := String.join (t.tokens.map fun token => Token.text [token])

/-! ## Expressions -/

def expr (t : Tree) : List Doc :=
  match t with
  | .node .attributed [attrs, e] => attributes sub attrs ++ sub .expr e
  | .node .array [body] => array sub body
  | .node .assign [left, _, right] =>
    filled 0 (sub .expr left ++ word " = " ++ stay ++ sub .expr right)
  | .node .asyncBlock [_, move, block] => word "async " ++ wordBefore move ++ ownBlock sub block
  | .node .binary [left, op, right] =>
    filled step (filled (-step) (sub .expr left) ++ space ++ verbatim op ++ word " "
      ++ sub .expr right)
  | .node .blockExpr [l, block] => label l ++ ownBlock sub block
  | .node .breakExpr [_, lifetime, value] =>
    wordAndValue sub (if lifetime.isAbsent then "break" else "break " ++ lifetime.text) value
  | .node .call [f, args] => sub .expr f ++ callArguments sub args
  | .node .cast [e, _, ty] =>
    filled step (filled (-step) (sub .expr e) ++ space ++ word "as " ++ sub .type ty)
  | .node .closure [bound, words, _, params, _, res, body] =>
    closure sub bound words params res body
  | .node .constBlock [_, block] => word "const " ++ ownBlock sub block
  | .node .continueExpr [_, lifetime] =>
    word (if lifetime.isAbsent then "continue" else "continue " ++ lifetime.text)
  | .node .forLoop [l, _, pat, _, e, block] =>
    filled 0 (label l ++ word "for " ++ sub .pattern pat ++ word " in " ++ stay
      ++ condition sub e ++ longBlock sub block)
  | .node .ifExpr [_, cond, block, _, branch] => ifExpr sub cond block branch
  | .node .index [base, body] => sub .expr base ++ indexAfter sub body
  | .node .letExpr [_, pat, _, value] =>
    filled 0 (word "let " ++ filled 0 (sub .pattern pat) ++ word " = " ++ stay
      ++ sub .expr value)
  | .node .literal [l] => word (literalText l)
  | .node .loop [l, _, block] =>
    label l ++ word "loop \x7b"
      ++ blockLines sub (blockAttributes block) (blockStatements block) ++ word "\x7d"
  | .node .invocation _ => invocation t
  | .node .matchExpr [_, scrutinee, body] => matchExpr sub scrutinee body
  | .node .paren [body] => word "(" ++ sub .expr (body.part 0) ++ word ")"
  | .node .pathExpr [p] => path sub .expr p
  | .node .range [start, limits, stop] => range sub start limits stop
  | .node .rawAddress [_, _, access, e] => word "&raw " ++ wordBefore access ++ sub .expr e
  | .node .reference [_, mut', e] => word "&" ++ wordBefore mut' ++ sub .expr e
  | .node .repeated [body] =>
    word "[" ++ sub .expr (body.part 0) ++ word "; " ++ sub .expr (body.part 2) ++ word "]"
  | .node .returnExpr [_, value] => wordAndValue sub "return" value
  | .node .structExpr [name, body] => structExpr sub name body
  | .node .tryExpr [base, _] => sub .expr base ++ word "?"
  | .node .tryBlock [_, block] => word "try " ++ ownBlock sub block
  | .node .tuple [body] => word "(" ++ listedTuple ((groupMembers body).map (sub .expr)) ++ word ")"
  | .node .unary [op, e] => verbatim op ++ sub .expr e
  | .node .guardedBlock [_, block] => word "unsafe " ++ ownBlock sub block
  | .node .whileLoop [l, _, cond, block] =>
    label l ++ word "while " ++ condition sub cond ++ longBlock sub block
  | .node .yieldExpr [_, value] => wordAndValue sub "yield" value
  | t => if isChain t then wholeChain sub false t else verbatim t

/-- An expression that starts a line. -/
def lineStart (t : Tree) : List Doc :=
  match t with
  | .node .attributed [attrs, e] => attributes sub attrs ++ sub .lineStart e
  | .node .call [f, args] => sub .lineStart f ++ callArguments sub args
  | .node .index [base, body] => sub .lineStart base ++ indexAfter sub body
  | .node .tryExpr [base, _] => sub .lineStart base ++ word "?"
  | t => if isChain t then wholeChain sub true t else sub .expr t

end TypedSettings.Layout
