import TypedSettings.Layout.Types

/-!
The layout of patterns.
-/

namespace TypedSettings.Layout

open Source

variable (sub : Layouts)

/-- Whether one of several patterns is more than a literal or a wildcard; then each stands on its
line when they do not fit on one. -/
def hasLongPattern (cases : List Tree) : Bool :=
  cases.any fun t => !(t.isKind .patLiteral || t.isKind .patWild)

/-- A field of a structure pattern. -/
def patternField (t : Tree) : List Doc :=
  match t with
  | .node .patField [attrs, words, member, colon, pat] =>
    attributes sub attrs
      ++ if member.isAbsent then sub .pattern pat
        else if colon.isAbsent then wordBefore words ++ verbatim member
        else verbatim member ++ word ": " ++ sub .pattern pat
  | t => verbatim t

/-- Whether a field of a structure pattern is the dots that skip the others. -/
def skipsOthers (t : Tree) : Bool := (t.part 2).isAbsent

/-- The path of a pattern with fields. Of a path through a type, only the names are set. -/
def fieldsPath (t : Tree) : List Doc :=
  match t with
  | .node .selfPath (_ :: _ :: _ :: trait' :: _ :: colons :: rest) =>
    match trait' with
    | .node .path names => path sub .expr (.node .path (names ++ colons :: rest))
    | _ => path sub .expr (.node .path (colons :: rest))
  | t => path sub .expr t

/-- Members of a tuple pattern; a single one keeps the comma that it was written with. -/
def tuplePattern (body : Tree) : List Doc :=
  match body.parts with
  | [p] => uniform step (outdent (cut ++ sub .pattern p ++ cut))
  | [p, _] => uniform step (outdent (cut ++ sub .pattern p ++ word "," ++ cut))
  | _ => listed step ((groupMembers body).map (sub .pattern))

def pattern (t : Tree) : List Doc :=
  match t with
  | .node .attributed [attrs, p] => attributes sub attrs ++ sub .pattern p
  | .node .patIdent [ref, mut', name, _, inner] =>
    wordBefore ref ++ wordBefore mut' ++ verbatim name
      ++ if inner.isAbsent then [] else word " @ " ++ sub .pattern inner
  | .node .patLiteral [l] => sub .expr l
  | .node .patConst [_, body] => word "const " ++ sub .expr (.node .blockExpr [.absent, body])
  | .node .patPath [p] => path sub .expr p
  | .node .patRange [start, limits, stop] =>
    (if start.isAbsent then [] else sub .pattern start) ++ verbatim limits
      ++ if stop.isAbsent then [] else sub .pattern stop
  | .node .patRef [_, mut', p] => word "&" ++ wordBefore mut' ++ sub .pattern p
  | .node .patTuple [body] => word "(" ++ tuplePattern sub body ++ word ")"
  | .node .patParen [body] => word "(" ++ sub .pattern (body.part 0) ++ word ")"
  | .node .patSlice [body] =>
    word "[" ++ eachThen comma ((groupMembers body).map (sub .pattern)) ++ word "]"
  | .node .patTupleStruct [name, body] =>
    fieldsPath sub name ++ word "(" ++ listed step ((groupMembers body).map (sub .pattern))
      ++ word ")"
  | .node .patStruct [name, body] =>
    let fields := groupMembers body
    uniform step (fieldsPath sub name ++ word " \x7b" ++ outdent (spaceInside
        ++ eachThen (fun last =>
            if last && fields.getLast?.any skipsOthers then space else commaOrSpace last)
          (fields.map (patternField sub))))
      ++ word "\x7d"
  | .node .patOr (_ :: rest) =>
    let cases := Tree.members rest
    group 0 (hasLongPattern cases)
      (between (space ++ word "| ") (cases.map (sub .pattern)))
  | .node .patCall [call] => invocation call
  | .node .patTyped [attrs, p, _, ty] =>
    attributes sub attrs ++ sub .pattern p ++ word ": " ++ sub .type ty
  | t => verbatim t

end TypedSettings.Layout
