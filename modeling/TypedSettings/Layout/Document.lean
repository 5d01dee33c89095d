/-!
Documents: text with places where a line may end. A group is set on one line when it fits. One that
does not fit ends its line at every gap when it is uniform, and otherwise only at the gaps before
parts that do not fit.

A page is 89 columns wide, and a width is counted in bytes. A line that starts far to the right
still has 60 columns.
-/

namespace TypedSettings.Layout

/-- A place where a line may end. -/
structure Gap where
  /-- blanks when the line goes on -/
  blanks : Nat := 0
  /-- how much further to the right the next line starts -/
  shift : Int := 0
  /-- written before the line ends -/
  before : String := ""
  /-- written where the next line starts -/
  after : String := ""
  /-- written when the line goes on -/
  kept : String := ""
  /-- left out at the end of a group -/
  optional : Bool := false
  /-- never ends a line -/
  stays : Bool := false
deriving DecidableEq, Repr

inductive Doc where
  | text (s : String)
  | gap (g : Gap)
  /-- fits on no line -/
  | wide
  /-- a part that has no layout -/
  | unset
  /-- a part whose lines start `shift` further to the right -/
  | group (shift : Int) (uniform : Bool) (body : List Doc)

/-! ## Widths -/

/-- More than any line holds. -/
def unbounded : Nat := 65535

mutual

/-- The width of a document on one line. -/
def Doc.width : Doc → Nat
  | .text s => s.utf8ByteSize
  | .gap g => g.blanks
  | .wide => unbounded
  | .unset => 0
  | .group _ _ body => widthAll body

def widthAll : List Doc → Nat
  | [] => 0
  | d :: ds => d.width + widthAll ds

end

/-- The width up to the next gap; `after` is the width to the next gap behind the list. -/
def widthToGap (after : Nat) : List Doc → Nat
  | [] => after
  | .gap _ :: _ => 0
  | d :: ds => d.width + widthToGap after ds

/-! ## Pages -/

/-- What has been set so far. -/
structure Page where
  text : String := ""
  /-- the columns left on the line -/
  room : Int := 89
  /-- blanks that come before the next text -/
  blanks : Nat := 0

namespace Page

def lineWidth : Int := 89

def leastRoom : Int := 60

/-- Adds text that takes no room. -/
def put (p : Page) (s : String) : Page :=
  { p with text := p.text ++ "".pushn ' ' p.blanks ++ s, blanks := 0 }

/-- Adds text. -/
def write (p : Page) (s : String) : Page :=
  { p.put s with room := p.room - s.utf8ByteSize }

/-- Goes on with the line at a gap. -/
def keep (p : Page) (g : Gap) : Page :=
  let p := { p with blanks := p.blanks + g.blanks, room := p.room - g.blanks }
  { p with text := p.text ++ g.kept, room := p.room - g.kept.utf8ByteSize }

/-- Ends the line at a gap; the next one starts at column `start`. -/
def endLine (p : Page) (g : Gap) (start : Int) : Page :=
  let p := if g.before.isEmpty then p else p.put g.before
  let p := { p with
    text := p.text ++ "\n"
    blanks := start.toNat
    room := max (lineWidth - start) leastRoom }
  if g.after.isEmpty then p else p.write g.after

end Page

/-- How a group is set. -/
inductive Setting where
  | oneLine
  | lines (uniform : Bool)
deriving DecidableEq, Repr

/-- Whether the line goes on at a gap, where `size` is the width up to the next gap. -/
def Setting.keeps (s : Setting) (room : Int) (size : Nat) : Bool :=
  match s with
  | .oneLine => true
  | .lines uniform => !uniform && decide ((size : Int) ≤ room)

mutual

/-- Sets a document. `start` is the column at which the lines of the group around it start, and
`after` the width from its end to the next gap. -/
def Doc.set (start : Int) (setting : Setting) (after : Nat) (p : Page) : Doc → Page
  | .text s => p.write s
  | .wide => p.write ""
  | .unset => p
  | .gap g =>
    if g.stays || setting.keeps p.room (g.blanks + after) then p.keep g
    else p.endLine g (start + g.shift)
  | .group shift uniform body =>
    if p.room < ((widthAll body + after : Nat) : Int) then
      setAll (start + shift) (.lines uniform) after p body
    else setAll start .oneLine after p body

def setAll (start : Int) (setting : Setting) (after : Nat) (p : Page) : List Doc → Page
  | [] => p
  | d :: ds =>
    setAll start setting after (d.set start setting (widthToGap after ds) p) ds

end

mutual

/-- Whether all parts of a document have a layout. -/
def Doc.isSettable : Doc → Bool
  | .unset => false
  | .group _ _ body => areSettable body
  | _ => true

def areSettable : List Doc → Bool
  | [] => true
  | d :: ds => d.isSettable && areSettable ds

end

/-- The text of a document, if all its parts have a layout. -/
def render? (doc : List Doc) : Option String :=
  if areSettable doc then some (setAll 0 (.lines false) 0 {} doc).text else none

/-! ## Building documents -/

def word (s : String) : List Doc := [.text s]

/-- A part that has no layout. -/
def unset : List Doc := [.unset]

/-- A gap without blanks. -/
def cut : List Doc := [.gap {}]

/-- A gap of one blank. -/
def space : List Doc := [.gap { blanks := 1 }]

/-- The line always ends here. -/
def newline : List Doc := [.gap { blanks := unbounded }]

/-- A gap of one blank, unless the group ends here. -/
def spaceInside : List Doc := [.gap { blanks := 1, optional := true }]

/-- The line ends here, unless the group does. -/
def newlineInside : List Doc := [.gap { blanks := unbounded, optional := true }]

/-- A gap at which no line ends. What comes before is measured up to here. -/
def stay : List Doc := [.gap { stays := true }]

/-- What follows a member of a list: a comma and a blank, or at the end a gap before which a
comma is written when the line ends. -/
def comma (last : Bool) : List Doc :=
  if last then [.gap { before := "," }] else word "," ++ space

/-- The same with a blank at the end of the list. -/
def commaOrSpace (last : Bool) : List Doc :=
  if last then [.gap { blanks := 1, before := "," }] else word "," ++ space

/-- The steps by which lines are shifted. -/
def step : Int := 4

/-- Shifts the line that the last gap starts. -/
def shiftLast (columns : Int) : List Doc → List Doc
  | [] => []
  | [.gap g] => [.gap { g with shift := g.shift + columns }]
  | d :: ds => d :: shiftLast columns ds

/-- The line that the last gap starts ends the shift of a group. -/
def outdent (docs : List Doc) : List Doc := shiftLast (-step) docs

/-- Leaves out an optional gap at the end. -/
def dropOptional : List Doc → List Doc
  | [] => []
  | [.gap g] => if g.optional then [] else [.gap g]
  | d :: ds => d :: dropOptional ds

/-- A group; one that holds a gap alone is left out. -/
def group (shift : Int) (uniform : Bool) (body : List Doc) : List Doc :=
  match body with
  | [.gap _] => []
  | _ => [.group shift uniform (dropOptional body)]

/-- A group that ends its line at every gap or at none. -/
def uniform (shift : Int) (body : List Doc) : List Doc := group shift true body

/-- A group that fills its lines. -/
def filled (shift : Int) (body : List Doc) : List Doc := group shift false body

/-- A uniform group that goes on one line only when it is at most `most` wide. -/
def uniformWithin (most : Nat) (shift : Int) (body : List Doc) : List Doc :=
  if most < widthAll body then group shift true (body ++ [.wide]) else group shift true body

/-- Puts `sep` between documents. -/
def between (sep : List Doc) : List (List Doc) → List Doc
  | [] => []
  | [d] => d
  | d :: ds => d ++ sep ++ between sep ds

/-- Documents, each followed by what `after` gives; it is told which is the last. -/
def eachThen (after : Bool → List Doc) : List (List Doc) → List Doc
  | [] => []
  | [d] => d ++ after true
  | d :: ds => d ++ after false ++ eachThen after ds

/-- Members between brackets, each on its line or all on one. -/
def listed (shift : Int) (members : List (List Doc)) : List Doc :=
  uniform shift (outdent (cut ++ eachThen comma members))

/-- The same where a single member is followed by a comma, as in a tuple. -/
def listedTuple (members : List (List Doc)) : List Doc :=
  match members with
  | [m] => uniform step (outdent (cut ++ m ++ word "," ++ cut))
  | ms => listed step ms

end TypedSettings.Layout
