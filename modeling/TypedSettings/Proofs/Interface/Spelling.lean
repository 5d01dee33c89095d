import TypedSettings.Interface.TypeRef
import TypedSettings.Proofs.Source.Lexing
import TypedSettings.Proofs.Source.Parsing

/-!
Types that are made of names: unit, paths with types as arguments, and references; and plain types,
which may also hold objects, `dyn` with bounds that are names. The text of such a type splits into
the words and signs that spell it, and so does the text that has parentheses around every object
which a reference leads to.

* `Named`, `Plain`: such types.
* `Stands`: no reference leads to a sum of bounds.
* `lexes_text`: how the text of a plain type is split.
-/

namespace TypedSettings

open Source Token

/-! ## Lexemes -/

namespace Source

def Delimiter.opening : Delimiter → String
  | .paren => "("
  | .bracket => "["
  | .brace => "\x7b"

def Delimiter.closing : Delimiter → String
  | .paren => ")"
  | .bracket => "]"
  | .brace => "\x7d"

namespace Token

mutual

/-- The words, signs and literals of a token, and its brackets, without their places. -/
def lexemesOf : Token → List String
  | word w _ => [w]
  | sign c _ _ => [c.toString]
  | literal text _ => [text]
  | group d body _ _ => d.opening :: (lexemes body ++ [d.closing])

/-- The words, signs, literals and brackets of a token list, in order. -/
def lexemes : List Token → List String
  | [] => []
  | t :: ts => lexemesOf t ++ lexemes ts

end

@[simp] theorem lexemes_nil : lexemes [] = [] := by rw [lexemes]

@[simp] theorem lexemes_cons (t : Token) (ts : List Token) :
    lexemes (t :: ts) = lexemesOf t ++ lexemes ts := by rw [lexemes]

@[simp] theorem lexemes_append (ts us : List Token) :
    lexemes (ts ++ us) = lexemes ts ++ lexemes us := by
  induction ts with
  | nil => simp
  | cons t ts ih => simp [ih]

end Token

end Source

/-! ## Types made of names -/

namespace TypeRef

/-- The words that name the start of a path. -/
def pathWords : List String := ["crate", "self", "super"]

/-- A word that names a segment of a path. No arguments follow a path word. -/
def IsSegment (hasArgs : Prop) (w : String) : Prop :=
  Lexer.IsWord w ∧ (isKeyword w = false ∨ w = "Self" ∨ (¬hasArgs ∧ w ∈ pathWords))

/-- The words name the segments of a path; the last one may have arguments. -/
def AreSegments (hasArgs : Prop) : List String → Prop
  | [] => False
  | [w] => IsSegment hasArgs w
  | w :: ws => IsSegment False w ∧ AreSegments hasArgs ws

mutual

/-- The type is made of names: it is unit, a path with such types as arguments, or a reference to
such a type. -/
def Named : TypeRef → Prop
  | unit => True
  | path names args => AreSegments (args ≠ []) names ∧ NamedAll args
  | reference _ t => t.Named
  | other _ => False

def NamedAll : List TypeRef → Prop
  | [] => True
  | t :: ts => t.Named ∧ NamedAll ts

end

/-! ## Objects -/

/-- The words name bounds, one at least. -/
def AreBounds (bounds : List (List String)) : Prop :=
  bounds ≠ [] ∧ ∀ names ∈ bounds, AreSegments False names

/-- The text that an object is kept as. -/
def objectText (bounds : List (List String)) : String :=
  "dyn " ++ " + ".intercalate (bounds.map (" :: ".intercalate ·))

mutual

/-- The type is unit, a path with plain types as arguments, a reference to a plain type, or an
object whose bounds are names. -/
def Plain : TypeRef → Prop
  | unit => True
  | path names args => AreSegments (args ≠ []) names ∧ PlainAll args
  | reference _ t => t.Plain
  | other text => ∃ bounds, AreBounds bounds ∧ text = objectText bounds

def PlainAll : List TypeRef → Prop
  | [] => True
  | t :: ts => t.Plain ∧ PlainAll ts

end

/-- The type is an object with more than one bound. -/
def IsSum (t : TypeRef) : Prop :=
  ∃ names names' bounds, AreBounds (names :: names' :: bounds) ∧
    t = other (objectText (names :: names' :: bounds))

mutual

/-- No reference leads to a sum of bounds. -/
def Stands : TypeRef → Prop
  | path _ args => StandsAll args
  | reference _ t => ¬t.IsSum ∧ t.Stands
  | _ => True

def StandsAll : List TypeRef → Prop
  | [] => True
  | t :: ts => t.Stands ∧ StandsAll ts

end

theorem plainAll_iff {ts : List TypeRef} : PlainAll ts ↔ ∀ t ∈ ts, t.Plain := by
  induction ts with
  | nil => simp [PlainAll]
  | cons t ts ih => rw [PlainAll, ih, List.forall_mem_cons]

theorem standsAll_iff {ts : List TypeRef} : StandsAll ts ↔ ∀ t ∈ ts, t.Stands := by
  induction ts with
  | nil => simp [StandsAll]
  | cons t ts ih => rw [StandsAll, ih, List.forall_mem_cons]

theorem Named.not_isSum {t : TypeRef} (h : t.Named) : ¬t.IsSum := by
  rintro ⟨names, names', bounds, -, rfl⟩
  rwa [Named] at h

mutual

theorem Named.plain : ∀ {t : TypeRef}, t.Named → t.Plain
  | unit, _ => by rw [Plain]; trivial
  | path _ _, h => by
    rw [Named] at h
    rw [Plain]
    exact ⟨h.1, NamedAll.plain h.2⟩
  | reference _ _, h => by
    rw [Named] at h
    rw [Plain]
    exact Named.plain h
  | other _, h => by
    rw [Named] at h
    exact h.elim

theorem NamedAll.plain : ∀ {ts : List TypeRef}, NamedAll ts → PlainAll ts
  | [], _ => by rw [PlainAll]; trivial
  | _ :: _, h => by
    rw [NamedAll] at h
    rw [PlainAll]
    exact ⟨Named.plain h.1, NamedAll.plain h.2⟩

end

mutual

theorem Named.stands : ∀ {t : TypeRef}, t.Named → t.Stands
  | unit, _ => by simp [Stands]
  | path _ _, h => by
    rw [Named] at h
    rw [Stands]
    exact NamedAll.stands h.2
  | reference _ _, h => by
    rw [Named] at h
    rw [Stands]
    exact ⟨h.not_isSum, Named.stands h⟩
  | other _, _ => by simp [Stands]

theorem NamedAll.stands : ∀ {ts : List TypeRef}, NamedAll ts → StandsAll ts
  | [], _ => by rw [StandsAll]; trivial
  | _ :: _, h => by
    rw [NamedAll] at h
    rw [StandsAll]
    exact ⟨Named.stands h.1, NamedAll.stands h.2⟩

end

/-- The text of a type that a reference leads to. -/
def enclose (parens : Bool) (t : TypeRef) (text : String) : String :=
  match parens, t with
  | true, other _ => "(" ++ text ++ ")"
  | _, _ => text

mutual

/-- A text of a type, which may have parentheses around the objects that references lead to. -/
def textWith (parens : Bool) : TypeRef → String
  | unit => "()"
  | path segments [] => QualifiedName.ofSegments segments
  | path segments args =>
    QualifiedName.ofSegments segments ++ "<" ++ ", ".intercalate (textAllWith parens args) ++ ">"
  | reference true inner => "&mut " ++ enclose parens inner (textWith parens inner)
  | reference false inner => "&" ++ enclose parens inner (textWith parens inner)
  | other text => text

def textAllWith (parens : Bool) : List TypeRef → List String
  | [] => []
  | t :: ts => textWith parens t :: textAllWith parens ts

end

mutual

theorem textWith_false : ∀ t : TypeRef, textWith false t = t.text
  | unit => by rw [textWith, text]
  | path _ [] => by rw [textWith, text]
  | path _ (t :: ts) => by rw [textWith, text, textAllWith_false (t :: ts)] <;> nofun
  | reference true t => by rw [textWith, text, enclose, textWith_false t]; nofun
  | reference false t => by rw [textWith, text, enclose, textWith_false t]; nofun
  | other _ => by rw [textWith, text]

theorem textAllWith_false : ∀ ts : List TypeRef, textAllWith false ts = textAll ts
  | [] => by rw [textAllWith, textAll]
  | t :: ts => by rw [textAllWith, textAll, textWith_false t, textAllWith_false ts]

end

/-! ## Words and signs -/

/-- The segments of a path with the colons between them. -/
def lexemesNames : List String → List String
  | [] => []
  | [w] => [w]
  | w :: ws => w :: ":" :: ":" :: lexemesNames ws

mutual

/-- The words and signs of a type. -/
def lexemes : TypeRef → List String
  | unit => ["(", ")"]
  | path names args => lexemesNames names ++ lexemesArgs args
  | reference true t => "&" :: "mut" :: t.lexemes
  | reference false t => "&" :: t.lexemes
  | other text => [text]

/-- The words and signs of the arguments of a path. -/
def lexemesArgs : List TypeRef → List String
  | [] => []
  | t :: ts => "<" :: (t.lexemes ++ lexemesMore ts)

/-- The words and signs of the arguments that follow a first one. -/
def lexemesMore : List TypeRef → List String
  | [] => [">"]
  | t :: ts => "," :: (t.lexemes ++ lexemesMore ts)

end

/-! ## Tokens that spell a type -/

/-- The tokens name the segments of a path. -/
def SpellsNames : List String → List Token → Prop
  | [], us => us = []
  | [w], us => ∃ pos, us = [.word w pos]
  | w :: ws, us => ∃ pos pos' joint pos'' vs,
      us = .word w pos :: .sign ':' true pos' :: .sign ':' joint pos'' :: vs ∧ SpellsNames ws vs

/-- The tokens name the bounds of an object. -/
def SpellsBounds : List (List String) → List Token → Prop
  | [], us => us = []
  | [names], us => SpellsNames names us
  | names :: more, us => ∃ vs joint pos ws,
      us = vs ++ .sign '+' joint pos :: ws ∧ SpellsNames names vs ∧ SpellsBounds more ws

/-- Tokens that a reference leads to. -/
def Enclosed (parens : Bool) (t : TypeRef) (spells : List Token → Prop) (us : List Token) : Prop :=
  match parens, t with
  | true, other _ => ∃ vs pos close, us = [.group .paren vs pos close] ∧ spells vs
  | _, _ => spells us

mutual

/-- The tokens spell a type. Only the first of two colons is known to be joined to what follows. -/
def Spells (parens : Bool) : TypeRef → List Token → Prop
  | unit, us => ∃ pos close, us = [.group .paren [] pos close]
  | path names args, us =>
    ∃ vs ws, us = vs ++ ws ∧ SpellsNames names vs ∧ SpellsArgs parens args ws
  | reference true t, us => ∃ joint pos pos' vs,
      us = .sign '&' joint pos :: .word "mut" pos' :: vs ∧ Enclosed parens t (Spells parens t) vs
  | reference false t, us => ∃ joint pos vs,
      us = .sign '&' joint pos :: vs ∧ Enclosed parens t (Spells parens t) vs
  | other text, us => ∃ bounds pos vs, AreBounds bounds ∧ text = objectText bounds ∧
      us = .word "dyn" pos :: vs ∧ SpellsBounds bounds vs

def SpellsArgs (parens : Bool) : List TypeRef → List Token → Prop
  | [], us => us = []
  | t :: ts, us => ∃ joint pos vs ws,
      us = .sign '<' joint pos :: (vs ++ ws) ∧ Spells parens t vs ∧ SpellsMore parens ts ws

def SpellsMore (parens : Bool) : List TypeRef → List Token → Prop
  | [], us => ∃ joint pos, us = [.sign '>' joint pos]
  | t :: ts, us => ∃ joint pos vs ws,
      us = .sign ',' joint pos :: (vs ++ ws) ∧ Spells parens t vs ∧ SpellsMore parens ts ws

end

/-! ## Splitting -/

section

open Lexer

theorem AreSegments.isWord {hasArgs : Prop} {names : List String} (h : AreSegments hasArgs names) :
    ∀ w ∈ names, IsWord w := by
  induction names with
  | nil => nofun
  | cons w names ih =>
    cases names with
    | nil => exact List.forall_mem_singleton.2 h.1
    | cons w' names => exact List.forall_mem_cons.2 ⟨h.1.1, ih h.2⟩

theorem toList_intercalate_cons (sep a b : String) (as : List String) :
    (sep.intercalate (a :: b :: as)).toList
      = a.toList ++ (sep.toList ++ (sep.intercalate (b :: as)).toList) := by
  simp [String.toList_intercalate, List.intercalate]

/-- The segments of a path, with one text for two colons between them. -/
theorem lexes_names (sep : String) {names : List String} (h : ∀ w ∈ names, IsWord w)
    (hsep : ∀ cs, Stops (sep.toList ++ cs) ∧
      Lexes (fun ts => ∃ joint pos pos', ts = [.sign ':' true pos, .sign ':' joint pos'])
        (sep.toList ++ cs) cs)
    {rest : List Char} (hrest : Stops rest) :
    Lexes (SpellsNames names) ((sep.intercalate names).toList ++ rest) rest := by
  induction names with
  | nil => exact lexes_nil rest
  | cons w names ih =>
    rw [List.forall_mem_cons] at h
    cases names with
    | nil =>
      rw [String.intercalate_singleton]
      exact lexes_word h.1 hrest
    | cons w' names =>
      rw [toList_intercalate_cons, List.append_assoc, List.append_assoc]
      refine ((lexes_word h.1 (hsep _).1).append ((hsep _).2.append (ih h.2))).imp ?_
      rintro ts ⟨us, vs, rfl, ⟨pos, rfl⟩, us', vs', rfl, ⟨joint, pos', pos'', rfl⟩, hvs⟩
      exact ⟨pos, pos', joint, pos'', vs', rfl, hvs⟩

/-- The segments of a path, joined by colons. -/
theorem lexes_segments {names : List String} (h : ∀ w ∈ names, IsWord w) {rest : List Char}
    (hrest : Stops rest) :
    Lexes (SpellsNames names) ((QualifiedName.ofSegments names).toList ++ rest) rest := by
  have hsep : "::".toList = [':', ':'] := by decide
  refine lexes_names "::" h (fun cs => ?_) hrest
  rw [hsep]
  exact ⟨stops_cons (by decide) _, lexes_colons cs⟩

/-- The segments of a path in token text. -/
theorem lexes_bound {names : List String} (h : ∀ w ∈ names, IsWord w) {rest : List Char}
    (hrest : Stops rest) :
    Lexes (SpellsNames names) ((" :: ".intercalate names).toList ++ rest) rest := by
  have hsep : " :: ".toList = [' ', ':', ':', ' '] := by decide
  refine lexes_names " :: " h (fun cs => ?_) hrest
  rw [hsep]
  refine ⟨stops_cons (by decide) _, ((lexes_space _).append ((lexes_colons _).append
    (lexes_space cs))).imp ?_⟩
  rintro ts ⟨us, vs, rfl, rfl, us', vs', rfl, h, rfl⟩
  rwa [List.nil_append, List.append_nil]

/-- The bounds of an object. -/
theorem lexes_bounds {bounds : List (List String)}
    (h : ∀ names ∈ bounds, AreSegments False names) {rest : List Char} (hrest : Stops rest) :
    Lexes (SpellsBounds bounds)
      ((" + ".intercalate (bounds.map (" :: ".intercalate ·))).toList ++ rest) rest := by
  induction bounds with
  | nil => exact lexes_nil rest
  | cons names bounds ih =>
    rw [List.forall_mem_cons] at h
    cases bounds with
    | nil =>
      rw [List.map_singleton, String.intercalate_singleton]
      exact lexes_bound h.1.isWord hrest
    | cons names' bounds =>
      have hsep : " + ".toList = [' ', '+', ' '] := by decide
      rw [List.map_cons, List.map_cons, toList_intercalate_cons, List.append_assoc,
        List.append_assoc, hsep]
      have hmore := ih h.2
      rw [List.map_cons] at hmore
      refine ((lexes_bound h.1.isWord (stops_cons (c := ' ') (by decide) _)).append
        ((lexes_space _).append ((lexes_sign (c := '+') (by decide) _).append
          ((lexes_space _).append hmore)))).imp ?_
      rintro ts ⟨vs, _, rfl, hvs, _, _, rfl, rfl, _, _, rfl, ⟨joint, pos, rfl⟩, _, ws, rfl, rfl,
        hws⟩
      exact ⟨vs, joint, pos, ws, rfl, hvs, hws⟩

theorem toList_objectText (bounds : List (List String)) :
    (objectText bounds).toList = 'd' :: 'y' :: 'n' :: ' '
      :: (" + ".intercalate (bounds.map (" :: ".intercalate ·))).toList := by
  have hdyn : "dyn ".toList = ['d', 'y', 'n', ' '] := by decide
  rw [objectText, String.toList_append, hdyn]
  rfl

theorem lexes_mut {rest : List Char} (hrest : Stops rest) :
    Lexes (fun ts => ∃ pos, ts = [.word "mut" pos]) ('m' :: 'u' :: 't' :: rest) rest :=
  lexes_word (isWord_of_head rfl (by decide) (by decide)) hrest

theorem lexes_dyn {rest : List Char} (hrest : Stops rest) :
    Lexes (fun ts => ∃ pos, ts = [.word "dyn" pos]) ('d' :: 'y' :: 'n' :: rest) rest :=
  lexes_word (isWord_of_head rfl (by decide) (by decide)) hrest

variable {parens : Bool}

/-- An object. -/
theorem lexes_object {text : String} (h : (other text).Plain) {rest : List Char}
    (hrest : Stops rest) :
    Lexes (Spells parens (other text)) (text.toList ++ rest) rest := by
  rw [Plain] at h
  obtain ⟨bounds, hbounds, rfl⟩ := h
  rw [toList_objectText]
  refine ((lexes_dyn (stops_cons (c := ' ') (by decide) _)).append ((lexes_space _).append
    (lexes_bounds hbounds.2 hrest))).imp ?_
  rintro ts ⟨us, vs, rfl, ⟨pos, rfl⟩, us', ws, rfl, rfl, hws⟩
  rw [Spells]
  exact ⟨bounds, pos, ws, hbounds, rfl, rfl, hws⟩

/-- What a reference leads to, perhaps in parentheses. -/
theorem lexes_enclose {t : TypeRef} (ht : t.Plain)
    (h : ∀ {rest : List Char}, Stops rest →
      Lexes (Spells parens t) ((t.textWith parens).toList ++ rest) rest)
    {rest : List Char} (hrest : Stops rest) :
    Lexes (Enclosed parens t (Spells parens t))
      ((enclose parens t (t.textWith parens)).toList ++ rest) rest := by
  cases parens with
  | false => exact h hrest
  | true =>
    cases t with
    | other text =>
      have htext : (enclose true (other text) (textWith true (other text))).toList ++ rest
          = '(' :: (text.toList ++ ')' :: rest) := by
        rw [enclose, textWith, String.toList_append, String.toList_append]
        show '(' :: (text.toList ++ [')']) ++ rest = _
        rw [List.cons_append, List.append_assoc]
        rfl
      have hhead : ∀ c ∈ (text.toList ++ ')' :: rest).head?, c ≠ '/' := by
        rw [Plain] at ht
        obtain ⟨bounds, -, rfl⟩ := ht
        rw [toList_objectText]
        rintro c ⟨⟩
        decide
      have hobject : Lexes (Spells true (other text)) _ _ :=
        lexes_object ht (stops_cons (c := ')') (by decide) rest)
      rw [htext]
      refine (lexes_parens hobject hhead).imp ?_
      rintro us ⟨vs, pos, close, rfl, hvs⟩
      exact ⟨vs, pos, close, rfl, hvs⟩
    | _ => exact h hrest

/-- The text of arguments that follow a first one. -/
def moreText (parens : Bool) : List TypeRef → List Char
  | [] => ['>']
  | t :: ts => ',' :: ' ' :: ((t.textWith parens).toList ++ moreText parens ts)

theorem toList_intercalate_textAll (t : TypeRef) (ts : List TypeRef) :
    (", ".intercalate (textAllWith parens (t :: ts)) ++ ">").toList
      = (t.textWith parens).toList ++ moreText parens ts := by
  have hsep : ", ".toList = [',', ' '] := by decide
  have hend : ">".toList = ['>'] := by decide
  rw [String.toList_append, hend]
  induction ts generalizing t with
  | nil => rw [textAllWith, textAllWith, String.intercalate_singleton, moreText]
  | cons u ts ih =>
    rw [moreText, ← ih u, textAllWith, textAllWith, toList_intercalate_cons, hsep,
      List.append_assoc, List.append_assoc]
    rfl

theorem toList_text_args (names : List String) (t : TypeRef) (ts : List TypeRef) :
    ((path names (t :: ts)).textWith parens).toList = (QualifiedName.ofSegments names).toList
      ++ '<' :: ((t.textWith parens).toList ++ moreText parens ts) := by
  have hopen : "<".toList = ['<'] := by decide
  rw [textWith.eq_3 parens names (t :: ts) nofun, String.append_assoc, String.append_assoc,
    String.toList_append, String.toList_append, toList_intercalate_textAll, hopen]
  rfl

theorem stops_moreText (ts : List TypeRef) (rest : List Char) :
    Stops (moreText parens ts ++ rest) := by
  cases ts with
  | nil => exact stops_cons (by decide) _
  | cons u us => exact stops_cons (by decide) _

mutual

/-- The text of a type is split into what spells it. -/
theorem lexes_text : ∀ {t : TypeRef}, t.Plain → ∀ {rest : List Char}, Stops rest →
    Lexes (Spells parens t) ((t.textWith parens).toList ++ rest) rest
  | unit, _, rest, _ => by
    have htext : (unit.textWith parens).toList ++ rest = '(' :: ')' :: rest := by
      rw [textWith]
      rfl
    rw [htext]
    refine (lexes_parens (lexes_nil (')' :: rest)) (by rintro c ⟨⟩; decide)).imp ?_
    rintro ts ⟨us, pos, close, rfl, rfl⟩
    rw [Spells]
    exact ⟨pos, close, rfl⟩
  | path names [], h, rest, hrest => by
    rw [Plain] at h
    rw [textWith]
    refine (lexes_segments h.1.isWord hrest).imp fun ts hts => ?_
    rw [Spells]
    exact ⟨ts, [], (List.append_nil ts).symm, hts, by rw [SpellsArgs]⟩
  | path names (t :: ts), h, rest, hrest => by
    rw [Plain, PlainAll] at h
    rw [toList_text_args, List.append_assoc, List.cons_append, List.append_assoc]
    have hnames := lexes_segments h.1.isWord (stops_cons (c := '<') (by decide)
      ((t.textWith parens).toList ++ (moreText parens ts ++ rest)))
    have hopen : Lexes _ ('<' :: ((t.textWith parens).toList ++ (moreText parens ts ++ rest))) _ :=
      lexes_sign (by decide) _
    refine (hnames.append (hopen.append ((lexes_text h.2.1 (stops_moreText ts rest)).append
      (lexes_more h.2.2 rest)))).imp ?_
    rintro us ⟨vs, ws, rfl, hvs, o, as, rfl, ⟨joint, pos, rfl⟩, ps, qs, rfl, hps, hqs⟩
    rw [Spells]
    refine ⟨vs, _, rfl, hvs, ?_⟩
    rw [SpellsArgs]
    exact ⟨joint, pos, ps, qs, rfl, hps, hqs⟩
  | reference true t, h, rest, hrest => by
    rw [Plain] at h
    have htext : ((reference true t).textWith parens).toList ++ rest = '&' :: 'm' :: 'u' :: 't'
        :: ' ' :: ((enclose parens t (t.textWith parens)).toList ++ rest) := by
      rw [textWith, String.toList_append]
      rfl
    rw [htext]
    have hmut := lexes_mut (stops_cons (c := ' ') (by decide)
      ((enclose parens t (t.textWith parens)).toList ++ rest))
    refine ((lexes_sign (c := '&') (by decide) _).append (hmut.append ((lexes_space _).append
      (lexes_enclose h (lexes_text h) hrest)))).imp ?_
    rintro us ⟨o, ws, rfl, ⟨joint, pos, rfl⟩, m, ws', rfl, ⟨pos', rfl⟩, e, vs, rfl, rfl, hvs⟩
    rw [Spells]
    exact ⟨joint, pos, pos', vs, rfl, hvs⟩
  | reference false t, h, rest, hrest => by
    rw [Plain] at h
    have htext : ((reference false t).textWith parens).toList ++ rest
        = '&' :: ((enclose parens t (t.textWith parens)).toList ++ rest) := by
      rw [textWith, String.toList_append]
      rfl
    rw [htext]
    refine ((lexes_sign (c := '&') (by decide) _).append
      (lexes_enclose h (lexes_text h) hrest)).imp ?_
    rintro us ⟨o, vs, rfl, ⟨joint, pos, rfl⟩, hvs⟩
    rw [Spells]
    exact ⟨joint, pos, vs, rfl, hvs⟩
  | other text, h, _, hrest => by
    rw [textWith]
    exact lexes_object h hrest

/-- The text of further arguments is split into what spells them. -/
theorem lexes_more : ∀ {ts : List TypeRef}, PlainAll ts → ∀ (rest : List Char),
    Lexes (SpellsMore parens ts) (moreText parens ts ++ rest) rest
  | [], _, rest => by
    refine (lexes_sign (c := '>') (by decide) rest).imp fun us hus => ?_
    rwa [SpellsMore]
  | t :: ts, h, rest => by
    rw [PlainAll] at h
    have htext : moreText parens (t :: ts) ++ rest
        = ',' :: ' ' :: ((t.textWith parens).toList ++ (moreText parens ts ++ rest)) := by
      rw [moreText, List.cons_append, List.cons_append, List.append_assoc]
    rw [htext]
    refine ((lexes_sign (c := ',') (by decide) _).append ((lexes_space _).append
      ((lexes_text h.1 (stops_moreText ts rest)).append (lexes_more h.2 rest)))).imp ?_
    rintro us ⟨o, ws, rfl, ⟨joint, pos, rfl⟩, e, ws', rfl, rfl, ps, qs, rfl, hps, hqs⟩
    rw [SpellsMore]
    exact ⟨joint, pos, ps, qs, rfl, hps, hqs⟩

end

end

end TypeRef

end TypedSettings
