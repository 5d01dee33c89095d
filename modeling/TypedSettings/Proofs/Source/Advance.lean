import TypedSettings.Proofs.Source.Parsing

/-!
Parsers leave a tail. Whatever a parser reads, what it leaves is the end of what it started at, so
what holds of all tokens ahead still holds of those that are left; and it never takes the quote of a
lifetime alone. That a parser does so follows from its parts, and is found part by part.

* `Advances`: what a parser leaves is a tail.
* `advances_toDepth`: every rule of the grammar leaves a tail.
-/

namespace TypedSettings.Source

namespace Token

/-- The quote that a lifetime starts with. -/
def isQuote : Token → Bool
  | sign '\'' _ _ => true
  | _ => false

/-- What is left of a token list after tokens were taken, the last of them no quote. -/
def Tail (rest ts : List Token) : Prop :=
  ∃ taken, ts = taken ++ rest ∧ ∀ t, taken.getLast? = some t → isQuote t = false

theorem Tail.refl (ts : List Token) : Tail ts ts := ⟨[], rfl, nofun⟩

theorem Tail.trans {ts us vs : List Token} (h : Tail ts us) (h' : Tail us vs) : Tail ts vs := by
  obtain ⟨taken, rfl, hlast⟩ := h
  obtain ⟨first, rfl, hfirst⟩ := h'
  refine ⟨first ++ taken, (List.append_assoc ..).symm, fun t ht => ?_⟩
  rw [List.getLast?_append, Option.or_eq_some_iff] at ht
  exact ht.elim (hlast t) fun ⟨_, h⟩ => hfirst t h

theorem Tail.suffix {ts us : List Token} (h : Tail ts us) : ts <:+ us := by
  obtain ⟨taken, rfl, -⟩ := h
  exact List.suffix_append _ _

/-- A token that is no quote is taken. -/
theorem Tail.cons {t : Token} (h : isQuote t = false) (ts : List Token) : Tail ts (t :: ts) :=
  ⟨[t], rfl, fun u hu => by cases hu; exact h⟩

/-- A lifetime, or a sign before a token that is no quote, is taken. -/
theorem Tail.cons₂ {t u : Token} (h : isQuote u = false) (ts : List Token) :
    Tail ts (t :: u :: ts) :=
  ⟨[t, u], rfl, fun v hv => by cases hv; exact h⟩

theorem Tail.of_word {ts : List Token} {w : String}
    (h : isWord w ts = true ∨ isIdent ts = true ∨ isAnyWord ts = true) : Tail (ts.drop 1) ts := by
  rcases ts with _ | ⟨t, ts⟩
  · exact .refl _
  · cases t with
    | word v pos => exact .cons rfl ts
    | _ => simp [isWord, isIdent, isAnyWord] at h

/-- The signs of an operator are no quotes. -/
theorem tail_of_startsWithOp {op : List Char} {ts : List Token} (h : startsWithOp op ts = true) :
    Tail (ts.drop op.length) ts := by
  induction op generalizing ts with
  | nil => exact .refl ts
  | cons c op ih =>
    rcases ts with _ | ⟨t, ts⟩
    · cases op <;> cases h
    · cases t with
      | sign d joint pos =>
        have hquote : isQuote (.sign d joint pos) = false := by
          have hd : d ≠ '\'' := by
            rintro rfl
            cases op <;> simp [startsWithOp] at h
          unfold isQuote
          split
          · next heq =>
            cases heq
            exact absurd rfl hd
          · rfl
        refine Tail.trans ?_ (.cons hquote ts)
        cases op with
        | nil => exact .refl ts
        | cons c' op =>
          simp only [startsWithOp, Bool.and_eq_true] at h
          exact ih h.2
      | _ => cases op <;> cases h

end Token

namespace Parser

open Token

variable {α β : Type} {p : Parser α}

/-- What a parser leaves is a tail of what it starts at. -/
class Advances (p : Parser α) : Prop where
  tail : ∀ {c a c'}, p c = .ok (a, c') → Tail c'.rest c.rest

theorem set_bind {c c₀ : Cursor} (f : PUnit → Parser α) : (set c₀ >>= f) c = f ⟨⟩ c₀ := rfl

theorem tail_of_ok [hp : Advances p] {c c' : Cursor} {a : α} (h : p c = .ok (a, c')) :
    Tail c'.rest c.rest :=
  hp.tail h

theorem suffix_of_ok [Advances p] {c c' : Cursor} {a : α} (h : p c = .ok (a, c')) :
    c'.rest <:+ c.rest :=
  (tail_of_ok h).suffix

/-! ## Steps -/

theorem advances_bind {f : α → Parser β} (hp : Advances p) (hf : ∀ a, Advances (f a)) :
    Advances (p >>= f) := by
  constructor
  intro c b c' h
  obtain ⟨a, c₁, ha, hb⟩ := run_bind_eq_ok.1 h
  exact ((hf a).tail hb).trans (hp.tail ha)

instance {f : α → Parser β} [hp : Advances p] [hf : ∀ a, Advances (f a)] : Advances (p >>= f) :=
  advances_bind hp hf

instance {a : α} : Advances (pure a) := by
  constructor
  intro c b c' h
  obtain ⟨-, rfl⟩ := run_pure_eq_ok.1 h
  exact .refl _

instance {f : α → β} [Advances p] : Advances (f <$> p) :=
  inferInstanceAs (Advances (p >>= fun a => pure (f a)))

theorem advances_ite {b : Prop} [Decidable b] {p q : Parser α} (hp : Advances p)
    (hq : Advances q) : Advances (if b then p else q) := by
  split
  · exact hp
  · exact hq

instance {b : Prop} [Decidable b] {p q : Parser α} [hp : Advances p] [hq : Advances q] :
    Advances (if b then p else q) :=
  advances_ite hp hq

/-- A parser that takes nothing leaves a tail. -/
theorem advances_of_stays (h : ∀ {c a c'}, p c = .ok (a, c') → c' = c) : Advances p := by
  constructor
  intro c a c' hok
  exact h hok ▸ .refl _

/-- A test in front changes nothing. -/
theorem advances_guard {b : Prop} [Decidable b] {k : PUnit → Parser α} (hk : ∀ u, Advances (k u)) :
    Advances (if b then fail >>= k else k ⟨⟩) :=
  advances_ite (advances_bind (advances_of_stays nofun) hk) (hk ⟨⟩)

instance : Advances (fail : Parser α) := advances_of_stays nofun

instance : Advances (get : Parser Cursor) := advances_of_stays fun h => by cases h; rfl

instance {q : List Token → Bool} : Advances (peek q) := advances_of_stays fun h => by cases h; rfl

instance {s : String} : Advances (peekOp s) := inferInstanceAs (Advances (peek _))

instance {w : String} : Advances (peekWord w) := inferInstanceAs (Advances (peek _))

instance {d : Delimiter} : Advances (peekGroup d) := inferInstanceAs (Advances (peek _))

instance : Advances atEnd := inferInstanceAs (Advances (peek _))

instance : Advances peekLiteral := inferInstanceAs (Advances (peek _))

/-! ## Tokens -/

/-- Where tokens were looked at, as many may be taken as they stand. -/
theorem advances_raw {n : Nat} {q : List Token → Bool} {k : Tree → Parser α} {r : Parser α}
    (hq : ∀ ts, q ts = true → Tail (ts.drop n) ts) (hk : ∀ t, Advances (k t)) (hr : Advances r) :
    Advances (peek q >>= fun ahead => if ahead then raw n >>= k else r) := by
  constructor
  intro c a c' h
  rw [peek_bind] at h
  split at h
  · next hahead => exact ((hk _).tail h).trans (hq _ hahead)
  · exact hr.tail h

instance {s : String} : Advances (op s) := by
  constructor
  intro c t c' h
  obtain ⟨hop, -, rfl⟩ := op_eq_ok.1 h
  exact tail_of_startsWithOp hop

instance {s : String} : Advances (op? s) := by
  unfold op?
  infer_instance

/-- A token that was looked at and is no quote is taken as it stands. -/
theorem advances_raw_one {q : List Token → Bool} {r : Parser Tree}
    (hq : ∀ ts, q ts = true → Tail (ts.drop 1) ts) [hr : Advances r] :
    Advances (do if ← peek q then raw 1 else r) := by
  have hpure : (raw 1 : Parser Tree) = raw 1 >>= pure := rfl
  rw [hpure]
  exact advances_raw hq inferInstance hr

instance {w : String} : Advances (keyword w) := advances_raw_one fun _ h => .of_word (.inl h)

instance {w : String} : Advances (keyword? w) := advances_raw_one fun _ h => .of_word (.inl h)

instance : Advances ident := advances_raw_one fun _ h => .of_word (w := "") (.inr (.inl h))

instance : Advances anyWord := advances_raw_one fun _ h => .of_word (w := "") (.inr (.inr h))

instance : Advances lifetime := by
  constructor
  intro c t c' h
  unfold lifetime at h
  split at h
  · next hrest =>
    cases h
    rw [hrest]
    exact .cons₂ rfl _
  · cases h

instance : Advances lifetime? := by
  unfold lifetime?
  infer_instance

theorem read?_tail {ts rest : List Token} {l : Literal} (h : Literal.read? ts = some (l, rest)) :
    Tail rest ts := by
  unfold Literal.read? at h
  split at h
  · cases h
    exact .cons rfl _
  · cases h
    exact .cons rfl _
  · cases h
    exact .cons rfl _
  · split at h <;> cases h <;> exact .cons₂ rfl _
  · cases h

instance : Advances literal := by
  constructor
  intro c t c' h
  obtain ⟨l, rest, hread, -, rfl⟩ := literal_eq_ok.1 h
  exact read?_tail hread

/-- A group is one token, whatever is inside. -/
instance {d : Delimiter} {inner : Parser (List Tree)} : Advances (group d inner) := by
  constructor
  intro c t c' h
  unfold group at h
  split at h
  · next hrest =>
    split at h
    · split at h
      · cases h
        rw [hrest]
        exact .cons rfl _
      · cases h
      · cases h
    · cases h
  · cases h

instance : Advances rawGroup := by
  constructor
  intro c t c' h
  unfold rawGroup at h
  split at h
  · next hrest =>
    cases h
    rw [hrest]
    exact .cons rfl _
  · cases h

/-! ## Repetitions and choices -/

instance advances_repeatFuel {step : Parser (Option (List Tree))} [hs : Advances step]
    {fuel : Nat} : Advances (repeatFuel step fuel) := by
  induction fuel with
  | zero =>
    rw [repeatFuel]
    infer_instance
  | succ fuel ih =>
    rw [repeatFuel]
    refine advances_bind hs fun round => ?_
    cases round with
    | none => infer_instance
    | some ts => infer_instance

instance {step : Parser (Option (List Tree))} [Advances step] : Advances (repeating step) :=
  ⟨fun h => advances_repeatFuel.tail h⟩

instance {stop : List Token → Bool} {member : Parser Tree} {sep : String} [Advances member] :
    Advances (separated stop member sep) := by
  unfold separated
  infer_instance

instance {member : Parser Tree} [Advances member] : Advances (commaList member) := by
  unfold commaList
  infer_instance

instance {stop : List Token → Bool} {member : Parser Tree} [Advances member] :
    Advances (manyUntil stop member) := by
  unfold manyUntil
  infer_instance

instance advances_chainedFuel {stop : List Token → Bool} {member : Parser Tree} {sep : String}
    [Advances member] {fuel : Nat} : Advances (chainedFuel stop member sep fuel) := by
  induction fuel with
  | zero =>
    rw [chainedFuel]
    infer_instance
  | succ fuel ih =>
    rw [chainedFuel]
    infer_instance

instance {stop : List Token → Bool} {member : Parser Tree} {sep : String} [Advances member] :
    Advances (chained stop member sep) :=
  ⟨fun h => advances_chainedFuel.tail h⟩

instance {q : Parser (Option Tree)} [hq : Advances q] : Advances (orVerbatim q) := by
  constructor
  intro c t c' h
  unfold orVerbatim at h
  split at h
  · next hrun =>
    cases h
    exact hq.tail hrun
  · next hrun =>
    cases h
    exact hq.tail hrun
  · cases h

instance [Advances p] : Advances (verbatim p) := by
  unfold verbatim
  infer_instance

instance [hp : Advances p] : Advances (attempt p) := by
  constructor
  intro c t c' h
  unfold attempt at h
  split at h
  · next hrun =>
    cases h
    exact hp.tail hrun
  · cases h
    exact .refl _

end Parser

namespace Grammar

open TypedSettings.Source.Parser

-- the steps of a long production are many
set_option synthInstance.maxSize 4000

variable {rules : Rules} [hr : ∀ r, Advances (rules r)]

/-! ## Attributes, paths and generic parameters -/

instance : Advances plainPath := by
  unfold plainPath
  infer_instance

instance : Advances attributePath := by
  unfold attributePath
  infer_instance

instance {path : Tree} : Advances (attributeValue rules path) := by
  unfold attributeValue
  infer_instance

instance : Advances (attributeContent rules) := by
  unfold attributeContent
  infer_instance

instance {inner : Bool} : Advances (oneAttribute rules inner) := by
  unfold oneAttribute
  infer_instance

instance : Advances (outerAttributes rules) := by
  unfold outerAttributes
  infer_instance

instance : Advances (innerAttributes rules) := by
  unfold innerAttributes
  infer_instance

instance : Advances (constArgument rules) := by
  unfold constArgument
  infer_instance

instance {stop : List Token → Bool} : Advances (boundsAfterColon rules stop) := by
  unfold boundsAfterColon
  infer_instance

instance : Advances (genericArgument rules) := by
  unfold genericArgument
  repeat' first
    | infer_instance
    | split
    | with_reducible refine advances_bind inferInstance fun _ => ?_

instance : Advances (angleArgs rules) := by
  unfold angleArgs
  infer_instance

instance {plus : Bool} : Advances (result rules plus) := by
  unfold result
  infer_instance

instance : Advances (parenArgs rules) := by
  unfold parenArgs
  infer_instance

instance {inExpr : Bool} : Advances (segment rules inExpr) := by
  unfold segment
  dsimp only
  infer_instance

instance {inExpr : Bool} : Advances (moreSegments rules inExpr) := by
  unfold moreSegments
  infer_instance

instance {inExpr : Bool} : Advances (path rules inExpr) := by
  unfold path
  infer_instance

instance {path : Tree} : Advances (withParenArgs rules path) := by
  unfold withParenArgs
  repeat' first
    | infer_instance
    | split

instance {inExpr : Bool} : Advances (selfPath rules inExpr) := by
  unfold selfPath
  dsimp only
  infer_instance

instance {path : Tree} : Advances (invocationAfter path) := by
  unfold invocationAfter
  infer_instance

instance : Advances builtinCall := by
  unfold builtinCall
  infer_instance

instance {stop : List Token → Bool} : Advances (lifetimeBounds stop) := by
  unfold lifetimeBounds
  infer_instance

instance : Advances (genericParam rules) := by
  unfold genericParam
  dsimp only
  infer_instance

instance : Advances (genericParamOrBlank rules) := by
  constructor
  intro c t c' h
  unfold genericParamOrBlank at h
  rw [get_bind] at h
  obtain ⟨attrs, c₁, hattrs, h⟩ := run_bind_eq_ok.1 h
  rw [peekWord, peek_bind] at h
  split at h
  · obtain ⟨word, c₂, hword, h⟩ := run_bind_eq_ok.1 h
    obtain ⟨-, rfl⟩ := run_pure_eq_ok.1 h
    exact (tail_of_ok hword).trans (tail_of_ok hattrs)
  · -- without a blank the attributes are read again
    rw [set_bind] at h
    exact tail_of_ok h

instance : Advances (generics rules) := by
  unfold generics
  infer_instance

instance : Advances (forParams rules) := by
  unfold forParams
  infer_instance

instance : Advances (forParams? rules) := by
  unfold forParams?
  infer_instance

instance : Advances (predicate rules) := by
  unfold predicate
  infer_instance

instance : Advances (whereClause rules) := by
  unfold whereClause
  infer_instance

/-! ## Types -/

instance : Advances capture := by
  unfold capture
  infer_instance

instance : Advances boundConst := by
  unfold boundConst
  infer_instance

instance {const : Bool} : Advances (traitBound? rules const) := by
  unfold traitBound?
  dsimp only
  infer_instance

instance : Advances (traitBound rules) := by
  unfold traitBound
  repeat' first
    | infer_instance
    | split
    | with_reducible refine advances_bind inferInstance fun _ => ?_

instance {captures const : Bool} : Advances (bound rules captures const) := by
  unfold bound
  infer_instance

instance {plus captures const : Bool} {n : Nat} :
    Advances (boundList.more rules plus captures const n) := by
  induction n with
  | zero =>
    rw [boundList.more]
    infer_instance
  | succ n ih =>
    rw [boundList.more]
    infer_instance

instance {plus captures const : Bool} : Advances (boundList rules plus captures const) := by
  unfold boundList
  infer_instance

instance {plus captures const : Bool} : Advances (boundsWithTrait rules plus captures const) := by
  unfold boundsWithTrait
  infer_instance

instance {first : Tree} : Advances (boundsAfter rules first) := by
  unfold boundsAfter
  infer_instance

theorem tail_of_isTextLiteral {ts : List Token} (h : isTextLiteral ts = true) :
    Token.Tail (ts.drop 1) ts := by
  unfold isTextLiteral at h
  split at h
  · exact .cons rfl _
  · cases h

instance : Advances abi? := by
  unfold abi?
  refine advances_bind inferInstance fun _ => advances_ite ?_ inferInstance
  refine advances_bind inferInstance fun word => ?_
  exact advances_raw (fun _ => tail_of_isTextLiteral) (fun _ => inferInstance) inferInstance

instance {params : Tree} : Advances (functionType rules params) := by
  unfold functionType
  infer_instance

instance {plus : Bool} : Advances (parenType rules plus) := by
  unfold parenType
  constructor
  intro c t c' h
  rw [get_bind] at h
  rcases hc : c.rest with _ | ⟨token, rest⟩
  · simp only [hc] at h
    cases h
  · cases token with
    | group d body pos close =>
      cases d with
      | paren =>
        cases body with
        | nil =>
          simp only [hc] at h
          rw [set_bind] at h
          obtain ⟨-, rfl⟩ := run_pure_eq_ok.1 h
          exact .cons rfl _
        | cons first more =>
          simp only [hc] at h
          rw [← hc]
          split at h
          · exact tail_of_ok h
          · split at h
            · exact tail_of_ok h
            · obtain ⟨inner, c₁, hinner, h⟩ := run_bind_eq_ok.1 h
              refine Token.Tail.trans (@tail_of_ok _ _ ?_ _ _ _ h) (tail_of_ok hinner)
              split
              · split
                · infer_instance
                · infer_instance
              · infer_instance
      | bracket =>
        simp only [hc] at h
        cases h
      | brace =>
        simp only [hc] at h
        cases h
    | _ =>
      simp only [hc] at h
      cases h

instance {params : Tree} {plus : Bool} : Advances (pathType rules params plus) := by
  unfold pathType
  dsimp only
  infer_instance

instance {plus : Bool} : Advances (type? rules plus) := by
  unfold type?
  refine advances_bind inferInstance fun params => advances_bind inferInstance fun ahead => ?_
  refine advances_guard fun _ => ?_
  dsimp only
  -- one step for each way in which a type may start
  refine advances_bind inferInstance fun _ => advances_ite inferInstance ?_
  refine advances_bind inferInstance fun _ => advances_ite inferInstance ?_
  refine advances_bind inferInstance fun _ => advances_ite inferInstance ?_
  refine advances_bind inferInstance fun _ => advances_ite inferInstance ?_
  refine advances_bind inferInstance fun _ => advances_ite inferInstance ?_
  refine advances_bind inferInstance fun _ => advances_ite inferInstance ?_
  refine advances_bind inferInstance fun _ => advances_ite inferInstance ?_
  infer_instance

instance {plus : Bool} : Advances (type rules plus) := by
  unfold type
  infer_instance

/-! ## Patterns -/

instance : Advances (rangeEnd rules) := by
  unfold rangeEnd
  infer_instance

instance : Advances rangeOperator := by
  unfold rangeOperator
  infer_instance

instance {start : Tree} : Advances (rangeAfter rules start) := by
  unfold rangeAfter
  infer_instance

theorem tail_of_indexAhead? {ts : List Token} {n : Nat} (h : indexAhead? ts = some n) :
    Token.Tail (ts.drop 1) ts := by
  unfold indexAhead? at h
  split at h
  · exact .cons rfl _
  · cases h

instance : Advances member := by
  constructor
  intro c t c' h
  unfold member at h
  rw [get_bind] at h
  cases hindex : indexAhead? c.rest with
  | none =>
    simp only [hindex] at h
    exact tail_of_ok h
  | some n =>
    simp only [hindex] at h
    cases h
    exact tail_of_indexAhead? hindex

instance : Advances (patternField rules) := by
  unfold patternField
  dsimp only
  infer_instance

instance : Advances (patternFields rules) := by
  unfold patternFields
  infer_instance

instance : Advances (pathPattern rules) := by
  unfold pathPattern
  infer_instance

instance : Advances (identPattern rules) := by
  unfold identPattern
  infer_instance

instance : Advances (slicePattern rules) := by
  unfold slicePattern
  infer_instance

instance : Advances (pattern rules) := by
  unfold pattern
  repeat' first
    | infer_instance
    | split
    | with_reducible refine advances_bind inferInstance fun _ => ?_

instance : Advances (patterns rules) := by
  unfold patterns
  infer_instance

/-! ## Expressions -/

instance {structs : Bool} {strength n : Nat} {t : Tree} :
    Advances (operand.grow rules structs strength n t) := by
  induction n generalizing t with
  | zero =>
    rw [operand.grow]
    infer_instance
  | succ n ih =>
    rw [operand.grow]
    infer_instance

instance {structs : Bool} {strength : Nat} : Advances (operand rules structs strength) := by
  unfold operand
  infer_instance

instance {start : Tree} {structs : Bool} : Advances (rangeTail rules start structs) := by
  unfold rangeTail
  infer_instance

instance {structs : Bool} {base n : Nat} {t : Tree} :
    Advances (exprFrom.grow rules structs base n t) := by
  induction n generalizing t with
  | zero =>
    rw [exprFrom.grow]
    infer_instance
  | succ n ih =>
    rw [exprFrom.grow]
    split
    · infer_instance
    · refine advances_bind inferInstance fun c => ?_
      dsimp only
      split
      · infer_instance
      · infer_instance

instance {left : Tree} {structs : Bool} {base : Nat} :
    Advances (exprFrom rules left structs base) := by
  unfold exprFrom
  infer_instance

instance {structs : Bool} : Advances (expr rules structs) := by
  unfold expr
  infer_instance

instance : Advances (arguments rules) := by
  unfold arguments
  infer_instance

instance {e dot : Tree} : Advances (namedTrailer rules e dot) := by
  unfold namedTrailer
  dsimp only
  infer_instance

theorem tail_of_indexesAhead? {ts : List Token} {found : List Nat × Bool}
    (h : indexesAhead? ts = some found) : Token.Tail (ts.drop 1) ts := by
  unfold indexesAhead? at h
  split at h
  · exact .cons rfl _
  · cases h

instance {e dot : Tree} : Advances (afterPoint rules e dot) := by
  constructor
  intro c t c' h
  unfold afterPoint at h
  rw [get_bind] at h
  cases hindexes : indexesAhead? c.rest with
  | none =>
    simp only [hindexes] at h
    exact tail_of_ok h
  | some found =>
    obtain ⟨indexes, pointLeft⟩ := found
    simp only [hindexes] at h
    obtain ⟨first, c₁, hfirst, h⟩ := run_bind_eq_ok.1 h
    cases hfirst
    refine Token.Tail.trans ?_ (tail_of_indexesAhead? hindexes)
    cases pointLeft with
    | false =>
      cases h
      exact .refl _
    | true =>
      simp only [Bool.not_true, Bool.false_eq_true, if_false] at h
      rw [get_bind] at h
      cases hindex : indexAhead? (c.rest.drop 1) with
      | none =>
        simp only [hindex] at h
        exact tail_of_ok h
      | some n =>
        simp only [hindex] at h
        cases h
        exact tail_of_indexAhead? hindex

instance {n : Nat} {t : Tree} : Advances (trailers.grow rules n t) := by
  induction n generalizing t with
  | zero =>
    rw [trailers.grow]
    infer_instance
  | succ n ih =>
    rw [trailers.grow]
    infer_instance

instance {first : Tree} : Advances (trailers rules first) := by
  unfold trailers
  infer_instance

instance : Advances (structField rules) := by
  unfold structField
  dsimp only
  infer_instance

instance {base : Tree} : Advances (structAfter rules base) := by
  unfold structAfter
  infer_instance

instance {structs : Bool} : Advances (pathExpr rules structs) := by
  unfold pathExpr
  infer_instance

instance : Advances (parenOrTuple rules) := by
  unfold parenOrTuple
  infer_instance

instance : Advances (arrayOrRepeat rules) := by
  unfold arrayOrRepeat
  repeat' first
    | infer_instance
    | split
    | with_reducible refine advances_bind inferInstance fun _ => ?_

instance : Advances (closureParam rules) := by
  unfold closureParam
  infer_instance

instance {structs : Bool} : Advances (closure rules structs) := by
  unfold closure
  infer_instance

instance {structs : Bool} : Advances (breakExpr rules structs) := by
  unfold breakExpr
  infer_instance

instance {kind : Kind} {w : String} : Advances (wordAndExpr rules kind w) := by
  unfold wordAndExpr
  infer_instance

instance {structs : Bool} : Advances (letExpr rules structs) := by
  unfold letExpr
  infer_instance

instance : Advances (ifExpr rules) := by
  unfold ifExpr
  infer_instance

instance {label : Tree} : Advances (whileLoop rules label) := by
  unfold whileLoop
  infer_instance

instance {label : Tree} : Advances (forLoop rules label) := by
  unfold forLoop
  infer_instance

instance {label : Tree} : Advances (loop rules label) := by
  unfold loop
  infer_instance

instance : Advances (labeled rules) := by
  unfold labeled
  dsimp only
  infer_instance

instance : Advances (arm rules) := by
  unfold arm
  infer_instance

instance : Advances (matchExpr rules) := by
  unfold matchExpr
  infer_instance

instance : Advances (become rules) := by
  unfold become
  infer_instance

instance {structs : Bool} : Advances (atom rules structs) := by
  unfold atom
  dsimp only
  infer_instance

instance {structs : Bool} : Advances (unary? rules structs) := by
  unfold unary?
  dsimp only
  infer_instance

instance {structs : Bool} : Advances (unary rules structs) := by
  unfold unary
  infer_instance

instance : Advances (blockLike rules) := by
  unfold blockLike
  infer_instance

instance {attrs : Tree} : Advances (localStmt rules attrs) := by
  unfold localStmt
  dsimp only
  infer_instance

instance : Advances (statement rules) := by
  constructor
  intro c t c' h
  unfold statement at h
  rw [get_bind] at h
  obtain ⟨attrs, c₁, hattrs, h⟩ := run_bind_eq_ok.1 h
  rw [get_bind] at h
  -- an item reads its attributes again, any other statement goes on behind them
  have after {p : Parser Tree} [Advances p] (hrun : p c₁ = .ok (t, c')) :
      Token.Tail c'.rest c.rest :=
    (tail_of_ok hrun).trans (tail_of_ok hattrs)
  have plain (isItem : Bool) (h : (if Token.isWord "let" c₁.rest then localStmt rules attrs
      else if isItem then do
        set c
        return .node .itemStmt [← rules .item]
      else do
        let e ← rules .blockLike
        let semi ← op? ";"
        match e with
        | .node .invocation [p, bang, body] =>
          let braces := Token.isGroup .brace body.tokens
          if !semi.isAbsent || braces then
            return .node .callStmt [attrs, .node .invocation [p, bang, body], semi]
          else return .node .exprStmt [withAttributes attrs e, semi]
        | _ => return .node .exprStmt [withAttributesFirst attrs e, semi]) c₁ = .ok (t, c')) :
      Token.Tail c'.rest c.rest := by
    split at h
    · exact after h
    · split at h
      · rw [set_bind] at h
        exact tail_of_ok h
      · obtain ⟨e, c₂, he, h⟩ := run_bind_eq_ok.1 h
        obtain ⟨semi, c₃, hsemi, h⟩ := run_bind_eq_ok.1 h
        have hrest : c₃ = c' := by
          split at h
          · dsimp only at h
            split at h <;> exact (run_pure_eq_ok.1 h).2
          · exact (run_pure_eq_ok.1 h).2
        rw [← hrest]
        exact (tail_of_ok hsemi).trans ((tail_of_ok he).trans (tail_of_ok hattrs))
  cases hshape : callShape c₁.rest with
  | braces =>
    simp only [hshape] at h
    exact after h
  | item =>
    simp only [hshape] at h
    exact plain true h
  | other =>
    simp only [hshape] at h
    exact plain _ h

instance : Advances (statements rules) := by
  unfold statements
  infer_instance

instance {inner : Bool} : Advances (block rules inner) := by
  unfold block
  infer_instance

/-! ## Items -/

instance : Advances visibility := by
  unfold visibility
  infer_instance

instance {foreign : Bool} : Advances (signatureWords foreign) := by
  unfold signatureWords
  infer_instance

instance {attrs : Tree} : Advances (receiver rules attrs) := by
  unfold receiver
  dsimp only
  infer_instance

instance : Advances (parameter rules) := by
  unfold parameter
  repeat' first
    | infer_instance
    | split
    | with_reducible refine advances_bind inferInstance fun _ => ?_

instance : Advances (parameters rules) := by
  unfold parameters
  infer_instance

instance {foreign : Bool} : Advances (signature rules foreign) := by
  unfold signature
  infer_instance

instance {root : Bool} : Advances (useTree rules root) := by
  unfold useTree
  dsimp only
  infer_instance

instance {attrs vis : Tree} : Advances (useItem? rules attrs vis) := by
  unfold useItem?
  infer_instance

instance : Advances (namedField rules) := by
  unfold namedField
  infer_instance

instance : Advances (unnamedField rules) := by
  unfold unnamedField
  infer_instance

instance {attrs vis word name gens where' : Tree} :
    Advances (bracedFields rules attrs vis word name gens where') := by
  unfold bracedFields
  infer_instance

instance {attrs vis : Tree} : Advances (structItem rules attrs vis) := by
  unfold structItem
  dsimp only
  infer_instance

instance {attrs vis : Tree} : Advances (unionItem rules attrs vis) := by
  unfold unionItem
  infer_instance

instance : Advances (variant rules) := by
  unfold variant
  dsimp only
  infer_instance

instance {attrs vis : Tree} : Advances (enumItem rules attrs vis) := by
  unfold enumItem
  infer_instance

instance : Advances (bodyOrSemi rules) := by
  unfold bodyOrSemi
  infer_instance

instance {attrs vis default : Tree} {foreign : Bool} :
    Advances (functionItem rules attrs vis default foreign) := by
  unfold functionItem
  infer_instance

instance {attrs vis default : Tree} : Advances (functionWithBody? rules attrs vis default) := by
  unfold functionWithBody?
  infer_instance

instance {attrs vis default : Tree} : Advances (constItem? rules attrs vis default) := by
  unfold constItem?
  dsimp only
  infer_instance

instance {attrs vis default : Tree} : Advances (constValue? rules attrs vis default) := by
  unfold constValue?
  infer_instance

instance {attrs vis default : Tree} {place : ClausePlace} :
    Advances (typeItem rules attrs vis default place) := by
  unfold typeItem
  dsimp only
  infer_instance

instance {attrs vis default : Tree} {place : ClausePlace} :
    Advances (typeAlias? rules attrs vis default place) := by
  unfold typeAlias?
  infer_instance

instance {attrs vis : Tree} : Advances (staticItem rules attrs vis) := by
  unfold staticItem
  infer_instance

instance {attrs vis : Tree} : Advances (staticValue? rules attrs vis) := by
  unfold staticValue?
  dsimp only
  infer_instance

instance {attrs : Tree} {named : Bool} : Advances (callItem attrs named) := by
  unfold callItem
  infer_instance

instance : Advances (traitMember? rules) := by
  unfold traitMember?
  infer_instance

instance : Advances (implMember? rules) := by
  unfold implMember?
  infer_instance

instance : Advances (foreignMember? rules) := by
  unfold foreignMember?
  dsimp only
  repeat' first
    | infer_instance
    | split
    | with_reducible refine advances_bind inferInstance fun _ => ?_

instance {member : Parser Tree} [Advances member] : Advances (braced rules member) := by
  unfold braced
  infer_instance

instance {attrs vis guard : Tree} : Advances (modItem rules attrs vis guard) := by
  unfold modItem
  dsimp only
  infer_instance

instance {attrs vis guard auto : Tree} : Advances (traitItem rules attrs vis guard auto) := by
  unfold traitItem
  dsimp only
  infer_instance

instance : Advances (onlyTrait rules) := by
  unfold onlyTrait
  infer_instance

instance {attrs vis : Tree} : Advances (implItem? rules attrs vis) := by
  unfold implItem?
  dsimp only
  repeat' first
    | infer_instance
    | split
    | with_reducible refine advances_bind inferInstance fun _ => ?_

instance {attrs vis guard : Tree} : Advances (externItem rules attrs vis guard) := by
  unfold externItem
  dsimp only
  infer_instance

instance : Advances macroDefinition := by
  unfold macroDefinition
  dsimp only
  infer_instance

instance : Advances (item? rules) := by
  unfold item?
  dsimp only
  infer_instance

instance : Advances (item rules) := by
  unfold item
  infer_instance

instance : Advances (file rules) := by
  unfold file
  infer_instance

/-- Every rule, read to any depth, leaves a tail. -/
instance advances_toDepth (depth : Nat) (r : Rule) : Advances (toDepth depth r) := by
  induction depth generalizing r with
  | zero => exact advances_of_stays nofun
  | succ depth ih =>
    show Advances (production (toDepth depth) r)
    cases r <;>
    · unfold production
      infer_instance

end Grammar

end TypedSettings.Source
