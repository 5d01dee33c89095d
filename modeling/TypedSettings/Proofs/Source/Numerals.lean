import Mathlib.Data.Nat.Digits.Defs
import TypedSettings.Proofs.Source.Lexing
import TypedSettings.Source.LiteralValue

/-!
Integer literals. A literal has a base, digits with underscores among them, and perhaps a suffix; a
minus is a token of its own. What it denotes is the positional value of its digits.

* `intDigits?_append`: digits are read as their value, up to the suffix.
* `Numeral.read?_tokens`: an integer literal is read as what it denotes.
* `Numeral.exists_of_read?`: whatever is read as an integer is such a literal.
-/

namespace TypedSettings.Source

open TypedSettings.Text

/-! ## Digits -/

/-- The bases of integer literals. -/
inductive Base where
  | binary
  | octal
  | decimal
  | hexadecimal
deriving DecidableEq, Repr

namespace Base

def radix : Base → Nat
  | binary => 2
  | octal => 8
  | decimal => 10
  | hexadecimal => 16

/-- What a literal of the base starts with. -/
def mark : Base → List Char
  | binary => ['0', 'b']
  | octal => ['0', 'o']
  | decimal => []
  | hexadecimal => ['0', 'x']

def isDigit (b : Base) (c : Char) : Bool := (hexDigit? c).any (· < b.radix)

theorem isDigit_iff {b : Base} {c : Char} :
    b.isDigit c = true ↔ ∃ d, hexDigit? c = some d ∧ d < b.radix := by
  simp [isDigit, Option.any_eq_true]

/-- Characters after which no digit can be added: there are none, or they start a suffix. -/
def Stops (b : Base) (cs : List Char) : Prop :=
  ∀ c, cs.head? = some c →
    isIdentStart c = true ∧ c ∉ ['_', 'e', 'E'] ∧ b.isDigit c = false

instance (b : Base) (cs : List Char) : Decidable (b.Stops cs) :=
  match h : cs.head? with
  | none => isTrue fun c hc => by rw [h] at hc; cases hc
  | some c =>
    decidable_of_iff (isIdentStart c = true ∧ c ∉ ['_', 'e', 'E'] ∧ b.isDigit c = false)
      ⟨fun hc c' hc' => by rw [h] at hc'; cases hc'; exact hc, fun hall => hall c h⟩

end Base

theorem hexDigit?_cases {c : Char} {d : Nat} (h : hexDigit? c = some d) :
    (isAsciiDigit c = true ∧ d < 10) ∨ (10 ≤ d ∧ d < 16) := by
  unfold hexDigit? at h
  split at h
  · next hrange =>
    have hle : c.toNat ≤ 57 := hrange.2
    have hd : c.toNat - 48 = d := Option.some.inj h
    refine .inl ⟨?_, ?_⟩
    · rw [isAsciiDigit, decide_eq_true hrange.1, decide_eq_true hrange.2]
      rfl
    · omega
  · split at h
    · next hrange =>
      have hle : c.toNat ≤ 102 := hrange.2
      have hd : c.toNat - 97 + 10 = d := Option.some.inj h
      exact .inr ⟨by omega, by omega⟩
    · split at h
      · next hrange =>
        have hle : c.toNat ≤ 70 := hrange.2
        have hd : c.toNat - 65 + 10 = d := Option.some.inj h
        exact .inr ⟨by omega, by omega⟩
      · cases h

/-- Where there are letters among the digits, what is no digit is none in any base. -/
theorem hexDigit?_eq_none {b : Base} {c : Char} (hb : 10 < b.radix) (hc : b.isDigit c = false) :
    hexDigit? c = none := by
  have hsixteen : b.radix = 16 := by
    cases b <;> first | rfl | exact absurd hb (by decide)
  by_contra hsome
  obtain ⟨d, hd⟩ := Option.ne_none_iff_exists'.1 hsome
  have hlt : d < 16 := by
    rcases hexDigit?_cases hd with h | h
    · omega
    · exact h.2
  have hdigit : b.isDigit c = true := Base.isDigit_iff.2 ⟨d, hd, hsixteen ▸ hlt⟩
  rw [hc] at hdigit
  cases hdigit

/-- One digit adds to the value. -/
theorem intDigits?_digit {b : Base} {c : Char} {d : Nat} (hc : hexDigit? c = some d)
    (hd : d < b.radix) (value : Nat) (digits : Bool) (rest : List Char) :
    intDigits? b.radix value digits (c :: rest)
      = intDigits? b.radix (value * b.radix + d) true rest := by
  have hline : c ≠ '_' := by
    rintro rfl
    cases hc
  have hpoint : c ≠ '.' := by
    rintro rfl
    cases hc
  have hdecimal : isAsciiDigit c = true ∨ 10 < b.radix := by
    by_cases hten : 10 < b.radix
    · exact .inr hten
    · exact .inl ((hexDigit?_cases hc).resolve_right (by omega)).1
  have hexponent : ¬(b.radix = 10 ∧ (c = 'e' ∨ c = 'E')) := by
    rintro ⟨hten, rfl | rfl⟩
    · have : d = 14 := (Option.some.inj hc).symm
      omega
    · have : d = 14 := (Option.some.inj hc).symm
      omega
  rw [intDigits?, if_neg hline, if_neg fun h => hpoint h.2, if_neg hexponent]
  simp only [if_pos hdecimal, hc, if_pos hd]

/-- A suffix ends the digits. -/
theorem intDigits?_stop {b : Base} {cs : List Char} (hcs : b.Stops cs) (value : Nat) :
    intDigits? b.radix value true cs = some (value, cs) := by
  cases cs with
  | nil => rfl
  | cons c rest =>
    obtain ⟨hstart, hmem, hdigit⟩ := hcs c rfl
    simp only [List.mem_cons, List.not_mem_nil, or_false, not_or] at hmem
    have hpoint : c ≠ '.' := by
      rintro rfl
      revert hstart
      decide
    have hnone : (if isAsciiDigit c ∨ 10 < b.radix then hexDigit? c else none) = none := by
      have hascii : ¬isAsciiDigit c = true := by
        rw [Lexer.isAsciiDigit_of_isIdentStart hstart]
        exact Bool.false_ne_true
      by_cases hten : 10 < b.radix
      · rw [if_pos (.inr hten)]
        exact hexDigit?_eq_none hten hdigit
      · rw [if_neg (not_or.2 ⟨hascii, hten⟩)]
    rw [intDigits?, if_neg hmem.1, if_neg fun h => hpoint h.2,
      if_neg fun h => h.2.elim hmem.2.1 hmem.2.2]
    simp only [hnone]
    rfl

theorem intDigits?_append {b : Base} {ds suffix : List Char}
    (hds : ∀ c ∈ ds, c = '_' ∨ b.isDigit c = true) (hsuffix : b.Stops suffix) (value : Nat)
    {digits : Bool} (hsome : digits = true ∨ ∃ c ∈ ds, b.isDigit c = true) :
    intDigits? b.radix value digits (ds ++ suffix)
      = some ((ds.filterMap hexDigit?).foldl (fun v d => v * b.radix + d) value, suffix) := by
  induction ds generalizing value digits with
  | nil =>
    obtain rfl := hsome.resolve_right (by simp)
    exact intDigits?_stop hsuffix value
  | cons c ds ih =>
    obtain ⟨hc, hrest⟩ := List.forall_mem_cons.1 hds
    rcases hc with rfl | hc
    · have hsome' : digits = true ∨ ∃ c ∈ ds, b.isDigit c = true := by
        refine hsome.imp_right ?_
        rintro ⟨c, hmem, hc⟩
        rcases List.mem_cons.1 hmem with rfl | hmem
        · exact absurd hc (by cases b <;> decide)
        · exact ⟨c, hmem, hc⟩
      exact ih hrest value hsome'
    · obtain ⟨d, hd, hlt⟩ := Base.isDigit_iff.1 hc
      rw [List.cons_append, intDigits?_digit hd hlt, ih hrest _ (.inl rfl),
        List.filterMap_cons_some hd, List.foldl_cons]

/-- What comes before the suffix of an integer is digits and underscores. -/
theorem digits_of_intDigits? {b : Base} {value n : Nat} {digits : Bool} {cs suffix : List Char}
    (h : intDigits? b.radix value digits cs = some (n, suffix)) :
    ∃ ds, cs = ds ++ suffix ∧ (∀ c ∈ ds, c = '_' ∨ b.isDigit c = true) ∧
      (digits = true ∨ ∃ c ∈ ds, b.isDigit c = true) ∧
      ∀ c, suffix.head? = some c → c ≠ '_' ∧ b.isDigit c = false := by
  fun_induction intDigits? b.radix value digits cs with
  | case1 =>
    obtain ⟨rfl, rfl⟩ := Prod.mk.inj (Option.some.inj h)
    exact ⟨[], rfl, nofun, .inl rfl, nofun⟩
  | case2 | case4 | case5 | case7 | case9 | case11 => cases h
  | case3 _ _ _ ih =>
    obtain ⟨ds, rfl, hds, hsome, hstop⟩ := ih h
    refine ⟨'_' :: ds, rfl, List.forall_mem_cons.2 ⟨.inl rfl, hds⟩, ?_, hstop⟩
    exact hsome.imp_right fun ⟨c, hc, hdigit⟩ => ⟨c, List.mem_cons_of_mem _ hc, hdigit⟩
  | case6 _ c rest hline _ hexponent =>
    obtain ⟨rfl, rfl⟩ := Prod.mk.inj (Option.some.inj h)
    refine ⟨[], rfl, nofun, .inl rfl, ?_⟩
    rintro _ ⟨⟩
    refine ⟨hline, ?_⟩
    rw [Base.isDigit, hexponent.1]
    rcases hexponent.2 with rfl | rfl <;> rfl
  | case8 _ _ c rest _ _ _ _ d hd hlt ih =>
    obtain ⟨ds, rfl, hds, -, hstop⟩ := ih h
    have hdigit : b.isDigit c = true :=
      Base.isDigit_iff.2 ⟨d, (Option.ite_none_right_eq_some.1 hd).2, hlt⟩
    exact ⟨c :: ds, rfl, List.forall_mem_cons.2 ⟨.inr hdigit, hds⟩,
      .inr ⟨c, List.mem_cons_self, hdigit⟩, hstop⟩
  | case10 _ c rest hline _ _ _ hnone =>
    obtain ⟨rfl, rfl⟩ := Prod.mk.inj (Option.some.inj h)
    refine ⟨[], rfl, nofun, .inl rfl, ?_⟩
    rintro _ ⟨⟩
    refine ⟨hline, Bool.eq_false_iff.2 fun hc => ?_⟩
    obtain ⟨d, hd, hlt⟩ := Base.isDigit_iff.1 hc
    have hread : isAsciiDigit c = true ∨ 10 < b.radix :=
      (hexDigit?_cases hd).imp And.left fun h => by omega
    change (if isAsciiDigit c ∨ 10 < b.radix then hexDigit? c else none) = none at hnone
    rw [if_pos hread, hd] at hnone
    cases hnone

/-! ## Literals -/

theorem Base.Stops.suffix {b : Base} {cs : List Char} (h : b.Stops cs) :
    (cs.isEmpty || cs.head?.any isIdentStart) = true := by
  cases cs with
  | nil => rfl
  | cons c cs => exact (h c rfl).1

theorem intValue?_marked {b : Base} (hb : b ≠ .decimal) {cs suffix : List Char} {n : Nat}
    (h : intDigits? b.radix 0 false cs = some (n, suffix)) (hsuffix : b.Stops suffix) :
    intValue? (b.mark ++ cs) = some (n, String.ofList suffix) := by
  cases b with
  | decimal => exact absurd rfl hb
  | binary | octal | hexadecimal =>
    simp only [Base.radix] at h
    simp only [intValue?, Base.mark, List.cons_append, List.nil_append, h]
    exact if_pos hsuffix.suffix

/-- Digits without a mark in front: no letter of a mark is second. -/
theorem intValue?_decimal {c : Char} {cs suffix : List Char} {n : Nat}
    (hc : isAsciiDigit c = true) (hcs : c = '0' → ∀ d, cs.head? = some d → d ∉ ['x', 'o', 'b'])
    (h : intDigits? 10 0 false (c :: cs) = some (n, suffix)) (hsuffix : Base.decimal.Stops suffix) :
    intValue? (c :: cs) = some (n, String.ofList suffix) := by
  unfold intValue?
  split
  · next heq =>
    obtain ⟨hzero, hmark⟩ := List.cons.inj heq
    exact absurd (hcs hzero 'x' (by rw [hmark]; rfl)) (by decide)
  · next heq =>
    obtain ⟨hzero, hmark⟩ := List.cons.inj heq
    exact absurd (hcs hzero 'o' (by rw [hmark]; rfl)) (by decide)
  · next heq =>
    obtain ⟨hzero, hmark⟩ := List.cons.inj heq
    exact absurd (hcs hzero 'b' (by rw [hmark]; rfl)) (by decide)
  · next heq =>
    cases heq
    simp only [if_pos hc, h]
    exact if_pos hsuffix.suffix
  · next heq => cases heq

/-- An integer literal, with the minus in front of it. -/
structure Numeral where
  negative : Bool := false
  base : Base
  digits : List Char
  suffix : List Char := []
  isDigit : ∀ c ∈ digits, c = '_' ∨ base.isDigit c = true
  hasDigit : ∃ c ∈ digits, base.isDigit c = true
  stops : base.Stops suffix
  /-- A decimal literal starts with a digit, and not with the mark of another base. -/
  plain : base = .decimal → (digits ++ suffix).head? ≠ some '_' ∧
    ((digits ++ suffix).head? = some '0' →
      ∀ c, (digits ++ suffix).tail.head? = some c → c ∉ ['x', 'o', 'b'])

namespace Numeral

/-- The literal without its sign. -/
def text (n : Numeral) : String := String.ofList (n.base.mark ++ (n.digits ++ n.suffix))

def magnitude (n : Numeral) : Nat :=
  Nat.ofDigits n.base.radix (n.digits.filterMap hexDigit?).reverse

/-- The integer that the literal denotes. -/
def value (n : Numeral) : Int := if n.negative then -n.magnitude else n.magnitude

/-- The tokens of the literal at its places. -/
def tokens (n : Numeral) (joint : Bool) (pos at' : Position) : List Token :=
  (if n.negative then [.sign '-' joint pos] else []) ++ [.literal n.text at']

theorem intDigits?_digits (n : Numeral) :
    intDigits? n.base.radix 0 false (n.digits ++ n.suffix) = some (n.magnitude, n.suffix) := by
  rw [intDigits?_append n.isDigit n.stops 0 (.inr n.hasDigit), magnitude,
    Nat.ofDigits_eq_foldr, List.foldr_reverse]
  simp only [Nat.cast_id, Nat.mul_comm, Nat.add_comm]

theorem head_digits {n : Numeral} (hn : n.base = .decimal) :
    ∃ c cs, n.digits = c :: cs ∧ isAsciiDigit c = true := by
  cases hdigits : n.digits with
  | nil =>
    obtain ⟨c, hc, -⟩ := n.hasDigit
    rw [hdigits] at hc
    cases hc
  | cons c cs =>
    refine ⟨c, cs, rfl, ?_⟩
    have hmem : c ∈ n.digits := by
      rw [hdigits]
      exact List.mem_cons_self
    have hline : c ≠ '_' := by
      rintro rfl
      exact (n.plain hn).1 (by rw [hdigits]; rfl)
    obtain ⟨d, hd, hlt⟩ := Base.isDigit_iff.1 ((n.isDigit c hmem).resolve_left hline)
    rw [hn] at hlt
    exact ((hexDigit?_cases hd).resolve_right fun h => by
      have : d < 10 := hlt
      omega).1

theorem intValue?_text (n : Numeral) :
    intValue? n.text.toList = some (n.magnitude, String.ofList n.suffix) := by
  rw [text, String.toList_ofList]
  by_cases hn : n.base = .decimal
  · obtain ⟨c, cs, hdigits, hc⟩ := head_digits hn
    have hplain := (n.plain hn).2
    have hread := n.intDigits?_digits
    have hstops := n.stops
    rw [hn] at hread hstops
    rw [hdigits, List.cons_append] at hread hplain
    rw [hn, hdigits]
    exact intValue?_decimal hc (fun hzero => hplain (by rw [hzero]; rfl)) hread hstops
  · exact intValue?_marked hn n.intDigits?_digits n.stops

theorem number_text (n : Numeral) :
    Literal.number n.text = (.int n.magnitude, String.ofList n.suffix) := by
  rw [Literal.number, intValue?_text]

/-- A literal that starts with a digit is a number. -/
theorem classify_text (n : Numeral) :
    Literal.classify n.text = (.int n.magnitude, String.ofList n.suffix) := by
  have hhead : ∃ c cs, n.text.toList = c :: cs ∧ isAsciiDigit c = true := by
    rw [text, String.toList_ofList]
    by_cases hn : n.base = .decimal
    · obtain ⟨c, cs, hdigits, hc⟩ := head_digits hn
      exact ⟨c, cs ++ n.suffix, by rw [hn, hdigits]; rfl, hc⟩
    · cases hb : n.base with
      | decimal => exact absurd hb hn
      | _ => exact ⟨_, _, rfl, rfl⟩
  obtain ⟨c, cs, htext, hc⟩ := hhead
  rw [← number_text]
  unfold Literal.classify
  split <;>
    first
    | rfl
    | next heq =>
      rw [htext] at heq
      cases heq
      exact absurd hc (by decide)

theorem exists_of_intDigits? (negative : Bool) {b : Base} {cs suffix : List Char} {value : Nat}
    (h : intDigits? b.radix 0 false cs = some (value, suffix))
    (hstart : (suffix.isEmpty || suffix.head?.any isIdentStart) = true)
    (hsuffix : ∀ c, suffix.head? = some c → c ∉ ['e', 'E'])
    (hplain : b = .decimal → cs.head? ≠ some '_' ∧
      (cs.head? = some '0' → ∀ c, cs.tail.head? = some c → c ∉ ['x', 'o', 'b'])) :
    ∃ n : Numeral, n.negative = negative ∧ n.text.toList = b.mark ++ cs ∧ n.magnitude = value ∧
      n.suffix = suffix := by
  obtain ⟨ds, rfl, hds, hsome, hstop⟩ := digits_of_intDigits? h
  have hstops : b.Stops suffix := by
    intro c hc
    have hident : isIdentStart c = true := by
      cases suffix with
      | nil => cases hc
      | cons d rest =>
        cases hc
        exact hstart
    refine ⟨hident, ?_, (hstop c hc).2⟩
    exact List.not_mem_cons_of_ne_of_not_mem (hstop c hc).1 (hsuffix c hc)
  let n : Numeral := {
    negative, base := b, digits := ds, suffix, isDigit := hds
    hasDigit := hsome.resolve_left Bool.false_ne_true
    stops := hstops
    plain := hplain }
  have hread : intDigits? b.radix 0 false (ds ++ suffix) = some (n.magnitude, suffix) :=
    n.intDigits?_digits
  rw [h] at hread
  exact ⟨n, rfl, String.toList_ofList, (Prod.mk.inj (Option.some.inj hread)).1.symm, rfl⟩

/-- Every text that is read as an integer is one of these literals, unless its suffix starts as an
exponent does. -/
theorem exists_of_intValue? (negative : Bool) {cs : List Char} {value : Nat} {suffix : String}
    (h : intValue? cs = some (value, suffix))
    (hsuffix : ∀ c, suffix.toList.head? = some c → c ∉ ['e', 'E']) :
    ∃ n : Numeral, n.negative = negative ∧ n.text.toList = cs ∧ n.magnitude = value ∧
      String.ofList n.suffix = suffix := by
  unfold intValue? at h
  dsimp only at h
  split at h
  · next k s hread =>
    obtain ⟨hstart, heq⟩ := Option.ite_none_right_eq_some.1 h
    obtain ⟨rfl, rfl⟩ := Prod.mk.inj (Option.some.inj heq)
    rw [String.toList_ofList] at hsuffix
    have hexists : ∃ n : Numeral, n.negative = negative ∧ n.text.toList = cs ∧ n.magnitude = k ∧
        n.suffix = s := by
      split at hread
      · exact exists_of_intDigits? negative hread hstart hsuffix (b := .hexadecimal) nofun
      · exact exists_of_intDigits? negative hread hstart hsuffix (b := .octal) nofun
      · exact exists_of_intDigits? negative hread hstart hsuffix (b := .binary) nofun
      · next c rest hhex hoct hbin =>
        obtain ⟨hc, hread⟩ := Option.ite_none_right_eq_some.1 hread
        refine exists_of_intDigits? negative hread hstart hsuffix (b := .decimal) fun _ => ⟨?_, ?_⟩
        · rintro ⟨⟩
          cases hc
        · rintro ⟨⟩ d hd
          obtain ⟨rest, rfl⟩ := List.head?_eq_some_iff.1 hd
          simp only [List.mem_cons, List.not_mem_nil, or_false, not_or]
          exact ⟨fun h => hhex rest rfl (by rw [← h]), fun h => hoct rest rfl (by rw [← h]),
            fun h => hbin rest rfl (by rw [← h])⟩
      · cases hread
    obtain ⟨n, hsign, htext, hvalue, rfl⟩ := hexists
    exact ⟨n, hsign, htext, hvalue, rfl⟩
  · cases h

/-- What the literal is read as. -/
def literal (n : Numeral) (pos at' : Position) : Literal :=
  ⟨.int n.value, String.ofList n.suffix, n.tokens false pos at'⟩

/-- An integer literal is read as what it denotes. -/
theorem read?_tokens (n : Numeral) (joint : Bool) (pos at' : Position) (rest : List Token) :
    Literal.read? (n.tokens joint pos at' ++ rest) = some (n.literal pos at', rest) := by
  cases hsign : n.negative with
  | false =>
    simp only [literal, tokens, value, hsign, Bool.false_eq_true, if_false, List.nil_append,
      List.cons_append, Literal.read?, Literal.ofToken, classify_text]
  | true =>
    simp only [literal, tokens, value, hsign, if_true, List.nil_append,
      List.cons_append, Literal.read?, number_text]

theorem exists_of_number (negative : Bool) {text suffix : String} {v : Int}
    (h : Literal.number text = (.int v, suffix))
    (hsuffix : ∀ c, suffix.toList.head? = some c → c ∉ ['e', 'E']) :
    ∃ n : Numeral, n.negative = negative ∧ n.text = text ∧ (n.magnitude : Int) = v ∧
      String.ofList n.suffix = suffix := by
  unfold Literal.number at h
  split at h
  · next k s hread =>
    obtain ⟨hv, rfl⟩ := Prod.mk.inj h
    obtain ⟨n, hsign, htext, rfl, hs⟩ := exists_of_intValue? negative hread hsuffix
    exact ⟨n, hsign, String.toList_injective htext, LiteralKind.int.inj hv, hs⟩
  · split at h
    · split at h <;> cases h
    · cases h

theorem number_of_classify {text suffix : String} {v : Int}
    (h : Literal.classify text = (.int v, suffix)) : Literal.number text = (.int v, suffix) := by
  unfold Literal.classify at h
  split at h <;> first | exact h | cases h

/-- Every literal that is read as an integer is one of these. -/
theorem exists_of_read? {ts rest : List Token} {l : Literal} {v : Int}
    (h : Literal.read? ts = some (l, rest)) (hint : l.kind = .int v)
    (hsuffix : ∀ c, l.suffix.toList.head? = some c → c ∉ ['e', 'E']) :
    ∃ (n : Numeral) (joint : Bool) (pos at' : Position),
      ts = n.tokens joint pos at' ++ rest ∧ l = n.literal pos at' := by
  unfold Literal.read? at h
  split at h
  · next text pos _ =>
    obtain ⟨rfl, rfl⟩ := Prod.mk.inj (Option.some.inj h)
    have hnumber := number_of_classify (Prod.ext hint rfl)
    obtain ⟨n, hsign, rfl, rfl, hs⟩ := exists_of_number false hnumber hsuffix
    refine ⟨n, false, {}, pos, by simp [tokens, hsign], ?_⟩
    simp [literal, tokens, value, hsign, Literal.ofToken, classify_text]
  · obtain ⟨rfl, -⟩ := Prod.mk.inj (Option.some.inj h)
    cases hint
  · obtain ⟨rfl, -⟩ := Prod.mk.inj (Option.some.inj h)
    cases hint
  · next joint pos text at' _ =>
    dsimp only at h
    split at h
    · next k suffix hnumber =>
      obtain ⟨rfl, rfl⟩ := Prod.mk.inj (Option.some.inj h)
      obtain ⟨n, hsign, rfl, rfl, rfl⟩ := exists_of_number true hnumber hsuffix
      refine ⟨n, joint, pos, at', by simp [tokens, hsign], ?_⟩
      simp [literal, tokens, value, hsign]
    · obtain ⟨rfl, -⟩ := Prod.mk.inj (Option.some.inj h)
      cases hint
    · cases h
  · cases h

end Numeral

end TypedSettings.Source
