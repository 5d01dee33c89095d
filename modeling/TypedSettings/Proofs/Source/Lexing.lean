import TypedSettings.Proofs.Source.Words

/-!
Splitting a text whose tokens are known. A text is split piece by piece: a word, a sign or a pair of
parentheses in front gives its token, whatever follows, as long as that does not go on with the
word.

* `Lexes`: what splitting makes of the front of a text.
* `lexes_word`, `lexes_sign`, `lexes_colons`: single pieces.
* `lexes_parens`: a piece in parentheses.
* `tokenize_of_lexes`: a text that is split up to its end.
-/

namespace TypedSettings

namespace Source.Lexer

open TypedSettings.Text Emit

/-- Splitting `cs` gives tokens that pass, and goes on with `rest`. -/
def Lexes (P : List Token → Prop) (cs rest : List Char) : Prop :=
  ∀ (fuel : Nat) (pos : Position) (done : List Token) (stack : List Frame), cs.length < fuel →
    ∃ ts fuel' pos', P ts ∧ rest.length < fuel' ∧
      run fuel ⟨cs, pos⟩ done stack = run fuel' ⟨rest, pos'⟩ (ts.reverse ++ done) stack

section

variable {P Q : List Token → Prop} {cs mid rest : List Char}

theorem Lexes.imp (h : Lexes P cs rest) (hPQ : ∀ ts, P ts → Q ts) : Lexes Q cs rest := by
  intro fuel pos done stack hfuel
  obtain ⟨ts, fuel', pos', hts, hrest⟩ := h fuel pos done stack hfuel
  exact ⟨ts, fuel', pos', hPQ ts hts, hrest⟩

theorem lexes_nil (cs : List Char) : Lexes (· = []) cs cs :=
  fun fuel pos _ _ hfuel => ⟨[], fuel, pos, rfl, hfuel, rfl⟩

/-- Two pieces, one after the other. -/
theorem Lexes.append (hp : Lexes P cs mid) (hq : Lexes Q mid rest) :
    Lexes (fun ts => ∃ us vs, ts = us ++ vs ∧ P us ∧ Q vs) cs rest := by
  intro fuel pos done stack hfuel
  obtain ⟨us, fuel₁, pos₁, hus, hfuel₁, hrun₁⟩ := hp fuel pos done stack hfuel
  obtain ⟨vs, fuel₂, pos₂, hvs, hfuel₂, hrun₂⟩ := hq fuel₁ pos₁ (us.reverse ++ done) stack hfuel₁
  refine ⟨us ++ vs, fuel₂, pos₂, ⟨us, vs, rfl, hus, hvs⟩, hfuel₂, ?_⟩
  rw [hrun₁, hrun₂, List.reverse_append, List.append_assoc]

/-- A text that is split up to its end has those tokens. A byte order mark in front would be left
out. -/
theorem tokenize_of_lexes {text : String} (h : Lexes P text.toList [])
    (hmark : ∀ c ∈ text.toList.head?, c.toNat ≠ 0xFEFF) : ∃ ts, tokenize text = .ok ts ∧ P ts := by
  have htokenize : tokenize text = run (text.toList.length + 1) ⟨text.toList, {}⟩ [] [] := by
    unfold tokenize
    cases htext : text.toList with
    | nil => rfl
    | cons c rest =>
      rw [htext] at hmark
      dsimp only
      rw [if_neg (hmark c rfl)]
  obtain ⟨ts, fuel, pos, hts, hfuel, hrun⟩ :=
    h (text.toList.length + 1) {} [] [] (Nat.lt_succ_self _)
  refine ⟨ts, ?_, hts⟩
  obtain ⟨fuel, rfl⟩ : ∃ n, fuel = n + 1 := ⟨fuel - 1, by omega⟩
  rw [htokenize, hrun]
  simp [run, gapLength?, doc?, docShape?]

end

/-! ## Characters -/

theorem isSignChar_of_isIdentStart {c : Char} (h : isIdentStart c = true) :
    isSignChar c = false := by
  rw [Bool.eq_false_iff]
  intro hsign
  have hnone : ("~!@#$%^&*-=+|;:,<.>/?'".toList.all fun d => !isIdentStart d) = true := by decide
  have hc := List.all_eq_true.1 hnone c (List.contains_iff_mem.1 hsign)
  rw [h] at hc
  cases hc

/-- What may follow a word here. -/
def stops : List Char := [':', '<', '>', ',', ')', ' ']

/-- What does not go on with a word. -/
def Stops (cs : List Char) : Prop := ∀ c ∈ cs.head?, c ∈ stops

theorem stops_nil : Stops [] := nofun

theorem stops_cons {c : Char} (h : c ∈ stops) (cs : List Char) : Stops (c :: cs) := by
  intro d hd
  cases hd
  exact h

/-- The rest of a word and what follows it. -/
def Tail (cs : List Char) : Prop :=
  ∃ word rest, cs = word ++ rest ∧ word.all isIdentContinue = true ∧ Stops rest

theorem Tail.cons {c : Char} {cs : List Char} (h : Tail (c :: cs)) :
    (isIdentContinue c = true ∧ Tail cs) ∨ c ∈ stops := by
  obtain ⟨word, rest, heq, hword, hrest⟩ := h
  cases word with
  | nil =>
    rw [List.nil_append] at heq
    subst heq
    exact .inr (hrest c rfl)
  | cons d word =>
    cases heq
    rw [List.all_cons, Bool.and_eq_true] at hword
    exact .inl ⟨hword.1, word, rest, rfl, hword.2, hrest⟩

/-- No quote and no hash follows inside a word or directly after it. -/
theorem Tail.ne {c d : Char} {cs : List Char} (h : Tail (c :: cs))
    (hd : d = '"' ∨ d = '\'' ∨ d = '#') : c ≠ d := by
  rintro rfl
  rcases h.cons with ⟨hc, -⟩ | hc
  · rcases hd with rfl | rfl | rfl <;> revert hc <;> decide
  · rcases hd with rfl | rfl | rfl <;> revert hc <;> decide

theorem Tail.of_letter {c : Char} {cs : List Char} (h : Tail (c :: cs)) (hc : c ∉ stops) :
    Tail cs :=
  (h.cons.resolve_right hc).2

/-! ## Words -/

theorem scanRawFrom?_tail (kind : StringKind) (n : Nat) {cs : List Char} (h : Tail cs) :
    scanRawFrom? kind n cs = none := by
  unfold scanRawFrom?
  cases cs with
  | nil => rfl
  | cons c cs =>
    have hhash : c ≠ '#' := h.ne (.inr (.inr rfl))
    have hquote : c ≠ '"' := h.ne (.inl rfl)
    simp [hhash, hquote]

/-- What a word starts with is no string. -/
theorem scanString?_word {c : Char} {cs : List Char} (hc : isIdentStart c = true)
    (h : Tail cs) : scanString? (c :: cs) = none := by
  unfold scanString?
  split
  · next heq =>
    cases heq
    exact absurd hc (by decide)
  · next heq =>
    cases heq
    exact scanRawFrom?_tail _ _ h
  · next heq =>
    cases heq
    exact absurd rfl (h.ne (.inl rfl))
  · next heq =>
    cases heq
    exact scanRawFrom?_tail _ _ (h.of_letter (by decide))
  · next heq =>
    cases heq
    exact absurd rfl (h.ne (.inl rfl))
  · next heq =>
    cases heq
    exact scanRawFrom?_tail _ _ (h.of_letter (by decide))
  · rfl

theorem scanChar?_word {c : Char} {cs : List Char} (hc : isIdentStart c = true)
    (h : Tail cs) : scanChar? (c :: cs) = none := by
  unfold scanChar?
  split
  · next heq =>
    cases heq
    exact absurd rfl (h.ne (.inr (.inl rfl)))
  · next heq =>
    cases heq
    exact absurd hc (by decide)
  · rfl

theorem isAsciiDigit_of_isIdentStart {c : Char} (h : isIdentStart c = true) :
    isAsciiDigit c = false := by
  rw [Bool.eq_false_iff]
  intro hdigit
  simp only [isAsciiDigit, Bool.and_eq_true, decide_eq_true_eq] at hdigit
  have hlow : 48 ≤ c.toNat := hdigit.1
  have hhigh : c.toNat ≤ 57 := hdigit.2
  have hnone : ∀ n ≤ 57, 48 ≤ n → isIdentStart (Char.ofNat n) = false := by decide
  have hnot := hnone _ hhigh hlow
  rw [Char.ofNat_toNat, h] at hnot
  cases hnot

/-- A letter is no decimal digit. -/
theorem hexDigit?_letter {c : Char} (hc : isIdentStart c = true) {d : Nat}
    (h : hexDigit? c = some d) : ¬d < 10 := by
  have hdigit := isAsciiDigit_of_isIdentStart hc
  unfold hexDigit? at h
  split at h
  · next hrange =>
    rw [isAsciiDigit, decide_eq_true hrange.1, decide_eq_true hrange.2] at hdigit
    cases hdigit
  · split at h
    · have := Option.some.inj h
      omega
    · split at h
      · have := Option.some.inj h
        omega
      · cases h

theorem scanNumber?_word {c : Char} {cs : List Char} (hc : isIdentStart c = true) :
    scanNumber? (c :: cs) = none := by
  have hdigit := isAsciiDigit_of_isIdentStart hc
  have hfloat : scanFloatDigits? (c :: cs) = none := by
    unfold scanFloatDigits?
    rw [List.head?_cons, Option.any_some, hdigit]
    rfl
  have hint : scanIntDigits? (c :: cs) = none := by
    have hbase : scanIntDigits? (c :: cs) = scanDigits? 10 true 0 (c :: cs) := by
      unfold scanIntDigits?
      split
      all_goals first | rfl | (next heq => cases heq; exact absurd hc (by decide))
    rw [hbase, scanDigits?]
    split
    · rfl
    · split
      · next d hd =>
        have := hexDigit?_letter hc hd
        rw [if_neg this, if_neg this]
        rfl
      · rfl
  rw [scanNumber?, hfloat, hint]
  rfl

theorem scanLiteral?_word {c : Char} {cs : List Char} (hc : isIdentStart c = true)
    (h : Tail cs) : scanLiteral? (c :: cs) = none := by
  rw [scanLiteral?, scanString?_word hc h, scanChar?_word hc h, scanNumber?_word hc]

/-- What starts with a raw word is no literal. -/
theorem scanLiteral?_raw {c : Char} {cs : List Char} (hc : isIdentStart c = true) :
    scanLiteral? ('r' :: '#' :: c :: cs) = none := by
  have hhash : c ≠ '#' := by
    rintro rfl
    revert hc
    decide
  have hquote : c ≠ '"' := by
    rintro rfl
    revert hc
    decide
  have hstring : scanString? ('r' :: '#' :: c :: cs) = none := by
    show scanRawFrom? .plain 1 ('#' :: c :: cs) = none
    simp [scanRawFrom?, hhash, hquote]
  have hchar : scanChar? ('r' :: '#' :: c :: cs) = none := rfl
  rw [scanLiteral?, hstring, hchar, scanNumber?_word (by decide)]

theorem isQuotePrefix_word {c : Char} {cs : List Char} (h : Tail cs) :
    isQuotePrefix (c :: cs) = false := by
  cases cs with
  | nil => simp [isQuotePrefix, List.isPrefixOf]
  | cons d cs =>
    have hquote : d ≠ '"' := h.ne (.inl rfl)
    have hprime : d ≠ '\'' := h.ne (.inr (.inl rfl))
    have hhash : d ≠ '#' := h.ne (.inr (.inr rfl))
    cases cs with
    | nil => simp [isQuotePrefix, List.isPrefixOf, hquote.symm, hprime.symm]
    | cons e cs =>
      -- only after the letter `r` does the third character matter
      have hthird : d = 'r' → e ≠ '"' ∧ e ≠ '#' := by
        rintro rfl
        have htail := h.of_letter (by decide)
        exact ⟨htail.ne (.inl rfl), htail.ne (.inr (.inr rfl))⟩
      by_cases hr : d = 'r'
      · obtain ⟨hquote', hhash'⟩ := hthird hr
        simp [isQuotePrefix, List.isPrefixOf, hquote.symm, hprime.symm, hhash.symm, hquote'.symm,
          hhash'.symm]
      · simp [isQuotePrefix, List.isPrefixOf, hquote.symm, hprime.symm, hhash.symm, Ne.symm hr]

theorem isQuotePrefix_raw {c : Char} {cs : List Char} (hc : isIdentStart c = true) :
    isQuotePrefix ('r' :: '#' :: c :: cs) = false := by
  have hhash : '#' ≠ c := by
    rintro rfl
    revert hc
    decide
  have hquote : '"' ≠ c := by
    rintro rfl
    revert hc
    decide
  simp [isQuotePrefix, List.isPrefixOf, hhash, hquote]

/-- The shape of an identifier: a word, or a word after `r#` that is no path word. -/
theorem isIdentifier_cases {w : String} (h : isIdentifier w = true) :
    (∃ c cs, w.toList = c :: cs ∧ isIdentStart c = true ∧ cs.all isIdentContinue = true) ∨
    (∃ c cs, w.toList = 'r' :: '#' :: c :: cs ∧ isIdentStart c = true ∧
      cs.all isIdentContinue = true ∧
      ["_", "super", "self", "Self", "crate"].contains (String.ofList (c :: cs)) = false) := by
  have hword {cs : List Char} (hcs : isWordText cs = true) :
      ∃ c rest, cs = c :: rest ∧ isIdentStart c = true ∧ rest.all isIdentContinue = true := by
    cases cs with
    | nil => cases hcs
    | cons c rest =>
      rw [isWordText, Bool.and_eq_true] at hcs
      exact ⟨c, rest, rfl, hcs⟩
  unfold isIdentifier at h
  split at h
  · next rest hw =>
    rw [Bool.and_eq_true, Bool.not_eq_true'] at h
    obtain ⟨c, cs, rfl, hc, hcs⟩ := hword h.1
    exact .inr ⟨c, cs, hw, hc, hcs, h.2⟩
  · exact .inl (hword h)

theorem runOf_append {p : Char → Bool} {cs rest : List Char} (h : cs.all p = true)
    (hrest : ∀ c ∈ rest.head?, p c = false) (n : Nat) :
    runOf p n (cs ++ rest) = ⟨n + cs.length, rest⟩ := by
  induction cs generalizing n with
  | nil =>
    cases rest with
    | nil => rfl
    | cons c rest =>
      rw [List.nil_append, runOf, hrest c rfl]
      rfl
  | cons c cs ih =>
    rw [List.all_cons, Bool.and_eq_true] at h
    rw [List.cons_append, runOf, if_pos h.1, ih h.2, List.length_cons, Nat.add_assoc,
      Nat.add_comm 1]

theorem Stops.not_continue {rest : List Char} (h : Stops rest) :
    ∀ c ∈ rest.head?, isIdentContinue c = false := by
  have hnone : (stops.all fun c => !isIdentContinue c) = true := by decide
  exact fun c hc => Bool.not_eq_true' _ ▸ List.all_eq_true.1 hnone c (h c hc)

theorem scanIdent?_append {c : Char} {cs rest : List Char} (hc : isIdentStart c = true)
    (hcs : cs.all isIdentContinue = true) (hrest : Stops rest) :
    scanIdent? (c :: cs ++ rest) = some ⟨(c :: cs).length, rest⟩ := by
  rw [List.cons_append, scanIdent?, if_pos hc, runOf_append hcs hrest.not_continue,
    List.length_cons, Nat.add_comm]

/-! ## Tokens -/

/-- Characters that start neither a blank, a comment nor a bracket. -/
structure Plain (c : Char) : Prop where
  gap : isGap c = false
  slash : c ≠ '/'
  paren : c ≠ '('
  bracket : c ≠ '['
  brace : c.toNat ≠ 0x7B
  close : closeDelimiter? c = none

theorem plain_of_isIdentStart {c : Char} (h : isIdentStart c = true) (hgap : isGap c = false) :
    Plain c := by
  have hne (d : Char) (hd : isIdentStart d = false) : c ≠ d := by
    rintro rfl
    rw [h] at hd
    cases hd
  have hcode (n : Nat) (hn : isIdentStart (Char.ofNat n) = false) : c.toNat ≠ n := by
    rintro rfl
    rw [Char.ofNat_toNat, h] at hn
    cases hn
  constructor
  case gap => exact hgap
  case slash => exact hne _ (by decide)
  case paren => exact hne _ (by decide)
  case bracket => exact hne _ (by decide)
  case brace => exact hcode _ (by decide)
  case close =>
    rw [closeDelimiter?, if_neg (hne ')' (by decide)), if_neg (hne ']' (by decide)),
      if_neg (hcode 0x7D (by decide))]

namespace Plain

variable {c : Char} {cs : List Char}

theorem gapLength? (h : Plain c) : gapLength? (c :: cs) = none := by
  have hline : isLineComment (c :: cs) = false := by simp [isLineComment, h.slash]
  have hblock : isBlockComment (c :: cs) = false := by simp [isBlockComment, h.slash]
  unfold Lexer.gapLength?
  dsimp only
  rw [if_neg (by rw [h.gap]; nofun), if_neg (by rw [hline]; nofun)]
  split
  · next heq =>
    cases heq
    exact absurd rfl h.slash
  · rw [if_neg (by rw [hblock]; nofun)]

theorem doc? (h : Plain c) : doc? (c :: cs) = none := by
  simp [Lexer.doc?, docShape?, h.slash]

theorem openDelimiter? (h : Plain c) : openDelimiter? (c :: cs) = none := by
  unfold Lexer.openDelimiter?
  dsimp only
  rw [if_neg h.paren, if_neg h.bracket, if_neg h.brace]

/-- What the mark of a missing literal starts with is a bracket. -/
theorem errorMark (h : Plain c) : errorMark.isPrefixOf (c :: cs) = false := by
  have hmark : Lexer.errorMark = '(' :: "/*ERROR*/)".toList := by decide
  rw [hmark, List.isPrefixOf_cons_cons, Bool.and_eq_false_iff]
  exact .inl (beq_eq_false_iff_ne.2 h.paren.symm)

end Plain

/-- A round that reads a token which is no bracket. -/
theorem run_leaf {c : Char} {cs : List Char} {pos : Position} {t : Token} {n : Nat}
    (hc : Plain c) (hleaf : leaf? ⟨c :: cs, pos⟩ = some (t, n)) (fuel : Nat) (done : List Token)
    (stack : List Frame) :
    run (fuel + 1) ⟨c :: cs, pos⟩ done stack
      = run fuel (Input.drop ⟨c :: cs, pos⟩ n) (t :: done) stack := by
  rw [run.eq_def]
  simp only [hc.gapLength?, hc.doc?, hc.openDelimiter?, hc.close, hleaf]

theorem lexes_leaf {P : List Token → Prop} {c : Char} {cs rest : List Char} {n : Nat}
    (hc : Plain c) (hn : 0 < n) (hrest : (c :: cs).drop n = rest)
    (hleaf : ∀ pos, ∃ t, leaf? ⟨c :: cs, pos⟩ = some (t, n) ∧ P [t]) :
    Lexes P (c :: cs) rest := by
  intro fuel pos done stack hfuel
  obtain ⟨fuel, rfl⟩ : ∃ m, fuel = m + 1 := ⟨fuel - 1, by omega⟩
  obtain ⟨t, ht, hP⟩ := hleaf pos
  refine ⟨[t], fuel, pos.after ((c :: cs).take n), hP, ?_, ?_⟩
  · rw [← hrest, List.length_drop]
    rw [List.length_cons] at hfuel ⊢
    omega
  · rw [run_leaf hc ht, Input.drop, hrest]
    rfl

/-- A leaf that is no literal and starts with a letter is a word. -/
theorem leaf?_letter {c : Char} {cs : List Char} {pos : Position} {s : Scan}
    (hc : isIdentStart c = true) (hplain : Plain c) (hliteral : scanLiteral? (c :: cs) = none)
    (hquote : isQuotePrefix (c :: cs) = false) (hword : scanWord? (c :: cs) = some s) :
    leaf? ⟨c :: cs, pos⟩
      = some (.word (String.ofList ((c :: cs).take s.length)) pos, s.length) := by
  have hsign : sign? (c :: cs) = none := by
    simp [sign?, hplain.slash, isSignChar_of_isIdentStart hc]
  unfold leaf?
  simp only [hliteral, hsign, hplain.errorMark, hquote, hword]
  rfl

/-- An identifier that starts with no blank and no byte order mark. The table of letters holds
neither; it is not looked into here. -/
def IsWord (w : String) : Prop :=
  isIdentifier w = true ∧ ∀ c ∈ w.toList.head?, isGap c = false ∧ c.toNat ≠ 0xFEFF

theorem isWord_of_head {w : String} {c : Char} {cs : List Char} (hw : w.toList = c :: cs)
    (h : isIdentifier w = true) (hc : isGap c = false ∧ c.toNat ≠ 0xFEFF) : IsWord w := by
  refine ⟨h, ?_⟩
  rw [hw]
  rintro d ⟨⟩
  exact hc

/-- A word, where nothing goes on with it. -/
theorem lexes_word {w : String} (hw : IsWord w) {rest : List Char} (hrest : Stops rest) :
    Lexes (fun ts => ∃ pos, ts = [.word w pos]) (w.toList ++ rest) rest := by
  have hleaf (n : Nat) (hn : n = w.toList.length) (pos : Position) :
      Token.word (String.ofList ((w.toList ++ rest).take n)) pos = .word w pos := by
    rw [hn, List.take_left, String.ofList_toList]
  obtain ⟨hident, hgap⟩ := hw
  rcases isIdentifier_cases hident with ⟨c, cs, hlist, hc, hcs⟩ | ⟨c, cs, hlist, hc, hcs, hpath⟩
  · rw [hlist] at hgap
    have hplain := plain_of_isIdentStart hc (hgap c rfl).1
    have htail : Tail (cs ++ rest) := ⟨cs, rest, rfl, hcs, hrest⟩
    have hscan : scanWord? (c :: (cs ++ rest)) = some ⟨(c :: cs).length, rest⟩ := by
      rw [← List.cons_append, ← scanIdent?_append hc hcs hrest, List.cons_append]
      unfold scanWord?
      split
      · next after heq =>
        rw [List.cons.injEq] at heq
        rw [heq.2] at htail
        exact absurd rfl (htail.ne (.inr (.inr rfl)))
      · rfl
    rw [hlist, List.cons_append] at hleaf ⊢
    refine lexes_leaf hplain (Nat.succ_pos cs.length) ?_ fun pos => ⟨.word w pos, ?_, pos, rfl⟩
    · rw [List.drop_succ_cons, List.drop_left]
    · rw [leaf?_letter hc hplain (scanLiteral?_word hc htail) (isQuotePrefix_word htail) hscan,
        hleaf _ rfl]
      rfl
  · have hr : isIdentStart 'r' = true := by decide
    have hplain : Plain 'r' := plain_of_isIdentStart hr (by decide)
    have hscan : scanWord? ('r' :: '#' :: c :: (cs ++ rest))
        = some ⟨(c :: cs).length + 2, rest⟩ := by
      rw [scanWord?, ← List.cons_append, scanIdent?_append hc hcs hrest]
      dsimp only
      rw [List.take_left, if_neg (by rw [hpath]; nofun)]
    rw [hlist] at hleaf ⊢
    refine lexes_leaf hplain (Nat.succ_pos (cs.length + 2)) ?_ fun pos =>
      ⟨.word w pos, ?_, pos, rfl⟩
    · rw [List.drop_succ_cons]
      exact List.drop_left
    · refine (leaf?_letter hr hplain (scanLiteral?_raw hc) (isQuotePrefix_raw hc) hscan).trans ?_
      exact congrArg (fun t => some (t, cs.length + 3)) (hleaf (cs.length + 3) rfl pos)

/-! ## Signs and parentheses -/

/-- The signs of types that are made of names. -/
def typeSigns : List Char := [':', '<', '>', ',', '&', '+']

/-- Such a sign is in no class of characters that could start something else. -/
theorem typeSigns_spec : ∀ c ∈ typeSigns, isGap c = false ∧ closeDelimiter? c = none ∧
    isAsciiDigit c = false ∧ hexDigit? c = none ∧ isSignChar c = true ∧ c.toNat ≠ 0x7B ∧
    c ∉ ['/', '(', '[', '\'', '"', 'r', 'b', 'c', '0', '_'] := by
  intro c hc
  simp only [typeSigns, List.mem_cons, List.not_mem_nil, or_false] at hc
  rcases hc with rfl | rfl | rfl | rfl | rfl | rfl <;> decide

theorem plain_of_typeSign {c : Char} (h : c ∈ typeSigns) : Plain c := by
  obtain ⟨hgap, hclose, -, -, -, hbrace, hne⟩ := typeSigns_spec c h
  simp only [List.mem_cons, not_or] at hne
  exact ⟨hgap, hne.1, hne.2.1, hne.2.2.1, hbrace, hclose⟩

theorem scanLiteral?_typeSign {c : Char} (h : c ∈ typeSigns) (cs : List Char) :
    scanLiteral? (c :: cs) = none := by
  obtain ⟨-, -, hdigit, hhex, -, -, hne⟩ := typeSigns_spec c h
  simp only [List.mem_cons, not_or, List.not_mem_nil, not_false_eq_true, and_true] at hne
  obtain ⟨-, -, -, hprime, hquote, hr, hb, hc, hzero, hline⟩ := hne
  have hstring : scanString? (c :: cs) = none := by simp [scanString?, hquote, hr, hb, hc]
  have hchar : scanChar? (c :: cs) = none := by simp [scanChar?, hprime, hb]
  have hfloat : scanFloatDigits? (c :: cs) = none := by simp [scanFloatDigits?, hdigit]
  have hint : scanIntDigits? (c :: cs) = none := by
    simp [scanIntDigits?, hzero, scanDigits?, hline, hhex]
  rw [scanLiteral?, hstring, hchar, scanNumber?, hfloat, hint]
  rfl

theorem sign?_typeSign {c : Char} (h : c ∈ typeSigns) (cs : List Char) :
    sign? (c :: cs) = some c := by
  obtain ⟨-, -, -, -, hsign, -, hne⟩ := typeSigns_spec c h
  rw [List.mem_cons, not_or] at hne
  simp [sign?, hne.1, hsign]

theorem lexes_typeSign {c : Char} (h : c ∈ typeSigns) (cs : List Char) :
    Lexes (fun ts => ∃ pos, ts = [.sign c (sign? cs).isSome pos]) (c :: cs) cs := by
  have hprime : c ≠ '\'' := by
    rintro rfl
    revert h
    decide
  refine lexes_leaf (plain_of_typeSign h) Nat.one_pos rfl fun pos => ⟨_, ?_, pos, rfl⟩
  unfold leaf?
  simp only [scanLiteral?_typeSign h, sign?_typeSign h]
  rfl

/-- A sign. -/
theorem lexes_sign {c : Char} (h : c ∈ typeSigns) (cs : List Char) :
    Lexes (fun ts => ∃ joint pos, ts = [.sign c joint pos]) (c :: cs) cs :=
  (lexes_typeSign h cs).imp fun _ ⟨pos, hts⟩ => ⟨_, pos, hts⟩

/-- Two colons are joined. -/
theorem lexes_colons (cs : List Char) :
    Lexes (fun ts => ∃ joint pos pos', ts = [.sign ':' true pos, .sign ':' joint pos'])
      (':' :: ':' :: cs) cs := by
  have hcolon : ':' ∈ typeSigns := by decide
  refine ((lexes_typeSign hcolon _).append (lexes_sign hcolon cs)).imp ?_
  rintro ts ⟨us, vs, rfl, ⟨pos, rfl⟩, joint, pos', rfl⟩
  rw [sign?_typeSign hcolon]
  exact ⟨joint, pos, pos', rfl⟩

/-- A space gives no token. -/
theorem lexes_space (cs : List Char) : Lexes (· = []) (' ' :: cs) cs := by
  intro fuel pos done stack hfuel
  obtain ⟨fuel, rfl⟩ : ∃ m, fuel = m + 1 := ⟨fuel - 1, by omega⟩
  have hgap : gapLength? (' ' :: cs) = some 1 := rfl
  refine ⟨[], fuel, pos.after [' '], rfl, Nat.lt_of_succ_lt_succ hfuel, ?_⟩
  rw [run.eq_def]
  simp only [hgap]
  rfl

/-- Parentheses with what is between them. A comment could be the mark of a missing literal. -/
theorem lexes_parens {P : List Token → Prop} {cs rest : List Char} (h : Lexes P cs (')' :: rest))
    (hcs : ∀ c ∈ cs.head?, c ≠ '/') :
    Lexes (fun ts => ∃ us pos close, ts = [.group .paren us pos close] ∧ P us)
      ('(' :: cs) rest := by
  intro fuel pos done stack hfuel
  obtain ⟨fuel, rfl⟩ : ∃ m, fuel = m + 1 := ⟨fuel - 1, by omega⟩
  have hmark : errorMark.isPrefixOf ('(' :: cs) = false := by
    have hmark : errorMark = '(' :: '/' :: "*ERROR*/)".toList := by decide
    rw [hmark, List.isPrefixOf_cons_cons]
    cases cs with
    | nil => rfl
    | cons c cs => simp [List.isPrefixOf, (hcs c rfl).symm]
  have hopen : openDelimiter? ('(' :: cs) = some .paren := by
    unfold openDelimiter?
    dsimp only
    rw [if_pos rfl, hmark]
    rfl
  have hclose : openDelimiter? (')' :: rest) = none := rfl
  have hgap : gapLength? ('(' :: cs) = none := rfl
  have hgap' : gapLength? (')' :: rest) = none := rfl
  have hdoc : doc? ('(' :: cs) = none := rfl
  have hdoc' : doc? (')' :: rest) = none := rfl
  have hdelim : closeDelimiter? ')' = some .paren := rfl
  obtain ⟨us, fuel', pos', hus, hfuel', hrun⟩ :=
    h fuel (pos.after ['(']) [] (⟨.paren, pos, done⟩ :: stack) (Nat.lt_of_succ_lt_succ hfuel)
  obtain ⟨fuel', rfl⟩ : ∃ m, fuel' = m + 1 := ⟨fuel' - 1, by omega⟩
  refine ⟨[.group .paren us pos pos'], fuel', pos'.after [')'], ⟨us, pos, pos', rfl, hus⟩,
    Nat.lt_of_succ_lt_succ hfuel', ?_⟩
  rw [run.eq_def]
  simp only [hgap, hdoc, hopen]
  rw [show Input.drop ⟨'(' :: cs, pos⟩ 1 = ⟨cs, pos.after ['(']⟩ from rfl, hrun, run.eq_def]
  simp only [hgap', hdoc', hclose, hdelim, List.append_nil, List.reverse_reverse]
  rfl

end Source.Lexer

end TypedSettings
