import TypedSettings.Source.Lexer
import TypedSettings.Unit.Target

/-!
The words of a text. Whatever text is split into tokens, each of its words is an identifier, at
every depth of brackets.

* `AllWords`: what holds of all words of a token list.
* `runOf_take`: a run of characters has only characters that pass.
* `tokenize_words`: the words of a text are identifiers.
-/

namespace TypedSettings

namespace Source

namespace Token

variable {P : String → Prop}

/-- Every word passes, also inside brackets. -/
def AllWords (P : String → Prop) : List Token → Prop
  | [] => True
  | word w _ :: rest => P w ∧ AllWords P rest
  | group _ body _ _ :: rest => AllWords P body ∧ AllWords P rest
  | sign _ _ _ :: rest => AllWords P rest
  | literal _ _ :: rest => AllWords P rest

/-- The words of one token pass. -/
def WordsOf (P : String → Prop) : Token → Prop
  | word w _ => P w
  | group _ body _ _ => AllWords P body
  | sign _ _ _ => True
  | literal _ _ => True

theorem wordsOf_group {d : Delimiter} {body : List Token} {pos close : Position} :
    WordsOf P (group d body pos close) ↔ AllWords P body :=
  Iff.rfl

@[simp] theorem allWords_nil : AllWords P [] := by
  rw [AllWords]
  trivial

@[simp] theorem allWords_cons {t : Token} {ts : List Token} :
    AllWords P (t :: ts) ↔ WordsOf P t ∧ AllWords P ts := by
  cases t <;> simp [WordsOf, AllWords]

theorem allWords_iff {ts : List Token} : AllWords P ts ↔ ∀ t ∈ ts, WordsOf P t := by
  induction ts with
  | nil => simp
  | cons t ts ih => rw [allWords_cons, ih, List.forall_mem_cons]

theorem AllWords.of_suffix {ts us : List Token} (h : AllWords P ts) (hs : us <:+ ts) :
    AllWords P us := by
  rw [allWords_iff] at h ⊢
  exact fun t ht => h t (hs.subset ht)

end Token

namespace Lexer

open TypedSettings.Text Emit Token

/-! ## Single words -/

/-- A run of characters is what passes. -/
theorem runOf_take (p : Char → Bool) (n : Nat) (cs : List Char) :
    ∃ k, (runOf p n cs).length = n + k ∧ (cs.take k).all p = true := by
  induction cs generalizing n with
  | nil => exact ⟨0, rfl, rfl⟩
  | cons c cs ih =>
    rw [runOf]
    split
    · next hc =>
      obtain ⟨k, hlength, htake⟩ := ih (n + 1)
      refine ⟨k + 1, by omega, ?_⟩
      rw [List.take_succ_cons, List.all_cons, hc, htake]
      rfl
    · exact ⟨0, rfl, rfl⟩

theorem scanIdent?_word {cs : List Char} {s : Scan} (h : scanIdent? cs = some s) :
    isWordText (cs.take s.length) = true := by
  cases cs with
  | nil => cases h
  | cons c cs =>
    rw [scanIdent?] at h
    split at h
    · next hc =>
      cases h
      obtain ⟨k, hlength, htake⟩ := runOf_take isIdentContinue 1 cs
      rw [hlength, Nat.add_comm, List.take_succ_cons, isWordText, hc, htake]
      rfl
    · cases h

/-- A word does not start like a raw one. -/
theorem isIdentifier_of_isWordText {cs : List Char} (h : isWordText cs = true) :
    isIdentifier (String.ofList cs) = true := by
  unfold isIdentifier
  rw [String.toList_ofList]
  split
  · next rest =>
    have hsign : isIdentContinue '#' = false := by decide
    rw [isWordText, List.all_cons, hsign] at h
    simp at h
  · exact h

theorem scanWord?_identifier {cs : List Char} {s : Scan} (h : scanWord? cs = some s) :
    isIdentifier (String.ofList (cs.take s.length)) = true := by
  unfold scanWord? at h
  split at h
  · next rest =>
    cases hs : scanIdent? rest with
    | none => simp [hs] at h
    | some inner =>
      simp only [hs] at h
      split at h
      · cases h
      · next hpath =>
        cases h
        have hword := scanIdent?_word hs
        show isIdentifier (String.ofList ('r' :: '#' :: rest.take inner.length)) = true
        unfold isIdentifier
        rw [String.toList_ofList]
        show (isWordText _ && !_) = true
        rw [hword, Bool.eq_false_iff.2 hpath]
        rfl
  · exact isIdentifier_of_isWordText (scanIdent?_word h)

/-! ## Tokens -/

theorem leaf?_words {i : Input} {t : Token} {n : Nat} (h : leaf? i = some (t, n)) :
    WordsOf (fun w => isIdentifier w = true) t := by
  unfold leaf? at h
  split at h
  · cases h
    trivial
  · split at h
    · split at h
      · cases h
        trivial
      · cases h
    · cases h
      trivial
    · split at h
      · cases h
        trivial
      · split at h
        · cases h
        · obtain ⟨s, hs, heq⟩ := Option.map_eq_some_iff.1 h
          cases heq
          exact scanWord?_identifier hs

theorem doc_words (d : Doc) (pos : Position) :
    AllWords (fun w => isIdentifier w = true) (d.tokens pos) := by
  have hdoc : isIdentifier "doc" = true := by decide
  unfold Doc.tokens
  split <;> simp [WordsOf, hdoc]

variable {P : String → Prop}

/-- The words that are read, those inside open brackets and those before them pass. -/
def Reads (P : String → Prop) (done : List Token) (stack : List Frame) : Prop :=
  AllWords P done ∧ ∀ f ∈ stack, AllWords P f.before

theorem allWords_reverse {ts : List Token} : AllWords P ts.reverse ↔ AllWords P ts := by
  simp only [allWords_iff, List.mem_reverse]

theorem allWords_append {ts us : List Token} :
    AllWords P (ts ++ us) ↔ AllWords P ts ∧ AllWords P us := by
  simp only [allWords_iff, List.forall_mem_append]

/-- Every round keeps what is read: the tokens since the last open bracket and those before it. -/
theorem run_words {fuel : Nat} {i : Input} {done ts : List Token} {stack : List Frame}
    (hreads : Reads (fun w => isIdentifier w = true) done stack)
    (h : run fuel i done stack = .ok ts) : AllWords (fun w => isIdentifier w = true) ts := by
  induction fuel generalizing i done stack with
  | zero => cases h
  | succ fuel ih =>
    obtain ⟨hdone, hstack⟩ := hreads
    unfold run at h
    split at h
    · exact ih ⟨hdone, hstack⟩ h
    · split at h
      · refine ih ⟨?_, hstack⟩ h
        exact allWords_append.2 ⟨allWords_reverse.2 (doc_words _ _), hdone⟩
      · split at h
        · split at h
          · cases h
            exact allWords_reverse.2 hdone
          · cases h
        · split at h
          · -- a bracket opens
            refine ih ⟨allWords_nil, ?_⟩ h
            intro f hf
            rcases List.mem_cons.1 hf with rfl | hf
            · exact hdone
            · exact hstack f hf
          · split at h
            · split at h
              · cases h
              · next frame frames =>
                split at h
                · -- the last one closes
                  refine ih ⟨allWords_cons.2 ⟨wordsOf_group.2 (allWords_reverse.2 hdone), ?_⟩, ?_⟩ h
                  · exact hstack frame List.mem_cons_self
                  · exact fun f hf => hstack f (List.mem_cons_of_mem _ hf)
                · cases h
            · split at h
              · next t n hleaf =>
                exact ih ⟨allWords_cons.2 ⟨leaf?_words hleaf, hdone⟩, hstack⟩ h
              · cases h

end Lexer

/-- The words of a text are identifiers. -/
theorem tokenize_words {text : String} {ts : List Token} (h : tokenize text = .ok ts) :
    Token.AllWords (fun w => Emit.isIdentifier w = true) ts :=
  Lexer.run_words ⟨Token.allWords_nil, by simp⟩ h

end Source

end TypedSettings
