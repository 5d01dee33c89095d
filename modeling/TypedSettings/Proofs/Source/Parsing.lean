import TypedSettings.Proofs.Lists
import TypedSettings.Source.Grammar

/-!
Runs of parsers. A parser is followed step by step: what a sequence gives, its parts give one
after the other, and a parser that looks ahead takes nothing.

* `run_bind_eq_ok`: a sequence succeeds where its parts do.
* `op_eq_ok`, `anyWord_eq_ok`, `literal_eq_ok`: what the smallest parsers take.
* `Gives`: what holds of everything that a parser gives.
-/

namespace TypedSettings

/-! ## Tokens ahead -/

namespace Source.Token

theorem isOp_word (op w : String) (pos : Position) (rest : List Token) (h : op ≠ "") :
    isOp op (.word w pos :: rest) = false := by
  unfold isOp
  cases hop : op.toList with
  | nil => exact absurd (String.toList_eq_nil_iff.1 hop) h
  | cons c cs => cases cs <;> rfl

theorem isOp_group (op : String) (d : Delimiter) (body : List Token) (pos close : Position)
    (rest : List Token) (h : op ≠ "") : isOp op (.group d body pos close :: rest) = false := by
  unfold isOp
  cases hop : op.toList with
  | nil => exact absurd (String.toList_eq_nil_iff.1 hop) h
  | cons c cs => cases cs <;> rfl

theorem isOp_sign {op : String} {c d : Char} (hop : op.toList.head? = some c) (h : c ≠ d)
    (joint : Bool) (pos : Position) (rest : List Token) :
    isOp op (.sign d joint pos :: rest) = false := by
  have hne : (c == d) = false := beq_eq_false_iff_ne.2 h
  obtain ⟨cs, hcs⟩ := List.head?_eq_some_iff.1 hop
  unfold isOp
  rw [hcs]
  cases cs with
  | nil => rw [startsWithOp, hne, Bool.false_and]
  | cons e cs => simp [startsWithOp, hne]

theorem count_append (ts us : List Token) : count (ts ++ us) = count ts + count us := by
  induction ts with
  | nil => rw [List.nil_append, count, Nat.zero_add]
  | cons t ts ih => rw [List.cons_append, count, count, ih, Nat.add_assoc]

theorem length_le_count : ∀ ts : List Token, ts.length ≤ count ts
  | [] => Nat.le_refl 0
  | t :: ts => by
    have hsize : 1 ≤ size t := by
      cases t with
      | group d body pos close => exact Nat.le_add_left 1 _
      | _ => exact Nat.le_refl 1
    have := length_le_count ts
    rw [List.length_cons, count]
    omega

end Source.Token

theorem Source.Tree.tokensAll_append (ts us : List Tree) :
    tokensAll (ts ++ us) = tokensAll ts ++ tokensAll us := by
  induction ts with
  | nil => rfl
  | cons t ts ih => rw [List.cons_append, tokensAll, tokensAll, ih, List.append_assoc]

namespace Source.Parser

variable {α β ε : Type} {c c' : Cursor}

/-! ## Steps -/

/-- Two parsers in sequence give what the second gives on the result of the first. -/
theorem run_bind_eq_ok {p : StateT Cursor (Except ε) α} {f : α → StateT Cursor (Except ε) β}
    {b : β} : (p >>= f) c = .ok (b, c') ↔ ∃ a c₁, p c = .ok (a, c₁) ∧ f a c₁ = .ok (b, c') := by
  have hrun : (p >>= f) c = p c >>= fun r => f r.1 r.2 := rfl
  rw [hrun, bind_eq_ok]
  exact Prod.exists

/-- After a parser that succeeds the next one goes on where it stopped. -/
theorem run_bind_of_ok {p : StateT Cursor (Except ε) α} {f : α → StateT Cursor (Except ε) β}
    {a : α} (h : p c = .ok (a, c')) : (p >>= f) c = f a c' := by
  have hrun : (p >>= f) c = p c >>= fun r => f r.1 r.2 := rfl
  rw [hrun, h]
  rfl

theorem run_pure_eq_ok {a b : α} :
    (pure a : StateT Cursor (Except ε) α) c = .ok (b, c') ↔ a = b ∧ c = c' := by
  constructor
  · intro h
    cases h
    exact ⟨rfl, rfl⟩
  · rintro ⟨rfl, rfl⟩
    rfl

theorem run_map_of_ok {p : Parser α} {f : α → β} {a : α}
    (h : p c = .ok (a, c')) : (f <$> p) c = .ok (f a, c') := by
  show (p c >>= fun r => pure (f r.1, r.2)) = _
  rw [h]
  rfl

theorem peek_bind (p : List Token → Bool) (f : Bool → Parser α) (c : Cursor) :
    (peek p >>= f) c = f (p c.rest) c := rfl

theorem get_bind (f : Cursor → StateT Cursor (Except ε) α) (c : Cursor) :
    (get >>= f) c = f c c := rfl

/-- An operator takes its signs. -/
theorem op_eq_ok {s : String} {t : Tree} : op s c = .ok (t, c') ↔
    Token.isOp s c.rest = true ∧ t = .run (Token.operatorAt c.here s.toList) ∧
      c' = { c with rest := c.rest.drop s.length } := by
  rw [op, get_bind]
  by_cases h : Token.isOp s c.rest = true
  · rw [if_pos h]
    constructor
    · intro hok
      cases hok
      exact ⟨h, rfl, rfl⟩
    · rintro ⟨-, rfl, rfl⟩
      rfl
  · rw [if_neg h]
    constructor
    · intro hok
      cases hok
    · exact fun hop => absurd hop.1 h

theorem op_of_isOp {s : String} (h : Token.isOp s c.rest = true) :
    op s c = .ok (.run (Token.operatorAt c.here s.toList),
      { c with rest := c.rest.drop s.length }) :=
  op_eq_ok.2 ⟨h, rfl, rfl⟩

theorem anyWord_eq_ok {t : Tree} : anyWord c = .ok (t, c') ↔
    ∃ w pos rest, c.rest = .word w pos :: rest ∧ t = .run [.word w pos] ∧
      c' = { c with rest } := by
  obtain ⟨ts, close⟩ := c
  rw [anyWord, peek_bind]
  constructor
  · intro h
    cases ts with
    | nil => cases h
    | cons token rest =>
      cases token with
      | word w pos =>
        cases h
        exact ⟨w, pos, rest, rfl, rfl, rfl⟩
      | _ => cases h
  · rintro ⟨w, pos, rest, hrest, rfl, rfl⟩
    cases hrest
    rfl

/-- A name is a word. -/
theorem ident_eq_ok {t : Tree} (h : ident c = .ok (t, c')) :
    ∃ w pos rest, c.rest = .word w pos :: rest ∧ t = .run [.word w pos] ∧ c' = { c with rest } := by
  obtain ⟨ts, close⟩ := c
  unfold ident at h
  rw [peek_bind] at h
  split at h
  · next hident =>
    cases ts with
    | nil => cases hident
    | cons token rest =>
      cases token with
      | word w pos =>
        cases h
        exact ⟨w, pos, rest, rfl, rfl, rfl⟩
      | _ => cases hident
  · cases h

theorem anyWord_word (w : String) (pos close : Position) (next : List Token) :
    anyWord ⟨.word w pos :: next, close⟩ = .ok (.run [.word w pos], ⟨next, close⟩) := rfl

theorem literal_eq_ok {t : Tree} : literal c = .ok (t, c') ↔
    ∃ l rest, Literal.read? c.rest = some (l, rest) ∧ t = .node .literal [.run l.tokens] ∧
      c' = { c with rest } := by
  unfold literal
  cases Literal.read? c.rest with
  | none => exact ⟨nofun, nofun⟩
  | some r =>
    constructor
    · intro h
      cases h
      exact ⟨r.1, r.2, rfl, rfl, rfl⟩
    · rintro ⟨l, rest, hr, rfl, rfl⟩
      cases hr
      rfl

/-- What a group gives was read between its brackets. -/
theorem group_eq_ok {d : Delimiter} {inner : Parser (List Tree)} {t : Tree}
    (h : group d inner c = .ok (t, c')) :
    ∃ ts pos close, t = .group d ts pos close ∧
      ∃ c₁ close', inner c₁ = .ok (ts, ⟨[], close'⟩) := by
  unfold group at h
  split at h
  · split at h
    · split at h
      · next hrun =>
        cases h
        exact ⟨_, _, _, rfl, _, _, hrun⟩
      · cases h
      · cases h
    · cases h
  · cases h

/-- All tokens are read. -/
theorem runAll_eq_ok {p : Parser α} {ts : List Token} {close : Position} {a : α} :
    runAll p ts close = .ok a ↔ ∃ close', p ⟨ts, close⟩ = .ok (a, ⟨[], close'⟩) := by
  unfold runAll
  split
  · next h => simp_all
  · next left hleft h =>
    constructor
    · intro hok
      cases hok
    · rintro ⟨close', hp⟩
      rw [h] at hp
      cases hp
      exact absurd rfl (hleft close' )
  · next h =>
    constructor
    · intro hok
      cases hok
    · rintro ⟨close', hp⟩
      rw [h] at hp
      cases hp

/-- An operator that may be missing is taken or is not ahead. -/
theorem op?_eq_ok {s : String} {t : Tree} : op? s c = .ok (t, c') ↔
    op s c = .ok (t, c') ∨ Token.isOp s c.rest = false ∧ t = .absent ∧ c' = c := by
  have hop (h : op s c = .ok (t, c')) : Token.isOp s c.rest = true := (op_eq_ok.1 h).1
  rw [op?, peekOp, peek_bind]
  split
  · next hahead => simp [hahead]
  · next hahead =>
    rw [run_pure_eq_ok]
    constructor
    · rintro ⟨rfl, rfl⟩
      exact .inr ⟨Bool.eq_false_iff.2 hahead, rfl, rfl⟩
    · rintro (h | ⟨-, rfl, rfl⟩)
      · exact absurd (hop h) hahead
      · exact ⟨rfl, rfl⟩

theorem op?_of_not_isOp {s : String} (h : Token.isOp s c.rest = false) :
    op? s c = .ok (.absent, c) := op?_eq_ok.2 (.inr ⟨h, rfl, rfl⟩)

theorem keyword?_of_not_isWord {w : String} (h : Token.isWord w c.rest = false) :
    keyword? w c = .ok (.absent, c) := by
  rw [keyword?, peekWord, peek_bind]
  exact congrFun (if_neg (by rw [h]; nofun)) c

theorem lifetime?_of_not_isLifetime (h : Token.isLifetime c.rest = false) :
    lifetime? c = .ok (.absent, c) := by
  rw [lifetime?, peek_bind]
  exact congrFun (if_neg (by rw [h]; nofun)) c

theorem repeatFuel_none {step : Parser (Option (List Tree))} (fuel : Nat)
    (h : step c = .ok (none, c')) : repeatFuel step (fuel + 1) c = .ok ([], c') := by
  rw [repeatFuel, run_bind_of_ok h]
  rfl

theorem repeatFuel_some {step : Parser (Option (List Tree))} {c'' : Cursor} {fuel : Nat}
    {round more : List Tree} (h : step c = .ok (some round, c'))
    (hmore : repeatFuel step fuel c' = .ok (more, c'')) :
    repeatFuel step (fuel + 1) c = .ok (round ++ more, c'') := by
  rw [repeatFuel, run_bind_of_ok h]
  exact (run_bind_of_ok hmore).trans rfl

/-- A repetition stops at once, or its first round adds to it. -/
theorem repeating_cases {step : Parser (Option (List Tree))} {ts : List Tree}
    (h : repeating step c = .ok (ts, c')) :
    (step c = .ok (none, c') ∧ ts = []) ∨
      ∃ round c₁ more, step c = .ok (some round, c₁) ∧ ts = round ++ more := by
  unfold repeating at h
  rw [repeatFuel] at h
  obtain ⟨round, c₁, hround, h⟩ := run_bind_eq_ok.1 h
  cases round with
  | none =>
    obtain ⟨rfl, rfl⟩ := run_pure_eq_ok.1 h
    exact .inl ⟨hround, rfl⟩
  | some added =>
    obtain ⟨more, c₂, -, h⟩ := run_bind_eq_ok.1 h
    exact .inr ⟨added, c₁, more, hround, (run_pure_eq_ok.1 h).1.symm⟩

/-! ## Lists -/

/-- The members that fill a bracket level, with the commas between them. -/
inductive Listed (member : Parser Tree) : Cursor → List Tree → Prop
  | none {close : Position} : Listed member ⟨[], close⟩ []
  | last {c c₁ : Cursor} {t : Tree} : c.rest ≠ [] → member c = .ok (t, c₁) → c₁.rest = [] →
      Listed member c [t]
  | more {c c₁ c₂ : Cursor} {t sep : Tree} {ts : List Tree} : c.rest ≠ [] →
      member c = .ok (t, c₁) → c₁.rest ≠ [] → op "," c₁ = .ok (sep, c₂) → Listed member c₂ ts →
      Listed member c (t :: sep :: ts)

theorem listed_of_commaList {member : Parser Tree} {ts : List Tree}
    (h : commaList member c = .ok (ts, c')) (hend : c'.rest = []) : Listed member c ts := by
  unfold commaList separated repeating at h
  generalize c.rest.length + 1 = fuel at h
  induction fuel generalizing c ts with
  | zero =>
    obtain ⟨rfl, rfl⟩ := run_pure_eq_ok.1 h
    obtain ⟨rest, close⟩ := c
    cases hend
    exact .none
  | succ fuel ih =>
    rw [repeatFuel] at h
    obtain ⟨round, c₁, hround, h⟩ := run_bind_eq_ok.1 h
    rw [peek_bind] at hround
    by_cases hempty : c.rest.isEmpty = true
    · rw [if_pos hempty] at hround
      obtain ⟨rfl, rfl⟩ := run_pure_eq_ok.1 hround
      obtain ⟨rfl, rfl⟩ := run_pure_eq_ok.1 h
      obtain ⟨rest, close⟩ := c
      cases hend
      exact .none
    · have hne : c.rest ≠ [] := fun hnil => hempty (hnil ▸ rfl)
      rw [if_neg hempty] at hround
      obtain ⟨t, c₂, ht, hround⟩ := run_bind_eq_ok.1 hround
      rw [peek_bind] at hround
      by_cases hlast : c₂.rest.isEmpty = true
      · rw [if_pos hlast] at hround
        obtain ⟨rfl, rfl⟩ := run_pure_eq_ok.1 hround
        obtain ⟨more, c₃, hmore, h⟩ := run_bind_eq_ok.1 h
        obtain ⟨rfl, rfl⟩ := run_pure_eq_ok.1 h
        have hnil : c₂.rest = [] := List.isEmpty_iff.1 hlast
        -- the round after the last member finds nothing
        cases ih hmore with
        | none => exact .last hne ht hnil
        | last hrest => exact absurd hnil hrest
        | more hrest => exact absurd hnil hrest
      · rw [if_neg hlast] at hround
        obtain ⟨sep, c₃, hsep, hround⟩ := run_bind_eq_ok.1 hround
        obtain ⟨rfl, rfl⟩ := run_pure_eq_ok.1 hround
        obtain ⟨more, c₄, hmore, h⟩ := run_bind_eq_ok.1 h
        obtain ⟨rfl, rfl⟩ := run_pure_eq_ok.1 h
        exact .more hne ht (fun hnil => hlast (hnil ▸ rfl)) hsep (ih hmore)

/-! ## What a parser may give -/

/-- All that a parser gives is as `P` says. -/
def Gives (P : α → Prop) (p : StateT Cursor (Except ε) α) : Prop :=
  ∀ ⦃c a c'⦄, p c = .ok (a, c') → P a

section

variable {P : α → Prop}

theorem gives_pure {a : α} (h : P a) : Gives P (pure a : StateT Cursor (Except ε) α) := by
  intro c b c' hb
  obtain ⟨rfl, -⟩ := run_pure_eq_ok.1 hb
  exact h

theorem gives_fail : Gives P fail := by
  intro c a c' h
  cases h

/-- A sequence gives what its last step gives. -/
theorem gives_bind {p : StateT Cursor (Except ε) β} {f : β → StateT Cursor (Except ε) α}
    (h : ∀ b, Gives P (f b)) : Gives P (p >>= f) := by
  intro c a c' ha
  obtain ⟨b, c₁, -, hb⟩ := run_bind_eq_ok.1 ha
  exact h b hb

/-- A sequence gives what its last step gives on what the first step gives. -/
theorem gives_seq {p : StateT Cursor (Except ε) β} {f : β → StateT Cursor (Except ε) α}
    {Q : β → Prop} (hp : Gives Q p) (hf : ∀ b, Q b → Gives P (f b)) : Gives P (p >>= f) := by
  intro c a c' h
  obtain ⟨b, c₁, hb, ha⟩ := run_bind_eq_ok.1 h
  exact hf b (hp hb) ha

theorem gives_ite {b : Prop} [Decidable b] {p q : StateT Cursor (Except ε) α} (hp : Gives P p)
    (hq : Gives P q) : Gives P (if b then p else q) := by
  split
  · exact hp
  · exact hq

end

/-- A keyword gives a token. -/
theorem gives_keyword (w : String) : Gives (fun t => t.tokens ≠ []) (keyword w) := by
  intro c t c' h
  rw [keyword, peekWord, peek_bind] at h
  split at h
  · next hahead =>
    cases h
    obtain ⟨token, rest, hrest⟩ : ∃ token rest, c.rest = token :: rest := by
      refine List.exists_cons_of_ne_nil fun hnil => ?_
      rw [hnil] at hahead
      cases hahead
    rw [Tree.tokens, hrest]
    exact List.cons_ne_nil _ _
  · cases h

theorem gives_orVerbatim {P : Tree → Prop} {p : Parser (Option Tree)}
    (hp : Gives (fun o => ∀ t, o = some t → P t) p) (hv : ∀ ts, P (.node .verbatim [.run ts])) :
    Gives P (orVerbatim p) := by
  intro c t c' ht
  unfold orVerbatim at ht
  split at ht
  · next u c₁ hu =>
    cases ht
    exact hp hu _ rfl
  · cases ht
    exact hv _
  · cases ht

end Source.Parser

end TypedSettings
