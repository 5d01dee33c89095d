import TypedSettings.Proofs.Source.Names

/-!
Tokens that declare nothing. The words that start the declaration of a trait or of a module are
keywords. A parser that takes no such keyword outside of brackets, except as the name of a lifetime,
and gives none, is hushed; that it is so follows from its parts.

* `Token.Quiet`, `Tree.Quiet`: tokens at which no trait and no module starts.
* `Hushed`: a parser that takes such tokens alone, and what it gives.
* `hushed_keyword`, `hushed_op`, `hushed_group`: the smallest parsers.
* `hushed_repeating`, `hushed_orVerbatim`: repetitions and choices.
-/

namespace TypedSettings.Source

namespace Token

/-- Whether a token is a word that starts a trait or a module. -/
def declares : Token → Bool
  | word w _ => w == "trait" || w == "mod"
  | _ => false

/-- No word starts a trait or a module: a quote makes it the name of a lifetime. -/
def Quiet (ts : List Token) : Prop :=
  ∀ before t after, ts = before ++ t :: after → declares t = true →
    ∃ q, before.getLast? = some q ∧ isQuote q = true

theorem quiet_of_forall {ts : List Token} (h : ∀ t ∈ ts, declares t = false) : Quiet ts := by
  rintro before t after rfl ht
  rw [h t (by simp)] at ht
  cases ht

theorem quiet_nil : Quiet [] := quiet_of_forall nofun

theorem Quiet.append {ts us : List Token} (hts : Quiet ts) (hus : Quiet us) : Quiet (ts ++ us) := by
  intro before t after heq ht
  rcases List.append_eq_append_iff.1 heq with ⟨more, rfl, hmore⟩ | ⟨more, hmore, hrest⟩
  · obtain ⟨q, hq, hquote⟩ := hus more t after hmore ht
    exact ⟨q, by rw [List.getLast?_append, hq]; rfl, hquote⟩
  · cases more with
    | nil =>
      rw [List.append_nil] at hmore
      obtain ⟨q, hq, -⟩ := hus [] t after hrest.symm ht
      cases hq
    | cons u more =>
      cases hrest
      exact hts before t more hmore ht

/-- The name of a lifetime may be any word. -/
theorem quiet_lifetime (joint : Bool) (w : String) (p q : Position) :
    Quiet [.sign '\'' joint p, .word w q] := by
  intro before t after heq ht
  rcases before with _ | ⟨quote, _ | ⟨name, before⟩⟩
  · cases heq
    cases ht
  · cases heq
    exact ⟨_, rfl, rfl⟩
  · simp at heq

/-- What is left when a parser has taken tokens does not start inside a lifetime. -/
theorem Quiet.of_tail {rest ts : List Token} (htail : Tail rest ts) (h : Quiet ts) :
    Quiet rest := by
  obtain ⟨taken, rfl, hlast⟩ := htail
  rintro before t after rfl ht
  obtain ⟨q, hq, hquote⟩ := h (taken ++ before) t after (List.append_assoc ..).symm ht
  rcases eq_or_ne before [] with rfl | hne
  · rw [List.append_nil] at hq
    rw [hlast q hq] at hquote
    cases hquote
  · rw [List.getLast?_append_of_ne_nil _ hne] at hq
    exact ⟨q, hq, hquote⟩

instance : Parser.Lasts Quiet := ⟨.of_tail⟩

theorem Quiet.isWord_eq_false {ts : List Token} (h : Quiet ts) {w : String}
    (hw : w = "trait" ∨ w = "mod") : isWord w ts = false := by
  cases ts with
  | nil => rfl
  | cons t ts =>
    cases t with
    | word v pos =>
      refine Bool.eq_false_iff.2 fun hword => ?_
      rw [show v = w from beq_iff_eq.1 hword] at h
      obtain ⟨q, hq, -⟩ := h [] (.word w pos) ts rfl (by rcases hw with rfl | rfl <;> rfl)
      cases hq
    | _ => rfl

theorem declares_of_not_isKeyword {w : String} {pos : Position} (h : isKeyword w = false) :
    declares (.word w pos) = false := by
  refine Bool.eq_false_iff.2 fun hdeclares => ?_
  rw [declares, Bool.or_eq_true, beq_iff_eq, beq_iff_eq] at hdeclares
  rcases hdeclares with rfl | rfl
  · exact absurd h (by decide)
  · exact absurd h (by decide)

end Token

/-! ## Trees -/

/-- The tokens of a tree are quiet, part by part. What stands in brackets does not matter. -/
inductive Tree.Quiet : Tree → Prop
  | run {ts : List Token} : Token.Quiet ts → Quiet (.run ts)
  | group {d : Delimiter} {body : List Tree} {pos close : Position} :
      Quiet (.group d body pos close)
  | node {k : Kind} {parts : List Tree} : (∀ t ∈ parts, Quiet t) → Quiet (.node k parts)

namespace Tree

/-- All trees are quiet. -/
def AllQuiet (ts : List Tree) : Prop := ∀ t ∈ ts, t.Quiet

@[simp] theorem allQuiet_nil : AllQuiet [] := nofun

@[simp] theorem allQuiet_cons {t : Tree} {ts : List Tree} :
    AllQuiet (t :: ts) ↔ t.Quiet ∧ AllQuiet ts := List.forall_mem_cons

@[simp] theorem allQuiet_append {ts us : List Tree} :
    AllQuiet (ts ++ us) ↔ AllQuiet ts ∧ AllQuiet us := List.forall_mem_append

@[simp] theorem quiet_absent : absent.Quiet := .run Token.quiet_nil

@[simp] theorem quiet_group {d : Delimiter} {body : List Tree} {pos close : Position} :
    (group d body pos close).Quiet := .group

@[simp] theorem quiet_node {k : Kind} {ps : List Tree} :
    (node k ps).Quiet ↔ AllQuiet ps := by
  constructor
  · intro h
    cases h with
    | node h => exact h
  · exact .node

@[simp] theorem quiet_run {ts : List Token} : (run ts).Quiet ↔ Token.Quiet ts := by
  constructor
  · intro h
    cases h with
    | run h => exact h
  · exact .run

theorem quiet_tokensAll {ts : List Tree} (h : ∀ t ∈ ts, Token.Quiet t.tokens) :
    Token.Quiet (tokensAll ts) := by
  induction ts with
  | nil => exact Token.quiet_nil
  | cons t ts ih =>
    rw [List.forall_mem_cons] at h
    exact h.1.append (ih h.2)

theorem Quiet.tokens {t : Tree} (h : t.Quiet) : Token.Quiet t.tokens := by
  induction h with
  | run h => exact h
  | group => exact Token.quiet_of_forall (by simp [Tree.tokens, Token.declares])
  | node _ ih => exact quiet_tokensAll ih

end Tree

namespace Parser

open Token TypedSettings.Source.Tree

/-- What is given, if anything is, is as `P` says. -/
def Given {α : Type} (P : α → Prop) (o : Option α) : Prop := ∀ a, o = some a → P a

@[simp] theorem given_none {α : Type} {P : α → Prop} : Given P none := nofun

@[simp] theorem given_some {α : Type} {P : α → Prop} {a : α} : Given P (some a) ↔ P a :=
  ⟨fun h => h a rfl, fun h _ ha => Option.some.inj ha ▸ h⟩

/-- A parser takes quiet tokens alone, and what it gives is as `P` says. -/
def Hushed {α : Type} (p : Parser α) (P : α → Prop) : Prop :=
  ∀ ⦃c a c'⦄, p c = .ok (a, c') → (∃ taken, c.rest = taken ++ c'.rest ∧ Quiet taken) ∧ P a

variable {α β : Type} {P : α → Prop} {Q : β → Prop}

/-! ## Steps -/

/-- A parser that takes nothing. -/
theorem hushed_of_stays {p : Parser α} (h : ∀ {c a c'}, p c = .ok (a, c') → c' = c ∧ P a) :
    Hushed p P :=
  fun _ _ _ hok => ⟨⟨[], by rw [(h hok).1]; rfl, quiet_nil⟩, (h hok).2⟩

theorem Hushed.bind {p : Parser α} {f : α → Parser β} (hp : Hushed p P)
    (hf : ∀ a, P a → Hushed (f a) Q) : Hushed (p >>= f) Q := by
  intro c b c' h
  obtain ⟨a, c₁, ha, hb⟩ := run_bind_eq_ok.1 h
  obtain ⟨⟨taken, htaken, hquiet⟩, hgiven⟩ := hp ha
  obtain ⟨⟨more, hmore, hquiet'⟩, hgiven'⟩ := hf a hgiven hb
  exact ⟨⟨taken ++ more, by rw [htaken, hmore, List.append_assoc], hquiet.append hquiet'⟩, hgiven'⟩

theorem hushed_pure {a : α} (h : P a) : Hushed (pure a) P :=
  hushed_of_stays fun hok => by
    obtain ⟨rfl, rfl⟩ := run_pure_eq_ok.1 hok
    exact ⟨rfl, h⟩

theorem Hushed.map {p : Parser α} {f : α → β} (h : Hushed p fun a => Q (f a)) :
    Hushed (f <$> p) Q :=
  h.bind fun _ ha => hushed_pure ha

theorem Hushed.imp {P' : α → Prop} {p : Parser α} (h : Hushed p P) (hP : ∀ a, P a → P' a) :
    Hushed p P' :=
  fun _ _ _ hok => ⟨(h hok).1, hP _ (h hok).2⟩

theorem hushed_ite {b : Prop} [Decidable b] {p q : Parser α} (hp : Hushed p P)
    (hq : Hushed q P) : Hushed (if b then p else q) P := by
  split
  · exact hp
  · exact hq

/-- One of two parsers, and what follows either. -/
theorem hushed_either {b : Prop} [Decidable b] {p q : Parser α} {k : α → Parser β}
    (hp : Hushed p P) (hq : Hushed q P) (hk : ∀ a, P a → Hushed (k a) Q) :
    Hushed (if b then p >>= k else q >>= k) Q :=
  hushed_ite (hp.bind hk) (hq.bind hk)

theorem hushed_fail : Hushed (fail : Parser α) P :=
  hushed_of_stays fun h => by cases h

/-- A test in front changes nothing. -/
theorem hushed_guard {b : Prop} [Decidable b] {k : PUnit → Parser α} (hk : Hushed (k ⟨⟩) P) :
    Hushed (if b then fail >>= k else k ⟨⟩) P :=
  hushed_ite (fun _ _ _ h => by cases h) hk

/-- To look ahead takes nothing. -/
theorem hushed_look {q : List Token → Bool} {f : Bool → Parser β} (hf : ∀ b, Hushed (f b) Q) :
    Hushed (peek q >>= f) Q :=
  fun c _ _ h => hf (q c.rest) h

theorem hushed_get {f : Cursor → Parser β} (hf : ∀ c, Hushed (f c) Q) : Hushed (get >>= f) Q :=
  fun c _ _ h => hf c h

/-! ## Tokens -/

/-- The tokens of an operator are signs. -/
theorem quiet_operatorAt (pos : Position) (cs : List Char) : Quiet (operatorAt pos cs) := by
  refine quiet_of_forall fun t ht => ?_
  fun_induction operatorAt pos cs with
  | case1 => cases ht
  | case2 c =>
    rw [List.mem_singleton.1 ht]
    rfl
  | case3 c rest _ ih =>
    rcases List.mem_cons.1 ht with rfl | ht
    · rfl
    · exact ih ht

/-- A token that was looked at, and starts nothing, is taken as it stands. -/
theorem hushed_raw_bind {q : List Token → Bool} {k : Tree → Parser α} {r : Parser α}
    (hq : ∀ t ts, q (t :: ts) = true → declares t = false)
    (hk : ∀ t : Tree, t.Quiet → Hushed (k t) P) (hr : Hushed r P) :
    Hushed (peek q >>= fun ahead => if ahead then raw 1 >>= k else r) P := by
  intro c a c' h
  rw [peek_bind] at h
  split at h
  · next hahead =>
    have hone : Quiet (c.rest.take 1) := by
      refine quiet_of_forall fun t ht => ?_
      cases hrest : c.rest with
      | nil => simp [hrest] at ht
      | cons u ts =>
        rw [hrest] at hahead ht
        exact List.mem_singleton.1 ht ▸ hq u ts hahead
    obtain ⟨⟨taken, htaken, hquiet⟩, hgiven⟩ := hk _ (.run hone) h
    refine ⟨⟨c.rest.take 1 ++ taken, ?_, hone.append hquiet⟩, hgiven⟩
    rw [List.append_assoc, ← htaken, List.take_append_drop]
  · exact hr h

theorem hushed_raw {q : List Token → Bool} {r : Parser Tree}
    (hq : ∀ t ts, q (t :: ts) = true → declares t = false) (hr : Hushed r Tree.Quiet) :
    Hushed (do if ← peek q then raw 1 else r) Tree.Quiet := by
  have hpure : (raw 1 : Parser Tree) = raw 1 >>= pure := rfl
  rw [hpure]
  exact hushed_raw_bind hq (fun _ => hushed_pure) hr

theorem declares_of_isWord {w : String} (hw : w ≠ "trait" ∧ w ≠ "mod") {t : Token}
    {ts : List Token} (h : isWord w (t :: ts) = true) : declares t = false := by
  cases t with
  | word v pos =>
    rw [show v = w from beq_iff_eq.1 h]
    simp [declares, hw.1, hw.2]
  | _ => rfl

theorem declares_of_isIdent {t : Token} {ts : List Token} (h : isIdent (t :: ts) = true) :
    declares t = false := by
  cases t with
  | word w pos => exact declares_of_not_isKeyword (by simpa [isIdent] using h)
  | _ => rfl

theorem hushed_keyword {w : String} (hw : w ≠ "trait" ∧ w ≠ "mod") :
    Hushed (keyword w) Tree.Quiet :=
  hushed_raw (fun _ _ => declares_of_isWord hw) hushed_fail

theorem hushed_keyword? {w : String} (hw : w ≠ "trait" ∧ w ≠ "mod") :
    Hushed (keyword? w) Tree.Quiet :=
  hushed_raw (fun _ _ => declares_of_isWord hw) (hushed_pure Tree.quiet_absent)

theorem hushed_ident : Hushed ident Tree.Quiet :=
  hushed_raw (fun _ _ => declares_of_isIdent) hushed_fail

/-- A word that was looked at, and starts nothing, is taken. -/
theorem hushed_anyWord {q : List Token → Bool} {k : Tree → Parser α} {r : Parser α}
    (hq : ∀ t ts, q (t :: ts) = true → declares t = false)
    (hk : ∀ t : Tree, t.Quiet → Hushed (k t) P) (hr : Hushed r P) :
    Hushed (peek q >>= fun ahead => if ahead then anyWord >>= k else r) P := by
  intro c a c' h
  suffices hraw : (peek q >>= fun ahead => if ahead then raw 1 >>= k else r) c = .ok (a, c') from
    hushed_raw_bind hq hk hr hraw
  rw [peek_bind] at h ⊢
  split at h
  · next hahead =>
    rw [if_pos hahead]
    obtain ⟨t, c₁, ht, h⟩ := run_bind_eq_ok.1 h
    obtain ⟨w, pos, rest, hrest, rfl, rfl⟩ := anyWord_eq_ok.1 ht
    refine run_bind_eq_ok.2 ⟨_, _, ?_, h⟩
    rw [raw, hrest]
    rfl
  · next hahead =>
    rw [if_neg hahead]
    exact h

theorem quiet_of_startsWithOp {cs : List Char} {ts : List Token} (h : startsWithOp cs ts = true) :
    Quiet (ts.take cs.length) := by
  refine quiet_of_forall fun t ht => ?_
  induction cs generalizing ts with
  | nil => cases ht
  | cons c cs ih =>
    rcases ts with _ | ⟨u, ts⟩
    · cases ht
    · cases u with
      | sign d joint pos =>
        rcases List.mem_cons.1 ht with rfl | ht
        · rfl
        · cases cs with
          | nil => cases ht
          | cons c' cs =>
            simp only [startsWithOp, Bool.and_eq_true] at h
            exact ih h.2 ht
      | _ => cases cs <;> cases h

theorem hushed_op {s : String} : Hushed (op s) Tree.Quiet := by
  intro c t c' h
  obtain ⟨hop, rfl, rfl⟩ := op_eq_ok.1 h
  refine ⟨⟨c.rest.take s.length, (List.take_append_drop ..).symm, ?_⟩, .run (quiet_operatorAt _ _)⟩
  exact quiet_of_startsWithOp hop

theorem hushed_op? {s : String} : Hushed (op? s) Tree.Quiet :=
  hushed_look fun _ => hushed_ite hushed_op (hushed_pure Tree.quiet_absent)

theorem hushed_lifetime : Hushed lifetime Tree.Quiet := by
  intro c t c' h
  unfold lifetime at h
  split at h
  · next joint p w q rest hrest =>
    cases h
    exact ⟨⟨_, hrest, quiet_lifetime joint w p q⟩, .run (quiet_lifetime true w p q)⟩
  · cases h

theorem hushed_lifetime? : Hushed lifetime? Tree.Quiet :=
  hushed_look fun _ => hushed_ite hushed_lifetime (hushed_pure Tree.quiet_absent)

theorem read?_quiet {ts rest : List Token} {l : Literal} (h : Literal.read? ts = some (l, rest)) :
    (∃ taken, ts = taken ++ rest ∧ Quiet taken) ∧ Quiet l.tokens := by
  have hone {t : Token} (ht : declares t = false) : Quiet [t] := quiet_of_forall (by simpa using ht)
  unfold Literal.read? at h
  split at h
  · cases h
    exact ⟨⟨[_], rfl, hone rfl⟩, hone rfl⟩
  · cases h
    exact ⟨⟨[_], rfl, hone rfl⟩, hone rfl⟩
  · cases h
    exact ⟨⟨[_], rfl, hone rfl⟩, hone rfl⟩
  · have hboth {j : Bool} {p p' : Position} {text : String} :
        Quiet [.sign '-' j p, .literal text p'] := quiet_of_forall (by simp [declares])
    split at h <;> cases h <;> exact ⟨⟨[_, _], rfl, hboth⟩, hboth⟩
  · cases h

theorem hushed_literal : Hushed literal Tree.Quiet := by
  intro c t c' h
  obtain ⟨l, rest, hread, rfl, rfl⟩ := literal_eq_ok.1 h
  obtain ⟨htaken, hquiet⟩ := read?_quiet hread
  exact ⟨htaken, by simpa using hquiet⟩

/-- A group is one token, whatever is inside. -/
theorem hushed_group_of {d : Delimiter} {inner : Parser (List Tree)} {R : List Tree → Prop}
    (hinner : Gives R inner) : Hushed (group d inner) fun t => t.Quiet ∧ R t.parts := by
  intro c t c' h
  unfold group at h
  split at h
  · next e body pos close rest hrest =>
    split at h
    · split at h
      · next hrun =>
        cases h
        exact ⟨⟨[_], hrest, quiet_of_forall (by simp [declares])⟩, .group, hinner hrun⟩
      · cases h
      · cases h
    · cases h
  · cases h

theorem hushed_group {d : Delimiter} {inner : Parser (List Tree)} :
    Hushed (group d inner) Tree.Quiet :=
  (hushed_group_of (R := fun _ => True) fun _ _ _ _ => trivial).imp fun _ h => h.1

theorem hushed_rawGroup : Hushed rawGroup Tree.Quiet := by
  intro c t c' h
  unfold rawGroup at h
  split at h
  · next d body pos close rest hrest =>
    cases h
    have hone : Quiet [.group d body pos close] := quiet_of_forall (by simp [declares])
    exact ⟨⟨_, hrest, hone⟩, .run hone⟩
  · cases h

/-! ## Repetitions and choices -/

theorem hushed_repeating {step : Parser (Option (List Tree))} (hs : Hushed step (Given AllQuiet)) :
    Hushed (repeating step) AllQuiet := by
  have hfuel : ∀ fuel, Hushed (repeatFuel step fuel) AllQuiet := by
    intro fuel
    induction fuel with
    | zero => exact hushed_pure (by simp)
    | succ fuel ih =>
      rw [repeatFuel]
      refine hs.bind fun round hround => ?_
      cases round with
      | none => exact hushed_pure (by simp)
      | some ts =>
        exact ih.bind fun us hus => hushed_pure (allQuiet_append.2 ⟨hround ts rfl, hus⟩)
  exact fun _ _ _ h => hfuel _ h

variable {stop : List Token → Bool} {member : Parser Tree} {sep : String}

theorem hushed_separated (hm : Hushed member Tree.Quiet) :
    Hushed (separated stop member sep) AllQuiet := by
  refine hushed_repeating (hushed_look fun _ => hushed_ite (hushed_pure (by simp)) ?_)
  refine hm.bind fun t ht => hushed_look fun _ => hushed_ite (hushed_pure (by simp [ht])) ?_
  exact hushed_op.bind fun sep hsep => hushed_pure (by simp [ht, hsep])

theorem hushed_manyUntil (hm : Hushed member Tree.Quiet) :
    Hushed (manyUntil stop member) AllQuiet := by
  refine hushed_repeating (hushed_look fun _ => hushed_ite (hushed_pure (by simp)) ?_)
  exact hm.bind fun t ht => hushed_pure (by simp [ht])

theorem hushed_chained (hm : Hushed member Tree.Quiet) :
    Hushed (chained stop member sep) AllQuiet := by
  have hfuel : ∀ fuel, Hushed (chainedFuel stop member sep fuel) AllQuiet := by
    intro fuel
    induction fuel with
    | zero => exact hushed_pure (by simp)
    | succ fuel ih =>
      rw [chainedFuel]
      refine hushed_look fun _ => hushed_ite (hushed_pure (by simp)) ?_
      refine hm.bind fun t ht => hushed_look fun _ => hushed_ite ?_ (hushed_pure (by simp [ht]))
      exact hushed_op.bind fun sep hsep => ih.bind fun ts hts =>
        hushed_pure (by simp [ht, hsep, hts])
  exact fun _ _ _ h => hfuel _ h

theorem hushed_orVerbatim {p : Parser (Option Tree)} (hp : Hushed p (Given Tree.Quiet)) :
    Hushed (orVerbatim p) Tree.Quiet := by
  intro c t c' h
  unfold orVerbatim at h
  split at h
  · next hrun =>
    cases h
    exact ⟨(hp hrun).1, (hp hrun).2 _ rfl⟩
  · next hrun =>
    cases h
    obtain ⟨taken, htaken, hquiet⟩ := (hp hrun).1
    refine ⟨⟨taken, htaken, hquiet⟩, ?_⟩
    rw [htaken, List.length_append, Nat.add_sub_cancel, List.take_left]
    simpa using hquiet
  · cases h

theorem hushed_verbatim {p : Parser α} (hp : Hushed p fun _ => True) :
    Hushed (verbatim p) Tree.Quiet :=
  hushed_orVerbatim (hp.bind fun _ _ => hushed_pure (by simp))

end Parser

end TypedSettings.Source
