import TypedSettings.Proofs.Source.Advance
import TypedSettings.Proofs.Source.Words

/-!
Names in syntax trees. A parser that starts at words that pass a test gives trees whose names pass
it: the names of traits and modules, of the functions in a trait, and of their parameters.

* `Yields`: what a parser gives, by the tokens ahead.
* `yields_toDepth_item`: the names of items, by induction on the depth to which rules are read.
* `forall_mem_readFile`: what holds of the items of a source file.
* `readFile_named`: the names in a source file are identifiers.
-/

namespace TypedSettings

namespace Source

open Token

namespace Parser

variable {α β : Type} {W : List Token → Prop} {P : String → Prop}

/-- What holds of the tokens ahead still holds of those that a parser leaves. -/
class Lasts (W : List Token → Prop) : Prop where
  of_tail : ∀ {rest ts : List Token}, Tail rest ts → W ts → W rest

instance : Lasts (AllWords P) := ⟨fun htail hwords => hwords.of_suffix htail.suffix⟩

/-- Where the tokens ahead are as `W` says, the parser gives only what is as `Q` says, and the
tokens that it leaves are so too. -/
def Yields (W : List Token → Prop) (p : Parser α) (Q : α → Prop) : Prop :=
  ∀ ⦃c a c'⦄, W c.rest → p c = .ok (a, c') → Q a ∧ W c'.rest

section

variable [Lasts W] {p : Parser α} {Q : α → Prop} {R : β → Prop}

theorem yields_of_gives [Advances p] (h : Gives Q p) : Yields W p Q :=
  fun _ _ _ hahead hok => ⟨h hok, Lasts.of_tail (tail_of_ok hok) hahead⟩

/-- Any parser of the grammar may stand in front. -/
theorem yields_true [Advances p] : Yields W p fun _ => True :=
  yields_of_gives fun _ _ _ _ => trivial

omit [Lasts W] in
theorem Yields.bind {f : α → Parser β} (hp : Yields W p Q) (hf : ∀ a, Q a → Yields W (f a) R) :
    Yields W (p >>= f) R := by
  intro c b c' hahead h
  obtain ⟨a, c₁, ha, hb⟩ := run_bind_eq_ok.1 h
  obtain ⟨hQ, hahead₁⟩ := hp hahead ha
  exact hf a hQ hahead₁ hb

/-- What comes first does not matter. -/
theorem yields_seq [Advances p] {f : α → Parser β} (hf : ∀ a, Yields W (f a) R) :
    Yields W (p >>= f) R :=
  yields_true.bind fun a _ => hf a

theorem yields_pure {a : α} (h : Q a) : Yields W (pure a) Q :=
  yields_of_gives (gives_pure h)

theorem yields_fail : Yields W (fail : Parser α) Q :=
  yields_of_gives gives_fail

omit [Lasts W] in
theorem yields_ite {b : Prop} [Decidable b] {q : Parser α} (hp : Yields W p Q)
    (hq : Yields W q Q) : Yields W (if b then p else q) Q := by
  split
  · exact hp
  · exact hq

omit [Lasts W] in
theorem Yields.imp {Q' : α → Prop} (h : Yields W p Q) (hQ : ∀ a, Q a → Q' a) : Yields W p Q' :=
  fun _ _ _ hahead hok => ⟨hQ _ (h hahead hok).1, (h hahead hok).2⟩

theorem Yields.map {f : α → β} (h : Yields W p fun a => R (f a)) : Yields W (f <$> p) R :=
  h.bind fun _ ha => yields_pure ha

end

/-! ## Words and groups -/

/-- A word gives a name that passes. -/
theorem yields_anyWord : Yields (AllWords P) anyWord fun t => P t.word := by
  intro c t c' hwords h
  obtain ⟨w, pos, rest, hrest, rfl, rfl⟩ := anyWord_eq_ok.1 h
  rw [hrest, allWords_cons] at hwords
  exact hwords

theorem yields_ident : Yields (AllWords P) ident fun t => P t.word := by
  intro c t c' hwords h
  obtain ⟨w, pos, rest, hrest, rfl, rfl⟩ := ident_eq_ok h
  rw [hrest, allWords_cons] at hwords
  exact hwords

theorem yields_group {d : Delimiter} {inner : Parser (List Tree)} {Q : List Tree → Prop}
    (hinner : Yields (AllWords P) inner Q) :
    Yields (AllWords P) (group d inner) fun t => Q t.parts := by
  intro c t c' hwords h
  have hrest := hwords.of_suffix (suffix_of_ok h)
  unfold group at h
  split at h
  · next hc =>
    rw [hc, allWords_cons] at hwords
    split at h
    · split at h
      · next hrun =>
        cases h
        exact ⟨(hinner (wordsOf_group.1 hwords.1) hrun).1, hrest⟩
      · cases h
      · cases h
    · cases h
  · cases h

/-! ## Repetitions and choices -/

section

variable [Lasts W]

theorem yields_repeating {step : Parser (Option (List Tree))} {Q : List Tree → Prop} (hnil : Q [])
    (happend : ∀ ts us, Q ts → Q us → Q (ts ++ us))
    (hstep : Yields W step fun o => ∀ ts, o = some ts → Q ts) : Yields W (repeating step) Q := by
  have hfuel : ∀ fuel, Yields W (repeatFuel step fuel) Q := by
    intro fuel
    induction fuel with
    | zero => exact yields_pure hnil
    | succ fuel ih =>
      rw [repeatFuel]
      refine hstep.bind fun o ho => ?_
      cases o with
      | none => exact yields_pure hnil
      | some ts => exact ih.bind fun us hus => yields_pure (happend ts us (ho ts rfl) hus)
  exact fun c ts c' hahead h => hfuel _ hahead h

theorem yields_manyUntil {stop : List Token → Bool} {member : Parser Tree} {Q : Tree → Prop}
    (hmember : Yields W member Q) : Yields W (manyUntil stop member) fun ts => ∀ t ∈ ts, Q t := by
  refine yields_repeating (by simp) (fun ts us hts hus t ht => ?_) ?_
  · exact (List.mem_append.1 ht).elim (hts t) (hus t)
  · refine yields_seq fun stops => yields_ite (yields_pure nofun) ?_
    refine hmember.bind fun t ht => yields_pure ?_
    intro ts hts u hu
    cases hts
    exact List.mem_singleton.1 hu ▸ ht

/-- Members with commas between them: all give what is as `Q` says, if signs are so too. -/
theorem yields_commaList {member : Parser Tree} {Q : Tree → Prop} [Advances member]
    (hmember : Yields W member Q) (hsign : ∀ ts, Q (.run ts)) :
    Yields W (commaList member) fun ts => ∀ t ∈ ts, Q t := by
  have hop : Yields W (op ",") Q := yields_of_gives fun c t c' h => by
    rw [(op_eq_ok.1 h).2.1]
    exact hsign _
  refine yields_repeating (by simp) (fun ts us hts hus t ht => ?_) ?_
  · exact (List.mem_append.1 ht).elim (hts t) (hus t)
  · refine yields_seq fun stops => yields_ite (yields_pure nofun) ?_
    refine hmember.bind fun t ht => yields_seq fun last => yields_ite (yields_pure ?_) ?_
    · intro ts hts u hu
      cases hts
      exact List.mem_singleton.1 hu ▸ ht
    · refine hop.bind fun sep hsep => yields_pure ?_
      rintro ts hts
      cases hts
      simp [ht, hsep]

omit [Lasts W] in
theorem yields_orVerbatim {p : Parser (Option Tree)} {Q : Tree → Prop}
    (hp : Yields W p fun o => ∀ t, o = some t → Q t) (hv : ∀ ts, Q (.node .verbatim [.run ts])) :
    Yields W (orVerbatim p) Q := by
  intro c t c' hahead h
  unfold orVerbatim at h
  split at h
  · next u c₁ hu =>
    cases h
    obtain ⟨hQ, hrest⟩ := hp hahead hu
    exact ⟨hQ _ rfl, hrest⟩
  · next c₁ hu =>
    cases h
    exact ⟨hv _, (hp hahead hu).2⟩
  · cases h

end

end Parser

/-! ## Names of parts -/

namespace Tree

variable (P : String → Prop)

/-- The name that a pattern binds passes, if the pattern is a name. -/
def BindsName (pat : Tree) : Prop := pat.isKind .patIdent = true → P (pat.part 2).word

/-- The name of a parameter passes, if it has one. -/
def ParamNamed (t : Tree) : Prop := t.isKind .param = true → BindsName P (t.part 1)

/-- The names of a function and of its parameters pass. -/
def SignatureNamed (sig : Tree) : Prop :=
  P (sig.part 2).word ∧ ∀ t ∈ (sig.part 4).parts, ParamNamed P t

/-- The names in a member of a trait pass. -/
def MemberNamed (t : Tree) : Prop := t.isKind .traitFn = true → SignatureNamed P (t.part 1)

/-- The names in an item pass: those of a trait, of its members, and of the items of a module. -/
inductive ItemNamed : Tree → Prop
  | trait {t : Tree} : t.isKind .itemTrait = true → P (t.part 5).word →
      (∀ m ∈ (t.part 10).parts.drop 1, MemberNamed P m) → ItemNamed t
  | module {t : Tree} : t.isKind .itemMod = true →
      (∀ u ∈ (t.part 5).parts.drop 1, ItemNamed u) → ItemNamed t
  | other {t : Tree} : t.isKind .itemTrait = false → t.isKind .itemMod = false → ItemNamed t

end Tree

namespace Grammar

open TypedSettings.Source.Parser TypedSettings.Source.Tree

variable {P : String → Prop} {rules : Rules}

/-! ## Patterns -/

/-- A tree that binds no name. -/
def NoName (t : Tree) : Prop := t.isKind .patIdent = false

theorem gives_rangeEnd : Gives NoName (rangeEnd rules) := by
  unfold rangeEnd
  refine gives_bind fun _ => gives_ite (gives_bind fun _ => gives_pure rfl) ?_
  refine gives_bind fun _ => gives_ite (gives_bind fun _ => gives_pure rfl) ?_
  refine gives_bind fun _ => gives_ite ?_ gives_fail
  exact gives_bind fun _ => gives_bind fun _ => gives_pure rfl

theorem gives_rangeAfter (start : Tree) : Gives NoName (rangeAfter rules start) := by
  unfold rangeAfter
  refine gives_bind fun _ => gives_bind fun _ => gives_ite ?_ ?_
  · exact gives_ite (gives_pure rfl) gives_fail
  · exact gives_bind fun _ => gives_pure rfl

theorem gives_pathPattern : Gives NoName (pathPattern rules) := by
  unfold pathPattern
  refine gives_bind fun base => gives_bind fun _ =>
    gives_ite (gives_bind fun _ => gives_pure rfl) ?_
  refine gives_bind fun _ => gives_ite (gives_bind fun _ => gives_pure rfl) ?_
  refine gives_bind fun _ => gives_ite (gives_bind fun _ => gives_pure rfl) ?_
  exact gives_bind fun _ => gives_ite (gives_rangeAfter _) (gives_pure rfl)

theorem gives_receiver (attrs : Tree) :
    Gives (fun t => t.isKind .param = false) (receiver rules attrs) := by
  unfold receiver
  dsimp only
  repeat' first
    | exact gives_pure rfl
    | refine gives_ite ?_ ?_
    | refine gives_bind fun _ => ?_

section

variable [∀ r, Advances (rules r)]

theorem yields_identPattern : Yields (AllWords P) (identPattern rules) (BindsName P) := by
  unfold identPattern
  refine yields_seq fun ref => yields_seq fun mut' => yields_seq fun _ => ?_
  have hrest : ∀ name : Tree, P name.word → Yields (AllWords P) (do
      if ← peekOp "@" then
        return Tree.node .patIdent [ref, mut', name, ← op "@", ← rules .pattern]
      else return Tree.node .patIdent [ref, mut', name, .absent, .absent]) (BindsName P) := by
    intro name hname
    refine yields_seq fun _ => yields_ite ?_ (yields_pure fun _ => hname)
    exact yields_seq fun _ => yields_seq fun _ => yields_pure fun _ => hname
  exact yields_ite (yields_anyWord.bind hrest) (yields_ident.bind hrest)

theorem yields_noName {p : Parser Tree} [Advances p] (h : Gives NoName p) :
    Yields (AllWords P) p (BindsName P) :=
  (yields_of_gives h).imp fun _ ht hname => absurd (ht.symm.trans hname) Bool.false_ne_true

/-- A pattern that is a name binds one that passes. -/
theorem yields_pattern : Yields (AllWords P) (pattern rules) (BindsName P) := by
  unfold pattern
  refine yields_seq fun _ => yields_ite (yields_noName gives_pathPattern) ?_
  refine yields_seq fun _ => yields_ite (yields_noName (gives_bind fun _ => gives_pure rfl)) ?_
  refine yields_seq fun _ => yields_ite (yields_noName ?_) ?_
  · exact gives_orVerbatim (gives_bind fun _ => gives_pure nofun) fun _ => rfl
  refine yields_seq fun _ => yields_seq fun _ => yields_seq fun _ => yields_ite ?_ ?_
  · refine (yields_noName gives_rangeEnd).bind fun start hstart => ?_
    refine yields_seq fun _ => yields_ite (yields_noName (gives_rangeAfter start)) ?_
    exact yields_pure hstart
  refine yields_seq fun _ => yields_ite yields_identPattern ?_
  refine yields_seq fun _ => yields_ite (yields_noName ?_) ?_
  · exact gives_bind fun _ => gives_bind fun _ => gives_bind fun _ => gives_pure rfl
  refine yields_seq fun _ => yields_ite (yields_seq fun body => ?_) (yields_noName ?_)
  · split
    · next only _ => cases only.isKind .patRest <;> exact yields_noName (gives_pure rfl)
    · exact yields_noName (gives_pure rfl)
  refine gives_bind fun _ => gives_ite (gives_bind fun _ => gives_pure rfl) ?_
  refine gives_bind fun _ => gives_ite (gives_bind fun limits => gives_bind fun _ => ?_) gives_fail
  refine gives_ite (gives_ite (gives_pure rfl) gives_fail) ?_
  exact gives_bind fun _ => gives_pure rfl

/-! ## Signatures -/

/-- A parameter of which the pattern is a name has a name that passes. -/
theorem yields_parameter (hpattern : Yields (AllWords P) (rules .pattern) (BindsName P)) :
    Yields (AllWords P) (parameter rules) (ParamNamed P) := by
  unfold parameter
  refine yields_seq fun attrs => yields_seq fun _ => yields_ite ?_ ?_
  · exact yields_seq fun dots => yields_pure fun h => absurd h Bool.false_ne_true
  have hreceiver : Yields (AllWords P) (attempt (receiver rules attrs))
      fun o => ∀ t, o = some t → t.isKind .param = false := by
    refine yields_of_gives fun c o c' h => ?_
    unfold attempt at h
    split at h
    · next hrun =>
      cases h
      rintro t ht
      cases ht
      exact gives_receiver attrs hrun
    · cases h
      rintro _ ⟨⟩
  refine hreceiver.bind fun o ho => ?_
  split
  · next t =>
    exact yields_pure fun hparam => absurd ((ho t rfl).symm.trans hparam) Bool.false_ne_true
  refine yields_seq fun _ => yields_ite ?_ ?_
  · exact yields_seq fun _ => yields_pure fun _ h => absurd h Bool.false_ne_true
  refine hpattern.bind fun pat hpat => yields_seq fun colon => yields_seq fun _ => yields_ite ?_ ?_
  · exact yields_seq fun dots => yields_pure fun h => absurd h Bool.false_ne_true
  · exact yields_seq fun type => yields_pure fun _ => hpat

theorem yields_parameters (hpattern : Yields (AllWords P) (rules .pattern) (BindsName P)) :
    Yields (AllWords P) (parameters rules) fun t => ∀ p ∈ t.parts, ParamNamed P p := by
  unfold parameters
  have hmembers := yields_commaList (yields_parameter hpattern) fun _ => nofun
  refine (yields_group hmembers).bind fun body hbody => ?_
  dsimp only
  refine yields_ite (yields_seq fun _ => yields_pure hbody) (yields_pure hbody)

theorem yields_signature (hpattern : Yields (AllWords P) (rules .pattern) (BindsName P))
    (foreign : Bool) :
    Yields (AllWords P) (signature rules foreign) (SignatureNamed P) := by
  unfold signature
  refine yields_seq fun words => yields_seq fun fn => yields_ident.bind fun name hname => ?_
  refine yields_seq fun gens => (yields_parameters hpattern).bind fun params hparams => ?_
  exact yields_seq fun res => yields_seq fun where' => yields_pure ⟨hname, hparams⟩

end

/-! ## Members -/

/-- A tree that is none of these kinds. -/
def NoneOf (kinds : List Kind) (t : Tree) : Prop := ∀ k ∈ kinds, t.isKind k = false

/-- The kinds of trees that have names which matter to an interface. -/
def namingKinds : List Kind := [.itemUse, .itemTrait, .itemMod, .traitFn]

/-- A tree without such a name. -/
def Unnamed (t : Tree) : Prop := NoneOf namingKinds t

theorem noneOf_node {kinds : List Kind} {k : Kind} {parts : List Tree} (h : k ∉ kinds) :
    NoneOf kinds (.node k parts) := by
  intro k' hk'
  refine beq_eq_false_iff_ne.2 fun heq => h ?_
  cases heq
  exact hk'

theorem unnamed_node {k : Kind} {parts : List Tree} (h : k ∉ namingKinds) :
    Unnamed (.node k parts) :=
  noneOf_node h

theorem gives_callItem (attrs : Tree) (named : Bool) : Gives Unnamed (callItem attrs named) := by
  unfold callItem
  dsimp only
  repeat' first
    | exact gives_pure (unnamed_node (by decide))
    | refine gives_ite ?_ ?_
    | refine gives_bind fun _ => ?_

theorem gives_typeItem (attrs vis default : Tree) (place : ClausePlace) :
    Gives (fun r => Unnamed r.1) (typeItem rules attrs vis default place) := by
  unfold typeItem
  dsimp only
  repeat' first
    | exact gives_pure (unnamed_node (by decide))
    | refine gives_ite ?_ ?_
    | refine gives_bind fun _ => ?_

/-- No tree, or one that is as `Q` says. -/
def IfSome (Q : Tree → Prop) (o : Option Tree) : Prop := ∀ t, o = some t → Q t

theorem ifSome_some {Q : Tree → Prop} {t : Tree} (h : Q t) : IfSome Q (some t) :=
  fun _ ht => Option.some.inj ht ▸ h

theorem ifSome_none {Q : Tree → Prop} : IfSome Q none := nofun

theorem gives_constItem? (attrs vis default : Tree) :
    Gives (IfSome Unnamed) (constItem? rules attrs vis default) := by
  unfold constItem?
  dsimp only
  repeat' first
    | exact gives_pure (ifSome_some (unnamed_node (by decide)))
    | exact gives_pure ifSome_none
    | refine gives_ite ?_ ?_
    | refine gives_bind fun _ => ?_

theorem gives_functionWithBody? (attrs vis default : Tree) :
    Gives (IfSome Unnamed) (functionWithBody? rules attrs vis default) := by
  have hfn : Gives Unnamed (functionItem rules attrs vis default false) :=
    gives_bind fun sig => gives_bind fun body => gives_pure (unnamed_node (by decide))
  unfold functionWithBody?
  intro c o c' h
  obtain ⟨t, c₁, ht, h⟩ := run_bind_eq_ok.1 h
  obtain ⟨rfl, -⟩ := run_pure_eq_ok.1 h
  split
  · exact ifSome_some (hfn ht)
  · exact ifSome_none

theorem gives_filter {p : Parser (Option Tree)} (h : Gives (IfSome Unnamed) p) (q : Tree → Bool) :
    Gives (IfSome Unnamed) (do return (← p).filter q) := by
  intro c o c' hok
  obtain ⟨o₁, c₁, ho, hok⟩ := run_bind_eq_ok.1 hok
  obtain ⟨rfl, -⟩ := run_pure_eq_ok.1 hok
  intro t ht
  exact h ho t (Option.filter_eq_some_iff.1 ht).1

theorem gives_some {p : Parser Tree} (h : Gives Unnamed p) :
    Gives (IfSome Unnamed) (some <$> p) := by
  have hmap : some <$> p = p >>= fun t => pure (some t) := rfl
  rw [hmap]
  intro c o c' hok
  obtain ⟨t, c₁, ht, hok⟩ := run_bind_eq_ok.1 hok
  obtain ⟨rfl, -⟩ := run_pure_eq_ok.1 hok
  exact ifSome_some (h ht)

theorem gives_externItem (attrs vis guard : Tree) :
    Gives Unnamed (externItem rules attrs vis guard) := by
  unfold externItem
  dsimp only
  repeat' first
    | exact gives_pure (unnamed_node (by decide))
    | refine gives_ite ?_ ?_
    | refine gives_bind fun _ => ?_

theorem gives_staticValue? (attrs vis : Tree) :
    Gives (IfSome Unnamed) (staticValue? rules attrs vis) := by
  have hitem : Gives Unnamed (staticItem rules attrs vis) := by
    unfold staticItem
    dsimp only
    repeat' first
      | exact gives_pure (unnamed_node (by decide))
      | refine gives_ite ?_ ?_
      | refine gives_bind fun _ => ?_
  unfold staticValue?
  refine gives_bind fun untyped => gives_ite ?_ ?_
  · refine gives_bind fun _ => gives_bind fun _ => gives_bind fun _ => gives_bind fun _ => ?_
    exact gives_bind fun _ => gives_bind fun _ => gives_pure ifSome_none
  · intro c o c' h
    obtain ⟨t, c₁, ht, h⟩ := run_bind_eq_ok.1 h
    obtain ⟨rfl, -⟩ := run_pure_eq_ok.1 h
    intro u hu
    exact ifSome_some (hitem ht) u (Option.filter_eq_some_iff.1 hu).1

theorem gives_constValue? (attrs vis default : Tree) :
    Gives (IfSome Unnamed) (constValue? rules attrs vis default) :=
  gives_filter (gives_constItem? attrs vis default) _

theorem gives_implItem? (attrs vis : Tree) :
    Gives (IfSome Unnamed) (implItem? rules attrs vis) := by
  unfold implItem?
  dsimp only
  repeat' first
    | exact gives_pure (ifSome_some (unnamed_node (by decide)))
    | exact gives_pure ifSome_none
    | refine gives_ite ?_ ?_
    | refine gives_bind fun _ => ?_

theorem gives_typeAlias? (attrs vis default : Tree) (place : ClausePlace) :
    Gives (IfSome Unnamed) (typeAlias? rules attrs vis default place) := by
  intro c o c' h
  unfold typeAlias? at h
  obtain ⟨r, c₁, hr, h⟩ := run_bind_eq_ok.1 h
  obtain ⟨rfl, -⟩ := run_pure_eq_ok.1 h
  split
  · exact ifSome_none
  · exact ifSome_some (gives_typeItem _ _ _ _ hr)

theorem gives_bracedFields (attrs vis word name gens where' : Tree) :
    Gives Unnamed (bracedFields rules attrs vis word name gens where') :=
  gives_bind fun _ => gives_pure (unnamed_node (by decide))

theorem gives_structItem (attrs vis : Tree) : Gives Unnamed (structItem rules attrs vis) := by
  unfold structItem
  dsimp only
  repeat' first
    | exact gives_pure (unnamed_node (by decide))
    | exact gives_bracedFields _ _ _ _ _ _
    | refine gives_ite ?_ ?_
    | refine gives_bind fun _ => ?_

theorem gives_unionItem (attrs vis : Tree) : Gives Unnamed (unionItem rules attrs vis) := by
  refine gives_bind fun _ => gives_bind fun _ => gives_bind fun _ => gives_bind fun _ => ?_
  exact gives_bracedFields _ _ _ _ _ _

theorem gives_enumItem (attrs vis : Tree) : Gives Unnamed (enumItem rules attrs vis) := by
  unfold enumItem
  repeat' first
    | exact gives_pure (unnamed_node (by decide))
    | refine gives_bind fun _ => ?_

section

variable [∀ r, Advances (rules r)]

theorem Unnamed.member {t : Tree} (h : Unnamed t) : MemberNamed P t :=
  fun hkind => absurd ((h .traitFn (by decide)).symm.trans hkind) Bool.false_ne_true

/-- A member of a trait has names that pass. -/
theorem yields_traitMember? (hpattern : Yields (AllWords P) (rules .pattern) (BindsName P)) :
    Yields (AllWords P) (traitMember? rules) (IfSome (MemberNamed P)) := by
  have hshown (plain : Bool) {o : Option Tree} (ho : IfSome (MemberNamed P) o) :
      Yields (AllWords P) (pure (if plain then o else none)) (IfSome (MemberNamed P)) := by
    cases plain
    · exact yields_pure ifSome_none
    · exact yields_pure ho
  have hother {p : Parser (Option Tree)} [Advances p] (hp : Gives (IfSome Unnamed) p) :
      Yields (AllWords P) p (IfSome (MemberNamed P)) :=
    (yields_of_gives hp).imp fun o ho t ht => (ho t ht).member
  unfold traitMember?
  refine yields_seq fun attrs => yields_seq fun vis => yields_seq fun default =>
    yields_seq fun c => ?_
  dsimp only
  refine yields_ite ?_ (yields_ite ?_ (yields_ite ?_ (yields_ite ?_ ?_)))
  · refine (yields_signature hpattern false).bind fun sig hsig => yields_seq fun body => ?_
    exact (yields_pure (ifSome_some fun _ => hsig)).bind fun o ho => hshown _ ho
  · exact (hother (gives_constItem? _ _ _)).bind fun o ho => hshown _ ho
  · refine (yields_of_gives (gives_typeItem _ _ _ _)).bind fun r hr => ?_
    exact (yields_pure (ifSome_some hr.member)).bind fun o ho => hshown _ ho
  · refine Yields.bind (Q := IfSome (MemberNamed P)) ?_ fun o ho => hshown _ ho
    exact ((yields_of_gives (gives_callItem attrs false)).imp fun t ht => ifSome_some ht.member).map
  · exact yields_fail.bind fun o ho => hshown _ ho

/-! ## Items -/

omit [∀ r, Advances (rules r)] in
/-- Attributes in braces, and then members that are as `Q` says. -/
theorem yields_braced {member : Parser Tree} [Advances member] {Q : Tree → Prop}
    (hmember : Yields (AllWords P) member Q) :
    Yields (AllWords P) (braced rules member) fun body => ∀ t ∈ body.parts.drop 1, Q t := by
  have hmembers : Yields (AllWords P) (do
      let attrs ← innerAttributes rules
      return attrs :: (← manyUntil List.isEmpty member)) fun ts => ∀ t ∈ ts.drop 1, Q t :=
    yields_seq fun attrs => (yields_manyUntil hmember).bind fun ts hts => yields_pure hts
  exact yields_group hmembers

/-- A trait has names that pass. -/
theorem yields_traitItem (hpattern : Yields (AllWords P) (rules .pattern) (BindsName P))
    (attrs vis guard auto : Tree) :
    Yields (AllWords P) (traitItem rules attrs vis guard auto) (ItemNamed P) := by
  have hmembers : Yields (AllWords P) (orVerbatim (traitMember? rules)) (MemberNamed P) :=
    yields_orVerbatim (yields_traitMember? hpattern) fun _ => nofun
  unfold traitItem
  refine yields_seq fun word => yields_ident.bind fun name hname => yields_seq fun gens => ?_
  refine yields_seq fun alias' => yields_ite ?_ ?_
  · refine yields_seq fun eq => ?_
    dsimp only
    refine yields_seq fun bounds => yields_seq fun where' => yields_seq fun semi => ?_
    exact yields_pure (.other rfl rfl)
  · refine yields_seq fun colon => ?_
    dsimp only
    have hrest (bounds : Tree) : Yields (AllWords P) (do
        let where' ← whereClause rules
        let body ← braced rules (orVerbatim (traitMember? rules))
        return Tree.node .itemTrait [attrs, vis, guard, auto, word, name, gens,
          if bounds.parts.isEmpty then .absent else colon, bounds, where', body])
        (ItemNamed P) := by
      refine yields_seq fun where' => (yields_braced hmembers).bind fun body hbody => ?_
      exact yields_pure (.trait rfl hname hbody)
    refine yields_ite ?_ ?_
    · exact yields_seq fun bounds => hrest bounds
    · exact yields_seq fun _ => yields_seq fun bounds => hrest bounds

/-- A module is as `Q` says, if a module with a word in front and with items that are so is. -/
theorem yields_modItem_of {Q : Tree → Prop} (hitem : Yields (AllWords P) (rules .item) Q)
    (attrs vis guard : Tree)
    (hmod : ∀ word name body : Tree, word.tokens ≠ [] → (∀ t ∈ body.parts.drop 1, Q t) →
      Q (.node .itemMod [attrs, vis, guard, word, name, body])) :
    Yields (AllWords P) (modItem rules attrs vis guard) Q := by
  have hsemi : Yields (AllWords P) (op ";") fun body => ∀ t ∈ body.parts.drop 1, Q t := by
    refine yields_of_gives fun c t c' h => ?_
    rw [(op_eq_ok.1 h).2.1]
    nofun
  have hbody {word : Tree} (hword : word.tokens ≠ []) (name : Tree) : Yields (AllWords P) (do
      let body ← if ← peekOp ";" then op ";" else braced rules (rules .item)
      return Tree.node .itemMod [attrs, vis, guard, word, name, body]) Q := by
    refine yields_seq fun _ => yields_ite ?_ ?_
    · exact hsemi.bind fun body hbody => yields_pure (hmod word name body hword hbody)
    · exact (yields_braced hitem).bind fun body hbody =>
        yields_pure (hmod word name body hword hbody)
  unfold modItem
  refine (yields_of_gives (gives_keyword "mod")).bind fun word hword => ?_
  refine yields_seq fun _ => yields_ite ?_ ?_
  · exact yields_seq fun name => hbody hword name
  · exact yields_seq fun name => hbody hword name

theorem yields_modItem (hitem : Yields (AllWords P) (rules .item) (ItemNamed P))
    (attrs vis guard : Tree) :
    Yields (AllWords P) (modItem rules attrs vis guard) (ItemNamed P) :=
  yields_modItem_of hitem attrs vis guard fun _ _ _ _ hbody => .module rfl hbody

theorem Unnamed.item {t : Tree} (h : Unnamed t) : ItemNamed P t :=
  .other (h .itemTrait (by decide)) (h .itemMod (by decide))

/-- Use declarations are as `Q` says, if all of their kind are. -/
theorem yields_useItem? {W : List Token → Prop} [Lasts W] {Q : Tree → Prop}
    (h : ∀ parts, Q (.node .itemUse parts)) (attrs vis : Tree) :
    Yields W (useItem? rules attrs vis) (IfSome Q) := by
  unfold useItem?
  refine yields_seq fun _ => yields_seq fun _ => yields_seq fun _ => yields_seq fun _ => ?_
  exact yields_ite (yields_pure ifSome_none) (yields_pure (ifSome_some (h _)))

/-- Items are as `Q` says, if use declarations, traits and modules are, and all that has no name of
its own. -/
theorem yields_item?_of {W : List Token → Prop} [Lasts W] {Q : Tree → Prop}
    (hunnamed : ∀ t, Unnamed t → Q t)
    (huse : ∀ attrs vis, Yields W (useItem? rules attrs vis) (IfSome Q))
    (htrait : ∀ attrs vis guard auto, Yields W (traitItem rules attrs vis guard auto) Q)
    (hmod : ∀ attrs vis guard, Yields W (modItem rules attrs vis guard) Q) :
    Yields W (item? rules) (IfSome Q) := by
  have hother {p : Parser (Option Tree)} [Advances p] (hp : Gives (IfSome Unnamed) p) :
      Yields W p (IfSome Q) :=
    (yields_of_gives hp).imp fun o ho t ht => hunnamed t (ho t ht)
  have hsome {p : Parser Tree} (hp : Yields W p Q) : Yields W (some <$> p) (IfSome Q) :=
    (hp.imp fun t ht => ifSome_some ht).map
  unfold item?
  refine yields_seq fun attrs => yields_seq fun vis => yields_seq fun c => ?_
  dsimp only
  refine yields_ite (hother (gives_functionWithBody? _ _ _)) ?_
  refine yields_ite (hother (gives_some (gives_externItem _ _ _))) ?_
  refine yields_ite (huse _ _) ?_
  refine yields_ite (hother (gives_staticValue? _ _)) ?_
  refine yields_ite (hother (gives_constValue? _ _ _)) ?_
  refine yields_ite ?_ ?_
  · refine yields_ite ?_
      (yields_ite (hother (gives_implItem? _ _)) (yields_ite ?_ (yields_ite ?_ ?_)))
    · exact yields_seq fun guard => yields_seq fun auto => hsome (htrait attrs vis guard auto)
    · exact yields_seq fun guard => hother (gives_some (gives_externItem _ _ _))
    · exact yields_seq fun guard => hsome (hmod attrs vis guard)
    · exact yields_fail
  refine yields_ite (hsome (hmod _ _ _)) ?_
  refine yields_ite (hother (gives_typeAlias? _ _ _ _)) ?_
  refine yields_ite (hother (gives_some (gives_structItem _ _))) ?_
  refine yields_ite (hother (gives_some (gives_enumItem _ _))) ?_
  refine yields_ite (hother (gives_some (gives_unionItem _ _))) ?_
  refine yields_ite (hsome (htrait _ _ _ _)) ?_
  refine yields_ite (yields_seq fun auto => hsome (htrait attrs vis .absent auto)) ?_
  refine yields_ite (hother (gives_implItem? _ _)) ?_
  refine yields_ite (yields_seq fun _ => yields_pure ifSome_none) ?_
  exact yields_ite (hother (gives_some (gives_callItem _ _))) yields_fail

/-- An item has names that pass. -/
theorem yields_item? (hpattern : Yields (AllWords P) (rules .pattern) (BindsName P))
    (hitem : Yields (AllWords P) (rules .item) (ItemNamed P)) :
    Yields (AllWords P) (item? rules) (IfSome (ItemNamed P)) :=
  yields_item?_of (fun _ => Unnamed.item) (yields_useItem? fun _ => .other rfl rfl)
    (yields_traitItem hpattern) (yields_modItem hitem)

end

/-! ## Rules and files -/

theorem yields_toDepth_pattern (depth : Nat) :
    Yields (AllWords P) (toDepth depth .pattern) (BindsName P) := by
  cases depth with
  | zero => exact yields_fail
  | succ depth => exact yields_pattern

/-- At every depth items have names that pass. -/
theorem yields_toDepth_item (depth : Nat) :
    Yields (AllWords P) (toDepth depth .item) (ItemNamed P) := by
  induction depth with
  | zero => exact yields_fail
  | succ depth ih =>
    exact yields_orVerbatim (yields_item? (yields_toDepth_pattern depth) ih) fun _ => .other rfl rfl

end Grammar

/-- The items of a source file are as `Q` says, if items are so at every depth where the words ahead
are identifiers. -/
theorem forall_mem_readFile {text : String} {trees : List Tree} {Q : Tree → Prop}
    (hitem : ∀ depth, Parser.Yields (AllWords fun w => Emit.isIdentifier w = true)
      (Grammar.toDepth depth .item) Q)
    (h : readFile text = .ok trees) : ∀ t ∈ trees.drop 1, Q t := by
  unfold readFile readText at h
  cases htokens : tokenize (String.ofList (withoutInterpreter (withoutMark text.toList))) with
  | error pos =>
    rw [htokens] at h
    cases h
  | ok ts =>
    rw [htokens] at h
    dsimp only at h
    cases hread : readTokens Grammar.file ts with
    | error pos =>
      rw [hread] at h
      cases h
    | ok trees' =>
      rw [hread] at h
      cases h
      obtain ⟨close, hrun⟩ := Parser.runAll_eq_ok.1 hread
      have hfile : Parser.Yields (AllWords fun w => Emit.isIdentifier w = true)
          (Grammar.file (Grammar.toDepth (Grammar.depthFor ts)))
          fun trees => ∀ t ∈ trees.drop 1, Q t :=
        Parser.yields_seq fun attrs =>
          (Parser.yields_manyUntil (hitem _)).bind fun items hitems => Parser.yields_pure hitems
      exact (hfile (tokenize_words htokens) hrun).1

/-- The names in a source file are identifiers. -/
theorem readFile_named {text : String} {trees : List Tree} (h : readFile text = .ok trees) :
    ∀ t ∈ trees.drop 1, t.ItemNamed fun w => Emit.isIdentifier w = true :=
  forall_mem_readFile Grammar.yields_toDepth_item h

end Source

end TypedSettings
