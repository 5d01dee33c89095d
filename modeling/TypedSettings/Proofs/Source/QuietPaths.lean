import TypedSettings.Proofs.Source.Quiet

/-!
Paths and types are quiet. Their productions take quiet tokens alone, one after the other, and what
they give holds the same tokens. Only the rules for types, bounds and blocks occur in them outside
of brackets, so these three are followed from depth to depth.

* `HushedRules`: what the productions ask of the rules.
* `hushed_path`, `hushed_bound`, `hushed_type`: one lemma for each production.
* `hushed_toDepth`: the rules at every depth.
* `readPath_quiet`: the tokens of a path are quiet.
-/

namespace TypedSettings.Source

namespace Grammar

open TypedSettings.Source.Parser TypedSettings.Source.Tree Token

/-- The rules that paths and types use outside of brackets give quiet trees. -/
structure HushedRules (rules : Rules) : Prop where
  type : ∀ plus, Hushed (rules (.type plus)) Tree.Quiet
  bound : ∀ captures const, Hushed (rules (.bound captures const)) Tree.Quiet
  block : ∀ inner, Hushed (rules (.block inner)) Tree.Quiet

variable {rules : Rules}

/-! ## Attributes and arguments -/

theorem hushed_outerAttributes : Hushed (outerAttributes rules) Tree.Quiet := by
  have hone : Hushed (oneAttribute rules false) Tree.Quiet :=
    hushed_op.bind fun pound hpound => (hushed_pure quiet_absent).bind fun bang hbang =>
      hushed_group.bind fun body hbody => hushed_pure (by simp [hpound, hbang, hbody])
  exact (hushed_manyUntil hone).bind fun attrs hattrs => hushed_pure (by simpa using hattrs)

theorem hushed_constArgument (h : HushedRules rules) :
    Hushed (constArgument rules) Tree.Quiet := by
  refine hushed_look fun _ => hushed_ite ?_ (hushed_look fun _ => hushed_ite ?_ ?_)
  · exact hushed_literal.bind fun l hl => hushed_pure (by simp [hl])
  · exact hushed_ident.bind fun name hname => hushed_pure (by simp [hname])
  · refine hushed_look fun _ => hushed_ite ?_ hushed_fail
    exact (h.block true).bind fun block hblock => hushed_pure (by simp [hblock])

theorem hushed_boundsAfterColon (h : HushedRules rules) {stop : List Token → Bool} :
    Hushed (boundsAfterColon rules stop) Tree.Quiet :=
  (hushed_chained (h.bound false true)).bind fun bounds hbounds =>
    hushed_pure (by simpa using hbounds)

/-- The parts of a type that is one plain segment are parts of it. -/
theorem onlySegment?_quiet {ty name args : Tree} (h : onlySegment? ty = some (name, args))
    (hty : ty.Quiet) : name.Quiet ∧ args.Quiet := by
  unfold onlySegment? at h
  split at h
  · split at h
    · cases h
      simpa [quiet_nil] using hty
    · cases h
  · cases h

theorem hushed_genericArgument (h : HushedRules rules) :
    Hushed (genericArgument rules) Tree.Quiet := by
  have hvalue := hushed_constArgument h
  refine hushed_look fun _ => hushed_ite ?_ (hushed_look fun _ => hushed_look fun _ => ?_)
  · exact hushed_lifetime.bind fun l hl => hushed_pure (by simp [hl])
  refine hushed_ite hvalue ((h.type true).bind fun ty hty => ?_)
  split
  · exact hushed_pure hty
  · next name args honly =>
    obtain ⟨hname, hargs⟩ := onlySegment?_quiet honly hty
    refine hushed_look fun _ => hushed_ite (hushed_op.bind fun eq heq => ?_) ?_
    · refine hushed_look fun _ => hushed_look fun _ => hushed_ite ?_ ?_
      · exact hvalue.bind fun v hv => hushed_pure (by simp [hname, hargs, heq, hv])
      · exact (h.type true).bind fun v hv => hushed_pure (by simp [hname, hargs, heq, hv])
    · refine hushed_look fun _ => hushed_ite ?_ (hushed_pure hty)
      refine hushed_op.bind fun colon hcolon => ?_
      exact (hushed_boundsAfterColon h).bind fun bounds hbounds =>
        hushed_pure (by simp [hname, hargs, hcolon, hbounds])

/-- To put lifetimes first changes the order of the arguments, and adds commas. -/
theorem allQuiet_lifetimesFirst {isLifetimeArg : Tree → Bool} {args : List Tree}
    (h : AllQuiet args) : AllQuiet (lifetimesFirst isLifetimeArg args) := by
  have hpairs : ∀ p ∈ lifetimesFirst.pairs args, p.1.Quiet ∧ ∀ sep ∈ p.2, sep.Quiet := by
    fun_induction lifetimesFirst.pairs args with
    | case1 => nofun
    | case2 t => simpa using h
    | case3 t sep rest ih =>
      obtain ⟨ht, hsep, hrest⟩ : t.Quiet ∧ sep.Quiet ∧ AllQuiet rest := by simpa using h
      simpa [ht, hsep] using ih hrest
  have hjoin : ∀ ps : List (Tree × Option Tree), (∀ p ∈ ps, p.1.Quiet ∧ ∀ sep ∈ p.2, sep.Quiet) →
      AllQuiet (lifetimesFirst.join ps) := by
    intro ps hps
    fun_induction lifetimesFirst.join ps with
    | case1 => exact allQuiet_nil
    | case2 t sep => cases sep <;> simpa using hps
    | case3 t sep rest _ ih =>
      rw [List.forall_mem_cons] at hps
      refine allQuiet_cons.2 ⟨hps.1.1, allQuiet_cons.2 ⟨?_, ih hps.2⟩⟩
      cases sep with
      | none => exact .run (quiet_operatorAt _ _)
      | some sep => exact hps.1.2 sep rfl
  refine hjoin _ fun p hp => hpairs p ?_
  exact (List.mem_append.1 hp).elim (List.mem_of_mem_filter ·) (List.mem_of_mem_filter ·)

theorem hushed_angleArgs (h : HushedRules rules) : Hushed (angleArgs rules) Tree.Quiet :=
  hushed_op?.bind fun turbofish hturbofish => hushed_op.bind fun lt hlt =>
    (hushed_separated (hushed_genericArgument h)).bind fun args hargs =>
      hushed_op.bind fun gt hgt => hushed_pure (by
        simp [hturbofish, hlt, hgt, allQuiet_lifetimesFirst hargs])

theorem hushed_result (h : HushedRules rules) {plus : Bool} :
    Hushed (result rules plus) Tree.Quiet := by
  refine hushed_look fun _ => hushed_ite ?_ (hushed_pure quiet_absent)
  exact hushed_op.bind fun arrow harrow => (h.type plus).bind fun ty hty =>
    hushed_pure (by simp [harrow, hty])

theorem hushed_parenArgs (h : HushedRules rules) : Hushed (parenArgs rules) Tree.Quiet :=
  hushed_group.bind fun args hargs => (hushed_result h).bind fun res hres =>
    hushed_pure (by simp [hargs, hres])

/-! ## Paths -/

theorem hushed_segment (h : HushedRules rules) {inExpr : Bool} :
    Hushed (segment rules inExpr) Tree.Quiet := by
  have hwords : ∀ t ts, (isWord "super" (t :: ts) || isWord "self" (t :: ts)
      || isWord "crate" (t :: ts) || isWord "try" (t :: ts)) = true → declares t = false := by
    intro t ts hword
    simp only [Bool.or_eq_true] at hword
    obtain ((hword | hword) | hword) | hword := hword <;>
      exact declares_of_isWord (by decide) hword
  have hrest : ∀ name : Tree, name.Quiet → Hushed (do
      let angle ← peek fun ts => isOp "<" ts && !isOp "<=" ts && !isOp "<<=" ts
      let turbofish ← peek fun ts => isOp "::" ts && isOp "<" (ts.drop 2)
      if (!inExpr && angle) || turbofish then return .node .segment [name, ← angleArgs rules]
      else return Tree.node .segment [name, .absent]) Tree.Quiet := by
    intro name hname
    refine hushed_look fun _ => hushed_look fun _ => hushed_ite ?_ (hushed_pure (by simp [hname]))
    exact (hushed_angleArgs h).bind fun args hargs => hushed_pure (by simp [hname, hargs])
  unfold segment
  refine hushed_anyWord hwords (fun t ht => hushed_pure (by simp [ht])) ?_
  refine hushed_anyWord (fun _ _ => declares_of_isWord (by decide)) hrest ?_
  exact hushed_ident.bind hrest

theorem hushed_path (h : HushedRules rules) {inExpr : Bool} :
    Hushed (path rules inExpr) Tree.Quiet := by
  have hmore : Hushed (moreSegments rules inExpr) AllQuiet := by
    refine hushed_repeating (hushed_look fun _ => hushed_ite ?_ (hushed_pure (by simp)))
    exact hushed_op.bind fun colons hcolons => (hushed_segment h).bind fun seg hseg =>
      hushed_pure (by simp [hcolons, hseg])
  exact hushed_op?.bind fun lead hlead => (hushed_segment h).bind fun first hfirst =>
    hmore.bind fun more hmore => hushed_pure (by simp [hlead, hfirst, hmore])

theorem hushed_withParenArgs (h : HushedRules rules) {base : Tree} (hbase : base.Quiet) :
    Hushed (withParenArgs rules base) Tree.Quiet := by
  refine hushed_op?.bind fun _ _ => (hushed_parenArgs h).bind fun args hargs => ?_
  split
  · next kind parts =>
    split
    · next name old hlast =>
      have hparts : AllQuiet parts := quiet_node.1 hbase
      have hseg := hparts _ (List.mem_of_getLast? hlast)
      have hinit : AllQuiet parts.dropLast := fun t ht => hparts t (List.dropLast_subset _ ht)
      exact hushed_pure (by simp_all)
    · exact hushed_pure hbase
  · exact hushed_pure hbase

theorem hushed_selfPath (h : HushedRules rules) {inExpr : Bool} :
    Hushed (selfPath rules inExpr) Tree.Quiet := by
  have hrest : Hushed (repeating do
      if ← peekOp "::" then return some [← op "::", ← segment rules inExpr] else return none)
      AllQuiet := by
    refine hushed_repeating (hushed_look fun _ => hushed_ite ?_ (hushed_pure (by simp)))
    exact hushed_op.bind fun colons hcolons => (hushed_segment h).bind fun seg hseg =>
      hushed_pure (by simp [hcolons, hseg])
  refine hushed_look fun _ => hushed_ite ?_ (hushed_path h)
  refine hushed_op.bind fun lt hlt => (h.type true).bind fun ty hty => ?_
  refine (hushed_keyword? (by decide)).bind fun as' has => ?_
  refine hushed_either (hushed_pure quiet_absent) (hushed_path h) fun base hbase => ?_
  refine hushed_op.bind fun gt hgt => hushed_op.bind fun colons hcolons => ?_
  exact (hushed_segment h).bind fun first hfirst => hrest.bind fun rest hrest =>
    hushed_pure (by simp [hlt, hty, has, hbase, hgt, hcolons, hfirst, hrest])

theorem hushed_invocationAfter {base : Tree} (hbase : base.Quiet) :
    Hushed (invocationAfter base) Tree.Quiet :=
  hushed_op.bind fun bang hbang => hushed_rawGroup.bind fun body hbody =>
    hushed_pure (by simp [hbase, hbang, hbody])

theorem hushed_builtinCall : Hushed builtinCall Tree.Quiet := by
  refine hushed_verbatim ((hushed_keyword (by decide)).bind fun _ _ => hushed_op.bind fun _ _ => ?_)
  refine hushed_ident.bind fun _ _ => hushed_look fun _ => hushed_ite ?_ hushed_fail
  exact hushed_rawGroup.imp fun _ _ => trivial

/-! ## Generic parameters -/

theorem withColon_quiet {colon bounds : Tree} (hcolon : colon.Quiet) (hbounds : bounds.Quiet) :
    (withColon colon bounds).1.Quiet ∧ (withColon colon bounds).2.Quiet := by
  unfold withColon
  split
  · exact ⟨quiet_absent, quiet_absent⟩
  · exact ⟨hcolon, hbounds⟩

theorem hushed_lifetimeBounds {stop : List Token → Bool} :
    Hushed (lifetimeBounds stop) Tree.Quiet := by
  refine (hushed_chained ?_).bind fun bounds hbounds => hushed_pure (by simpa using hbounds)
  exact hushed_lifetime.bind fun l hl => hushed_pure (by simp [hl])

theorem hushed_genericParam (h : HushedRules rules) : Hushed (genericParam rules) Tree.Quiet := by
  refine hushed_outerAttributes.bind fun attrs hattrs => hushed_look fun _ => hushed_ite ?_ ?_
  · refine hushed_lifetime.bind fun l hl => hushed_op?.bind fun colon hcolon => ?_
    refine hushed_either (hushed_pure quiet_absent) hushed_lifetimeBounds fun bounds hbounds => ?_
    dsimp only
    have hboth := withColon_quiet hcolon hbounds
    generalize withColon colon bounds = both at hboth ⊢
    obtain ⟨colon, bounds⟩ := both
    exact hushed_pure (by simp [hattrs, hl, hboth])
  refine hushed_look fun _ => hushed_ite ?_ (hushed_look fun _ => hushed_ite ?_ hushed_fail)
  · refine hushed_ident.bind fun name hname => hushed_op?.bind fun colon hcolon => ?_
    refine hushed_either (hushed_pure quiet_absent) (hushed_boundsAfterColon h)
      fun bounds hbounds => ?_
    dsimp only
    have hboth := withColon_quiet hcolon hbounds
    generalize withColon colon bounds = both at hboth ⊢
    obtain ⟨colon, bounds⟩ := both
    refine hushed_op?.bind fun eq heq => ?_
    refine hushed_either (hushed_pure quiet_absent) (h.type true) fun default hdefault => ?_
    exact hushed_pure (by simp [hattrs, hname, hboth, heq, hdefault])
  · refine (hushed_keyword (by decide)).bind fun const hconst => ?_
    refine hushed_ident.bind fun name hname => hushed_op.bind fun colon hcolon =>
      (h.type true).bind fun ty hty => ?_
    refine hushed_op?.bind fun eq heq => ?_
    refine hushed_either (hushed_pure quiet_absent) (hushed_constArgument h) fun default hdef => ?_
    exact hushed_pure (by simp [hattrs, hconst, hname, hcolon, hty, heq, hdef])

theorem hushed_forParams? (h : HushedRules rules) : Hushed (forParams? rules) Tree.Quiet := by
  refine hushed_look fun _ => hushed_ite ?_ (hushed_pure quiet_absent)
  refine (hushed_keyword (by decide)).bind fun word hword => hushed_op.bind fun lt hlt => ?_
  exact (hushed_separated (hushed_genericParam h)).bind fun params hparams =>
    hushed_op.bind fun gt hgt => hushed_pure (by simp [hword, hlt, hparams, hgt])

/-! ## Bounds -/

theorem hushed_capture : Hushed capture Tree.Quiet := by
  have hparam : Hushed (do
      if ← peek isLifetime then return Tree.node .lifetime [← lifetime]
      else if ← peekWord "Self" then anyWord
      else ident) Tree.Quiet := by
    refine hushed_look fun _ => hushed_ite ?_ ?_
    · exact hushed_lifetime.bind fun l hl => hushed_pure (by simp [hl])
    · have hpure : (anyWord : Parser Tree) = anyWord >>= pure := (bind_pure _).symm
      rw [hpure]
      exact hushed_anyWord (fun _ _ => declares_of_isWord (by decide)) (fun _ => hushed_pure)
        hushed_ident
  refine (hushed_keyword (by decide)).bind fun word hword => hushed_op.bind fun lt hlt => ?_
  exact (hushed_separated hparam).bind fun params hparams => hushed_op.bind fun gt hgt =>
    hushed_pure (by simp [hword, hlt, hgt, allQuiet_lifetimesFirst hparams])

theorem hushed_traitBound? (h : HushedRules rules) {const : Bool} :
    Hushed (traitBound? rules const) (Given Tree.Quiet) := by
  have hconst : Hushed boundConst Tree.Quiet :=
    hushed_look fun _ => hushed_ite hushed_group (hushed_keyword? (by decide))
  refine (hushed_forParams? h).bind fun params hparams => hconst.bind fun constness _ => ?_
  refine hushed_guard (hushed_op?.bind fun maybe hmaybe => hushed_look fun _ => hushed_guard ?_)
  refine (hushed_path h).bind fun base hbase => hushed_look fun _ => ?_
  refine hushed_either (hushed_withParenArgs h hbase) (hushed_pure hbase) fun base hbase => ?_
  exact hushed_ite (hushed_pure (by simp [hmaybe, hparams, hbase])) (hushed_pure given_none)

theorem hushed_bound (h : HushedRules rules) {captures const : Bool} :
    Hushed (bound rules captures const) Tree.Quiet := by
  refine hushed_look fun _ => hushed_ite ?_ (hushed_look fun _ => hushed_ite ?_ ?_)
  · exact hushed_lifetime.bind fun l hl => hushed_pure (by simp [hl])
  · exact hushed_ite hushed_capture hushed_fail
  · refine hushed_orVerbatim (hushed_look fun _ => hushed_ite ?_ (hushed_traitBound? h))
    refine hushed_group.bind fun body hbody => hushed_pure ?_
    split
    · exact given_none
    · simp [hbody]

theorem hushed_boundsWithTrait (h : HushedRules rules) {plus captures const : Bool} :
    Hushed (boundsWithTrait rules plus captures const) Tree.Quiet := by
  have hmore : ∀ n, Hushed (boundList.more rules plus captures const n) AllQuiet := by
    intro n
    induction n with
    | zero => exact hushed_pure allQuiet_nil
    | succ n ih =>
      rw [boundList.more]
      refine hushed_look fun _ => hushed_ite ?_ (hushed_pure allQuiet_nil)
      refine hushed_op.bind fun sep hsep => hushed_look fun _ => hushed_ite ?_ ?_
      · exact (h.bound captures const).bind fun b hb => ih.bind fun more hmore =>
          hushed_pure (by simp [hsep, hb, hmore])
      · exact hushed_pure (by simp [hsep])
  have hlist : Hushed (boundList rules plus captures const) Tree.Quiet :=
    (h.bound captures const).bind fun first hfirst => hushed_get fun _ =>
      (hmore _).bind fun more hmore => hushed_pure (by simp [hfirst, hmore])
  exact hlist.bind fun bounds hbounds => hushed_ite (hushed_pure hbounds) hushed_fail

theorem hushed_boundsAfter (h : HushedRules rules) {first : Tree} (hfirst : first.Quiet) :
    Hushed (boundsAfter rules first) Tree.Quiet := by
  refine (hushed_repeating (hushed_look fun _ => hushed_ite ?_ (hushed_pure given_none))).bind
    fun rest hrest => hushed_pure (by simp [hfirst, hrest])
  exact hushed_op.bind fun sep hsep => (h.bound false false).bind fun b hb =>
    hushed_pure (by simp [hsep, hb])

/-! ## Types -/

theorem hushed_functionType (h : HushedRules rules) {params : Tree} (hparams : params.Quiet) :
    Hushed (functionType rules params) Tree.Quiet := by
  have htext : ∀ t ts, isTextLiteral (t :: ts) = true → declares t = false := by
    intro t ts htext
    cases t with
    | word w pos => cases htext
    | _ => rfl
  have habi : Hushed abi? Tree.Quiet := by
    refine hushed_look fun _ => hushed_ite ?_ (hushed_pure quiet_absent)
    refine (hushed_keyword (by decide)).bind fun word hword => ?_
    refine hushed_raw_bind htext (fun text htext => hushed_pure ?_) (hushed_pure hword)
    exact .run (hword.tokens.append htext.tokens)
  refine (hushed_keyword? (by decide)).bind fun guard hguard => habi.bind fun abi habi => ?_
  refine (hushed_keyword (by decide)).bind fun fn hfn => hushed_group.bind fun args hargs => ?_
  exact hushed_guard ((hushed_result h).bind fun res hres =>
    hushed_pure (by simp [hparams, hguard, habi, hfn, hargs, hres]))

theorem hushed_parenType (h : HushedRules rules) {plus : Bool} :
    Hushed (parenType rules plus) Tree.Quiet := by
  have htypes : Gives AllQuiet (commaList (rules (.type true))) :=
    fun _ _ _ hok => (hushed_separated (h.type true) hok).2
  -- the tokens ahead decide, and an empty pair of parentheses is taken as it stands
  intro c t c' hok
  unfold parenType at hok
  rw [get_bind] at hok
  rcases hc : c.rest with _ | ⟨token, rest⟩
  · rw [hc] at hok
    cases hok
  cases token with
  | group d body pos close =>
    cases d with
    | paren =>
      cases body with
      | nil =>
        simp only [hc] at hok
        rw [set_bind] at hok
        obtain ⟨rfl, rfl⟩ := run_pure_eq_ok.1 hok
        exact ⟨⟨[_], rfl, quiet_of_forall (by simp [declares])⟩, by simp⟩
      | cons first more =>
        simp only [hc] at hok
        rw [← hc]
        revert hok
        refine fun hok => (?_ : Hushed _ Tree.Quiet) hok
        refine hushed_ite ?_ (hushed_ite ?_ ?_)
        · exact hushed_group.bind fun body hbody => hushed_pure (by simp [hbody])
        · refine hushed_group.bind fun first hfirst => ?_
          exact (hushed_boundsAfter h (by simp [hfirst])).bind fun bounds hbounds =>
            hushed_pure (by simp [hbounds])
        refine (hushed_group_of htypes).bind fun inner hinside => ?_
        obtain ⟨hinner, hparts⟩ := hinside
        split
        · next ty hty =>
          rw [hty, allQuiet_cons] at hparts
          -- a bound that stands alone may be taken out of the parentheses
          split
          · next b halone =>
            have hb : b.Quiet := by
              split at halone <;> cases halone <;> simp_all
            refine hushed_look fun _ => hushed_ite ?_ (hushed_pure (by simp [hinner]))
            refine (hushed_boundsAfter h ?_).bind fun bounds hbounds =>
              hushed_pure (by simp [hbounds])
            split
            · exact hb
            · split <;> simp [hinner]
          · exact hushed_pure (by simp [hinner])
        · exact hushed_pure (by simp [hinner])
    | _ =>
      rw [hc] at hok
      cases hok
  | _ =>
    rw [hc] at hok
    cases hok

theorem hushed_pathType (h : HushedRules rules) {params : Tree} (hparams : params.Quiet)
    {plus : Bool} : Hushed (pathType rules params plus) Tree.Quiet := by
  refine (hushed_selfPath h).bind fun base hbase => hushed_ite (hushed_pure (by simp [hbase])) ?_
  refine hushed_look fun _ => hushed_ite ?_ (hushed_look fun _ => hushed_ite ?_ ?_)
  · exact (hushed_invocationAfter hbase).bind fun call hcall => hushed_pure (by simp [hcall])
  · refine (hushed_repeating (hushed_look fun _ => hushed_ite ?_ (hushed_pure given_none))).bind
      fun rest hrest => hushed_pure (by simp [hparams, hbase, hrest])
    refine hushed_op.bind fun sep hsep => hushed_look fun _ => hushed_ite ?_ ?_
    · exact (h.bound false false).bind fun b hb => hushed_pure (by simp [hsep, hb])
    · exact hushed_pure (by simp [hsep])
  · exact hushed_pure (by simp [hbase])

theorem hushed_type (h : HushedRules rules) {plus : Bool} :
    Hushed (type rules plus) Tree.Quiet := by
  have hsome {p : Parser Tree} (hp : Hushed p Tree.Quiet) :
      Hushed (some <$> p) (Given Tree.Quiet) :=
    Hushed.map (hp.imp fun _ => given_some.2)
  refine hushed_orVerbatim ((hushed_forParams? h).bind fun params hparams => ?_)
  refine hushed_look fun _ => hushed_guard (hushed_look fun _ => ?_)
  -- one step for each way in which a type may start
  refine hushed_ite (hsome (hushed_parenType h)) (hushed_look fun _ => ?_)
  refine hushed_ite (hsome (hushed_functionType h hparams)) (hushed_look fun _ => ?_)
  refine hushed_ite (hushed_builtinCall.bind fun _ _ => hushed_pure given_none) ?_
  refine hushed_look fun _ => hushed_ite (hsome (hushed_pathType h hparams)) ?_
  refine hushed_look fun _ => hushed_ite ?dyn (hushed_look fun _ => hushed_ite ?slice ?_)
  case dyn =>
    refine (hushed_keyword (by decide)).bind fun dyn hdyn => hushed_op?.bind fun star _ => ?_
    refine (hushed_boundsWithTrait h).bind fun bounds hbounds => hushed_pure ?_
    split
    · simp [hdyn, hbounds]
    · exact given_none
  case slice => exact hushed_group.bind fun body hbody => hushed_pure (by simp [hbody])
  refine hushed_look fun _ => hushed_ite ?pointer (hushed_look fun _ => hushed_ite ?ref ?_)
  case pointer =>
    refine hushed_op.bind fun star hstar => hushed_look fun _ => ?_
    refine hushed_either (hushed_keyword (by decide)) (hushed_keyword (by decide))
      fun word hword => ?_
    exact (h.type false).bind fun ty hty => hushed_pure (by simp [hstar, hword, hty])
  case ref =>
    refine hushed_op.bind fun amp hamp => hushed_lifetime?.bind fun l hl => ?_
    exact (hushed_keyword? (by decide)).bind fun mut' hmut => (h.type false).bind fun ty hty =>
      hushed_pure (by simp [hamp, hl, hmut, hty])
  refine hushed_look fun _ => hushed_ite ?never (hushed_look fun _ => hushed_ite ?impl ?_)
  case never => exact hushed_op.bind fun bang hbang => hushed_pure (by simp [hbang])
  case impl =>
    exact (hushed_keyword (by decide)).bind fun word hword =>
      (hushed_boundsWithTrait h).bind fun bounds hbounds => hushed_pure (by simp [hword, hbounds])
  refine hushed_anyWord (fun _ _ => declares_of_isWord (by decide))
    (fun word hword => hushed_pure (by simp [hword])) ?_
  refine hushed_look fun _ => hushed_ite ?_ hushed_fail
  exact (hushed_boundsWithTrait h).bind fun bounds hbounds => hushed_pure (by simp [hbounds])

/-! ## Every depth -/

theorem hushed_block {inner : Bool} : Hushed (block rules inner) Tree.Quiet :=
  hushed_group.bind fun body hbody => hushed_pure (by simp [hbody])

theorem hushed_toDepth (depth : Nat) : HushedRules (toDepth depth) := by
  induction depth with
  | zero => exact ⟨fun _ => hushed_fail, fun _ _ => hushed_fail, fun _ => hushed_fail⟩
  | succ depth ih =>
    exact ⟨fun _ => hushed_type ih, fun _ _ => hushed_bound ih, fun _ => hushed_block⟩

end Grammar

/-- No trait and no module starts in the tokens of a path. -/
theorem readPath_quiet {text : String} {tree : Tree} (h : readPath text = .ok tree) :
    Token.Quiet tree.tokens := by
  unfold readPath readText at h
  split at h
  · cases h
  · next ts hts =>
    split at h
    · next hread =>
      cases h
      obtain ⟨close, hrun⟩ := Parser.runAll_eq_ok.1 hread
      exact (Grammar.hushed_path (Grammar.hushed_toDepth _) hrun).2.tokens
    · cases h

end TypedSettings.Source
