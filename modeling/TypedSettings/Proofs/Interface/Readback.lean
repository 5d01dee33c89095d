import TypedSettings.Proofs.Interface.Segments
import TypedSettings.Unit.Target

/-!
The tokens that spell a plain type are read as that type, at any depth that they fit in, unless a
reference leads to a sum of bounds that no parentheses hold together.

* `arguments_read`: the arguments of a path, one after the other.
* `type_read`: what the tokens that spell a type are read as.
* `readType_textWith`: a text of a type is read as the type.
* `readType_text`: the words and signs of a type made of names are those of the tree of its text.
-/

namespace TypedSettings

open Source Token Parser Grammar

namespace TypeRef

variable {rules : Rules} {parens : Bool}

/-! ## Arguments -/

/-- What may follow a type that is an argument, or that names what is constrained. -/
def afterArgument (rules : Rules) (ty : Tree) : Parser Tree := do
  match onlySegment? ty with
  | none => return ty
  | some (name, args) =>
    if ← peekOp "=" then
      let eq ← op "="
      if (← peekLiteral) || (← peekGroup .brace) then
        return .node .assocConst [name, args, eq, ← constArgument rules]
      else return .node .assocType [name, args, eq, ← rules (.type true)]
    else if ← peekOp ":" then
      let colon ← op ":"
      let bounds ← boundsAfterColon rules fun ts => isOp "," ts || isOp ">" ts
      return .node .constraint [name, args, colon, bounds]
    else return ty

theorem afterArgument_stop {c : Cursor} (heq : Token.isOp "=" c.rest = false)
    (hcolon : Token.isOp ":" c.rest = false) (ty : Tree) :
    afterArgument rules ty c = .ok (ty, c) := by
  unfold afterArgument
  cases onlySegment? ty with
  | none => rfl
  | some segment =>
    show (peekOp "=" >>= _) _ = _
    rw [peekOp, peek_bind]
    refine (congrFun (if_neg (Bool.eq_false_iff.1 heq)) _).trans ?_
    rw [peekOp, peek_bind]
    exact congrFun (if_neg (Bool.eq_false_iff.1 hcolon)) _

theorem genericArgument_opens {u : Token} (hu : Opens u) (us : List Token) (close : Position) :
    genericArgument rules ⟨u :: us, close⟩
      = (rules (.type true) >>= afterArgument rules) ⟨u :: us, close⟩ := by
  rw [genericArgument, peek_bind]
  refine (congrFun (if_neg (by rw [hu.isLifetime]; exact Bool.false_ne_true)) _).trans ?_
  rw [peekLiteral, peek_bind]
  show (peekGroup .brace >>= _) _ = _
  rw [peekGroup, peek_bind]
  refine congrFun (if_neg ?_) _
  show ¬((Literal.read? (u :: us)).isSome || Token.isGroup .brace (u :: us)) = true
  rw [hu.literal, hu.isGroup (d := .brace) rfl]
  exact Bool.false_ne_true

theorem genericArgument_type {u : Token} (hu : Opens u) {us rest : List Token} {close : Position}
    (hrest : Ends argumentEnds rest) {tree : Tree}
    (h : rules (.type true) ⟨u :: us, close⟩ = .ok (tree, ⟨rest, close⟩)) :
    genericArgument rules ⟨u :: us, close⟩ = .ok (tree, ⟨rest, close⟩) := by
  rw [genericArgument_opens hu, run_bind_of_ok h]
  exact afterArgument_stop (isOp_ends (c := '=') rfl (by decide) hrest)
    (isOp_ends (c := ':') rfl (by decide) hrest) tree

/-- One round of the arguments between angle brackets. -/
def argumentStep (rules : Rules) : Parser (Option (List Tree)) := do
  if ← peek (isOp ">") then return none
  let t ← genericArgument rules
  if ← peek (isOp ">") then return some [t]
  return some [t, ← op ","]

/-- The tokens are read as the type, whatever may follow it. -/
def Reads (rules : Rules) (parens plus : Bool) (t : TypeRef) (us : List Token) : Prop :=
  ∀ {rest : List Token} (close : Position), Ends argumentEnds rest →
    ∃ tree, rules (.type plus) ⟨us ++ rest, close⟩ = .ok (tree, ⟨rest, close⟩) ∧
      Shapes parens t tree

theorem SpellsMore.ends {ts : List TypeRef} {ws : List Token} (h : SpellsMore parens ts ws)
    (next : List Token) : Ends argumentEnds (ws ++ next) := by
  cases ts with
  | nil =>
    rw [SpellsMore] at h
    obtain ⟨joint, pos, rfl⟩ := h
    rintro u ⟨⟩
    exact ⟨'>', by decide, joint, pos, rfl⟩
  | cons t ts =>
    rw [SpellsMore] at h
    obtain ⟨joint, pos, vs, ws, rfl, -⟩ := h
    rintro u ⟨⟩
    exact ⟨',', by decide, joint, pos, rfl⟩

theorem argumentStep_close (joint : Bool) (pos close : Position) (next : List Token) :
    argumentStep rules ⟨.sign '>' joint pos :: next, close⟩
      = .ok (none, ⟨.sign '>' joint pos :: next, close⟩) := rfl

/-- The last argument, which the closing bracket follows. -/
theorem argumentStep_last {c : Cursor} {joint : Bool} {pos close : Position} {next : List Token}
    {tree : Tree} (hc : Token.isOp ">" c.rest = false)
    (h : genericArgument rules c = .ok (tree, ⟨.sign '>' joint pos :: next, close⟩)) :
    argumentStep rules c = .ok (some [tree], ⟨.sign '>' joint pos :: next, close⟩) := by
  rw [argumentStep, peek_bind]
  refine (congrFun (if_neg (by rw [hc]; nofun)) _).trans ?_
  rw [run_bind_of_ok h]
  rfl

/-- An argument that a comma follows. -/
theorem argumentStep_comma {c : Cursor} {joint : Bool} {pos close : Position} {next : List Token}
    {tree : Tree} (hc : Token.isOp ">" c.rest = false)
    (h : genericArgument rules c = .ok (tree, ⟨.sign ',' joint pos :: next, close⟩)) :
    argumentStep rules c = .ok (some [tree, .run [.sign ',' false pos]], ⟨next, close⟩) := by
  rw [argumentStep, peek_bind]
  refine (congrFun (if_neg (by rw [hc]; nofun)) _).trans ?_
  rw [run_bind_of_ok h]
  rfl

/-- An argument is read as its type is. -/
theorem argument_read {t : TypeRef} (ht : t.Plain) {us : List Token} (hus : Spells parens t us)
    (h : Reads rules parens true t us) (close : Position) {rest : List Token}
    (hrest : Ends argumentEnds rest) :
    Token.isOp ">" (us ++ rest) = false ∧
      ∃ tree, genericArgument rules ⟨us ++ rest, close⟩ = .ok (tree, ⟨rest, close⟩) ∧
        Shapes parens t tree := by
  obtain ⟨tree, htree, hshapes⟩ := h close hrest
  obtain ⟨u, us, rfl, hu⟩ := hus.opens ht
  exact ⟨hu.isOp (c := '>') rfl (by decide) _, tree, genericArgument_type hu hrest htree, hshapes⟩

/-- Every type is read from tokens that spell it, up to a number of tokens. -/
def ReadsAll (rules : Rules) (parens : Bool) (n : Nat) (ts : List TypeRef) : Prop :=
  ∀ t ∈ ts, t.Plain ∧
    ∀ {us : List Token}, Spells parens t us → Token.count us ≤ n → Reads rules parens true t us

/-- The arguments up to the closing bracket. -/
theorem arguments_read {n : Nat} {t : TypeRef} {ts : List TypeRef}
    (h : ReadsAll rules parens n (t :: ts)) {vs ws : List Token} (hvs : Spells parens t vs)
    (hws : SpellsMore parens ts ws) (hn : Token.count (vs ++ ws) ≤ n) (close : Position)
    (next : List Token) :
    ∃ tree more joint pos,
      (∀ fuel, ts.length + 2 ≤ fuel → repeatFuel (argumentStep rules) fuel
        ⟨vs ++ (ws ++ next), close⟩ = .ok (tree :: more, ⟨.sign '>' joint pos :: next, close⟩)) ∧
      Shapes parens t tree ∧ ShapesMore parens ts more := by
  induction ts generalizing t vs ws with
  | nil =>
    rw [Token.count_append] at hn
    obtain ⟨ht, hread⟩ := h t List.mem_cons_self
    obtain ⟨hopen, tree, htree, hshapes⟩ :=
      argument_read ht hvs (hread hvs (by omega)) close (hws.ends next)
    rw [SpellsMore] at hws
    obtain ⟨joint, pos, rfl⟩ := hws
    refine ⟨tree, [], joint, pos, fun fuel hfuel => ?_, hshapes, by rw [ShapesMore]⟩
    obtain ⟨fuel, rfl⟩ := Nat.exists_eq_add_of_le' hfuel
    exact repeatFuel_some (argumentStep_last hopen htree)
      (repeatFuel_none fuel (argumentStep_close joint pos close next))
  | cons t' ts ih =>
    rw [Token.count_append] at hn
    obtain ⟨⟨ht, hread⟩, hts⟩ := List.forall_mem_cons.1 h
    obtain ⟨hopen, tree, htree, hshapes⟩ :=
      argument_read ht hvs (hread hvs (by omega)) close (hws.ends next)
    rw [SpellsMore] at hws
    obtain ⟨joint', pos', vs', ws', rfl, hvs', hws'⟩ := hws
    rw [count_sign] at hn
    obtain ⟨tree', more, joint, pos, hmore, htree', hmores⟩ := ih hts hvs' hws' (by omega)
    refine ⟨tree, .run [.sign ',' false pos'] :: tree' :: more, joint, pos, fun fuel hfuel => ?_,
      hshapes, ?_⟩
    · obtain ⟨fuel, rfl⟩ := Nat.exists_eq_add_of_le' (Nat.le_of_add_left_le hfuel)
      rw [List.length_cons] at hfuel
      rw [List.cons_append, List.append_assoc] at htree hopen ⊢
      exact repeatFuel_some (argumentStep_comma hopen htree) (hmore _ (by omega))
    · rw [ShapesMore]
      exact ⟨pos', tree', more, rfl, htree', hmores⟩

theorem pairs_join (args : List Tree) :
    lifetimesFirst.join (lifetimesFirst.pairs args) = args := by
  induction args using lifetimesFirst.pairs.induct with
  | case1 => rfl
  | case2 t => rfl
  | case3 t sep rest ih =>
    rw [lifetimesFirst.pairs]
    cases rest with
    | nil => rfl
    | cons t' rest =>
      cases rest <;> simp_all [lifetimesFirst.pairs, lifetimesFirst.join]

theorem mem_of_mem_pairs {args : List Tree} {p : Tree × Option Tree}
    (h : p ∈ lifetimesFirst.pairs args) : p.1 ∈ args := by
  induction args using lifetimesFirst.pairs.induct with
  | case1 => cases h
  | case2 t =>
    rw [lifetimesFirst.pairs, List.mem_singleton] at h
    exact h ▸ List.mem_cons_self
  | case3 t sep rest ih =>
    rw [lifetimesFirst.pairs, List.mem_cons] at h
    obtain rfl | h := h
    · exact List.mem_cons_self
    · exact List.mem_cons_of_mem _ (List.mem_cons_of_mem _ (ih h))

/-- Arguments without lifetimes keep their order. -/
theorem lifetimesFirst_of_none {isLifetimeArg : Tree → Bool} {args : List Tree}
    (h : ∀ t ∈ args, isLifetimeArg t = false) : lifetimesFirst isLifetimeArg args = args := by
  rw [lifetimesFirst, List.filter_eq_nil_iff.2, List.filter_eq_self.2, List.nil_append, pairs_join]
  · intro p hp
    rw [h p.1 (mem_of_mem_pairs hp)]
    rfl
  · intro p hp
    rw [h p.1 (mem_of_mem_pairs hp)]
    nofun

theorem SpellsMore.length_le {ts : List TypeRef} {ws : List Token} (h : SpellsMore parens ts ws) :
    ts.length + 1 ≤ ws.length := by
  induction ts generalizing ws with
  | nil =>
    rw [SpellsMore] at h
    obtain ⟨joint, pos, rfl⟩ := h
    exact Nat.le_refl 1
  | cons t ts ih =>
    rw [SpellsMore] at h
    obtain ⟨joint, pos, vs, ws, rfl, -, hws⟩ := h
    have := ih hws
    simp only [List.length_cons, List.length_append]
    omega

/-- No argument is a lifetime. -/
theorem ShapesMore.not_lifetime {ts : List TypeRef} {trees : List Tree}
    (h : ShapesMore parens ts trees) : ∀ tree ∈ trees, tree.isKind .lifetime = false := by
  induction ts generalizing trees with
  | nil =>
    rw [ShapesMore] at h
    subst h
    nofun
  | cons t ts ih =>
    rw [ShapesMore] at h
    obtain ⟨pos, tree, more, rfl, htree, hmore⟩ := h
    exact List.forall_mem_cons.2 ⟨rfl, List.forall_mem_cons.2 ⟨htree.isTypeArgument.2, ih hmore⟩⟩

/-- Arguments in angle brackets. -/
theorem angleArgs_read {n : Nat} {t : TypeRef} {ts : List TypeRef}
    (h : ReadsAll rules parens n (t :: ts)) {us : List Token}
    (hus : SpellsArgs parens (t :: ts) us) (hn : Token.count us ≤ n) (close : Position)
    (next : List Token) :
    ∃ args, angleArgs rules ⟨us ++ next, close⟩ = .ok (args, ⟨next, close⟩) ∧
      ShapesArgs parens (t :: ts) args := by
  rw [SpellsArgs] at hus
  obtain ⟨joint, pos, vs, ws, rfl, hvs, hws⟩ := hus
  rw [count_sign] at hn
  obtain ⟨tree, more, joint', pos', hmore, htree, hmores⟩ :=
    arguments_read h hvs hws (by omega) close next
  have hargs : separated (Token.isOp ">") (genericArgument rules) ","
      ⟨vs ++ (ws ++ next), close⟩ = .ok (tree :: more, ⟨.sign '>' joint' pos' :: next, close⟩) := by
    refine hmore _ ?_
    have := hws.length_le
    obtain ⟨u, vs, rfl, -⟩ := hvs.opens (h t List.mem_cons_self).1
    simp only [List.length_cons, List.length_append]
    omega
  refine ⟨.node .angleArgs (.absent :: .run [.sign '<' false pos] ::
    lifetimesFirst (Tree.isKind .lifetime) (tree :: more) ++ [.run [.sign '>' false pos']]), ?_, ?_⟩
  · rw [angleArgs]
    refine (run_bind_of_ok (op?_of_not_isOp (isOp_sign (c := ':') rfl (by decide) _ _ _))).trans ?_
    refine (run_bind_of_ok (op_of_isOp rfl)).trans ?_
    show (separated _ _ _ >>= _) ⟨vs ++ ws ++ next, close⟩ = _
    rw [List.append_assoc]
    refine (run_bind_of_ok hargs).trans ?_
    exact (run_bind_of_ok (op_of_isOp rfl)).trans rfl
  · rw [lifetimesFirst_of_none
      (List.forall_mem_cons.2 ⟨htree.isTypeArgument.2, hmores.not_lifetime⟩), ShapesArgs]
    exact ⟨pos, pos', tree, more, rfl, htree, hmores⟩

/-! ## Types -/

/-- A type that starts with a path is that path when nothing else follows it. -/
theorem pathType_read {ts rest : List Token} (close : Position) (hrest : Ends argumentEnds rest)
    {parts : List Tree} (plus : Bool) (hopen : Token.isOp "<" ts = false)
    (h : Grammar.path rules false ⟨ts, close⟩ = .ok (.node .path parts, ⟨rest, close⟩)) :
    pathType rules .absent plus ⟨ts, close⟩
      = .ok (.node .typePath [.node .path parts], ⟨rest, close⟩) := by
  have hbang : Token.isOp "!" rest = false := isOp_ends (c := '!') rfl (by decide) hrest
  have hplus : Token.isOp "+" rest = false := isOp_ends (c := '+') rfl (by decide) hrest
  have hself : selfPath rules false ⟨ts, close⟩ = .ok (.node .path parts, ⟨rest, close⟩) := by
    rw [selfPath, peekOp, peek_bind]
    exact (congrFun (if_neg (Bool.eq_false_iff.1 hopen)) _).trans h
  have hsum : (plus && Token.isOp "+" rest) = false := by rw [hplus, Bool.and_false]
  rw [pathType]
  refine (run_bind_of_ok hself).trans ?_
  refine (congrFun (if_neg Bool.false_ne_true) _).trans ?_
  rw [peek_bind]
  refine (congrFun (if_neg (by rw [hbang]; exact Bool.false_ne_true)) _).trans ?_
  rw [peekOp, peek_bind]
  exact congrFun (if_neg (Bool.eq_false_iff.1 hsum)) _

theorem type_unit (plus : Bool) (pos close close' : Position) (rest : List Token) :
    Grammar.type rules plus ⟨.group .paren [] pos close :: rest, close'⟩
      = .ok (.node .typeTuple [.group .paren [] pos close], ⟨rest, close'⟩) := rfl

/-- What follows the sign of a reference. -/
theorem type?_amp (plus joint : Bool) (pos close : Position) (us : List Token) :
    type? rules plus ⟨.sign '&' joint pos :: us, close⟩
      = (do
          let l ← lifetime?
          let mut' ← keyword? "mut"
          return some (Source.Tree.node .typeRef
            [.run [.sign '&' false pos], l, mut', ← rules (.type false)]) : Parser (Option Tree))
        ⟨us, close⟩ := rfl

theorem type_shared (plus joint : Bool) (pos close : Position) {u : Token} (hu : Opens u)
    {us : List Token} {inner : Tree} {c : Cursor}
    (h : rules (.type false) ⟨u :: us, close⟩ = .ok (inner, c)) :
    Grammar.type rules plus ⟨.sign '&' joint pos :: u :: us, close⟩
      = .ok (.node .typeRef [.run [.sign '&' false pos], .absent, .absent, inner], c) := by
  have hmut : Token.isWord "mut" (u :: us) = false := hu.isWord us (by decide) (by decide)
  refine orVerbatim_of_some ?_
  rw [type?_amp, run_bind_of_ok (lifetime?_of_not_isLifetime (hu.isLifetime us)),
    run_bind_of_ok (keyword?_of_not_isWord hmut)]
  exact (run_bind_of_ok h).trans rfl

theorem type_exclusive (plus joint : Bool) (pos pos' close : Position) {us : List Token}
    {inner : Tree} {c : Cursor} (h : rules (.type false) ⟨us, close⟩ = .ok (inner, c)) :
    Grammar.type rules plus ⟨.sign '&' joint pos :: .word "mut" pos' :: us, close⟩
      = .ok (.node .typeRef
          [.run [.sign '&' false pos], .absent, .run [.word "mut" pos'], inner], c) := by
  have hkeyword : keyword? "mut" ⟨.word "mut" pos' :: us, close⟩
      = .ok (.run [.word "mut" pos'], ⟨us, close⟩) := rfl
  refine orVerbatim_of_some ?_
  rw [type?_amp, run_bind_of_ok (lifetime?_of_not_isLifetime rfl), run_bind_of_ok hkeyword]
  exact (run_bind_of_ok h).trans rfl

theorem StartsName.startsPath {w : String} {pos : Position} (h : StartsName w)
    (us : List Token) : startsPath (.word w pos :: us) = true := by
  obtain h | h | h := h
  · have hident : isIdent (.word w pos :: us) = true := by
      rw [isIdent, h]
      rfl
    rw [Grammar.startsPath, hident]
    rfl
  · subst h
    rfl
  · simp only [pathWords, List.mem_cons, List.not_mem_nil, or_false] at h
    obtain rfl | rfl | rfl := h <;> rfl

/-- A type that starts with a name starts with a path. -/
theorem type?_name (plus : Bool) {w : String} {pos close : Position} (hw : StartsName w)
    {us : List Token} (hus : Token.isOp "#" us = false) :
    type? rules plus ⟨.word w pos :: us, close⟩
      = (some <$> pathType rules .absent plus) ⟨.word w pos :: us, close⟩ := by
  have hparams : forParams? rules ⟨.word w pos :: us, close⟩
      = .ok (.absent, ⟨.word w pos :: us, close⟩) := by
    rw [forParams?, peekWord, peek_bind]
    have hfor : Token.isWord "for" (.word w pos :: us) = false :=
      hw.isWord (by decide) (by decide) pos us
    exact congrFun (if_neg (Bool.eq_false_iff.1 hfor)) _
  have hfunction : startsFunction (.word w pos :: us) = false := by
    rw [startsFunction, hw.isWord (by decide) (by decide), hw.isWord (by decide) (by decide),
      hw.isWord (by decide) (by decide)]
    rfl
  have hbuiltin : startsBuiltin (.word w pos :: us) = false := by
    rw [startsBuiltin, Token.skip, hus, Bool.and_false]
    rintro _ _ _ _ _ ⟨⟩
  rw [type?, run_bind_of_ok hparams, peek_bind]
  refine (congrFun (if_neg Bool.false_ne_true) _).trans ?_
  show (peekGroup .paren >>= _) _ = _
  rw [peekGroup, peek_bind]
  refine (congrFun (if_neg Bool.false_ne_true) _).trans ?_
  rw [peek_bind]
  refine (congrFun (if_neg (Bool.eq_false_iff.1 hfunction)) _).trans ?_
  rw [peek_bind]
  refine (congrFun (if_neg (Bool.eq_false_iff.1 hbuiltin)) _).trans ?_
  rw [peek_bind]
  exact congrFun (if_pos (hw.startsPath us)) _

theorem type_path (plus : Bool) {w : String} {pos close : Position} (hw : StartsName w)
    {us rest : List Token} (hus : Token.isOp "#" us = false) (hrest : Ends argumentEnds rest)
    {parts : List Tree}
    (h : Grammar.path rules false ⟨.word w pos :: us, close⟩
      = .ok (.node .path parts, ⟨rest, close⟩)) :
    Grammar.type rules plus ⟨.word w pos :: us, close⟩
      = .ok (.node .typePath [.node .path parts], ⟨rest, close⟩) := by
  have hopen : Token.isOp "<" (.word w pos :: us) = false := isOp_word _ _ _ _ (by decide)
  refine orVerbatim_of_some ?_
  rw [type?_name plus hw hus]
  exact run_map_of_ok (pathType_read close hrest plus hopen h)

theorem opensArgs_lt {joint : Bool} {pos : Position} {u : Token} (hu : Opens u)
    (us : List Token) : opensArgs (.sign '<' joint pos :: u :: us) = true := by
  have heq : Token.isOp "<=" (.sign '<' joint pos :: u :: us)
      = (joint && Token.isOp "=" (u :: us)) := rfl
  have hshift : Token.isOp "<<=" (.sign '<' joint pos :: u :: us)
      = (joint && Token.isOp "<=" (u :: us)) := rfl
  have hlt : Token.isOp "<" (.sign '<' joint pos :: u :: us) = true := rfl
  rw [opensArgs, heq, hshift, hlt, hu.isOp (c := '=') rfl (by decide),
    hu.isOp (c := '<') rfl (by decide), Bool.and_false]
  rfl

/-- The last segment of a path is read with its arguments. -/
theorem lastSegment_read {n : Nat} {args : List TypeRef} (h : ReadsAll rules parens n args)
    {ws : List Token} (hws : SpellsArgs parens args ws) (hn : Token.count ws ≤ n) (close : Position)
    {rest : List Token} (hrest : Ends argumentEnds rest) :
    ∃ tree, (∀ {w}, IsSegment (args ≠ []) w → ∀ pos,
      segment rules false ⟨.word w pos :: (ws ++ rest), close⟩
        = .ok (.node .segment [.run [.word w pos], tree], ⟨rest, close⟩)) ∧
      ShapesArgs parens args tree := by
  cases args with
  | nil =>
    rw [SpellsArgs] at hws
    subst hws
    refine ⟨.absent, fun hw pos => segment_plain hw pos close (opensArgs_ends hrest.bound), ?_⟩
    rw [ShapesArgs]
  | cons t ts =>
    obtain ⟨tree, htree, hshapes⟩ := angleArgs_read h hws hn close rest
    refine ⟨tree, fun {w} hw pos => ?_, hshapes⟩
    have hopen : opensArgs (ws ++ rest) = true := by
      rw [SpellsArgs] at hws
      obtain ⟨joint, pos', vs, ws', rfl, hvs, -⟩ := hws
      obtain ⟨u, vs, rfl, hu⟩ := hvs.opens (h t List.mem_cons_self).1
      exact opensArgs_lt hu _
    have hname : isKeyword w = false ∨ w = "Self" :=
      hw.2.imp id fun h => h.resolve_right fun h => h.1 (List.cons_ne_nil _ _)
    rw [segment_name hname, if_pos hopen]
    exact (run_bind_of_ok htree).trans rfl

/-- What follows the first word of a path is no `#`. -/
theorem isOp_pound_path {w : String} {names : List String} {args : List TypeRef} {pos : Position}
    {vs ws rest : List Token} (hvs : SpellsNames (w :: names) (.word w pos :: vs))
    (hws : SpellsArgs parens args ws) (hrest : Ends argumentEnds rest) :
    Token.isOp "#" (vs ++ (ws ++ rest)) = false := by
  cases names with
  | cons w' names =>
    obtain ⟨_, _, _, _, _, hvs, -⟩ := hvs
    cases hvs
    exact isOp_sign (c := '#') rfl (by decide) _ _ _
  | nil =>
    obtain ⟨_, hvs⟩ := hvs
    cases hvs
    cases args with
    | nil =>
      rw [SpellsArgs] at hws
      subst hws
      exact isOp_ends (c := '#') rfl (by decide) hrest
    | cons t ts =>
      rw [SpellsArgs] at hws
      obtain ⟨joint, pos', vs, ws', rfl, -⟩ := hws
      exact isOp_sign (c := '#') rfl (by decide) _ _ _

/-- One round of the members of a group. -/
def memberStep (member : Parser Tree) : Parser (Option (List Tree)) := do
  if ← peek List.isEmpty then return none
  let t ← member
  if ← peek List.isEmpty then return some [t]
  return some [t, ← op ","]

/-- A group that holds one member is read where its member is. -/
theorem group_single {d : Delimiter} {member : Parser Tree} {body rest : List Token}
    {pos close close' : Position} {tree : Tree} (hbody : body ≠ [])
    (h : member ⟨body, close⟩ = .ok (tree, ⟨[], close⟩)) :
    Parser.group d (commaList member) ⟨.group d body pos close :: rest, close'⟩
      = .ok (.group d [tree] pos close, ⟨rest, close'⟩) := by
  obtain ⟨t, ts, rfl⟩ := List.exists_cons_of_ne_nil hbody
  have hlist : commaList member ⟨t :: ts, close⟩ = .ok ([tree], ⟨[], close⟩) := by
    have hround : memberStep member ⟨t :: ts, close⟩ = .ok (some [tree], ⟨[], close⟩) := by
      rw [memberStep, peek_bind]
      refine (congrFun (if_neg nofun) _).trans ?_
      exact (run_bind_of_ok h).trans rfl
    have hend : memberStep member ⟨[], close⟩ = .ok (none, ⟨[], close⟩) := rfl
    exact repeatFuel_some hround (repeatFuel_none ts.length hend)
  rw [Parser.group]
  dsimp only
  rw [if_pos rfl, hlist]

/-- An object in parentheses. -/
theorem type_parens (plus : Bool) {pos pos' pos'' close close' : Position} {us rest : List Token}
    {trees : List Tree}
    (h : rules (.type true) ⟨.word "dyn" pos :: us, close⟩
      = .ok (.node .typeObject [.run [.word "dyn" pos'], .node .bounds trees], ⟨[], close⟩)) :
    Grammar.type rules plus ⟨.group .paren (.word "dyn" pos :: us) pos'' close :: rest, close'⟩
      = .ok (.node .typeParen [.group .paren
          [.node .typeObject [.run [.word "dyn" pos'], .node .bounds trees]] pos'' close],
        ⟨rest, close'⟩) := by
  refine orVerbatim_of_some ?_
  refine run_map_of_ok (p := parenType rules plus) ?_
  rw [parenType, get_bind]
  dsimp only
  rw [if_neg nofun, if_neg nofun]
  exact (run_bind_of_ok (group_single (List.cons_ne_nil _ _) h)).trans rfl

/-- A plain type can be read where no reference leads to a sum, or parentheses hold the sum
together, and where the type itself is no sum, or a plus sign is allowed. -/
structure Readable (parens plus : Bool) (t : TypeRef) : Prop where
  plain : t.Plain
  stands : parens = true ∨ t.Stands
  whole : plus = true ∨ ¬t.IsSum

theorem Readable.args {plus : Bool} {names : List String} {args : List TypeRef}
    (h : Readable parens plus (path names args)) {t : TypeRef} (ht : t ∈ args) :
    Readable parens true t := by
  have hplain := h.plain
  have hstands := h.stands
  rw [Plain] at hplain
  rw [Stands] at hstands
  exact ⟨plainAll_iff.1 hplain.2 t ht, hstands.imp_right fun hall => standsAll_iff.1 hall t ht,
    .inl rfl⟩

theorem object_read {depth : Nat} (hdepth : 0 < depth) {plus : Bool} {text : String}
    (h : Readable parens plus (other text)) {us : List Token}
    (hus : Spells parens (other text) us) :
    Reads (toDepth (depth + 1)) parens plus (other text) us := by
  intro rest close hrest
  rw [Spells] at hus
  obtain ⟨bounds, pos, vs, hbounds, htext, rfl, hvs⟩ := hus
  have hrule := boundRule_toDepth hdepth
  obtain ⟨names, more, rfl⟩ := List.exists_cons_of_ne_nil hbounds.1
  obtain ⟨trees, htrees, hshapes⟩ : ∃ trees,
      boundList (toDepth depth) plus false false ⟨vs ++ rest, close⟩
        = .ok (.node .bounds trees, ⟨rest, close⟩) ∧ ShapesBounds (names :: more) trees := by
    cases plus with
    | true => exact bounds_read hrule hbounds hvs close hrest
    | false =>
      have hwhole := h.whole.resolve_left nofun
      cases more with
      | nil =>
        exact firstBound_read hrule (hbounds.2 names List.mem_cons_self) hvs close hrest.bound
      | cons names' more => exact absurd ⟨names, names', more, hbounds, congrArg other htext⟩ hwhole
  obtain ⟨w, pos', vs, rfl, -⟩ := hvs.starts (hbounds.2 names List.mem_cons_self)
  refine ⟨_, type_dyn htrees hshapes, ?_⟩
  rw [Shapes]
  exact ⟨names :: more, pos, trees, htext, rfl, hshapes⟩

/-- What a reference leads to is read where its type is. -/
theorem enclosed_read {depth : Nat} {t : TypeRef} (ht : t.Plain)
    (hstands : parens = true ∨ ¬t.IsSum ∧ t.Stands) {us : List Token}
    (hus : Enclosed parens t (Spells parens t) us) (hdepth : Token.count us < depth)
    (ih : ∀ {n : Nat} {plus : Bool} {us : List Token}, n ≤ depth → Readable parens plus t →
      Spells parens t us → Token.count us < n → Reads (toDepth n) parens plus t us)
    (close : Position) {rest : List Token} (hrest : Ends argumentEnds rest) :
    ∃ tree, toDepth depth (.type false) ⟨us ++ rest, close⟩ = .ok (tree, ⟨rest, close⟩) ∧
      EnclosedTree parens t (Shapes parens t) tree := by
  cases parens with
  | false =>
    have h := hstands.resolve_left nofun
    exact ih (Nat.le_refl depth) ⟨ht, .inr h.2, .inr h.1⟩ hus hdepth close hrest
  | true =>
    have hread {us : List Token} (hsum : ¬t.IsSum) (hus : Spells true t us)
        (hdepth : Token.count us < depth) : Reads (toDepth depth) true false t us :=
      ih (Nat.le_refl depth) ⟨ht, .inl rfl, .inr hsum⟩ hus hdepth
    cases t with
    | other text =>
      obtain ⟨vs, pos, close', rfl, hvs⟩ := hus
      rw [count_parens] at hdepth
      obtain ⟨depth, rfl⟩ := Nat.exists_eq_add_of_le' (Nat.one_le_of_lt hdepth)
      have hends : Ends argumentEnds [] := nofun
      obtain ⟨tree, htree, hshapes⟩ :=
        ih (Nat.le_succ depth) ⟨ht, .inl rfl, .inl rfl⟩ hvs (by omega) close' hends
      rw [Spells] at hvs
      obtain ⟨-, pos', vs, -, -, rfl, -⟩ := hvs
      have htree' := hshapes
      rw [Shapes] at htree'
      obtain ⟨bounds, pos'', trees, -, rfl, -⟩ := htree'
      rw [List.append_nil] at htree
      exact ⟨_, type_parens false htree, _, pos, close', rfl, hshapes⟩
    | _ => exact hread (by rintro ⟨_, _, _, _, h⟩; cases h) hus hdepth close hrest

/-- The words of a path, and its arguments where they are read, make a type. -/
theorem named_read {depth : Nat} {plus : Bool} {names : List String} {args : List TypeRef}
    (hplain : (path names args).Plain) {us : List Token} (hus : Spells parens (path names args) us)
    (hargs : ∀ n < Token.count us, ReadsAll (toDepth depth) parens n args) :
    Reads (toDepth (depth + 1)) parens plus (path names args) us := by
  intro rest close hrest
  rw [Plain] at hplain
  rw [Spells] at hus
  obtain ⟨vs, ws, rfl, hvs, hws⟩ := hus
  obtain ⟨w, pos, vs, rfl, hw⟩ := hvs.starts hplain.1
  rw [List.cons_append, count_word, Token.count_append] at hargs
  obtain ⟨argsTree, hlast, hshapes⟩ :=
    lastSegment_read (hargs (Token.count ws) (by omega)) hws (Nat.le_refl _) close hrest
  obtain ⟨parts, hparts, hnames⟩ := path_read _ hplain.1 hvs close hrest.bound hlast
  refine ⟨.node .typePath [.node .path (.absent :: parts)], ?_, ?_⟩
  · rw [List.append_assoc]
    obtain ⟨name, names, rfl⟩ : ∃ name more, names = name :: more := by
      cases names with
      | nil => exact hplain.1.elim
      | cons name names => exact ⟨name, names, rfl⟩
    obtain ⟨pos', vs', hhead⟩ := hvs.head
    cases hhead
    exact type_path plus hw (isOp_pound_path hvs hws hrest) hrest hparts
  · rw [Shapes]
    exact ⟨parts, argsTree, rfl, hnames, hshapes⟩

/-- The sign of a reference, and what it leads to where that is read, make a type. -/
theorem reference_read {depth : Nat} {plus mutable : Bool} {t : TypeRef} (hplain : t.Plain)
    {us : List Token} (hus : Spells parens (reference mutable t) us)
    (hinner : ∀ {vs rest : List Token} (close : Position),
      Enclosed parens t (Spells parens t) vs → Token.count vs < Token.count us →
      Ends argumentEnds rest →
      ∃ tree, toDepth depth (.type false) ⟨vs ++ rest, close⟩ = .ok (tree, ⟨rest, close⟩) ∧
        EnclosedTree parens t (Shapes parens t) tree) :
    Reads (toDepth (depth + 1)) parens plus (reference mutable t) us := by
  intro rest close hrest
  cases mutable with
  | true =>
    rw [Spells] at hus
    obtain ⟨joint, pos, pos', vs, rfl, hvs⟩ := hus
    obtain ⟨inner, htree, hshapes⟩ :=
      hinner close hvs (by rw [count_sign, count_word]; omega) hrest
    refine ⟨_, type_exclusive plus joint pos pos' close htree, ?_⟩
    rw [Shapes]
    exact ⟨pos, pos', inner, rfl, hshapes⟩
  | false =>
    rw [Spells] at hus
    obtain ⟨joint, pos, vs, rfl, hvs⟩ := hus
    obtain ⟨inner, htree, hshapes⟩ := hinner close hvs (by rw [count_sign]; omega) hrest
    obtain ⟨u, vs, rfl, hu⟩ := hvs.opens hplain
    refine ⟨_, type_shared plus joint pos close hu htree, ?_⟩
    rw [Shapes]
    exact ⟨pos, inner, rfl, hshapes⟩

/-- An object is spelled by more than one token. -/
theorem Spells.one_lt_count {text : String} {us : List Token}
    (h : Spells parens (other text) us) : 1 < Token.count us := by
  rw [Spells] at h
  obtain ⟨bounds, pos, vs, hbounds, -, rfl, hvs⟩ := h
  obtain ⟨names, more, rfl⟩ := List.exists_cons_of_ne_nil hbounds.1
  obtain ⟨w, pos', vs, rfl, -⟩ := hvs.starts (hbounds.2 names List.mem_cons_self)
  rw [count_word, count_word]
  omega

/-- A type is read from the tokens that spell it. -/
theorem type_read {depth : Nat} {plus : Bool} {t : TypeRef} {us : List Token}
    (h : Readable parens plus t) (hus : Spells parens t us) (hdepth : Token.count us < depth) :
    Reads (toDepth depth) parens plus t us := by
  induction depth using Nat.strongRecOn generalizing plus t us with
  | ind depth ih =>
    obtain ⟨depth, rfl⟩ := Nat.exists_eq_add_of_le' (Nat.one_le_of_lt hdepth)
    have hplain := h.plain
    intro rest close hrest
    cases t with
    | unit =>
      rw [Spells] at hus
      obtain ⟨pos, close', rfl⟩ := hus
      have htree : Grammar.type (toDepth depth) plus _ = _ := type_unit plus pos close' close rest
      refine ⟨_, htree, ?_⟩
      rw [Shapes]
      exact ⟨pos, close', rfl⟩
    | path names args =>
      refine named_read hplain hus (fun n hn t ht => ?_) close hrest
      exact ⟨(h.args ht).plain, fun hus' hcount =>
        ih depth (Nat.lt_succ_self depth) (h.args ht) hus' (by omega)⟩
    | reference mutable t =>
      have hstands := h.stands
      rw [Plain] at hplain
      rw [Stands] at hstands
      refine reference_read hplain hus (fun close hvs hcount hrest => ?_) close hrest
      exact enclosed_read hplain hstands hvs (by omega)
        (fun hn hread hus' hcount' => ih _ (Nat.lt_succ_of_le hn) hread hus' hcount') close hrest
    | other text =>
      have hcount := hus.one_lt_count
      exact object_read (by omega) h hus close hrest

theorem isWord_head {w : String} (h : Lexer.IsWord w) :
    ∃ c cs, w.toList = c :: cs ∧ c.toNat ≠ 0xFEFF := by
  obtain ⟨hident, hhead⟩ := h
  cases hw : w.toList with
  | nil =>
    rw [Emit.isIdentifier, hw] at hident
    cases hident
  | cons c cs =>
    rw [hw] at hhead
    exact ⟨c, cs, rfl, (hhead c rfl).2⟩

theorem names_head {hasArgs : Prop} {names : List String} (h : AreSegments hasArgs names) :
    ∃ c cs, (QualifiedName.ofSegments names).toList = c :: cs ∧ c.toNat ≠ 0xFEFF := by
  cases names with
  | nil => exact h.elim
  | cons w names =>
    obtain ⟨c, cs, hw, hc⟩ := isWord_head (h.isWord w List.mem_cons_self)
    cases names with
    | nil =>
      rw [QualifiedName.ofSegments, String.intercalate_singleton]
      exact ⟨c, cs, hw, hc⟩
    | cons w' names =>
      rw [QualifiedName.ofSegments, toList_intercalate_cons, hw]
      exact ⟨c, _, rfl, hc⟩

/-- The text of a type starts with no byte order mark. -/
theorem textWith_head {t : TypeRef} (ht : t.Plain) :
    ∀ c ∈ (t.textWith parens).toList.head?, c.toNat ≠ 0xFEFF := by
  have hstart {text rest : List Char} {c : Char} (htext : text = c :: rest)
      (hc : c.toNat ≠ 0xFEFF) : ∀ d ∈ text.head?, d.toNat ≠ 0xFEFF := by
    subst htext
    rintro d ⟨⟩
    exact hc
  cases t with
  | unit =>
    rw [textWith]
    exact hstart (c := '(') rfl (by decide)
  | path names args =>
    rw [Plain] at ht
    obtain ⟨c, cs, hnames, hc⟩ := names_head ht.1
    cases args with
    | nil =>
      rw [textWith]
      exact hstart hnames hc
    | cons t ts =>
      rw [toList_text_args, hnames]
      exact hstart rfl hc
  | reference mutable t =>
    cases mutable <;> rw [textWith, String.toList_append] <;>
      exact hstart (c := '&') rfl (by decide)
  | other text =>
    rw [Plain] at ht
    obtain ⟨bounds, -, rfl⟩ := ht
    rw [textWith]
    exact hstart (toList_objectText bounds) (by decide)

/-- The text of a type is split into what spells it. -/
theorem tokenize_textWith {t : TypeRef} (ht : t.Plain) :
    ∃ us, tokenize (t.textWith parens) = .ok us ∧ Spells parens t us := by
  have hlexes : Lexer.Lexes (Spells parens t) _ _ := lexes_text ht Lexer.stops_nil
  rw [List.append_nil] at hlexes
  exact Lexer.tokenize_of_lexes hlexes (textWith_head ht)

theorem count_lt_depthFor (us : List Token) : Token.count us < depthFor us := by
  rw [depthFor]
  omega

/-- A text of a type is read as the type, unless it has a sum of bounds after a reference. -/
theorem readType_textWith {t : TypeRef} (h : Readable parens true t) :
    ∃ tree, readType (t.textWith parens) = .ok tree ∧ Shapes parens t tree := by
  obtain ⟨us, htokenize, hus⟩ := tokenize_textWith h.plain
  have hends : Ends argumentEnds [] := nofun
  obtain ⟨tree, htree, hshapes⟩ := type_read h hus (count_lt_depthFor us) {} hends
  rw [List.append_nil] at htree
  refine ⟨tree, ?_, hshapes⟩
  have hall : readTokens (fun r => r (.type true)) us = .ok tree := runAll_eq_ok.2 ⟨_, htree⟩
  rw [readType, readText, htokenize]
  dsimp only
  rw [hall]

/-- The text of a type that is made of names is read, and its words and signs are those of the
type. -/
theorem readType_text {t : TypeRef} (ht : t.Named) :
    ∃ tree, readType t.text = .ok tree ∧ Token.lexemes tree.tokens = t.lexemes := by
  obtain ⟨tree, htree, hshapes⟩ := readType_textWith ⟨ht.plain, .inr ht.stands, .inl rfl⟩
  rw [textWith_false] at htree
  exact ⟨tree, htree, hshapes.lexemes ht⟩

end TypeRef

end TypedSettings
