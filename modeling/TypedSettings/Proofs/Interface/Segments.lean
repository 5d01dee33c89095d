import TypedSettings.Proofs.Interface.Shapes

/-!
The tokens that name a path, and those that name the bounds of an object, are read as such. Nothing
but what may follow an argument, or a further bound, comes after them.

* `Ends`: what may come next.
* `path_read`: a path, whose last segment is read with its arguments.
* `bounds_read`, `firstBound_read`: the bounds of an object, all of them where plus signs are
  allowed, and else the first.
* `type_dyn`: an object is read where its bounds are.
-/

namespace TypedSettings

open Source Token Parser Grammar

namespace TypeRef

variable {rules : Rules}

/-! ## Segments -/

/-- Whether the arguments of a segment come next in a type. -/
def opensArgs (ts : List Token) : Bool :=
  (isOp "<" ts && !isOp "<=" ts && !isOp "<<=" ts) || (isOp "::" ts && isOp "<" (ts.drop 2))

theorem segment_pathWord {w : String} (hw : w ∈ pathWords) (pos close : Position)
    (next : List Token) : segment rules false ⟨.word w pos :: next, close⟩
      = .ok (.node .segment [.run [.word w pos], .absent], ⟨next, close⟩) := by
  have hpath : (w == "super" || w == "self" || w == "crate" || w == "try") = true := by
    simp only [pathWords, List.mem_cons, List.not_mem_nil, or_false] at hw
    rcases hw with rfl | rfl | rfl <;> decide
  rw [Grammar.segment, peek_bind]
  refine (congrFun (if_pos hpath) _).trans ?_
  rw [run_bind_of_ok (anyWord_word w pos close next)]
  rfl

/-- A name, with the arguments that come next, if any do. -/
theorem segment_name {w : String} (hw : isKeyword w = false ∨ w = "Self") (pos close : Position)
    (next : List Token) : segment rules false ⟨.word w pos :: next, close⟩
      = if opensArgs next then
          (angleArgs rules >>= fun args => pure (.node .segment [.run [.word w pos], args]))
            ⟨next, close⟩
        else .ok (.node .segment [.run [.word w pos], .absent], ⟨next, close⟩) := by
  have hpath : ¬(w == "super" || w == "self" || w == "crate" || w == "try") = true := by
    intro h
    simp only [Bool.or_eq_true, beq_iff_eq] at h
    rcases hw with hw | rfl
    · rcases h with ((rfl | rfl) | rfl) | rfl <;> revert hw <;> decide
    · revert h
      decide
  have hrest (name : Tree) : (do
      let angle ← peek fun ts => isOp "<" ts && !isOp "<=" ts && !isOp "<<=" ts
      let turbofish ← peek fun ts => isOp "::" ts && isOp "<" (ts.drop 2)
      if (!false && angle) || turbofish then return .node .segment [name, ← angleArgs rules]
      else return .node .segment [name, .absent] : Parser Tree) ⟨next, close⟩
      = if opensArgs next then
          (angleArgs rules >>= fun args => pure (.node .segment [name, args])) ⟨next, close⟩
        else .ok (.node .segment [name, .absent], ⟨next, close⟩) := by
    rw [peek_bind, peek_bind]
    dsimp only
    rw [Bool.not_false, Bool.true_and]
    by_cases hargs : opensArgs next = true
    · rw [if_pos hargs]
      exact congrFun (if_pos hargs) _
    · rw [if_neg hargs]
      exact congrFun (if_neg hargs) _
  rw [Grammar.segment, peek_bind]
  refine (congrFun (if_neg hpath) _).trans ?_
  rw [peekWord, peek_bind]
  by_cases hself : (w == "Self") = true
  · refine (congrFun (if_pos hself) _).trans ?_
    rw [run_bind_of_ok (anyWord_word w pos close next)]
    exact hrest _
  · have hident : ident ⟨.word w pos :: next, close⟩ = .ok (.run [.word w pos], ⟨next, close⟩) := by
      have hkey : isIdent (.word w pos :: next) = true := by
        rw [isIdent, hw.resolve_right fun h => hself (beq_iff_eq.2 h)]
        rfl
      rw [ident, peek_bind]
      exact congrFun (if_pos hkey) _
    refine (congrFun (if_neg hself) _).trans ?_
    rw [run_bind_of_ok hident]
    exact hrest _

/-! ## What comes next -/

/-- The tokens end, or one of the signs comes next. -/
def Ends (signs : List Char) (rest : List Token) : Prop :=
  ∀ t ∈ rest.head?, ∃ c ∈ signs, ∃ joint pos, t = .sign c joint pos

/-- What may follow an argument in angle brackets. -/
def argumentEnds : List Char := [',', '>']

/-- What may follow the name of a bound. -/
def boundEnds : List Char := ['+', ',', '>']

theorem Ends.bound {rest : List Token} (h : Ends argumentEnds rest) : Ends boundEnds rest := by
  intro t ht
  obtain ⟨c, hc, hsign⟩ := h t ht
  exact ⟨c, List.mem_cons_of_mem _ hc, hsign⟩

theorem isOp_ends {op : String} {c : Char} (hop : op.toList.head? = some c) {signs : List Char}
    (hc : c ∉ signs) {rest : List Token} (h : Ends signs rest) : isOp op rest = false := by
  cases rest with
  | nil =>
    obtain ⟨cs, hcs⟩ := List.head?_eq_some_iff.1 hop
    unfold isOp
    rw [hcs]
    cases cs <;> rfl
  | cons t rest =>
    obtain ⟨d, hd, joint, pos, rfl⟩ := h t rfl
    refine isOp_sign hop ?_ _ _ _
    rintro rfl
    exact hc hd

theorem opensArgs_ends {rest : List Token} (h : Ends boundEnds rest) : opensArgs rest = false := by
  have hlt : isOp "<" rest = false := isOp_ends (c := '<') rfl (by decide) h
  have hcolons : isOp "::" rest = false := isOp_ends (c := ':') rfl (by decide) h
  rw [opensArgs, hlt, hcolons]
  rfl

/-- No arguments come after two colons and a word. -/
theorem opensArgs_colons (joint : Bool) (pos pos' pos'' : Position) (w : String)
    (rest : List Token) :
    opensArgs (.sign ':' true pos :: .sign ':' joint pos' :: .word w pos'' :: rest) = false := by
  have hlt : isOp "<" (.sign ':' true pos :: .sign ':' joint pos' :: .word w pos'' :: rest)
      = false := isOp_sign (c := '<') rfl (by decide) _ _ _
  have hword : isOp "<" (.word w pos'' :: rest) = false := isOp_word _ _ _ _ (by decide)
  rw [opensArgs, hlt]
  show (false || (_ && isOp "<" (.word w pos'' :: rest))) = false
  rw [hword, Bool.and_false]
  rfl

/-! ## Paths -/

/-- A segment that no arguments follow. -/
theorem segment_plain {hasArgs : Prop} {w : String} (hw : IsSegment hasArgs w)
    (pos close : Position) {next : List Token} (hnext : opensArgs next = false) :
    segment rules false ⟨.word w pos :: next, close⟩
      = .ok (.node .segment [.run [.word w pos], .absent], ⟨next, close⟩) := by
  have hname (h : isKeyword w = false ∨ w = "Self") :
      segment rules false ⟨.word w pos :: next, close⟩
        = .ok (.node .segment [.run [.word w pos], .absent], ⟨next, close⟩) := by
    rw [segment_name h, if_neg (by rw [hnext]; nofun)]
  rcases hw.2 with h | h | ⟨-, h⟩
  · exact hname (.inl h)
  · exact hname (.inr h)
  · exact segment_pathWord h pos close next

/-- One round of the segments after the first. -/
def segmentStep (rules : Rules) : Parser (Option (List Tree)) := do
  if ← peek fun ts => isOp "::" ts && !isGroup .paren (ts.drop 2) then
    return some [← op "::", ← segment rules false]
  else return none

theorem segmentStep_ends {rest : List Token} (h : Ends boundEnds rest) (close : Position) :
    segmentStep rules ⟨rest, close⟩ = .ok (none, ⟨rest, close⟩) := by
  have hcolons : isOp "::" rest = false := isOp_ends (c := ':') rfl (by decide) h
  rw [segmentStep, peek_bind]
  exact congrFun (if_neg (by rw [hcolons]; nofun)) _

theorem segmentStep_colons {joint : Bool} {pos pos' pos'' close : Position} {w : String}
    {next : List Token} {seg : Tree} {c : Cursor}
    (h : segment rules false ⟨.word w pos'' :: next, close⟩ = .ok (seg, c)) :
    segmentStep rules
        ⟨.sign ':' true pos :: .sign ':' joint pos' :: .word w pos'' :: next, close⟩
      = .ok (some [.run (operatorAt pos "::".toList), seg], c) := by
  have hcolons (ts : List Token) :
      isOp "::" (.sign ':' true pos :: .sign ':' joint pos' :: ts) = true := rfl
  rw [segmentStep, peek_bind]
  refine (congrFun (if_pos (by rw [hcolons]; rfl)) _).trans ?_
  rw [run_bind_of_ok (op_of_isOp (hcolons _))]
  show (segment rules false >>= _) ⟨.word w pos'' :: next, close⟩ = _
  rw [run_bind_of_ok h]
  rfl

theorem SpellsNames.head {w : String} {names : List String} {vs : List Token}
    (h : SpellsNames (w :: names) vs) : ∃ pos vs', vs = .word w pos :: vs' := by
  cases names with
  | nil =>
    obtain ⟨pos, rfl⟩ := h
    exact ⟨pos, [], rfl⟩
  | cons w' names =>
    obtain ⟨pos, _, _, _, _, rfl, -⟩ := h
    exact ⟨pos, _, rfl⟩

theorem SpellsNames.length_le {names : List String} {vs : List Token} (h : SpellsNames names vs) :
    names.length ≤ vs.length := by
  induction names generalizing vs with
  | nil => exact Nat.zero_le _
  | cons w names ih =>
    cases names with
    | nil =>
      obtain ⟨pos, rfl⟩ := h
      exact Nat.le_refl 1
    | cons w' names =>
      obtain ⟨_, _, _, _, vs', rfl, h⟩ := h
      have := ih h
      simp only [List.length_cons] at this ⊢
      omega

/-- The names of a path, the last one perhaps with arguments, are its segments. -/
theorem segments_names {hasArgs : Prop} {names : List String} (hnames : AreSegments hasArgs names)
    {vs next rest : List Token} (hvs : SpellsNames names vs) (close : Position)
    (hrest : Ends boundEnds rest) {args : Tree}
    (hlast : ∀ {w}, IsSegment hasArgs w → ∀ pos,
      segment rules false ⟨.word w pos :: next, close⟩
        = .ok (.node .segment [.run [.word w pos], args], ⟨rest, close⟩)) :
    ∃ first more c, segment rules false ⟨vs ++ next, close⟩ = .ok (first, c) ∧
      moreSegments rules false c = .ok (more, ⟨rest, close⟩) ∧
      ShapesNames args names (first :: more) := by
  -- a round for each name but the first, and one that finds the end
  suffices hrounds : ∃ first more c, segment rules false ⟨vs ++ next, close⟩ = .ok (first, c) ∧
      names.length ≤ c.rest.length + 1 ∧
      (∀ fuel, names.length ≤ fuel →
        repeatFuel (segmentStep rules) fuel c = .ok (more, ⟨rest, close⟩)) ∧
      ShapesNames args names (first :: more) by
    obtain ⟨first, more, c, hfirst, hlength, hmore, hshapes⟩ := hrounds
    exact ⟨first, more, c, hfirst, hmore _ hlength, hshapes⟩
  induction names generalizing vs with
  | nil => exact hnames.elim
  | cons w names ih =>
    cases names with
    | nil =>
      obtain ⟨pos, rfl⟩ := hvs
      refine ⟨_, [], _, hlast hnames pos, by simp, fun fuel hfuel => ?_, pos, rfl⟩
      obtain ⟨fuel, rfl⟩ := Nat.exists_eq_add_of_le' hfuel
      exact repeatFuel_none fuel (segmentStep_ends hrest close)
    | cons w' names =>
      obtain ⟨pos, pos', joint, pos'', vs', rfl, hvs'⟩ := hvs
      have hcount := hvs'.length_le
      obtain ⟨first, more, c, hfirst, -, hmore, hshapes⟩ := ih hnames.2 hvs'
      obtain ⟨pos₂, vs₂, rfl⟩ := hvs'.head
      have hplain : segment rules false _ = _ := segment_plain hnames.1 pos close
        (opensArgs_colons joint pos' pos'' pos₂ w' (vs₂ ++ next))
      refine ⟨_, .run (operatorAt pos' "::".toList) :: first :: more, _, hplain, ?_, ?_,
        pos, pos', _, rfl, hshapes⟩
      · simp only [List.length_cons, List.length_append] at hcount ⊢
        omega
      · intro fuel hfuel
        obtain ⟨fuel, rfl⟩ := Nat.exists_eq_add_of_le' (Nat.le_of_add_left_le hfuel)
        exact repeatFuel_some (segmentStep_colons hfirst)
          (hmore fuel (Nat.le_of_succ_le_succ hfuel))

variable (rules) in
/-- The tokens of a path are read as the path. -/
theorem path_read {hasArgs : Prop} {names : List String} (hnames : AreSegments hasArgs names)
    {vs next rest : List Token} (hvs : SpellsNames names vs) (close : Position)
    (hrest : Ends boundEnds rest) {args : Tree}
    (hlast : ∀ {w}, IsSegment hasArgs w → ∀ pos,
      segment rules false ⟨.word w pos :: next, close⟩
        = .ok (.node .segment [.run [.word w pos], args], ⟨rest, close⟩)) :
    ∃ parts, Grammar.path rules false ⟨vs ++ next, close⟩
        = .ok (.node .path (.absent :: parts), ⟨rest, close⟩) ∧ ShapesNames args names parts := by
  obtain ⟨first, more, c, hfirst, hmore, hshapes⟩ := segments_names hnames hvs close hrest hlast
  obtain ⟨w, names, rfl⟩ : ∃ w ws, names = w :: ws := by
    cases names with
    | nil => exact hnames.elim
    | cons w names => exact ⟨w, names, rfl⟩
  refine ⟨first :: more, ?_, hshapes⟩
  have hlead : op? "::" ⟨vs ++ next, close⟩ = .ok (.absent, ⟨vs ++ next, close⟩) := by
    obtain ⟨pos, vs, rfl⟩ := hvs.head
    exact op?_of_not_isOp (isOp_word _ _ _ _ (by decide))
  rw [Grammar.path]
  refine (run_bind_of_ok hlead).trans ?_
  refine (run_bind_of_ok hfirst).trans ?_
  exact (run_bind_of_ok hmore).trans rfl

/-! ## Opening tokens -/

/-- A word that a path starts with. -/
def StartsName (w : String) : Prop := isKeyword w = false ∨ w = "Self" ∨ w ∈ pathWords

theorem SpellsNames.starts {hasArgs : Prop} {names : List String}
    (hnames : AreSegments hasArgs names) {vs : List Token} (h : SpellsNames names vs) :
    ∃ w pos us, vs = .word w pos :: us ∧ StartsName w := by
  cases names with
  | nil => exact hnames.elim
  | cons w names =>
    obtain ⟨pos, vs, rfl⟩ := h.head
    refine ⟨w, pos, vs, rfl, ?_⟩
    cases names with
    | nil => exact hnames.2.imp id (Or.imp id And.right)
    | cons w' names => exact hnames.1.2.imp id (Or.imp id And.right)

/-- The keywords that a plain type may start with. -/
def startWords : List String := "dyn" :: "Self" :: pathWords

theorem StartsName.ne {w k : String} (h : StartsName w) (hk : isKeyword k = true)
    (hself : k ∉ "Self" :: pathWords) : w ≠ k := by
  rintro rfl
  obtain h | h | h := h
  · exact absurd hk (by rw [h]; nofun)
  · exact hself (h ▸ List.mem_cons_self)
  · exact hself (List.mem_cons_of_mem _ h)

theorem StartsName.isWord {w k : String} (h : StartsName w) (hk : isKeyword k = true)
    (hself : k ∉ "Self" :: pathWords) (pos : Position) (us : List Token) :
    isWord k (.word w pos :: us) = false :=
  beq_eq_false_iff_ne.2 (h.ne hk hself)

/-- A token that a plain type starts with. -/
inductive Opens : Token → Prop
  | name {w : String} {pos : Position} : StartsName w → Opens (.word w pos)
  | dyn {pos : Position} : Opens (.word "dyn" pos)
  | amp {joint : Bool} {pos : Position} : Opens (.sign '&' joint pos)
  | parens {body : List Token} {pos close : Position} : Opens (.group .paren body pos close)

variable {parens : Bool}

theorem Spells.opens {t : TypeRef} (ht : t.Plain) {us : List Token} (h : Spells parens t us) :
    ∃ u vs, us = u :: vs ∧ Opens u := by
  cases t with
  | unit =>
    rw [Spells] at h
    obtain ⟨pos, close, rfl⟩ := h
    exact ⟨_, [], rfl, .parens⟩
  | path names args =>
    rw [Plain] at ht
    rw [Spells] at h
    obtain ⟨vs, ws, rfl, hvs, -⟩ := h
    obtain ⟨w, pos, vs, rfl, hw⟩ := hvs.starts ht.1
    exact ⟨_, vs ++ ws, rfl, .name hw⟩
  | reference mutable t =>
    cases mutable <;> rw [Spells] at h
    · obtain ⟨joint, pos, vs, rfl, -⟩ := h
      exact ⟨_, vs, rfl, .amp⟩
    · obtain ⟨joint, pos, pos', vs, rfl, -⟩ := h
      exact ⟨_, _, rfl, .amp⟩
  | other text =>
    rw [Spells] at h
    obtain ⟨bounds, pos, vs, -, -, rfl, -⟩ := h
    exact ⟨_, vs, rfl, .dyn⟩

theorem Enclosed.opens {t : TypeRef} (ht : t.Plain) {us : List Token}
    (h : Enclosed parens t (Spells parens t) us) : ∃ u vs, us = u :: vs ∧ Opens u := by
  cases parens with
  | false => exact Spells.opens ht h
  | true =>
    cases t with
    | other text =>
      obtain ⟨vs, pos, close, rfl, -⟩ := h
      exact ⟨_, [], rfl, .parens⟩
    | _ =>
      have h : Spells true _ us := h
      exact h.opens ht

theorem Opens.ne_word {w k : String} {pos : Position} (h : Opens (.word w pos))
    (hk : isKeyword k = true) (hstart : k ∉ startWords) : w ≠ k := by
  rw [startWords, List.mem_cons, not_or] at hstart
  cases h with
  | name h => exact h.ne hk hstart.2
  | dyn => exact Ne.symm hstart.1

theorem Opens.isWord {u : Token} (hu : Opens u) {k : String} (us : List Token)
    (hk : isKeyword k = true) (hstart : k ∉ startWords) : isWord k (u :: us) = false := by
  cases u with
  | word w pos => exact beq_eq_false_iff_ne.2 (hu.ne_word hk hstart)
  | _ => rfl

theorem Opens.isLifetime {u : Token} (hu : Opens u) (us : List Token) :
    isLifetime (u :: us) = false := by
  cases hu <;> rfl

theorem Opens.literal {u : Token} (hu : Opens u) (us : List Token) :
    Literal.read? (u :: us) = none := by
  cases u with
  | word w pos =>
    have htrue : w ≠ "true" := hu.ne_word (by decide) (by decide)
    have hfalse : w ≠ "false" := hu.ne_word (by decide) (by decide)
    unfold Literal.read?
    split <;> simp_all
  | sign => cases hu; rfl
  | literal => cases hu
  | group => rfl

theorem Opens.isGroup {u : Token} (hu : Opens u) {d : Delimiter} (hd : (d == .paren) = false)
    (us : List Token) : isGroup d (u :: us) = false := by
  cases hu with
  | parens => exact hd
  | _ => rfl

theorem Opens.isOp {u : Token} (hu : Opens u) {op : String} {c : Char}
    (hop : op.toList.head? = some c) (hc : c ≠ '&') (us : List Token) :
    isOp op (u :: us) = false := by
  have hne : op ≠ "" := by
    rintro rfl
    cases hop
  cases hu with
  | name => exact isOp_word _ _ _ _ hne
  | dyn => exact isOp_word _ _ _ _ hne
  | amp => exact isOp_sign hop hc _ _ _
  | parens => exact isOp_group _ _ _ _ _ _ hne

/-! ## Objects -/

theorem orVerbatim_of_some {p : Parser (Option Tree)} {c c' : Cursor} {tree : Tree}
    (h : p c = .ok (some tree, c')) : orVerbatim p c = .ok (tree, c') := by
  rw [orVerbatim, h]

/-- No arguments in parentheses follow a bound here. -/
theorem opensParenArgs_ends {rest : List Token} (h : Ends boundEnds rest) :
    opensParenArgs rest = false := by
  have hcolons : isOp "::" rest = false := isOp_ends (c := ':') rfl (by decide) h
  have hparen : isGroup .paren rest = false := by
    cases rest with
    | nil => rfl
    | cons t rest =>
      obtain ⟨c, -, joint, pos, rfl⟩ := h t rfl
      rfl
  rw [opensParenArgs, hparen, hcolons]
  rfl

theorem traitBound?_read {w : String} (hw : StartsName w) {pos close : Position}
    {us rest : List Token} (hrest : Ends boundEnds rest) {base : Tree}
    (h : Grammar.path rules false ⟨.word w pos :: us, close⟩ = .ok (base, ⟨rest, close⟩)) :
    traitBound? rules false ⟨.word w pos :: us, close⟩
      = .ok (some (.node .bound [.absent, .absent, base]), ⟨rest, close⟩) := by
  have hparams : forParams? rules ⟨.word w pos :: us, close⟩
      = .ok (.absent, ⟨.word w pos :: us, close⟩) := by
    rw [forParams?, peekWord, peek_bind]
    exact congrFun (if_neg (by rw [hw.isWord (by decide) (by decide)]; nofun)) _
  have hconst : boundConst ⟨.word w pos :: us, close⟩
      = .ok (.absent, ⟨.word w pos :: us, close⟩) := by
    rw [boundConst, peekGroup, peek_bind]
    exact keyword?_of_not_isWord (hw.isWord (by decide) (by decide) pos us)
  have hmaybe : op? "?" ⟨.word w pos :: us, close⟩ = .ok (.absent, ⟨.word w pos :: us, close⟩) :=
    op?_of_not_isOp (isOp_word _ _ _ _ (by decide))
  rw [traitBound?]
  refine (run_bind_of_ok hparams).trans ?_
  refine (run_bind_of_ok hconst).trans ?_
  refine (run_bind_of_ok hmaybe).trans ?_
  show (peekWord "for" >>= _) _ = _
  rw [peekWord, peek_bind]
  refine (congrFun (if_neg nofun) _).trans ?_
  refine (run_bind_of_ok h).trans ?_
  show (peek opensParenArgs >>= _) _ = _
  rw [peek_bind]
  refine (congrFun (if_neg (by rw [opensParenArgs_ends hrest, Bool.and_false]; nofun)) _).trans ?_
  rfl

variable (rules) in
/-- A name is read as a bound. -/
theorem bound_read {names : List String} (hnames : AreSegments False names) {vs rest : List Token}
    (hvs : SpellsNames names vs) (close : Position) (hrest : Ends boundEnds rest) :
    ∃ parts, Grammar.bound rules false false ⟨vs ++ rest, close⟩
        = .ok (.node .bound [.absent, .absent, .node .path (.absent :: parts)], ⟨rest, close⟩) ∧
      ShapesNames .absent names parts := by
  obtain ⟨parts, hparts, hshapes⟩ := path_read rules hnames hvs close hrest
    fun hw pos => segment_plain hw pos close (opensArgs_ends hrest)
  obtain ⟨w, pos, us, rfl, hw⟩ := hvs.starts hnames
  refine ⟨parts, ?_, hshapes⟩
  rw [Grammar.bound, peek_bind]
  refine (congrFun (if_neg nofun) _).trans ?_
  rw [peekWord, peek_bind]
  refine (congrFun (if_neg (by rw [List.cons_append, hw.isWord (by decide) (by decide)]; nofun))
    _).trans ?_
  refine orVerbatim_of_some ?_
  rw [peekGroup, peek_bind]
  exact (congrFun (if_neg nofun) _).trans (traitBound?_read hw hrest hparts)

/-- The rule for bounds reads a bound. -/
def BoundRule (rules : Rules) : Prop :=
  ∃ inner : Rules, rules (.bound false false) = Grammar.bound inner false false

theorem boundRule_toDepth {depth : Nat} (h : 0 < depth) : BoundRule (toDepth depth) := by
  obtain ⟨depth, rfl⟩ := Nat.exists_eq_add_of_le' h
  exact ⟨toDepth depth, rfl⟩

/-- The bounds end where no plus sign comes next. -/
theorem moreBounds_end (plus : Bool) (fuel : Nat) {c : Cursor}
    (h : (plus && isOp "+" c.rest) = false) :
    boundList.more rules plus false false (fuel + 1) c = .ok ([], c) := by
  rw [boundList.more, peekOp, peek_bind]
  exact congrFun (if_neg (Bool.eq_false_iff.1 h)) _

/-- A bound after a plus sign. -/
theorem moreBounds_plus {fuel : Nat} {joint : Bool} {pos close : Position} {w : String}
    {pos' : Position} {us : List Token} {first : Tree} {more : List Tree} {c c' : Cursor}
    (hfirst : rules (.bound false false) ⟨.word w pos' :: us, close⟩ = .ok (first, c))
    (hmore : boundList.more rules true false false fuel c = .ok (more, c')) :
    boundList.more rules true false false (fuel + 1)
        ⟨.sign '+' joint pos :: .word w pos' :: us, close⟩
      = .ok (.run [.sign '+' false pos] :: first :: more, c') := by
  rw [boundList.more, peekOp, peek_bind]
  refine (congrFun (if_pos rfl) _).trans ?_
  refine (run_bind_of_ok (op_of_isOp rfl)).trans ?_
  show (peek (startsBound false) >>= _) ⟨.word w pos' :: us, close⟩ = _
  rw [peek_bind]
  refine (congrFun (if_pos rfl) _).trans ?_
  refine (run_bind_of_ok hfirst).trans ?_
  exact (run_bind_of_ok hmore).trans rfl

theorem SpellsBounds.starts {names : List String} (hnames : AreSegments False names)
    {bounds : List (List String)} {us : List Token} (h : SpellsBounds (names :: bounds) us) :
    ∃ w pos vs, us = .word w pos :: vs ∧ StartsName w := by
  cases bounds with
  | nil => exact SpellsNames.starts hnames h
  | cons names' bounds =>
    obtain ⟨vs, joint, pos, ws, rfl, hvs, -⟩ := h
    obtain ⟨w, pos', vs, rfl, hw⟩ := hvs.starts hnames
    exact ⟨w, pos', _, rfl, hw⟩

theorem SpellsBounds.length_le {bounds : List (List String)}
    (hnames : ∀ names ∈ bounds, AreSegments False names) {us : List Token}
    (h : SpellsBounds bounds us) : bounds.length ≤ us.length := by
  induction bounds generalizing us with
  | nil => exact Nat.zero_le _
  | cons names bounds ih =>
    rw [List.forall_mem_cons] at hnames
    obtain ⟨w, pos, vs, hus, -⟩ := h.starts hnames.1
    cases bounds with
    | nil =>
      rw [hus]
      exact Nat.le_add_left 1 _
    | cons names' bounds =>
      obtain ⟨vs, joint, pos, ws, rfl, -, hws⟩ := h
      have := ih hnames.2 hws
      simp only [List.length_append, List.length_cons] at this ⊢
      omega

/-- The bounds of an object are read one after the other. -/
theorem bounds_read (hrule : BoundRule rules) {bounds : List (List String)}
    (hbounds : AreBounds bounds) {us rest : List Token} (hus : SpellsBounds bounds us)
    (close : Position) (hrest : Ends argumentEnds rest) :
    ∃ trees, boundList rules true false false ⟨us ++ rest, close⟩
        = .ok (.node .bounds trees, ⟨rest, close⟩) ∧ ShapesBounds bounds trees := by
  obtain ⟨inner, hinner⟩ := hrule
  suffices hrounds : ∃ first more c,
      rules (.bound false false) ⟨us ++ rest, close⟩ = .ok (first, c) ∧
      bounds.length ≤ c.rest.length + 1 ∧
      (∀ fuel, bounds.length ≤ fuel →
        boundList.more rules true false false fuel c = .ok (more, ⟨rest, close⟩)) ∧
      ShapesBounds bounds (first :: more) by
    obtain ⟨first, more, c, hfirst, hlength, hmore, hshapes⟩ := hrounds
    refine ⟨first :: more, ?_, hshapes⟩
    rw [boundList]
    refine (run_bind_of_ok hfirst).trans ?_
    rw [get_bind]
    exact (run_bind_of_ok (hmore _ hlength)).trans rfl
  obtain ⟨hne, hnames⟩ := hbounds
  rw [hinner]
  induction bounds generalizing us with
  | nil => exact absurd rfl hne
  | cons names bounds ih =>
    rw [List.forall_mem_cons] at hnames
    cases bounds with
    | nil =>
      obtain ⟨parts, hparts, hshapes⟩ := bound_read inner hnames.1 hus close hrest.bound
      refine ⟨_, [], _, hparts, by simp, fun fuel hfuel => ?_, parts, rfl, hshapes⟩
      obtain ⟨fuel, rfl⟩ := Nat.exists_eq_add_of_le' hfuel
      exact moreBounds_end true fuel (isOp_ends (c := '+') rfl (by decide) hrest)
    | cons names' bounds =>
      obtain ⟨vs, joint, pos, ws, rfl, hvs, hws⟩ := hus
      obtain ⟨first, more, c, hfirst, hlength, hmore, hshapes⟩ :=
        ih hws (List.cons_ne_nil _ _) hnames.2
      have hplus : Ends boundEnds (.sign '+' joint pos :: (ws ++ rest)) := by
        rintro t ⟨⟩
        exact ⟨'+', by decide, joint, pos, rfl⟩
      obtain ⟨parts, hparts, hbound⟩ := bound_read inner hnames.1 hvs close hplus
      have hcount := hws.length_le hnames.2
      obtain ⟨w, pos', ws, rfl, -⟩ := hws.starts (List.forall_mem_cons.1 hnames.2).1
      rw [List.append_assoc, List.cons_append]
      refine ⟨_, .run [.sign '+' false pos] :: first :: more, _, hparts, ?_, fun fuel hfuel => ?_,
        parts, pos, first :: more, rfl, hbound, hshapes⟩
      · simp only [List.length_append, List.length_cons] at hcount ⊢
        omega
      · obtain ⟨fuel, rfl⟩ := Nat.exists_eq_add_of_le' (Nat.le_of_add_left_le hfuel)
        exact moreBounds_plus (by rw [hinner]; exact hfirst)
          (hmore fuel (Nat.le_of_succ_le_succ hfuel))

/-- Where no plus sign is allowed, only the first bound is read. -/
theorem firstBound_read (hrule : BoundRule rules) {names : List String}
    (hnames : AreSegments False names) {us rest : List Token} (hus : SpellsNames names us)
    (close : Position) (hrest : Ends boundEnds rest) :
    ∃ trees, boundList rules false false false ⟨us ++ rest, close⟩
        = .ok (.node .bounds trees, ⟨rest, close⟩) ∧ ShapesBounds [names] trees := by
  obtain ⟨inner, hinner⟩ := hrule
  obtain ⟨parts, hparts, hshapes⟩ := bound_read inner hnames hus close hrest
  rw [← hinner] at hparts
  refine ⟨_, ?_, parts, rfl, hshapes⟩
  rw [boundList]
  refine (run_bind_of_ok hparts).trans ?_
  rw [get_bind]
  exact (run_bind_of_ok (moreBounds_end false _ rfl)).trans rfl

theorem ShapesBounds.hasTrait {bounds : List (List String)} {trees : List Tree}
    (h : ShapesBounds bounds trees) : hasTrait (.node .bounds trees) = true := by
  cases bounds with
  | nil => exact h.elim
  | cons names bounds =>
    cases bounds with
    | nil =>
      obtain ⟨parts, rfl, -⟩ := h
      rfl
    | cons names' bounds =>
      obtain ⟨parts, pos, more, rfl, -⟩ := h
      rfl

/-- What follows the word `dyn`. -/
theorem type?_dyn (plus : Bool) (pos close : Position) (us : List Token) :
    type? rules plus ⟨.word "dyn" pos :: us, close⟩
      = (do
          let star ← op? "*"
          let bounds ← boundsWithTrait rules plus false false
          return if star.isAbsent then
            some (Source.Tree.node .typeObject [.run [.word "dyn" pos], bounds]) else none :
          Parser (Option Tree)) ⟨us, close⟩ := rfl

/-- An object is read where its bounds are. -/
theorem type_dyn {plus : Bool} {pos pos' close : Position} {w : String} {us : List Token}
    {bounds : List (List String)} {trees : List Tree} {c : Cursor}
    (h : boundList rules plus false false ⟨.word w pos' :: us, close⟩
      = .ok (.node .bounds trees, c))
    (hshapes : ShapesBounds bounds trees) :
    Grammar.type rules plus ⟨.word "dyn" pos :: .word w pos' :: us, close⟩
      = .ok (.node .typeObject [.run [.word "dyn" pos], .node .bounds trees], c) := by
  have hstar : op? "*" ⟨.word w pos' :: us, close⟩ = .ok (.absent, ⟨.word w pos' :: us, close⟩) :=
    op?_of_not_isOp (isOp_word _ _ _ _ (by decide))
  have hbounds : boundsWithTrait rules plus false false ⟨.word w pos' :: us, close⟩
      = .ok (.node .bounds trees, c) :=
    (run_bind_of_ok h).trans (congrFun (if_pos hshapes.hasTrait) c)
  refine orVerbatim_of_some ?_
  rw [type?_dyn, run_bind_of_ok hstar]
  exact (run_bind_of_ok hbounds).trans rfl

end TypeRef

end TypedSettings
