import TypedSettings.Proofs.Interface.Readback

/-!
The text of a type, read again. A type is kept without the parentheses that were written around it.
Where a reference leads to a sum of bounds, these held the bounds together: without them the text
is no type any more, wherever the reference stands, and no code can be generated for it.

* `type_stalls`: without parentheses, reading goes no further than the first sum that a reference
  leads to.
* `read_text_iff`: which plain types are read from their text again.
-/

namespace TypedSettings

open Source Token Parser Grammar

namespace TypeRef

variable {rules : Rules} {parens : Bool} {c c' : Cursor}

/-! ## Failures -/

/-- A parser takes nothing at a place. -/
def Fails {α : Type} (p : Parser α) (c : Cursor) : Prop := ∀ r, p c ≠ .ok r

section

variable {α β : Type} {p : Parser α} {f : α → Parser β}

theorem fails_bind (h : Fails p c) : Fails (p >>= f) c := by
  rintro ⟨b, c'⟩ hb
  obtain ⟨a, c₁, ha, -⟩ := run_bind_eq_ok.1 hb
  exact h _ ha

theorem fails_bind_of_ok {a : α} (h : p c = .ok (a, c')) (hf : Fails (f a) c') :
    Fails (p >>= f) c := by
  intro r hr
  rw [run_bind_of_ok h] at hr
  exact hf r hr

theorem fails_map {g : α → β} (h : Fails p c) : Fails (g <$> p) c := by
  intro r hr
  obtain ⟨s, hs, -⟩ := bind_eq_ok.1 (show (p c >>= fun s => pure (g s.1, s.2)) = .ok r from hr)
  exact h s hs

theorem fails_congr {q : Parser α} (h : p c = q c') (hq : Fails q c') : Fails p c := by
  intro r hr
  exact hq r (h.symm.trans hr)

end

theorem orVerbatim_eq_ok {p : Parser (Option Tree)} {t : Tree} (h : orVerbatim p c = .ok (t, c')) :
    ∃ o, p c = .ok (o, c') := by
  unfold orVerbatim at h
  split at h
  · next hp =>
    cases h
    exact ⟨_, hp⟩
  · next hp =>
    cases h
    exact ⟨_, hp⟩
  · cases h

theorem op_fails {s : String} (h : isOp s c.rest = false) : Fails (op s) c := by
  rintro ⟨t, c'⟩ ht
  rw [(op_eq_ok.1 ht).1] at h
  cases h

/-- A repetition fails where its next round does. -/
theorem repeatFuel_fails {step : Parser (Option (List Tree))} {fuel : Nat} (h : Fails step c) :
    Fails (repeatFuel step (fuel + 1)) c := by
  rw [repeatFuel]
  exact fails_bind h

theorem repeatFuel_fails_of_some {step : Parser (Option (List Tree))} {fuel : Nat}
    {round : List Tree} (h : step c = .ok (some round, c'))
    (hmore : Fails (repeatFuel step fuel) c') :
    Fails (repeatFuel step (fuel + 1)) c := by
  rw [repeatFuel]
  exact fails_bind_of_ok h (fails_bind hmore)

/-! ## Paths -/

theorem segmentStep_fails {joint : Bool} {pos pos' pos'' close : Position} {w : String}
    {next : List Token} (h : Fails (segment rules false) ⟨.word w pos'' :: next, close⟩) :
    Fails (segmentStep rules)
      ⟨.sign ':' true pos :: .sign ':' joint pos' :: .word w pos'' :: next, close⟩ := by
  have hcolons (ts : List Token) :
      isOp "::" (.sign ':' true pos :: .sign ':' joint pos' :: ts) = true := rfl
  rw [segmentStep]
  refine fails_congr ((peek_bind _ _ _).trans
    (congrFun (if_pos (by rw [hcolons]; rfl)) _)) ?_
  exact fails_bind_of_ok (op_of_isOp (hcolons _)) (fails_bind h)

/-- A path fails where its last segment does. -/
theorem path_fails {hasArgs : Prop} {names : List String} (hnames : AreSegments hasArgs names)
    {vs next : List Token} (hvs : SpellsNames names vs) (close : Position)
    (hlast : ∀ {w}, IsSegment hasArgs w → ∀ pos,
      Fails (segment rules false) ⟨.word w pos :: next, close⟩) :
    Fails (Grammar.path rules false) ⟨vs ++ next, close⟩ := by
  have hlead : op? "::" ⟨vs ++ next, close⟩ = .ok (.absent, ⟨vs ++ next, close⟩) := by
    obtain ⟨w, pos, vs, rfl, -⟩ := hvs.starts hnames
    exact op?_of_not_isOp (isOp_word _ _ _ _ (by decide))
  suffices hsegments : Fails (segment rules false) ⟨vs ++ next, close⟩ ∨
      ∃ first c, segment rules false ⟨vs ++ next, close⟩ = .ok (first, c) ∧
        names.length ≤ c.rest.length + 1 ∧
        ∀ fuel, names.length ≤ fuel → Fails (repeatFuel (segmentStep rules) fuel) c by
    rw [Grammar.path]
    refine fails_bind_of_ok hlead ?_
    rcases hsegments with hfirst | ⟨first, c, hfirst, hlength, hmore⟩
    · exact fails_bind hfirst
    · exact fails_bind_of_ok hfirst (fails_bind (hmore _ hlength))
  clear hlead
  induction names generalizing vs with
  | nil => exact hnames.elim
  | cons w names ih =>
    cases names with
    | nil =>
      obtain ⟨pos, rfl⟩ := hvs
      exact .inl (hlast hnames pos)
    | cons w' names =>
      obtain ⟨pos, pos', joint, pos'', vs', rfl, hvs'⟩ := hvs
      have hcount := hvs'.length_le
      have hrest := ih hnames.2 hvs'
      obtain ⟨pos₂, vs₂, rfl⟩ := hvs'.head
      have hplain : segment rules false _ = _ := segment_plain hnames.1 pos close
        (opensArgs_colons joint pos' pos'' pos₂ w' (vs₂ ++ next))
      refine .inr ⟨_, _, hplain, ?_, fun fuel hfuel => ?_⟩
      · simp only [List.length_cons, List.length_append] at hcount ⊢
        omega
      · obtain ⟨fuel, rfl⟩ := Nat.exists_eq_add_of_le' (Nat.le_of_add_left_le hfuel)
        rcases hrest with hfirst | ⟨first, c, hfirst, -, hmore⟩
        · exact repeatFuel_fails (segmentStep_fails hfirst)
        · exact repeatFuel_fails_of_some (segmentStep_colons hfirst)
            (hmore fuel (Nat.le_of_succ_le_succ hfuel))

/-! ## Arguments -/

/-- Reading the tokens as a type fails, or stops at a plus sign. -/
def Stalls (rules : Rules) (plus : Bool) (us : List Token) : Prop :=
  ∀ {rest : List Token} (close : Position), Ends argumentEnds rest → ∀ {tree : Tree} {c : Cursor},
    rules (.type plus) ⟨us ++ rest, close⟩ = .ok (tree, c) → isOp "+" c.rest = true

theorem isOp_of_plus {s : String} {d : Char} (hs : s.toList.head? = some d) (hd : d ≠ '+')
    {ts : List Token} (h : isOp "+" ts = true) : isOp s ts = false := by
  have hplus : "+".toList = ['+'] := by decide
  rw [isOp, hplus] at h
  cases ts with
  | nil => cases h
  | cons t ts =>
    cases t with
    | sign e joint pos =>
      rw [startsWithOp, Bool.and_eq_true, beq_iff_eq] at h
      rw [← h.1]
      exact isOp_sign hs hd _ _ _
    | _ => cases h

/-- An argument that stops at a plus sign is none. -/
theorem argumentStep_stalls {t : TypeRef} (ht : t.Plain) {us : List Token}
    (hus : Spells false t us) (h : Stalls rules true us) (close : Position) {rest : List Token}
    (hrest : Ends argumentEnds rest) : Fails (argumentStep rules) ⟨us ++ rest, close⟩ := by
  obtain ⟨u, us, rfl, hu⟩ := hus.opens ht
  have hopen : ¬isOp ">" (u :: us ++ rest) = true := by
    rw [List.cons_append, hu.isOp (c := '>') rfl (by decide)]
    nofun
  rw [argumentStep]
  refine fails_congr ((peek_bind _ _ _).trans (congrFun (if_neg hopen) _)) ?_
  rintro ⟨round, c'⟩ hround
  obtain ⟨t, c₁, harg, hround⟩ := run_bind_eq_ok.1 hround
  rw [List.cons_append, genericArgument_opens hu] at harg
  obtain ⟨ty, c₀, hty, hafter⟩ := run_bind_eq_ok.1 harg
  have hplus := h close hrest hty
  rw [afterArgument_stop (isOp_of_plus (d := '=') rfl (by decide) hplus)
    (isOp_of_plus (d := ':') rfl (by decide) hplus)] at hafter
  cases hafter
  have hclose : ¬isOp ">" c₁.rest = true := by
    rw [isOp_of_plus (d := '>') rfl (by decide) hplus]
    nofun
  have hcomma : isOp "," c₁.rest = false := isOp_of_plus (d := ',') rfl (by decide) hplus
  rw [peek_bind, if_neg hclose] at hround
  exact fails_bind (op_fails hcomma) _ hround

/-- Below a number of tokens, every type that stands is read from what spells it, and every other
one stalls. -/
def Decides (rules : Rules) (n : Nat) (ts : List TypeRef) : Prop :=
  ∀ t ∈ ts, t.Plain ∧ ∀ {us : List Token}, Spells false t us → Token.count us < n →
    (t.Stands → Reads rules false true t us) ∧ (¬t.Stands → Stalls rules true us)

/-- Arguments fail where one of them stalls. -/
theorem arguments_fail {n : Nat} {t : TypeRef} {ts : List TypeRef}
    (h : Decides rules n (t :: ts)) (hfalls : ¬StandsAll (t :: ts)) {vs ws : List Token}
    (hvs : Spells false t vs) (hws : SpellsMore false ts ws) (hn : Token.count (vs ++ ws) < n)
    (close : Position) (next : List Token) {fuel : Nat} (hfuel : ts.length + 1 ≤ fuel) :
    Fails (repeatFuel (argumentStep rules) fuel) ⟨vs ++ (ws ++ next), close⟩ := by
  induction ts generalizing t vs ws fuel with
  | nil =>
    rw [Token.count_append] at hn
    obtain ⟨ht, hread⟩ := h t List.mem_cons_self
    have hfalls : ¬t.Stands := fun hstands => hfalls (standsAll_iff.2 (by simpa using hstands))
    obtain ⟨fuel, rfl⟩ := Nat.exists_eq_add_of_le' hfuel
    exact repeatFuel_fails (argumentStep_stalls ht hvs ((hread hvs (by omega)).2 hfalls) close
      (hws.ends next))
  | cons t' ts ih =>
    rw [Token.count_append] at hn
    obtain ⟨⟨ht, hread⟩, hts⟩ := List.forall_mem_cons.1 h
    obtain ⟨fuel, rfl⟩ := Nat.exists_eq_add_of_le' (Nat.le_of_add_left_le hfuel)
    by_cases hstands : t.Stands
    · obtain ⟨hopen, tree, htree, -⟩ :=
        argument_read ht hvs ((hread hvs (by omega)).1 hstands) close (hws.ends next)
      rw [SpellsMore] at hws
      obtain ⟨joint', pos', vs', ws', rfl, hvs', hws'⟩ := hws
      rw [count_sign] at hn
      rw [List.cons_append, List.append_assoc] at htree hopen ⊢
      refine repeatFuel_fails_of_some (argumentStep_comma hopen htree) ?_
      refine ih hts (fun hall => hfalls ?_) hvs' hws' (by omega) (Nat.le_of_succ_le_succ hfuel)
      rw [StandsAll]
      exact ⟨hstands, hall⟩
    · exact repeatFuel_fails (argumentStep_stalls ht hvs ((hread hvs (by omega)).2 hstands) close
        (hws.ends next))

/-- The last segment of a path fails where its arguments do. -/
theorem lastSegment_fails {n : Nat} {args : List TypeRef} (h : Decides rules n args)
    (hfalls : ¬StandsAll args) {ws : List Token} (hws : SpellsArgs false args ws)
    (hn : Token.count ws < n) (close : Position) (rest : List Token) {w : String}
    (hw : IsSegment (args ≠ []) w) (pos : Position) :
    Fails (segment rules false) ⟨.word w pos :: (ws ++ rest), close⟩ := by
  cases args with
  | nil => exact absurd (by rw [StandsAll]; trivial) hfalls
  | cons t ts =>
    rw [SpellsArgs] at hws
    obtain ⟨joint, pos', vs, ws, rfl, hvs, hws⟩ := hws
    rw [count_sign] at hn
    obtain ⟨u, us, hu, hopens⟩ := hvs.opens (h t List.mem_cons_self).1
    have hname : isKeyword w = false ∨ w = "Self" :=
      hw.2.imp id fun h => h.resolve_right fun h => h.1 (List.cons_ne_nil _ _)
    have hargs : Fails (angleArgs rules)
        ⟨.sign '<' joint pos' :: (vs ++ (ws ++ rest)), close⟩ := by
      rw [angleArgs]
      refine fails_bind_of_ok (op?_of_not_isOp (isOp_sign (c := ':') rfl (by decide) _ _ _)) ?_
      refine fails_bind_of_ok (op_of_isOp rfl) (fails_bind ?_)
      have hlength := hws.length_le
      refine arguments_fail h hfalls hvs hws (by omega) close rest ?_
      show ts.length + 1 ≤ (vs ++ (ws ++ rest)).length + 1
      rw [List.length_append, List.length_append]
      omega
    have hopen : opensArgs (.sign '<' joint pos' :: (vs ++ (ws ++ rest))) = true := by
      rw [hu]
      exact opensArgs_lt hopens _
    rw [List.cons_append, List.append_assoc]
    refine fails_congr ((segment_name hname pos close _).trans (if_pos hopen)) ?_
    exact fails_bind hargs

/-! ## Types -/

/-- A reference stalls where the type that it leads to does. -/
theorem reference_stalls {n : Nat} {plus mutable : Bool} {t : TypeRef} (ht : t.Plain)
    (h : ∀ {us : List Token}, Spells false t us → Token.count us < n → Stalls rules false us)
    {us : List Token} (hus : Spells false (reference mutable t) us)
    (hn : Token.count us < n + 1) {rest : List Token} (close : Position)
    (hrest : Ends argumentEnds rest) {tree : Tree}
    (htree : Grammar.type rules plus ⟨us ++ rest, close⟩ = .ok (tree, c)) :
    isOp "+" c.rest = true := by
  obtain ⟨o, htree⟩ := orVerbatim_eq_ok htree
  cases mutable with
  | true =>
    rw [Spells] at hus
    obtain ⟨joint, pos, pos', vs, rfl, hvs⟩ := hus
    rw [count_sign, count_word] at hn
    have hkeyword : keyword? "mut" ⟨.word "mut" pos' :: (vs ++ rest), close⟩
      = .ok (.run [.word "mut" pos'], ⟨vs ++ rest, close⟩) := rfl
    rw [List.cons_append, List.cons_append, type?_amp,
      run_bind_of_ok (lifetime?_of_not_isLifetime rfl), run_bind_of_ok hkeyword] at htree
    obtain ⟨inner, c₁, hinner, htree⟩ := run_bind_eq_ok.1 htree
    cases htree
    exact h hvs (by omega) close hrest hinner
  | false =>
    rw [Spells] at hus
    obtain ⟨joint, pos, vs, rfl, hvs⟩ := hus
    rw [count_sign] at hn
    have hvs : Spells false t vs := hvs
    obtain ⟨u, us, rfl, hu⟩ := hvs.opens ht
    have hmut : Token.isWord "mut" (u :: (us ++ rest)) = false :=
      hu.isWord _ (by decide) (by decide)
    rw [List.cons_append, List.cons_append, type?_amp,
      run_bind_of_ok (lifetime?_of_not_isLifetime (hu.isLifetime _)),
      run_bind_of_ok (keyword?_of_not_isWord hmut)] at htree
    obtain ⟨inner, c₁, hinner, htree⟩ := run_bind_eq_ok.1 htree
    cases htree
    exact h hvs (by omega) close hrest hinner

theorem plus_not_mem_word {w : String} (h : Lexer.IsWord w) : '+' ∉ w.toList := by
  have hstart : Text.isIdentStart '+' = false := by decide
  have hcontinue : Text.isIdentContinue '+' = false := by decide
  have hword {c : Char} {cs : List Char} (hc : Text.isIdentStart c = true)
      (hcs : cs.all Text.isIdentContinue = true) : '+' ∉ c :: cs := by
    intro hmem
    rcases List.mem_cons.1 hmem with rfl | hmem
    · rw [hstart] at hc
      cases hc
    · rw [List.all_eq_true.1 hcs _ hmem] at hcontinue
      cases hcontinue
  rcases Lexer.isIdentifier_cases h.1 with ⟨c, cs, hw, hc, hcs⟩ | ⟨c, cs, hw, hc, hcs, -⟩
  · rw [hw]
    exact hword hc hcs
  · rw [hw]
    simpa using hword hc hcs

theorem plus_not_mem_bound {names : List String} (h : ∀ w ∈ names, Lexer.IsWord w) :
    '+' ∉ (" :: ".intercalate names).toList := by
  induction names with
  | nil => exact List.not_mem_nil
  | cons w names ih =>
    rw [List.forall_mem_cons] at h
    cases names with
    | nil =>
      rw [String.intercalate_singleton]
      exact plus_not_mem_word h.1
    | cons w' names =>
      have hsep : '+' ∉ " :: ".toList := by decide
      rw [toList_intercalate_cons, List.mem_append, List.mem_append]
      rintro (hw | hs | hmore)
      · exact plus_not_mem_word h.1 hw
      · exact hsep hs
      · exact ih h.2 hmore

/-- One bound is no sum. -/
theorem not_isSum_single {names : List String} (h : AreSegments False names) :
    ¬(other (objectText [names])).IsSum := by
  rintro ⟨first, second, more, -, heq⟩
  have htext := congrArg String.toList (TypeRef.other.inj heq)
  rw [toList_objectText, toList_objectText, List.map_singleton, String.intercalate_singleton,
    List.map_cons, List.map_cons, toList_intercalate_cons] at htext
  have hplus : '+' ∈ 'd' :: 'y' :: 'n' :: ' ' :: (" :: ".intercalate names).toList := by
    have hsep : " + ".toList = [' ', '+', ' '] := by decide
    rw [htext, hsep]
    simp
  simp only [List.mem_cons, plus_not_mem_bound h.isWord, or_false] at hplus
  revert hplus
  decide

/-- A sum stalls where no plus sign is allowed. -/
theorem sum_stalls {depth : Nat} (hdepth : 0 < depth) {t : TypeRef} (h : t.IsSum) {us : List Token}
    (hus : Spells false t us) : Stalls (toDepth (depth + 1)) false us := by
  intro rest close hrest tree c htree
  obtain ⟨text, rfl⟩ : ∃ text, t = other text := by
    obtain ⟨_, _, _, -, rfl⟩ := h
    exact ⟨_, rfl⟩
  rw [Spells] at hus
  obtain ⟨bounds, pos, vs, hbounds, rfl, rfl, hvs⟩ := hus
  obtain ⟨names, more, rfl⟩ := List.exists_cons_of_ne_nil hbounds.1
  have hnames := hbounds.2 names List.mem_cons_self
  cases more with
  | nil => exact absurd h (not_isSum_single hnames)
  | cons names' more =>
    obtain ⟨ps, joint, pos', ws, rfl, hps, -⟩ := hvs
    have hplus : Ends boundEnds (.sign '+' joint pos' :: (ws ++ rest)) := by
      rintro t ⟨⟩
      exact ⟨'+', by decide, joint, pos', rfl⟩
    obtain ⟨trees, htrees, hshapes⟩ :=
      firstBound_read (boundRule_toDepth hdepth) hnames hps close hplus
    obtain ⟨w, pos'', ps, rfl, -⟩ := hps.starts hnames
    have htype : Grammar.type (toDepth depth) false ⟨.word "dyn" pos :: (.word w pos'' :: ps ++
        .sign '+' joint pos' :: (ws ++ rest)), close⟩ = _ := type_dyn htrees hshapes
    rw [List.cons_append, List.append_assoc, List.cons_append] at htree
    cases htree.symm.trans htype
    rfl

theorem path_stalls {depth : Nat} {names : List String} {args : List TypeRef}
    (hnames : AreSegments (args ≠ []) names) (hfalls : ¬StandsAll args) {us : List Token}
    (hus : Spells false (path names args) us)
    (h : Decides (toDepth depth) (Token.count us) args) (plus : Bool) :
    Stalls (toDepth (depth + 1)) plus us := by
  intro rest close hrest tree c htree
  rw [Spells] at hus
  obtain ⟨vs, ws, rfl, hvs, hws⟩ := hus
  have hcount : Token.count ws < Token.count (vs ++ ws) := by
    obtain ⟨w, pos, vs, rfl, -⟩ := hvs.starts hnames
    rw [List.cons_append, count_word, Token.count_append]
    omega
  obtain ⟨name, names, rfl⟩ : ∃ name more, names = name :: more := by
    cases names with
    | nil => exact hnames.elim
    | cons name names => exact ⟨name, names, rfl⟩
  have hfails : Fails (Grammar.path (toDepth depth) false) ⟨vs ++ (ws ++ rest), close⟩ :=
    path_fails hnames hvs close fun hw pos =>
      lastSegment_fails h hfalls hws hcount close rest hw pos
  obtain ⟨w, pos, vs, rfl, hw⟩ := hvs.starts hnames
  have hopen : ¬isOp "<" (.word w pos :: vs ++ (ws ++ rest)) = true := by
    rw [List.cons_append, isOp_word _ _ _ _ (by decide)]
    nofun
  have hself : Fails (selfPath (toDepth depth) false)
      ⟨.word w pos :: vs ++ (ws ++ rest), close⟩ := by
    rw [selfPath, peekOp]
    exact fails_congr ((peek_bind _ _ _).trans (congrFun (if_neg hopen) _)) hfails
  obtain ⟨pos', vs', hhead⟩ := hvs.head
  cases hhead
  obtain ⟨o, htype⟩ := orVerbatim_eq_ok htree
  rw [List.append_assoc, List.cons_append, type?_name plus hw (isOp_pound_path hvs hws hrest)]
    at htype
  have hpath : Fails (pathType (toDepth depth) .absent plus) _ := fails_bind hself
  exact absurd htype (fails_map hpath _)

theorem Spells.two_le_count {text : String} {us : List Token} (h : Spells parens (other text) us) :
    2 ≤ Token.count us := by
  rw [Spells] at h
  obtain ⟨bounds, pos, vs, hbounds, -, rfl, hvs⟩ := h
  obtain ⟨names, more, rfl⟩ := List.exists_cons_of_ne_nil hbounds.1
  obtain ⟨w, pos', vs, rfl, -⟩ := hvs.starts (hbounds.2 names List.mem_cons_self)
  rw [count_word, count_word]
  omega

/-- A type that does not stand stalls, and so does a sum where no plus sign is allowed. -/
theorem type_stalls {depth : Nat} {plus : Bool} {t : TypeRef} {us : List Token} (ht : t.Plain)
    (hfalls : ¬t.Stands ∨ plus = false ∧ t.IsSum) (hus : Spells false t us)
    (hdepth : Token.count us < depth) : Stalls (toDepth depth) plus us := by
  induction depth generalizing plus t us with
  | zero => exact absurd hdepth (Nat.not_lt_zero _)
  | succ depth ih =>
    cases t with
    | unit =>
      rcases hfalls with hfalls | ⟨-, _, _, _, -, heq⟩
      · exact absurd (by simp [Stands]) hfalls
      · cases heq
    | path names args =>
      have hargs : ¬StandsAll args := by
        rcases hfalls with hfalls | ⟨-, _, _, _, -, heq⟩
        · rwa [Stands] at hfalls
        · cases heq
      rw [Plain] at ht
      intro rest close hrest tree c htree
      refine path_stalls ht.1 hargs hus (fun u hu => ?_) plus close hrest htree
      have hplain := plainAll_iff.1 ht.2 u hu
      exact ⟨hplain, fun hvs hcount =>
        ⟨fun hstands => type_read ⟨hplain, .inr hstands, .inl rfl⟩ hvs (by omega),
          fun hfalls => ih hplain (.inl hfalls) hvs (by omega)⟩⟩
    | reference mutable t =>
      have hinner : ¬t.Stands ∨ t.IsSum := by
        rcases hfalls with hfalls | ⟨-, _, _, _, -, heq⟩
        · rw [Stands, not_and_or, not_not] at hfalls
          exact hfalls.symm
        · cases heq
      rw [Plain] at ht
      intro rest close hrest tree c htree
      exact reference_stalls ht
        (fun hvs hcount => ih ht (hinner.imp_right fun hsum => ⟨rfl, hsum⟩) hvs hcount)
        hus hdepth close hrest htree
    | other text =>
      rcases hfalls with hfalls | ⟨rfl, hsum⟩
      · exact absurd (by simp [Stands]) hfalls
      · have := hus.two_le_count
        obtain ⟨depth, rfl⟩ : ∃ n, depth = n + 1 := ⟨depth - 1, by omega⟩
        intro rest close hrest tree c htree
        exact sum_stalls (Nat.succ_pos depth) hsum hus close hrest htree

/-! ## Texts -/

theorem readType_fails {t : TypeRef} (ht : t.Plain) (hfalls : ¬t.Stands) :
    ∃ fault, readType t.text = .error fault := by
  obtain ⟨us, htokenize, hus⟩ : ∃ us, tokenize (t.textWith false) = .ok us ∧ Spells false t us :=
    tokenize_textWith ht
  rw [textWith_false] at htokenize
  have hends : Ends argumentEnds [] := nofun
  have hread : ∀ tree, readTokens (fun r => r (.type true)) us ≠ .ok tree := by
    intro tree htree
    obtain ⟨close, htype⟩ := runAll_eq_ok.1 htree
    have htype : toDepth (depthFor us) (.type true) ⟨us ++ [], {}⟩ = .ok (tree, ⟨[], close⟩) := by
      rw [List.append_nil]
      exact htype
    cases type_stalls ht (.inl hfalls) hus (count_lt_depthFor us) {} hends htype
  rw [readType, readText, htokenize]
  dsimp only
  cases hresult : readTokens (fun r => r (.type true)) us with
  | ok tree => exact absurd hresult (hread tree)
  | error pos => exact ⟨_, rfl⟩

/-- A plain type is read from a text that has parentheses around its objects. From the text that it
has itself it is read again, and code can be generated for it, if no reference leads to a sum of
bounds, and only then. -/
theorem read_text_iff {t : TypeRef} (ht : t.Plain) :
    (∃ text, read text = .ok t) ∧ (read t.text = .ok t ↔ t.Stands) ∧
      (t.Stands → ∃ tree, Emit.typeTokens t = .ok tree.tokens ∧ ofTree tree = t) ∧
      (¬t.Stands → (∃ fault, read t.text = .error fault) ∧
        Emit.typeTokens t = .error (.typeText t.text)) := by
  have hstands (h : t.Stands) : ∃ tree, readType t.text = .ok tree ∧ ofTree tree = t := by
    have hread : Readable false true t := ⟨ht, .inr h, .inl rfl⟩
    obtain ⟨tree, htree, hshapes⟩ := readType_textWith hread
    rw [textWith_false] at htree
    exact ⟨tree, htree, hshapes.ofTree⟩
  have hfalls (h : ¬t.Stands) : (∃ fault, read t.text = .error fault) ∧
      Emit.typeTokens t = .error (.typeText t.text) := by
    obtain ⟨fault, hfault⟩ := readType_fails ht h
    exact ⟨⟨fault, by rw [read, hfault]; rfl⟩, by rw [Emit.typeTokens, hfault]⟩
  refine ⟨?_, ⟨fun h => ?_, fun h => ?_⟩, fun h => ?_, hfalls⟩
  · have hread : Readable true true t := ⟨ht, .inl rfl, .inl rfl⟩
    obtain ⟨tree, htree, hshapes⟩ := readType_textWith hread
    exact ⟨t.textWith true, by rw [read, htree, ← hshapes.ofTree]; rfl⟩
  · by_contra hnot
    obtain ⟨⟨fault, hfault⟩, -⟩ := hfalls hnot
    rw [hfault] at h
    cases h
  · obtain ⟨tree, htree, heq⟩ := hstands h
    rw [read, htree]
    exact congrArg Except.ok heq
  · obtain ⟨tree, htree, heq⟩ := hstands h
    exact ⟨tree, by rw [Emit.typeTokens, htree], heq⟩

/-- `Box<&(dyn Draw + Send)>`. -/
def boxedSum : TypeRef := path ["Box"] [reference false (other "dyn Draw + Send")]

theorem read_text_boxedSum :
    boxedSum.Plain ∧ boxedSum.textWith true = "Box<&(dyn Draw + Send)>" ∧
      (∃ text, read text = .ok boxedSum) ∧ read boxedSum.text ≠ .ok boxedSum ∧
      Emit.typeTokens boxedSum = .error (.typeText "Box<&dyn Draw + Send>") := by
  have hword {w : String} {c : Char} {cs : List Char} (hw : w.toList = c :: cs)
      (h : Emit.isIdentifier w = true) (hkey : isKeyword w = false)
      (hc : Lexer.isGap c = false ∧ c.toNat ≠ 0xFEFF) (hasArgs : Prop) : IsSegment hasArgs w :=
    ⟨Lexer.isWord_of_head hw h hc, .inl hkey⟩
  have hbounds : AreBounds [["Draw"], ["Send"]] := by
    refine ⟨List.cons_ne_nil _ _, ?_⟩
    rw [List.forall_mem_cons, List.forall_mem_singleton]
    exact ⟨hword rfl (by decide) (by decide) (by decide) _,
      hword rfl (by decide) (by decide) (by decide) _⟩
  have hplain : boxedSum.Plain := by
    rw [boxedSum, Plain, PlainAll, PlainAll, Plain, Plain]
    exact ⟨hword rfl (by decide) (by decide) (by decide) _, ⟨_, hbounds, by decide⟩, trivial⟩
  have hfalls : ¬boxedSum.Stands := by
    rw [boxedSum, Stands, StandsAll, Stands]
    exact fun h => h.1.1 ⟨_, _, _, hbounds, by decide⟩
  obtain ⟨htext, hread, -, herror⟩ := read_text_iff hplain
  exact ⟨hplain, by decide, htext, fun h => hfalls (hread.1 h), (herror hfalls).2⟩

end TypeRef

end TypedSettings
