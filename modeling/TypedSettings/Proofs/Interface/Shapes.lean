import TypedSettings.Proofs.Interface.Spelling

/-!
The trees of plain types. A tree has the shape of a type when it is what the words and signs of the
type are read as.

* `Shapes`: the trees of a plain type.
* `Shapes.ofTree`: such a tree is read as that type.
* `Shapes.lexemes`: the words and signs of a type made of names are those of its trees.
-/

namespace TypedSettings

open Source Token

namespace TypeRef

/-! ## Shapes -/

/-- The trees of the segments of a path, of which the last one has the arguments. -/
def ShapesNames (args : Tree) : List String → List Tree → Prop
  | [], _ => False
  | [w], trees => ∃ pos, trees = [.node .segment [.run [.word w pos], args]]
  | w :: ws, trees => ∃ pos pos' more, trees = .node .segment [.run [.word w pos], .absent]
      :: .run [.sign ':' true pos', .sign ':' false pos'] :: more ∧ ShapesNames args ws more

/-- The trees of the bounds of an object. -/
def ShapesBounds : List (List String) → List Tree → Prop
  | [], _ => False
  | [names], trees => ∃ parts, trees = [.node .bound [.absent, .absent,
      .node .path (.absent :: parts)]] ∧ ShapesNames .absent names parts
  | names :: bounds, trees => ∃ parts pos more, trees = .node .bound [.absent, .absent,
      .node .path (.absent :: parts)] :: .run [.sign '+' false pos] :: more ∧
      ShapesNames .absent names parts ∧ ShapesBounds bounds more

/-- A tree that a reference leads to. -/
def EnclosedTree (parens : Bool) (t : TypeRef) (shapes : Tree → Prop) (tree : Tree) : Prop :=
  match parens, t with
  | true, other _ => ∃ inner pos close,
      tree = .node .typeParen [.group .paren [inner] pos close] ∧ shapes inner
  | _, _ => shapes tree

mutual

/-- The tree has the shape of the type. -/
def Shapes (parens : Bool) : TypeRef → Tree → Prop
  | unit, tree => ∃ pos close, tree = .node .typeTuple [.group .paren [] pos close]
  | path names args, tree => ∃ parts argsTree,
      tree = .node .typePath [.node .path (.absent :: parts)] ∧
        ShapesNames argsTree names parts ∧ ShapesArgs parens args argsTree
  | reference true t, tree => ∃ pos pos' inner,
      tree = .node .typeRef [.run [.sign '&' false pos], .absent, .run [.word "mut" pos'], inner] ∧
        EnclosedTree parens t (Shapes parens t) inner
  | reference false t, tree => ∃ pos inner,
      tree = .node .typeRef [.run [.sign '&' false pos], .absent, .absent, inner] ∧
        EnclosedTree parens t (Shapes parens t) inner
  | other text, tree => ∃ bounds pos trees, text = objectText bounds ∧
      tree = .node .typeObject [.run [.word "dyn" pos], .node .bounds trees] ∧
        ShapesBounds bounds trees

def ShapesArgs (parens : Bool) : List TypeRef → Tree → Prop
  | [], args => args = .absent
  | t :: ts, args => ∃ pos pos' tree more, args = .node .angleArgs
      (.absent :: .run [.sign '<' false pos] :: (tree :: more ++ [.run [.sign '>' false pos']])) ∧
        Shapes parens t tree ∧ ShapesMore parens ts more

/-- The trees of the arguments that follow a first one. -/
def ShapesMore (parens : Bool) : List TypeRef → List Tree → Prop
  | [], trees => trees = []
  | t :: ts, trees => ∃ pos tree more,
      trees = .run [.sign ',' false pos] :: tree :: more ∧ Shapes parens t tree ∧
        ShapesMore parens ts more

end

variable {parens : Bool}

theorem Shapes.kind {t : TypeRef} {tree : Tree} (h : Shapes parens t tree) :
    ∃ k parts, tree = .node k parts ∧ k ∈ [.typeTuple, .typePath, .typeRef, .typeObject] := by
  cases t with
  | unit =>
    rw [Shapes] at h
    obtain ⟨pos, close, rfl⟩ := h
    exact ⟨_, _, rfl, by decide⟩
  | path names args =>
    rw [Shapes] at h
    obtain ⟨parts, argsTree, rfl, -⟩ := h
    exact ⟨_, _, rfl, by decide⟩
  | reference mutable t =>
    cases mutable <;> rw [Shapes] at h
    · obtain ⟨pos, inner, rfl, -⟩ := h
      exact ⟨_, _, rfl, by decide⟩
    · obtain ⟨pos, pos', inner, rfl, -⟩ := h
      exact ⟨_, _, rfl, by decide⟩
  | other text =>
    rw [Shapes] at h
    obtain ⟨bounds, pos, trees, -, rfl, -⟩ := h
    exact ⟨_, _, rfl, by decide⟩

/-- A type is an argument of its own kind, and no lifetime. -/
theorem Shapes.isTypeArgument {t : TypeRef} {tree : Tree} (h : Shapes parens t tree) :
    isTypeArgument tree = true ∧ tree.isKind .lifetime = false := by
  obtain ⟨k, parts, rfl, hk⟩ := h.kind
  have hkinds : ∀ k ∈ [Kind.typeTuple, .typePath, .typeRef, .typeObject],
      TypeRef.isTypeArgument (.node k []) = true ∧
        (Source.Tree.node k []).isKind .lifetime = false := by decide
  exact hkinds k hk

/-! ## Words and signs -/

theorem ShapesNames.lexemes {args : Tree} {names : List String} {trees : List Tree}
    (h : ShapesNames args names trees) :
    Token.lexemes (Tree.tokensAll trees) = lexemesNames names ++ Token.lexemes args.tokens := by
  induction names generalizing trees with
  | nil => exact h.elim
  | cons w names ih =>
    cases names with
    | nil =>
      obtain ⟨pos, rfl⟩ := h
      simp [Tree.tokens, Tree.tokensAll, lexemesOf, lexemesNames]
    | cons w' names =>
      obtain ⟨pos, pos', more, rfl, hmore⟩ := h
      simp [Tree.tokens, Tree.tokensAll, Tree.absent, lexemesOf, lexemesNames, ih hmore]

theorem enclosedTree_named {t : TypeRef} (ht : t.Named) {shapes : Tree → Prop} {tree : Tree} :
    EnclosedTree parens t shapes tree ↔ shapes tree := by
  cases t with
  | other text =>
    rw [Named] at ht
    exact ht.elim
  | _ => cases parens <;> rfl

mutual

/-- The words and signs of a type made of names are those of its trees. -/
theorem Shapes.lexemes : ∀ {t : TypeRef} {tree : Tree}, Shapes parens t tree → t.Named →
    Token.lexemes tree.tokens = t.lexemes
  | unit, tree, h, _ => by
    rw [Shapes] at h
    obtain ⟨pos, close, rfl⟩ := h
    rfl
  | path names args, tree, h, ht => by
    rw [Shapes] at h
    rw [Named] at ht
    obtain ⟨parts, argsTree, rfl, hnames, hargs⟩ := h
    rw [TypeRef.lexemes, ← ShapesArgs.lexemes hargs ht.2, ← hnames.lexemes]
    simp [Tree.tokens, Tree.tokensAll, Tree.absent]
  | reference true t, tree, h, ht => by
    rw [Shapes] at h
    rw [Named] at ht
    obtain ⟨pos, pos', inner, rfl, hinner⟩ := h
    rw [TypeRef.lexemes, ← Shapes.lexemes ((enclosedTree_named ht).1 hinner) ht]
    simp [Tree.tokens, Tree.tokensAll, Tree.absent, lexemesOf]
  | reference false t, tree, h, ht => by
    rw [Shapes] at h
    rw [Named] at ht
    obtain ⟨pos, inner, rfl, hinner⟩ := h
    rw [TypeRef.lexemes, ← Shapes.lexemes ((enclosedTree_named ht).1 hinner) ht]
    simp [Tree.tokens, Tree.tokensAll, Tree.absent, lexemesOf]
  | other _, _, _, ht => by
    rw [Named] at ht
    exact ht.elim

theorem ShapesArgs.lexemes : ∀ {ts : List TypeRef} {args : Tree}, ShapesArgs parens ts args →
    NamedAll ts → Token.lexemes args.tokens = lexemesArgs ts
  | [], args, h, _ => by
    rw [ShapesArgs] at h
    subst h
    rw [lexemesArgs]
    rfl
  | t :: ts, args, h, ht => by
    rw [ShapesArgs] at h
    rw [NamedAll] at ht
    obtain ⟨pos, pos', tree, more, rfl, htree, hmore⟩ := h
    rw [lexemesArgs, ← Shapes.lexemes htree ht.1, ← ShapesMore.lexemes hmore ht.2]
    simp [Tree.tokens, Tree.tokensAll, Tree.tokensAll_append, Tree.absent, lexemesOf]

theorem ShapesMore.lexemes : ∀ {ts : List TypeRef} {trees : List Tree},
    ShapesMore parens ts trees → NamedAll ts →
      Token.lexemes (Tree.tokensAll trees) ++ [">"] = lexemesMore ts
  | [], trees, h, _ => by
    rw [ShapesMore] at h
    subst h
    rw [lexemesMore]
    rfl
  | t :: ts, trees, h, ht => by
    rw [ShapesMore] at h
    rw [NamedAll] at ht
    obtain ⟨pos, tree, more, rfl, htree, hmore⟩ := h
    rw [lexemesMore, ← Shapes.lexemes htree ht.1, ← ShapesMore.lexemes hmore ht.2]
    simp [Tree.tokens, Tree.tokensAll, lexemesOf]

end

/-! ## Text -/

theorem textFrom_word (w : String) (pos : Position) (ts : List Token) :
    Token.textFrom false (.word w pos :: ts) = " " ++ w ++ Token.textFrom false ts := by
  rw [Token.textFrom.eq_2, shown]
  rfl

theorem textFrom_colons (pos pos' : Position) (ts : List Token) :
    Token.textFrom false (.sign ':' true pos :: .sign ':' false pos' :: ts)
      = " ::" ++ Token.textFrom false ts := by
  rw [Token.textFrom.eq_2, Token.textFrom.eq_2, shown, shown, ← String.append_assoc]
  rfl

theorem textFrom_plus (pos : Position) (ts : List Token) :
    Token.textFrom false (.sign '+' false pos :: ts) = " +" ++ Token.textFrom false ts := by
  rw [Token.textFrom.eq_2, shown]
  rfl

theorem intercalate_cons (sep a b : String) (as : List String) :
    sep.intercalate (a :: b :: as) = a ++ (sep ++ sep.intercalate (b :: as)) := by
  rw [← String.toList_inj, toList_intercalate_cons, String.toList_append, String.toList_append]

/-- The text of a path without arguments. -/
theorem ShapesNames.textFrom {names : List String} {trees : List Tree}
    (h : ShapesNames .absent names trees) (rest : List Token) :
    Token.textFrom false (Tree.tokensAll trees ++ rest)
      = " " ++ (" :: ".intercalate names ++ Token.textFrom false rest) := by
  induction names generalizing trees with
  | nil => exact h.elim
  | cons w names ih =>
    cases names with
    | nil =>
      obtain ⟨pos, rfl⟩ := h
      rw [String.intercalate_singleton, ← String.append_assoc]
      exact textFrom_word w pos rest
    | cons w' names =>
      obtain ⟨pos, pos', more, rfl, hmore⟩ := h
      have hsep (s : String) : " ::" ++ (" " ++ s) = " :: " ++ s := by
        rw [← String.append_assoc]
        rfl
      refine (textFrom_word w pos _).trans ?_
      refine (congrArg _ (textFrom_colons pos' pos' (Tree.tokensAll more ++ rest))).trans ?_
      rw [ih hmore, intercalate_cons]
      simp only [String.append_assoc, hsep]

/-- The text of the bounds of an object. -/
theorem ShapesBounds.textFrom {bounds : List (List String)} {trees : List Tree}
    (h : ShapesBounds bounds trees) :
    Token.textFrom false (Tree.tokensAll trees)
      = " " ++ " + ".intercalate (bounds.map (" :: ".intercalate ·)) := by
  induction bounds generalizing trees with
  | nil => exact h.elim
  | cons names bounds ih =>
    have hbound (parts : List Tree) : (Source.Tree.node .bound
        [.absent, .absent, .node .path (.absent :: parts)]).tokens = Tree.tokensAll parts := by
      simp [Tree.tokens, Tree.tokensAll, Tree.absent]
    cases bounds with
    | nil =>
      obtain ⟨parts, rfl, hnames⟩ := h
      rw [Tree.tokensAll, Tree.tokensAll, hbound, hnames.textFrom]
      simp [Token.textFrom]
    | cons names' bounds =>
      obtain ⟨parts, pos, more, rfl, hnames, hmore⟩ := h
      have hsep (s : String) : " +" ++ (" " ++ s) = " + " ++ s := by
        rw [← String.append_assoc]
        rfl
      rw [Tree.tokensAll, hbound, hnames.textFrom, Tree.tokensAll]
      refine (congrArg (fun s => " " ++ (" :: ".intercalate names ++ s))
        (textFrom_plus pos (Tree.tokensAll more))).trans ?_
      rw [ih hmore, hsep]
      exact congrArg _ (intercalate_cons ..).symm

theorem ShapesBounds.text {bounds : List (List String)} {trees : List Tree}
    (h : ShapesBounds bounds trees) (pos : Position) :
    (Source.Tree.node .typeObject [.run [.word "dyn" pos], .node .bounds trees]).text
      = objectText bounds := by
  have htokens : (Source.Tree.node .typeObject
      [.run [.word "dyn" pos], .node .bounds trees]).tokens
        = .word "dyn" pos :: Tree.tokensAll trees := by
    simp [Tree.tokens, Tree.tokensAll]
  have hdyn (s : String) : "dyn" ++ (" " ++ s) = "dyn " ++ s := by
    rw [← String.append_assoc]
    rfl
  rw [Tree.text, htokens, Token.text, Token.textFrom.eq_2, shown]
  refine (congrArg (fun s => "" ++ "dyn" ++ s) h.textFrom).trans ?_
  exact (String.append_assoc ..).trans (hdyn _)

/-! ## Types -/

/-- The members of the segments of a path. -/
theorem ShapesNames.members {args : Tree} {names : List String} {trees : List Tree}
    (h : ShapesNames args names trees) :
    ∃ init w pos, Tree.members trees = init ++ [.node .segment [.run [.word w pos], args]] ∧
      (∀ s ∈ init, (s.part 1).isAbsent = true) ∧
      (Tree.members trees).map (fun s => (s.part 0).word) = names := by
  induction names generalizing trees with
  | nil => exact h.elim
  | cons w names ih =>
    cases names with
    | nil =>
      obtain ⟨pos, rfl⟩ := h
      exact ⟨[], w, pos, rfl, nofun, rfl⟩
    | cons w' names =>
      obtain ⟨pos, pos', more, rfl, hmore⟩ := h
      obtain ⟨init, v, pos'', hmembers, hinit, hnames⟩ := ih hmore
      rw [Tree.members, List.map_cons, hnames, hmembers]
      exact ⟨_ :: init, v, pos'', rfl, List.forall_mem_cons.2 ⟨rfl, hinit⟩, rfl⟩

theorem ShapesMore.isTypeArgument {ts : List TypeRef} {tree : Tree} {more : List Tree}
    (h : ShapesMore parens ts more) (htree : TypeRef.isTypeArgument tree = true) :
    (Tree.members (tree :: more)).all TypeRef.isTypeArgument = true := by
  induction ts generalizing tree more with
  | nil =>
    rw [ShapesMore] at h
    subst h
    simpa [Tree.members] using htree
  | cons t ts ih =>
    rw [ShapesMore] at h
    obtain ⟨pos, tree', more, rfl, htree', hmore⟩ := h
    rw [Tree.members, List.all_cons, htree, ih hmore htree'.isTypeArgument.1]
    rfl

/-- The arguments of a path, if its last segment has some. -/
theorem ShapesNames.pathArguments? {args : Tree} {names : List String} {trees : List Tree}
    (h : ShapesNames args names trees) : pathArguments? (Tree.members trees)
      = if args.isAbsent then some []
        else if args.isKind .angleArgs && (angleArguments args).all TypeRef.isTypeArgument then
          some (angleArguments args)
        else none := by
  obtain ⟨init, w, pos, hmembers, hinit, -⟩ := h.members
  have hall : ((init ++ [Source.Tree.node .segment [.run [.word w pos], args]]).dropLast.all
      fun s => (s.part 1).isAbsent) = true := by
    rw [List.dropLast_concat]
    exact List.all_eq_true.2 hinit
  rw [hmembers]
  unfold TypeRef.pathArguments?
  rw [List.getLast?_concat]
  dsimp only
  rw [hall]
  rfl

theorem angleArguments_of (pos pos' : Position) (trees : List Tree) :
    angleArguments (.node .angleArgs (.absent :: .run [.sign '<' false pos]
      :: (trees ++ [.run [.sign '>' false pos']]))) = Tree.members trees := by
  rw [angleArguments, Tree.parts, List.drop_succ_cons, List.drop_succ_cons, List.drop_zero,
    List.dropLast_concat]

theorem count_word (w : String) (pos : Position) (ts : List Token) :
    Token.count (.word w pos :: ts) = Token.count ts + 1 := by
  rw [Token.count, Nat.add_comm]
  rfl

theorem count_sign (c : Char) (joint : Bool) (pos : Position) (ts : List Token) :
    Token.count (.sign c joint pos :: ts) = Token.count ts + 1 := by
  rw [Token.count, Nat.add_comm]
  rfl

theorem count_parens (ts us : List Token) (pos close : Position) :
    Token.count (.group .paren ts pos close :: us) = Token.count ts + Token.count us + 1 := by
  rw [Token.count, Token.size]
  omega

theorem ShapesNames.count_le {args : Tree} {names : List String} {trees : List Tree}
    (h : ShapesNames args names trees) :
    Token.count args.tokens < Token.count (Tree.tokensAll trees) := by
  induction names generalizing trees with
  | nil => exact h.elim
  | cons w names ih =>
    cases names with
    | nil =>
      obtain ⟨pos, rfl⟩ := h
      simp [Tree.tokens, Tree.tokensAll, count_word]
    | cons w' names =>
      obtain ⟨pos, pos', more, rfl, hmore⟩ := h
      have := ih hmore
      simp only [Tree.tokens, Tree.tokensAll, Token.count_append]
      omega

/-- Parentheses around a type mean nothing. -/
theorem ofTreeFuel_enclosed {t : TypeRef} {tree : Tree} {fuel : Nat}
    (h : EnclosedTree parens t (Shapes parens t) tree) (hfuel : Token.count tree.tokens < fuel)
    (ih : ∀ {tree : Tree} {fuel : Nat}, Shapes parens t tree → Token.count tree.tokens < fuel →
      TypeRef.ofTreeFuel fuel tree = t) : TypeRef.ofTreeFuel fuel tree = t := by
  cases parens with
  | false => exact ih h hfuel
  | true =>
    cases t with
    | other text =>
      obtain ⟨inner, pos, close, rfl, hinner⟩ := h
      obtain ⟨fuel, rfl⟩ := Nat.exists_eq_add_of_le' (Nat.one_le_of_lt hfuel)
      simp only [Tree.tokens, Tree.tokensAll, List.append_nil, count_parens] at hfuel
      show TypeRef.ofTreeFuel fuel inner = _
      exact ih hinner (by omega)
    | _ => exact ih h hfuel

mutual

/-- A tree of the shape of a type is read as that type. -/
theorem Shapes.ofTreeFuel : ∀ {t : TypeRef} {tree : Tree} {fuel : Nat}, Shapes parens t tree →
    Token.count tree.tokens < fuel → ofTreeFuel fuel tree = t
  | unit, tree, fuel + 1, h, _ => by
    rw [Shapes] at h
    obtain ⟨pos, close, rfl⟩ := h
    rfl
  | path names args, tree, fuel + 1, h, hfuel => by
    rw [Shapes] at h
    obtain ⟨parts, argsTree, rfl, hnames, hargs⟩ := h
    obtain ⟨-, -, -, -, -, hwords⟩ := hnames.members
    have hread : TypeRef.ofTreeFuel (fuel + 1) (.node .typePath [.node .path (.absent :: parts)])
        = match TypeRef.pathArguments? (Tree.members parts) with
          | some as => path names (as.map (TypeRef.ofTreeFuel fuel))
          | none => other (Source.Tree.node .typePath [.node .path (.absent :: parts)]).text := by
      rw [← hwords]
      rfl
    rw [hread, hnames.pathArguments?]
    cases args with
    | nil =>
      rw [ShapesArgs] at hargs
      subst hargs
      rfl
    | cons t ts =>
      rw [ShapesArgs] at hargs
      obtain ⟨pos, pos', tree, more, rfl, htree, hmore⟩ := hargs
      have hargs := angleArguments_of pos pos' (tree :: more)
      rw [hargs, hmore.isTypeArgument htree.isTypeArgument.1]
      have hcount := hnames.count_le
      simp only [Tree.tokens, Tree.tokensAll, Tree.tokensAll_append, Tree.absent, List.nil_append,
        List.append_nil, Token.count_append, count_sign, List.cons_append] at hfuel hcount
      show path names ((Tree.members (tree :: more)).map (TypeRef.ofTreeFuel fuel)) = _
      rw [ShapesMore.ofTreeFuel hmore (by omega), Shapes.ofTreeFuel htree (by omega)]
  | reference true t, tree, fuel + 1, h, hfuel => by
    rw [Shapes] at h
    obtain ⟨pos, pos', inner, rfl, hinner⟩ := h
    simp only [Tree.tokens, Tree.tokensAll, Tree.absent, List.nil_append, List.append_nil,
      List.cons_append, count_sign, count_word] at hfuel
    exact congrArg (reference true)
      (ofTreeFuel_enclosed hinner (by omega) fun htree hfuel => Shapes.ofTreeFuel htree hfuel)
  | reference false t, tree, fuel + 1, h, hfuel => by
    rw [Shapes] at h
    obtain ⟨pos, inner, rfl, hinner⟩ := h
    simp only [Tree.tokens, Tree.tokensAll, Tree.absent, List.nil_append, List.append_nil,
      List.cons_append, count_sign] at hfuel
    exact congrArg (reference false)
      (ofTreeFuel_enclosed hinner (by omega) fun htree hfuel => Shapes.ofTreeFuel htree hfuel)
  | other text, tree, fuel + 1, h, hfuel => by
    rw [Shapes] at h
    obtain ⟨bounds, pos, trees, rfl, rfl, hbounds⟩ := h
    exact congrArg other (hbounds.text pos)

theorem ShapesMore.ofTreeFuel : ∀ {ts : List TypeRef} {tree : Tree} {more : List Tree} {fuel : Nat},
    ShapesMore parens ts more → Token.count (Tree.tokensAll more) < fuel →
      (Tree.members (tree :: more)).map (ofTreeFuel fuel) = ofTreeFuel fuel tree :: ts
  | [], tree, more, fuel, h, _ => by
    rw [ShapesMore] at h
    subst h
    rfl
  | t :: ts, tree, more, fuel, h, hfuel => by
    rw [ShapesMore] at h
    obtain ⟨pos, tree', more, rfl, htree', hmore⟩ := h
    rw [Tree.tokensAll, Tree.tokensAll, Token.count_append, Token.count_append] at hfuel
    rw [Tree.members, List.map_cons, ShapesMore.ofTreeFuel hmore (by omega),
      Shapes.ofTreeFuel htree' (by omega)]

end

theorem Shapes.ofTree {t : TypeRef} {tree : Tree} (h : Shapes parens t tree) :
    TypeRef.ofTree tree = t := h.ofTreeFuel (Nat.lt_succ_self _)

end TypeRef

end TypedSettings
