import TypedSettings.Proofs.Interface.Readback

/-!
Types as they are written, and as generated code gives them again. A type knows no lifetime of a
reference and no colons in front of a path; a type made of names is given again without them, and
with all the rest.

* `recalled_of_named`: what a type knows of what was written.
* `kept_iff`: when a type is given as it was written.
-/

namespace TypedSettings

open Source

namespace TypeRef

/-- Arguments in angle brackets. -/
def angled : List (List String) → List String
  | [] => []
  | a :: as => "<" :: (a ++ as.flatMap ("," :: ·) ++ [">"])

/-- The words and signs of a type as it is written. Parentheses around a type mean nothing, nor do
a comma after the last argument and colons in front of the first. -/
def writtenFuel : (fuel : Nat) → Tree → List String
  | 0, t => Token.lexemes t.tokens
  | fuel + 1, t =>
    match t with
    | .node .typeTuple [.group _ [] _ _] => ["(", ")"]
    | .node .typeParen [.group _ [inner] _ _] => writtenFuel fuel inner
    | .node .typeRef [_, l, mut', inner] =>
      "&" :: (Token.lexemes l.tokens
        ++ ((if mut'.isAbsent then [] else ["mut"]) ++ writtenFuel fuel inner))
    | .node .typePath [.node .path parts] =>
      let segments := Tree.members (parts.drop 1)
      match pathArguments? segments with
      | some args =>
        Token.lexemes ((Source.Tree.node .path parts).part 0).tokens
          ++ (lexemesNames (segments.map fun s => (s.part 0).word)
            ++ angled (args.map (writtenFuel fuel)))
      | none => Token.lexemes t.tokens
    | t => Token.lexemes t.tokens

def written (t : Tree) : List String := writtenFuel (Token.count t.tokens + 1) t

/-- Whether a type is written without what a type does not know: a lifetime on a reference, and
colons in front of a path. -/
def unabridgedFuel : (fuel : Nat) → Tree → Bool
  | 0, _ => true
  | fuel + 1, t =>
    match t with
    | .node .typeParen [.group _ [inner] _ _] => unabridgedFuel fuel inner
    | .node .typeRef [_, l, _, inner] => l.tokens.isEmpty && unabridgedFuel fuel inner
    | .node .typePath [.node .path parts] =>
      match pathArguments? (Tree.members (parts.drop 1)) with
      | some args => ((Source.Tree.node .path parts).part 0).tokens.isEmpty
          && args.all (unabridgedFuel fuel)
      | none => true
    | _ => true

def unabridged (t : Tree) : Bool := unabridgedFuel (Token.count t.tokens + 1) t

theorem lexemesMore_eq (ts : List TypeRef) :
    lexemesMore ts = (ts.map lexemes).flatMap ("," :: ·) ++ [">"] := by
  induction ts with
  | nil => rw [lexemesMore]; rfl
  | cons t ts ih => rw [lexemesMore, ih]; simp

theorem lexemesArgs_eq (ts : List TypeRef) : lexemesArgs ts = angled (ts.map lexemes) := by
  cases ts with
  | nil => rw [lexemesArgs]; rfl
  | cons t ts => rw [lexemesArgs, lexemesMore_eq, List.map_cons, angled, List.append_assoc]

theorem lexemes_eq_nil {ts : List Token} : Token.lexemes ts = [] ↔ ts = [] := by
  cases ts with
  | nil => simp
  | cons t ts => cases t <;> simp [Token.lexemesOf]

/-- Two lists that lose something as they are joined lose something in one of them. -/
theorem append_eq_append_of_sublist {α : Type} {as bs cs ds : List α} (h : as.Sublist cs)
    (h' : bs.Sublist ds) : cs ++ ds = as ++ bs ↔ cs = as ∧ ds = bs := by
  constructor
  · intro heq
    have hlength := congrArg List.length heq
    rw [List.length_append, List.length_append] at hlength
    have := h.length_le
    have := h'.length_le
    exact ⟨(h.eq_of_length (by omega)).symm, (h'.eq_of_length (by omega)).symm⟩
  · rintro ⟨rfl, rfl⟩
    rfl

theorem flatMap_cons_sublist {s : String} {as bs : List (List String)}
    (h : List.Forall₂ List.Sublist as bs) :
    (as.flatMap (s :: ·)).Sublist (bs.flatMap (s :: ·)) ∧
      (bs.flatMap (s :: ·) = as.flatMap (s :: ·) ↔ bs = as) := by
  induction h with
  | nil => exact ⟨.refl _, by simp⟩
  | @cons a b as bs hab _ ih =>
    refine ⟨(hab.cons_cons s).append ih.1, ?_⟩
    rw [List.flatMap_cons, List.flatMap_cons, append_eq_append_of_sublist (hab.cons_cons s) ih.1,
      ih.2]
    simp

theorem angled_sublist {as bs : List (List String)} (h : List.Forall₂ List.Sublist as bs) :
    (angled as).Sublist (angled bs) ∧ (angled bs = angled as ↔ bs = as) := by
  cases h with
  | nil => exact ⟨.refl _, by simp⟩
  | @cons a b as bs hab hrest =>
    obtain ⟨hsub, hiff⟩ := flatMap_cons_sublist (s := ",") hrest
    refine ⟨((hab.append hsub).append (.refl _)).cons_cons _, ?_⟩
    rw [angled, angled, List.cons.injEq, List.append_left_inj,
      append_eq_append_of_sublist hab hsub, hiff]
    simp

theorem namedAll_iff {ts : List TypeRef} : NamedAll ts ↔ ∀ t ∈ ts, t.Named := by
  induction ts with
  | nil => simp [NamedAll]
  | cons t ts ih => rw [NamedAll, ih, List.forall_mem_cons]

/-- A tree's type has the words and signs that were written, less those that a type does not
know. -/
structure Recalled (fuel : Nat) (t : Tree) : Prop where
  sublist : (ofTreeFuel fuel t).lexemes.Sublist (writtenFuel fuel t)
  eq_iff : writtenFuel fuel t = (ofTreeFuel fuel t).lexemes ↔ unabridgedFuel fuel t = true

theorem recalled_reference {fuel : Nat} {amp l mut' inner : Tree} (h : Recalled fuel inner) :
    Recalled (fuel + 1) (.node .typeRef [amp, l, mut', inner]) := by
  have hlexemes : (ofTreeFuel (fuel + 1) (.node .typeRef [amp, l, mut', inner])).lexemes
      = "&" :: ([] ++ ((if mut'.isAbsent then [] else ["mut"])
        ++ (ofTreeFuel fuel inner).lexemes)) := by
    cases hmut : mut'.isAbsent <;> simp [ofTreeFuel, hmut, lexemes]
  have hmut := (List.Sublist.refl (if mut'.isAbsent then [] else ["mut"])).append h.sublist
  constructor
  case sublist =>
    rw [hlexemes, writtenFuel]
    exact ((List.nil_sublist _).append hmut).cons_cons _
  case eq_iff =>
    rw [hlexemes, writtenFuel, unabridgedFuel, List.cons.injEq,
      append_eq_append_of_sublist (List.nil_sublist _) hmut,
      append_eq_append_of_sublist (.refl _) h.sublist, h.eq_iff, lexemes_eq_nil, Bool.and_eq_true,
      List.isEmpty_iff]
    simp

theorem recalled_path {fuel : Nat} {parts args : List Tree}
    (hargs : pathArguments? (Tree.members (parts.drop 1)) = some args)
    (h : ∀ a ∈ args, Recalled fuel a) :
    Recalled (fuel + 1) (.node .typePath [.node .path parts]) := by
  have hargs' : List.Forall₂ List.Sublist ((args.map (ofTreeFuel fuel)).map lexemes)
      (args.map (writtenFuel fuel)) := by
    rw [List.map_map, List.forall₂_map_left_iff, List.forall₂_map_right_iff]
    exact List.forall₂_same.2 fun a ha => (h a ha).sublist
  have hkept : args.map (writtenFuel fuel) = (args.map (ofTreeFuel fuel)).map lexemes
      ↔ args.all (unabridgedFuel fuel) = true := by
    rw [List.map_map, List.map_inj_left, List.all_eq_true]
    exact forall₂_congr fun a ha => (h a ha).eq_iff
  obtain ⟨hsub, hiff⟩ := angled_sublist hargs'
  set names := (Tree.members (parts.drop 1)).map fun s => (s.part 0).word with hnames
  have hlexemes : (ofTreeFuel (fuel + 1) (.node .typePath [.node .path parts])).lexemes
      = [] ++ (lexemesNames names ++ angled ((args.map (ofTreeFuel fuel)).map lexemes)) := by
    simp only [ofTreeFuel, hargs, lexemes, lexemesArgs_eq, List.nil_append, hnames]
  have hpath := (List.Sublist.refl (lexemesNames names)).append hsub
  constructor
  case sublist =>
    simp only [hlexemes, writtenFuel, hargs]
    exact (List.nil_sublist _).append hpath
  case eq_iff =>
    simp only [hlexemes, writtenFuel, unabridgedFuel, hargs]
    rw [append_eq_append_of_sublist (List.nil_sublist _) hpath,
      append_eq_append_of_sublist (.refl _) hsub, hiff, hkept, lexemes_eq_nil,
      Bool.and_eq_true, List.isEmpty_iff]
    simp

/-- A type made of names recalls what was written. -/
theorem recalled_of_named {fuel : Nat} {t : Tree} (h : (ofTreeFuel fuel t).Named) :
    Recalled fuel t := by
  induction fuel generalizing t with
  | zero =>
    rw [ofTreeFuel, Named] at h
    exact h.elim
  | succ fuel ih =>
    unfold ofTreeFuel at h
    split at h
    · constructor
      case sublist => simp only [ofTreeFuel, writtenFuel, lexemes, List.Sublist.refl]
      case eq_iff => simp [ofTreeFuel, writtenFuel, unabridgedFuel, lexemes]
    · exact ⟨(ih h).sublist, (ih h).eq_iff⟩
    · rw [Named] at h
      exact recalled_reference (ih h)
    · dsimp only at h
      split at h
      · next args hargs =>
        rw [Named, namedAll_iff, List.forall_mem_map] at h
        exact recalled_path hargs fun a ha => ih (h.2 a ha)
      · rw [Named] at h
        exact h.elim
    · rw [Named] at h
      exact h.elim

/-- The words and signs that a type is given in generated code. -/
def emitted (t : TypeRef) : List String :=
  match Emit.typeTokens t with
  | .ok ts => Token.lexemes ts
  | .error _ => []

/-- The type is given as it was written. -/
def Kept (t : Tree) : Prop := (ofTree t).emitted = written t

theorem typeTokens_named {t : TypeRef} (ht : t.Named) :
    ∃ ts, Emit.typeTokens t = .ok ts ∧ Token.lexemes ts = t.lexemes := by
  obtain ⟨tree, htree, hlex⟩ := readType_text ht
  refine ⟨tree.tokens, ?_, hlex⟩
  rw [Emit.typeTokens, htree]

theorem emitted_named {t : TypeRef} (ht : t.Named) : t.emitted = t.lexemes := by
  obtain ⟨ts, hts, hlex⟩ := typeTokens_named ht
  rw [emitted, hts]
  exact hlex

/-- A type made of names is given as it was written, unless it was written with what it does not
know. -/
theorem kept_iff {t : Tree} (ht : (ofTree t).Named) : Kept t ↔ unabridged t = true := by
  have hlexemes := (recalled_of_named ht).eq_iff
  rw [Kept, emitted_named ht, eq_comm]
  exact hlexemes

theorem unabridged_of_unit {fuel : Nat} {t : Tree} (h : ofTreeFuel fuel t = .unit) :
    unabridgedFuel fuel t = true := by
  induction fuel generalizing t with
  | zero => rfl
  | succ fuel ih =>
    unfold ofTreeFuel at h
    split at h
    · rfl
    · exact ih h
    · cases h
    · dsimp only at h
      split at h <;> cases h
    · cases h

theorem kept_unit {t : Tree} (h : ofTree t = .unit) : Kept t :=
  (kept_iff (by rw [h, Named]; trivial)).2 (unabridged_of_unit h)

end TypeRef

end TypedSettings
