import TypedSettings.Proofs.Source.QuietPaths
import TypedSettings.Proofs.Unit.Assembly

/-!
Units declare nothing. Outside of brackets a unit has words of its own, the name of its structure,
and paths; none of them starts a trait or a module. So none is among its items, whatever else the
paths make of the code.

* `yields_toDepth_quiet`: at quiet tokens no item is a trait or a module.
* `unit_quiet`: the tokens of a unit are quiet.
* `items_silent`: no item of a unit is a trait or a module.
-/

namespace TypedSettings

namespace Source

/-- A tree that declares no interface, and holds none that does. -/
def Tree.Silent (t : Tree) : Prop := t.isKind .itemTrait = false ∧ t.isKind .itemMod = false

namespace Grammar

open TypedSettings.Source.Parser Token

variable {rules : Rules}

theorem Unnamed.silent {t : Tree} (h : Unnamed t) : t.Silent :=
  ⟨h .itemTrait (by decide), h .itemMod (by decide)⟩

/-- At quiet tokens there is no word that starts a declaration. -/
theorem yields_declaring {w : String} (hw : w = "trait" ∨ w = "mod") {α : Type}
    {f : Tree → Parser α} {Q : α → Prop} : Yields Quiet (keyword w >>= f) Q := by
  intro c a c' hquiet h
  obtain ⟨t, c₁, ht, -⟩ := run_bind_eq_ok.1 h
  rw [keyword, peekWord, peek_bind, hquiet.isWord_eq_false hw] at ht
  cases ht

section

variable [∀ r, Advances (rules r)]

/-- At quiet tokens an item is no trait and no module. -/
theorem yields_item?_quiet : Yields Quiet (item? rules) (IfSome Tree.Silent) :=
  yields_item?_of (fun _ => Unnamed.silent) (yields_useItem? fun _ => ⟨rfl, rfl⟩)
    (fun _ _ _ _ => yields_declaring (.inl rfl)) fun _ _ _ => yields_declaring (.inr rfl)

end

theorem yields_toDepth_quiet (depth : Nat) : Yields Quiet (toDepth depth .item) Tree.Silent := by
  cases depth with
  | zero => exact yields_fail
  | succ depth => exact yields_orVerbatim yields_item?_quiet fun _ => ⟨rfl, rfl⟩

/-- No item of a file of quiet tokens is a trait or a module. -/
theorem readTokens_silent {ts : List Token} {trees : List Tree} (hquiet : Quiet ts)
    (h : readTokens file ts = .ok trees) : ∀ t ∈ trees.drop 1, t.Silent := by
  obtain ⟨close, hrun⟩ := runAll_eq_ok.1 h
  have hfile : Yields Quiet (file (toDepth (depthFor ts)))
      fun trees => ∀ t ∈ trees.drop 1, t.Silent :=
    yields_seq fun attrs => (yields_manyUntil (yields_toDepth_quiet _)).bind fun items hitems =>
      yields_pure hitems
  exact (hfile hquiet hrun).1

end Grammar

end Source

/-! ## The tokens of a unit -/

open Source Source.Token

theorem quiet_piece {s : String} (h : s ≠ "trait" ∧ s ≠ "mod") : Quiet (piece s) := by
  unfold piece
  split
  · exact quiet_nil
  · split
    · exact quiet_of_forall (by simp [declares])
    · split
      · exact quiet_of_forall (by simp [declares, name, h.1, h.2])
      · exact Parser.quiet_operatorAt _ _

theorem quiet_code {pieces : List String} (h : ∀ s ∈ pieces, s ≠ "trait" ∧ s ≠ "mod") :
    Quiet (code pieces) := by
  induction pieces with
  | nil => exact quiet_nil
  | cons s pieces ih =>
    rw [List.forall_mem_cons] at h
    exact (quiet_piece h.1).append (ih h.2)

theorem quiet_group (d : Delimiter) (body : List Token) : Quiet [delimited d body] :=
  quiet_of_forall (by simp [declares, delimited])

theorem quiet_flatMap {α : Type} {as : List α} {f : α → List Token} (h : ∀ a ∈ as, Quiet (f a)) :
    Quiet (as.flatMap f) := by
  induction as with
  | nil => exact quiet_nil
  | cons a as ih =>
    rw [List.forall_mem_cons] at h
    exact h.1.append (ih h.2)

namespace CodePath

theorem read_quiet {text : String} {p : CodePath} (h : read text = .ok p) : Quiet p.tokens := by
  unfold read at h
  split at h
  · next hread =>
    cases h
    exact readPath_quiet hread
  · cases h

end CodePath

namespace GeneratedUnit

theorem quiet_coreImports : Quiet coreImports :=
  quiet_of_forall (by decide +kernel)

theorem quiet_implTokens {structName : String} {path : List Token} (methods : List GeneratedMethod)
    (hname : structName ≠ "trait" ∧ structName ≠ "mod") (hpath : Quiet path) :
    Quiet (implTokens structName path methods) := by
  refine (((quiet_code ?_).append hpath).append (quiet_code ?_)).append (quiet_group _ _)
  · decide
  · simpa using hname

end GeneratedUnit

namespace Emit

theorem structName_ne (name : String) :
    Naming.structName name ≠ "trait" ∧ Naming.structName name ≠ "mod" := by
  have hlast (s : String) (hs : s.toList.getLast? ≠ some 'l') : Naming.structName name ≠ s := by
    rintro rfl
    refine hs ?_
    rw [Naming.structName, String.toList_append, List.getLast?_append]
    rfl
  exact ⟨hlast _ (by decide), hlast _ (by decide)⟩

theorem quiet_definition {structName : String} (root : String) (store : StoreConfig)
    (hname : structName ≠ "trait" ∧ structName ≠ "mod") :
    Quiet (definition structName root store) := by
  have hdoc (text : Token) : Quiet (docAttribute text) :=
    (quiet_code (by decide)).append (quiet_group _ _)
  refine ((((hdoc _).append (quiet_code ?_)).append (quiet_group _ _)).append
    (quiet_code ?_)).append (quiet_group _ _)
  · simpa using hname
  · simpa using hname

/-- Outside of brackets a unit starts no trait and no module. -/
theorem unit_quiet {t : Target} {root : InterfaceDecl} {walk : Walk} {g : GeneratedUnit}
    (h : unit t root walk = .ok g) : Quiet g.tokens := by
  have hparts := assembled h
  have hne : g.structName ≠ "trait" ∧ g.structName ≠ "mod" := by
    rw [hparts.structName]
    exact structName_ne _
  have hpath : ∀ p ∈ g.imports, Quiet p.tokens := by
    intro p hp
    obtain ⟨text, -, hread⟩ := exists_of_forall₂ hparts.imports.flip hp
    exact CodePath.read_quiet hread
  have himpl : ∀ b ∈ g.impls, Quiet b.path.tokens := by
    intro b hb
    obtain ⟨interface, -, hb⟩ := exists_of_forall₂ hparts.impls.flip hb
    exact CodePath.read_quiet (impl_eq_ok hb).2.1
  rw [GeneratedUnit.tokens, hparts.definition]
  refine ((((GeneratedUnit.quiet_coreImports).append (quiet_flatMap fun p hp => ?_)).append
    (quiet_definition _ _ hne)).append (GeneratedUnit.quiet_implTokens _ hne ?_)).append
    (quiet_flatMap fun b hb => GeneratedUnit.quiet_implTokens _ hne (himpl b hb))
  · exact ((quiet_code (by decide)).append (hpath p hp)).append (quiet_code (by decide))
  · exact quiet_code (by decide)

end Emit

/-- No item of a unit's code is a trait or a module. -/
theorem GeneratedUnit.items_silent {t : Target} {root : InterfaceDecl} {walk : Walk}
    {g : GeneratedUnit} {trees : List Tree} (hunit : Emit.unit t root walk = .ok g)
    (h : readTokens Grammar.file g.tokens = .ok trees) : ∀ t ∈ trees.drop 1, t.Silent :=
  Grammar.readTokens_silent (Emit.unit_quiet hunit) h

end TypedSettings
