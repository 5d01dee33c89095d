import TypedSettings.Proofs.Source.Modules

/-!
Use declarations in a source file. The tree of a use declaration is a path or a group of trees; a
path ends in a name, in a name with another name for it, or in all names of a module. A declaration
that is read as one has such a tree: where a path from the crate root stands in a group, the tokens
of the declaration are kept.

* `UseTree`, `UseTree.Shapes`: the syntax trees of use trees.
* `Grammar.Plain`, `gives_useTree`: what the grammar gives, by induction on the depth.
* `Tree.UsesRead`, `readFile_usesRead`: the use declarations in an item.
* `exists_uses`: the use trees of the items of a file, or of a module in it.
-/

namespace TypedSettings

namespace Source

open Token

/-! ## Use trees -/

/-- What a path of a use declaration ends in. -/
inductive UseEnd where
  | name (word : String)
  | renamed (word called : String)
  | glob

/-- The tree of a use declaration. -/
inductive UseTree where
  | leaf (e : UseEnd)
  | path (segment : String) (rest : UseTree)
  | group (members : List UseTree)

/-- The syntax tree has the shape of the end of a path. -/
def UseEnd.Shapes : UseEnd → Tree → Prop
  | name w, t => ∃ pos, t = .node .useName [.run [.word w pos]]
  | renamed w called, t => ∃ pos as' pos',
      t = .node .useRename [.run [.word w pos], as', .run [.word called pos']]
  | glob, t => ∃ parts, t = .node .useGlob parts

namespace UseTree

mutual

/-- The syntax tree has the shape of the use tree. -/
def Shapes : UseTree → Tree → Prop
  | leaf e, t => e.Shapes t
  | path w rest, t => ∃ pos sep inner, t = .node .usePath [.run [.word w pos], sep, inner] ∧
      rest.Shapes inner
  | group us, t => ∃ d body pos close, t = .node .useGroup [.group d body pos close] ∧
      ShapesAll us (Tree.members body)

def ShapesAll : List UseTree → List Tree → Prop
  | [], ts => ts = []
  | u :: us, ts => ∃ t more, ts = t :: more ∧ u.Shapes t ∧ ShapesAll us more

end

theorem exists_shapesAll {ts : List Tree} (h : ∀ t ∈ ts, ∃ u : UseTree, u.Shapes t) :
    ∃ us, ShapesAll us ts := by
  induction ts with
  | nil => exact ⟨[], rfl⟩
  | cons t ts ih =>
    obtain ⟨⟨u, hu⟩, hts⟩ := List.forall_mem_cons.1 h
    obtain ⟨us, hus⟩ := ih hts
    exact ⟨u :: us, t, ts, rfl, hu, hus⟩

end UseTree

/-- The use trees of the use declarations among items, in order. -/
inductive Uses : List Tree → List UseTree → Prop
  | nil : Uses [] []
  | use {attrs vis word lead tree semi : Tree} {items : List Tree} {u : UseTree}
      {uses : List UseTree} : u.Shapes tree → Uses items uses →
      Uses (.node .itemUse [attrs, vis, word, lead, tree, semi] :: items) (u :: uses)
  | other {item : Tree} {items : List Tree} {uses : List UseTree} :
      item.isKind .itemUse = false → Uses items uses → Uses (item :: items) uses

namespace Tree

theorem mem_of_mem_members {t : Tree} {ts : List Tree} (h : t ∈ members ts) : t ∈ ts := by
  fun_induction members ts with
  | case1 => exact h
  | case2 => exact h
  | case3 u sep rest ih =>
    rcases List.mem_cons.1 h with rfl | hrest
    · exact List.mem_cons_self
    · exact List.mem_cons_of_mem _ (List.mem_cons_of_mem _ (ih hrest))

/-- The use declarations in an item have use trees, at every depth. -/
inductive UsesRead : Tree → Prop
  | use {attrs vis word lead tree semi : Tree} {u : UseTree} : u.Shapes tree →
      UsesRead (.node .itemUse [attrs, vis, word, lead, tree, semi])
  | module {t : Tree} : t.isKind .itemMod = true →
      (∀ u ∈ (t.part 5).parts.drop 1, UsesRead u) → UsesRead t
  | other {t : Tree} : t.isKind .itemUse = false → t.isKind .itemMod = false → UsesRead t

/-- The items of a file, and those of the modules inside it. -/
inductive ItemsWithin (items : List Tree) : List Tree → Prop
  | here : ItemsWithin items items
  | inner {outer : List Tree} {t : Tree} : ItemsWithin items outer → t ∈ outer →
      t.isKind .itemMod = true → ItemsWithin items ((t.part 5).parts.drop 1)

theorem ItemsWithin.usesRead {items inner : List Tree} (h : ItemsWithin items inner)
    (hitems : ∀ t ∈ items, t.UsesRead) : ∀ t ∈ inner, t.UsesRead := by
  induction h with
  | here => exact hitems
  | inner _ ht hmod ih =>
    cases ih _ ht with
    | use => cases hmod
    | module _ hinner => exact hinner
    | other _ hno => exact absurd (hno.symm.trans hmod) Bool.false_ne_true

theorem exists_uses_of_usesRead {items : List Tree} (h : ∀ t ∈ items, t.UsesRead) :
    ∃ uses, Uses items uses := by
  induction items with
  | nil => exact ⟨[], .nil⟩
  | cons item items ih =>
    obtain ⟨hitem, hitems⟩ := List.forall_mem_cons.1 h
    obtain ⟨uses, huses⟩ := ih hitems
    cases hitem with
    | use htree => exact ⟨_, .use htree huses⟩
    | module hmod =>
      have hkind : item.kind? = some .itemMod := beq_iff_eq.1 hmod
      have hno : item.isKind .itemUse = false := by
        rw [isKind, hkind]
        rfl
      exact ⟨uses, .other hno huses⟩
    | other hno => exact ⟨uses, .other hno huses⟩

end Tree

/-! ## Reading them -/

namespace Parser

theorem gives_anyWord : Gives (fun t => ∃ w pos, t = .run [.word w pos]) anyWord := by
  intro c t c' h
  obtain ⟨w, pos, rest, -, rfl, -⟩ := anyWord_eq_ok.1 h
  exact ⟨w, pos, rfl⟩

theorem gives_ident : Gives (fun t => ∃ w pos, t = .run [.word w pos]) ident := by
  intro c t c' h
  obtain ⟨w, pos, rest, -, rfl, -⟩ := ident_eq_ok h
  exact ⟨w, pos, rfl⟩

/-- The members of a list in brackets are as `Q` says, if the parser of a member gives what is. -/
theorem gives_group_members {d : Delimiter} {member : Parser Tree} {Q : Tree → Prop}
    (hmember : Gives Q member) :
    Gives (fun t => ∃ ts pos close, t = .group d ts pos close ∧ ∀ u ∈ Tree.members ts, Q u)
      (group d (commaList member)) := by
  intro c t c' h
  obtain ⟨ts, pos, close, rfl, c₁, close', hlist⟩ := group_eq_ok h
  refine ⟨ts, pos, close, rfl, ?_⟩
  have hlisted := listed_of_commaList hlist rfl
  clear h hlist
  induction hlisted with
  | none => nofun
  | last _ ht => exact List.forall_mem_singleton.2 (hmember ht)
  | more _ ht _ _ _ ih => exact List.forall_mem_cons.2 ⟨hmember ht, ih⟩

end Parser

namespace Grammar

open TypedSettings.Source.Parser TypedSettings.Source.Tree

variable {P : String → Prop} {rules : Rules}

/-- A tree has the shape of a use tree, unless a path from the crate root stands in it. -/
def Plain (t : Tree) : Prop := hasRootPath t = false → ∃ u : UseTree, u.Shapes t

theorem hasRootPath_of_mem {t : Tree} {ts : List Tree} (ht : t ∈ ts)
    (h : anyRootPath ts = false) : hasRootPath t = false := by
  induction ts with
  | nil => cases ht
  | cons u ts ih =>
    rw [anyRootPath, Bool.or_eq_false_iff] at h
    rcases List.mem_cons.1 ht with rfl | hrest
    · exact h.1
    · exact ih hrest h.2

theorem hasRootPath_part {k : Kind} {parts : List Tree} (h : hasRootPath (.node k parts) = false)
    {t : Tree} (ht : t ∈ parts) : hasRootPath t = false := by
  rw [hasRootPath, Bool.or_eq_false_iff] at h
  exact hasRootPath_of_mem ht h.2

section

variable (h : ∀ root, Gives Plain (rules (.useTree root)))
include h

/-- A member of a group is plain; what starts at the crate root is kept as tokens. -/
theorem gives_useMember (root : Bool) : Gives Plain (do
    let lead ← if root then op? "::" else pure .absent
    let tree ← rules (.useTree (root && lead.isAbsent))
    if lead.isAbsent then return tree else return Tree.node .verbatim [lead, tree]) := by
  have hrest (lead : Tree) : Gives Plain (do
      let tree ← rules (.useTree (root && lead.isAbsent))
      if lead.isAbsent then return tree else return Tree.node .verbatim [lead, tree]) :=
    gives_seq (h _) fun tree htree => gives_ite (gives_pure htree) (gives_pure nofun)
  cases root with
  | false => exact hrest _
  | true => exact gives_bind fun lead => hrest lead

theorem gives_useGroup (root : Bool) : Gives Plain (do
    let body ← group .brace (commaList do
      let lead ← if root then op? "::" else pure .absent
      let tree ← rules (.useTree (root && lead.isAbsent))
      if lead.isAbsent then return tree else return Tree.node .verbatim [lead, tree])
    return .node .useGroup [body]) := by
  refine gives_seq (gives_group_members (gives_useMember h root)) fun body hbody => ?_
  obtain ⟨ts, pos, close, rfl, hmembers⟩ := hbody
  refine gives_pure fun hroot => ?_
  have hall : anyRootPath ts = false := hasRootPath_part hroot List.mem_cons_self
  have hshapes : ∀ t ∈ Tree.members ts, ∃ u : UseTree, u.Shapes t := fun t ht =>
    hmembers t ht (hasRootPath_of_mem (mem_of_mem_members ht) hall)
  obtain ⟨us, hus⟩ := UseTree.exists_shapesAll hshapes
  exact ⟨.group us, _, ts, pos, close, rfl, hus⟩

omit h in
theorem gives_useRename (w : String) (pos : Position) : Gives Plain (do
    let as' ← keyword "as"
    let renamed ← if ← peekWord "_" then anyWord else ident
    return Tree.node .useRename [.run [.word w pos], as', renamed]) := by
  have hcalled (as' : Tree) {called : Tree} (hword : ∃ a pos', called = .run [.word a pos']) :
      Gives Plain (pure (.node .useRename [.run [.word w pos], as', called]) : Parser Tree) := by
    obtain ⟨a, pos', rfl⟩ := hword
    exact gives_pure fun _ => ⟨.leaf (.renamed w a), pos, as', pos', rfl⟩
  refine gives_bind fun as' => gives_bind fun _ => gives_ite ?_ ?_
  · exact gives_seq gives_anyWord fun _ hword => hcalled as' hword
  · exact gives_seq gives_ident fun _ hword => hcalled as' hword

theorem gives_useTree_of (root : Bool) : Gives Plain (useTree rules root) := by
  unfold useTree
  refine gives_bind fun _ => gives_ite (gives_seq gives_anyWord ?_) ?_
  · rintro _ ⟨w, pos, rfl⟩
    refine gives_bind fun _ => gives_ite ?_ (gives_bind fun _ => gives_ite ?_ ?_)
    · refine gives_bind fun sep => gives_seq (h false) fun inner hinner => ?_
      refine gives_pure fun hroot => ?_
      obtain ⟨u, hu⟩ := hinner (hasRootPath_part hroot (by simp))
      exact ⟨.path w u, pos, sep, inner, rfl, hu⟩
    · exact gives_useRename w pos
    · exact gives_pure fun _ => ⟨.leaf (.name w), pos, rfl⟩
  · refine gives_bind fun _ => gives_ite ?_ (gives_bind fun _ => gives_ite ?_ gives_fail)
    · exact gives_bind fun star => gives_pure fun _ => ⟨.leaf .glob, _, rfl⟩
    · exact gives_useGroup h root

end

/-- At every depth the trees of use declarations are plain. -/
theorem gives_useTree (depth : Nat) (root : Bool) :
    Gives Plain (toDepth depth (.useTree root)) := by
  induction depth generalizing root with
  | zero => exact gives_fail
  | succ depth ih => exact gives_useTree_of ih root

theorem gives_useItem? (h : ∀ root, Gives Plain (rules (.useTree root))) (attrs vis : Tree) :
    Gives (IfSome UsesRead) (useItem? rules attrs vis) := by
  unfold useItem?
  refine gives_bind fun use' => gives_bind fun lead => gives_seq (h _) fun tree htree => ?_
  refine gives_bind fun semi => ?_
  by_cases hroot : hasRootPath tree = true
  · rw [if_pos hroot]
    exact gives_pure ifSome_none
  · rw [if_neg hroot]
    obtain ⟨u, hu⟩ := htree (Bool.eq_false_iff.2 hroot)
    exact gives_pure (ifSome_some (.use hu))

/-- At every depth the use declarations in an item have use trees. -/
theorem yields_usesRead_toDepth (depth : Nat) :
    Yields (AllWords P) (toDepth depth .item) UsesRead := by
  induction depth with
  | zero => exact yields_fail
  | succ depth ih =>
    refine yields_orVerbatim (yields_item?_of ?_ ?_ ?_ ?_) fun _ => .other rfl rfl
    · exact fun t ht => .other (ht .itemUse (by decide)) (ht .itemMod (by decide))
    · exact fun attrs vis => yields_of_gives (gives_useItem? (gives_useTree depth) attrs vis)
    · exact fun attrs vis guard auto =>
        (yields_of_gives (gives_traitItem attrs vis guard auto)).imp fun t ht =>
          .other (ht .itemUse (by decide)) (ht .itemMod (by decide))
    · exact fun attrs vis guard =>
        yields_modItem_of ih attrs vis guard fun _ _ _ _ hbody => .module rfl hbody

end Grammar

/-- The use declarations in a source file have use trees. -/
theorem readFile_usesRead {text : String} {trees : List Tree} (h : readFile text = .ok trees) :
    ∀ t ∈ trees.drop 1, t.UsesRead :=
  forall_mem_readFile Grammar.yields_usesRead_toDepth h

/-- The items of a file, or of a module in it, have use trees. -/
theorem exists_uses {text : String} {trees items : List Tree} (h : readFile text = .ok trees)
    (hitems : Tree.ItemsWithin (trees.drop 1) items) : ∃ uses, Uses items uses :=
  Tree.exists_uses_of_usesRead (hitems.usesRead (readFile_usesRead h))

end Source

end TypedSettings
