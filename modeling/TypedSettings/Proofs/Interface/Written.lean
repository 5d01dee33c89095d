import TypedSettings.Interface.Check
import TypedSettings.Project
import TypedSettings.Proofs.Lists

/-!
Interfaces as they are written: an item with its functions, or an entry of a manifest with its
methods. Every function without body becomes a method or an issue, and a function with a body
becomes neither.

* `ofItem_methods`: an interface without issues has the functions without body of its item.
* `mem_ofSources`: a declaration stands in a source.
* `mem_loadAll`: an external interface that was loaded stands in a manifest.
-/

namespace TypedSettings

open Source

/-! ## Items -/

/-- The name of a function without body. -/
def bodiless? : Tree → Option String
  | .node .traitFn [_, sig, body] => if body.isKind .block then none else some (sig.part 2).word
  | _ => none

/-- The names of the functions without body of an item, in order. -/
def bodilessNames (item : Tree) : List String := (Check.members item).filterMap bodiless?

namespace InterfaceDecl

/-- A function without body adds a method or an issue of its name; nothing else adds anything. -/
theorem addMember_cases (file : Option String) (d : InterfaceDecl) (member : Tree) :
    (bodiless? member = none ∧ addMember file d member = d) ∨
    (∃ m : MethodDecl, bodiless? member = some m.name ∧
      addMember file d member = { d with methods := d.methods ++ [m] }) ∨
    (∃ i : AttributeIssue, bodiless? member = i.method ∧
      addMember file d member = { d with issues := d.issues ++ [i] }) := by
  unfold addMember
  split
  · next attrs sig body =>
    by_cases hbody : body.isKind .block = true
    · left
      rw [bodiless?, if_pos hbody, if_pos hbody]
      exact ⟨rfl, rfl⟩
    · right
      rw [bodiless?, if_neg hbody, if_neg hbody]
      cases readMetadata attrs.parts with
      | ok metadata => exact .inl ⟨method sig file metadata, rfl, rfl⟩
      | error e =>
        exact .inr ⟨⟨some (sig.part 2).word, e.1.ofAttribute, some ⟨file, e.2⟩⟩, rfl, rfl⟩
  · next hshape =>
    refine .inl ⟨?_, rfl⟩
    unfold bodiless?
    split
    · exact absurd rfl (hshape _ _ _)
    · rfl

theorem foldl_addMember_methods (file : Option String) {d : InterfaceDecl} {members : List Tree}
    (h : (members.foldl (addMember file) d).issues = []) :
    d.issues = [] ∧ (members.foldl (addMember file) d).methods.map MethodDecl.name
      = d.methods.map MethodDecl.name ++ members.filterMap bodiless? := by
  induction members generalizing d with
  | nil => exact ⟨h, (List.append_nil _).symm⟩
  | cons member members ih =>
    obtain ⟨hissues, hnames⟩ := ih h
    rw [List.foldl_cons, hnames]
    rcases addMember_cases file d member with ⟨hb, ha⟩ | ⟨m, hb, ha⟩ | ⟨i, -, ha⟩
    · rw [ha] at hissues ⊢
      rw [List.filterMap_cons_none hb]
      exact ⟨hissues, rfl⟩
    · rw [ha] at hissues ⊢
      rw [List.filterMap_cons_some hb]
      exact ⟨hissues, by simp⟩
    · rw [ha] at hissues
      simp at hissues

/-- Members change neither the name nor the ancestors. -/
theorem foldl_addMember_frame (file : Option String) (members : List Tree) (d : InterfaceDecl) :
    (members.foldl (addMember file) d).name = d.name ∧
      (members.foldl (addMember file) d).ancestors = d.ancestors := by
  induction members generalizing d with
  | nil => exact ⟨rfl, rfl⟩
  | cons member members ih =>
    obtain ⟨hname, hancestors⟩ := ih (addMember file d member)
    rw [List.foldl_cons, hname, hancestors]
    rcases addMember_cases file d member with ⟨-, ha⟩ | ⟨m, -, ha⟩ | ⟨i, -, ha⟩ <;> rw [ha] <;>
      exact ⟨rfl, rfl⟩

/-- An interface without issues has the functions without body of its item, in order. -/
theorem ofItem_methods {name : String} {file : Option String} {resolve : String → List String}
    {item : Tree} (h : (ofItem name file resolve item).issues = []) :
    (ofItem name file resolve item).methods.map MethodDecl.name = bodilessNames item := by
  unfold ofItem at h ⊢
  rw [(foldl_addMember_methods file h).2, bodilessNames, Check.members]
  split
  · rfl
  · split <;> rfl

end InterfaceDecl

/-! ## Sources -/

/-- The item that declares an interface, among the items of a module and of the modules inside
it. -/
inductive Declares : List String → List Tree → String → Tree → Prop
  | here {module : List String} {items : List Tree} {item : Tree} : item ∈ items →
      item.kind? = some .itemTrait →
      Declares module items
        (QualifiedName.ofSegments ("crate" :: module ++ [(item.part 5).word])) item
  | inside {module : List String} {items : List Tree} {outer item : Tree} {name : String} :
      outer ∈ items → outer.kind? = some .itemMod →
      Declares (module ++ [(outer.part 4).word]) ((outer.part 5).parts.drop 1) name item →
      Declares module items name item

/-- A declaration is read off an item that a source has under its name. -/
def SourceText.Declares (s : SourceText) (d : InterfaceDecl) : Prop :=
  ∃ trees item resolve, readFile s.text = .ok trees ∧
    TypedSettings.Declares s.module (trees.drop 1) d.name item ∧
    d = InterfaceDecl.ofItem d.name s.file resolve item

theorem InterfaceDecl.ofItem_name (name : String) (file : Option String)
    (resolve : String → List String) (item : Tree) :
    (ofItem name file resolve item).name = name := by
  unfold ofItem
  rw [(foldl_addMember_frame file _ _).1]
  split
  · rfl
  · split <;> rfl

namespace Declarations

theorem mem_ofItemsFuel {file : Option String} {fuel : Nat} {module : List String}
    {items : List Tree} {d : InterfaceDecl} (h : d ∈ ofItemsFuel file fuel module items) :
    ∃ item resolve, Declares module items d.name item ∧
      d = InterfaceDecl.ofItem d.name file resolve item := by
  induction fuel generalizing module items with
  | zero => cases h
  | succ fuel ih =>
    rw [ofItemsFuel] at h
    obtain ⟨item, hitem, hd⟩ := List.mem_flatMap.1 h
    split at hd
    · next hkind =>
      obtain rfl := List.mem_singleton.1 hd
      rw [InterfaceDecl.ofItem_name]
      exact ⟨item, _, .here hitem hkind, rfl⟩
    · next hkind =>
      obtain ⟨inner, resolve, hinner, heq⟩ := ih hd
      exact ⟨inner, resolve, .inside hitem hkind hinner, heq⟩
    · cases hd

theorem mem_ofText {s : SourceText} {found : List InterfaceDecl} {d : InterfaceDecl}
    (h : ofText s = .ok found) (hd : d ∈ found) : s.Declares d := by
  unfold ofText at h
  split at h
  · cases h
  · next trees htrees =>
    cases h
    obtain ⟨item, resolve, hitem, heq⟩ := mem_ofItemsFuel hd
    exact ⟨trees, item, resolve, htrees, hitem, heq⟩

theorem mem_insert {ds : Declarations} {i d : InterfaceDecl} (h : d ∈ (ds.insert i).interfaces) :
    d ∈ ds.interfaces ∨ d = i := by
  unfold insert at h
  split at h
  · exact .inl h
  · simpa using h

theorem mem_foldl_insert {ds : Declarations} {found : List InterfaceDecl} {d : InterfaceDecl}
    (h : d ∈ (found.foldl insert ds).interfaces) : d ∈ ds.interfaces ∨ d ∈ found := by
  induction found generalizing ds with
  | nil => exact .inl h
  | cons i found ih =>
    rcases ih h with h | h
    · rcases mem_insert h with h | rfl
      · exact .inl h
      · exact .inr List.mem_cons_self
    · exact .inr (List.mem_cons_of_mem _ h)

theorem mem_foldlM_addSource {sources : List SourceText} {start ds : Declarations}
    {d : InterfaceDecl} (h : sources.foldlM addSource start = .ok ds) (hd : d ∈ ds.interfaces) :
    d ∈ start.interfaces ∨ ∃ s ∈ sources, ∃ found, ofText s = .ok found ∧ d ∈ found := by
  induction sources generalizing start with
  | nil =>
    cases h
    exact .inl hd
  | cons s sources ih =>
    rw [List.foldlM_cons] at h
    obtain ⟨next, hnext, h⟩ := bind_eq_ok.1 h
    obtain ⟨found, hfound, rfl⟩ := map_eq_ok.1 hnext
    rcases ih h with hd | ⟨s', hs', hd⟩
    · rcases mem_foldl_insert hd with hd | hd
      · exact .inl hd
      · exact .inr ⟨s, List.mem_cons_self, found, hfound, hd⟩
    · exact .inr ⟨s', List.mem_cons_of_mem _ hs', hd⟩

/-- A declaration was found in one of the sources. -/
theorem exists_found {sources : List SourceText} {ds : Declarations} {d : InterfaceDecl}
    (h : ofSources sources = .ok ds) (hd : d ∈ ds.interfaces) :
    ∃ s ∈ sources, ∃ found, ofText s = .ok found ∧ d ∈ found := by
  rcases mem_foldlM_addSource h hd with hd | hd
  · cases hd
  · exact hd

/-- A declaration stands in one of the sources. -/
theorem mem_ofSources {sources : List SourceText} {ds : Declarations} {d : InterfaceDecl}
    (h : ofSources sources = .ok ds) (hd : d ∈ ds.interfaces) : ∃ s ∈ sources, s.Declares d := by
  obtain ⟨s, hs, found, hfound, hmem⟩ := exists_found h hd
  exact ⟨s, hs, mem_ofText hfound hmem⟩

end Declarations

/-! ## Manifests -/

theorem Manifest.method_name {interface : String} {entry : MethodEntry} {m : MethodDecl}
    (h : method interface entry = .ok m) : m.name = entry.name := by
  unfold method at h
  dsimp only at h
  split at h
  · obtain ⟨returns, -, h⟩ := bind_eq_ok.1 h
    obtain ⟨params, -, h⟩ := bind_eq_ok.1 h
    cases h
    rfl
  · obtain ⟨returns, -, h⟩ := bind_eq_ok.1 h
    obtain ⟨params, -, h⟩ := bind_eq_ok.1 h
    cases h
    rfl

/-- An external interface has the name and the methods of its entry. -/
theorem Manifest.interface_methods {entry : InterfaceEntry} {e : ExternalInterface}
    (h : interface entry = .ok e) :
    e.name = entry.name ∧
      e.methods.map MethodDecl.name = entry.methods.map MethodEntry.name := by
  unfold interface at h
  obtain ⟨methods, hmethods, h⟩ := bind_eq_ok.1 h
  cases h
  have hnames := (mapM_eq_ok_iff.1 hmethods).imp fun _ _ hm => (method_name hm).symm
  exact ⟨rfl, (map_eq_map_of_forall₂ hnames).symm⟩

/-- An external interface is read off an entry that a manifest has. -/
def Manifest.Lists (text : String) (e : ExternalInterface) : Prop :=
  ∃ entries entry, read? text = some entries ∧ entry ∈ entries ∧ interface entry = .ok e

namespace Registry

theorem mem_insert {r : Registry} {i e : ExternalInterface} (h : e ∈ (r.insert i).interfaces) :
    e ∈ r.interfaces ∨ e = i := by
  unfold insert at h
  split at h
  · obtain ⟨j, hj, heq⟩ := List.mem_map.1 h
    split at heq
    · exact .inr heq.symm
    · exact .inl (heq ▸ hj)
  · simpa using h

theorem mem_addEntries {r : Registry} {entries : List Manifest.InterfaceEntry}
    {e : ExternalInterface} (h : e ∈ (r.addEntries entries).1.interfaces) :
    e ∈ r.interfaces ∨ ∃ entry ∈ entries, Manifest.interface entry = .ok e := by
  induction entries generalizing r with
  | nil => exact .inl h
  | cons entry entries ih =>
    rw [addEntries] at h
    split at h
    · next i hi =>
      rcases ih h with h | ⟨entry', hentry', he⟩
      · rcases mem_insert h with h | rfl
        · exact .inl h
        · exact .inr ⟨entry, List.mem_cons_self, hi⟩
      · exact .inr ⟨entry', List.mem_cons_of_mem _ hentry', he⟩
    · exact .inl h

/-- What a manifest adds, it lists. -/
theorem mem_load {r : Registry} {origin text : String} {e : ExternalInterface}
    (h : e ∈ (r.load origin text).1.interfaces) : e ∈ r.interfaces ∨ Manifest.Lists text e := by
  unfold load at h
  split at h
  · exact .inl h
  · next entries hentries =>
    have hmem : e ∈ (r.addEntries entries).1.interfaces := by
      split at h <;> next heq => rw [heq]; exact h
    rcases mem_addEntries hmem with h | ⟨entry, hentry, he⟩
    · exact .inl h
    · exact .inr ⟨entries, entry, hentries, hentry, he⟩

/-- What manifests add, one of them lists. -/
theorem mem_loadAll {r r' : Registry} {texts : List (FilePath × Option String)}
    {e : ExternalInterface} (h : r.loadAll texts = .ok r') (he : e ∈ r'.interfaces) :
    e ∈ r.interfaces ∨ ∃ path text, (path, some text) ∈ texts ∧ Manifest.Lists text e := by
  induction texts generalizing r with
  | nil =>
    cases h
    exact .inl he
  | cons first texts ih =>
    obtain ⟨path, _ | text⟩ := first
    · cases h
    · rw [loadAll] at h
      split at h
      · next next' size hload =>
        rcases ih h with hnext | ⟨path', text', hmem, hlists⟩
        · rw [show next' = (r.load path.text text).1 by rw [hload]] at hnext
          rcases mem_load hnext with hr | hlists
          · exact .inl hr
          · exact .inr ⟨path, text, List.mem_cons_self, hlists⟩
        · exact .inr ⟨path', text', List.mem_cons_of_mem _ hmem, hlists⟩
      · cases h

end Registry

end TypedSettings
