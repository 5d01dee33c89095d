import TypedSettings.Declarations
import TypedSettings.Proofs.Source.Modules

/-!
The interfaces of a source text. A text declares the interfaces among its items and among the items
of the modules inside it, however deep, in the order in which they stand there. The file in which a
text stands is told with the places of what it declares, and changes nothing else.

* `InterfaceDecl.ofItem_inFile`: what a file adds to an interface.
* `Declarations.Lists`: the interfaces among the items of a module, in order.
* `Declarations.ofText_eq_ok_iff`: what a source text declares.
-/

namespace TypedSettings

open Source

/-! ## Files of places -/

/-- A place, told with a file. -/
def SourceLocation.inFile (file : Option String) (l : SourceLocation) : SourceLocation :=
  { l with file }

theorem SourceLocation.map_mk (file : Option String) (pos? : Option Position) :
    pos?.map (SourceLocation.mk file)
      = (pos?.map (SourceLocation.mk none)).map (SourceLocation.inFile file) := by
  cases pos? with
  | none => rfl
  | some pos => rfl

def MethodDecl.inFile (file : Option String) (m : MethodDecl) : MethodDecl :=
  { m with location := m.location.map (SourceLocation.inFile file) }

def AttributeIssue.inFile (file : Option String) (i : AttributeIssue) : AttributeIssue :=
  { i with location := i.location.map (SourceLocation.inFile file) }

namespace InterfaceDecl

/-- An interface of which all places are told with a file. -/
def inFile (file : Option String) (d : InterfaceDecl) : InterfaceDecl :=
  { d with
    methods := d.methods.map (MethodDecl.inFile file)
    location := d.location.map (SourceLocation.inFile file)
    issues := d.issues.map (AttributeIssue.inFile file) }

@[simp] theorem inFile_name (file : Option String) (d : InterfaceDecl) :
    (d.inFile file).name = d.name := rfl

/-- The last file counts. -/
theorem inFile_inFile (file other : Option String) (d : InterfaceDecl) :
    (d.inFile other).inFile file = d.inFile file := by
  have hplaces (l : Option SourceLocation) :
      (l.map (SourceLocation.inFile other)).map (SourceLocation.inFile file)
        = l.map (SourceLocation.inFile file) := Option.map_map _ _ _
  unfold inFile
  simp only [List.map_map, hplaces]
  congr 2
  · exact funext fun m => congrArg (MethodDecl.mk _ _ _ _ _) (hplaces m.location)
  · exact funext fun i => congrArg (AttributeIssue.mk _ _) (hplaces i.location)

theorem method_inFile (sig : Tree) (file : Option String) (metadata : MethodMeta) :
    method sig file metadata = (method sig none metadata).inFile file :=
  congrArg (MethodDecl.mk _ _ _ _ _) (SourceLocation.map_mk file _)

theorem addMember_inFile (file : Option String) (d : InterfaceDecl) (member : Tree) :
    addMember file (d.inFile file) member = (addMember none d member).inFile file := by
  unfold addMember
  split
  · split
    · rfl
    · split
      · rw [method_inFile, inFile, inFile, List.map_append]
        rfl
      · rw [inFile, inFile, List.map_append]
        rfl
  · rfl

theorem foldl_addMember_inFile (file : Option String) (members : List Tree) (d : InterfaceDecl) :
    members.foldl (addMember file) (d.inFile file)
      = (members.foldl (addMember none) d).inFile file := by
  induction members generalizing d with
  | nil => rfl
  | cons member members ih =>
    rw [List.foldl_cons, addMember_inFile]
    exact ih _

/-- A file is told with the places of an interface, and nowhere else. -/
theorem ofItem_inFile (name : String) (file : Option String) (resolve : String → List String)
    (item : Tree) :
    ofItem name file resolve item = (ofItem name none resolve item).inFile file := by
  unfold ofItem
  dsimp only
  rw [← foldl_addMember_inFile, SourceLocation.map_mk file]
  congr 1
  split
  · rfl
  · split
    · rfl
    · rfl

end InterfaceDecl

namespace Declarations

/-! ## Interfaces in order -/

/-- The interfaces among the items of a module and of the modules inside it, in the order in which
they stand. Each is called by the path of its module and its own name, and sees the names of its
module. -/
inductive Lists : Scope → List Tree → List InterfaceDecl → Prop
  | nil {scope : Scope} : Lists scope [] []
  | trait {scope : Scope} {item : Tree} {items : List Tree} {ds : List InterfaceDecl} :
      item.kind? = some .itemTrait → Lists scope items ds →
      Lists scope (item :: items)
        (InterfaceDecl.ofItem
            (QualifiedName.ofSegments ("crate" :: scope.module ++ [(item.part 5).word])) none
            scope.resolve item :: ds)
  | module {scope : Scope} {item : Tree} {inner items : List Tree} {is ds : List InterfaceDecl} :
      item.kind? = some .itemMod → inner = (item.part 5).parts.drop 1 →
      Lists (Scope.ofItems (scope.module ++ [(item.part 4).word]) inner) inner is →
      Lists scope items ds → Lists scope (item :: items) (is ++ ds)
  | other {scope : Scope} {item : Tree} {items : List Tree} {ds : List InterfaceDecl} :
      item.kind? ≠ some .itemTrait → item.kind? ≠ some .itemMod → Lists scope items ds →
      Lists scope (item :: items) ds

theorem Lists.functional {scope : Scope} {items : List Tree} {ds ds' : List InterfaceDecl}
    (h : Lists scope items ds) (h' : Lists scope items ds') : ds = ds' := by
  induction h generalizing ds' with
  | nil =>
    cases h'
    rfl
  | trait hkind _ ih =>
    cases h' with
    | trait _ h' => rw [ih h']
    | module hmod => exact absurd (hkind.symm.trans hmod) (by decide)
    | other hno => exact absurd hkind hno
  | module hkind hinner _ _ ihinner ih =>
    cases h' with
    | trait htrait => exact absurd (htrait.symm.trans hkind) (by decide)
    | module _ hinner' hin h' =>
      subst hinner hinner'
      rw [ihinner hin, ih h']
    | other _ hno => exact absurd hkind hno
  | other htrait hmod _ ih =>
    cases h' with
    | trait hkind => exact absurd hkind htrait
    | module hkind => exact absurd hkind hmod
    | other _ _ h' => exact ih h'

/-- What is listed item by item is listed in order. -/
theorem lists_flatMap {scope : Scope} {items : List Tree} {f : Tree → List InterfaceDecl}
    (htrait : ∀ item ∈ items, item.kind? = some .itemTrait → f item =
      [InterfaceDecl.ofItem
        (QualifiedName.ofSegments ("crate" :: scope.module ++ [(item.part 5).word])) none
        scope.resolve item])
    (hmodule : ∀ item ∈ items, item.kind? = some .itemMod →
      Lists (Scope.ofItems (scope.module ++ [(item.part 4).word]) ((item.part 5).parts.drop 1))
        ((item.part 5).parts.drop 1) (f item))
    (hother : ∀ item ∈ items, item.kind? ≠ some .itemTrait → item.kind? ≠ some .itemMod →
      f item = []) :
    Lists scope items (items.flatMap f) := by
  induction items with
  | nil => exact .nil
  | cons item items ih =>
    rw [List.forall_mem_cons] at htrait hmodule hother
    have hrest := ih htrait.2 hmodule.2 hother.2
    rw [List.flatMap_cons]
    by_cases hkind : item.kind? = some .itemTrait
    · rw [htrait.1 hkind]
      exact .trait hkind hrest
    · by_cases hmod : item.kind? = some .itemMod
      · exact .module hmod rfl (hmodule.1 hmod) hrest
      · rw [hother.1 hkind hmod]
        exact .other hkind hmod hrest

/-- Modules nest no deeper than their tokens, so the fuel is enough. -/
theorem lists_ofItemsFuel {fuel : Nat} {module : List String} {items : List Tree}
    (hheaded : ∀ t ∈ items, t.Headed) (hfuel : Token.count (Tree.tokensAll items) < fuel) :
    Lists (Scope.ofItems module items) items (ofItemsFuel none fuel module items) := by
  induction fuel generalizing module items with
  | zero => exact absurd hfuel (Nat.not_lt_zero _)
  | succ fuel ih =>
    rw [ofItemsFuel]
    refine lists_flatMap ?_ ?_ ?_
    · intro item _ hkind
      simp only [hkind]
      rfl
    · intro item hitem hkind
      simp only [hkind]
      obtain ⟨hword, hinner⟩ := (hheaded item hitem).of_module hkind
      -- a module's items stand between its braces, so they have fewer tokens than it
      have hfewer := Tree.count_inner_lt hword
      have hall := Tree.count_le_of_mem hitem
      exact ih hinner (by omega)
    · intro item _ htrait hmod
      split
      · next hkind => exact absurd hkind htrait
      · next hkind => exact absurd hkind hmod
      · rfl

theorem ofItemsFuel_inFile (file : Option String) (fuel : Nat) (module : List String)
    (items : List Tree) : ofItemsFuel file fuel module items
      = (ofItemsFuel none fuel module items).map (InterfaceDecl.inFile file) := by
  induction fuel generalizing module items with
  | zero => rfl
  | succ fuel ih =>
    rw [ofItemsFuel, ofItemsFuel, List.map_flatMap]
    refine List.flatMap_congr fun item _ => ?_
    split
    · exact congrArg (fun d => [d]) (InterfaceDecl.ofItem_inFile _ file _ item)
    · exact ih _ _
    · rfl

/-- A source text declares the interfaces that stand in it, with its file. -/
theorem ofText_eq_ok_iff {s : SourceText} {found : List InterfaceDecl} :
    ofText s = .ok found ↔ ∃ trees ds, readFile s.text = .ok trees ∧
      Lists (Scope.ofItems s.module (trees.drop 1)) (trees.drop 1) ds ∧
      found = ds.map (InterfaceDecl.inFile s.file) := by
  unfold ofText
  split
  · next fault hread =>
    rw [hread]
    exact ⟨nofun, fun ⟨_, _, h, _⟩ => nomatch h⟩
  · next trees hread =>
    have hfuel := Nat.lt_succ_of_le (Tree.count_drop_le trees)
    have hlists := @lists_ofItemsFuel _ s.module _ (readFile_headed hread) hfuel
    rw [hread, Except.ok.injEq, ofItemsFuel_inFile]
    constructor
    · rintro rfl
      exact ⟨trees, _, rfl, hlists, rfl⟩
    · rintro ⟨_, ds, ⟨⟩, h, rfl⟩
      rw [hlists.functional h]

end Declarations

end TypedSettings
