import TypedSettings.Proofs.Interface.Written

/-!
Looking up declarations. A set of declarations answers with the first declaration of a name, in the
order of the sources; where no two sources declare one name, the order of the sources does not
matter.

* `get?_foldl_insert`: declarations that are added later are found after those that are there.
* `Distinct.mem_iff`: where names are distinct, a declaration is what its name stands for.
* `sublist_foldl_insert`: declarations keep their order, and the first of a name is kept.
* `ofSources_perm`: sources without a name in common may change places.
-/

namespace TypedSettings

namespace Declarations

/-! ## Adding declarations -/

theorem get?_insert (d : Declarations) (i : InterfaceDecl) (name : String) :
    (d.insert i).get? name = (d.get? name).or (if i.name = name then some i else none) := by
  unfold insert
  split
  · next hknown =>
    split
    · next hname =>
      rw [contains, hname] at hknown
      obtain ⟨first, hfirst⟩ := Option.isSome_iff_exists.1 hknown
      rw [hfirst, Option.some_or]
    · rw [Option.or_none]
  · show (d.interfaces ++ [i]).find? _ = _
    rw [List.find?_append, List.find?_singleton]
    simp [get?]

theorem get?_foldl_insert (d : Declarations) (found : List InterfaceDecl) (name : String) :
    (found.foldl insert d).get? name = (d.get? name).or (found.find? fun i => i.name == name) := by
  induction found generalizing d with
  | nil => simp
  | cons i found ih =>
    rw [List.foldl_cons, ih, get?_insert, Option.or_assoc, List.find?_cons]
    by_cases hname : i.name = name
    · simp [hname]
    · rw [if_neg hname, Option.none_or, beq_eq_false_iff_ne.2 hname]

/-- No two declarations have one name. -/
def Distinct (d : Declarations) : Prop := (d.interfaces.map InterfaceDecl.name).Nodup

theorem Distinct.insert {d : Declarations} (h : d.Distinct) (i : InterfaceDecl) :
    (d.insert i).Distinct := by
  unfold Declarations.insert
  split
  · exact h
  · next hnew =>
    show ((d.interfaces ++ [i]).map InterfaceDecl.name).Nodup
    rw [List.map_append, List.map_singleton]
    refine h.append (List.nodup_singleton _) (List.disjoint_singleton.2 fun hname => hnew ?_)
    obtain ⟨j, hj, hjname⟩ := List.mem_map.1 hname
    exact List.find?_isSome.2 ⟨j, hj, beq_iff_eq.2 hjname⟩

theorem Distinct.foldl_insert {d : Declarations} (h : d.Distinct) (found : List InterfaceDecl) :
    (found.foldl Declarations.insert d).Distinct := by
  induction found generalizing d with
  | nil => exact h
  | cons i found ih => exact ih (h.insert i)

/-- Of declarations with the same name the first is kept, and the order stays. -/
theorem sublist_foldl_insert (d : Declarations) (found : List InterfaceDecl) :
    (found.foldl insert d).interfaces.Sublist (d.interfaces ++ found) := by
  induction found generalizing d with
  | nil =>
    rw [List.append_nil]
    exact List.Sublist.refl _
  | cons i found ih =>
    have hone : (d.insert i).interfaces.Sublist (d.interfaces ++ [i]) := by
      unfold insert
      split
      · exact List.sublist_append_left _ _
      · exact List.Sublist.refl _
    have hrest := (ih (d.insert i)).trans (hone.append_right found)
    rwa [List.append_assoc, List.singleton_append] at hrest

/-- What changes no name changes nothing about which declarations are kept. -/
theorem foldl_insert_map {f : InterfaceDecl → InterfaceDecl} (hf : ∀ i, (f i).name = i.name)
    (d : Declarations) (found : List InterfaceDecl) :
    (found.map f).foldl insert ⟨d.interfaces.map f⟩
      = ⟨(found.foldl insert d).interfaces.map f⟩ := by
  induction found generalizing d with
  | nil => rfl
  | cons i found ih =>
    have hknown : contains ⟨d.interfaces.map f⟩ i.name = d.contains i.name := by
      have hname : ((fun j : InterfaceDecl => j.name == i.name) ∘ f) = fun j => j.name == i.name :=
        funext fun j => congrArg (· == i.name) (hf j)
      rw [contains, contains, get?, get?, List.find?_map, Option.isSome_map, hname]
    rw [List.map_cons, List.foldl_cons, List.foldl_cons, ← ih, insert, hf, hknown, insert]
    split
    · rfl
    · rw [List.map_append]
      rfl

/-- A declaration is what its name stands for. -/
theorem Distinct.mem_iff {d : Declarations} (h : d.Distinct) {i : InterfaceDecl} :
    i ∈ d.interfaces ↔ d.get? i.name = some i := by
  rw [get?, find?_key_eq_some_iff h]
  exact (and_iff_left rfl).symm

/-! ## Sources -/

/-- The declarations of a source; none where it cannot be read. -/
def found (s : SourceText) : List InterfaceDecl := (ofText s).toOption.getD []

/-- Declarations are found in one place after the other, where every place can be read. -/
theorem foldlM_insert_eq_ok_iff {α : Type} {find : α → Except Problem (List InterfaceDecl)}
    {as : List α} {start ds : Declarations} :
    as.foldlM (fun d a => (find a).map fun is => is.foldl insert d) start = .ok ds ↔
      (∀ a ∈ as, ∃ is, find a = .ok is) ∧
        ds = (as.flatMap fun a => (find a).toOption.getD []).foldl insert start := by
  induction as generalizing start with
  | nil => simp [pure, Except.pure, eq_comm]
  | cons a as ih =>
    rw [List.foldlM_cons, bind_eq_ok, List.forall_mem_cons, List.flatMap_cons, List.foldl_append]
    constructor
    · rintro ⟨next, hnext, hrest⟩
      obtain ⟨is, his, rfl⟩ := map_eq_ok.1 hnext
      obtain ⟨hread, rfl⟩ := ih.1 hrest
      rw [his]
      exact ⟨⟨⟨is, rfl⟩, hread⟩, rfl⟩
    · rintro ⟨⟨⟨is, his⟩, hread⟩, rfl⟩
      refine ⟨is.foldl insert start, map_eq_ok.2 ⟨is, his, rfl⟩, ih.2 ⟨hread, ?_⟩⟩
      rw [his]
      rfl

theorem foldlM_addSource_eq_ok_iff {sources : List SourceText} {start ds : Declarations} :
    sources.foldlM addSource start = .ok ds ↔
      (∀ s ∈ sources, ∃ is, ofText s = .ok is) ∧
        ds = (sources.flatMap found).foldl insert start :=
  foldlM_insert_eq_ok_iff

theorem ofSources_eq_ok_iff {sources : List SourceText} {ds : Declarations} :
    ofSources sources = .ok ds ↔
      (∀ s ∈ sources, ∃ is, ofText s = .ok is) ∧ ds = (sources.flatMap found).foldl insert {} :=
  foldlM_addSource_eq_ok_iff

theorem distinct_ofSources {sources : List SourceText} {ds : Declarations}
    (h : ofSources sources = .ok ds) : ds.Distinct := by
  rw [(ofSources_eq_ok_iff.1 h).2]
  have hempty : Distinct {} := List.nodup_nil
  exact hempty.foldl_insert _

/-- The first source that declares a name answers. -/
theorem get?_ofSources {sources : List SourceText} {ds : Declarations}
    (h : ofSources sources = .ok ds) (name : String) :
    ds.get? name = sources.findSome? fun s => (found s).find? fun i => i.name == name := by
  rw [(ofSources_eq_ok_iff.1 h).2, get?_foldl_insert, List.find?_flatMap]
  rfl

/-- No name is declared by two sources. -/
def Apart (sources : List SourceText) : Prop :=
  sources.Pairwise fun s t =>
    ((found s).map InterfaceDecl.name).Disjoint ((found t).map InterfaceDecl.name)

/-- Sources that declare no name in common declare the same in every order. -/
theorem ofSources_perm {sources sources' : List SourceText} {ds : Declarations}
    (hp : sources.Perm sources') (hapart : Apart sources) (h : ofSources sources = .ok ds) :
    ∃ ds', ofSources sources' = .ok ds' ∧ (∀ name, ds'.get? name = ds.get? name) ∧
      ∀ root, root ∈ ds'.roots ↔ root ∈ ds.roots := by
  have hread := (ofSources_eq_ok_iff.1 h).1
  have h' : ofSources sources' = .ok ((sources'.flatMap found).foldl insert {}) :=
    ofSources_eq_ok_iff.2 ⟨fun s hs => hread s (hp.mem_iff.2 hs), rfl⟩
  have hget : ∀ name, ((sources'.flatMap found).foldl insert {}).get? name = ds.get? name := by
    intro name
    rw [get?_ofSources h', get?_ofSources h]
    refine (findSome?_perm hp (hapart.imp fun {s t} hdisjoint => ?_)).symm
    rw [or_iff_not_imp_left]
    intro hs
    obtain ⟨i, hi⟩ := Option.ne_none_iff_exists'.1 hs
    rw [List.find?_eq_none]
    intro j hj hjname
    refine hdisjoint (List.mem_map_of_mem (List.mem_of_find?_eq_some hi)) ?_
    have hiname : i.name = name := by simpa using List.find?_some hi
    rw [hiname, ← beq_iff_eq.1 hjname]
    exact List.mem_map_of_mem hj
  refine ⟨_, h', hget, fun root => ?_⟩
  rw [roots, roots, List.mem_filter, List.mem_filter, (distinct_ofSources h').mem_iff,
    (distinct_ofSources h).mem_iff, hget]

end Declarations

end TypedSettings
