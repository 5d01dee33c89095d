import TypedSettings.Naming
import TypedSettings.Proofs.Disk.Path
import TypedSettings.Proofs.Interface.Paths
import TypedSettings.Proofs.Interface.Written
import TypedSettings.Proofs.Source.Names

/-!
Names of declarations. What is read off a source text has names that are identifiers: the methods,
their parameters, and the structure that implements the interface.

* `not_mem_of_isIdentifier`: what is in no identifier.
* `Declares.names`: what an item declares has the names of the item.
* `SourceText.Declares.names`: the names of a declaration are identifiers.
-/

namespace TypedSettings

open Source

/-! ## Identifiers -/

namespace Emit

theorem isWordText_append {cs ds : List Char} (h : isWordText cs = true)
    (hds : ds.all Text.isIdentContinue = true) : isWordText (cs ++ ds) = true := by
  cases cs with
  | nil => cases h
  | cons c rest =>
    rw [isWordText, Bool.and_eq_true] at h
    rw [List.cons_append, isWordText, List.all_append, h.1, h.2, hds]
    rfl

/-- A character that is in no word is in no identifier, unless it is the sign of raw ones. -/
theorem not_mem_of_isIdentifier {c : Char} {s : String}
    (hc : (Text.isIdentStart c || Text.isIdentContinue c) = false) (hraw : c ≠ '#')
    (h : isIdentifier s = true) : c ∉ s.toList := by
  rw [Bool.or_eq_false_iff] at hc
  have hword {cs : List Char} (hcs : isWordText cs = true) : c ∉ cs := by
    cases cs with
    | nil => nofun
    | cons first rest =>
      rw [isWordText, Bool.and_eq_true] at hcs
      intro hmem
      rcases List.mem_cons.1 hmem with rfl | hmem
      · exact Bool.eq_false_iff.1 hc.1 hcs.1
      · exact Bool.eq_false_iff.1 hc.2 (List.all_eq_true.1 hcs.2 _ hmem)
  unfold isIdentifier at h
  split at h
  · next rest hs =>
    rw [hs]
    rw [Bool.and_eq_true] at h
    intro hmem
    simp only [List.mem_cons] at hmem
    rcases hmem with rfl | hmem | hmem
    · exact absurd hc.1 (by decide)
    · exact hraw hmem
    · exact hword h.1 hmem
  · exact hword h

theorem colon_not_mem {s : String} (h : isIdentifier s = true) : ':' ∉ s.toList :=
  not_mem_of_isIdentifier (by decide) (by decide) h

theorem slash_not_mem {s : String} (h : isIdentifier s = true) : '/' ∉ s.toList :=
  not_mem_of_isIdentifier (by decide) (by decide) h

/-- An identifier can name a folder. -/
theorem isPlain_of_isIdentifier {s : String} (h : isIdentifier s = true) : FilePath.IsPlain s := by
  have hdot : '.' ∉ s.toList := not_mem_of_isIdentifier (by decide) (by decide) h
  refine ⟨?_, ?_, ?_, slash_not_mem h⟩
  · rintro rfl
    exact absurd h (by decide)
  · rintro rfl
    exact hdot List.mem_cons_self
  · rintro rfl
    exact hdot List.mem_cons_self

/-- A name that ends like that of a structure is no path word. -/
theorem structName_not_path (cs : List Char) :
    ["_", "super", "self", "Self", "crate"].contains (String.ofList (cs ++ "Impl".toList))
      = false := by
  rw [← Bool.not_eq_true, List.contains_iff_mem]
  intro hmem
  have hlast : (cs ++ "Impl".toList).getLast? = some 'l' := by
    rw [List.getLast?_append]
    rfl
  simp only [List.mem_cons, List.not_mem_nil, or_false] at hmem
  rcases hmem with h | h | h | h | h <;>
  · have htext := congrArg (fun s => s.toList.getLast?) h
    rw [String.toList_ofList, hlast] at htext
    revert htext
    decide

/-- The structure of a name that is an identifier has one. -/
theorem isIdentifier_structName {s : String} (h : isIdentifier s = true) :
    isIdentifier (Naming.structName s) = true := by
  have himpl : "Impl".toList.all Text.isIdentContinue = true := by decide
  have htext : Naming.structName s = String.ofList (s.toList ++ "Impl".toList) := by
    rw [Naming.structName, ← String.toList_append, String.ofList_toList]
  rw [htext]
  unfold isIdentifier at h
  split at h
  · next rest hs =>
    rw [Bool.and_eq_true] at h
    rw [hs, isIdentifier, String.toList_ofList]
    show (isWordText (rest ++ "Impl".toList)
      && !(["_", "super", "self", "Self", "crate"].contains
        (String.ofList (rest ++ "Impl".toList)))) = true
    rw [isWordText_append h.1 himpl, structName_not_path]
    rfl
  · exact Lexer.isIdentifier_of_isWordText (isWordText_append h himpl)

/-- A name that is made of a place among parameters is an identifier. -/
theorem isIdentifier_numbered (n : Nat) : isIdentifier ("arg" ++ toString n) = true := by
  have hdigits : (toString n).toList.all Text.isIdentContinue = true := by
    rw [List.all_eq_true]
    intro c hc
    have htext : (toString n).toList = Nat.toDigits 10 n := by
      rw [show toString n = n.repr from rfl, Nat.repr_eq_ofList_toDigits, String.toList_ofList]
    have hdigit : c.isDigit = true :=
      Nat.isDigit_of_mem_toDigits (by decide) (by decide) (htext ▸ hc)
    have hascii : Text.isAsciiDigit c = true := hdigit
    have hsmall : Text.isAscii c = true := by
      simp only [Text.isAsciiDigit, Bool.and_eq_true, decide_eq_true_eq] at hascii
      have : c.toNat ≤ '9'.toNat := hascii.2
      exact decide_eq_true (Nat.lt_of_le_of_lt this (by decide))
    rw [Text.isIdentContinue, if_pos hsmall, hascii]
    simp
  have harg : isWordText "arg".toList = true := by decide
  have := Lexer.isIdentifier_of_isWordText (isWordText_append harg hdigits)
  rwa [← String.toList_append, String.ofList_toList] at this

end Emit

/-! ## Declarations -/

/-- The names that a method has in code: its own, and those of its parameters. -/
def MethodDecl.names (m : MethodDecl) : List String := m.name :: m.params.map Param.name

namespace InterfaceDecl

theorem mem_foldl_addMember {file : Option String} {members : List Tree} {d : InterfaceDecl}
    {m : MethodDecl} (h : m ∈ (members.foldl (addMember file) d).methods) :
    m ∈ d.methods ∨ ∃ attrs sig body metadata, .node .traitFn [attrs, sig, body] ∈ members ∧
      body.isKind .block = false ∧ m = method sig file metadata := by
  induction members generalizing d with
  | nil => exact .inl h
  | cons member members ih =>
    rcases ih h with h | ⟨attrs, sig, body, metadata, hmem, hm⟩
    · unfold addMember at h
      split at h
      · next attrs sig body h =>
        split at h
        · exact .inl h
        · next hbody =>
          split at h
          · next metadata _ =>
            rcases List.mem_append.1 h with h | h
            · exact .inl h
            · refine .inr ⟨attrs, sig, body, metadata, List.mem_cons_self, ?_⟩
              exact ⟨Bool.eq_false_iff.2 hbody, List.mem_singleton.1 h⟩
          · exact .inl h
      · exact .inl h
    · exact .inr ⟨attrs, sig, body, metadata, List.mem_cons_of_mem _ hmem, hm⟩

/-- A method of an interface is read off a function without body of its item. -/
theorem mem_ofItem {name : String} {file : Option String} {resolve : String → List String}
    {item : Tree} {m : MethodDecl} (h : m ∈ (ofItem name file resolve item).methods) :
    ∃ attrs sig body metadata,
      .node .traitFn [attrs, sig, body] ∈ (item.part 10).parts.drop 1 ∧
        body.isKind .block = false ∧ m = method sig file metadata := by
  unfold ofItem at h
  rcases mem_foldl_addMember h with hm | hm
  · split at hm
    · cases hm
    · split at hm <;> cases hm
  · exact hm

theorem members_subset : ∀ ts : List Tree, ∀ t ∈ Tree.members ts, t ∈ ts
  | [], _, h => h
  | [_], _, h => h
  | t :: sep :: rest, u, h => by
    rcases List.mem_cons.1 h with rfl | h
    · exact List.mem_cons_self
    · exact List.mem_cons_of_mem _ (List.mem_cons_of_mem _ (members_subset rest u h))

/-- A method that is read off a signature with such names has them. -/
theorem method_names {sig : Tree} {file : Option String} {metadata : MethodMeta}
    (h : sig.SignatureNamed fun w => Emit.isIdentifier w = true) :
    ∀ n ∈ (method sig file metadata).names, Emit.isIdentifier n = true := by
  obtain ⟨hname, hparams⟩ := h
  intro n hn
  rcases List.mem_cons.1 hn with rfl | hn
  · exact hname
  · obtain ⟨p, hp, rfl⟩ := List.mem_map.1 hn
    obtain ⟨⟨t, i⟩, ht, rfl⟩ := List.mem_map.1 hp
    have hmem := List.mem_filter.1 (List.fst_mem_of_mem_zipIdx ht)
    unfold param
    dsimp only
    split
    · next hpat => exact hparams t (members_subset _ t hmem.1) hmem.2 hpat
    · exact Emit.isIdentifier_numbered i

end InterfaceDecl

/-- What an item declares has the names of the item. -/
theorem Declares.names {P : String → Prop} {module : List String} {items : List Tree}
    {name : String} {item : Tree} (h : Declares module items name item)
    (hitems : ∀ t ∈ items, t.ItemNamed P) :
    (∃ path, name = QualifiedName.ofSegments ("crate" :: path ++ [(item.part 5).word])) ∧
      P (item.part 5).word ∧ ∀ m ∈ (item.part 10).parts.drop 1, m.MemberNamed P := by
  induction h with
  | @here module items item hmem hkind =>
    refine ⟨⟨module, rfl⟩, ?_⟩
    have htrait : item.isKind .itemTrait = true := beq_iff_eq.2 hkind
    cases hitems item hmem with
    | trait _ hname hmembers => exact ⟨hname, hmembers⟩
    | module hmod _ => exact absurd (hkind.symm.trans (beq_iff_eq.1 hmod)) (by decide)
    | other hnone _ => exact absurd (htrait.symm.trans hnone) (by decide)
  | @inside module items outer item name hmem hkind _ ih =>
    have hmod : outer.isKind .itemMod = true := beq_iff_eq.2 hkind
    cases hitems outer hmem with
    | trait htrait _ _ => exact absurd (hkind.symm.trans (beq_iff_eq.1 htrait)) (by decide)
    | module _ hinner => exact ih hinner
    | other _ hnone => exact absurd (hmod.symm.trans hnone) (by decide)

/-- What a source declares has names that are identifiers. -/
theorem SourceText.Declares.names {s : SourceText} {d : InterfaceDecl} (h : s.Declares d) :
    Emit.isIdentifier (Naming.structName (QualifiedName.simple d.name)) = true ∧
      ∀ m ∈ d.methods, ∀ n ∈ m.names, Emit.isIdentifier n = true := by
  obtain ⟨trees, item, resolve, hread, hitem, hd⟩ := h
  obtain ⟨⟨path, hname⟩, hword, hmembers⟩ := hitem.names (readFile_named hread)
  constructor
  · rw [hname, QualifiedName.simple_ofSegments _ (Emit.colon_not_mem hword)]
    exact Emit.isIdentifier_structName hword
  · intro m hm
    rw [hd] at hm
    obtain ⟨attrs, sig, body, metadata, hmem, -, rfl⟩ := InterfaceDecl.mem_ofItem hm
    have hkind : (Source.Tree.node .traitFn [attrs, sig, body]).isKind .traitFn = true :=
      beq_self_eq_true _
    have hmember := hmembers _ hmem
    have hsig := hmember hkind
    exact InterfaceDecl.method_names hsig

end TypedSettings
