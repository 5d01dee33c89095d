import TypedSettings.Accessor.Key
import TypedSettings.Proofs.Interface.Arguments

/-!
Annotations that pass their check are read without an issue: the store is the one that the arguments
name, and an explicit key is never empty.

* `readStore_of_storeArgs`, `foldl_addTo`: the store that sound arguments name.
* `ofItem_sound`: an interface whose annotations are sound has no issue and no blank key.
* `annotations_agree`: the check and the reading take the same annotations for sound.
-/

namespace TypedSettings

open Source

/-! ## What sound annotations say -/

/-- The tokens that the annotation of an interface hands to its check. -/
def Check.arguments? (attr : Tree) : Option (List Token) :=
  match (attr.part 2).part 0 with
  | .node .metaPath _ => some []
  | .node .metaList [_, .run [.group _ args _ _]] => some args
  | _ => none

namespace StoreArg

/-- The name that an argument gives a store. -/
def name? : StoreArg → Option String
  | name text => some text
  | mode _ => none

/-- The mode that an argument gives a store. -/
def mode? : StoreArg → Option StoreMode
  | name _ => none
  | mode m => some m

/-- The last name counts, unless it is empty, and the last mode. -/
theorem foldl_addTo (args : List StoreArg) : args.foldl addTo {} =
    { name := (args.filterMap name?).getLast?.filter (· ≠ "")
      mode := (args.filterMap mode?).getLast?.getD .ownProcess } := by
  induction args using List.reverseRecOn with
  | nil => rfl
  | append_singleton args arg ih =>
    rw [List.foldl_concat, ih, List.filterMap_append, List.filterMap_append]
    cases arg with
    | name text =>
      by_cases htext : text = ""
      · simp [addTo, name?, mode?, htext, Option.filter]
      · simp [addTo, name?, mode?, htext, Option.filter]
    | mode m => simp [addTo, name?, mode?]

end StoreArg

/-- Sound arguments of an interface are read as the store that they name. -/
theorem InterfaceDecl.readStore_of_storeArgs {attr : Tree} {ts : List Token}
    {args : List StoreArg} (hattr : Check.arguments? attr = some ts)
    (hargs : Check.storeArgs ts = .ok args) :
    readStore attr = .ok (args.foldl StoreArg.addTo {}) := by
  unfold Check.arguments? at hattr
  unfold readStore ArgReader.ofAttribute
  split at hattr
  · next hpath =>
    cases hattr
    cases hargs
    simp [hpath, Tree.isKind, Tree.kind?]
  · next path d body pos close hlist =>
    cases hattr
    obtain ⟨c', hread⟩ := Check.list_of_storeArgs hargs close
    simp [hlist, Tree.isKind, Tree.kind?, hread, Except.map]
  · cases hattr

namespace MethodArg

theorem named_iff {args : List MethodArg} :
    (∀ arg ∈ args, arg.Named) ↔ ∀ text, .key text ∈ args → Text.trim text ≠ "" := by
  constructor
  · exact fun h text htext => h _ htext
  · intro h arg harg
    cases arg with
    | key text => exact h text harg
    | default _ => trivial

/-- The key of a method is one that was written. -/
theorem key_foldl_addTo {args : List MethodArg} {key : String}
    (h : (args.foldl addTo {}).key = some key) : .key key ∈ args := by
  induction args using List.reverseRecOn with
  | nil => cases h
  | append_singleton args arg ih =>
    rw [List.foldl_concat] at h
    cases arg with
    | key text =>
      obtain rfl := Option.some.inj h
      exact List.mem_append_right _ List.mem_cons_self
    | default value => exact List.mem_append_left _ (ih h)

end MethodArg

/-! ## Interfaces -/

/-- No method of the interface has an explicit key that is blank. -/
def InterfaceDecl.KeysNamed (d : InterfaceDecl) : Prop :=
  ∀ m ∈ d.methods, ∀ key, m.metadata.key = some key → Text.trim key ≠ ""

/-- A named key is never refused as empty. -/
theorem Key.resolve_ne_invalidKey {m : MethodDecl} {key : String}
    (hkey : m.metadata.key = some key) (hnamed : Text.trim key ≠ "") (interface : String)
    (role : Role) (kind : ValueKind) (site : Attribution) :
    Key.resolve interface m role kind ≠ .error (.invalidKey m.name site) := by
  have hne : Key.ofMethod m role ≠ "" := by
    rw [Key.ofMethod, hkey]
    exact hnamed
  unfold Key.resolve
  rw [if_neg hne]
  split
  · exact nofun
  · split
    · exact nofun
    · exact nofun
    · split
      · exact nofun
      · exact nofun

theorem Check.memberFaults_bodiless {attrs sig body : Tree} (h : body.isKind .block = false) :
    memberFaults (.node .traitFn [attrs, sig, body]) = markFaults attrs.parts := by
  have hbody : (bodyAttributes body).parts = [] := by
    rw [bodyAttributes, h]
    rfl
  rw [memberFaults, hbody, List.append_nil]

namespace InterfaceDecl

/-- A member whose annotations are sound adds no issue and no blank key. -/
theorem addMember_sound (file : Option String) {d : InterfaceDecl} {member : Tree}
    (h : Check.memberFaults member = []) (hissues : d.issues = []) (hkeys : d.KeysNamed) :
    (addMember file d member).issues = [] ∧ (addMember file d member).KeysNamed := by
  unfold addMember
  split
  · next attrs sig body =>
    cases hbody : body.isKind .block with
    | true => exact ⟨hissues, hkeys⟩
    | false =>
      rw [Check.memberFaults_bodiless hbody] at h
      obtain ⟨args, hargs, hnamed⟩ := (Check.markFaults_eq_nil_iff _).1 h
      rw [if_neg Bool.false_ne_true, readMetadata_eq, hargs]
      refine ⟨hissues, fun m hm key hkey => ?_⟩
      rcases List.mem_append.1 hm with hm | hm
      · exact hkeys m hm key hkey
      · obtain rfl := List.mem_singleton.1 hm
        exact MethodArg.named_iff.1 hnamed key (MethodArg.key_foldl_addTo hkey)
  · exact ⟨hissues, hkeys⟩

theorem foldl_addMember_sound (file : Option String) {d : InterfaceDecl} {members : List Tree}
    (h : members.flatMap Check.memberFaults = []) (hissues : d.issues = []) (hkeys : d.KeysNamed) :
    (members.foldl (addMember file) d).issues = [] ∧
      (members.foldl (addMember file) d).KeysNamed := by
  induction members generalizing d with
  | nil => exact ⟨hissues, hkeys⟩
  | cons member members ih =>
    rw [List.flatMap_cons, List.append_eq_nil_iff] at h
    obtain ⟨hi, hk⟩ := addMember_sound file h.1 hissues hkeys
    exact ih h.2 hi hk

theorem foldl_addMember_store (file : Option String) (members : List Tree) (d : InterfaceDecl) :
    (members.foldl (addMember file) d).store = d.store := by
  induction members generalizing d with
  | nil => rfl
  | cons member members ih =>
    rw [List.foldl_cons, ih]
    unfold addMember
    split
    · split
      · rfl
      · split <;> rfl
    · rfl

/-- An interface whose annotations are sound is read without an issue. -/
theorem ofItem_sound {item attr : Tree} {ts : List Token} {args : List StoreArg}
    (hattr : storeAttribute? (attributes item) = some attr)
    (hts : Check.arguments? attr = some ts) (hargs : Check.storeArgs ts = .ok args)
    (hmembers : (Check.members item).flatMap Check.memberFaults = []) (name : String)
    (file : Option String) (resolve : String → List String) :
    (ofItem name file resolve item).store = some (args.foldl StoreArg.addTo {}) ∧
      (ofItem name file resolve item).issues = [] ∧
      (ofItem name file resolve item).KeysNamed := by
  have hstore := readStore_of_storeArgs hts hargs
  unfold ofItem
  simp only [hattr, hstore]
  exact ⟨foldl_addMember_store file _ _,
    foldl_addMember_sound file hmembers rfl fun m hm => by cases hm⟩

end InterfaceDecl

namespace Check

/-- What passes the check of an interface. -/
theorem interface_faults_eq_nil {ts item : List Token} {tree : Tree}
    (h : (interface ts item).faults = []) (htree : readTokens Grammar.onlyTrait item = .ok tree) :
    ∃ args, storeArgs ts = .ok args ∧ (members tree).flatMap memberFaults = [] := by
  unfold interface at h
  split at h
  · cases h
  · next args hargs =>
    refine ⟨args, hargs, ?_⟩
    rw [htree] at h
    dsimp only at h
    split at h
    · next hnone => exact hnone
    · next hsome => exact absurd h hsome

/-- The check of annotations and the reading of interfaces take the same annotations for sound: those
of a method without body pass where they are read and every key in them is named, sound arguments of
an interface are read as the store that they name, and an interface that passes is read without an
issue and with named keys. -/
theorem annotations_agree :
    (∀ attrs sig body : Tree, body.isKind .block = false →
      (memberFaults (.node .traitFn [attrs, sig, body]) = [] ↔
        ∃ args, MethodArg.ofAttributes attrs.parts = .ok args ∧
          InterfaceDecl.readMetadata attrs.parts = .ok (args.foldl MethodArg.addTo {}) ∧
          ∀ text, .key text ∈ args → Text.trim text ≠ "")) ∧
    (∀ (attr : Tree) (ts : List Token) (args : List StoreArg), arguments? attr = some ts →
      storeArgs ts = .ok args →
      InterfaceDecl.readStore attr = .ok
        { name := (args.filterMap StoreArg.name?).getLast?.filter (· ≠ "")
          mode := (args.filterMap StoreArg.mode?).getLast?.getD .ownProcess }) ∧
    (∀ (ts item : List Token) (tree source attr : Tree) (name : String) (file : Option String)
      (resolve : String → List String),
      (interface ts item).faults = [] → readTokens Grammar.onlyTrait item = .ok tree →
      source.part 10 = tree.part 10 →
      InterfaceDecl.storeAttribute? (InterfaceDecl.attributes source) = some attr →
      arguments? attr = some ts →
      let d := InterfaceDecl.ofItem name file resolve source
      d.issues = [] ∧
      (∃ store, InterfaceDecl.readStore attr = .ok store ∧ d.store = some store) ∧
      ∀ m ∈ d.methods, m.metadata.key.isSome = true → ∀ role kind site,
        Key.resolve d.name m role kind ≠ .error (.invalidKey m.name site)) := by
  refine ⟨fun attrs sig body hbody => ?_, fun attr ts args hattr hargs => ?_, ?_⟩
  · rw [memberFaults_bodiless hbody, markFaults_eq_nil_iff]
    refine exists_congr fun args => ?_
    rw [MethodArg.named_iff, InterfaceDecl.readMetadata_eq]
    refine and_congr_right fun hargs => ?_
    rw [hargs]
    exact ⟨fun hnamed => ⟨rfl, hnamed⟩, And.right⟩
  · rw [InterfaceDecl.readStore_of_storeArgs hattr hargs, StoreArg.foldl_addTo]
  · intro ts item tree source attr name file resolve hfaults htree hbody hattr hts d
    obtain ⟨args, hargs, hmembers⟩ := interface_faults_eq_nil hfaults htree
    rw [members, ← hbody] at hmembers
    obtain ⟨hstore, hissues, hkeys⟩ :=
      InterfaceDecl.ofItem_sound hattr hts hargs hmembers name file resolve
    refine ⟨hissues, ?_, fun m hm hkey role kind site => ?_⟩
    · exact ⟨_, InterfaceDecl.readStore_of_storeArgs hts hargs, hstore⟩
    · obtain ⟨key, hkey⟩ := Option.isSome_iff_exists.1 hkey
      exact Key.resolve_ne_invalidKey hkey (hkeys m hm key hkey) _ role kind site

/-! An interface with two arguments of its own and one annotated method. -/

/-- An interface with one annotation in front. -/
def annotated (attr item : Tree) : Tree :=
  .node .itemTrait (.node .attributes [attr] :: item.parts.drop 1)

theorem part_annotated (attr item : Tree) (i : Nat) :
    (annotated attr item).part (i + 1) = item.part (i + 1) := by
  simp [annotated, Tree.part, Tree.parts]

theorem storeAttribute?_annotated {attr : Tree} (item : Tree)
    (h : ((InterfaceDecl.pathNames (InterfaceDecl.attributePath attr)).getLast?
      == some "preferences") = true) :
    InterfaceDecl.storeAttribute? (InterfaceDecl.attributes (annotated attr item)) = some attr :=
  List.find?_cons_of_pos h

def radioItem : List Token :=
  (tokenize "trait Radio \x7b #[pref(key = \"band\", default = 3)] fn tuned(&self) -> i32; \x7d")
    |>.toOption.getD []

def radioTree : Tree := (readTokens Grammar.onlyTrait radioItem).toOption.getD .absent

def radioAttribute : Tree :=
  (readText (fun rules => Grammar.oneAttribute rules false)
    "#[preferences(name = \"radio\", mode = \"multi_process_readable\",)]")
    |>.toOption.getD .absent

def radioArguments : List Token := (arguments? radioAttribute).getD []

def radio : Tree := annotated radioAttribute radioTree

/-- The method of the interface. -/
def radioMethod : Tree := (radioTree.part 10).part 1

theorem radio_evaluated :
    (readTokens Grammar.onlyTrait radioItem).isOk = true ∧
    (arguments? radioAttribute).isSome = true ∧
    (interface radioArguments radioItem).faults = [] ∧
    (storeArgs radioArguments).toOption = some [.name "radio", .mode .sharedRead] ∧
    ((InterfaceDecl.pathNames (InterfaceDecl.attributePath radioAttribute)).getLast?
      == some "preferences") = true ∧
    (radioMethod.part 2).isKind .block = false ∧
    memberFaults (.node .traitFn [radioMethod.part 0, radioMethod.part 1, radioMethod.part 2]) = []
      ∧ (InterfaceDecl.ofItem "crate::Radio" none (fun _ => []) radio).methods.map
          (fun m => m.metadata.key) = [some "band"] := by
  decide +kernel

theorem annotations_agree_radio :
    (∃ args, MethodArg.ofAttributes (radioMethod.part 0).parts = .ok args ∧
      InterfaceDecl.readMetadata (radioMethod.part 0).parts
        = .ok (args.foldl MethodArg.addTo {})) ∧
    InterfaceDecl.readStore radioAttribute = .ok ⟨some "radio", .sharedRead⟩ ∧
    (let d := InterfaceDecl.ofItem "crate::Radio" none (fun _ => []) radio
     d.issues = [] ∧ d.store = some ⟨some "radio", .sharedRead⟩ ∧
      ∃ m ∈ d.methods, m.metadata.key = some "band" ∧
        Key.resolve d.name m .getter (.primitive .int)
          ≠ .error (.invalidKey m.name (.ofMethod d.name m.name))) := by
  obtain ⟨hread, hsome, hfaults, hstore, hplain, hbody, hmember, hkeys⟩ := radio_evaluated
  obtain ⟨hmethods, hstores, hinterfaces⟩ := annotations_agree
  obtain ⟨args, hargs, hmeta, -⟩ := (hmethods _ _ _ hbody).1 hmember
  have hts : arguments? radioAttribute = some radioArguments := by
    obtain ⟨ts, hts⟩ := Option.isSome_iff_exists.1 hsome
    rw [radioArguments, hts]
    rfl
  have hok : storeArgs radioArguments = .ok [.name "radio", .mode .sharedRead] := by
    cases h : storeArgs radioArguments with
    | error e =>
      rw [h] at hstore
      cases hstore
    | ok args =>
      rw [h] at hstore
      rw [Option.some.inj hstore]
  have hreadStore : InterfaceDecl.readStore radioAttribute = .ok ⟨some "radio", .sharedRead⟩ :=
    hstores _ _ _ hts hok
  have htree : readTokens Grammar.onlyTrait radioItem = .ok radioTree := by
    obtain ⟨tree, htree⟩ := exists_of_isOk hread
    rw [radioTree, htree]
    rfl
  obtain ⟨hissues, ⟨store, hs, hd⟩, hnamed⟩ := hinterfaces _ _ _ radio _ "crate::Radio" none
    (fun _ => []) hfaults htree (part_annotated _ _ 9) (storeAttribute?_annotated _ hplain) hts
  refine ⟨⟨args, hargs, hmeta⟩, hreadStore, hissues, ?_, ?_⟩
  · rw [hd]
    exact congrArg some (Except.ok.inj (hs.symm.trans hreadStore))
  · have hmem : some "band" ∈ (InterfaceDecl.ofItem "crate::Radio" none (fun _ => [])
        radio).methods.map (fun m => m.metadata.key) := by
      rw [hkeys]
      exact List.mem_cons_self
    obtain ⟨m, hm, hkey⟩ := List.mem_map.1 hmem
    exact ⟨m, hm, hkey, hnamed m hm (by rw [hkey]; rfl) _ _ _⟩

end Check

end TypedSettings
