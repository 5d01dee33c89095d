import TypedSettings.Proofs.Interface.Names
import TypedSettings.Proofs.Project.SourceFiles

/-!
Where a unit is written. The file of a unit is named by the words of its structure's name, in lower
case. That name ends as the structure's does, so it is none of the names that stand for another
module, and no letter turns into a slash. So the file is a module of its own, right below the module
of the interface.

* `words_eq`, `flatten_wordsFrom`: the words of a name, without the underscores, are the name.
* `slash_not_mem_lowercase`: what a lower case cannot have.
* `snakeCase_structName_ne`: the names that a unit's file does not have.
* `moduleOfFile_unitPath`: the module that a unit's file holds.
-/

namespace TypedSettings

/-! ## Lower case -/

namespace Text

/-- The lower cases of a run are letters past the digits, and they do not wrap around. -/
def CaseRun.IsHigh (run : CaseRun) : Prop :=
  48 ≤ (run.lo + run.delta) % 0x110000 ∧
    (run.lo + run.delta) % 0x110000 + (run.hi - run.lo) < 0x110000

instance (run : CaseRun) : Decidable run.IsHigh := by unfold CaseRun.IsHigh; infer_instance

theorem CaseRun.IsHigh.lower {run : CaseRun} (h : run.IsHigh) {n m : Nat}
    (hm : run.lower? n = some m) : 48 ≤ m := by
  obtain ⟨hlow, hwrap⟩ := h
  unfold lower? at hm
  split at hm
  · next hn =>
    rw [← Option.some.inj hm]
    omega
  · cases hm

theorem isHigh_of_mem_lowerRuns : ∀ run ∈ Table.lowerRuns, run.IsHigh := by
  have hall : Table.lowerRuns.all (fun run => decide run.IsHigh) = true := by
    -- Line by line, each as a list of characters: texts are slow to take apart.
    unfold Table.lowerRuns CaseRun.ofLines
    rw [List.all_flatMap]
    simp only [List.all_cons, List.all_nil, Bool.and_eq_true]
    and_intros
    all_goals try rw [String.toList_ofList]
    all_goals decide +kernel
  intro run hrun
  exact of_decide_eq_true (List.all_eq_true.1 hall run hrun)

theorem ofNat_ne_slash {n : Nat} (h : 48 ≤ n) : Char.ofNat n ≠ '/' := by
  intro heq
  have hcode : (Char.ofNat n).toNat = 47 := congrArg Char.toNat heq
  by_cases hvalid : n.isValidChar
  · have hn : (Char.ofNat n).toNat = n := by
      rw [Char.ofNat, dif_pos hvalid]
      rfl
    omega
  · rw [Char.ofNat, dif_neg hvalid] at hcode
    exact absurd hcode (by decide)

/-- Only a slash has a slash as its lower case. -/
theorem slash_not_mem_lowerChar {c : Char} (h : c ≠ '/') : '/' ∉ lowerChar c := by
  unfold lowerChar
  split
  · rw [List.mem_singleton]
    split
    · next hupper =>
      rw [isAsciiUpper, Bool.and_eq_true, decide_eq_true_eq] at hupper
      have hlow : 65 ≤ c.toNat := hupper.1
      exact (ofNat_ne_slash (by omega)).symm
    · exact h.symm
  · split
    · decide
    · split
      · next n hn =>
        obtain ⟨run, hrun, hlower⟩ := List.exists_of_findSome?_eq_some hn
        rw [List.mem_singleton]
        exact (ofNat_ne_slash ((isHigh_of_mem_lowerRuns run hrun).lower hlower)).symm
      · rw [List.mem_singleton]
        exact h.symm

theorem slash_not_mem_lowerFrom (before : List Char) {cs : List Char} (h : '/' ∉ cs) :
    '/' ∉ lowerFrom before cs := by
  induction cs generalizing before with
  | nil => exact List.not_mem_nil
  | cons c rest ih =>
    rw [List.mem_cons, not_or] at h
    rw [lowerFrom, List.mem_append, not_or]
    refine ⟨?_, ih _ h.2⟩
    split
    · split <;> decide
    · exact slash_not_mem_lowerChar (Ne.symm h.1)

theorem slash_not_mem_lowercase {s : String} (h : '/' ∉ s.toList) :
    '/' ∉ (lowercase s).toList := by
  rw [lowercase, String.toList_ofList]
  exact slash_not_mem_lowerFrom [] h

/-- The lower case of a text ends in that of its last letter. -/
theorem lowerFrom_concat (before cs : List Char) {c : Char} (hc : c ≠ 'Σ') :
    ∃ front, lowerFrom before (cs ++ [c]) = front ++ lowerChar c := by
  induction cs generalizing before with
  | nil =>
    refine ⟨[], ?_⟩
    rw [List.nil_append, lowerFrom, if_neg hc, lowerFrom, List.append_nil, List.nil_append]
  | cons first cs ih =>
    obtain ⟨front, hfront⟩ := ih (first :: before)
    rw [List.cons_append, lowerFrom, hfront, ← List.append_assoc]
    exact ⟨_, rfl⟩

end Text

namespace Naming

/-! ## Words -/

/-- No word is open behind an underscore, which is as good as before the first character. -/
theorem words_eq {name : String} (h : name ≠ "_") :
    words name = (wordsFrom '_' [] name.toList).map String.ofList := by
  unfold words
  split
  · next hnil =>
    rw [hnil]
    rfl
  · next c rest hname =>
    rw [hname, wordsFrom, if_pos (.inr rfl), if_pos rfl, List.nil_append]
    congr 1
    by_cases hc : c = '_'
    · rw [if_pos hc, hc]
      cases rest with
      | nil => exact absurd (String.toList_inj.1 (hname.trans (by rw [hc]; rfl))) h
      | cons d rest => simp [wordsFrom]
    · rw [if_neg hc]

/-- The words are the characters but the underscores, in order. -/
theorem flatten_wordsFrom {prev : Char} {word : List Char} (h : prev = '_' → word = [])
    (cs : List Char) :
    (wordsFrom prev word cs).flatten = word.reverse ++ cs.filter (· ≠ '_') := by
  have hdone (word : List Char) :
      (if word.isEmpty then [] else [word.reverse]).flatten = word.reverse := by
    cases word <;> simp
  induction cs generalizing prev word with
  | nil =>
    rw [wordsFrom, hdone]
    exact (List.append_nil _).symm
  | cons c rest ih =>
    rw [wordsFrom]
    split
    · next hunder =>
      have hleft : (if prev = '_' then [] else if word.isEmpty then [] else [word.reverse]).flatten
          = word.reverse := by
        split
        · next hprev => rw [h hprev]; rfl
        · exact hdone word
      rw [List.flatten_append, hleft, ih fun hc => if_pos hc]
      by_cases hc : c = '_'
      · rw [if_pos hc, List.filter_cons_of_neg (by simpa using hc)]
        rfl
      · rw [if_neg hc, List.filter_cons_of_pos (by simpa using hc)]
        rfl
    · next hunder =>
      rw [not_or] at hunder
      have hopen : c = '_' → (c :: word) = [] := fun hc => absurd hc hunder.1
      rw [List.filter_cons_of_pos (by simpa using hunder.1)]
      split
      · rw [List.flatten_append, hdone, ih fun hc => absurd hc hunder.1]
        rfl
      · rw [ih hopen, List.reverse_cons, List.append_assoc]
        rfl

/-- No word is empty. -/
theorem nil_not_mem_wordsFrom (prev : Char) (word cs : List Char) :
    [] ∉ wordsFrom prev word cs := by
  have hdone (word : List Char) : [] ∉ (if word.isEmpty then [] else [word.reverse]) := by
    cases word <;> simp
  induction cs generalizing prev word with
  | nil => exact hdone word
  | cons c rest ih =>
    rw [wordsFrom]
    split
    · rw [List.mem_append, not_or]
      refine ⟨?_, ih _ _⟩
      split
      · exact List.not_mem_nil
      · exact hdone word
    · split
      · rw [List.mem_append, not_or]
        exact ⟨hdone word, ih _ _⟩
      · exact ih _ _

theorem mem_of_mem_words {name word : String} (h : word ∈ words name) {c : Char}
    (hc : c ∈ word.toList) : c ∈ name.toList := by
  by_cases hname : name = "_"
  · rw [hname] at h ⊢
    rwa [← List.mem_singleton.1 (show word ∈ ["_"] from h)]
  · rw [words_eq hname] at h
    obtain ⟨cs, hcs, rfl⟩ := List.mem_map.1 h
    rw [String.toList_ofList] at hc
    have hmem : c ∈ (wordsFrom '_' [] name.toList).flatten := List.mem_flatten.2 ⟨cs, hcs, hc⟩
    rw [flatten_wordsFrom fun _ => rfl] at hmem
    exact (List.mem_filter.1 hmem).1

/-! ## The file of a unit -/

theorem mem_intercalate {sep : String} {parts : List String} {c : Char}
    (h : c ∈ (sep.intercalate parts).toList) :
    c ∈ sep.toList ∨ ∃ part ∈ parts, c ∈ part.toList := by
  induction parts with
  | nil => cases h
  | cons part parts ih =>
    by_cases hnil : parts = []
    · rw [hnil, String.intercalate_singleton] at h
      exact .inr ⟨part, List.mem_cons_self, h⟩
    · rw [← List.singleton_append, String.intercalate_append_of_ne_nil (List.cons_ne_nil _ _) hnil,
        String.intercalate_singleton, String.toList_append, String.toList_append,
        List.mem_append, List.mem_append] at h
      rcases h with (h | h) | h
      · exact .inr ⟨part, List.mem_cons_self, h⟩
      · exact .inl h
      · rcases ih h with h | ⟨later, hlater, h⟩
        · exact .inl h
        · exact .inr ⟨later, List.mem_cons_of_mem _ hlater, h⟩

theorem slash_not_mem_snakeCase {name : String} (h : '/' ∉ name.toList) :
    '/' ∉ (snakeCase name).toList := by
  intro hmem
  rcases mem_intercalate hmem with hmem | ⟨part, hpart, hmem⟩
  · exact absurd hmem (by decide)
  · obtain ⟨word, hword, rfl⟩ := List.mem_map.1 hpart
    exact Text.slash_not_mem_lowercase (fun hslash => h (mem_of_mem_words hword hslash)) hmem

theorem getLast?_intercalate (sep : String) (parts : List String) {last : String} {c : Char}
    (h : last.toList.getLast? = some c) :
    (sep.intercalate (parts ++ [last])).toList.getLast? = some c := by
  by_cases hnil : parts = []
  · rw [hnil, List.nil_append, String.intercalate_singleton, h]
  · rw [String.intercalate_append_of_ne_nil hnil (List.cons_ne_nil _ _),
      String.intercalate_singleton, String.toList_append, List.getLast?_append, h]
    rfl

theorem toList_structName (name : String) :
    (structName name).toList = name.toList ++ ['I', 'm', 'p', 'l'] := by
  rw [structName, String.toList_append]
  rfl

theorem structName_ne_underscore (name : String) : structName name ≠ "_" := by
  intro heq
  have hlast := congrArg List.getLast? (toList_structName name)
  rw [heq, List.getLast?_append] at hlast
  exact absurd (show some '_' = some 'l' from hlast) (by decide)

/-- The name of a unit's file ends as that of the unit's structure. -/
theorem getLast?_snakeCase_structName (name : String) :
    (snakeCase (structName name)).toList.getLast? = some 'l' := by
  have hflat : (wordsFrom '_' [] (structName name).toList).flatten.getLast? = some 'l' := by
    rw [flatten_wordsFrom fun _ => rfl, toList_structName, List.filter_append,
      List.getLast?_append, List.getLast?_append]
    rfl
  have hempty := nil_not_mem_wordsFrom '_' [] (structName name).toList
  -- The last word holds the last character, because no word is empty.
  rw [snakeCase, words_eq (structName_ne_underscore name)]
  rcases List.eq_nil_or_concat (wordsFrom '_' [] (structName name).toList) with hnil | ⟨init, w, hw⟩
  · rw [hnil] at hflat
    cases hflat
  · rw [hw] at hflat hempty ⊢
    rcases List.eq_nil_or_concat w with rfl | ⟨cs, c, rfl⟩
    · exact absurd (by simp) hempty
    · have hc : c = 'l' := by simpa using hflat
      obtain ⟨front, hfront⟩ := Text.lowerFrom_concat [] cs (show 'l' ≠ 'Σ' by decide)
      rw [List.concat_eq_append, List.concat_eq_append, List.map_append, List.map_append]
      refine getLast?_intercalate _ _ ?_
      rw [Text.lowercase, String.toList_ofList, String.toList_ofList, hc, hfront,
        List.getLast?_append]
      rfl

/-- The name stands for no other module. -/
theorem snakeCase_structName_ne (name : String) :
    snakeCase (structName name) ≠ "" ∧ snakeCase (structName name) ≠ "mod" ∧
      snakeCase (structName name) ≠ "lib" ∧ snakeCase (structName name) ≠ "main" := by
  have hother {other : String} (h : other.toList.getLast? ≠ some 'l') :
      snakeCase (structName name) ≠ other := by
    rintro rfl
    exact h (getLast?_snakeCase_structName name)
  exact ⟨hother (by decide), hother (by decide), hother (by decide), hother (by decide)⟩

theorem isPlain_unitFile {name : String} (h : '/' ∉ name.toList) :
    FilePath.IsPlain (snakeCase (structName name) ++ ".rs") := by
  have hext : ".rs".toList = ['.', 'r', 's'] := by decide
  have himpl : '/' ∉ "Impl".toList := by decide
  have hlast : (snakeCase (structName name) ++ ".rs").toList.getLast? = some 's' := by
    rw [String.toList_append, List.getLast?_append, hext]
    rfl
  have hother {other : String} (hne : other.toList.getLast? ≠ some 's') :
      snakeCase (structName name) ++ ".rs" ≠ other := by
    intro heq
    rw [heq] at hlast
    exact hne hlast
  refine ⟨hother (by decide), hother (by decide), hother (by decide), ?_⟩
  rw [String.toList_append, List.mem_append, not_or, hext]
  refine ⟨slash_not_mem_snakeCase ?_, by decide⟩
  rw [structName, String.toList_append, List.mem_append, not_or]
  exact ⟨h, himpl⟩

/-- A unit is written where its module belongs: the file of the unit is a module of its own, right
below the module of the interface, in whatever directory the units are written. -/
theorem moduleOfFile_unitPath (output : FilePath) {crate modules : List String} {trait : String}
    (hcrate : crate = ["crate"] ∨ crate = [])
    (hmodules : ∀ m ∈ modules, Emit.isIdentifier m = true ∧ m ≠ "crate")
    (htrait : Emit.isIdentifier trait = true) :
    let root := QualifiedName.ofSegments (crate ++ modules ++ [trait])
    let file := output.join (unitPath root)
    QualifiedName.modulePath root = modules ∧
      file.fileStem? = some (snakeCase (structName trait)) ∧
      moduleOfFile output file = modules ++ [snakeCase (structName trait)] := by
  intro root file
  have hcolon : ∀ n ∈ crate ++ modules ++ [trait], ':' ∉ n.toList := by
    intro n hn
    rw [List.mem_append, List.mem_append, List.mem_singleton] at hn
    rcases hn with (hn | hn) | rfl
    · rcases hcrate with rfl | rfl
      · rw [List.mem_singleton.1 hn]
        decide
      · cases hn
    · exact Emit.colon_not_mem (hmodules n hn).1
    · exact Emit.colon_not_mem htrait
  have hmodule : QualifiedName.modulePath root = modules := by
    have hkept : modules.filter (· ≠ "crate") = modules :=
      List.filter_eq_self.2 fun m hm => by simpa using (hmodules m hm).2
    rw [QualifiedName.modulePath_ofSegments hcolon, List.filter_append, hkept]
    rcases hcrate with rfl | rfl
    · rfl
    · rfl
  have hsimple : QualifiedName.simple root = trait :=
    QualifiedName.simple_ofSegments _ (Emit.colon_not_mem htrait)
  have hplain : ∀ n ∈ modules ++ [snakeCase (structName trait) ++ ".rs"], FilePath.IsPlain n := by
    intro n hn
    rw [List.mem_append, List.mem_singleton] at hn
    rcases hn with hn | rfl
    · exact Emit.isPlain_of_isIdentifier (hmodules n hn).1
    · exact isPlain_unitFile (Emit.slash_not_mem htrait)
  have hfile : file.components
      = output.components ++ (modules ++ [snakeCase (structName trait) ++ ".rs"]).map .normal := by
    show (output.join (unitPath root)).components = _
    rw [unitPath, hmodule, hsimple, FilePath.components_join output hplain]
  obtain ⟨hempty, hmod, hlib, hmain⟩ := snakeCase_structName_ne trait
  refine ⟨hmodule, ?_, ?_⟩
  · rw [FilePath.fileStem?, FilePath.fileName?, hfile, List.map_append, ← List.append_assoc]
    simp [FilePath.splitName_rs hempty]
  · rw [SourceFolder.moduleOfFile_eq hempty hfile, if_neg]
    rintro (h | ⟨-, h | h⟩)
    · exact hmod h
    · exact hlib h
    · exact hmain h

/-- An acronym, a digit, an underscore, a raw identifier and letters beyond ASCII. -/
theorem moduleOfFile_unitPath_acronym :
    let root := QualifiedName.ofSegments (["crate"] ++ ["r#type", "réglages"] ++ ["HTTP2_ÉtatÇa"])
    let file := FilePath.join ⟨"../gen/."⟩ (unitPath root)
    QualifiedName.modulePath root = ["r#type", "réglages"] ∧
      file.fileStem? = some "http2_état_ça_impl" ∧
      moduleOfFile ⟨"../gen/."⟩ file = ["r#type", "réglages", "http2_état_ça_impl"] := by
  have hstem : snakeCase (structName "HTTP2_ÉtatÇa") = "http2_état_ça_impl" := by decide +kernel
  have hunit := @moduleOfFile_unitPath ⟨"../gen/."⟩ ["crate"] ["r#type", "réglages"] "HTTP2_ÉtatÇa"
    (.inl rfl) (by decide +kernel) (by decide +kernel)
  rw [hstem] at hunit
  exact hunit

end Naming

end TypedSettings
