import Mathlib.Data.List.Basic
import Mathlib.Data.List.Induction
import TypedSettings.FilePath

/-!
Paths piece by piece. Joined paths have the components of both, and a path to a file has the
components of its folder and one for the file's name.

* `components_join`: the components of a path that plain names are joined to.
* `components_append`: the components of paths that differ in an extension differ in the last one;
  those above are their folder's.
-/

namespace TypedSettings

/-! ## Pieces -/

namespace Text

variable {sep : Char}

theorem splitAtChar_ne_nil (cs : List Char) : splitAtChar sep cs ≠ [] := by
  cases cs with
  | nil => simp [splitAtChar]
  | cons c cs =>
    unfold splitAtChar
    split
    · simp
    · split <;> simp

theorem splitAtChar_cons (c : Char) (cs : List Char) (hc : c ≠ sep) :
    ∃ piece pieces, splitAtChar sep cs = piece :: pieces ∧
      splitAtChar sep (c :: cs) = (c :: piece) :: pieces := by
  obtain ⟨piece, pieces, h⟩ := List.exists_cons_of_ne_nil (@splitAtChar_ne_nil sep cs)
  refine ⟨piece, pieces, h, ?_⟩
  rw [splitAtChar, if_neg hc, h]

theorem splitAtChar_of_not_mem {cs : List Char} (h : sep ∉ cs) : splitAtChar sep cs = [cs] := by
  induction cs with
  | nil => rfl
  | cons c cs ih =>
    rw [List.mem_cons, not_or] at h
    rw [splitAtChar, if_neg (Ne.symm h.1), ih h.2]

theorem splitAtChar_append_sep (as bs : List Char) :
    splitAtChar sep (as ++ sep :: bs) = splitAtChar sep as ++ splitAtChar sep bs := by
  induction as with
  | nil =>
    show splitAtChar sep (sep :: bs) = [] :: splitAtChar sep bs
    rw [splitAtChar, if_pos rfl]
  | cons a as ih =>
    by_cases ha : a = sep
    · rw [List.cons_append, splitAtChar, if_pos ha, splitAtChar, if_pos ha, ih]
      rfl
    · obtain ⟨piece, pieces, has, hcons⟩ := splitAtChar_cons a as ha
      rw [hcons, List.cons_append, splitAtChar, if_neg ha, ih, has]
      rfl

theorem not_mem_of_mem_splitAtChar {cs piece : List Char} (h : piece ∈ splitAtChar sep cs) :
    sep ∉ piece := by
  induction cs generalizing piece with
  | nil =>
    rw [splitAtChar, List.mem_singleton] at h
    rw [h]
    exact List.not_mem_nil
  | cons c cs ih =>
    by_cases hc : c = sep
    · rw [splitAtChar, if_pos hc, List.mem_cons] at h
      rcases h with rfl | h
      · exact List.not_mem_nil
      · exact ih h
    · obtain ⟨first, rest, hsplit, hcons⟩ := splitAtChar_cons c cs hc
      rw [hcons, List.mem_cons] at h
      rw [hsplit] at ih
      rcases h with rfl | h
      · rw [List.mem_cons, not_or]
        exact ⟨Ne.symm hc, ih List.mem_cons_self⟩
      · exact ih (List.mem_cons_of_mem _ h)

end Text

namespace FilePath

/-! ## Joined paths -/

/-- The name of a file or a folder in its folder. -/
structure IsPlain (name : String) : Prop where
  ne_empty : name ≠ ""
  ne_current : name ≠ "."
  ne_parent : name ≠ ".."
  no_slash : '/' ∉ name.toList

theorem inner?_plain {name : String} (h : IsPlain name) : inner? name = some (.normal name) := by
  rw [inner?, if_neg h.ne_current, if_neg h.ne_parent]

theorem isAbsolute_eq_false {name : String} (h : '/' ∉ name.toList) :
    isAbsolute ⟨name⟩ = false := by
  rw [isAbsolute, beq_eq_false_iff_ne]
  exact fun hhead => h (List.mem_of_head? hhead)

theorem text_join {dir path : FilePath} (h : path.isAbsolute = false) :
    (dir.join path).text = dir.text ++ path.text ∧
        (dir.text = "" ∨ dir.text.toList.getLast? = some '/') ∨
      (dir.join path).text = dir.text ++ "/" ++ path.text ∧ dir.text ≠ "" := by
  unfold join
  rw [if_neg (by rw [h]; exact Bool.false_ne_true)]
  split
  · next hdir => exact .inl ⟨rfl, hdir⟩
  · next hdir =>
    rw [not_or] at hdir
    exact .inr ⟨rfl, hdir.1⟩

theorem isAbsolute_join {dir path : FilePath} (h : path.isAbsolute = false) :
    (dir.join path).isAbsolute = dir.isAbsolute := by
  have happend : ∀ rest : String, dir.text ≠ "" →
      ((dir.text ++ rest).toList.head? == some '/') = dir.isAbsolute := by
    intro rest hne
    obtain ⟨c, cs, hdir⟩ :=
      List.exists_cons_of_ne_nil fun hnil => hne (String.toList_eq_nil_iff.1 hnil)
    rw [isAbsolute, String.toList_append, hdir]
    rfl
  rcases @text_join dir path h with ⟨htext, -⟩ | ⟨htext, hne⟩
  · rw [isAbsolute, htext]
    by_cases hdir : dir.text = ""
    · rw [hdir, String.empty_append, isAbsolute, hdir]
      exact h
    · exact happend _ hdir
  · rw [isAbsolute, htext, String.append_assoc]
    exact happend _ hne

theorem pieces_append_slash (cs ds : List Char) :
    pieces ⟨String.ofList (cs ++ '/' :: ds)⟩
      = pieces ⟨String.ofList cs⟩ ++ pieces ⟨String.ofList ds⟩ := by
  simp only [pieces, String.toList_ofList]
  rw [Text.splitAtChar_append_sep, List.map_append, List.filter_append]

theorem pieces_join {dir path : FilePath} (h : path.isAbsolute = false) :
    (dir.join path).pieces = dir.pieces ++ path.pieces := by
  have hsplit (cs : List Char) : pieces ⟨String.ofList (cs ++ '/' :: path.text.toList)⟩
      = pieces ⟨String.ofList cs⟩ ++ path.pieces := by
    rw [pieces_append_slash, String.ofList_toList]
  have htext {a : FilePath} {cs : List Char} (ha : a.text.toList = cs) :
      a.pieces = pieces ⟨String.ofList cs⟩ := by
    rw [← ha, String.ofList_toList]
  rcases @text_join dir path h with ⟨hjoin, hdir | hdir⟩ | ⟨hjoin, -⟩
  · rw [pieces, hjoin, hdir, String.empty_append, pieces, hdir]
    rfl
  · obtain ⟨cs, hcs⟩ := List.getLast?_eq_some_iff.1 hdir
    have hown : dir.pieces = pieces ⟨String.ofList cs⟩ := by
      rw [htext hcs, pieces_append_slash]
      exact List.append_nil _
    rw [hown, ← hsplit]
    exact htext (by rw [hjoin, String.toList_append, hcs, List.append_assoc, List.singleton_append])
  · rw [htext (a := dir) rfl, ← hsplit]
    exact htext (by rw [hjoin, String.toList_append, String.toList_append, List.append_assoc]; rfl)

theorem ofNames_append (names : List String) (name : String) :
    ofNames (names ++ [name]) = (ofNames names).join ⟨name⟩ := by
  rw [ofNames, List.foldl_append]
  rfl

theorem ofNames_plain {names : List String} (h : ∀ n ∈ names, IsPlain n) :
    (ofNames names).isAbsolute = false ∧ (ofNames names).pieces = names := by
  induction names using List.reverseRecOn with
  | nil => exact ⟨rfl, rfl⟩
  | append_singleton names name ih =>
    obtain ⟨habs, hpieces⟩ := ih fun n hn => h n (List.mem_append_left _ hn)
    have hname := h name (List.mem_append_right _ List.mem_cons_self)
    have hrel := isAbsolute_eq_false hname.no_slash
    have hown : pieces ⟨name⟩ = [name] := by
      rw [pieces, Text.splitAtChar_of_not_mem hname.no_slash]
      simpa using hname.ne_empty
    rw [ofNames_append, isAbsolute_join hrel, pieces_join hrel, habs, hpieces, hown]
    exact ⟨rfl, rfl⟩

/-- Plain names that are joined to a path are its last components. -/
theorem components_join (dir : FilePath) {names : List String} (h : ∀ n ∈ names, IsPlain n) :
    (dir.join (ofNames names)).components = dir.components ++ names.map .normal := by
  obtain ⟨habs, hpieces⟩ := ofNames_plain h
  have hinner : names.filterMap inner? = names.map .normal := by
    rw [← List.filterMap_eq_map]
    apply List.filterMap_congr
    intro n hn
    exact inner?_plain (h n hn)
  have hhead : (dir.pieces ++ names).head? = some "." ↔ dir.pieces.head? = some "." := by
    cases dir.pieces with
    | cons first rest => rfl
    | nil =>
      cases names with
      | nil => rfl
      | cons n names => simpa using (h n List.mem_cons_self).ne_current
  rw [components, isAbsolute_join habs, pieces_join habs, hpieces, List.filterMap_append, hinner,
    components]
  simp only [hhead]
  split
  · rfl
  · split
    · rfl
    · rfl

/-! ## Names -/

theorem isPlain_of_mem_pieces {path : FilePath} {n : String} (h : n ∈ path.pieces) :
    n ≠ "" ∧ '/' ∉ n.toList := by
  obtain ⟨hmem, hne⟩ := List.mem_filter.1 h
  obtain ⟨cs, hcs, rfl⟩ := List.mem_map.1 hmem
  refine ⟨by simpa using hne, ?_⟩
  rw [String.toList_ofList]
  exact Text.not_mem_of_mem_splitAtChar hcs

theorem isPlain_of_mem_components {path : FilePath} {n : String}
    (h : .normal n ∈ path.components) : IsPlain n := by
  have hinner : .normal n ∈ path.pieces.filterMap inner? := by
    unfold components at h
    split at h
    · exact (List.mem_cons.1 h).resolve_left nofun
    · split at h
      · exact (List.mem_cons.1 h).resolve_left nofun
      · exact h
  obtain ⟨piece, hpiece, heq⟩ := List.mem_filterMap.1 hinner
  unfold inner? at heq
  split at heq
  · cases heq
  · next hdot =>
    split at heq
    · cases heq
    · next hup =>
      cases heq
      obtain ⟨hne, hslash⟩ := isPlain_of_mem_pieces hpiece
      exact ⟨hne, hdot, hup, hslash⟩

/-! ## The folder of a file -/

/-- Without a folder there is no way to it. -/
theorem components_eq_nil {path : FilePath} (h : path.text = "") : path.components = [] := by
  rw [show path = ⟨""⟩ from congrArg FilePath.mk h]
  rfl

theorem pieces_ne_nil {c : Char} {cs : List Char} (hc : c ≠ '/') :
    pieces ⟨String.ofList (c :: cs)⟩ ≠ [] := by
  obtain ⟨piece, rest, -, hsplit⟩ := Text.splitAtChar_cons c cs hc
  rw [pieces, String.toList_ofList, hsplit, List.map_cons, List.filter_cons_of_pos]
  · exact List.cons_ne_nil _ _
  · rw [decide_eq_true_eq]
    exact fun hnil => absurd (congrArg String.toList hnil) (by simp)

/-- A slash at the end of a path changes nothing, unless it is the root. -/
theorem components_slash {cs : List Char} (h : cs ≠ []) :
    components ⟨String.ofList (cs ++ ['/'])⟩ = components ⟨String.ofList cs⟩ := by
  obtain ⟨c, rest, rfl⟩ := List.exists_cons_of_ne_nil h
  have hpieces : pieces ⟨String.ofList (c :: rest ++ ['/'])⟩
      = pieces ⟨String.ofList (c :: rest)⟩ := by
    rw [pieces_append_slash]
    exact List.append_nil _
  have habs : isAbsolute ⟨String.ofList (c :: rest ++ ['/'])⟩
      = isAbsolute ⟨String.ofList (c :: rest)⟩ := by
    simp [isAbsolute]
  rw [components, components, hpieces, habs]

/-- A dot after a slash at the end of a path changes nothing. -/
theorem components_slash_dot (cs : List Char) :
    components ⟨String.ofList (cs ++ ['/', '.'])⟩ = components ⟨String.ofList (cs ++ ['/'])⟩ := by
  have hpieces : pieces ⟨String.ofList (cs ++ ['/', '.'])⟩
      = pieces ⟨String.ofList (cs ++ ['/'])⟩ ++ ["."] := by
    rw [pieces_append_slash, pieces_append_slash, List.append_assoc]
    rfl
  have habs : isAbsolute ⟨String.ofList (cs ++ ['/', '.'])⟩
      = isAbsolute ⟨String.ofList (cs ++ ['/'])⟩ := by
    cases cs <;> simp [isAbsolute]
  have hinner : (pieces ⟨String.ofList (cs ++ ['/'])⟩ ++ ["."]).filterMap inner?
      = (pieces ⟨String.ofList (cs ++ ['/'])⟩).filterMap inner? := by
    rw [List.filterMap_append]
    exact List.append_nil _
  rw [components, components, hpieces, habs, hinner]
  split
  · rfl
  · next hrel =>
    have hne : pieces ⟨String.ofList (cs ++ ['/'])⟩ ≠ [] := by
      cases cs with
      | nil => exact absurd rfl hrel
      | cons c rest =>
        refine pieces_ne_nil ?_
        rintro rfl
        exact hrel (by simp [isAbsolute])
    obtain ⟨first, rest, hfirst⟩ := List.exists_cons_of_ne_nil hne
    rw [hfirst]
    rfl

/-- Slashes and dots that are trimmed are no components. -/
theorem components_trimEnd (cs : List Char) :
    components ⟨String.ofList (trimEnd cs).reverse⟩ = components ⟨String.ofList cs.reverse⟩ := by
  fun_induction trimEnd cs with
  | case1 => rfl
  | case2 rest hne ih =>
    rw [ih, List.reverse_cons, components_slash]
    rintro hnil
    exact hne (List.reverse_eq_nil_iff.1 hnil)
  | case3 rest ih =>
    rw [ih, List.reverse_cons, List.reverse_cons, List.reverse_cons, List.append_assoc]
    exact (components_slash_dot _).symm
  | case4 => rfl

/-- A text is what stands up to its last slash, and what follows it. -/
theorem exists_base (a : String) :
    ∃ d base, a = d ++ base ∧ (d = "" ∨ d.toList.getLast? = some '/') ∧ '/' ∉ base.toList := by
  refine ⟨String.ofList (a.toList.reverse.dropWhile (· ≠ '/')).reverse,
    String.ofList (a.toList.reverse.takeWhile (· ≠ '/')).reverse, ?_, ?_, ?_⟩
  · rw [← String.ofList_append, ← List.reverse_append, List.takeWhile_append_dropWhile,
      List.reverse_reverse, String.ofList_toList]
  · rcases hdrop : a.toList.reverse.dropWhile (· ≠ '/') with _ | ⟨c, cs⟩
    · exact .inl rfl
    · have hc := List.head?_dropWhile_not (fun c : Char => decide (c ≠ '/')) a.toList.reverse
      rw [hdrop] at hc
      simp at hc
      simp [hc]
  · intro hmem
    rw [String.toList_ofList, List.mem_reverse] at hmem
    simpa using (List.all_eq_true.1 (List.all_takeWhile (l := a.toList.reverse)) _ hmem)

theorem folder_append {d base : String} (hd : d = "" ∨ d.toList.getLast? = some '/')
    (hbase : '/' ∉ base.toList) : (folder ⟨d ++ base⟩).components = components ⟨d⟩ := by
  have hdrop : (d ++ base).toList.reverse.dropWhile (· ≠ '/') = d.toList.reverse := by
    have hskip : ∀ c ∈ base.toList.reverse, decide (c ≠ '/') = true := by
      intro c hc
      rw [decide_eq_true_eq]
      rintro rfl
      exact hbase (List.mem_reverse.1 hc)
    rw [String.toList_append, List.reverse_append, List.dropWhile_append_of_pos hskip]
    rcases hd with rfl | hd
    · rfl
    · obtain ⟨cs, hcs⟩ := List.getLast?_eq_some_iff.1 hd
      rw [hcs, List.reverse_append]
      rfl
  rw [folder, hdrop, components_trimEnd, List.reverse_reverse, String.ofList_toList]

theorem components_base {d base : String} (hd : d = "" ∨ d.toList.getLast? = some '/')
    (hbase : IsPlain base) : components ⟨d ++ base⟩ = components ⟨d⟩ ++ [.normal base] := by
  have hrel : ¬isAbsolute ⟨base⟩ = true := by
    rw [isAbsolute_eq_false hbase.no_slash]
    exact Bool.false_ne_true
  have hone : ofNames [base] = ⟨base⟩ := by
    show join ⟨""⟩ ⟨base⟩ = _
    rw [join, if_neg hrel, if_pos (.inl rfl), String.empty_append]
  have hjoin : (FilePath.mk d).join (ofNames [base]) = ⟨d ++ base⟩ := by
    rw [hone, join, if_neg hrel, if_pos hd]
  rw [← hjoin, components_join _ (by simpa using hbase)]
  rfl

/-- The components of paths that differ in what is appended without slashes: the last one ends in
what is appended, and those above it are the same, and their folder's. -/
theorem components_append (a : String) :
    ∃ above last, ∀ ext : String, '/' ∉ ext.toList → 2 < ext.length →
      components ⟨a ++ ext⟩ = above ++ [.normal (last ++ ext)] ∧
        (folder ⟨a ++ ext⟩).components = above := by
  obtain ⟨d, last, rfl, hd, hlast⟩ := exists_base a
  refine ⟨components ⟨d⟩, last, ?_⟩
  intro ext hext hlen
  have hslash : '/' ∉ (last ++ ext).toList := by
    rw [String.toList_append, List.mem_append]
    exact not_or.2 ⟨hlast, hext⟩
  have hlong {name : String} (hname : name.length ≤ 2) : last ++ ext ≠ name := by
    rintro rfl
    rw [String.length_append] at hname
    omega
  have hplain : IsPlain (last ++ ext) :=
    ⟨hlong (by decide), hlong (by decide), hlong (by decide), hslash⟩
  rw [String.append_assoc]
  exact ⟨components_base hd hplain, folder_append hd hslash⟩

end FilePath

end TypedSettings
