import Mathlib.Data.List.Chain
import TypedSettings.Proofs.Naming

/-!
Names of files. The words of a name are cut out of its bytes, always between two characters. The
file of an interface with an ASCII name is called by small letters, digits and single underscores
between them. Without the underscores it is the lower case of the structure's name, and the words of
that name are found in it again.

* `cuts`, `forall₂_slicedAt`: where the words of a name are cut out.
* `IsWord`, `wordsFrom_join`: words that are joined by underscores are read back.
* `toList_snakeCase`: the snake case of an ASCII name.
* `snakeCase_wellFormed`: what the name of a file is like.
-/

namespace TypedSettings

/-! ## Lower case in ASCII -/

namespace Text

theorem of_isAscii {P : Char → Prop} (h : ∀ n < 128, P (Char.ofNat n)) {c : Char}
    (hc : isAscii c = true) : P c := by
  have hn := h c.toNat (of_decide_eq_true hc)
  rwa [Char.ofNat_toNat] at hn

theorem lowerChar_ascii {c : Char} (h : isAscii c = true) : lowerChar c = [c.toLower] :=
  of_isAscii (P := fun c => lowerChar c = [c.toLower]) (by decide) h

/-- What stands around a letter of ASCII does not change its lower case. -/
theorem lowerFrom_ascii (before : List Char) {cs : List Char} (h : ∀ c ∈ cs, isAscii c = true) :
    lowerFrom before cs = cs.map Char.toLower := by
  induction cs generalizing before with
  | nil => rfl
  | cons c cs ih =>
    obtain ⟨hc, hcs⟩ := List.forall_mem_cons.1 h
    have hsigma : c ≠ 'Σ' := by
      intro heq
      rw [heq] at hc
      exact absurd hc (by decide)
    rw [lowerFrom, if_neg hsigma, lowerChar_ascii hc, ih _ hcs, List.map_cons,
      List.singleton_append]

theorem toList_lowercase_ascii {s : String} (h : ∀ c ∈ s.toList, isAscii c = true) :
    (lowercase s).toList = s.toList.map Char.toLower := by
  rw [lowercase, String.toList_ofList, lowerFrom_ascii [] h]

theorem isAscii_toLower {c : Char} (h : isAscii c = true) : isAscii c.toLower = true :=
  of_isAscii (P := fun c => isAscii c.toLower = true) (by decide) h

theorem isUpper_toLower {c : Char} (h : isAscii c = true) : isUpper c.toLower = false :=
  of_isAscii (P := fun c => isUpper c.toLower = false) (by decide) h

theorem toLower_toLower {c : Char} (h : isAscii c = true) : c.toLower.toLower = c.toLower :=
  of_isAscii (P := fun c => c.toLower.toLower = c.toLower) (by decide) h

theorem toLower_eq_underscore_iff {c : Char} (h : isAscii c = true) : c.toLower = '_' ↔ c = '_' :=
  of_isAscii (P := fun c => c.toLower = '_' ↔ c = '_') (by decide) h

/-- The characters of a name in snake case. -/
def isSnake (c : Char) : Bool := isAsciiLower c || isAsciiDigit c || c == '_'

theorem isSnake_toLower {c : Char} (h : isAscii c = true)
    (hword : (isIdentStart c || isIdentContinue c) = true) : isSnake c.toLower = true :=
  of_isAscii (P := fun c => (isIdentStart c || isIdentContinue c) = true →
    isSnake c.toLower = true) (by decide) h hword

end Text

namespace Naming

/-! ## Cuts -/

/-- Where the words lie from the character after `prev` on, as offsets in bytes: the open word
starts at `start`, and the character after `prev` at `here`. -/
def cutsFrom (prev : Char) (start here : Nat) : List Char → List (Nat × Nat)
  | [] => if start < here then [(start, here)] else []
  | c :: rest =>
    let next := here + c.utf8Size
    if c = '_' ∨ prev = '_' then
      (if start < here ∧ prev ≠ '_' then [(start, here)] else [])
        ++ cutsFrom c (if c = '_' then here + 1 else here) next rest
    else if startsWord prev c rest.head? then
      (if start < here then [(start, here)] else []) ++ cutsFrom c here next rest
    else cutsFrom c start next rest

/-- Where the words of a name start and end in its bytes. -/
def cuts (name : String) : List (Nat × Nat) :=
  match name.toList with
  | [] => []
  | c :: rest => cutsFrom c 0 c.utf8Size rest

/-- A word is cut out of the bytes of a name, between two of its characters. -/
structure SlicedAt (name : String) (cut : Nat × Nat) (word : String) : Prop where
  start : String.Pos.Raw.IsValid name ⟨cut.1⟩
  stop : String.Pos.Raw.IsValid name ⟨cut.2⟩
  nonempty : cut.1 < cut.2
  bytes : name.toByteArray.extract cut.1 cut.2 = word.toByteArray

/-- The number of bytes of characters. -/
def byteSize (cs : List Char) : Nat := (String.ofList cs).utf8ByteSize

theorem byteSize_append (cs ds : List Char) : byteSize (cs ++ ds) = byteSize cs + byteSize ds := by
  rw [byteSize, String.ofList_append, String.utf8ByteSize_append]
  rfl

theorem byteSize_concat (cs : List Char) (c : Char) :
    byteSize (cs ++ [c]) = byteSize cs + c.utf8Size := by
  have hone : byteSize [c] = c.utf8Size := String.utf8ByteSize_singleton
  rw [byteSize_append, hone]

theorem slicedAt_append (front back : String) {word : String} (h : word ≠ "") :
    SlicedAt (front ++ word ++ back) (front.utf8ByteSize, (front ++ word).utf8ByteSize) word where
  start := String.Pos.Raw.isValid_iff_exists_append.2
    ⟨front, word ++ back, String.append_assoc .., rfl⟩
  stop := String.Pos.Raw.isValid_iff_exists_append.2 ⟨front ++ word, back, rfl, rfl⟩
  nonempty := by
    have hword : word.utf8ByteSize ≠ 0 := fun hzero => h (String.utf8ByteSize_eq_zero_iff.1 hzero)
    rw [String.utf8ByteSize_append]
    omega
  bytes := by
    have hend : (front ++ word).toByteArray.size
        = front.toByteArray.size + word.toByteArray.size := String.utf8ByteSize_append
    rw [String.toByteArray_append, ← String.size_toByteArray, ← String.size_toByteArray,
      ByteArray.extract_append_size_left, String.toByteArray_append]
    exact ByteArray.extract_append_eq_right rfl (by rw [← String.toByteArray_append, hend])

section

variable {name : String} {front word cs : List Char} {start here : Nat}

/-- The open word is cut out, unless nothing is open. -/
theorem forall₂_slicedAt_open (hname : name.toList = front ++ word.reverse ++ cs)
    (hstart : start = byteSize front) (hhere : here = byteSize (front ++ word.reverse)) :
    List.Forall₂ (SlicedAt name) (if start < here then [(start, here)] else [])
      ((if word.isEmpty then [] else [word.reverse]).map String.ofList) := by
  subst hstart hhere
  cases word with
  | nil => simp
  | cons c word =>
    have hopen : String.ofList (c :: word).reverse ≠ "" := by
      rw [Ne, String.ofList_eq_empty_iff, List.reverse_eq_nil_iff]
      exact List.cons_ne_nil c word
    have hcut := slicedAt_append (String.ofList front) (String.ofList cs) hopen
    rw [← String.ofList_append, ← String.ofList_append, ← hname, String.ofList_toList] at hcut
    have hpos : byteSize front < byteSize (front ++ (c :: word).reverse) := hcut.nonempty
    rw [if_pos hpos]
    exact .cons hcut .nil

/-- The words of the rest of a name are cut out of it, when the open word stands behind `front`. -/
theorem forall₂_slicedAt_from (prev : Char) (front word : List Char)
    (hname : name.toList = front ++ word.reverse ++ cs) (hstart : start = byteSize front)
    (hhere : here = byteSize (front ++ word.reverse)) :
    List.Forall₂ (SlicedAt name) (cutsFrom prev start here cs)
      ((wordsFrom prev word cs).map String.ofList) := by
  induction cs generalizing prev front word start here with
  | nil => exact forall₂_slicedAt_open hname hstart hhere
  | cons c rest ih =>
    have hopen := forall₂_slicedAt_open hname hstart hhere
    have hnext : here + c.utf8Size = byteSize (front ++ word.reverse ++ [c]) := by
      rw [byteSize_concat, hhere]
    -- a new word starts at the character, or the open one goes on with it
    have hfresh := ih c (front ++ word.reverse) [c] (by simpa using hname) hhere hnext
    have hlonger := ih c front (c :: word) (by simpa using hname) hstart (by simpa using hnext)
    rw [cutsFrom, wordsFrom]
    by_cases hunder : c = '_' ∨ prev = '_'
    · rw [if_pos hunder, if_pos hunder, List.map_append]
      refine List.rel_append ?_ ?_
      · by_cases hprev : prev = '_'
        · rw [if_neg (fun h => h.2 hprev), if_pos hprev]
          exact .nil
        · rw [if_neg hprev]
          simpa [hprev] using hopen
      · by_cases hc : c = '_'
        · rw [if_pos hc, if_pos hc]
          have hone : c.utf8Size = 1 := by rw [hc]; rfl
          rw [hone] at hnext ⊢
          exact ih c (front ++ word.reverse ++ [c]) [] (by simpa using hname) hnext
            (by simpa using hnext)
        · rw [if_neg hc, if_neg hc]
          exact hfresh
    · rw [if_neg hunder, if_neg hunder]
      by_cases hstarts : startsWord prev c rest.head? = true
      · rw [if_pos hstarts, if_pos hstarts, List.map_append]
        exact List.rel_append hopen hfresh
      · rw [if_neg hstarts, if_neg hstarts]
        exact hlonger

end

/-- The words of a name are cut out of its bytes, between two of its characters. -/
theorem forall₂_slicedAt (name : String) :
    List.Forall₂ (SlicedAt name) (cuts name) (words name) := by
  unfold cuts words
  cases hname : name.toList with
  | nil => exact .nil
  | cons c rest =>
    have hfirst : c.utf8Size = byteSize ([] ++ [c].reverse) := by
      rw [List.reverse_singleton, byteSize_concat]
      exact (Nat.zero_add _).symm
    exact forall₂_slicedAt_from c [] [c] hname rfl hfirst

/-! ## Words and their join -/

/-- A word of a name: characters other than underscores. -/
structure IsWord (w : List Char) : Prop where
  ne_nil : w ≠ []
  underscore_not_mem : '_' ∉ w

theorem mem_of_mem_wordsFrom {w cs : List Char} (h : w ∈ wordsFrom '_' [] cs) {c : Char}
    (hc : c ∈ w) : c ∈ cs ∧ c ≠ '_' := by
  have hflat : c ∈ (wordsFrom '_' [] cs).flatten := List.mem_flatten.2 ⟨w, h, hc⟩
  rw [flatten_wordsFrom fun _ => rfl] at hflat
  simpa using hflat

theorem isWord_of_mem_wordsFrom {w cs : List Char} (h : w ∈ wordsFrom '_' [] cs) : IsWord w where
  ne_nil := fun hnil => nil_not_mem_wordsFrom '_' [] cs (hnil ▸ h)
  underscore_not_mem := fun hunder => (mem_of_mem_wordsFrom h hunder).2 rfl

/-- Words with one underscore between two of them. -/
def join (ws : List (List Char)) : List Char := ['_'].intercalate ws

theorem join_cons (w : List Char) {ws : List (List Char)} (h : ws ≠ []) :
    join (w :: ws) = w ++ '_' :: join ws := by
  cases ws with
  | nil => exact absurd rfl h
  | cons v ws =>
    rw [join, List.intercalate_cons_cons, List.append_assoc]
    rfl

theorem join_singleton (w : List Char) : join [w] = w := List.intercalate_singleton

section

variable {ws : List (List Char)}

theorem filter_join (h : ∀ w ∈ ws, IsWord w) : (join ws).filter (· ≠ '_') = ws.flatten := by
  induction ws with
  | nil => rfl
  | cons w ws ih =>
    obtain ⟨hw, hws⟩ := List.forall_mem_cons.1 h
    have hkept : w.filter (· ≠ '_') = w := by
      rw [List.filter_eq_self]
      intro c hc
      exact decide_eq_true fun heq => hw.underscore_not_mem (heq ▸ hc)
    by_cases hnil : ws = []
    · rw [hnil, join_singleton, hkept]
      simp
    · rw [join_cons w hnil, List.filter_append, hkept, List.filter_cons_of_neg (by simp), ih hws]
      rfl

theorem join_ne_nil (h : ∀ w ∈ ws, IsWord w) (hws : ws ≠ []) : join ws ≠ [] := by
  cases ws with
  | nil => exact absurd rfl hws
  | cons w ws =>
    have hw := (h w List.mem_cons_self).ne_nil
    by_cases hnil : ws = []
    · rw [hnil, join_singleton]
      exact hw
    · rw [join_cons w hnil]
      exact List.append_ne_nil_of_left_ne_nil hw _

theorem head?_join (h : ∀ w ∈ ws, IsWord w) : (join ws).head? ≠ some '_' := by
  cases ws with
  | nil => exact nofun
  | cons w ws =>
    have hw := h w List.mem_cons_self
    obtain ⟨c, cs, rfl⟩ := List.exists_cons_of_ne_nil hw.ne_nil
    have hc : c ≠ '_' := fun heq => hw.underscore_not_mem (heq ▸ List.mem_cons_self)
    have hhead : (join ((c :: cs) :: ws)).head? = some c := by
      by_cases hnil : ws = []
      · rw [hnil, join_singleton]
        rfl
      · rw [join_cons _ hnil]
        rfl
    rw [hhead]
    exact fun heq => hc (Option.some.inj heq)

theorem getLast?_join (h : ∀ w ∈ ws, IsWord w) : (join ws).getLast? ≠ some '_' := by
  induction ws with
  | nil => exact nofun
  | cons w ws ih =>
    obtain ⟨hw, hws⟩ := List.forall_mem_cons.1 h
    by_cases hnil : ws = []
    · rw [hnil, join_singleton]
      exact fun hlast => hw.underscore_not_mem (List.mem_of_getLast? hlast)
    · have hne := join_ne_nil hws hnil
      rw [join_cons w hnil, List.getLast?_append, List.getLast?_cons_of_ne_nil hne,
        List.getLast?_eq_some_getLast hne, Option.some_or, ← List.getLast?_eq_some_getLast hne]
      exact ih hws

/-- Of two neighbours one is no underscore. -/
theorem isChain_join (h : ∀ w ∈ ws, IsWord w) :
    (join ws).IsChain fun c d => c ≠ '_' ∨ d ≠ '_' := by
  induction ws with
  | nil => exact .nil
  | cons w ws ih =>
    obtain ⟨hw, hws⟩ := List.forall_mem_cons.1 h
    have hother {c : Char} (hc : c ∈ w) : c ≠ '_' := fun heq => hw.underscore_not_mem (heq ▸ hc)
    have hfirst : w.IsChain fun c d => c ≠ '_' ∨ d ≠ '_' :=
      (List.pairwise_of_forall_mem_list fun c hc _ _ => .inl (hother hc)).isChain
    by_cases hnil : ws = []
    · rw [hnil, join_singleton]
      exact hfirst
    · rw [join_cons w hnil, List.isChain_append]
      refine ⟨hfirst, List.isChain_cons.2 ⟨fun d hd => .inr ?_, ih hws⟩, fun c hc _ _ => .inl ?_⟩
      · exact fun heq => head?_join hws (heq ▸ hd)
      · exact hother (List.mem_of_getLast? hc)

/-- Without capitals, only underscores part words. -/
theorem wordsFrom_word {prev : Char} {word cs rest : List Char} (hprev : prev ≠ '_')
    (hword : word ≠ []) (h : ∀ c ∈ cs, c ≠ '_' ∧ Text.isUpper c = false)
    (hrest : rest = [] ∨ ∃ more, rest = '_' :: more) :
    wordsFrom prev word (cs ++ rest)
      = (word.reverse ++ cs) :: wordsFrom '_' [] (rest.drop 1) := by
  induction cs generalizing prev word with
  | nil =>
    have hdone : (if word.isEmpty then [] else [word.reverse]) = [word.reverse] :=
      if_neg fun hempty => hword (List.isEmpty_iff.1 hempty)
    rw [List.nil_append, List.append_nil]
    rcases hrest with rfl | ⟨more, rfl⟩
    · rw [wordsFrom, hdone]
      rfl
    · rw [wordsFrom, if_pos (.inl rfl), if_neg hprev, if_pos rfl, hdone]
      rfl
  | cons c cs ih =>
    obtain ⟨⟨hc, hupper⟩, hcs⟩ := List.forall_mem_cons.1 h
    have hsame : ¬startsWord prev c (cs ++ rest).head? = true := by
      rw [startsWord, hupper, Bool.false_and]
      exact Bool.false_ne_true
    rw [List.cons_append, wordsFrom, if_neg (not_or.2 ⟨hc, hprev⟩), if_neg hsame,
      ih hc (List.cons_ne_nil c word) hcs, List.reverse_cons, List.append_assoc,
      List.singleton_append]

/-- Words without capitals that are joined by underscores are read back. -/
theorem wordsFrom_join (h : ∀ w ∈ ws, IsWord w ∧ ∀ c ∈ w, Text.isUpper c = false) :
    wordsFrom '_' [] (join ws) = ws := by
  induction ws with
  | nil => rfl
  | cons w ws ih =>
    obtain ⟨⟨hw, hlow⟩, hws⟩ := List.forall_mem_cons.1 h
    obtain ⟨c, cs, rfl⟩ := List.exists_cons_of_ne_nil hw.ne_nil
    have hall : ∀ d ∈ c :: cs, d ≠ '_' ∧ Text.isUpper d = false :=
      fun d hd => ⟨fun heq => hw.underscore_not_mem (heq ▸ hd), hlow d hd⟩
    obtain ⟨⟨hc, -⟩, hcs⟩ := List.forall_mem_cons.1 hall
    have hword (rest : List Char) (hrest : rest = [] ∨ ∃ more, rest = '_' :: more) :
        wordsFrom '_' [] (c :: (cs ++ rest)) = (c :: cs) :: wordsFrom '_' [] (rest.drop 1) := by
      rw [wordsFrom, if_pos (.inr rfl), if_pos rfl, if_neg hc,
        wordsFrom_word hc (List.cons_ne_nil c []) hcs hrest]
      rfl
    by_cases hnil : ws = []
    · have hlast := hword [] (.inl rfl)
      rw [List.append_nil] at hlast
      rw [hnil, join_singleton, hlast]
      rfl
    · rw [join_cons _ hnil, List.cons_append, hword _ (.inr ⟨_, rfl⟩), List.drop_one,
        List.tail_cons, ih hws]

end

/-! ## Snake case of ASCII names -/

/-- The words of a name, letter by letter in lower case. -/
def lowerWords (name : String) : List (List Char) :=
  (wordsFrom '_' [] name.toList).map (List.map Char.toLower)

theorem mem_of_mem_lowerWords {name : String} {w : List Char} (hw : w ∈ lowerWords name) {c : Char}
    (hc : c ∈ w) : ∃ d ∈ name.toList, c = d.toLower := by
  obtain ⟨v, hv, rfl⟩ := List.mem_map.1 hw
  obtain ⟨d, hd, rfl⟩ := List.mem_map.1 hc
  exact ⟨d, (mem_of_mem_wordsFrom hv hd).1, rfl⟩

section

variable {name : String} (h : ∀ c ∈ name.toList, Text.isAscii c = true)
include h

theorem isWord_of_mem_lowerWords {w : List Char} (hw : w ∈ lowerWords name) : IsWord w := by
  obtain ⟨v, hv, rfl⟩ := List.mem_map.1 hw
  have hword := isWord_of_mem_wordsFrom hv
  refine ⟨fun hnil => hword.ne_nil (List.map_eq_nil_iff.1 hnil), fun hunder => ?_⟩
  obtain ⟨d, hd, heq⟩ := List.mem_map.1 hunder
  have hascii := h d (mem_of_mem_wordsFrom hv hd).1
  exact hword.underscore_not_mem ((Text.toLower_eq_underscore_iff hascii).1 heq ▸ hd)

theorem map_toLower_lowerWords :
    (lowerWords name).map (List.map Char.toLower) = lowerWords name := by
  have hword : ∀ w ∈ lowerWords name, w.map Char.toLower = w := by
    intro w hw
    have hchar : ∀ c ∈ w, c.toLower = c := by
      intro c hc
      obtain ⟨d, hd, rfl⟩ := mem_of_mem_lowerWords hw hc
      exact Text.toLower_toLower (h d hd)
    exact (List.map_congr_left hchar).trans (List.map_id' w)
  exact (List.map_congr_left hword).trans (List.map_id' _)

/-- The snake case of an ASCII name is its words in lower case, joined. -/
theorem toList_snakeCase (hname : name ≠ "_") :
    (snakeCase name).toList = join (lowerWords name) := by
  have hlower : ∀ w ∈ wordsFrom '_' [] name.toList,
      (String.toList ∘ Text.lowercase ∘ String.ofList) w = w.map Char.toLower := by
    intro w hw
    show (Text.lowercase (String.ofList w)).toList = _
    rw [Text.toList_lowercase_ascii, String.toList_ofList]
    intro c hc
    rw [String.toList_ofList] at hc
    exact h c (mem_of_mem_wordsFrom hw hc).1
  rw [snakeCase, words_eq hname, String.toList_intercalate, List.map_map, List.map_map,
    Function.comp_assoc, List.map_congr_left hlower]
  rfl

/-- Snake case reads the words of a snake case back. -/
theorem lowerWords_snakeCase (hname : name ≠ "_") :
    lowerWords (snakeCase name) = lowerWords name := by
  have hread : wordsFrom '_' [] (snakeCase name).toList = lowerWords name := by
    rw [toList_snakeCase h hname]
    refine wordsFrom_join fun w hw => ⟨isWord_of_mem_lowerWords h hw, fun c hc => ?_⟩
    obtain ⟨d, hd, rfl⟩ := mem_of_mem_lowerWords hw hc
    exact Text.isUpper_toLower (h d hd)
  rw [lowerWords, hread, map_toLower_lowerWords h]

theorem mem_snakeCase (hname : name ≠ "_") {c : Char} (hc : c ∈ (snakeCase name).toList) :
    c = '_' ∨ ∃ d ∈ name.toList, c = d.toLower := by
  by_cases hunder : c = '_'
  · exact .inl hunder
  · have hkept : c ∈ (lowerWords name).flatten := by
      rw [← filter_join fun w hw => isWord_of_mem_lowerWords h hw, ← toList_snakeCase h hname]
      exact List.mem_filter.2 ⟨hc, by simpa using hunder⟩
    obtain ⟨w, hw, hcw⟩ := List.mem_flatten.1 hkept
    exact .inr (mem_of_mem_lowerWords hw hcw)

theorem isAscii_of_mem_snakeCase (hname : name ≠ "_") {c : Char}
    (hc : c ∈ (snakeCase name).toList) : Text.isAscii c = true := by
  rcases mem_snakeCase h hname hc with rfl | ⟨d, hd, rfl⟩
  · decide
  · exact Text.isAscii_toLower (h d hd)

/-- Without the underscores, the snake case of a name is its lower case. -/
theorem filter_snakeCase (hname : name ≠ "_") :
    (snakeCase name).toList.filter (· ≠ '_')
      = (name.toList.map Char.toLower).filter (· ≠ '_') := by
  have hflat : (lowerWords name).flatten
      = (name.toList.filter (· ≠ '_')).map Char.toLower := by
    rw [lowerWords, ← List.map_flatten, flatten_wordsFrom fun _ => rfl]
    rfl
  have hsame : name.toList.filter ((fun c => decide (c ≠ '_')) ∘ Char.toLower)
      = name.toList.filter (· ≠ '_') := by
    refine List.filter_congr fun c hc => ?_
    exact decide_eq_decide.2 (not_congr (Text.toLower_eq_underscore_iff (h c hc)))
  rw [toList_snakeCase h hname, filter_join fun w hw => isWord_of_mem_lowerWords h hw, hflat,
    List.filter_map, hsame]

theorem snakeCase_snakeCase (hname : name ≠ "_") (hsnake : snakeCase name ≠ "_") :
    snakeCase (snakeCase name) = snakeCase name := by
  refine String.toList_inj.1 ?_
  rw [toList_snakeCase (fun c hc => isAscii_of_mem_snakeCase h hname hc) hsnake,
    lowerWords_snakeCase h hname, toList_snakeCase h hname]

end

/-- What the name of a structure is made of. -/
theorem mem_structName {t : String} (hident : Emit.isIdentifier t = true) {c : Char}
    (hc : c ∈ (structName t).toList) :
    (Text.isIdentStart c || Text.isIdentContinue c) = true ∨ c = '#' ∧ '#' ∈ t.toList := by
  rw [toList_structName, List.mem_append] at hc
  rcases hc with hc | hc
  · by_cases hraw : c = '#'
    · exact .inr ⟨hraw, hraw ▸ hc⟩
    · refine .inl (Bool.not_eq_false _ ▸ fun hno => ?_)
      exact Emit.not_mem_of_isIdentifier hno hraw hident hc
  · have hall : ['I', 'm', 'p', 'l'].all
        (fun d => Text.isIdentStart d || Text.isIdentContinue d) = true := by decide
    exact .inl (List.all_eq_true.1 hall c hc)

theorem isAscii_structName {t : String} (h : ∀ c ∈ t.toList, Text.isAscii c = true) :
    ∀ c ∈ (structName t).toList, Text.isAscii c = true := by
  have hall : ['I', 'm', 'p', 'l'].all Text.isAscii = true := by decide
  intro c hc
  rw [toList_structName, List.mem_append] at hc
  exact hc.elim (h c) (List.all_eq_true.1 hall c)

/-- The file of an interface with an ASCII name is called by small letters, digits and underscores,
with no underscore in front, at the end, or beside another; only a raw name keeps its `#`. Without
the underscores it is the lower case of the structure's name, and it is its own snake case. Whatever
a name is made of, its words are cut out between two of its characters. -/
theorem snakeCase_wellFormed :
    (∀ t : String, Emit.isIdentifier t = true → (∀ c ∈ t.toList, Text.isAscii c = true) →
      let f := snakeCase (structName t)
      (∀ c ∈ f.toList, Text.isSnake c = true ∨ c = '#' ∧ '#' ∈ t.toList) ∧
      f.toList.head? ≠ some '_' ∧ f.toList.getLast? ≠ some '_' ∧
      f.toList.IsChain (fun c d => c ≠ '_' ∨ d ≠ '_') ∧
      f.toList.filter (· ≠ '_') = ((structName t).toList.map Char.toLower).filter (· ≠ '_') ∧
      snakeCase f = f) ∧
    ∀ name : String, List.Forall₂ (SlicedAt name) (cuts name) (words name) := by
  refine ⟨fun t hident hascii => ?_, forall₂_slicedAt⟩
  have hall := isAscii_structName hascii
  have hname := structName_ne_underscore t
  have hwords : ∀ w ∈ lowerWords (structName t), IsWord w := fun w hw =>
    isWord_of_mem_lowerWords hall hw
  have hlast : (snakeCase (structName t)).toList.getLast? ≠ some '_' := by
    rw [toList_snakeCase hall hname]
    exact getLast?_join hwords
  have hsnake : snakeCase (structName t) ≠ "_" := fun heq => hlast (by rw [heq]; rfl)
  refine ⟨fun c hc => ?_, ?_, hlast, ?_, filter_snakeCase hall hname,
    snakeCase_snakeCase hall hname hsnake⟩
  · rcases mem_snakeCase hall hname hc with rfl | ⟨d, hd, rfl⟩
    · exact .inl rfl
    · rcases mem_structName hident hd with hword | ⟨rfl, hraw⟩
      · exact .inl (Text.isSnake_toLower (hall d hd) hword)
      · exact .inr ⟨rfl, hraw⟩
  · rw [toList_snakeCase hall hname]
    exact head?_join hwords
  · rw [toList_snakeCase hall hname]
    exact isChain_join hwords

/-- Underscores in front, doubled and at the end, an acronym and a digit; and cuts beside letters of
two bytes. -/
theorem snakeCase_wellFormed_acronym :
    Emit.isIdentifier "__HTTP2__Dial_" = true ∧
      (∀ c ∈ "__HTTP2__Dial_".toList, Text.isAscii c = true) ∧
      snakeCase (structName "__HTTP2__Dial_") = "http2_dial_impl" ∧
      (∀ c ∈ "http2_dial_impl".toList, Text.isSnake c = true ∨
        c = '#' ∧ '#' ∈ "__HTTP2__Dial_".toList) ∧
      "http2_dial_impl".toList.IsChain (fun c d => c ≠ '_' ∨ d ≠ '_') ∧
      snakeCase "http2_dial_impl" = "http2_dial_impl" ∧
      List.Forall₂ (SlicedAt "État_ÇaHTTP") [(0, 5), (6, 9), (9, 13)] ["État", "Ça", "HTTP"] := by
  have hident : Emit.isIdentifier "__HTTP2__Dial_" = true := by decide
  have hascii : ∀ c ∈ "__HTTP2__Dial_".toList, Text.isAscii c = true :=
    List.all_eq_true.1 (by decide)
  have hfile : snakeCase (structName "__HTTP2__Dial_") = "http2_dial_impl" := by decide +kernel
  have hcuts : cuts "État_ÇaHTTP" = [(0, 5), (6, 9), (9, 13)] := by decide +kernel
  have hwords : words "État_ÇaHTTP" = ["État", "Ça", "HTTP"] := by decide +kernel
  obtain ⟨hnames, hsliced⟩ := snakeCase_wellFormed
  have hall := hnames "__HTTP2__Dial_" hident hascii
  dsimp only at hall
  rw [hfile] at hall
  obtain ⟨hchars, -, -, hchain, -, hsame⟩ := hall
  have hcut := hsliced "État_ÇaHTTP"
  rw [hcuts, hwords] at hcut
  exact ⟨hident, hascii, hfile, hchars, hchain, hsame, hcut⟩

end Naming

end TypedSettings
