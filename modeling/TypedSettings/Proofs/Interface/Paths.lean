import TypedSettings.Scope
import Mathlib.Tactic.Common

/-!
What a path stands for in a module. A path that starts at `crate`, `self` or `super` stands for one
name, whatever the module imports. The segments after `self` are kept as they are written, so a
`super` among them leaves no module. A path of several segments is looked up through the name that
its first segment is bound to, and never through the globs.

* `simple_ofSegments`, `segments_ofSegments`: joined segments are found again, from either end.
* `climb_supers`: every `super` leaves one module.
* `anchored_append`: more segments only lengthen what a path stands for.
* `resolve_anchor`: what a path that starts at a fixed module stands for.
* `resolve_extends_iff`: when a path of several segments stands for all that its first segment
  stands for.
-/

namespace TypedSettings

/-! ## Joined segments -/

namespace QualifiedName

theorem ofSegments_append {xs ys : List String} (hxs : xs ≠ []) (hys : ys ≠ []) :
    ofSegments (xs ++ ys) = ofSegments xs ++ "::" ++ ofSegments ys :=
  String.intercalate_append_of_ne_nil hxs hys

theorem length_ofSegments_append {xs ys : List String} (hxs : xs ≠ []) (hys : ys ≠ []) :
    (ofSegments (xs ++ ys)).length = (ofSegments xs).length + 2 + (ofSegments ys).length := by
  have hsep : "::".length = 2 := by decide
  rw [ofSegments_append hxs hys, String.length_append, String.length_append, hsep]

/-- More segments in front of a path make its text longer. -/
theorem ofSegments_append_ne {xs ys : List String} (hxs : xs ≠ []) (hys : ys ≠ []) :
    ofSegments (xs ++ ys) ≠ ofSegments ys := by
  intro h
  have := length_ofSegments_append hxs hys
  rw [h] at this
  omega

/-- More segments inside a path make its text longer. -/
theorem ofSegments_insert_ne {xs ys : List String} (hxs : xs ≠ []) (hys : ys ≠ [])
    (zs : List String) : ofSegments (xs ++ ys ++ zs) ≠ ofSegments (xs ++ zs) := by
  intro h
  have hmore := length_ofSegments_append hxs hys
  have htext := congrArg String.length h
  rcases eq_or_ne zs [] with rfl | hzs
  · rw [List.append_nil, List.append_nil] at htext
    omega
  · rw [length_ofSegments_append (List.append_ne_nil_of_left_ne_nil hxs ys) hzs,
      length_ofSegments_append hxs hzs] at htext
    omega

theorem ofSegments_append_inj {xs ys zs : List String} (hxs : xs ≠ []) (hys : ys ≠ [])
    (hzs : zs ≠ []) :
    ofSegments (xs ++ zs) = ofSegments (ys ++ zs) ↔ ofSegments xs = ofSegments ys := by
  rw [ofSegments_append hxs hzs, ofSegments_append hys hzs, String.append_left_inj,
    String.append_left_inj]

theorem lastFrom_eq_self {cs : List Char} (h : ¬[':', ':'] <:+: cs) : lastFrom cs = cs := by
  fun_induction lastFrom cs with
  | case1 => rfl
  | case2 rest => exact absurd ⟨[], rest, rfl⟩ h
  | case3 c rest hne ih =>
    rw [ih]
    exact fun hin => h (List.infix_cons_iff.2 (.inr hin))

/-- A name of one segment is its own last segment. -/
theorem simple_eq_self {name : String} (h : ¬[':', ':'] <:+: name.toList) : simple name = name := by
  have hrev : ¬[':', ':'] <:+: name.toList.reverse :=
    fun hin => h (List.reverse_infix.1 (show [':', ':'].reverse <:+: _ from hin))
  rw [simple, lastFrom_eq_self hrev, List.reverse_reverse, String.ofList_toList]

theorem lastFrom_append {cs : List Char} (h : ':' ∉ cs) (rest : List Char) :
    lastFrom (cs ++ ':' :: ':' :: rest) = cs := by
  induction cs with
  | nil => rfl
  | cons c cs ih =>
    rw [List.mem_cons, not_or] at h
    obtain ⟨hc, hcs⟩ := h
    rw [List.cons_append, lastFrom, ih hcs]
    intro rest' heq
    cases heq
    exact absurd rfl hc

/-- The characters after the last separator are the text, or a separator is in front of them. -/
theorem eq_append_lastFrom (cs : List Char) :
    cs = lastFrom cs ∨ ∃ rest, cs = lastFrom cs ++ ':' :: ':' :: rest := by
  fun_induction lastFrom cs with
  | case1 => exact .inl rfl
  | case2 rest => exact .inr ⟨rest, rfl⟩
  | case3 c rest _ ih =>
    rcases ih with h | ⟨before, h⟩
    · exact .inl (congrArg (c :: ·) h)
    · exact .inr ⟨before, congrArg (c :: ·) h⟩

/-- A name ends in a segment if it is the segment, or has the segment after a separator. -/
theorem simple_eq_iff {name last : String} (h : ':' ∉ last.toList) :
    simple name = last ↔ name = last ∨ ∃ path, name = path ++ "::" ++ last := by
  have hreverse : ':' ∉ last.toList.reverse := by simpa using h
  have hsep : "::".toList = [':', ':'] := by decide
  constructor
  · rintro rfl
    rw [simple, ← String.toList_inj, String.toList_ofList]
    rcases eq_append_lastFrom name.toList.reverse with hname | ⟨rest, hname⟩
    · exact .inl (by rw [← hname, List.reverse_reverse])
    · refine .inr ⟨String.ofList rest.reverse, ?_⟩
      rw [← String.toList_inj, String.toList_append, String.toList_append, hsep,
        String.toList_ofList, String.toList_ofList]
      have := congrArg List.reverse hname
      simpa using this
  · rintro (rfl | ⟨path, rfl⟩)
    · exact simple_eq_self fun hin => h (hin.subset List.mem_cons_self)
    · rw [simple, String.toList_append, String.toList_append, hsep, List.reverse_append,
        List.reverse_append, ← List.append_assoc]
      show String.ofList (lastFrom ((last.toList.reverse ++ [':', ':']) ++ _)).reverse = _
      rw [List.append_assoc]
      show String.ofList (lastFrom (last.toList.reverse ++ ':' :: ':' :: _)).reverse = _
      rw [lastFrom_append hreverse, List.reverse_reverse, String.ofList_toList]

/-- The last segment of a name is found. -/
theorem simple_ofSegments (names : List String) {last : String} (h : ':' ∉ last.toList) :
    simple (ofSegments (names ++ [last])) = last := by
  have hself : ofSegments [last] = last := String.intercalate_singleton
  rw [simple_eq_iff h]
  cases names with
  | nil => exact .inl hself
  | cons first names =>
    refine .inr ⟨ofSegments (first :: names), ?_⟩
    rw [ofSegments_append (List.cons_ne_nil _ _) (List.cons_ne_nil _ _), hself]

theorem splitFrom_of_not_mem {cs : List Char} (h : ':' ∉ cs) : splitFrom cs = [cs] := by
  fun_induction splitFrom cs with
  | case1 => rfl
  | case2 rest => exact absurd List.mem_cons_self h
  | case3 c rest _ hnil ih => exact absurd hnil (splitFrom_ne_nil rest)
  | case4 c rest _ piece pieces hrest ih =>
    rw [hrest] at ih
    obtain ⟨rfl, rfl⟩ := List.cons.inj (ih fun hmem => h (List.mem_cons_of_mem _ hmem))
    rfl

theorem splitFrom_append {cs : List Char} (h : ':' ∉ cs) (rest : List Char) :
    splitFrom (cs ++ ':' :: ':' :: rest) = cs :: splitFrom rest := by
  induction cs with
  | nil => rfl
  | cons c cs ih =>
    rw [List.mem_cons, not_or] at h
    obtain ⟨hc, hcs⟩ := h
    rw [List.cons_append, splitFrom, ih hcs]
    intro rest' heq
    cases heq
    exact absurd rfl hc

/-- Joined segments are found again, from the left. -/
theorem segments_ofSegments {names : List String} (hne : names ≠ [])
    (h : ∀ n ∈ names, ':' ∉ n.toList) : segments (ofSegments names) = names := by
  have hsep : "::".toList = [':', ':'] := by decide
  induction names with
  | nil => exact absurd rfl hne
  | cons name names ih =>
    rw [List.forall_mem_cons] at h
    have hself : ofSegments [name] = name := String.intercalate_singleton
    by_cases hnil : names = []
    · rw [hnil, hself, segments, splitFrom_of_not_mem h.1, List.map_singleton, String.ofList_toList]
    · rw [← List.singleton_append, ofSegments_append (List.cons_ne_nil _ _) hnil, hself, segments,
        String.toList_append, String.toList_append, hsep, List.append_assoc]
      show (splitFrom (name.toList ++ ':' :: ':' :: _)).map String.ofList = _
      rw [splitFrom_append h.1, List.map_cons, String.ofList_toList]
      exact congrArg (name :: ·) (ih hnil h.2)

/-- The module of a name is what stands before its last segment. -/
theorem modulePath_ofSegments {names : List String} {last : String}
    (h : ∀ n ∈ names ++ [last], ':' ∉ n.toList) :
    modulePath (ofSegments (names ++ [last])) = names.filter (· ≠ "crate") := by
  rw [modulePath, segments_ofSegments (by simp) h, List.dropLast_concat]

end QualifiedName

namespace Scope

open QualifiedName

/-! ## Candidates -/

theorem mem_firsts {names : List String} {name : String} : name ∈ firsts names ↔ name ∈ names := by
  induction names with
  | nil => rfl
  | cons first rest ih =>
    rw [firsts, List.mem_cons, List.mem_cons, List.mem_filter, ih, decide_eq_true_eq]
    by_cases hname : name = first
    · simp [hname]
    · simp [hname]

/-- Every `super` leaves one module. -/
theorem climb_supers (module : Segments) (up : Nat) {rest : Segments}
    (h : rest.head? ≠ some "super") :
    climb module (List.replicate up "super" ++ rest)
      = "crate" :: module.take (module.length - up) ++ rest := by
  induction up generalizing module with
  | zero =>
    rw [List.replicate_zero, List.nil_append, Nat.sub_zero, List.take_length]
    unfold climb
    split
    · exact absurd rfl h
    · rfl
  | succ up ih =>
    have hlen : module.length - 1 - up = module.length - (up + 1) := by omega
    rw [List.replicate_succ, List.cons_append, climb, ih, List.dropLast_eq_take, List.length_take,
      List.take_take, Nat.min_eq_left (Nat.sub_le _ 1), hlen, Nat.min_eq_left (by omega)]

theorem climb_append (module path : Segments) {rest : Segments} (h : rest.head? ≠ some "super") :
    climb module (path ++ rest) = climb module path ++ rest := by
  induction path generalizing module with
  | nil =>
    rw [List.nil_append, show rest = List.replicate 0 "super" ++ rest from rfl, climb_supers _ _ h]
    simp [climb]
  | cons first path ih =>
    by_cases hfirst : first = "super"
    · rw [hfirst, List.cons_append, climb, climb, ih]
    · rw [List.cons_append, climb, climb]
      · exact (List.append_assoc _ (first :: path) rest).symm
      · simp [hfirst]
      · simp [hfirst]

theorem isAnchored_append {path : Segments} (hpath : path ≠ []) (rest : Segments) :
    isAnchored (path ++ rest) = isAnchored path := by
  cases path with
  | nil => exact absurd rfl hpath
  | cons first path => rfl

theorem head?_of_isAnchored {path : Segments} (h : isAnchored path = false) :
    path.head? ≠ some "super" := by
  cases path with
  | nil => nofun
  | cons first path =>
    rintro ⟨⟩
    cases h

theorem absolute_append (s : Scope) {path : Segments} (hpath : path ≠ []) {rest : Segments}
    (h : rest.head? ≠ some "super") :
    s.absolute (path ++ rest) = s.absolute path ++ rest := by
  obtain ⟨first, path, rfl⟩ := List.exists_cons_of_ne_nil hpath
  rw [List.cons_append]
  by_cases hself : first = "self"
  · rw [hself, absolute, absolute, inModule, inModule, List.append_assoc]
  · by_cases hsuper : first = "super"
    · rw [hsuper, absolute, absolute, ← List.cons_append, climb_append _ _ h]
    · rw [absolute, absolute, List.cons_append] <;> simp [hself, hsuper]

/-- More segments only lengthen what a path stands for. -/
theorem anchored_append (s : Scope) (path : Segments) {rest : Segments}
    (h : isAnchored rest = false) :
    s.anchored (path ++ rest) = (s.anchored path).map (· ++ rest) := by
  rcases eq_or_ne path [] with rfl | hpath
  · have hnil : isAnchored [] = false := rfl
    simp [anchored, h, hnil, inModule]
  · unfold anchored
    rw [isAnchored_append hpath]
    split
    · rw [absolute_append s hpath (head?_of_isAnchored h)]
      rfl
    · simp [inModule]

theorem mem_resolve (s : Scope) {written name : String} :
    name ∈ s.resolve written ↔
      name ∈ (s.candidates (segments written)).map ofSegments := mem_firsts

theorem resolve_eq_singleton (s : Scope) {written : String} {path : Segments}
    (h : s.candidates (segments written) = [path]) : s.resolve written = [ofSegments path] := by
  rw [resolve, h]
  rfl

theorem anchored_of_isAnchored (s : Scope) {path : Segments} (h : isAnchored path = true) :
    s.anchored path = [s.absolute path] := if_pos h

theorem candidates_of_isAnchored (s : Scope) {path : Segments} (h : isAnchored path = true) :
    s.candidates path = [s.absolute path] := by
  cases path with
  | nil => cases h
  | cons first rest => exact if_pos h

theorem candidates_of_alias (s : Scope) {name : String} {rest target : Segments}
    (hname : isAnchored [name] = false) (h : s.alias? name = some target) :
    s.candidates (name :: rest) = s.anchored (target ++ rest) := by
  have hpath : isAnchored (name :: rest) = false := hname
  simp [candidates, hpath, h]

theorem candidates_of_no_alias (s : Scope) {name : String} {rest : Segments}
    (hname : isAnchored [name] = false) (h : s.alias? name = none) (hrest : rest ≠ []) :
    s.candidates (name :: rest) = [s.inModule (name :: rest), name :: rest] := by
  have hpath : isAnchored (name :: rest) = false := hname
  simp [candidates, hpath, h, hrest, anchored]

theorem candidates_name (s : Scope) {name : String} (hname : isAnchored [name] = false)
    (h : s.alias? name = none) :
    s.candidates [name]
      = s.inModule [name] :: s.globs.flatMap fun glob => (s.anchored glob).map (· ++ [name]) := by
  simp only [candidates, hname, h, anchored_append s _ hname]
  rfl

end Scope

/-! ## Paths that start at a fixed module -/

/-- The start of a path at a fixed module. -/
inductive Anchor where
  /-- `crate` -/
  | root
  /-- `self`, and then so many `super` -/
  | here (up : Nat)
  /-- so many `super`, and one more -/
  | above (up : Nat)

namespace Anchor

/-- How an anchor is written. -/
def spelling : Anchor → Segments
  | root => ["crate"]
  | here up => "self" :: List.replicate up "super"
  | above up => List.replicate (up + 1) "super"

/-- The module that an anchor stands for in a module. -/
def meaning (module : Segments) : Anchor → Segments
  | root => ["crate"]
  | here up => "crate" :: module.take (module.length - up)
  | above up => "crate" :: module.take (module.length - (up + 1))

/-- What an anchor is replaced with: after `self`, every `super` stays. -/
def found (module : Segments) : Anchor → Segments
  | root => ["crate"]
  | here up => "crate" :: module ++ List.replicate up "super"
  | above up => "crate" :: module.take (module.length - (up + 1))

theorem isAnchored_spelling (a : Anchor) (rest : Segments) :
    Scope.isAnchored (a.spelling ++ rest) = true := by
  cases a <;> rfl

theorem absolute_spelling (s : Scope) (a : Anchor) {rest : Segments}
    (h : rest.head? = some "super" → a = root) :
    s.absolute (a.spelling ++ rest) = a.found s.module ++ rest := by
  cases a with
  | root => simp [spelling, found, Scope.absolute]
  | here up => simp [spelling, found, Scope.absolute, Scope.inModule]
  | above up => exact Scope.climb_supers s.module (up + 1) fun hsuper => nomatch h hsuper

/-- Only what follows `self` can be misread. -/
theorem found_eq_meaning_iff (module rest : Segments) (a : Anchor) :
    QualifiedName.ofSegments (a.found module ++ rest)
        = QualifiedName.ofSegments (a.meaning module ++ rest) ↔
      ∀ up, a ≠ here (up + 1) := by
  cases a with
  | root => exact iff_of_true rfl nofun
  | above up => exact iff_of_true rfl nofun
  | here up =>
    cases up with
    | zero => simp [found, meaning]
    | succ up =>
      refine iff_of_false ?_ fun h => h up rfl
      have hfound : (here (up + 1)).found module = (here (up + 1)).meaning module
          ++ (module.drop (module.length - (up + 1)) ++ List.replicate (up + 1) "super") := by
        rw [found, meaning, List.cons_append, List.cons_append, ← List.append_assoc,
          List.take_append_drop]
      rw [hfound]
      refine QualifiedName.ofSegments_insert_ne (List.cons_ne_nil _ _) ?_ rest
      exact List.append_ne_nil_of_right_ne_nil _ (List.cons_ne_nil _ _)

end Anchor

namespace Scope

open QualifiedName

/-- A path that starts at a fixed module stands for one name, as it is written, through the name it
is imported under, and through a glob. It is the name of what the path means, unless `self` is
followed by `super`. -/
theorem resolve_anchor (s : Scope) (a : Anchor) (rest : Segments)
    (hrest : rest.head? = some "super" → a = .root) :
    (∀ written, segments written = a.spelling ++ rest →
        s.resolve written = [ofSegments (a.found s.module ++ rest)]) ∧
      (∀ written name more target, segments written = name :: more → isAnchored [name] = false →
        s.alias? name = some target → target ++ more = a.spelling ++ rest →
          s.resolve written = [ofSegments (a.found s.module ++ rest)]) ∧
      (∀ glob name, glob ++ [name] = a.spelling ++ rest →
        s.anchored (glob ++ [name]) = [a.found s.module ++ rest]) ∧
      (ofSegments (a.found s.module ++ rest) = ofSegments (a.meaning s.module ++ rest) ↔
        ∀ up, a ≠ .here (up + 1)) := by
  have hfixed := a.isAnchored_spelling rest
  have habsolute := a.absolute_spelling s hrest
  have hone : s.anchored (a.spelling ++ rest) = [a.found s.module ++ rest] := by
    rw [anchored_of_isAnchored s hfixed, habsolute]
  refine ⟨fun written hwritten => ?_,
    fun written name more target hwritten hname hbound hpath => ?_,
    fun glob name hglob => ?_, a.found_eq_meaning_iff s.module rest⟩
  · refine s.resolve_eq_singleton ?_
    rw [hwritten, candidates_of_isAnchored s hfixed, habsolute]
  · refine s.resolve_eq_singleton ?_
    rw [hwritten, candidates_of_alias s hname hbound, hpath, hone]
  · rw [hglob, hone]

/-- A module inside the crate root: it imports a name of its parent, by way of itself. -/
def nested : Scope :=
  ⟨["app"], [.binds "Parent" ["self", "super", "Base"], .glob ["super"]]⟩

theorem resolve_anchor_nested :
    nested.resolve "self::super::Base" = ["crate::app::super::Base"] ∧
      nested.resolve "Parent" = ["crate::app::super::Base"] ∧
      "crate::app::super::Base" ≠ "crate::Base" := by
  obtain ⟨hwritten, himported, -, hmeaning⟩ := resolve_anchor nested (.here 1) ["Base"] nofun
  refine ⟨hwritten _ (by decide), himported _ "Parent" [] _ (by decide) (by decide) rfl rfl, ?_⟩
  exact fun h => hmeaning.1 h 0 rfl

/-! ## Paths of several segments -/

/-- A glob that adds no module: the members of the module itself, or of none. -/
def Idle (s : Scope) (glob : Segments) : Prop :=
  glob = [] ∨ isAnchored glob = true ∧ ofSegments (s.absolute glob) = ofSegments (s.inModule [])

theorem absolute_ne_nil (s : Scope) {path : Segments} (h : path ≠ []) : s.absolute path ≠ [] := by
  have hclimb (module path : Segments) : climb module path ≠ [] := by
    fun_induction climb module path with
    | case1 module rest ih => exact ih
    | case2 module rest => exact List.cons_ne_nil _ _
  unfold absolute
  split
  · exact List.cons_ne_nil _ _
  · exact hclimb _ _
  · exact h

/-- What a glob gives to a name, extended, is found without the glob exactly if the glob is idle. -/
theorem glob_extends_iff (s : Scope) (glob : Segments) {path : Segments} (hpath : path ≠ []) :
    (∀ c ∈ s.anchored glob, ofSegments (c ++ path) ∈
        [s.inModule path, path].map ofSegments) ↔ s.Idle glob := by
  have hinside : s.inModule path = s.inModule [] ++ path := by simp [inModule]
  have hmodule : s.inModule [] ≠ [] := List.cons_ne_nil _ _
  simp only [List.map_cons, List.map_nil, List.mem_cons, List.not_mem_nil, or_false, hinside]
  unfold Idle
  rcases eq_or_ne glob [] with rfl | hglob
  · refine iff_of_true ?_ (.inl rfl)
    have hboth : s.anchored [] = [s.inModule [], []] := rfl
    simp [hboth]
  · by_cases hfixed : isAnchored glob = true
    · have habsolute := s.absolute_ne_nil hglob
      simp only [anchored_of_isAnchored s hfixed, List.forall_mem_singleton, hglob, false_or,
        hfixed, true_and, ofSegments_append_inj habsolute hmodule hpath,
        ofSegments_append_ne habsolute hpath, or_false]
    · rw [anchored, if_neg hfixed]
      refine iff_of_false (fun h => ?_) (by simp [hglob, hfixed])
      -- the path from outside is the one that neither candidate is
      rcases h (s.inModule glob) List.mem_cons_self with h | h
      · rw [show s.inModule glob = s.inModule [] ++ glob by simp [inModule]] at h
        exact ofSegments_insert_ne hmodule hglob path h
      · exact ofSegments_append_ne (List.cons_ne_nil _ _) hpath h

/-- A path of several segments stands for all that its first segment stands for exactly if that
segment is bound by an import, or every glob is idle: the globs are left out. -/
theorem resolve_extends_iff (s : Scope) {short long first : String} {rest : Segments}
    (hshort : segments short = [first]) (hlong : segments long = first :: rest)
    (hfirst : isAnchored [first] = false) (hmore : rest ≠ []) (hrest : isAnchored rest = false) :
    (∀ c ∈ s.candidates (segments short), ofSegments (c ++ rest) ∈ s.resolve long) ↔
      (s.alias? first).isSome = true ∨ ∀ glob ∈ s.globs, s.Idle glob := by
  simp only [mem_resolve, hshort, hlong]
  cases hbound : s.alias? first with
  | some target =>
    refine iff_of_true (fun c hc => ?_) (.inl rfl)
    rw [candidates_of_alias s hfirst hbound, List.append_nil] at hc
    rw [candidates_of_alias s hfirst hbound, anchored_append s target hrest]
    exact List.mem_map_of_mem (List.mem_map_of_mem hc)
  | none =>
    rw [candidates_of_no_alias s hfirst hbound hmore, candidates_name s hfirst hbound,
      List.forall_mem_cons, Option.isSome_none, or_iff_right Bool.false_ne_true]
    have hpath : first :: rest ≠ [] := List.cons_ne_nil first rest
    constructor
    · rintro ⟨-, h⟩ glob hglob
      refine (s.glob_extends_iff glob hpath).1 fun c hc => ?_
      have := h (c ++ [first]) (List.mem_flatMap.2 ⟨glob, hglob, List.mem_map_of_mem hc⟩)
      rwa [List.append_assoc] at this
    · refine fun h => ⟨by simp [inModule], fun path hmem => ?_⟩
      obtain ⟨glob, hglob, hmem⟩ := List.mem_flatMap.1 hmem
      obtain ⟨c, hc, rfl⟩ := List.mem_map.1 hmem
      rw [List.append_assoc]
      exact (s.glob_extends_iff glob hpath).2 (h glob hglob) c hc

theorem resolve_extends_nested :
    ¬ (∀ c ∈ nested.candidates (segments "theme"),
      ofSegments (c ++ ["Base"]) ∈ nested.resolve "theme::Base") := by
  have hshort : segments "theme" = ["theme"] := by decide
  have hlong : segments "theme::Base" = ["theme", "Base"] := by decide
  have h := resolve_extends_iff nested hshort hlong rfl (List.cons_ne_nil _ _) rfl
  intro hall
  rcases h.1 hall with hbound | hidle
  · revert hbound
    decide
  · rcases hidle ["super"] (by decide) with hnil | ⟨-, hmodule⟩
    · cases hnil
    · revert hmodule
      decide

end Scope

end TypedSettings
