import TypedSettings.Proofs.Interface.Agreement

/-!
Annotations under a path. An annotation of an interface may stand under any path that ends in its
name. An annotation of a method is read under its plain name alone: under a path it is passed over,
and the method is read as if it were not there.

* `MethodArg.foldl_addTo`: of what the annotations of a method say, the last key and the last
  default count.
* `InterfaceDecl.heard_eq`: what is heard of the annotations of a method.
* `InterfaceDecl.alike_iff`: when two lists of annotations make one method.
* `InterfaceDecl.gives_oneAttribute`: the form of an attribute.
* `InterfaceDecl.respelled`: what becomes of annotations that are put under a path.
-/

namespace TypedSettings

open Source

/-! ## What the annotations of a method say -/

namespace MethodArg

/-- The key that an argument gives a method. -/
def key? : MethodArg → Option String
  | key text => some text
  | default _ => none

/-- The default that an argument gives a method. -/
def default? : MethodArg → Option DefaultValue
  | key _ => none
  | default value => some value

/-- The last key counts, and the last default. -/
theorem foldl_addTo (args : List MethodArg) : args.foldl addTo {} =
    { key := (args.filterMap key?).getLast?
      default := (args.filterMap default?).getLast? } := by
  induction args using List.reverseRecOn with
  | nil => rfl
  | append_singleton args arg ih =>
    rw [List.foldl_concat, ih, List.filterMap_append, List.filterMap_append]
    cases arg with
    | key text => simp [addTo, key?, default?]
    | default value => simp [addTo, key?, default?]

end MethodArg

/-- A default as it is written: whether it is a literal, and its text. Where its tokens stand is
left out. -/
def DefaultValue.written : DefaultValue → Bool × String
  | literal value => (true, Token.text value.tokens)
  | expr tokens => (false, Token.text tokens)

namespace InterfaceDecl

/-- What one annotation of a method holds. -/
def holds (attr : Tree) : Except (ArgumentFault × Position) (List MethodArg) :=
  ArgReader.ofAttribute (MethodArg.read false) attr

/-- The fault of an annotation of a method, and its place. -/
def faultAt (attr : Tree) : Option (AttributeFault × Position) :=
  (faultOf (holds attr)).map fun e => (e.1.ofAttribute, e.2)

/-- The annotations of a method, among its attributes. -/
def annotations (attrs : List Tree) : List Tree := attrs.filter (isPlain "pref")

/-- What the sound annotations of a method hold, one after the other. -/
def held (attrs : List Tree) : List MethodArg :=
  (annotations attrs).flatMap fun a => (holds a).toOption.getD []

/-- What is heard of the annotations of a method: a fault and its place, or a key and a default. -/
def heard (attrs : List Tree) :
    Except (AttributeFault × Position) (Option String × Option (Bool × String)) :=
  match readMetadata attrs with
  | .ok metadata => .ok (metadata.key, metadata.default.map DefaultValue.written)
  | .error (fault, pos) => .error (fault.ofAttribute, pos)

theorem findSome?_faultAt (attrs : List Tree) : attrs.findSome? faultAt =
    (faultOf (attrs.mapM holds)).map fun e => (e.1.ofAttribute, e.2) := by
  rw [faultOf_mapM, List.map_findSome?]
  rfl

theorem held_eq {attrs : List Tree} {argss : List (List MethodArg)}
    (h : (annotations attrs).mapM holds = .ok argss) : held attrs = argss.flatten := by
  have heach : List.Forall₂ (fun a args => (holds a).toOption.getD [] = id args)
      (annotations attrs) argss := by
    refine (mapM_eq_ok_iff.1 h).imp fun a args hargs => ?_
    rw [hargs]
    rfl
  rw [held, List.flatMap_def, map_eq_map_of_forall₂ heach, List.map_id]

/-- Of the annotations of a method the first fault is heard; without a fault, the last key and the
last default. -/
theorem heard_eq (attrs : List Tree) : heard attrs =
    match (annotations attrs).findSome? faultAt with
    | some fault => .error fault
    | none => .ok (((held attrs).filterMap MethodArg.key?).getLast?,
        (((held attrs).filterMap MethodArg.default?).getLast?).map DefaultValue.written) := by
  have hread : readMetadata attrs = (((annotations attrs).mapM holds).map List.flatten).map
      (List.foldl MethodArg.addTo {}) := readMetadata_eq attrs
  rw [heard, hread, findSome?_faultAt]
  cases h : (annotations attrs).mapM holds with
  | error e => rfl
  | ok argss =>
    rw [held_eq h]
    simp only [Except.map, faultOf, Option.map_none, MethodArg.foldl_addTo]

end InterfaceDecl

/-! ## One method from two lists of annotations -/

/-- Two methods are the same but for the places of the tokens of their defaults. -/
structure MethodDecl.Alike (m m' : MethodDecl) : Prop where
  signature : { m with metadata := {} } = { m' with metadata := {} }
  key : m.metadata.key = m'.metadata.key
  default : m.metadata.default.map DefaultValue.written
    = m'.metadata.default.map DefaultValue.written

theorem MethodDecl.Alike.refl (m : MethodDecl) : m.Alike m := ⟨rfl, rfl, rfl⟩

/-- Two interfaces are the same but for the places of the tokens of their methods' defaults. -/
structure InterfaceDecl.Alike (d d' : InterfaceDecl) : Prop where
  methods : List.Forall₂ MethodDecl.Alike d.methods d'.methods
  rest : { d with methods := [] } = { d' with methods := [] }

namespace InterfaceDecl

theorem Alike.refl (d : InterfaceDecl) : d.Alike d :=
  ⟨List.forall₂_same.2 fun m _ => MethodDecl.Alike.refl m, rfl⟩

/-- A function without body, with its attributes. -/
def function (attrs : List Tree) (sig body : Tree) : Tree :=
  .node .traitFn [.node .attributes attrs, sig, body]

theorem addMember_function {file : Option String} {d : InterfaceDecl} {attrs : List Tree}
    {sig body : Tree} (hbody : body.isKind .block = false) :
    addMember file d (function attrs sig body) =
      match readMetadata attrs with
      | .ok metadata => { d with methods := d.methods ++ [method sig file metadata] }
      | .error (fault, pos) =>
        { d with issues := d.issues ++
            [⟨some (sig.part 2).word, fault.ofAttribute, some ⟨file, pos⟩⟩] } := by
  rw [function, addMember, if_neg (Bool.eq_false_iff.1 hbody)]
  rfl

theorem alike_methods_iff {d : InterfaceDecl} {m m' : MethodDecl} :
    Alike { d with methods := d.methods ++ [m] } { d with methods := d.methods ++ [m'] } ↔
      m.Alike m' := by
  constructor
  · intro h
    have hlast := List.forall₂_drop d.methods.length h.methods
    rw [List.drop_left, List.drop_left] at hlast
    cases hlast with
    | cons hm _ => exact hm
  · intro h
    have hfirst : List.Forall₂ MethodDecl.Alike d.methods d.methods :=
      List.forall₂_same.2 fun m _ => MethodDecl.Alike.refl m
    exact ⟨List.rel_append hfirst (.cons h .nil), rfl⟩

theorem alike_issues_iff {d : InterfaceDecl} {i i' : AttributeIssue} :
    Alike { d with issues := d.issues ++ [i] } { d with issues := d.issues ++ [i'] } ↔ i = i' := by
  constructor
  · intro h
    simpa using h.rest
  · rintro rfl
    exact Alike.refl _

/-- Two lists of annotations make the same of a function exactly when the same is heard of
both. -/
theorem alike_iff {file : Option String} {d : InterfaceDecl} {attrs attrs' : List Tree}
    {sig body : Tree} (hbody : body.isKind .block = false) :
    Alike (addMember file d (function attrs sig body))
        (addMember file d (function attrs' sig body)) ↔ heard attrs = heard attrs' := by
  rw [addMember_function hbody, addMember_function hbody, heard, heard]
  cases readMetadata attrs with
  | ok metadata =>
    cases readMetadata attrs' with
    | ok metadata' =>
      refine alike_methods_iff.trans ?_
      rw [Except.ok.injEq, Prod.mk.injEq]
      exact ⟨fun h => ⟨h.key, h.default⟩, fun h => ⟨rfl, h.1, h.2⟩⟩
    | error e' =>
      refine iff_of_false (fun h => ?_) nofun
      have hlength : (d.methods ++ [method sig file metadata]).length = d.methods.length :=
        h.methods.length_eq
      rw [List.length_append, List.length_singleton] at hlength
      omega
  | error e =>
    cases readMetadata attrs' with
    | ok metadata' =>
      refine iff_of_false (fun h => ?_) nofun
      have hlength : d.methods.length = (d.methods ++ [method sig file metadata']).length :=
        h.methods.length_eq
      rw [List.length_append, List.length_singleton] at hlength
      omega
    | error e' =>
      refine alike_issues_iff.trans ?_
      simp

/-! ## Annotations under a path -/

/-- What may follow the path of an annotation: nothing, arguments in brackets, or a value. -/
inductive Follows : Kind → List Tree → Prop
  | nothing : Follows .metaPath []
  | arguments {d : Delimiter} {body : List Token} {pos close : Position} :
      Follows .metaList [.run [.group d body pos close]]
  | value {eq value : Tree} : Follows .metaValue [eq, value]

/-- An annotation with a path and what follows it. -/
def attributeWith (pound bang : Tree) (pos close : Position) (kind : Kind) (rest : List Tree)
    (path : Tree) : Tree :=
  .node .attr [pound, bang, .group .bracket [.node kind (path :: rest)] pos close]

theorem gives_attributeContent (rules : Rules) :
    Parser.Gives (fun t => ∃ kind path rest, Follows kind rest ∧ t = .node kind (path :: rest))
      (Grammar.attributeContent rules) := by
  unfold Grammar.attributeContent
  refine Parser.gives_bind fun path => Parser.gives_bind fun _ => Parser.gives_ite ?_ ?_
  · intro c t c' h
    obtain ⟨body, c₁, hbody, h⟩ := Parser.run_bind_eq_ok.1 h
    obtain ⟨rfl, -⟩ := Parser.run_pure_eq_ok.1 h
    unfold Parser.rawGroup at hbody
    split at hbody
    · cases hbody
      exact ⟨_, path, _, .arguments, rfl⟩
    · cases hbody
  · refine Parser.gives_bind fun _ => Parser.gives_ite ?_ ?_
    · unfold Grammar.attributeValue
      refine Parser.gives_bind fun eq => Parser.gives_bind fun _ => Parser.gives_ite ?_ ?_
      · exact Parser.gives_bind fun _ => Parser.gives_bind fun value =>
          Parser.gives_pure ⟨_, path, _, .value, rfl⟩
      · exact Parser.gives_bind fun value => Parser.gives_pure ⟨_, path, _, .value, rfl⟩
    · exact Parser.gives_pure ⟨_, path, _, .nothing, rfl⟩

/-- Every attribute that is read has a path, and what may follow one. -/
theorem gives_oneAttribute (rules : Rules) (inner : Bool) :
    Parser.Gives (fun t => ∃ pound bang pos close kind rest path, Follows kind rest ∧
      t = attributeWith pound bang pos close kind rest path)
      (Grammar.oneAttribute rules inner) := by
  have hbody (pound bang : Tree) : Parser.Gives (fun t => ∃ pound bang pos close kind rest path,
      Follows kind rest ∧ t = attributeWith pound bang pos close kind rest path) (do
        let body ← Parser.group .bracket do return [← Grammar.attributeContent rules]
        return Source.Tree.node .attr [pound, bang, body]) := by
    intro c t c' h
    obtain ⟨body, c₁, hbody, h⟩ := Parser.run_bind_eq_ok.1 h
    obtain ⟨rfl, -⟩ := Parser.run_pure_eq_ok.1 h
    obtain ⟨ts, pos, close, rfl, c₂, c₃, hrun⟩ := Parser.group_eq_ok hbody
    obtain ⟨content, c₄, hcontent, hlist⟩ := Parser.run_bind_eq_ok.1 hrun
    obtain ⟨rfl, -⟩ := Parser.run_pure_eq_ok.1 hlist
    obtain ⟨kind, path, rest, hfollows, rfl⟩ := gives_attributeContent rules hcontent
    exact ⟨pound, bang, pos, close, kind, rest, path, hfollows, rfl⟩
  refine Parser.gives_bind fun pound => Parser.gives_ite ?_ ?_
  · exact Parser.gives_bind fun bang => hbody pound bang
  · exact Parser.gives_bind fun bang => hbody pound bang

/-- A path that is one plain name. -/
def IsName (name : String) (path : Tree) : Prop :=
  (path.part 0).isAbsent = true ∧ pathNames path = [name]

/-- A path that ends in a name and is more than the name. -/
def EndsIn (name : String) (path : Tree) : Prop :=
  (pathNames path).getLast? = some name ∧ ¬ IsName name path

/-- Some annotations of a name, in the first list, stand in the second one under paths that end in
the name; `kept` are the attributes that both lists have. -/
inductive Respelling (name : String) : (attrs attrs' kept : List Tree) → Prop
  | nil : Respelling name [] [] []
  | keep (attr : Tree) {attrs attrs' kept : List Tree} : Respelling name attrs attrs' kept →
      Respelling name (attr :: attrs) (attr :: attrs') (attr :: kept)
  | put {pound bang path path' : Tree} {pos close : Position} {kind : Kind} {rest : List Tree}
      {attrs attrs' kept : List Tree} : Follows kind rest → IsName name path → EndsIn name path' →
      Respelling name attrs attrs' kept →
      Respelling name (attributeWith pound bang pos close kind rest path :: attrs)
        (attributeWith pound bang pos close kind rest path' :: attrs') kept

theorem isPlain_iff {name : String} {attr : Tree} :
    isPlain name attr = true ↔ IsName name (attributePath attr) := by
  rw [isPlain, Bool.and_eq_true, beq_iff_eq, IsName]

variable {attrs attrs' kept : List Tree}

/-- Under a path an annotation of a method is passed over. -/
theorem Respelling.annotations_eq (h : Respelling "pref" attrs attrs' kept) :
    annotations attrs' = annotations kept := by
  induction h with
  | nil => rfl
  | keep attr _ ih =>
    rw [annotations, annotations, List.filter_cons, List.filter_cons]
    exact congrArg (fun as => if isPlain "pref" attr = true then attr :: as else as) ih
  | put _ _ hends _ ih =>
    rw [annotations, List.filter_cons_of_neg fun hplain => hends.2 (isPlain_iff.1 hplain)]
    exact ih

theorem Respelling.readMetadata_eq (h : Respelling "pref" attrs attrs' kept) :
    readMetadata attrs' = readMetadata kept := by
  have heq := h.annotations_eq
  unfold annotations at heq
  rw [readMetadata, readMetadata, heq]

theorem Respelling.addMember_eq (h : Respelling "pref" attrs attrs' kept) (file : Option String)
    (d : InterfaceDecl) (sig body : Tree) :
    addMember file d (function attrs' sig body) = addMember file d (function kept sig body) := by
  cases hbody : body.isKind .block with
  | true => rw [function, function, addMember, addMember, if_pos hbody, if_pos hbody]
  | false => rw [addMember_function hbody, addMember_function hbody, h.readMetadata_eq]

/-- Nothing is heard of annotations that are sound and hold nothing, and of no others. -/
theorem heard_eq_nothing_iff :
    heard attrs = .ok (none, none) ↔ ∀ a ∈ annotations attrs, holds a = .ok [] := by
  rw [heard_eq]
  constructor
  · intro h a ha
    split at h
    · cases h
    · next hsound =>
      rw [Except.ok.injEq, Prod.mk.injEq, Option.map_eq_none_iff, List.getLast?_eq_none_iff,
        List.getLast?_eq_none_iff, List.filterMap_eq_nil_iff, List.filterMap_eq_nil_iff] at h
      obtain ⟨hkeys, hdefaults⟩ := h
      have hfault : faultOf (holds a) = none :=
        Option.map_eq_none_iff.1 (List.findSome?_eq_none_iff.1 hsound a ha)
      obtain ⟨args, hargs⟩ := faultOf_eq_none_iff.1 hfault
      cases args with
      | nil => exact hargs
      | cons arg args =>
        have hheld : arg ∈ held attrs :=
          List.mem_flatMap.2 ⟨a, ha, by rw [hargs]; exact List.mem_cons_self⟩
        cases arg with
        | key text => exact absurd (hkeys _ hheld) (Option.some_ne_none _)
        | default value => exact absurd (hdefaults _ hheld) (Option.some_ne_none _)
  · intro h
    have hsound : (annotations attrs).findSome? faultAt = none := by
      rw [List.findSome?_eq_none_iff]
      intro a ha
      rw [faultAt, h a ha]
      rfl
    have hheld : held attrs = [] := by
      rw [held, List.flatMap_eq_nil_iff]
      intro a ha
      rw [h a ha]
      rfl
    rw [hsound, hheld]
    rfl

/-- The annotation of an interface means the same under a path. -/
theorem Respelling.readStore_eq (h : Respelling "preferences" attrs attrs' kept) :
    (storeAttribute? attrs').map readStore = (storeAttribute? attrs).map readStore := by
  induction h with
  | nil => rfl
  | keep attr _ ih =>
    rw [storeAttribute?, storeAttribute?, List.find?_cons, List.find?_cons]
    split
    · rfl
    · exact ih
  | @put pound bang path path' pos close kind rest attrs attrs' _ hrest hname hends _ _ =>
    have hfind (p : Tree) (hp : (pathNames p).getLast? = some "preferences") (as : List Tree) :
        storeAttribute? (attributeWith pound bang pos close kind rest p :: as)
          = some (attributeWith pound bang pos close kind rest p) :=
      List.find?_cons_of_pos (beq_iff_eq.2 hp)
    rw [hfind path' hends.1, hfind path (by rw [hname.2]; rfl)]
    cases hrest with
    | nothing => rfl
    | arguments => rfl
    | value => rfl

/-- An annotation of a method is passed over when it stands under a path: what the function adds is
what it adds without the annotation, and that is the same as before exactly when the same is heard
of the attributes that are left. Where all annotations stand under paths, it is the same only if
they hold nothing. An annotation of an interface is read under a path as under its name. -/
theorem respelled (h : Respelling "pref" attrs attrs' kept) (file : Option String)
    (d : InterfaceDecl) (sig body : Tree) :
    addMember file d (function attrs' sig body) = addMember file d (function kept sig body) ∧
    (body.isKind .block = false →
      (Alike (addMember file d (function attrs sig body))
          (addMember file d (function attrs' sig body)) ↔ heard attrs = heard kept) ∧
      (annotations kept = [] →
        (Alike (addMember file d (function attrs sig body))
            (addMember file d (function attrs' sig body)) ↔
          ∀ a ∈ annotations attrs, holds a = .ok []))) ∧
    (∀ as ∈ [attrs, kept], heard as =
      match (annotations as).findSome? faultAt with
      | some fault => .error fault
      | none => .ok (((held as).filterMap MethodArg.key?).getLast?,
          (((held as).filterMap MethodArg.default?).getLast?).map DefaultValue.written)) ∧
    (∀ as as' left, Respelling "preferences" as as' left →
      (storeAttribute? as').map readStore = (storeAttribute? as).map readStore) := by
  refine ⟨h.addMember_eq file d sig body, fun hbody => ?_, fun as _ => heard_eq as,
    fun as as' left => Respelling.readStore_eq⟩
  have hiff : Alike (addMember file d (function attrs sig body))
      (addMember file d (function attrs' sig body)) ↔ heard attrs = heard kept := by
    rw [h.addMember_eq, alike_iff hbody]
  refine ⟨hiff, fun hnone => ?_⟩
  have hkept : heard kept = .ok (none, none) := by
    rw [heard_eq_nothing_iff, hnone]
    exact nofun
  rw [hiff, hkept, heard_eq_nothing_iff]

/-! An annotation that names a key, once under its name and once under a path. -/

def pathSegment (name : String) : Tree := .node .segment [.run [.word name {}], .absent]

def prefPath : Tree := .node .path [.absent, pathSegment "pref"]

def apiPath : Tree :=
  .node .path [.absent, pathSegment "prefs_api", .run (Token.code ["::"]), pathSegment "pref"]

def bandAttribute : Tree → Tree :=
  attributeWith (.run [.sign '#' false {}]) .absent {} {} .metaList
    [.run [.group .paren [.word "key" {}, .sign '=' false {}, .literal "\"band\"" {}] {} {}]]

theorem bandAttribute_evaluated :
    pathNames prefPath = ["pref"] ∧ pathNames apiPath = ["prefs_api", "pref"] ∧
    (heard [bandAttribute prefPath]).toOption = some (some "band", none) := by
  decide +kernel

theorem respelled_band :
    Respelling "pref" [bandAttribute prefPath] [bandAttribute apiPath] [] ∧
    heard [bandAttribute prefPath] = .ok (some "band", none) ∧ heard [] = .ok (none, none) ∧
    ∀ file d sig,
      addMember file d (function [bandAttribute apiPath] sig .absent)
        = addMember file d (function [] sig .absent) ∧
      ¬ Alike (addMember file d (function [bandAttribute prefPath] sig .absent))
        (addMember file d (function [bandAttribute apiPath] sig .absent)) := by
  obtain ⟨hpref, hapi, hheard⟩ := bandAttribute_evaluated
  have hband : heard [bandAttribute prefPath] = .ok (some "band", none) := by
    cases h : heard [bandAttribute prefPath] with
    | error e =>
      rw [h] at hheard
      cases hheard
    | ok result =>
      rw [h] at hheard
      rw [Option.some.inj hheard]
  have hends : EndsIn "pref" apiPath := by
    refine ⟨by rw [hapi]; rfl, fun hname => ?_⟩
    rw [IsName, hapi] at hname
    exact absurd hname.2 (by decide)
  have hput : Respelling "pref" [bandAttribute prefPath] [bandAttribute apiPath] [] :=
    .put .arguments ⟨rfl, hpref⟩ hends .nil
  refine ⟨hput, hband, rfl, fun file d sig => ?_⟩
  obtain ⟨hadd, hmade, -⟩ := respelled hput file d sig .absent
  refine ⟨hadd, fun halike => ?_⟩
  have hsame := (hmade rfl).1.1 halike
  rw [hband] at hsame
  cases hsame

end InterfaceDecl

end TypedSettings
