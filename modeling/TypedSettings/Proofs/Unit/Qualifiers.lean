import TypedSettings.Unit.Assembly
import Mathlib.Tactic.Common

/-!
The names in front of `::` in generated code. A statement of its own words names the module that
knows the platform's level, the one that makes text of sets, and the serializer's; every other such
name stands in what is written in the statement.

* `qualifiers_append`: the names in front of `::`, part by part.
* `named_tokensAll`: a body names its modules, and what is written in it.
-/

namespace TypedSettings

open Source

/-! ## Names in front of `::` -/

namespace Source.Token

/-- The name that a token is, if `::` comes next. -/
def qualifier? : Token → List Token → Option String
  | word w _, rest => if isOp "::" rest && !isKeyword w then some w else none
  | _, _ => none

mutual

/-- The names directly in front of `::` inside a token. -/
def qualifiersOf : Token → List String
  | group _ body _ _ => qualifiers body
  | _ => []

/-- The names directly in front of `::`, also inside brackets. -/
def qualifiers : List Token → List String
  | [] => []
  | t :: rest => (qualifier? t rest).toList ++ qualifiersOf t ++ qualifiers rest

end

/-- Whether it depends on what comes next which names the tokens have in front of `::`. -/
def endsOpen : List Token → Bool
  | [] => false
  | [word w _] => !isKeyword w
  | [sign c _ _] => c == ':'
  | [_] => false
  | _ :: rest => endsOpen rest

theorem isOp_colons (c : Char) (joint : Bool) (pos : Position) (ts : List Token) :
    isOp "::" (sign c joint pos :: ts) = (':' == c && c != '\'' && joint && isOp ":" ts) :=
  rfl

theorem isOp_colon {ts : List Token} (h : isOp ":" ts = false) : isOp "::" ts = false := by
  cases ts with
  | nil => rfl
  | cons t ts =>
    cases t with
    | sign c joint pos =>
      have hc : (':' == c && c != '\'') = false := h
      rw [isOp_colons, hc, Bool.false_and, Bool.false_and]
    | _ => rfl

/-- Whether `::` comes next is seen in the first of two parts, if that has a token. -/
theorem isOp_append {u : Token} (ts : List Token) {us : List Token}
    (h : isOp ":" us = false ∨ endsOpen (u :: ts) = false) :
    isOp "::" (u :: ts ++ us) = isOp "::" (u :: ts) := by
  cases u with
  | sign c joint pos =>
    rw [List.cons_append, isOp_colons, isOp_colons]
    cases ts with
    | cons t ts => cases t <;> rfl
    | nil =>
      rcases h with h | h
      · rw [List.nil_append, h]
        rfl
      · have hc : (':' == c) = false := by
          rw [beq_eq_false_iff_ne]
          rintro rfl
          cases h
        simp only [hc, Bool.false_and]
  | _ => rfl

theorem qualifier?_word (w : String) (pos : Position) (ts : List Token) :
    qualifier? (word w pos) ts = if isOp "::" ts && !isKeyword w then some w else none :=
  rfl

theorem qualifier?_append {t : Token} {ts us : List Token}
    (h : isOp ":" us = false ∨ endsOpen (t :: ts) = false) :
    qualifier? t (ts ++ us) = qualifier? t ts := by
  cases t with
  | word w pos =>
    rw [qualifier?_word, qualifier?_word]
    cases ts with
    | cons u ts => rw [isOp_append ts h]
    | nil =>
      rcases h with h | h
      · rw [List.nil_append, isOp_colon h]
        rfl
      · have hw : isKeyword w = true := by simpa [endsOpen] using h
        simp [hw]
  | _ => rfl

theorem endsOpen_append (ts : List Token) {us : List Token} (hus : us ≠ []) :
    endsOpen (ts ++ us) = endsOpen us := by
  induction ts with
  | nil => rfl
  | cons t ts ih =>
    have hne : ts ++ us ≠ [] := List.append_ne_nil_of_right_ne_nil ts hus
    rw [List.cons_append, ← ih]
    cases hrest : ts ++ us with
    | nil => exact absurd hrest hne
    | cons u rest => cases t <;> rfl

/-- The names in two parts, unless the first ends in the middle of a path. -/
theorem qualifiers_append {ts us : List Token} (h : isOp ":" us = false ∨ endsOpen ts = false) :
    qualifiers (ts ++ us) = qualifiers ts ++ qualifiers us := by
  induction ts with
  | nil => rfl
  | cons t ts ih =>
    have hrest : isOp ":" us = false ∨ endsOpen ts = false := by
      refine h.imp_right fun h => ?_
      cases ts with
      | nil => rfl
      | cons u ts => cases t <;> exact h
    rw [List.cons_append, qualifiers, qualifiers, qualifier?_append h, ih hrest,
      List.append_assoc, List.append_assoc, List.append_assoc]

theorem qualifiers_group (d : Delimiter) (body : List Token) :
    qualifiers [delimited d body] = qualifiers body := by
  rw [qualifiers, qualifiers, List.append_nil]
  rfl

theorem qualifiers_arguments (args : List (List Token)) :
    qualifiers (arguments args) = args.flatMap qualifiers := by
  rw [arguments, qualifiers_group]
  fun_induction separate (operator ",") args with
  | case1 => rfl
  | case2 part => rw [List.flatMap_cons, List.flatMap_nil, List.append_nil]
  | case3 part rest hne ih =>
    rw [List.append_assoc, qualifiers_append (.inl rfl), qualifiers_append (.inr rfl), ih,
      List.flatMap_cons]
    rfl

theorem qualifiers_operatorAt (pos : Position) (cs : List Char) (us : List Token) :
    qualifiers (operatorAt pos cs ++ us) = qualifiers us := by
  induction cs with
  | nil => rfl
  | cons c cs ih =>
    cases cs with
    | nil => rfl
    | cons d cs => exact ih

/-- A piece of code names itself at most. -/
theorem qualifiers_piece_append (s : String) (us : List Token) :
    qualifiers (piece s ++ us) ⊆ s :: qualifiers us := by
  unfold piece
  split
  · exact List.subset_cons_self _ _
  · split
    · exact List.subset_cons_self _ _
    · split
      · rw [List.singleton_append, qualifiers]
        show (qualifier? (name s) us).toList ++ [] ++ qualifiers us ⊆ _
        unfold qualifier? name
        dsimp only
        split <;> simp
      · rw [operator, qualifiers_operatorAt]
        exact List.subset_cons_self _ _

theorem qualifiers_piece (s : String) : qualifiers (piece s) = [] := by
  unfold piece
  split
  · rfl
  · split
    · rfl
    · split
      · rfl
      · have h := qualifiers_operatorAt {} s.toList []
        rwa [List.append_nil] at h

theorem code_append (pieces rest : List String) :
    code (pieces ++ rest) = code pieces ++ code rest :=
  List.flatMap_append

end Source.Token

/-! ## What statements name -/

/-- A module that generated code names of its own. -/
inductive Module where
  /-- knows the platform's level -/
  | build
  /-- makes text of sets -/
  | compat
  /-- makes text of values -/
  | serializer (name : String)
deriving DecidableEq, Repr

/-- The name by which code refers to a module. -/
def Module.name : Module → String
  | build => "build"
  | compat => "compat"
  | serializer name => name

/-- The path of a module. -/
def Module.path (t : Target) : Module → String
  | build => "prefs_api::build"
  | compat => "prefs_api::compat"
  | serializer name => t.serializer.getD name

namespace Stmt

open Token

mutual

/-- The modules that a statement calls. -/
def modules : Stmt → List Module
  | putEncoded .. | readEncoded .. => [.compat]
  | putSerialized serializer .. | readSerialized serializer .. => [.serializer serializer]
  | gate _ above below => .build :: (modulesAll above ++ modulesAll below)
  | _ => []

def modulesAll : List Stmt → List Module
  | [] => []
  | s :: rest => modules s ++ modulesAll rest

end

mutual

/-- The code in a statement that is not its own: types, defaults and names of interfaces. -/
def parts : Stmt → List (List Token)
  | read _ _ default | readEncoded _ default => [default]
  | readSerialized _ _ type default => [type, default]
  | store putterTrait _ getterTrait _ => [putterTrait.tokens, getterTrait.tokens]
  | gate _ above below => partsAll above ++ partsAll below
  | _ => []

def partsAll : List Stmt → List (List Token)
  | [] => []
  | s :: rest => parts s ++ partsAll rest

end

theorem mem_partsAll {body : List Stmt} {part : List Token} :
    part ∈ partsAll body ↔ ∃ s ∈ body, part ∈ s.parts := by
  induction body with
  | nil => simp [partsAll]
  | cons s rest ih => simp [partsAll, ih]

/-! ## Statement by statement -/

theorem qualifiers_quoted (s : String) : qualifiers (quoted s) = [] := rfl

theorem qualifiers_braced (body : List Token) : qualifiers (braced body) = qualifiers body :=
  qualifiers_group _ body

theorem qualifiers_code_singleton (s : String) : qualifiers (code [s]) = [] := by
  rw [code, List.flatMap_cons, List.flatMap_nil, List.append_nil, qualifiers_piece]

/-- A last piece of code names nothing. -/
theorem qualifiers_code_concat {pieces : List String} (h : endsOpen (code pieces) = false)
    (s : String) : qualifiers (code (pieces ++ [s])) = qualifiers (code pieces) := by
  rw [code_append, qualifiers_append (.inr h), qualifiers_code_singleton, List.append_nil]

theorem qualifiers_borrowed (s : String) : qualifiers (code ["&", s]) = [] :=
  qualifiers_code_singleton s

theorem qualifiers_storeCall (method : String) (args : List (List Token)) :
    qualifiers (storeCall method args) = args.flatMap qualifiers := by
  rw [storeCall, qualifiers_append (.inl rfl), qualifiers_arguments]
  exact congrArg (· ++ _) (qualifiers_code_singleton method)

theorem qualifiers_editorCall (method : String) (args : List (List Token)) :
    qualifiers (editorCall method args) = args.flatMap qualifiers := by
  rw [editorCall, qualifiers_append (.inl rfl), qualifiers_arguments]
  exact congrArg (· ++ _) (qualifiers_code_singleton method)

theorem qualifiers_closed (call : List Token) :
    qualifiers (call ++ code [";"]) = qualifiers call := by
  rw [qualifiers_append (.inl rfl)]
  exact List.append_nil _

theorem qualifiers_remove (keys : List String) : qualifiers (remove keys).tokens = [] := by
  rw [tokens]
  induction keys with
  | nil => rfl
  | cons key keys ih =>
    rw [List.flatMap_cons, List.append_assoc, qualifiers_append (.inl rfl), qualifiers_editorCall,
      qualifiers_append (.inr rfl), ih]
    rfl

theorem qualifiers_put (kind : StoreKind) (key param : String) :
    qualifiers (put kind key param).tokens = [] := by
  cases kind with
  | string =>
    rw [tokens, qualifiers_closed, qualifiers_editorCall, List.flatMap_cons, List.flatMap_cons,
      qualifiers_borrowed]
    rfl
  | _ =>
    rw [tokens, qualifiers_closed, qualifiers_editorCall, List.flatMap_cons, List.flatMap_cons,
      qualifiers_code_singleton]
    rfl
    exact nofun

theorem qualifiers_putEncoded (key param : String) :
    qualifiers (putEncoded key param).tokens = ["compat"] := by
  rw [tokens, qualifiers_append (.inl rfl), qualifiers_append (.inl rfl), qualifiers_arguments,
    List.flatMap_cons, qualifiers_borrowed]
  rfl

theorem qualifiers_putSerialized (serializer key param : String) :
    qualifiers (putSerialized serializer key param).tokens ⊆ [serializer] := by
  have hcall : qualifiers (code ["match", serializer, "::", "serialize"]) ⊆ [serializer] := by
    show qualifiers (code ["match"] ++ code [serializer, "::", "serialize"]) ⊆ _
    rw [qualifiers_append (.inr rfl)]
    exact qualifiers_piece_append serializer (code ["::", "serialize"])
  rw [tokens, qualifiers_append (.inl rfl), qualifiers_append (.inl rfl), qualifiers_arguments,
    List.flatMap_cons, qualifiers_borrowed]
  exact List.append_subset.2 ⟨by simpa using hcall, List.nil_subset _⟩

theorem qualifiers_read (kind : StoreKind) (key : String) (default : List Token) :
    qualifiers (read kind key default).tokens = qualifiers default := by
  rw [tokens, qualifiers_storeCall]
  simp [qualifiers_quoted]

theorem qualifiers_orDefault (args : List String) (default : List Token)
    (hopen : endsOpen (args.flatMap piece) = false) (hargs : qualifiers (args.flatMap piece) = []) :
    qualifiers (orDefault args default) = qualifiers default := by
  rw [orDefault, qualifiers_append (.inl rfl), qualifiers_arguments, List.flatMap_cons,
    qualifiers_append (.inr hopen), hargs]
  simp
  rfl

theorem qualifiers_readEncoded (key : String) (default : List Token) :
    qualifiers (readEncoded key default).tokens = "compat" :: qualifiers default := by
  rw [tokens, qualifiers_append (.inl rfl), qualifiers_orDefault _ _ rfl rfl,
    qualifiers_append (.inl rfl)]
  rfl

/-- Reading a value names the serializer, its function, and what is written in the type and the
default. -/
theorem qualifiers_readSerialized (serializer key : String) (type default : List Token) :
    qualifiers (readSerialized serializer key type default).tokens
      ⊆ serializer :: "deserialize" :: (qualifiers type ++ qualifiers default) := by
  let call := code ["|", "raw", "|", serializer, "::", "deserialize", "::", "<"]
  have hcall : qualifiers call ⊆ [serializer, "deserialize"] :=
    qualifiers_piece_append serializer (code ["::", "deserialize", "::", "<"])
  have hclosed : endsOpen call = false := by
    have happend : call = code ["|", "raw", "|", serializer]
        ++ code ["::", "deserialize", "::", "<"] :=
      code_append ["|", "raw", "|", serializer] _
    have hne : code ["::", "deserialize", "::", "<"] ≠ [] := nofun
    rw [happend, endsOpen_append _ hne]
    rfl
  have hdecoded : qualifiers (call ++ type ++ code [">"] ++ arguments [code ["&", "raw"]])
      = qualifiers call ++ qualifiers type := by
    rw [qualifiers_append (.inl rfl), qualifiers_append (.inl rfl),
      qualifiers_append (.inr hclosed)]
    exact (List.append_nil _).trans (List.append_nil _)
  rw [tokens, qualifiers_append (.inl rfl), qualifiers_orDefault _ _ rfl rfl,
    qualifiers_append (.inl rfl), qualifiers_arguments, List.flatMap_cons, List.flatMap_nil,
    List.append_nil, hdecoded]
  refine List.append_subset.2 ⟨List.append_subset.2 ⟨List.nil_subset _, ?_⟩, fun q hq => ?_⟩
  · refine List.append_subset.2 ⟨fun q hq => ?_, fun q hq => ?_⟩
    · exact List.mem_append_left (qualifiers type ++ qualifiers default) (hcall hq)
    · simp [hq]
  · simp [hq]

theorem qualifiers_interface {trait rest : List Token} (h : isOp ":" rest = false) :
    qualifiers (code ["<", "Self", "as"] ++ trait ++ rest)
      = qualifiers trait ++ qualifiers rest := by
  rw [List.append_assoc, qualifiers_append (.inr rfl), qualifiers_append (.inl h)]
  rfl

theorem qualifiers_store (putterTrait getterTrait : CodePath) (putter getter : String) :
    qualifiers (store putterTrait putter getterTrait getter).tokens
      = qualifiers putterTrait.tokens ++ qualifiers getterTrait.tokens := by
  have hcall (method : String) (args : List (List Token)) :
      qualifiers (code [">", "::", method] ++ arguments args) = args.flatMap qualifiers := by
    rw [qualifiers_append (.inl rfl), qualifiers_arguments]
    exact congrArg (· ++ _) (qualifiers_code_singleton method)
  rw [tokens, qualifiers_closed, List.append_assoc, qualifiers_interface rfl, hcall,
    List.flatMap_cons, List.flatMap_cons, List.append_assoc, qualifiers_interface rfl, hcall,
    qualifiers_code_singleton, List.flatMap_cons, qualifiers_code_singleton]
  simp

theorem isOp_tokens (s : Stmt) : isOp ":" s.tokens = false := by
  cases s with
  | put kind key param => cases kind <;> rfl
  | remove keys => cases keys <;> rfl
  | _ => rfl

theorem isOp_append_colon {ts us : List Token} (hts : isOp ":" ts = false)
    (hus : isOp ":" us = false) : isOp ":" (ts ++ us) = false := by
  cases ts with
  | nil => exact hus
  | cons t ts => cases t <;> exact hts

theorem isOp_tokensAll (body : List Stmt) : isOp ":" (tokensAll body) = false := by
  induction body with
  | nil => rfl
  | cons s rest ih => exact isOp_append_colon (isOp_tokens s) ih

theorem qualifiers_gate (g : Gate) (above below : List Stmt) :
    qualifiers (gate g above below).tokens
      = ["build", "build"] ++ qualifiers (tokensAll above) ++ qualifiers (tokensAll below) := by
  rw [tokens, qualifiers_append (.inl rfl), qualifiers_append (.inl rfl),
    qualifiers_append (.inl rfl), qualifiers_braced, qualifiers_braced]
  cases g <;> simp <;> rfl

/-- A name of modules, of code that was written, or of the serializer's function. -/
def Named (modules : List Module) (parts : List (List Token)) (q : String) : Prop :=
  q ∈ modules.map Module.name ∨ (∃ part ∈ parts, q ∈ qualifiers part) ∨ q = "deserialize"

theorem Named.mono {q : String} {modules modules' : List Module} {parts parts' : List (List Token)}
    (hmodules : modules ⊆ modules') (hparts : parts ⊆ parts') (h : Named modules parts q) :
    Named modules' parts' q :=
  h.imp (fun hq => List.map_subset _ hmodules hq)
    (Or.imp_left fun ⟨part, hpart, hq⟩ => ⟨part, hparts hpart, hq⟩)

mutual

/-- A statement names its modules, and what is written in it. -/
theorem named_tokens : ∀ s : Stmt, ∀ q ∈ qualifiers s.tokens, Named s.modules s.parts q
  | openEditor | removeGiven | clear | apply | commit | self => fun q hq => nomatch hq
  | put kind key param => fun q hq => nomatch qualifiers_put kind key param ▸ hq
  | putEncoded key param => fun q hq => by
    rw [qualifiers_putEncoded] at hq
    exact .inl hq
  | putSerialized serializer key param =>
    fun q hq => .inl (qualifiers_putSerialized serializer key param hq)
  | remove keys => fun q hq => nomatch qualifiers_remove keys ▸ hq
  | read kind key default => fun q hq =>
    .inr (.inl ⟨default, List.mem_singleton.2 rfl, qualifiers_read kind key default ▸ hq⟩)
  | readEncoded key default => fun q hq => by
    rw [qualifiers_readEncoded] at hq
    rcases List.mem_cons.1 hq with rfl | hq
    · exact .inl (List.mem_singleton.2 rfl)
    · exact .inr (.inl ⟨default, List.mem_singleton.2 rfl, hq⟩)
  | readSerialized serializer key type default => fun q hq => by
    have hq := qualifiers_readSerialized serializer key type default hq
    simp only [List.mem_cons, List.mem_append] at hq
    rcases hq with rfl | rfl | hq | hq
    · exact .inl (List.mem_singleton.2 rfl)
    · exact .inr (.inr rfl)
    · exact .inr (.inl ⟨type, List.mem_cons_self, hq⟩)
    · exact .inr (.inl ⟨default, List.mem_cons_of_mem _ List.mem_cons_self, hq⟩)
  | delegate method args => fun q hq => by
    rw [tokens, qualifiers_storeCall] at hq
    obtain ⟨arg, harg, hq⟩ := List.mem_flatMap.1 hq
    obtain ⟨a, -, rfl⟩ := List.mem_map.1 harg
    exact nomatch qualifiers_code_singleton a ▸ hq
  | delegateStmt method args => fun q hq => by
    rw [tokens, qualifiers_closed, qualifiers_storeCall] at hq
    obtain ⟨arg, harg, hq⟩ := List.mem_flatMap.1 hq
    obtain ⟨a, -, rfl⟩ := List.mem_map.1 harg
    exact nomatch qualifiers_code_singleton a ▸ hq
  | store putterTrait putter getterTrait getter => fun q hq => by
    rw [qualifiers_store, List.mem_append] at hq
    rcases hq with hq | hq
    · exact .inr (.inl ⟨_, List.mem_cons_self, hq⟩)
    · exact .inr (.inl ⟨_, List.mem_cons_of_mem _ List.mem_cons_self, hq⟩)
  | gate g above below => fun q hq => by
    rw [qualifiers_gate, List.mem_append, List.mem_append] at hq
    rcases hq with (hq | hq) | hq
    · have hbuild : q = "build" := by simpa using hq
      exact .inl (List.mem_map.2 ⟨.build, List.mem_cons_self, hbuild.symm⟩)
    · refine (named_tokensAll above q hq).mono ?_ (List.subset_append_left _ _)
      exact List.subset_cons_of_subset _ (List.subset_append_left _ _)
    · refine (named_tokensAll below q hq).mono ?_ (List.subset_append_right _ _)
      exact List.subset_cons_of_subset _ (List.subset_append_right _ _)

theorem named_tokensAll :
    ∀ body, ∀ q ∈ qualifiers (tokensAll body), Named (modulesAll body) (partsAll body) q
  | [] => fun q hq => nomatch hq
  | s :: rest => fun q hq => by
    rw [tokensAll, qualifiers_append (.inl (isOp_tokensAll rest)), List.mem_append] at hq
    rcases hq with hq | hq
    · exact (named_tokens s q hq).mono (List.subset_append_left _ _) (List.subset_append_left _ _)
    · exact (named_tokensAll rest q hq).mono (List.subset_append_right _ _)
        (List.subset_append_right _ _)

end

end Stmt

end TypedSettings
