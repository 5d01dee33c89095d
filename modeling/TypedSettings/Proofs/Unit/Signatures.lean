import TypedSettings.Proofs.Interface.Kept
import TypedSettings.Proofs.Interface.Names
import TypedSettings.Proofs.Unit.Assembly

/-!
Signatures as they are written, and what becomes of them. A method knows the name of its function,
the types of its parameters and its result; the rest of the signature is left out, and the function
that is generated does not have it.

* `ofMethod_eq_ofTree_iff`: when a method knows all of its signature.
* `accessor_signature`: the signature that is generated for a method.
* `generated_signature_iff`: both, for the methods of sources.
-/

namespace TypedSettings

open Source

/-! ## Signatures -/

/-- What a signature declares: what stands in front of `fn`, the name, the generic parameters, the
type of the object and of each parameter, the result unless it is unit, and the where clause. -/
structure Signature where
  qualifiers : List String
  name : String
  generics : List String
  receiver : List String
  params : List (List String)
  result : Option (List String)
  bounds : List String
deriving DecidableEq

namespace Signature

/-- The type of the object: `&self` is short for `self: &Self`. -/
def receiverType : Tree → List String
  | .node .receiver [_, amp, l, mut', _, _, type] =>
    if !amp.isAbsent then
      "&" :: (Token.lexemes l.tokens ++ (Token.lexemes mut'.tokens ++ ["Self"]))
    else if type.isAbsent then ["Self"]
    else TypeRef.written type
  | _ => []

/-- The type of a parameter; dots stand for the type of a variadic one. -/
def paramType (p : Tree) : List String :=
  if p.isKind .param then TypeRef.written (p.part 3) else Token.lexemes (p.part 3).tokens

/-- The members of a parameter list. -/
def members (sig : Tree) : List Tree := Tree.members (sig.part 4).parts

/-- The types of the parameters and of the result, where there are any. -/
def types (sig : Tree) : List Tree :=
  ((members sig).filter (Tree.isKind .param)).map (Tree.part 3)
    ++ (if (sig.part 5).isAbsent then [] else [(sig.part 5).part 1])

/-- What a signature declares as it is written. -/
def ofTree (sig : Tree) : Signature :=
  { qualifiers := Token.lexemes (sig.part 0).tokens
    name := (sig.part 2).word
    generics := Token.lexemes (sig.part 3).tokens
    receiver := ((members sig).head?.map receiverType).getD []
    params := ((members sig).filter fun p => !p.isKind .receiver).map paramType
    result :=
      if (sig.part 5).isAbsent || TypeRef.ofTree ((sig.part 5).part 1) = .unit then none
      else some (TypeRef.written ((sig.part 5).part 1))
    bounds := Token.lexemes (sig.part 6).tokens }

/-- What the function declares that a method becomes. -/
def ofMethod (m : MethodDecl) : Signature :=
  { qualifiers := []
    name := m.name
    generics := []
    receiver := ["&", "Self"]
    params := m.params.map fun p => p.type.emitted
    result := if m.returns = .unit then none else some m.returns.emitted
    bounds := [] }

/-- The words and signs of a signature with names for its parameters. -/
def lexemes (names : List String) (s : Signature) : List String :=
  s.qualifiers ++ "fn" :: s.name :: (s.generics
    ++ "(" :: ((if s.receiver = ["&", "Self"] then ["&", "self"] else "self" :: ":" :: s.receiver)
    ++ ((names.zip s.params).flatMap fun p => "," :: p.1 :: ":" :: p.2)
    ++ ")" :: ((match s.result with
      | some type => "-" :: ">" :: type
      | none => [])
    ++ s.bounds)))

/-- The signature has nothing that a method does not know. -/
structure Preserved (sig : Tree) : Prop where
  qualifiers : (sig.part 0).tokens = []
  generics : (sig.part 3).tokens = []
  receiver : (members sig).head?.map receiverType = some ["&", "Self"]
  params : ∀ p ∈ members sig, p.isKind .receiver = false → p.isKind .param = true
  types : ∀ t ∈ types sig, TypeRef.Kept t
  bounds : (sig.part 6).tokens = []

theorem params_method (sig : Tree) (file : Option String) (metadata : MethodMeta) :
    (InterfaceDecl.method sig file metadata).params.map (fun p => p.type.emitted)
      = ((members sig).filter (Tree.isKind .param)).map
        fun p => (TypeRef.ofTree (p.part 3)).emitted := by
  have hzip (ps : List Tree) (n : Nat) : (ps.zipIdx n).map
      (fun p => (InterfaceDecl.param p).type.emitted)
        = ps.map fun p => (TypeRef.ofTree (p.part 3)).emitted := by
    induction ps generalizing n with
    | nil => rfl
    | cons p ps ih => rw [List.zipIdx_cons, List.map_cons, List.map_cons, ih]; rfl
  rw [InterfaceDecl.method, List.map_map]
  exact hzip _ 0

/-- The parameters are given as they were written if no other sort of parameter is among them. -/
theorem params_iff (ps : List Tree) :
    (ps.filter (Tree.isKind .param)).map (fun p => (TypeRef.ofTree (p.part 3)).emitted)
        = (ps.filter fun p => !p.isKind .receiver).map paramType ↔
      (∀ p ∈ ps, p.isKind .receiver = false → p.isKind .param = true) ∧
        ∀ p ∈ ps, p.isKind .param = true → TypeRef.Kept (p.part 3) := by
  have hkinds (p : Tree) (h : p.isKind .param = true) : p.isKind .receiver = false := by
    rw [Tree.isKind, beq_iff_eq] at h
    rw [Tree.isKind, h]
    rfl
  induction ps with
  | nil => simp
  | cons p ps ih =>
    by_cases hparam : p.isKind .param = true
    · have hreceiver := hkinds p hparam
      simp only [List.filter_cons, hparam, hreceiver, Bool.not_false, if_true, List.map_cons,
        List.cons.injEq, ih, paramType, List.forall_mem_cons, forall_const, TypeRef.Kept]
      tauto
    · rw [Bool.not_eq_true] at hparam
      by_cases hreceiver : p.isKind .receiver = true
      · simp [hparam, hreceiver, ih]
      · -- a parameter of another sort, of which a method has no counterpart
        rw [Bool.not_eq_true] at hreceiver
        have hsub : (ps.filter (Tree.isKind .param)).Sublist
            (ps.filter fun p => !p.isKind .receiver) :=
          List.monotone_filter_right ps fun q hq => by rw [hkinds q hq]; rfl
        have hlength := hsub.length_le
        constructor
        · intro h
          have := congrArg List.length h
          simp [hparam, hreceiver] at this
          omega
        · rintro ⟨h, -⟩
          exact absurd (h p List.mem_cons_self hreceiver) (Bool.eq_false_iff.1 hparam)

/-- A method becomes a function with the signature it was written with exactly when that signature
has nothing that a method does not know. -/
theorem ofMethod_eq_ofTree_iff (sig : Tree) (file : Option String) (metadata : MethodMeta) :
    ofMethod (InterfaceDecl.method sig file metadata) = ofTree sig ↔ Preserved sig := by
  have hreturns : (InterfaceDecl.method sig file metadata).returns
      = if (sig.part 5).isAbsent then .unit else TypeRef.ofTree ((sig.part 5).part 1) := rfl
  have hresult : (ofMethod (InterfaceDecl.method sig file metadata)).result = (ofTree sig).result
      ↔ ((sig.part 5).isAbsent = false → TypeRef.Kept ((sig.part 5).part 1)) := by
    rw [ofMethod, ofTree, hreturns]
    dsimp only
    cases (sig.part 5).isAbsent with
    | true => simp
    | false =>
      by_cases hunit : TypeRef.ofTree ((sig.part 5).part 1) = .unit
      · simp [hunit, TypeRef.kept_unit hunit]
      · simp [hunit, TypeRef.Kept]
  have hreceiver : ["&", "Self"] = ((members sig).head?.map receiverType).getD []
      ↔ (members sig).head?.map receiverType = some ["&", "Self"] := by
    cases (members sig).head?.map receiverType with
    | none => simp
    | some type => simp [eq_comm]
  have hparams := (params_method sig file metadata).congr_left.trans (params_iff (members sig))
  have hnil (ts : List Token) : [] = Token.lexemes ts ↔ ts = [] :=
    eq_comm.trans TypeRef.lexemes_eq_nil
  have htypes : (∀ t ∈ types sig, TypeRef.Kept t) ↔
      (∀ p ∈ members sig, p.isKind .param = true → TypeRef.Kept (p.part 3)) ∧
        ((sig.part 5).isAbsent = false → TypeRef.Kept ((sig.part 5).part 1)) := by
    rw [types, List.forall_mem_append, List.forall_mem_map]
    simp only [List.mem_filter, and_imp]
    cases (sig.part 5).isAbsent <;> simp
  constructor
  · intro h
    have hqualifiers := congrArg Signature.qualifiers h
    have hgenerics := congrArg Signature.generics h
    have hbounds := congrArg Signature.bounds h
    obtain ⟨hothers, hkept⟩ := hparams.1 (congrArg Signature.params h)
    exact
      { qualifiers := (hnil _).1 hqualifiers
        generics := (hnil _).1 hgenerics
        receiver := hreceiver.1 (congrArg Signature.receiver h)
        params := hothers
        types := htypes.2 ⟨hkept, hresult.1 (congrArg Signature.result h)⟩
        bounds := (hnil _).1 hbounds }
  · rintro ⟨hqualifiers, hgenerics, hobject, hothers, hkept, hbounds⟩
    obtain ⟨hkept, hvalue⟩ := htypes.1 hkept
    rw [ofMethod, ofTree, Signature.mk.injEq]
    exact ⟨(hnil _).2 hqualifiers, rfl, (hnil _).2 hgenerics, hreceiver.2 hobject,
      hparams.2 ⟨hothers, hkept⟩, hresult.2 hvalue, (hnil _).2 hbounds⟩

end Signature

/-! ## Generated signatures -/

namespace Emit

theorem piece_identifier {s : String} (h : isIdentifier s = true) :
    Token.piece s = [Token.name s] := by
  obtain ⟨c, cs, hlist, hc⟩ : ∃ c cs, s.toList = c :: cs ∧ Text.isIdentStart c = true := by
    rcases Lexer.isIdentifier_cases h with ⟨c, cs, hlist, hc, -⟩ | ⟨c, cs, hlist, -⟩
    · exact ⟨c, cs, hlist, hc⟩
    · exact ⟨_, _, hlist, by decide⟩
  have hquote : c ≠ '"' := by
    rintro rfl
    revert hc
    decide
  have hdigit := Lexer.isAsciiDigit_of_isIdentStart hc
  rw [Token.piece, hlist]
  dsimp only
  rw [if_neg (by simp [hquote, hdigit]), if_pos hc]

theorem lexemes_code_cons (s : String) (pieces : List String) :
    Token.lexemes (Token.code (s :: pieces))
      = Token.lexemes (Token.piece s) ++ Token.lexemes (Token.code pieces) := by
  rw [Token.code, List.flatMap_cons, Token.lexemes_append]
  rfl

theorem lexemes_arguments (args : List (List Token)) :
    Token.lexemes (Token.arguments args)
      = "(" :: (Token.lexemes (Token.separate (Token.operator ",") args) ++ [")"]) := by
  rw [Token.arguments, Token.delimited, Token.lexemes_cons, Token.lexemes_nil, Token.lexemesOf,
    List.append_nil]
  rfl

theorem lexemes_identifier {s : String} (h : isIdentifier s = true) :
    Token.lexemes (Token.piece s) = [s] := by
  rw [piece_identifier h]
  rfl

end Emit

theorem TypeRef.emitted_selfReference : TypeRef.selfReference.emitted = ["&", "Self"] := by
  have hnamed : TypeRef.selfReference.Named := by
    rw [selfReference, Named, named, Named, NamedAll]
    exact ⟨⟨Lexer.isWord_of_head rfl (by decide) (by decide), .inr (.inl rfl)⟩, trivial⟩
  rw [emitted_named hnamed, selfReference, lexemes, named, lexemes, lexemesArgs]
  rfl

namespace Emit

variable {serializer : Option String} {interface : String} {m : MethodDecl} {s : AccessorSpec}
  {t : Target} {g : GeneratedMethod}

theorem lexemes_fn {name : String} (h : isIdentifier name = true) :
    Token.lexemes (Token.code ["fn", name]) = ["fn", name] := by
  rw [lexemes_code_cons, lexemes_code_cons, lexemes_identifier h]
  exact congrArg (· ++ ([name] ++ [])) (by decide : Token.lexemes (Token.piece "fn") = ["fn"])

theorem lexemes_typed {name : String} (h : isIdentifier name = true) :
    Token.lexemes (Token.code [name, ":"]) = [name, ":"] := by
  rw [lexemes_code_cons, lexemes_identifier h]
  exact congrArg (name :: ·) (by decide : Token.lexemes (Token.code [":"]) = [":"])

theorem lexemes_self : Token.lexemes (Token.code ["&", "self"]) = ["&", "self"] := by decide

theorem getter_signature (hs : AccessorSpec.ofMethod serializer interface m = .ok s)
    (hg : accessor s t = .ok g) (hrole : s.role = .getter) :
    Token.lexemes g.signature
      = (Signature.ofMethod m).lexemes (m.params.map Param.name) := by
  obtain ⟨hmethod, htype, -⟩ := AccessorSpec.ofMethod_fields hs
  rw [hrole] at hmethod htype
  obtain ⟨hparams, hreturns⟩ := MethodDecl.of_getter hmethod
  obtain ⟨hname, type, read, htokens, -, rfl⟩ := getter_eq_ok hrole hg
  have hemitted : m.returns.emitted = Token.lexemes type := by
    rw [TypeRef.emitted, show m.returns = s.type from htype.symm, htokens]
  have harrow : Token.lexemes (Token.code ["->"]) = ["-", ">"] := by decide
  simp only [Token.lexemes_append, lexemes_fn hname, lexemes_arguments, Token.separate,
    lexemes_self, harrow]
  simp [Signature.ofMethod, Signature.lexemes, hparams, hreturns, hemitted,
    (AccessorSpec.ofMethod_ok hs).2.1]

theorem putter_signature (hs : AccessorSpec.ofMethod serializer interface m = .ok s)
    (hg : accessor s t = .ok g) (hrole : s.role = .putter) :
    Token.lexemes g.signature
      = (Signature.ofMethod m).lexemes (m.params.map Param.name) := by
  obtain ⟨hmethod, htype, -⟩ := AccessorSpec.ofMethod_fields hs
  obtain ⟨hfluent, hparam⟩ := AccessorSpec.ofMethod_shape hs
  have hsame := (AccessorSpec.ofMethod_ok hs).2.1
  rw [hrole] at hmethod htype
  obtain ⟨p, hparams, hreturns⟩ := MethodDecl.of_putter hmethod
  obtain ⟨hname, hvalue, type, write, htokens, -, rfl⟩ := putter_eq_ok hrole hg
  have hemitted : p.type.emitted = Token.lexemes type := by
    have hvalued : p.type = s.type := by rw [htype, MethodDecl.valueType, hparams]
    rw [TypeRef.emitted, hvalued, htokens]
  have hpname : s.param.getD "value" = p.name := by
    rw [hparam hrole, hparams]
    rfl
  rw [hpname] at hvalue
  have hcomma : Token.lexemes (Token.operator ",") = [","] := by decide
  have hchained : Token.lexemes (Token.code ["->", "&", "Self"])
      = "-" :: ">" :: ["&", "Self"] := by decide
  simp only [Token.lexemes_append, lexemes_fn hname, lexemes_arguments, Token.separate,
    lexemes_self, hpname, lexemes_typed hvalue, hcomma]
  rcases hreturns with hunit | hchain
  · have hplain : s.isFluent = false := by simp [hfluent, hunit, TypeRef.selfReference]
    simp [Signature.ofMethod, Signature.lexemes, hparams, hsame, ← hemitted, hplain, hunit]
  · have hisFluent : s.isFluent = true := by simp [hfluent, hrole, hchain]
    have hne : TypeRef.selfReference ≠ .unit := by rintro ⟨⟩
    simp [Signature.ofMethod, Signature.lexemes, hparams, hsame, ← hemitted, hisFluent, hchained,
      hchain, hne, TypeRef.emitted_selfReference]

/-- The function that is generated for a method has the signature that the method knows. -/
theorem accessor_signature (hs : AccessorSpec.ofMethod serializer interface m = .ok s)
    (hg : accessor s t = .ok g) :
    Token.lexemes g.signature
      = (Signature.ofMethod m).lexemes (m.params.map Param.name) := by
  cases hrole : s.role with
  | getter => exact getter_signature hs hg hrole
  | putter => exact putter_signature hs hg hrole

end Emit

/-! ## Signatures of sources -/

/-- A source requires a function of an interface: the function has no body. -/
def SourceText.Requires (s : SourceText) (interface : String) (sig : Tree) : Prop :=
  ∃ trees item attrs body, readFile s.text = .ok trees ∧
    TypedSettings.Declares s.module (trees.drop 1) interface item ∧
    .node .traitFn [attrs, sig, body] ∈ Check.members item ∧ body.isKind .block = false

/-- A method of a source is read off a function that the source requires. -/
theorem SourceText.Declares.requires {s : SourceText} {d : InterfaceDecl} (h : s.Declares d)
    {m : MethodDecl} (hm : m ∈ d.methods) :
    ∃ sig metadata, s.Requires d.name sig ∧ m = InterfaceDecl.method sig s.file metadata := by
  obtain ⟨trees, item, resolve, htrees, hitem, hd⟩ := h
  rw [hd] at hm
  obtain ⟨attrs, sig, body, metadata, hmem, hbody, rfl⟩ := InterfaceDecl.mem_ofItem hm
  exact ⟨sig, metadata, ⟨trees, item, attrs, body, htrees, hitem, hmem, hbody⟩, rfl⟩

/-- The function that is generated for a method of a source has the name of the function that the
source requires, takes `&self`, and has the types that the method knows, as they are given again.
It declares the same function exactly when nothing of the signature was left out; a type made of
names is the same unless it was written with a lifetime on a reference or with colons in front of a
path. -/
theorem generated_signature_iff {sources : List SourceText} {ds : Declarations}
    (hds : Declarations.ofSources sources = .ok ds) {d : InterfaceDecl} (hd : d ∈ ds.interfaces)
    {m : MethodDecl} (hm : m ∈ d.methods) {serializer : Option String} {s : AccessorSpec}
    (hs : AccessorSpec.ofMethod serializer d.name m = .ok s) {t : Target} {g : GeneratedMethod}
    (hg : Emit.accessor s t = .ok g) :
    ∃ source ∈ sources, ∃ sig metadata, source.Requires d.name sig ∧
      m = InterfaceDecl.method sig source.file metadata ∧
      Token.lexemes g.signature
        = (Signature.ofMethod m).lexemes (m.params.map Param.name) ∧
      (Signature.ofMethod m = Signature.ofTree sig ↔ Signature.Preserved sig) ∧
      ∀ type ∈ Signature.types sig, (TypeRef.ofTree type).Named →
        (TypeRef.Kept type ↔ TypeRef.unabridged type = true) := by
  obtain ⟨source, hsource, hdeclares⟩ := Declarations.mem_ofSources hds hd
  obtain ⟨sig, metadata, hrequires, rfl⟩ := hdeclares.requires hm
  exact ⟨source, hsource, sig, metadata, hrequires, rfl, Emit.accessor_signature hs hg,
    Signature.ofMethod_eq_ofTree_iff sig source.file metadata,
    fun _ _ hnamed => TypeRef.kept_iff hnamed⟩

/-! An interface whose functions lose a lifetime, `async`, and generic parameters with their
bounds. -/

def abridgedSource : SourceText :=
  ⟨[], none, "trait Settings \x7b fn label(&self) -> Option<&'static str>;"
    ++ " fn set_label(&self, value: Option<&'static str>); async fn volume(&self) -> i32;"
    ++ " fn set_volume<T>(&self, value: i32) where T: Copy; \x7d"⟩

def abridgedTarget : Target := { serializer := some "prefs_api::serializer" }

/-- Every method of the declarations is an accessor that has an implementation. -/
def allGenerated (ds : Declarations) : Bool :=
  ds.interfaces.all fun d => d.methods.all fun m =>
    match AccessorSpec.ofMethod abridgedTarget.serializer d.name m with
    | .ok s => (Emit.accessor s abridgedTarget).isOk
    | .error _ => false

/-- No function of the items is generated with the signature that it was written with. -/
def noneKept (items : List Tree) : Bool :=
  items.all fun item => !item.isKind .itemMod && (Check.members item).all fun member =>
    Signature.ofMethod (InterfaceDecl.method (member.part 1) none {})
      ≠ Signature.ofTree (member.part 1)

theorem abridged_evaluated :
    (Declarations.ofSources [abridgedSource]).toOption.any (fun ds =>
      allGenerated ds && (ds.interfaces.flatMap InterfaceDecl.methods).length == 4) = true ∧
    (readFile abridgedSource.text).toOption.any (fun trees => noneKept (trees.drop 1)) = true := by
  decide +kernel

theorem abridged_required {interface : String} {sig : Tree}
    (h : abridgedSource.Requires interface sig) : ¬Signature.Preserved sig := by
  obtain ⟨trees, item, attrs, body, htrees, hitem, hmem, -⟩ := h
  have hnone := abridged_evaluated.2
  rw [htrees] at hnone
  have hnone : noneKept (trees.drop 1) = true := hnone
  rw [noneKept, List.all_eq_true] at hnone
  have hitem : item ∈ trees.drop 1 := by
    cases hitem with
    | here hmem _ => exact hmem
    | @inside _ _ outer _ _ hmem hkind _ =>
      have hmod := (Bool.and_eq_true_iff.1 (hnone outer hmem)).1
      rw [Tree.isKind, hkind] at hmod
      cases hmod
  have hall := (Bool.and_eq_true_iff.1 (hnone item hitem)).2
  rw [List.all_eq_true] at hall
  have hne := of_decide_eq_true (hall _ hmem)
  exact fun hpreserved =>
    hne ((Signature.ofMethod_eq_ofTree_iff sig none {}).2 hpreserved)

/-- Each of these functions is generated, and none is generated as it was written. -/
theorem generated_signature_iff_abridged :
    ∃ ds, Declarations.ofSources [abridgedSource] = .ok ds ∧
      (ds.interfaces.flatMap InterfaceDecl.methods).length = 4 ∧
      ∀ d ∈ ds.interfaces, ∀ m ∈ d.methods, ∃ s g,
        AccessorSpec.ofMethod abridgedTarget.serializer d.name m = .ok s ∧
        Emit.accessor s abridgedTarget = .ok g ∧
        ∃ sig metadata, abridgedSource.Requires d.name sig ∧
          m = InterfaceDecl.method sig none metadata ∧
          Token.lexemes g.signature
            = (Signature.ofMethod m).lexemes (m.params.map Param.name) ∧
          Signature.ofMethod m ≠ Signature.ofTree sig := by
  have hevaluated := abridged_evaluated.1
  obtain ⟨ds, hds⟩ : ∃ ds, Declarations.ofSources [abridgedSource] = .ok ds := by
    cases h : Declarations.ofSources [abridgedSource] with
    | ok ds => exact ⟨ds, rfl⟩
    | error e => rw [h] at hevaluated; cases hevaluated
  rw [hds] at hevaluated
  obtain ⟨hall, hlength⟩ := Bool.and_eq_true_iff.1 (show (_ && _) = true from hevaluated)
  refine ⟨ds, hds, beq_iff_eq.1 hlength, fun d hd m hm => ?_⟩
  rw [allGenerated, List.all_eq_true] at hall
  have hmethod := List.all_eq_true.1 (hall d hd) m hm
  cases hs : AccessorSpec.ofMethod abridgedTarget.serializer d.name m with
  | error problem =>
    rw [hs] at hmethod
    cases hmethod
  | ok s =>
    rw [hs] at hmethod
    obtain ⟨g, hg⟩ := exists_of_isOk hmethod
    obtain ⟨source, hsource, sig, metadata, hrequires, hm, hlexemes, hiff, -⟩ :=
      generated_signature_iff hds hd hm hs hg
    obtain rfl := List.mem_singleton.1 hsource
    exact ⟨s, g, rfl, hg, sig, metadata, hrequires, hm, hlexemes,
      fun h => abridged_required hrequires (hiff.1 h)⟩

end TypedSettings
