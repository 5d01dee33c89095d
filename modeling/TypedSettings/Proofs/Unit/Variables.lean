import TypedSettings.Proofs.Unit.Levels

/-!
The variables of a putter. Its parameter is named by the declaration, and the editor that its body
opens has a name of its own. The editor is declared later, so it hides a parameter of its name, and
what is written then is not what the caller passes. A plain and a raw spelling are one identifier.

* `writeStmt_writes`: every way to write a value reads one variable, the parameter.
* `written_putter`: what the body of a putter writes on any host.
* `putter_stores_argument_iff`: the names with which a parameter is written.
-/

namespace TypedSettings

open Source

namespace Emit

/-! ## Identifiers -/

/-- The word that a name spells. A raw name spells the word after its `r#`. -/
def plainWord (name : String) : String :=
  match name.toList with
  | 'r' :: '#' :: rest => String.ofList rest
  | _ => name

theorem plainWord_eq_iff {name word : String} (hword : plainWord word = word) :
    plainWord name = word ↔ name = word ∨ name = "r#" ++ word := by
  have hraw : plainWord ("r#" ++ word) = word := by
    rw [plainWord, String.toList_append]
    exact String.ofList_toList
  constructor
  · intro h
    unfold plainWord at h
    split at h
    · next rest hname =>
      refine .inr (String.toList_inj.1 ?_)
      have hrest : word.toList = rest := h ▸ String.toList_ofList
      rw [hname, String.toList_append, hrest]
      rfl
    · exact .inl h
  · rintro (rfl | rfl)
    · exact hword
    · exact hraw

end Emit

namespace Stmt

/-! ## Variables in scope -/

/-- What a variable of a putter stands for. -/
inductive Variable where
  /-- the value that the caller passes -/
  | argument
  /-- the editor that the body opened -/
  | editor
deriving DecidableEq, Repr

/-- The variables in scope by their words, the last declared first. -/
abbrev Variables := List (String × Variable)

/-- What a name stands for: the last variable that was declared with its word. -/
def Variables.meaning? (vs : Variables) (name : String) : Option Variable :=
  (vs.find? fun v => v.1 == Emit.plainWord name).map Prod.snd

/-- The variables that a statement declares for what follows it. -/
def declares : Stmt → Variables
  | openEditor => [(editor, .editor)]
  | _ => []

/-- The key that a statement writes, and the variable whose value it writes. -/
def write? : Stmt → Option (String × String)
  | put _ key param | putEncoded key param | putSerialized _ key param => some (key, param)
  | _ => none

/-- What statements write in order: keys, and what the variables stand for whose values they get. -/
def written (vs : Variables) : List Stmt → List (String × Option Variable)
  | [] => []
  | s :: rest =>
    (s.write?.map fun w => (w.1, vs.meaning? w.2)).toList ++ written (s.declares ++ vs) rest

/-- Statements that write nothing. -/
theorem written_eq_nil {body : List Stmt} (h : ∀ s ∈ body, s.write? = none) (vs : Variables) :
    written vs body = [] := by
  induction body generalizing vs with
  | nil => rfl
  | cons s rest ih =>
    rw [written, h s List.mem_cons_self, ih fun r hr => h r (List.mem_cons_of_mem _ hr)]
    rfl

/-- After the editor its name stands for it, and any other word for what it stood for before. -/
theorem meaning?_editor (vs : Variables) (name : String) :
    Variables.meaning? ((editor, .editor) :: vs) name
      = if Emit.plainWord name = editor then some .editor else vs.meaning? name := by
  rw [Variables.meaning?, List.find?_cons]
  by_cases hname : Emit.plainWord name = editor
  · rw [if_pos hname, hname, beq_self_eq_true]
    rfl
  · rw [if_neg hname, beq_eq_false_iff_ne.2 (Ne.symm hname)]
    rfl

end Stmt

namespace Emit

open Stmt

variable {t : Target} {s : AccessorSpec}

/-! ## What putters write -/

/-- A statement that runs on a host where code may ask for a gate. -/
theorem onHost_guarded (h : Host) (b : Bool) (g : Gate) (above below : Stmt)
    (habove : above.onHost h = [above]) (hbelow : below.onHost h = [below]) :
    (if b then Stmt.gate g [above] [below] else above).onHost h = [above] ∨
      (if b then Stmt.gate g [above] [below] else above).onHost h = [below] := by
  cases b with
  | false => exact .inl habove
  | true =>
    rw [if_pos rfl, onHost, onHostAll, onHostAll, onHostAll, onHostAll, habove, hbelow]
    split
    · exact .inl rfl
    · exact .inr rfl

/-- Whatever the kind of a value and wherever it runs, what writes it is one statement, which writes
the parameter under the accessor's key. -/
theorem writeStmt_writes {param : String} {write : Stmt} (h : writeStmt s t param = .ok write)
    (host : Host) : ∃ stmt, write.onHost host = [stmt] ∧ stmt.write? = some (s.key, param) ∧
      stmt.declares = [] := by
  unfold writeStmt at h
  split at h
  · have hwrite : write = if t.guards .stringSet
        then .gate .stringSet [.put .stringSet s.key param] [.putEncoded s.key param]
        else .put .stringSet s.key param := by
      split at h <;> cases h <;> next hg => simp [hg]
    rw [hwrite]
    rcases onHost_guarded host (t.guards .stringSet) .stringSet (.put .stringSet s.key param)
      (.putEncoded s.key param) rfl rfl with hrun | hrun
    · exact ⟨_, hrun, rfl, rfl⟩
    · exact ⟨_, hrun, rfl, rfl⟩
  · cases h
    exact ⟨_, rfl, rfl, rfl⟩
  · obtain ⟨serializer, -, h⟩ := bind_eq_ok.1 h
    cases h
    exact ⟨_, rfl, rfl, rfl⟩

/-- Publishing writes nothing. -/
theorem publish_writes (host : Host) : ∀ r ∈ (publish t).onHost host, r.write? = none := by
  rcases onHost_guarded host (t.guards .apply) .apply .apply .commit rfl rfl with hrun | hrun <;>
  · rw [publish, hrun]
    exact fun r hr => List.mem_singleton.1 hr ▸ rfl

/-- On any host the body of a putter writes its key once: with the editor where that hides the
parameter, and else with what the parameter stands for. -/
theorem written_putter {g : GeneratedMethod} (hrole : s.role = .putter)
    (h : accessor s t = .ok g) (host : Host) (vs : Variables) :
    written vs (onHostAll host g.body)
      = [(s.key, if plainWord (s.param.getD "value") = editor then some .editor
          else vs.meaning? (s.param.getD "value"))] := by
  obtain ⟨-, -, type, write, -, hwrite, rfl⟩ := putter_eq_ok hrole h
  obtain ⟨stmt, hrun, hwrites, hdeclares⟩ := writeStmt_writes hwrite host
  have hrest : ∀ r ∈ (publish t).onHost host ++ onHostAll host (if s.isFluent then [.self] else []),
      r.write? = none := by
    intro r hr
    rcases List.mem_append.1 hr with hr | hr
    · exact publish_writes host r hr
    · cases hfluent : s.isFluent with
      | false =>
        rw [hfluent] at hr
        cases hr
      | true =>
        rw [hfluent] at hr
        exact List.mem_singleton.1 hr ▸ rfl
  show written vs (.openEditor :: (write.onHost host ++ ((publish t).onHost host
    ++ onHostAll host (if s.isFluent then [.self] else [])))) = _
  rw [hrun, List.singleton_append, written, written, hwrites, hdeclares, written_eq_nil hrest,
    declares, List.singleton_append, Option.map_some, meaning?_editor]
  rfl

/-- A putter takes its value under the name that the declaration gives it, and opens its editor
first. On every host its body writes its key once, with the value that the caller passes, exactly
when that name is another identifier than the editor's; else it writes the editor. -/
theorem putter_stores_argument_iff {serializer : Option String} {interface : String}
    {m : MethodDecl} (hs : AccessorSpec.ofMethod serializer interface m = .ok s)
    (hrole : s.role = .putter) {g : GeneratedMethod} (hg : accessor s t = .ok g) :
    ∃ p type, m.params = [p] ∧ typeTokens p.type = .ok type ∧
      Token.code ["fn", m.name] ++ Token.arguments [Token.code ["&", "self"],
        Token.code [p.name, ":"] ++ type] <+: g.signature ∧
      g.body.head? = some .openEditor ∧
      (∀ host : Host, written [(plainWord p.name, .argument)] (onHostAll host g.body)
        = [(s.key, some (if plainWord p.name = editor then .editor else .argument))]) ∧
      ((∀ host : Host, written [(plainWord p.name, .argument)] (onHostAll host g.body)
        = [(s.key, some .argument)]) ↔
          p.name ≠ "__prefs_editor" ∧ p.name ≠ "r#__prefs_editor") := by
  obtain ⟨hmrole, htype, -⟩ := AccessorSpec.ofMethod_fields hs
  obtain ⟨-, hparam⟩ := AccessorSpec.ofMethod_shape hs
  rw [hrole] at hmrole
  obtain ⟨p, hparams, -⟩ := MethodDecl.of_putter hmrole
  have hname : s.param.getD "value" = p.name := by
    rw [hparam hrole, hparams]
    rfl
  have hvalue : s.type = p.type := by
    rw [htype, hrole, MethodDecl.valueType, hparams]
  obtain ⟨-, -, type, write, htokens, -, hmade⟩ := putter_eq_ok hrole hg
  rw [hname, (AccessorSpec.ofMethod_ok hs).2.1] at hmade
  have hown : Variables.meaning? [(plainWord p.name, Variable.argument)] p.name
      = some .argument := by
    simp [Variables.meaning?]
  have hwritten (host : Host) : written [(plainWord p.name, .argument)] (onHostAll host g.body)
      = [(s.key, some (if plainWord p.name = editor then .editor else .argument))] := by
    rw [written_putter hrole hg, hname, hown]
    split <;> rfl
  refine ⟨p, type, hparams, hvalue ▸ htokens, ?_, ?_, hwritten, ?_⟩
  · rw [hmade]
    exact List.prefix_append _ _
  · rw [hmade]
    rfl
  · have hnames : plainWord p.name = editor ↔
        p.name = "__prefs_editor" ∨ p.name = "r#__prefs_editor" :=
      plainWord_eq_iff (by decide +kernel)
    rw [← not_or, ← hnames]
    constructor
    · intro hall heq
      have hfirst := (hwritten {}).symm.trans (hall {})
      rw [if_pos heq] at hfirst
      cases hfirst
    · intro hne host
      rw [hwritten host, if_neg hne]

/-! A putter whose parameter has the editor's name, in its raw spelling. -/

def hiddenMethod : MethodDecl :=
  { name := "set_level", params := [⟨"r#__prefs_editor", .named "i32"⟩] }

theorem hidden_evaluated :
    (match AccessorSpec.ofMethod none "crate::Settings" hiddenMethod with
      | .ok s => s.role == .putter && s.key == "level" && (accessor s {}).isOk
      | .error _ => false) = true := by
  decide +kernel

theorem putter_stores_argument_iff_hidden : ∃ s g,
    AccessorSpec.ofMethod none "crate::Settings" hiddenMethod = .ok s ∧ s.role = .putter ∧
    accessor s {} = .ok g ∧
    ∀ host : Host, written [(plainWord "r#__prefs_editor", .argument)] (onHostAll host g.body)
      = [("level", some .editor)] := by
  have hevaluated := hidden_evaluated
  split at hevaluated
  · next s hs =>
    simp only [Bool.and_eq_true, beq_iff_eq] at hevaluated
    obtain ⟨⟨hrole, hkey⟩, hok⟩ := hevaluated
    obtain ⟨g, hg⟩ := exists_of_isOk hok
    obtain ⟨p, type, hparams, -, -, -, hwritten, -⟩ := putter_stores_argument_iff hs hrole hg
    obtain rfl : p = ⟨"r#__prefs_editor", .named "i32"⟩ := (List.cons.inj hparams).1.symm
    have hhides : plainWord "r#__prefs_editor" = editor := by decide +kernel
    refine ⟨s, g, hs, hrole, hg, fun host => ?_⟩
    rw [hwritten host, hkey, if_pos hhides]
  · cases hevaluated

end Emit

end TypedSettings
