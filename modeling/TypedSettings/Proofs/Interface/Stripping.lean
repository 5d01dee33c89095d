import TypedSettings.Proofs.Interface.Spelling
import TypedSettings.Proofs.Interface.Arguments
import TypedSettings.Proofs.Source.Names

/-!
What the check of an interface gives back. Every annotation of a method is looked at, in the order
in which they are written: when all are sound the interface is given back with these annotations cut
out and nothing else, and otherwise nothing but one fault for each unsound annotation.

* `Cut`: what stays of a list when pieces are cut out of it.
* `cut_stripItem`: the annotations of methods, and nothing else, are cut out of an interface.
* `forall₂_faults`: the faults are those of the annotations, one by one.
-/

namespace TypedSettings

open Source Source.Parser Source.Grammar

/-! ## Pieces cut out of a list -/

section

variable {α : Type} {cs cs' : List (List α)} {ts ts' us us' : List α}

/-- When the pieces `cs` are cut out of a list, one after the other, what is left stays as it is and
in its order. -/
inductive Cut : (cs : List (List α)) → (whole rest : List α) → Prop
  | done : Cut [] [] []
  | keep {cs : List (List α)} {ts us : List α} (t : α) : Cut cs ts us → Cut cs (t :: ts) (t :: us)
  | drop {cs : List (List α)} {ts us : List α} (c : List α) : Cut cs ts us →
      Cut (c :: cs) (c ++ ts) us

theorem cut_self (ts : List α) : Cut [] ts ts := by
  induction ts with
  | nil => exact .done
  | cons t ts ih => exact .keep t ih

theorem Cut.append (h : Cut cs ts us) (h' : Cut cs' ts' us') :
    Cut (cs ++ cs') (ts ++ ts') (us ++ us') := by
  induction h with
  | done => exact h'
  | keep t _ ih => exact .keep t ih
  | drop c _ ih =>
    rw [List.append_assoc]
    exact .drop c ih

theorem Cut.within (before after : List α) (h : Cut cs ts us) :
    Cut cs (before ++ (ts ++ after)) (before ++ (us ++ after)) := by
  have := (cut_self before).append (h.append (cut_self after))
  rwa [List.append_nil, List.nil_append] at this

/-- Every member of a list is cut by itself. -/
theorem cut_flatMap {β : Type} {pieces : β → List (List α)} {whole rest : β → List α} {bs : List β}
    (h : ∀ b ∈ bs, Cut (pieces b) (whole b) (rest b)) :
    Cut (bs.flatMap pieces) (bs.flatMap whole) (bs.flatMap rest) := by
  induction bs with
  | nil => exact .done
  | cons b bs ih =>
    rw [List.flatMap_cons, List.flatMap_cons, List.flatMap_cons]
    exact (h b List.mem_cons_self).append (ih fun b hb => h b (List.mem_cons_of_mem _ hb))

end

namespace Source

/-! ## Trees can be compared -/

mutual

def Token.decEq : (t u : Token) → Decidable (t = u)
  | .word w p, u => match u with
    | .word w' p' => decidable_of_iff (w = w' ∧ p = p') (by simp)
    | .sign .. | .literal .. | .group .. => isFalse nofun
  | .sign c joint p, u => match u with
    | .sign c' joint' p' => decidable_of_iff (c = c' ∧ joint = joint' ∧ p = p') (by simp)
    | .word .. | .literal .. | .group .. => isFalse nofun
  | .literal w p, u => match u with
    | .literal w' p' => decidable_of_iff (w = w' ∧ p = p') (by simp)
    | .word .. | .sign .. | .group .. => isFalse nofun
  | .group d body p close, u => match u with
    | .group d' body' p' close' =>
      have := Token.decEqAll body body'
      decidable_of_iff (d = d' ∧ body = body' ∧ p = p' ∧ close = close') (by simp)
    | .word .. | .sign .. | .literal .. => isFalse nofun

def Token.decEqAll : (ts us : List Token) → Decidable (ts = us)
  | [], [] => isTrue rfl
  | [], _ :: _ | _ :: _, [] => isFalse nofun
  | t :: ts, u :: us =>
    have := Token.decEq t u
    have := Token.decEqAll ts us
    decidable_of_iff (t = u ∧ ts = us) (by simp)

end

instance : DecidableEq Token := Token.decEq

mutual

def Tree.decEq : (t u : Tree) → Decidable (t = u)
  | .run ts, u => match u with
    | .run us => decidable_of_iff (ts = us) (by simp)
    | .group .. | .node .. => isFalse nofun
  | .group d body p close, u => match u with
    | .group d' body' p' close' =>
      have := Tree.decEqAll body body'
      decidable_of_iff (d = d' ∧ body = body' ∧ p = p' ∧ close = close') (by simp)
    | .run .. | .node .. => isFalse nofun
  | .node kind parts, u => match u with
    | .node kind' parts' =>
      have := Tree.decEqAll parts parts'
      decidable_of_iff (kind = kind' ∧ parts = parts') (by simp)
    | .run .. | .group .. => isFalse nofun

def Tree.decEqAll : (ts us : List Tree) → Decidable (ts = us)
  | [], [] => isTrue rfl
  | [], _ :: _ | _ :: _, [] => isFalse nofun
  | t :: ts, u :: us =>
    have := Tree.decEq t u
    have := Tree.decEqAll ts us
    decidable_of_iff (t = u ∧ ts = us) (by simp)

end

instance : DecidableEq Tree := Tree.decEq

end Source

namespace Source.Tree

@[simp] theorem parts_node (k : Kind) (ts : List Tree) : (node k ts).parts = ts := rfl

/-- What a tree says, without the places of its tokens. -/
def lexemes (t : Tree) : List String := Token.lexemes t.tokens

theorem lexemes_tokensAll (ts : List Tree) :
    Token.lexemes (tokensAll ts) = ts.flatMap lexemes := by
  induction ts with
  | nil => rfl
  | cons t ts ih => rw [tokensAll, Token.lexemes_append, ih, List.flatMap_cons, lexemes]

@[simp] theorem lexemes_node (k : Kind) (ts : List Tree) :
    lexemes (.node k ts) = ts.flatMap lexemes := by
  rw [lexemes, tokens, lexemes_tokensAll]

@[simp] theorem lexemes_group (d : Delimiter) (ts : List Tree) (pos close : Position) :
    lexemes (.group d ts pos close) = d.opening :: (ts.flatMap lexemes ++ [d.closing]) := by
  rw [lexemes, tokens, Token.lexemes_cons, Token.lexemesOf, lexemes_tokensAll, Token.lexemes_nil,
    List.append_nil]

end Source.Tree

namespace Check

/-! ## The annotations of an interface -/

/-- Whether an annotation is sound. -/
def sound (attr : Tree) : Bool := (ArgReader.ofAttribute (MethodArg.read true) attr).isOk

/-- The annotation is refused for the fault. -/
def Refuses (attr : Tree) (fault : Fault) : Prop :=
  ∃ reason pos, ArgReader.ofAttribute (MethodArg.read true) attr = .error (reason, pos) ∧
    fault = .argument reason

/-- The annotations of a member, those in front of it and then those in its braces. -/
def memberMarks : Tree → List Tree
  | .node .traitFn [attrs, _, body] => (attrs.parts ++ (bodyAttributes body).parts).filter isMark
  | _ => []

/-- The annotations of the methods of an interface, in the order in which they are written. -/
def marks (item : Tree) : List Tree := (members item).flatMap memberMarks

theorem forall₂_markFaults (attrs : List Tree) :
    List.Forall₂ Refuses ((attrs.filter isMark).filter fun attr => !sound attr)
      (markFaults attrs) := by
  unfold markFaults
  induction attrs.filter isMark with
  | nil => exact .nil
  | cons attr attrs ih =>
    cases h : ArgReader.ofAttribute (MethodArg.read true) attr with
    | ok args =>
      rw [List.filter_cons_of_neg (by simp [sound, h, Except.isOk, Except.toBool]),
        List.filterMap_cons_none (by simp only [h])]
      exact ih
    | error e =>
      rw [List.filter_cons_of_pos (by simp [sound, h, Except.isOk, Except.toBool]),
        List.filterMap_cons_some (b := .argument e.1) (by simp only [h])]
      exact .cons ⟨e.1, e.2, h, rfl⟩ ih

/-- Each unsound annotation of a member has its fault. -/
theorem forall₂_memberFaults (m : Tree) :
    List.Forall₂ Refuses ((memberMarks m).filter fun attr => !sound attr) (memberFaults m) := by
  unfold memberMarks
  split
  · exact forall₂_markFaults _
  · next hnot =>
    have hnone : memberFaults m = [] := by
      unfold memberFaults
      split
      · exact absurd rfl (hnot _ _ _)
      · rfl
    rw [hnone]
    exact .nil

theorem forall₂_faults (ms : List Tree) : List.Forall₂ Refuses
    ((ms.flatMap memberMarks).filter fun attr => !sound attr) (ms.flatMap memberFaults) := by
  induction ms with
  | nil => exact .nil
  | cons m ms ih =>
    rw [List.flatMap_cons, List.flatMap_cons, List.filter_append]
    exact List.rel_append (forall₂_memberFaults m) ih

/-! ## The shape of what is read -/

/-- What a member of an interface may be: its attributes stand where the check looks for them. -/
inductive Regular : Tree → Prop
  | bodiless {attrs : List Tree} {sig body : Tree} : body.isKind .block = false →
      Regular (.node .traitFn [.node .attributes attrs, sig, body])
  | provided {attrs inner stmts : List Tree} {sig : Tree} {pos close : Position} :
      Regular (.node .traitFn [.node .attributes attrs, sig,
        .node .block [.group .brace (.node .attributes inner :: stmts) pos close]])
  | other {m : Tree} : m.isKind .traitFn = false → Regular m

/-- The attributes of a block stand first in its braces. -/
def IsBlock (t : Tree) : Prop := ∃ inner stmts pos close,
  t = .node .block [.group .brace (.node .attributes inner :: stmts) pos close]

theorem regular_traitFn {attrs sig body : Tree} (hattrs : ∃ as, attrs = .node .attributes as)
    (hbody : body.isKind .block = false ∨ IsBlock body) :
    Regular (.node .traitFn [attrs, sig, body]) := by
  obtain ⟨as, rfl⟩ := hattrs
  rcases hbody with hnone | ⟨inner, stmts, pos, close, rfl⟩
  · exact .bodiless hnone
  · exact .provided

theorem Regular.of_unnamed {m : Tree} (h : Unnamed m) : Regular m := .other (h .traitFn (by decide))

theorem gives_group {d : Delimiter} {inner : Parser (List Tree)} {Q : List Tree → Prop}
    (h : Gives Q inner) :
    Gives (fun t => ∃ ts pos close, t = .group d ts pos close ∧ Q ts) (group d inner) := by
  intro c t c' ht
  obtain ⟨ts, pos, close, rfl, c₁, c₂, hts⟩ := group_eq_ok ht
  exact ⟨ts, pos, close, rfl, h hts⟩

theorem gives_manyUntil {stop : List Token → Bool} {member : Parser Tree} {Q : Tree → Prop}
    (h : Gives Q member) : Gives (fun ts => ∀ t ∈ ts, Q t) (manyUntil stop member) := by
  have hfuel : ∀ fuel, Gives (fun ts => ∀ t ∈ ts, Q t) (repeatFuel (do
      if ← peek stop then return none
      return some [← member]) fuel) := by
    intro fuel
    induction fuel with
    | zero => exact gives_pure nofun
    | succ fuel ih =>
      refine gives_seq (Q := fun o => ∀ ts, o = some ts → ∀ t ∈ ts, Q t) ?_ fun o ho => ?_
      · refine gives_bind fun _ => gives_ite (gives_pure nofun) (gives_seq h fun t ht => ?_)
        refine gives_pure fun ts hts u hu => ?_
        cases hts
        exact List.mem_singleton.1 hu ▸ ht
      · cases o with
        | none => exact gives_pure nofun
        | some ts =>
          refine gives_seq ih fun us hus => gives_pure fun t ht => ?_
          exact (List.mem_append.1 ht).elim (ho ts rfl t) (hus t)
  exact fun c ts c' hts => hfuel _ hts

variable {rules : Rules}

theorem gives_outerAttributes :
    Gives (fun t => ∃ attrs, t = .node .attributes attrs) (outerAttributes rules) :=
  gives_bind fun _ => gives_pure ⟨_, rfl⟩

theorem gives_innerAttributes :
    Gives (fun t => ∃ attrs, t = .node .attributes attrs) (innerAttributes rules) :=
  gives_bind fun _ => gives_pure ⟨_, rfl⟩

theorem gives_block (inner : Bool) : Gives IsBlock (block rules inner) := by
  have hinside : Gives (fun ts => ∃ as stmts, ts = .node .attributes as :: stmts) (do
      let attrs ← if inner then innerAttributes rules else pure (.node .attributes [])
      return attrs :: (← statements rules)) := by
    have hrest {attrs : Tree} (hattrs : ∃ as, attrs = .node .attributes as) :
        Gives (fun ts => ∃ as stmts, ts = Source.Tree.node .attributes as :: stmts) (do
          return attrs :: (← statements rules)) := by
      obtain ⟨as, rfl⟩ := hattrs
      exact gives_bind fun stmts => gives_pure ⟨as, stmts, rfl⟩
    refine gives_ite (gives_seq gives_innerAttributes fun attrs => hrest) ?_
    exact gives_seq (gives_pure ⟨[], rfl⟩) fun attrs => hrest
  refine gives_seq (gives_group hinside) fun body hbody => ?_
  obtain ⟨ts, pos, close, rfl, as, stmts, rfl⟩ := hbody
  exact gives_pure ⟨as, stmts, pos, close, rfl⟩

theorem gives_bodyOrSemi (hblock : Gives IsBlock (rules (.block true))) :
    Gives (fun t => t.isKind .block = false ∨ IsBlock t) (bodyOrSemi rules) := by
  refine gives_bind fun _ => gives_ite ?_ fun _ _ _ h => .inr (hblock h)
  intro c t c' h
  rw [(op_eq_ok.1 h).2.1]
  exact .inl rfl

theorem gives_traitMember? (hblock : Gives IsBlock (rules (.block true))) :
    Gives (IfSome Regular) (traitMember? rules) := by
  have hshown (plain : Bool) {o : Option Tree} (ho : IfSome Regular o) :
      Gives (IfSome Regular) (pure (if plain then o else none) : Parser (Option Tree)) := by
    cases plain
    · exact gives_pure ifSome_none
    · exact gives_pure ho
  unfold traitMember?
  refine gives_seq gives_outerAttributes fun attrs hattrs => ?_
  refine gives_bind fun vis => gives_bind fun default => gives_bind fun c => ?_
  dsimp only
  refine gives_ite ?_ (gives_ite ?_ (gives_ite ?_ (gives_ite ?_ ?_)))
  · refine gives_bind fun sig => gives_seq (gives_bodyOrSemi hblock) fun body hbody => ?_
    exact hshown _ (ifSome_some (regular_traitFn hattrs hbody))
  · exact gives_seq (gives_constItem? _ _ _) fun o ho =>
      hshown _ fun t ht => .of_unnamed (ho t ht)
  · exact gives_seq (gives_typeItem _ _ _ _) fun r hr =>
      hshown _ (ifSome_some (.of_unnamed hr))
  · exact gives_seq (gives_some (gives_callItem attrs false)) fun o ho =>
      hshown _ fun t ht => .of_unnamed (ho t ht)
  · exact gives_seq (Q := fun _ => False) nofun fun _ => False.elim

/-- An interface whose members are regular. -/
def IsInterface (t : Tree) : Prop :=
  ∃ attrs vis guard auto word name gens colon bounds where' inner items pos close,
    t = .node .itemTrait [attrs, vis, guard, auto, word, name, gens, colon, bounds, where',
      .group .brace (inner :: items) pos close] ∧ ∀ m ∈ items, Regular m

theorem gives_onlyTrait (hblock : Gives IsBlock (rules (.block true))) :
    Gives IsInterface (onlyTrait rules) := by
  have hmember : Gives Regular (orVerbatim (traitMember? rules)) :=
    gives_orVerbatim (gives_traitMember? hblock) fun _ => .other rfl
  have hbraced : Gives (fun t => ∃ inner items pos close,
      t = .group .brace (inner :: items) pos close ∧ ∀ m ∈ items, Regular m)
      (braced rules (orVerbatim (traitMember? rules))) := by
    have hinside : Gives (fun ts => ∃ inner items, ts = inner :: items ∧ ∀ m ∈ items, Regular m)
        (do
          let attrs ← innerAttributes rules
          return attrs :: (← manyUntil List.isEmpty (orVerbatim (traitMember? rules)))) :=
      gives_bind fun inner => gives_seq (gives_manyUntil hmember) fun items hitems =>
        gives_pure ⟨inner, items, rfl, hitems⟩
    intro c t c' ht
    obtain ⟨ts, pos, close, rfl, inner, items, rfl, hitems⟩ := gives_group hinside ht
    exact ⟨inner, items, pos, close, rfl, hitems⟩
  have htrait (attrs vis guard auto : Tree) :
      Gives (fun t => t.isKind .itemTrait = true → IsInterface t)
        (traitItem rules attrs vis guard auto) := by
    unfold traitItem
    refine gives_bind fun word => gives_bind fun name => gives_bind fun gens => ?_
    refine gives_bind fun alias' => gives_ite ?_ ?_
    · refine gives_bind fun eq => ?_
      dsimp only
      exact gives_bind fun _ => gives_bind fun _ => gives_bind fun _ => gives_pure nofun
    · refine gives_bind fun colon => ?_
      dsimp only
      have hrest (bounds : Tree) : Gives (fun t => t.isKind .itemTrait = true → IsInterface t) (do
          let where' ← whereClause rules
          let body ← braced rules (orVerbatim (traitMember? rules))
          return Source.Tree.node .itemTrait [attrs, vis, guard, auto, word, name, gens,
            if bounds.parts.isEmpty then .absent else colon, bounds, where', body]) := by
        refine gives_bind fun where' => gives_seq hbraced fun body hbody => gives_pure fun _ => ?_
        obtain ⟨inner, items, pos, close, rfl, hitems⟩ := hbody
        exact ⟨_, _, _, _, _, _, _, _, _, _, inner, items, pos, close, rfl, hitems⟩
      refine gives_ite ?_ ?_
      · exact gives_bind fun bounds => hrest bounds
      · exact gives_bind fun _ => gives_bind fun bounds => hrest bounds
  unfold onlyTrait
  refine gives_bind fun attrs => gives_bind fun vis => gives_bind fun guard => ?_
  refine gives_bind fun auto => gives_seq (htrait attrs vis guard auto) fun t ht => ?_
  split
  · next hkind => exact gives_pure (ht hkind)
  · exact gives_fail

theorem isInterface_of_readTokens {item : List Token} {tree : Tree}
    (h : readTokens onlyTrait item = .ok tree) : IsInterface tree := by
  obtain ⟨close, h⟩ := runAll_eq_ok.1 h
  refine gives_onlyTrait (fun c t c' ht => ?_) h
  generalize depthFor item = depth at ht
  cases depth with
  | zero => cases ht
  | succ depth => exact gives_block true ht

/-! ## What stays -/

theorem memberMarks_of_not_traitFn {m : Tree} (h : m.isKind .traitFn = false) :
    memberMarks m = [] ∧ stripMember m = m := by
  constructor
  · unfold memberMarks
    split
    · cases h
    · rfl
  · unfold stripMember
    split
    · cases h
    · rfl

theorem bodyAttributes_bodiless {body : Tree} (h : body.isKind .block = false) :
    (bodyAttributes body).parts = [] ∧ stripBody body = body := by
  constructor
  · rw [bodyAttributes, h]
    rfl
  · unfold stripBody
    split
    · cases h
    · rfl

/-- The annotations are cut out of a list of attributes. -/
theorem cut_withoutMarks (attrs : List Tree) :
    Cut ((attrs.filter isMark).map Tree.lexemes) (attrs.flatMap Tree.lexemes)
      ((attrs.filter fun attr => !isMark attr).flatMap Tree.lexemes) := by
  induction attrs with
  | nil => exact .done
  | cons attr attrs ih =>
    cases hmark : isMark attr with
    | true =>
      rw [List.filter_cons_of_pos hmark, List.filter_cons_of_neg (by rw [hmark]; nofun)]
      exact .drop _ ih
    | false =>
      rw [List.filter_cons_of_neg (by rw [hmark]; nofun),
        List.filter_cons_of_pos (by rw [hmark]; rfl)]
      exact (cut_self _).append ih

theorem cut_stripMember {m : Tree} (h : Regular m) :
    Cut ((memberMarks m).map Tree.lexemes) m.lexemes (stripMember m).lexemes := by
  cases h with
  | @bodiless attrs sig body hbody =>
    obtain ⟨hnone, hsame⟩ := bodyAttributes_bodiless hbody
    rw [memberMarks, stripMember, hnone, hsame, List.append_nil]
    simpa [withoutMarks] using (cut_withoutMarks attrs).append
      (cut_self (sig.lexemes ++ body.lexemes))
  | @provided attrs inner stmts sig pos close =>
    have hinner := (cut_withoutMarks inner).within [Delimiter.brace.opening]
      (stmts.flatMap Tree.lexemes ++ [Delimiter.brace.closing])
    simpa [memberMarks, stripMember, stripBody, bodyAttributes, withoutMarks, Tree.isKind,
      Tree.kind?, Tree.part, Tree.parts] using
      (cut_withoutMarks attrs).append ((cut_self sig.lexemes).append hinner)
  | other h =>
    obtain ⟨hnone, hsame⟩ := memberMarks_of_not_traitFn h
    rw [hnone, hsame]
    exact cut_self _

/-- The annotations of methods, and nothing else, are cut out of an interface. -/
theorem cut_stripItem {tree : Tree} (h : IsInterface tree) :
    Cut ((marks tree).map Tree.lexemes) tree.lexemes (stripItem tree).lexemes := by
  obtain ⟨attrs, vis, guard, auto, word, name, gens, colon, bounds, where', inner, items, pos, close,
    rfl, hitems⟩ := h
  have hwhole (ms : List Tree) : Tree.lexemes (.node .itemTrait [attrs, vis, guard, auto, word, name,
      gens, colon, bounds, where', .group .brace (inner :: ms) pos close]) =
      ([attrs, vis, guard, auto, word, name, gens, colon, bounds, where'].flatMap Tree.lexemes
        ++ Delimiter.brace.opening :: inner.lexemes)
      ++ (ms.flatMap Tree.lexemes ++ [Delimiter.brace.closing]) := by simp
  have hmarks : (marks (.node .itemTrait [attrs, vis, guard, auto, word, name, gens, colon, bounds,
      where', .group .brace (inner :: items) pos close])).map Tree.lexemes =
      items.flatMap fun m => (memberMarks m).map Tree.lexemes := List.map_flatMap
  rw [hmarks, stripItem, hwhole, hwhole, List.flatMap_map]
  exact (cut_flatMap fun m hm => cut_stripMember (hitems m hm)).within _ _

/-- A member without its annotations has none. -/
theorem stripMember_stripMember {m : Tree} (h : Regular m) :
    memberMarks (stripMember m) = [] ∧ stripMember (stripMember m) = stripMember m := by
  cases h with
  | @bodiless attrs sig body hbody =>
    obtain ⟨hnone, hsame⟩ := bodyAttributes_bodiless hbody
    simp [stripMember, memberMarks, withoutMarks, hsame, hnone]
  | @provided attrs inner stmts sig pos close =>
    simp [stripMember, memberMarks, stripBody, bodyAttributes, withoutMarks, Tree.isKind,
      Tree.kind?, Tree.part, Tree.parts]
  | other h =>
    obtain ⟨hnone, hsame⟩ := memberMarks_of_not_traitFn h
    rw [hsame]
    exact ⟨hnone, hsame⟩

/-- An interface without the annotations of its methods has none. -/
theorem stripItem_stripItem {tree : Tree} (h : IsInterface tree) :
    marks (stripItem tree) = [] ∧ stripItem (stripItem tree) = stripItem tree := by
  obtain ⟨attrs, vis, guard, auto, word, name, gens, colon, bounds, where', inner, items, pos, close,
    rfl, hitems⟩ := h
  constructor
  · refine List.flatMap_eq_nil_iff.2 fun m' hm' => ?_
    obtain ⟨m, hm, rfl⟩ : ∃ m ∈ items, stripMember m = m' := List.mem_map.1 hm'
    exact (stripMember_stripMember (hitems m hm)).1
  · have hsame : (items.map stripMember).map stripMember = items.map stripMember := by
      rw [List.map_map]
      exact List.map_congr_left fun m hm => (stripMember_stripMember (hitems m hm)).2
    rw [stripItem, stripItem, hsame]

/-! ## Checks -/

/-- An interface with sound annotations is given back without them; any other is not given back. -/
theorem interface_eq {args item : List Token} {tree : Tree} {l : List StoreArg}
    (hargs : storeArgs args = .ok l) (htree : readTokens onlyTrait item = .ok tree) :
    ∃ faults, List.Forall₂ Refuses ((marks tree).filter fun attr => !sound attr) faults ∧
      interface args item =
        if faults = [] then ⟨[], (stripItem tree).tokens⟩ else ⟨faults, []⟩ := by
  refine ⟨_, forall₂_faults (members tree), ?_⟩
  unfold interface
  rw [hargs, htree]
  dsimp only
  split
  · next hnone => rw [hnone, if_pos rfl]
  · next hsome => rw [if_neg hsome]

/-- A method stays as it is, after the fault of its arguments if they are refused. -/
theorem method_eq (args item : List Token) : method args item =
    ⟨match ArgReader.list (MethodArg.read true) ⟨args, {}⟩ with
      | .ok _ => []
      | .error (reason, _) => [.argument reason], item⟩ := by
  rw [method]
  cases ArgReader.list (MethodArg.read true) ⟨args, {}⟩ <;> rfl

def dialItem : List Token :=
  (tokenize ("trait Dial \x7b #[pref(key = \"band\")] #[inline] fn band(&self) -> i32; "
    ++ "fn tone(&self) -> i32 \x7b #![pref(default = 3)] 3 \x7d \x7d")).toOption.getD []

def dialTree : Tree := (readTokens onlyTrait dialItem).toOption.getD .absent

def mutedItem : List Token :=
  (tokenize "trait Dial \x7b #[pref(key = \" \")] fn band(&self) -> i32; \x7d").toOption.getD []

def mutedTree : Tree := (readTokens onlyTrait mutedItem).toOption.getD .absent

theorem ok_of_toOption {ε α : Type} {e : Except ε α} {a : α} (h : e.toOption = some a) :
    e = .ok a := by
  cases e with
  | error e => cases h
  | ok b => exact congrArg Except.ok (Option.some.inj h)

theorem dial_evaluated :
    (readTokens onlyTrait dialItem).toOption = some dialTree ∧
    dialTree.lexemes = Token.lexemes dialItem ∧
    (readTokens onlyTrait (stripItem dialTree).tokens).toOption = some (stripItem dialTree) ∧
    (∀ attr ∈ marks dialTree, sound attr = true) ∧
    (marks dialTree).map Tree.lexemes = [["#", "[", "pref", "(", "key", "=", "\"band\"", ")", "]"],
      ["#", "!", "[", "pref", "(", "default", "=", "3", ")", "]"]] := by
  decide +kernel

theorem muted_evaluated :
    (readTokens onlyTrait mutedItem).toOption = some mutedTree ∧
    mutedTree.lexemes = Token.lexemes mutedItem ∧
    (readTokens onlyTrait (stripItem mutedTree).tokens).toOption = some (stripItem mutedTree) ∧
    ∃ attr ∈ marks mutedTree, sound attr = false := by
  decide +kernel

def openItem : List Token :=
  (tokenize "trait Dial \x7b #[pref(colour = \"red\")] pub fn band(&self) -> i32; \x7d")
    |>.toOption.getD []

/-- What stands between the last brackets of a text. -/
def lastBody (ts : List Token) : List Token :=
  match ts.getLast? with
  | some (.group _ body _ _) => body
  | _ => []

/-- A method with a visibility and without a body. -/
def openMethod (rules : Rules) : Parser (List Tree) := do
  return [← outerAttributes rules, ← visibility, ← signature rules false, ← op ";"]

end Check

end TypedSettings
