import TypedSettings.Proofs.Disk.Path
import TypedSettings.Proofs.Source.Parsing

/-!
Expressions that are literals. An expression is read from operands, trailers and operators; where a
literal comes out, a literal is all that was read.

* `expr_literal`: an expression that is a literal is one literal at the front.
-/

namespace TypedSettings.Source.Grammar

open TypedSettings.Source.Parser

variable {rules : Rules} {c c' : Cursor} {t : Tree}

/-- A tree that is no literal of its own. -/
def Compound (t : Tree) : Prop := t.isKind .literal = false

/-! ## Operands -/

theorem gives_verbatim {α : Type} (p : Parser α) : Gives Compound (verbatim p) := by
  unfold verbatim
  refine gives_orVerbatim ?_ fun _ => rfl
  exact gives_bind fun _ => gives_pure fun _ h => by cases h

theorem gives_closure (structs : Bool) : Gives Compound (closure rules structs) := by
  unfold closure
  repeat' first
    | with_reducible refine gives_ite ?_ ?_
    | with_reducible refine gives_bind fun _ => ?_
    | exact gives_pure rfl

theorem gives_rangeTail (start : Tree) (structs : Bool) :
    Gives Compound (rangeTail rules start structs) := by
  unfold rangeTail
  repeat' first
    | with_reducible refine gives_ite ?_ ?_
    | with_reducible refine gives_bind fun _ => ?_
    | with_reducible exact gives_fail
    | exact gives_pure rfl

theorem gives_loops (label : Tree) : Gives Compound (whileLoop rules label) ∧
    Gives Compound (forLoop rules label) ∧ Gives Compound (loop rules label) := by
  unfold whileLoop forLoop loop
  refine ⟨?_, ?_, ?_⟩
  all_goals
    repeat' first
      | with_reducible refine gives_bind fun _ => ?_
      | exact gives_pure rfl

/-- Where no literal is ahead, an operand is none. -/
theorem atom_literal {structs : Bool} (h : atom rules structs c = .ok (t, c')) :
    literal c = .ok (t, c') ∨ Compound t := by
  unfold atom at h
  simp only [peekLiteral, get_bind, peek_bind] at h
  by_cases hl : (Literal.read? c.rest).isSome
  · left
    rwa [if_pos hl] at h
  · right
    rw [if_neg hl] at h
    revert h
    suffices hg : Gives Compound _ from fun h => hg h
    unfold builtinCall pathExpr invocationAfter structAfter parenOrTuple breakExpr wordAndExpr
      become arrayOrRepeat letExpr ifExpr matchExpr labeled
    repeat' first
      | with_reducible refine gives_ite ?_ ?_
      | with_reducible refine gives_bind fun _ => ?_
      | with_reducible exact gives_fail
      | with_reducible exact gives_closure structs
      | with_reducible exact gives_rangeTail _ _
      | with_reducible exact gives_verbatim _
      | with_reducible exact (gives_loops _).1
      | with_reducible exact (gives_loops _).2.1
      | with_reducible exact (gives_loops _).2.2
      | exact gives_pure rfl
      | split

/-! ## Trailers -/

theorem indexFields_compound {e : Tree} {indexes : List Nat} (h : indexes ≠ []) :
    Compound (indexFields e indexes) := by
  obtain ⟨init, last, rfl⟩ := (List.eq_nil_or_concat indexes).resolve_left h
  rw [indexFields, List.concat_eq_append, List.foldl_concat]
  rfl

/-- A number after a point that leaves no point names an index. -/
theorem indexesAhead?_ne_nil {ts : List Token} {indexes : List Nat}
    (h : indexesAhead? ts = some (indexes, false)) : indexes ≠ [] := by
  rintro rfl
  unfold indexesAhead? at h
  split at h
  · next text _ _ =>
    unfold Literal.indexes? at h
    split at h
    · simp at h
    · obtain ⟨ns, hns, heq⟩ := Option.map_eq_some_iff.1 h
      obtain ⟨rfl, hleft⟩ := Prod.mk.inj heq
      rw [hleft, if_neg Bool.false_ne_true] at hns
      obtain ⟨piece, pieces, hsplit⟩ :=
        List.exists_cons_of_ne_nil (@Text.splitAtChar_ne_nil '.' text.toList)
      rw [hsplit] at hns
      simp [List.mapM_cons, Option.bind_eq_some_iff] at hns
    · cases h
  · cases h

theorem gives_namedTrailer (e dot : Tree) : Gives Compound (namedTrailer rules e dot) := by
  unfold namedTrailer
  repeat' first
    | with_reducible refine gives_ite ?_ ?_
    | with_reducible refine gives_bind fun _ => ?_
    | exact gives_pure rfl

theorem gives_afterPoint (e dot : Tree) : Gives Compound (afterPoint rules e dot) := by
  unfold afterPoint
  refine gives_bind fun cur => ?_
  split
  · exact gives_namedTrailer e dot
  · next indexes pointLeft hahead =>
    refine gives_bind fun _ => ?_
    cases pointLeft with
    | false => exact gives_pure (indexFields_compound (indexesAhead?_ne_nil hahead))
    | true =>
      refine gives_bind fun cur => ?_
      split
      · exact gives_bind fun _ => gives_pure (indexFields_compound (List.cons_ne_nil _ _))
      · exact gives_namedTrailer _ _

/-- Trailers leave what they follow, or make something else of it. -/
theorem trailers_literal {n : Nat} {first : Tree}
    (h : trailers.grow rules n first c = .ok (t, c')) : (t = first ∧ c' = c) ∨ Compound t := by
  induction n generalizing first c with
  | zero =>
    obtain ⟨rfl, rfl⟩ := run_pure_eq_ok.1 h
    exact .inl ⟨rfl, rfl⟩
  | succ n ih =>
    -- after a round that adds a trailer no literal is left
    have added {u : Tree} {c₁ : Cursor} (hrun : trailers.grow rules n u c₁ = .ok (t, c'))
        (hu : Compound u) : (t = first ∧ c' = c) ∨ Compound t := by
      rcases ih hrun with ⟨rfl, -⟩ | ht
      · exact .inr hu
      · exact .inr ht
    rw [trailers.grow, get_bind] at h
    split at h
    · obtain ⟨_, _, -, h⟩ := run_bind_eq_ok.1 h
      exact added h rfl
    · split at h
      · obtain ⟨dot, _, -, h⟩ := run_bind_eq_ok.1 h
        obtain ⟨u, _, hu, h⟩ := run_bind_eq_ok.1 h
        exact added h (gives_afterPoint _ _ hu)
      · split at h
        · obtain ⟨_, _, -, h⟩ := run_bind_eq_ok.1 h
          exact added h rfl
        · split at h
          · obtain ⟨_, _, -, h⟩ := run_bind_eq_ok.1 h
            exact added h rfl
          · obtain ⟨rfl, rfl⟩ := run_pure_eq_ok.1 h
            exact .inl ⟨rfl, rfl⟩

/-! ## Attributes and operators -/

/-- Without attributes nothing is taken. -/
theorem outerAttributes_nil {attrs : Tree} (h : outerAttributes rules c = .ok (attrs, c'))
    (hattrs : attrs.parts.isEmpty = true) : c' = c := by
  unfold outerAttributes at h
  obtain ⟨ts, c₁, hts, h⟩ := run_bind_eq_ok.1 h
  obtain ⟨rfl, rfl⟩ := run_pure_eq_ok.1 h
  have hnil : ts = [] := List.isEmpty_iff.1 hattrs
  subst hnil
  rcases repeating_cases hts with ⟨hstop, -⟩ | ⟨round, c₂, more, hround, hadded⟩
  · rw [peek_bind] at hstop
    split at hstop
    · exact (run_pure_eq_ok.1 hstop).2.symm
    · obtain ⟨t, c₃, -, hstop⟩ := run_bind_eq_ok.1 hstop
      cases (run_pure_eq_ok.1 hstop).1
  · -- a round that goes on adds an attribute
    obtain ⟨rfl, -⟩ := List.append_eq_nil_iff.1 hadded.symm
    rw [peek_bind] at hround
    split at hround
    · cases (run_pure_eq_ok.1 hround).1
    · obtain ⟨t, c₃, -, hround⟩ := run_bind_eq_ok.1 hround
      cases (run_pure_eq_ok.1 hround).1

theorem withAttributes_compound {attrs e : Tree} (h : Compound e) :
    Compound (withAttributes attrs e) := by
  unfold withAttributes
  split
  · exact h
  · rfl

/-- With attributes an expression is no literal. -/
theorem withAttributes_literal {attrs e : Tree}
    (h : (withAttributes attrs e).isKind .literal = true) :
    attrs.parts.isEmpty = true ∧ withAttributes attrs e = e := by
  unfold withAttributes at h ⊢
  split at h
  · next hcond =>
    rw [if_pos hcond]
    refine ⟨?_, rfl⟩
    rcases Bool.or_eq_true _ _ ▸ hcond with hempty | hverbatim
    · exact hempty
    · have hkind := (beq_iff_eq.1 h).symm.trans (beq_iff_eq.1 hverbatim)
      cases hkind
  · cases h

/-- Without an operator in front, a literal is all that is read. -/
theorem unary_literal {structs : Bool} (h : unary rules structs c = .ok (t, c'))
    (ht : t.isKind .literal = true) : literal c = .ok (t, c') := by
  unfold unary orVerbatim at h
  split at h
  · next u c₁ hu =>
    cases h
    unfold unary? at hu
    obtain ⟨attrs, c₂, hattrs, hu⟩ := run_bind_eq_ok.1 hu
    rw [get_bind] at hu
    have signed {p : Parser (Option Tree)} (hp : Gives (fun o => ∀ u, o = some u → Compound u) p)
        (hrun : p c₂ = .ok (some t, c')) : literal c = .ok (t, c') :=
      absurd ht (Bool.eq_false_iff.1 (hp hrun t rfl))
    have given {e : Tree} (he : Compound e) :
        Gives (fun o => ∀ u, o = some u → Compound u)
          (pure (some (withAttributes attrs e)) : Parser (Option Tree)) :=
      gives_pure fun u hu => Option.some.inj hu ▸ withAttributes_compound he
    dsimp only at hu
    split at hu
    · refine signed ?_ hu
      refine gives_bind fun _ => gives_bind fun _ => gives_bind fun _ => gives_ite ?_ ?_
      · exact gives_bind fun _ => gives_bind fun _ => gives_bind fun _ => given rfl
      · exact gives_bind fun _ => gives_bind fun _ => given rfl
    · split at hu
      · refine signed ?_ hu
        have operand (o : Parser Tree) := gives_bind (p := o) fun sign =>
          gives_bind (p := rules (.unary structs)) fun e => given (e := .node .unary [sign, e]) rfl
        exact gives_ite (operand _) (gives_ite (operand _) (operand _))
      · obtain ⟨first, c₃, hatom, hu⟩ := run_bind_eq_ok.1 hu
        obtain ⟨e, c₄, he, hu⟩ := run_bind_eq_ok.1 hu
        have hend : withAttributes attrs e = t ∧ c₄ = c' := by
          split at hu
          · cases (run_pure_eq_ok.1 hu).1
          · split at hu
            · obtain ⟨_, _, hfail, -⟩ := run_bind_eq_ok.1 hu
              cases hfail
            · obtain ⟨heq, rfl⟩ := run_pure_eq_ok.1 hu
              exact ⟨Option.some.inj heq, rfl⟩
        obtain ⟨rfl, rfl⟩ := hend
        obtain ⟨hempty, heq⟩ := withAttributes_literal ht
        rw [heq] at ht ⊢
        obtain rfl := outerAttributes_nil hattrs hempty
        unfold trailers at he
        rw [get_bind] at he
        rcases trailers_literal he with ⟨rfl, rfl⟩ | hcompound
        · exact (atom_literal hatom).resolve_right fun hc => absurd ht (Bool.eq_false_iff.1 hc)
        · exact absurd ht (Bool.eq_false_iff.1 hcompound)
  · cases h
    cases ht
  · cases h

/-- Operators leave what they follow, or make something else of it. -/
theorem exprFrom_literal {structs : Bool} {base n : Nat} {left : Tree}
    (h : exprFrom.grow rules structs base n left c = .ok (t, c')) :
    (t = left ∧ c' = c) ∨ Compound t := by
  induction n generalizing left c with
  | zero =>
    obtain ⟨rfl, rfl⟩ := run_pure_eq_ok.1 h
    exact .inl ⟨rfl, rfl⟩
  | succ n ih =>
    have added {u : Tree} {c₁ : Cursor}
        (hrun : exprFrom.grow rules structs base n u c₁ = .ok (t, c'))
        (hu : Compound u) : (t = left ∧ c' = c) ∨ Compound t := by
      rcases ih hrun with ⟨rfl, -⟩ | ht
      · exact .inr hu
      · exact .inr ht
    rw [exprFrom.grow] at h
    split at h
    · obtain ⟨rfl, rfl⟩ := run_pure_eq_ok.1 h
      exact .inl ⟨rfl, rfl⟩
    rw [get_bind] at h
    cases hop : operatorAhead? c.rest with
    | some op =>
      obtain ⟨signs, strength⟩ := op
      simp only [hop] at h
      split at h
      · obtain ⟨rfl, rfl⟩ := run_pure_eq_ok.1 h
        exact .inl ⟨rfl, rfl⟩
      · split at h
        · cases h
        · obtain ⟨_, _, -, h⟩ := run_bind_eq_ok.1 h
          obtain ⟨_, _, -, h⟩ := run_bind_eq_ok.1 h
          exact added h rfl
    | none =>
      simp only [hop] at h
      split at h
      · obtain ⟨_, _, -, h⟩ := run_bind_eq_ok.1 h
        obtain ⟨_, _, -, h⟩ := run_bind_eq_ok.1 h
        exact added h rfl
      · split at h
        · obtain ⟨_, _, hrange, h⟩ := run_bind_eq_ok.1 h
          exact added h (gives_rangeTail left structs hrange)
        · split at h
          · obtain ⟨_, _, -, h⟩ := run_bind_eq_ok.1 h
            obtain ⟨_, _, -, h⟩ := run_bind_eq_ok.1 h
            obtain ⟨_, _, -, h⟩ := run_bind_eq_ok.1 h
            split at h
            · obtain ⟨_, _, hfail, -⟩ := run_bind_eq_ok.1 h
              cases hfail
            · exact added h rfl
          · obtain ⟨rfl, rfl⟩ := run_pure_eq_ok.1 h
            exact .inl ⟨rfl, rfl⟩

/-- An expression that is a literal is one literal at the front. -/
theorem expr_literal {depth : Nat} {structs : Bool}
    (h : toDepth depth (.expr structs) c = .ok (t, c')) (ht : t.isKind .literal = true) :
    literal c = .ok (t, c') := by
  match depth with
  | 0 => cases h
  | 1 =>
    obtain ⟨_, _, hfirst, -⟩ := run_bind_eq_ok.1 h
    cases hfirst
  | depth + 2 =>
    obtain ⟨first, c₁, hfirst, h⟩ := run_bind_eq_ok.1 h
    have hfrom : exprFrom (toDepth depth) first structs Strength.lowest c₁ = .ok (t, c') := h
    unfold exprFrom at hfrom
    rw [get_bind] at hfrom
    rcases exprFrom_literal hfrom with ⟨rfl, rfl⟩ | hcompound
    · exact unary_literal hfirst ht
    · exact absurd ht (Bool.eq_false_iff.1 hcompound)

end TypedSettings.Source.Grammar
