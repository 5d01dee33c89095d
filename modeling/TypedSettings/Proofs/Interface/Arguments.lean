import TypedSettings.Interface.Check
import TypedSettings.Proofs.Source.Literals

/-!
Arguments of annotations are read twice: where they are written they are checked, and later they are
read with the interface. The check of a method's arguments asks for more than reading does, and the
check of an interface's arguments takes them apart in another way.

* `markFaults_eq_nil_iff`: the annotations of a method are sound where they are read and no key in
  them is blank.
* `list_of_storeArgs`: sound arguments of an interface are read as what they were taken for.
-/

namespace TypedSettings

open Source Source.Parser

variable {α : Type} {c c' : Cursor}

/-! ## Arguments one by one -/

namespace ArgReader

/-- A reader gives what another gives, where that is as `P` says. -/
def Restricts (p q : ArgReader α) (P : α → Prop) : Prop :=
  ∀ ⦃c a c'⦄, p c = .ok (a, c') ↔ q c = .ok (a, c') ∧ P a

variable {P : α → Prop}

theorem restricts_bind {β : Type} {p : ArgReader β} {f g : β → ArgReader α}
    (h : ∀ b, Restricts (f b) (g b) P) : Restricts (p >>= f) (p >>= g) P := by
  intro c a c'
  rw [run_bind_eq_ok, run_bind_eq_ok]
  constructor
  · rintro ⟨b, c₁, hb, hf⟩
    obtain ⟨hg, hP⟩ := (h b).1 hf
    exact ⟨⟨b, c₁, hb, hg⟩, hP⟩
  · rintro ⟨⟨b, c₁, hb, hg⟩, hP⟩
    exact ⟨b, c₁, hb, (h b).2 ⟨hg, hP⟩⟩

theorem restricts_self {p : ArgReader α} (h : Gives P p) : Restricts p p P := by
  intro c a c'
  exact ⟨fun hp => ⟨hp, h hp⟩, And.left⟩

theorem gives_fail (fault : ArgumentFault) (pos : Position) :
    Gives P (fail fault pos : ArgReader α) := by
  intro c a c' h
  cases h

/-- Sequences are restricted together, where what comes out tells what went in. -/
theorem restricts_seq {β : Type} {p q : ArgReader α} {f g : α → ArgReader β} {Q : β → Prop}
    (h : Restricts p q P) (hf : ∀ a, P a → Restricts (f a) (g a) Q)
    (hg : ∀ a, Gives (fun b => Q b → P a) (g a)) : Restricts (p >>= f) (q >>= g) Q := by
  intro c b c'
  rw [run_bind_eq_ok, run_bind_eq_ok]
  constructor
  · rintro ⟨a, c₁, ha, hb⟩
    obtain ⟨hq, hP⟩ := h.1 ha
    obtain ⟨hgb, hQ⟩ := (hf a hP).1 hb
    exact ⟨⟨a, c₁, hq, hgb⟩, hQ⟩
  · rintro ⟨⟨a, c₁, ha, hb⟩, hQ⟩
    have hP : P a := hg a hb hQ
    exact ⟨a, c₁, h.2 ⟨ha, hP⟩, (hf a hP).2 ⟨hb, hQ⟩⟩

theorem lift_of_ok {p : Parser α} {a : α} (h : p c = .ok (a, c')) : lift p c = .ok (a, c') := by
  unfold lift
  rw [h]

theorem atEnd_bind {β : Type} (f : Bool → ArgReader β) (c : Cursor) :
    (lift atEnd >>= f) c = f c.rest.isEmpty c := rfl

/-- Lists of arguments are restricted as their arguments are. -/
theorem restricts_listFuel {p q : ArgReader α} (h : Restricts p q P) (fuel : Nat) :
    Restricts (listFuel p fuel) (listFuel q fuel) (fun as => ∀ a ∈ as, P a) := by
  induction fuel with
  | zero => exact restricts_self (gives_pure fun a ha => by cases ha)
  | succ fuel ih =>
    have single {a : α} (ha : P a) :
        Gives (fun as => ∀ b ∈ as, P b) (pure [a] : ArgReader (List α)) :=
      gives_pure fun b hb => List.mem_singleton.1 hb ▸ ha
    have first {a : α} {as : List α} : (∀ b ∈ a :: as, P b) → P a :=
      fun hall => hall a List.mem_cons_self
    rw [listFuel, listFuel]
    refine restricts_seq h (fun a ha => ?_) fun a => ?_
    · refine restricts_bind fun atEnd => ?_
      cases atEnd with
      | true => exact restricts_self (single ha)
      | false =>
        refine restricts_bind fun _ => restricts_bind fun atEnd => ?_
        cases atEnd with
        | true => exact restricts_self (single ha)
        | false =>
          refine restricts_seq ih (fun as has => restricts_self (gives_pure ?_)) fun as =>
            gives_pure fun hall b hb => hall b (List.mem_cons_of_mem _ hb)
          exact List.forall_mem_cons.2 ⟨ha, has⟩
    · refine gives_bind fun _ => gives_ite (gives_pure first) ?_
      refine gives_bind fun _ => gives_bind fun _ => gives_ite (gives_pure first) ?_
      exact gives_bind fun _ => gives_pure first

theorem restricts_list {p q : ArgReader α} (h : Restricts p q P) :
    Restricts (list p) (list q) (fun as => ∀ a ∈ as, P a) := by
  unfold list
  refine restricts_bind fun atEnd => ?_
  cases atEnd with
  | true => exact restricts_self (gives_pure fun a ha => by cases ha)
  | false => exact restricts_bind fun c => restricts_listFuel h _

/-- Attributes are restricted as their arguments are. -/
theorem ofAttribute_eq_ok_iff {p q : ArgReader α} (h : Restricts p q P) {attr : Tree}
    {args : List α} :
    ofAttribute p attr = .ok args ↔ ofAttribute q attr = .ok args ∧ ∀ a ∈ args, P a := by
  unfold ofAttribute
  split
  · rw [map_eq_ok, map_eq_ok]
    constructor
    · rintro ⟨⟨as, c⟩, has, rfl⟩
      obtain ⟨hq, hP⟩ := (restricts_list h).1 has
      exact ⟨⟨_, hq, rfl⟩, hP⟩
    · rintro ⟨⟨⟨as, c⟩, has, rfl⟩, hP⟩
      exact ⟨_, (restricts_list h).2 ⟨has, hP⟩, rfl⟩
  · simp
  · simp

end ArgReader

namespace MethodArg

/-- The argument is no blank key. -/
def Named : MethodArg → Prop
  | key text => Text.trim text ≠ ""
  | default _ => True

theorem read_restricts : ArgReader.Restricts (read true) (read false) Named := by
  unfold read
  refine ArgReader.restricts_bind fun name => ?_
  split
  · refine ArgReader.restricts_bind fun value => ?_
    simp only [Bool.true_and, decide_eq_true_eq, Bool.false_and, Bool.false_eq_true, if_false]
    split
    · next hblank =>
      intro c a c'
      constructor
      · intro h
        cases h
      · rintro ⟨h, ha⟩
        obtain ⟨rfl, -⟩ := run_pure_eq_ok.1 h
        exact absurd hblank ha
    · next hnamed => exact ArgReader.restricts_self (gives_pure hnamed)
  · exact ArgReader.restricts_self (gives_bind fun _ => gives_pure trivial)
  · refine ArgReader.restricts_self (gives_bind fun value => ?_)
    split
    · exact gives_pure trivial
    · exact ArgReader.gives_fail _ _
  · exact ArgReader.restricts_self (ArgReader.gives_fail _ _)

/-- What the annotations of a method hold, one argument after the other. -/
def ofAttributes (attrs : List Tree) : Except (ArgumentFault × Position) (List MethodArg) :=
  ((attrs.filter (InterfaceDecl.isPlain "pref")).mapM (ArgReader.ofAttribute (read false))).map
    List.flatten

end MethodArg

theorem InterfaceDecl.readMetadata_eq (attrs : List Tree) :
    readMetadata attrs = (MethodArg.ofAttributes attrs).map (List.foldl MethodArg.addTo {}) := by
  unfold readMetadata MethodArg.ofAttributes
  cases (attrs.filter (isPlain "pref")).mapM (ArgReader.ofAttribute (MethodArg.read false)) with
  | error e => rfl
  | ok args => rfl

namespace Check

/-- The annotations of a method are sound where they are read and no key in them is blank. -/
theorem markFaults_eq_nil_iff (attrs : List Tree) : markFaults attrs = [] ↔
    ∃ args, MethodArg.ofAttributes attrs = .ok args ∧ ∀ arg ∈ args, MethodArg.Named arg := by
  have hfaults : markFaults attrs = [] ↔ ∀ attr ∈ attrs.filter isMark, ∃ args,
      ArgReader.ofAttribute (MethodArg.read true) attr = .ok args := by
    unfold markFaults
    rw [List.filterMap_eq_nil_iff]
    refine forall₂_congr fun attr _ => ?_
    cases ArgReader.ofAttribute (MethodArg.read true) attr with
    | ok args => simp
    | error e => simp
  have hread (attr : Tree) :
      (∃ args, ArgReader.ofAttribute (MethodArg.read true) attr = .ok args) ↔
        ∃ args, ArgReader.ofAttribute (MethodArg.read false) attr = .ok args ∧
          ∀ arg ∈ args, arg.Named :=
    exists_congr fun args => ArgReader.ofAttribute_eq_ok_iff MethodArg.read_restricts
  rw [hfaults, forall₂_congr fun attr _ => hread attr, ← exists_mapM_eq_ok_iff]
  have hflat (argss : List (List MethodArg)) :
      (∀ args ∈ argss, ∀ arg ∈ args, arg.Named) ↔ ∀ arg ∈ argss.flatten, arg.Named := by
    simp only [List.mem_flatten]
    exact ⟨fun h arg ⟨args, hargs, harg⟩ => h args hargs arg harg,
      fun h args hargs arg harg => h arg ⟨args, hargs, harg⟩⟩
  unfold MethodArg.ofAttributes
  constructor
  · rintro ⟨argss, hargss, hnamed⟩
    exact ⟨argss.flatten, map_eq_ok.2 ⟨argss, hargss, rfl⟩, (hflat argss).1 hnamed⟩
  · rintro ⟨args, hargs, hnamed⟩
    obtain ⟨argss, hargss, rfl⟩ := map_eq_ok.1 hargs
    exact ⟨argss, hargss, (hflat argss).2 hnamed⟩

end Check

/-! ## Arguments of interfaces -/

namespace Check

open Grammar

/-- A plain path that is one name is one word. -/
theorem plainPath_word {path : Tree} {w : String} (h : plainPath c = .ok (path, c'))
    (hlead : (path.part 0).isAbsent = true) (hnames : InterfaceDecl.pathNames path = [w]) :
    ∃ pos rest, c.rest = .word w pos :: rest ∧ c' = ⟨rest, c.close⟩ := by
  obtain ⟨lead, c₁, hl, h⟩ := run_bind_eq_ok.1 h
  obtain ⟨first, c₂, hfirst, h⟩ := run_bind_eq_ok.1 h
  obtain ⟨more, c₃, hmore, h⟩ := run_bind_eq_ok.1 h
  obtain ⟨rfl, rfl⟩ := run_pure_eq_ok.1 h
  obtain rfl : c₁ = c := by
    rcases op?_eq_ok.1 hl with hop | ⟨-, -, rfl⟩
    · obtain ⟨-, rfl, -⟩ := op_eq_ok.1 hop
      cases hlead
    · rfl
  rw [peek_bind] at hfirst
  split at hfirst
  · obtain ⟨word, c₄, hword, hfirst⟩ := run_bind_eq_ok.1 hfirst
    obtain ⟨v, pos, rest, hrest, rfl, rfl⟩ := anyWord_eq_ok.1 hword
    obtain ⟨rfl, rfl⟩ := run_pure_eq_ok.1 hfirst
    rcases repeating_cases hmore with ⟨hstop, rfl⟩ | ⟨round, c₅, others, hround, rfl⟩
    · obtain rfl : v = w := List.singleton_injective hnames
      rw [peekOp, peek_bind] at hstop
      split at hstop
      · obtain ⟨_, _, -, hstop⟩ := run_bind_eq_ok.1 hstop
        obtain ⟨_, _, -, hstop⟩ := run_bind_eq_ok.1 hstop
        cases (run_pure_eq_ok.1 hstop).1
      · obtain ⟨-, rfl⟩ := run_pure_eq_ok.1 hstop
        exact ⟨pos, rest, hrest, rfl⟩
    · -- another name follows
      rw [peekOp, peek_bind] at hround
      split at hround
      · obtain ⟨sep, _, -, hround⟩ := run_bind_eq_ok.1 hround
        obtain ⟨name, _, -, hround⟩ := run_bind_eq_ok.1 hround
        obtain ⟨heq, -⟩ := run_pure_eq_ok.1 hround
        obtain rfl := Option.some.inj heq
        have hlength := congrArg List.length hnames
        cases others <;> simp [InterfaceDecl.pathNames, Tree.parts, Tree.members] at hlength
      · cases (run_pure_eq_ok.1 hround).1
  · cases hfirst

/-- The path of an attribute that is one name is one word. -/
theorem attributePath_word {path : Tree} {w : String} (h : attributePath c = .ok (path, c'))
    (hlead : (path.part 0).isAbsent = true) (hnames : InterfaceDecl.pathNames path = [w]) :
    ∃ pos rest, c.rest = .word w pos :: rest ∧ c' = ⟨rest, c.close⟩ := by
  unfold attributePath at h
  rw [peekWord, peek_bind] at h
  split at h
  · obtain ⟨word, c₁, hword, h⟩ := run_bind_eq_ok.1 h
    obtain ⟨v, pos, rest, hrest, rfl, rfl⟩ := anyWord_eq_ok.1 hword
    obtain ⟨rfl, rfl⟩ := run_pure_eq_ok.1 h
    obtain rfl : v = w := List.singleton_injective hnames
    exact ⟨pos, rest, hrest, rfl⟩
  · exact plainPath_word h hlead hnames

/-- A string literal is one token. -/
theorem read?_text {ts rest : List Token} {l : Literal} {value : String}
    (h : Literal.read? ts = some (l, rest))
    (hvalue : text? (.node .literal [.run l.tokens]) = some value) :
    l.kind = .text value ∧ rest.length < ts.length := by
  unfold Literal.read? at h
  split at h
  · cases h
    unfold text? Literal.ofToken at hvalue
    simp only at hvalue
    split at hvalue
    · next heq =>
      cases hvalue
      exact ⟨heq, Nat.lt_succ_self _⟩
    · cases hvalue
  · cases h
    cases hvalue
  · cases h
    cases hvalue
  · split at h <;> cases h <;> cases hvalue
  · cases h

/-- A value stands behind an equals sign. -/
theorem isOp_equals {ts : List Token} (h : Token.isOp "=" ts = true) :
    ∃ joint pos rest, ts = .sign '=' joint pos :: rest := by
  unfold Token.isOp at h
  cases ts with
  | nil => cases h
  | cons t rest =>
    cases t with
    | sign d joint pos =>
      obtain ⟨rfl, -⟩ : '=' = d ∧ ¬d = '\'' := by simpa [Token.startsWithOp] using h
      exact ⟨joint, pos, rest, rfl⟩
    | _ => cases h

/-- A name, an equals sign and a string are read one after the other. -/
theorem name_textValue {β : Type} {f : ArgReader.Name → ArgReader.TextValue → ArgReader β}
    {w value : String} {pos at' close : Position} {joint : Bool} {ts rest : List Token}
    {l : Literal} (hl : Literal.read? ts = some (l, rest)) (hvalue : l.kind = .text value) :
    (do f (← ArgReader.name) (← ArgReader.textValue))
        ⟨.word w pos :: .sign '=' joint at' :: ts, close⟩ =
      f ⟨some w, pos⟩ ⟨value, l.suffix, Cursor.here ⟨ts, close⟩⟩ ⟨rest, close⟩ := by
  have hname : ArgReader.name ⟨.word w pos :: .sign '=' joint at' :: ts, close⟩ =
      .ok (⟨some w, pos⟩, ⟨.sign '=' joint at' :: ts, close⟩) := rfl
  have hop : ArgReader.lift (Parser.op "=") ⟨.sign '=' joint at' :: ts, close⟩ =
      .ok (.run (Token.operatorAt at' "=".toList), ⟨ts, close⟩) :=
    ArgReader.lift_of_ok (op_eq_ok.2 ⟨rfl, rfl, rfl⟩)
  have htext : ArgReader.textValue ⟨.sign '=' joint at' :: ts, close⟩ =
      .ok (⟨value, l.suffix, Cursor.here ⟨ts, close⟩⟩, ⟨rest, close⟩) := by
    unfold ArgReader.textValue
    rw [run_bind_of_ok hop, get_bind]
    refine (@run_bind_of_ok _ _ _ _ ⟨rest, close⟩ _ _ l ?_).trans ?_
    · unfold ArgReader.lift
      simp only [hl]
    · rw [hvalue]
      rfl
  rw [run_bind_of_ok hname, run_bind_of_ok htext]

/-- What the check makes of one argument. -/
theorem storeArg_eq_ok {t : Tree} {a : StoreArg} (h : storeArg t = .ok a) :
    ∃ value, text? (t.part 2) = some value ∧ ((t.part 0).part 0).isAbsent = true ∧
      ((InterfaceDecl.pathNames (t.part 0) = ["name"] ∧ a = .name value) ∨
        (InterfaceDecl.pathNames (t.part 0) = ["mode"] ∧
          ∃ m, StoreMode.ofText? value = some m ∧ a = .mode m)) := by
  unfold storeArg at h
  cases hvalue : text? (t.part 2) with
  | none =>
    rw [hvalue] at h
    cases h
  | some value =>
    rw [hvalue] at h
    refine ⟨value, rfl, ?_⟩
    by_cases hlead : ((t.part 0).part 0).isAbsent = true
    · simp only [hlead, if_true] at h
      refine ⟨hlead, ?_⟩
      split at h
      · next hname =>
        cases h
        exact .inl ⟨hname, rfl⟩
      · split at h
        · next hmode =>
          split at h
          · next m hm =>
            cases h
            exact .inr ⟨hmode, m, hm, rfl⟩
          · cases h
        · cases h
    · simp [hlead] at h

/-- An argument that the check takes is read as what the check takes it for. -/
theorem read_of_storeArg {depth : Nat} {t : Tree} {a : StoreArg}
    (ht : (attributePath >>= attributeValue (toDepth depth)) c = .ok (t, c'))
    (ha : storeArg t = .ok a) (close : Position) :
    StoreArg.read ⟨c.rest, close⟩ = .ok (a, ⟨c'.rest, close⟩) ∧
      c'.rest.length < c.rest.length := by
  obtain ⟨path, c₁, hpath, ht⟩ := run_bind_eq_ok.1 ht
  unfold attributeValue at ht
  obtain ⟨eq, c₂, heq, ht⟩ := run_bind_eq_ok.1 ht
  rw [peek_bind] at ht
  split at ht
  · obtain ⟨_, _, hfail, -⟩ := run_bind_eq_ok.1 ht
    cases hfail
  obtain ⟨e, c₃, he, ht⟩ := run_bind_eq_ok.1 ht
  obtain ⟨rfl, rfl⟩ := run_pure_eq_ok.1 ht
  obtain ⟨value, hvalue, hlead, hname⟩ := storeArg_eq_ok ha
  -- the value is one string literal
  have hkind : e.isKind .literal = true := by
    change text? e = some value at hvalue
    unfold text? at hvalue
    split at hvalue
    · rfl
    · cases hvalue
  obtain ⟨l, rest, hl, rfl, rfl⟩ := literal_eq_ok.1 (expr_literal he hkind)
  obtain ⟨htext, hshorter⟩ := read?_text hl hvalue
  -- the path is one word
  obtain ⟨w, hw⟩ : ∃ w, InterfaceDecl.pathNames path = [w] := by
    rcases hname with ⟨hn, -⟩ | ⟨hn, -⟩
    · exact ⟨_, hn⟩
    · exact ⟨_, hn⟩
  obtain ⟨pos, rest', hword, rfl⟩ := attributePath_word hpath hlead hw
  obtain ⟨hequals, -, rfl⟩ := op_eq_ok.1 heq
  obtain ⟨joint, at', ts, rfl⟩ := isOp_equals hequals
  change Literal.read? ts = some (l, rest) at hl
  change rest.length < ts.length at hshorter
  rw [hword]
  refine ⟨?_, by simp only [List.length_cons]; omega⟩
  unfold StoreArg.read
  rw [name_textValue hl htext]
  rcases hname with ⟨hn, rfl⟩ | ⟨hn, m, hm, rfl⟩
  · obtain rfl : w = "name" := List.singleton_injective (hw.symm.trans hn)
    rfl
  · obtain rfl : w = "mode" := List.singleton_injective (hw.symm.trans hn)
    simp only [hm]
    rfl

/-- Arguments that the check takes are read as what the check takes them for. -/
theorem listFuel_of_listed {depth fuel : Nat} {trees : List Tree} {args : List StoreArg}
    (h : Listed (attributePath >>= attributeValue (toDepth depth)) c trees)
    (hargs : (Tree.members trees).mapM storeArg = .ok args) (hne : c.rest ≠ [])
    (hfuel : c.rest.length < fuel) (close : Position) :
    ArgReader.listFuel StoreArg.read fuel ⟨c.rest, close⟩ = .ok (args, ⟨[], close⟩) := by
  induction h generalizing fuel args with
  | none => exact absurd rfl hne
  | @last c c₁ t _ ht hend =>
    obtain ⟨a, as, ha, has, rfl⟩ := List.forall₂_cons_left_iff.1 (mapM_eq_ok_iff.1 hargs)
    cases has
    obtain ⟨hread, -⟩ := read_of_storeArg ht ha close
    obtain ⟨n, rfl⟩ := Nat.exists_eq_add_one_of_ne_zero (Nat.ne_zero_of_lt hfuel)
    rw [hend] at hread
    rw [ArgReader.listFuel, run_bind_of_ok hread]
    rfl
  | @more c c₁ c₂ t sep ts _ ht hmore hsep hts ih =>
    obtain ⟨a, as, ha, has, rfl⟩ := List.forall₂_cons_left_iff.1 (mapM_eq_ok_iff.1 hargs)
    obtain ⟨hread, hshorter⟩ := read_of_storeArg ht ha close
    obtain ⟨n, rfl⟩ := Nat.exists_eq_add_one_of_ne_zero (Nat.ne_zero_of_lt hfuel)
    obtain ⟨hcomma, -, hc₂⟩ := op_eq_ok.1 hsep
    have hrest₂ : c₂.rest = c₁.rest.drop 1 := congrArg Cursor.rest hc₂
    have hop : ArgReader.lift (op ",") ⟨c₁.rest, close⟩ = .ok (_, ⟨c₂.rest, close⟩) :=
      ArgReader.lift_of_ok (op_eq_ok.2 ⟨hcomma, rfl, by rw [hrest₂]; rfl⟩)
    have hrest : c₁.rest.isEmpty = false := Bool.eq_false_iff.2 fun he =>
      hmore (List.isEmpty_iff.1 he)
    rw [ArgReader.listFuel, run_bind_of_ok hread, ArgReader.atEnd_bind, hrest,
      if_neg Bool.false_ne_true, run_bind_of_ok hop, ArgReader.atEnd_bind]
    by_cases hend : c₂.rest = []
    · -- the comma is the last token
      have hnone : as = [] := by
        cases hts with
        | none =>
          cases has
          rfl
        | last hne => exact absurd hend hne
        | more hne => exact absurd hend hne
      rw [hend, hnone]
      rfl
    · have hlen : c₂.rest.length < n := by
        rw [hrest₂, List.length_drop]
        omega
      rw [if_neg (by simpa using hend), run_bind_of_ok (ih (mapM_eq_ok_iff.2 has) hend hlen)]
      rfl

/-- Arguments that the check takes, in whatever brackets they stand. -/
theorem list_of_storeArgs {ts : List Token} {args : List StoreArg} (h : storeArgs ts = .ok args)
    (close : Position) : ∃ c', ArgReader.list StoreArg.read ⟨ts, close⟩ = .ok (args, c') := by
  unfold storeArgs at h
  dsimp only at h
  split at h
  · next trees htrees =>
    obtain ⟨close', hlist⟩ := runAll_eq_ok.1 htrees
    have hlisted := listed_of_commaList hlist rfl
    unfold ArgReader.list
    rw [ArgReader.atEnd_bind]
    cases ts with
    | nil =>
      cases hlisted with
      | none =>
        cases h
        exact ⟨_, rfl⟩
      | last hne => exact absurd rfl hne
      | more hne => exact absurd rfl hne
    | cons t rest =>
      rw [List.isEmpty_cons, if_neg Bool.false_ne_true, get_bind]
      exact ⟨_, listFuel_of_listed hlisted h (List.cons_ne_nil _ _) (Nat.lt_succ_self _) close⟩
  · cases h

end Check

end TypedSettings
