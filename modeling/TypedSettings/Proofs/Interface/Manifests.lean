import TypedSettings.Proofs.Interface.Written

/-!
What loading manifests leaves in a registry. An entry replaces what stands under its name, so a name
answers with the last entry of it; a manifest with an unsound entry has replaced what the entries
before that one name.

* `get?_foldl_insert`: the last entry of a name answers.
* `loadAll_eq_ok_iff`: what manifests that are sound leave.
* `load_unchanged_iff`: what a manifest with a fault leaves, and when that is what was there.
-/

namespace TypedSettings

namespace Registry

/-! ## The last entry of a name -/

/-- `e` is the last among interfaces that has the name. -/
def LastNamed (loaded : List ExternalInterface) (name : String) (e : ExternalInterface) : Prop :=
  ∃ before after, loaded = before ++ e :: after ∧ e.name = name ∧ ∀ i ∈ after, i.name ≠ name

theorem lastNamed_iff {loaded : List ExternalInterface} {name : String} {e : ExternalInterface} :
    LastNamed loaded name e ↔ (loaded.reverse.find? fun i => i.name == name) = some e := by
  rw [List.find?_eq_some_iff_append]
  constructor
  · rintro ⟨before, after, rfl, hname, hafter⟩
    refine ⟨by simpa using hname, after.reverse, before.reverse, by simp, ?_⟩
    intro i hi
    simpa using hafter i (List.mem_reverse.1 hi)
  · rintro ⟨hname, after, before, hreverse, hafter⟩
    refine ⟨before.reverse, after.reverse, ?_, by simpa using hname, ?_⟩
    · simpa using congrArg List.reverse hreverse
    · intro i hi
      simpa using hafter i (List.mem_reverse.1 hi)

theorem exists_lastNamed {loaded : List ExternalInterface} {i : ExternalInterface}
    (h : i ∈ loaded) : ∃ e, LastNamed loaded i.name e := by
  have hfound : (loaded.reverse.find? fun j => j.name == i.name).isSome = true :=
    List.find?_isSome.2 ⟨i, List.mem_reverse.2 h, beq_self_eq_true i.name⟩
  obtain ⟨e, he⟩ := Option.isSome_iff_exists.1 hfound
  exact ⟨e, lastNamed_iff.2 he⟩

theorem get?_insert (r : Registry) (i : ExternalInterface) (name : String) :
    (r.insert i).get? name = if i.name = name then some i else r.get? name := by
  unfold insert
  split
  · next hknown =>
    -- replacing keeps every name where it stands
    have hkeeps : ((fun j : ExternalInterface => j.name == name) ∘
        fun j => if j.name = i.name then i else j) = fun j => j.name == name := by
      funext j
      dsimp only [Function.comp]
      split
      · next hj => rw [hj]
      · rfl
    show (List.map _ r.interfaces).find? _ = _
    rw [List.find?_map, hkeeps]
    by_cases hname : i.name = name
    · obtain ⟨j, hj⟩ := Option.isSome_iff_exists.1 hknown
      have hj' : r.interfaces.find? (fun j => j.name == name) = some j := hname ▸ hj
      have hjname : j.name = i.name := by simpa using List.find?_some hj
      rw [hj', if_pos hname, Option.map_some, if_pos hjname]
    · rw [if_neg hname]
      show (r.get? name).map _ = _
      cases hget : r.get? name with
      | none => rfl
      | some j =>
        have hjname : j.name = name := by simpa using List.find?_some hget
        rw [Option.map_some, if_neg fun h => hname (h.symm.trans hjname)]
  · next hunknown =>
    show (r.interfaces ++ [i]).find? _ = _
    rw [List.find?_append, List.find?_singleton]
    by_cases hname : i.name = name
    · have hnone : r.interfaces.find? (fun j => j.name == name) = none := by
        rw [← hname]
        exact Option.not_isSome_iff_eq_none.1 hunknown
      rw [hnone, if_pos hname]
      simp [hname]
    · simp [hname, get?]

theorem get?_foldl_insert (r : Registry) (loaded : List ExternalInterface) (name : String) :
    (loaded.foldl insert r).get? name
      = (loaded.reverse.find? fun i => i.name == name).or (r.get? name) := by
  induction loaded generalizing r with
  | nil => rfl
  | cons i loaded ih =>
    rw [List.foldl_cons, ih, get?_insert, List.reverse_cons, List.find?_append, Option.or_assoc,
      List.find?_singleton]
    by_cases hname : i.name = name <;> simp [hname]

/-- A name answers with the last entry of it, and with what was there where it has none. -/
theorem get?_foldl_insert_eq_some_iff {r : Registry} {loaded : List ExternalInterface}
    {name : String} {e : ExternalInterface} :
    (loaded.foldl insert r).get? name = some e ↔
      LastNamed loaded name e ∨ (∀ i ∈ loaded, i.name ≠ name) ∧ r.get? name = some e := by
  have hnone : (loaded.reverse.find? fun i => i.name == name) = none ↔
      ∀ i ∈ loaded, i.name ≠ name := by simp
  rw [get?_foldl_insert, Option.or_eq_some_iff, lastNamed_iff, hnone]

end Registry

/-! ## Loading -/

namespace Manifest

/-- The interfaces that the entries of a sound manifest describe, in order. -/
def Describes (text : String) (found : List ExternalInterface) : Prop :=
  ∃ entries, read? text = some entries ∧
    List.Forall₂ (fun entry e => interface entry = .ok e) entries found

/-- A manifest has a fault: it cannot be read, or an entry is unsound. `found` are the interfaces
before the fault. -/
def FailsAfter (text : String) (found : List ExternalInterface) (fault : ManifestFault) : Prop :=
  (read? text = none ∧ found = [] ∧ fault = .malformed) ∨
  ∃ before bad after, read? text = some (before ++ bad :: after) ∧
    List.Forall₂ (fun entry e => interface entry = .ok e) before found ∧
    interface bad = .error fault

/-- An entry says nothing of a method but its signature. -/
theorem method_metadata {interface : String} {entry : MethodEntry} {m : MethodDecl}
    (h : method interface entry = .ok m) : m.metadata = {} := by
  unfold method at h
  dsimp only at h
  split at h
  all_goals
    obtain ⟨returns, -, h⟩ := bind_eq_ok.1 h
    obtain ⟨params, -, h⟩ := bind_eq_ok.1 h
    cases h
    rfl

theorem interface_metadata {entry : InterfaceEntry} {e : ExternalInterface}
    (h : interface entry = .ok e) : ∀ m ∈ e.methods, m.metadata = {} := by
  unfold interface at h
  obtain ⟨methods, hmethods, h⟩ := bind_eq_ok.1 h
  cases h
  intro m hm
  obtain ⟨entry', -, hmethod⟩ := exists_of_forall₂ (mapM_eq_ok_iff.1 hmethods).flip hm
  exact method_metadata hmethod

end Manifest

namespace Registry

theorem addEntries_eq_none_iff {r r' : Registry} {entries : List Manifest.InterfaceEntry} :
    r.addEntries entries = (r', none) ↔
      ∃ found, List.Forall₂ (fun entry e => Manifest.interface entry = .ok e) entries found ∧
        r' = found.foldl insert r := by
  induction entries generalizing r with
  | nil =>
    simp [addEntries, eq_comm]
  | cons entry entries ih =>
    rw [addEntries]
    cases hentry : Manifest.interface entry with
    | ok i =>
      dsimp only
      rw [ih]
      constructor
      · rintro ⟨found, hfound, rfl⟩
        exact ⟨i :: found, .cons hentry hfound, rfl⟩
      · rintro ⟨_, hfound, rfl⟩
        cases hfound with
        | cons hi hrest =>
          cases hentry.symm.trans hi
          exact ⟨_, hrest, rfl⟩
    | error fault =>
      refine iff_of_false (by rintro ⟨⟩) ?_
      rintro ⟨_, hfound, -⟩
      cases hfound with
      | cons hi _ => cases hentry.symm.trans hi

theorem addEntries_eq_some_iff {r r' : Registry} {entries : List Manifest.InterfaceEntry}
    {fault : ManifestFault} :
    r.addEntries entries = (r', some fault) ↔
      ∃ before bad after found, entries = before ++ bad :: after ∧
        List.Forall₂ (fun entry e => Manifest.interface entry = .ok e) before found ∧
        Manifest.interface bad = .error fault ∧ r' = found.foldl insert r := by
  induction entries generalizing r with
  | nil =>
    simp [addEntries]
  | cons entry entries ih =>
    rw [addEntries]
    cases hentry : Manifest.interface entry with
    | ok i =>
      dsimp only
      rw [ih]
      constructor
      · rintro ⟨before, bad, after, found, rfl, hfound, hbad, rfl⟩
        exact ⟨entry :: before, bad, after, i :: found, rfl, .cons hentry hfound, hbad, rfl⟩
      · rintro ⟨before, bad, after, found, heq, hfound, hbad, rfl⟩
        cases hfound with
        | nil =>
          obtain ⟨rfl, -⟩ := List.cons.inj heq
          cases hentry.symm.trans hbad
        | cons hi hrest =>
          obtain ⟨rfl, rfl⟩ := List.cons.inj heq
          cases hentry.symm.trans hi
          exact ⟨_, bad, after, _, rfl, hrest, hbad, rfl⟩
    | error other =>
      constructor
      · intro h
        cases h
        exact ⟨[], entry, entries, [], rfl, .nil, hentry, rfl⟩
      · rintro ⟨before, bad, after, found, heq, hfound, hbad, rfl⟩
        cases hfound with
        | nil =>
          obtain ⟨rfl, -⟩ := List.cons.inj heq
          cases hentry.symm.trans hbad
          rfl
        | cons hi _ =>
          obtain ⟨rfl, -⟩ := List.cons.inj heq
          cases hentry.symm.trans hi

/-- Loading a sound manifest adds its interfaces in order. -/
theorem load_eq_ok_iff {r r' : Registry} {origin text : String} :
    (∃ size, r.load origin text = (r', .ok size)) ↔
      ∃ found, Manifest.Describes text found ∧ r' = found.foldl insert r := by
  unfold load Manifest.Describes
  cases hread : Manifest.read? text with
  | none => simp
  | some entries =>
    constructor
    · rintro ⟨size, h⟩
      dsimp only at h
      split at h
      · next heq =>
        cases h
        obtain ⟨found, hfound, rfl⟩ := addEntries_eq_none_iff.1 heq
        exact ⟨found, ⟨entries, rfl, hfound⟩, rfl⟩
      · cases h
    · rintro ⟨found, ⟨_, heq, hfound⟩, rfl⟩
      cases heq
      have hadd : r.addEntries entries = (found.foldl insert r, none) :=
        addEntries_eq_none_iff.2 ⟨found, hfound, rfl⟩
      dsimp only
      rw [hadd]
      exact ⟨_, rfl⟩

/-- Loading a manifest with a fault adds the interfaces before the fault. -/
theorem load_eq_error_iff {r r' : Registry} {origin text : String} {p : Problem} :
    r.load origin text = (r', .error p) ↔
      ∃ found fault, Manifest.FailsAfter text found fault ∧
        p = .invalidManifest origin fault ∧ r' = found.foldl insert r := by
  unfold load Manifest.FailsAfter
  cases hread : Manifest.read? text with
  | none =>
    constructor
    · intro h
      cases h
      exact ⟨[], .malformed, .inl ⟨rfl, rfl, rfl⟩, rfl, rfl⟩
    · rintro ⟨found, fault, ⟨-, rfl, rfl⟩ | ⟨before, bad, after, h, -⟩, rfl, rfl⟩
      · rfl
      · cases h
  | some entries =>
    constructor
    · intro h
      dsimp only at h
      split at h
      · cases h
      · next fault heq =>
        cases h
        obtain ⟨before, bad, after, found, rfl, hfound, hbad, rfl⟩ :=
          addEntries_eq_some_iff.1 heq
        exact ⟨found, fault, .inr ⟨before, bad, after, rfl, hfound, hbad⟩, rfl, rfl⟩
    · rintro ⟨found, fault, ⟨h, -⟩ | ⟨before, bad, after, h, hfound, hbad⟩, rfl, rfl⟩
      · cases h
      · cases h
        have hadd : r.addEntries (before ++ bad :: after) = (found.foldl insert r, some fault) :=
          addEntries_eq_some_iff.2 ⟨before, bad, after, found, rfl, hfound, hbad, rfl⟩
        dsimp only
        rw [hadd]

/-- Loading manifests that are all sound adds the interfaces of each, in order. -/
theorem loadAll_eq_ok_iff {r r' : Registry} {texts : List (FilePath × Option String)} :
    r.loadAll texts = .ok r' ↔
      ∃ loaded, List.Forall₂ (fun f found => ∃ text, f.2 = some text ∧
        Manifest.Describes text found) texts loaded ∧ r' = loaded.flatten.foldl insert r := by
  induction texts generalizing r with
  | nil => simp [loadAll, eq_comm]
  | cons f texts ih =>
    obtain ⟨path, _ | text⟩ := f
    · refine iff_of_false (by rintro ⟨⟩) ?_
      rintro ⟨_, hloaded, -⟩
      cases hloaded with
      | cons hfirst _ =>
        obtain ⟨text, htext, -⟩ := hfirst
        cases htext
    · rw [loadAll]
      constructor
      · intro h
        split at h
        · next next' size hload =>
          obtain ⟨found, hfound, rfl⟩ := load_eq_ok_iff.1 ⟨size, hload⟩
          obtain ⟨loaded, hloaded, rfl⟩ := ih.1 h
          refine ⟨found :: loaded, .cons ⟨text, rfl, hfound⟩ hloaded, ?_⟩
          rw [List.flatten_cons, List.foldl_append]
        · cases h
      · rintro ⟨_, hloaded, rfl⟩
        cases hloaded with
        | @cons _ found _ loaded hfirst hrest =>
          obtain ⟨_, htext, hfound⟩ := hfirst
          cases htext
          obtain ⟨size, hload⟩ := load_eq_ok_iff.2 ⟨found, hfound, rfl⟩
          rw [hload]
          refine ih.2 ⟨loaded, hrest, ?_⟩
          rw [List.flatten_cons, List.foldl_append]

/-! ## Manifests with a fault -/

/-- A manifest is refused for its first fault, and what the entries before the fault name stands
replaced: under a name of theirs the last of them answers. The registry answers as before exactly
when it already had these; it is untouched when the fault comes first. -/
theorem load_unchanged_iff (r : Registry) (origin text : String) :
    (∀ p, (∃ r', r.load origin text = (r', .error p)) ↔
      ∃ found fault, Manifest.FailsAfter text found fault ∧ p = .invalidManifest origin fault) ∧
    ∀ found fault, Manifest.FailsAfter text found fault →
      (∀ name e, (r.load origin text).1.get? name = some e ↔
        LastNamed found name e ∨ (∀ i ∈ found, i.name ≠ name) ∧ r.get? name = some e) ∧
      ((∀ name, (r.load origin text).1.get? name = r.get? name) ↔
        ∀ name e, LastNamed found name e → r.get? name = some e) ∧
      (found = [] → (r.load origin text).1 = r) := by
  refine ⟨?_, ?_⟩
  · intro p
    constructor
    · rintro ⟨r', h⟩
      obtain ⟨found, fault, hfails, rfl, -⟩ := load_eq_error_iff.1 h
      exact ⟨found, fault, hfails, rfl⟩
    · rintro ⟨found, fault, hfails, rfl⟩
      exact ⟨_, load_eq_error_iff.2 ⟨found, fault, hfails, rfl, rfl⟩⟩
  · intro found fault hfails
    rw [load_eq_error_iff.2 ⟨found, fault, hfails, rfl, rfl⟩]
    have hget (name : String) (e : ExternalInterface) :
        (found.foldl insert r).get? name = some e ↔
          LastNamed found name e ∨ (∀ i ∈ found, i.name ≠ name) ∧ r.get? name = some e :=
      get?_foldl_insert_eq_some_iff
    refine ⟨hget, ?_, ?_⟩
    · constructor
      · intro hsame name e hlast
        rw [← hsame name]
        exact (hget name e).2 (.inl hlast)
      · intro hhad name
        refine Option.ext fun e => ?_
        rw [hget name e]
        constructor
        · rintro (hlast | ⟨-, hr⟩)
          · exact hhad name e hlast
          · exact hr
        · intro hr
          by_cases hnone : ∀ i ∈ found, i.name ≠ name
          · exact .inr ⟨hnone, hr⟩
          · obtain ⟨i, hi, hname⟩ : ∃ i ∈ found, i.name = name := by simpa using hnone
            obtain ⟨last, hlast⟩ := exists_lastNamed hi
            rw [hname] at hlast
            cases hr.symm.trans (hhad name last hlast)
            exact .inl hlast
    · rintro rfl
      rfl

/-! A manifest that replaces an interface that comes along, and then has a type that is none. -/

def themeName : String := "prefs_api::common::ThemePreferences"

def spoiledText : String :=
  "[[interface]]\nname = \"prefs_api::common::ThemePreferences\"\n"
    ++ "[[interface]]\nname = \"vendor::Audio\"\n"
    ++ "[[interface.method]]\nname = \"volume\"\nreturns = \"Vec<\"\n"

def spoiledTheme : Manifest.InterfaceEntry := ⟨themeName, [], []⟩

def spoiledAudio : Manifest.InterfaceEntry := ⟨"vendor::Audio", [], [⟨"volume", some "Vec<", []⟩]⟩

theorem spoiled_evaluated :
    Manifest.read? spoiledText = some [spoiledTheme, spoiledAudio] ∧
    faultOf (Manifest.interface spoiledAudio) = some (.type "vendor::Audio" "volume" "Vec<") := by
  decide +kernel

theorem load_unchanged_iff_spoiled :
    Manifest.FailsAfter spoiledText [⟨themeName, [], []⟩] (.type "vendor::Audio" "volume" "Vec<") ∧
    LastNamed [⟨themeName, [], []⟩] themeName ⟨themeName, [], []⟩ ∧
    ¬∀ name, (bundled.load "vendor.toml" spoiledText).1.get? name = bundled.get? name := by
  obtain ⟨hread, hfault⟩ := spoiled_evaluated
  have hfails : Manifest.FailsAfter spoiledText [⟨themeName, [], []⟩]
      (.type "vendor::Audio" "volume" "Vec<") :=
    .inr ⟨[spoiledTheme], spoiledAudio, [], hread, .cons rfl .nil, faultOf_eq_some_iff.1 hfault⟩
  have hlast : LastNamed [⟨themeName, [], []⟩] themeName ⟨themeName, [], []⟩ :=
    ⟨[], [], rfl, rfl, fun _ h => nomatch h⟩
  refine ⟨hfails, hlast, ?_⟩
  rw [((load_unchanged_iff bundled "vendor.toml" spoiledText).2 _ _ hfails).2.1]
  intro hhad
  have hmethods : ((bundled.get? themeName).map fun e => e.methods.length) = some 2 := by
    decide +kernel
  rw [hhad themeName _ hlast] at hmethods
  cases hmethods

end Registry

end TypedSettings
