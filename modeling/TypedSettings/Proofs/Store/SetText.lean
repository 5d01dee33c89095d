import TypedSettings.Proofs.Text.Json
import TypedSettings.Proofs.Text.Sorted
import TypedSettings.Store.SetText

/-!
Sets of strings as text. A set is given as a list of its members, in any order and with any
repetitions, and read as the list in order. So two lists are of one set where they have the same
members.

* `decode?_encode`: the text of a set is read as the set.
* `decode?_eq_ofList`: whatever text is read as a set, it is read as a sorted list.
* `encode_faithful`: each set has one text, which no other set has.
-/

namespace TypedSettings.SetText

open TypedSettings.Text

theorem mapM_string? (members : List String) :
    (members.map fun s => JsonValue.string (some s)).mapM string? = some members := by
  induction members with
  | nil => rfl
  | cons s members ih =>
    rw [List.map_cons, List.mapM_cons, ih]
    rfl

theorem read?_encode (members : List String) :
    JsonValue.read? (encode members)
      = some (.array ((Sorted.ofList members).map fun s => .string (some s))) :=
  JsonValue.read?_write_texts _

theorem decode?_encode (members : List String) :
    decode? (encode members) = some (Sorted.ofList members) := by
  rw [decode?, read?_encode]
  show (List.mapM string? _).map Sorted.ofList = _
  rw [mapM_string?, Option.map_some, Sorted.ofList_ofList]

theorem decode?_eq_ofList {text : String} {set : List String} (h : decode? text = some set) :
    ∃ members, set = Sorted.ofList members := by
  unfold decode? at h
  split at h
  · obtain ⟨members, -, hset⟩ := Option.map_eq_some_iff.1 h
    exact ⟨members, hset.symm⟩
  · cases h

/-- The text depends on the set alone, and the set on the text. -/
theorem encode_eq_encode_iff {members others : List String} :
    encode members = encode others ↔ ∀ s, s ∈ members ↔ s ∈ others := by
  rw [← Sorted.ofList_eq_ofList_iff]
  constructor
  · intro h
    have hdecode := decode?_encode members
    rw [h, decode?_encode] at hdecode
    exact (Option.some.inj hdecode).symm
  · intro h
    rw [encode, encode, h]

/-- **A set and its text stand for each other.** The text of a set is an array of its members in
order and is read as the set; lists have one text exactly where they are of one set; and a set that
is read from any text, written and read again is the same set. -/
theorem encode_faithful (members others : List String) (text : String) :
    (∃ set : List String, set.Pairwise (· < ·) ∧ (∀ s, s ∈ set ↔ s ∈ members) ∧
      JsonValue.read? (encode members) = some (.array (set.map fun s => .string (some s))) ∧
      decode? (encode members) = some set) ∧
    (encode members = encode others ↔ ∀ s, s ∈ members ↔ s ∈ others) ∧
    (decode? text).bind (fun set => decode? (encode set)) = decode? text := by
  refine ⟨⟨_, Sorted.pairwise_ofList members, fun _ => Sorted.mem_ofList, read?_encode members,
    decode?_encode members⟩, encode_eq_encode_iff, ?_⟩
  cases h : decode? text with
  | none => rfl
  | some set =>
    obtain ⟨read, rfl⟩ := decode?_eq_ofList h
    rw [Option.bind_some, decode?_encode, Sorted.ofList_ofList]

/-- Members that look like the text of a set are members like any other. -/
example : encode ["b", "[\"a\"]", "b", "\\"] = "[\"[\\\"a\\\"]\",\"\\\\\",\"b\"]" := by
  decide +kernel

end TypedSettings.SetText
