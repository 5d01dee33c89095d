import Mathlib.Tactic.IntervalCases
import TypedSettings.Text.Json

/-!
Strings and arrays of strings in JSON texts, written and read back. Between quotes every character
stands for itself or as an escape, and an escape is read as the code of its character.

* `codes?_escapeChar`: one character, escaped or not, is read as its code.
* `stringAt_escaped`: a text between quotes is read back.
* `read?_write_texts`: an array of texts is read back.
-/

namespace TypedSettings.Text.JsonValue

/-! ## Strings -/

/-- A control character is written as four digits, which give its code. -/
theorem escapeControl_code {n : Nat} (h : n < 32) :
    ∃ c d, escapeControl n = ['\\', 'u', '0', '0', c, d] ∧ hexCode? '0' '0' c d = some n := by
  interval_cases n <;> exact ⟨_, _, rfl, rfl⟩

/-- An escape letter stands for its character. -/
theorem codes?_escape {c : Char} {n : Nat} (hc : escaped? c = some n) (rest : List Char) :
    codes? ('\\' :: c :: rest) = (codes? rest).map fun r => (n :: r.1, r.2) := by
  have hu : c ≠ 'u' := by
    rintro rfl
    cases hc
  rw [codes?.eq_4 c rest fun _ _ _ _ _ h _ => hu h, hc]
  cases codes? rest <;> rfl

theorem codes?_control {n : Nat} (h : n < 32) (rest : List Char) :
    codes? (escapeControl n ++ rest) = (codes? rest).map fun r => (n :: r.1, r.2) := by
  obtain ⟨c, d, htext, hcode⟩ := escapeControl_code h
  rw [htext]
  show codes? ('\\' :: 'u' :: '0' :: '0' :: c :: d :: rest) = _
  rw [codes?, hcode]
  cases codes? rest <;> rfl

/-- A character between quotes has an escape letter, or is written by its code, or stands for
itself. -/
theorem escapeChar_cases (c : Char) :
    (∃ letter, escapeChar c = ['\\', letter] ∧ escaped? letter = some c.toNat) ∨
      (c.toNat < 32 ∧ escapeChar c = escapeControl c.toNat) ∨
      (¬c.toNat < 32 ∧ c ≠ '"' ∧ c ≠ '\\' ∧ escapeChar c = [c]) := by
  unfold escapeChar
  split_ifs with hquote hslash hback htab hline hfeed hreturn hcontrol
  · exact .inl ⟨'"', rfl, by rw [hquote]; rfl⟩
  · exact .inl ⟨'\\', rfl, by rw [hslash]; rfl⟩
  · exact .inl ⟨'b', rfl, by rw [hback]; rfl⟩
  · exact .inl ⟨'t', rfl, by rw [htab]; rfl⟩
  · exact .inl ⟨'n', rfl, by rw [hline]; rfl⟩
  · exact .inl ⟨'f', rfl, by rw [hfeed]; rfl⟩
  · exact .inl ⟨'r', rfl, by rw [hreturn]; rfl⟩
  · exact .inr (.inl ⟨hcontrol, rfl⟩)
  · exact .inr (.inr ⟨hcontrol, hquote, hslash, rfl⟩)

/-- One character between quotes, escaped or not, is read as its code. -/
theorem codes?_escapeChar (c : Char) (rest : List Char) :
    codes? (escapeChar c ++ rest) = (codes? rest).map fun r => (c.toNat :: r.1, r.2) := by
  rcases escapeChar_cases c with ⟨letter, htext, hletter⟩ | ⟨hcontrol, htext⟩ |
    ⟨hcontrol, hquote, hslash, htext⟩
  · rw [htext]
    exact codes?_escape hletter rest
  · rw [htext]
    exact codes?_control hcontrol rest
  · rw [htext]
    show codes? (c :: rest) = _
    rw [codes?.eq_5 c rest hquote (fun _ _ _ _ _ h _ => hslash h) (fun _ _ h _ => hslash h),
      if_neg (not_or.2 ⟨hcontrol, hslash⟩)]
    cases codes? rest <;> rfl

theorem codes?_escaped (cs rest : List Char) :
    codes? (cs.flatMap escapeChar ++ '"' :: rest) = some (cs.map Char.toNat, rest) := by
  induction cs with
  | nil => rfl
  | cons c cs ih =>
    rw [List.flatMap_cons, List.append_assoc, codes?_escapeChar, ih]
    rfl

/-- No character is half of one. -/
theorem not_half (c : Char) : isHighHalf c.toNat = false ∧ isLowHalf c.toNat = false := by
  have hvalid : c.toNat < 0xD800 ∨ 0xDFFF < c.toNat ∧ c.toNat < 0x110000 := c.valid
  simp only [isHighHalf, isLowHalf, Bool.and_eq_false_iff, decide_eq_false_iff_not]
  omega

theorem join?_codes (cs : List Char) : join? (cs.map Char.toNat) = some cs := by
  induction cs with
  | nil => rfl
  | cons c cs ih =>
    obtain ⟨hhigh, hlow⟩ := not_half c
    cases cs with
    | nil => simp [join?, hhigh, hlow, Char.ofNat_toNat]
    | cons d cs =>
      rw [List.map_cons, List.map_cons, join?, hhigh, hlow, if_neg Bool.false_ne_true,
        if_neg Bool.false_ne_true, ← List.map_cons, ih, Char.ofNat_toNat]
      rfl

/-- A text is read back from between its quotes. -/
theorem stringAt_escaped (s : String) (rest : List Char) :
    stringAt (s.toList.flatMap escapeChar ++ '"' :: rest) = some (some s, rest) := by
  have hjoin : (join? (s.toList.map Char.toNat)).map String.ofList = some s := by
    rw [join?_codes, Option.map_some, String.ofList_toList]
  rw [stringAt, codes?_escaped]
  exact congrArg (fun o => some (o, rest)) hjoin

/-! ## Arrays of texts -/

theorem quote_toList (s : String) :
    (quote s).toList = '"' :: (s.toList.flatMap escapeChar ++ ['"']) := by
  rw [quote, String.toList_ofList]
  rfl

theorem valueAt_quote (fuel : Nat) (s : String) (rest : List Char) :
    valueAt (fuel + 1) ((quote s).toList ++ rest) = some (.string (some s), rest) := by
  rw [quote_toList]
  show (stringAt ((s.toList.flatMap escapeChar ++ ['"']) ++ rest)).map
    (fun r => (string r.1, r.2)) = _
  rw [List.append_assoc]
  show (stringAt (s.toList.flatMap escapeChar ++ '"' :: rest)).map _ = _
  rw [stringAt_escaped]
  rfl

/-- The texts of an array, up to its end. -/
theorem elementsAt_quotes {texts : List String} (hne : texts ≠ []) {fuel : Nat}
    (hfuel : texts.length < fuel) (rest : List Char) :
    elementsAt fuel
        ([','].intercalate (texts.map fun s => (quote s).toList) ++ ']' :: rest)
      = some (texts.map fun s => .string (some s), rest) := by
  induction texts generalizing fuel with
  | nil => exact absurd rfl hne
  | cons s texts ih =>
    obtain ⟨fuel, rfl⟩ : ∃ n, fuel = n + 2 := ⟨fuel - 2, by simp at hfuel; omega⟩
    cases texts with
    | nil =>
      rw [elementsAt, List.map_singleton, List.intercalate_singleton, valueAt_quote]
      rfl
    | cons s' texts =>
      have hshorter : (s' :: texts).length < fuel + 1 := by simpa using hfuel
      have hmore := ih (List.cons_ne_nil s' texts) hshorter
      rw [elementsAt, List.map_cons, List.map_cons, List.intercalate_cons_cons, List.append_assoc,
        List.append_assoc, valueAt_quote]
      show (elementsAt (fuel + 1)
          ([','].intercalate ((s' :: texts).map fun s => (quote s).toList) ++ ']' :: rest)).bind
        (fun r => some (string (some s) :: r.1, r.2)) = _
      rw [hmore]
      rfl

theorem valueAt_texts (texts : List String) {fuel : Nat} (hfuel : texts.length < fuel)
    (rest : List Char) :
    valueAt (fuel + 1)
        ('[' :: ([','].intercalate (texts.map fun s => (quote s).toList) ++ ']' :: rest))
      = some (array (texts.map fun s => string (some s)), rest) := by
  cases texts with
  | nil => rfl
  | cons s texts =>
    have hmore := elementsAt_quotes (List.cons_ne_nil s texts) hfuel rest
    -- the array is not empty, since a quote follows its opening
    obtain ⟨inner, hinner⟩ : ∃ inner,
        [','].intercalate ((s :: texts).map fun s => (quote s).toList) = '"' :: inner := by
      cases texts with
      | nil => exact ⟨_, by rw [List.map_singleton, List.intercalate_singleton, quote_toList]⟩
      | cons s' texts =>
        exact ⟨_, by
          rw [List.map_cons, List.map_cons, List.intercalate_cons_cons, quote_toList,
            List.append_assoc, List.cons_append]⟩
    rw [hinner] at hmore ⊢
    show (elementsAt fuel ('"' :: (inner ++ ']' :: rest))).map (fun r => (array r.1, r.2)) = _
    rw [← List.cons_append, hmore]
    rfl

theorem length_le_intercalate {α : Type} (sep : List α) {parts : List (List α)}
    (h : ∀ part ∈ parts, part ≠ []) : parts.length ≤ (sep.intercalate parts).length := by
  induction parts with
  | nil => simp
  | cons part parts ih =>
    obtain ⟨hpart, hparts⟩ := List.forall_mem_cons.1 h
    have hpos := List.length_pos_iff.2 hpart
    have hrest := ih hparts
    cases parts with
    | nil =>
      rw [List.intercalate_singleton]
      exact hpos
    | cons next parts =>
      rw [List.intercalate_cons_cons, List.length_append, List.length_append, List.length_cons]
      omega

theorem writeAll_texts (texts : List String) :
    writeAll (texts.map fun s => string (some s)) = texts.map quote := by
  induction texts with
  | nil => rfl
  | cons s texts ih => rw [List.map_cons, writeAll, ih, write, List.map_cons, Option.getD_some]

theorem write_texts (texts : List String) :
    (array (texts.map fun s => string (some s))).write.toList
      = '[' :: ([','].intercalate (texts.map fun s => (quote s).toList) ++ [']']) := by
  rw [write, writeAll_texts, String.toList_append, String.toList_append,
    String.toList_intercalate, List.map_map]
  rfl

/-- An array of texts is read back. -/
theorem read?_write_texts (texts : List String) :
    read? (array (texts.map fun s => string (some s))).write
      = some (array (texts.map fun s => string (some s))) := by
  have hparts : texts.length
      ≤ ([','].intercalate (texts.map fun s => (quote s).toList)).length := by
    refine le_of_eq_of_le (List.length_map _).symm (length_le_intercalate _ ?_)
    intro part hpart
    obtain ⟨t, -, rfl⟩ := List.mem_map.1 hpart
    rw [quote_toList]
    exact List.cons_ne_nil _ _
  have hfuel : texts.length
      < 2 * (array (texts.map fun s => string (some s))).write.length + 1 := by
    rw [← String.length_toList, write_texts, List.length_cons, List.length_append]
    omega
  have hvalue := valueAt_texts texts hfuel []
  rw [← write_texts] at hvalue
  rw [read?, hvalue]
  rfl

end TypedSettings.Text.JsonValue
