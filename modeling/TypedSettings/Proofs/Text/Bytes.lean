import Mathlib.Data.String.Basic

/-!
The order of texts. Texts are ordered by their code points, which is the order of their bytes in
UTF-8.

* `bytes_lt_iff`: one text comes before another if its bytes do.
-/

namespace TypedSettings.Text

/-- The bytes of a text in UTF-8. -/
def bytes (s : String) : List UInt8 := s.toUTF8.data.toList

theorem bytes_eq (s : String) : bytes s = s.toList.flatMap String.utf8EncodeChar := by
  rw [bytes]
  conv => lhs; rw [← String.ofList_toList (s := s)]
  exact List.toList_data_toByteArray

/-- A character in front of another one has the smaller byte where their bytes first differ, and
its bytes are not the first ones of the other. -/
theorem utf8EncodeChar_append_lt {c d : Char} (h : c < d) (s t : List UInt8) :
    String.utf8EncodeChar c ++ s < String.utf8EncodeChar d ++ t := by
  have hlt : c.val.toNat < d.val.toNat := h
  have hbound : d.val.toNat < 0x110000 := by
    rcases d.valid with hd | hd
    · exact hd.trans (by decide)
    · exact hd.2
  unfold String.utf8EncodeChar
  generalize c.val.toNat = v at hlt
  generalize d.val.toNat = w at hlt hbound
  have hlast (n k : Nat) (hk : k ≤ 192) : (n % 64 + k) % 256 = n % 64 + k := by omega
  have hfirst (n : Nat) (hn : n < 0x110000) :
      (n / 262144 % 8 + 240) % 256 = n / 262144 + 240 := by omega
  -- the bytes hold the digits of the code point to the base 64, the highest first
  have hdigits (n : Nat) :
      n = ((n / 262144 * 64 + n / 4096 % 64) * 64 + n / 64 % 64) * 64 + n % 64 := by omega
  have hv := hdigits v
  have hw := hdigits w
  dsimp only
  split_ifs
  all_goals
    simp only [List.cons_append, List.nil_append, List.cons_lt_cons_iff, UInt8.lt_iff_toNat_lt,
      ← UInt8.toNat_inj, UInt8.toNat_ofNat', hlast _ 128 (by decide), hfirst v (hlt.trans hbound),
      hfirst w hbound]
    omega

theorem flatMap_utf8EncodeChar_lt {cs ds : List Char} (h : cs < ds) :
    cs.flatMap String.utf8EncodeChar < ds.flatMap String.utf8EncodeChar := by
  induction cs generalizing ds with
  | nil =>
    cases ds with
    | nil => exact absurd h (List.lt_irrefl _)
    | cons d ds =>
      obtain ⟨b, bs, hb⟩ := List.exists_cons_of_ne_nil (@String.utf8EncodeChar_ne_nil d)
      rw [List.flatMap_nil, List.flatMap_cons, hb]
      exact List.nil_lt_cons _ _
  | cons c cs ih =>
    cases ds with
    | nil => exact absurd h (List.not_lt_nil _)
    | cons d ds =>
      rw [List.flatMap_cons, List.flatMap_cons]
      rcases List.cons_lt_cons_iff.1 h with hlt | ⟨rfl, hlt⟩
      · exact utf8EncodeChar_append_lt hlt _ _
      · exact List.append_left_lt (ih hlt)

/-- The order of texts is the order of their bytes. -/
theorem bytes_lt_iff {x y : String} : bytes x < bytes y ↔ x < y := by
  have hlt {x y : String} (h : x < y) : bytes x < bytes y := by
    rw [bytes_eq, bytes_eq]
    exact flatMap_utf8EncodeChar_lt (String.lt_iff_toList_lt.1 h)
  refine ⟨fun h => ?_, hlt⟩
  rcases lt_trichotomy x y with hxy | rfl | hyx
  · exact hxy
  · exact absurd h (List.lt_irrefl _)
  · exact absurd (List.lt_trans h (hlt hyx)) (List.lt_irrefl _)

end TypedSettings.Text
