import Federate.Library.Cut

/-!
# Case and white space

Lowercasing changes the ASCII capitals alone, so it takes no part in trimming. Text is what trimming
leaves of it, with white space on both sides.
-/

namespace Text

/-- A capital becomes the small letter, any other character stays. -/
theorem toNat_toLower (c : Char) :
    c.toLower.toNat = if 65 ≤ c.toNat ∧ c.toNat ≤ 90 then c.toNat + 32 else c.toNat := by
  have capital : (c.val ≥ 'A'.val ∧ c.val ≤ 'Z'.val) ↔ 65 ≤ c.toNat ∧ c.toNat ≤ 90 := by
    rw [ge_iff_le, UInt32.le_iff_toNat_le, UInt32.le_iff_toNat_le]
    rfl
  unfold Char.toLower
  by_cases upper : c.val ≥ 'A'.val ∧ c.val ≤ 'Z'.val
  · rw [dif_pos upper, if_pos (capital.mp upper)]
    have bounds := capital.mp upper
    show (c.val + ('a'.val - 'A'.val)).toNat = c.val.toNat + 32
    have shift : ('a'.val - 'A'.val).toNat = 32 := by decide
    have value : c.val.toNat = c.toNat := rfl
    rw [UInt32.toNat_add, shift]
    omega
  · rw [dif_neg upper, if_neg fun both => upper (capital.mpr both)]

/-- Lowercasing neither makes white space nor takes it away. -/
@[simp] theorem isWhitespace_toLower (c : Char) : isWhitespace c.toLower = isWhitespace c := by
  have code := toNat_toLower c
  by_cases upper : 65 ≤ c.toNat ∧ c.toNat ≤ 90
  · rw [if_pos upper] at code
    rw [Bool.eq_iff_iff]
    simp only [isWhitespace, code, Bool.or_eq_true, Bool.and_eq_true, decide_eq_true_eq]
    omega
  · rw [if_neg upper] at code
    simp only [isWhitespace, code]

/-- A character below the letters comes from itself alone. -/
theorem toLower_eq_iff {c d : Char} (below : d.toNat < 65) : c.toLower = d ↔ c = d := by
  have code := toNat_toLower c
  constructor
  · intro same
    rw [same] at code
    split at code
    · omega
    · rw [← Char.ofNat_toNat c, ← Char.ofNat_toNat d, code]
  · rintro rfl
    rw [if_neg (by omega)] at code
    rw [← Char.ofNat_toNat c.toLower, code, Char.ofNat_toNat]

/-- Trimming and lowercasing commute. -/
theorem trim_toAsciiLowercase (s : String) :
    trim (toAsciiLowercase s) = toAsciiLowercase (trim s) := by
  have same : isWhitespace ∘ Char.toLower = isWhitespace := funext isWhitespace_toLower
  rw [← String.toList_inj, trim, toAsciiLowercase, toAsciiLowercase, trim, toList_onChars,
    toList_onChars, toList_onChars, toList_onChars, List.dropWhile_map, same, List.rdropWhile,
    ← List.map_reverse, List.dropWhile_map, same, ← List.map_reverse]
  rfl

/-- Text is what trimming leaves, with white space on both sides. -/
theorem trim_split (s : String) : ∃ before after, s = before ++ trim s ++ after ∧
    (∀ c ∈ before.toList, isWhitespace c = true) ∧ ∀ c ∈ after.toList, isWhitespace c = true := by
  refine ⟨String.ofList (s.toList.takeWhile isWhitespace),
    String.ofList ((s.toList.dropWhile isWhitespace).rtakeWhile isWhitespace), ?_, ?_, ?_⟩
  · rw [← String.toList_inj, String.toList_append, String.toList_append, trim, toList_onChars,
      String.toList_ofList, String.toList_ofList, List.append_assoc,
      List.rdropWhile_append_rtakeWhile, List.takeWhile_append_dropWhile]
  · intro c member
    rw [String.toList_ofList] at member
    exact List.mem_takeWhile_imp member
  · intro c member
    rw [String.toList_ofList] at member
    exact List.mem_rtakeWhile_imp member

/-- What is left after trimming was there before. -/
theorem mem_of_mem_trim {c : Char} {s : String} (member : c ∈ (trim s).toList) : c ∈ s.toList := by
  obtain ⟨before, after, split, -, -⟩ := trim_split s
  rw [split, String.toList_append, String.toList_append]
  exact List.mem_append_left _ (List.mem_append_right _ member)

/-- White space before a text is trimmed. -/
theorem trim_blank_append {a b : String} (blank : ∀ c ∈ a.toList, isWhitespace c = true) :
    trim (a ++ b) = trim b := by
  rw [← String.toList_inj, trim, trim, toList_onChars, toList_onChars, String.toList_append,
    List.dropWhile_append_of_pos blank]

/-- Lowercasing goes into the parts of a text. -/
theorem toAsciiLowercase_append (a b : String) :
    toAsciiLowercase (a ++ b) = toAsciiLowercase a ++ toAsciiLowercase b := by
  rw [← String.toList_inj, String.toList_append, toAsciiLowercase, toAsciiLowercase,
    toAsciiLowercase, toList_onChars, toList_onChars, toList_onChars, String.toList_append,
    List.map_append]

end Text
