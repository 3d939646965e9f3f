import Federate.Library.Text

/-!
# Trimming and splitting

Trimming takes white space off both ends. Text with a solid first character keeps its front, so
that only its end matters; and what is taken off the end is white space. Text is split where a
separator first occurs, if it does.
-/

namespace Text

/-- `str::trim_end`. -/
def trimEnd (s : String) : String := onChars (List.rdropWhile isWhitespace) s

/-- The text ends in white space. -/
def EndsBlank (s : String) : Prop := ∃ c, s.toList.getLast? = some c ∧ isWhitespace c = true

instance (s : String) : Decidable (EndsBlank s) :=
  decidable_of_iff (s.toList.getLast?.any isWhitespace = true) (by
    simp [EndsBlank, Option.any_eq_true])

/-- Trimming keeps the front of text that starts solid. -/
theorem trim_of_solid {c : Char} {s : String} (first : s.toList.head? = some c)
    (solid : isWhitespace c = false) : trim s = trimEnd s := by
  rw [← String.toList_inj, trim, trimEnd, toList_onChars, toList_onChars]
  cases shape : s.toList with
  | nil => rfl
  | cons head rest =>
    have same : head = c := by simpa [shape] using first
    rw [same, List.dropWhile_cons_of_neg (by simp [solid])]

/-- Text that does not end in white space has nothing to trim at its end, and no other text. -/
theorem trimEnd_eq_self_iff {s : String} : trimEnd s = s ↔ ¬EndsBlank s := by
  rw [← String.toList_inj, trimEnd, toList_onChars, List.rdropWhile_eq_self_iff]
  constructor
  · intro kept blank
    obtain ⟨c, last, white⟩ := blank
    have nonempty : s.toList ≠ [] := by
      intro empty
      simp [empty] at last
    have same : s.toList.getLast nonempty = c := by
      rw [List.getLast?_eq_some_getLast nonempty] at last
      exact Option.some.inj last
    exact kept nonempty (same ▸ white)
  · intro solid nonempty white
    exact solid ⟨_, List.getLast?_eq_some_getLast nonempty, white⟩

/-- What is trimmed off the end is white space. -/
theorem trimEnd_append_blank (s : String) :
    ∃ w, s = trimEnd s ++ w ∧ ∀ c ∈ w.toList, isWhitespace c = true := by
  refine ⟨String.ofList (s.toList.rtakeWhile isWhitespace), ?_, ?_⟩
  · rw [← String.toList_inj, String.toList_append, trimEnd, toList_onChars, String.toList_ofList,
      List.rdropWhile_append_rtakeWhile]
  · intro c member
    rw [String.toList_ofList] at member
    exact List.mem_rtakeWhile_imp member

/-- Trimmed text does not end in white space. -/
theorem trim_solid (s : String) : ¬EndsBlank (trim s) := by
  rw [← trimEnd_eq_self_iff, ← String.toList_inj, trimEnd, trim, toList_onChars, toList_onChars,
    List.rdropWhile_idempotent]

section Append

variable {a b : String}

/-- The end of a text is that of its last part, unless that is empty. -/
theorem endsBlank_append (nonempty : b ≠ "") : EndsBlank (a ++ b) ↔ EndsBlank b := by
  have last : b.toList.getLast? ≠ none := by
    rw [Ne, List.getLast?_eq_none_iff, String.toList_eq_nil_iff]
    exact nonempty
  unfold EndsBlank
  rw [String.toList_append, List.getLast?_append]
  obtain ⟨c, found⟩ := Option.ne_none_iff_exists'.mp last
  simp [found]

/-- What is trimmed off the end of a text comes off its last part, when the first ends solid. -/
theorem trimEnd_append (solid : ¬EndsBlank a) : trimEnd (a ++ b) = a ++ trimEnd b := by
  obtain ⟨w, split, blank⟩ := trimEnd_append_blank b
  have all : (b.toList.rdropWhile isWhitespace) ++ w.toList = b.toList := by
    have both := congrArg String.toList split
    rw [String.toList_append, trimEnd, toList_onChars] at both
    exact both.symm
  rw [← String.toList_inj, String.toList_append, trimEnd, trimEnd, toList_onChars, toList_onChars,
    String.toList_append, List.rdropWhile, List.reverse_append, List.dropWhile_append]
  split
  · rename_i nothing
    rw [List.isEmpty_iff] at nothing
    have none : b.toList.rdropWhile isWhitespace = [] := by rw [List.rdropWhile, nothing]; rfl
    have kept : trimEnd a = a := trimEnd_eq_self_iff.mpr solid
    rw [← String.toList_inj, trimEnd, toList_onChars, List.rdropWhile] at kept
    rw [none, List.append_nil, kept]
  · rw [List.reverse_append, List.reverse_reverse]
    rfl

/-- White space after a text is trimmed. -/
theorem trim_append_blank (blank : ∀ c ∈ b.toList, isWhitespace c = true) :
    trim (a ++ b) = trim a := by
  rw [← String.toList_inj, trim, trim, toList_onChars, toList_onChars, String.toList_append,
    List.dropWhile_append]
  have nothing : b.toList.dropWhile isWhitespace = [] := List.dropWhile_eq_nil_iff.mpr blank
  split
  · rename_i empty
    rw [List.isEmpty_iff] at empty
    rw [nothing, empty]
  · have none : b.toList.reverse.dropWhile isWhitespace = [] := by
      rw [List.dropWhile_eq_nil_iff]
      intro c member
      exact blank c (List.mem_reverse.mp member)
    rw [List.rdropWhile, List.rdropWhile, List.reverse_append, List.dropWhile_append, none]
    simp

end Append

/-! ## Splitting -/

/-- `s.rsplit(c).next()`: the part after the last separator, all of it when there is none. -/
def afterLast (c : Char) (s : String) : String := onChars (List.rtakeWhile (· ≠ c)) s

section Split

variable {c : Char} {s : String}

/-- Nothing follows a separator that does not occur, and it occurs otherwise. -/
theorem afterFirst_eq_none : afterFirst c s = none ↔ c ∉ s.toList := by
  have dropped : s.toList.dropWhile (· ≠ c) = [] ↔ c ∉ s.toList := by
    rw [List.dropWhile_eq_nil_iff]
    constructor
    · intro all member
      simpa using all c member
    · intro absent other member
      have differs : other ≠ c := fun same => absent (same ▸ member)
      simpa using differs
  rw [← dropped]
  unfold afterFirst
  split
  · rename_i shape
    exact iff_of_true rfl shape
  · rename_i shape
    rw [shape]
    exact iff_of_false nofun (List.cons_ne_nil _ _)

/-- The characters of the first part. -/
theorem mem_of_mem_beforeFirst {other : Char} (member : other ∈ (beforeFirst c s).toList) :
    other ∈ s.toList := by
  rw [beforeFirst, toList_onChars] at member
  exact (List.takeWhile_sublist _).subset member

/-- The separator does not occur in the first part. -/
theorem not_mem_beforeFirst : c ∉ (beforeFirst c s).toList := by
  intro member
  rw [beforeFirst, toList_onChars] at member
  simpa using List.mem_takeWhile_imp member

end Split

end Text
