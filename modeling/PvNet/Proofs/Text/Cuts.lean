import PvNet.Text.Blank
set_option autoImplicit false

/-!
# Texts cut at a character

A text is cut at the first occurrence of a separator, at the last one or at all of
them.  What the parts are is said by the text that they make with the separators
between them and by which of them have none inside.
-/

namespace PvNet.Text

theorem takeWhile_ne {separator : Char} {cs : List Char} (h : separator ∉ cs)
    (rest : List Char) (hrest : rest.takeWhile (· != separator) = []) :
    (cs ++ rest).takeWhile (· != separator) = cs := by
  have hcs : ∀ c ∈ cs, (c != separator) = true := fun c hc =>
    bne_iff_ne.mpr fun heq => h (heq ▸ hc)
  rw [List.takeWhile_append_of_pos hcs, hrest, List.append_nil]

/-! ## The first separator -/

theorem cutFirst?_of_not_mem {separator : Char} {s : String} (h : separator ∉ s.toList) :
    cutFirst? separator s = none := by
  have htake := takeWhile_ne h [] rfl
  rw [List.append_nil] at htake
  simp only [cutFirst?, htake, List.drop_length]

/-- The first separator is the one in front of which there is no other. -/
theorem cutFirst?_append {separator : Char} {front : String} (h : separator ∉ front.toList)
    (back : String) :
    cutFirst? separator (front ++ String.singleton separator ++ back) = some (front, back) := by
  have htake := takeWhile_ne h (separator :: back.toList) (by simp)
  simp [cutFirst?, htake]

/-- A text has no separator, or a first one. -/
theorem cutFirst?_cases (separator : Char) (s : String) :
    (separator ∉ s.toList ∧ cutFirst? separator s = none) ∨
      ∃ front back : String, separator ∉ front.toList ∧
        s = front ++ String.singleton separator ++ back ∧
        cutFirst? separator s = some (front, back) := by
  by_cases hmem : separator ∈ s.toList
  · obtain ⟨front, back, hs, hfront⟩ := List.eq_append_cons_of_mem hmem
    have hs : s = String.ofList front ++ String.singleton separator ++ String.ofList back := by
      rw [← String.toList_inj]
      simpa using hs
    have hfront : separator ∉ (String.ofList front).toList := by simpa using hfront
    exact .inr ⟨_, _, hfront, hs, hs ▸ cutFirst?_append hfront _⟩
  · exact .inl ⟨hmem, cutFirst?_of_not_mem hmem⟩

/-! ## The last separator -/

theorem cutLast?_of_not_mem {separator : Char} {s : String} (h : separator ∉ s.toList) :
    cutLast? separator s = none := by
  have hrev : separator ∉ s.toList.reverse := fun hmem => h (List.mem_reverse.mp hmem)
  have htake := takeWhile_ne hrev [] rfl
  rw [List.append_nil] at htake
  have hdrop : s.toList.reverse.drop s.toList.length = [] := by simp
  simp [cutLast?, htake, hdrop]

/-- The last separator is the one behind which there is no other. -/
theorem cutLast?_append {separator : Char} {back : String} (h : separator ∉ back.toList)
    (front : String) :
    cutLast? separator (front ++ String.singleton separator ++ back) = some (front, back) := by
  have hrev : separator ∉ back.toList.reverse := fun hmem => h (List.mem_reverse.mp hmem)
  have htake := takeWhile_ne hrev (separator :: front.toList.reverse) (by simp)
  simp [cutLast?, htake]

/-- A text has no separator, or a last one. -/
theorem cutLast?_cases (separator : Char) (s : String) :
    (separator ∉ s.toList ∧ cutLast? separator s = none) ∨
      ∃ front back : String, separator ∉ back.toList ∧
        s = front ++ String.singleton separator ++ back ∧
        cutLast? separator s = some (front, back) := by
  by_cases hmem : separator ∈ s.toList
  · obtain ⟨back, front, hrev, hback⟩ :=
      List.eq_append_cons_of_mem (List.mem_reverse.mpr hmem)
    have hs : s = String.ofList front.reverse ++ String.singleton separator ++
        String.ofList back.reverse := by
      rw [← String.toList_inj]
      simpa using congrArg List.reverse hrev
    have hback : separator ∉ (String.ofList back.reverse).toList := by simpa using hback
    exact .inr ⟨_, _, hback, hs, hs ▸ cutLast?_append hback _⟩
  · exact .inl ⟨hmem, cutLast?_of_not_mem hmem⟩

/-! ## All separators -/

theorem mem_intercalate {c : Char} {separator : List Char} {parts : List (List Char)}
    (h : c ∈ separator.intercalate parts) : c ∈ separator ∨ ∃ part ∈ parts, c ∈ part := by
  induction parts with
  | nil => simp at h
  | cons part parts ih =>
    cases parts with
    | nil => exact .inr ⟨part, List.mem_cons_self, by simpa using h⟩
    | cons next parts =>
      rw [List.intercalate_cons_cons, List.mem_append, List.mem_append] at h
      rcases h with (h | h) | h
      · exact .inr ⟨part, List.mem_cons_self, h⟩
      · exact .inl h
      · rcases ih h with h | ⟨p, hp, hc⟩
        · exact .inl h
        · exact .inr ⟨p, List.mem_cons_of_mem part hp, hc⟩

/-- What holds of the separator and of all parts holds of the text that they make. -/
theorem forall_mem_intercalate {P : Char → Prop} {separator : String} {parts : List String}
    (hseparator : ∀ c ∈ separator.toList, P c) (hparts : ∀ part ∈ parts, ∀ c ∈ part.toList, P c) :
    ∀ c ∈ (separator.intercalate parts).toList, P c := by
  intro c hc
  rw [String.toList_intercalate] at hc
  rcases mem_intercalate hc with h | ⟨cs, hcs, h⟩
  · exact hseparator c h
  · obtain ⟨part, hpart, rfl⟩ := List.mem_map.mp hcs
    exact hparts part hpart c h

theorem fields_append (separator : Char) (front back : String) :
    fields separator (front ++ String.singleton separator ++ back) =
      fields separator front ++ fields separator back := by
  simp [fields, List.splitOn_append_cons_self]

theorem fields_of_not_mem {separator : Char} {s : String} (h : separator ∉ s.toList) :
    fields separator s = [s] := by
  rw [fields, List.splitOn_eq_singleton h, List.map_singleton, String.ofList_toList]

/-- Every other character of a text stands in one of the fields. -/
theorem exists_field_of_mem {separator c : Char} {s : String} (hne : c ≠ separator)
    (h : c ∈ s.toList) : ∃ part ∈ fields separator s, c ∈ part.toList := by
  have hs : [separator].intercalate (s.toList.splitOn separator) = s.toList :=
    List.intercalate_splitOn separator
  rw [← hs] at h
  rcases mem_intercalate h with h | ⟨cs, hcs, hc⟩
  · exact absurd (List.mem_singleton.mp h) hne
  · exact ⟨String.ofList cs, List.mem_map_of_mem hcs, by rwa [String.toList_ofList]⟩

/-- Parts without the separator are the fields of the text that has separators between them. -/
theorem fields_eq_iff {separator : Char} {s : String} {parts : List String} (hne : parts ≠ [])
    (hparts : ∀ part ∈ parts, separator ∉ part.toList) :
    fields separator s = parts ↔ s = (String.singleton separator).intercalate parts := by
  have hmap :
      fields separator s = parts ↔ s.toList.splitOn separator = parts.map String.toList := by
    rw [fields]
    constructor
    · rintro rfl
      simp [List.map_map, Function.comp_def]
    · intro h
      rw [h]
      simp [List.map_map, Function.comp_def]
  rw [hmap, ← String.toList_inj, String.toList_intercalate, String.toList_singleton]
  constructor
  · intro h
    rw [← h]
    exact (List.intercalate_splitOn separator).symm
  · intro h
    rw [h]
    refine List.splitOn_intercalate separator (fun cs hcs => ?_) (by simpa using hne)
    obtain ⟨part, hpart, rfl⟩ := List.mem_map.mp hcs
    exact hparts part hpart

end PvNet.Text
