import Mathlib.Data.List.TakeWhile
import PvNet.Text.Blank
set_option autoImplicit false

/-!
# Blanks in texts

What has no blanks at its ends is trimmed already, and words with one blank between them
are the words of their text.
-/

namespace PvNet.Text

/-! ## Trimming -/

theorem mem_dropWhile_of_mem {α : Type} {p : α → Bool} {a : α} {as : List α} (hp : p a = false)
    (h : a ∈ as) : a ∈ as.dropWhile p := by
  rw [← List.takeWhile_append_dropWhile (p := p) (l := as), List.mem_append] at h
  rcases h with h | h
  · rw [List.mem_takeWhile_imp h] at hp
    cases hp
  · exact h

/-- Only blanks are trimmed. -/
theorem mem_trim_of_mem {c : Char} {s : String} (hc : isBlank c = false) (h : c ∈ s.toList) :
    c ∈ (trim s).toList := by
  rw [trim, String.toList_ofList, trimChars, List.mem_reverse]
  refine mem_dropWhile_of_mem hc (List.mem_reverse.mpr ?_)
  exact mem_dropWhile_of_mem hc h

theorem dropWhile_eq_self {α : Type} {p : α → Bool} {as : List α}
    (h : ∀ a ∈ as.head?, p a = false) : as.dropWhile p = as := by
  cases as with
  | nil => rfl
  | cons a as => rw [List.dropWhile_cons_of_neg (by rw [h a rfl]; exact Bool.false_ne_true)]

/-- A text without blanks at its ends is trimmed. -/
theorem trim_eq_self {s : String} (hfirst : ∀ c ∈ s.toList.head?, isBlank c = false)
    (hlast : ∀ c ∈ s.toList.getLast?, isBlank c = false) : trim s = s := by
  rw [trim, trimChars, dropWhile_eq_self hfirst, dropWhile_eq_self (by rwa [List.head?_reverse]),
    List.reverse_reverse, String.ofList_toList]

theorem trim_eq_self_of_forall {s : String} (h : ∀ c ∈ s.toList, isBlank c = false) :
    trim s = s :=
  trim_eq_self (fun c hc => h c (List.mem_of_mem_head? hc))
    fun c hc => h c (List.mem_of_getLast? hc)

/-! ## Words -/

/-- Characters that are not blank are added to the run. -/
theorem wordsFrom_append {cs : List Char} (h : ∀ c ∈ cs, isBlank c = false)
    (run rest : List Char) : wordsFrom run (cs ++ rest) = wordsFrom (cs.reverse ++ run) rest := by
  induction cs generalizing run with
  | nil => rfl
  | cons c cs ih =>
    rw [List.forall_mem_cons] at h
    rw [List.cons_append, wordsFrom, h.1, if_neg Bool.false_ne_true, ih h.2, List.reverse_cons,
      List.append_assoc, List.singleton_append]

/-- A text without blanks. -/
structure IsWord (w : String) : Prop where
  ne_nil : w.toList ≠ []
  not_blank : ∀ c ∈ w.toList, isBlank c = false

theorem not_blank_of_mem_head? {ws : List String} (h : ∀ w ∈ ws, IsWord w) :
    ∀ c ∈ (" ".intercalate ws).toList.head?, isBlank c = false := by
  rw [String.toList_intercalate]
  cases ws with
  | nil => simp
  | cons w ws =>
    have hw := h w List.mem_cons_self
    have hfirst (rest : List Char) : ∀ c ∈ (w.toList ++ rest).head?, isBlank c = false := by
      rw [List.head?_append, Option.or_of_isSome (List.isSome_head?.mpr hw.ne_nil)]
      exact fun c hc => hw.not_blank c (List.mem_of_mem_head? hc)
    cases ws with
    | nil => simpa using hfirst []
    | cons next ws =>
      rw [List.map_cons, List.map_cons, List.intercalate_cons_cons, List.append_assoc]
      exact hfirst _

theorem not_blank_of_mem_getLast? {ws : List String} (h : ∀ w ∈ ws, IsWord w) :
    ∀ c ∈ (" ".intercalate ws).toList.getLast?, isBlank c = false := by
  rw [String.toList_intercalate]
  induction ws with
  | nil => simp
  | cons w ws ih =>
    rw [List.forall_mem_cons] at h
    cases ws with
    | nil => simpa using fun c hc => h.1.not_blank c (List.mem_of_getLast? hc)
    | cons next ws =>
      have hne : " ".toList.intercalate ((next :: ws).map String.toList) ≠ [] := by
        have hnext := (h.2 next List.mem_cons_self).ne_nil
        cases ws <;> simp_all
      simp only [List.map_cons] at hne ih ⊢
      rw [List.intercalate_cons_cons, List.getLast?_append,
        Option.or_of_isSome (List.getLast?_isSome.mpr hne)]
      exact ih h.2

/-- Words with one blank between them are trimmed. -/
theorem trim_intercalate {ws : List String} (h : ∀ w ∈ ws, IsWord w) :
    trim (" ".intercalate ws) = " ".intercalate ws :=
  trim_eq_self (not_blank_of_mem_head? h) (not_blank_of_mem_getLast? h)

theorem words_intercalate {ws : List String} (h : ∀ w ∈ ws, IsWord w) :
    words (" ".intercalate ws) = ws := by
  have hblank : isBlank ' ' = true := by decide
  rw [words, String.toList_intercalate, show " ".toList = [' '] from rfl]
  induction ws with
  | nil => rfl
  | cons w ws ih =>
    rw [List.forall_mem_cons] at h
    have hrun : (w.toList.reverse ++ []).isEmpty = false := by
      simpa using h.1.ne_nil
    have hword : String.ofList (w.toList.reverse ++ []).reverse = w := by
      simp
    cases ws with
    | nil =>
      have hall := wordsFrom_append h.1.not_blank [] []
      rw [List.append_nil] at hall
      simp only [List.map_cons, List.map_nil, List.intercalate_singleton, hall, wordsFrom, hrun,
        hword, Bool.false_eq_true, if_false]
    | cons next ws =>
      simp only [List.map_cons] at ih ⊢
      rw [List.intercalate_cons_cons, List.append_assoc, wordsFrom_append h.1.not_blank,
        List.singleton_append, wordsFrom, hblank, if_pos rfl, hrun, if_neg Bool.false_ne_true,
        hword, ih h.2]

end PvNet.Text
