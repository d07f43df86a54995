import Mathlib.Data.List.Basic
set_option autoImplicit false

/-!
# What has happened and not been undone

A statement about a history often says that something happened in it and that nothing
behind it undid that.  One more event settles such a statement in one of three ways.
-/

namespace PvNet

variable {α : Type} {history : List α} {event : α} {happened : α → Prop} {kept : α → Prop}

/-- Something has happened, and whatever came behind it was of a certain kind. -/
def StandsIn (history : List α) (happened : α → Prop) (kept : α → Prop) : Prop :=
  ∃ before event behind, history = before ++ event :: behind ∧ happened event ∧
    ∀ later ∈ behind, kept later

theorem not_standsIn_nil : ¬ StandsIn [] happened kept := by
  rintro ⟨before, event, behind, hnil, -⟩
  exact List.append_ne_nil_of_right_ne_nil before (List.cons_ne_nil _ _) hnil.symm

theorem StandsIn.exists_mem (hstands : StandsIn history happened kept) :
    ∃ event ∈ history, happened event := by
  obtain ⟨before, event, behind, rfl, hevent, -⟩ := hstands
  exact ⟨event, by simp, hevent⟩

/-- An event of a longer history is its last one, or one of the shorter history. -/
theorem exists_split_concat {P : List α → α → List α → Prop} :
    (∃ before first behind, history ++ [event] = before ++ first :: behind ∧
        P before first behind) ↔
      P history event [] ∨ ∃ before first behind, history = before ++ first :: behind ∧
        P before first (behind ++ [event]) := by
  constructor
  · rintro ⟨before, first, behind, hhistory, hfirst⟩
    rcases List.eq_nil_or_concat behind with rfl | ⟨behind, last, rfl⟩
    · obtain ⟨rfl, hevent⟩ := List.append_inj' hhistory rfl
      cases List.singleton_inj.1 hevent
      exact .inl hfirst
    · rw [List.concat_eq_append] at hhistory hfirst
      rw [← List.cons_append, ← List.append_assoc] at hhistory
      obtain ⟨hbefore, hevent⟩ := List.append_inj' hhistory rfl
      cases List.singleton_inj.1 hevent
      exact .inr ⟨before, first, behind, hbefore, hfirst⟩
  · rintro (hevent | ⟨before, first, behind, rfl, hfirst⟩)
    · exact ⟨history, event, [], rfl, hevent⟩
    · exact ⟨before, first, behind ++ [event], by simp, hfirst⟩

/-- What holds of every event of a longer history. -/
theorem forall_split_concat {P : List α → α → List α → Prop} :
    (∀ before first behind, history ++ [event] = before ++ first :: behind →
        P before first behind) ↔
      P history event [] ∧ ∀ before first behind, history = before ++ first :: behind →
        P before first (behind ++ [event]) := by
  simpa using not_congr
    (exists_split_concat (P := fun before first behind => ¬ P before first behind))

/-- What stands after one more event: what has just happened, and what stood before it if the event
has kept that. -/
theorem standsIn_concat :
    StandsIn (history ++ [event]) happened kept ↔
      happened event ∨ (StandsIn history happened kept ∧ kept event) := by
  refine exists_split_concat.trans (or_congr (and_iff_left (List.forall_mem_nil kept)) ?_)
  constructor
  · rintro ⟨before, first, behind, hhistory, hfirst, hkept⟩
    obtain ⟨hbehind, hevent⟩ := List.forall_mem_append.1 hkept
    exact ⟨⟨before, first, behind, hhistory, hfirst, hbehind⟩, hevent event List.mem_cons_self⟩
  · rintro ⟨⟨before, first, behind, hhistory, hfirst, hbehind⟩, hevent⟩
    refine ⟨before, first, behind, hhistory, hfirst, List.forall_mem_append.2 ⟨hbehind, ?_⟩⟩
    exact List.forall_mem_singleton.2 hevent

end PvNet
