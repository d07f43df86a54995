set_option autoImplicit false

/-!
# Totals

The sum of a count over a list.
-/

namespace PvNet

/-- The sum of what `count` gives for the elements of a list. -/
def total {α : Type} (count : α → Nat) : List α → Nat
  | [] => 0
  | x :: xs => count x + total count xs

@[simp] theorem total_nil {α : Type} (count : α → Nat) : total count [] = 0 := rfl

@[simp] theorem total_cons {α : Type} (count : α → Nat) (x : α) (xs : List α) :
    total count (x :: xs) = count x + total count xs := rfl

@[simp] theorem total_append {α : Type} (count : α → Nat) (xs ys : List α) :
    total count (xs ++ ys) = total count xs + total count ys := by
  induction xs with
  | nil => simp
  | cons x xs ih => simp [ih, Nat.add_assoc]

theorem total_const {α : Type} (n : Nat) (xs : List α) :
    total (fun _ => n) xs = n * xs.length := by
  induction xs with
  | nil => rfl
  | cons x xs ih => rw [total_cons, ih, List.length_cons, Nat.mul_succ, Nat.add_comm]

end PvNet
