import PvNet.Value.Encode
set_option autoImplicit false

/-!
# Laws of emissions

An encoder that stops part way leaves a fault.  One emission after another is
without fault exactly if both are, and then the octets stand one after the other.
-/

namespace PvNet

namespace Emission

@[simp] theorem fault_empty : empty.fault = none := rfl

@[simp] theorem bytes_empty : empty.bytes = [] := rfl

@[simp] theorem fault_ofBytes (bs : Bytes) : (ofBytes bs).fault = none := rfl

@[simp] theorem bytes_ofBytes (bs : Bytes) : (ofBytes bs).bytes = bs := rfl

@[simp] theorem fault_fail (e : WireError) : (fail e).fault = some e := rfl

/-- The first fault is the one that is reported. -/
@[simp] theorem fault_append (a b : Emission) : (a ++ b).fault = a.fault.or b.fault := by
  show (andThen a b).fault = _
  unfold andThen
  cases h : a.fault with
  | none => rfl
  | some e => exact h

theorem bytes_append {a b : Emission} (h : a.fault = none) :
    (a ++ b).bytes = a.bytes ++ b.bytes := by
  show (andThen a b).bytes = _
  unfold andThen
  rw [h]

@[simp] theorem bytes_ofBytes_append (bs : Bytes) (b : Emission) :
    (ofBytes bs ++ b).bytes = bs ++ b.bytes := bytes_append rfl

theorem append_empty (a : Emission) : a ++ empty = a := by
  obtain ⟨bytes, fault⟩ := a
  show andThen _ _ = _
  cases fault <;> simp [andThen, empty]

theorem append_assoc (a b c : Emission) : a ++ b ++ c = a ++ (b ++ c) := by
  obtain ⟨abytes, afault⟩ := a
  obtain ⟨bbytes, bfault⟩ := b
  show andThen (andThen _ _) _ = andThen _ (andThen _ _)
  cases afault <;> cases bfault <;> simp [andThen]

/-- An emission without fault is its octets. -/
theorem eq_ofBytes {a : Emission} (h : a.fault = none) : a = ofBytes a.bytes := by
  obtain ⟨bytes, fault⟩ := a
  exact congrArg (Emission.mk bytes) h

variable {α : Type} (encode : α → Emission)

@[simp] theorem ofList_nil : ofList encode [] = empty := rfl

@[simp] theorem ofList_cons (a : α) (as : List α) :
    ofList encode (a :: as) = encode a ++ ofList encode as := rfl

theorem ofList_append (as bs : List α) :
    ofList encode (as ++ bs) = ofList encode as ++ ofList encode bs := by
  induction as with
  | nil => rfl
  | cons a as ih => rw [List.cons_append, ofList_cons, ih, ofList_cons, append_assoc]

theorem fault_ofList_eq_none_iff (as : List α) :
    (ofList encode as).fault = none ↔ ∀ a ∈ as, (encode a).fault = none := by
  induction as with
  | nil => simp
  | cons a as ih => simp [ih]

theorem bytes_ofList {as : List α} (h : (ofList encode as).fault = none) :
    (ofList encode as).bytes = as.flatMap fun a => (encode a).bytes := by
  induction as with
  | nil => rfl
  | cons a as ih =>
    rw [ofList_cons, fault_append, Option.or_eq_none_iff] at h
    rw [ofList_cons, bytes_append h.1, ih h.2, List.flatMap_cons]

/-- What all encoders say of their faults holds of the fault of the list. -/
theorem fault_ofList {p : WireError → Prop} (h : ∀ a e, (encode a).fault = some e → p e)
    (as : List α) (e : WireError) (he : (ofList encode as).fault = some e) : p e := by
  induction as with
  | nil => simp at he
  | cons a as ih =>
    rw [ofList_cons, fault_append, Option.or_eq_some_iff] at he
    rcases he with he | ⟨_, he⟩
    · exact h a e he
    · exact ih he

end Emission

end PvNet
