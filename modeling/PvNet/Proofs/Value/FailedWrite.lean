import PvNet.Proofs.Schema.LostNumbers
import PvNet.Proofs.Value.DescribedStream
set_option autoImplicit false

/-!
# After a write that failed

The descriptor of a value is numbered before the value is looked at.  If the value does not suit the
descriptor, the octets are thrown away and the numbers that they gave stay: they are lost.  What is
written later arrives as long as it does not come upon a lost number; otherwise it does not arrive.

The induction is over the later writes.  It starts from tables that need not be in step and carries
`Since`, which says what the tables come to as long as everything has arrived.
-/

namespace PvNet

open Decoder

variable {o : ByteOrder} {sent₀ sent sent' : SentTypes} {known₀ known : KnownTypes}

/-- Whether a sender that writes an item uses only numbers that mean the same to the receiver. -/
def Described.resolves (sent : SentTypes) (known : KnownTypes) (item : Option Described) : Bool :=
  item.all fun d => d.field.resolves sent known

/-! ## One item -/

/-- A descriptor that is read as something else makes the whole item something else. -/
theorem Described.misses_decode? {d : Described} {bs cs : Bytes}
    (h : (Field.decodeLevelled maxLevels).Misses o known bs d.field.Wrong) :
    Described.decode?.Misses o known (bs ++ cs) (· ≠ some d) := by
  have hdescriptor : Field.decode?.Misses o known bs (· ≠ some d.field) :=
    h.bind fun _ hr => Only.pure hr
  refine (hdescriptor.append cs).bind fun r hr => ?_
  cases r with
  | none => exact Only.pure nofun
  | some f =>
    refine Only.bind_of_forall fun _ => Only.pure fun heq => hr ?_
    rw [← Option.some.inj heq]

theorem Described.conveys_encode? {d : Described} (hd : d.Sendable)
    (h : Since sent₀ known₀ [] sent known) :
    Conveys sent₀ known₀ [] o sent known
      ((Described.encode? o (some d) sent).1.bytes, (Described.encode? o (some d) sent).2)
      (d.field.resolves sent₀ known₀) Described.decode? (some d) (· ≠ some d) := by
  have hfield := Field.conveys_encode (o := o) d.field h (fun _ hg => nomatch hg) hd.levels_le
    hd.field_fits
  unfold Described.encode?
  rw [Emission.bytes_ofBytes_append]
  refine ⟨fun hyes => ?_, fun hno => Described.misses_decode? (hfield.misses hno)⟩
  obtain ⟨known', hlevelled, hsince, hextends⟩ := hfield.arrives hyes
  exact ⟨known', Described.reads_decode? hd.admits hd.value_fits hlevelled, hsince, hextends⟩

/-- An item arrives if it resolves, and is read as another one at most if it does not. -/
theorem Described.conveys_item {item : Option Described} (hitem : ∀ d, item = some d → d.Sendable)
    (h : Since sent₀ known₀ [] sent known) :
    Conveys sent₀ known₀ [] o sent known
      ((Described.encode? o item sent).1.bytes, (Described.encode? o item sent).2)
      (Described.resolves sent₀ known₀ item) Described.decode? item (· ≠ item) := by
  cases item with
  | none =>
    exact ⟨fun _ => ⟨known, Described.reads_null o known, h, .refl sent⟩, fun hno => nomatch hno⟩
  | some d => exact Described.conveys_encode? (hitem d rfl) h

/-! ## Later items -/

namespace SenderStep

variable {item : Option Described} {items : List (Option Described)}

theorem sendable_head (hitems : ∀ d, some d ∈ item :: items → d.Sendable) :
    ∀ d, item = some d → d.Sendable :=
  fun d hd => hitems d (hd ▸ List.mem_cons_self ..)

theorem sendable_tail (hitems : ∀ d, some d ∈ item :: items → d.Sendable) :
    ∀ d, some d ∈ items → d.Sendable :=
  fun d hd => hitems d (List.mem_cons_of_mem item hd)

theorem fault_encode?_item (hitem : ∀ d, item = some d → d.Sendable) :
    (Described.encode? o item sent).1.fault = none := by
  cases item with
  | none => rfl
  | some d => exact Described.fault_encode? o (hitem d rfl).admits sent

/-- Whether items can be written does not depend on the tables. -/
theorem fault_runAll_write (hitems : ∀ d, some d ∈ items → d.Sendable) :
    (runAll o (items.map .write) sent).1.fault = none := by
  induction items generalizing sent with
  | nil => rfl
  | cons item items ih =>
    rw [List.map_cons, runAll_write, Emission.fault_append,
      fault_encode?_item (sendable_head hitems), Option.none_or, ih (sendable_tail hitems)]

/-- Later items arrive if all of them resolve, and are read as other ones at most if one does not. -/
theorem conveys_runAll (hitems : ∀ d, some d ∈ items → d.Sendable)
    (h : Since sent₀ known₀ [] sent known) :
    Conveys sent₀ known₀ [] o sent known
      ((runAll o (items.map .write) sent).1.bytes, (runAll o (items.map .write) sent).2)
      (items.all (Described.resolves sent₀ known₀)) (times items.length Described.decode?) items
      (· ≠ items) := by
  induction items generalizing sent known with
  | nil =>
    exact ⟨fun _ => ⟨known, Reads.times_zero _ o known, h, .refl sent⟩, fun hno => nomatch hno⟩
  | cons item items ih =>
    have hhere := Described.conveys_item (o := o) (sendable_head hitems) h
    rw [List.map_cons, runAll_write, Emission.bytes_append (fault_encode?_item
      (sendable_head hitems)), List.all_cons]
    cases hfirst : Described.resolves sent₀ known₀ item with
    | false =>
      rw [Bool.false_and]
      refine ⟨fun hyes => (nomatch hyes), fun _ => (hhere.misses hfirst).times_succ ?_ _⟩
      exact fun item' items' hitem heq => hitem (List.cons.inj heq).1
    | true =>
      obtain ⟨known', hreads, hsince, hextends⟩ := hhere.arrives hfirst
      have hbehind := ih (sendable_tail hitems) hsince
      rw [Bool.true_and]
      refine ⟨fun hyes => ?_, fun hno => ?_⟩
      · obtain ⟨known'', hreads', hsince', hextends'⟩ := hbehind.arrives hyes
        exact ⟨known'', Reads.times_succ hreads hreads', hsince', hextends.trans hextends'⟩
      · refine hreads.times_succ_misses (hbehind.misses hno) ?_
        exact fun items' hitems' heq => hitems' (List.cons.inj heq).2

end SenderStep

/-! ## A failed write and what follows it -/

/-- A write only fails because the value does not suit its descriptor. -/
theorem Described.fault_encode?_mismatch {d : Described} {e : WireError}
    (h : (Described.encode? o (some d) sent).1.fault = some e) : ∃ what, e = .mismatch what := by
  unfold Described.encode? at h
  rw [Emission.fault_append, Emission.fault_ofBytes, Option.none_or] at h
  exact Field.fault_encodeValue_mismatch o d.field d.value e h

/-- A write fails and its octets are thrown away, between a sender and a receiver that were in step.
All numbers that are lost were given by that write.  What is written later arrives exactly if none
of it comes upon a lost number. -/
theorem received_after_failure {d : Described} {written : Emission} {e : WireError}
    {items : List (Option Described)} (h : InStep [] sent known) (hknown : known.Reached)
    (hwrite : Described.encode? o (some d) sent = (written, sent'))
    (hfault : written.fault = some e) (hitems : ∀ d', some d' ∈ items → d'.Sendable) :
    (∃ what, e = .mismatch what) ∧
      (∀ f n, sent'.number? f = some n → known.field? n ≠ some f → sent.number? f = none) ∧
      ∃ bytes, (SenderStep.runAll o (items.map .write) sent').1 = .ofBytes bytes ∧
        if items.all (Described.resolves sent' known) then
          ∃ known', ∀ rest, (times items.length Described.decode?).run o known (bytes ++ rest) =
            ⟨.ok items, known', rest⟩
        else
          ∀ rest, ((times items.length Described.decode?).run o known (bytes ++ rest)).result ≠
            .ok items := by
  have hgrows : sent.Grows sent' := by
    have hencode := Field.grows_encode o d.field h.numbered
    rwa [show (d.field.encode o sent).2 = sent' from congrArg Prod.snd hwrite] at hencode
  refine ⟨Described.fault_encode?_mismatch (by rw [hwrite, hfault]), ?_, ?_⟩
  · intro f n hf hlost
    cases hold : sent.number? f with
    | none => rfl
    | some m =>
      obtain rfl : m = n := Option.some.inj ((hgrows.kept f m hold).symm.trans hf)
      have hfind := h.agrees f m hold List.not_mem_nil
      exact absurd (by rw [KnownTypes.field?, hfind]; rfl) hlost
  · have hconveys := SenderStep.conveys_runAll (o := o) hitems
      (.start hgrows.numbered fun _ _ _ _ => hknown.sound.find?_of_field?)
    refine ⟨_, Emission.eq_ofBytes (SenderStep.fault_runAll_write hitems), ?_⟩
    cases hall : items.all (Described.resolves sent' known) with
    | true =>
      rw [if_pos rfl]
      obtain ⟨known', hreads, -, -⟩ := hconveys.arrives hall
      exact ⟨known', hreads⟩
    | false =>
      rw [if_neg Bool.false_ne_true]
      exact fun rest heq => hconveys.misses hall rest items heq rfl

/-- A point with one coordinate. -/
def point : Described := ⟨.struct ⟨"", [("x", .scalar .int)]⟩, .struct [.scalar (.int 1)]⟩

/-- The descriptor of a point, and a value that does not suit it. -/
def misfit : Described := ⟨point.field, .struct [.scalar (.string "a")]⟩

/-- A time stamp is not touched by the failure of a point. -/
theorem stamp_received_after_failure :
    ∃ bytes known, (SenderStep.runAll .big ([some stampedHistory, none].map .write)
        (Described.encode? .big (some misfit) (SentTypes.withCapacity 8)).2).1 = .ofBytes bytes ∧
      ∀ rest, (times 2 Described.decode?).run .big {} (bytes ++ rest) =
        ⟨.ok [some stampedHistory, none], known, rest⟩ := by
  have hitems : ∀ d, some d ∈ [some stampedHistory, none] → d.Sendable := by
    intro d hd
    obtain rfl : d = stampedHistory := by simpa using hd
    exact ⟨by decide, by decide, by decide, by decide⟩
  obtain ⟨-, -, bytes, hbytes, hreads⟩ := received_after_failure (o := .big)
    (InStep.fresh 8) .empty (d := misfit) rfl rfl hitems
  rw [if_pos (by decide)] at hreads
  obtain ⟨known, hreads⟩ := hreads
  exact ⟨bytes, known, hbytes, hreads⟩

/-- A point that follows the failure is sent by a number that the receiver has never seen. -/
theorem point_lost_after_failure :
    InStep [] (SentTypes.withCapacity 8) {} ∧
      (Described.encode? .big (some misfit) (SentTypes.withCapacity 8)).1.fault =
        some (Field.scalar .int).mismatch ∧
      point.Sendable ∧
      (SenderStep.runAll .big [.write (some point)]
        (Described.encode? .big (some misfit) (SentTypes.withCapacity 8)).2).1 =
          .ofBytes [0xFE, 0, 1, 0, 0, 0, 1] ∧
      ∀ rest, ((times 1 Described.decode?).run .big {} ([0xFE, 0, 1, 0, 0, 0, 1] ++ rest)).result =
        .error (.unknownReference 1) := by
  refine ⟨InStep.fresh 8, by decide, ⟨by decide, by decide, by decide, by decide⟩, by decide,
    fun rest => ?_⟩
  have hunknown := Field.run_decodeLevelled_unknown .big maxLevels
    (show ({} : KnownTypes).find? 1 = none from rfl) ([0, 0, 0, 1] ++ rest)
  have hitem : Described.decode?.run .big {} ([0xFE, 0, 1, 0, 0, 0, 1] ++ rest) =
      ⟨.error (.unknownReference 1), {}, [0, 0, 0, 1] ++ rest⟩ :=
    run_bind_of_error (run_bind_of_error hunknown)
  rw [times_succ, run_bind_of_error hitem]

end PvNet
