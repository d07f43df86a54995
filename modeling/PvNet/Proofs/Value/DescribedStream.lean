import PvNet.Proofs.Schema.Agreement
import PvNet.Proofs.Value.RoundTrip
import PvNet.Value.Described
set_option autoImplicit false

/-!
# Described values on a connection

A sender writes described values one after the other and may forget its numbers in
between.  The receiver reads every one of them back.  What carries the induction over
the sender's steps is that the two tables are in step after each of them.
-/

namespace PvNet

open Decoder
open InStep (Carries)

/-- Whether a described value can be sent: the value suits the descriptor, all sizes can be written
and the receiver accepts that many levels. -/
structure Described.Sendable (d : Described) : Prop where
  admits : d.field.admits d.value = true
  field_fits : d.field.fits = true
  value_fits : d.value.fits = true
  levels_le : d.field.levels ≤ maxLevels

/-! ## One value -/

theorem Described.fault_encode? (o : ByteOrder) {d : Described}
    (hadmits : d.field.admits d.value = true) (sent : SentTypes) :
    (Described.encode? o (some d) sent).1.fault = none := by
  unfold Described.encode?
  rw [Emission.fault_append, Emission.fault_ofBytes, Option.none_or]
  exact (Field.fault_encodeValue_iff o d.field d.value).2 hadmits

/-- A described value is read if its descriptor is. -/
theorem Described.reads_decode? {o : ByteOrder} {d : Described}
    (hadmits : d.field.admits d.value = true) (hfits : d.value.fits = true)
    {known known' : KnownTypes} {bs : Bytes} {levels : Nat}
    (h : (Field.decodeLevelled maxLevels).Reads o known bs (some ⟨d.field, levels⟩) known') :
    Described.decode?.Reads o known (bs ++ (d.field.encodeValue o d.value).bytes) (some d)
      known' := by
  have hdescriptor : Field.decode?.Reads o known bs (some d.field) known' :=
    h.bind_pure (Reads.pure _ o known')
  have hvalue := Field.reads_decodeValue o known' d.field d.value hadmits hfits
  exact hdescriptor.bind (hvalue.bind_pure (Reads.pure (some d) o known'))

/-- A described value arrives, and the tables are in step again. -/
theorem Described.carries_encode? {o : ByteOrder} {d : Described} (hd : d.Sendable)
    {sent : SentTypes} {known : KnownTypes} (h : InStep [] sent known) :
    Carries [] o sent known
      ((Described.encode? o (some d) sent).1.bytes, (Described.encode? o (some d) sent).2)
      Described.decode? (some d) := by
  obtain ⟨known', hfield, hstep, hextends⟩ :=
    Field.carries_encode (o := o) d.field h (fun _ hg => nomatch hg) hd.levels_le hd.field_fits
  refine ⟨known', ?_, hstep, hextends⟩
  unfold Described.encode?
  rw [Emission.bytes_ofBytes_append]
  exact Described.reads_decode? hd.admits hd.value_fits hfield

/-- The absence of a value is a single octet and leaves both tables alone. -/
theorem Described.reads_null (o : ByteOrder) (known : KnownTypes) :
    Described.decode?.Reads o known [nullCode] none known := by
  have hlevelled : (Field.decodeLevelled maxLevels).Reads o known [nullCode] none known := by
    rw [Field.decodeLevelled]
    refine Reads.octet_bind o known ?_
    rw [if_pos rfl]
    exact Reads.pure none o known
  have hdescriptor : Field.decode?.Reads o known [nullCode] none known :=
    hlevelled.bind_pure (Reads.pure none o known)
  exact hdescriptor.bind_pure (Reads.pure none o known)

/-! ## The steps of a sender -/

/-- What a sender does: it writes a described value or its absence, or forgets its numbers. -/
inductive SenderStep where
  | write (item : Option Described)
  | clear

namespace SenderStep

def run (o : ByteOrder) : SenderStep → SentTypes → Emission × SentTypes
  | .write item, sent => Described.encode? o item sent
  | .clear, sent => (.empty, sent.clear)

/-- The steps of a sender in order. -/
def runAll (o : ByteOrder) : List SenderStep → SentTypes → Emission × SentTypes
  | [], sent => (.empty, sent)
  | step :: steps, sent =>
    let (e, sent') := step.run o sent
    let (e', sent'') := runAll o steps sent'
    (e ++ e', sent'')

/-- What the steps of a sender write, in order. -/
def written : List SenderStep → List (Option Described)
  | [] => []
  | .write item :: steps => item :: written steps
  | .clear :: steps => written steps

/-- Whether everything that the steps write can be sent. -/
def AllSendable (steps : List SenderStep) : Prop :=
  ∀ d, some d ∈ written steps → d.Sendable

variable {o : ByteOrder} {sent : SentTypes} {known : KnownTypes}

theorem runAll_write (item : Option Described) (steps : List SenderStep) :
    runAll o (.write item :: steps) sent =
      ((Described.encode? o item sent).1 ++
          (runAll o steps (Described.encode? o item sent).2).1,
        (runAll o steps (Described.encode? o item sent).2).2) := rfl

theorem runAll_clear (steps : List SenderStep) :
    runAll o (.clear :: steps) sent =
      (.empty ++ (runAll o steps sent.clear).1, (runAll o steps sent.clear).2) := rfl

/-- The receiver of a sender that is in step reads what the sender writes, step by step. -/
theorem carries_runAll (steps : List SenderStep) (hsteps : AllSendable steps)
    (h : InStep [] sent known) :
    (runAll o steps sent).1.fault = none ∧
      ∃ known', (times (written steps).length Described.decode?).Reads o known
        (runAll o steps sent).1.bytes (written steps) known' ∧
        InStep [] (runAll o steps sent).2 known' := by
  induction steps generalizing sent known with
  | nil => exact ⟨rfl, known, Reads.times_zero _ o known, h⟩
  | cons step steps ih =>
    cases step with
    | clear =>
      rw [runAll_clear]
      have hbytes : (Emission.empty ++ (runAll o steps sent.clear).1) =
          (runAll o steps sent.clear).1 := rfl
      rw [hbytes]
      exact ih hsteps h.clear
    | write item =>
      have hrest : AllSendable steps := fun d hd => hsteps d (List.mem_cons_of_mem _ hd)
      rw [runAll_write]
      cases item with
      | none =>
        obtain ⟨hfault, known', hreads, hstep⟩ := ih hrest h
        exact ⟨hfault, known', Reads.times_succ (Described.reads_null o known) hreads, hstep⟩
      | some d =>
        have hd : d.Sendable := hsteps d (List.mem_cons_self ..)
        have hfirst := Described.fault_encode? o hd.admits sent
        obtain ⟨known', hreads, hstep, _⟩ := Described.carries_encode? (o := o) hd h
        obtain ⟨hfault, known'', hreads', hstep'⟩ := ih hrest hstep
        refine ⟨?_, known'', ?_, hstep'⟩
        · rw [Emission.fault_append, hfirst, Option.none_or, hfault]
        · rw [Emission.bytes_append hfirst]
          exact Reads.times_succ hreads hreads'

end SenderStep

/-- Whatever can be sent is received as it was sent, in order and to the last octet, whatever the
capacity of the sender's table and wherever the sender forgets its numbers. -/
theorem received_as_sent (o : ByteOrder) (capacity : Nat) (steps : List SenderStep)
    (h : SenderStep.AllSendable steps) :
    ∃ bytes known,
      (SenderStep.runAll o steps (SentTypes.withCapacity capacity)).1 = .ofBytes bytes ∧
      ∀ rest, (times (SenderStep.written steps).length Described.decode?).run o {} (bytes ++ rest) =
        ⟨.ok (SenderStep.written steps), known, rest⟩ := by
  obtain ⟨hfault, known, hreads, _⟩ :=
    SenderStep.carries_runAll (o := o) steps h (InStep.fresh capacity)
  exact ⟨_, known, Emission.eq_ofBytes hfault, hreads⟩

/-- A time stamp and an array of time stamps, the second of which is absent. -/
def stampedHistory : Described where
  field := .struct ⟨"history",
    [("now", .struct ⟨"time_t", [("seconds", .scalar .long)]⟩),
      ("past", .structArray ⟨"time_t", [("seconds", .scalar .long)]⟩)]⟩
  value := .struct
    [.struct [.scalar (.long 1700000000)], .structArray [some [.scalar (.long (-1))], none]]

/-- The sender's table is full before the array is reached; then the sender starts afresh. -/
theorem stampedHistory_received :
    SenderStep.AllSendable [.write (some stampedHistory), .clear, .write none,
        .write (some stampedHistory)] ∧
      ∃ bytes known,
        (SenderStep.runAll .little [.write (some stampedHistory), .clear, .write none,
          .write (some stampedHistory)] (SentTypes.withCapacity 2)).1 = .ofBytes bytes ∧
        ∀ rest, (times 3 Described.decode?).run .little {} (bytes ++ rest) =
          ⟨.ok [some stampedHistory, none, some stampedHistory], known, rest⟩ := by
  have hsendable : stampedHistory.Sendable :=
    ⟨by decide, by decide, by decide, by decide⟩
  have hall : SenderStep.AllSendable [.write (some stampedHistory), .clear, .write none,
      .write (some stampedHistory)] := by
    intro d hd
    have hd' : some d = some stampedHistory := by simpa [SenderStep.written] using hd
    rw [Option.some.inj hd']
    exact hsendable
  exact ⟨hall, received_as_sent .little 2 _ hall⟩

end PvNet
