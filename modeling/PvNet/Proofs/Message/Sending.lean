import PvNet.Message.Stream
import PvNet.Proofs.Message.Encoding
set_option autoImplicit false

/-!
# What reaches a sink

A sink takes the octets of a message piece by piece, and whatever it answers it has
taken a prefix of them, all of them if the write succeeded.  `Sink.Gained` carries this
through writes, flushes and whole sequences of calls to a writer: as long as no call
fails because of the sink, the sink holds the octets of the messages written so far,
one after the other.
-/

namespace PvNet

/-- Whether writing goes on after an answer: something was taken, or the write is made again. -/
def StreamWrite.goesOn : StreamWrite → Bool
  | .accepts count => 0 < count
  | .failed kind => Sink.isRetried kind

namespace Sink

/-- The sink only delays: every write and every flush goes on. -/
structure Reliable (s : Sink) : Prop where
  writes_go_on : ∀ answer ∈ s.writes, answer.goesOn = true
  flushes_go_on : ∀ answer ∈ s.flushes, answer.all isRetried = true

/-- The next `count` writes fail for good. -/
def Broken (count : Nat) (s : Sink) : Prop :=
  count ≤ s.writes.length ∧ ∀ answer ∈ s.writes.take count, answer.goesOn = false

instance (count : Nat) (s : Sink) : Decidable (s.Broken count) :=
  inferInstanceAs (Decidable (_ ∧ _))

/-- The second sink is the first one later, when it has taken these octets. -/
structure Gained (s : Sink) (taken : Bytes) (s' : Sink) : Prop where
  received_eq : s'.received = s.received ++ taken
  writes_suffix : s'.writes <:+ s.writes
  flushes_suffix : s'.flushes <:+ s.flushes

variable {s s' s'' : Sink} {bs cs : Bytes}

theorem Gained.refl (s : Sink) : s.Gained [] s :=
  ⟨(List.append_nil _).symm, List.suffix_refl _, List.suffix_refl _⟩

theorem Gained.trans (h : s.Gained bs s') (h' : s'.Gained cs s'') : s.Gained (bs ++ cs) s'' := by
  refine ⟨?_, h'.writes_suffix.trans h.writes_suffix, h'.flushes_suffix.trans h.flushes_suffix⟩
  rw [h'.received_eq, h.received_eq, List.append_assoc]

theorem Gained.reliable (h : s.Gained bs s') (hs : s.Reliable) : s'.Reliable :=
  ⟨fun answer ha => hs.writes_go_on answer (h.writes_suffix.subset ha),
    fun answer ha => hs.flushes_go_on answer (h.flushes_suffix.subset ha)⟩

theorem Broken.mono {n k : Nat} (h : s.Broken n) (hle : k ≤ n) : s.Broken k :=
  ⟨Nat.le_trans hle h.1, fun answer ha =>
    h.2 answer ((List.take_prefix_take_left hle).subset ha)⟩

/-! ## Writes and flushes -/

/-- Whatever a sink answers, it has taken a prefix, and all if the write succeeded. -/
theorem putWith_cases (bs : Bytes) (s : Sink) (writes : List StreamWrite) :
    ∃ failure taken later,
      putWith bs s writes = (failure, { s with writes := later, received := s.received ++ taken }) ∧
        taken <+: bs ∧ later <:+ writes ∧ (failure = none → taken = bs) ∧
        ((∀ answer ∈ writes, answer.goesOn = true) → failure = none) := by
  induction writes generalizing bs s with
  | nil =>
    cases bs with
    | nil => exact ⟨none, [], [], by simp [putWith]⟩
    | cons b bs => exact ⟨none, b :: bs, [], by simp [putWith]⟩
  | cons answer writes ih =>
    cases bs with
    | nil => exact ⟨none, [], answer :: writes, by simp [putWith]⟩
    | cons b bs =>
      have hsuffix : writes <:+ answer :: writes := List.suffix_cons answer writes
      cases answer with
      | failed kind =>
        by_cases hretried : isRetried kind = true
        · obtain ⟨failure, taken, later, hrun, hprefix, hlater, hall, hreliable⟩ := ih (b :: bs) s
          refine ⟨failure, taken, later, ?_, hprefix, hlater.trans hsuffix, hall, fun hgo => ?_⟩
          · rw [putWith, if_pos hretried, hrun]
          · exact hreliable fun a ha => hgo a (List.mem_cons_of_mem _ ha)
        · refine ⟨some (.io ⟨kind, none⟩), [], writes, ?_, List.nil_prefix, hsuffix, nofun, ?_⟩
          · rw [putWith, if_neg hretried, List.append_nil]
          · exact fun hgo => absurd (hgo _ (List.mem_cons_self ..)) hretried
      | accepts count =>
        cases count with
        | zero =>
          refine ⟨some .connectionClosed, [], writes, ?_, List.nil_prefix, hsuffix, nofun, ?_⟩
          · rw [putWith, List.append_nil]
          · exact fun hgo => absurd (hgo _ (List.mem_cons_self ..)) (by decide)
        | succ n =>
          -- The sink takes `n + 1` octets, and the rest of the message follows.
          obtain ⟨failure, taken, later, hrun, hprefix, hlater, hall, hreliable⟩ :=
            ih (bs.drop n) { s with received := s.received ++ b :: bs.take n }
          have hsplit : b :: bs = (b :: bs.take n) ++ bs.drop n := by
            rw [List.cons_append, List.take_append_drop]
          refine ⟨failure, (b :: bs.take n) ++ taken, later, ?_, ?_, hlater.trans hsuffix,
            fun hnone => ?_, fun hgo => ?_⟩
          · rw [putWith, hrun, ← List.append_assoc]
          · rw [hsplit]
            exact (List.prefix_append_right_inj _).2 hprefix
          · rw [hall hnone, ← hsplit]
          · exact hreliable fun a ha => hgo a (List.mem_cons_of_mem _ ha)

theorem exists_gained_put (bs : Bytes) (s : Sink) :
    ∃ taken, taken <+: bs ∧ s.Gained taken (s.put bs).2 ∧ ((s.put bs).1 = none → taken = bs) := by
  obtain ⟨failure, taken, later, hrun, hprefix, hlater, hall, _⟩ := putWith_cases bs s s.writes
  have hput : s.put bs = (failure, { s with writes := later, received := s.received ++ taken }) :=
    hrun
  rw [hput]
  exact ⟨taken, hprefix, ⟨rfl, hlater, List.suffix_refl _⟩, hall⟩

theorem Reliable.put (hs : s.Reliable) (bs : Bytes) : (s.put bs).1 = none := by
  obtain ⟨failure, taken, later, hrun, _, _, _, hreliable⟩ := putWith_cases bs s s.writes
  have hput : (s.put bs).1 = failure := congrArg Prod.fst hrun
  rw [hput]
  exact hreliable hs.writes_go_on

theorem flushWith_cases (s : Sink) (flushes : List (Option IoKind)) :
    ∃ failure later flushed,
      flushWith s flushes = (failure, { s with flushes := later, flushed := flushed }) ∧
        later <:+ flushes ∧
        ((∀ answer ∈ flushes, answer.all isRetried = true) → failure = none) := by
  induction flushes with
  | nil => exact ⟨none, [], s.flushed + 1, rfl, List.suffix_refl _, fun _ => rfl⟩
  | cons answer flushes ih =>
    have hsuffix : flushes <:+ answer :: flushes := List.suffix_cons answer flushes
    cases answer with
    | none => exact ⟨none, flushes, s.flushed + 1, rfl, hsuffix, fun _ => rfl⟩
    | some kind =>
      by_cases hretried : isRetried kind = true
      · obtain ⟨failure, later, flushed, hrun, hlater, hreliable⟩ := ih
        refine ⟨failure, later, flushed, ?_, hlater.trans hsuffix, fun hgo => ?_⟩
        · rw [flushWith, if_pos hretried, hrun]
        · exact hreliable fun a ha => hgo a (List.mem_cons_of_mem _ ha)
      · refine ⟨some (.io ⟨kind, none⟩), flushes, s.flushed, ?_, hsuffix, fun hgo => ?_⟩
        · rw [flushWith, if_neg hretried]
        · exact absurd (hgo (some kind) (List.mem_cons_self ..)) hretried

theorem gained_flush (s : Sink) : s.Gained [] s.flush.2 := by
  obtain ⟨failure, later, flushed, hrun, hlater, _⟩ := flushWith_cases s s.flushes
  have hflush : s.flush = (failure, { s with flushes := later, flushed := flushed }) := hrun
  rw [hflush]
  exact ⟨(List.append_nil _).symm, List.suffix_refl _, hlater⟩

theorem Reliable.flush (hs : s.Reliable) : s.flush.1 = none := by
  obtain ⟨failure, later, flushed, hrun, _, hreliable⟩ := flushWith_cases s s.flushes
  have hflush : s.flush.1 = failure := congrArg Prod.fst hrun
  rw [hflush]
  exact hreliable hs.flushes_go_on

/-- A broken sink takes nothing. -/
theorem Broken.put {n : Nat} (hs : s.Broken (n + 1)) {bs : Bytes} (hbs : bs ≠ []) :
    ∃ e, (s.put bs).1 = some e ∧ (s.put bs).2.received = s.received ∧ (s.put bs).2.Broken n := by
  obtain ⟨hlength, hbroken⟩ := hs
  obtain ⟨b, bs, rfl⟩ := List.exists_cons_of_ne_nil hbs
  unfold Sink.put
  rcases hwrites : s.writes with _ | ⟨answer, later⟩
  · rw [hwrites] at hlength
    exact absurd hlength (Nat.not_succ_le_zero n)
  · rw [hwrites] at hlength hbroken
    have hlater : ({ s with writes := later } : Sink).Broken n :=
      ⟨Nat.le_of_succ_le_succ hlength, fun a ha => hbroken a (List.mem_cons_of_mem _ ha)⟩
    have hanswer := hbroken answer (List.mem_cons_self ..)
    cases answer with
    | failed kind =>
      have hfatal : ¬ isRetried kind = true := Bool.eq_false_iff.1 hanswer
      rw [putWith, if_neg hfatal]
      exact ⟨_, rfl, rfl, hlater⟩
    | accepts count =>
      obtain rfl : count = 0 := Nat.eq_zero_of_not_pos (of_decide_eq_false hanswer)
      exact ⟨_, rfl, rfl, hlater⟩

end Sink

/-! ## One message -/

namespace MessageWriter

variable {s : Sink} {m : Message} {maxPayload : Nat}

theorem write_of_put_fails {e : WireError} {s' : Sink} (hm : m.Sendable maxPayload)
    (hput : s.put m.octets = (some e, s')) : write m s = (some e, s') := by
  simp only [write, hm.encode_eq_octets, hput]

theorem write_of_put {s' : Sink} (hm : m.Sendable maxPayload) (hput : s.put m.octets = (none, s')) :
    write m s = s'.flush := by
  simp only [write, hm.encode_eq_octets, hput]

/-- Of a message that is written the sink takes a prefix, and all if nothing is reported. -/
theorem exists_gained_write (hm : m.Sendable maxPayload) (s : Sink) :
    ∃ taken, taken <+: m.octets ∧ s.Gained taken (write m s).2 ∧
      ((write m s).1 = none → taken = m.octets) := by
  obtain ⟨taken, hprefix, hgained, hall⟩ := Sink.exists_gained_put m.octets s
  rcases hput : s.put m.octets with ⟨_ | e, s'⟩
  · rw [hput] at hgained hall
    rw [write_of_put hm hput]
    have hflushed := hgained.trans s'.gained_flush
    rw [List.append_nil] at hflushed
    exact ⟨taken, hprefix, hflushed, fun _ => hall rfl⟩
  · rw [hput] at hgained
    rw [write_of_put_fails hm hput]
    exact ⟨taken, hprefix, hgained, nofun⟩

theorem write_of_reliable (hm : m.Sendable maxPayload) (hs : s.Reliable) :
    (write m s).1 = none := by
  obtain ⟨taken, _, hgained, _⟩ := Sink.exists_gained_put m.octets s
  have hnone := hs.put m.octets
  rcases hput : s.put m.octets with ⟨_ | e, s'⟩
  · rw [hput] at hgained
    rw [write_of_put hm hput]
    exact (hgained.reliable hs).flush
  · rw [hput] at hnone
    cases hnone

theorem write_of_broken (hm : m.Sendable maxPayload) {n : Nat} (hs : s.Broken (n + 1)) :
    (write m s).2.received = s.received ∧ (write m s).2.Broken n := by
  have hoctets : m.octets ≠ [] := by
    rw [hm.octets_eq]
    exact List.cons_ne_nil _ _
  obtain ⟨e, hfails, hreceived, hbroken⟩ := hs.put hoctets
  rcases hput : s.put m.octets with ⟨_ | e', s'⟩
  · rw [hput] at hfails
    cases hfails
  · rw [hput] at hreceived hbroken
    rw [write_of_put_fails hm hput]
    exact ⟨hreceived, hbroken⟩

end MessageWriter

/-! ## The messages of a writer -/

namespace Header

variable (o : ByteOrder) (fromServer isControl : Bool)

/-- Each flag says what it was made from, and no message is segmented. -/
theorem makeFlags_and :
    decide (makeFlags o fromServer isControl &&& segmentMask ≠ 0) = false ∧
      decide (makeFlags o fromServer isControl &&& controlFlag ≠ 0) = isControl ∧
      decide (makeFlags o fromServer isControl &&& serverFlag ≠ 0) = fromServer ∧
      orderOfFlags (makeFlags o fromServer isControl) = o := by
  cases o <;> cases fromServer <;> cases isControl <;> decide

variable {h : Header}

theorem isSegmented_of_makeFlags (hflags : h.flags = makeFlags o fromServer isControl) :
    h.isSegmented = false := by
  unfold isSegmented
  rw [hflags]
  exact (makeFlags_and o fromServer isControl).1

theorem isControl_of_makeFlags (hflags : h.flags = makeFlags o fromServer isControl) :
    h.isControl = isControl := by
  unfold Header.isControl
  rw [hflags]
  exact (makeFlags_and o fromServer isControl).2.1

theorem isFromServer_of_makeFlags (hflags : h.flags = makeFlags o fromServer isControl) :
    h.isFromServer = fromServer := by
  unfold isFromServer
  rw [hflags]
  exact (makeFlags_and o fromServer isControl).2.2.1

theorem order_of_makeFlags (hflags : h.flags = makeFlags o fromServer isControl) : h.order = o := by
  unfold order
  rw [hflags]
  exact (makeFlags_and o fromServer isControl).2.2.2

end Header

namespace Message

variable (command : UInt8) (o : ByteOrder) (fromServer : Bool)

@[simp] theorem isControl_application (payload : Bytes) :
    (application command o fromServer payload).isControl = false :=
  Header.isControl_of_makeFlags o fromServer false rfl

@[simp] theorem isControl_control (data : UInt32) :
    (control command o fromServer data).isControl = true :=
  Header.isControl_of_makeFlags o fromServer true rfl

/-- A payload that is not too long makes a message that can be sent and declares its size. -/
theorem sendable_application {payload : Bytes} {maxPayload : Nat}
    (hlimit : payload.length ≤ maxPayload) (hdeclared : payload.length ≤ maxDeclared) :
    (application command o fromServer payload).Sendable maxPayload ∧
      (application command o fromServer payload).declared =
        application command o fromServer payload := by
  have hcontrol := isControl_application command o fromServer payload
  refine ⟨⟨Header.isSegmented_of_makeFlags o fromServer false rfl, fun h => ?_, hlimit,
    hdeclared⟩, ?_⟩
  · rw [hcontrol] at h
    cases h
  · unfold declared
    rw [hcontrol]
    unfold application Header.application
    rw [Nat.min_eq_left hdeclared]
    rfl

/-- No header can declare a payload that is too long. -/
theorem encode_application_of_lt {payload : Bytes} (h : maxDeclared < payload.length) :
    (application command o fromServer payload).encode =
      .error (.payloadTooLarge payload.length maxDeclared) := by
  unfold encode
  rw [if_neg (by simp)]
  exact if_pos h

theorem sendable_control (data : UInt32) (maxPayload : Nat) :
    (control command o fromServer data).Sendable maxPayload ∧
      (control command o fromServer data).declared = control command o fromServer data :=
  ⟨⟨Header.isSegmented_of_makeFlags o fromServer true rfl, fun _ => rfl, Nat.zero_le _,
    Nat.zero_le _⟩, if_pos (isControl_control command o fromServer data)⟩

end Message

/-! ## Calls to a writer -/

/-- What a caller asks of a writer. -/
inductive WriterCall where
  | message (command : UInt8) (payload : Bytes)
  | control (command : UInt8) (data : UInt32)
  | setOrder (o : ByteOrder)

namespace WriterCall

/-- The writer after a call. -/
def after (w : MessageWriter) : WriterCall → MessageWriter
  | .message _ _ | .control _ _ => w
  | .setOrder o => { w with order := o }

/-- Carries out a call. -/
def run (w : MessageWriter) (s : Sink) : WriterCall → Option WireError × Sink
  | .message command payload => w.writeApplication command payload s
  | .control command data => w.writeControl command data s
  | .setOrder _ => (none, s)

/-- Why a call is refused: the payload is above the limit of the writer, or above what a header can
declare. -/
def refusal? (w : MessageWriter) : WriterCall → Option WireError
  | .message _ payload =>
    if w.maxPayload < payload.length then some (.payloadTooLarge payload.length w.maxPayload)
    else if Message.maxDeclared < payload.length then
      some (.payloadTooLarge payload.length Message.maxDeclared)
    else none
  | .control _ _ | .setOrder _ => none

/-- The message that a call writes, if it writes any. -/
def message? (w : MessageWriter) : WriterCall → Option Message
  | .message command payload =>
    if payload.length ≤ min w.maxPayload Message.maxDeclared then
      some (.application command w.order w.fromServer payload)
    else none
  | .control command data => some (.control command w.order w.fromServer data)
  | .setOrder _ => none

/-- The writer after some calls. -/
def afterAll (w : MessageWriter) (calls : List WriterCall) : MessageWriter := calls.foldl after w

/-- Carries out calls one after the other.  Returns what each of them reports, and the sink. -/
def runAll : List WriterCall → MessageWriter → Sink → List (Option WireError) × Sink
  | [], _, s => ([], s)
  | c :: calls, w, s =>
    let (report, s') := c.run w s
    let (reports, s'') := runAll calls (c.after w) s'
    (report :: reports, s'')

/-- The messages that calls write, each in the byte order in force when it is written. -/
def messages : List WriterCall → MessageWriter → List Message
  | [], _ => []
  | c :: calls, w => (c.message? w).toList ++ messages calls (c.after w)

variable {w : MessageWriter} {s : Sink}

theorem runAll_cons (c : WriterCall) (calls : List WriterCall) (w : MessageWriter) (s : Sink) :
    runAll (c :: calls) w s =
      ((c.run w s).1 :: (runAll calls (c.after w) (c.run w s).2).1,
        (runAll calls (c.after w) (c.run w s).2).2) := rfl

theorem runAll_append (before behind : List WriterCall) (w : MessageWriter) (s : Sink) :
    (runAll (before ++ behind) w s).2 =
      (runAll behind (afterAll w before) (runAll before w s).2).2 := by
  induction before generalizing w s with
  | nil => rfl
  | cons c before ih =>
    rw [List.cons_append, runAll_cons, runAll_cons]
    exact ih (c.after w) (c.run w s).2

/-- A call is refused, or writes a message that can be sent, or only sets the byte order. -/
theorem run_cases (w : MessageWriter) (c : WriterCall) :
    (∃ e, c.refusal? w = some e ∧ c.message? w = none ∧ ∀ s, c.run w s = (some e, s)) ∨
      (∃ m, c.refusal? w = none ∧ c.message? w = some m ∧ m.Sendable w.maxPayload ∧
        m.declared = m ∧ ∀ s, c.run w s = MessageWriter.write m s) ∨
      (c.refusal? w = none ∧ c.message? w = none ∧ ∀ s, c.run w s = (none, s)) := by
  cases c with
  | setOrder o => exact .inr (.inr ⟨rfl, rfl, fun _ => rfl⟩)
  | control command data =>
    obtain ⟨hsendable, hdeclared⟩ :=
      Message.sendable_control command w.order w.fromServer data w.maxPayload
    exact .inr (.inl ⟨_, rfl, rfl, hsendable, hdeclared, fun _ => rfl⟩)
  | message command payload =>
    by_cases hlimit : w.maxPayload < payload.length
    · have htoo : ¬ payload.length ≤ min w.maxPayload Message.maxDeclared := by omega
      exact .inl ⟨_, if_pos hlimit, if_neg htoo, fun s => if_pos hlimit⟩
    have hrefusal : (WriterCall.message command payload).refusal? w =
        if Message.maxDeclared < payload.length then
          some (.payloadTooLarge payload.length Message.maxDeclared)
        else none := if_neg hlimit
    have hrun : ∀ s, (WriterCall.message command payload).run w s =
        MessageWriter.write (.application command w.order w.fromServer payload) s :=
      fun s => if_neg hlimit
    by_cases hdeclared : Message.maxDeclared < payload.length
    · have htoo : ¬ payload.length ≤ min w.maxPayload Message.maxDeclared := by omega
      refine .inl ⟨_, hrefusal.trans (if_pos hdeclared), if_neg htoo, fun s => ?_⟩
      rw [hrun]
      unfold MessageWriter.write
      rw [Message.encode_application_of_lt command w.order w.fromServer hdeclared]
    · have hfits : payload.length ≤ min w.maxPayload Message.maxDeclared := by omega
      obtain ⟨hsendable, hsame⟩ := Message.sendable_application command w.order w.fromServer
        (Nat.le_of_not_lt hlimit) (Nat.le_of_not_lt hdeclared)
      exact .inr (.inl ⟨_, hrefusal.trans (if_neg hdeclared), if_pos hfits, hsendable, hsame, hrun⟩)

/-- A call that is refused leaves the sink as it is. -/
theorem run_of_refusal {c : WriterCall} {e : WireError} (h : c.refusal? w = some e) (s : Sink) :
    c.run w s = (some e, s) := by
  rcases run_cases w c with ⟨e', hrefusal, _, hrun⟩ | ⟨_, hrefusal, _⟩ | ⟨hrefusal, _⟩
  · rw [h] at hrefusal
    obtain rfl := Option.some.inj hrefusal
    exact hrun s
  · rw [h] at hrefusal
    cases hrefusal
  · rw [h] at hrefusal
    cases hrefusal

theorem refusal?_after (w : MessageWriter) (c d : WriterCall) :
    d.refusal? (c.after w) = d.refusal? w := by
  cases c <;> rfl

/-- A call that is refused leaves the sink alone, and one that the sink does not fail is taken in
full. -/
theorem gained_run {c : WriterCall} (h : (c.run w s).1 = c.refusal? w) :
    s.Gained ((c.message? w).toList.flatMap Message.octets) (c.run w s).2 := by
  rcases run_cases w c with
    ⟨e, _, hmessage, hrun⟩ | ⟨m, hrefusal, hmessage, hsendable, _, hrun⟩ | ⟨_, hmessage, hrun⟩
  · rw [hmessage, hrun]
    exact Sink.Gained.refl s
  · obtain ⟨taken, _, hgained, hall⟩ := MessageWriter.exists_gained_write hsendable s
    rw [hrun, hrefusal] at h
    have hoctets : (some m).toList.flatMap Message.octets = taken := by simp [hall h]
    rw [hmessage, hrun, hoctets]
    exact hgained
  · rw [hmessage, hrun]
    exact Sink.Gained.refl s

theorem run_of_reliable (hs : s.Reliable) (c : WriterCall) : (c.run w s).1 = c.refusal? w := by
  rcases run_cases w c with
    ⟨e, hrefusal, _, hrun⟩ | ⟨m, hrefusal, _, hsendable, _, hrun⟩ | ⟨hrefusal, _, hrun⟩
  · rw [hrefusal, hrun]
  · rw [hrefusal, hrun]
    exact MessageWriter.write_of_reliable hsendable hs
  · rw [hrefusal, hrun]

theorem run_of_broken {n : Nat} (hs : s.Broken (n + 1)) (c : WriterCall) :
    (c.run w s).2.received = s.received ∧ (c.run w s).2.Broken n := by
  rcases run_cases w c with ⟨e, _, _, hrun⟩ | ⟨m, _, _, hsendable, _, hrun⟩ | ⟨_, _, hrun⟩
  · rw [hrun]
    exact ⟨rfl, hs.mono (Nat.le_succ n)⟩
  · rw [hrun]
    exact MessageWriter.write_of_broken hsendable hs
  · rw [hrun]
    exact ⟨rfl, hs.mono (Nat.le_succ n)⟩

/-- As long as the sink fails no call, it holds the octets of all messages in order. -/
theorem gained_runAll (calls : List WriterCall) (w : MessageWriter) (s : Sink)
    (h : (runAll calls w s).1 = calls.map (refusal? w)) :
    s.Gained ((messages calls w).flatMap Message.octets) (runAll calls w s).2 := by
  induction calls generalizing w s with
  | nil => exact Sink.Gained.refl s
  | cons c calls ih =>
    rw [runAll_cons, List.map_cons] at h
    obtain ⟨hfirst, hrest⟩ := List.cons.inj h
    have hsame : refusal? (c.after w) = refusal? w := funext fun d => refusal?_after w c d
    rw [← hsame] at hrest
    rw [runAll_cons, messages, List.flatMap_append]
    exact (gained_run hfirst).trans (ih (c.after w) (c.run w s).2 hrest)

/-- A reliable sink fails no call. -/
theorem runAll_of_reliable (hs : s.Reliable) (calls : List WriterCall) (w : MessageWriter) :
    (runAll calls w s).1 = calls.map (refusal? w) := by
  induction calls generalizing w s with
  | nil => rfl
  | cons c calls ih =>
    have hfirst := run_of_reliable (w := w) hs c
    have hsame : refusal? (c.after w) = refusal? w := funext fun d => refusal?_after w c d
    have hrest := ih ((gained_run hfirst).reliable hs) (c.after w)
    rw [hsame] at hrest
    rw [runAll_cons, List.map_cons, hfirst, hrest]

/-- A broken sink takes nothing more. -/
theorem runAll_of_broken (calls : List WriterCall) (w : MessageWriter)
    (hs : s.Broken calls.length) : (runAll calls w s).2.received = s.received := by
  induction calls generalizing w s with
  | nil => rfl
  | cons c calls ih =>
    obtain ⟨hreceived, hbroken⟩ := run_of_broken (w := w) hs c
    rw [runAll_cons]
    exact (ih (c.after w) hbroken).trans hreceived

/-- When a call fails because of the sink, and the sink fails for good, it holds the messages before
it in full and then a prefix of the one that failed. -/
theorem received_of_failed {before behind : List WriterCall} {c : WriterCall}
    (hbefore : (runAll before w s).1 = before.map (refusal? w))
    (hfails : (c.run (afterAll w before) (runAll before w s).2).1 ≠
      c.refusal? (afterAll w before))
    (hbroken : (c.run (afterAll w before) (runAll before w s).2).2.Broken behind.length) :
    ∃ m taken, c.message? (afterAll w before) = some m ∧ taken <+: m.octets ∧
      (runAll (before ++ c :: behind) w s).2.received =
        s.received ++ (messages before w).flatMap Message.octets ++ taken := by
  have hgained := gained_runAll before w s hbefore
  rcases run_cases (afterAll w before) c with
    ⟨e, hrefusal, _, hrun⟩ | ⟨m, _, hmessage, hsendable, _, hrun⟩ | ⟨hrefusal, _, hrun⟩
  · rw [hrun, hrefusal] at hfails
    exact absurd rfl hfails
  · obtain ⟨taken, hprefix, htaken, _⟩ :=
      MessageWriter.exists_gained_write hsendable (runAll before w s).2
    refine ⟨m, taken, hmessage, hprefix, ?_⟩
    rw [runAll_append, runAll_cons, runAll_of_broken _ _ hbroken, hrun]
    exact (hgained.trans htaken).received_eq.trans (List.append_assoc ..).symm
  · rw [hrun, hrefusal] at hfails
    exact absurd rfl hfails

end WriterCall

end PvNet
