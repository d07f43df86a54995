import PvNet.Proofs.Message.Framing
import PvNet.Proofs.Message.Sending
set_option autoImplicit false

/-!
# Messages over a stream

A reader that gets octets in pieces and is interrupted in between acts as if all of
them were there at once (`MessageReader.read_cases`).  What a writer leaves in a sink
is one message after the other, so a reader of these octets returns the messages in
order and then the end of the stream.

A message that is received shows what it was written with: its command, whether it is a
control message, which side sent it, its byte order and its payload or data.
-/

namespace PvNet

/-! ## Reading -/

namespace StreamRead

/-- The octets that reads bring. -/
def octets : List StreamRead → Bytes
  | [] => []
  | .data bs :: reads => bs ++ octets reads
  | .failed _ :: reads => octets reads

/-- Whether reading goes on: some octets come, or the read is made again. -/
def goesOn : StreamRead → Bool
  | .data bs => !bs.isEmpty
  | .failed kind => kind = .interrupted

end StreamRead

namespace MessageReader

open StreamRead (octets)

variable {r : MessageReader} {reads later : List StreamRead} {m : Message} {rest : Bytes}
  {e : WireError}

theorem read_of_error (h : Message.decode? r.maxPayload r.buffer = .error e)
    (reads : List StreamRead) : r.read reads = (.error e, r, reads) := by
  rw [read.eq_def, h]

theorem read_of_some (h : Message.decode? r.maxPayload r.buffer = .ok (some (m, rest)))
    (reads : List StreamRead) : r.read reads = (.ok m, { r with buffer := rest }, reads) := by
  rw [read.eq_def, h]

theorem read_nil (h : Message.decode? r.maxPayload r.buffer = .ok none) :
    r.read [] = (.error .connectionClosed, r, []) := by
  rw [read, h]

theorem read_interrupted (h : Message.decode? r.maxPayload r.buffer = .ok none)
    (later : List StreamRead) : r.read (.failed .interrupted :: later) = r.read later := by
  rw [read, h]

/-- How a reader stands to what is in its buffer and still to come: it reports the failure in front
of them, or it takes everything and meets the end, or it takes the message in front of them. -/
def ReadsFront (r : MessageReader) (reads : List StreamRead) : Prop :=
  (∃ e buffer later, Message.decode? r.maxPayload (r.buffer ++ octets reads) = .error e ∧
      r.read reads = (.error e, { r with buffer }, later)) ∨
    (Message.decode? r.maxPayload (r.buffer ++ octets reads) = .ok none ∧
      r.read reads =
        (.error .connectionClosed, { r with buffer := r.buffer ++ octets reads }, [])) ∨
    ∃ m buffer later,
      Message.decode? r.maxPayload (r.buffer ++ octets reads) =
          .ok (some (m, buffer ++ octets later)) ∧
        r.read reads = (.ok m, { r with buffer }, later) ∧ ∀ x ∈ later, x.goesOn = true

/-- Nothing changes if a read only moves octets into the buffer. -/
theorem ReadsFront.moved {r' : MessageReader} {reads' : List StreamRead}
    (h : r'.ReadsFront reads') (hlimit : r'.maxPayload = r.maxPayload)
    (hoctets : r'.buffer ++ octets reads' = r.buffer ++ octets reads)
    (hread : r.read reads = r'.read reads') : r.ReadsFront reads := by
  unfold ReadsFront at h ⊢
  rw [hlimit, hoctets] at h
  rw [hread]
  exact h

/-- A reader acts as if everything that is to come were in its buffer. -/
theorem read_cases (r : MessageReader) (reads : List StreamRead)
    (hreads : ∀ x ∈ reads, x.goesOn = true) : r.ReadsFront reads := by
  induction r, reads using MessageReader.read.induct with
  | case1 r reads e h =>
    exact .inl ⟨e, r.buffer, reads, Message.decode?_append_of_error h _, read_of_error h reads⟩
  | case2 r reads m rest h =>
    exact .inr (.inr ⟨m, rest, reads, Message.decode?_append_of_some h _, read_of_some h reads,
      hreads⟩)
  | case3 r h =>
    have hnothing : r.buffer ++ octets [] = r.buffer := List.append_nil _
    refine .inr (.inl ⟨?_, ?_⟩)
    · rw [hnothing, h]
    · rw [hnothing, read_nil h]
  | case4 r h later ih =>
    have hfront := ih fun x hx => hreads x (List.mem_cons_of_mem _ hx)
    exact hfront.moved rfl rfl (read_interrupted h later)
  | case5 r h kind later hkind =>
    have hgoesOn : StreamRead.goesOn (.failed kind) = true := hreads _ (List.mem_cons_self ..)
    exact absurd (of_decide_eq_true hgoesOn) hkind
  | case6 r h later =>
    exact absurd (hreads _ (List.mem_cons_self ..)) (by decide)
  | case7 r h b bs later chunk held later' ih =>
    -- What does not fit into one read is held back for the next one.
    have hlater : octets later' = held ++ octets later := by
      by_cases hheld : held.isEmpty = true
      · have hlater' : later' = later := if_pos hheld
        rw [hlater', List.isEmpty_iff.1 hheld, List.nil_append]
      · have hlater' : later' = .data held :: later := if_neg hheld
        rw [hlater']
        rfl
    have hsplit : chunk ++ held = b :: bs := List.take_append_drop chunkSize (b :: bs)
    refine ReadsFront.moved (ih fun x hx => ?_) rfl ?_ ?_
    · have hlater' : ∀ x ∈ later, x.goesOn = true :=
        fun x hx => hreads x (List.mem_cons_of_mem _ hx)
      by_cases hheld : held.isEmpty = true
      · have hsame : later' = later := if_pos hheld
        rw [hsame] at hx
        exact hlater' x hx
      · have hsame : later' = .data held :: later := if_neg hheld
        rw [hsame] at hx
        rcases List.mem_cons.1 hx with rfl | hx
        · simpa [StreamRead.goesOn] using hheld
        · exact hlater' x hx
    · show (r.buffer ++ chunk) ++ octets later' = r.buffer ++ ((b :: bs) ++ octets later)
      rw [hlater, List.append_assoc, ← List.append_assoc chunk, hsplit]
    · rw [read, h]
      rfl

/-- What a reader returns when it is asked for a message so many times. -/
def readTimes : Nat → MessageReader → List StreamRead → List (Except WireError Message)
  | 0, _, _ => []
  | n + 1, r, reads =>
    let (result, r', later) := r.read reads
    result :: readTimes n r' later

theorem readTimes_succ {result : Except WireError Message} {r' : MessageReader} (n : Nat)
    (h : r.read reads = (result, r', later)) :
    readTimes (n + 1) r reads = result :: readTimes n r' later := by
  rw [readTimes, h]

/-- At the end of the stream there is nothing but the end. -/
theorem readTimes_of_nil (k : Nat) (hreads : ∀ x ∈ reads, x.goesOn = true)
    (hnothing : r.buffer ++ octets reads = []) :
    readTimes k r reads = List.replicate k (.error .connectionClosed) := by
  induction k generalizing r reads with
  | zero => rfl
  | succ k ih =>
    have hwaits : Message.decode? r.maxPayload (r.buffer ++ octets reads) = .ok none := by
      rw [hnothing]
      rfl
    rcases read_cases r reads hreads with
      ⟨e, _, _, herror, _⟩ | ⟨_, hread⟩ | ⟨m, _, _, hsome, _⟩
    · rw [hwaits] at herror
      cases herror
    · have hend : readTimes k { r with buffer := r.buffer ++ octets reads } [] =
          List.replicate k (.error .connectionClosed) := by
        apply ih
        · intro x hx
          cases hx
        · exact (List.append_nil _).trans hnothing
      rw [readTimes_succ k hread, List.replicate_succ, hend]
    · rw [hwaits] at hsome
      cases hsome

/-- A reader returns the messages of which it gets the octets, and then the end of the stream. -/
theorem readTimes_of_messages (ms : List Message) (k : Nat)
    (hms : ∀ m ∈ ms, m.Sendable r.maxPayload ∧ m.declared = m)
    (hreads : ∀ x ∈ reads, x.goesOn = true)
    (hoctets : r.buffer ++ octets reads = ms.flatMap Message.octets) :
    readTimes (ms.length + k) r reads =
      ms.map .ok ++ List.replicate k (.error .connectionClosed) := by
  induction ms generalizing r reads with
  | nil =>
    rw [List.length_nil, Nat.zero_add]
    exact readTimes_of_nil k hreads hoctets
  | cons m ms ih =>
    obtain ⟨hsendable, hdeclared⟩ := hms m (List.mem_cons_self ..)
    have hfront : Message.decode? r.maxPayload (r.buffer ++ octets reads) =
        .ok (some (m, ms.flatMap Message.octets)) := by
      rw [hoctets, List.flatMap_cons, hsendable.decode?_octets_append, hdeclared]
    have hlength : (m :: ms).length + k = ms.length + k + 1 := by
      rw [List.length_cons]
      omega
    rcases read_cases r reads hreads with
      ⟨e, _, _, herror, _⟩ | ⟨hnone, _⟩ | ⟨m', buffer, later, hsome, hread, hlater⟩
    · rw [hfront] at herror
      cases herror
    · rw [hfront] at hnone
      cases hnone
    · rw [hfront] at hsome
      obtain ⟨rfl, hrest⟩ := Prod.mk.inj (Option.some.inj (Except.ok.inj hsome))
      have hms' : ∀ m' ∈ ms, m'.Sendable r.maxPayload ∧ m'.declared = m' :=
        fun m' hm' => hms m' (List.mem_cons_of_mem _ hm')
      rw [hlength, readTimes_succ _ hread, List.map_cons, List.cons_append,
        ih (r := { r with buffer }) hms' hlater hrest.symm]

end MessageReader

/-! ## Writing and reading -/

/-- What a receiver sees of a message. -/
inductive Delivery where
  | application (command : UInt8) (fromServer : Bool) (o : ByteOrder) (payload : Bytes)
  | control (command : UInt8) (fromServer : Bool) (o : ByteOrder) (data : UInt32)
  deriving DecidableEq, Repr

/-- What a receiver sees of this message. -/
def Message.delivery (m : Message) : Delivery :=
  if m.isControl then .control m.command m.header.isFromServer m.order m.header.payloadSize
  else .application m.command m.header.isFromServer m.order m.payload

namespace WriterCall

/-- What calls to a writer mean to a receiver.  Payloads that are refused do not arrive. -/
def deliveries : List WriterCall → MessageWriter → List Delivery
  | [], _ => []
  | .message command payload :: calls, w =>
    if payload.length ≤ min w.maxPayload Message.maxDeclared then
      .application command w.fromServer w.order payload :: deliveries calls w
    else deliveries calls w
  | .control command data :: calls, w =>
    .control command w.fromServer w.order data :: deliveries calls w
  | .setOrder o :: calls, w => deliveries calls { w with order := o }

theorem delivery_application (command : UInt8) (o : ByteOrder) (fromServer : Bool)
    (payload : Bytes) :
    (Message.application command o fromServer payload).delivery =
      .application command fromServer o payload := by
  have hserver := Header.isFromServer_of_makeFlags o fromServer false
    (h := (Message.application command o fromServer payload).header) rfl
  have horder : (Message.application command o fromServer payload).order = o :=
    Header.order_of_makeFlags o fromServer false rfl
  unfold Message.delivery
  rw [if_neg (by simp), hserver, horder]
  rfl

theorem delivery_control (command : UInt8) (o : ByteOrder) (fromServer : Bool) (data : UInt32) :
    (Message.control command o fromServer data).delivery =
      .control command fromServer o data := by
  have hserver := Header.isFromServer_of_makeFlags o fromServer true
    (h := (Message.control command o fromServer data).header) rfl
  have horder : (Message.control command o fromServer data).order = o :=
    Header.order_of_makeFlags o fromServer true rfl
  unfold Message.delivery
  rw [if_pos (by simp), hserver, horder]
  rfl

/-- The messages of calls carry what the calls mean. -/
theorem map_delivery_messages (calls : List WriterCall) (w : MessageWriter) :
    (messages calls w).map Message.delivery = deliveries calls w := by
  induction calls generalizing w with
  | nil => rfl
  | cons c calls ih =>
    rw [messages, List.map_append, ih]
    cases c with
    | setOrder o => rfl
    | control command data =>
      have hdelivery := delivery_control command w.order w.fromServer data
      exact congrArg (· :: deliveries calls w) hdelivery
    | message command payload =>
      rw [deliveries]
      by_cases hfits : payload.length ≤ min w.maxPayload Message.maxDeclared
      · have hdelivery := delivery_application command w.order w.fromServer payload
        rw [message?, if_pos hfits, if_pos hfits]
        exact congrArg (· :: deliveries calls w) hdelivery
      · rw [message?, if_neg hfits, if_neg hfits]
        rfl

theorem sendable_of_mem_messages {calls : List WriterCall} {w : MessageWriter} {m : Message}
    (h : m ∈ messages calls w) : m.Sendable w.maxPayload ∧ m.declared = m := by
  induction calls generalizing w with
  | nil => cases h
  | cons c calls ih =>
    rw [messages, List.mem_append] at h
    rcases h with h | h
    · rcases run_cases w c with
        ⟨e, _, hmessage, _⟩ | ⟨m', _, hmessage, hsendable, hdeclared, _⟩ | ⟨_, hmessage, _⟩
      · rw [hmessage] at h
        cases h
      · rw [hmessage] at h
        obtain rfl : m = m' := by simpa using h
        exact ⟨hsendable, hdeclared⟩
      · rw [hmessage] at h
        cases h
    · have hsame : (c.after w).maxPayload = w.maxPayload := by cases c <;> rfl
      rw [← hsame]
      exact ih h

end WriterCall

namespace MessageWriter

open WriterCall StreamRead

/-- Over a sink that only delays, calls report refused payloads and nothing else, and any reader
with no smaller limit that gets the octets in any pieces returns the messages of the calls in order,
each with what it was written with, and then the end of the stream.  A refused payload leaves every
sink as it is.  If the sink fails for good, it holds the earlier messages in full and then a prefix
of the one that failed. -/
theorem written_messages_read (w : MessageWriter) (s : Sink) :
    (∀ calls, s.Reliable →
      (runAll calls w s).1 = calls.map (refusal? w) ∧
        (messages calls w).map Message.delivery = deliveries calls w ∧
        ∀ (r : MessageReader) (reads : List StreamRead),
          r.buffer = [] → w.maxPayload ≤ r.maxPayload → (∀ x ∈ reads, x.goesOn = true) →
          (runAll calls w s).2.received = s.received ++ octets reads →
          ∀ k, r.readTimes ((messages calls w).length + k) reads =
            (messages calls w).map .ok ++ List.replicate k (.error .connectionClosed)) ∧
      (∀ c e, refusal? w c = some e → c.run w s = (some e, s)) ∧
      ∀ before c behind,
        (runAll before w s).1 = before.map (refusal? w) →
        (c.run (afterAll w before) (runAll before w s).2).1 ≠ c.refusal? (afterAll w before) →
        (c.run (afterAll w before) (runAll before w s).2).2.Broken behind.length →
        ∃ m taken, c.message? (afterAll w before) = some m ∧ taken <+: m.octets ∧
          (runAll (before ++ c :: behind) w s).2.received =
            s.received ++ (messages before w).flatMap Message.octets ++ taken := by
  refine ⟨?_, ?_, ?_⟩
  · intro calls hs
    have hreports := runAll_of_reliable hs calls w
    refine ⟨hreports, map_delivery_messages calls w, ?_⟩
    intro r reads hbuffer hlimit hreads hall k
    -- The reads bring what the sink has gained, and that is one message after the other.
    have hgained := (gained_runAll calls w s hreports).received_eq
    have hoctets : r.buffer ++ octets reads = (messages calls w).flatMap Message.octets := by
      rw [hbuffer, List.nil_append]
      exact List.append_cancel_left (hall.symm.trans hgained)
    apply MessageReader.readTimes_of_messages _ k _ hreads hoctets
    intro m hm
    obtain ⟨hsendable, hdeclared⟩ := sendable_of_mem_messages hm
    exact ⟨hsendable.mono hlimit, hdeclared⟩
  · intro c e he
    exact run_of_refusal he s
  · intro before c behind
    exact received_of_failed

/-- Calls over a sink that takes little at a time, with a refused payload among them, read back in
other pieces; and calls over a sink that breaks in the second message. -/
theorem mixedCalls_read :
    MessageReader.readTimes 4 {}
        [.data [0xCA, 2, 0xC0], .failed .interrupted, .data [3, 0, 0, 0, 2, 1, 2, 0xCA],
          .data [2, 0x41, 1, 7, 0, 0], .failed .interrupted, .data [0]] =
      [.ok ⟨⟨2, 0xC0, 3, 2⟩, [1, 2]⟩, .ok ⟨⟨2, 0x41, 1, 7⟩, []⟩, .error .connectionClosed,
        .error .connectionClosed] ∧
    WriterCall.run ⟨.big, true, 16⟩ {} (.message 4 (List.replicate 17 0)) =
      (some (.payloadTooLarge 17 16), {}) ∧
    ∃ m taken,
      WriterCall.message? ⟨.big, true, 16⟩ (.control 1 7) = some m ∧ taken <+: m.octets ∧
        [0xCA, 2, 0xC0, 3, 0, 0, 0, 2, 1, 2, 0xCA, 2, 0xC1, 1] =
          [] ++ (messages [.message 3 [1, 2]] ⟨.big, true, 16⟩).flatMap Message.octets ++
            taken := by
  refine ⟨?_, ?_, ?_⟩
  · obtain ⟨_, _, hread⟩ := (written_messages_read ⟨.big, true, 16⟩
      ⟨[.accepts 3, .failed .interrupted, .failed .wouldBlock, .accepts 1],
        [some .wouldBlock, none, some .interrupted], [], 0⟩).1
      [.message 3 [1, 2], .setOrder .little, .message 4 (List.replicate 17 0), .control 1 7]
      ⟨by decide, by decide⟩
    exact hread {} _ rfl (by decide) (by decide) rfl 2
  · exact (written_messages_read ⟨.big, true, 16⟩ {}).2.1 _ _ rfl
  · exact (written_messages_read ⟨.big, true, 16⟩
      ⟨[.accepts 20, .accepts 4, .failed .brokenPipe, .accepts 0], [], [], 0⟩).2.2
      [.message 3 [1, 2]] (.control 1 7) [.control 2 8] rfl (by decide) (by decide)

end MessageWriter

end PvNet
