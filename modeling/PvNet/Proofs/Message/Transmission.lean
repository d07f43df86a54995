import PvNet.Proofs.Message.Sending
import PvNet.Proofs.Wire.Reading
set_option autoImplicit false

/-!
# Messages that arrive as they were sent

A message whose header declares its payload is taken off the wire as it was sent, and
what was written into it is read back from it, in its own byte order.

A datagram consists of such messages and of nothing else, so a change to one of them
leaves the others alone.
-/

namespace PvNet

namespace Message

variable (command : UInt8) (o : ByteOrder) (fromServer : Bool) (payload : Bytes) (data : UInt32)

@[simp] theorem command_application :
    (application command o fromServer payload).command = command := rfl

@[simp] theorem payload_application :
    (application command o fromServer payload).payload = payload := rfl

@[simp] theorem order_application : (application command o fromServer payload).order = o :=
  Header.order_of_makeFlags o fromServer false rfl

@[simp] theorem order_control : (control command o fromServer data).order = o :=
  Header.order_of_makeFlags o fromServer true rfl

@[simp] theorem isFromServer_application :
    (application command o fromServer payload).header.isFromServer = fromServer :=
  Header.isFromServer_of_makeFlags o fromServer false rfl

@[simp] theorem isFromServer_control :
    (control command o fromServer data).header.isFromServer = fromServer :=
  Header.isFromServer_of_makeFlags o fromServer true rfl

variable {command o fromServer payload}

/-- The payload of a message is read in the order in which it was written. -/
theorem read_application {α : Type} {d : Decoder Unit α} {a : α}
    (h : d.Reads o () payload a ()) :
    (application command o fromServer payload).read d = .ok a := by
  have hrun := h []
  rw [List.append_nil] at hrun
  unfold read
  rw [order_application]
  exact congrArg Outcome.result hrun

end Message

/-- A message that a receiver with a payload limit takes off the wire as it was sent. -/
structure Message.Transmissible (maxPayload : Nat) (m : Message) : Prop where
  sendable : m.Sendable maxPayload
  declared : m.declared = m

namespace Message

/-- Whatever fits in a datagram can be declared. -/
theorem maxDatagram_le_maxDeclared : maxDatagram ≤ maxDeclared := by decide

variable {maxPayload : Nat}

theorem transmissible_control (maxPayload : Nat) (command : UInt8) (o : ByteOrder)
    (fromServer : Bool) (data : UInt32) :
    (control command o fromServer data).Transmissible maxPayload :=
  have h := sendable_control command o fromServer data maxPayload
  ⟨h.1, h.2⟩

theorem transmissible_application {command : UInt8} {o : ByteOrder} {fromServer : Bool}
    {payload : Bytes} (hlimit : payload.length ≤ maxPayload)
    (hdeclared : payload.length ≤ maxDeclared) :
    (application command o fromServer payload).Transmissible maxPayload :=
  have h := sendable_application command o fromServer hlimit hdeclared
  ⟨h.1, h.2⟩

/-- The header declares the payload that follows it. -/
theorem Transmissible.octets_eq {m : Message} (h : m.Transmissible maxPayload) :
    m.octets = m.header.encode ++ m.payload := by
  have hoctets := h.sendable.octets_eq
  rwa [h.declared] at hoctets

theorem Transmissible.length_octets {m : Message} (h : m.Transmissible maxPayload) :
    m.octets.length = Header.wireSize + m.payload.length := by
  rw [h.octets_eq, List.length_append, Header.length_encode]

theorem Transmissible.payloadLength_eq {m : Message} (h : m.Transmissible maxPayload) :
    m.header.payloadLength = m.payload.length := by
  have hlength := h.sendable.payloadLength_declared
  rwa [h.declared] at hlength

theorem Transmissible.decode? {m : Message} (h : m.Transmissible maxPayload) (rest : Bytes) :
    Message.decode? maxPayload (m.octets ++ rest) = .ok (some (m, rest)) := by
  rw [h.sendable.decode?_octets_append, h.declared]

/-! ## Datagrams -/

@[simp] theorem ofDatagram_nil : ofDatagram [] = .ok [] := by
  rw [ofDatagram]
  rfl

/-- A message in front of a datagram is the first of its messages. -/
theorem Transmissible.ofDatagram_append {m : Message} (h : m.Transmissible maxDatagram)
    (rest : Bytes) : ofDatagram (m.octets ++ rest) = (ofDatagram rest).map (m :: ·) := by
  have hdecode := h.decode? rest
  have hsome : (m.octets ++ rest).isEmpty = false := by
    have hlength := length_lt_of_decode? hdecode
    cases hoctets : m.octets ++ rest with
    | nil =>
      rw [hoctets] at hlength
      cases hlength
    | cons b bs => rfl
  rw [ofDatagram, hsome]
  simp only [Bool.false_eq_true, if_false]
  split
  · rename_i e hfails
    rw [hdecode] at hfails
    cases hfails
  · rename_i m' rest' hfirst
    rw [hdecode] at hfirst
    obtain ⟨rfl, rfl⟩ := Prod.mk.inj (Option.some.inj (Except.ok.inj hfirst))
    cases ofDatagram rest with
    | error e => rfl
    | ok ms => rfl
  · rename_i hwaits
    rw [hdecode] at hwaits
    cases hwaits

theorem ofDatagram_octets {ms : List Message} (h : ∀ m ∈ ms, m.Transmissible maxDatagram) :
    ofDatagram (ms.flatMap octets) = .ok ms := by
  induction ms with
  | nil => exact ofDatagram_nil
  | cons m ms ih =>
    obtain ⟨hm, hms⟩ := List.forall_mem_cons.1 h
    rw [List.flatMap_cons, hm.ofDatagram_append, ih hms]
    rfl

/-- A datagram is made of its messages. -/
theorem transmissible_of_ofDatagram {datagram : Bytes} {ms : List Message}
    (h : ofDatagram datagram = .ok ms) :
    (∀ m ∈ ms, m.Transmissible maxDatagram) ∧ datagram = ms.flatMap octets := by
  fun_induction ofDatagram datagram generalizing ms with
  | case1 datagram hempty =>
    obtain rfl := Except.ok.inj h
    exact ⟨nofun, List.isEmpty_iff.1 hempty⟩
  | case4 datagram hsome m rest hfirst ms' hrest ih =>
    obtain rfl := Except.ok.inj h
    obtain ⟨hsendable, hdeclared, rfl⟩ := sendable_of_decode? hfirst
    obtain ⟨hms, rfl⟩ := ih hrest
    exact ⟨List.forall_mem_cons.2 ⟨⟨hsendable, hdeclared⟩, hms⟩, rfl⟩
  | case2 | case3 | case5 | case6 | case7 => cases h

/-- A datagram that does not start with a message is refused with the reason for it. -/
theorem ofDatagram_of_decode?_error {datagram : Bytes} {e : WireError}
    (h : Message.decode? maxDatagram datagram = .error e) : ofDatagram datagram = .error e := by
  rw [ofDatagram]
  split
  · rename_i hempty
    rw [List.isEmpty_iff.1 hempty] at h
    cases h
  split
  · rename_i he
    rw [h] at he
    obtain rfl := Except.error.inj he
    rfl
  · rename_i hsome
    rw [h] at hsome
    cases hsome
  · rename_i hnone
    rw [h] at hnone
    cases hnone

/-- A datagram with a message above the limit is malformed. -/
theorem ofDatagram_of_lt {maxPayload : Nat} {m : Message} (h : m.Transmissible maxPayload)
    (hlimit : maxDatagram < m.payload.length) :
    ofDatagram m.octets = .error (.payloadTooLarge m.payload.length maxDatagram) := by
  refine ofDatagram_of_decode?_error ?_
  rw [h.octets_eq, decode?_header_append h.sendable.unsegmented, h.payloadLength_eq,
    if_pos hlimit]

end Message

end PvNet
