import PvNet.Proofs.Message.Encoding
set_option autoImplicit false

/-!
# Framing

Octets arrive in pieces, and after each piece all messages that are complete are taken
off the buffer.  Where the pieces end does not matter: more octets change nothing about
a message or a failure that is already there.

A failure consumes nothing, so it stays at the front of the buffer and is met again
with every further piece.
-/

namespace PvNet

namespace Message

variable {maxPayload : Nat} {buffer rest : Bytes} {m : Message} {e : WireError}

/-! ## One message -/

theorem decode?_append_of_error (h : decode? maxPayload buffer = .error e) (more : Bytes) :
    decode? maxPayload (buffer ++ more) = .error e := (malformed_of_decode? h).2 more

theorem decode?_append_of_some (h : decode? maxPayload buffer = .ok (some (m, rest)))
    (more : Bytes) : decode? maxPayload (buffer ++ more) = .ok (some (m, rest ++ more)) := by
  obtain ⟨hsendable, hdeclared, rfl⟩ := sendable_of_decode? h
  rw [List.append_assoc, hsendable.decode?_octets_append, hdeclared]

/-! ## All messages of a buffer -/

/-- The same after some messages before. -/
def Drained.after (ms : List Message) (d : Drained) : Drained :=
  { d with messages := ms ++ d.messages }

theorem drain_of_error (h : decode? maxPayload buffer = .error e) :
    drain maxPayload buffer = ⟨[], some e, buffer⟩ := by
  rw [drain]
  split
  · rename_i e' he
    rw [h] at he
    rw [Except.error.inj he]
  · rename_i hnone
    rw [h] at hnone
    cases hnone
  · rename_i hsome
    rw [h] at hsome
    cases hsome

theorem drain_of_none (h : decode? maxPayload buffer = .ok none) :
    drain maxPayload buffer = ⟨[], none, buffer⟩ := by
  rw [drain]
  split
  · rename_i he
    rw [h] at he
    cases he
  · rfl
  · rename_i hsome
    rw [h] at hsome
    cases hsome

theorem drain_of_some (h : decode? maxPayload buffer = .ok (some (m, rest))) :
    drain maxPayload buffer = (drain maxPayload rest).after [m] := by
  rw [drain]
  split
  · rename_i he
    rw [h] at he
    cases he
  · rename_i hnone
    rw [h] at hnone
    cases hnone
  · rename_i m' rest' hsome
    rw [h] at hsome
    obtain ⟨rfl, rfl⟩ := Prod.mk.inj (Option.some.inj (Except.ok.inj hsome))
    rfl

/-- Draining stops where decoding fails or waits. -/
theorem decode?_buffer_drain (maxPayload : Nat) (buffer : Bytes) :
    decode? maxPayload (drain maxPayload buffer).buffer =
      match (drain maxPayload buffer).failure with
      | some e => .error e
      | none => .ok none := by
  induction buffer using drain.induct maxPayload with
  | case1 buffer e h => rw [drain_of_error h, h]
  | case2 buffer h => rw [drain_of_none h, h]
  | case3 buffer m rest h ih =>
    rw [drain_of_some h]
    exact ih

/-- Only messages are consumed, to the last octet. -/
theorem octets_drain (maxPayload : Nat) (buffer : Bytes) :
    (drain maxPayload buffer).messages.flatMap octets ++ (drain maxPayload buffer).buffer =
      buffer := by
  induction buffer using drain.induct maxPayload with
  | case1 buffer e h =>
    rw [drain_of_error h]
    rfl
  | case2 buffer h =>
    rw [drain_of_none h]
    rfl
  | case3 buffer m rest h ih =>
    obtain ⟨_, _, hbuffer⟩ := sendable_of_decode? h
    rw [drain_of_some h]
    unfold Drained.after
    rw [List.singleton_append, List.flatMap_cons, List.append_assoc, ih, ← hbuffer]

/-- What is there can be drained before more arrives. -/
theorem drain_append (maxPayload : Nat) (buffer more : Bytes) :
    drain maxPayload (buffer ++ more) =
      (drain maxPayload ((drain maxPayload buffer).buffer ++ more)).after
        (drain maxPayload buffer).messages := by
  induction buffer using drain.induct maxPayload with
  | case1 buffer e h =>
    rw [drain_of_error h]
    rfl
  | case2 buffer h =>
    rw [drain_of_none h]
    rfl
  | case3 buffer m rest h ih =>
    rw [drain_of_some (decode?_append_of_some h more), drain_of_some h, ih]
    rfl

/-! ## Chunks -/

/-- What a sequence of chunks gave altogether: every message, and the state after the last chunk.
Before the first chunk there is nothing. -/
def Drained.overall (ds : List Drained) : Drained :=
  ⟨ds.flatMap (·.messages), ds.getLast?.bind (·.failure), (ds.getLast?.map (·.buffer)).getD []⟩

theorem Drained.overall_cons (d : Drained) {ds : List Drained} (h : ds ≠ []) :
    overall (d :: ds) = (overall ds).after d.messages := by
  unfold overall after
  rw [List.flatMap_cons, List.getLast?_cons_of_ne_nil h]

/-- Chunks give what they give as one piece; the first of them meets what is in the buffer. -/
theorem overall_drainChunks_cons (maxPayload : Nat) (buffer chunk : Bytes) (chunks : List Bytes) :
    Drained.overall (drainChunks maxPayload buffer (chunk :: chunks)) =
      drain maxPayload (buffer ++ (chunk :: chunks).flatten) := by
  induction chunks generalizing buffer chunk with
  | nil => simp [drainChunks, Drained.overall]
  | cons next chunks ih =>
    have hfirst : buffer ++ (chunk :: next :: chunks).flatten =
        (buffer ++ chunk) ++ (next :: chunks).flatten := by
      rw [List.flatten_cons, List.append_assoc]
    have hmore : drainChunks maxPayload (drain maxPayload (buffer ++ chunk)).buffer
        (next :: chunks) ≠ [] := List.cons_ne_nil _ _
    rw [hfirst, drain_append maxPayload (buffer ++ chunk), drainChunks,
      Drained.overall_cons _ hmore, ih]

/-- A failure at the front of the buffer is all that further chunks give. -/
theorem drainChunks_of_error (h : decode? maxPayload buffer = .error e) (chunks : List Bytes) :
    ∀ d ∈ drainChunks maxPayload buffer chunks,
      d.messages = [] ∧ d.failure = some e ∧ buffer <+: d.buffer := by
  induction chunks generalizing buffer with
  | nil =>
    intro d hd
    cases hd
  | cons chunk chunks ih =>
    have hchunk := decode?_append_of_error h chunk
    intro d hd
    rw [drainChunks, drain_of_error hchunk] at hd
    rcases List.mem_cons.1 hd with rfl | hd
    · exact ⟨rfl, rfl, List.prefix_append buffer chunk⟩
    · obtain ⟨hmessages, hfailure, hprefix⟩ := ih hchunk d hd
      exact ⟨hmessages, hfailure, (List.prefix_append buffer chunk).trans hprefix⟩

theorem pairwise_drainChunks (maxPayload : Nat) (buffer : Bytes) (chunks : List Bytes) :
    (drainChunks maxPayload buffer chunks).Pairwise fun d d' =>
      ∀ e, d.failure = some e →
        d'.messages = [] ∧ d'.failure = some e ∧ d.buffer <+: d'.buffer := by
  induction chunks generalizing buffer with
  | nil => exact List.Pairwise.nil
  | cons chunk chunks ih =>
    rw [drainChunks]
    refine List.pairwise_cons.2 ⟨fun d' hd' e he => ?_, ih _⟩
    have hfails := decode?_buffer_drain maxPayload (buffer ++ chunk)
    rw [he] at hfails
    exact drainChunks_of_error hfails chunks d' hd'

/-- However octets are cut into chunks, they give the same messages, the same failure and the same
rest of the buffer as in one piece.  Nothing but messages is consumed, and after a failure every
further chunk gives that failure alone and stays in the buffer. -/
theorem drained_as_one_piece (maxPayload : Nat) (chunks : List Bytes) :
    Drained.overall (drainChunks maxPayload [] chunks) = drain maxPayload chunks.flatten ∧
      (drain maxPayload chunks.flatten).messages.flatMap octets ++
          (drain maxPayload chunks.flatten).buffer = chunks.flatten ∧
      (drainChunks maxPayload [] chunks).Pairwise fun d d' =>
        ∀ e, d.failure = some e →
          d'.messages = [] ∧ d'.failure = some e ∧ d.buffer <+: d'.buffer := by
  refine ⟨?_, octets_drain maxPayload _, pairwise_drainChunks maxPayload [] chunks⟩
  cases chunks with
  | nil =>
    have hempty : drain maxPayload [] = ⟨[], none, []⟩ := drain_of_none rfl
    rw [List.flatten_nil, hempty]
    rfl
  | cons chunk chunks => exact overall_drainChunks_cons maxPayload [] chunk chunks

/-- A message, and then octets that cannot be one as soon as there are eight of them. -/
theorem brokenStream_drained :
    drainChunks 16 [] [[0xCA, 2, 0x80, 1, 0, 0], [0, 1, 5, 0xCB], [], [0, 0, 0, 0, 0, 0, 7], [8]] =
        [⟨[], none, [0xCA, 2, 0x80, 1, 0, 0]⟩, ⟨[⟨⟨2, 0x80, 1, 1⟩, [5]⟩], none, [0xCB]⟩,
          ⟨[], none, [0xCB]⟩, ⟨[], some (.invalidMagic 0xCB), [0xCB, 0, 0, 0, 0, 0, 0, 7]⟩,
          ⟨[], some (.invalidMagic 0xCB), [0xCB, 0, 0, 0, 0, 0, 0, 7, 8]⟩] ∧
      drain 16 [0xCA, 2, 0x80, 1, 0, 0, 0, 1, 5, 0xCB, 0, 0, 0, 0, 0, 0, 7, 8] =
        ⟨[⟨⟨2, 0x80, 1, 1⟩, [5]⟩], some (.invalidMagic 0xCB), [0xCB, 0, 0, 0, 0, 0, 0, 7, 8]⟩ := by
  have hchunks : drainChunks 16 []
      [[0xCA, 2, 0x80, 1, 0, 0], [0, 1, 5, 0xCB], [], [0, 0, 0, 0, 0, 0, 7], [8]] =
        [⟨[], none, [0xCA, 2, 0x80, 1, 0, 0]⟩, ⟨[⟨⟨2, 0x80, 1, 1⟩, [5]⟩], none, [0xCB]⟩,
          ⟨[], none, [0xCB]⟩, ⟨[], some (.invalidMagic 0xCB), [0xCB, 0, 0, 0, 0, 0, 0, 7]⟩,
          ⟨[], some (.invalidMagic 0xCB), [0xCB, 0, 0, 0, 0, 0, 0, 7, 8]⟩] := by
    cbv
  refine ⟨hchunks, ?_⟩
  have hwhole := (drained_as_one_piece 16
    [[0xCA, 2, 0x80, 1, 0, 0], [0, 1, 5, 0xCB], [], [0, 0, 0, 0, 0, 0, 7], [8]]).1
  rw [hchunks] at hwhole
  exact hwhole.symm

end Message

end PvNet
