import Mathlib.Data.List.Basic
import PvNet.Net.Datagram
set_option autoImplicit false

/-!
# Sending and draining

What a socket sends are the datagrams that it can send, in their order (`sendAll_eq`).  What
it receives are the datagrams of its script.  One call of `drain` hands over those in front
of the first failure, but no more than `maxDrain` (`front`), and the failure is used up with
them (`behind`).  Later calls go on there, so that in the end every datagram has been handed
over once and in order (`flatten_batches`).
-/

namespace PvNet

namespace DatagramSocket

variable {s : DatagramSocket} {d : Outgoing}

/-! ## Sending -/

/-- Whether a datagram can be sent. -/
def reaches (s : DatagramSocket) (d : Outgoing) : Bool :=
  !s.closed && s.unreachable ≠ some d.target

theorem send_of_reaches (h : s.reaches d = true) :
    s.send d = (none, { s with sent := s.sent ++ [d] }) := by
  obtain ⟨hopen, htarget⟩ := Bool.and_eq_true_iff.1 h
  rw [send, if_neg (by simpa using hopen), if_neg (of_decide_eq_true htarget)]

theorem send_of_not_reaches (h : s.reaches d = false) :
    (s.send d).1.isNone = false ∧ (s.send d).2 = s := by
  unfold send
  by_cases hclosed : s.closed = true
  · rw [if_pos hclosed]
    exact ⟨rfl, rfl⟩
  · rw [if_neg hclosed]
    by_cases htarget : s.unreachable = some d.target
    · rw [if_pos htarget]
      exact ⟨rfl, rfl⟩
    · simp [reaches, hclosed, htarget] at h

/-- Those that can be sent are sent, and counted. -/
theorem sendAll_eq (s : DatagramSocket) (ds : List Outgoing) :
    s.sendAll ds =
      ((ds.filter s.reaches).length, { s with sent := s.sent ++ ds.filter s.reaches }) := by
  induction ds generalizing s with
  | nil =>
    show (0, s) = (0, { s with sent := s.sent ++ [] })
    rw [List.append_nil]
  | cons d ds ih =>
    rw [sendAll, List.filter_cons]
    cases hreaches : s.reaches d with
    | true =>
      have hsame : { s with sent := s.sent ++ [d] }.reaches = s.reaches := rfl
      simp only [send_of_reaches hreaches, ih, hsame, Option.isNone_none, if_true,
        List.length_cons, List.append_assoc, List.singleton_append]
    | false =>
      obtain ⟨hnone, hkept⟩ := send_of_not_reaches hreaches
      simp only [hkept, hnone, ih, Bool.false_eq_true, if_false]

theorem sendAll_append (s : DatagramSocket) (first rest : List Outgoing) :
    s.sendAll (first ++ rest) =
      ((s.sendAll first).1 + ((s.sendAll first).2.sendAll rest).1,
        ((s.sendAll first).2.sendAll rest).2) := by
  have hsame : (s.sendAll first).2.reaches = s.reaches := by
    rw [sendAll_eq]
    rfl
  rw [sendAll_eq (s.sendAll first).2 rest, hsame, sendAll_eq s (first ++ rest), sendAll_eq s first]
  simp only [List.filter_append, List.length_append, List.append_assoc]

end DatagramSocket

/-! ## One call -/

/-- The datagram that a receive gives, cut off where it is too long, with its source. -/
def Receive.datagram? : Receive → Option (Bytes × Endpoint)
  | .datagram bytes source => some (bytes.take Message.maxDatagram, source)
  | .failed _ | .shutdown => none

namespace DatagramSocket

variable {s : DatagramSocket} {r : Receive} {rs : List Receive} {x : Bytes × Endpoint}

/-- The datagrams of a script. -/
def datagrams (script : List Receive) : List (Bytes × Endpoint) :=
  script.filterMap Receive.datagram?

/-- The datagrams in front of the first failure. -/
def leading : List Receive → List (Bytes × Endpoint)
  | [] => []
  | r :: rs =>
    match r.datagram? with
    | some x => x :: leading rs
    | none => []

/-- What a call that handles up to `limit` datagrams hands over. -/
def front (limit : Nat) (script : List Receive) : List (Bytes × Endpoint) :=
  (leading script).take limit

/-- What it leaves: the failure at which it stops is used up. -/
def behind (limit : Nat) (script : List Receive) : List Receive :=
  script.drop (if (leading script).length < limit then (leading script).length + 1 else limit)

theorem leading_of_some (h : r.datagram? = some x) : leading (r :: rs) = x :: leading rs := by
  simp only [leading, h]

theorem leading_of_none (h : r.datagram? = none) : leading (r :: rs) = [] := by
  simp only [leading, h]

theorem front_of_some (h : r.datagram? = some x) (limit : Nat) :
    front (limit + 1) (r :: rs) = x :: front limit rs := by
  rw [front, leading_of_some h, List.take_succ_cons]
  rfl

theorem behind_of_some (h : r.datagram? = some x) (limit : Nat) :
    behind (limit + 1) (r :: rs) = behind limit rs := by
  rw [behind, behind, leading_of_some h, List.length_cons]
  by_cases hlt : (leading rs).length < limit
  · rw [if_pos hlt, if_pos (Nat.succ_lt_succ hlt), List.drop_succ_cons]
  · rw [if_neg hlt, if_neg (fun h => hlt (Nat.lt_of_succ_lt_succ h)), List.drop_succ_cons]

theorem front_of_none (h : r.datagram? = none) (limit : Nat) :
    front limit (r :: rs) = [] := by
  rw [front, leading_of_none h, List.take_nil]

theorem behind_of_none (h : r.datagram? = none) (limit : Nat) :
    behind (limit + 1) (r :: rs) = rs := by
  rw [behind, leading_of_none h, List.length_nil, if_pos (Nat.zero_lt_succ limit)]
  rfl

theorem behind_zero (script : List Receive) : behind 0 script = script := by
  rw [behind, if_neg (Nat.not_lt_zero _), List.drop_zero]

theorem behind_nil (limit : Nat) : behind limit [] = [] := List.drop_nil

theorem length_front_le (limit : Nat) (script : List Receive) :
    (front limit script).length ≤ limit := List.length_take_le _ _

/-- A call hands over the first datagrams, and leaves the others. -/
theorem front_append_datagrams_behind (limit : Nat) (script : List Receive) :
    front limit script ++ datagrams (behind limit script) = datagrams script := by
  induction limit generalizing script with
  | zero => rw [behind_zero]; rfl
  | succ limit ih =>
    cases script with
    | nil => rw [behind_nil]; rfl
    | cons r rs =>
      cases h : r.datagram? with
      | some x =>
        rw [front_of_some h, behind_of_some h, List.cons_append, ih]
        exact (List.filterMap_cons_some h).symm
      | none =>
        rw [front_of_none h, behind_of_none h, List.nil_append]
        exact (List.filterMap_cons_none h).symm

/-- A call uses up something of every script. -/
theorem length_behind_le (limit : Nat) (script : List Receive) :
    (behind (limit + 1) script).length ≤ script.length - 1 := by
  have hsome : 1 ≤ if (leading script).length < limit + 1 then (leading script).length + 1
      else limit + 1 := by
    split <;> omega
  rw [behind, List.length_drop]
  omega

theorem receive_of_closed (h : s.closed = true) : s.receive = (.error .shutdown, s) := if_pos h

theorem receive_of_nil (hopen : s.closed = false) (hscript : s.inbox = []) :
    ∃ e, s.receive = (.error e, s) := by
  refine ⟨.io ⟨.wouldBlock, none⟩, ?_⟩
  simp only [receive, hopen, hscript, Bool.false_eq_true, if_false]

theorem receive_of_some (hopen : s.closed = false) (hscript : s.inbox = r :: rs)
    (h : r.datagram? = some x) :
    s.receive = (.ok x, { s with inbox := rs }) := by
  cases r with
  | datagram bytes source =>
    cases h
    simp only [receive, hopen, hscript, Bool.false_eq_true, if_false]
  | failed kind => cases h
  | shutdown => cases h

theorem receive_of_none (hopen : s.closed = false) (hscript : s.inbox = r :: rs)
    (h : r.datagram? = none) :
    ∃ e, s.receive = (.error e, { s with inbox := rs }) := by
  cases r with
  | datagram bytes source => cases h
  | failed kind =>
    refine ⟨.io ⟨kind, none⟩, ?_⟩
    simp only [receive, hopen, hscript, Bool.false_eq_true, if_false]
  | shutdown =>
    refine ⟨.shutdown, ?_⟩
    simp only [receive, hopen, hscript, Bool.false_eq_true, if_false]

section

variable {σ : Type} {handle : σ → DatagramSocket → Bytes → Endpoint → σ × DatagramSocket}
  {f : σ → Bytes × Endpoint → σ} {answers : Bytes × Endpoint → List Outgoing}

/-- A handler that does something to a state and sends answers, and leaves the rest of the socket
alone. -/
def Sends (handle : σ → DatagramSocket → Bytes → Endpoint → σ × DatagramSocket)
    (f : σ → Bytes × Endpoint → σ) (answers : Bytes × Endpoint → List Outgoing) : Prop :=
  ∀ st s bytes source, handle st s bytes source =
    (f st (bytes, source),
      { s with sent := s.sent ++ (answers (bytes, source)).filter s.reaches })

/-- The socket after some datagrams were handed over and answered. -/
def answered (s : DatagramSocket) (answers : Bytes × Endpoint → List Outgoing)
    (handed : List (Bytes × Endpoint)) (script : List Receive) : DatagramSocket :=
  { s with inbox := script, sent := s.sent ++ (handed.flatMap answers).filter s.reaches }

theorem answered_nil (s : DatagramSocket) (script : List Receive) :
    s.answered answers [] script = { s with inbox := script } := by
  rw [answered, List.flatMap_nil, List.filter_nil, List.append_nil]

theorem answered_answered (s : DatagramSocket) (first rest : List (Bytes × Endpoint))
    (script script' : List Receive) :
    (s.answered answers first script).answered answers rest script' =
      s.answered answers (first ++ rest) script' := by
  have hsame : (s.answered answers first script).reaches = s.reaches := rfl
  rw [answered, hsame]
  simp only [answered, List.flatMap_append, List.filter_append, List.append_assoc]

theorem drainUpTo_eq (hsends : Sends handle f answers) (hopen : s.closed = false) (limit : Nat)
    (st : σ) : drainUpTo handle limit st s =
      ((front limit s.inbox).length, (front limit s.inbox).foldl f st,
        s.answered answers (front limit s.inbox) (behind limit s.inbox)) := by
  induction limit generalizing st s with
  | zero =>
    rw [behind_zero]
    show (0, st, s) = (0, st, s.answered answers [] s.inbox)
    rw [answered_nil]
  | succ limit ih =>
    rw [drainUpTo]
    cases hscript : s.inbox with
    | nil =>
      obtain ⟨e, hreceive⟩ := receive_of_nil hopen hscript
      rw [hreceive, behind_nil]
      show (0, st, s) = (0, st, s.answered answers [] [])
      rw [answered_nil, ← hscript]
    | cons r rs =>
      cases hdatagram : r.datagram? with
      | some x =>
        have hhandle : handle st { s with inbox := rs } x.1 x.2 =
            (f st x, s.answered answers [x] rs) := by
          rw [hsends, answered, List.flatMap_singleton]
          rfl
        rw [receive_of_some hopen hscript hdatagram, front_of_some hdatagram,
          behind_of_some hdatagram]
        simp only [hhandle]
        -- The handler has left the script alone: it goes on with a socket that has answered.
        rw [ih (s := s.answered answers [x] rs) hopen (f st x), answered_answered]
        rfl
      | none =>
        obtain ⟨e, hreceive⟩ := receive_of_none hopen hscript hdatagram
        rw [hreceive, front_of_none hdatagram, behind_of_none hdatagram, answered_nil]
        rfl

theorem drain_of_closed (h : s.closed = true) (st : σ) : s.drain handle st = (0, st, s) := by
  show drainUpTo handle (63 + 1) st s = (0, st, s)
  rw [drainUpTo, receive_of_closed h]

/-! ## Any number of calls -/

/-- Drains a socket some times.  Returns how many datagrams there were each time. -/
def drainTimes (handle : σ → DatagramSocket → Bytes → Endpoint → σ × DatagramSocket) :
    Nat → σ → DatagramSocket → List Nat × σ × DatagramSocket
  | 0, st, s => ([], st, s)
  | calls + 1, st, s =>
    let (count, st, s) := s.drain handle st
    let (counts, st, s) := drainTimes handle calls st s
    (count :: counts, st, s)

/-- What some calls hand over, one after the other. -/
def batches : Nat → List Receive → List (List (Bytes × Endpoint))
  | 0, _ => []
  | calls + 1, script => front maxDrain script :: batches calls (behind maxDrain script)

/-- What they leave. -/
def remaining : Nat → List Receive → List Receive
  | 0, script => script
  | calls + 1, script => remaining calls (behind maxDrain script)

theorem flatten_batches (calls : Nat) (script : List Receive) :
    (batches calls script).flatten ++ datagrams (remaining calls script) = datagrams script := by
  induction calls generalizing script with
  | zero => rfl
  | succ calls ih =>
    rw [batches, remaining, List.flatten_cons, List.append_assoc, ih,
      front_append_datagrams_behind]

theorem length_le_of_mem_batches {calls : Nat} {script : List Receive}
    {batch : List (Bytes × Endpoint)} (h : batch ∈ batches calls script) :
    batch.length ≤ maxDrain := by
  induction calls generalizing script with
  | zero => cases h
  | succ calls ih =>
    rcases List.mem_cons.1 h with rfl | h
    · exact length_front_le _ _
    · exact ih h

theorem remaining_eq_nil {calls : Nat} {script : List Receive} (h : script.length ≤ calls) :
    remaining calls script = [] := by
  induction calls generalizing script with
  | zero => exact List.eq_nil_of_length_eq_zero (Nat.le_zero.1 h)
  | succ calls ih =>
    have hshorter := length_behind_le 63 script
    exact ih (Nat.le_trans hshorter (Nat.sub_le_of_le_add h))

theorem drainTimes_eq (hsends : Sends handle f answers) (hopen : s.closed = false) (calls : Nat)
    (st : σ) : drainTimes handle calls st s =
      ((batches calls s.inbox).map List.length, (batches calls s.inbox).flatten.foldl f st,
        s.answered answers (batches calls s.inbox).flatten (remaining calls s.inbox)) := by
  induction calls generalizing st s with
  | zero =>
    show ([], st, s) = ([], st, s.answered answers [] s.inbox)
    rw [answered_nil]
  | succ calls ih =>
    have hdrain := drainUpTo_eq hsends hopen maxDrain st
    rw [drainTimes, drain, hdrain]
    simp only
    rw [ih (s := s.answered answers (front maxDrain s.inbox) (behind maxDrain s.inbox)) hopen,
      answered_answered, batches, List.flatten_cons, List.foldl_append]
    rfl

end

end DatagramSocket

end PvNet
