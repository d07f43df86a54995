import PvNet.Proofs.Connection.Handshake
import PvNet.Proofs.Connection.Lifetime
set_option autoImplicit false

/-!
# How many descriptors a transport numbers

Each end announces in the validation how many numbered descriptors it is willing to hold.
The other end takes a note of it, but its table has been made before, with a capacity of
its own.  So a transport numbers at most as many descriptors as it is willing to hold
itself (`Starts.size_live_le`), and it stays within what its peer announces exactly if
that is no less (`numbered_within_announced_iff`).
-/

namespace PvNet

/-! ## Descriptors that are new to the peer -/

/-- The descriptor of a structure without members. -/
def Field.memberless (name : String) : Field := .struct ⟨name, []⟩

theorem Field.memberless_injective : Function.Injective Field.memberless := by
  intro name name' h
  injection h with h
  injection h with hname

theorem Field.types_encode_memberless (o : ByteOrder) {t : SentTypes} {name : String}
    (hnew : t.number? (Field.memberless name) = none) (hroom : t.isFull = false) :
    ((Field.memberless name).encode o t).2 = t.added (Field.memberless name) := by
  have hintroduce := SentTypes.introduce_of_new o hnew hroom
  show ((Structure.mk name []).encode o t).2 = _
  rw [Structure.encode_eq]
  unfold SentTypes.introducing
  rw [show (Field.struct ⟨name, []⟩) = Field.memberless name from rfl, hintroduce]
  rfl

/-- A sender of descriptors. -/
def describing (names : List String) : Script :=
  names.map fun name => .describe (some (Field.memberless name))

/-- Each new descriptor takes a number as long as there is room. -/
theorem Composer.run_describing {names : List String} (hnodup : names.Nodup) {c : Composer}
    (hnew : ∀ name ∈ names, c.types.number? (Field.memberless name) = none)
    (hroom : c.types.size + names.length ≤ c.types.capacity) :
    (c.run (describing names)).1 = true ∧
      (c.run (describing names)).2.types.size = c.types.size + names.length := by
  induction names generalizing c with
  | nil =>
    refine ⟨rfl, ?_⟩
    show c.finish.types.size = _
    rw [c.types_finish]
    rfl
  | cons name names ih =>
    obtain ⟨hname, hnames⟩ := List.nodup_cons.1 hnodup
    have hfull : c.types.isFull = false := by
      rw [List.length_cons] at hroom
      unfold SentTypes.isFull
      exact decide_eq_false (by omega)
    have htypes : (c.describe (some (Field.memberless name))).types =
        c.types.added (Field.memberless name) :=
      Field.types_encode_memberless c.order (hnew name List.mem_cons_self) hfull
    have hsize : (c.types.added (Field.memberless name)).size = c.types.size + 1 := rfl
    have hrest := ih hnames (c := c.describe (some (Field.memberless name)))
      (fun other hmem => by
        have hother : Field.memberless name ≠ Field.memberless other := fun h =>
          hname (Field.memberless_injective h ▸ hmem)
        rw [htypes, SentTypes.number?_added, if_neg hother]
        exact hnew other (List.mem_cons_of_mem _ hmem))
      (by
        rw [htypes, hsize]
        show _ ≤ c.types.capacity
        rw [List.length_cons] at hroom
        omega)
    rw [htypes, hsize] at hrest
    refine ⟨hrest.1, hrest.2.trans ?_⟩
    rw [List.length_cons]
    omega

/-- As many names as one likes. -/
def manyNames (n : Nat) : List String :=
  (List.range n).map fun i => String.ofList (List.replicate i 'x')

theorem nodup_manyNames (n : Nat) : (manyNames n).Nodup := by
  refine List.nodup_range.map fun i j h => ?_
  exact List.replicate_left_injective 'x' (String.ofList_injective h)

theorem length_manyNames (n : Nat) : (manyNames n).length = n := by
  rw [manyNames, List.length_map, List.length_range]

namespace Transport

variable {t : Transport} {m : Message} {n : UInt16}

/-! ## The own capacity -/

/-- A transport at the start of a connection. -/
inductive Starts : Transport → Prop where
  | client (remote : Endpoint) (priority : Int16) (config : TransportConfig)
    (handler : Option (Message → Bool)) : Starts (.client remote priority config handler)
  | server (remote : Endpoint) (config : TransportConfig) (handler : Option (Message → Bool)) :
    Starts (.server remote config handler)

theorem Starts.opened (h : t.Starts) : t.closed = false := by
  cases h with
  | client | server => rfl

theorem Starts.free (h : t.Starts) : t.inHand = none := by
  cases h with
  | client | server => rfl

/-- The table of a new transport is empty and has room for as many descriptors as its own end is
willing to hold. -/
theorem Starts.sentTypes_eq (h : t.Starts) :
    t.sentTypes = ⟨[], 1, t.config.introspectionCapacity.toNat⟩ := by
  have hcapacity : min t.config.introspectionCapacity.toNat 65535 =
      t.config.introspectionCapacity.toNat := by
    have hlt := t.config.introspectionCapacity.toNat_lt
    omega
  have hfresh : t.sentTypes = .withCapacity t.config.introspectionCapacity.toNat := by
    cases h with
    | client | server => rfl
  rw [hfresh, SentTypes.withCapacity, hcapacity]

/-- However it is used, a transport numbers no more descriptors than its own end is willing to
hold. -/
theorem Starts.size_live_le (h : t.Starts) (steps : List LifeStep) :
    (live steps t).2.sentTypes.size ≤ t.config.introspectionCapacity.toNat := by
  let P : SentTypes → Prop := fun sent =>
    sent.capacity = t.config.introspectionCapacity.toNat ∧ sent.size ≤ sent.capacity
  have hadded : SentTypes.Growing P := by
    rintro sent f ⟨hcapacity, -⟩ - hroom
    have hsize : sent.size < sent.capacity := by simpa [SentTypes.isFull] using hroom
    exact ⟨hcapacity, hsize⟩
  have hclear : ∀ sent, P sent → P sent.clear := fun sent hsent => ⟨hsent.1, Nat.zero_le _⟩
  have hstart : P t.sentTypes := by
    rw [h.sentTypes_eq]
    exact ⟨rfl, Nat.zero_le _⟩
  have hevolves := (lived_live (.inl h.opened) steps).sentTypes
  obtain ⟨hcapacity, hsize⟩ := hevolves.keeps hadded hclear hstart
  exact hcapacity ▸ hsize

/-! ## What the peer announces -/

/-- How many descriptors the peer is willing to hold according to a message, if the message is the
peer's part in the validation. -/
def announced? (t : Transport) (m : Message) : Option UInt16 :=
  match t.role.concern m with
  | .greeting => (m.read Greeting.decode).toOption.map (·.introspectionCapacity)
  | .reply => (m.read Reply.decode).toOption.map (·.introspectionCapacity)
  | _ => none

/-- The announcement is noted down and answered with one message. -/
theorem exists_dispatch_of_announced (hopen : t.closed = false) (h : t.announced? m = some n) :
    ∃ command payload peer verification, peer.introspectionCapacity = n ∧
      t.dispatch m =
        { transport :=
            { t with
              peer
              verification
              queue := t.queue ++ [[.start command, .write payload, .finish]] } } := by
  rw [dispatch_eq]
  cases hconcern : t.role.concern m with
  | greeting =>
    cases hread : m.read Greeting.decode with
    | error e => simp [announced?, hconcern, hread, Except.toOption] at h
    | ok g =>
      have hn : g.introspectionCapacity = n := by
        simpa [announced?, hconcern, hread, Except.toOption] using h
      exact ⟨_, _, g.peerInfo m.header.version, t.verification, hn,
        dispatchGreeting_of_open hopen hread⟩
  | reply =>
    cases hread : m.read Reply.decode with
    | error e => simp [announced?, hconcern, hread, Except.toOption] at h
    | ok r =>
      have hn : r.introspectionCapacity = n := by
        simpa [announced?, hconcern, hread, Except.toOption] using h
      exact ⟨_, _, r.peerInfo m.header.version, _, hn, dispatchReply_of_open hopen hread⟩
  | control | verdict | echo | other => simp [announced?, hconcern] at h

/-- Taking in an announcement leaves the transport open and the table as it is. -/
theorem exists_take_of_announced (hopen : t.closed = false) (h : t.announced? m = some n)
    (now : Instant) :
    ∃ command payload peer verification, peer.introspectionCapacity = n ∧
      t.take now m =
        ({}, { t with
          lastActivity := now
          peer
          verification
          queue := t.queue ++ [[.start command, .write payload, .finish]] }) := by
  obtain ⟨command, payload, peer, verification, hn, hdispatch⟩ :=
    exists_dispatch_of_announced (t := { t with lastActivity := now }) hopen h
  refine ⟨command, payload, peer, verification, hn, ?_⟩
  have hdispatchAt : t.dispatchAt now m = _ := hdispatch
  rw [take_of_good (listens_of_open hopen) (by rw [hdispatchAt]), hdispatchAt]

/-- What a peer says that is willing to hold some number of descriptors. -/
def announcement (role : Role) (n : UInt16) : Message :=
  match role with
  | .client =>
    .application Command.validation .big true (Greeting.encode .big ⟨16384, n, [anonymousPlugin]⟩)
  | .server =>
    .application Command.validation .big false (Reply.encode .big ⟨16384, n, 0, anonymousPlugin⟩)

theorem announced?_announcement (t : Transport) (n : UInt16) :
    t.announced? (announcement t.role n) = some n := by
  have hname : anonymousPlugin.utf8ByteSize ≤ Wire.maxSize := by decide
  unfold announced?
  cases t.role with
  | client =>
    have hconcern : Role.client.concern (announcement .client n) = .greeting := by
      unfold Role.concern
      rw [if_neg (by simp [announcement]), if_pos (by simp [announcement])]
    have hread : (announcement .client n).read Greeting.decode =
        .ok ⟨16384, n, [anonymousPlugin]⟩ :=
      Message.read_application (Greeting.reads_decode _ _ (show 1 ≤ Wire.maxSize by decide)
        (List.forall_mem_singleton.2 hname))
    simp only [hconcern, hread]
    rfl
  | server =>
    have hconcern : Role.server.concern (announcement .server n) = .reply := by
      unfold Role.concern
      rw [if_neg (by simp [announcement]), if_pos (by simp [announcement])]
    have hread : (announcement .server n).read Reply.decode =
        .ok ⟨16384, n, 0, anonymousPlugin⟩ :=
      Message.read_application (Reply.reads_decode _ _ hname)
    simp only [hconcern, hread]
    rfl

/-! ## More than the peer announces -/

/-- Somebody queues descriptors, and the sender has a turn. -/
def describe (names : List String) : List LifeStep :=
  (.enqueue (.start 20 :: describing names) :: TransportStep.turns 1).map .own

/-- A sender of descriptors has its turn, nothing else being queued. -/
theorem size_describing (hopen : t.closed = false) (hfree : t.inHand = none) (hqueue : t.queue = [])
    (hempty : t.sentTypes.entries = []) {names : List String} (hnodup : names.Nodup)
    (hroom : names.length ≤ t.sentTypes.capacity) :
    (live (describe names) t).2.sentTypes.size = names.length := by
  let script : Script := .start 20 :: describing names
  let t₁ : Transport := { t with queue := [script] }
  have henqueue : (LifeStep.own (.enqueue script)).run t = ({}, t₁) := by
    show (({} : Activity), (t.enqueue script).toOption.getD t) = _
    rw [enqueue_of_open hopen]
    show (({} : Activity), { t with queue := t.queue ++ [script] }) = _
    rw [hqueue]
    rfl
  let c : Composer :=
    { order := t.order, fromServer := t.role = .server, opened := some 20, types := t.sentTypes }
  have hsize : t.sentTypes.size = 0 := by rw [SentTypes.size, hempty, List.length_nil]
  have hrun := Composer.run_describing hnodup (c := c)
    (fun name _ => by
      show t.sentTypes.number? (Field.memberless name) = none
      rw [SentTypes.number?, hempty]
      rfl)
    (by
      show t.sentTypes.size + names.length ≤ t.sentTypes.capacity
      omega)
  have hsent : (t₁.composed script).messages = some (c.run (describing names)).2.messages :=
    if_pos hrun.1
  have hturn : t₁.turn = _ := turn_of_sent hopen hfree rfl hsent
  unfold describe
  rw [List.map_cons, live_cons, henqueue, live_own, ← turns_eq_runAll]
  show t₁.turn.2.sentTypes.size = _
  rw [hturn]
  show (c.run (describing names)).2.types.size = _
  rw [hrun.2, show c.types.size = 0 from hsize, Nat.zero_add]

/-- When a message that is to be answered has come in, what is queued is sent, then the answer, and
then descriptors are. -/
def describeNext (t : Transport) (names : List String) : List LifeStep :=
  (TransportStep.turns (t.queue.length + 1)).map .own ++ describe names

/-- Whatever a peer announces, descriptors are numbered as far as the own capacity goes. -/
theorem Starts.size_describeNext (h : t.Starts) (hm : t.announced? m = some n)
    {names : List String} (hnodup : names.Nodup)
    (hroom : names.length ≤ t.config.introspectionCapacity.toNat) (now : Instant) :
    (live (.own (.take now m) :: t.describeNext names) t).2.sentTypes.size = names.length := by
  obtain ⟨command, payload, peer, verification, -, htake⟩ :=
    exists_take_of_announced h.opened hm now
  let idle : Transport := { t with lastActivity := now, peer, verification, queue := [] }
  have hdescribing := size_describing (t := idle) h.opened h.free rfl
    (show t.sentTypes.entries = [] by rw [h.sentTypes_eq]) hnodup
    (show _ ≤ t.sentTypes.capacity by
      rw [h.sentTypes_eq]
      exact hroom)
  have htaken : (LifeStep.own (.take now m)).run t = _ := htake
  unfold describeNext
  rw [live_cons, htaken, live_append, live_own, ← turns_eq_runAll]
  cases h with
  | client remote priority config handler =>
    let t₁ : Transport :=
      { idle with queue := [[.start command, .write payload, .finish]] }
    have hturn : t₁.turn = (_, idle) := turn_of_sent (t := t₁) rfl rfl rfl rfl
    show (live (describe names) t₁.turn.2).2.sentTypes.size = _
    rw [hturn]
    exact hdescribing
  | server remote config handler =>
    let t₁ : Transport :=
      { idle with
        queue := [greetingScript (.ofConfig config), [.start command, .write payload, .finish]] }
    let t₂ : Transport :=
      { idle with queue := [[.start command, .write payload, .finish]] }
    have hgreeting : t₁.turn = (_, t₂) := turn_of_sent (t := t₁) rfl rfl rfl rfl
    have hturn : t₂.turn = (_, idle) := turn_of_sent (t := t₂) rfl rfl rfl rfl
    show (live (describe names) t₁.turn.2.turn.2).2.sentTypes.size = _
    rw [hgreeting]
    show (live (describe names) t₂.turn.2).2.sentTypes.size = _
    rw [hturn]
    exact hdescribing

/-- A transport numbers as many descriptors as its own end is willing to hold.  What its peer
announces is noted down but is no limit: the table stays within it, whatever is sent after the
announcement, exactly if it is no less than the own capacity. -/
theorem numbered_within_announced_iff (h : t.Starts) (n : UInt16) :
    (∀ steps, (live steps t).2.sentTypes.size ≤ t.config.introspectionCapacity.toNat) ∧
    (∀ before now m, (live before t).2.closed = false → t.announced? m = some n →
      (live (before ++ [.own (.take now m)]) t).2.peer.introspectionCapacity = n) ∧
    ((∀ before now m after, (live before t).2.closed = false → t.announced? m = some n →
        (live (before ++ .own (.take now m) :: after) t).2.sentTypes.size ≤ n.toNat) ↔
      t.config.introspectionCapacity ≤ n) := by
  refine ⟨h.size_live_le, fun before now m hopen hm => ?_, fun hkept => ?_,
    fun hle before now m after _ _ => ?_⟩
  · have hsame := (lived_live (.inl h.opened) before).sameEnd
    have hannounced : (live before t).2.announced? m = some n := by
      unfold announced?
      rw [hsame.role]
      exact hm
    obtain ⟨command, payload, peer, verification, hn, htake⟩ :=
      exists_take_of_announced hopen hannounced now
    have htaken : (LifeStep.own (.take now m)).run (live before t).2 = _ := htake
    rw [live_append, live_cons, htaken]
    exact hn
  · -- One descriptor more than the peer announces is numbered if there is room for it.
    by_contra hlt
    have hcapacity : n.toNat < t.config.introspectionCapacity.toNat :=
      UInt16.lt_iff_toNat_lt.1 (UInt16.not_le.1 hlt)
    have hm := announced?_announcement t n
    have hsize := h.size_describeNext hm (nodup_manyNames (n.toNat + 1))
      (by rwa [length_manyNames]) 0
    have hbound := hkept [] 0 _ (t.describeNext (manyNames (n.toNat + 1))) h.opened hm
    rw [List.nil_append, hsize, length_manyNames] at hbound
    exact Nat.not_succ_le_self _ hbound
  · exact Nat.le_trans (h.size_live_le _) (UInt16.le_iff_toNat_le.1 hle)

/-- What a server's end announces to hold itself is what it numbers, not what a client with room for
one descriptor announces. -/
theorem not_within_announced_one :
    let t := Transport.server (.any 0) {} none
    t.Starts ∧
      ¬ ∀ before now m after, (live before t).2.closed = false → t.announced? m = some 1 →
        (live (before ++ .own (.take now m) :: after) t).2.sentTypes.size ≤ (1 : UInt16).toNat := by
  intro t
  have hstarts : t.Starts := .server (.any 0) {} none
  have hiff := (numbered_within_announced_iff hstarts 1).2.2
  have hcapacity : ¬ t.config.introspectionCapacity ≤ 1 := by decide
  exact ⟨hstarts, fun h => hcapacity (hiff.1 h)⟩

/-- A client announces that it holds one descriptor, and the server's end numbers two. -/
theorem two_numbered_for_one :
    let t := Transport.server (.any 0) {} none
    let m := announcement .server 1
    let steps := .own (.take 0 m) :: t.describeNext ["", "x"]
    t.Starts ∧ t.announced? m = some 1 ∧
      ¬ (live steps t).2.sentTypes.size ≤ (1 : UInt16).toNat := by
  intro t m steps
  have hstarts : t.Starts := .server (.any 0) {} none
  have hm : t.announced? m = some 1 := announced?_announcement t 1
  have hsize : (live steps t).2.sentTypes.size = 2 :=
    hstarts.size_describeNext hm (show ["", "x"].Nodup by decide) (by decide) 0
  refine ⟨hstarts, hm, ?_⟩
  rw [hsize]
  decide

end Transport

end PvNet
