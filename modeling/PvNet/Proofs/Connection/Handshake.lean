import PvNet.Proofs.Connection.Verdicts
import PvNet.Proofs.Message.Transmission
set_option autoImplicit false

/-!
# The messages of the validation

What the two ends say to each other while a connection is validated is read back as it
was said, and what a transport queues for its peer is composed into just that message.
-/

namespace PvNet

/-! ## Payloads -/

section

variable {σ : Type} (o : ByteOrder) (s : σ)

theorem Greeting.reads_decode {g : Greeting} (hcount : g.authPlugins.length ≤ Wire.maxSize)
    (hnames : ∀ name ∈ g.authPlugins, name.utf8ByteSize ≤ Wire.maxSize) :
    Greeting.decode.Reads o s (g.encode o) g s := by
  have hplugins := Decoder.Reads.times_of_forall (Wire.string o) g.authPlugins
    fun name hname => Decoder.Reads.string o s (hnames name hname)
  unfold Greeting.encode
  rw [List.append_assoc, List.append_assoc]
  refine (Decoder.Reads.word32 o s g.receiveBufferSize).bind ?_
  refine (Decoder.Reads.word16 o s g.introspectionCapacity).bind ?_
  refine (Decoder.Reads.length o s hcount).bind ?_
  exact hplugins.bind_pure (Decoder.Reads.pure g o s)

theorem Reply.reads_decode {r : Reply} (hname : r.authPlugin.utf8ByteSize ≤ Wire.maxSize) :
    Reply.decode.Reads o s (r.encode o) r s := by
  unfold Reply.encode
  rw [List.append_assoc, List.append_assoc]
  refine (Decoder.Reads.word32 o s r.receiveBufferSize).bind ?_
  refine (Decoder.Reads.word16 o s r.introspectionCapacity).bind ?_
  refine (Decoder.Reads.word16 o s r.qos).bind ?_
  exact (Decoder.Reads.string o s hname).bind_pure (Decoder.Reads.pure r o s)

theorem StatusKind.code_ne_plainOk (k : StatusKind) : k.code ≠ Status.plainOk := by
  cases k <;> decide

theorem Status.reads_decode {status : Status}
    (hmessage : status.message.utf8ByteSize ≤ Wire.maxSize)
    (htree : status.callTree.utf8ByteSize ≤ Wire.maxSize) :
    Status.decode.Reads o s (status.encode o) status s := by
  unfold Status.encode
  by_cases hok : status = Status.ok
  · rw [if_pos hok, hok]
    exact fun rest => rfl
  · rw [if_neg hok]
    refine Decoder.Reads.octet_bind o s ?_
    rw [if_neg status.kind.code_ne_plainOk]
    simp only [StatusKind.ofCode?_code]
    refine (Decoder.Reads.string o s hmessage).bind ?_
    exact (Decoder.Reads.string o s htree).bind_pure (Decoder.Reads.pure status o s)

end

/-! ## The two ends -/

/-- What a server with a configuration says first: its byte order. -/
def orderMessage (server : TransportConfig) : Message :=
  .control Command.setByteOrder server.order true 0

/-- How a server introduces itself. -/
def greetingMessage (server : TransportConfig) : Message :=
  .application Command.validation server.order true ((Greeting.ofConfig server).encode server.order)

/-- What a client answers a server. -/
def replyTo (server client : TransportConfig) : Reply := .toGreeting (.ofConfig server) client

/-- The answer on the wire, in the order of the server. -/
def replyMessage (server client : TransportConfig) : Message :=
  .application Command.validation server.order false ((replyTo server client).encode server.order)

/-- A server accepts the connection. -/
def acceptanceMessage (server : TransportConfig) : Message :=
  .application Command.validated server.order true (Status.ok.encode server.order)

/-- An echo as an end sends it. -/
def echoMessage (o : ByteOrder) (fromServer : Bool) : Message :=
  .application Command.echo o fromServer []

/-- What a client knows about a server when it has been greeted. -/
def knownServer (server : TransportConfig) : PeerInfo :=
  ⟨Header.revision, server.receiveBufferSize, server.introspectionCapacity⟩

/-- What a server knows about a client when it has had the reply. -/
def knownClient (client : TransportConfig) : PeerInfo :=
  ⟨Header.revision, client.receiveBufferSize, client.introspectionCapacity⟩

/-- The client chooses the plugin of the server or none, so that the server accepts. -/
theorem authPlugin_replyTo (server client : TransportConfig) :
    (replyTo server client).authPlugin = server.authPlugin ∨
      (replyTo server client).authPlugin = anonymousPlugin := by
  unfold replyTo Reply.toGreeting
  by_cases hsame : server.authPlugin = client.authPlugin
  · simp [Greeting.ofConfig, hsame]
  · simp [Greeting.ofConfig, Ne.symm hsame]

theorem utf8ByteSize_replyTo {server : TransportConfig} (client : TransportConfig)
    (hname : server.authPlugin.utf8ByteSize ≤ Wire.maxSize) :
    (replyTo server client).authPlugin.utf8ByteSize ≤ Wire.maxSize := by
  rcases authPlugin_replyTo server client with h | h
  · rw [h]
    exact hname
  · rw [h]
    decide

theorem check_replyTo (server client : TransportConfig) :
    (replyTo server client).check server = .ok :=
  if_pos (authPlugin_replyTo server client)

/-- The payload limits of both ends leave room for what the other end says during the validation,
and the name of the server's plugin is one that can be written. -/
structure TransportConfig.Admits (client server : TransportConfig) : Prop where
  greeting : (greetingMessage server).payload.length ≤ client.maxPayload
  reply : (replyMessage server client).payload.length ≤ server.maxPayload
  name : server.authPlugin.utf8ByteSize ≤ Wire.maxSize

namespace TransportConfig.Admits

variable {client server : TransportConfig}

theorem transmissible_greeting (h : client.Admits server) :
    (greetingMessage server).Transmissible client.maxPayload := by
  refine Message.transmissible_application h.greeting ?_
  have hcount := Wire.length_length_le server.order 1
  have hname := Wire.length_string_le server.order server.authPlugin
  have hlimit := h.name
  simp only [Greeting.encode, Greeting.ofConfig, List.length_append, Wire.word32, Wire.word16,
    ByteOrder.length_encode, List.flatMap_cons, List.flatMap_nil, List.append_nil,
    List.length_singleton, Message.maxDeclared, Wire.maxSize] at hcount hlimit ⊢
  omega

theorem transmissible_reply (h : client.Admits server) :
    (replyMessage server client).Transmissible server.maxPayload := by
  refine Message.transmissible_application h.reply ?_
  have hname := Wire.length_string_le server.order (replyTo server client).authPlugin
  have hlimit := utf8ByteSize_replyTo client h.name
  simp only [Reply.encode, List.length_append, Wire.word32, Wire.word16, ByteOrder.length_encode,
    Message.maxDeclared, Wire.maxSize] at hlimit ⊢
  omega

/-- A verdict that has nothing to add is shorter than a greeting. -/
theorem transmissible_acceptance (h : client.Admits server) :
    (acceptanceMessage server).Transmissible client.maxPayload := by
  have hlength : (Status.ok.encode server.order).length = 1 := rfl
  have hgreeting : 1 ≤ (greetingMessage server).payload.length := by
    simp only [greetingMessage, Message.payload_application, Greeting.encode, List.length_append,
      Wire.word32, ByteOrder.length_encode]
    omega
  refine Message.transmissible_application ?_ ?_
  · rw [hlength]
    exact Nat.le_trans hgreeting h.greeting
  · rw [hlength]
    decide

end TransportConfig.Admits

theorem transmissible_orderMessage (maxPayload : Nat) (server : TransportConfig) :
    (orderMessage server).Transmissible maxPayload :=
  Message.transmissible_control ..

theorem transmissible_echoMessage (maxPayload : Nat) (o : ByteOrder) (fromServer : Bool) :
    (echoMessage o fromServer).Transmissible maxPayload :=
  Message.transmissible_application (Nat.zero_le _) (Nat.zero_le _)

namespace Transport

variable {t : Transport} {server client : TransportConfig}

theorem dispatch_orderMessage (hrole : t.role = .client) :
    t.dispatch (orderMessage server) = { transport := { t with order := server.order } } := by
  have hcontrol : (orderMessage server).isControl = true := Message.isControl_control ..
  have horder : (orderMessage server).order = server.order := Message.order_control ..
  unfold dispatch dispatchControl
  rw [if_pos hcontrol, if_pos ⟨rfl, hrole⟩, horder]

theorem dispatch_greetingMessage (hopen : t.closed = false) (hrole : t.role = .client)
    (hname : server.authPlugin.utf8ByteSize ≤ Wire.maxSize) :
    t.dispatch (greetingMessage server) =
      { transport :=
          { t with peer := knownServer server }.push (replyScript (replyTo server t.config)) } := by
  have hconcern : t.role.concern (greetingMessage server) = .greeting := by
    unfold Role.concern
    rw [hrole, if_neg (by simp [greetingMessage]), if_pos (by simp [greetingMessage])]
  have hread : (greetingMessage server).read Greeting.decode = .ok (.ofConfig server) := by
    refine Message.read_application (Greeting.reads_decode _ _ ?_ ?_)
    · show 1 ≤ Wire.maxSize
      decide
    · intro name hmem
      rw [List.mem_singleton.1 hmem]
      exact hname
  rw [dispatch_eq, hconcern]
  exact dispatchGreeting_of_open hopen hread

theorem dispatch_acceptanceMessage (hrole : t.role = .client) :
    t.dispatch (acceptanceMessage server) = { transport := { t with verification := .verified } } := by
  have hconcern : t.role.concern (acceptanceMessage server) = .verdict := by
    unfold Role.concern
    rw [hrole, if_neg (by simp [acceptanceMessage]),
      if_neg (by simp [acceptanceMessage, Command.validated, Command.validation]),
      if_pos ⟨by simp [acceptanceMessage], rfl⟩]
  have hread : (acceptanceMessage server).read Status.decode = .ok Status.ok :=
    Message.read_application (Status.reads_decode _ _ (by decide) (by decide))
  rw [dispatch_eq, hconcern]
  simp only [dispatchVerdict, hread]
  rfl

theorem concern_echoMessage (role : Role) (o : ByteOrder) (fromServer : Bool) :
    role.concern (echoMessage o fromServer) = .echo := by
  unfold Role.concern
  rw [if_neg (by simp [echoMessage]),
    if_neg (by simp [echoMessage, Command.echo, Command.validation]),
    if_neg (by simp [echoMessage, Command.echo, Command.validated]),
    if_pos (by simp [echoMessage])]

/-- An echo that comes back from a server ends there. -/
theorem dispatch_echoMessage_server (o : ByteOrder) :
    t.dispatch (echoMessage o true) = { transport := t } := by
  rw [dispatch_eq, concern_echoMessage]
  simp only [echoMessage, Message.isFromServer_application, if_true]

/-- An echo of a client is answered. -/
theorem dispatch_echoMessage_client (hopen : t.closed = false) (o : ByteOrder) :
    t.dispatch (echoMessage o false) = { transport := t.push (echoScript []) } := by
  rw [dispatch_eq, concern_echoMessage]
  simp only [echoMessage, Message.isFromServer_application, Message.payload_application,
    Bool.false_eq_true, if_false, answer_of_open hopen]

theorem dispatch_replyMessage (hopen : t.closed = false) (hrole : t.role = .server)
    (hconfig : t.config = server)
    (hname : (replyTo server client).authPlugin.utf8ByteSize ≤ Wire.maxSize) :
    t.dispatch (replyMessage server client) =
      { transport :=
          { t with peer := knownClient client, verification := .verified }.push
            (validatedScript .ok) } := by
  have hconcern : t.role.concern (replyMessage server client) = .reply := by
    unfold Role.concern
    rw [hrole, if_neg (by simp [replyMessage]), if_pos (by simp [replyMessage])]
  have hread : (replyMessage server client).read Reply.decode = .ok (replyTo server client) :=
    Message.read_application (Reply.reads_decode _ _ hname)
  rw [dispatch_eq, hconcern]
  show t.dispatchReply (replyMessage server client) = _
  rw [dispatchReply_of_open hopen hread, hconfig, check_replyTo]
  rfl

section

variable {o : ByteOrder} {fromServer : Bool}

/-- The sender of one message is composed. -/
theorem compose_of_application {command : UInt8} {payload : ByteOrder → Bytes}
    (hopen : t.closed = false) (horder : t.order = o)
    (hserver : decide (t.role = .server) = fromServer)
    (hhand : t.inHand = some [.start command, .write payload, .finish]) :
    t.compose =
      ({ sent := [.application command o fromServer (payload o)] }, { t with inHand := none }) := by
  subst horder hserver
  rw [compose_of_sent hhand rfl, if_neg (by simp [hopen])]
  rfl

theorem compose_of_greeting {g : Greeting} (hopen : t.closed = false) (horder : t.order = o)
    (hserver : decide (t.role = .server) = fromServer)
    (hhand : t.inHand = some (greetingScript g)) :
    t.compose =
      ({ sent :=
          [.control Command.setByteOrder o fromServer 0,
            .application Command.validation o fromServer (g.encode o)] },
        { t with inHand := none }) := by
  subst horder hserver
  rw [compose_of_sent hhand rfl, if_neg (by simp [hopen])]
  rfl

end

end Transport

end PvNet
