import ParleVision.Runtime.Sequential
import ParleVision.Tcp.FlowControl
import ParleVision.Tcp.Produce

namespace ParleVision.Tcp
open ParleVision.Lib ParleVision.Runtime

variable {E P C V M E' P' C' : Type}

/-- The frames that were sent, as the members of a server have them. -/
structure Broadcasts (M V : Type) where
  sent : M → List (UInt32 × List V)
  sendFrame : M → UInt32 × List V → M
  sent_sendFrame : ∀ members f, sent (sendFrame members f) = sent members ++ [f]

/-- `TCPServerProcessor::process`, with the pins that are left; `convert` is what is done with an
image when `m_convertCvMatToQImage` is set. -/
def TCPServerProcessor.process (broadcasts : Broadcasts M V) (convert : C → V → V) (serial : Nat)
    (members : M) : List C → List V → Program P C V M
  | [], frameData =>
    .returns true (broadcasts.sendFrame members (UInt32.ofNat serial, frameData))
  | c :: inputPins, frameData =>
    .get c fun v => process broadcasts convert serial members inputPins (frameData ++ [convert c v])

section
variable (convert : C → V → V)

def frameData (items : C → Option V) (inputPins : List C) : Option (List V) :=
  inputPins.mapM fun c => (items c).map (convert c)

def broadcast (net : Network E P C) (server : E) (first : Nat)
    (frames : Nat → FrameState E C V M) (n : Nat) : List (UInt32 × List V) :=
  (List.range n).filterMap fun k =>
    (frameData convert (frames (k + 1)).items (net.inputs server)).map
      fun values => (UInt32.ofNat (first + k), values)

variable {convert}

theorem broadcast_succ {net : Network E P C} {server : E} {first : Nat}
    {frames : Nat → FrameState E C V M} (n : Nat) :
    broadcast convert net server first frames (n + 1) =
      broadcast convert net server first frames n ++
        ((frameData convert (frames (n + 1)).items (net.inputs server)).map
          fun values => (UInt32.ofNat (first + n), values)).toList := by
  rw [broadcast, List.range_succ, List.filterMap_append]
  congr 1

theorem frameData_cons_none {items : C → Option V} {c : C} (inputPins : List C)
    (h : items c = none) : frameData convert items (c :: inputPins) = none := by
  rw [frameData, List.mapM_cons, h]
  rfl

theorem frameData_cons_some {items : C → Option V} {c : C} {v : V} (inputPins : List C)
    (h : items c = some v) : frameData convert items (c :: inputPins) =
      (frameData convert items inputPins).map (convert c v :: ·) := by
  rw [frameData, List.mapM_cons, h]
  cases hrest : inputPins.mapM fun c => (items c).map (convert c) with
  | none => simp [frameData, hrest]
  | some values => simp [frameData, hrest]

/-- There are values just when `__process` finds no NULL. -/
theorem frameData_isNone {net : Network E P C} {items : C → Option V} {inputPins : List C}
    (h : ∀ c ∈ inputPins, net.isSynchronous c = true ∧ net.isDataGuaranteed c = true) :
    (frameData convert items inputPins).isNone = net.nullDetected items inputPins := by
  induction inputPins with
  | nil => rfl
  | cons c inputPins ih =>
    obtain ⟨hsync, hguaranteed⟩ := h c (List.mem_cons_self ..)
    have hrest := ih fun c hc => h c (List.mem_cons_of_mem _ hc)
    rw [net.nullDetected_cons, hsync, hguaranteed, ← hrest]
    cases hc : items c with
    | none => simp [frameData_cons_none inputPins hc]
    | some v => simp [frameData_cons_some inputPins hc]

variable [DecidableEq P] [DecidableEq C]

/-- With a value on each pin it returns and has sent them all. -/
theorem TCPServerProcessor.process_outcome {broadcasts : Broadcasts M V} {serial : Nat}
    {members : M} {items : C → Option V} {inputPins got : List C} {front values : List V}
    {out : P → Option V} (hnodup : inputPins.Nodup) (hgot : ∀ c ∈ inputPins, c ∉ got)
    (hvalues : frameData convert items inputPins = some values) :
    (process broadcasts convert serial members inputPins front).outcome items got out =
      ⟨out, some (broadcasts.sendFrame members (UInt32.ofNat serial, front ++ values))⟩ := by
  induction inputPins generalizing got front values with
  | nil =>
    have hnil : values = [] := by simpa [frameData] using hvalues.symm
    rw [hnil, List.append_nil]
    rfl
  | cons c inputPins ih =>
    obtain ⟨hc, hnodup⟩ := List.nodup_cons.mp hnodup
    cases hitem : items c with
    | none =>
      rw [frameData_cons_none inputPins hitem] at hvalues
      cases hvalues
    | some v =>
      rw [frameData_cons_some inputPins hitem] at hvalues
      obtain ⟨values, hrest, rfl⟩ := Option.map_eq_some_iff.mp hvalues
      have hgot' : ∀ c' ∈ inputPins, c' ∉ c :: got := by
        intro c' hc'
        rw [List.mem_cons, not_or]
        exact ⟨fun he => hc (he ▸ hc'), hgot c' (List.mem_cons_of_mem _ hc')⟩
      rw [process, Program.outcome, if_neg (hgot c (List.mem_cons_self ..)), hitem]
      refine (ih hnodup hgot' hrest).trans ?_
      rw [List.append_assoc]
      rfl

variable [DecidableEq E] {net : Network E P C} {process : E → Nat → M → Program P C V M}
  {server : E} {broadcasts : Broadcasts M V} {first : Nat} {frames : Nat → FrameState E C V M}

omit [DecidableEq P] [DecidableEq C] in
theorem frameData_received {items : C → Option V} {inputPins : List C}
    (h : ∀ c ∈ inputPins, net.target c = server) :
    frameData convert (net.received items server) inputPins =
      frameData convert items inputPins := by
  unfold frameData
  induction inputPins with
  | nil => rfl
  | cons c inputPins ih =>
    have hc : net.received items server c = items c := if_pos (h c (List.mem_cons_self ..))
    rw [List.mapM_cons, List.mapM_cons, hc, ih fun c hc => h c (List.mem_cons_of_mem _ hc)]

/-- After each frame the server has sent the values of its pins in this one and those before. -/
theorem sent_frames (hcoherent : Coherent net process first frames)
    (hserver : ∀ serial members, process server serial members =
      TCPServerProcessor.process broadcasts convert serial members (net.inputs server) [])
    (hpins : ∀ c, net.target c = server →
      net.isSynchronous c = true ∧ net.isDataGuaranteed c = true) (n : Nat) :
    broadcasts.sent ((frames n).members server) =
      broadcasts.sent ((frames 0).members server) ++
        broadcast convert net server first frames n := by
  induction n with
  | zero => exact (List.append_nil _).symm
  | succ n ih =>
    have htarget : ∀ c ∈ net.inputs server, net.target c = server :=
      fun c hc => (net.mem_inputs server c).mp hc
    have hnull : (frameData convert (frames (n + 1)).items (net.inputs server)).isNone =
        net.nullDetected (frames (n + 1)).items (net.inputs server) :=
      frameData_isNone fun c hc => hpins c (htarget c hc)
    rw [broadcast_succ, ← List.append_assoc, ← ih, hcoherent.members n server, Network.processed,
      ← hnull]
    cases hvalues : frameData convert (frames (n + 1)).items (net.inputs server) with
    | none => exact (List.append_nil _).symm
    | some values =>
      have houtcome : (TCPServerProcessor.process (P := P) broadcasts convert (first + n)
          ((frames n).members server) (net.inputs server) []).outcome
            (net.received (frames (n + 1)).items server) [] (fun _ => none) =
          ⟨fun _ => none, some (broadcasts.sendFrame ((frames n).members server)
            (UInt32.ofNat (first + n), [] ++ values))⟩ :=
        TCPServerProcessor.process_outcome (net.inputs_nodup server) (fun _ _ => List.not_mem_nil)
          ((frameData_received htarget).trans hvalues)
      rw [hserver, houtcome]
      exact broadcasts.sent_sendFrame ..

end

/-- A pipeline with a server among its elements, and one with a client that is connected to it. -/
structure RemotePipelines (E P C V M E' P' C' : Type) [DecidableEq E] [DecidableEq P]
    [DecidableEq C] where
  net : Network E P C
  process : E → Nat → M → Program P C V M
  server : E
  broadcasts : Broadcasts M V
  convert : C → V → V
  stream : VariantStream V
  clientNet : Network E' P' C'
  client : E'
  outputPins : List OutputPin
  userType : V → Int
  serves : ∀ serial members, process server serial members =
    TCPServerProcessor.process broadcasts convert serial members (net.inputs server) []
  /-- the pins a server makes for its connections -/
  dynamicPins : ∀ c, net.target c = server →
    net.isSynchronous c = true ∧ net.isDataGuaranteed c = true
  produces : clientNet.isProducer client = true
  names_nodup : (outputPins.map OutputPin.name).Nodup

structure RemoteState (E P C V M E' P' C' : Type) where
  server : ValuedState E P C V M
  system : System V
  client : SourcedState E' P' C' (List (List V)) (List V) (List (OutputPin × V))

inductive RemoteEvent (E V E' P' C' : Type) where
  | server (move : Move E)
  /-- the thread of the connection gets the next signal `broadcastFrame` -/
  | queueFrame
  | connection (e : System.Event V)
  /-- `parseFrame` appends the next frame it has acknowledged -/
  | append
  | client (event : Event E' P' C')

def RemoteState.started (first : Nat) (stale : E → Nat → Nat) (members : E → M) (first' : Nat)
    (stale' : E' → Nat → Nat) (lossless : Bool) (maxFrameQueue maxFramesInFlight : Nat) :
    RemoteState E P C V M E' P' C' where
  server := .started first stale members
  system := .start lossless maxFrameQueue maxFramesInFlight
  client := .started first' stale' []

namespace RemotePipelines
variable [DecidableEq E] [DecidableEq P] [DecidableEq C]
  (r : RemotePipelines E P C V M E' P' C')

/-- The first frame that was sent and the connection has not got yet. -/
def next (t : RemoteState E P C V M E' P' C') : Option (UInt32 × List V) :=
  (r.broadcasts.sent (t.server.members r.server))[t.system.server.queued.length]?

section
variable [DecidableEq E'] [DecidableEq P'] [DecidableEq C']

def step (t : RemoteState E P C V M E' P' C') :
    RemoteEvent E V E' P' C' → Option (RemoteState E P C V M E' P' C')
  | .server move => (t.server.step r.net r.process move).map fun s => { t with server := s }
  | .queueFrame =>
    (r.next t).bind fun f =>
      (t.system.step r.stream (.queueFrame f.1 f.2)).map fun s => { t with system := s }
  | .connection (.queueFrame ..) => none
  | .connection e => (t.system.step r.stream e).map fun s => { t with system := s }
  | .append =>
    (t.system.client.m_frameList[t.client.arrived.length]?).bind fun frame =>
      (t.client.step r.client (TCPClientProducer.source r.outputPins r.userType) r.clientNet
        (.arrives frame)).map fun s => { t with client := s }
  | .client event =>
    (t.client.step r.client (TCPClientProducer.source r.outputPins r.userType) r.clientNet
      (.pipeline event)).map fun s => { t with client := s }

end

/-- The serials do not wrap around; a frame has arguments that can be streamed, every write takes
something, and an ack is taken to its end. -/
def Allowed (t : RemoteState E P C V M E' P' C') : RemoteEvent E V E' P' C' → Prop
  | .server move => NotWrapping t.server.toPipelineState (t.server.event move)
  | .queueFrame => ∀ f ∈ r.next t, (Message.frame f.1 f.2).WellFormed r.stream
  | .connection e => System.WholeAcks r.stream t.system e
  | .append | .client _ => True

end RemotePipelines

/-- The written frames are of those queued; a lossless connection writes the first of them. -/
theorem Connection.Delivering.written_frames {S : VariantStream V} {lossless : Bool}
    {maxFrameQueue maxFramesInFlight : Nat} {c : Connection} {fs : List (UInt32 × List V)}
    (h : c.Delivering lossless maxFrameQueue maxFramesInFlight)
    (hqueued : c.queued = fs.map (frameBlock S)) :
    ∃ ws, ws.Sublist fs ∧ (lossless = true → ws <+: fs) ∧ c.written = ws.map (frameBlock S) := by
  by_cases hl : lossless = true
  · have hall := h.all (h.settings.1.trans hl)
    rw [hqueued] at hall
    refine ⟨fs.take c.written.length, List.take_sublist .., fun _ => List.take_prefix .., ?_⟩
    rw [List.map_take, ← hall, List.take_left]
  · have hinOrder := (List.sublist_append_left ..).trans h.intact.inOrder
    rw [hqueued] at hinOrder
    obtain ⟨ws, hws, hwritten⟩ := List.sublist_map_iff.mp hinOrder
    exact ⟨ws, hws, fun hlossless => absurd hlossless hl, hwritten⟩

namespace System
variable {S : VariantStream V} {s s' : System V} {e : Event V}

theorem serverStep_client {e : Connection.Event} (hs : s.serverStep e = some s') :
    s'.client = s.client := by
  obtain ⟨c, -, rfl⟩ := Option.map_eq_some_iff.mp hs
  rfl

/-- The client keeps the frames it has. -/
theorem step_frameList (hs : s.step S e = some s') :
    s.client.m_frameList <+: s'.client.m_frameList := by
  cases e with
  | queueFrame => rw [serverStep_client hs]
  | sendData => rw [serverStep_client hs]
  | write => rw [serverStep_client hs]
  | finishQueueFrame => rw [serverStep_client hs]
  | readData bytesSent =>
    simp only [System.step, Option.ite_none_right_eq_some, Option.some.injEq] at hs
    obtain ⟨-, rfl⟩ := hs
    change s.client.m_frameList <+: (s.client.readData S s.clientInbox).1.m_frameList
    refine readMessages_invariant (I := fun c : TCPClientProducer V =>
      s.client.m_frameList <+: c.m_frameList) ?_ _ _ (List.prefix_refl _)
    intro c opcode i h
    unfold TCPClientProducer.handle
    split
    · exact h
    · split
      · change s.client.m_frameList <+: (parseFrame S c i).1.m_frameList
        unfold parseFrame
        dsimp only
        split
        · exact h
        · split
          · exact h
          · exact h.trans (List.prefix_append _ _)
      · exact h
  | deliverToClient =>
    cases hs
    exact List.prefix_refl _
  | deliverToServer =>
    cases hs
    exact List.prefix_refl _
  | readyRead =>
    simp only [System.step, Option.ite_none_right_eq_some, Option.some.injEq] at hs
    obtain ⟨-, rfl⟩ := hs
    exact List.prefix_refl _

/-- Nothing is queued but by `queueFrame`. -/
theorem step_queued (he : ∀ frameNumber args, e ≠ .queueFrame frameNumber args)
    (hs : s.step S e = some s') : s'.server.queued = s.server.queued := by
  cases e with
  | queueFrame frameNumber args => exact absurd rfl (he frameNumber args)
  | sendData =>
    obtain ⟨c, hc, rfl⟩ := Option.map_eq_some_iff.mp hs
    simp only [Connection.step, Option.ite_none_right_eq_some, Option.some.injEq] at hc
    obtain ⟨-, rfl⟩ := hc
    exact (s.server.sendData_only_place .eventLoop).2.2.1
  | write bytesSent =>
    obtain ⟨c, hc, rfl⟩ := Option.map_eq_some_iff.mp hs
    cases hp : s.server.place with
    | sendLoop caller =>
      simp only [Connection.step, hp] at hc
      exact (Connection.write_adds hc).2.2.1
    | eventLoop => simp [Connection.step, hp] at hc
    | dropTest => simp [Connection.step, hp] at hc
  | finishQueueFrame =>
    obtain ⟨c, hc, rfl⟩ := Option.map_eq_some_iff.mp hs
    simp only [Connection.step, Option.ite_none_right_eq_some, Option.some.injEq] at hc
    obtain ⟨-, rfl⟩ := hc
    exact s.server.finishQueueFrame_adds.2.2.1
  | readData bytesSent =>
    simp only [System.step, Option.ite_none_right_eq_some, Option.some.injEq] at hs
    obtain ⟨-, rfl⟩ := hs
    rfl
  | deliverToClient =>
    cases hs
    rfl
  | deliverToServer =>
    cases hs
    rfl
  | readyRead =>
    simp only [System.step, Option.ite_none_right_eq_some, Option.some.injEq] at hs
    obtain ⟨-, rfl⟩ := hs
    change (s.server.readyRead s.serverInbox).1.queued = s.server.queued
    refine readMessages_invariant (I := fun c : Connection => c.queued = s.server.queued) ?_ _ _ rfl
    intro c opcode i h
    unfold Connection.handle
    split
    · exact h
    · exact h

/-- `queueFrame` adds the frame to those that were queued. -/
theorem step_queueFrame {f : UInt32 × List V} (hconnected : s.server.socket = .connected)
    (hs : s.step S (.queueFrame f.1 f.2) = some s') :
    s'.server.queued = s.server.queued ++ [frameBlock S f] := by
  obtain ⟨c, hc, rfl⟩ := Option.map_eq_some_iff.mp hs
  simp only [Connection.step, Option.ite_none_right_eq_some, Option.some.injEq] at hc
  obtain ⟨-, rfl⟩ := hc
  exact (Connection.queueFrame_adds hconnected f.1 (frameBlock S f).2).2.2.1

end System

namespace RemotePipelines
variable [DecidableEq E] [DecidableEq P] [DecidableEq C] [DecidableEq E'] [DecidableEq P']
  [DecidableEq C'] {r : RemotePipelines E P C V M E' P' C'}

section
variable (r) (order : List E) (first : Nat) (members : E → M)

/-- What the server sends in the first frames when its pipeline is run one frame after the other,
and the elements one after the other. -/
def sentInOrder (n : Nat) : List (UInt32 × List V) :=
  broadcast r.convert r.net r.server first (sequential r.net r.process order first members) n

/-- The two pipelines and the connection are at most behind each other. -/
structure Joined (stale : E → Nat → Nat) (first' : Nat) (stale' : E' → Nat → Nat)
    (lossless : Bool) (maxFrameQueue maxFramesInFlight : Nat)
    (t : RemoteState E P C V M E' P' C') : Prop where
  server : Reaches (ValuedState.step r.net r.process)
    (fun t move => NotWrapping t.toPipelineState (t.event move)) (.started first stale members)
    t.server
  system : t.system.Linked r.stream lossless maxFrameQueue maxFramesInFlight
  client : Reaches (SourcedState.step r.client
    (TCPClientProducer.source r.outputPins r.userType) r.clientNet) (fun _ _ => True)
    (.started first' stale' []) t.client
  queued : ∃ fs, fs <+: r.sentInOrder order first members (t.server.runs r.server).length ∧
    (∀ f ∈ fs, (frameMessage f).WellFormed r.stream) ∧
    t.system.server.queued = fs.map (frameBlock r.stream)
  arrived : t.client.arrived <+: t.system.client.m_frameList

omit [DecidableEq E'] [DecidableEq P'] [DecidableEq C'] in
theorem sentInOrder_prefix {n n' : Nat} (h : n ≤ n') :
    r.sentInOrder order first members n <+: r.sentInOrder order first members n' := by
  induction h with
  | refl => exact List.prefix_refl _
  | step _ ih =>
    refine ih.trans ?_
    rw [sentInOrder, sentInOrder, broadcast_succ]
    exact List.prefix_append _ _

end

theorem append_getElem_prefix {α : Type} {l l' : List α} {a : α} (h : l <+: l')
    (ha : l'[l.length]? = some a) : l ++ [a] <+: l' := by
  obtain ⟨rest, rfl⟩ := h
  rw [List.getElem?_append_right (Nat.le_refl _), Nat.sub_self] at ha
  cases rest with
  | nil => cases ha
  | cons b rest =>
    cases ha
    exact ⟨rest, by rw [List.append_assoc]; rfl⟩

omit [DecidableEq E'] [DecidableEq P'] [DecidableEq C'] in
/-- What has been sent is what is sent in the first frames. -/
theorem sent_eq {order : List E} {first : Nat} {members : E → M}
    (horder : r.net.Topological order) (hmembers : r.broadcasts.sent (members r.server) = [])
    (n : Nat) :
    r.broadcasts.sent ((sequential r.net r.process order first members n).members r.server) =
      r.sentInOrder order first members n := by
  have hsent := sent_frames (sequential_coherent horder first members) r.serves r.dynamicPins n
  rw [hsent]
  change r.broadcasts.sent (members r.server) ++ _ = _
  rw [hmembers]
  rfl

section
variable {order : List E} {first : Nat} {members : E → M} {stale : E → Nat → Nat}
  {first' : Nat} {stale' : E' → Nat → Nat} {lossless : Bool} {maxFrameQueue maxFramesInFlight : Nat}
  {t t' : RemoteState E P C V M E' P' C'} {e : RemoteEvent E V E' P' C'}

theorem Joined.connection {s : System V} {e : System.Event V}
    (h : r.Joined order first members stale first' stale' lossless maxFrameQueue maxFramesInFlight
      t) (hS : r.stream.RoundTrips) (hallowed : System.WholeAcks r.stream t.system e)
    (hs : t.system.step r.stream e = some s)
    (hqueued : ∃ fs, fs <+: r.sentInOrder order first members (t.server.runs r.server).length ∧
      (∀ f ∈ fs, (frameMessage f).WellFormed r.stream) ∧
      s.server.queued = fs.map (frameBlock r.stream)) :
    r.Joined order first members stale first' stale' lossless maxFrameQueue maxFramesInFlight
      { t with system := s } where
  server := h.server
  system := h.system.step hS hallowed hs
  client := h.client
  queued := hqueued
  arrived := h.arrived.trans (System.step_frameList hs)

theorem Joined.step (horder : r.net.Topological order)
    (hsync : ∀ c, r.net.isSynchronous c = true)
    (hpins : ∀ e, r.net.isProducer e = false → r.net.m_hasSynchronousPin e = true)
    (htakes : ∀ e serial members, (r.process e serial members).TakesAll r.net e [])
    (hfirst : first < 2 ^ 32) (hstale : ∀ e x, first ≤ x → stale e x = 0)
    (hS : r.stream.RoundTrips) (hmembers : r.broadcasts.sent (members r.server) = [])
    (h : r.Joined order first members stale first' stale' lossless maxFrameQueue maxFramesInFlight
      t) (hallowed : r.Allowed t e) (hs : r.step t e = some t') :
    r.Joined order first members stale first' stale' lossless maxFrameQueue maxFramesInFlight
      t' := by
  cases e with
  | server move =>
    obtain ⟨s, hs', rfl⟩ := Option.map_eq_some_iff.mp hs
    have ha := (Follows.of_reaches horder hsync hpins htakes hfirst hstale
      h.server).1.unwrapped.accounted
    have hruns := (ValuedState.runs_prefix ha hs' r.server).length_le
    obtain ⟨fs, hfs, hwf, hqueued⟩ := h.queued
    exact ⟨.step move h.server hallowed hs', h.system, h.client,
      ⟨fs, hfs.trans (r.sentInOrder_prefix order first members hruns), hwf, hqueued⟩, h.arrived⟩
  | queueFrame =>
    obtain ⟨f, hf, hs'⟩ := Option.bind_eq_some_iff.mp hs
    have hf' := hf
    obtain ⟨s, hs'', rfl⟩ := Option.map_eq_some_iff.mp hs'
    have hwhole : System.WholeAcks r.stream t.system (.queueFrame f.1 f.2) :=
      ⟨hallowed f hf, fun _ he => by cases he⟩
    refine h.connection hS hwhole hs'' ?_
    obtain ⟨fs, hfs, hwf, hqueued⟩ := h.queued
    obtain ⟨n, hn, hlast⟩ :=
      members_reached horder hsync hpins htakes hfirst hstale h.server r.server
    have hlength : t.system.server.queued.length = fs.length := by
      rw [hqueued, List.length_map]
    rw [next, hlast, sent_eq horder hmembers, hlength] at hf
    -- it is one of the frames sent so far, and the first after those queued
    obtain ⟨rest, hrest⟩ := r.sentInOrder_prefix order first members hn
    have hnext : (r.sentInOrder order first members (t.server.runs r.server).length)[fs.length]? =
        some f := by
      rw [← hrest, List.getElem?_append_left (List.getElem?_eq_some_iff.mp hf).1, hf]
    refine ⟨fs ++ [f], append_getElem_prefix hfs hnext, fun g hg => ?_, ?_⟩
    · rcases List.mem_append.mp hg with hg | hg
      · exact hwf g hg
      · exact List.mem_singleton.mp hg ▸ hallowed f hf'
    · rw [System.step_queueFrame (Connection.delivers h.system.reached).1.connected hs'', hqueued,
        List.map_append]
      rfl
  | connection e =>
    have hne : ∀ frameNumber args, e ≠ .queueFrame frameNumber args := by
      rintro frameNumber args rfl
      cases hs
    have hstep : ∃ s, t.system.step r.stream e = some s ∧ t' = { t with system := s } := by
      cases e with
      | queueFrame frameNumber args => exact absurd rfl (hne frameNumber args)
      | deliverToClient | deliverToServer =>
        cases hs
        exact ⟨_, rfl, rfl⟩
      | _ =>
        change (t.system.step r.stream _).map (fun s => { t with system := s }) = some t' at hs
        obtain ⟨s, hs', rfl⟩ := Option.map_eq_some_iff.mp hs
        exact ⟨s, hs', rfl⟩
    obtain ⟨s, hs', rfl⟩ := hstep
    obtain ⟨fs, hfs, hwf, hqueued⟩ := h.queued
    exact h.connection hS hallowed hs' ⟨fs, hfs, hwf, (System.step_queued hne hs').trans hqueued⟩
  | append =>
    obtain ⟨frame, hframe, hs'⟩ := Option.bind_eq_some_iff.mp hs
    obtain ⟨s, hs'', rfl⟩ := Option.map_eq_some_iff.mp hs'
    refine ⟨h.server, h.system, .step _ h.client trivial hs'', h.queued, ?_⟩
    cases hs''
    exact append_getElem_prefix h.arrived hframe
  | client event =>
    obtain ⟨s, hs', rfl⟩ := Option.map_eq_some_iff.mp hs
    refine ⟨h.server, h.system, .step _ h.client trivial hs', h.queued, ?_⟩
    change s.arrived <+: _
    rw [SourcedState.step_arrived hs']
    exact h.arrived

/-- Between two pipelines that are joined by a connection nothing is lost on the way but what the
connection drops: the frames the client produces are, in order and each once, of those the server's
pipeline makes when it is run one frame after the other; a lossless connection leaves none out. -/
theorem remote_agrees (horder : r.net.Topological order)
    (hsync : ∀ c, r.net.isSynchronous c = true)
    (hpins : ∀ e, r.net.isProducer e = false → r.net.m_hasSynchronousPin e = true)
    (htakes : ∀ e serial members, (r.process e serial members).TakesAll r.net e [])
    (hfirst : first < 2 ^ 32) (hstale : ∀ e x, first ≤ x → stale e x = 0)
    (hS : r.stream.RoundTrips) (hmembers : r.broadcasts.sent (members r.server) = [])
    (h : Reaches r.step r.Allowed (.started first stale members first' stale' lossless
      maxFrameQueue maxFramesInFlight) t) :
    ∃ written frames : List (UInt32 × List V),
      t.system.server.written = written.map (frameBlock r.stream) ∧
      written.Sublist (r.sentInOrder order first members (t.server.runs r.server).length) ∧
      (lossless = true →
        written <+: r.sentInOrder order first members (t.server.runs r.server).length) ∧
      frames <+: written ∧
      ∃ produced, produced ++ t.client.source = frames.map Prod.snd ∧
        List.Forall₂ (TCPClientProducer.Distributed r.outputPins r.userType) produced
          t.client.produced := by
  have hj : r.Joined order first members stale first' stale' lossless maxFrameQueue
      maxFramesInFlight t := by
    refine h.invariant ⟨.start, System.start_linked, .start, ⟨[], List.nil_prefix,
      fun _ hf => absurd hf List.not_mem_nil, rfl⟩, List.nil_prefix⟩ fun _ _ _ hi hallowed hs => ?_
    exact hi.step horder hsync hpins htakes hfirst hstale hS hmembers hallowed hs
  obtain ⟨fs, hfs, hwf, hqueued⟩ := hj.queued
  have hdelivering := (Connection.delivers hj.system.reached).1
  obtain ⟨written, hsub, hfront, hwritten⟩ := hdelivering.written_frames hqueued
  -- the wire holds the payloads of the written frames
  obtain ⟨ws, hws, hsplit, -⟩ := written_stream hdelivering.intact hwf hqueued
  have hpayloads (fs : List (UInt32 × List V)) :
      fs.map (fun f => (frameMessage f).payload r.stream) =
        (fs.map (frameBlock r.stream)).map fun b => b.2.drop 4 := by
    rw [List.map_map]
    rfl
  rw [hpayloads, ← hws, hwritten, ← hpayloads] at hsplit
  obtain ⟨bs, d, hwire, hclient, -⟩ := hj.system.parsed
  have hbs : bs <+: t.system.server.wire := by
    rw [hwire, List.append_assoc]
    exact List.prefix_append _ _
  obtain ⟨-, hparsed⟩ := client_parsed hS hwf (fun f hf => hsub.subset hf) hsplit hbs
  have harrived := hj.arrived
  rw [hclient, hparsed] at harrived
  obtain ⟨frames, hframes, hframes'⟩ : ∃ frames, frames <+: written ∧
      t.client.arrived = frames.map Prod.snd := by
    refine ⟨(written.take (blocks.split bs).1.length).take t.client.arrived.length, ?_, ?_⟩
    · exact (List.take_prefix ..).trans (List.take_prefix ..)
    · rw [List.map_take]
      exact List.prefix_iff_eq_take.mp harrived
  obtain ⟨⟨produced, hproduced, hdistributed⟩, -⟩ :=
    TCPClientProducer.frames_invariant r.names_nodup r.produces hj.client
  rw [List.nil_append, hframes'] at hproduced
  exact ⟨written, frames, hwritten, hsub.trans hfs.sublist, fun hl => (hfront hl).trans hfs,
    hframes, produced, hproduced.symm, hdistributed⟩

end

end RemotePipelines

section
variable {S : VariantStream V}

instance [DecidableEq V] (m : Message V) : Decidable (m.WellFormed S) :=
  match m with
  | .frame serial args => inferInstanceAs (Decidable (args ≠ [] ∧ (∀ v ∈ args, S.isValid v = true) ∧
      args.length < 2 ^ 31 ∧ ((Message.frame serial args).payload S).length < 2 ^ 31))
  | .ack _ => .isTrue trivial

def System.Event.Whole (S : VariantStream V) : System.Event V → Prop
  | .queueFrame frameNumber args => (Message.frame frameNumber args).WellFormed S
  | .write bytesSent => 1 ≤ bytesSent
  | .readData bytesSent => ∀ n ∈ bytesSent, n = 12
  | .sendData | .finishQueueFrame | .deliverToClient _ | .deliverToServer _ | .readyRead => True

theorem System.wholeAcks_iff (s : System V) (e : System.Event V) :
    e.Whole S ↔ System.WholeAcks S s e := by
  cases e with
  | readData bytesSent =>
    constructor
    · intro h
      refine ⟨fun n hn => ?_, fun _ he => ?_⟩
      · rw [h n hn]
        decide
      · cases he
        exact h
    · exact fun h => h.2 _ rfl
  | _ => exact ⟨fun h => ⟨h, fun _ he => by cases he⟩, And.left⟩

instance [DecidableEq V] (e : System.Event V) : Decidable (e.Whole S) :=
  match e with
  | .queueFrame frameNumber args =>
    inferInstanceAs (Decidable ((Message.frame frameNumber args).WellFormed S))
  | .write bytesSent => inferInstanceAs (Decidable (1 ≤ bytesSent))
  | .readData bytesSent => inferInstanceAs (Decidable (∀ n ∈ bytesSent, n = 12))
  | .sendData | .finishQueueFrame | .deliverToClient _ | .deliverToServer _ | .readyRead =>
    .isTrue trivial

instance [DecidableEq V] (s : System V) (e : System.Event V) : Decidable (System.WholeAcks S s e) :=
  decidable_of_iff _ (System.wholeAcks_iff s e)

end

def intBroadcasts : Broadcasts (List (UInt32 × List IntVariant)) IntVariant where
  sent members := members
  sendFrame members f := members ++ [f]
  sent_sendFrame _ _ := rfl

/-- The producer makes the serials, the processor sends on what it gets, and the last element is
a server; its clients have a pin for numbers. -/
def numbersRemote : RemotePipelines (Fin 3) (Fin 2) (Fin 2) IntVariant
    (List (UInt32 × List IntVariant)) (Fin 3) (Fin 2) (Fin 2) where
  net := chain true
  process
    | 0, serial, members => .put 0 (.int (UInt32.ofNat serial)) (.returns true members)
    | 1, _, members => .get 0 fun v => .put 1 v (.returns true members)
    | 2, serial, members =>
      TCPServerProcessor.process intBroadcasts (fun _ v => v) serial members [1] []
  server := 2
  broadcasts := intBroadcasts
  convert _ v := v
  stream := intVariants
  clientNet := chain true
  client := 0
  outputPins := [⟨"int", 2⟩]
  userType
    | .int _ => 2
    | .invalid => 0
  serves _ _ := rfl
  dynamicPins := by decide
  produces := by decide
  names_nodup := by decide

instance (t : RemoteState (Fin 3) (Fin 2) (Fin 2) IntVariant (List (UInt32 × List IntVariant))
    (Fin 3) (Fin 2) (Fin 2)) (e : RemoteEvent (Fin 3) IntVariant (Fin 3) (Fin 2) (Fin 2)) :
    Decidable (numbersRemote.Allowed t e) :=
  match e with
  | .server move =>
    inferInstanceAs (Decidable (NotWrapping t.server.toPipelineState (t.server.event move)))
  | .queueFrame =>
    inferInstanceAs (Decidable (∀ f ∈ numbersRemote.next t,
      (Message.frame f.1 f.2).WellFormed intVariants))
  | .connection e => inferInstanceAs (Decidable (System.WholeAcks intVariants t.system e))
  | .append => .isTrue trivial
  | .client _ => .isTrue trivial

/-- A number comes through to the other pipeline. -/
theorem remote_agrees_numbers :
    ∃ t : RemoteState (Fin 3) (Fin 2) (Fin 2) IntVariant (List (UInt32 × List IntVariant))
        (Fin 3) (Fin 2) (Fin 2),
      t.client.produced = [[(⟨"int", 2⟩, .int 1)]] ∧
      ∃ written frames : List (UInt32 × List IntVariant),
        t.system.server.written = written.map (frameBlock intVariants) ∧
        written.Sublist
          (numbersRemote.sentInOrder [0, 1, 2] 1 (fun _ => []) (t.server.runs 2).length) ∧
        (true = true → written <+:
          numbersRemote.sentInOrder [0, 1, 2] 1 (fun _ => []) (t.server.runs 2).length) ∧
        frames <+: written ∧
        ∃ produced, produced ++ t.client.source = frames.map Prod.snd ∧
          List.Forall₂ (TCPClientProducer.Distributed numbersRemote.outputPins
            numbersRemote.userType) produced t.client.produced := by
  have hend : (run (guarded numbersRemote.step numbersRemote.Allowed)
      (.started 1 (fun _ _ => 0) (fun _ => []) 1 (fun _ _ => 0) true 1 1)
      (chainFrame.map (fun e => .server e.move) ++
        [.queueFrame, .connection (.write 24), .connection .finishQueueFrame,
          .connection (.deliverToClient 24), .connection (.readData [12]), .append] ++
        (chainFrame.take 16).map .client)).map (fun t => t.client.produced) =
      some [[(⟨"int", 2⟩, .int 1)]] := by decide +kernel
  obtain ⟨t, ht, hproduced⟩ := Option.map_eq_some_iff.mp hend
  refine ⟨t, hproduced, RemotePipelines.remote_agrees (r := numbersRemote)
    (.of_idxOf (by decide) (by decide) (by decide)) (by decide) (by decide) ?_ (by decide)
    (fun _ _ _ => rfl) intVariants_roundTrips rfl (.of_guarded_run ht)⟩
  intro e serial members
  match e with
  | 0 => simp [numbersRemote, Program.TakesAll, Network.syncInputs, chain]
  | 1 => simp [numbersRemote, Program.TakesAll, Network.syncInputs, chain]
  | 2 =>
    simp [numbersRemote, TCPServerProcessor.process, Program.TakesAll, Network.syncInputs, chain]

end ParleVision.Tcp
