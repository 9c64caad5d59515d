import ParleVision.Tcp.Protocol

namespace ParleVision.Tcp
open Lib

variable {V : Type} {S : VariantStream V}

theorem payload_opcode (m : Message V) : 4 ≤ (m.payload S).length := by
  cases m <;> simp [Message.payload]

theorem payload_bound {m : Message V} (h : m.WellFormed S) : (m.payload S).length < 2 ^ 31 := by
  cases m with
  | frame serial args => exact h.2.2.2
  | ack serial => simp [Message.payload]

/-- Valid arguments are read back one by one. -/
theorem parseArgs_write (hS : S.RoundTrips) (args : List V) (rest : Bytes)
    (hv : ∀ v ∈ args, S.isValid v = true) :
    parseArgs S args.length (args.flatMap S.write ++ rest) = (some args, rest) := by
  induction args with
  | nil => rfl
  | cons v args ih =>
    have hread : S.read ((v :: args).flatMap S.write ++ rest) =
        (v, args.flatMap S.write ++ rest) := by
      rw [List.flatMap_cons, List.append_assoc, hS]
    simp only [List.length_cons, parseArgs, hread, hv v (by simp), ↓reduceIte,
      ih (fun w hw => hv w (by simp [hw])), Option.map_some]

theorem skip_rest (m rest : Bytes) (h : m.length + 4 < 2 ^ 31) :
    skipRawData (skipLength ((m.length + 4 : Nat) : Int) 4) (m ++ rest) = rest := by
  have hlen : skipLength ((m.length + 4 : Nat) : Int) 4 = m.length := by
    rw [skipLength, Int.bmod_def]
    split <;> omega
  rw [hlen, skipRawData, Int.toNat_natCast, List.drop_left']
  rfl

/-- The client's switch on a well-formed message, whatever follows it. -/
theorem client_handle (hS : S.RoundTrips) {m : Message V} (hm : m.WellFormed S)
    (c : TCPClientProducer V) (rest : Bytes) :
    TCPClientProducer.handle S c (readU32 (m.payload S)).1
      ⟨(m.payload S).length, (readU32 (m.payload S)).2 ++ rest⟩ = (c.got m, rest) := by
  cases m with
  | frame serial args =>
    obtain ⟨hne, hv, hlen, hbound⟩ := hm
    have hnat : (UInt32.ofNat args.length).toNat = args.length := by
      simp only [UInt32.toNat_ofNat']
      omega
    have hnum : ¬ UInt32.ofNat args.length < 1 := by
      rw [UInt32.lt_iff_toNat_lt, hnat]
      have := List.length_pos_iff.mpr hne
      simp only [UInt32.toNat_one]
      omega
    simp only [Message.payload, List.append_assoc, readU32_writeU32, TCPClientProducer.handle,
      show PROTO_FRAME ≠ PROTO_INIT by decide, ↓reduceIte, m_configured, parseFrame, hnum, hnat,
      parseArgs_write hS args rest hv]
    rfl
  | ack serial =>
    have hskip := skip_rest (writeU32 serial) rest (by simp)
    simp only [writeU32_length, Nat.reduceAdd] at hskip
    simp only [Message.payload, readU32_writeU32, TCPClientProducer.handle,
      show PROTO_ACK ≠ PROTO_INIT by decide, show PROTO_ACK ≠ PROTO_FRAME by decide, ↓reduceIte,
      List.length_append, writeU32_length, Nat.reduceAdd, hskip]
    rfl

/-- The server's switch on a well-formed message, whatever follows it. -/
theorem server_handle {m : Message V} (hm : m.WellFormed S) (c : ServerConnection) (rest : Bytes) :
    c.handle (readU32 (m.payload S)).1
      ⟨(m.payload S).length, (readU32 (m.payload S)).2 ++ rest⟩ = (c.got m, rest) := by
  cases m with
  | frame serial args =>
    have hbound := payload_bound hm
    simp only [Message.payload, List.append_assoc, List.length_append, writeU32_length] at hbound
    have hskip := skip_rest (writeU32 serial ++ (writeU32 (UInt32.ofNat args.length) ++
      args.flatMap S.write)) rest (by simp only [List.length_append, writeU32_length]; omega)
    simp only [List.length_append, writeU32_length, List.append_assoc] at hskip
    simp only [Message.payload, List.append_assoc, readU32_writeU32, ServerConnection.handle,
      show PROTO_FRAME ≠ PROTO_ACK by decide, ↓reduceIte, List.length_append, writeU32_length]
    rw [Nat.add_comm 4 _, hskip]
    rfl
  | ack serial => simp [Message.payload, ServerConnection.handle, ServerConnection.got]

theorem client_accepts (hS : S.RoundTrips) {m : Message V} (hm : m.WellFormed S) :
    Accepts (TCPClientProducer.handle S) (m.payload S) where
  opcode := payload_opcode m
  bound := payload_bound hm
  exact c rest := by
    have h0 := client_handle hS hm c []
    simp only [List.append_nil] at h0
    simp only [deliver, client_handle hS hm, h0]

theorem server_accepts {m : Message V} (hm : m.WellFormed S) :
    Accepts ServerConnection.handle (m.payload S) where
  opcode := payload_opcode m
  bound := payload_bound hm
  exact c rest := by
    have h0 := server_handle hm c []
    simp only [List.append_nil] at h0
    simp only [deliver, server_handle hm, h0]

theorem client_deliver (hS : S.RoundTrips) {m : Message V} (hm : m.WellFormed S)
    (c : TCPClientProducer V) : deliver (TCPClientProducer.handle S) c (m.payload S) = c.got m := by
  have h0 := client_handle hS hm c []
  simp only [List.append_nil] at h0
  rw [deliver, h0]

theorem server_deliver {m : Message V} (hm : m.WellFormed S) (c : ServerConnection) :
    deliver ServerConnection.handle c (m.payload S) = c.got m := by
  have h0 := server_handle hm c []
  simp only [List.append_nil] at h0
  rw [deliver, h0]

theorem stream_blocks (ms : List (Message V)) :
    stream S ms = ((ms.map (Message.payload S)).map block).flatten := by
  rw [stream, List.map_map]
  rfl

theorem split_messages {ms : List (Message V)}
    (hb : ∀ m ∈ ms, (m.payload S).length < 2 ^ 31) :
    blocks.split (stream S ms) = (ms.map (Message.payload S), []) := by
  rw [stream_blocks]
  apply split_blocks
  intro p hp
  obtain ⟨m, hm, rfl⟩ := List.mem_map.mp hp
  have hbound := hb m hm
  omega

theorem accepts_payloads {handle : σ → UInt32 → Inbox → σ × Bytes} {ms : List (Message V)}
    (ha : ∀ m ∈ ms, Accepts handle (m.payload S)) :
    ∀ p ∈ ms.map (Message.payload S), Accepts handle p := by
  intro p hp
  obtain ⟨m, hm, rfl⟩ := List.mem_map.mp hp
  exact ha m hm

theorem deliver_payloads {handle : σ → UInt32 → Inbox → σ × Bytes} {got : σ → Message V → σ}
    (ms : List (Message V)) (hg : ∀ m ∈ ms, ∀ s, deliver handle s (m.payload S) = got s m) (s : σ) :
    (ms.map (Message.payload S)).foldl (deliver handle) s = ms.foldl got s := by
  induction ms generalizing s with
  | nil => rfl
  | cons m ms ih =>
    rw [List.map_cons, List.foldl_cons, List.foldl_cons, hg m (by simp)]
    exact ih (fun n hn => hg n (by simp [hn])) _

/-- Cutting the bytes of a stream into chunks changes nothing for a reader that
accepts its messages, at any point of the stream. -/
theorem receive_fragments {handle : σ → UInt32 → Inbox → σ × Bytes} {ms : List (Message V)}
    (ha : ∀ m ∈ ms, Accepts handle (m.payload S)) (s : σ) (chunks : List Bytes)
    (hc : chunks.flatten <+: stream S ms) :
    chunks.foldl (receive handle) (s, ⟨0, []⟩) =
      receive handle (s, ⟨0, []⟩) chunks.flatten := by
  have hp := accepts_payloads ha
  rw [stream_blocks] at hc
  rw [receive_chunks hp s chunks hc]
  have hone := receive_chunks hp s [chunks.flatten] (by simpa using hc)
  simpa using hone.symm

theorem receive_stream {handle : σ → UInt32 → Inbox → σ × Bytes} {got : σ → Message V → σ}
    {ms : List (Message V)} (ha : ∀ m ∈ ms, Accepts handle (m.payload S))
    (hg : ∀ m ∈ ms, ∀ s, deliver handle s (m.payload S) = got s m) (s : σ) :
    receive handle (s, ⟨0, []⟩) (stream S ms) = (ms.foldl got s, ⟨0, []⟩) := by
  have hrun := receive_blocks (accepts_payloads ha) s [stream S ms] (by simp [stream_blocks])
  rw [← deliver_payloads ms hg]
  exact hrun

/-- Fragmentation independence. Of every stream of well-formed messages, and
after every part of it, client and server are in the state they would be in had
the same bytes arrived at once: same frames, same acknowledgements in the same
order, same `m_blockSize`, same unread bytes. After the whole stream each has
handled every message and waits for the next with an empty socket. -/
theorem fragmentation_independence (S : VariantStream V) (hS : S.RoundTrips)
    (ms : List (Message V)) (hms : ∀ m ∈ ms, m.WellFormed S) (chunks : List Bytes)
    (hc : chunks.flatten <+: stream S ms)
    (client : TCPClientProducer V) (server : ServerConnection) :
    chunks.foldl (TCPClientProducer.receive S) (client, ⟨0, []⟩) =
        TCPClientProducer.receive S (client, ⟨0, []⟩) chunks.flatten ∧
      chunks.foldl ServerConnection.receive (server, ⟨0, []⟩) =
        ServerConnection.receive (server, ⟨0, []⟩) chunks.flatten ∧
      TCPClientProducer.receive S (client, ⟨0, []⟩) (stream S ms) =
        (ms.foldl TCPClientProducer.got client, ⟨0, []⟩) ∧
      ServerConnection.receive (server, ⟨0, []⟩) (stream S ms) =
        (ms.foldl ServerConnection.got server, ⟨0, []⟩) := by
  have hca : ∀ m ∈ ms, Accepts (TCPClientProducer.handle S) (m.payload S) :=
    fun m hm => client_accepts hS (hms m hm)
  have hsa : ∀ m ∈ ms, Accepts ServerConnection.handle (m.payload S) :=
    fun m hm => server_accepts (hms m hm)
  exact ⟨receive_fragments hca client chunks hc, receive_fragments hsa server chunks hc,
    receive_stream hca (fun m hm c => client_deliver hS (hms m hm) c) client,
    receive_stream hsa (fun m hm c => server_deliver (hms m hm) c) server⟩

/-- The two QVariants of version Qt_4_0 that hold an int or nothing: type id 2
and the value, or type id 0 and the length of a null string. -/
inductive IntVariant where
  | invalid
  | int (n : UInt32)
  deriving DecidableEq

def intVariants : VariantStream IntVariant where
  write
    | .invalid => writeU32 0 ++ writeU32 0xFFFFFFFF
    | .int n => writeU32 2 ++ writeU32 n
  read bs :=
    let type := readU32 bs
    let value := readU32 type.2
    (if type.1 = 2 then .int value.1 else .invalid, value.2)
  isValid v := decide (v ≠ .invalid)

theorem intVariants_roundTrips : intVariants.RoundTrips := by
  intro v rest
  cases v <;> simp [intVariants]

/-- A frame and an acknowledgement, cut inside the length, inside the frame
and right before the last byte. -/
theorem fragmentation_independence_cut :
    let bytes := stream intVariants [.frame 7 [.int 5], .ack 6]
    let chunks := [bytes.take 3, (bytes.drop 3).take 10, (bytes.drop 13).take 22, bytes.drop 35]
    chunks.foldl (TCPClientProducer.receive intVariants) (⟨[], []⟩, ⟨0, []⟩) =
        (⟨[[.int 5]], ackBlock 7⟩, ⟨0, []⟩) ∧
      chunks.foldl ServerConnection.receive (⟨false, true, [6], [], []⟩, ⟨0, []⟩) =
        (⟨false, true, [], [6], []⟩, ⟨0, []⟩) := by
  obtain ⟨hclient, hserver, hc, hs⟩ := fragmentation_independence intVariants
    intVariants_roundTrips [.frame 7 [.int 5], .ack 6]
    (by
      intro m hm
      rcases List.mem_cons.mp hm with rfl | hm
      · exact ⟨by simp, by simp [intVariants], by simp, by decide⟩
      · rw [List.mem_singleton.mp hm]
        exact trivial)
    (let bytes := stream intVariants [.frame 7 [.int 5], .ack 6];
      [bytes.take 3, (bytes.drop 3).take 10, (bytes.drop 13).take 22, bytes.drop 35])
    (by decide) ⟨[], []⟩ ⟨false, true, [6], [], []⟩
  exact ⟨hclient.trans hc, hserver.trans hs⟩

end ParleVision.Tcp
