import ParleVision.Tcp.Fragmentation

namespace ParleVision.Tcp
open Lib

/-- A message that neither end is to do anything about, with what follows its fields. -/
inductive Skipped where
  /-- a data frame with zero arguments -/
  | emptyFrame (serial : UInt32) (rest : Bytes)
  | init (rest : Bytes)
  | unknown (opcode : UInt32) (known : opcode ∉ [PROTO_FRAME, PROTO_INIT, PROTO_ACK]) (rest : Bytes)

namespace Skipped

def payload : Skipped → Bytes
  | emptyFrame serial rest => writeU32 PROTO_FRAME ++ writeU32 serial ++ writeU32 0 ++ rest
  | init rest => writeU32 PROTO_INIT ++ rest
  | unknown opcode _ rest => writeU32 opcode ++ rest

/-- The client finds the end of the message: it does nothing about what follows PROTO_INIT, and in a
frame without arguments it does not count the number of arguments among what it has read. -/
def ClientFinds (x : Skipped) : Prop :=
  x.payload.length < 2 ^ 31 ∧
    match x with
    | emptyFrame _ _ => False
    | init rest => rest = []
    | unknown _ _ _ => True

def ServerFinds (x : Skipped) : Prop := x.payload.length < 2 ^ 31

end Skipped

/-- The reader waits for the whole payload, leaves what follows it in the socket, and does nothing
else. -/
structure Skips (handle : σ → UInt32 → Inbox → σ × Bytes) (payload : Bytes) : Prop where
  waits : ∀ arrived, arrived <+: payload → arrived ≠ payload →
    (awaitBlock ⟨0, writeU32 (UInt32.ofNat payload.length) ++ arrived⟩).2 = false
  exact : ∀ s rest, handle s (readU32 payload).1
    ⟨toInt (UInt32.ofNat payload.length), (readU32 payload).2 ++ rest⟩ = (s, rest)

/-- What is sent: messages, and among them some to be skipped. -/
inductive Item (V : Type) where
  | message (m : Message V)
  | skipped (x : Skipped)

section
variable {V : Type} (S : VariantStream V)

def Item.payload : Item V → Bytes
  | .message m => m.payload S
  | .skipped x => x.payload

def Item.message? : Item V → Option (Message V)
  | .message m => some m
  | .skipped _ => none

def itemStream (items : List (Item V)) : Bytes := ((items.map (Item.payload S)).map block).flatten

def remaining (items : List (Item V)) : List (Message V) := items.filterMap Item.message?

end

section
variable {σ V : Type} {S : VariantStream V} {handle : σ → UInt32 → Inbox → σ × Bytes}

theorem awaitBlock_announced (size : UInt32) (arrived : Bytes) :
    (awaitBlock ⟨0, writeU32 size ++ arrived⟩).2 = decide (toInt size ≤ arrived.length) := by
  have hall : ¬ 4 + arrived.length < 4 := by omega
  unfold awaitBlock nextBlock
  simp [hall]

theorem toInt_length {payload : Bytes} (h : payload.length < 2 ^ 31) :
    toInt (UInt32.ofNat payload.length) = payload.length := by
  have hnat : (UInt32.ofNat payload.length).toNat = payload.length := by
    rw [UInt32.toNat_ofNat']
    omega
  rw [toInt_of_lt (by omega), hnat]

/-- Of 2^31 bytes and more the reader takes the length for a negative one. -/
theorem Skips.bound {payload : Bytes} (h : Skips handle payload) (hpos : payload ≠ [])
    (hlen : payload.length < 2 ^ 32) : payload.length < 2 ^ 31 := by
  by_contra hlong
  have hnat : (UInt32.ofNat payload.length).toNat = payload.length := by
    rw [UInt32.toNat_ofNat']
    omega
  have hneg : toInt (UInt32.ofNat payload.length) ≤ 0 := by
    rw [toInt, if_neg (by omega), hnat]
    omega
  have hwaits := h.waits [] (List.nil_prefix) hpos.symm
  rw [awaitBlock_announced, decide_eq_false_iff_not] at hwaits
  exact hwaits hneg

theorem Skips.of_exact {payload : Bytes} (hlen : payload.length < 2 ^ 31)
    (hexact : ∀ s rest, handle s (readU32 payload).1
      ⟨payload.length, (readU32 payload).2 ++ rest⟩ = (s, rest)) : Skips handle payload where
  waits arrived hp hne := by
    rw [awaitBlock_announced, toInt_length hlen, decide_eq_false_iff_not, Nat.cast_le]
    intro hle
    exact hne (hp.eq_of_length_le hle)
  exact := by
    rw [toInt_length hlen]
    exact hexact

/-- A skipped message is one that the reader accepts without a trace. -/
theorem Skips.accepts {payload : Bytes} (h : Skips handle payload) (hopcode : 4 ≤ payload.length)
    (hlen : payload.length < 2 ^ 31) : Accepts handle payload where
  opcode := hopcode
  bound := hlen
  exact s rest := by
    have hexact := h.exact
    rw [toInt_length hlen] at hexact
    rw [hexact, deliver, ← List.append_nil (readU32 payload).2, hexact]

theorem Skips.deliver {payload : Bytes} (h : Skips handle payload) (hlen : payload.length < 2 ^ 31)
    (s : σ) : deliver handle s payload = s := by
  have hexact := h.exact s []
  rw [toInt_length hlen, List.append_nil] at hexact
  rw [Tcp.deliver, hexact]

theorem payload_skipped (x : Skipped) : 4 ≤ x.payload.length := by
  cases x <;> simp [Skipped.payload]

theorem payload_ne (x : Skipped) : x.payload ≠ [] :=
  List.ne_nil_of_length_pos (Nat.lt_of_lt_of_le (by decide) (payload_skipped x))

theorem client_emptyFrame (c : TCPClientProducer V) (serial : UInt32) (tail rest : Bytes)
    (n : Int) :
    TCPClientProducer.handle S c (readU32 (Skipped.emptyFrame serial tail).payload).1
      ⟨n, (readU32 (Skipped.emptyFrame serial tail).payload).2 ++ rest⟩ =
      (c, skipRawData (skipLength n 8) (tail ++ rest)) := by
  simp [Skipped.payload, TCPClientProducer.handle, parseFrame, m_configured, PROTO_FRAME,
    PROTO_INIT]

theorem client_init (c : TCPClientProducer V) (tail rest : Bytes) (n : Int) :
    TCPClientProducer.handle S c (readU32 (Skipped.init tail).payload).1
      ⟨n, (readU32 (Skipped.init tail).payload).2 ++ rest⟩ = (c, tail ++ rest) := by
  simp [Skipped.payload, TCPClientProducer.handle]

theorem client_unknown (c : TCPClientProducer V) {opcode : UInt32}
    (known : opcode ∉ [PROTO_FRAME, PROTO_INIT, PROTO_ACK]) (tail rest : Bytes) (n : Int) :
    TCPClientProducer.handle S c (readU32 (Skipped.unknown opcode known tail).payload).1
      ⟨n, (readU32 (Skipped.unknown opcode known tail).payload).2 ++ rest⟩ =
      (c, skipRawData (skipLength n 4) (tail ++ rest)) := by
  simp only [List.mem_cons, List.not_mem_nil, or_false, not_or] at known
  simp [Skipped.payload, TCPClientProducer.handle, known]

theorem skips_client_iff (x : Skipped) (hlen : x.payload.length < 2 ^ 32) :
    Skips (TCPClientProducer.handle S) x.payload ↔ x.ClientFinds := by
  constructor
  · intro h
    have hbound := h.bound (payload_ne x) hlen
    refine ⟨hbound, ?_⟩
    cases x with
    | emptyFrame serial tail =>
      -- of what follows the frame, four bytes go too
      have hexact := h.exact ⟨[], []⟩ [0]
      rw [client_emptyFrame, toInt_length hbound] at hexact
      have hlength : (Skipped.emptyFrame serial tail).payload.length = tail.length + 12 := by
        simp only [Skipped.payload, List.length_append, writeU32_length]
        omega
      have hskip : skipLength ((tail.length + 12 : Nat) : Int) 8 = (tail.length + 4 : Nat) := by
        rw [skipLength, Int.bmod_def]
        split <;> omega
      rw [hlength, hskip, skipRawData, Int.toNat_natCast, List.drop_of_length_le (by simp)]
        at hexact
      cases hexact
    | init tail =>
      have hexact := h.exact ⟨[], []⟩ []
      rw [client_init, List.append_nil] at hexact
      exact (Prod.mk.inj hexact).2
    | unknown opcode known tail => trivial
  · rintro ⟨hbound, hfinds⟩
    apply Skips.of_exact hbound
    intro c rest
    cases x with
    | emptyFrame serial tail => exact hfinds.elim
    | init tail =>
      obtain rfl : tail = [] := hfinds
      rw [client_init, List.nil_append]
    | unknown opcode known tail =>
      have hlength : (Skipped.unknown opcode known tail).payload.length = tail.length + 4 := by
        simp only [Skipped.payload, List.length_append, writeU32_length]
        omega
      rw [hlength] at hbound
      rw [client_unknown, hlength, skip_rest tail rest hbound]

theorem Skipped.opcode_ne_ack (x : Skipped) : (readU32 x.payload).1 ≠ PROTO_ACK := by
  cases x with
  | emptyFrame serial tail =>
    simp only [Skipped.payload, List.append_assoc, readU32_writeU32]
    decide
  | init tail =>
    simp only [Skipped.payload, readU32_writeU32]
    decide
  | unknown opcode known tail =>
    simp only [List.mem_cons, List.not_mem_nil, or_false, not_or] at known
    simp only [Skipped.payload, readU32_writeU32]
    exact known.2.2

/-- To the server one skipped message is like the other. -/
theorem skips_server_iff (x : Skipped) (hlen : x.payload.length < 2 ^ 32) :
    Skips ServerConnection.handle x.payload ↔ x.ServerFinds := by
  constructor
  · exact fun h => h.bound (payload_ne x) hlen
  · intro hbound
    apply Skips.of_exact hbound
    intro c rest
    have hopcode := payload_skipped x
    have htail : (readU32 x.payload).2.length + 4 = x.payload.length := by
      rw [readU32_rest hopcode, List.length_drop]
      omega
    unfold ServerConnection.handle
    rw [if_neg x.opcode_ne_ack]
    have hskip := skip_rest (readU32 x.payload).2 rest (by rw [htail]; exact hbound)
    rw [htail] at hskip
    rw [hskip]

/-- Where the reader accepts the messages and finds the ends of the others, the others leave no trace,
however the bytes of all of them arrive. -/
theorem receive_items {got : σ → Message V → σ} {items : List (Item V)}
    (hmessage : ∀ m, .message m ∈ items → Accepts handle (m.payload S))
    (hgot : ∀ m, .message m ∈ items → ∀ s, deliver handle s (m.payload S) = got s m)
    (hskipped : ∀ x, .skipped x ∈ items → Skips handle x.payload ∧ x.payload.length < 2 ^ 31)
    (s : σ) (chunks : List Bytes) (hc : chunks.flatten = itemStream S items) :
    chunks.foldl (receive handle) (s, ⟨0, []⟩) = ((remaining items).foldl got s, ⟨0, []⟩) := by
  have haccepts : ∀ p ∈ items.map (Item.payload S), Accepts handle p := by
    intro p hp
    obtain ⟨item, hitem, rfl⟩ := List.mem_map.mp hp
    cases item with
    | message m => exact hmessage m hitem
    | skipped x =>
      obtain ⟨hskips, hlen⟩ := hskipped x hitem
      exact hskips.accepts (payload_skipped x) hlen
  rw [receive_blocks haccepts s chunks hc]
  congr 1
  clear hc haccepts
  induction items generalizing s with
  | nil => rfl
  | cons item items ih =>
    have ih := ih (fun m hm => hmessage m (by simp [hm])) (fun m hm => hgot m (by simp [hm]))
      fun x hx => hskipped x (by simp [hx])
    cases item with
    | message m =>
      have hm := hgot m (by simp) s
      change (items.map (Item.payload S)).foldl (deliver handle) (deliver handle s (m.payload S)) =
        _
      rw [hm]
      exact ih (got s m)
    | skipped x =>
      obtain ⟨hskips, hlen⟩ := hskipped x (by simp)
      change (items.map (Item.payload S)).foldl (deliver handle) (deliver handle s x.payload) = _
      rw [hskips.deliver hlen]
      exact ih s

end

/-- In a stream whose other messages the client, or the server, finds the ends of, it handles the
messages as if the others were absent. Of any message of a length that fits its prefix, it finds the
end in exactly these cases. -/
theorem skipped_absent (S : VariantStream V) (hS : S.RoundTrips) :
    (∀ (items : List (Item V)), (∀ m, .message m ∈ items → m.WellFormed S) →
      ∀ chunks : List Bytes, chunks.flatten = itemStream S items →
        ((∀ x, .skipped x ∈ items → x.ClientFinds) → ∀ c : TCPClientProducer V,
          chunks.foldl (TCPClientProducer.receive S) (c, ⟨0, []⟩) =
            TCPClientProducer.receive S (c, ⟨0, []⟩) (stream S (remaining items))) ∧
        ((∀ x, .skipped x ∈ items → x.ServerFinds) → ∀ c : ServerConnection,
          chunks.foldl ServerConnection.receive (c, ⟨0, []⟩) =
            ServerConnection.receive (c, ⟨0, []⟩) (stream S (remaining items)))) ∧
    ∀ x : Skipped, x.payload.length < 2 ^ 32 →
      (Skips (TCPClientProducer.handle S) x.payload ↔ x.ClientFinds) ∧
      (Skips ServerConnection.handle x.payload ↔ x.ServerFinds) := by
  refine ⟨fun items hitems chunks hc => ?_, fun x hlen =>
    ⟨skips_client_iff x hlen, skips_server_iff x hlen⟩⟩
  have hremaining : ∀ m ∈ remaining items, m.WellFormed S := by
    intro m hm
    obtain ⟨item, hitem, hmessage⟩ := List.mem_filterMap.mp hm
    cases item with
    | message m' =>
      cases hmessage
      exact hitems m hitem
    | skipped x => cases hmessage
  constructor
  · intro hfinds c
    have hleft := receive_items (S := S) (fun m hm => client_accepts hS (hitems m hm))
      (fun m hm c => client_deliver hS (hitems m hm) c)
      (fun x hx => ⟨(skips_client_iff x ((hfinds x hx).1.trans (by decide))).mpr (hfinds x hx),
        (hfinds x hx).1⟩) c chunks hc
    have hright := receive_stream (fun m hm => client_accepts hS (hremaining m hm))
      (fun m hm c => client_deliver hS (hremaining m hm) c) c
    exact hleft.trans hright.symm
  · intro hfinds c
    have hleft := receive_items (S := S) (fun m hm => server_accepts (hitems m hm))
      (fun m hm c => server_deliver (hitems m hm) c)
      (fun x hx => ⟨(skips_server_iff x ((hfinds x hx).trans (by decide))).mpr (hfinds x hx),
        hfinds x hx⟩) c chunks hc
    have hright := receive_stream (fun m hm => server_accepts (hremaining m hm))
      (fun m hm c => server_deliver (hremaining m hm) c) c
    exact hleft.trans hright.symm

def unknownFirst : List (Item IntVariant) :=
  [.skipped (.unknown 9 (by decide) [1, 2, 3]), .message (.frame 7 [.int 5])]

theorem skipped_absent_unknown :
    [(itemStream intVariants unknownFirst).take 9, (itemStream intVariants unknownFirst).drop 9].foldl
        (TCPClientProducer.receive intVariants) (⟨[], []⟩, ⟨0, []⟩) =
      TCPClientProducer.receive intVariants (⟨[], []⟩, ⟨0, []⟩)
        (stream intVariants [.frame 7 [.int 5]]) := by
  refine ((skipped_absent intVariants intVariants_roundTrips).1 unknownFirst ?_ _ (by decide)).1 ?_ _
  · intro m hm
    have hframe : m = .frame 7 [.int 5] := by simpa [unknownFirst] using hm
    rw [hframe]
    exact ⟨by simp, by simp [intVariants], by simp, by decide⟩
  · intro x hx
    have hunknown : x = .unknown 9 (by decide) [1, 2, 3] := by simpa [unknownFirst] using hx
    rw [hunknown]
    exact ⟨by decide, trivial⟩

def emptyFirst : List (Item IntVariant) :=
  [.skipped (.emptyFrame 6 []), .message (.frame 7 [.int 5])]

/-- The frame behind an empty one is lost. -/
theorem skipped_emptyFrame :
    (TCPClientProducer.receive intVariants (⟨[], []⟩, ⟨0, []⟩)
        (itemStream intVariants emptyFirst)).1.m_frameList = [] ∧
      (TCPClientProducer.receive intVariants (⟨[], []⟩, ⟨0, []⟩)
        (stream intVariants (remaining emptyFirst))).1.m_frameList = [[.int 5]] := by
  decide +kernel

end ParleVision.Tcp
