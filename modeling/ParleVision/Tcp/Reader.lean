import ParleVision.Tcp.Wire

namespace ParleVision.Tcp
open Lib

/-- What both ends keep of an incoming stream: `m_blockSize`, 0 while the next
length is not known, and the bytes that wait in the socket. -/
structure Inbox where
  m_blockSize : Int
  unread : Bytes
  deriving DecidableEq, Repr

/-- `if( bytesAvailable() >= sizeof(quint32) ) in >> m_blockSize; else m_blockSize = 0` -/
def nextBlock (unread : Bytes) : Inbox :=
  if unread.length < 4 then ⟨0, unread⟩
  else ⟨toInt (readU32 unread).1, (readU32 unread).2⟩

/-- The `while( data )` loop of `TCPClientProducer::readData` and
`ServerConnection::readyRead`; `handle` is their `switch( opcode )`. -/
def messageLoop (handle : σ → UInt32 → Inbox → σ × Bytes) : Nat → σ → Inbox → σ × Inbox
  | 0, s, i => (s, i)
  | fuel + 1, s, i =>
    let opcode := readU32 i.unread
    let r := handle s opcode.1 ⟨i.m_blockSize, opcode.2⟩
    let next := nextBlock r.2
    if 4 ≤ r.2.length ∧ next.m_blockSize ≤ next.unread.length then
      messageLoop handle fuel r.1 next
    else (r.1, next)

/-- The first lines of both functions: read the length if it is not known yet,
and go on only when the whole block has arrived. -/
def awaitBlock (i : Inbox) : Inbox × Bool :=
  if i.m_blockSize = 0 ∧ i.unread.length < 4 then (i, false)
  else
    let j := if i.m_blockSize = 0 then nextBlock i.unread else i
    (j, decide (j.m_blockSize ≤ j.unread.length))

def readMessages (handle : σ → UInt32 → Inbox → σ × Bytes) (s : σ) (i : Inbox) : σ × Inbox :=
  let j := awaitBlock i
  if j.2 then messageLoop handle (j.1.unread.length + 1) s j.1 else (s, j.1)

/-- More bytes arrive, and `readyRead` is emitted. -/
def receive (handle : σ → UInt32 → Inbox → σ × Bytes) (c : σ × Inbox) (chunk : Bytes) : σ × Inbox :=
  readMessages handle c.1 ⟨c.2.m_blockSize, c.2.unread ++ chunk⟩

def deliver (handle : σ → UInt32 → Inbox → σ × Bytes) (s : σ) (payload : Bytes) : σ :=
  (handle s (readU32 payload).1 ⟨payload.length, (readU32 payload).2⟩).1

/-- The reader takes exactly this payload from the socket, whatever follows it.
A QByteArray, and so every block, has fewer than 2^31 bytes. -/
structure Accepts (handle : σ → UInt32 → Inbox → σ × Bytes) (payload : Bytes) : Prop where
  opcode : 4 ≤ payload.length
  bound : payload.length < 2 ^ 31
  exact : ∀ s rest, handle s (readU32 payload).1
    ⟨payload.length, (readU32 payload).2 ++ rest⟩ = (deliver handle s payload, rest)

theorem Accepts.short {handle : σ → UInt32 → Inbox → σ × Bytes} {payload : Bytes}
    (h : Accepts handle payload) : payload.length < 2 ^ 32 := h.bound.trans (by decide)

theorem readU32_append {bs : Bytes} (h : 4 ≤ bs.length) (rest : Bytes) :
    readU32 (bs ++ rest) = ((readU32 bs).1, (readU32 bs).2 ++ rest) := by
  match bs with
  | [] | [_] | [_, _] | [_, _, _] => simp at h
  | _ :: _ :: _ :: _ :: tail => simp [readU32]

theorem nextBlock_short {bs : Bytes} (h : bs.length < 4) : nextBlock bs = ⟨0, bs⟩ := if_pos h

theorem nextBlock_header {bs : Bytes} (h : 4 ≤ bs.length)
    (hl : blocks.len (bs.take 4) < 2 ^ 31) :
    nextBlock bs = ⟨blocks.len (bs.take 4), bs.drop 4⟩ := by
  rw [nextBlock, if_neg (by omega), readU32_rest h]
  simp only [blocks, readU32_take h] at hl ⊢
  rw [toInt_of_lt hl]

theorem messageLoop_front {handle : σ → UInt32 → Inbox → σ × Bytes} {payload : Bytes}
    (h : Accepts handle payload) (fuel : Nat) (s : σ) (rest : Bytes) :
    messageLoop handle (fuel + 1) s ⟨payload.length, payload ++ rest⟩ =
      if 4 ≤ rest.length ∧ (nextBlock rest).m_blockSize ≤ (nextBlock rest).unread.length then
        messageLoop handle fuel (deliver handle s payload) (nextBlock rest)
      else (deliver handle s payload, nextBlock rest) := by
  simp only [messageLoop, readU32_append h.opcode, h.exact]

/-- Bytes whose complete blocks, and whose announced next block, are acceptable. -/
structure Clean (handle : σ → UInt32 → Inbox → σ × Bytes) (bs : Bytes) : Prop where
  whole : ∀ m ∈ (blocks.split bs).1, Accepts handle m
  announced : 4 ≤ (blocks.split bs).2.length →
    0 < blocks.len ((blocks.split bs).2.take 4) ∧ blocks.len ((blocks.split bs).2.take 4) < 2 ^ 31

/-- One step of splitting, as the loop sees it. -/
theorem split_cases (bs : Bytes) :
    (bs.length < 4 ∧ blocks.split bs = ([], bs)) ∨
    (4 ≤ bs.length ∧ (bs.drop 4).length < blocks.len (bs.take 4) ∧ blocks.split bs = ([], bs)) ∨
    (4 ≤ bs.length ∧ ∃ m rest, bs.drop 4 = m ++ rest ∧ m.length = blocks.len (bs.take 4) ∧
      blocks.split bs = (m :: (blocks.split rest).1, (blocks.split rest).2)) := by
  by_cases h4 : bs.length < 4
  · exact .inl ⟨h4, blocks.split_short h4⟩
  · by_cases hp : (bs.drop 4).length < blocks.len (bs.take 4)
    · exact .inr (.inl ⟨by omega, hp, blocks.split_partial hp⟩)
    · refine .inr (.inr ⟨by omega, (bs.drop 4).take (blocks.len (bs.take 4)),
        (bs.drop 4).drop (blocks.len (bs.take 4)), (List.take_append_drop _ _).symm, ?_, ?_⟩)
      · simp only [List.length_take]
        omega
      · rw [Framing.split]
        exact (if_neg h4).trans (if_neg hp)

theorem Clean.rest {handle : σ → UInt32 → Inbox → σ × Bytes} {bs m rest : Bytes}
    (h : Clean handle bs)
    (hs : blocks.split bs = (m :: (blocks.split rest).1, (blocks.split rest).2)) :
    Accepts handle m ∧ Clean handle rest := by
  obtain ⟨hw, ha⟩ := h
  rw [hs] at hw ha
  exact ⟨hw m (by simp), fun x hx => hw x (by simp [hx]), ha⟩

/-- The loop handles every complete block and stops at the first incomplete one. -/
theorem messageLoop_split {handle : σ → UInt32 → Inbox → σ × Bytes} (fuel : Nat) (s : σ)
    (payload bs : Bytes) (hm : Accepts handle payload) (hc : Clean handle bs)
    (hf : bs.length ≤ fuel) :
    messageLoop handle (fuel + 1) s ⟨payload.length, payload ++ bs⟩ =
      ((payload :: (blocks.split bs).1).foldl (deliver handle) s,
        nextBlock (blocks.split bs).2) := by
  induction fuel generalizing s payload bs with
  | zero =>
    have hnil : bs = [] := List.length_eq_zero_iff.mp (by omega)
    subst hnil
    rw [messageLoop_front hm, if_neg (by simp), blocks.split_short (by decide)]
    rfl
  | succ fuel ih =>
    rw [messageLoop_front hm]
    rcases split_cases bs with ⟨h4, hs⟩ | ⟨h4, hp, hs⟩ | ⟨h4, m, rest, hd, hl, hs⟩
    · rw [if_neg (by omega), hs]
      rfl
    · have hb := (hc.announced (by rw [hs]; exact h4)).2
      rw [hs] at hb
      rw [nextBlock_header h4 hb, if_neg (by simp only [Nat.cast_le]; omega), hs,
        nextBlock_header h4 hb]
      rfl
    · obtain ⟨hma, hcr⟩ := hc.rest hs
      have hn : nextBlock bs = ⟨m.length, m ++ rest⟩ := by
        rw [nextBlock_header h4 (hl ▸ hma.bound), hd, hl]
      have hlen : rest.length ≤ fuel := by
        have := congrArg List.length hd
        simp only [List.length_drop, List.length_append] at this
        omega
      rw [hn, if_pos ⟨h4, by simp⟩, ih _ _ _ hma hcr hlen, hs]
      rfl

/-- What a reader that has handled the complete blocks of `bs` looks like. -/
def settled (handle : σ → UInt32 → Inbox → σ × Bytes) (s : σ) (bs : Bytes) : σ × Inbox :=
  ((blocks.split bs).1.foldl (deliver handle) s, nextBlock (blocks.split bs).2)

/-- The length of the next block is either still in the socket or in
`m_blockSize`: both ways the next call starts from the same block. -/
theorem awaitBlock_resume {r : Bytes} (chunk : Bytes)
    (hlen : 4 ≤ r.length → 0 < blocks.len (r.take 4) ∧ blocks.len (r.take 4) < 2 ^ 31) :
    awaitBlock ⟨(nextBlock r).m_blockSize, (nextBlock r).unread ++ chunk⟩ =
      (nextBlock (r ++ chunk), decide (4 ≤ (r ++ chunk).length ∧
        (nextBlock (r ++ chunk)).m_blockSize ≤ (nextBlock (r ++ chunk)).unread.length)) := by
  by_cases h4 : r.length < 4
  · rw [nextBlock_short h4]
    by_cases hshort : (r ++ chunk).length < 4
    · rw [awaitBlock, if_pos ⟨rfl, hshort⟩, nextBlock_short hshort]
      simp only [Prod.mk.injEq, true_and, Bool.false_eq, decide_eq_false_iff_not]
      omega
    · rw [awaitBlock, if_neg (by simp only [true_and]; exact hshort)]
      simp only [↓reduceIte, Prod.mk.injEq, true_and, decide_eq_decide]
      omega
  · obtain ⟨hpos, hbound⟩ := hlen (by omega)
    have htake : (r ++ chunk).take 4 = r.take 4 :=
      List.take_append_of_le_length (by omega)
    have hdrop : (r ++ chunk).drop 4 = r.drop 4 ++ chunk :=
      List.drop_append_of_le_length (by omega)
    have hnext : nextBlock (r ++ chunk) =
        ⟨(nextBlock r).m_blockSize, (nextBlock r).unread ++ chunk⟩ := by
      rw [nextBlock_header (by omega) hbound,
        nextBlock_header (by simp; omega) (by rw [htake]; exact hbound), htake, hdrop]
    have hne : (nextBlock r).m_blockSize ≠ 0 := by
      rw [nextBlock_header (by omega) hbound]
      simp only
      omega
    rw [awaitBlock, if_neg (by simp [hne]), hnext]
    simp only [hne, ↓reduceIte, Prod.mk.injEq, true_and, decide_eq_decide, List.length_append]
    omega

/-- A call on freshly arrived bytes, none of them handled yet, settles. -/
theorem readMessages_settled {handle : σ → UInt32 → Inbox → σ × Bytes} (s : σ) {bs : Bytes}
    {i : Inbox} (hc : Clean handle bs)
    (hi : awaitBlock i = (nextBlock bs, decide (4 ≤ bs.length ∧
      (nextBlock bs).m_blockSize ≤ (nextBlock bs).unread.length))) :
    readMessages handle s i = settled handle s bs := by
  rw [readMessages, hi]
  rcases split_cases bs with ⟨h4, hs⟩ | ⟨h4, hpart, hs⟩ | ⟨h4, m, rest, hd, hl, hs⟩
  · simp [settled, hs, show ¬ 4 ≤ bs.length by omega]
  · have hb := (hc.announced (by rw [hs]; exact h4)).2
    rw [hs] at hb
    have hwait : ¬ (nextBlock bs).m_blockSize ≤ (nextBlock bs).unread.length := by
      rw [nextBlock_header h4 hb]
      simp only [Nat.cast_le]
      omega
    simp [settled, hs, hwait]
  · obtain ⟨hma, hcr⟩ := hc.rest hs
    have hn : nextBlock bs = ⟨m.length, m ++ rest⟩ := by
      rw [nextBlock_header h4 (hl ▸ hma.bound), hd, hl]
    have hgo : (nextBlock bs).m_blockSize ≤ (nextBlock bs).unread.length := by
      rw [hn]
      simp
    simp only [h4, hgo, and_self, decide_true, ↓reduceIte]
    simp only [hn, settled, hs]
    exact messageLoop_split _ _ _ _ hma hcr (by simp)

/-- Reading on from a settled state settles again: the code's reader does what
the framing asks for, with nothing but `m_blockSize` kept between calls. -/
theorem receive_settled {handle : σ → UInt32 → Inbox → σ × Bytes} (s : σ) (bs chunk : Bytes)
    (hp : Clean handle bs) (hc : Clean handle (bs ++ chunk)) :
    receive handle (settled handle s bs) chunk = settled handle s (bs ++ chunk) := by
  have happ := blocks.split_append bs chunk
  have hclean : Clean handle ((blocks.split bs).2 ++ chunk) := by
    obtain ⟨hw, ha⟩ := hc
    rw [happ] at hw ha
    exact ⟨fun m hm => hw m (List.mem_append_right _ hm), ha⟩
  have hgoal : settled handle s (bs ++ chunk) =
      settled handle ((blocks.split bs).1.foldl (deliver handle) s)
        ((blocks.split bs).2 ++ chunk) := by
    simp only [settled, happ, List.foldl_append]
  rw [hgoal]
  exact readMessages_settled _ hclean (awaitBlock_resume chunk hp.announced)

/-- Every prefix of a stream of acceptable messages is clean. -/
theorem clean_received {handle : σ → UInt32 → Inbox → σ × Bytes} {ms : List Bytes}
    (hm : ∀ m ∈ ms, Accepts handle m) {p : Bytes} (hp : p <+: (ms.map block).flatten) :
    Clean handle p := by
  obtain ⟨rest, hr⟩ := hp
  have hstream : blocks.split (p ++ rest) = (ms, []) := by
    rw [hr]
    exact split_blocks fun m h => (hm m h).short
  obtain ⟨hw, ha⟩ := Framing.split_received hstream
  refine ⟨fun m h => hm m (hw m h), fun h => ?_⟩
  obtain ⟨m, h, hl⟩ := ha h
  have hb := (hm m h).bound
  have ho := (hm m h).opcode
  change blocks.len _ = _ at hl
  rw [show (4 : Nat) = blocks.size from rfl, hl]
  omega

/-- However the received bytes were cut, the reader ends settled. -/
theorem receive_chunks {handle : σ → UInt32 → Inbox → σ × Bytes} {ms : List Bytes}
    (hm : ∀ m ∈ ms, Accepts handle m) (s : σ) (chunks : List Bytes)
    (hc : chunks.flatten <+: (ms.map block).flatten) :
    chunks.foldl (receive handle) (s, ⟨0, []⟩) = settled handle s chunks.flatten := by
  have hrun := foldl_canonical (receive handle) (settled handle s)
    (fun p c hp => receive_settled s p c
      (clean_received hm ((List.prefix_append _ _).trans hp)) (clean_received hm hp)) chunks []
      (by simpa using hc)
  have hnil : settled handle s [] = (s, ⟨0, []⟩) := by
    rw [settled, blocks.split_short (by decide)]
    rfl
  simpa [hnil] using hrun

/-- A reader that receives a whole stream handles each message in turn and waits
for the next one with an empty socket. -/
theorem receive_blocks {handle : σ → UInt32 → Inbox → σ × Bytes} {ms : List Bytes}
    (hm : ∀ m ∈ ms, Accepts handle m) (s : σ) (chunks : List Bytes)
    (hc : chunks.flatten = (ms.map block).flatten) :
    chunks.foldl (receive handle) (s, ⟨0, []⟩) = (ms.foldl (deliver handle) s, ⟨0, []⟩) := by
  rw [receive_chunks hm s chunks (by simp [hc]), hc, settled, split_blocks fun m h => (hm m h).short]
  rfl

/-- What every message leaves as it is holds after any number of them. -/
theorem messageLoop_invariant {handle : σ → UInt32 → Inbox → σ × Bytes} {I : σ → Prop}
    (hI : ∀ s opcode i, I s → I (handle s opcode i).1) (fuel : Nat) (s : σ) (i : Inbox) (h : I s) :
    I (messageLoop handle fuel s i).1 := by
  induction fuel generalizing s i with
  | zero => exact h
  | succ fuel ih =>
    have hone := hI s (readU32 i.unread).1 ⟨i.m_blockSize, (readU32 i.unread).2⟩ h
    rw [messageLoop]
    split
    · exact ih _ _ hone
    · exact hone

theorem readMessages_invariant {handle : σ → UInt32 → Inbox → σ × Bytes} {I : σ → Prop}
    (hI : ∀ s opcode i, I s → I (handle s opcode i).1) (s : σ) (i : Inbox) (h : I s) :
    I (readMessages handle s i).1 := by
  rw [readMessages]
  split
  · exact messageLoop_invariant hI _ _ _ h
  · exact h

end ParleVision.Tcp
