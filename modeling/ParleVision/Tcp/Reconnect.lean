import ParleVision.Lib.Run
import ParleVision.Tcp.Fragmentation

namespace ParleVision.Tcp
open Lib

/-- The loop that skips what is left in the socket, at most an int's worth at a time. -/
def skipAll (bytes : Nat) (unread : Bytes) : Bytes :=
  if 2 ^ 31 - 1 < bytes then skipAll (bytes - (2 ^ 31 - 1)) (skipRawData (2 ^ 31 - 1) unread)
  else skipRawData bytes unread
termination_by bytes
decreasing_by omega

theorem skipAll_length (unread : Bytes) : skipAll unread.length unread = [] := by
  induction hn : unread.length using Nat.strong_induction_on generalizing unread with
  | _ n ih =>
    rw [skipAll]
    split
    · rename_i hlong
      have hrest : (skipRawData (2 ^ 31 - 1) unread).length = n - (2 ^ 31 - 1) := by
        rw [skipRawData, List.length_drop, hn]
        rfl
      exact ih _ (by omega) _ hrest
    · rw [skipRawData, Int.toNat_natCast, List.drop_eq_nil_iff]
      omega

/-- A TCPClientProducer with what its socket has for it. -/
structure Client (V : Type) where
  producer : TCPClientProducer V
  inbox : Inbox
  connected : Bool

namespace Client
variable {V : Type}

def constructed : Client V where
  producer := ⟨[], []⟩
  inbox := ⟨0, []⟩
  connected := false

def disconnected (c : Client V) : Client V :=
  if c.inbox.unread.length > 0 then
    { c with inbox := ⟨0, skipAll c.inbox.unread.length c.inbox.unread⟩ }
  else c

/-- `stop()`: the socket disconnects, at once or while the client waits, or it is aborted. -/
def stop (c : Client V) (disconnects : Bool) : Client V :=
  if c.connected = false then c
  else
    let c : Client V := { c with connected := false }.disconnected
    if disconnects then c else { c with inbox := ⟨0, c.inbox.unread⟩ }

/-- `start()`; nothing when its assertion fails. -/
def start (c : Client V) (connects : Bool) : Option (Client V) :=
  if c.inbox.unread.length > 0 then
    let unread := skipAll c.inbox.unread.length c.inbox.unread
    if unread.length = 0 then
      some { c with inbox := ⟨0, unread⟩, connected := c.connected || connects }
    else none
  else some { c with connected := c.connected || connects }

/-- The automatic reconnect at the beginning of `readyToProduce()`. -/
def readyToProduce (c : Client V) (connects : Bool) : Client V :=
  if c.connected then c else { c with connected := connects }

/-- What `readData()` leaves. -/
def read (c : Client V) (r : TCPClientProducer V × Inbox) : Client V :=
  { c with producer := r.1, inbox := r.2 }

inductive Event where
  /-- bytes arrive, and the socket calls `readData()` -/
  | receive (chunk : Bytes)
  /-- the server or the network ends the connection -/
  | ends
  | stop (disconnects : Bool)
  | start (connects : Bool)
  | readyToProduce (connects : Bool)
deriving DecidableEq, Repr

def step (S : VariantStream V) (c : Client V) : Event → Option (Client V)
  | .receive chunk =>
    if c.connected then some (c.read (TCPClientProducer.receive S (c.producer, c.inbox) chunk))
    else none
  | .ends => if c.connected then some { c with connected := false }.disconnected else none
  | .stop disconnects => some (c.stop disconnects)
  | .start connects => c.start connects
  | .readyToProduce connects => some (c.readyToProduce connects)

def Ends (c : Client V) (e : Event) : Prop :=
  c.connected = true ∧ (e = .ends ∨ ∃ disconnects, e = .stop disconnects)

/-- Unread bytes make the slot reset the length, and so does a `stop()` that has to abort. -/
def Clears (c : Client V) (e : Event) : Prop :=
  c.inbox.m_blockSize = 0 ∨ c.inbox.unread ≠ [] ∨ e = .stop false

def Offline (S : VariantStream V) (c : Client V) (e : Event) : Prop :=
  ∀ c', c.step S e = some c' → c'.connected = false

section
variable {S : VariantStream V} {c c' : Client V} {e : Event}

theorem disconnected_spec (c : Client V) :
    c.disconnected.connected = c.connected ∧ c.disconnected.inbox.unread = [] ∧
      (c.disconnected.inbox.m_blockSize = 0 ↔ c.inbox.m_blockSize = 0 ∨ c.inbox.unread ≠ []) := by
  unfold disconnected
  split
  · rename_i hpos
    exact ⟨rfl, skipAll_length _, iff_of_true rfl (.inr (List.ne_nil_of_length_pos hpos))⟩
  · rename_i hnone
    have hnil : c.inbox.unread = [] := List.length_eq_zero_iff.mp (by omega)
    exact ⟨rfl, hnil, by simp [hnil]⟩

theorem stop_connected (h : c.connected = true) (disconnects : Bool) :
    c.stop disconnects =
      if disconnects then { c with connected := false }.disconnected
      else
        { { c with connected := false }.disconnected with
          inbox := ⟨0, { c with connected := false }.disconnected.inbox.unread⟩ } := by
  unfold stop
  exact if_neg (by simp [h])

/-- Behind the end of a connection the socket is empty. -/
theorem ends_spec (hends : c.Ends e) (hstep : c.step S e = some c') :
    c'.connected = false ∧ c'.inbox.unread = [] ∧ (c'.inbox.m_blockSize = 0 ↔ c.Clears e) := by
  obtain ⟨hconnected, he⟩ := hends
  obtain ⟨hoffline, hunread, hsize⟩ := disconnected_spec { c with connected := false }
  rcases he with rfl | ⟨disconnects, rfl⟩
  · unfold step at hstep
    rw [if_pos hconnected] at hstep
    cases hstep
    refine ⟨hoffline, hunread, hsize.trans ?_⟩
    simp [Clears]
  · change some (c.stop disconnects) = some c' at hstep
    rw [stop_connected hconnected] at hstep
    cases hstep
    cases disconnects with
    | true =>
      refine ⟨hoffline, hunread, hsize.trans ?_⟩
      simp [Clears]
    | false => exact ⟨hoffline, hunread, iff_of_true rfl (.inr (.inr rfl))⟩

/-- Without a connection nothing but one changes. -/
theorem offline_inbox (hoffline : c.connected = false) (hunread : c.inbox.unread = [])
    (hstep : c.step S e = some c') : c'.inbox = c.inbox := by
  cases e with
  | receive chunk =>
    have hnone : c.step S (.receive chunk) = none := if_neg (by simp [hoffline])
    rw [hnone] at hstep
    cases hstep
  | ends =>
    have hnone : c.step S .ends = none := if_neg (by simp [hoffline])
    rw [hnone] at hstep
    cases hstep
  | stop disconnects =>
    change some (c.stop disconnects) = some c' at hstep
    rw [stop, if_pos hoffline] at hstep
    cases hstep
    rfl
  | start connects =>
    change c.start connects = some c' at hstep
    rw [start, if_neg (by simp [hunread])] at hstep
    cases hstep
    rfl
  | readyToProduce connects =>
    change some (c.readyToProduce connects) = some c' at hstep
    rw [readyToProduce, if_neg (by simp [hoffline])] at hstep
    cases hstep
    rfl

theorem offline_run (hoffline : c.connected = false) (hunread : c.inbox.unread = [])
    (hrun : Reaches (step S) (Offline S) c c') :
    c'.connected = false ∧ c'.inbox = c.inbox := by
  refine hrun.invariant (I := fun d => d.connected = false ∧ d.inbox = c.inbox)
    ⟨hoffline, rfl⟩ ?_
  rintro d e d' ⟨hd, hinbox⟩ hstays hstep
  have hsame := offline_inbox hd (by rw [hinbox, hunread]) hstep
  exact ⟨hstays d' hstep, hsame.trans hinbox⟩

end

/-- Wherever a connection is cut, and whatever `stop()`, `start()` and reconnects follow: the next
connection starts with an empty socket, and with the length 0 if that was so, or bytes were unread, at
the cut, or `stop()` aborted. Then its first bytes are read as those of a first connection. -/
theorem reconnect_iff {S : VariantStream V} {c c₁ c₂ c₃ : Client V} {e e' : Event}
    (hends : c.Ends e) (hcut : c.step S e = some c₁)
    (hoffline : Reaches (step S) (Offline S) c₁ c₂) (hnext : c₂.step S e' = some c₃)
    (hconnected : c₃.connected = true) :
    c₃.inbox.unread = [] ∧ (c₃.inbox.m_blockSize = 0 ↔ c.Clears e) ∧
      (c.Clears e → ∀ chunk, c₃.step S (.receive chunk) =
        some (c₃.read (TCPClientProducer.receive S (c₃.producer, ⟨0, []⟩) chunk))) := by
  obtain ⟨hconnected₁, hunread₁, hsize₁⟩ := ends_spec hends hcut
  obtain ⟨hconnected₂, hinbox₂⟩ := offline_run hconnected₁ hunread₁ hoffline
  have hinbox₃ := offline_inbox hconnected₂ (by rw [hinbox₂, hunread₁]) hnext
  rw [hinbox₃, hinbox₂]
  refine ⟨hunread₁, hsize₁, fun hclears chunk => ?_⟩
  have hempty : c₃.inbox = ⟨0, []⟩ := by
    rw [hinbox₃, hinbox₂, ← hunread₁, ← hsize₁.mpr hclears]
  rw [← hempty]
  exact if_pos hconnected

/-- The connection is cut behind the first byte of a length. -/
theorem reconnect_iff_unread : ∃ c c₁ c₃ : Client IntVariant,
    run (step intVariants) constructed [.start true, .receive [0]] = some c ∧
    c.step intVariants .ends = some c₁ ∧
    c₁.step intVariants (.readyToProduce true) = some c₃ ∧
    (c₃.inbox.unread = [] ∧ (c₃.inbox.m_blockSize = 0 ↔ c.Clears .ends) ∧
      (c.Clears .ends → ∀ chunk, c₃.step intVariants (.receive chunk) =
        some (c₃.read (TCPClientProducer.receive intVariants (c₃.producer, ⟨0, []⟩) chunk)))) :=
  ⟨_, _, _, rfl, rfl, rfl, reconnect_iff ⟨rfl, .inl rfl⟩ rfl .start
    (show step intVariants _ (.readyToProduce true) = some _ from rfl) rfl⟩

/-- It is cut right behind the length of a message: the next connection is read as if the message
were still to come. -/
theorem reconnect_stale : ∃ c : Client IntVariant,
    run (step intVariants) constructed
      [.start true, .receive [0, 0, 0, 8], .ends, .readyToProduce true] = some c ∧
    c.connected = true ∧ c.inbox.m_blockSize = 8 :=
  ⟨_, rfl, rfl, by decide⟩

end Client

end ParleVision.Tcp
