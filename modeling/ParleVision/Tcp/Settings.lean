import ParleVision.Tcp.Slots

namespace ParleVision.Tcp
open Lib

structure Settings where
  lossless : Bool
  maxFramesInQueue : Nat
  maxFramesInFlight : Nat
  deriving DecidableEq, Repr

namespace Connection

def settings (c : Connection) : Settings :=
  ⟨c.m_lossless, c.m_maxFramesInQueue, c.m_maxFramesInFlight⟩

/-- What an event does to the settings. -/
def Event.set : Event → Settings → Settings
  | .setMaxFrameQueue max, s => { s with maxFramesInQueue := max }
  | .setMaxFramesInFlight max, s => { s with maxFramesInFlight := max }
  | .setLossless lossless, s => { s with lossless := lossless }
  | .start, s | .closing, s | .disconnected, s | .queueFrame _ _, s | .sendData, s | .write _, s
  | .finishQueueFrame, s | .ackFrame _, s => s

section
variable {c c' : Connection} {e : Event}

theorem write_settings {caller : Caller} {bytesSent : Int}
    (hw : c.write caller bytesSent = some c') : c'.settings = c.settings := by
  obtain ⟨f, rest, -, ⟨-, -, rfl⟩ | ⟨-, rfl⟩ | ⟨-, rfl⟩⟩ := write_cases hw
  · exact loopTest_reads (fun _ _ => rfl) _ caller
  · exact sendReturns_reads (fun _ _ => rfl) _ caller
  · exact loopTest_reads (fun _ _ => rfl) _ caller

theorem queueFrame_settings (frameNumber : UInt32) (frameData : Bytes) :
    (c.queueFrame frameNumber frameData).settings = c.settings := by
  rcases c.queueFrame_cases frameNumber frameData with ⟨-, he⟩ | ⟨-, he⟩ | ⟨-, he⟩
  · rw [he]
  · rw [he, sendData_reads (f := settings) (fun _ _ => rfl)]
    rfl
  · rw [he]
    rfl

theorem finishQueueFrame_settings : c.finishQueueFrame.settings = c.settings := by
  rcases c.finishQueueFrame_cases with ⟨-, he⟩ | ⟨-, -, -, he⟩ | ⟨-, -, he⟩
  · rw [he]
    rfl
  · rw [he]
    rfl
  · rw [he]
    rfl

theorem ackFrame_settings (serial : UInt32) : (c.ackFrame serial).settings = c.settings := by
  have hlossless := (ackFrame_spec c.toServerConnection serial).1
  change Settings.mk (c.toServerConnection.ackFrame serial).m_lossless _ _ = _
  rw [hlossless]
  rfl

/-- Only the setters change the settings. -/
theorem step_settings (hs : c.step e = some c') : c'.settings = e.set c.settings := by
  cases e with
  | start | closing | disconnected | setMaxFrameQueue | setMaxFramesInFlight | setLossless =>
    simp only [Connection.step, Option.ite_none_right_eq_some, Option.some.injEq] at hs
    obtain ⟨-, rfl⟩ := hs
    rfl
  | queueFrame frameNumber frameData =>
    simp only [Connection.step, Option.ite_none_right_eq_some, Option.some.injEq] at hs
    obtain ⟨-, rfl⟩ := hs
    exact queueFrame_settings _ _
  | sendData =>
    simp only [Connection.step, Option.ite_none_right_eq_some, Option.some.injEq] at hs
    obtain ⟨-, rfl⟩ := hs
    exact sendData_reads (fun _ _ => rfl) c _
  | write bytesSent =>
    cases hp : c.place with
    | sendLoop caller =>
      simp only [Connection.step, hp] at hs
      exact write_settings hs
    | eventLoop => simp [Connection.step, hp] at hs
    | dropTest => simp [Connection.step, hp] at hs
  | finishQueueFrame =>
    simp only [Connection.step, Option.ite_none_right_eq_some, Option.some.injEq] at hs
    obtain ⟨-, rfl⟩ := hs
    exact finishQueueFrame_settings
  | ackFrame serial =>
    simp only [Connection.step, Option.ite_none_right_eq_some, Option.some.injEq] at hs
    obtain ⟨-, rfl⟩ := hs
    exact ackFrame_settings serial

end

end Connection

namespace ConnectionThread

/-- The settings once all posted calls have run. -/
def settled (t : ConnectionThread) : Settings :=
  t.posted.foldl (fun s slot => slot.event.set s) t.connection.settings

theorem settled_nil {t : ConnectionThread} (h : t.posted = []) :
    t.settled = t.connection.settings := by
  rw [settled, h]
  rfl

theorem settled_append (c : Connection) (posted slots : List Slot) :
    settled ⟨c, posted ++ slots⟩ =
      slots.foldl (fun s slot => slot.event.set s) (settled ⟨c, posted⟩) := List.foldl_append

/-- It makes no difference how far the calls have run. -/
theorem step_settled {t t' : ConnectionThread} {e : Event} (hpost : ∀ slot, e ≠ .post slot)
    (hs : t.step e = some t') : t'.settled = t.settled := by
  cases e with
  | post slot => exact absurd rfl (hpost slot)
  | slot =>
    cases hposted : t.posted with
    | nil => simp [step, hposted] at hs
    | cons slot rest =>
      simp only [step, hposted] at hs
      obtain ⟨c', hc, rfl⟩ := Option.map_eq_some_iff.mp hs
      rw [settled, settled, hposted, List.foldl_cons, ← Connection.step_settings hc]
  | finishQueueFrame =>
    obtain ⟨c', hc, rfl⟩ := Option.map_eq_some_iff.mp hs
    rw [settled_append, settled, Connection.step_settings hc]
    rfl
  | write | ackFrame | start | closing | disconnected =>
    obtain ⟨c', hc, rfl⟩ := Option.map_eq_some_iff.mp hs
    rw [settled, settled, Connection.step_settings hc]
    rfl

end ConnectionThread

inductive Arg where
  | int (n : Nat)
  | bool (b : Bool)
  deriving DecidableEq, Repr

/-- The slots of a ServerConnection that `incomingConnection` connects to a signal of its parent. -/
inductive Setter where
  | setMaxFrameQueue
  | setMaxFramesInFlight
  | setLossless
  deriving DecidableEq, Repr

def Setter.call : Setter → Arg → Option Slot
  | .setMaxFrameQueue, .int max => some (.setMaxFrameQueue max)
  | .setMaxFramesInFlight, .int max => some (.setMaxFramesInFlight max)
  | .setLossless, .bool lossless => some (.setLossless lossless)
  | _, _ => none

def declaredSignals : List String :=
  ["portChanged(int)", "convertCvMatDataToQImageChanged(bool)", "maxFramesInQueueChanged(int)",
    "maxFramesInFlightChanged(int)", "losslessChanged(bool)"]

/-- `connect( parent(), SIGNAL( .. ), connection, SLOT( .. ) )` in `incomingConnection`. -/
def connects : List (String × Setter) :=
  [("maxFrameQueueChanged(int)", .setMaxFrameQueue),
    ("maxFramesInFlightChanged(int)", .setMaxFramesInFlight), ("losslessChanged(bool)", .setLossless)]

/-- The calls that a signal posts: a `connect` takes effect only for a signal that is declared. -/
def calls (signal : String) (arg : Arg) : List Slot :=
  (connects.filter fun c => c.1 ∈ declaredSignals ∧ c.1 = signal).filterMap fun c => c.2.call arg

/-- A Server of a TCPServerProcessor, whose settings are those of the server, with its live
connections. -/
structure Server (ι : Type) where
  m_lossless : Bool
  m_maxFramesInQueue : Nat
  m_maxFramesInFlight : Nat
  connections : ι → Option ConnectionThread

namespace Server
variable {ι : Type}

def constructed : Server ι where
  m_lossless := false
  m_maxFramesInQueue := 1
  m_maxFramesInFlight := 1
  connections := fun _ => none

def settings (s : Server ι) : Settings :=
  ⟨s.m_lossless, s.m_maxFramesInQueue, s.m_maxFramesInFlight⟩

def post (s : Server ι) (slots : List Slot) : Server ι :=
  { s with connections := fun i => (s.connections i).map fun t => ⟨t.connection, t.posted ++ slots⟩ }

def setMaxFramesInQueue (s : Server ι) (max : Int) : Server ι :=
  if max > 0 then
    post { s with m_maxFramesInQueue := max.toNat }
      (calls "maxFramesInQueueChanged(int)" (.int max.toNat))
  else s

def setMaxFramesInFlight (s : Server ι) (max : Int) : Server ι :=
  if max > 0 then
    post { s with m_maxFramesInFlight := max.toNat }
      (calls "maxFramesInFlightChanged(int)" (.int max.toNat))
  else s

def setLossless (s : Server ι) (lossless : Bool) : Server ι :=
  post { s with m_lossless := lossless } (calls "losslessChanged(bool)" (.bool lossless))

/-- The rest of the connection's setting up is the step `start` of its thread. -/
def incomingConnection [DecidableEq ι] (s : Server ι) (i : ι) : Server ι :=
  { s with connections := Function.update s.connections i
            (some ⟨.new s.m_lossless s.m_maxFramesInQueue s.m_maxFramesInFlight, []⟩) }

inductive Event (ι : Type) where
  | incomingConnection (i : ι)
  | setLossless (lossless : Bool)
  | setMaxFramesInQueue (max : Int)
  | setMaxFramesInFlight (max : Int)
  /-- `broadcastFrame` -/
  | sendFrame (frameNumber : UInt32) (data : Bytes)
  /-- what happens in the thread of a connection -/
  | thread (i : ι) (e : ConnectionThread.Event)
  /-- `deleteLater` of a connection that is disconnected -/
  | deleted (i : ι)
  deriving DecidableEq, Repr

def step [DecidableEq ι] (s : Server ι) : Event ι → Option (Server ι)
  | .incomingConnection i => if (s.connections i).isNone then some (s.incomingConnection i) else none
  | .setLossless lossless => some (s.setLossless lossless)
  | .setMaxFramesInQueue max => some (s.setMaxFramesInQueue max)
  | .setMaxFramesInFlight max => some (s.setMaxFramesInFlight max)
  | .sendFrame frameNumber data => some (s.post [.queueFrame frameNumber data])
  | .thread _ (.post _) => none
  | .thread i e =>
    ((s.connections i).bind fun t => t.step e).map fun t =>
      { s with connections := Function.update s.connections i (some t) }
  | .deleted i =>
    match s.connections i with
    | none => none
    | some t =>
      if t.connection.socket = .gone then
        some { s with connections := Function.update s.connections i none }
      else none

/-- All live connections have the settings of the server, once their posted calls have run. -/
def Agree (s : Server ι) : Prop := ∀ i t, s.connections i = some t → t.settled = s.settings

def AgreeIn {α : Type} (f : Settings → α) (s : Server ι) : Prop :=
  ∀ i t, s.connections i = some t → f t.settled = f s.settings

/-- There is another limit of the queue while a connection is live. -/
def Misses (s : Server ι) (e : Event ι) : Prop :=
  ∃ max > 0, e = .setMaxFramesInQueue max ∧ max.toNat ≠ s.m_maxFramesInQueue ∧
    ∃ i, s.connections i ≠ none

theorem calls_maxFramesInQueueChanged (max : Nat) :
    calls "maxFramesInQueueChanged(int)" (.int max) = [] := rfl

theorem calls_maxFramesInFlightChanged (max : Nat) :
    calls "maxFramesInFlightChanged(int)" (.int max) = [.setMaxFramesInFlight max] := rfl

theorem calls_losslessChanged (lossless : Bool) :
    calls "losslessChanged(bool)" (.bool lossless) = [.setLossless lossless] := rfl

section
variable {α : Type} {f : Settings → α} {s s' : Server ι}

/-- The settings change, and the connections are told. -/
theorem post_agreeIn {slots : List Slot} (hsame : s'.connections = s.connections)
    (hslots : ∀ x, f x = f s.settings →
      f (slots.foldl (fun s slot => slot.event.set s) x) = f s'.settings) (h : s.AgreeIn f) :
    (s'.post slots).AgreeIn f := by
  intro i t ht
  change (s'.connections i).map _ = some t at ht
  rw [hsame] at ht
  obtain ⟨u, hu, rfl⟩ := Option.map_eq_some_iff.mp ht
  rw [ConnectionThread.settled_append]
  exact hslots _ (h i u hu)

/-- In what is no limit of the queue they agree after its setter, too. -/
theorem setMaxFramesInQueue_agreeIn (hf : ∀ x n, f { x with maxFramesInQueue := n } = f x)
    (h : s.AgreeIn f) (max : Int) : (s.setMaxFramesInQueue max).AgreeIn f := by
  unfold setMaxFramesInQueue
  split
  · rw [calls_maxFramesInQueueChanged]
    refine post_agreeIn (s := s) rfl (fun x hx => ?_) h
    exact hx.trans (hf s.settings max.toNat).symm
  · exact h

theorem setMaxFramesInQueue_agree (h : s.Agree) (max : Int) :
    (s.setMaxFramesInQueue max).Agree ↔ ¬ s.Misses (.setMaxFramesInQueue max) := by
  unfold setMaxFramesInQueue
  split
  · rename_i hpos
    rw [calls_maxFramesInQueueChanged]
    constructor
    · rintro hagree ⟨max', -, hmax, hne, i, hi⟩
      cases hmax
      obtain ⟨t, ht⟩ := Option.ne_none_iff_exists'.mp hi
      -- the connection keeps the old limit
      have hold := congrArg Settings.maxFramesInQueue (h i t ht)
      have hnew := congrArg Settings.maxFramesInQueue
        (hagree i ⟨t.connection, t.posted ++ []⟩ (by simp [post, ht]))
      rw [List.append_nil] at hnew
      exact hne (hnew.symm.trans hold)
    · intro hnot i t ht
      obtain ⟨u, hu, rfl⟩ := Option.map_eq_some_iff.mp ht
      have hsame : max.toNat = s.m_maxFramesInQueue := by
        by_contra hne
        exact hnot ⟨max, hpos, rfl, hne, i, Option.ne_none_iff_exists'.mpr ⟨u, hu⟩⟩
      rw [List.append_nil, hsame]
      exact h i u hu
  · rename_i hneg
    refine iff_of_true h ?_
    rintro ⟨max', hpos, hmax, -⟩
    cases hmax
    exact hneg hpos

/-- All other steps keep them in agreement. -/
theorem step_agreeIn [DecidableEq ι]
    (hlossless : ∀ x y, f x = f y → ∀ b, f { x with lossless := b } = f { y with lossless := b })
    (hinFlight : ∀ x y, f x = f y → ∀ n,
      f { x with maxFramesInFlight := n } = f { y with maxFramesInFlight := n })
    {e : Event ι} (he : ∀ max, e ≠ .setMaxFramesInQueue max) (h : s.AgreeIn f)
    (hs : s.step e = some s') : s'.AgreeIn f := by
  cases e with
  | setMaxFramesInQueue max => exact absurd rfl (he max)
  | incomingConnection i =>
    simp only [step, Option.ite_none_right_eq_some, Option.some.injEq] at hs
    obtain ⟨-, rfl⟩ := hs
    intro j t ht
    by_cases hj : j = i
    · subst hj
      have hnew : t = ⟨.new s.m_lossless s.m_maxFramesInQueue s.m_maxFramesInFlight, []⟩ := by
        simpa [incomingConnection] using ht.symm
      rw [hnew]
      rfl
    · refine h j t ?_
      simpa [incomingConnection, hj] using ht
  | setLossless lossless =>
    cases hs
    unfold setLossless
    rw [calls_losslessChanged]
    exact post_agreeIn (s := s) rfl (fun x hx => hlossless x s.settings hx lossless) h
  | setMaxFramesInFlight max =>
    cases hs
    unfold setMaxFramesInFlight
    split
    · rw [calls_maxFramesInFlightChanged]
      exact post_agreeIn (s := s) rfl (fun x hx => hinFlight x s.settings hx max.toNat) h
    · exact h
  | sendFrame frameNumber data =>
    cases hs
    exact post_agreeIn rfl (fun x hx => hx) h
  | thread i e =>
    have hpost : ∀ slot, e ≠ .post slot := by
      rintro slot rfl
      cases hs
    have hs : ((s.connections i).bind fun t => t.step e).map (fun t =>
        { s with connections := Function.update s.connections i (some t) }) = some s' := by
      cases e with
      | post slot => exact absurd rfl (hpost slot)
      | _ => exact hs
    obtain ⟨t', ht', rfl⟩ := Option.map_eq_some_iff.mp hs
    obtain ⟨t, ht, hstep⟩ := Option.bind_eq_some_iff.mp ht'
    intro j u hu
    by_cases hj : j = i
    · subst hj
      obtain rfl : t' = u := by simpa using hu
      rw [ConnectionThread.step_settled hpost hstep]
      exact h j t ht
    · refine h j u ?_
      simpa [hj] using hu
  | deleted i =>
    cases hi : s.connections i with
    | none => simp [step, hi] at hs
    | some t =>
      simp only [step, hi, Option.ite_none_right_eq_some, Option.some.injEq] at hs
      obtain ⟨-, rfl⟩ := hs
      intro j u hu
      by_cases hj : j = i
      · simp [hj] at hu
      · refine h j u ?_
        simpa [hj] using hu

theorem step_agree [DecidableEq ι] {e : Event ι} (hs : s.step e = some s') (h : s.Agree) :
    s'.Agree ↔ ¬ s.Misses e := by
  by_cases he : ∃ max, e = .setMaxFramesInQueue max
  · obtain ⟨max, rfl⟩ := he
    cases hs
    exact setMaxFramesInQueue_agree h max
  · have he' : ∀ max, e ≠ .setMaxFramesInQueue max := fun max hmax => he ⟨max, hmax⟩
    refine iff_of_true ?_ ?_
    · exact step_agreeIn (f := id) (fun x y hxy b => by rw [show x = y from hxy])
        (fun x y hxy n => by rw [show x = y from hxy]) he' h hs
    · rintro ⟨max, -, hmax, -⟩
      exact he' max hmax

/-- The other two settings. -/
theorem step_others [DecidableEq ι] {e : Event ι} (hs : s.step e = some s')
    (h : s.AgreeIn Settings.lossless ∧ s.AgreeIn Settings.maxFramesInFlight) :
    s'.AgreeIn Settings.lossless ∧ s'.AgreeIn Settings.maxFramesInFlight := by
  by_cases he : ∃ max, e = .setMaxFramesInQueue max
  · obtain ⟨max, rfl⟩ := he
    cases hs
    exact ⟨setMaxFramesInQueue_agreeIn (fun _ _ => rfl) h.1 max,
      setMaxFramesInQueue_agreeIn (fun _ _ => rfl) h.2 max⟩
  · have he' : ∀ max, e ≠ .setMaxFramesInQueue max := fun max hmax => he ⟨max, hmax⟩
    exact ⟨step_agreeIn (fun _ _ _ _ => rfl) (fun _ _ hxy _ => hxy) he' h.1 hs,
      step_agreeIn (fun _ _ hxy _ => hxy) (fun _ _ _ _ => rfl) he' h.2 hs⟩

end

/-- Once its posted calls have run, a live connection has the lossless flag and the limit of frames
in flight last set; all have all three settings throughout a run exactly when the limit of the queue
does not change while there is a connection. -/
theorem settings_iff [DecidableEq ι] (es : List (Event ι)) (s : Server ι)
    (hrun : run step (constructed : Server ι) es = some s) :
    (Always step Agree (constructed : Server ι) es ↔
      ¬ Occurs step Misses (constructed : Server ι) es) ∧
    ∀ i t, s.connections i = some t → t.posted = [] →
      t.connection.m_lossless = s.m_lossless ∧
      t.connection.m_maxFramesInFlight = s.m_maxFramesInFlight ∧
      (¬ Occurs step Misses (constructed : Server ι) es →
        t.connection.m_maxFramesInQueue = s.m_maxFramesInQueue) := by
  obtain ⟨hothers, hiff⟩ := always_iff (I := Agree)
    (J := fun s => s.AgreeIn Settings.lossless ∧ s.AgreeIn Settings.maxFramesInFlight)
    ⟨nofun, nofun⟩ (nofun) (fun t e t' hJ (_ : True) hs => ⟨step_others hs hJ, step_agree hs⟩)
    (fun _ _ => trivial) hrun
  refine ⟨hiff, fun i t ht hposted => ?_⟩
  have hsettled := ConnectionThread.settled_nil hposted
  have hlossless := hothers.1 i t ht
  have hinFlight := hothers.2 i t ht
  rw [hsettled] at hlossless hinFlight
  refine ⟨hlossless, hinFlight, fun hnot => ?_⟩
  have hagree := always_last (hiff.mpr hnot) hrun i t ht
  rw [hsettled] at hagree
  exact congrArg Settings.maxFramesInQueue hagree

/-- A client is told of the other limit. -/
theorem settings_iff_client :
    ∃ s, run step (constructed : Server Nat) [.incomingConnection 0, .thread 0 .start,
        .setMaxFramesInFlight 4, .thread 0 .slot] = some s ∧
      ∀ t, s.connections 0 = some t → t.posted = [] →
        t.connection.m_maxFramesInFlight = s.m_maxFramesInFlight :=
  ⟨_, rfl, fun t ht hposted => ((settings_iff (ι := Nat) [.incomingConnection 0, .thread 0 .start,
    .setMaxFramesInFlight 4, .thread 0 .slot] _ rfl).2 0 t ht hposted).2.1⟩

/-- It is not told of the limit of its queue. -/
theorem settings_missed :
    ∃ s t, run step (constructed : Server Nat) [.incomingConnection 0, .thread 0 .start,
        .setMaxFramesInQueue 5] = some s ∧ s.connections 0 = some t ∧ t.posted = [] ∧
      t.connection.m_maxFramesInQueue = 1 ∧ s.m_maxFramesInQueue = 5 :=
  ⟨_, _, rfl, rfl, rfl, rfl, rfl⟩

end Server
end ParleVision.Tcp
