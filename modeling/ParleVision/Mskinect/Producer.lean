import ParleVision.Runtime.Source
import ParleVision.Runtime.Monotone

namespace ParleVision.Mskinect
open ParleVision.Lib ParleVision.Runtime

/-- Which of the three lists of the producer, and which of its output pins. -/
inductive Stream where
  | depth
  | video
  | skeleton
deriving DecidableEq

/-- `m_depthFrames`, `m_videoFrames` and `m_skeletonFrames`, with none for what is not valid. -/
def Frames (n : Nat) (F : Type) : Type := Fin n → Stream → Option F

/-- A frame of a device. What the devices send is valid. -/
structure Arrival (n : Nat) (F : Type) where
  deviceIndex : Fin n
  stream : Stream
  frame : F

namespace MSKinectProducer
variable {n : Nat} {F : Type}

/-- What the three slots do. -/
def newFrame (frames : Frames n F) (a : Arrival n F) : Frames n F :=
  fun i stream => if i = a.deviceIndex ∧ stream = a.stream then some a.frame else frames i stream

def newDepthFrame (frames : Frames n F) (deviceIndex : Fin n) (depth : F) : Frames n F :=
  newFrame frames ⟨deviceIndex, .depth, depth⟩

def newVideoFrame (frames : Frames n F) (deviceIndex : Fin n) (video : F) : Frames n F :=
  newFrame frames ⟨deviceIndex, .video, video⟩

def newSkeletonFrame (frames : Frames n F) (deviceIndex : Fin n) (frame : F) : Frames n F :=
  newFrame frames ⟨deviceIndex, .skeleton, frame⟩

def readyToProduce (frames : Frames n F) : Bool :=
  (List.finRange n).all fun i => (frames i .depth).isSome && (frames i .video).isSome

/-- Depth and video are put as they are, and skeletons where they are valid; then the lists have
invalid frames. -/
def produce (frames : Frames n F) : Frames n F × Frames n F := (frames, fun _ _ => none)

def source (n : Nat) (F : Type) : Source (Frames n F) (Arrival n F) (Frames n F) where
  readyToProduce := readyToProduce
  arrives := newFrame
  produce frames := some (produce frames)

/-- No invalid frame is put on the pins for depth and video. -/
def Valid (put : Frames n F) : Prop :=
  ∀ i, (put i .depth).isSome = true ∧ (put i .video).isSome = true

theorem readyToProduce_iff (frames : Frames n F) :
    readyToProduce frames = true ↔ Valid frames := by
  simp [readyToProduce, Valid]

theorem lawful : (source n F).Lawful Valid where
  stays frames a hready := by
    refine (readyToProduce_iff _).mpr fun i => ?_
    have hold := (readyToProduce_iff _).mp hready i
    change (newFrame frames a i .depth).isSome = true ∧ (newFrame frames a i .video).isSome = true
    unfold newFrame
    constructor
    · split
      · rfl
      · exact hold.1
    · split
      · rfl
      · exact hold.2
  produces frames hready := ⟨_, _, rfl, (readyToProduce_iff _).mp hready⟩

def captured (arrived : List (Arrival n F)) (i : Fin n) (stream : Stream) : List F :=
  arrived.filterMap fun a =>
    if i = a.deviceIndex ∧ stream = a.stream then some a.frame else none

def put (produced : List (Frames n F)) (i : Fin n) (stream : Stream) : List F :=
  produced.filterMap fun frames => frames i stream

/-- Of each stream every frame is put at most once and in the order they came, and it is the last
one that waits. Those of an earlier session come first. -/
structure Latest (left : Frames n F) (arrived : List (Arrival n F)) (frames : Frames n F)
    (produced : List (Frames n F)) : Prop where
  once : ∀ i stream, (put produced i stream ++ (frames i stream).toList).Sublist
    ((left i stream).toList ++ captured arrived i stream)
  last : ∀ i stream, (frames i stream).toList <:+
    (left i stream).toList ++ captured arrived i stream

theorem Latest.newFrame {left : Frames n F} {arrived : List (Arrival n F)} {frames : Frames n F}
    {produced : List (Frames n F)} (h : Latest left arrived frames produced) (a : Arrival n F) :
    Latest left (arrived ++ [a]) (newFrame frames a) produced := by
  have hcaptured (i : Fin n) (stream : Stream) : captured (arrived ++ [a]) i stream =
      captured arrived i stream ++
        (if i = a.deviceIndex ∧ stream = a.stream then some a.frame else none).toList := by
    rw [captured, List.filterMap_append, captured, List.filterMap_cons, List.filterMap_nil]
    by_cases hi : i = a.deviceIndex ∧ stream = a.stream
    · simp only [if_pos hi, Option.toList_some]
    · simp only [if_neg hi, Option.toList_none]
  constructor
  case once =>
    intro i stream
    rw [hcaptured, ← List.append_assoc]
    unfold MSKinectProducer.newFrame
    split
    · -- the frame that waited is lost
      refine .append ?_ (List.Sublist.refl _)
      exact (List.sublist_append_left ..).trans (h.once i stream)
    · rw [Option.toList_none, List.append_nil]
      exact h.once i stream
  case last =>
    intro i stream
    rw [hcaptured, ← List.append_assoc]
    unfold MSKinectProducer.newFrame
    split
    · exact List.suffix_append ..
    · rw [Option.toList_none, List.append_nil]
      exact h.last i stream

theorem Latest.produce {left : Frames n F} {arrived : List (Arrival n F)} {frames : Frames n F}
    {produced : List (Frames n F)} (h : Latest left arrived frames produced) :
    Latest left arrived (fun _ _ => none) (produced ++ [frames]) where
  once i stream := by
    rw [put, List.filterMap_append, Option.toList_none, List.append_nil]
    have hone : [frames].filterMap (fun frames => frames i stream) = (frames i stream).toList := by
      cases hf : frames i stream <;> simp [hf]
    rw [hone]
    exact h.once i stream
  last i stream := List.nil_suffix

section
variable {E P C : Type} [DecidableEq E] [DecidableEq P] [DecidableEq C] {net : Network E P C}

/-- Whatever the order in which the frames of the devices and the steps of the pipeline come: for
every device a valid depth and video frame is put in each run, no frame is put twice, and what is
put next is the latest of each stream that was not put yet. -/
theorem kinect_frames {kinect : E} {first : Nat} {stale : E → Nat → Nat} {left : Frames n F}
    {t : SourcedState E P C (Frames n F) (Arrival n F) (Frames n F)}
    (hkinect : net.isProducer kinect = true)
    (h : Reaches (SourcedState.step kinect (source n F) net) (fun _ _ => True)
      (.started first stale left) t) :
    Latest left t.arrived t.source t.produced ∧ (∀ frames ∈ t.produced, Valid frames) ∧
      ∀ got, t.worker kinect = .processing ⟨[], got⟩ → Valid t.source := by
  have hstart : Latest left [] left [] := by
    constructor
    · intro i stream
      simp [captured, put]
    · intro i stream
      simp [captured]
  obtain ⟨hlatest, hvalid, hnext⟩ := SourcedState.invariant
    (J := fun frames arrived produced => Latest left arrived frames produced) lawful hkinect hstart
    (fun _ a _ _ hl => hl.newFrame a) (fun _ _ _ _ _ hl hs => by cases hs; exact hl.produce) h
  refine ⟨hlatest, hvalid, fun got hw => ?_⟩
  obtain ⟨frames, rest, hproduce, hv⟩ := hnext got hw
  cases hproduce
  exact hv

end

/-- The depth frame that came again before the first video frame is the one that is put. -/
theorem kinect_frames_chain :
    ∃ t : SourcedState (Fin 3) (Fin 2) (Fin 2) (Frames 1 Nat) (Arrival 1 Nat) (Frames 1 Nat),
      put t.produced 0 .depth = [11] ∧ put t.produced 0 .video = [20] ∧
      Latest (fun _ _ => none) t.arrived t.source t.produced ∧
      (∀ frames ∈ t.produced, Valid frames) ∧
      ∀ got, t.worker 0 = .processing ⟨[], got⟩ → Valid t.source := by
  have hend : (run (SourcedState.step 0 (source 1 Nat) (chain true))
      (.started 1 (fun _ _ => 0) fun _ _ => none)
      ([.arrives ⟨0, .depth, 10⟩, .arrives ⟨0, .depth, 11⟩, .arrives ⟨0, .video, 20⟩] ++
        (chainFrame.take 16).map SourcedEvent.pipeline)).map
        (fun t => (put t.produced 0 .depth, put t.produced 0 .video)) = some ([11], [20]) := by
    decide +kernel
  obtain ⟨t, ht, hstate⟩ := Option.map_eq_some_iff.mp hend
  obtain ⟨hdepth, hvideo⟩ := Prod.mk.inj hstate
  exact ⟨t, hdepth, hvideo, kinect_frames (by decide) (.of_run (fun _ _ _ => trivial) ht)⟩

end MSKinectProducer

end ParleVision.Mskinect
