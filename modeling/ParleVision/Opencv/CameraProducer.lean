import ParleVision.Runtime.Source
import ParleVision.Runtime.Monotone

namespace ParleVision.Opencv
open ParleVision.Lib ParleVision.Runtime

namespace CameraProducer
variable {F : Type}

def m_maxBufferSize : Nat := 3

/-- The slot. It makes room by dropping the oldest frame. -/
def newFrame (m_frames : List F) (frame : F) : List F :=
  let m_frames := m_frames ++ [frame]
  if m_frames.length > m_maxBufferSize then m_frames.tail else m_frames

/-- `takeFirst` asserts that there is one. -/
def produce : List F → Option (F × List F)
  | [] => none
  | frame :: m_frames => some (frame, m_frames)

def readyToProduce (m_frames : List F) : Bool := !m_frames.isEmpty

def source (F : Type) : Source (List F) F F where
  readyToProduce := readyToProduce
  arrives := newFrame
  produce := produce

/-- All frames but the newest ones are left out. -/
theorem newFrame_eq (m_frames : List F) (frame : F) :
    ∃ dropped, m_frames ++ [frame] = dropped ++ newFrame m_frames frame ∧ dropped.length ≤ 1 ∧
      (newFrame m_frames frame).length ≤ max m_maxBufferSize m_frames.length ∧
      newFrame m_frames frame ≠ [] := by
  unfold newFrame
  dsimp only
  split
  case isTrue hlong =>
    cases m_frames with
    | nil => simp [m_maxBufferSize] at hlong
    | cons first rest =>
      refine ⟨[first], rfl, Nat.le_refl _, ?_, by simp⟩
      simp
  case isFalse hshort =>
    exact ⟨[], rfl, Nat.zero_le _, Nat.le_trans (by omega) (Nat.le_max_left ..), by simp⟩

theorem lawful : (source F).Lawful fun _ => True where
  stays m_frames frame _ := by
    obtain ⟨-, -, -, -, hne⟩ := newFrame_eq m_frames frame
    simpa [source, readyToProduce] using hne
  produces m_frames hready := by
    cases m_frames with
    | nil => cases hready
    | cons frame m_frames => exact ⟨frame, m_frames, rfl, trivial⟩

/-- What the producer has put and still holds, of all the frames in the order they came in. -/
structure Buffered (captured m_frames produced : List F) : Prop where
  once : (produced ++ m_frames).Sublist captured
  newest : m_frames <:+ captured
  bounded : m_frames.length ≤ m_maxBufferSize

theorem Buffered.newFrame {captured m_frames produced : List F}
    (h : Buffered captured m_frames produced) (frame : F) :
    Buffered (captured ++ [frame]) (newFrame m_frames frame) produced := by
  obtain ⟨dropped, hkept, -, hlength, -⟩ := newFrame_eq m_frames frame
  obtain ⟨before, hbefore⟩ := h.newest
  constructor
  case once =>
    have hall : (produced ++ (m_frames ++ [frame])).Sublist (captured ++ [frame]) := by
      rw [← List.append_assoc]
      exact h.once.append (List.Sublist.refl _)
    refine .trans ?_ hall
    rw [hkept]
    exact (List.Sublist.refl _).append (List.sublist_append_right ..)
  case newest => exact ⟨before ++ dropped, by rw [List.append_assoc, ← hkept, ← hbefore,
    List.append_assoc]⟩
  case bounded => exact Nat.le_trans hlength (Nat.max_le.mpr ⟨Nat.le_refl _, h.bounded⟩)

theorem Buffered.produce {captured m_frames produced m_frames' : List F} {frame : F}
    (h : Buffered captured m_frames produced)
    (hs : produce m_frames = some (frame, m_frames')) :
    Buffered captured m_frames' (produced ++ [frame]) := by
  cases m_frames with
  | nil => cases hs
  | cons first rest =>
    cases hs
    constructor
    case once =>
      rw [List.append_assoc]
      exact h.once
    case newest => exact (List.suffix_cons _ _).trans h.newest
    case bounded => exact Nat.le_trans (Nat.le_succ _) h.bounded

section
variable {E P C : Type} [DecidableEq E] [DecidableEq P] [DecidableEq C] {net : Network E P C}

/-- Whatever the order in which the frames of the camera and the steps of the pipeline come:
`produce` never takes from an empty list, each frame is put at most once and after those that were
captured before it, and it is among the last three. Frames that an earlier session left come
first. -/
theorem camera_frames {camera : E} {first : Nat} {stale : E → Nat → Nat} {left : List F}
    {t : SourcedState E P C (List F) F F} (hcamera : net.isProducer camera = true)
    (hleft : left.length ≤ m_maxBufferSize)
    (h : Reaches (SourcedState.step camera (source F) net) (fun _ _ => True)
      (.started first stale left) t) :
    Buffered (left ++ t.arrived) t.source t.produced ∧
      ∀ got, t.worker camera = .processing ⟨[], got⟩ → ∃ frame m_frames,
        produce t.source = some (frame, m_frames) ∧
        ∃ older newer, left ++ t.arrived = older ++ frame :: newer ∧
          newer.length < m_maxBufferSize := by
  have hstart : Buffered (left ++ []) left ([] : List F) := by
    rw [List.append_nil]
    exact ⟨List.Sublist.refl _, List.suffix_rfl, hleft⟩
  have harrives (m_frames : List F) (frame : F) (captured produced : List F)
      (hb : Buffered (left ++ captured) m_frames produced) :
      Buffered (left ++ (captured ++ [frame])) (newFrame m_frames frame) produced := by
    rw [← List.append_assoc]
    exact hb.newFrame frame
  obtain ⟨hbuffered, -, hnext⟩ := SourcedState.invariant
    (J := fun m_frames captured produced => Buffered (left ++ captured) m_frames produced)
    lawful hcamera hstart harrives (fun _ _ _ _ _ hb hs => hb.produce hs) h
  refine ⟨hbuffered, fun got hw => ?_⟩
  obtain ⟨frame, m_frames, hproduce, -⟩ := hnext got hw
  refine ⟨frame, m_frames, hproduce, ?_⟩
  obtain ⟨older, holder⟩ := hbuffered.newest
  have hbounded := hbuffered.bounded
  cases hs : t.source with
  | nil =>
    rw [hs] at hproduce
    cases hproduce
  | cons frame' rest =>
    rw [hs] at hproduce holder hbounded
    cases hproduce
    exact ⟨older, m_frames, holder.symm, hbounded⟩

end

/-- Of four frames the first is dropped and the second put. -/
theorem camera_frames_chain : ∃ t : SourcedState (Fin 3) (Fin 2) (Fin 2) (List Nat) Nat Nat,
    t.produced = [11] ∧ t.source = [12, 13] ∧ Buffered ([] ++ t.arrived) t.source t.produced ∧
      ∀ got, t.worker 0 = .processing ⟨[], got⟩ → ∃ frame m_frames,
        produce t.source = some (frame, m_frames) ∧
        ∃ older newer, [] ++ t.arrived = older ++ frame :: newer ∧
          newer.length < m_maxBufferSize := by
  have hend : (run (SourcedState.step 0 (source Nat) (chain true)) (.started 1 (fun _ _ => 0) [])
      ([.arrives 10, .arrives 11, .arrives 12, .arrives 13] ++
        (chainFrame.take 16).map SourcedEvent.pipeline)).map
        (fun t => (t.produced, t.source)) = some ([11], [12, 13]) := by decide +kernel
  obtain ⟨t, ht, hstate⟩ := Option.map_eq_some_iff.mp hend
  obtain ⟨hproduced, hsource⟩ := Prod.mk.inj hstate
  exact ⟨t, hproduced, hsource,
    camera_frames (by decide) (by decide) (.of_run (fun _ _ _ => trivial) ht)⟩

end CameraProducer

end ParleVision.Opencv
