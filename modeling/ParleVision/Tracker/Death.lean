import ParleVision.Tracker.Pipeline

namespace ParleVision.Tracker
open Lib

namespace BlobTrack

theorem fresh_new {id : UInt32} {blob : Blob} {track : BlobTrack} (h : new id blob = some track) :
    track.state = .BlobTrackBirth ∧ track.dieThreshold = 10 := by
  unfold new at h
  split at h
  · cases h
    exact ⟨rfl, rfl⟩
  · cases h

end BlobTrack

theorem BlobTracker.append_some {blobs : List Blob} (js : List (Fin blobs.length))
    {tracker tracker' : BlobTracker}
    (h : js.foldlM (fun tracker j => tracker.append (blobs.get j)) tracker = some tracker') :
    ∃ born, tracker'.m_blobTracks = tracker.m_blobTracks ++ born ∧
      List.Forall₂ (fun j track => ∃ id, BlobTrack.new id (blobs.get j) = some track) js born := by
  induction js generalizing tracker with
  | nil =>
    cases h
    exact ⟨[], by simp, .nil⟩
  | cons j js ih =>
    rw [List.foldlM_cons] at h
    obtain ⟨next, happend, hrest⟩ := Option.bind_eq_some_iff.mp h
    obtain ⟨born, htracks, hborn⟩ := ih hrest
    unfold append at happend
    cases hnew : BlobTrack.new (tracker.m_idCounter + 1) (blobs.get j) with
    | none =>
      rw [hnew] at happend
      cases happend
    | some track =>
      rw [hnew] at happend
      cases happend
      refine ⟨track :: born, ?_, .cons ⟨_, hnew⟩ hborn⟩
      rw [htracks, List.append_assoc]
      rfl

namespace TrackingPipeline

section
variable {blobs : List Blob} {tracks born : List BlobTrack} {missed : List Nat}
  {found : Fin tracks.length → Option (Fin blobs.length)} {P Q : BlobTrack → Nat → Prop}

/-- What holds of the tracks and their counts after a frame. -/
theorem forall₂_counted (serial : UInt32) (h : List.Forall₂ P tracks missed)
    (hborn : List.Forall₂ (fun j track => ∃ id, BlobTrack.new id (blobs.get j) = some track)
      (unmatched found) born)
    (hmatched : ∀ track count j, P track count → Q (track.addMeasurement (blobs.get j)) 0)
    (hmissed : ∀ i count, found i = none → P (tracks.get i) count →
      Q ((tracks.get i).notMatched serial) (count + 1))
    (hnew : ∀ id j track, BlobTrack.new id (blobs.get j) = some track → Q track 0) :
    List.Forall₂ Q (updated found serial ++ born) (counted found missed) := by
  refine List.rel_append ?_ ?_
  · rw [List.forall₂_iff_get]
    refine ⟨by rw [updated_length, List.length_ofFn], fun i hi _ => ?_⟩
    rw [updated_length] at hi
    have hcount : i < missed.length := by rw [← h.length_eq]; exact hi
    have hP := (List.forall₂_iff_get.mp h).2 i hi hcount
    unfold updated
    simp only [List.get_eq_getElem, List.getElem_ofFn]
    cases hfound : found ⟨i, hi⟩ with
    | some j => exact hmatched _ _ j hP
    | none =>
      rw [List.getD_eq_getElem?_getD, List.getElem?_eq_getElem hcount, Option.getD_some]
      exact hmissed ⟨i, hi⟩ _ hfound hP
  · rw [List.forall₂_iff_get]
    refine ⟨by rw [← hborn.length_eq, List.length_replicate], fun i hi _ => ?_⟩
    have hj : i < (unmatched found).length := by rw [hborn.length_eq]; exact hi
    obtain ⟨id, hid⟩ := (List.forall₂_iff_get.mp hborn).2 i hj hi
    simp only [List.get_eq_getElem, List.getElem_replicate] at hid ⊢
    exact hnew id _ _ hid

end

/-- The frame number of the last blob, with the frames without one after it, is below the serial
of the next frame. -/
def Behind (first : Nat) (track : BlobTrack) (count : Nat) : Prop :=
  track.getLastMeasurement.frameNr.toNat + count + 2 ≤ first

/-- The serials of the frames on their way are consecutive from this one, and the counter of the
detector is behind them. -/
structure Counted (first : Nat) (s : TrackingPipeline) : Prop where
  serials : s.detected.map (fun frame => frame.serial.toNat) ++
    s.produced.map (fun frame => frame.serial.toNat) =
      List.range' first (s.detected.length + s.produced.length)
  last : first + s.detected.length + s.produced.length = s.m_serial.toNat
  behind : ∀ frame ∈ s.detected, ∀ blobs, frame.blobs = some blobs →
    ∀ blob ∈ blobs, blob.frameNr.toNat + 1 ≤ frame.serial.toNat
  iterations : s.detector.m_iterations.toNat + s.produced.length + 1 ≤ s.m_serial.toNat
  tracks : List.Forall₂ (Behind first) s.tracker.m_blobTracks s.missed

/-- The serial of the next frame is not the last one. -/
def NoWrap (s : TrackingPipeline) : TrackingEvent → Prop
  | .produce _ _ => s.m_serial.toNat + 1 < 2 ^ 32
  | _ => True

namespace Counted
variable {first : Nat} {s s' : TrackingPipeline}

theorem constructed : Counted 1 .constructed where
  serials := rfl
  last := rfl
  behind := by simp [TrackingPipeline.constructed]
  iterations := Nat.le_refl _
  tracks := .nil

theorem produce (h : Counted first s) (hnowrap : s.m_serial.toNat + 1 < 2 ^ 32)
    (detectorImage trackerImage : Bool) : Counted first
      { s with
        m_serial := s.m_serial + 1
        produced := s.produced ++ [⟨s.m_serial, detectorImage, trackerImage⟩] } where
  serials := by
    have hlast := h.last
    rw [List.map_append, ← List.append_assoc, h.serials, List.length_append, List.length_singleton,
      ← Nat.add_assoc, List.range'_concat]
    simp only [List.map_cons, List.map_nil, List.append_cancel_left_eq, List.cons.injEq, and_true]
    omega
  last := by
    have hlast := h.last
    simp only [List.length_append, List.length_singleton, toNat_succ hnowrap]
    omega
  behind := h.behind
  iterations := by
    have hiterations := h.iterations
    simp only [List.length_append, List.length_singleton, toNat_succ hnowrap]
    omega
  tracks := h.tracks

/-- The frame that the detector takes is ahead of its counter. -/
theorem ahead (h : Counted first s) {frame : Produced} {produced : List Produced}
    (hproduced : s.produced = frame :: produced) :
    s.detector.m_iterations.toNat + 1 ≤ frame.serial.toNat := by
  have hserials := h.serials
  have hlast := h.last
  have hiterations := h.iterations
  rw [hproduced] at hserials hlast hiterations
  have hhead := congrArg (fun l => l[s.detected.length]?) hserials
  simp only [List.map_cons, List.length_cons, List.getElem?_append_right, List.length_map,
    Nat.le_refl, Nat.sub_self, List.getElem?_cons_zero] at hhead
  rw [List.getElem?_range' (by omega)] at hhead
  have hhead := Option.some.inj hhead
  simp only [List.length_cons] at hlast hiterations
  omega

/-- A frame passes the detector, which counts it or does not. -/
theorem passed (h : Counted first s) {frame : Produced} {produced : List Produced}
    (hproduced : s.produced = frame :: produced) {detector : BlobDetector}
    (hdetector : detector.m_iterations.toNat ≤ s.detector.m_iterations.toNat + 1) {d : Detected}
    (hserial : d.serial = frame.serial) (hblobs : ∀ blobs, d.blobs = some blobs →
      ∀ blob ∈ blobs, blob.frameNr.toNat + 1 ≤ frame.serial.toNat) :
    Counted first
      { s with produced := produced, detector := detector, detected := s.detected ++ [d] } := by
  have hserials := h.serials
  have hlast := h.last
  have hiterations := h.iterations
  rw [hproduced] at hserials hlast hiterations
  simp only [List.length_cons] at hserials hlast hiterations
  constructor
  case serials =>
    rw [List.map_append, List.length_append, List.length_singleton, Nat.add_assoc,
      Nat.add_comm 1, ← hserials]
    simp [hserial]
  case last =>
    simp only [List.length_append, List.length_singleton]
    omega
  case behind =>
    intro d' hd' blobs hd'blobs
    rcases List.mem_append.mp hd' with hd' | hd'
    · exact h.behind d' hd' blobs hd'blobs
    · rw [List.mem_singleton.mp hd'] at hd'blobs ⊢
      rw [hserial]
      exact hblobs blobs hd'blobs
  case iterations =>
    dsimp only
    omega
  case tracks => exact h.tracks

theorem detect (h : Counted first s) {contours : List Contour}
    (hstep : s.detect contours = some s') : Counted first s' := by
  unfold TrackingPipeline.detect at hstep
  cases hproduced : s.produced with
  | nil =>
    rw [hproduced] at hstep
    cases hstep
  | cons frame produced =>
    rw [hproduced] at hstep
    dsimp only at hstep
    split at hstep
    case isTrue =>
      cases hstep
      have hle : s.detector.process.m_iterations.toNat ≤ s.detector.m_iterations.toNat + 1 := by
        unfold BlobDetector.process
        rw [UInt32.toNat_add]
        exact Nat.mod_le _ _
      refine h.passed hproduced hle rfl fun blobs hblobs blob hblob => ?_
      cases hblobs
      obtain ⟨contour, -, rfl⟩ := List.mem_map.mp hblob
      exact h.ahead hproduced
    case isFalse =>
      cases hstep
      exact h.passed hproduced (Nat.le_succ _) rfl nofun

/-- The serial of the frame that the tracker takes. -/
theorem serial_eq (h : Counted first s) {frame : Detected} {detected : List Detected}
    (hdetected : s.detected = frame :: detected) : frame.serial.toNat = first := by
  have hserials := h.serials
  rw [hdetected, List.length_cons, Nat.add_right_comm, List.range'_succ] at hserials
  exact (List.cons.inj hserials).1

/-- The tracker takes a frame, after which its tracks are behind the next. -/
theorem taken (h : Counted first s) {frame : Detected} {detected : List Detected}
    (hdetected : s.detected = frame :: detected) {tracker : BlobTracker} {missed : List Nat}
    (htracks : List.Forall₂ (Behind (first + 1)) tracker.m_blobTracks missed) :
    Counted (first + 1)
      { s with detected := detected, tracker := tracker, missed := missed } where
  serials := by
    have hserials := h.serials
    rw [hdetected, List.length_cons, Nat.add_right_comm, List.range'_succ] at hserials
    exact (List.cons.inj hserials).2
  last := by
    have hlast := h.last
    rw [hdetected, List.length_cons] at hlast
    dsimp only
    omega
  behind d hd := h.behind d (by rw [hdetected]; exact List.mem_cons_of_mem _ hd)
  iterations := h.iterations
  tracks := htracks

end Counted

/-- What the tracker does with a frame: it drops it, or takes its blobs. -/
theorem track_cases {matchingArea : Blob → Blob → Int} {fuel : Nat} {s s' : TrackingPipeline}
    (h : s.track matchingArea fuel = some s') :
    ∃ frame detected, s.detected = frame :: detected ∧
      (((frame.trackerImage = true → frame.blobs = none) ∧ s' = { s with detected := detected }) ∨
        ∃ blobs found tracker born, frame.trackerImage = true ∧ frame.blobs = some blobs ∧
          chosen matchingArea blobs s.tracker.m_blobTracks fuel = some found ∧
          tracker.m_blobTracks = updated found frame.serial ++ born ∧
          List.Forall₂ (fun j track => ∃ id, BlobTrack.new id (blobs.get j) = some track)
            (unmatched found) born ∧
          s' = { s with
            detected := detected
            tracker := tracker
            missed := counted found s.missed }) := by
  unfold track at h
  cases hdetected : s.detected with
  | nil =>
    rw [hdetected] at h
    cases h
  | cons frame detected =>
    rw [hdetected] at h
    dsimp only at h
    refine ⟨frame, detected, rfl, ?_⟩
    cases himage : frame.trackerImage with
    | false =>
      rw [himage] at h
      cases h
      exact .inl ⟨nofun, rfl⟩
    | true =>
      cases hblobs : frame.blobs with
      | none =>
        rw [himage, hblobs] at h
        cases h
        exact .inl ⟨fun _ => rfl, rfl⟩
      | some blobs =>
        right
        rw [himage, hblobs] at h
        dsimp only at h
        split at h
        case h_1 found tracker hfound htracker =>
          cases h
          unfold BlobTracker.matchBlobs at htracker
          rw [hfound] at htracker
          obtain ⟨born, htracks, hborn⟩ := BlobTracker.append_some _ htracker
          exact ⟨blobs, found, tracker, born, rfl, rfl, hfound, htracks, hborn, rfl⟩
        case h_2 => cases h

theorem Counted.track {matchingArea : Blob → Blob → Int} {fuel first : Nat}
    {s s' : TrackingPipeline} (h : Counted first s) (hstep : s.track matchingArea fuel = some s') :
    Counted (first + 1) s' := by
  obtain ⟨frame, detected, hdetected, ⟨-, rfl⟩ | ⟨blobs, found, tracker, born, -, hblobs, -, htracks,
    hborn, rfl⟩⟩ := track_cases hstep
  · refine h.taken hdetected (h.tracks.imp fun track count hbehind => ?_)
    exact Nat.le_succ_of_le hbehind
  · refine h.taken hdetected ?_
    have hserial := h.serial_eq hdetected
    have hnumbered := h.behind frame (by rw [hdetected]; exact List.mem_cons_self) blobs hblobs
    rw [htracks]
    refine forall₂_counted frame.serial h.tracks hborn ?_ ?_ ?_
    · intro track count j _
      have hblob := hnumbered _ (blobs.get_mem j)
      unfold Behind
      rw [BlobTrack.getLastMeasurement_addMeasurement]
      omega
    · intro i count _ hbehind
      have hbehind : (s.tracker.m_blobTracks.get i).getLastMeasurement.frameNr.toNat + count + 2 ≤
          first := hbehind
      change (s.tracker.m_blobTracks.get i).getLastMeasurement.frameNr.toNat + (count + 1) + 2 ≤
        first + 1
      omega
    · intro id j track hnew
      have hblob := hnumbered _ (blobs.get_mem j)
      unfold Behind
      rw [(BlobTrack.getLastMeasurement_new hnew).1]
      omega

/-- What a step does, with what it leaves of the tracks. -/
theorem step_cases {matchingArea : Blob → Blob → Int} {s s' : TrackingPipeline}
    {event : TrackingEvent} (h : step matchingArea s event = some s') :
    (∃ fuel, event = .track fuel ∧ s.track matchingArea fuel = some s') ∨
      (event = .stop ∧ s' = { s with
        running := false
        produced := []
        detected := []
        tracker := s.tracker.stop
        missed := [] }) ∨
      ((∀ fuel, event ≠ .track fuel) ∧ s'.tracker = s.tracker ∧ s'.missed = s.missed ∧
        ∀ first, NoWrap s event → Counted first s → Counted first s') := by
  unfold step at h
  split at h
  case h_1 =>
    cases h
    exact .inr (.inr ⟨nofun, rfl, rfl, fun first _ h => ⟨h.serials, h.last, h.behind, h.iterations,
      h.tracks⟩⟩)
  case h_2 =>
    cases h
    exact .inr (.inl ⟨rfl, rfl⟩)
  case h_3 =>
    cases h
    refine .inr (.inr ⟨nofun, rfl, rfl, fun first _ h =>
      ⟨h.serials, h.last, h.behind, ?_, h.tracks⟩⟩)
    have hiterations := h.iterations
    change 0 + s.produced.length + 1 ≤ s.m_serial.toNat
    omega
  case h_4 detectorImage trackerImage _ =>
    cases h
    exact .inr (.inr ⟨nofun, rfl, rfl, fun first hnowrap h =>
      h.produce hnowrap detectorImage trackerImage⟩)
  case h_5 =>
    have hsame : s'.tracker = s.tracker ∧ s'.missed = s.missed := by
      unfold detect at h
      split at h
      case h_1 => cases h
      case h_2 =>
        split at h
        · cases h
          exact ⟨rfl, rfl⟩
        · cases h
          exact ⟨rfl, rfl⟩
    exact .inr (.inr ⟨nofun, hsame.1, hsame.2, fun first _ hcounted => hcounted.detect h⟩)
  case h_6 => exact .inl ⟨_, rfl, h⟩
  case h_7 => cases h

theorem Counted.step {matchingArea : Blob → Blob → Int} {first : Nat} {s s' : TrackingPipeline}
    {event : TrackingEvent} (h : Counted first s) (hnowrap : NoWrap s event)
    (hstep : step matchingArea s event = some s') : ∃ first', Counted first' s' := by
  rcases step_cases hstep with ⟨fuel, -, htrack⟩ | ⟨-, rfl⟩ | ⟨-, -, -, hkeeps⟩
  · exact ⟨first + 1, h.track htrack⟩
  · refine ⟨s.m_serial.toNat, rfl, rfl, nofun, ?_, .nil⟩
    have hiterations := h.iterations
    change s.detector.m_iterations.toNat + 0 + 1 ≤ s.m_serial.toNat
    omega
  · exact ⟨first, hkeeps first hnowrap h⟩

/-- A track that is not dead has been without a blob for less than its threshold. -/
def Alive (track : BlobTrack) (count : Nat) : Prop :=
  track.state ≠ .BlobTrackDead → count < track.dieThreshold.toNat

/-- The unsigned difference of the counters, where it does not wrap round. -/
theorem lag_le {first : Nat} {track : BlobTrack} {count : Nat} (h : Behind first track count)
    {serial : UInt32} (hserial : serial.toNat = first) :
    count + 2 ≤ (serial - track.getLastMeasurement.frameNr).toNat := by
  unfold Behind at h
  rw [UInt32.toNat_sub_of_le _ _ (UInt32.le_iff_toNat_le.mpr (by omega))]
  omega

theorem alive_step {matchingArea : Blob → Blob → Int} {first : Nat} {s s' : TrackingPipeline}
    {event : TrackingEvent} (hcounted : Counted first s)
    (halive : List.Forall₂ Alive s.tracker.m_blobTracks s.missed)
    (hstep : step matchingArea s event = some s') :
    List.Forall₂ Alive s'.tracker.m_blobTracks s'.missed := by
  rcases step_cases hstep with ⟨fuel, -, htrack⟩ | ⟨-, rfl⟩ | ⟨-, htracker, hmissed, -⟩
  · obtain ⟨frame, detected, hdetected, ⟨-, rfl⟩ | ⟨blobs, found, tracker, born, -, -, -, htracks,
      hborn, rfl⟩⟩ := track_cases htrack
    · exact halive
    · have hserial := hcounted.serial_eq hdetected
      have hboth : List.Forall₂ (fun track count => Behind first track count ∧ Alive track count)
          s.tracker.m_blobTracks s.missed :=
        List.forall₂_iff_get.mpr ⟨halive.length_eq, fun i hi hi' =>
          ⟨(List.forall₂_iff_get.mp hcounted.tracks).2 i hi hi',
            (List.forall₂_iff_get.mp halive).2 i hi hi'⟩⟩
      rw [htracks]
      refine forall₂_counted frame.serial hboth hborn ?_ ?_ ?_
      · intro track count j h hlive
        rw [ne_eq, BlobTrack.dead_addMeasurement] at hlive
        exact Nat.zero_lt_of_lt (h.2 hlive)
      · intro i count _ h hlive
        rw [ne_eq, BlobTrack.dead_notMatched, not_or] at hlive
        have hle := UInt32.le_iff_toNat_le.mp (UInt32.not_lt.mp hlive.1)
        have hlag := lag_le h.1 hserial
        change count + 1 < (s.tracker.m_blobTracks.get i).dieThreshold.toNat
        omega
      · intro id j track hnew _
        rw [(BlobTrack.fresh_new hnew).2]
        decide
  · exact .nil
  · rw [htracker, hmissed]
    exact halive

/-- A track that lived becomes dead exactly when it was without a blob for more frames than its
threshold. -/
def Timely (s s' : TrackingPipeline) : Prop :=
  ∀ (i : Nat) (track track' : BlobTrack) (count : Nat), s.tracker.m_blobTracks[i]? = some track →
    s'.tracker.m_blobTracks[i]? = some track' → s'.missed[i]? = some count →
    track.state ≠ .BlobTrackDead →
    (track'.state = .BlobTrackDead ↔ track.dieThreshold.toNat < count)

/-- No track that lives is left without a blob in a frame whose serial is more than its threshold
from the frame number of its last blob. -/
def Close (matchingArea : Blob → Blob → Int) (s : TrackingPipeline) : TrackingEvent → Prop
  | .track fuel => ∀ frame detected blobs found, s.detected = frame :: detected →
      frame.trackerImage = true → frame.blobs = some blobs →
      chosen matchingArea blobs s.tracker.m_blobTracks fuel = some found →
      ∀ i, found i = none → (s.tracker.m_blobTracks.get i).state ≠ .BlobTrackDead →
        frame.serial - (s.tracker.m_blobTracks.get i).getLastMeasurement.frameNr ≤
          (s.tracker.m_blobTracks.get i).dieThreshold
  | _ => True

section
variable {blobs : List Blob} {tracks : List BlobTrack}
  (found : Fin tracks.length → Option (Fin blobs.length))

theorem updated_append (born : List BlobTrack) (serial : UInt32) (i : Fin tracks.length) :
    (updated found serial ++ born)[i.val]? = some
      (match found i with
      | some j => (tracks.get i).addMeasurement (blobs.get j)
      | none => (tracks.get i).notMatched serial) := by
  rw [List.getElem?_append_left (by rw [updated_length]; exact i.isLt)]
  unfold updated
  rw [List.getElem?_ofFn]
  exact dif_pos i.isLt

theorem getElem_counted (missed : List Nat) (i : Fin tracks.length) :
    (counted found missed)[i.val]? =
      some (if (found i).isSome then 0 else missed.getD i.val 0 + 1) := by
  unfold counted
  rw [List.getElem?_append_left (by rw [List.length_ofFn]; exact i.isLt), List.getElem?_ofFn]
  exact dif_pos i.isLt

end

/-- In a frame that the tracker takes, a death in time is none. -/
theorem timely_track {first : Nat} {s : TrackingPipeline} (hcounted : Counted first s)
    (halive : List.Forall₂ Alive s.tracker.m_blobTracks s.missed) {frame : Detected}
    {detected : List Detected} (hdetected : s.detected = frame :: detected) {blobs : List Blob}
    {found : Fin s.tracker.m_blobTracks.length → Option (Fin blobs.length)} {tracker : BlobTracker}
    {born : List BlobTrack} (htracks : tracker.m_blobTracks = updated found frame.serial ++ born) :
    Timely s { s with detected := detected, tracker := tracker, missed := counted found s.missed } ↔
      ∀ i, found i = none → (s.tracker.m_blobTracks.get i).state ≠ .BlobTrackDead →
        frame.serial - (s.tracker.m_blobTracks.get i).getLastMeasurement.frameNr ≤
          (s.tracker.m_blobTracks.get i).dieThreshold := by
  have hserial := hcounted.serial_eq hdetected
  have hmissed (i : Fin s.tracker.m_blobTracks.length) :
      ∃ count, s.missed.getD i.val 0 = count ∧
        Behind first (s.tracker.m_blobTracks.get i) count ∧
        Alive (s.tracker.m_blobTracks.get i) count := by
    have hi : i.val < s.missed.length := by rw [← halive.length_eq]; exact i.isLt
    refine ⟨s.missed[i.val], ?_, (List.forall₂_iff_get.mp hcounted.tracks).2 i.val i.isLt hi,
      (List.forall₂_iff_get.mp halive).2 i.val i.isLt hi⟩
    rw [List.getD_eq_getElem?_getD, List.getElem?_eq_getElem hi, Option.getD_some]
  constructor
  · intro htimely i hfound hlive
    obtain ⟨count, hcount, -, hlow⟩ := hmissed i
    have htrack' := updated_append found born frame.serial i
    have hcount' := getElem_counted found s.missed i
    rw [hfound] at htrack' hcount'
    rw [← htracks] at htrack'
    have hiff := htimely i.val _ _ _ (List.getElem?_eq_getElem i.isLt) htrack' hcount' hlive
    rw [hcount] at hiff
    refine UInt32.not_lt.mp fun hlt => ?_
    have hlate := hiff.mp ((BlobTrack.dead_notMatched _ _).mpr (.inl hlt))
    have hlow := hlow hlive
    change (s.tracker.m_blobTracks.get i).dieThreshold.toNat < count + 1 at hlate
    omega
  · intro hclose k track track' count htrack htrack' hcount' hlive
    obtain ⟨hk, rfl⟩ := List.getElem?_eq_some_iff.mp htrack
    have hnext := updated_append found born frame.serial ⟨k, hk⟩
    have hnext' := getElem_counted found s.missed ⟨k, hk⟩
    rw [← htracks] at hnext
    cases hnext.symm.trans htrack'
    cases hnext'.symm.trans hcount'
    cases hfound : found ⟨k, hk⟩ with
    | some j =>
      exact iff_of_false (fun hdead => hlive ((BlobTrack.dead_addMeasurement _ _).mp hdead))
        (Nat.not_lt_zero _)
    | none =>
      obtain ⟨count, hcount, hbehind, -⟩ := hmissed ⟨k, hk⟩
      have hle := hclose ⟨k, hk⟩ hfound hlive
      have hlag := lag_le hbehind hserial
      have hle' := UInt32.le_iff_toNat_le.mp hle
      refine iff_of_false ?_ ?_
      · rw [BlobTrack.dead_notMatched]
        exact fun hdead => hdead.elim (UInt32.not_lt.mpr hle) hlive
      · rw [hcount]
        change ¬ (s.tracker.m_blobTracks.get ⟨k, hk⟩).dieThreshold.toNat < count + 1
        omega

/-- The counters drift apart: in a pipeline that has not run out of serials, deaths are in time
exactly as long as no track that lives is left without a blob too far from its last. -/
theorem timely_iff {matchingArea : Blob → Blob → Int} {s s' : TrackingPipeline}
    {event : TrackingEvent} (h : Reaches (step matchingArea) NoWrap constructed s)
    (hstep : step matchingArea s event = some s') :
    Timely s s' ↔ Close matchingArea s event := by
  obtain ⟨⟨first, hcounted⟩, halive⟩ : (∃ first, Counted first s) ∧
      List.Forall₂ Alive s.tracker.m_blobTracks s.missed := by
    refine h.invariant (I := fun s => (∃ first, Counted first s) ∧
      List.Forall₂ Alive s.tracker.m_blobTracks s.missed) ⟨⟨1, .constructed⟩, .nil⟩ ?_
    rintro s event s' ⟨⟨first, hcounted⟩, halive⟩ hnowrap hstep
    exact ⟨hcounted.step hnowrap hstep, alive_step hcounted halive hstep⟩
  have hsame (htracker : s'.tracker = s.tracker) (hmissed : s'.missed = s.missed) :
      Timely s s' := by
    intro i track track' count htrack htrack' hcount hlive
    rw [htracker, htrack] at htrack'
    cases htrack'
    rw [hmissed] at hcount
    obtain ⟨hi, rfl⟩ := List.getElem?_eq_some_iff.mp htrack
    obtain ⟨hi', rfl⟩ := List.getElem?_eq_some_iff.mp hcount
    have hlow := (List.forall₂_iff_get.mp halive).2 i hi hi' hlive
    refine iff_of_false hlive ?_
    exact Nat.not_lt.mpr hlow.le
  rcases step_cases hstep with ⟨fuel, rfl, htrack⟩ | ⟨rfl, rfl⟩ | ⟨hevent, htracker, hmissed, -⟩
  · obtain ⟨frame, detected, hdetected, ⟨hnull, rfl⟩ | ⟨blobs, found, tracker, born, himage, hblobs,
      hfound, htracks, -, rfl⟩⟩ := track_cases htrack
    · refine iff_of_true (hsame rfl rfl) ?_
      intro frame' detected' blobs found hdetected' himage hblobs
      cases hdetected.symm.trans hdetected'
      rw [hnull himage] at hblobs
      cases hblobs
    · rw [timely_track hcounted halive hdetected htracks]
      constructor
      · intro hclose frame' detected' blobs' found' hdetected' _ hblobs' hfound'
        cases hdetected.symm.trans hdetected'
        cases hblobs.symm.trans hblobs'
        cases hfound.symm.trans hfound'
        exact hclose
      · intro hclose
        exact hclose frame detected blobs found hdetected himage hblobs hfound
  · refine iff_of_true ?_ trivial
    intro i track track' count _ htrack'
    cases htrack'
  · refine iff_of_true (hsame htracker hmissed) ?_
    cases event with
    | track fuel => exact absurd rfl (hevent fuel)
    | _ => trivial

instance (s : TrackingPipeline) (event : TrackingEvent) : Decidable (NoWrap s event) :=
  match event with
  | .produce _ _ => inferInstanceAs (Decidable (_ < _))
  | .start | .stop | .addDetector | .detect _ | .track _ => instDecidableTrue

def seen : List TrackingEvent :=
  [.produce true true, .detect [⟨{ x := 0, y := 0, width := 4, height := 4 }, (2, 2)⟩], .track 10]

theorem timely_iff_seen :
    ∃ s s', Reaches (step Blob.matchingArea) NoWrap constructed s ∧
      step Blob.matchingArea s (.track 10) = some s' ∧
      (Timely s s' ↔ Close Blob.matchingArea s (.track 10)) := by
  have hsome : ((run (guarded (step Blob.matchingArea) NoWrap) constructed
      (.start :: seen ++ [.produce true true, .detect []])).bind fun s =>
        step Blob.matchingArea s (.track 10)).isSome = true := by
    decide +kernel
  obtain ⟨s', hs'⟩ := Option.isSome_iff_exists.mp hsome
  obtain ⟨s, hrun, hstep⟩ := Option.bind_eq_some_iff.mp hs'
  exact ⟨s, s', .of_guarded_run hrun, hstep, timely_iff (.of_guarded_run hrun) hstep⟩

/-- Nine frames are NULL, and in the one after them no blob is found. -/
theorem dies_after_nulls :
    ∃ s s', Reaches (step Blob.matchingArea) NoWrap constructed s ∧
      step Blob.matchingArea s (.track 10) = some s' ∧ ¬ Timely s s' := by
  have hview : ((run (guarded (step Blob.matchingArea) NoWrap) constructed
      (.start :: seen ++
        (List.replicate 9 [.produce false false, .detect [], .track 10]).flatten ++
        [.produce true true, .detect []])).bind fun s =>
          (step Blob.matchingArea s (.track 10)).bind fun s' =>
            (s.tracker.m_blobTracks[0]?).bind fun track =>
              (s'.tracker.m_blobTracks[0]?).bind fun track' =>
                (s'.missed[0]?).map fun count =>
                  (track.state, track.dieThreshold, track'.state, count)) =
      some (.BlobTrackBirth, 10, .BlobTrackDead, 1) := by
    decide +kernel
  obtain ⟨s, hrun, hview⟩ := Option.bind_eq_some_iff.mp hview
  obtain ⟨s', hstep, hview⟩ := Option.bind_eq_some_iff.mp hview
  obtain ⟨track, htrack, hview⟩ := Option.bind_eq_some_iff.mp hview
  obtain ⟨track', htrack', hview⟩ := Option.bind_eq_some_iff.mp hview
  obtain ⟨count, hcount, hview⟩ := Option.map_eq_some_iff.mp hview
  simp only [Prod.mk.injEq] at hview
  refine ⟨s, s', .of_guarded_run hrun, hstep, fun htimely => ?_⟩
  have hlive : track.state ≠ .BlobTrackDead := by
    rw [hview.1]
    exact nofun
  have hlate := (htimely 0 track track' count htrack htrack' hcount hlive).mp hview.2.2.1
  rw [hview.2.1, hview.2.2.2] at hlate
  exact absurd hlate (by decide)

end TrackingPipeline

end ParleVision.Tracker
