import ParleVision.Lib.Run
import ParleVision.Tracker.Track
import Mathlib.Data.List.DropRight

namespace ParleVision.Tracker
open Lib

theorem rtake_all {α : Type} {l : List α} {n : Nat} (h : l.length ≤ n) : l.rtake n = l := by
  rw [List.rtake, Nat.sub_eq_zero_of_le h, List.drop_zero]

theorem length_rtake {α : Type} (l : List α) (n : Nat) : (l.rtake n).length = min n l.length := by
  rw [List.rtake, List.length_drop]
  omega

/-- One more comes in, and the oldest goes. -/
theorem tail_rtake_append {α : Type} {l : List α} {n : Nat} (h : n ≤ l.length) (a : α) :
    (l.rtake n ++ [a]).tail = (l ++ [a]).rtake n := by
  have hdrop : l.rtake n ++ [a] = (l ++ [a]).drop (l.length - n) := by
    rw [List.rtake, List.drop_append_of_le_length (by omega)]
  rw [hdrop, List.tail_drop, List.rtake, List.length_append, List.length_singleton]
  congr 1
  omega

namespace BlobTrack

theorem bounded_full {α : Type} {size n : Nat} {l : List α} (hsize : size ≤ n)
    (hlen : n ≤ l.length) (a : α) : bounded size (l.rtake n ++ [a]) = (l ++ [a]).rtake n := by
  have hlength : (l.rtake n ++ [a]).length = n + 1 := by
    rw [List.length_append, length_rtake, List.length_singleton]
    omega
  rw [bounded, if_pos (by omega)]
  exact tail_rtake_append hlen a

theorem bounded_short {α : Type} {size : Nat} {l : List α} (hlen : l.length < size) (a : α) :
    bounded size (l.rtake size ++ [a]) = (l ++ [a]).rtake size := by
  have hlength : (l ++ [a]).length = l.length + 1 := List.length_append
  rw [rtake_all hlen.le, rtake_all (by omega), bounded, if_neg (by omega)]

/-- A bounded list has the last of what was put into it. -/
theorem bounded_rtake {α : Type} (size : Nat) (l : List α) (a : α) :
    bounded size (l.rtake size ++ [a]) = (l ++ [a]).rtake size := by
  rcases Nat.lt_or_ge l.length size with hlen | hlen
  · exact bounded_short hlen a
  · exact bounded_full (le_refl size) hlen a

end BlobTrack

structure BlobTrackData extends BlobTrack where
  birthWindow : UInt32
deriving DecidableEq, Repr

namespace BlobTrackData

/-- The constructor of BlobTrack; nothing when the assertion in that of the data fails. -/
def new (id : UInt32) (blob : Blob) (birthThreshold birthWindow dieThreshold : UInt32)
    (historySize trackSize : Nat) : Option BlobTrackData :=
  if blob.valid then
    some
      { id, birthThreshold, birthWindow, dieThreshold, historySize, trackSize
        age := 0
        state := .BlobTrackBirth
        -- once in the constructor of the data and once in that of the track
        history := [blob, blob]
        track := []
        history_ne := BlobTrack.history_pair blob }
  else none

/-- The value of `count` behind the loop over the birth window, whose body is empty. -/
def count (track : BlobTrackData) (history : List Blob) : Nat :=
  let start := ((history.length : Int) - track.birthWindow.toNat).bmod (2 ^ 32)
  let start := if start > 0 then start.toNat else 0
  (List.range' start (history.length - start)).foldl (fun count _ => count) 0

def addMeasurement (blob : Blob) (track : BlobTrackData) : BlobTrackData :=
  let history := BlobTrack.bounded track.historySize (track.history ++ [blob])
  { track with
    age := track.age + 1
    history
    track := BlobTrack.bounded track.trackSize (track.track ++ [blob.cog])
    state :=
      if track.state = .BlobTrackBirth ∧ track.count history ≥ track.birthThreshold.toNat then
        .BlobTrackNormal
      else track.state
    history_ne := BlobTrack.bounded_append_ne _ track.history_ne blob }

def notMatched (frameNumber : UInt32) (track : BlobTrackData) : BlobTrackData :=
  { track with toBlobTrack := track.toBlobTrack.notMatched frameNumber }

/-- The tracker uses the defaults. -/
theorem new_defaults (id : UInt32) (blob : Blob) :
    (new id blob 3 10 10 10 (2 ^ 31 - 1)).map toBlobTrack = BlobTrack.new id blob := by
  unfold new BlobTrack.new
  split <;> rfl

theorem count_eq_zero (track : BlobTrackData) (history : List Blob) : track.count history = 0 := by
  unfold count
  rw [List.foldl_fixed]

/-- The window plays no part. -/
theorem addMeasurement_toBlobTrack (blob : Blob) (track : BlobTrackData) :
    (track.addMeasurement blob).toBlobTrack = track.toBlobTrack.addMeasurement blob := by
  have hthreshold : 0 ≥ track.birthThreshold.toNat ↔ 0 ≥ track.birthThreshold := by
    rw [ge_iff_le, ge_iff_le, UInt32.le_iff_toNat_le]
    rfl
  unfold addMeasurement BlobTrack.addMeasurement
  simp only [count_eq_zero, hthreshold]

inductive Call where
  | addMeasurement (blob : Blob)
  | notMatched (frameNumber : UInt32)
deriving DecidableEq, Repr

def call (track : BlobTrackData) : Call → BlobTrackData
  | .addMeasurement blob => track.addMeasurement blob
  | .notMatched frameNumber => track.notMatched frameNumber

def calls (track : BlobTrackData) (cs : List Call) : BlobTrackData := cs.foldl call track

def Call.measurement : Call → Option Blob
  | .addMeasurement blob => some blob
  | .notMatched _ => none

def Call.frameNumber : Call → UInt32
  | .addMeasurement blob => blob.frameNr
  | .notMatched frameNumber => frameNumber

/-- All measurements of a track, the initial blob included. -/
def measurements (blob : Blob) (cs : List Call) : List Blob :=
  blob :: cs.filterMap Call.measurement

section
variable {id : UInt32} {blob : Blob} {birthThreshold birthWindow dieThreshold : UInt32}
  {historySize trackSize : Nat} {track : BlobTrackData}

theorem calls_concat (track : BlobTrackData) (cs : List Call) (c : Call) :
    track.calls (cs ++ [c]) = (track.calls cs).call c := by
  unfold calls
  rw [List.foldl_append]
  rfl

theorem measurements_addMeasurement (blob measured : Blob) (cs : List Call) :
    measurements blob (cs ++ [.addMeasurement measured]) = measurements blob cs ++ [measured] := by
  unfold measurements
  rw [List.filterMap_append]
  rfl

theorem measurements_notMatched (blob : Blob) (cs : List Call) (frameNumber : UInt32) :
    measurements blob (cs ++ [.notMatched frameNumber]) = measurements blob cs := by
  unfold measurements
  rw [List.filterMap_append]
  exact congrArg _ (List.append_nil _)

structure Thresholds (birthThreshold birthWindow dieThreshold : UInt32) (historySize trackSize : Nat)
    (track : BlobTrackData) : Prop where
  birthThreshold : track.birthThreshold = birthThreshold
  birthWindow : track.birthWindow = birthWindow
  dieThreshold : track.dieThreshold = dieThreshold
  historySize : track.historySize = historySize
  trackSize : track.trackSize = trackSize

theorem new_spec
    (hnew : new id blob birthThreshold birthWindow dieThreshold historySize trackSize = some track) :
    Thresholds birthThreshold birthWindow dieThreshold historySize trackSize track ∧
      track.state = .BlobTrackBirth ∧ track.history = [blob, blob] ∧ track.track = [] := by
  unfold new at hnew
  split at hnew
  · cases hnew
    exact ⟨⟨rfl, rfl, rfl, rfl, rfl⟩, rfl, rfl, rfl⟩
  · cases hnew

theorem Thresholds.calls
    (h : Thresholds birthThreshold birthWindow dieThreshold historySize trackSize track)
    (cs : List Call) : Thresholds birthThreshold birthWindow dieThreshold historySize trackSize
      (track.calls cs) := by
  induction cs generalizing track with
  | nil => exact h
  | cons c cs ih =>
    apply ih
    cases c with
    | addMeasurement measured =>
      exact ⟨h.birthThreshold, h.birthWindow, h.dieThreshold, h.historySize, h.trackSize⟩
    | notMatched frameNumber =>
      exact ⟨h.birthThreshold, h.birthWindow, h.dieThreshold, h.historySize, h.trackSize⟩

/-- The history has the initial blob twice, and room for both. -/
theorem history_calls
    (hnew : new id blob birthThreshold birthWindow dieThreshold historySize trackSize = some track)
    (cs : List Call) :
    (track.calls cs).history = (blob :: measurements blob cs).rtake (max historySize 2) := by
  obtain ⟨hthresholds, -, hhistory, -⟩ := new_spec hnew
  induction cs using List.reverseRecOn with
  | nil =>
    have hall : (blob :: measurements blob []).rtake (max historySize 2) = [blob, blob] :=
      rtake_all (Nat.le_max_right _ _)
    rw [hall]
    exact hhistory
  | append_singleton cs c ih =>
    rw [calls_concat]
    cases c with
    | notMatched frameNumber =>
      rw [measurements_notMatched]
      exact ih
    | addMeasurement measured =>
      have hsize : (track.calls cs).historySize = historySize := (hthresholds.calls cs).historySize
      change BlobTrack.bounded (track.calls cs).historySize ((track.calls cs).history ++ [measured]) =
        _
      rw [measurements_addMeasurement, ih, hsize, ← List.cons_append]
      rcases Nat.lt_or_ge (blob :: measurements blob cs).length (max historySize 2) with hlen | hlen
      · have htwo : 2 ≤ (blob :: measurements blob cs).length := by
          unfold measurements
          simp
        have hmax : max historySize 2 = historySize := by omega
        rw [hmax] at hlen ⊢
        exact BlobTrack.bounded_short hlen measured
      · exact BlobTrack.bounded_full (Nat.le_max_left _ _) hlen measured

/-- The track goes without the initial blob. -/
theorem track_calls
    (hnew : new id blob birthThreshold birthWindow dieThreshold historySize trackSize = some track)
    (cs : List Call) :
    (track.calls cs).track = ((measurements blob cs).tail.map Blob.cog).rtake trackSize := by
  obtain ⟨hthresholds, -, -, htrack⟩ := new_spec hnew
  induction cs using List.reverseRecOn with
  | nil =>
    refine htrack.trans ?_
    exact (List.rtake_nil trackSize).symm
  | append_singleton cs c ih =>
    rw [calls_concat]
    cases c with
    | notMatched frameNumber =>
      rw [measurements_notMatched]
      exact ih
    | addMeasurement measured =>
      have hsize : (track.calls cs).trackSize = trackSize := (hthresholds.calls cs).trackSize
      have htail : (measurements blob cs ++ [measured]).tail =
          (measurements blob cs).tail ++ [measured] := rfl
      change BlobTrack.bounded (track.calls cs).trackSize ((track.calls cs).track ++ [measured.cog]) =
        _
      rw [measurements_addMeasurement, htail, List.map_append, ih, hsize]
      exact BlobTrack.bounded_rtake trackSize _ measured.cog

/-- With room for two, the history is right from the call on that fills it, and the track from the
call on that fills it without the initial blob. -/
theorem history_iff
    (hnew : new id blob birthThreshold birthWindow dieThreshold historySize trackSize = some track)
    (cs : List Call) :
    ((track.calls cs).history = (measurements blob cs).rtake historySize ∧
      (track.calls cs).track = ((measurements blob cs).map Blob.cog).rtake trackSize) ↔
    2 ≤ historySize ∧ historySize ≤ (measurements blob cs).length ∧
      trackSize < (measurements blob cs).length := by
  have hpos : 1 ≤ (measurements blob cs).length := by
    unfold measurements
    simp
  rw [history_calls hnew, track_calls hnew]
  constructor
  · rintro ⟨hhistory, htrack⟩
    have hhistory := congrArg List.length hhistory
    have htrack := congrArg List.length htrack
    rw [length_rtake, length_rtake, List.length_cons] at hhistory
    rw [length_rtake, length_rtake, List.length_map, List.length_map, List.length_tail] at htrack
    omega
  · rintro ⟨htwo, hlen, htracklen⟩
    have hmax : max historySize 2 = historySize := Nat.max_eq_left htwo
    constructor
    · rw [hmax, List.rtake, List.rtake, List.length_cons,
        Nat.succ_sub hlen, List.drop_succ_cons]
    · have htail : (measurements blob cs).map Blob.cog =
          blob.cog :: (measurements blob cs).tail.map Blob.cog := rfl
      have hfits : trackSize ≤ ((measurements blob cs).tail.map Blob.cog).length := by
        rw [List.length_map, List.length_tail]
        omega
      rw [htail, List.rtake, List.rtake, List.length_cons, Nat.succ_sub hfits,
        List.drop_succ_cons]

end

def seenIn (frameNr : UInt32) : Blob where
  frameNr := frameNr
  boundingRect := { x := 0, y := 0, width := 4, height := 4 }
  cog := (frameNr.toNat, 2)
  valid := true

theorem history_iff_two : ∃ track, new 1 (seenIn 1) 3 10 10 2 1 = some track ∧
    ((track.calls [.addMeasurement (seenIn 2), .notMatched 3]).history =
        (measurements (seenIn 1) [.addMeasurement (seenIn 2), .notMatched 3]).rtake 2 ∧
      (track.calls [.addMeasurement (seenIn 2), .notMatched 3]).track =
        ((measurements (seenIn 1) [.addMeasurement (seenIn 2), .notMatched 3]).map Blob.cog).rtake 1) :=
  ⟨_, rfl, (history_iff rfl [.addMeasurement (seenIn 2), .notMatched 3]).mpr (by decide)⟩

/-- A new track has its first blob twice in the history, and no point of it in the track. -/
theorem history_twice : ∃ track, new 1 (seenIn 1) 3 10 10 10 10 = some track ∧
    (track.calls []).history ≠ (measurements (seenIn 1) []).rtake 10 ∧
    (track.calls []).track ≠ ((measurements (seenIn 1) []).map Blob.cog).rtake 10 :=
  ⟨_, rfl, by decide, by decide⟩

/-- The measurements of the last `birthWindow` frames, of which `frameNr` is the latest. -/
def within (birthWindow frameNr : UInt32) (ms : List Blob) : Nat :=
  ms.countP fun m => frameNr.toNat < m.frameNr.toNat + birthWindow.toNat

def lastMeasurement (blob : Blob) (cs : List Call) : Blob :=
  (measurements blob cs).getLast (List.cons_ne_nil _ _)

/-- At some measurement there are enough of them in the birth window. -/
def Born (birthThreshold birthWindow : UInt32) (blob : Blob) : List Call → Prop :=
  Sometime fun earlier c => ∃ measured, c = .addMeasurement measured ∧
    birthThreshold.toNat ≤ within birthWindow measured.frameNr (measurements blob earlier ++ [measured])

/-- Some call tells that the last measurement is more than `dieThreshold` frames old. -/
def Died (dieThreshold : UInt32) (blob : Blob) : List Call → Prop :=
  Sometime fun earlier c => ∃ frameNumber, c = .notMatched frameNumber ∧
    (lastMeasurement blob earlier).frameNr.toNat + dieThreshold.toNat < frameNumber.toNat

def BornAlive (birthThreshold birthWindow dieThreshold : UInt32) (blob : Blob) : List Call → Prop :=
  Sometime fun earlier c => ¬ Died dieThreshold blob earlier ∧ ∃ measured,
    c = .addMeasurement measured ∧ birthThreshold.toNat ≤
      within birthWindow measured.frameNr (measurements blob earlier ++ [measured])

def NonDecreasing (blob : Blob) (cs : List Call) : Prop :=
  (blob.frameNr :: cs.map Call.frameNumber).Pairwise (· ≤ ·)

section
variable {id : UInt32} {blob : Blob} {birthThreshold birthWindow dieThreshold : UInt32}
  {historySize trackSize : Nat} {track : BlobTrackData}

theorem lastMeasurement_addMeasurement (blob measured : Blob) (cs : List Call) :
    lastMeasurement blob (cs ++ [.addMeasurement measured]) = measured := by
  unfold lastMeasurement
  simp only [measurements_addMeasurement, List.getLast_append_singleton]

theorem lastMeasurement_notMatched (blob : Blob) (cs : List Call) (frameNumber : UInt32) :
    lastMeasurement blob (cs ++ [.notMatched frameNumber]) = lastMeasurement blob cs := by
  unfold lastMeasurement
  simp only [measurements_notMatched]

theorem getLastMeasurement_calls
    (hnew : new id blob birthThreshold birthWindow dieThreshold historySize trackSize = some track)
    (cs : List Call) : (track.calls cs).getLastMeasurement = lastMeasurement blob cs := by
  induction cs using List.reverseRecOn with
  | nil =>
    obtain ⟨-, -, hhistory, -⟩ := new_spec hnew
    change track.history.getLast track.history_ne = blob
    simp only [hhistory, List.getLast_cons_cons, List.getLast_singleton]
  | append_singleton cs c ih =>
    rw [calls_concat]
    cases c with
    | addMeasurement measured =>
      rw [lastMeasurement_addMeasurement]
      change ((track.calls cs).addMeasurement measured).toBlobTrack.getLastMeasurement = measured
      rw [addMeasurement_toBlobTrack]
      exact BlobTrack.getLastMeasurement_addMeasurement measured _
    | notMatched frameNumber =>
      rw [lastMeasurement_notMatched]
      exact ih

theorem NonDecreasing.of_prefix {cs earlier : List Call} (h : NonDecreasing blob cs)
    (hearlier : earlier <+: cs) : NonDecreasing blob earlier := by
  obtain ⟨later, rfl⟩ := hearlier
  unfold NonDecreasing at h ⊢
  rw [List.map_append, ← List.cons_append] at h
  exact (List.pairwise_append.mp h).1

theorem NonDecreasing.before {cs : List Call} {c : Call} (h : NonDecreasing blob (cs ++ [c])) :
    NonDecreasing blob cs := h.of_prefix (List.prefix_append ..)

/-- The last measurement is no later than the call. -/
theorem NonDecreasing.last {cs : List Call} {c : Call} (h : NonDecreasing blob (cs ++ [c])) :
    (lastMeasurement blob cs).frameNr ≤ c.frameNumber := by
  have hmem : lastMeasurement blob cs ∈ measurements blob cs := List.getLast_mem _
  unfold NonDecreasing at h
  rw [List.map_append, ← List.cons_append, List.pairwise_append] at h
  apply h.2.2
  · unfold measurements at hmem
    rcases List.mem_cons.mp hmem with heq | hmem
    · rw [heq]
      exact List.mem_cons_self
    · obtain ⟨c', hc', hmeasured⟩ := List.mem_filterMap.mp hmem
      cases c' with
      | addMeasurement measured =>
        cases hmeasured
        exact List.mem_cons_of_mem _ (List.mem_map_of_mem (f := Call.frameNumber) hc')
      | notMatched frameNumber => cases hmeasured
  · exact List.mem_singleton_self _

/-- The difference of two frame numbers does not wrap round. -/
theorem late_iff {last frameNumber : UInt32} (h : last ≤ frameNumber) (dieThreshold : UInt32) :
    frameNumber - last > dieThreshold ↔ last.toNat + dieThreshold.toNat < frameNumber.toNat := by
  rw [gt_iff_lt, UInt32.lt_iff_toNat_lt, UInt32.toNat_sub_of_le _ _ h]
  have hle := UInt32.le_iff_toNat_le.mp h
  omega

theorem state_addMeasurement (measured : Blob) (track : BlobTrackData) :
    (track.addMeasurement measured).state =
      if track.state = .BlobTrackBirth ∧ track.birthThreshold = 0 then .BlobTrackNormal
      else track.state := by
  have hzero : track.count (BlobTrack.bounded track.historySize (track.history ++ [measured])) ≥
      track.birthThreshold.toNat ↔ track.birthThreshold = 0 := by
    rw [count_eq_zero, ge_iff_le, Nat.le_zero]
    exact UInt32.toNat_inj (b := 0)
  unfold addMeasurement
  simp only [hzero]

/-- Once dead, always dead, and not before it is told so. -/
theorem dead_calls
    (hnew : new id blob birthThreshold birthWindow dieThreshold historySize trackSize = some track)
    {cs : List Call} (hcs : NonDecreasing blob cs) :
    (track.calls cs).state = .BlobTrackDead ↔ Died dieThreshold blob cs := by
  obtain ⟨hthresholds, hbirth, -, -⟩ := new_spec hnew
  induction cs using List.reverseRecOn with
  | nil =>
    refine iff_of_false ?_ (sometime_nil _)
    change track.state ≠ .BlobTrackDead
    rw [hbirth]
    exact nofun
  | append_singleton cs c ih =>
    have ih := ih hcs.before
    rw [Died, sometime_concat, calls_concat]
    cases c with
    | addMeasurement measured =>
      have hdead := BlobTrack.dead_addMeasurement measured (track.calls cs).toBlobTrack
      rw [← addMeasurement_toBlobTrack] at hdead
      refine hdead.trans (ih.trans (or_iff_left ?_).symm)
      rintro ⟨frameNumber, hc, -⟩
      cases hc
    | notMatched frameNumber =>
      refine (BlobTrack.dead_notMatched frameNumber (track.calls cs).toBlobTrack).trans ?_
      have hlate := late_iff hcs.last dieThreshold
      rw [(hthresholds.calls cs).dieThreshold, getLastMeasurement_calls hnew, ih, or_comm]
      refine or_congr Iff.rfl (hlate.trans ?_)
      constructor
      · exact fun hlt => ⟨frameNumber, rfl, hlt⟩
      · rintro ⟨frameNumber', hc, hlt⟩
        cases hc
        exact hlt

theorem state_notMatched (frameNumber : UInt32) (track : BlobTrackData) :
    (track.notMatched frameNumber).state =
      if frameNumber - track.getLastMeasurement.frameNr > track.dieThreshold then .BlobTrackDead
      else track.state := rfl

/-- No call makes a track a lost one. -/
theorem not_lost
    (hnew : new id blob birthThreshold birthWindow dieThreshold historySize trackSize = some track)
    (cs : List Call) : (track.calls cs).state ≠ .BlobTrackLost := by
  obtain ⟨-, hbirth, -, -⟩ := new_spec hnew
  induction cs using List.reverseRecOn with
  | nil =>
    change track.state ≠ .BlobTrackLost
    rw [hbirth]
    exact nofun
  | append_singleton cs c ih =>
    rw [calls_concat]
    cases c with
    | addMeasurement measured =>
      change ((track.calls cs).addMeasurement measured).state ≠ .BlobTrackLost
      rw [state_addMeasurement]
      split
      · exact nofun
      · exact ih
    | notMatched frameNumber =>
      change ((track.calls cs).notMatched frameNumber).state ≠ .BlobTrackLost
      rw [state_notMatched]
      split
      · exact nofun
      · exact ih

theorem born_notMatched (cs : List Call) (frameNumber : UInt32) :
    Born birthThreshold birthWindow blob (cs ++ [.notMatched frameNumber]) ↔
      Born birthThreshold birthWindow blob cs := by
  rw [Born, sometime_concat]
  refine or_iff_left ?_
  rintro ⟨measured, hc, -⟩
  cases hc

theorem born_addMeasurement (cs : List Call) (measured : Blob) :
    Born birthThreshold birthWindow blob (cs ++ [.addMeasurement measured]) ↔
      Born birthThreshold birthWindow blob cs ∨ birthThreshold.toNat ≤
        within birthWindow measured.frameNr (measurements blob cs ++ [measured]) := by
  rw [Born, sometime_concat]
  refine or_congr Iff.rfl ?_
  constructor
  · rintro ⟨measured', hc, henough⟩
    cases hc
    exact henough
  · exact fun henough => ⟨measured, rfl, henough⟩

/-- The window is never looked at: a track without a threshold is born at its first measurement,
and no other is. -/
theorem normal_calls
    (hnew : new id blob birthThreshold birthWindow dieThreshold historySize trackSize = some track)
    {cs : List Call} (hcs : NonDecreasing blob cs) :
    (track.calls cs).state = .BlobTrackNormal ↔
      birthThreshold = 0 ∧ Born birthThreshold birthWindow blob cs ∧ ¬ Died dieThreshold blob cs := by
  obtain ⟨hthresholds, hbirth, -, -⟩ := new_spec hnew
  induction cs using List.reverseRecOn with
  | nil =>
    refine iff_of_false ?_ fun h => sometime_nil _ h.2.1
    change track.state ≠ .BlobTrackNormal
    rw [hbirth]
    exact nofun
  | append_singleton cs c ih =>
    have ih := ih hcs.before
    have hdead := dead_calls hnew hcs
    rw [← hdead]
    rw [← dead_calls hnew hcs.before] at ih
    rw [calls_concat]
    cases c with
    | notMatched frameNumber =>
      change ((track.calls cs).notMatched frameNumber).state = .BlobTrackNormal ↔
        _ ∧ _ ∧ ¬ ((track.calls cs).notMatched frameNumber).state = .BlobTrackDead
      rw [born_notMatched, state_notMatched]
      split
      · simp
      · exact ih
    | addMeasurement measured =>
      change ((track.calls cs).addMeasurement measured).state = .BlobTrackNormal ↔
        _ ∧ _ ∧ ¬ ((track.calls cs).addMeasurement measured).state = .BlobTrackDead
      rw [born_addMeasurement, state_addMeasurement, (hthresholds.calls cs).birthThreshold]
      by_cases hzero : birthThreshold = 0
      · have henough : birthThreshold.toNat ≤
            within birthWindow measured.frameNr (measurements blob cs ++ [measured]) := by
          rw [hzero]
          exact Nat.zero_le _
        have hlost := not_lost hnew cs
        cases hstate : (track.calls cs).state <;> simp_all
      · simp [hzero, ih]

theorem died_addMeasurement (cs : List Call) (measured : Blob) :
    Died dieThreshold blob (cs ++ [.addMeasurement measured]) ↔ Died dieThreshold blob cs := by
  rw [Died, sometime_concat]
  refine or_iff_left ?_
  rintro ⟨frameNumber, hc, -⟩
  cases hc

/-- Enough measurements come while a track lives when at some call they have come and it lives. -/
theorem bornAlive_iff (cs : List Call) :
    BornAlive birthThreshold birthWindow dieThreshold blob cs ↔ ∃ earlier, earlier <+: cs ∧
      Born birthThreshold birthWindow blob earlier ∧ ¬ Died dieThreshold blob earlier := by
  constructor
  · rintro ⟨earlier, c, later, rfl, halive, measured, rfl, henough⟩
    refine ⟨earlier ++ [.addMeasurement measured], ⟨later, by simp⟩, ?_, ?_⟩
    · exact (born_addMeasurement earlier measured).mpr (.inr henough)
    · rw [died_addMeasurement]
      exact halive
  · rintro ⟨known, hknown, ⟨earlier, c, later, rfl, hc⟩, halive⟩
    refine Sometime.of_prefix ⟨earlier, c, later, rfl, fun hdied => halive ?_, hc⟩ hknown
    exact Sometime.of_prefix hdied (List.prefix_append ..)

/-- After each call of a run a track is dead if some call has found it too old, and not otherwise.
It is born at the measurement that fills the window if there is no threshold, or the window is never
full while the track lives. -/
theorem lifeCycle_iff
    (hnew : new id blob birthThreshold birthWindow dieThreshold historySize trackSize = some track)
    {cs : List Call} (hcs : NonDecreasing blob cs) :
    (∀ earlier, earlier <+: cs →
      ((track.calls earlier).state = .BlobTrackDead ↔ Died dieThreshold blob earlier)) ∧
    ((∀ earlier, earlier <+: cs → ((track.calls earlier).state = .BlobTrackNormal ↔
        Born birthThreshold birthWindow blob earlier ∧ ¬ Died dieThreshold blob earlier)) ↔
      birthThreshold = 0 ∨ ¬ BornAlive birthThreshold birthWindow dieThreshold blob cs) := by
  refine ⟨fun earlier hearlier => dead_calls hnew (hcs.of_prefix hearlier), ?_⟩
  have hnormal {earlier : List Call} (hearlier : earlier <+: cs) :=
    normal_calls hnew (hcs.of_prefix hearlier)
  rw [bornAlive_iff]
  constructor
  · intro hall
    by_contra hnot
    push Not at hnot
    obtain ⟨hthreshold, earlier, hearlier, hborn⟩ := hnot
    exact hthreshold ((hnormal hearlier).mp ((hall earlier hearlier).mpr hborn)).1
  · intro hcondition earlier hearlier
    rw [hnormal hearlier]
    refine and_iff_right_of_imp fun hborn => hcondition.resolve_right fun hnot => ?_
    exact hnot ⟨earlier, hearlier, hborn⟩

end

/-- Without a threshold the track is born at once, and then it dies. -/
theorem lifeCycle_iff_dies : ∃ track, new 1 (seenIn 1) 0 10 10 10 10 = some track ∧
    (track.calls [.addMeasurement (seenIn 2)]).state = .BlobTrackNormal ∧
    (track.calls [.addMeasurement (seenIn 2), .notMatched 13]).state = .BlobTrackDead ∧
    ∀ earlier, earlier <+: [.addMeasurement (seenIn 2), .notMatched 13] →
      ((track.calls earlier).state = .BlobTrackDead ↔ Died 10 (seenIn 1) earlier) ∧
      ((track.calls earlier).state = .BlobTrackNormal ↔
        Born 0 10 (seenIn 1) earlier ∧ ¬ Died 10 (seenIn 1) earlier) := by
  obtain ⟨track, hnew⟩ : ∃ track, new 1 (seenIn 1) 0 10 10 10 10 = some track := ⟨_, rfl⟩
  have hordered : NonDecreasing (seenIn 1) [.addMeasurement (seenIn 2), .notMatched 13] := by
    unfold NonDecreasing
    decide
  obtain ⟨hdead, hnormal⟩ := lifeCycle_iff hnew hordered
  refine ⟨track, hnew, ?_, ?_, fun earlier hearlier => ?_⟩
  · cases hnew
    rfl
  · cases hnew
    rfl
  · exact ⟨hdead earlier hearlier, hnormal.mpr (.inl rfl) earlier hearlier⟩

/-- Two measurements of the two that are asked for, and the track is not born. -/
theorem lifeCycle_unborn : ∃ track, new 1 (seenIn 1) 2 10 10 10 10 = some track ∧
    NonDecreasing (seenIn 1) [.addMeasurement (seenIn 2)] ∧
    Born 2 10 (seenIn 1) [.addMeasurement (seenIn 2)] ∧
    ¬ Died 10 (seenIn 1) [.addMeasurement (seenIn 2)] ∧
    (track.calls [.addMeasurement (seenIn 2)]).state ≠ .BlobTrackNormal := by
  have hordered : NonDecreasing (seenIn 1) [.addMeasurement (seenIn 2)] := by
    unfold NonDecreasing
    decide
  obtain ⟨track, hnew⟩ : ∃ track, new 1 (seenIn 1) 2 10 10 10 10 = some track := ⟨_, rfl⟩
  have hstate : (track.calls [.addMeasurement (seenIn 2)]).state = .BlobTrackBirth := by
    cases hnew
    rfl
  refine ⟨track, hnew, hordered, ⟨[], _, [], rfl, _, rfl, by decide⟩, fun hdied => ?_, ?_⟩
  · have hdead := (dead_calls hnew hordered).mpr hdied
    rw [hstate] at hdead
    cases hdead
  · rw [hstate]
    exact nofun

end BlobTrackData

end ParleVision.Tracker
