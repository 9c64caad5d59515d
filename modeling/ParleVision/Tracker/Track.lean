import ParleVision.Tracker.Munkres
import Mathlib.Data.Rat.Cast.Order

namespace ParleVision.Tracker

structure Rect where
  x : Int
  y : Int
  width : Int
  height : Int
deriving DecidableEq, Repr

/-- Nothing when there is no matching area. -/
def overlappingArea (a b : Rect) : Option Rect :=
  if a.x < b.x + b.width ∧ a.x + a.width > b.x ∧ a.y < b.y + b.height ∧ a.y + a.height > b.y then
    let x1 := if a.x > b.x then a.x else b.x
    let y1 := if a.y > b.y then a.y else b.y
    let x2 := if a.x + a.width < b.x + b.width then a.x + a.width else b.x + b.width
    let y2 := if a.y + a.height < b.y + b.height then a.y + a.height else b.y + b.height
    some { x := x1, y := y1, width := x2 - x1, height := y2 - y1 }
  else none

structure Blob where
  frameNr : UInt32
  boundingRect : Rect
  cog : Int × Int
  valid : Bool
deriving DecidableEq, Repr

/-- `Blob::matchingArea`. What follows it takes any other in its place. -/
def Blob.matchingArea (blob other : Blob) : Int :=
  match overlappingArea blob.boundingRect other.boundingRect with
  | none => 0
  | some area => area.width * area.height

inductive BlobTrackState where
  | BlobTrackBirth
  | BlobTrackNormal
  | BlobTrackLost
  | BlobTrackDead
deriving DecidableEq, Repr

structure BlobTrack where
  id : UInt32
  birthThreshold : UInt32
  dieThreshold : UInt32
  historySize : Nat
  trackSize : Nat
  age : UInt32
  state : BlobTrackState
  history : List Blob
  track : List (Int × Int)
  /-- The constructor puts the first blob there. -/
  history_ne : history ≠ []
deriving DecidableEq, Repr

namespace BlobTrack

/-- A blob that is there twice is there. -/
theorem history_pair (blob : Blob) : [blob, blob] ≠ [] := List.cons_ne_nil _ _

/-- The constructor, with its default arguments; nothing when its assertion fails. -/
def new (id : UInt32) (blob : Blob) : Option BlobTrack :=
  if blob.valid then
    some
      { id
        birthThreshold := 3
        dieThreshold := 10
        historySize := 10
        trackSize := 2 ^ 31 - 1
        age := 0
        state := .BlobTrackBirth
        -- once in the constructor of the data and once in that of the track
        history := [blob, blob]
        track := []
        history_ne := history_pair blob }
  else none

def getLastMeasurement (track : BlobTrack) : Blob :=
  track.history.getLast track.history_ne

def notMatched (frameNumber : UInt32) (track : BlobTrack) : BlobTrack :=
  { track with
    age := track.age + 1
    state :=
      if frameNumber - track.getLastMeasurement.frameNr > track.dieThreshold then .BlobTrackDead
      else track.state }

def bounded {α : Type} (size : Nat) (list : List α) : List α :=
  if list.length > size then list.tail else list

theorem bounded_append_ne {α : Type} (size : Nat) {list : List α} (hne : list ≠ []) (a : α) :
    bounded size (list ++ [a]) ≠ [] := by
  unfold bounded
  cases list with
  | nil => exact absurd rfl hne
  | cons b list => split <;> simp

def addMeasurement (blob : Blob) (track : BlobTrack) : BlobTrack :=
  { track with
    age := track.age + 1
    history := bounded track.historySize (track.history ++ [blob])
    track := bounded track.trackSize (track.track ++ [blob.cog])
    -- the loop over the birth window counts nothing
    state :=
      if track.state = .BlobTrackBirth ∧ 0 ≥ track.birthThreshold then .BlobTrackNormal
      else track.state
    history_ne := bounded_append_ne _ track.history_ne blob }

def «matches» (matchingArea : Blob → Blob → Int) (track : BlobTrack) (blob : Blob) : Int :=
  if track.state = .BlobTrackDead then 0 else matchingArea blob track.getLastMeasurement

theorem getLastMeasurement_addMeasurement (blob : Blob) (track : BlobTrack) :
    (track.addMeasurement blob).getLastMeasurement = blob := by
  have hlast (list : List Blob) (hne : list ≠ []) (hbounded) :
      (bounded track.historySize (list ++ [blob])).getLast hbounded = blob := by
    cases list with
    | nil => exact absurd rfl hne
    | cons b list =>
      unfold bounded at hbounded ⊢
      split <;> simp [List.getLast_cons]
  exact hlast track.history track.history_ne _

theorem getLastMeasurement_new {id : UInt32} {blob : Blob} {track : BlobTrack}
    (h : new id blob = some track) : track.getLastMeasurement = blob ∧ track.id = id := by
  unfold new at h
  split at h
  · cases h
    exact ⟨rfl, rfl⟩
  · cases h

theorem dead_addMeasurement (blob : Blob) (track : BlobTrack) :
    (track.addMeasurement blob).state = .BlobTrackDead ↔ track.state = .BlobTrackDead := by
  unfold addMeasurement
  dsimp only
  split
  case isTrue h =>
    rw [h.1]
    exact iff_of_false nofun nofun
  case isFalse => rfl

theorem dead_notMatched (frameNumber : UInt32) (track : BlobTrack) :
    (track.notMatched frameNumber).state = .BlobTrackDead ↔
      frameNumber - track.getLastMeasurement.frameNr > track.dieThreshold ∨
        track.state = .BlobTrackDead := by
  unfold notMatched
  dsimp only
  split
  case isTrue h => exact iff_of_true rfl (.inl h)
  case isFalse h => exact (or_iff_right h).symm

end BlobTrack

structure BlobTracker where
  m_blobTracks : List BlobTrack
  m_idCounter : UInt32
deriving DecidableEq, Repr

def BlobTracker.constructed : BlobTracker where
  m_blobTracks := []
  m_idCounter := 0

section
variable (matchingArea : Blob → Blob → Int) (blobs : List Blob) (tracks : List BlobTrack)

/-- `std::numeric_limits<double>::min()`, the smallest positive number. -/
def DBL_MIN : ℚ := 1 / 2 ^ 1022

def maxScore : ℚ :=
  tracks.foldl
    (fun maxScore track => blobs.foldl
      (fun maxScore blob =>
        let score : ℚ := track.matches matchingArea blob
        if score > maxScore then score else maxScore) maxScore) DBL_MIN - 1

abbrev matrixSize : Nat := max tracks.length blobs.length

def costs : Matrix (matrixSize blobs tracks) (matrixSize blobs tracks) (Option ℚ) := fun i j =>
  match tracks[i.val]?, blobs[j.val]? with
  | some track, some blob =>
    let score : ℚ := track.matches matchingArea blob
    if score > 0 then some (maxScore matchingArea blobs tracks - score) else none
  | _, _ => none

/-- The last blob with a zero in the row of the track. -/
def lastZero (m : Matrix (matrixSize blobs tracks) (matrixSize blobs tracks) ℚ)
    (i : Fin tracks.length) : Option (Fin blobs.length) :=
  (List.finRange blobs.length).foldl
    (fun found j =>
      if m (i.castLE (Nat.le_max_left ..)) (j.castLE (Nat.le_max_right ..)) = 0 then some j
      else found) none

def chosen (fuel : Nat) : Option (Fin tracks.length → Option (Fin blobs.length)) :=
  (solve fuel (costs matchingArea blobs tracks)).map (lastZero blobs tracks)

end

section
variable {blobs : List Blob} {tracks : List BlobTrack}
  (found : Fin tracks.length → Option (Fin blobs.length))

def updated (processingSerial : UInt32) : List BlobTrack :=
  List.ofFn fun i =>
    match found i with
    | some j => (tracks.get i).addMeasurement (blobs.get j)
    | none => (tracks.get i).notMatched processingSerial

def unmatched : List (Fin blobs.length) :=
  (List.finRange blobs.length).filter fun j =>
    !(List.finRange tracks.length).any fun i => found i == some j

end

namespace BlobTracker

def append (tracker : BlobTracker) (blob : Blob) : Option BlobTracker :=
  match BlobTrack.new (tracker.m_idCounter + 1) blob with
  | none => none
  | some track =>
    some
      { m_blobTracks := tracker.m_blobTracks ++ [track]
        m_idCounter := tracker.m_idCounter + 1 }

/-- Nothing when the solver takes longer than this, or the constructor of a track fails. -/
def matchBlobs (matchingArea : Blob → Blob → Int) (fuel : Nat) (processingSerial : UInt32)
    (blobs : List Blob) (tracker : BlobTracker) : Option BlobTracker :=
  match chosen matchingArea blobs tracker.m_blobTracks fuel with
  | none => none
  | some found =>
    (unmatched found).foldlM (fun tracker j => tracker.append (blobs.get j))
      { tracker with m_blobTracks := updated found processingSerial }

end BlobTracker

end ParleVision.Tracker
