import ParleVision.Lib.Run
import ParleVision.Tracker.Conservation

namespace ParleVision.Tracker
open Lib

/-- What is used here of a contour that `cv::findContours` finds. -/
structure Contour where
  boundingRect : Rect
  cog : Int × Int
deriving DecidableEq, Repr

def Blob.new (frameNr : UInt32) (contour : Contour) : Blob where
  frameNr := frameNr
  boundingRect := contour.boundingRect
  cog := contour.cog
  valid := true

structure BlobDetector where
  m_iterations : UInt32
deriving DecidableEq, Repr

namespace BlobDetector

def constructed : BlobDetector where
  m_iterations := 0

/-- The blobs that `process` puts, given the contours that are large enough. -/
def blobs (contours : List Contour) (detector : BlobDetector) : List Blob :=
  contours.map (Blob.new detector.m_iterations)

def process (detector : BlobDetector) : BlobDetector where
  m_iterations := detector.m_iterations + 1

end BlobDetector

def BlobTracker.stop (tracker : BlobTracker) : BlobTracker :=
  { tracker with m_blobTracks := [] }

/-- A frame on its way to the detector, and whether what the detector and the tracker get of it
is an image or NULL. -/
structure Produced where
  serial : UInt32
  detectorImage : Bool
  trackerImage : Bool
deriving DecidableEq, Repr

/-- A frame that has passed the detector; no blobs stand for NULL. -/
structure Detected where
  serial : UInt32
  blobs : Option (List Blob)
  trackerImage : Bool
deriving DecidableEq, Repr

structure TrackingPipeline where
  running : Bool
  m_serial : UInt32
  produced : List Produced
  detector : BlobDetector
  detected : List Detected
  tracker : BlobTracker
  /-- For how many frames in a row each track was assigned no blob: no part of the program. -/
  missed : List Nat
deriving DecidableEq, Repr

inductive TrackingEvent where
  | start
  | stop
  /-- the detector is replaced by a new one -/
  | addDetector
  | produce (detectorImage trackerImage : Bool)
  | detect (contours : List Contour)
  /-- the solver takes at most as many rounds -/
  | track (fuel : Nat)
deriving DecidableEq, Repr

namespace TrackingPipeline

def constructed : TrackingPipeline where
  running := false
  m_serial := 1
  produced := []
  detector := .constructed
  detected := []
  tracker := .constructed
  missed := []

/-- The counts after a frame in which these blobs were chosen for the tracks. -/
def counted {blobs : List Blob} {tracks : List BlobTrack}
    (found : Fin tracks.length → Option (Fin blobs.length)) (missed : List Nat) : List Nat :=
  (List.ofFn fun i => if (found i).isSome then 0 else missed.getD i.val 0 + 1) ++
    List.replicate (unmatched found).length 0

def detect (contours : List Contour) (s : TrackingPipeline) : Option TrackingPipeline :=
  match s.produced with
  | [] => none
  | frame :: produced =>
    if frame.detectorImage then
      some { s with
        produced := produced
        detector := s.detector.process
        detected := s.detected ++
          [⟨frame.serial, some (s.detector.blobs contours), frame.trackerImage⟩] }
    else
      -- NULL is passed on, and `process` is not called
      some { s with
        produced := produced
        detected := s.detected ++ [⟨frame.serial, none, frame.trackerImage⟩] }

def track (matchingArea : Blob → Blob → Int) (fuel : Nat) (s : TrackingPipeline) :
    Option TrackingPipeline :=
  match s.detected with
  | [] => none
  | frame :: detected =>
    match frame.trackerImage, frame.blobs with
    | true, some blobs =>
      match chosen matchingArea blobs s.tracker.m_blobTracks fuel,
          s.tracker.matchBlobs matchingArea fuel frame.serial blobs with
      | some found, some tracker =>
        some { s with
          detected := detected
          tracker := tracker
          missed := counted found s.missed }
      | _, _ => none
    | _, _ => some { s with detected := detected }

def step (matchingArea : Blob → Blob → Int) (s : TrackingPipeline) (event : TrackingEvent) :
    Option TrackingPipeline :=
  match event, s.running with
  | .start, false => some { s with running := true }
  | .stop, true =>
    some { s with
      running := false
      produced := []
      detected := []
      tracker := s.tracker.stop
      missed := [] }
  | .addDetector, false => some { s with detector := .constructed }
  | .produce detectorImage trackerImage, true =>
    some { s with
      m_serial := s.m_serial + 1
      produced := s.produced ++ [⟨s.m_serial, detectorImage, trackerImage⟩] }
  | .detect contours, true => s.detect contours
  | .track fuel, true => s.track matchingArea fuel
  | _, _ => none

end TrackingPipeline

end ParleVision.Tracker
