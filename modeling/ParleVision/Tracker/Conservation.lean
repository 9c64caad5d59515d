import ParleVision.Tracker.Solve
import ParleVision.Tracker.Track
import Mathlib.Data.List.Forall2

namespace ParleVision.Tracker
open Lib

variable {blobs : List Blob} {tracks : List BlobTrack}

theorem foldl_last {α : Type} (p : α → Prop) [DecidablePred p] (l : List α) (found : Option α) :
    l.foldl (fun found j => if p j then some j else found) found =
      (l.reverse.find? fun j => decide (p j)).or found := by
  induction l generalizing found with
  | nil => rfl
  | cons a l ih =>
    rw [List.foldl_cons, ih, List.reverse_cons, List.find?_append, Option.or_assoc]
    by_cases ha : p a <;> simp [ha]

theorem lastZero_iff {m : Matrix (matrixSize blobs tracks) (matrixSize blobs tracks) ℚ}
    (hm : Matching fun i j => m i j = 0) (i : Fin tracks.length) (j : Fin blobs.length) :
    lastZero blobs tracks m i = some j ↔
      m (i.castLE (Nat.le_max_left ..)) (j.castLE (Nat.le_max_right ..)) = 0 := by
  unfold lastZero
  rw [foldl_last, Option.or_none]
  constructor
  · intro h
    have hzero := List.find?_some h
    exact of_decide_eq_true hzero
  · intro hzero
    apply find_unique
    · simp
    · exact decide_eq_true hzero
    · intro j' hj'
      have hsame := hm.row (of_decide_eq_true hj') hzero
      exact Fin.castLE_injective _ hsame

theorem lastZero_oneToOne {m : Matrix (matrixSize blobs tracks) (matrixSize blobs tracks) ℚ}
    (hm : Matching fun i j => m i j = 0) : OneToOne (lastZero blobs tracks m) := by
  intro i i' j hi hi'
  rw [lastZero_iff hm] at hi hi'
  have hsame := hm.column hi hi'
  exact Fin.castLE_injective _ hsame

theorem toNat_succ {counter : UInt32} (hlt : counter.toNat + 1 < 2 ^ 32) :
    (counter + 1).toNat = counter.toNat + 1 := by
  rw [UInt32.toNat_add]
  exact Nat.mod_eq_of_lt hlt

def BlobTracker.ids (tracker : BlobTracker) : List UInt32 := tracker.m_blobTracks.map BlobTrack.id

structure BlobTracker.Fresh (tracker : BlobTracker) : Prop where
  nodup : tracker.ids.Nodup
  le_counter : ∀ id ∈ tracker.ids, id ≤ tracker.m_idCounter

theorem BlobTracker.Fresh.append {tracker : BlobTracker} (h : tracker.Fresh) {track : BlobTrack}
    (hid : track.id = tracker.m_idCounter + 1) (hlt : tracker.m_idCounter.toNat + 1 < 2 ^ 32) :
    Fresh { m_blobTracks := tracker.m_blobTracks ++ [track]
            m_idCounter := tracker.m_idCounter + 1 } := by
  have hnext := toNat_succ hlt
  have hids : ids { m_blobTracks := tracker.m_blobTracks ++ [track]
                    m_idCounter := tracker.m_idCounter + 1 } =
      tracker.ids ++ [tracker.m_idCounter + 1] := by
    simp [ids, hid]
  have hle (id : UInt32) (hmem : id ∈ tracker.ids) : id.toNat ≤ tracker.m_idCounter.toNat :=
    UInt32.le_iff_toNat_le.mp (h.le_counter id hmem)
  constructor
  case nodup =>
    rw [hids]
    refine h.nodup.append (List.nodup_singleton _) ?_
    intro id hmem hsame
    have hle := hle id hmem
    rw [List.mem_singleton.mp hsame] at hle
    omega
  case le_counter =>
    intro id hmem
    rw [hids] at hmem
    rw [UInt32.le_iff_toNat_le]
    dsimp only
    rw [hnext]
    rcases List.mem_append.mp hmem with hmem | hmem
    · have hle := hle id hmem
      omega
    · rw [List.mem_singleton.mp hmem]
      omega

theorem BlobTracker.append_valid (tracker : BlobTracker) {blob : Blob} (hvalid : blob.valid = true) :
    ∃ track, BlobTrack.new (tracker.m_idCounter + 1) blob = some track ∧
      tracker.append blob = some
        { m_blobTracks := tracker.m_blobTracks ++ [track]
          m_idCounter := tracker.m_idCounter + 1 } := by
  have hnew : ∃ track, BlobTrack.new (tracker.m_idCounter + 1) blob = some track := by
    unfold BlobTrack.new
    rw [if_pos hvalid]
    exact ⟨_, rfl⟩
  obtain ⟨track, htrack⟩ := hnew
  refine ⟨track, htrack, ?_⟩
  unfold append
  rw [htrack]

/-- One track is appended for each blob, in order. -/
theorem BlobTracker.append_all (hvalid : ∀ blob ∈ blobs, blob.valid = true)
    (js : List (Fin blobs.length)) (tracker : BlobTracker) :
    ∃ tracker' born, js.foldlM (fun tracker j => tracker.append (blobs.get j)) tracker =
        some tracker' ∧ tracker'.m_blobTracks = tracker.m_blobTracks ++ born ∧
      List.Forall₂ (fun j track => ∃ id, BlobTrack.new id (blobs.get j) = some track) js born ∧
      (tracker.Fresh → tracker.m_idCounter.toNat + js.length < 2 ^ 32 → tracker'.Fresh) := by
  induction js generalizing tracker with
  | nil => exact ⟨tracker, [], rfl, by simp, .nil, fun hfresh _ => hfresh⟩
  | cons j js ih =>
    obtain ⟨track, hnew, happend⟩ := tracker.append_valid (hvalid _ (blobs.get_mem j))
    obtain ⟨tracker', born, hrun, htracks, hborn, hfresh⟩ := ih
      { m_blobTracks := tracker.m_blobTracks ++ [track]
        m_idCounter := tracker.m_idCounter + 1 }
    refine ⟨tracker', track :: born, ?_, ?_, .cons ⟨_, hnew⟩ hborn, ?_⟩
    · rw [List.foldlM_cons, happend]
      exact hrun
    · rw [htracks, List.append_assoc]
      rfl
    · intro h hlt
      rw [List.length_cons] at hlt
      refine hfresh (h.append (BlobTrack.getLastMeasurement_new hnew).2 (by omega)) ?_
      rw [toNat_succ (by omega)]
      omega

/-- The tracks after a frame, each with the blob that it received. -/
structure Conserved (processingSerial : UInt32) (blobs : List Blob) (tracks tracks' : List BlobTrack)
    (received : Fin tracks'.length → Option (Fin blobs.length)) : Prop where
  once : ∀ j, ∃! i, received i = some j
  last : ∀ i j, received i = some j → (tracks'.get i).getLastMeasurement = blobs.get j
  kept : tracks.length ≤ tracks'.length
  existing : ∀ i : Fin tracks.length, tracks'.get (i.castLE kept) =
    match received (i.castLE kept) with
    | some j => (tracks.get i).addMeasurement (blobs.get j)
    | none => (tracks.get i).notMatched processingSerial
  ids : ∀ i : Fin tracks.length, (tracks'.get (i.castLE kept)).id = (tracks.get i).id
  created : ∀ i, tracks.length ≤ i.val → ∃ id j, received i = some j ∧
    BlobTrack.new id (blobs.get j) = some (tracks'.get i)

section
variable {found : Fin tracks.length → Option (Fin blobs.length)}

theorem mem_unmatched {j : Fin blobs.length} : j ∈ unmatched found ↔ ∀ i, found i ≠ some j := by
  simp [unmatched]

theorem unmatched_nodup (found : Fin tracks.length → Option (Fin blobs.length)) :
    (unmatched found).Nodup :=
  (List.nodup_finRange _).filter _

/-- The blob that was chosen for the track, or from which it was made. -/
def receivedBy (found : Fin tracks.length → Option (Fin blobs.length)) (i : Nat) :
    Option (Fin blobs.length) :=
  if h : i < tracks.length then found ⟨i, h⟩ else (unmatched found)[i - tracks.length]?

theorem receivedBy_unique (hone : OneToOne found) {i i' : Nat} {j : Fin blobs.length}
    (hi : receivedBy found i = some j) (hi' : receivedBy found i' = some j) : i = i' := by
  -- what is chosen for a track makes no new one
  have hnot {k k' : Nat} (hk : k < tracks.length) (hfound : found ⟨k, hk⟩ = some j)
      (hmem : (unmatched found)[k']? = some j) : False :=
    mem_unmatched.mp (List.mem_of_getElem? hmem) _ hfound
  unfold receivedBy at hi hi'
  split at hi
  case isTrue hlt =>
    split at hi'
    case isTrue hlt' => exact Fin.mk.inj (hone _ _ j hi hi')
    case isFalse => exact (hnot hlt hi hi').elim
  case isFalse hlt =>
    split at hi'
    case isTrue hlt' => exact (hnot hlt' hi' hi).elim
    case isFalse hlt' =>
      obtain ⟨hk, hj⟩ := List.getElem?_eq_some_iff.mp hi
      obtain ⟨hk', hj'⟩ := List.getElem?_eq_some_iff.mp hi'
      have hsame := (unmatched_nodup found).getElem_inj_iff.mp (hj.trans hj'.symm)
      omega

theorem exists_receivedBy (found : Fin tracks.length → Option (Fin blobs.length))
    (j : Fin blobs.length) :
    ∃ i, i < tracks.length + (unmatched found).length ∧ receivedBy found i = some j := by
  by_cases hfound : ∃ i, found i = some j
  · obtain ⟨i, hi⟩ := hfound
    refine ⟨i.val, by omega, ?_⟩
    unfold receivedBy
    rw [dif_pos i.isLt]
    exact hi
  · have hmem := mem_unmatched.mpr fun i hi => hfound ⟨i, hi⟩
    obtain ⟨k, hk, hj⟩ := List.getElem_of_mem hmem
    refine ⟨tracks.length + k, by omega, ?_⟩
    unfold receivedBy
    rw [dif_neg (by omega), Nat.add_sub_cancel_left, List.getElem?_eq_getElem hk, hj]

theorem updated_length (processingSerial : UInt32) :
    (updated found processingSerial).length = tracks.length :=
  List.length_ofFn

/-- The updated tracks, and a new one for each blob that was not matched. -/
theorem conserved (processingSerial : UInt32) (hone : OneToOne found) {born tracks' : List BlobTrack}
    (htracks : tracks' = updated found processingSerial ++ born)
    (hborn : List.Forall₂ (fun j track => ∃ id, BlobTrack.new id (blobs.get j) = some track)
      (unmatched found) born) :
    Conserved processingSerial blobs tracks tracks' fun i => receivedBy found i.val := by
  subst htracks
  have hlength : (updated found processingSerial ++ born).length =
      tracks.length + (unmatched found).length := by
    rw [List.length_append, updated_length, hborn.length_eq]
  have hkept : tracks.length ≤ (updated found processingSerial ++ born).length := by omega
  have hold (i : Nat) (hi : i < tracks.length) :
      (updated found processingSerial ++ born).get ⟨i, by omega⟩ =
        match found ⟨i, hi⟩ with
        | some j => (tracks.get ⟨i, hi⟩).addMeasurement (blobs.get j)
        | none => (tracks.get ⟨i, hi⟩).notMatched processingSerial := by
    rw [List.get_eq_getElem, List.getElem_append_left (by rw [updated_length]; exact hi)]
    exact List.getElem_ofFn ..
  have hnew (i : Nat) (hi : tracks.length ≤ i)
      (hlt : i < (updated found processingSerial ++ born).length) :
      ∃ id j, receivedBy found i = some j ∧
        BlobTrack.new id (blobs.get j) = some (updated found processingSerial ++ born)[i] := by
    have hk : i - tracks.length < (unmatched found).length := by omega
    obtain ⟨id, hid⟩ := (List.forall₂_iff_get.mp hborn).2 (i - tracks.length) hk
      (by rw [← hborn.length_eq]; exact hk)
    refine ⟨id, (unmatched found)[i - tracks.length], ?_, ?_⟩
    · unfold receivedBy
      rw [dif_neg (by omega), List.getElem?_eq_getElem hk]
    · rw [List.getElem_append_right (by rw [updated_length]; exact hi)]
      simp only [updated_length]
      exact hid
  constructor
  case once =>
    intro j
    obtain ⟨i, hi, hj⟩ := exists_receivedBy found j
    refine ⟨⟨i, by omega⟩, hj, fun i' hi' => Fin.ext (receivedBy_unique hone hi' hj)⟩
  case last =>
    intro i j hreceived
    rcases Nat.lt_or_ge i.val tracks.length with hi | hi
    · have htrack := hold i.val hi
      unfold receivedBy at hreceived
      rw [dif_pos hi] at hreceived
      rw [hreceived] at htrack
      rw [htrack]
      exact BlobTrack.getLastMeasurement_addMeasurement _ _
    · obtain ⟨id, j', hj', htrack⟩ := hnew i.val hi i.isLt
      rw [hreceived] at hj'
      cases hj'
      exact (BlobTrack.getLastMeasurement_new htrack).1
  case kept => exact hkept
  case existing =>
    intro i
    unfold receivedBy
    simp only [Fin.val_castLE, dif_pos i.isLt]
    exact hold i.val i.isLt
  case ids =>
    intro i
    have htrack := hold i.val i.isLt
    change ((updated found processingSerial ++ born).get ⟨i.val, by omega⟩).id = _
    rw [htrack]
    split <;> rfl
  case created => exact fun i hi => hnew i.val hi i.isLt

end

/-- `matchBlobs` ends. Each blob is received by exactly one track, the tracks that were there
are in their places with their ids, and each was told of a blob or that there was none. As long
as the counter of the ids does not wrap round, the ids stay different. -/
theorem matchBlobs_conserves (matchingArea : Blob → Blob → Int) (processingSerial : UInt32)
    (blobs : List Blob) (tracker : BlobTracker) (hfresh : tracker.Fresh)
    (hvalid : ∀ blob ∈ blobs, blob.valid = true) :
    ∃ bound tracker', (∀ fuel, bound ≤ fuel →
        tracker.matchBlobs matchingArea fuel processingSerial blobs = some tracker') ∧
      (∃ received, Conserved processingSerial blobs tracker.m_blobTracks tracker'.m_blobTracks
        received) ∧
      (tracker.m_idCounter.toNat + (tracker'.m_blobTracks.length - tracker.m_blobTracks.length) <
        2 ^ 32 → tracker'.Fresh) := by
  obtain ⟨bound, m, hsolve, hassigned⟩ :=
    solve_assigned (costs matchingArea blobs tracker.m_blobTracks)
  have hone := lastZero_oneToOne hassigned.matching
  generalize hfound : lastZero blobs tracker.m_blobTracks m = found at hone
  obtain ⟨tracker', born, hrun, htracks, hborn, hids⟩ :=
    BlobTracker.append_all hvalid (unmatched found)
      { tracker with m_blobTracks := updated found processingSerial }
  have hconserved := conserved processingSerial hone htracks hborn
  refine ⟨bound, tracker', fun fuel hfuel => ?_, ⟨_, hconserved⟩, fun hlt => ?_⟩
  · unfold BlobTracker.matchBlobs chosen
    rw [hsolve fuel hfuel, Option.map_some, hfound]
    exact hrun
  · apply hids
    · have hsame : BlobTracker.ids { tracker with m_blobTracks := updated found processingSerial } =
          tracker.ids := by
        unfold BlobTracker.ids updated
        rw [List.map_ofFn]
        apply List.ext_getElem
        · simp
        · intro i hi hi'
          simp only [List.getElem_ofFn, Function.comp_apply, List.getElem_map]
          split <;> rfl
      constructor
      · rw [hsame]
        exact hfresh.nodup
      · rw [hsame]
        exact hfresh.le_counter
    · rw [htracks, List.length_append, updated_length, ← hborn.length_eq] at hlt
      dsimp only
      omega

def blobAt (x : Int) : Blob where
  frameNr := 0
  boundingRect := { x := x, y := 0, width := 1, height := 1 }
  cog := (x, 0)
  valid := true

def numbered (m_idCounter : UInt32) : BlobTracker where
  m_blobTracks := (BlobTrack.new 1 (blobAt 0)).toList
  m_idCounter := m_idCounter

theorem numbered_fresh {m_idCounter : UInt32} (h : 1 ≤ m_idCounter) :
    (numbered m_idCounter).Fresh := by
  have hids : (numbered m_idCounter).ids = [1] := rfl
  constructor
  · rw [hids]
    exact List.nodup_singleton _
  · intro id hid
    rw [hids] at hid
    rw [List.mem_singleton.mp hid]
    exact h

theorem matchBlobs_conserves_numbered :
    ∃ bound tracker', (∀ fuel, bound ≤ fuel →
        (numbered 1).matchBlobs Blob.matchingArea fuel 7 [blobAt 0, blobAt 5] = some tracker') ∧
      (∃ received, Conserved 7 [blobAt 0, blobAt 5] (numbered 1).m_blobTracks
        tracker'.m_blobTracks received) ∧
      ((numbered 1).m_idCounter.toNat +
        (tracker'.m_blobTracks.length - (numbered 1).m_blobTracks.length) < 2 ^ 32 →
        tracker'.Fresh) :=
  matchBlobs_conserves Blob.matchingArea 7 [blobAt 0, blobAt 5] (numbered 1)
    (numbered_fresh (by decide)) (by decide)

/-- Two new tracks after the last id: the second has that of the first track. -/
theorem matchBlobs_ids_wrap :
    (numbered 4294967295).Fresh ∧ (∀ blob ∈ [blobAt 5, blobAt 9, blobAt 13], blob.valid = true) ∧
      ∃ tracker', (numbered 4294967295).matchBlobs Blob.matchingArea 40 7
        [blobAt 5, blobAt 9, blobAt 13] = some tracker' ∧ ¬ tracker'.ids.Nodup := by
  refine ⟨numbered_fresh (by decide), by decide, ?_⟩
  have hids : ((numbered 4294967295).matchBlobs Blob.matchingArea 40 7
      [blobAt 5, blobAt 9, blobAt 13]).map BlobTracker.ids = some [1, 0, 1] := by
    decide +kernel
  obtain ⟨tracker', hmatch, htracker⟩ := Option.map_eq_some_iff.mp hids
  refine ⟨tracker', hmatch, ?_⟩
  rw [htracker]
  decide

end ParleVision.Tracker
