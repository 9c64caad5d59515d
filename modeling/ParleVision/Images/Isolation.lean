import ParleVision.Images.Sharing

namespace ParleVision.Images
open Lib

namespace Heap

/-- The cv::Mat a value is built from, or assigned, has no pixel that another value has. -/
def Unshared (s : Heap) : Event → Prop
  | .fromMat _ m copyData => copyData = true ∨ ∀ w ∈ s.alive, ¬ (s.mat w).Overlap m
  | .assignMat v m => ∀ w ∈ s.alive, w ≠ v → ¬ (s.mat w).Overlap m
  | _ => True

/-- Values share pixels only if they share the MatData that counts them. -/
structure Isolated (s : Heap) : Prop where
  nodup : s.alive.Nodup
  matData_lt : ∀ v ∈ s.alive, s.d v < s.nextMatData
  buffer_lt : ∀ v ∈ s.alive, (s.mat v).buffer < s.nextBuffer
  shared : ∀ v ∈ s.alive, ∀ w ∈ s.alive, (s.mat v).Overlap (s.mat w) → s.d v = s.d w
  /-- a value whose reference is still good is alone with its MatData -/
  alone : ∀ v ∈ s.obtained, v ∈ s.alive ∧ ∀ w ∈ s.alive, s.d w = s.d v → w = v

theorem start_isolated : start.Isolated where
  nodup := List.nodup_nil
  matData_lt := by simp [start]
  buffer_lt := by simp [start]
  shared := by simp [start]
  alone := by simp [start]

/-- A value that is counted once shares its MatData with no other. -/
theorem eq_of_ref_eq_one {s : Heap} {v w : Nat} (h : s.ref (s.d v) = 1) (hv : v ∈ s.alive)
    (hw : w ∈ s.alive) (hd : s.d w = s.d v) : w = v := by
  rw [ref, List.countP_eq_length_filter, List.length_eq_one_iff] at h
  obtain ⟨u, hu⟩ := h
  have hv' : v ∈ s.alive.filter fun x => s.d x == s.d v := List.mem_filter.mpr ⟨hv, by simp⟩
  have hw' : w ∈ s.alive.filter fun x => s.d x == s.d v := List.mem_filter.mpr ⟨hw, by simp [hd]⟩
  rw [hu, List.mem_singleton] at hv' hw'
  rw [hv', hw']

@[simp] theorem newMatData_d_self (s : Heap) (v : Nat) (m : SharedMat) :
    (s.newMatData v m).d v = s.nextMatData := Function.update_self ..

theorem newMatData_d_of_ne (s : Heap) {v w : Nat} (m : SharedMat) (hne : w ≠ v) :
    (s.newMatData v m).d w = s.d w := Function.update_of_ne hne ..

@[simp] theorem newMatData_mat_self (s : Heap) (v : Nat) (m : SharedMat) :
    (s.newMatData v m).mat v = m := by
  rw [mat, newMatData_d_self]
  exact Function.update_self ..

theorem newMatData_mat_of_ne {s : Heap} {v w : Nat} (m : SharedMat) (hne : w ≠ v)
    (hw : s.d w < s.nextMatData) : (s.newMatData v m).mat w = s.mat w := by
  rw [mat, newMatData_d_of_ne s m hne]
  exact Function.update_of_ne hw.ne ..

theorem not_overlap_of_buffer_ne {m m' : SharedMat} (hne : m.buffer ≠ m'.buffer) :
    ¬ m.Overlap m' := fun h => hne h.1

/-- New buffers are nobody's. -/
theorem Isolated.moreBuffers {s : Heap} (h : s.Isolated) {n : Nat} (hn : s.nextBuffer ≤ n)
    (buffers : Nat → Memory) : { s with buffers := buffers, nextBuffer := n : Heap }.Isolated where
  nodup := h.nodup
  matData_lt := h.matData_lt
  buffer_lt v hv := (h.buffer_lt v hv).trans_le hn
  shared := h.shared
  alone := h.alone

theorem Isolated.clone {s : Heap} (h : s.Isolated) (m : SharedMat) : (s.clone m).1.Isolated :=
  h.moreBuffers (Nat.le_succ _) _

/-- A value, new or not, may get a MatData of its own over a buffer that no other value has. -/
theorem Isolated.newMatData {s : Heap} (h : s.Isolated) {v : Nat} {m : SharedMat}
    (hm : m.buffer < s.nextBuffer) (hfree : ∀ w ∈ s.alive, w ≠ v → ¬ (s.mat w).Overlap m) :
    (({ s with alive := s.alive.insert v : Heap }).newMatData v m).Isolated := by
  have hold {w : Nat} (hw : w ∈ s.alive.insert v) (hne : w ≠ v) : w ∈ s.alive :=
    (List.mem_insert_iff.mp hw).resolve_left hne
  have hmat {w : Nat} (hw : w ∈ s.alive.insert v) (hne : w ≠ v) :
      (({ s with alive := s.alive.insert v : Heap }).newMatData v m).mat w = s.mat w :=
    newMatData_mat_of_ne (s := { s with alive := s.alive.insert v }) m hne
      (h.matData_lt w (hold hw hne))
  have hd {w : Nat} (hne : w ≠ v) :
      (({ s with alive := s.alive.insert v : Heap }).newMatData v m).d w = s.d w :=
    newMatData_d_of_ne _ m hne
  constructor
  case nodup => exact h.nodup.insert
  case matData_lt =>
    intro w hw
    change _ < s.nextMatData + 1
    by_cases hwv : w = v
    · rw [hwv, newMatData_d_self]
      exact Nat.lt_succ_self _
    · rw [hd hwv]
      exact Nat.lt_succ_of_lt (h.matData_lt w (hold hw hwv))
  case buffer_lt =>
    intro w hw
    by_cases hwv : w = v
    · rw [hwv, newMatData_mat_self]
      exact hm
    · rw [hmat hw hwv]
      exact h.buffer_lt w (hold hw hwv)
  case shared =>
    intro w hw u hu he
    by_cases hwv : w = v
    · by_cases huv : u = v
      · rw [hwv, huv]
      · rw [hwv, newMatData_mat_self, hmat hu huv] at he
        exact absurd he.symm (hfree u (hold hu huv) huv)
    · by_cases huv : u = v
      · rw [huv, newMatData_mat_self, hmat hw hwv] at he
        exact absurd he (hfree w (hold hw hwv) hwv)
      · rw [hmat hw hwv, hmat hu huv] at he
        rw [hd hwv, hd huv]
        exact h.shared w (hold hw hwv) u (hold hu huv) he
  case alone =>
    intro w hw
    obtain ⟨hwa, halone⟩ := h.alone w hw
    refine ⟨List.mem_insert_of_mem hwa, ?_⟩
    intro u hu he
    by_cases huv : u = v
    · by_cases hwv : w = v
      · rw [huv, hwv]
      · rw [huv, newMatData_d_self, hd hwv] at he
        exact absurd he (h.matData_lt w hwa).ne'
    · by_cases hwv : w = v
      · rw [hwv, newMatData_d_self, hd huv] at he
        exact absurd he (h.matData_lt u (hold hu huv)).ne
      · rw [hd huv, hd hwv] at he
        exact halone u (hold hu huv) he

theorem insert_alive {s : Heap} {v : Nat} (hv : v ∈ s.alive) :
    { s with alive := s.alive.insert v : Heap } = s := by
  rw [List.insert_of_mem hv]

@[simp] theorem detach_alive (s : Heap) (v : Nat) : (s.detach v).alive = s.alive := by
  unfold detach
  split <;> rfl

@[simp] theorem detach_obtained (s : Heap) (v : Nat) : (s.detach v).obtained = s.obtained := by
  unfold detach
  split <;> rfl

theorem detach_nextBuffer (s : Heap) (v : Nat) : s.nextBuffer ≤ (s.detach v).nextBuffer := by
  unfold detach
  split
  · exact Nat.le_refl _
  · exact Nat.le_succ _

/-- Detaching a value leaves the headers of all others. -/
theorem detach_mat_of_ne {s : Heap} {v w : Nat} (h : s.Isolated) (hw : w ∈ s.alive)
    (hne : w ≠ v) : (s.detach v).mat w = s.mat w := by
  unfold detach
  split
  · rfl
  · exact newMatData_mat_of_ne (s := (s.clone (s.mat v)).1) _ hne (h.matData_lt w hw)

theorem Isolated.detach {s : Heap} {v : Nat} (h : s.Isolated) (hv : v ∈ s.alive) :
    (s.detach v).Isolated := by
  unfold Heap.detach
  split
  · exact h
  · have hfree : ∀ w ∈ s.alive, w ≠ v → ¬ (s.mat w).Overlap (s.clone (s.mat v)).2 :=
      fun w hw _ => not_overlap_of_buffer_ne (h.buffer_lt w hw).ne
    have hnew := (h.clone (s.mat v)).newMatData (m := (s.clone (s.mat v)).2)
      (Nat.lt_succ_self _) hfree
    rwa [insert_alive (s := (s.clone (s.mat v)).1) hv] at hnew

/-- Afterwards the value has its MatData to itself. -/
theorem detach_alone {s : Heap} {v w : Nat} (h : s.Isolated) (hv : v ∈ s.alive)
    (hw : w ∈ s.alive) (hd : (s.detach v).d w = (s.detach v).d v) : w = v := by
  unfold detach at hd
  split at hd
  case isTrue href => exact eq_of_ref_eq_one href hv hw hd
  case isFalse =>
    by_contra hne
    rw [newMatData_d_self, newMatData_d_of_ne _ _ hne] at hd
    exact absurd hd (h.matData_lt w hw).ne

/-- A clone has the pixels of the matrix. -/
theorem clone_pixel (s : Heap) (m : SharedMat) {r c : Nat} (hc : c < m.mat.cols) :
    Mat.pixel ((s.clone m).1.buffers (s.clone m).2.buffer) (s.clone m).2.mat r c =
      Mat.pixel (s.buffers m.buffer) m.mat r c := by
  apply List.map_congr_left
  intro k hk
  have hk : k < m.mat.pixelSize := List.mem_range.mp hk
  have hin : c * m.mat.pixelSize + k < m.mat.width := by
    have hle : (c + 1) * m.mat.pixelSize ≤ m.mat.width := Nat.mul_le_mul_right _ hc
    rw [Nat.succ_mul] at hle
    omega
  change (Function.update s.buffers s.nextBuffer _) s.nextBuffer
    (0 + r * m.mat.width + c * m.mat.pixelSize + k) = _
  rw [Function.update_self]
  have hi : 0 + r * m.mat.width + c * m.mat.pixelSize + k =
      c * m.mat.pixelSize + k + m.mat.width * r := by
    rw [Nat.mul_comm m.mat.width]
    omega
  have hpos : 0 < m.mat.width := Nat.zero_lt_of_lt hin
  rw [hi, Nat.add_mul_div_left _ _ hpos, Nat.add_mul_mod_self_left, Nat.div_eq_of_lt hin,
    Nat.mod_eq_of_lt hin, Nat.zero_add]
  congr 1
  omega

/-- The image of a value is made of its rows, its columns and the pixels inside them. -/
theorem image_congr {s s' : Heap} {v : Nat} (hrows : (s'.mat v).mat.rows = (s.mat v).mat.rows)
    (hcols : (s'.mat v).mat.cols = (s.mat v).mat.cols)
    (hpixel : ∀ r < (s.mat v).mat.rows, ∀ c < (s.mat v).mat.cols,
      s'.pixel v r c = s.pixel v r c) :
    s'.image v = s.image v := by
  unfold image
  rw [hrows, hcols]
  apply List.map_congr_left
  intro r hr
  apply List.map_congr_left
  intro c hc
  exact hpixel r (List.mem_range.mp hr) c (List.mem_range.mp hc)

/-- Obtaining a reference changes no image. -/
theorem detach_image {s : Heap} {v w : Nat} (h : s.Isolated) (hw : w ∈ s.alive) :
    (s.detach v).image w = s.image w := by
  by_cases hne : w = v
  · rw [hne]
    unfold detach
    split
    · rfl
    · apply image_congr
      · rw [newMatData_mat_self]
        rfl
      · rw [newMatData_mat_self]
        rfl
      · intro r _ c hc
        rw [pixel, newMatData_mat_self]
        exact clone_pixel s (s.mat v) hc
  · have hmat := detach_mat_of_ne h hw hne
    apply image_congr
    · rw [hmat]
    · rw [hmat]
    · intro r _ c _
      rw [pixel, hmat, pixel]
      congr 1
      unfold detach
      split
      · rfl
      · exact Function.update_of_ne (h.buffer_lt w hw).ne ..

/-- A pixel written through a reference that is still good shows in no other value. -/
theorem write_image {s s' : Heap} {v w r c k : Nat} {byte : UInt8} (h : s.Isolated)
    (hs : s.step (.write v r c k byte) = some s') (hw : w ∈ s.alive) (hne : w ≠ v) :
    s'.image w = s.image w := by
  simp only [step] at hs
  split at hs
  case isTrue hwrite =>
    cases hs
    obtain ⟨hv, halone⟩ := h.alone v hwrite.1
    have hover : ¬ (s.mat w).Overlap (s.mat v) := by
      intro he
      exact hne (halone w hw (h.shared w hw v hv he))
    apply image_congr
    · rfl
    · rfl
    · intro r' hr' c' hc'
      change Mat.pixel (Function.update s.buffers (s.mat v).buffer _ (s.mat w).buffer) _ r' c' = _
      by_cases hb : (s.mat w).buffer = (s.mat v).buffer
      · rw [hb, Function.update_self, pixel, hb]
        apply List.map_congr_left
        intro k' hk'
        apply Function.update_of_ne
        intro hi
        exact hover ⟨hb, _, ⟨r', hr', c', hc', k', List.mem_range.mp hk', rfl⟩,
          ⟨r, hwrite.2.1, c, hwrite.2.2.1, k, hwrite.2.2.2, hi.symm⟩⟩
      · rw [Function.update_of_ne hb]
        rfl
  case isFalse => cases hs

/-- Fewer references have to be good. -/
theorem Isolated.forget {s : Heap} (h : s.Isolated) (obtained : List Nat)
    (hsub : ∀ v ∈ obtained, v ∈ s.obtained) : { s with obtained := obtained : Heap }.Isolated where
  nodup := h.nodup
  matData_lt := h.matData_lt
  buffer_lt := h.buffer_lt
  shared := h.shared
  alone v hv := h.alone v (hsub v hv)

/-- A value, new or not, may share the MatData of another whose references are not used again. -/
theorem Isolated.share {s : Heap} (h : s.Isolated) {v w : Nat} (hw : w ∈ s.alive) :
    { s with alive := s.alive.insert v, d := Function.update s.d v (s.d w)
             obtained := s.obtained.filter fun x => x ≠ v ∧ x ≠ w : Heap }.Isolated := by
  -- every value is now what an old one was
  have hold : ∀ u ∈ s.alive.insert v, ∃ u' ∈ s.alive,
      Function.update s.d v (s.d w) u = s.d u' ∧ (u ≠ v → u' = u) ∧ (u = v → u' = w) := by
    intro u hu
    by_cases huv : u = v
    · exact ⟨w, hw, by rw [huv, Function.update_self], fun hne => absurd huv hne, fun _ => rfl⟩
    · exact ⟨u, (List.mem_insert_iff.mp hu).resolve_left huv, Function.update_of_ne huv ..,
        fun _ => rfl, fun he => absurd he huv⟩
  constructor
  case nodup => exact h.nodup.insert
  case matData_lt =>
    intro u hu
    obtain ⟨u', hu', hd, -⟩ := hold u hu
    change Function.update s.d v (s.d w) u < s.nextMatData
    rw [hd]
    exact h.matData_lt u' hu'
  case buffer_lt =>
    intro u hu
    obtain ⟨u', hu', hd, -⟩ := hold u hu
    change (s.matData (Function.update s.d v (s.d w) u)).buffer < s.nextBuffer
    rw [hd]
    exact h.buffer_lt u' hu'
  case shared =>
    intro u hu x hx he
    obtain ⟨u', hu', hdu, -⟩ := hold u hu
    obtain ⟨x', hx', hdx, -⟩ := hold x hx
    change (s.matData (Function.update s.d v (s.d w) u)).Overlap
      (s.matData (Function.update s.d v (s.d w) x)) at he
    change Function.update s.d v (s.d w) u = Function.update s.d v (s.d w) x
    rw [hdu, hdx] at he ⊢
    exact h.shared u' hu' x' hx' he
  case alone =>
    intro u hu
    obtain ⟨hu, hne⟩ := List.mem_filter.mp hu
    obtain ⟨huv, huw⟩ : u ≠ v ∧ u ≠ w := by simpa using hne
    obtain ⟨hua, halone⟩ := h.alone u hu
    refine ⟨List.mem_insert_of_mem hua, ?_⟩
    intro x hx he
    obtain ⟨x', hx', hdx, hsame, hother⟩ := hold x hx
    change Function.update s.d v (s.d w) x = Function.update s.d v (s.d w) u at he
    rw [Function.update_of_ne huv, hdx] at he
    have hxu := halone x' hx' he
    by_cases hxv : x = v
    · exact absurd (hxu.symm.trans (hother hxv)) huw
    · rw [← hsame hxv, hxu]

/-- The header of a value may be replaced once the value is alone with it. -/
theorem Isolated.assignMat {s : Heap} (h : s.Isolated) {v : Nat} {m : SharedMat}
    (hv : v ∈ s.alive) (hm : m.buffer < s.nextBuffer)
    (hfree : ∀ w ∈ s.alive, w ≠ v → ¬ (s.mat w).Overlap m) :
    { s.detach v with
        matData := Function.update (s.detach v).matData ((s.detach v).d v) m
        obtained := s.obtained.filter (· ≠ v) : Heap }.Isolated := by
  have hdet := h.detach hv
  have hd {w : Nat} (hw : w ∈ (s.detach v).alive) (hne : w ≠ v) :
      (s.detach v).d w ≠ (s.detach v).d v := by
    intro he
    exact hne (detach_alone h hv (detach_alive s v ▸ hw) he)
  have hmat {w : Nat} (hw : w ∈ (s.detach v).alive) (hne : w ≠ v) :
      Function.update (s.detach v).matData ((s.detach v).d v) m ((s.detach v).d w) = s.mat w := by
    rw [Function.update_of_ne (hd hw hne)]
    exact detach_mat_of_ne h (detach_alive s v ▸ hw) hne
  constructor
  case nodup => exact hdet.nodup
  case matData_lt => exact hdet.matData_lt
  case buffer_lt =>
    intro w hw
    change (Function.update (s.detach v).matData _ m ((s.detach v).d w)).buffer <
      (s.detach v).nextBuffer
    by_cases hwv : w = v
    · rw [hwv, Function.update_self]
      exact hm.trans_le (detach_nextBuffer s v)
    · rw [Function.update_of_ne (hd hw hwv)]
      exact hdet.buffer_lt w hw
  case shared =>
    intro w hw u hu he
    change (Function.update (s.detach v).matData _ m ((s.detach v).d w)).Overlap
      (Function.update (s.detach v).matData _ m ((s.detach v).d u)) at he
    by_cases hwv : w = v
    · by_cases huv : u = v
      · rw [hwv, huv]
      · rw [hwv, Function.update_self, hmat hu huv] at he
        exact absurd he.symm (hfree u (detach_alive s v ▸ hu) huv)
    · by_cases huv : u = v
      · rw [huv, Function.update_self, hmat hw hwv] at he
        exact absurd he (hfree w (detach_alive s v ▸ hw) hwv)
      · rw [Function.update_of_ne (hd hw hwv), Function.update_of_ne (hd hu huv)] at he
        exact hdet.shared w hw u hu he
  case alone =>
    intro w hw
    exact hdet.alone w (detach_obtained s v ▸ List.mem_of_mem_filter hw)

/-- What a value is destroyed with is no longer counted. -/
theorem Isolated.destroy {s : Heap} (h : s.Isolated) (v : Nat) :
    { s with alive := s.alive.filter (· ≠ v)
             obtained := s.obtained.filter (· ≠ v) : Heap }.Isolated where
  nodup := h.nodup.filter _
  matData_lt w hw := h.matData_lt w (List.mem_of_mem_filter hw)
  buffer_lt w hw := h.buffer_lt w (List.mem_of_mem_filter hw)
  shared w hw u hu := h.shared w (List.mem_of_mem_filter hw) u (List.mem_of_mem_filter hu)
  alone w hw := by
    obtain ⟨hw, hne⟩ := List.mem_filter.mp hw
    obtain ⟨hwa, halone⟩ := h.alone w hw
    exact ⟨List.mem_filter.mpr ⟨hwa, hne⟩, fun u hu => halone u (List.mem_of_mem_filter hu)⟩

/-- After detaching, a reference to the value is good. -/
theorem Isolated.obtain {s : Heap} (h : s.Isolated) {v : Nat} (hv : v ∈ s.alive) :
    { s.detach v with obtained := v :: s.obtained : Heap }.Isolated := by
  have hdet := h.detach hv
  refine ⟨hdet.nodup, hdet.matData_lt, hdet.buffer_lt, hdet.shared, ?_⟩
  intro w hw
  cases List.mem_cons.mp hw with
  | inl hwv =>
    rw [hwv]
    exact ⟨(detach_alive s v).symm ▸ hv,
      fun u hu he => detach_alone h hv (detach_alive s v ▸ hu) he⟩
  | inr hw => exact hdet.alone w ((detach_obtained s v).symm ▸ hw)

/-- Each step that takes no matrix of another value keeps the values isolated. -/
theorem step_isolated {s s' : Heap} {e : Event} (h : s.Isolated) (hu : s.Unshared e)
    (hs : s.step e = some s') : s'.Isolated := by
  cases e with
  | allocate content =>
    cases hs
    exact h.moreBuffers (Nat.le_succ _) _
  | construct v =>
    simp only [step] at hs
    split at hs
    · cases hs
      exact (h.moreBuffers (Nat.le_succ _) s.buffers).newMatData (Nat.lt_succ_self _)
        fun w hw _ => not_overlap_of_buffer_ne (h.buffer_lt w hw).ne
    · cases hs
  | fromMat v m copyData =>
    simp only [step] at hs
    split at hs
    case isTrue hv =>
      split at hs
      · cases hs
        exact (h.clone m).newMatData (Nat.lt_succ_self _)
          fun w hw _ => not_overlap_of_buffer_ne (h.buffer_lt w hw).ne
      case isFalse hcopy =>
        cases hs
        exact h.newMatData hv.2 fun w hw _ => hu.resolve_left hcopy w hw
    · cases hs
  | copy v w =>
    simp only [step] at hs
    split at hs
    case isTrue hvw =>
      cases hs
      refine (h.share hvw.2).forget (s.obtained.filter (· ≠ w)) ?_
      intro u hu
      obtain ⟨hu, hne⟩ := List.mem_filter.mp hu
      have huv : u ≠ v := fun he => hvw.1 (he ▸ (h.alone u hu).1)
      exact List.mem_filter.mpr ⟨hu, by simpa [huv] using hne⟩
    · cases hs
  | assign v w =>
    simp only [step] at hs
    split at hs
    case isTrue hvw =>
      split at hs
      · cases hs
        exact h
      · cases hs
        have hshare := h.share (v := v) hvw.2
        rwa [List.insert_of_mem hvw.1] at hshare
    · cases hs
  | assignMat v m =>
    simp only [step] at hs
    split at hs
    case isTrue hv =>
      cases hs
      rw [detach_obtained]
      exact h.assignMat hv.1 hv.2 hu
    · cases hs
  | destroy v =>
    simp only [step] at hs
    split at hs
    · cases hs
      exact h.destroy v
    · cases hs
  | obtain v =>
    simp only [step] at hs
    split at hs
    case isTrue hv =>
      cases hs
      rw [detach_obtained]
      exact h.obtain hv
    · cases hs
  | write v r c k byte =>
    simp only [step] at hs
    split at hs
    · cases hs
      exact h.moreBuffers (Nat.le_refl _) _
    · cases hs

theorem reaches_isolated {s : Heap} (h : Reaches step Unshared start s) : s.Isolated :=
  h.invariant start_isolated fun _ _ _ hi hu hs => step_isolated hi hu hs

/-- A value that is alone with its MatData is counted once. -/
theorem ref_eq_one {s : Heap} {v : Nat} (hnodup : s.alive.Nodup) (hv : v ∈ s.alive)
    (halone : ∀ w ∈ s.alive, s.d w = s.d v → w = v) : s.ref (s.d v) = 1 := by
  have hcount : s.alive.countP (fun w => s.d w == s.d v) = s.alive.count v := by
    apply List.countP_congr
    intro w hw
    constructor
    · intro he
      simpa using halone w hw (by simpa using he)
    · intro he
      have hwv : w = v := by simpa using he
      simp [hwv]
  rw [ref, hcount]
  exact List.count_eq_one_of_mem hnodup hv

/-- Such a value writes to its pixels where they are, so that another value with one of these
pixels shows it. -/
theorem overlap_shows {s : Heap} {v w : Nat} (hnodup : s.alive.Nodup) (hv : v ∈ s.alive)
    (halone : ∀ u ∈ s.alive, s.d u = s.d v → u = v) (hover : (s.mat w).Overlap (s.mat v)) :
    ∃ r c k byte s₂ s₃, s.step (.obtain v) = some s₂ ∧ s₂.step (.write v r c k byte) = some s₃ ∧
      s₃.image w ≠ s₂.image w := by
  obtain ⟨hb, i, ⟨r', hr', c', hc', k', hk', hi'⟩, r, hr, c, hc, k, hk, hi⟩ := hover
  have hdetach : s.detach v = s := by
    unfold detach
    rw [if_pos (ref_eq_one hnodup hv halone)]
  have hobtain : s.step (.obtain v) = some { s with obtained := v :: s.obtained } := by
    simp only [step]
    rw [if_pos hv, hdetach]
  refine ⟨r, c, k, s.buffers (s.mat v).buffer i + 1, _, _, hobtain,
    if_pos ⟨List.mem_cons_self .., hr, hc, hk⟩, ?_⟩
  intro himage
  have hrow := List.map_inj_left.mp himage r' (List.mem_range.mpr hr')
  have hpixel := List.map_inj_left.mp hrow c' (List.mem_range.mpr hc')
  have hbyte := List.map_inj_left.mp hpixel k' (List.mem_range.mpr hk')
  change Function.update s.buffers (s.mat v).buffer (Function.update (s.buffers (s.mat v).buffer)
      ((s.mat v).mat.data + r * (s.mat v).mat.step + c * (s.mat v).mat.pixelSize + k)
      (s.buffers (s.mat v).buffer i + 1)) (s.mat w).buffer
    ((s.mat w).mat.data + r' * (s.mat w).mat.step + c' * (s.mat w).mat.pixelSize + k') =
    s.buffers (s.mat w).buffer
    ((s.mat w).mat.data + r' * (s.mat w).mat.step + c' * (s.mat w).mat.pixelSize + k') at hbyte
  rw [hi, hi', hb, Function.update_self, Function.update_self] at hbyte
  simp at hbyte

/-- A step that takes a pixel of another value lets the next write show there. -/
theorem shared_shows {s s' : Heap} {e : Event} (h : s.Isolated) (hs : s.step e = some s')
    (hu : ¬ s.Unshared e) : ∃ v w r c k byte s₂ s₃, w ∈ s'.alive ∧ w ≠ v ∧
      s'.step (.obtain v) = some s₂ ∧ s₂.step (.write v r c k byte) = some s₃ ∧
      s₃.image w ≠ s₂.image w := by
  cases e with
  | fromMat v m copyData =>
    simp only [Unshared, not_or, not_forall, not_not] at hu
    obtain ⟨hcopy, w, hw, hover⟩ := hu
    simp only [step, if_neg hcopy] at hs
    split at hs
    case isTrue hv =>
      cases hs
      have hne : w ≠ v := fun he => hv.1 (he ▸ hw)
      have hold {u : Nat} (hu : u ∈ s.alive.insert v) (hne : u ≠ v) : u ∈ s.alive :=
        (List.mem_insert_iff.mp hu).resolve_left hne
      have hmat := newMatData_mat_of_ne (s := { s with alive := s.alive.insert v }) m hne
        (h.matData_lt w hw)
      refine ⟨v, w, ?_⟩
      have hshows := overlap_shows (s := ({ s with alive := s.alive.insert v : Heap }).newMatData v m)
        (v := v) (w := w) h.nodup.insert (List.mem_insert_self ..) ?_ ?_
      · obtain ⟨r, c, k, byte, s₂, s₃, ho, hwr, himage⟩ := hshows
        exact ⟨r, c, k, byte, s₂, s₃, List.mem_insert_of_mem hw, hne, ho, hwr, himage⟩
      · intro u hu he
        by_contra huv
        rw [newMatData_d_self, newMatData_d_of_ne _ _ huv] at he
        exact absurd he (h.matData_lt u (hold hu huv)).ne
      · rw [hmat, newMatData_mat_self]
        exact hover
    · cases hs
  | assignMat v m =>
    simp only [Unshared, not_forall, not_not] at hu
    obtain ⟨w, hw, hne, hover⟩ := hu
    simp only [step] at hs
    split at hs
    case isTrue hv =>
      cases hs
      have hdet := h.detach hv.1
      have hmat : (s.detach v).mat w = s.mat w := detach_mat_of_ne h hw hne
      have hd : (s.detach v).d w ≠ (s.detach v).d v := fun he => hne (detach_alone h hv.1 hw he)
      refine ⟨v, w, ?_⟩
      have hshows := overlap_shows (s := { s.detach v with
          matData := Function.update (s.detach v).matData ((s.detach v).d v) m
          obtained := (s.detach v).obtained.filter (· ≠ v) : Heap })
        (v := v) (w := w) hdet.nodup ((detach_alive s v).symm ▸ hv.1)
        (fun u hu he => detach_alone h hv.1 (detach_alive s v ▸ hu) he) ?_
      · obtain ⟨r, c, k, byte, s₂, s₃, ho, hwr, himage⟩ := hshows
        exact ⟨r, c, k, byte, s₂, s₃, (detach_alive s v).symm ▸ hw, hne, ho, hwr, himage⟩
      · change (Function.update (s.detach v).matData _ m ((s.detach v).d w)).Overlap
          (Function.update (s.detach v).matData _ m ((s.detach v).d v))
        rw [Function.update_of_ne hd, Function.update_self]
        change ((s.detach v).mat w).Overlap m
        rw [hmat]
        exact hover
    · cases hs
  | _ => exact absurd trivial hu

/-- As long as no value takes a cv::Mat with a pixel of another value, obtaining a reference
changes no image and writing through it no other image. The first step that does not heed this
lets a write show in another value. -/
theorem isolation {s : Heap} (h : Reaches step Unshared start s) :
    (∀ v s', s.step (.obtain v) = some s' → ∀ w ∈ s.alive, s'.image w = s.image w) ∧
    (∀ v r c k byte s', s.step (.write v r c k byte) = some s' →
      ∀ w ∈ s.alive, w ≠ v → s'.image w = s.image w) ∧
    ∀ e s', s.step e = some s' → ¬ s.Unshared e → ∃ v w r c k byte s₂ s₃, w ∈ s'.alive ∧ w ≠ v ∧
      s'.step (.obtain v) = some s₂ ∧ s₂.step (.write v r c k byte) = some s₃ ∧
      s₃.image w ≠ s₂.image w := by
  have hi := reaches_isolated h
  refine ⟨?_, ?_, ?_⟩
  · intro v s' hs w hw
    simp only [step] at hs
    split at hs
    · cases hs
      exact detach_image hi hw
    · cases hs
  · intro v r c k byte s' hs w hw hne
    exact write_image hi hs hw hne
  · intro e s' hs hu
    exact shared_shows hi hs hu

def frame : Mat := .onBuffer 0 2 2 2 0

/-- A copy of a frame is written to; the frame stays as it is. -/
theorem isolation_copy : ∃ s, Reaches step Unshared start s ∧
    ∃ s', s.step (.write 1 0 1 0 7) = some s' ∧
      s'.image 1 = [[[0], [7]], [[2], [3]]] ∧ s'.image 0 = [[[0], [1]], [[2], [3]]] := by
  have hes : ∀ s : Heap, ∀ e ∈ ([.allocate fun i => UInt8.ofNat i, .fromMat 0 ⟨frame, 0⟩ true,
      .copy 1 0, .obtain 1] : List Event), s.Unshared e := by
    intro s
    simp [Unshared]
  have hreach : Reaches step Unshared start _ := Reaches.of_run (hes · · ·) rfl
  have himage := (isolation hreach).2.1 1 0 1 0 7 _ rfl 0 (by decide) (by decide)
  refine ⟨_, hreach, _, rfl, by decide, himage.trans ?_⟩
  decide

/-- What CropImage puts is a value over its input's pixels, so that who writes to the cropped
image writes to the frame. -/
theorem isolation_crop : ¬ ∀ s : Heap, Reaches step (fun _ _ => True) start s →
    ∀ v r c k byte s', s.step (.write v r c k byte) = some s' →
      ∀ w ∈ s.alive, w ≠ v → s'.image w = s.image w := by
  intro hall
  have hes : ∀ s : Heap, ∀ e ∈ ([.allocate fun i => UInt8.ofNat i, .fromMat 0 ⟨frame, 0⟩ true,
      .fromMat 1 ⟨frame.roi 1 0 1 2, 1⟩ false, .obtain 1] : List Event), True := by
    intro s e _
    trivial
  have hreach : Reaches step (fun _ _ => True) start _ := Reaches.of_run (hes · · ·) rfl
  have himage := hall _ hreach 1 0 0 0 7 _ rfl 0 (by decide) (by decide)
  revert himage
  decide

end Heap

end ParleVision.Images
