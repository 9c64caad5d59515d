import Mathlib.Algebra.BigOperators.Group.List.Basic
import Mathlib.Algebra.Group.Action.Pi
import Mathlib.Data.List.Induction
import Mathlib.Tactic.FieldSimp
import Mathlib.Tactic.LinearCombination
import Mathlib.Tactic.NormNum

namespace ParleVision.Opencv

structure Size where
  width : Nat
  height : Nat
  channels : Nat
deriving DecidableEq

abbrev Size.Samples (size : Size) : Type :=
  Fin size.width × Fin size.height × Fin size.channels → ℚ

structure CvMat where
  size : Size
  samples : size.Samples

/-- What `m_avg` is before the first frame. -/
def CvMat.empty : CvMat := ⟨⟨0, 0, 1⟩, fun _ => 0⟩

structure Average where
  m_avg : CvMat
  m_numFrames : Int
  m_total : Int

namespace Average

def new : Average := ⟨.empty, 10, 0⟩

def start (s : Average) : Average := { s with m_total := 0 }

def setNumFrames (s : Average) (f : Int) : Average :=
  if f > 0 then { s with m_numFrames := f } else s

/-- One frame, after what is on the pin for the number of frames. The output is not rounded. -/
def process (s : Average) (numFrames : Option Int) (src : CvMat) : Average × Option CvMat :=
  let s := match numFrames with
    | some frames => if s.m_numFrames ≠ frames then s.setNumFrames frames else s
    | none => s
  -- another size: what was there is dropped, and this frame is converted into its place
  let avg : src.size.Samples :=
    if h : s.m_avg.size = src.size then h ▸ s.m_avg.samples else src.samples
  let avg := avg + src.samples
  if s.m_total ≥ s.m_numFrames then
    ({ s with m_avg := src, m_total := 0 + 1 }, some ⟨src.size, fun i => avg i * (1 / s.m_total)⟩)
  else ({ s with m_avg := ⟨src.size, avg⟩, m_total := s.m_total + 1 }, none)

end Average

/-- What happens to a processor whose frames are all equally sized. -/
inductive AverageEvent (size : Size) where
  | start
  | stop
  | setNumFrames (f : Int)
  | process (numFrames : Option Int) (frame : size.Samples)

namespace Average
variable {size : Size}

def step (s : Average) : AverageEvent size → Average × Option CvMat
  | .start => (s.start, none)
  | .stop => (s, none)
  | .setNumFrames f => (s.setNumFrames f, none)
  | .process numFrames frame => s.process numFrames ⟨size, frame⟩

def after (s : Average) (es : List (AverageEvent size)) : Average :=
  es.foldl (fun s e => (s.step e).1) s

/-- The events, each with whether there was an output. -/
def history (s : Average) : List (AverageEvent size) → List (AverageEvent size × Bool)
  | [] => []
  | e :: es => (e, (s.step e).2.isSome) :: history (s.step e).1 es

end Average

/-- The time since the last output or start. -/
structure Period (size : Size) where
  frames : List size.Samples
  /-- the sum of what was received before and is still there -/
  left : size.Samples
  /-- it began with an output -/
  afterOutput : Bool
  /-- there was no frame yet -/
  first : Bool

namespace Period
variable {size : Size}

def new : Period size := ⟨[], 0, false, true⟩

/-- The very first frame is received as if it had been there before as well. -/
def leftWith (p : Period size) (frame : size.Samples) : size.Samples :=
  if p.first then frame else p.left

def next (p : Period size) : AverageEvent size × Bool → Period size
  | (.start, _) => ⟨[], p.left + p.frames.sum, false, p.first⟩
  | (.process _ frame, true) => ⟨[], frame, true, false⟩
  | (.process _ frame, false) => ⟨p.frames ++ [frame], p.leftWith frame, p.afterOutput, false⟩
  | (.stop, _) => p
  | (.setNumFrames _, _) => p

def since (events : List (AverageEvent size × Bool)) : Period size := events.foldl next new

def mean (frames : List size.Samples) : size.Samples := fun i => frames.sum i / frames.length

/-- When the average with this frame is the mean of the frames of the period. -/
def MeanWhen (p : Period size) (frame : size.Samples) : Prop :=
  if p.afterOutput then p.left = 0
  else ((p.frames.length + 1 : Nat) : ℚ) • p.leftWith frame + (p.frames ++ [frame]).sum = 0

end Period

namespace Average
variable {size : Size} {s : Average}
open Period

structure Accumulates (s : Average) (p : Period size) : Prop where
  pos : 0 < s.m_numFrames
  total : s.m_total = p.frames.length + if p.afterOutput then 1 else 0
  first : p.first = true → s.m_avg = .empty ∧ p.frames = [] ∧ p.left = 0 ∧ p.afterOutput = false
  avg : p.first = false → s.m_avg = ⟨size, p.left + p.frames.sum⟩

theorem Accumulates.new : Accumulates Average.new (Period.new : Period size) where
  pos := (by decide : (0 : Int) < 10)
  total := rfl
  first _ := ⟨rfl, rfl, rfl, rfl⟩
  avg h := by cases h

theorem setNumFrames_pos (h : 0 < s.m_numFrames) (f : Int) :
    0 < (s.setNumFrames f).m_numFrames := by
  unfold setNumFrames
  split
  · assumption
  · exact h

theorem setNumFrames_same (s : Average) (f : Int) :
    (s.setNumFrames f).m_avg = s.m_avg ∧ (s.setNumFrames f).m_total = s.m_total := by
  unfold setNumFrames
  split <;> exact ⟨rfl, rfl⟩

theorem Accumulates.setNumFrames {p : Period size} (h : Accumulates s p) (f : Int) :
    Accumulates (s.setNumFrames f) p := by
  obtain ⟨havg, htotal⟩ := setNumFrames_same s f
  exact ⟨setNumFrames_pos h.pos f, htotal ▸ h.total, havg ▸ h.first, havg ▸ h.avg⟩

/-- The state when the frame is looked at. -/
def atFrame (s : Average) (numFrames : Option Int) : Average :=
  match numFrames with
  | some frames => if s.m_numFrames ≠ frames then s.setNumFrames frames else s
  | none => s

theorem Accumulates.atFrame {p : Period size} (h : Accumulates s p) (numFrames : Option Int) :
    Accumulates (s.atFrame numFrames) p := by
  unfold Average.atFrame
  split
  · split
    · exact h.setNumFrames _
    · exact h
  · exact h

def accumulated (s : Average) (src : CvMat) : src.size.Samples :=
  (if h : s.m_avg.size = src.size then h ▸ s.m_avg.samples else src.samples) + src.samples

theorem process_eq (s : Average) (numFrames : Option Int) (src : CvMat) :
    s.process numFrames src =
      let s := s.atFrame numFrames
      if s.m_total ≥ s.m_numFrames then
        ({ s with m_avg := src, m_total := 1 },
          some ⟨src.size, fun i => s.accumulated src i * (1 / s.m_total)⟩)
      else ({ s with m_avg := ⟨src.size, s.accumulated src⟩, m_total := s.m_total + 1 }, none) := rfl

theorem Accumulates.accumulated {p : Period size} (h : Accumulates s p) (frame : size.Samples) :
    s.accumulated ⟨size, frame⟩ = p.leftWith frame + (p.frames ++ [frame]).sum := by
  unfold Average.accumulated leftWith
  rw [List.sum_append, List.sum_singleton]
  cases hfirst : p.first with
  | true =>
    obtain ⟨havg, hframes, -⟩ := h.first hfirst
    rw [hframes, List.sum_nil, zero_add, if_pos rfl]
    congr 1
    split
    · -- an image without samples
      rename_i hsize
      rw [havg] at hsize
      subst hsize
      exact funext fun i => i.1.elim0
    · rfl
  | false =>
    rw [h.avg hfirst, dif_pos rfl, if_neg Bool.false_ne_true, add_assoc]

theorem Accumulates.step {p : Period size} (h : Accumulates s p) (e : AverageEvent size) :
    Accumulates (s.step e).1 (p.next (e, (s.step e).2.isSome)) := by
  cases e with
  | start =>
    refine ⟨h.pos, rfl, fun hfirst => ?_, fun hfirst => ?_⟩
    · obtain ⟨havg, hframes, hleft, -⟩ := h.first hfirst
      refine ⟨havg, rfl, ?_, rfl⟩
      change p.left + p.frames.sum = 0
      rw [hleft, hframes, List.sum_nil, zero_add]
    · change s.m_avg = ⟨size, p.left + p.frames.sum + 0⟩
      rw [add_zero, h.avg hfirst]
  | stop => exact h
  | setNumFrames f => exact h.setNumFrames f
  | process numFrames frame =>
    have ht := h.atFrame numFrames
    have havg := ht.accumulated frame
    change Accumulates (s.process _ _).1 (p.next (_, (s.process _ _).2.isSome))
    rw [process_eq]
    dsimp only
    split
    · refine ⟨ht.pos, rfl, (fun hfirst => by cases hfirst), fun _ => ?_⟩
      change (⟨size, frame⟩ : CvMat) = ⟨size, frame + 0⟩
      rw [add_zero]
    · refine ⟨ht.pos, ?_, (fun hfirst => by cases hfirst), fun _ => ?_⟩
      · change (s.atFrame numFrames).m_total + 1 = ((p.frames ++ [frame]).length : Nat) + _
        rw [ht.total, List.length_append, List.length_singleton]
        push_cast
        change _ = (p.frames.length : Int) + 1 + if p.afterOutput then 1 else 0
        omega
      · dsimp only
        rw [havg]
        rfl

theorem Accumulates.after {p : Period size} (h : Accumulates s p) (es : List (AverageEvent size)) :
    Accumulates (s.after es) ((s.history es).foldl next p) := by
  induction es generalizing s p with
  | nil => exact h
  | cons e es ih => exact ih (h.step e)

theorem accumulates (es : List (AverageEvent size)) :
    Accumulates (Average.new.after es) (since (Average.new.history es)) :=
  Accumulates.new.after es

/-- With something left from before, or one frame more than is divided by. -/
theorem div_eq_mean_iff (n : Nat) (b : Bool) (left sum : ℚ) (hpos : b = false → 0 < n) :
    (left + sum) * (1 / ((n : Int) + (if b then 1 else 0) : Int)) = sum / ((n + 1 : Nat) : ℚ) ↔
      if b then left = 0 else ((n + 1 : Nat) : ℚ) * left + sum = 0 := by
  have hn : ((n : ℚ) + 1) ≠ 0 := by positivity
  cases b with
  | true =>
    simp only [if_true]
    push_cast
    rw [mul_one_div, div_left_inj' hn]
    exact add_eq_right
  | false =>
    have hpos := hpos rfl
    have hn' : (n : ℚ) ≠ 0 := by positivity
    simp only [Bool.false_eq_true, if_false]
    push_cast
    rw [add_zero, mul_one_div, div_eq_div_iff hn' hn]
    constructor
    · intro h
      linear_combination h
    · intro h
      linear_combination h

theorem Accumulates.mean_iff {p : Period size} (h : Accumulates s p) {numFrames : Option Int}
    {frame : size.Samples} {out : CvMat} (hout : (s.step (.process numFrames frame)).2 = some out) :
    out = ⟨size, mean (p.frames ++ [frame])⟩ ↔ p.MeanWhen frame := by
  have ht := h.atFrame numFrames
  have havg := ht.accumulated frame
  change (s.process _ _).2 = some out at hout
  rw [process_eq] at hout
  dsimp only at hout
  split at hout
  case isFalse => cases hout
  rename_i hle
  cases hout
  have htotal := ht.total
  have hpos := ht.pos
  have hn : p.afterOutput = false → 0 < p.frames.length := by
    intro hafter
    rw [hafter] at htotal
    simp only [Bool.false_eq_true, if_false] at htotal
    omega
  have heach := fun i => div_eq_mean_iff p.frames.length p.afterOutput (p.leftWith frame i)
    ((p.frames ++ [frame]).sum i) hn
  rw [CvMat.mk.injEq, heq_eq_eq, funext_iff]
  simp only [true_and, havg, htotal]
  unfold mean MeanWhen
  rw [List.length_append, List.length_singleton]
  have heq : (∀ i, (p.leftWith frame + (p.frames ++ [frame]).sum) i *
      (1 / ((p.frames.length + if p.afterOutput then 1 else 0 : Int) : ℚ)) =
        (p.frames ++ [frame]).sum i / ((p.frames.length + 1 : Nat) : ℚ)) ↔
      ∀ i, if p.afterOutput then p.leftWith frame i = 0
        else ((p.frames.length + 1 : Nat) : ℚ) * p.leftWith frame i +
          (p.frames ++ [frame]).sum i = 0 := forall_congr' heach
  rw [heq]
  cases hafter : p.afterOutput with
  | true =>
    have hleft : p.leftWith frame = p.left := by
      unfold leftWith
      rw [if_neg]
      intro hfirst
      rw [(h.first hfirst).2.2.2] at hafter
      cases hafter
    simp only [if_true, hleft]
    exact funext_iff.symm
  | false =>
    simp only [Bool.false_eq_true, if_false]
    exact funext_iff.symm

end Average

namespace AverageEvent
variable {size : Size}

def isFrame : AverageEvent size → Bool
  | .process _ _ => true
  | _ => false

def Keeps (m_numFrames : Int) : AverageEvent size → Prop
  | .start => False
  | .stop => True
  | .setNumFrames f => f ≤ 0 ∨ f = m_numFrames
  | .process numFrames _ => ∀ f, numFrames = some f → f ≤ 0 ∨ f = m_numFrames

def frameCount (es : List (AverageEvent size)) : Nat := es.countP isFrame

theorem exists_frame {es : List (AverageEvent size)} {n : Nat} (h : n < frameCount es) :
    ∃ before e later, es = before ++ e :: later ∧ e.isFrame = true ∧ frameCount before = n := by
  induction es generalizing n with
  | nil => cases h
  | cons e es ih =>
    by_cases he : e.isFrame = true
    · cases n with
      | zero => exact ⟨[], e, es, rfl, he, rfl⟩
      | succ n =>
        have hcount : frameCount (e :: es) = frameCount es + 1 := List.countP_cons_of_pos he
        obtain ⟨before, e', later, rfl, he', hn⟩ := ih (n := n) (by omega)
        refine ⟨e :: before, e', later, rfl, he', ?_⟩
        rw [← hn]
        exact List.countP_cons_of_pos he
    · have hcount : frameCount (e :: es) = frameCount es := List.countP_cons_of_neg he
      obtain ⟨before, e', later, rfl, he', hn⟩ := ih (n := n) (by omega)
      refine ⟨e :: before, e', later, rfl, he', ?_⟩
      rw [← hn]
      exact List.countP_cons_of_neg he

end AverageEvent

namespace Average
variable {size : Size} {s : Average}
open Period AverageEvent

structure Counts (s : Average) (m_numFrames : Int) (frames : Nat) : Prop where
  pos : 0 < m_numFrames
  numFrames : s.m_numFrames = m_numFrames
  total : s.m_total = if frames = 0 then 0 else ((frames : Int) - 1) % m_numFrames + 1

theorem emod_pred {n c : Int} (hn : 0 < n) :
    (n ≤ (c - 1) % n + 1 ↔ n ∣ c) ∧
      c % n + 1 = if n ≤ (c - 1) % n + 1 then 1 else (c - 1) % n + 1 + 1 := by
  have hlo := Int.emod_nonneg (c - 1) hn.ne'
  have hhi := Int.emod_lt_of_pos (c - 1) hn
  have hc : c = n * ((c - 1) / n) + ((c - 1) % n + 1) := by
    have := Int.mul_ediv_add_emod (c - 1) n
    omega
  have hmod : c % n = ((c - 1) % n + 1) % n := by
    conv_lhs => rw [hc]
    exact Int.mul_add_emod_self_left ..
  by_cases hle : n ≤ (c - 1) % n + 1
  · have heq : (c - 1) % n + 1 = n := by omega
    rw [heq, Int.emod_self] at hmod
    rw [if_pos hle, hmod]
    exact ⟨iff_of_true hle (Int.dvd_of_emod_eq_zero hmod), rfl⟩
  · have heq : ((c - 1) % n + 1) % n = (c - 1) % n + 1 := Int.emod_eq_of_lt (by omega) (by omega)
    rw [heq] at hmod
    rw [if_neg hle, hmod]
    refine ⟨iff_of_false hle fun hdvd => ?_, rfl⟩
    have := Int.emod_eq_zero_of_dvd hdvd
    omega

theorem Counts.setNumFrames {m_numFrames : Int} {c : Nat} (h : Counts s m_numFrames c) {f : Int}
    (hf : f ≤ 0 ∨ f = m_numFrames) : Counts (s.setNumFrames f) m_numFrames c := by
  unfold Average.setNumFrames
  split
  · exact ⟨h.pos, hf.resolve_left (by omega), h.total⟩
  · exact h

theorem Counts.atFrame {m_numFrames : Int} {c : Nat} (h : Counts s m_numFrames c)
    {numFrames : Option Int} (hf : ∀ f, numFrames = some f → f ≤ 0 ∨ f = m_numFrames) :
    Counts (s.atFrame numFrames) m_numFrames c := by
  unfold Average.atFrame
  split
  · split
    · exact h.setNumFrames (hf _ rfl)
    · exact h
  · exact h

/-- An output comes one frame late. -/
theorem Counts.process {m_numFrames : Int} {c : Nat} (h : Counts s m_numFrames c)
    {numFrames : Option Int} {frame : size.Samples}
    (hf : ∀ f, numFrames = some f → f ≤ 0 ∨ f = m_numFrames) :
    ((s.process numFrames ⟨size, frame⟩).2.isSome ↔ c ≠ 0 ∧ m_numFrames ∣ (c : Int)) ∧
      Counts (s.process numFrames ⟨size, frame⟩).1 m_numFrames (c + 1) := by
  have ht := h.atFrame hf
  have hpos := h.pos
  have htotal := ht.total
  obtain ⟨hdvd, hnext⟩ := emod_pred (c := c) hpos
  have hlast : ((c + 1 : Nat) : Int) - 1 = c := by omega
  rw [process_eq]
  dsimp only
  rw [ht.numFrames, htotal]
  by_cases hc : c = 0
  · subst hc
    rw [if_pos rfl, if_neg (by omega)]
    exact ⟨by simp, hpos, rfl, by simp⟩
  · rw [if_neg hc]
    split
    · rename_i hle
      rw [if_pos hle] at hnext
      refine ⟨iff_of_true rfl ⟨hc, hdvd.mp hle⟩, hpos, rfl, ?_⟩
      rw [if_neg (by omega), hlast, hnext]
    · rename_i hle
      rw [if_neg hle] at hnext
      refine ⟨iff_of_false (by simp) fun hd => hle (hdvd.mpr hd.2), hpos, rfl, ?_⟩
      rw [if_neg (by omega), hlast, hnext]

theorem Counts.after {m_numFrames : Int} {c : Nat} (h : Counts s m_numFrames c)
    {es : List (AverageEvent size)} (hes : ∀ e ∈ es, e.Keeps m_numFrames) :
    Counts (s.after es) m_numFrames (c + frameCount es) := by
  induction es generalizing s c with
  | nil => exact h
  | cons e es ih =>
    obtain ⟨he, hrest⟩ := List.forall_mem_cons.mp hes
    cases e with
    | start => exact he.elim
    | stop => exact ih h hrest
    | setNumFrames f => exact ih (h.setNumFrames he) hrest
    | process numFrames frame =>
      have hcount : frameCount (.process numFrames frame :: es) = frameCount es + 1 :=
        List.countP_cons_of_pos rfl
      rw [hcount, Nat.add_comm _ 1, ← Nat.add_assoc]
      exact ih (h.process he).2 hrest

/-- From `start` on, with a constant number of frames. -/
theorem output_iff (hpos : 0 < s.m_numFrames) {before : List (AverageEvent size)}
    (hbefore : ∀ e ∈ before, e.Keeps s.m_numFrames) {e : AverageEvent size}
    (he : e.Keeps s.m_numFrames) (hframe : e.isFrame = true) :
    ((s.after (.start :: before)).step e).2.isSome ↔
      frameCount before ≠ 0 ∧ s.m_numFrames ∣ (frameCount before : Int) := by
  have hstart : Counts s.start s.m_numFrames 0 := ⟨hpos, rfl, rfl⟩
  have hcounts := hstart.after hbefore
  rw [Nat.zero_add] at hcounts
  cases e with
  | start => cases hframe
  | stop => cases hframe
  | setNumFrames f => cases hframe
  | process numFrames frame => exact (hcounts.process he).1

theorem every_iff (hpos : 0 < s.m_numFrames) {es : List (AverageEvent size)}
    (hes : ∀ e ∈ es, e.Keeps s.m_numFrames) :
    (∀ before e later, es = before ++ e :: later → e.isFrame = true →
      (((s.after (.start :: before)).step e).2.isSome ↔
        s.m_numFrames ∣ (frameCount before + 1 : Nat))) ↔
      frameCount es < s.m_numFrames := by
  have hiff : ∀ before e later, es = before ++ e :: later → e.isFrame = true →
      (((s.after (.start :: before)).step e).2.isSome ↔
        frameCount before ≠ 0 ∧ s.m_numFrames ∣ (frameCount before : Int)) := by
    rintro before e later rfl hframe
    exact output_iff hpos (fun e' he' => hes e' (by simp [he'])) (hes e (by simp)) hframe
  constructor
  · -- the last of the first frames gives no output
    intro hevery
    by_contra hlt
    obtain ⟨n, hn⟩ : ∃ n : Nat, s.m_numFrames = n + 1 := ⟨(s.m_numFrames - 1).toNat, by omega⟩
    have hframes : n < frameCount es := by omega
    obtain ⟨before, e, later, heq, hframe, hcount⟩ := exists_frame hframes
    have hout := (hevery before e later heq hframe).mpr (by rw [hcount, hn]; simp)
    obtain ⟨hzero, hdvd⟩ := (hiff before e later heq hframe).mp hout
    rw [hcount] at hzero hdvd
    have hle := Int.le_of_dvd (by omega) hdvd
    omega
  · intro hlt before e later heq hframe
    have hcount : frameCount es = frameCount before + 1 + frameCount later := by
      rw [heq]
      unfold frameCount
      rw [List.countP_append, List.countP_cons_of_pos hframe]
      omega
    rw [hiff before e later heq hframe]
    refine iff_of_false (fun hout => ?_) fun hdvd => ?_
    · have hle := Int.le_of_dvd (by omega) hout.2
      omega
    · have hle := Int.le_of_dvd (by omega) hdvd
      omega

/-- After an output the frame that gave it is still there, and after `start` all that was not
averaged. The first output after `start` also divides by one less than the number of frames, and
comes one frame late. -/
theorem average_right (es : List (AverageEvent size)) :
    (∀ numFrames frame out,
      ((new.after es).step (.process numFrames frame)).2 = some out →
        (out = ⟨size, mean ((since (new.history es)).frames ++ [frame])⟩ ↔
          (since (new.history es)).MeanWhen frame)) ∧
    ∀ es', (∀ e ∈ es', e.Keeps (new.after es).m_numFrames) →
      ((∀ before e later, es' = before ++ e :: later → e.isFrame = true →
        (((new.after (es ++ .start :: before)).step e).2.isSome ↔
          (new.after es).m_numFrames ∣ (frameCount before + 1 : Nat))) ↔
        frameCount es' < (new.after es).m_numFrames) := by
  have h := accumulates es
  refine ⟨fun numFrames frame out hout => h.mean_iff hout, fun es' hes' => ?_⟩
  have happend : ∀ before : List (AverageEvent size),
      new.after (es ++ .start :: before) = (new.after es).after (.start :: before) :=
    fun before => List.foldl_append ..
  simp only [happend]
  exact every_iff h.pos hes'

def bright : Size.Samples ⟨1, 1, 1⟩ := fun _ => 2

def brightFrames : List (AverageEvent ⟨1, 1, 1⟩) := [.setNumFrames 1, .start, .process none bright]

def laterFrames : List (AverageEvent ⟨1, 1, 1⟩) := [.process none bright, .process none bright]

/-- The second of the frames gives an output when it is to come after each, and none of two does when
it is to come after three. -/
theorem average_right_one :
    (∃ out, ((new.after brightFrames).step (.process none bright)).2 = some out ∧
      (out = ⟨⟨1, 1, 1⟩, mean ((since (new.history brightFrames)).frames ++ [bright])⟩ ↔
        (since (new.history brightFrames)).MeanWhen bright)) ∧
    ∀ before e later, laterFrames = before ++ e :: later →
      e.isFrame = true →
        (((new.after ([.setNumFrames 3] ++ .start :: before)).step e).2.isSome ↔
          (3 : Int) ∣ (frameCount before + 1 : Nat)) := by
  obtain ⟨hmean, -⟩ := average_right brightFrames
  obtain ⟨-, hevery⟩ := @average_right ⟨1, 1, 1⟩ [.setNumFrames 3]
  have hkeeps : ∀ e ∈ laterFrames, e.Keeps 3 := by
    simp [laterFrames, AverageEvent.Keeps]
  exact ⟨⟨_, rfl, hmean none bright _ rfl⟩, (hevery _ hkeeps).mpr (by decide)⟩

/-- The first of two equal frames is counted twice, and the sum is divided by one. -/
theorem average_too_bright :
    ¬ ∀ (es : List (AverageEvent ⟨1, 1, 1⟩)) frame out,
      ((new.after es).step (.process none frame)).2 = some out →
        out = ⟨⟨1, 1, 1⟩, mean ((since (new.history es)).frames ++ [frame])⟩ := by
  intro hall
  have hmean := hall brightFrames bright _ rfl
  rw [CvMat.mk.injEq, heq_eq_eq] at hmean
  have hsample : (2 + 2 + 2 : ℚ) * (1 / (1 : Int)) = (2 + (2 + 0)) / (2 : Nat) :=
    congrFun hmean.2 (0, 0, 0)
  norm_num at hsample

end Average

end ParleVision.Opencv
