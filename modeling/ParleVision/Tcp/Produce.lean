import ParleVision.Runtime.Source
import ParleVision.Runtime.Monotone

namespace ParleVision.Tcp
open ParleVision.Lib ParleVision.Runtime

structure OutputPin where
  name : String
  typeId : Int
deriving DecidableEq

namespace TCPClientProducer
variable {V : Type}

section
variable (outputPins : List OutputPin) (userType : V → Int)

/-- The first pin of the type whose name was not taken yet. -/
def matchPin (taken : List String) (v : V) : Option OutputPin :=
  outputPins.find? fun out => decide (out.name ∉ taken) && decide (out.typeId = userType v)

/-- What `produce` puts of a frame, pin by pin; a value that no pin is left for is dropped. -/
def matchFrame : List String → List V → List (OutputPin × V)
  | _, [] => []
  | taken, v :: frame =>
    match matchPin outputPins userType taken v with
    | some out => (out, v) :: matchFrame (out.name :: taken) frame
    | none => matchFrame taken frame

def pinsLeft (typeId : Int) (taken : List String) : List OutputPin :=
  outputPins.filter fun out => decide (out.name ∉ taken) && decide (out.typeId = typeId)

theorem matchPin_eq (taken : List String) (v : V) :
    matchPin outputPins userType taken v = (pinsLeft outputPins (userType v) taken).head? := by
  rw [matchPin, pinsLeft, List.head?_filter]

/-- A pin that is taken is not left, and nothing else changes. -/
theorem pinsLeft_cons {out : OutputPin} {taken : List String} (typeId : Int)
    (hnames : (outputPins.map OutputPin.name).Nodup) (hout : out ∈ outputPins) :
    pinsLeft outputPins typeId (out.name :: taken) =
      (pinsLeft outputPins typeId taken).filter (· ≠ out) := by
  rw [pinsLeft, pinsLeft, List.filter_filter]
  apply List.filter_congr
  intro out' hout'
  have hname : out'.name = out.name ↔ out' = out :=
    ⟨fun h => List.inj_on_of_nodup_map hnames hout' hout h, congrArg OutputPin.name⟩
  simp only [List.mem_cons, not_or, hname, ne_eq, Bool.decide_and, Bool.and_assoc]

theorem pinsLeft_nodup (hnames : (outputPins.map OutputPin.name).Nodup) (typeId : Int)
    (taken : List String) : (pinsLeft outputPins typeId taken).Nodup :=
  hnames.of_map.filter _

/-- The values of each type go to the pins of the type, the first to the first and so on, as far as
there are both. -/
theorem matchFrame_filter (hnames : (outputPins.map OutputPin.name).Nodup) (typeId : Int)
    (taken : List String) (frame : List V) :
    (matchFrame outputPins userType taken frame).filter (fun put => put.1.typeId = typeId) =
      (pinsLeft outputPins typeId taken).zip (frame.filter fun v => userType v = typeId) := by
  induction frame generalizing taken with
  | nil => rw [matchFrame, List.filter_nil, List.filter_nil, List.zip_nil_right]
  | cons v frame ih =>
    unfold matchFrame
    rw [matchPin_eq]
    cases hleft : pinsLeft outputPins (userType v) taken with
    | nil =>
      rw [List.head?_nil, ih]
      by_cases htype : userType v = typeId
      · subst htype
        rw [hleft, List.zip_nil_left, List.zip_nil_left]
      · rw [List.filter_cons_of_neg (by simpa using htype)]
    | cons out rest =>
      have hmem : out ∈ pinsLeft outputPins (userType v) taken := by
        rw [hleft]
        exact List.mem_cons_self ..
      obtain ⟨hout, hfound⟩ := List.mem_filter.mp hmem
      have houttype : out.typeId = userType v := by
        simp only [Bool.and_eq_true, decide_eq_true_eq] at hfound
        exact hfound.2
      have hnodup := pinsLeft_nodup outputPins hnames (userType v) taken
      rw [hleft, List.nodup_cons] at hnodup
      simp only [List.head?_cons]
      by_cases htype : userType v = typeId
      · subst htype
        have hrest : (out :: rest).filter (· ≠ out) = rest := by
          rw [List.filter_cons_of_neg (by simp), List.filter_eq_self]
          intro out' hout'
          exact decide_eq_true fun he => hnodup.1 (he ▸ hout')
        rw [List.filter_cons_of_pos (by simpa using houttype), ih,
          pinsLeft_cons outputPins _ hnames hout, hleft, hrest,
          List.filter_cons_of_pos (by simp), List.zip_cons_cons]
      · -- a pin of another type is not one of those that count
        have hother : (pinsLeft outputPins typeId taken).filter (· ≠ out) =
            pinsLeft outputPins typeId taken := by
          rw [List.filter_eq_self]
          intro out' hout'
          have hfound' := (List.mem_filter.mp hout').2
          simp only [Bool.and_eq_true, decide_eq_true_eq] at hfound'
          refine decide_eq_true fun he => htype ?_
          rw [← houttype, ← he]
          exact hfound'.2
        have hneg : out.typeId ≠ typeId := fun he => htype (houttype.symm.trans he)
        rw [List.filter_cons_of_neg (by simpa using hneg), ih,
          pinsLeft_cons outputPins _ hnames hout, hother,
          List.filter_cons_of_neg (by simpa using htype)]

/-- Every value goes to a pin of its type. -/
theorem matchFrame_typed (taken : List String) (frame : List V) :
    ∀ put ∈ matchFrame outputPins userType taken frame, put.1.typeId = userType put.2 := by
  induction frame generalizing taken with
  | nil => exact fun put hput => absurd hput List.not_mem_nil
  | cons v frame ih =>
    unfold matchFrame
    split
    case h_1 out hout =>
      intro put hput
      rcases List.mem_cons.mp hput with rfl | hput
      · have hfound := List.find?_some hout
        simp only [Bool.and_eq_true, decide_eq_true_eq] at hfound
        exact hfound.2
      · exact ih _ put hput
    case h_2 => exact ih _

def produce : List (List V) → Option (List (OutputPin × V) × List (List V))
  | [] => none
  | frame :: m_frameList => some (matchFrame outputPins userType [] frame, m_frameList)

def source : Source (List (List V)) (List V) (List (OutputPin × V)) where
  readyToProduce m_frameList := !m_frameList.isEmpty
  arrives m_frameList frame := m_frameList ++ [frame]
  produce := produce outputPins userType

theorem lawful : (source outputPins userType).Lawful fun _ => True where
  stays m_frameList frame _ := by simp [source]
  produces m_frameList hready := by
    cases m_frameList with
    | nil => cases hready
    | cons frame m_frameList => exact ⟨_, m_frameList, rfl, trivial⟩

end

variable {outputPins : List OutputPin} {userType : V → Int}

structure Distributed (outputPins : List OutputPin) (userType : V → Int) (frame : List V)
    (puts : List (OutputPin × V)) : Prop where
  typed : ∀ put ∈ puts, put.1.typeId = userType put.2
  each : ∀ typeId, puts.filter (fun put => put.1.typeId = typeId) =
    (outputPins.filter fun out => out.typeId = typeId).zip
      (frame.filter fun v => userType v = typeId)

theorem matchFrame_distributed (hnames : (outputPins.map OutputPin.name).Nodup) (frame : List V) :
    Distributed outputPins userType frame (matchFrame outputPins userType [] frame) where
  typed := matchFrame_typed outputPins userType [] frame
  each typeId := by
    rw [matchFrame_filter outputPins userType hnames, pinsLeft]
    simp only [List.not_mem_nil, not_false_eq_true, decide_true, Bool.true_and]

section
variable {E P C : Type} [DecidableEq E] [DecidableEq P] [DecidableEq C] {net : Network E P C}

/-- What was received before `produce` takes its next frame; and there is one to take. -/
theorem frames_invariant {client : E} {first : Nat} {stale : E → Nat → Nat}
    {left : List (List V)} {t : SourcedState E P C (List (List V)) (List V) (List (OutputPin × V))}
    (hnames : (outputPins.map OutputPin.name).Nodup) (hclient : net.isProducer client = true)
    (h : Reaches (SourcedState.step client (source outputPins userType) net) (fun _ _ => True)
      (.started first stale left) t) :
    (∃ frames, left ++ t.arrived = frames ++ t.source ∧
      List.Forall₂ (Distributed outputPins userType) frames t.produced) ∧
      ∀ got, t.worker client = .processing ⟨[], got⟩ →
        ∃ o s', produce outputPins userType t.source = some (o, s') := by
  have harrives (m_frameList : List (List V)) (frame : List V) (arrived : List (List V))
      (produced : List (List (OutputPin × V)))
      (hJ : ∃ frames, left ++ arrived = frames ++ m_frameList ∧
        List.Forall₂ (Distributed outputPins userType) frames produced) :
      ∃ frames, left ++ (arrived ++ [frame]) = frames ++ (m_frameList ++ [frame]) ∧
        List.Forall₂ (Distributed outputPins userType) frames produced := by
    obtain ⟨frames, heq, hall⟩ := hJ
    exact ⟨frames, by rw [← List.append_assoc, heq, List.append_assoc], hall⟩
  have hproduces (m_frameList arrived : List (List V)) (produced : List (List (OutputPin × V)))
      (puts : List (OutputPin × V)) (rest : List (List V))
      (hJ : ∃ frames, left ++ arrived = frames ++ m_frameList ∧
        List.Forall₂ (Distributed outputPins userType) frames produced)
      (hproduce : produce outputPins userType m_frameList = some (puts, rest)) :
      ∃ frames, left ++ arrived = frames ++ rest ∧
        List.Forall₂ (Distributed outputPins userType) frames (produced ++ [puts]) := by
    obtain ⟨frames, heq, hall⟩ := hJ
    cases m_frameList with
    | nil => cases hproduce
    | cons frame m_frameList =>
      cases hproduce
      refine ⟨frames ++ [frame], by rw [heq, List.append_assoc]; rfl, ?_⟩
      exact List.rel_append hall (.cons (matchFrame_distributed hnames frame) .nil)
  obtain ⟨hframes, -, hnext⟩ := SourcedState.invariant
    (J := fun m_frameList arrived produced => ∃ frames, left ++ arrived = frames ++ m_frameList ∧
      List.Forall₂ (Distributed outputPins userType) frames produced)
    (lawful outputPins userType) hclient ⟨[], List.append_nil _, .nil⟩ harrives hproduces h
  refine ⟨hframes, fun got hw => ?_⟩
  obtain ⟨puts, rest, hproduce, -⟩ := hnext got hw
  exact ⟨puts, rest, hproduce⟩

/-- Whatever the order in which frames are received and the pipeline takes its steps: every frame
is produced once and in the order they came, none is left out, and the values of each of its types
go to the pins of the type. `takeFirst` is never called on an empty list. -/
theorem client_frames {client : E} {first : Nat} {stale : E → Nat → Nat}
    {left : List (List V)} {t : SourcedState E P C (List (List V)) (List V) (List (OutputPin × V))}
    (hnames : (outputPins.map OutputPin.name).Nodup) (hclient : net.isProducer client = true)
    (h : Reaches (SourcedState.step client (source outputPins userType) net) (fun _ _ => True)
      (.started first stale left) t) :
    (∃ frames, left ++ t.arrived = frames ++ t.source ∧
      List.Forall₂ (Distributed outputPins userType) frames t.produced) ∧
      ∀ got, t.worker client = .processing ⟨[], got⟩ → t.source ≠ [] := by
  obtain ⟨hframes, hnext⟩ := frames_invariant hnames hclient h
  refine ⟨hframes, fun got hw hempty => ?_⟩
  obtain ⟨puts, rest, hproduce⟩ := hnext got hw
  rw [hempty] at hproduce
  cases hproduce

def clientPins : List OutputPin := [⟨"int", 2⟩, ⟨"CvMatData1", 256⟩, ⟨"CvMatData2", 256⟩]

/-- Of three images and a number in one frame, the third image has no pin. -/
theorem client_frames_chain :
    ∃ t : SourcedState (Fin 3) (Fin 2) (Fin 2) (List (List (Int × Nat))) (List (Int × Nat))
        (List (OutputPin × Int × Nat)),
      t.produced.map (fun puts => puts.map fun put => (put.1.name, put.2.2)) =
        [[("CvMatData1", 1), ("CvMatData2", 2), ("int", 5)]] ∧
      (∃ frames, [] ++ t.arrived = frames ++ t.source ∧
        List.Forall₂ (Distributed clientPins Prod.fst) frames t.produced) ∧
      ∀ got, t.worker 0 = .processing ⟨[], got⟩ → t.source ≠ [] := by
  have hend : (run (SourcedState.step 0 (source clientPins Prod.fst) (chain true))
      (.started 1 (fun _ _ => 0) [])
      (.arrives [(256, 1), (256, 2), (2, 5), (256, 3)] ::
        (chainFrame.take 16).map SourcedEvent.pipeline)).map
        (fun t => t.produced.map fun puts => puts.map fun put => (put.1.name, put.2.2)) =
      some [[("CvMatData1", 1), ("CvMatData2", 2), ("int", 5)]] := by decide +kernel
  obtain ⟨t, ht, hproduced⟩ := Option.map_eq_some_iff.mp hend
  exact ⟨t, hproduced, client_frames (by decide) (by decide) (.of_run (fun _ _ _ => trivial) ht)⟩

end

end TCPClientProducer

end ParleVision.Tcp
