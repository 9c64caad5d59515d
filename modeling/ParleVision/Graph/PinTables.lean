import ParleVision.Graph.Store
import ParleVision.Lib.Run

namespace ParleVision.Graph
open Lib

/-- `addInputPin` and `addOutputPin` on their table, with what they return. -/
def addPin {P : Type} (setId : P → Int → P) (pins : QMap P) (m_id : Int) (pin : P) : QMap P × Int :=
  if m_id = -1 then
    let id := countUp pins pins.size 0
    (pins.insert id (setId pin id), id)
  else if m_id ∈ pins then (pins, -1)
  else (pins.insert m_id pin, m_id)

/-- `removeInputPin` and `removeOutputPin`: an id that is not in the table gets a warning when it is
there and none when it is not, and then its iterator is dereferenced and erased. -/
def removePin {P : Type} (pins : QMap P) (id : Int) : Option (QMap P) :=
  if id ∈ pins then some (pins.erase id) else none

def InputPin.setId (pin : InputPin) (id : Int) : InputPin := { pin with m_id := id }

def OutputPin.setId (pin : OutputPin) (id : Int) : OutputPin := { pin with m_id := id }

namespace Element

def getNextOutputPinId (e : Element) : Int := countUp e.m_outputPins e.m_outputPins.size 0

def addOutputPin (e : Element) (pin : OutputPin) : Element × Int :=
  ({ e with m_outputPins := (addPin OutputPin.setId e.m_outputPins pin.m_id pin).1 },
    (addPin OutputPin.setId e.m_outputPins pin.m_id pin).2)

def removeOutputPin (e : Element) (id : Int) : Option Element :=
  (removePin e.m_outputPins id).map fun pins => { e with m_outputPins := pins }

/-- The two copies of the code do the same. -/
theorem addInputPin_eq (e : Element) (pin : InputPin) : e.addInputPin pin =
    ({ e with m_inputPins := (addPin InputPin.setId e.m_inputPins pin.m_id pin).1 },
      (addPin InputPin.setId e.m_inputPins pin.m_id pin).2) := by
  unfold addInputPin addPin
  split
  · rfl
  · split <;> rfl

theorem removeInputPin_eq (e : Element) (id : Int) : e.removeInputPin id =
    (removePin e.m_inputPins id).map fun pins => { e with m_inputPins := pins } := by
  unfold removeInputPin removePin
  split <;> rfl

end Element

section
variable {P : Type}

def KeyedBy (getId : P → Int) (pins : QMap P) : Prop :=
  ∀ (i : Int) pin, pins[i]? = some pin → getId pin = i

structure Adds (setId : P → Int → P) (pins pins' : QMap P) (m_id : Int) (pin : P) (id : Int) :
    Prop where
  unset : m_id = -1 → id ∉ pins ∧ id ≠ -1 ∧ pins' = pins.insert id (setId pin id)
  used : m_id ≠ -1 → m_id ∈ pins → id = -1 ∧ pins' = pins
  unused : m_id ≠ -1 → m_id ∉ pins → id = m_id ∧ pins' = pins.insert m_id pin

structure Removes (pins : QMap P) (id : Int) (pins' : Option (QMap P)) : Prop where
  present : id ∈ pins → pins' = some (pins.erase id)
  absent : id ∉ pins → pins' = some pins

variable {setId : P → Int → P} {getId : P → Int} {pins : QMap P}

theorem addPin_adds (setId : P → Int → P) (pins : QMap P) (m_id : Int) (pin : P) :
    Adds setId pins (addPin setId pins m_id pin).1 m_id pin (addPin setId pins m_id pin).2 := by
  constructor
  case unset =>
    intro hunset
    obtain ⟨hle, -⟩ := countUp_below pins pins.size 0
    unfold addPin
    rw [if_pos hunset]
    exact ⟨countUp_size_notMem pins, by dsimp only; omega, rfl⟩
  case used =>
    intro hset hmem
    unfold addPin
    rw [if_neg hset, if_pos hmem]
    exact ⟨rfl, rfl⟩
  case unused =>
    intro hset hmem
    unfold addPin
    rw [if_neg hset, if_neg hmem]
    exact ⟨rfl, rfl⟩

theorem removePin_removes (pins : QMap P) (id : Int) :
    Removes pins id (removePin pins id) ↔ id ∈ pins := by
  unfold removePin
  split
  · rename_i hmem
    exact iff_of_true ⟨fun _ => rfl, fun hnot => absurd hmem hnot⟩ hmem
  · rename_i hmem
    refine iff_of_false (fun h => ?_) hmem
    cases h.absent hmem

/-- The same for an element with such a table. -/
theorem exists_removes (set : QMap P → Element) (hset : set.Injective) (pins : QMap P) (id : Int) :
    (∃ pins', (removePin pins id).map set = some (set pins') ∧ Removes pins id (some pins')) ↔
      id ∈ pins := by
  rw [← removePin_removes]
  constructor
  · rintro ⟨pins', heq, hremoves⟩
    obtain ⟨pins'', hpins, heq⟩ := Option.map_eq_some_iff.mp heq
    rw [hpins, hset heq]
    exact hremoves
  · intro hremoves
    have heq := hremoves.present ((removePin_removes pins id).mp hremoves)
    refine ⟨pins.erase id, by rw [heq]; rfl, ?_⟩
    rw [← heq]
    exact hremoves

theorem KeyedBy.empty : KeyedBy getId (∅ : QMap P) := by
  intro i pin hi
  simp at hi

theorem KeyedBy.insert (h : KeyedBy getId pins) {id : Int} {pin : P} (hid : getId pin = id) :
    KeyedBy getId (pins.insert id pin) := by
  intro i pin' hi
  rcases QMap.of_insert hi with ⟨rfl, rfl⟩ | hi
  · exact hid
  · exact h i pin' hi

theorem KeyedBy.addPin (h : KeyedBy getId pins) (hset : ∀ pin id, getId (setId pin id) = id)
    (pin : P) :
    KeyedBy getId (addPin setId pins (getId pin) pin).1 := by
  obtain ⟨hunset, hused, hunused⟩ := addPin_adds setId pins (getId pin) pin
  by_cases hid : getId pin = -1
  · rw [(hunset hid).2.2]
    exact h.insert (hset pin _)
  · by_cases hmem : getId pin ∈ pins
    · rw [(hused hid hmem).2]
      exact h
    · rw [(hunused hid hmem).2]
      exact h.insert rfl

theorem KeyedBy.removePin (h : KeyedBy getId pins) {id : Int} {pins' : QMap P}
    (hr : removePin pins id = some pins') : KeyedBy getId pins' := by
  unfold Graph.removePin at hr
  split at hr
  · cases hr
    intro i pin hi
    exact h i pin (QMap.of_erase hi).2
  · cases hr

end

inductive PinCall where
  | addInputPin (pin : InputPin)
  | addOutputPin (pin : OutputPin)
  | removeInputPin (id : Int)
  | removeOutputPin (id : Int)
  deriving DecidableEq, Repr

namespace Element

/-- Nothing when an iterator past the end is dereferenced. -/
def call (e : Element) : PinCall → Option Element
  | .addInputPin pin => some (e.addInputPin pin).1
  | .addOutputPin pin => some (e.addOutputPin pin).1
  | .removeInputPin id => e.removeInputPin id
  | .removeOutputPin id => e.removeOutputPin id

structure Keyed (e : Element) : Prop where
  input : KeyedBy InputPin.m_id e.m_inputPins
  output : KeyedBy OutputPin.m_id e.m_outputPins

def Lawful (e : Element) : PinCall → Prop
  | .addInputPin pin => ∃ pins, (e.addInputPin pin).1 = { e with m_inputPins := pins } ∧
      Adds InputPin.setId e.m_inputPins pins pin.m_id pin (e.addInputPin pin).2
  | .addOutputPin pin => ∃ pins, (e.addOutputPin pin).1 = { e with m_outputPins := pins } ∧
      Adds OutputPin.setId e.m_outputPins pins pin.m_id pin (e.addOutputPin pin).2
  | .removeInputPin id => ∃ pins, e.removeInputPin id = some { e with m_inputPins := pins } ∧
      Removes e.m_inputPins id (some pins)
  | .removeOutputPin id => ∃ pins, e.removeOutputPin id = some { e with m_outputPins := pins } ∧
      Removes e.m_outputPins id (some pins)

def Absent (e : Element) : PinCall → Prop
  | .removeInputPin id => id ∉ e.m_inputPins
  | .removeOutputPin id => id ∉ e.m_outputPins
  | .addInputPin _ | .addOutputPin _ => False

section
variable {e e' : Element} {c : PinCall}

theorem lawful_iff (e : Element) (c : PinCall) : e.Lawful c ↔ ¬ e.Absent c := by
  cases c with
  | addInputPin pin =>
    have hadds := addPin_adds InputPin.setId e.m_inputPins pin.m_id pin
    refine iff_of_true ⟨(addPin InputPin.setId e.m_inputPins pin.m_id pin).1, ?_⟩ id
    rw [addInputPin_eq]
    exact ⟨rfl, hadds⟩
  | addOutputPin pin => exact iff_of_true ⟨_, rfl, addPin_adds _ _ _ _⟩ id
  | removeInputPin id =>
    have hremoves := exists_removes (fun pins => { e with m_inputPins := pins })
      (fun _ _ h => congrArg Element.m_inputPins h) e.m_inputPins id
    rw [← removeInputPin_eq] at hremoves
    exact hremoves.trans not_not.symm
  | removeOutputPin id =>
    have hremoves := exists_removes (fun pins => { e with m_outputPins := pins })
      (fun _ _ h => congrArg Element.m_outputPins h) e.m_outputPins id
    exact hremoves.trans not_not.symm

theorem Keyed.call (h : e.Keyed) (hc : e.call c = some e') : e'.Keyed := by
  cases c with
  | addInputPin pin =>
    cases hc
    rw [addInputPin_eq]
    exact ⟨h.input.addPin (fun _ _ => rfl) pin, h.output⟩
  | addOutputPin pin =>
    cases hc
    exact ⟨h.input, h.output.addPin (fun _ _ => rfl) pin⟩
  | removeInputPin id =>
    change e.removeInputPin id = some e' at hc
    rw [removeInputPin_eq] at hc
    obtain ⟨pins, hpins, rfl⟩ := Option.map_eq_some_iff.mp hc
    exact ⟨h.input.removePin hpins, h.output⟩
  | removeOutputPin id =>
    obtain ⟨pins, hpins, rfl⟩ := Option.map_eq_some_iff.mp hc
    exact ⟨h.input, h.output.removePin hpins⟩

end

/-- In every run from an element without pins the keys are the ids of the pins, and all calls do what
they should exactly when no id is removed that is not in its table. -/
theorem pinTables_iff (e : Element) (hin : e.m_inputPins = ∅) (hout : e.m_outputPins = ∅)
    (cs : List PinCall) :
    Always call Keyed e cs ∧
      (Occurs call (fun e c => ¬ e.Lawful c) e cs ↔ Occurs call Absent e cs) := by
  constructor
  · intro before after e' _ hrun
    have hreach : Reaches call (fun _ _ => True) e e' := .of_run (fun _ _ _ => trivial) hrun
    refine hreach.invariant (I := Keyed) ?_ fun _ _ _ h _ hc => h.call hc
    constructor
    · rw [hin]
      exact .empty
    · rw [hout]
      exact .empty
  · simp only [lawful_iff, not_not]

def bare : Element where
  className := "Bare"
  kind := .processor
  isTCPServer := false
  m_id := -1
  m_inputPins := ∅
  m_outputPins := ∅

/-- Three pins, of which the second one goes: the next pin gets its id. -/
theorem pinTables_iff_gap :
    (Occurs call (fun e c => ¬ e.Lawful c) bare [.addInputPin genericPin, .addInputPin genericPin,
        .addInputPin genericPin, .removeInputPin 1, .addInputPin genericPin] ↔
      Occurs call Absent bare [.addInputPin genericPin, .addInputPin genericPin,
        .addInputPin genericPin, .removeInputPin 1, .addInputPin genericPin]) :=
  (pinTables_iff bare rfl rfl _).2

/-- An id is removed from an empty table. -/
theorem pinTables_absent : ∃ e : Element, e.m_inputPins = ∅ ∧ e.m_outputPins = ∅ ∧
    (1 : Int) ∉ e.m_inputPins ∧ e.call (.removeInputPin 1) = none ∧
      ¬ e.Lawful (.removeInputPin 1) := by
  have habsent : (1 : Int) ∉ bare.m_inputPins := by simp [bare]
  refine ⟨bare, rfl, rfl, habsent, rfl, ?_⟩
  rw [lawful_iff, not_not]
  exact habsent

end Element

end ParleVision.Graph
