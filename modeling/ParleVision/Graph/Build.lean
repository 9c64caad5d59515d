import ParleVision.Graph.Invariant

namespace ParleVision.Graph
open Lib

def OutputPin.shape (pin : OutputPin) : OutputPin := { pin with m_connections := [] }

/-- An input pin without its connection; the type of a dynamic pin comes with the connection. -/
def InputPin.shape (pin : InputPin) : InputPin :=
  { pin with
    m_typeId := if pin.isDynamicallyTyped then 0 else pin.m_typeId
    m_connection := none }

namespace Pipeline

def Generic (s : Pipeline) (p : ElemPtr) : Prop :=
  ∀ i pin, s.inputPin ⟨p, i⟩ = some pin → pin.shape = { genericPin with m_id := i }

/-- The elements of `t` are those of `s` but for ids, connections and the types and
number of generic pins. -/
structure SameBuild (s t : Pipeline) : Prop where
  className : ∀ p, (t.elems p).className = (s.elems p).className
  kind : ∀ p, (t.elems p).kind = (s.elems p).kind
  tcp : ∀ p, (t.elems p).isTCPServer = (s.elems p).isTCPServer
  output : ∀ r, (t.outputPin r).map OutputPin.shape = (s.outputPin r).map OutputPin.shape
  input : ∀ r, (s.elems r.owner).isTCPServer = false →
    (t.inputPin r).map InputPin.shape = (s.inputPin r).map InputPin.shape
  generic : ∀ p, (s.elems p).isTCPServer = true → s.Generic p → t.Generic p

theorem SameBuild.refl (s : Pipeline) : s.SameBuild s where
  className _ := rfl
  kind _ := rfl
  tcp _ := rfl
  output _ := rfl
  input _ _ := rfl
  generic _ _ h := h

theorem SameBuild.trans {s t u : Pipeline} (h : s.SameBuild t) (h' : t.SameBuild u) :
    s.SameBuild u where
  className p := (h'.className p).trans (h.className p)
  kind p := (h'.kind p).trans (h.kind p)
  tcp p := (h'.tcp p).trans (h.tcp p)
  output r := (h'.output r).trans (h.output r)
  input r hr := (h'.input r ((h.tcp r.owner).trans hr)).trans (h.input r hr)
  generic p hp hg := h'.generic p ((h.tcp p).trans hp) (h.generic p hp hg)

/-- Only the elements matter. -/
theorem SameBuild.congr {s s' t t' : Pipeline} (h : s.SameBuild t) (hs : s'.elems = s.elems)
    (ht : t'.elems = t.elems) : s'.SameBuild t' := by
  have hso : s'.outputPin = s.outputPin := by
    funext r
    simp [outputPin, hs]
  have hsi : s'.inputPin = s.inputPin := by
    funext r
    simp [inputPin, hs]
  have hto : t'.outputPin = t.outputPin := by
    funext r
    simp [outputPin, ht]
  have hti : t'.inputPin = t.inputPin := by
    funext r
    simp [inputPin, ht]
  constructor
  case className => simpa [hs, ht] using h.className
  case kind => simpa [hs, ht] using h.kind
  case tcp => simpa [hs, ht] using h.tcp
  case output => simpa [hso, hto] using h.output
  case input => simpa [hs, hsi, hti] using h.input
  case generic => simpa [Generic, hs, hsi, hti] using h.generic

theorem tcp_of_header {s t : Pipeline} {p : ElemPtr} (h : t.header p = s.header p) :
    (t.elems p).isTCPServer = (s.elems p).isTCPServer :=
  (Prod.mk.inj (Prod.mk.inj (Prod.mk.inj h).2).2).1

theorem className_of_header {s t : Pipeline} {p : ElemPtr} (h : t.header p = s.header p) :
    (t.elems p).className = (s.elems p).className := (Prod.mk.inj h).1

section Write
variable {s : Pipeline} {r : PinRef}

theorem SameBuild.setOutputPin {o pin : OutputPin} (ho : s.outputPin r = some o)
    (hp : pin.shape = o.shape) : s.SameBuild (s.setOutputPin r pin) where
  className p := className_of_header (header_setOutputPin s r p pin)
  kind p := kind_of_header (header_setOutputPin s r p pin)
  tcp p := tcp_of_header (header_setOutputPin s r p pin)
  output r' := by
    rw [outputPin_setOutputPin]
    split
    · subst r'
      simp [ho, hp]
    · rfl
  input r' _ := by simp
  generic p _ hg i pin' h := hg i pin' (by simpa using h)

theorem SameBuild.setInputPin {i pin : InputPin} (hi : s.inputPin r = some i)
    (hp : pin.shape = i.shape) : s.SameBuild (s.setInputPin r pin) where
  className p := className_of_header (header_setInputPin s r p pin)
  kind p := kind_of_header (header_setInputPin s r p pin)
  tcp p := tcp_of_header (header_setInputPin s r p pin)
  output r' := by simp
  input r' _ := by
    rw [inputPin_setInputPin]
    split
    · subst r'
      simp [hi, hp]
    · rfl
  generic p _ hg j pin' h := by
    rw [inputPin_setInputPin] at h
    split at h
    · rename_i he
      cases h
      rw [hp, hg j i (he ▸ hi)]
    · exact hg j pin' h

theorem SameBuild.addGeneric {pin : InputPin} (hr : (s.elems r.owner).isTCPServer = true)
    (hp : pin.shape = { genericPin with m_id := r.id }) : s.SameBuild (s.setInputPin r pin) where
  className p := className_of_header (header_setInputPin s r p pin)
  kind p := kind_of_header (header_setInputPin s r p pin)
  tcp p := tcp_of_header (header_setInputPin s r p pin)
  output r' := by simp
  input r' hr' := by
    rw [inputPin_setInputPin, if_neg]
    rintro rfl
    rw [hr] at hr'
    cases hr'
  generic p _ hg j pin' h := by
    rw [inputPin_setInputPin] at h
    split at h
    · rename_i he
      cases h
      rw [hp, ← he]
    · exact hg j pin' h

theorem SameBuild.eraseInputPin (hr : (s.elems r.owner).isTCPServer = true) :
    s.SameBuild (s.eraseInputPin r) where
  className p := className_of_header (header_eraseInputPin s r p)
  kind p := kind_of_header (header_eraseInputPin s r p)
  tcp p := tcp_of_header (header_eraseInputPin s r p)
  output r' := by simp
  input r' hr' := by
    rw [inputPin_eraseInputPin, if_neg]
    rintro rfl
    rw [hr] at hr'
    cases hr'
  generic p _ hg j pin' h := by
    rw [inputPin_eraseInputPin] at h
    split at h
    · cases h
    · exact hg j pin' h

end Write

/-- The type of a connected dynamic pin is one `QMetaType` knows. -/
def Registered (isRegistered : Int → Bool) (s : Pipeline) : Prop :=
  ∀ r i, s.inputPin r = some i → i.isDynamicallyTyped = true → i.isConnected = true →
    isRegistered i.m_typeId = true

structure Keeps (isRegistered : Int → Bool) (s t : Pipeline) : Prop where
  build : s.SameBuild t
  registered : s.Registered isRegistered → t.Registered isRegistered
  /-- no operation clears the flag -/
  changed : s.m_changed = true → t.m_changed = true

variable {isRegistered : Int → Bool}

theorem Keeps.refl (s : Pipeline) : Keeps isRegistered s s := ⟨.refl s, id, id⟩

theorem Keeps.trans {s t u : Pipeline} (h : Keeps isRegistered s t)
    (h' : Keeps isRegistered t u) : Keeps isRegistered s u :=
  ⟨h.build.trans h'.build, fun hr => h'.registered (h.registered hr),
    fun hc => h'.changed (h.changed hc)⟩

/-- Only the elements and the flag matter. -/
theorem Keeps.congr {s s' t t' : Pipeline} (h : Keeps isRegistered s t)
    (hs : s'.elems = s.elems) (ht : t'.elems = t.elems)
    (hc : s'.m_changed = true → t'.m_changed = true) : Keeps isRegistered s' t' := by
  refine ⟨h.build.congr hs ht, ?_, hc⟩
  intro hr r i hi
  refine h.registered ?_ r i (by simpa [inputPin, ht] using hi)
  intro r' i' hi'
  exact hr r' i' (by simpa [inputPin, hs] using hi')

end Pipeline

end ParleVision.Graph
