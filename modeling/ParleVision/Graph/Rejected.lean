import ParleVision.Graph.Consistency
import ParleVision.Lib.Run

namespace ParleVision.Graph
open Lib

namespace Pipeline

variable {isRegistered : Int → Bool} {h : HashOrder Int} {s : Pipeline} {p : ElemPtr}

def Stored (s : Pipeline) (p : ElemPtr) : Prop := s.m_children[(s.elems p).m_id]? = some p

def Harmless (s : Pipeline) (e : Edit) : Prop :=
  s.Allowed e ∨ ∃ p, e = .addElement p ∧ s.Stored p

structure LeavesGraph (s t : Pipeline) : Prop where
  children : t.m_children = s.m_children
  producers : t.m_producers = s.m_producers
  processors : t.m_processors = s.m_processors
  connections : t.m_connections = s.m_connections ∧ t.conns = s.conns
  stored : ∀ (k : Int) q, s.m_children[k]? = some q → t.elems q = s.elems q
  consistent : t.Consistent

/-- An element that is in the pipeline is only written down as what it is. -/
theorem Inv.addElement_stored (hs : s.Inv) (hp : s.Stored p) :
    s.addElement p = { s with m_changed := true } := by
  have hid : (s.elems p).m_id ≠ -1 := hs.child_set _ p hp
  have helems : Function.update s.elems p { s.elems p with m_id := (s.elems p).m_id } = s.elems :=
    Function.update_eq_self p s.elems
  have hproducers (hkind : (s.elems p).kind = .producer) :
      s.m_producers.insert (s.elems p).m_id p = s.m_producers :=
    QMap.insert_stored ((hs.producers _ p).mpr ⟨hp, hkind⟩)
  have hprocessors (hkind : (s.elems p).kind = .processor) :
      s.m_processors.insert (s.elems p).m_id p = s.m_processors :=
    QMap.insert_stored ((hs.processors _ p).mpr ⟨hp, hkind⟩)
  unfold Pipeline.addElement
  simp only [if_neg hid, helems, QMap.insert_stored hp]
  cases hkind : (s.elems p).kind with
  | producer => simp [hproducers hkind]
  | processor => simp [hprocessors hkind]

theorem reaches_inv {elems : ElemPtr → Element} (he : ∀ p, (elems p).Constructed)
    (m_changed : Bool)
    (hr : Reaches (edit isRegistered h) Harmless (new elems m_changed) s) : s.Inv := by
  refine hr.invariant (.new he m_changed) ?_
  intro s e t hs hharmless ht
  obtain hallowed | ⟨p, rfl, hp⟩ := hharmless
  · obtain ⟨t', ht', hi, -⟩ := hs.edit h hallowed
    rw [ht] at ht'
    cases ht'
    exact hi
  · cases ht
    rw [hs.addElement_stored hp]
    exact hs.setChanged true

/-- An `addElement` that `canAddElement` is false for changes nothing exactly when the element is
already there; it replaces any other element with that id. -/
theorem addElement_rejected {elems : ElemPtr → Element} (he : ∀ p, (elems p).Constructed)
    (m_changed : Bool) (hr : Reaches (edit isRegistered h) Harmless (new elems m_changed) s)
    (hp : s.canAddElement p = false) : s.LeavesGraph (s.addElement p) ↔ s.Stored p := by
  have hs := reaches_inv he m_changed hr
  constructor
  · intro hleaves
    have hid : (s.elems p).m_id ≠ -1 := by
      intro hid
      simp [canAddElement, hid] at hp
    have hinsert : (s.addElement p).m_children = s.m_children.insert (s.elems p).m_id p := by
      simp [addElement, hid]
    rw [Stored, ← hleaves.children, hinsert, Std.ExtTreeMap.getElem?_insert_self]
  · intro hstored
    rw [hs.addElement_stored hstored]
    exact ⟨rfl, rfl, rfl, ⟨rfl, rfl⟩, fun _ _ _ => rfl, (hs.setChanged true).consistent⟩

def sameId (p : ElemPtr) : Element := if p = 1 then { tcpServer with m_id := 0 } else source 5

theorem sameId_constructed (p : ElemPtr) : (sameId p).Constructed := by
  unfold sameId
  split
  · exact ⟨tcpServer_constructed.input, tcpServer_constructed.output⟩
  · exact source_constructed 5

theorem reaches_sameId : Reaches (edit (fun _ => true) (.ascending Int)) Harmless
    (new sameId false) ((new sameId false).addElement 0) :=
  .step (.addElement 0) .start (.inl rfl) rfl

theorem addElement_rejected_source :
    ((new sameId false).addElement 0).canAddElement 0 = false ∧
      ((new sameId false).addElement 0).LeavesGraph
        (((new sameId false).addElement 0).addElement 0) :=
  ⟨rfl, (addElement_rejected sameId_constructed false reaches_sameId rfl).mpr rfl⟩

/-- The processor takes the place of the source, which stays a producer. -/
theorem addElement_rejected_fails :
    ∃ s, Reaches (edit (fun _ => true) (.ascending Int)) Harmless (new sameId false) s ∧
      s.canAddElement 1 = false ∧ s.m_children[(0 : Int)]? = some 0 ∧
      (s.addElement 1).m_children[(0 : Int)]? = some 1 ∧
      (s.addElement 1).m_producers[(0 : Int)]? = some 0 ∧
      ¬ s.LeavesGraph (s.addElement 1) := by
  refine ⟨_, reaches_sameId, rfl, rfl, rfl, rfl, fun hleaves => ?_⟩
  have hchild := congrArg (fun m : QMap ElemPtr => m[(0 : Int)]?) hleaves.children
  cases hchild

/-- What a `connectPins` that throws leaves: the pins carry their type and their connections. -/
structure LeavesPins (s t : Pipeline) (out inp : PinRef) : Prop where
  connections : t.m_connections = s.m_connections
  output : t.outputPin out = s.outputPin out
  input : t.inputPin inp = s.inputPin inp

/-- `connectPins` succeeds exactly when the check that went before it says so, and it changes
nothing when it throws, with or without that check. -/
theorem canConnectPins_agrees (isRegistered : Int → Bool) {out inp : PinRef} {o : OutputPin}
    {i : InputPin} (ho : s.outputPin out = some o) (hi : s.inputPin inp = some i) :
    ∃ t b, s.canConnectPins isRegistered out inp = some (t, b) ∧
      (∃ u result, t.connectPins isRegistered out inp = some (u, result) ∧
        (b = true ↔ ∃ id, result = .ok id)) ∧
      ∀ s', s' = s ∨ s' = t → ∀ u e, s'.connectPins isRegistered out inp = some (u, .error e) →
        s'.LeavesPins u out inp := by
  have hleaves {s : Pipeline} {o : OutputPin} {i : InputPin} (ho : s.outputPin out = some o)
      (hi : s.inputPin inp = some i) (u : Pipeline) (e : ConnectException)
      (h : s.connectPins isRegistered out inp = some (u, .error e)) : s.LeavesPins u out inp := by
    rcases connectPins_cases isRegistered ho hi with ⟨e', he⟩ | ⟨-, -, i', -, hok⟩
    · rw [he] at h
      cases h
      exact ⟨rfl, rfl, rfl⟩
    · rw [hok] at h
      cases h
  by_cases h : inp.owner = out.owner ∨ i.m_connection ≠ none ∨ i.agreeOnType isRegistered o = none
  · refine ⟨s, false, canConnectPins_error ho hi h, ?_, ?_⟩
    · obtain ⟨e, he⟩ := connectPins_error ho hi h
      exact ⟨_, _, he, by simp⟩
    · rintro s' (rfl | rfl) <;> exact hleaves ho hi
  · simp only [not_or, not_not] at h
    obtain ⟨hne, hun, hag⟩ := h
    obtain ⟨i', hi'⟩ := Option.ne_none_iff_exists'.mp hag
    obtain ⟨hun', hagain⟩ := agreeOnType_again hun hi'
    have ho' : (s.setInputPin inp i').outputPin out = some o :=
      (outputPin_setInputPin s inp out i').trans ho
    have hset : (s.setInputPin inp i').inputPin inp = some i' :=
      (inputPin_setInputPin s inp inp i').trans (if_pos rfl)
    refine ⟨_, true, canConnectPins_ok ho hi hne hun hi', ?_, ?_⟩
    · exact ⟨_, _, connectPins_ok ho' hset hne hun' hagain, by simp⟩
    · rintro s' (rfl | rfl)
      · exact hleaves ho hi
      · exact hleaves ho' hset

/-- The generic pin of a TCPServerProcessor beside a source of type 5. -/
theorem canConnectPins_agrees_tcpServer :
    ∃ t b, (new sameId false).canConnectPins (fun _ => true) ⟨0, 0⟩ ⟨1, 0⟩ = some (t, b) ∧
      (∃ u result, t.connectPins (fun _ => true) ⟨0, 0⟩ ⟨1, 0⟩ = some (u, result) ∧
        (b = true ↔ ∃ id, result = .ok id)) ∧
      ∀ s', s' = new sameId false ∨ s' = t → ∀ u e,
        s'.connectPins (fun _ => true) ⟨0, 0⟩ ⟨1, 0⟩ = some (u, .error e) →
        s'.LeavesPins u ⟨0, 0⟩ ⟨1, 0⟩ :=
  canConnectPins_agrees (fun _ => true) rfl rfl

end Pipeline

end ParleVision.Graph
