import ParleVision.Graph.Editing

namespace ParleVision.Graph
open Lib

namespace Pipeline

variable {isRegistered : Int → Bool}

theorem getNewPinConnectionId_free (s : Pipeline) :
    s.m_connections[s.getNewPinConnectionId]? = none := by
  have := scanKeys_notMem s.m_connections.keys_sorted 0
  rw [Std.ExtTreeMap.mem_keys] at this
  exact Std.ExtTreeMap.getElem?_eq_none this

theorem Inv.newConnection {s : Pipeline} (hs : s.Inv) (id : Int) (out inp : PinRef) :
    (s.newConnection id out inp).Inv := by
  have hold : ∀ c, c < s.nextConn → (s.newConnection id out inp).conns c = s.conns c := by
    intro c hc
    simp [Pipeline.newConnection, Nat.ne_of_lt hc]
  constructor
  case child_id => exact hs.child_id
  case child_set => exact hs.child_set
  case producers => exact hs.producers
  case processors => exact hs.processors
  case allocated => exact fun k c hk => Nat.lt_succ_of_lt (hs.allocated k c hk)
  case input_pin => exact hs.input_pin
  case output_pin => exact hs.output_pin
  case linked =>
    intro k c hk
    obtain ⟨out', inp', hl⟩ := hs.linked k c hk
    exact ⟨out', inp', (hold c (hs.allocated k c hk)).trans hl.conn, hl.pins, hl.source, hl.sink,
      hl.distinct⟩
  case nodup => exact hs.nodup
  case output_listed =>
    intro r o c ho hm
    obtain ⟨k, hk, hp⟩ := hs.output_listed r o c ho hm
    exact ⟨k, hk, by rw [hold c (hs.allocated k c hk), hp]⟩
  case input_listed =>
    intro r i c hi hc
    obtain ⟨k, hk, hp⟩ := hs.input_listed r i c hi hc
    exact ⟨k, hk, by rw [hold c (hs.allocated k c hk), hp]⟩

/-- The callback does nothing or adds a pin under an id that was free. -/
theorem onInputConnectionSet_cases (s : Pipeline) (r : PinRef) :
    ((s.elems r.owner).isTCPServer = false ∧ s.onInputConnectionSet r = s) ∨
    ((s.elems r.owner).isTCPServer = true ∧ ∃ n, n = (s.elems r.owner).getNextInputPinId ∧
      s.inputPin ⟨r.owner, n⟩ = none ∧
      s.onInputConnectionSet r = s.setInputPin ⟨r.owner, n⟩ { genericPin with m_id := n }) := by
  unfold onInputConnectionSet
  cases htcp : (s.elems r.owner).isTCPServer with
  | false => exact .inl ⟨rfl, rfl⟩
  | true =>
    refine .inr ⟨rfl, (s.elems r.owner).getNextInputPinId, rfl, ?_, ?_⟩
    · exact Std.ExtTreeMap.getElem?_eq_none (countUp_size_notMem _)
    · simp [Element.addInputPin, genericPin, setInputPin]

/-- The callback writes elements only, so the map may as well be written before it. -/
theorem onInputConnectionSet_insert (s : Pipeline) (r : PinRef) (k : Int) (c : ConnPtr) :
    { s.onInputConnectionSet r with
      m_connections := (s.onInputConnectionSet r).m_connections.insert k c } =
      ({ s with m_connections := s.m_connections.insert k c } : Pipeline).onInputConnectionSet
        r := by
  unfold onInputConnectionSet
  dsimp only
  split <;> rfl

theorem Inv.onInputConnectionSet {s : Pipeline} (hs : s.Inv) {r : PinRef}
    (hr : (s.elems r.owner).kind = .processor) : (s.onInputConnectionSet r).Inv := by
  rcases s.onInputConnectionSet_cases r with ⟨-, he⟩ | ⟨-, n, -, hfree, he⟩
  · rw [he]
    exact hs
  · rw [he]
    refine hs.setInputPin ?_ rfl hr rfl
    intro i hi
    rw [hfree] at hi
    cases hi

theorem onInputConnectionSet_keeps (s : Pipeline) (r : PinRef) :
    Keeps isRegistered s (s.onInputConnectionSet r) := by
  rcases s.onInputConnectionSet_cases r with ⟨-, he⟩ | ⟨htcp, n, -, -, he⟩
  · rw [he]
    exact .refl s
  · rw [he]
    refine ⟨SameBuild.addGeneric htcp rfl, ?_, id⟩
    intro hr r' i hi hd hc
    rw [inputPin_setInputPin] at hi
    split at hi
    · cases hi
      cases hc
    · exact hr r' i hi hd hc

theorem agreeOnType_some {i i' : InputPin} {o : OutputPin}
    (h : i.agreeOnType isRegistered o = some i') :
    i' = { i with m_typeId := i'.m_typeId } ∧ o.m_typeId = i'.m_typeId ∧ i'.shape = i.shape ∧
      (i'.isDynamicallyTyped = true → isRegistered i'.m_typeId = true) := by
  unfold InputPin.agreeOnType InputPin.setTypeId at h
  by_cases hd : i.isDynamicallyTyped = true
  · rw [if_pos hd] at h
    split at h
    · cases h
    · rename_i hn
      cases h
      refine ⟨rfl, rfl, by simp [InputPin.shape, hd], fun _ => ?_⟩
      by_contra hreg
      exact hn (.inr hreg)
  · rw [if_neg hd] at h
    split at h
    · cases h
    · rename_i heq
      cases h
      exact ⟨rfl, not_ne_iff.mp heq, rfl, fun hd' => absurd hd' hd⟩

/-- Agreed types leave the pins nothing to object to. -/
theorem acceptsConnectionWith_of_type {o : OutputPin} {i : InputPin}
    (h : o.m_typeId = i.m_typeId) :
    o.acceptsConnectionWith i = true ∧ i.acceptsConnectionWith o = true := by
  simp [OutputPin.acceptsConnectionWith, InputPin.acceptsConnectionWith, h]

/-- `connect` after its checks; `i` has the agreed type already. -/
def connectedBy (s : Pipeline) (c : ConnPtr) (out inp : PinRef) (o : OutputPin) (i : InputPin) :
    Pipeline :=
  (((s.setInputPin inp i).addConnection out o c).setInputPin inp
    { i with m_connection := some c }).onInputConnectionSet inp

section Outcome
variable {s : Pipeline} {c : ConnPtr} {out inp : PinRef} {o : OutputPin} {i i' : InputPin}

theorem connect_ok (ho : s.outputPin out = some o) (hi : s.inputPin inp = some i)
    (hne : inp.owner ≠ out.owner) (hun : i.m_connection = none)
    (hag : i.agreeOnType isRegistered o = some i') :
    s.connect isRegistered c out inp = some (s.connectedBy c out inp o i', .ok ()) := by
  obtain ⟨hpin, htype, -, -⟩ := agreeOnType_some hag
  obtain ⟨hacc, hacc'⟩ := acceptsConnectionWith_of_type htype
  have hun' : i'.isConnected = false := by
    rw [hpin]
    simp [InputPin.isConnected, hun]
  have hcon : i.isConnected = false := by simp [InputPin.isConnected, hun]
  simp [connect, ho, hi, hne, hcon, hag, hacc, hacc', setConnection, hun', connectedBy]

theorem connect_error (ho : s.outputPin out = some o) (hi : s.inputPin inp = some i)
    (h : inp.owner = out.owner ∨ i.m_connection ≠ none ∨ i.agreeOnType isRegistered o = none) :
    ∃ e, s.connect isRegistered c out inp = some (s, .error e) := by
  unfold connect
  simp only [ho, hi]
  by_cases hown : inp.owner = out.owner
  · exact ⟨.illegalConnection, if_pos hown⟩
  rw [if_neg hown]
  by_cases hcon : i.isConnected = true
  · exact ⟨.duplicateConnection, if_pos hcon⟩
  rw [if_neg hcon]
  rcases h with h | h | h
  · exact absurd h hown
  · exact absurd (by simpa [InputPin.isConnected] using hcon) h
  · exact ⟨.incompatibleType, by rw [h]⟩

def connected (s : Pipeline) (out inp : PinRef) (o : OutputPin) (i : InputPin) : Pipeline :=
  (((s.newConnection s.getNewPinConnectionId out inp).setInputPin inp i).withLink
    s.getNewPinConnectionId s.nextConn out inp o i).onInputConnectionSet inp

theorem connectPins_ok (ho : s.outputPin out = some o) (hi : s.inputPin inp = some i)
    (hne : inp.owner ≠ out.owner) (hun : i.m_connection = none)
    (hag : i.agreeOnType isRegistered o = some i') :
    s.connectPins isRegistered out inp =
      some (s.connected out inp o i', .ok s.getNewPinConnectionId) := by
  unfold connectPins
  dsimp only
  rw [connect_ok (s := s.newConnection s.getNewPinConnectionId out inp) ho hi hne hun hag]
  exact congrArg (fun t => some (t, Except.ok s.getNewPinConnectionId))
    (onInputConnectionSet_insert _ inp s.getNewPinConnectionId s.nextConn)

theorem connectPins_error (ho : s.outputPin out = some o) (hi : s.inputPin inp = some i)
    (h : inp.owner = out.owner ∨ i.m_connection ≠ none ∨ i.agreeOnType isRegistered o = none) :
    ∃ e, s.connectPins isRegistered out inp =
      some (s.newConnection s.getNewPinConnectionId out inp, .error e) := by
  obtain ⟨e, he⟩ := connect_error (s := s.newConnection s.getNewPinConnectionId out inp)
    (c := s.nextConn) ho hi h
  exact ⟨e, by simp [connectPins, he]⟩

theorem canConnectPins_ok (ho : s.outputPin out = some o) (hi : s.inputPin inp = some i)
    (hne : inp.owner ≠ out.owner) (hun : i.m_connection = none)
    (hag : i.agreeOnType isRegistered o = some i') :
    s.canConnectPins isRegistered out inp = some (s.setInputPin inp i', true) := by
  obtain ⟨hacc, hacc'⟩ := acceptsConnectionWith_of_type (agreeOnType_some hag).2.1
  have hcon : i.isConnected = false := by simp [InputPin.isConnected, hun]
  simp [canConnectPins, ho, hi, hne.symm, hcon, hag, hacc, hacc']

theorem canConnectPins_error (ho : s.outputPin out = some o) (hi : s.inputPin inp = some i)
    (h : inp.owner = out.owner ∨ i.m_connection ≠ none ∨ i.agreeOnType isRegistered o = none) :
    s.canConnectPins isRegistered out inp = some (s, false) := by
  unfold canConnectPins
  simp only [ho, hi]
  by_cases hown : out.owner = inp.owner
  · exact if_pos hown
  rw [if_neg hown]
  by_cases hcon : i.isConnected = true
  · exact if_pos hcon
  rw [if_neg hcon]
  rcases h with h | h | h
  · exact absurd h.symm hown
  · exact absurd (by simpa [InputPin.isConnected] using hcon) h
  · rw [h]

/-- Agreeing twice is agreeing once. -/
theorem agreeOnType_again (hun : i.m_connection = none)
    (hag : i.agreeOnType isRegistered o = some i') :
    i'.m_connection = none ∧ i'.agreeOnType isRegistered o = some i' := by
  obtain ⟨hpin, htype, -, hreg⟩ := agreeOnType_some hag
  have hun' : i'.m_connection = none := by
    rw [hpin]
    exact hun
  refine ⟨hun', ?_⟩
  unfold InputPin.agreeOnType InputPin.setTypeId
  by_cases hd : i'.isDynamicallyTyped = true
  · have hr := hreg hd
    cases i'
    simp_all [InputPin.isConnected]
  · simp [hd, htype]

/-- A `connectPins` throws and changes no pin, or it connects. -/
theorem connectPins_cases (isRegistered : Int → Bool) (ho : s.outputPin out = some o)
    (hi : s.inputPin inp = some i) :
    (∃ e, s.connectPins isRegistered out inp =
      some (s.newConnection s.getNewPinConnectionId out inp, .error e)) ∨
    (inp.owner ≠ out.owner ∧ i.m_connection = none ∧ ∃ i',
      i.agreeOnType isRegistered o = some i' ∧
      s.connectPins isRegistered out inp =
        some (s.connected out inp o i', .ok s.getNewPinConnectionId)) := by
  by_cases h : inp.owner = out.owner ∨ i.m_connection ≠ none ∨
      i.agreeOnType isRegistered o = none
  · exact .inl (connectPins_error ho hi h)
  simp only [not_or, not_not] at h
  obtain ⟨hne, hun, hag⟩ := h
  obtain ⟨i', hi'⟩ := Option.ne_none_iff_exists'.mp hag
  exact .inr ⟨hne, hun, i', hi', connectPins_ok ho hi hne hun hi'⟩

section Connected
variable (s out inp o i)

theorem connected_children : (s.connected out inp o i).m_children = s.m_children := by
  unfold connected onInputConnectionSet
  split <;> rfl

theorem connected_conns : (s.connected out inp o i).conns =
    Function.update s.conns s.nextConn ⟨s.getNewPinConnectionId, some out, some inp⟩ := by
  unfold connected onInputConnectionSet
  split <;> rfl

theorem connected_connections (k : Int) : (s.connected out inp o i).m_connections[k]? =
    if k = s.getNewPinConnectionId then some s.nextConn else s.m_connections[k]? := by
  refine Eq.trans ?_ (connections_withLink _ s.getNewPinConnectionId s.nextConn out inp o i k)
  unfold connected onInputConnectionSet
  split <;> rfl

theorem header_connected (p : ElemPtr) : (s.connected out inp o i).header p = s.header p := by
  have hl := (header_withLink ((s.newConnection s.getNewPinConnectionId out inp).setInputPin inp i)
    s.getNewPinConnectionId s.nextConn out inp o i p).trans (header_setInputPin _ inp p i)
  unfold connected
  rcases onInputConnectionSet_cases ((((s.newConnection s.getNewPinConnectionId out
    inp).setInputPin inp i).withLink s.getNewPinConnectionId s.nextConn out inp o i)) inp with
    ⟨-, he⟩ | ⟨-, n, -, -, he⟩
  · rw [he]
    exact hl
  · rw [he, header_setInputPin]
    exact hl

/-- The other input pins stay, but for the pin the callback of a server adds. -/
theorem inputPins_connected :
    ((s.elems inp.owner).isTCPServer = false ∧ ∀ r, (s.connected out inp o i).inputPin r =
      if r = inp then some { i with m_connection := some s.nextConn } else s.inputPin r) ∨
    ((s.elems inp.owner).isTCPServer = true ∧
      ∃ (m : QMap InputPin) (n : Int), n = countUp m m.size 0 ∧
      (∀ j : Int, j ∈ m ↔ j = inp.id ∨ s.inputPin ⟨inp.owner, j⟩ ≠ none) ∧
      ∀ r, (s.connected out inp o i).inputPin r =
        if r = ⟨inp.owner, n⟩ then some { genericPin with m_id := n }
        else if r = inp then some { i with m_connection := some s.nextConn }
        else s.inputPin r) := by
  obtain ⟨t, ht⟩ : ∃ t, t = (((s.newConnection s.getNewPinConnectionId out
    inp).setInputPin inp i).withLink s.getNewPinConnectionId s.nextConn out inp o i) := ⟨_, rfl⟩
  have hin : ∀ r, t.inputPin r =
      if r = inp then some { i with m_connection := some s.nextConn } else s.inputPin r := by
    intro r
    rw [ht, inputPin_withLink]
    split
    · rfl
    · rename_i hr
      exact (inputPin_setInputPin _ inp r i).trans (if_neg hr)
  have htcp : (t.elems inp.owner).isTCPServer = (s.elems inp.owner).isTCPServer := by
    apply tcp_of_header
    rw [ht, header_withLink]
    exact header_setInputPin _ inp inp.owner i
  unfold connected
  rw [← ht]
  rcases onInputConnectionSet_cases t inp with ⟨hf, he⟩ | ⟨hf, n, hn, -, he⟩
  · left
    rw [he]
    exact ⟨htcp ▸ hf, hin⟩
  · right
    refine ⟨htcp ▸ hf, (t.elems inp.owner).m_inputPins, n, hn, ?_, ?_⟩
    · intro j
      have hj : j ∈ (t.elems inp.owner).m_inputPins ↔ t.inputPin ⟨inp.owner, j⟩ ≠ none := by
        simp [inputPin]
      rw [hj, hin]
      by_cases hji : j = inp.id
      · simp [hji]
      · have : (⟨inp.owner, j⟩ : PinRef) ≠ inp := fun h => hji (congrArg PinRef.id h)
        simp [this, hji]
    · intro r
      rw [he, inputPin_setInputPin, hin]

theorem inputPin_connected (r : PinRef) :
    ((s.elems inp.owner).isTCPServer = false ∧ (s.connected out inp o i).inputPin r =
      if r = inp then some { i with m_connection := some s.nextConn } else s.inputPin r) ∨
    ((s.elems inp.owner).isTCPServer = true ∧
      ∃ (m : QMap InputPin) (n : Int), n = countUp m m.size 0 ∧
      (∀ j : Int, j ∈ m ↔ j = inp.id ∨ s.inputPin ⟨inp.owner, j⟩ ≠ none) ∧
      (s.connected out inp o i).inputPin r =
        if r = ⟨inp.owner, n⟩ then some { genericPin with m_id := n }
        else if r = inp then some { i with m_connection := some s.nextConn }
        else s.inputPin r) := by
  rcases s.inputPins_connected out inp o i with ⟨hf, hall⟩ | ⟨hf, m, n, hn, hm, hall⟩
  · exact .inl ⟨hf, hall r⟩
  · exact .inr ⟨hf, m, n, hn, hm, hall r⟩

end Connected

theorem connected_keeps (ho : s.outputPin out = some o) (hi : s.inputPin inp = some i)
    (hag : i.agreeOnType isRegistered o = some i') :
    Keeps isRegistered s (s.connected out inp o i') := by
  obtain ⟨-, -, hshape, hreg⟩ := agreeOnType_some hag
  refine Keeps.trans (t := (((s.newConnection s.getNewPinConnectionId out inp).setInputPin inp
    i').withLink s.getNewPinConnectionId s.nextConn out inp o i')) ⟨?_, ?_, id⟩
    (onInputConnectionSet_keeps _ inp)
  · -- the pin gets its type, then the lists and the back pointer
    have h₁ := SameBuild.setInputPin hi hshape
    have hlisted : ({ o with m_connections := o.m_connections ++ [s.nextConn] } :
        OutputPin).shape = o.shape := rfl
    have hset : ({ i' with m_connection := some s.nextConn } : InputPin).shape = i'.shape := rfl
    have h₂ := h₁.trans (SameBuild.setOutputPin (r := out)
      ((outputPin_setInputPin s inp out i').trans ho) hlisted)
    have h₃ := h₂.trans (SameBuild.setInputPin (r := inp) (i := i') (by simp) hset)
    exact h₃.congr rfl rfl
  · intro hr r j hj hd hc
    have hj' := (inputPin_setInputPin _ inp r _).symm.trans hj
    rw [inputPin_setOutputPin] at hj'
    split at hj'
    · cases hj'
      exact hreg hd
    · rename_i hne
      have hj'' := (inputPin_setInputPin _ inp r i').symm.trans hj'
      rw [if_neg hne] at hj''
      exact hr r j hj'' hd hc

theorem Inv.connected (hs : s.Inv) (ho : s.outputPin out = some o)
    (hi : s.inputPin inp = some i) (hne : inp.owner ≠ out.owner) (hun : i.m_connection = none)
    (hag : i.agreeOnType isRegistered o = some i') (hsrc : s.IsChild out.owner)
    (hsink : s.IsChild inp.owner) : (s.connected out inp o i').Inv := by
  obtain ⟨hid, hkind⟩ := hs.input_pin inp i hi
  obtain ⟨hpin, htype, -, -⟩ := agreeOnType_some hag
  have hun' : i'.m_connection = none := by
    rw [hpin]
    exact hun
  have hset : ((s.newConnection s.getNewPinConnectionId out inp).setInputPin inp i').Inv := by
    refine (hs.newConnection s.getNewPinConnectionId out inp).setInputPin ?_ ?_ hkind hun'
    · intro j hj
      have hj' : s.inputPin inp = some j := hj
      rw [hi] at hj'
      cases hj'
      exact hun
    · rw [hpin]
      exact hid
  have hfresh : ∀ k : Int, s.m_connections[k]? ≠ some s.nextConn := by
    intro k hk
    exact Nat.lt_irrefl _ (hs.allocated k _ hk)
  have hin := (inputPin_setInputPin (s.newConnection s.getNewPinConnectionId out inp) inp inp
    i').trans (if_pos rfl)
  have hout := (outputPin_setInputPin (s.newConnection s.getNewPinConnectionId out inp) inp out
    i').trans ho
  have hconn : ((s.newConnection s.getNewPinConnectionId out inp).setInputPin inp i').conns
      s.nextConn = ⟨s.getNewPinConnectionId, some out, some inp⟩ := by
    simp [Pipeline.newConnection, Pipeline.setInputPin, setElem]
  refine Inv.onInputConnectionSet (hset.link hconn s.getNewPinConnectionId_free
    (Nat.lt_succ_self _) hfresh hout hin hun' htype hsrc hsink hne.symm) ?_
  rw [← hkind]
  exact kind_of_header ((header_withLink _ _ _ out inp o i' inp.owner).trans
    (header_setInputPin _ inp inp.owner i'))

end Outcome

/-- Neither outcome of `connectPins` breaks the graph. -/
theorem Inv.connectPins {s : Pipeline} (hs : s.Inv) (isRegistered : Int → Bool)
    {out inp : PinRef} {o : OutputPin} {i : InputPin} (ho : s.outputPin out = some o)
    (hi : s.inputPin inp = some i) (hsrc : s.IsChild out.owner) (hsink : s.IsChild inp.owner) :
    ∃ t res, s.connectPins isRegistered out inp = some (t, res) ∧ t.Inv ∧
      Keeps isRegistered s t := by
  rcases connectPins_cases isRegistered ho hi with ⟨e, he⟩ | ⟨hne, hun, i', hag, he⟩
  · exact ⟨_, _, he, hs.newConnection _ out inp, (Keeps.refl s).congr rfl rfl id⟩
  · exact ⟨_, _, he, hs.connected ho hi hne hun hag hsrc hsink, connected_keeps ho hi hag⟩

end Pipeline

end ParleVision.Graph
