import ParleVision.Graph.Build

namespace ParleVision.Graph
open Lib

namespace Pipeline

def disconnected (s : Pipeline) (c : ConnPtr) (out inp : PinRef) (o : OutputPin) (i : InputPin) :
    Pipeline :=
  let t := (s.setOutputPin out { o with m_connections := o.m_connections.erase c }).setInputPin
    inp { i with m_connection := none }
  { (if (s.elems inp.owner).isTCPServer then t.eraseInputPin inp else t) with
    conns := Function.update s.conns c ⟨(s.conns c).m_id, none, none⟩ }

section Disconnected
variable (s : Pipeline) (c : ConnPtr) (out inp : PinRef) (o : OutputPin) (i : InputPin)

theorem outputPin_disconnected (r : PinRef) : (s.disconnected c out inp o i).outputPin r =
    if r = out then some { o with m_connections := o.m_connections.erase c }
    else s.outputPin r := by
  unfold disconnected
  split
  · exact (outputPin_eraseInputPin _ inp r).trans (by simp)
  · exact (outputPin_setInputPin _ inp r _).trans (by simp)

theorem inputPin_disconnected (r : PinRef) : (s.disconnected c out inp o i).inputPin r =
    if r = inp then
      if (s.elems inp.owner).isTCPServer then none else some { i with m_connection := none }
    else s.inputPin r := by
  unfold disconnected
  split
  · refine (inputPin_eraseInputPin _ inp r).trans ?_
    by_cases hr : r = inp <;> simp [hr]
  · exact (inputPin_setInputPin _ inp r _).trans (by simp)

theorem header_disconnected (p : ElemPtr) :
    (s.disconnected c out inp o i).header p = s.header p := by
  unfold disconnected
  split
  · exact (header_eraseInputPin _ inp p).trans (by simp)
  · exact (header_setInputPin _ inp p _).trans (by simp)

theorem conns_disconnected {c' : ConnPtr} (hne : c' ≠ c) :
    (s.disconnected c out inp o i).conns c' = s.conns c' := by
  unfold disconnected
  simp [hne]

end Disconnected

theorem removeInputConnection_eq {s : Pipeline} {c : ConnPtr} {inp : PinRef} {i : InputPin}
    (hi : s.inputPin inp = some i) (hic : i.m_connection = some c) (hid : i.m_id = inp.id) :
    s.removeInputConnection inp =
      some (if (s.elems inp.owner).isTCPServer
        then (s.setInputPin inp { i with m_connection := none }).eraseInputPin inp
        else s.setInputPin inp { i with m_connection := none }) := by
  have htcp : ((s.setInputPin inp { i with m_connection := none }).elems inp.owner).isTCPServer =
      (s.elems inp.owner).isTCPServer := tcp_of_header (by simp)
  have hmem : i.m_id ∈
      ((s.setInputPin inp { i with m_connection := none }).elems inp.owner).m_inputPins := by
    simp [setInputPin, setElem, hid]
  simp only [removeInputConnection, hi, InputPin.isConnected, hic, Option.isSome_some, if_true,
    onInputConnectionRemoved, htcp]
  split
  · rw [Element.removeInputPin, if_pos hmem, hid]
    rfl
  · rfl

theorem disconnect_eq {s : Pipeline} {k : Int} {c : ConnPtr} {out inp : PinRef} {o : OutputPin}
    {i : InputPin} (hc : s.conns c = ⟨k, some out, some inp⟩) (ho : s.outputPin out = some o)
    (hm : c ∈ o.m_connections) (hi : s.inputPin inp = some i) (hic : i.m_connection = some c)
    (hid : i.m_id = inp.id) : s.disconnect c = some (s.disconnected c out inp o i) := by
  have hout : s.removeOutputConnection out c =
      some (s.setOutputPin out { o with m_connections := o.m_connections.erase c }) := by
    simp [removeOutputConnection, ho, hm]
  have hin := removeInputConnection_eq (s := s.setOutputPin out
    { o with m_connections := o.m_connections.erase c }) (by simpa using hi) hic hid
  rw [tcp_of_header (header_setOutputPin s out inp.owner _)] at hin
  have hp : (s.conns c).m_producer = some out := congrArg PinConnection.m_producer hc
  have hq : (s.conns c).m_consumer = some inp := congrArg PinConnection.m_consumer hc
  unfold disconnect disconnected
  rw [hp, hq]
  simp only [hout, hin, Option.bind_eq_bind, Option.bind_some]
  split <;> rfl

/-- What disconnecting can do to a pipeline: connections go, nothing else does. -/
structure Shrinks (s t : Pipeline) : Prop where
  children : t.m_children = s.m_children
  producers : t.m_producers = s.m_producers
  processors : t.m_processors = s.m_processors
  changed : t.m_changed = s.m_changed
  connections : ∀ (k : Int) c, t.m_connections[k]? = some c → s.m_connections[k]? = some c
  header : ∀ p, t.header p = s.header p
  build : s.SameBuild t
  conn_id : ∀ c, (t.conns c).m_id = (s.conns c).m_id
  input : ∀ r i c, t.inputPin r = some i → i.m_connection = some c → s.inputPin r = some i
  output : ∀ r o, t.outputPin r = some o →
    ∃ o', s.outputPin r = some o' ∧ ∀ c ∈ o.m_connections, c ∈ o'.m_connections

theorem Shrinks.refl (s : Pipeline) : s.Shrinks s where
  children := rfl
  producers := rfl
  processors := rfl
  changed := rfl
  connections _ _ h := h
  header _ := rfl
  build := .refl s
  conn_id _ := rfl
  input _ _ _ h _ := h
  output _ o h := ⟨o, h, fun _ hc => hc⟩

theorem Shrinks.trans {s t u : Pipeline} (h : s.Shrinks t) (h' : t.Shrinks u) : s.Shrinks u where
  children := h'.children.trans h.children
  producers := h'.producers.trans h.producers
  processors := h'.processors.trans h.processors
  changed := h'.changed.trans h.changed
  connections k c hc := h.connections k c (h'.connections k c hc)
  header p := (h'.header p).trans (h.header p)
  build := h.build.trans h'.build
  conn_id c := (h'.conn_id c).trans (h.conn_id c)
  input r i c hi hc := h.input r i c (h'.input r i c hi hc) hc
  output r o ho := by
    obtain ⟨o', ho', hs'⟩ := h'.output r o ho
    obtain ⟨o'', ho'', hs''⟩ := h.output r o' ho'
    exact ⟨o'', ho'', fun c hc => hs'' c (hs' c hc)⟩

theorem Shrinks.keeps {isRegistered : Int → Bool} {s t : Pipeline} (h : s.Shrinks t) :
    Keeps isRegistered s t := by
  refine ⟨h.build, ?_, fun hc => h.changed.trans hc⟩
  intro hr r i hi hd hc
  obtain ⟨c, hic⟩ := Option.isSome_iff_exists.mp hc
  exact hr r i (h.input r i c hi hic) hd hc

/-- Disconnecting a connection of the map, with the map still to be updated. -/
theorem Inv.disconnect {s : Pipeline} {M : QMap ConnPtr}
    (hs : ({ s with m_connections := M } : Pipeline).Inv) {k : Int} {c : ConnPtr}
    (hk : M[k]? = some c) :
    ∃ t, s.disconnect c = some t ∧ ({ t with m_connections := M.erase k } : Pipeline).Inv ∧
      t.m_connections = s.m_connections ∧ s.Shrinks t := by
  obtain ⟨out, inp, hl⟩ := hs.linked k c hk
  obtain ⟨o, i, ho, hm, hi, hic, _⟩ := hl.pins
  obtain ⟨hid, _⟩ := hs.input_pin inp i hi
  refine ⟨_, disconnect_eq hl.conn ho hm hi hic hid, ?_, ?_, ?_⟩
  · have hu := hs.unlink hk hl ho hi hic
    unfold disconnected
    split
    · refine hu.eraseInputPin (r := inp) ?_
      intro j hj
      have hj' := (inputPin_setInputPin _ inp inp _).symm.trans hj
      rw [if_pos rfl] at hj'
      cases hj'
      rfl
    · exact hu
  · unfold disconnected
    split <;> rfl
  · constructor
    case children =>
      unfold disconnected
      split <;> rfl
    case producers =>
      unfold disconnected
      split <;> rfl
    case processors =>
      unfold disconnected
      split <;> rfl
    case changed =>
      unfold disconnected
      split <;> rfl
    case connections =>
      unfold disconnected
      split <;> exact fun _ _ h => h
    case header => exact header_disconnected s c out inp o i
    case build =>
      have hcut : ({ o with m_connections := o.m_connections.erase c } : OutputPin).shape =
          o.shape := rfl
      have hfree : ({ i with m_connection := none } : InputPin).shape = i.shape := rfl
      have h₁ := SameBuild.setOutputPin ho hcut
      have h₂ := h₁.trans (SameBuild.setInputPin (r := inp) (i := i) (by simpa using hi) hfree)
      unfold disconnected
      split
      · rename_i htcp
        exact (h₂.trans (SameBuild.eraseInputPin (r := inp)
          ((h₂.tcp inp.owner).trans htcp))).congr rfl rfl
      · exact h₂.congr rfl rfl
    case conn_id =>
      intro c'
      unfold disconnected
      by_cases he : c' = c <;> simp [he]
    case input =>
      intro r j c' hj hc'
      rw [inputPin_disconnected] at hj
      split at hj
      · split at hj
        · cases hj
        · cases hj
          cases hc'
      · exact hj
    case output =>
      intro r o' ho'
      rw [outputPin_disconnected] at ho'
      split at ho'
      · cases ho'
        subst r
        exact ⟨o, ho, fun c' hc' => List.mem_of_mem_erase hc'⟩
      · exact ⟨o', ho', fun _ hc' => hc'⟩

theorem Inv.threadUnsafeDisconnect {s : Pipeline} (hs : s.Inv) {k : Int} {c : ConnPtr}
    (hk : s.m_connections[k]? = some c) :
    ∃ t, s.threadUnsafeDisconnect k = some t ∧ t.Inv ∧ s.Shrinks t ∧
      t.m_connections = s.m_connections.erase k := by
  obtain ⟨t, ht, hi, hm, hsh⟩ := Inv.disconnect (M := s.m_connections) hs hk
  refine ⟨{ t with m_connections := s.m_connections.erase k }, ?_, hi, ?_, rfl⟩
  · simp [Pipeline.threadUnsafeDisconnect, hk, ht, hm]
  · refine { hsh with connections := ?_, build := hsh.build.congr rfl rfl }
    intro k' c' h
    exact (QMap.of_erase h).2

/-- An unknown id changes nothing. -/
theorem threadUnsafeDisconnect_unknown {s : Pipeline} {k : Int}
    (hk : s.m_connections[k]? = none) : s.threadUnsafeDisconnect k = some s := by
  simp [Pipeline.threadUnsafeDisconnect, hk]

theorem erase_gone {M : QMap ConnPtr} {k : Int} {c : ConnPtr}
    (hu : ∀ k' : Int, M[k']? = some c → k' = k) (k' : Int) : (M.erase k)[k']? ≠ some c := by
  intro h
  obtain ⟨hne, hold⟩ := QMap.of_erase h
  exact hne (hu k' hold)

theorem Inv.disconnectInputs {s : Pipeline} (hs : s.Inv) (p : ElemPtr) (is : List Int) :
    ∃ t, Pipeline.disconnectInputs p is s = some t ∧ t.Inv ∧ s.Shrinks t ∧
      ∀ i ∈ is, ∀ pin, t.inputPin ⟨p, i⟩ = some pin → pin.m_connection = none := by
  induction is generalizing s with
  | nil => exact ⟨s, rfl, hs, .refl s, by simp⟩
  | cons i is ih =>
    cases hc : (s.inputPin ⟨p, i⟩).bind InputPin.m_connection with
    | none =>
      obtain ⟨t, ht, hi, hsh, hdone⟩ := ih hs
      refine ⟨t, by simpa [Pipeline.disconnectInputs, hc] using ht, hi, hsh, ?_⟩
      intro j hj pin hpin
      rcases List.mem_cons.mp hj with he | hj
      · subst j
        cases hpc : pin.m_connection with
        | none => rfl
        | some c =>
          have := hsh.input _ _ c hpin hpc
          simp [this, hpc] at hc
      · exact hdone j hj pin hpin
    | some c =>
      obtain ⟨pin, hpin, hpc⟩ := Option.bind_eq_some_iff.mp hc
      obtain ⟨k, hk, _⟩ := hs.input_listed _ pin c hpin hpc
      obtain ⟨out, inp, hl⟩ := hs.linked k c hk
      obtain ⟨s', hs', hi', hsh', hmap⟩ := hs.threadUnsafeDisconnect hk
      obtain ⟨t, ht, hi, hsh, hdone⟩ := ih hi'
      refine ⟨t, ?_, hi, hsh'.trans hsh, ?_⟩
      · simp [Pipeline.disconnectInputs, hc, hl.conn, hs', ht]
      intro j hj pin' hpin'
      rcases List.mem_cons.mp hj with he | hj
      · subst j
        cases hpc' : pin'.m_connection with
        | none => rfl
        | some c' =>
          -- it would still be connected to `c`, which has left the map
          have hmid := hsh.input _ _ c' hpin' hpc'
          have hold := hsh'.input _ _ c' hmid hpc'
          rw [hpin] at hold
          cases hold
          have hcc : c' = c := Option.some.inj (hpc'.symm.trans hpc)
          subst c'
          obtain ⟨k', hk', _⟩ := hi'.input_listed _ _ c hmid hpc
          rw [hmap] at hk'
          exact absurd hk' (erase_gone (fun k'' h => hs.connection_unique hk h) k')
      · exact hdone j hj pin' hpin'

theorem Inv.disconnectEach {s : Pipeline} (hs : s.Inv) {cs : List ConnPtr} (hn : cs.Nodup)
    (hcs : ∀ c ∈ cs, ∃ k : Int, s.m_connections[k]? = some c) :
    ∃ t, Pipeline.disconnectEach cs s = some t ∧ t.Inv ∧ s.Shrinks t ∧
      ∀ c ∈ cs, ∀ k : Int, t.m_connections[k]? ≠ some c := by
  induction cs generalizing s with
  | nil => exact ⟨s, rfl, hs, .refl s, by simp⟩
  | cons c cs ih =>
    obtain ⟨hc, hn⟩ := List.nodup_cons.mp hn
    obtain ⟨k, hk⟩ := hcs c (by simp)
    obtain ⟨out, inp, hl⟩ := hs.linked k c hk
    obtain ⟨s', hs', hi', hsh', hmap⟩ := hs.threadUnsafeDisconnect hk
    have hrest : ∀ c' ∈ cs, ∃ k' : Int, s'.m_connections[k']? = some c' := by
      intro c' hc'
      obtain ⟨k', hk'⟩ := hcs c' (by simp [hc'])
      refine ⟨k', ?_⟩
      rw [hmap]
      exact QMap.erase_stored hk hk' (ne_of_mem_of_not_mem hc' hc)
    obtain ⟨t, ht, hi, hsh, hdone⟩ := ih hi' hn hrest
    refine ⟨t, by simp [Pipeline.disconnectEach, hl.conn, hs', ht], hi, hsh'.trans hsh, ?_⟩
    intro c' hc' k' hk'
    rcases List.mem_cons.mp hc' with he | hc'
    · subst c'
      have := hsh.connections k' c hk'
      rw [hmap] at this
      exact erase_gone (fun k'' h => hs.connection_unique hk h) k' this
    · exact hdone c' hc' k' hk'

theorem Inv.disconnectOutputs {s : Pipeline} (hs : s.Inv) (p : ElemPtr) (is : List Int) :
    ∃ t, Pipeline.disconnectOutputs p is s = some t ∧ t.Inv ∧ s.Shrinks t ∧
      ∀ i ∈ is, ∀ pin, t.outputPin ⟨p, i⟩ = some pin → pin.m_connections = [] := by
  induction is generalizing s with
  | nil => exact ⟨s, rfl, hs, .refl s, by simp⟩
  | cons i is ih =>
    obtain ⟨cs, hcs⟩ : ∃ cs, ((s.outputPin ⟨p, i⟩).map OutputPin.m_connections).getD [] = cs :=
      ⟨_, rfl⟩
    have hn : cs.Nodup := by
      cases ho : s.outputPin ⟨p, i⟩ with
      | none => simp [← hcs, ho]
      | some o => simpa [← hcs, ho] using hs.nodup _ o ho
    have hlive : ∀ c ∈ cs, ∃ k : Int, s.m_connections[k]? = some c := by
      intro c hc
      cases ho : s.outputPin ⟨p, i⟩ with
      | none => simp [← hcs, ho] at hc
      | some o =>
        obtain ⟨k, hk, _⟩ := hs.output_listed _ o c ho (by simpa [← hcs, ho] using hc)
        exact ⟨k, hk⟩
    obtain ⟨s', hs', hi', hsh', hgone⟩ := hs.disconnectEach hn hlive
    obtain ⟨t, ht, hi, hsh, hdone⟩ := ih hi'
    refine ⟨t, by simp [Pipeline.disconnectOutputs, hcs, hs', ht], hi, hsh'.trans hsh, ?_⟩
    intro j hj pin hpin
    rcases List.mem_cons.mp hj with he | hj
    · subst j
      -- what the pin still listed would be in the map, but was disconnected
      apply List.eq_nil_iff_forall_not_mem.mpr
      intro c hc
      obtain ⟨k, hk, _⟩ := hi.output_listed _ pin c hpin hc
      obtain ⟨pin', hpin', hsub⟩ := (hsh'.trans hsh).output _ pin hpin
      have hmem : c ∈ cs := by simpa [← hcs, hpin'] using hsub c hc
      exact hgone c hmem k (hsh.connections k c hk)
    · exact hdone j hj pin hpin

structure Isolated (s : Pipeline) (p : ElemPtr) : Prop where
  input : ∀ i pin, s.inputPin ⟨p, i⟩ = some pin → pin.m_connection = none
  output : ∀ i pin, s.outputPin ⟨p, i⟩ = some pin → pin.m_connections = []

theorem Inv.removeConnectionsForElement {s : Pipeline} (hs : s.Inv) (h : HashOrder Int)
    (p : ElemPtr) :
    ∃ t, s.removeConnectionsForElement h p = some t ∧ t.Inv ∧ s.Shrinks t ∧ t.Isolated p := by
  -- first the input pins, of which only a processor has any
  obtain ⟨s', hs', hi', hsh', hin⟩ : ∃ s', s.disconnectInputPins h p = some s' ∧ s'.Inv ∧
      s.Shrinks s' ∧ ∀ i pin, s'.inputPin ⟨p, i⟩ = some pin → pin.m_connection = none := by
    unfold disconnectInputPins
    cases hk : (s.elems p).kind with
    | processor =>
      obtain ⟨t, ht, hi, hsh, hdone⟩ :=
        hs.disconnectInputs p (h.order (s.elems p).m_inputPins.keys)
      refine ⟨t, ht, hi, hsh, ?_⟩
      intro i pin hpin
      cases hc : pin.m_connection with
      | none => rfl
      | some c =>
        have hold := hsh.input _ pin c hpin hc
        have hmem : i ∈ h.order (s.elems p).m_inputPins.keys := by
          rw [(h.perm _).mem_iff, Std.ExtTreeMap.mem_keys]
          exact Std.ExtTreeMap.mem_iff_isSome_getElem?.mpr (Option.isSome_of_eq_some hold)
        rw [← hdone i hmem pin hpin, hc]
    | producer =>
      refine ⟨s, rfl, hs, .refl s, ?_⟩
      intro i pin hpin
      have := (hs.input_pin _ pin hpin).2
      simp [hk] at this
  obtain ⟨t, ht, hi, hsh, hout⟩ :=
    hi'.disconnectOutputs p (h.order (s'.elems p).m_outputPins.keys)
  refine ⟨t, ?_, hi, hsh'.trans hsh, ?_, ?_⟩
  · simp [Pipeline.removeConnectionsForElement, hs', ht]
  · intro i pin hpin
    cases hc : pin.m_connection with
    | none => rfl
    | some c =>
      have := hin i pin (hsh.input _ pin c hpin hc)
      simp [hc] at this
  · intro i pin hpin
    obtain ⟨pin', hpin', _⟩ := hsh.output _ pin hpin
    refine hout i ?_ pin hpin
    rw [(h.perm _).mem_iff, Std.ExtTreeMap.mem_keys]
    exact Std.ExtTreeMap.mem_iff_isSome_getElem?.mpr (Option.isSome_of_eq_some hpin')

end Pipeline

end ParleVision.Graph
