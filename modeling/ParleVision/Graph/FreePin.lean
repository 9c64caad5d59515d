import ParleVision.Graph.Consistency
import ParleVision.Lib.Run

namespace ParleVision.Graph
open Lib

namespace Pipeline

/-- The input pins of a TCPServerProcessor: dynamic ones under their own ids, of which exactly one
is not connected. -/
structure HasFreePin (s : Pipeline) (p : ElemPtr) : Prop where
  dynamic : ∀ i pin, s.inputPin ⟨p, i⟩ = some pin → pin.m_id = i ∧ pin.isDynamicallyTyped = true
  free : ∃! i : Int, ∃ pin, s.inputPin ⟨p, i⟩ = some pin ∧ pin.m_connection = none

def Serving (s : Pipeline) : Prop := ∀ p, (s.elems p).isTCPServer = true → s.HasFreePin p

variable {s t : Pipeline}

/-- Only the input pins matter, and which elements are servers. -/
theorem Serving.congr (h : s.Serving)
    (htcp : ∀ p, (t.elems p).isTCPServer = (s.elems p).isTCPServer)
    (hin : ∀ r, t.inputPin r = s.inputPin r) : t.Serving := by
  intro p hp
  obtain ⟨hdynamic, hfree⟩ := h p ((htcp p).symm.trans hp)
  constructor
  case dynamic => simpa only [hin] using hdynamic
  case free => simpa only [hin] using hfree

section Disconnect
variable {c : ConnPtr} {out inp : PinRef} {o : OutputPin} {i : InputPin}

/-- The pin that loses its connection leaves the table, and the free one stays. -/
theorem Serving.disconnected (h : s.Serving) (hi : s.inputPin inp = some i)
    (hic : i.m_connection ≠ none) : (s.disconnected c out inp o i).Serving := by
  intro p hp
  have htcp : (s.elems p).isTCPServer = true :=
    (tcp_of_header (header_disconnected s c out inp o i p)).symm.trans hp
  obtain ⟨hdynamic, hfree⟩ := h p htcp
  by_cases hown : inp.owner = p
  · have hread (j : Int) : (s.disconnected c out inp o i).inputPin ⟨p, j⟩ =
        if (⟨p, j⟩ : PinRef) = inp then none else s.inputPin ⟨p, j⟩ := by
      rw [inputPin_disconnected, hown, if_pos htcp]
    constructor
    case dynamic =>
      intro j pin hj
      rw [hread] at hj
      split at hj
      · cases hj
      · exact hdynamic j pin hj
    case free =>
      obtain ⟨j, ⟨pin, hj, hnone⟩, honly⟩ := hfree
      have hne : (⟨p, j⟩ : PinRef) ≠ inp := by
        rintro rfl
        rw [hj] at hi
        cases hi
        exact hic hnone
      refine ⟨j, ⟨pin, by rw [hread, if_neg hne, hj], hnone⟩, ?_⟩
      rintro j' ⟨pin', hj', hnone'⟩
      rw [hread] at hj'
      split at hj'
      · cases hj'
      · exact honly j' ⟨pin', hj', hnone'⟩
  · have hread (j : Int) : (s.disconnected c out inp o i).inputPin ⟨p, j⟩ = s.inputPin ⟨p, j⟩ := by
      rw [inputPin_disconnected, if_neg]
      exact fun he => hown (congrArg PinRef.owner he).symm
    constructor
    case dynamic => simpa only [hread] using hdynamic
    case free => simpa only [hread] using hfree

end Disconnect

/-- What disconnecting a connection of the map does. -/
theorem Inv.threadUnsafeDisconnect_eq (hs : s.Inv) {k : Int} {c : ConnPtr}
    (hk : s.m_connections[k]? = some c) :
    ∃ out inp o i, s.conns c = ⟨k, some out, some inp⟩ ∧ s.outputPin out = some o ∧
      s.inputPin inp = some i ∧ i.m_connection = some c ∧
      s.threadUnsafeDisconnect k =
        some { s.disconnected c out inp o i with m_connections := s.m_connections.erase k } := by
  obtain ⟨out, inp, hl⟩ := hs.linked k c hk
  obtain ⟨o, i, ho, hm, hi, hic, -⟩ := hl.pins
  obtain ⟨hid, -⟩ := hs.input_pin inp i hi
  have heq := disconnect_eq hl.conn ho hm hi hic hid
  have hmap : (s.disconnected c out inp o i).m_connections = s.m_connections := by
    unfold disconnected
    split <;> rfl
  refine ⟨out, inp, o, i, hl.conn, ho, hi, hic, ?_⟩
  simp [Pipeline.threadUnsafeDisconnect, hk, heq, hmap]

/-- The pins of all other connections stay as they are. -/
theorem Inv.threadUnsafeDisconnect_serving (hs : s.Inv) {k : Int} {c : ConnPtr}
    (hk : s.m_connections[k]? = some c) (ht : s.threadUnsafeDisconnect k = some t) :
    t.Inv ∧ (s.Serving → t.Serving) ∧
      ∀ r pin c', s.inputPin r = some pin → pin.m_connection = some c' → c' ≠ c →
        t.inputPin r = some pin ∧ t.conns c' = s.conns c' := by
  obtain ⟨t', ht', hi, -⟩ := hs.threadUnsafeDisconnect hk
  obtain ⟨out, inp, o, i, -, -, hinp, hic, heq⟩ := hs.threadUnsafeDisconnect_eq hk
  obtain rfl : t = t' := Option.some.inj (ht.symm.trans ht')
  rw [heq] at ht
  cases ht
  refine ⟨hi, fun hserving => ?_, fun r pin c' hpin hc hne => ?_⟩
  · have hcut : (s.disconnected c out inp o i).Serving := by
      refine hserving.disconnected hinp ?_
      rw [hic]
      exact nofun
    exact hcut.congr (fun _ => rfl) (fun _ => rfl)
  · have hr : r ≠ inp := by
      rintro rfl
      rw [hpin] at hinp
      cases hinp
      exact hne (Option.some.inj (hc.symm.trans hic))
    refine ⟨?_, conns_disconnected s c out inp o i hne⟩
    exact (inputPin_disconnected s c out inp o i r).trans ((if_neg hr).trans hpin)

def Touches (s : Pipeline) (c : ConnPtr) (p : ElemPtr) : Prop :=
  ∃ r : PinRef, r.owner = p ∧ ((s.conns c).m_producer = some r ∨ (s.conns c).m_consumer = some r)

def Cuts (p : ElemPtr) (s : Pipeline) (k : Int) : Prop :=
  ∃ c, s.m_connections[k]? = some c ∧ s.Touches c p

section Loops
variable {p : ElemPtr}

theorem disconnectInputs_reaches (hs : s.Inv) {is : List Int}
    (ht : disconnectInputs p is s = some t) :
    Reaches threadUnsafeDisconnect (Cuts p) s t := by
  induction is generalizing s with
  | nil =>
    cases ht
    exact .start
  | cons i is ih =>
    unfold disconnectInputs at ht
    cases hc : (s.inputPin ⟨p, i⟩).bind InputPin.m_connection with
    | none =>
      rw [hc] at ht
      exact ih hs ht
    | some c =>
      obtain ⟨pin, hpin, hpc⟩ := Option.bind_eq_some_iff.mp hc
      obtain ⟨k, hk, hconsumer⟩ := hs.input_listed _ pin c hpin hpc
      obtain ⟨out, inp, hl⟩ := hs.linked k c hk
      obtain ⟨s', hs', hi', -⟩ := hs.threadUnsafeDisconnect hk
      rw [hc] at ht
      simp only [hl.conn, hs', Option.bind_eq_bind, Option.bind_some] at ht
      have hcut : Reaches threadUnsafeDisconnect (Cuts p) s s' :=
        .step k .start ⟨c, hk, ⟨p, i⟩, rfl, .inr hconsumer⟩ hs'
      exact hcut.trans (ih hi' ht)

theorem disconnectEach_reaches (hs : s.Inv) {cs : List ConnPtr} (hn : cs.Nodup)
    (hcs : ∀ c ∈ cs, (∃ k : Int, s.m_connections[k]? = some c) ∧
      ∃ r : PinRef, r.owner = p ∧ (s.conns c).m_producer = some r)
    (ht : disconnectEach cs s = some t) : Reaches threadUnsafeDisconnect (Cuts p) s t := by
  induction cs generalizing s with
  | nil =>
    cases ht
    exact .start
  | cons c cs ih =>
    obtain ⟨hc, hn⟩ := List.nodup_cons.mp hn
    obtain ⟨⟨k, hk⟩, r, hr, hproducer⟩ := hcs c List.mem_cons_self
    obtain ⟨out, inp, o, i, hconn, -, -, -, heq⟩ := hs.threadUnsafeDisconnect_eq hk
    obtain ⟨s', hs', hi', -, hmap⟩ := hs.threadUnsafeDisconnect hk
    unfold disconnectEach at ht
    simp only [hconn, hs', Option.bind_eq_bind, Option.bind_some] at ht
    have hcut : Reaches threadUnsafeDisconnect (Cuts p) s s' :=
      .step k .start ⟨c, hk, r, hr, .inl hproducer⟩ hs'
    refine hcut.trans (ih hi' hn ?_ ht)
    intro c' hc'
    have hne : c' ≠ c := by
      rintro rfl
      exact hc hc'
    obtain ⟨⟨k', hk'⟩, hproducer'⟩ := hcs c' (List.mem_cons_of_mem c hc')
    have hconns : s'.conns c' = s.conns c' := by
      rw [heq] at hs'
      cases hs'
      exact conns_disconnected s c out inp o i hne
    rw [hconns, hmap]
    exact ⟨⟨k', QMap.erase_stored hk hk' hne⟩, hproducer'⟩

theorem disconnectOutputs_reaches (hs : s.Inv) {is : List Int}
    (ht : disconnectOutputs p is s = some t) :
    Reaches threadUnsafeDisconnect (Cuts p) s t := by
  induction is generalizing s with
  | nil =>
    cases ht
    exact .start
  | cons i is ih =>
    unfold disconnectOutputs at ht
    simp only [Option.bind_eq_bind] at ht
    obtain ⟨s', hs', ht⟩ := Option.bind_eq_some_iff.mp ht
    cases ho : s.outputPin ⟨p, i⟩ with
    | none =>
      rw [ho] at hs'
      cases hs'
      exact ih hs ht
    | some o =>
      rw [ho] at hs'
      have hn := hs.nodup _ o ho
      have hcs : ∀ c ∈ o.m_connections, (∃ k : Int, s.m_connections[k]? = some c) ∧
          ∃ r : PinRef, r.owner = p ∧ (s.conns c).m_producer = some r := by
        intro c hc
        obtain ⟨k, hk, hproducer⟩ := hs.output_listed _ o c ho hc
        exact ⟨⟨k, hk⟩, ⟨p, i⟩, rfl, hproducer⟩
      have hfirst := disconnectEach_reaches hs hn hcs hs'
      obtain ⟨s'', hs'', hi', -⟩ := hs.disconnectEach hn fun c hc => (hcs c hc).1
      obtain rfl : s' = s'' := Option.some.inj (hs'.symm.trans hs'')
      exact hfirst.trans (ih hi' ht)

variable {h : HashOrder Int}

theorem removeConnectionsForElement_reaches (hs : s.Inv)
    (ht : s.removeConnectionsForElement h p = some t) :
    Reaches threadUnsafeDisconnect (Cuts p) s t := by
  unfold removeConnectionsForElement at ht
  simp only [Option.bind_eq_bind] at ht
  obtain ⟨s', hs', ht⟩ := Option.bind_eq_some_iff.mp ht
  unfold disconnectInputPins at hs'
  cases hk : (s.elems p).kind with
  | producer =>
    rw [hk] at hs'
    cases hs'
    exact disconnectOutputs_reaches hs ht
  | processor =>
    rw [hk] at hs'
    obtain ⟨s'', hs'', hi', -⟩ := hs.disconnectInputs p (h.order (s.elems p).m_inputPins.keys)
    obtain rfl : s' = s'' := Option.some.inj (hs'.symm.trans hs'')
    exact (disconnectInputs_reaches hs hs').trans (disconnectOutputs_reaches hi' ht)

/-- One connection of the element goes; the pins of all others stay as they are. -/
theorem cuts_step {k : Int} (hs : s.Inv) (hcut : Cuts p s k)
    (ht : s.threadUnsafeDisconnect k = some t) :
    t.Inv ∧ (s.Serving → t.Serving) ∧
      ∀ r pin c, s.inputPin r = some pin → pin.m_connection = some c → ¬ s.Touches c p →
        t.inputPin r = some pin ∧ t.conns c = s.conns c := by
  obtain ⟨c₀, hk, htouch⟩ := hcut
  obtain ⟨hi, hserving, hkept⟩ := hs.threadUnsafeDisconnect_serving hk ht
  refine ⟨hi, hserving, fun r pin c hpin hc hnot => hkept r pin c hpin hc ?_⟩
  rintro rfl
  exact hnot htouch

theorem cuts_run (hs : s.Inv) (hr : Reaches threadUnsafeDisconnect (Cuts p) s t) :
    t.Inv ∧ (s.Serving → t.Serving) ∧
      ∀ r pin c, s.inputPin r = some pin → pin.m_connection = some c → ¬ s.Touches c p →
        t.inputPin r = some pin ∧ t.conns c = s.conns c := by
  refine hr.invariant (I := fun t => t.Inv ∧ (s.Serving → t.Serving) ∧
    ∀ r pin c, s.inputPin r = some pin → pin.m_connection = some c → ¬ s.Touches c p →
      t.inputPin r = some pin ∧ t.conns c = s.conns c)
    ⟨hs, id, fun _ _ _ hpin _ _ => ⟨hpin, rfl⟩⟩ ?_
  rintro u k u' ⟨hu, hserving, hkept⟩ hcut hstep
  obtain ⟨hu', hserving', hkept'⟩ := cuts_step hu hcut hstep
  refine ⟨hu', hserving' ∘ hserving, fun r pin c hpin hc hnot => ?_⟩
  obtain ⟨hpin', hconn⟩ := hkept r pin c hpin hc hnot
  have hnot' : ¬ u.Touches c p := by
    unfold Touches
    rw [hconn]
    exact hnot
  obtain ⟨hpin'', hconn'⟩ := hkept' r pin c hpin' hc hnot'
  exact ⟨hpin'', hconn'.trans hconn⟩

end Loops

theorem Serving.disconnect (h : s.Serving) {M : QMap ConnPtr}
    (hs : ({ s with m_connections := M } : Pipeline).Inv) {k : Int} {c : ConnPtr}
    (hk : M[k]? = some c) (ht : s.disconnect c = some t) : t.Serving := by
  obtain ⟨out, inp, hl⟩ := hs.linked k c hk
  obtain ⟨o, i, ho, hm, hi, hic, -⟩ := hl.pins
  obtain ⟨hid, -⟩ := hs.input_pin inp i hi
  have heq : s.disconnect c = some (s.disconnected c out inp o i) :=
    disconnect_eq hl.conn ho hm hi hic hid
  rw [heq] at ht
  cases ht
  refine h.disconnected hi ?_
  rw [hic]
  exact nofun

/-- The loop of `clear` over all connections. -/
theorem Serving.disconnectValues (h : s.Serving) {M : QMap ConnPtr}
    (hs : ({ s with m_connections := M } : Pipeline).Inv) {cs : List ConnPtr} (hn : cs.Nodup)
    (hcs : ∀ c ∈ cs, ∃ k : Int, M[k]? = some c) (ht : Pipeline.disconnectValues cs s = some t) :
    t.Serving := by
  induction cs generalizing s M with
  | nil =>
    cases ht
    exact h
  | cons c cs ih =>
    obtain ⟨hc, hn⟩ := List.nodup_cons.mp hn
    obtain ⟨k, hk⟩ := hcs c List.mem_cons_self
    obtain ⟨s', hs', hi', -⟩ := Inv.disconnect hs hk
    unfold Pipeline.disconnectValues at ht
    rw [hs'] at ht
    refine ih (h.disconnect hs hk hs') hi' hn ?_ ht
    intro c' hc'
    obtain ⟨k', hk'⟩ := hcs c' (List.mem_cons_of_mem c hc')
    exact ⟨k', QMap.erase_stored hk hk' (ne_of_mem_of_not_mem hc' hc)⟩

theorem Serving.removeConnectionsForEach (hs : s.Inv) (h : s.Serving) {order : HashOrder Int}
    {ps : List ElemPtr} (ht : Pipeline.removeConnectionsForEach order ps s = some t) :
    t.Serving := by
  induction ps generalizing s with
  | nil =>
    cases ht
    exact h
  | cons p ps ih =>
    unfold Pipeline.removeConnectionsForEach at ht
    simp only [Option.bind_eq_bind] at ht
    obtain ⟨s', hs', ht⟩ := Option.bind_eq_some_iff.mp ht
    obtain ⟨hi', hserving, -⟩ := cuts_run hs (removeConnectionsForElement_reaches hs hs')
    exact ih hi' (hserving h) ht

theorem Serving.clear (hs : s.Inv) (h : s.Serving) {order : HashOrder Int}
    (ht : s.clear order = some t) : t.Serving := by
  obtain ⟨u, hu, hi, -⟩ := hs.removeAllConnections fun _ => true
  have hserving : u.Serving := by
    unfold removeAllConnections at hu
    simp only [Option.bind_eq_bind] at hu
    obtain ⟨v, hv, hvu⟩ := Option.bind_eq_some_iff.mp hu
    cases hvu
    have hdone : v.Serving := Serving.disconnectValues h (M := s.m_connections) hs
      (valuesOf_nodup fun k k' c => hs.connection_unique) (fun c hc => mem_valuesOf.mp hc) hv
    exact hdone.congr (fun _ => rfl) (fun _ => rfl)
  unfold Pipeline.clear removeAllElements at ht
  simp only [hu, Option.bind_eq_bind, Option.bind_some] at ht
  obtain ⟨v, hv, hvt⟩ := Option.bind_eq_some_iff.mp ht
  obtain ⟨w, hw, hwv⟩ := Option.bind_eq_some_iff.mp hv
  cases hwv
  cases hvt
  exact (Serving.removeConnectionsForEach hi hserving hw).congr (fun _ => rfl) (fun _ => rfl)

section Connect
variable {out inp : PinRef} {o : OutputPin} {i : InputPin}

/-- The id of the new pin is that of no other. -/
theorem fresh_connected {m : QMap InputPin} {n : Int} (hn : n = countUp m m.size 0)
    (hm : ∀ j : Int, j ∈ m ↔ j = inp.id ∨ s.inputPin ⟨inp.owner, j⟩ ≠ none) :
    n ≠ inp.id ∧ s.inputPin ⟨inp.owner, n⟩ = none := by
  have hnot := countUp_size_notMem m
  rw [← hn, hm, not_or, not_not] at hnot
  exact hnot

/-- The free pin is connected, and there is a new one. -/
theorem Serving.connected (h : s.Serving) (hid : i.m_id = inp.id)
    (hdynamic : (s.elems inp.owner).isTCPServer = true → i.isDynamicallyTyped = true)
    (hfreePin : ∃ pin, s.inputPin inp = some pin ∧ pin.m_connection = none) :
    (s.connected out inp o i).Serving := by
  intro p hp
  have htcp : (s.elems p).isTCPServer = true :=
    (tcp_of_header (header_connected s out inp o i p)).symm.trans hp
  obtain ⟨hold, j, hj, honly⟩ := h p htcp
  rcases s.inputPins_connected out inp o i with ⟨hf, hread⟩ | ⟨hf, m, n, hn, hm, hread⟩
  · have hown (j : Int) : (⟨p, j⟩ : PinRef) ≠ inp := by
      rintro rfl
      rw [htcp] at hf
      cases hf
    constructor
    case dynamic => simpa only [hread, if_neg (hown _)] using hold
    case free =>
      refine ⟨j, ?_, ?_⟩
      · simpa only [hread, if_neg (hown _)] using hj
      · simpa only [hread, if_neg (hown _)] using honly
  · obtain ⟨hne, hnone⟩ := fresh_connected hn hm
    by_cases hown : inp.owner = p
    · subst hown
      constructor
      case dynamic =>
        intro k pin hk
        rw [hread] at hk
        split at hk
        · rename_i hkn
          cases hk
          exact ⟨(congrArg PinRef.id hkn).symm, rfl⟩
        · split at hk
          · rename_i hki
            cases hk
            exact ⟨hid.trans (congrArg PinRef.id hki).symm, hdynamic htcp⟩
          · exact hold k pin hk
      case free =>
        refine ⟨n, ⟨{ genericPin with m_id := n }, by rw [hread, if_pos rfl], rfl⟩, ?_⟩
        rintro k ⟨pin, hk, hun⟩
        rw [hread] at hk
        split at hk
        · rename_i hkn
          exact congrArg PinRef.id hkn
        · split at hk
          · cases hk
            cases hun
          · rename_i hki
            -- the pin that was free is the one connected now
            have hkj := honly k ⟨pin, hk, hun⟩
            have hij := honly inp.id hfreePin
            exact absurd (by rw [hkj, ← hij]) hki
    · have hother (j : Int) : (⟨p, j⟩ : PinRef) ≠ ⟨inp.owner, n⟩ ∧ (⟨p, j⟩ : PinRef) ≠ inp :=
        ⟨fun he => hown (congrArg PinRef.owner he).symm,
          fun he => hown (congrArg PinRef.owner he).symm⟩
      constructor
      case dynamic => simpa only [hread, if_neg (hother _).1, if_neg (hother _).2] using hold
      case free =>
        refine ⟨j, ?_, ?_⟩
        · simpa only [hread, if_neg (hother _).1, if_neg (hother _).2] using hj
        · simpa only [hread, if_neg (hother _).1, if_neg (hother _).2] using honly

end Connect

def Ends (s : Pipeline) (c : ConnPtr) : Edit → Prop
  | .pinConnectionDisconnect id => s.m_connections[id]? = some c
  | .removeElement id => ∃ p, s.m_children[id]? = some p ∧ s.Touches c p
  | .clear => True
  | .addElement _ | .connectPins _ _ => False

variable {isRegistered : Int → Bool} {h : HashOrder Int}

/-- A server has one pin when it is constructed. -/
theorem Serving.new {elems : ElemPtr → Element}
    (htcp : ∀ p, (elems p).isTCPServer = true → (elems p).m_inputPins = tcpServer.m_inputPins)
    (m_changed : Bool) : (Pipeline.new elems m_changed).Serving := by
  intro p hp
  have hread (j : Int) : (Pipeline.new elems m_changed).inputPin ⟨p, j⟩ =
      if j = 0 then some { genericPin with m_id := 0 } else none := by
    have htable : (Pipeline.new elems m_changed).inputPin ⟨p, j⟩ = tcpServer.m_inputPins[j]? :=
      congrArg (fun m : QMap InputPin => m[j]?) (htcp p hp)
    rw [htable]
    refine (QMap.getElem?_insert ∅ 0 j _).trans ?_
    simp
  constructor
  case dynamic =>
    intro j pin hj
    rw [hread] at hj
    split at hj
    · rename_i hzero
      cases hj
      exact ⟨hzero.symm, rfl⟩
    · cases hj
  case free =>
    refine ⟨0, ⟨{ genericPin with m_id := 0 }, by rw [hread, if_pos rfl], rfl⟩, ?_⟩
    rintro j ⟨pin, hj, -⟩
    rw [hread] at hj
    by_contra hne
    rw [if_neg hne] at hj
    cases hj

end Pipeline

end ParleVision.Graph
