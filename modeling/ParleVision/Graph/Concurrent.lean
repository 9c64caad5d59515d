import ParleVision.Graph.Consistency
import ParleVision.Graph.NewIds
import ParleVision.Lib.Run

namespace ParleVision.Graph
open Lib

inductive Addition where
  | addElement (p : ElemPtr)
  | connectPins (out inp : PinRef)
deriving DecidableEq, Repr

def Addition.SameKind : Addition → Addition → Prop
  | .addElement _, .addElement _ => True
  | .connectPins _ _, .connectPins _ _ => True
  | _, _ => False

instance : (a b : Addition) → Decidable (a.SameKind b)
  | .addElement _, .addElement _ => .isTrue trivial
  | .connectPins _ _, .connectPins _ _ => .isTrue trivial
  | .addElement _, .connectPins _ _ => .isFalse id
  | .connectPins _ _, .addElement _ => .isFalse id

inductive Progress where
  | called
  /-- `addElement` is past `canAddElement` -/
  | checked
  /-- the id is chosen, and an element has it -/
  | chosen (id : Int)
  /-- `connectPins` has constructed the connection, which connects the pins -/
  | constructed (id : Int) (c : ConnPtr)
  | returned (id : Int)
  | thrown (e : Pipeline.ConnectException)
deriving DecidableEq, Repr

/-- The id of a call that has chosen one and not inserted anything yet. -/
def Progress.pending : Progress → Option Int
  | .chosen id => some id
  | .constructed id _ => some id
  | .called | .checked | .returned _ | .thrown _ => none

def Addition.beforeId : Addition → Progress
  | .addElement _ => .checked
  | .connectPins _ _ => .called

structure Additions (ι : Type) where
  pipeline : Pipeline
  progress : ι → Progress

namespace Pipeline

/-- `addElement` up to the insertion: an element without an id gets a new one. -/
def chooseId (s : Pipeline) (p : ElemPtr) : Pipeline × Int :=
  if (s.elems p).m_id = -1 then
    (s.setElem p { s.elems p with m_id := s.getNewPipelineElementId }, s.getNewPipelineElementId)
  else (s, (s.elems p).m_id)

def insertElement (s : Pipeline) (id : Int) (p : ElemPtr) : Pipeline :=
  { s with
    m_children := s.m_children.insert id p
    m_producers :=
      if (s.elems p).kind = .producer then s.m_producers.insert id p else s.m_producers
    m_processors :=
      if (s.elems p).kind = .processor then s.m_processors.insert id p else s.m_processors
    m_changed := true }

/-- Without other calls in between this is all of `addElement`. -/
theorem insertElement_chooseId (s : Pipeline) (p : ElemPtr) :
    (s.chooseId p).1.insertElement (s.chooseId p).2 p = s.addElement p := by
  unfold chooseId insertElement addElement setElem
  split
  · simp
  · simp

end Pipeline

namespace Additions
variable {ι : Type} [DecidableEq ι] (isRegistered : Int → Bool) (calls : ι → Addition)

def advance (s : Additions ι) (i : ι) (pipeline : Pipeline) (progress : Progress) : Additions ι :=
  ⟨pipeline, Function.update s.progress i progress⟩

/-- A caller's next section: of `addElement` the check, which changes nothing, the choice of the id
and the insertion, of `connectPins` the choice of the id, the constructor of the connection and the
insertion. -/
def step (s : Additions ι) (i : ι) : Option (Additions ι) :=
  match calls i, s.progress i with
  | .addElement _, .called => some (s.advance i s.pipeline .checked)
  | .addElement p, .checked =>
    some (s.advance i (s.pipeline.chooseId p).1 (.chosen (s.pipeline.chooseId p).2))
  | .addElement p, .chosen id => some (s.advance i (s.pipeline.insertElement id p) (.returned id))
  | .connectPins _ _, .called =>
    some (s.advance i s.pipeline (.chosen s.pipeline.getNewPinConnectionId))
  | .connectPins out inp, .chosen id =>
    match (s.pipeline.newConnection id out inp).connect isRegistered s.pipeline.nextConn out inp with
    | some (t, .ok ()) => some (s.advance i t (.constructed id s.pipeline.nextConn))
    | some (t, .error e) => some (s.advance i t (.thrown e))
    | none => none
  | .connectPins _ _, .constructed id c =>
    some (s.advance i
      { s.pipeline with m_connections := s.pipeline.m_connections.insert id c } (.returned id))
  | _, _ => none

def start (pipeline : Pipeline) : Additions ι := ⟨pipeline, fun _ => .called⟩

/-- No id is chosen while another call of the same function has one that it has yet to insert. -/
def Apart (s : Additions ι) (i : ι) : Prop :=
  s.progress i = (calls i).beforeId →
    ∀ j, (calls i).SameKind (calls j) → (s.progress j).pending = none

instance [Fintype ι] (s : Additions ι) (i : ι) : Decidable (s.Apart calls i) :=
  inferInstanceAs (Decidable (_ → ∀ _, _ → _))

end Additions

namespace Pipeline

def newId (s : Pipeline) : Addition → Int
  | .addElement _ => s.getNewPipelineElementId
  | .connectPins _ _ => s.getNewPinConnectionId

def Added (s : Pipeline) (id : Int) : Addition → Prop
  | .addElement p => s.m_children[id]? = some p
  | .connectPins out inp => ∃ c, s.m_connections[id]? = some c ∧ c < s.nextConn ∧
      s.conns c = ⟨id, some out, some inp⟩

structure Grows (s t : Pipeline) : Prop where
  children : ∀ (k : Int) p, s.m_children[k]? = some p → t.m_children[k]? = some p
  connections : ∀ (k : Int) c, s.m_connections[k]? = some c → t.m_connections[k]? = some c
  conns : ∀ c, c < s.nextConn → t.conns c = s.conns c
  nextConn : s.nextConn ≤ t.nextConn

theorem Grows.refl (s : Pipeline) : s.Grows s :=
  ⟨fun _ _ h => h, fun _ _ h => h, fun _ _ => rfl, le_rfl⟩

theorem Grows.trans {s t u : Pipeline} (h : s.Grows t) (h' : t.Grows u) : s.Grows u where
  children k p hp := h'.children k p (h.children k p hp)
  connections k c hc := h'.connections k c (h.connections k c hc)
  conns c hc := (h'.conns c (hc.trans_le h.nextConn)).trans (h.conns c hc)
  nextConn := h.nextConn.trans h'.nextConn

theorem Grows.added {s t : Pipeline} (h : s.Grows t) {id : Int} {a : Addition}
    (ha : s.Added id a) : t.Added id a := by
  cases a with
  | addElement p => exact h.children id p ha
  | connectPins out inp =>
    obtain ⟨c, hc, hlt, hconn⟩ := ha
    exact ⟨c, h.connections id c hc, hlt.trans_le h.nextConn, (h.conns c hlt).trans hconn⟩

structure OnlyPins (s t : Pipeline) : Prop where
  children : t.m_children = s.m_children
  connections : t.m_connections = s.m_connections
  conns : t.conns = s.conns
  nextConn : t.nextConn = s.nextConn
  header : ∀ p, t.header p = s.header p

theorem OnlyPins.refl (s : Pipeline) : s.OnlyPins s := ⟨rfl, rfl, rfl, rfl, fun _ => rfl⟩

theorem OnlyPins.trans {s t u : Pipeline} (h : s.OnlyPins t) (h' : t.OnlyPins u) : s.OnlyPins u :=
  ⟨h'.children.trans h.children, h'.connections.trans h.connections, h'.conns.trans h.conns,
    h'.nextConn.trans h.nextConn, fun p => (h'.header p).trans (h.header p)⟩

theorem onlyPins_setInputPin (s : Pipeline) (r : PinRef) (pin : InputPin) :
    s.OnlyPins (s.setInputPin r pin) :=
  ⟨rfl, rfl, rfl, rfl, fun p => header_setInputPin s r p pin⟩

theorem onlyPins_onInputConnectionSet (s : Pipeline) (r : PinRef) :
    s.OnlyPins (s.onInputConnectionSet r) := by
  rcases s.onInputConnectionSet_cases r with ⟨-, he⟩ | ⟨-, n, -, -, he⟩
  · rw [he]
    exact .refl s
  · rw [he]
    exact onlyPins_setInputPin s _ _

/-- `PinConnection::connect` writes nothing else, whether it throws or not. -/
theorem connect_onlyPins {isRegistered : Int → Bool} {s t : Pipeline} {c : ConnPtr}
    {out inp : PinRef} {result : Except ConnectException Unit}
    (h : s.connect isRegistered c out inp = some (t, result)) : s.OnlyPins t := by
  unfold connect at h
  split at h
  case h_2 => cases h
  case h_1 o i _ _ =>
    split at h
    · cases h
      exact .refl s
    split at h
    · cases h
      exact .refl s
    split at h
    case h_1 =>
      cases h
      exact .refl s
    case h_2 i' _ =>
      have htyped := onlyPins_setInputPin s inp i'
      dsimp only at h
      split at h
      · cases h
        exact htyped
      split at h
      · cases h
        exact htyped
      obtain ⟨u, hu, heq⟩ := Option.map_eq_some_iff.mp h
      cases heq
      unfold setConnection at hu
      split at hu
      · cases hu
      cases hu
      have hout : (s.setInputPin inp i').OnlyPins ((s.setInputPin inp i').addConnection out o c) :=
        ⟨rfl, rfl, rfl, rfl, fun p => header_setOutputPin _ out p _⟩
      exact ((htyped.trans hout).trans (onlyPins_setInputPin _ _ _)).trans
        (onlyPins_onInputConnectionSet _ _)

end Pipeline

namespace Additions
variable {ι : Type} {isRegistered : Int → Bool} {calls : ι → Addition} {s₀ t : Pipeline}
  {s s' : Additions ι} {i : ι} {q : Progress}

/-- At most one call of each function has chosen an id without having inserted it, which is then
still the id that the next one would choose. -/
structure Sound (calls : ι → Addition) (s₀ : Pipeline) (s : Additions ι) : Prop where
  fresh : ∀ i p, calls i = .addElement p → (s.progress i = .called ∨ s.progress i = .checked) →
    (s.pipeline.elems p).m_id = -1
  one : ∀ i j, (calls i).SameKind (calls j) → (s.progress i).pending ≠ none →
    (s.progress j).pending ≠ none → i = j
  next : ∀ i id, (s.progress i).pending = some id → id = s.pipeline.newId (calls i)
  built : ∀ i out inp id c, calls i = .connectPins out inp → s.progress i = .constructed id c →
    c < s.pipeline.nextConn ∧ s.pipeline.conns c = ⟨id, some out, some inp⟩
  added : ∀ i id, s.progress i = .returned id → s.pipeline.Added id (calls i)
  grows : s₀.Grows s.pipeline

theorem Sound.start (hid : ∀ i p, calls i = .addElement p → (s₀.elems p).m_id = -1) :
    Sound calls s₀ (start s₀) where
  fresh i p hp _ := hid i p hp
  one _ _ _ hi := absurd rfl hi
  next _ _ h := by cases h
  built _ _ _ _ _ _ h := by cases h
  added _ _ h := by cases h
  grows := .refl s₀

/-- What one caller's section has to keep of the others, and to establish of its own call. -/
theorem Sound.advance [DecidableEq ι] (h : Sound calls s₀ s) (hgrows : s.pipeline.Grows t)
    (hids : ∀ j p, j ≠ i → calls j = .addElement p → (t.elems p).m_id = (s.pipeline.elems p).m_id)
    (hothers : ∀ j, j ≠ i → (s.progress j).pending ≠ none →
      t.newId (calls j) = s.pipeline.newId (calls j))
    (hfresh : ∀ p, calls i = .addElement p → (q = .called ∨ q = .checked) →
      (t.elems p).m_id = -1)
    (hone : q.pending ≠ none → ∀ j, j ≠ i → (calls i).SameKind (calls j) →
      (s.progress j).pending = none)
    (hnext : ∀ id, q.pending = some id → id = t.newId (calls i))
    (hbuilt : ∀ out inp id c, calls i = .connectPins out inp → q = .constructed id c →
      c < t.nextConn ∧ t.conns c = ⟨id, some out, some inp⟩)
    (hadded : ∀ id, q = .returned id → t.Added id (calls i)) :
    Sound calls s₀ (s.advance i t q) := by
  have hself : (s.advance i t q).progress i = q := Function.update_self ..
  have hother : ∀ j, j ≠ i → (s.advance i t q).progress j = s.progress j :=
    fun j hj => Function.update_of_ne hj ..
  constructor
  case fresh =>
    intro j p hp hj
    by_cases hji : j = i
    · subst j
      rw [hself] at hj
      exact hfresh p hp hj
    · rw [hother j hji] at hj
      exact (hids j p hji hp).trans (h.fresh j p hp hj)
  case one =>
    intro j k hkind hj hk
    by_cases hji : j = i
    · subst j
      by_contra hne
      rw [hself] at hj
      rw [hother k (Ne.symm hne)] at hk
      exact hk (hone hj k (Ne.symm hne) hkind)
    · by_cases hki : k = i
      · subst k
        rw [hself] at hk
        rw [hother j hji] at hj
        refine absurd (hone hk j hji ?_) hj
        revert hkind
        cases calls j <;> cases calls i <;> exact id
      · rw [hother j hji] at hj
        rw [hother k hki] at hk
        exact h.one j k hkind hj hk
  case next =>
    intro j id hj
    by_cases hji : j = i
    · subst j
      rw [hself] at hj
      exact hnext id hj
    · rw [hother j hji] at hj
      refine (h.next j id hj).trans (hothers j hji ?_).symm
      simp [hj]
  case built =>
    intro j out inp id c hcall hj
    by_cases hji : j = i
    · subst j
      rw [hself] at hj
      exact hbuilt out inp id c hcall hj
    · rw [hother j hji] at hj
      obtain ⟨hc, hconn⟩ := h.built j out inp id c hcall hj
      exact ⟨hc.trans_le hgrows.nextConn, (hgrows.conns c hc).trans hconn⟩
  case added =>
    intro j id hj
    by_cases hji : j = i
    · subst j
      rw [hself] at hj
      exact hadded id hj
    · rw [hother j hji] at hj
      exact hgrows.added (h.added j id hj)
  case grows => exact h.grows.trans hgrows

theorem sameKind_newId {a b : Addition} (h : a.SameKind b) (s : Pipeline) :
    s.newId a = s.newId b := by
  cases a <;> cases b
  · rfl
  · exact h.elim
  · exact h.elim
  · rfl

/-- An id that is chosen is not in use. -/
theorem Sound.unused (h : Sound calls s₀ s) {id : Int} (hi : (s.progress i).pending = some id) :
    match calls i with
    | .addElement _ => s.pipeline.m_children[id]? = none
    | .connectPins _ _ => s.pipeline.m_connections[id]? = none := by
  have hid := h.next i id hi
  have hnew := s.pipeline.newIds_unused
  cases hc : calls i with
  | addElement p =>
    rw [hc] at hid
    subst hid
    exact Std.ExtTreeMap.getElem?_eq_none hnew.1.unused
  | connectPins out inp =>
    rw [hc] at hid
    subst hid
    exact Std.ExtTreeMap.getElem?_eq_none hnew.2.unused

/-- A new key loses no other one. -/
theorem insert_keeps {α : Type} {m : QMap α} {id k : Int} {v w : α} (hfree : m[id]? = none)
    (hk : m[k]? = some w) : (m.insert id v)[k]? = some w := by
  rw [QMap.getElem?_insert, if_neg, hk]
  rintro rfl
  rw [hfree] at hk
  cases hk

/-- Every id is given to one call only, and nothing that was added, now or before, is missing. -/
structure Kept (calls : ι → Addition) (s₀ : Pipeline) (s : Additions ι) : Prop where
  different : ∀ i j id, (calls i).SameKind (calls j) → s.progress i = .returned id →
    s.progress j = .returned id → i = j
  added : ∀ i id, s.progress i = .returned id → s.pipeline.Added id (calls i)
  children : ∀ (k : Int) p, s₀.m_children[k]? = some p → s.pipeline.m_children[k]? = some p
  connections : ∀ (k : Int) c, s₀.m_connections[k]? = some c →
    s.pipeline.m_connections[k]? = some c

theorem Sound.kept (h : Sound calls s₀ s)
    (hne : ∀ i j p, calls i = .addElement p → calls j = .addElement p → i = j)
    (hpins : ∀ i j out out' inp, calls i = .connectPins out inp → calls j = .connectPins out' inp →
      i = j) : Kept calls s₀ s where
  different := by
    intro i j id hkind hi hj
    have hai := h.added i id hi
    have haj := h.added j id hj
    cases hci : calls i with
    | addElement p =>
      cases hcj : calls j with
      | addElement r =>
        rw [hci] at hai
        rw [hcj] at haj
        have hpr : p = r := Option.some.inj (hai.symm.trans haj)
        subst hpr
        exact hne i j p hci hcj
      | connectPins out inp =>
        rw [hci, hcj] at hkind
        exact hkind.elim
    | connectPins out inp =>
      cases hcj : calls j with
      | addElement r =>
        rw [hci, hcj] at hkind
        exact hkind.elim
      | connectPins out' inp' =>
        rw [hci] at hai
        rw [hcj] at haj
        obtain ⟨c, hc, -, hconn⟩ := hai
        obtain ⟨c', hc', -, hconn'⟩ := haj
        have hcc : c = c' := Option.some.inj (hc.symm.trans hc')
        subst hcc
        rw [hconn] at hconn'
        cases hconn'
        exact hpins i j out _ inp hci hcj
  added := h.added
  children := h.grows.children
  connections := h.grows.connections

variable [DecidableEq ι]

theorem Sound.chooseId (h : Sound calls s₀ s) {p : ElemPtr} (hcall : calls i = .addElement p)
    (hne : ∀ j, calls j = .addElement p → j = i) (hp : s.progress i = .checked)
    (hapart : s.Apart calls i) :
    Sound calls s₀ (s.advance i (s.pipeline.chooseId p).1 (.chosen (s.pipeline.chooseId p).2)) := by
  have hid : (s.pipeline.elems p).m_id = -1 := h.fresh i p hcall (.inr hp)
  have halone : ∀ j, (calls i).SameKind (calls j) → (s.progress j).pending = none := by
    apply hapart
    rw [hcall]
    exact hp
  unfold Pipeline.chooseId
  rw [if_pos hid]
  apply h.advance
  · exact ⟨fun _ _ hk => hk, fun _ _ hk => hk, fun _ _ => rfl, le_rfl⟩
  · intro j r hj hr
    have hrp : r ≠ p := by
      rintro rfl
      exact hj (hne j hr)
    change (Function.update s.pipeline.elems p _ r).m_id = _
    rw [Function.update_of_ne hrp]
  · intro j hj hpending
    cases calls j <;> rfl
  · intro r hr hq
    cases hq with
    | inl hq => cases hq
    | inr hq => cases hq
  · exact fun _ j _ hkind => halone j hkind
  · intro id hq
    cases hq
    rw [hcall]
    rfl
  · intro out inp id c _ hq
    cases hq
  · intro id hq
    cases hq

theorem Sound.insertElement (h : Sound calls s₀ s) {p : ElemPtr} {id : Int}
    (hcall : calls i = .addElement p) (hp : s.progress i = .chosen id) :
    Sound calls s₀ (s.advance i (s.pipeline.insertElement id p) (.returned id)) := by
  have hpending : (s.progress i).pending = some id := by
    rw [hp]
    rfl
  have hfree : s.pipeline.m_children[id]? = none := by
    have hunused := h.unused hpending
    rwa [hcall] at hunused
  apply h.advance
  · exact ⟨fun k r hr => insert_keeps hfree hr, fun _ _ hk => hk, fun _ _ => rfl, le_rfl⟩
  · exact fun _ _ _ _ => rfl
  · intro j hj hother
    cases hc : calls j with
    | addElement r =>
      refine absurd (h.one j i ?_ hother (by simp [hpending])) hj
      rw [hc, hcall]
      trivial
    | connectPins out inp => rfl
  · intro r hr hq
    cases hq with
    | inl hq => cases hq
    | inr hq => cases hq
  · exact fun hq => absurd rfl hq
  · intro id' hq
    cases hq
  · intro out inp id' c _ hq
    cases hq
  · intro id' hq
    cases hq
    rw [hcall]
    change (s.pipeline.m_children.insert id p)[id]? = some p
    rw [QMap.getElem?_insert, if_pos rfl]

theorem Sound.insertConnection (h : Sound calls s₀ s) {out inp : PinRef} {id : Int} {c : ConnPtr}
    (hcall : calls i = .connectPins out inp) (hp : s.progress i = .constructed id c) :
    Sound calls s₀ (s.advance i
      { s.pipeline with m_connections := s.pipeline.m_connections.insert id c }
      (.returned id)) := by
  have hpending : (s.progress i).pending = some id := by
    rw [hp]
    rfl
  have hfree : s.pipeline.m_connections[id]? = none := by
    have hunused := h.unused hpending
    rwa [hcall] at hunused
  obtain ⟨hlt, hconn⟩ := h.built i out inp id c hcall hp
  apply h.advance
  · exact ⟨fun _ _ hk => hk, fun k c' hc' => insert_keeps hfree hc', fun _ _ => rfl, le_rfl⟩
  · exact fun _ _ _ _ => rfl
  · intro j hj hother
    cases hc : calls j with
    | addElement r => rfl
    | connectPins out' inp' =>
      refine absurd (h.one j i ?_ hother (by simp [hpending])) hj
      rw [hc, hcall]
      trivial
  · intro r hr
    rw [hcall] at hr
    cases hr
  · exact fun hq => absurd rfl hq
  · intro id' hq
    cases hq
  · intro out' inp' id' c' _ hq
    cases hq
  · intro id' hq
    cases hq
    rw [hcall]
    refine ⟨c, ?_, hlt, hconn⟩
    change (s.pipeline.m_connections.insert id c)[id]? = some c
    rw [QMap.getElem?_insert, if_pos rfl]

/-- The constructor of a connection, which connects the pins or throws. -/
theorem Sound.construct (h : Sound calls s₀ s) {out inp : PinRef} {id : Int}
    {result : Except Pipeline.ConnectException Unit} (hcall : calls i = .connectPins out inp)
    (hp : s.progress i = .chosen id)
    (hconnect : (s.pipeline.newConnection id out inp).connect isRegistered s.pipeline.nextConn
      out inp = some (t, result))
    (hq : q = .constructed id s.pipeline.nextConn ∨ ∃ e, q = .thrown e) :
    Sound calls s₀ (s.advance i t q) := by
  have hpins := Pipeline.connect_onlyPins hconnect
  have hnext : t.nextConn = s.pipeline.nextConn + 1 := hpins.nextConn
  have hnew : ∀ a, t.newId a = s.pipeline.newId a := by
    intro a
    cases a with
    | addElement p =>
      change scanKeys t.m_children.keys 0 = scanKeys s.pipeline.m_children.keys 0
      rw [hpins.children]
      rfl
    | connectPins out' inp' =>
      change scanKeys t.m_connections.keys 0 = scanKeys s.pipeline.m_connections.keys 0
      rw [hpins.connections]
      rfl
  have hpending : (s.progress i).pending = some id := by
    rw [hp]
    rfl
  apply h.advance
  · refine ⟨fun k r hr => ?_, fun k c hc => ?_, fun c hc => ?_, ?_⟩
    · rw [hpins.children]
      exact hr
    · rw [hpins.connections]
      exact hc
    · rw [hpins.conns]
      exact Function.update_of_ne hc.ne ..
    · rw [hnext]
      exact Nat.le_succ _
  · exact fun _ p _ _ => Pipeline.id_of_header (hpins.header p)
  · exact fun j _ _ => hnew (calls j)
  · intro r hr
    rw [hcall] at hr
    cases hr
  · intro _ j hj hkind
    by_contra hother
    exact hj (h.one i j hkind (by simp [hpending]) hother).symm
  · intro id' hid'
    have hsame : id' = id := by
      rcases hq with rfl | ⟨e, rfl⟩
      · exact (Option.some.inj hid').symm
      · cases hid'
    rw [hsame, hnew]
    exact h.next i id hpending
  · intro out' inp' id' c hcall' hq'
    rcases hq with rfl | ⟨e, rfl⟩
    · cases hq'
      rw [hcall] at hcall'
      cases hcall'
      refine ⟨?_, ?_⟩
      · rw [hnext]
        exact Nat.lt_succ_self _
      · rw [hpins.conns]
        exact Function.update_self ..
    · cases hq'
  · intro id' hq'
    rcases hq with rfl | ⟨e, rfl⟩
    · cases hq'
    · cases hq'

/-- A section that only moves its caller on. -/
theorem Sound.wait (h : Sound calls s₀ s) (hfresh : ∀ p, calls i = .addElement p →
      (s.pipeline.elems p).m_id = -1)
    (hone : q.pending ≠ none → ∀ j, (calls i).SameKind (calls j) → (s.progress j).pending = none)
    (hnext : ∀ id, q.pending = some id → id = s.pipeline.newId (calls i))
    (hq : (∀ id c, q ≠ .constructed id c) ∧ ∀ id, q ≠ .returned id) :
    Sound calls s₀ (s.advance i s.pipeline q) := by
  apply h.advance (.refl _)
  · exact fun _ _ _ _ => rfl
  · exact fun _ _ _ => rfl
  · exact fun p hp _ => hfresh p hp
  · exact fun hpending j _ hkind => hone hpending j hkind
  · exact hnext
  · exact fun _ _ id c _ hbuilt => absurd hbuilt (hq.1 id c)
  · exact fun id hreturned => absurd hreturned (hq.2 id)

/-- One case for each section. -/
theorem Sound.step (h : Sound calls s₀ s)
    (hne : ∀ i j p, calls i = .addElement p → calls j = .addElement p → i = j)
    (hapart : s.Apart calls i) (hs : s.step isRegistered calls i = some s') :
    Sound calls s₀ s' := by
  unfold Additions.step at hs
  split at hs
  case h_1 p hcall hp =>
    cases hs
    refine h.wait (fun r hr => h.fresh i r hr (.inl hp)) (fun hq => absurd rfl hq) ?_ ⟨nofun, nofun⟩
    intro id hq
    cases hq
  case h_2 p hcall hp =>
    cases hs
    exact h.chooseId hcall (fun j hj => hne j i p hj hcall) hp hapart
  case h_3 p id hcall hp =>
    cases hs
    exact h.insertElement hcall hp
  case h_4 out inp hcall hp =>
    cases hs
    refine h.wait (fun r hr => ?_) (fun _ => hapart ?_) (fun id hq => ?_) ⟨nofun, nofun⟩
    · rw [hcall] at hr
      cases hr
    · rw [hcall]
      exact hp
    · cases hq
      rw [hcall]
      rfl
  case h_5 out inp id hcall hp =>
    split at hs
    case h_1 t hconnect =>
      cases hs
      exact h.construct hcall hp hconnect (.inl rfl)
    case h_2 t e hconnect =>
      cases hs
      exact h.construct hcall hp hconnect (.inr ⟨e, rfl⟩)
    case h_3 => cases hs
  case h_6 out inp id c hcall hp =>
    cases hs
    exact h.insertConnection hcall hp
  case h_7 => cases hs

/-- As long as no call chooses an id while another call of the function has one that it has yet to
insert, all ids differ and nothing is lost. A call that does gets the id of the other one. -/
theorem additions_kept (isRegistered : Int → Bool) (calls : ι → Addition) (s₀ : Pipeline)
    (hid : ∀ i p, calls i = .addElement p → (s₀.elems p).m_id = -1)
    (hne : ∀ i j p, calls i = .addElement p → calls j = .addElement p → i = j)
    (hpins : ∀ i j out out' inp, calls i = .connectPins out inp → calls j = .connectPins out' inp →
      i = j)
    (hr : Reaches (step isRegistered calls) (Apart calls) (start s₀) s) :
    Kept calls s₀ s ∧ ∀ i j id, (calls i).SameKind (calls j) →
      (s.progress j).pending = some id → s.pipeline.newId (calls i) = id := by
  have h : Sound calls s₀ s :=
    hr.invariant (.start hid) fun _ _ _ h hapart hs => h.step hne hapart hs
  refine ⟨h.kept hne hpins, ?_⟩
  intro i j id hkind hj
  rw [sameKind_newId hkind]
  exact (h.next j id hj).symm

def sourceAndServer : Fin 3 → Addition
  | 0 => .addElement 0
  | 1 => .addElement 1
  | 2 => .connectPins ⟨0, 0⟩ ⟨1, 0⟩

def sourceAndServerElems (p : ElemPtr) : Element :=
  if p = 1 then Pipeline.tcpServer else Pipeline.source 5

theorem sourceAndServer_unnumbered (i : Fin 3) (p : ElemPtr)
    (_ : sourceAndServer i = .addElement p) : (sourceAndServerElems p).m_id = -1 := by
  unfold sourceAndServerElems
  split <;> rfl

theorem sourceAndServer_elements (i j : Fin 3) (p : ElemPtr)
    (hi : sourceAndServer i = .addElement p) (hj : sourceAndServer j = .addElement p) : i = j := by
  have hall : ∀ i j : Fin 3, sourceAndServer i = sourceAndServer j → i = j := by decide
  exact hall i j (hi.trans hj.symm)

theorem sourceAndServer_pins (i j : Fin 3) (out out' inp : PinRef)
    (hi : sourceAndServer i = .connectPins out inp)
    (hj : sourceAndServer j = .connectPins out' inp) : i = j := by
  match i, j with
  | 2, 2 => rfl
  | 0, _ => cases hi
  | 1, _ => cases hi
  | 2, 0 => cases hj
  | 2, 1 => cases hj

/-- Both checks come first, and the ids are chosen one after the other. -/
theorem additions_kept_apart :
    ∃ s, Reaches (step (fun _ => true) sourceAndServer) (Apart sourceAndServer)
        (start (.new sourceAndServerElems false)) s ∧
      s.progress 0 = .returned 0 ∧ s.progress 1 = .returned 1 ∧ s.progress 2 = .returned 0 ∧
      Kept sourceAndServer (.new sourceAndServerElems false) s := by
  have hrun : ∃ s, run (guarded (step (fun _ => true) sourceAndServer) (Apart sourceAndServer))
      (start (.new sourceAndServerElems false)) [0, 1, 0, 0, 1, 1, 2, 2, 2] = some s ∧
      s.progress 0 = .returned 0 ∧ s.progress 1 = .returned 1 ∧ s.progress 2 = .returned 0 :=
    ⟨_, rfl, rfl, rfl, rfl⟩
  obtain ⟨s, hs, h0, h1, h2⟩ := hrun
  have hreached := Reaches.of_guarded_run hs
  exact ⟨s, hreached, h0, h1, h2, (additions_kept (fun _ => true) sourceAndServer _
    sourceAndServer_unnumbered sourceAndServer_elements sourceAndServer_pins hreached).1⟩

/-- Both calls choose the id 0, and the server takes the place of the source. -/
theorem additions_lost :
    ∃ s, Reaches (step (fun _ => true) sourceAndServer) (fun _ _ => True)
        (start (.new sourceAndServerElems false)) s ∧
      s.progress 0 = .returned 0 ∧ s.progress 1 = .returned 0 ∧
      s.pipeline.m_children[(0 : Int)]? = some 1 ∧
      ¬ Kept sourceAndServer (.new sourceAndServerElems false) s := by
  have hrun : ∃ s, run (step (fun _ => true) sourceAndServer)
      (start (.new sourceAndServerElems false)) [0, 1, 0, 1, 0, 1] = some s ∧
      s.progress 0 = .returned 0 ∧ s.progress 1 = .returned 0 ∧
      s.pipeline.m_children[(0 : Int)]? = some 1 := ⟨_, rfl, rfl, rfl, rfl⟩
  obtain ⟨s, hs, h0, h1, hchild⟩ := hrun
  refine ⟨s, Reaches.of_run (fun _ _ _ => trivial) hs, h0, h1, hchild, fun hkept => ?_⟩
  cases hkept.different 0 1 0 trivial h0 h1

end Additions

end ParleVision.Graph
