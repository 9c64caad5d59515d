import ParleVision.Runtime.Network
import ParleVision.Runtime.Step

namespace ParleVision.Runtime

variable {E P C V M : Type}

/-- A `process()` whose steps depend on what it gets. `V` is the type of the payloads, `M` that of
the members of the elements. -/
inductive Program (P C V M : Type) where
  | get (c : C) (next : V → Program P C V M)
  | clear (c : C) (next : Program P C V M)
  | put (p : P) (v : V) (next : Program P C V M)
  | setError (next : Program P C V M)
  | returns (b : Bool) (members : M)
  | throws

/-- What has been put on the output pins, and the members when `process()` has returned. -/
structure Outcome (P V M : Type) where
  put : P → Option V
  members : Option M

namespace Program

def action : Program P C V M → Action P C
  | .get c _ => .get c
  | .clear c _ => .clear c
  | .put p _ _ => .put p
  | .setError _ => .setError
  | .returns b _ => .returns b
  | .throws => .throws

/-- It takes an item from each synchronous pin before it returns. -/
def TakesAll (net : Network E P C) (e : E) : List C → Program P C V M → Prop
  | got, .get c next => ∀ v, (next v).TakesAll net e (c :: got)
  | got, .clear c next => next.TakesAll net e (c :: got)
  | got, .put _ _ next => next.TakesAll net e got
  | got, .setError next => next.TakesAll net e got
  | got, .returns _ _ => ∀ c ∈ net.syncInputs e, c ∈ got
  | _, .throws => True

variable [DecidableEq P] [DecidableEq C]

/-- A `process()` run without interruption, given the item on each of its connections. -/
def outcome (items : C → Option V) : Program P C V M → List C → (P → Option V) → Outcome P V M
  | .get c next, got, out =>
    if c ∈ got then ⟨out, none⟩
    else match items c with
      | some v => (next v).outcome items (c :: got) out
      | none => ⟨out, none⟩
  | .clear c next, got, out =>
    if c ∈ got then ⟨out, none⟩ else next.outcome items (c :: got) out
  | .put p v next, got, out =>
    if (out p).isSome then ⟨out, none⟩
    else next.outcome items got (Function.update out p (some v))
  | .setError next, got, out => next.outcome items got out
  | .returns _ members, _, out => ⟨out, some members⟩
  | .throws, _, out => ⟨out, none⟩

/-- Nothing is put on a pin a second time. -/
theorem outcome_put_of_isSome {items : C → Option V} {p : P} (program : Program P C V M)
    (got : List C) (out : P → Option V) (h : (out p).isSome = true) :
    (program.outcome items got out).put p = out p := by
  induction program generalizing got out with
  | get c next ih =>
    simp only [outcome]
    split
    · rfl
    · split
      · exact ih _ _ _ h
      · rfl
  | clear c next ih =>
    simp only [outcome]
    split
    · rfl
    · exact ih _ _ h
  | put q v next ih =>
    simp only [outcome]
    split
    · rfl
    case isFalse hq =>
      have hne : p ≠ q := fun hpq => hq (hpq ▸ h)
      rw [ih _ _ (by rwa [Function.update_of_ne hne]), Function.update_of_ne hne]
  | setError next ih => exact ih _ _ h
  | returns => rfl
  | throws => rfl

end Program

namespace Network
variable (net : Network E P C)

/-- What `generateGraphOrdering` makes: every element stands after those it consumes. -/
structure Topological (order : List E) : Prop where
  nodup : order.Nodup
  mem : ∀ e, e ∈ order
  after : ∀ l e r, order = l ++ e :: r → ∀ c, net.target c = e → net.source c ∈ l

section
variable {net} [DecidableEq E] {order : List E}

theorem idxOf_append_cons {l r : List E} {e : E} (h : (l ++ e :: r).Nodup) :
    (l ++ e :: r).idxOf e = l.length := by
  have he : e ∉ l := fun hl => (List.nodup_append.mp h).2.2 e hl e (by simp) rfl
  rw [List.idxOf_append_of_notMem he, List.idxOf_cons_self, Nat.add_zero]

theorem Topological.of_idxOf (hnodup : order.Nodup) (hmem : ∀ e, e ∈ order)
    (h : ∀ c, order.idxOf (net.source c) < order.idxOf (net.target c)) :
    net.Topological order where
  nodup := hnodup
  mem := hmem
  after := by
    rintro l e r rfl c rfl
    have hlt := h c
    rw [idxOf_append_cons hnodup] at hlt
    by_contra hl
    rw [List.idxOf_append_of_notMem hl] at hlt
    omega

theorem Topological.idxOf_lt (h : net.Topological order) (c : C) :
    order.idxOf (net.source c) < order.idxOf (net.target c) := by
  obtain ⟨l, r, rfl⟩ := List.append_of_mem (h.mem (net.target c))
  have hsource := h.after l _ r rfl c rfl
  rw [idxOf_append_cons h.nodup, List.idxOf_append_of_mem hsource]
  exact List.idxOf_lt_length_of_mem hsource

theorem Topological.acyclic (h : net.Topological order) : net.Acyclic :=
  net.acyclic_of_rank (order.idxOf ·) h.idxOf_lt

end

/-- There is a NULL on a pin that must have data. -/
def nullDetected (items : C → Option V) (cs : List C) : Bool :=
  cs.any fun c => net.isSynchronous c && net.isDataGuaranteed c && (items c).isNone

theorem nullDetected_cons (items : C → Option V) (c : C) (cs : List C) :
    net.nullDetected items (c :: cs) =
      (net.isSynchronous c && net.isDataGuaranteed c && (items c).isNone ||
        net.nullDetected items cs) :=
  rfl

end Network

/-- The item each connection had in a frame, and the members of each element after it. -/
structure FrameState (E C V M : Type) where
  items : C → Option V
  members : E → M

section
variable [DecidableEq E] [DecidableEq P] [DecidableEq C] (net : Network E P C)
  (process : E → Nat → M → Program P C V M)

def Network.received (items : C → Option V) (e : E) (c : C) : Option V :=
  if net.target c = e then items c else none

/-- What `__process` does for one serial when nothing else runs. -/
def Network.processed (e : E) (serial : Nat) (items : C → Option V) (members : M) :
    Outcome P V M :=
  if net.nullDetected items (net.inputs e) then ⟨fun _ => none, some members⟩
  else (process e serial members).outcome (net.received items e) [] fun _ => none

namespace FrameState

/-- One element is run, with NULL on the pins it does not put to. -/
def run (serial : Nat) (f : FrameState E C V M) (e : E) : FrameState E C V M :=
  let outcome := net.processed process e serial f.items (f.members e)
  { items := fun c => if net.source c = e then outcome.put (net.fromPin c) else f.items c
    members := Function.update f.members e (outcome.members.getD (f.members e)) }

end FrameState

/-- The frames one after the other, and for each of them the elements one after the other. -/
def sequential (order : List E) (first : Nat) (members : E → M) : Nat → FrameState E C V M
  | 0 => ⟨fun _ => none, members⟩
  | n + 1 => order.foldl (FrameState.run net process (first + n))
      (sequential order first members n)

/-- What the frames are, whatever the order of the elements: each element makes its items of those
it receives in the same frame, and of its members after the frame before. -/
structure Coherent (first : Nat) (frames : Nat → FrameState E C V M) : Prop where
  items : ∀ n e c, net.source c = e → (frames (n + 1)).items c =
    (net.processed process e (first + n) (frames (n + 1)).items ((frames n).members e)).put
      (net.fromPin c)
  members : ∀ n e, (frames (n + 1)).members e =
    (net.processed process e (first + n) (frames (n + 1)).items
      ((frames n).members e)).members.getD ((frames n).members e)

variable {net process}

omit [DecidableEq E] [DecidableEq P] [DecidableEq C] in
theorem Network.nullDetected_congr {items items' : C → Option V} {cs : List C}
    (h : ∀ c ∈ cs, items c = items' c) :
    net.nullDetected items cs = net.nullDetected items' cs := by
  induction cs with
  | nil => rfl
  | cons c cs ih =>
    rw [net.nullDetected_cons, net.nullDetected_cons, h c (by simp),
      ih fun c' hc' => h c' (by simp [hc'])]

theorem Network.processed_congr {items items' : C → Option V} {e : E} {serial : Nat} {members : M}
    (h : ∀ c, net.target c = e → items c = items' c) :
    net.processed process e serial items members = net.processed process e serial items' members := by
  have hreceived : net.received items e = net.received items' e := by
    funext c
    unfold received
    split
    case isTrue hc => exact h c hc
    case isFalse => rfl
  unfold processed
  rw [hreceived, nullDetected_congr fun c hc => h c ((net.mem_inputs e c).mp hc)]

/-- The run of the other elements leaves the items and the members of an element. -/
theorem foldl_run {serial : Nat} (l : List E) (f : FrameState E C V M) :
    (∀ c, net.source c ∉ l →
      (l.foldl (FrameState.run net process serial) f).items c = f.items c) ∧
    ∀ e, e ∉ l → (l.foldl (FrameState.run net process serial) f).members e = f.members e := by
  induction l generalizing f with
  | nil => exact ⟨fun _ _ => rfl, fun _ _ => rfl⟩
  | cons a l ih =>
    obtain ⟨hitems, hmembers⟩ := ih (FrameState.run net process serial f a)
    constructor
    · intro c hc
      rw [List.mem_cons, not_or] at hc
      rw [List.foldl_cons, hitems c hc.2]
      exact if_neg hc.1
    · intro e he
      rw [List.mem_cons, not_or] at he
      rw [List.foldl_cons, hmembers e he.2]
      exact Function.update_of_ne he.1 ..

/-- What runs the elements in a topological order is coherent. -/
theorem sequential_coherent {order : List E} (h : net.Topological order) (first : Nat)
    (members : E → M) :
    Coherent net process first (sequential net process order first members) := by
  have hframe (n : Nat) (e : E) :
      let f := sequential net process order first members n
      let f' := sequential net process order first members (n + 1)
      (∀ c, net.source c = e → f'.items c =
        (net.processed process e (first + n) f'.items (f.members e)).put (net.fromPin c)) ∧
      f'.members e = (net.processed process e (first + n) f'.items
        (f.members e)).members.getD (f.members e) := by
    intro f f'
    obtain ⟨l, r, horder⟩ := List.append_of_mem (h.mem e)
    have hnodup := h.nodup
    rw [horder, List.nodup_append, List.nodup_cons] at hnodup
    obtain ⟨-, ⟨her, -⟩, hdisjoint⟩ := hnodup
    have hel : e ∉ l := fun he => hdisjoint e he e (by simp) rfl
    let g := l.foldl (FrameState.run net process (first + n)) f
    have hf' : f' = r.foldl (FrameState.run net process (first + n))
        (FrameState.run net process (first + n) g e) := by
      change order.foldl _ f = _
      clear_value f
      rw [horder, List.foldl_append, List.foldl_cons]
    have hitems (c : C) (hc : net.source c ∉ r) :
        f'.items c = (FrameState.run net process (first + n) g e).items c := by
      rw [hf']
      exact (foldl_run r _).1 c hc
    have hmembers : f'.members e = (FrameState.run net process (first + n) g e).members e := by
      rw [hf']
      exact (foldl_run r _).2 e her
    have hg : g.members e = f.members e := (foldl_run l f).2 e hel
    -- what the element receives was there before it ran, and stays
    have hsame : net.processed process e (first + n) g.items (g.members e) =
        net.processed process e (first + n) f'.items (f.members e) := by
      rw [hg]
      apply Network.processed_congr
      intro c hc
      have hsource := h.after l e r horder c hc
      have hne : net.source c ≠ e := fun he => hel (he ▸ hsource)
      rw [hitems c fun hr => hdisjoint _ hsource _ (List.mem_cons_of_mem _ hr) rfl]
      exact (if_neg hne).symm
    constructor
    · intro c hc
      rw [hitems c (hc ▸ her), ← hsame]
      exact if_pos hc
    · rw [hmembers, ← hsame, ← hg]
      exact Function.update_self ..
  exact ⟨fun n e => (hframe n e).1, fun n e => (hframe n e).2⟩

end

end ParleVision.Runtime
