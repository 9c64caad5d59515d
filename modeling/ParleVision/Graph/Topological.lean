import ParleVision.Graph.Ordering
import ParleVision.Graph.Invariant
import ParleVision.Graph.Consistency

namespace ParleVision.Graph
open Lib Relation

section Visit
variable {N : Type} (incoming : N → Option (List N))

/-- A connection comes in from the first node at the second. -/
def Enters (m n : N) : Prop := ∃ ns, incoming n = some ns ∧ m ∈ ns

/-- What `visit` finds when it is called: every node of the ordering stands after the nodes
it consumes, and no node is both in the ordering and on the call stack. -/
structure Ordered (nodes : List N) (v : Visit N) : Prop where
  nodup : v.ordering.Nodup
  after : ∀ l n r, v.ordering = l ++ n :: r → ∀ m, Enters incoming m n → m ∈ l
  known : v.ordering ⊆ nodes
  stack_nodup : v.visited.Nodup
  stack_known : v.visited ⊆ nodes
  apart : ∀ n ∈ v.visited, n ∉ v.ordering

/-- The two ways in which visits of these nodes end. -/
inductive Visited (nodes ns : List N) (v : Visit N) : Option (Bool × Visit N) → Prop
  | ordered (v' : Visit N) (ho : Ordered incoming nodes v') (hstack : v'.visited = v.visited)
      (hkept : v.ordering ⊆ v'.ordering) (hns : ns ⊆ v'.ordering) :
      Visited nodes ns v (some (true, v'))
  | cycle (m : N) (v' : Visit N) (hm : TransGen (Enters incoming) m m) :
      Visited nodes ns v (some (false, v'))

variable {incoming} {nodes : List N} {v : Visit N}

/-- A node comes after all that it consumes, directly or not. -/
theorem Ordered.after_trans (h : Ordered incoming nodes v) {m n : N}
    (hmn : TransGen (Enters incoming) m n) :
    ∀ l r, v.ordering = l ++ n :: r → m ∈ l := by
  induction hmn with
  | single hmn => exact fun l r heq => h.after l _ r heq m hmn
  | tail hmb hbn ih =>
    intro l r heq
    obtain ⟨l₁, l₂, rfl⟩ := List.append_of_mem (h.after l _ r heq _ hbn)
    have hm := ih l₁ (l₂ ++ _ :: r) (by rw [heq, List.append_assoc, List.cons_append])
    exact List.mem_append_left _ hm

/-- No node of an ordering is on a cycle. -/
theorem Ordered.acyclic (h : Ordered incoming nodes v) {n : N} (hn : n ∈ v.ordering) :
    ¬ TransGen (Enters incoming) n n := by
  intro hcycle
  obtain ⟨l, r, heq⟩ := List.append_of_mem hn
  have hl := h.after_trans hcycle l r heq
  have hnodup := h.nodup
  rw [heq, List.nodup_append] at hnodup
  exact hnodup.2.2 n hl n (by simp) rfl

/-- A node goes on the call stack. -/
theorem Ordered.push (h : Ordered incoming nodes v) {n : N} (hn : n ∈ nodes)
    (hord : n ∉ v.ordering) (hstack : n ∉ v.visited) :
    Ordered incoming nodes { v with visited := n :: v.visited } where
  nodup := h.nodup
  after := h.after
  known := h.known
  stack_nodup := List.nodup_cons.mpr ⟨hstack, h.stack_nodup⟩
  stack_known := List.cons_subset.mpr ⟨hn, h.stack_known⟩
  apart := by
    intro m hm
    rcases List.mem_cons.mp hm with rfl | hm
    · exact hord
    · exact h.apart m hm

/-- A node goes from the call stack to the end of the ordering. -/
theorem Ordered.append (h : Ordered incoming nodes v) {n : N} {stack : List N} (hn : n ∈ nodes)
    (hord : n ∉ v.ordering) (hstack : n ∉ stack) (hsub : stack.Sublist v.visited)
    (hin : ∀ m, Enters incoming m n → m ∈ v.ordering) :
    Ordered incoming nodes ⟨v.ordering ++ [n], stack⟩ where
  nodup := by
    rw [List.nodup_append]
    refine ⟨h.nodup, List.nodup_singleton n, ?_⟩
    rintro m hm _ hn' rfl
    exact hord (List.mem_singleton.mp hn' ▸ hm)
  after := by
    intro l k r (heq : v.ordering ++ [n] = l ++ k :: r) m hm
    rcases List.eq_nil_or_concat r with rfl | ⟨r, b, rfl⟩
    · obtain ⟨rfl, hkn⟩ := List.append_inj' heq rfl
      obtain rfl : n = k := List.singleton_inj.mp hkn
      exact hin m hm
    · have hcons : v.ordering ++ [n] = (l ++ k :: r) ++ [b] := by
        rw [heq, List.concat_eq_append, List.append_assoc, List.cons_append]
      obtain ⟨heq, -⟩ := List.append_inj' hcons rfl
      exact h.after l k r heq m hm
  known := List.append_subset.mpr ⟨h.known, by simpa using hn⟩
  stack_nodup := h.stack_nodup.sublist hsub
  stack_known := List.Subset.trans hsub.subset h.stack_known
  apart := by
    intro m hm
    rw [List.mem_append, List.mem_singleton]
    rintro (hord | rfl)
    · exact h.apart m (hsub.subset hm) hord
    · exact hstack hm

/-- The loop over the connections, when each visit ends in one of the two ways. -/
theorem visitAllIncomingConnections_visited {f : N → Visit N → Option (Bool × Visit N)}
    (ns : List N) (hf : ∀ n ∈ ns, ∀ w, Ordered incoming nodes w → w.visited = v.visited →
      Visited incoming nodes [n] w (f n w)) (h : Ordered incoming nodes v) :
    Visited incoming nodes ns v (visitAllIncomingConnections f ns v) := by
  induction ns generalizing v with
  | nil => exact .ordered v h rfl (List.Subset.refl _) (List.nil_subset _)
  | cons n ns ih =>
    have hn := hf n (by simp) v h rfl
    unfold visitAllIncomingConnections
    generalize f n v = result at hn
    cases hn with
    | cycle m v' hm => exact .cycle m v' hm
    | ordered v' ho hstack hkept hin =>
      have hns := ih (fun m hm w hw hwv => hf m (by simp [hm]) w hw (hwv.trans hstack)) ho
      dsimp only
      generalize visitAllIncomingConnections f ns v' = result at hns ⊢
      cases hns with
      | cycle m v'' hm => exact .cycle m v'' hm
      | ordered v'' ho' hstack' hkept' hin' =>
        refine .ordered v'' ho' (hstack'.trans hstack) (List.Subset.trans hkept hkept') ?_
        refine List.cons_subset.mpr ⟨hkept' (hin (by simp)), hin'⟩

/-- A visit returns when the depth left to it and the nodes on the call stack make up for
all nodes there are. Every node on the call stack consumes, directly or not, what is
visited. -/
theorem visit_visited [DecidableEq N]
    (hclosed : ∀ m n, n ∈ nodes → Enters incoming m n → m ∈ nodes)
    (depth : Nat) (n : N) (v : Visit N) (h : Ordered incoming nodes v) (hn : n ∈ nodes)
    (hpath : ∀ m ∈ v.visited, TransGen (Enters incoming) n m)
    (hdepth : nodes.length < depth + v.visited.length) :
    Visited incoming nodes [n] v (visit incoming depth n v) := by
  induction depth generalizing n v with
  | zero =>
    have := (List.subperm_of_subset h.stack_nodup h.stack_known).length_le
    omega
  | succ depth ih =>
    unfold visit
    split
    · rename_i hord
      exact .ordered v h rfl (List.Subset.refl _) (by simpa using hord)
    rename_i hord
    split
    · rename_i hstack
      exact .cycle n _ (hpath n hstack)
    rename_i hstack
    split
    · rename_i hnone
      refine .ordered _ (h.append hn hord hstack (List.Sublist.refl _) ?_) rfl (by simp) (by simp)
      rintro m ⟨ns, hns, -⟩
      rw [hnone] at hns
      cases hns
    rename_i ns hsome
    have hrest := visitAllIncomingConnections_visited ns
      (v := { v with visited := n :: v.visited }) (f := visit incoming depth) ?_
      (h.push hn hord hstack)
    · generalize visitAllIncomingConnections _ ns _ = result at hrest
      cases hrest with
      | cycle m v' hm => exact .cycle m v' hm
      | ordered v' ho hstack' hkept hin =>
        have hn' : n ∉ v'.ordering := ho.apart n (hstack' ▸ List.mem_cons_self)
        have herase : v'.visited.erase n = v.visited := by rw [hstack', List.erase_cons_head]
        refine .ordered _ (ho.append hn hn' ?_ List.erase_sublist ?_) herase ?_ (by simp)
        · rw [herase]
          exact hstack
        · rintro m ⟨ns', hns', hm⟩
          cases hsome.symm.trans hns'
          exact hin hm
        · exact List.Subset.trans hkept (List.subset_append_left _ _)
    · intro m hm w hw hwv
      have hmn : Enters incoming m n := ⟨ns, hsome, hm⟩
      refine ih m w hw (hclosed m n hn hmn) ?_ ?_
      · intro k hk
        rw [hwv] at hk
        rcases List.mem_cons.mp hk with rfl | hk
        · exact .single hmn
        · exact .head hmn (hpath k hk)
      · rw [hwv]
        simp only [List.length_cons]
        omega

end Visit

namespace Pipeline
variable {s : Pipeline} {p q : ElemPtr}

/-- The second element consumes an output of the first over a connection of the pipeline. -/
def Feeds (s : Pipeline) (p q : ElemPtr) : Prop :=
  ∃ (k : Int) (c : ConnPtr) (out inp : PinRef), s.m_connections[k]? = some c ∧
    s.conns c = ⟨k, some out, some inp⟩ ∧ out.owner = p ∧ inp.owner = q

def Acyclic (s : Pipeline) : Prop := ∀ p, ¬ TransGen s.Feeds p p

theorem Inv.sourceOf_iff (hs : s.Inv) {id : Int} :
    s.sourceOf q id = some p ↔ ∃ (k : Int) (c : ConnPtr) (out : PinRef),
      s.m_connections[k]? = some c ∧ s.conns c = ⟨k, some out, some ⟨q, id⟩⟩ ∧ out.owner = p := by
  simp only [sourceOf, bind, Option.bind_eq_some_iff, Option.some.injEq]
  constructor
  · rintro ⟨i, hi, c, hc, out, hout, rfl⟩
    obtain ⟨k, hk, hconsumer⟩ := hs.input_listed _ i c hi hc
    obtain ⟨out', inp, hl⟩ := hs.linked k c hk
    rw [hl.conn] at hout hconsumer
    cases hout
    cases hconsumer
    exact ⟨k, c, out, hk, hl.conn, rfl⟩
  · rintro ⟨k, c, out, hk, hconn, rfl⟩
    obtain ⟨out', inp, hl⟩ := hs.linked k c hk
    cases hconn.symm.trans hl.conn
    obtain ⟨o, i, -, -, hi, hc, -⟩ := hl.pins
    exact ⟨i, hi, c, hc, out, by rw [hconn], rfl⟩

/-- What `visit` follows are the connections of the pipeline. -/
theorem Inv.enters_iff (hs : s.Inv) (pins : HashOrder Int) :
    Enters (s.incoming pins) p q ↔ s.Feeds p q := by
  constructor
  · rintro ⟨ns, hns, hp⟩
    unfold incoming at hns
    split at hns
    · cases hns
      obtain ⟨id, -, hsource⟩ := List.mem_filterMap.mp hp
      obtain ⟨k, c, out, hk, hconn, rfl⟩ := hs.sourceOf_iff.mp hsource
      exact ⟨k, c, out, ⟨q, id⟩, hk, hconn, rfl, rfl⟩
    · cases hns
  · rintro ⟨k, c, out, inp, hk, hconn, rfl, rfl⟩
    have hsource := hs.sourceOf_iff.mpr ⟨k, c, out, hk, hconn, rfl⟩
    obtain ⟨out', inp', hl⟩ := hs.linked k c hk
    cases hconn.symm.trans hl.conn
    obtain ⟨o, i, -, -, hi, -⟩ := hl.pins
    have hkind := (hs.input_pin inp i hi).2
    refine ⟨_, by simp only [incoming, hkind]; rfl, List.mem_filterMap.mpr ⟨inp.id, ?_, hsource⟩⟩
    rw [(pins.perm _).mem_iff, Std.ExtTreeMap.mem_keys]
    exact Std.ExtTreeMap.mem_iff_isSome_getElem?.mpr (Option.isSome_of_eq_some hi)

/-- Both ends of a connection are in the pipeline. -/
theorem Inv.feeds_children (hs : s.Inv) (h : s.Feeds p q) : s.IsChild p ∧ s.IsChild q := by
  obtain ⟨k, c, out, inp, hk, hconn, rfl, rfl⟩ := h
  obtain ⟨out', inp', hl⟩ := hs.linked k c hk
  cases hconn.symm.trans hl.conn
  exact ⟨hl.source, hl.sink⟩

/-- An element is an end node or feeds one that is. -/
theorem Inv.endNode_or_feeds (hs : s.Inv) (p : ElemPtr) :
    s.isEndNode p = true ∨ ∃ q, s.Feeds p q ∧ s.isEndNode q = true := by
  cases hend : s.isEndNode p with
  | true => exact .inl rfl
  | false =>
    right
    unfold isEndNode at hend
    split at hend
    · cases hend
    obtain ⟨o, ho, hc⟩ := List.all_eq_false.mp hend
    obtain ⟨id, hid⟩ := mem_valuesOf.mp ho
    obtain ⟨c, hc⟩ := List.exists_mem_of_ne_nil o.m_connections (by simpa using hc)
    obtain ⟨k, hk, hproducer⟩ := hs.output_listed ⟨p, id⟩ o c hid hc
    obtain ⟨out, inp, hl⟩ := hs.linked k c hk
    rw [hl.conn] at hproducer
    cases hproducer
    obtain ⟨o', i, -, -, hi, -⟩ := hl.pins
    refine ⟨inp.owner, ⟨k, c, ⟨p, id⟩, inp, hk, hl.conn, rfl, rfl⟩, ?_⟩
    unfold isEndNode
    rw [(hs.input_pin inp i hi).2]

theorem mem_children : p ∈ valuesOf s.m_children ↔ s.IsChild p := mem_valuesOf

/-- `generateGraphOrdering` returns; it returns true exactly when no element consumes, over
any number of connections, its own output, and then the ordering holds every element once
and after all that it consumes. -/
theorem generateGraphOrdering_topological (hs : s.Inv) (hne : s.m_children ≠ ∅)
    (pins : HashOrder Int) (nodes : HashOrder ElemPtr) :
    ∃ (result : Bool) (ordering : List ElemPtr),
      s.generateGraphOrdering pins nodes [] = some (result, ordering) ∧
      (result = true ↔ s.Acyclic) ∧
      (result = true → ordering.Nodup ∧ (∀ p, p ∈ ordering ↔ s.IsChild p) ∧
        ∀ l q r, ordering = l ++ q :: r → ∀ p, TransGen s.Feeds p q → p ∈ l) := by
  have henters : Enters (s.incoming pins) = s.Feeds :=
    funext fun p => funext fun q => propext (hs.enters_iff pins)
  have hclosed : ∀ p q, q ∈ valuesOf s.m_children → Enters (s.incoming pins) p q →
      p ∈ valuesOf s.m_children := by
    intro p q _ hpq
    exact mem_children.mpr (hs.feeds_children ((hs.enters_iff pins).mp hpq)).1
  have hend : (valuesOf s.m_children).filter s.isEndNode ≠ [] := by
    obtain ⟨p, hp⟩ : ∃ p, s.IsChild p := by
      by_contra hnone
      refine hne (Std.ExtTreeMap.ext_getElem? fun k => ?_)
      cases hk : s.m_children[k]? with
      | none => simp
      | some p => exact (hnone ⟨p, k, hk⟩).elim
    rcases hs.endNode_or_feeds p with hp' | ⟨q, hpq, hq⟩
    · exact List.ne_nil_of_mem (List.mem_filter.mpr ⟨mem_children.mpr hp, hp'⟩)
    · have hq' := (hs.feeds_children hpq).2
      exact List.ne_nil_of_mem (List.mem_filter.mpr ⟨mem_children.mpr hq', hq⟩)
  have hmem : ∀ p, p ∈ nodes.order ((valuesOf s.m_children).filter s.isEndNode) ↔
      s.IsChild p ∧ s.isEndNode p = true := by
    intro p
    rw [(nodes.perm _).mem_iff, List.mem_filter, mem_children]
  have hsize : (valuesOf s.m_children).length = s.m_children.size := by simp [valuesOf]
  have hstart : Ordered (s.incoming pins) (valuesOf s.m_children) ⟨[], []⟩ :=
    ⟨by simp, by simp, by simp, by simp, by simp, by simp⟩
  have hvisits := visitAllIncomingConnections_visited
    (f := visit (s.incoming pins) (s.m_children.size + 1))
    (nodes.order ((valuesOf s.m_children).filter s.isEndNode)) (fun p hp w hw hwv =>
      visit_visited hclosed _ p w hw (mem_children.mpr ((hmem p).mp hp).1)
        (by simp [hwv]) (by rw [hsize]; omega)) hstart
  unfold generateGraphOrdering
  simp only [if_neg hend]
  generalize visitAllIncomingConnections _ _ _ = visits at hvisits
  cases hvisits with
  | cycle m v' hm =>
    rw [henters] at hm
    refine ⟨false, v'.ordering, rfl, ⟨fun h => ?_, fun h => absurd hm (h m)⟩, fun h => ?_⟩
    · cases h
    · cases h
  | ordered v' ho hstack hkept hin =>
    have hall : ∀ p, p ∈ v'.ordering ↔ s.IsChild p := by
      intro p
      refine ⟨fun hp => mem_children.mp (ho.known hp), fun hp => ?_⟩
      rcases hs.endNode_or_feeds p with hp' | ⟨q, hpq, hq⟩
      · exact hin ((hmem p).mpr ⟨hp, hp'⟩)
      · have hq' := hin ((hmem q).mpr ⟨(hs.feeds_children hpq).2, hq⟩)
        obtain ⟨l, r, heq⟩ := List.append_of_mem hq'
        rw [heq]
        exact List.mem_append_left _ (ho.after l q r heq p ((hs.enters_iff pins).mpr hpq))
    refine ⟨true, v'.ordering, rfl, ⟨fun _ p hp => ?_, fun _ => rfl⟩, fun _ =>
      ⟨ho.nodup, hall, fun l q r heq p hpq => ?_⟩⟩
    · have hchild : s.IsChild p := by
        obtain ⟨q, hpq, -⟩ := TransGen.head'_iff.mp hp
        exact (hs.feeds_children hpq).1
      rw [← henters] at hp
      exact ho.acyclic ((hall p).mpr hchild) hp
    · rw [← henters] at hpq
      exact ho.after_trans hpq l r heq

/-- The pipeline in which a TCPServerProcessor consumes the output of a producer. -/
theorem generateGraphOrdering_topological_tcpServer :
    ∃ t, edits (fun _ => true) (.ascending Int)
        [.addElement 0, .addElement 1, .connectPins ⟨0, 0⟩ ⟨1, 0⟩]
        (new (fun p => if p = 1 then tcpServer else source 5) false) = some t ∧
      ∃ (result : Bool) (ordering : List ElemPtr),
        t.generateGraphOrdering (.ascending Int) (.ascending ElemPtr) [] = some (result, ordering) ∧
        (result = true ↔ t.Acyclic) ∧
        (result = true → ordering.Nodup ∧ (∀ p, p ∈ ordering ↔ t.IsChild p) ∧
          ∀ l q r, ordering = l ++ q :: r → ∀ p, TransGen t.Feeds p q → p ∈ l) := by
  have hnew : (new (fun p => if p = 1 then tcpServer else source 5) false).Inv := by
    refine Inv.new (fun p => ?_) false
    split
    · exact tcpServer_constructed
    · exact source_constructed 5
  have hallowed : AllowedRun (fun _ => true) (.ascending Int)
      [.addElement 0, .addElement 1, .connectPins ⟨0, 0⟩ ⟨1, 0⟩]
      (new (fun p => if p = 1 then tcpServer else source 5) false) := by
    refine ⟨rfl, ?_⟩
    intro t ht
    cases ht
    refine ⟨rfl, ?_⟩
    intro t ht
    cases ht
    exact ⟨⟨⟨_, rfl⟩, ⟨_, rfl⟩, ⟨0, by decide⟩, ⟨1, by decide⟩⟩, fun _ _ => trivial⟩
  obtain ⟨t, ht, hi, -⟩ := hnew.edits _ hallowed
  refine ⟨t, ht, generateGraphOrdering_topological hi ?_ _ _⟩
  cases ht
  intro h
  have hsize : (Std.ExtTreeMap.size _) = 0 := congrArg Std.ExtTreeMap.size h
  revert hsize
  decide

end Pipeline

end ParleVision.Graph
