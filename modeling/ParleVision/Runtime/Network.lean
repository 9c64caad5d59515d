import Mathlib.Logic.Relation
import Mathlib.Data.List.Nodup
import Mathlib.Data.Fintype.EquivFin
import Mathlib.Algebra.Ring.Nat

namespace ParleVision.Runtime

/-- The elements, output pins and connections of a pipeline that runs. The graph stays as it is
until the pipeline is stopped. An input pin has one connection and is named by it; one that is
not connected takes no part. -/
structure Network (E P C : Type) where
  /-- `m_children`, in the order of the ids -/
  children : List E
  isProducer : E → Bool
  /-- `m_outputPins` of an element, in the order of the hash -/
  outputPins : E → List P
  /-- `m_connections` of an output pin -/
  outputs : P → List C
  /-- the connected ones of `m_inputPins`, in the order of the hash -/
  inputs : E → List C
  /-- `Pipeline::m_connections` -/
  connections : List C
  /-- `getOwner()` of an output pin -/
  owner : P → E
  /-- `fromPin()` -/
  fromPin : C → P
  /-- `toPin()->getOwner()` -/
  target : C → E
  isSynchronous : C → Bool
  isDataGuaranteed : C → Bool
  mem_children : ∀ e, e ∈ children
  mem_connections : ∀ c, c ∈ connections
  mem_outputPins : ∀ e p, p ∈ outputPins e ↔ owner p = e
  mem_outputs : ∀ p c, c ∈ outputs p ↔ fromPin c = p
  mem_inputs : ∀ e c, c ∈ inputs e ↔ target c = e
  children_nodup : children.Nodup
  outputPins_nodup : ∀ e, (outputPins e).Nodup
  outputs_nodup : ∀ p, (outputs p).Nodup
  inputs_nodup : ∀ e, (inputs e).Nodup
  producer_inputs : ∀ e, isProducer e → inputs e = []

namespace Network
variable {E P C : Type} (net : Network E P C)

def source (c : C) : E := net.owner (net.fromPin c)

def producers : List E := net.children.filter net.isProducer

def syncInputs (e : E) : List C := (net.inputs e).filter net.isSynchronous

/-- `m_hasSynchronousPin`, which `initInputPins` sets. -/
def m_hasSynchronousPin (e : E) : Bool := (net.inputs e).any net.isSynchronous

/-- What `initInputPins` sets as the pin count of the scoreboard. -/
def m_pincount (e : E) : Nat := (net.inputs e).countP net.isSynchronous

/-- What `postOutput` puts a NULL on: the synchronous connections of the output pins that were
not put to. -/
def posts [DecidableEq P] (e : E) (put : List P) : List C :=
  (net.outputPins e).flatMap fun p =>
    if p ∈ put then [] else (net.outputs p).filter net.isSynchronous

/-- What `generateGraphOrdering` accepts. -/
def Acyclic : Prop :=
  ∀ e, ¬ Relation.TransGen (fun a b => ∃ c, net.source c = a ∧ net.target c = b) e e

theorem acyclic_of_rank (rank : E → Nat) (h : ∀ c, rank (net.source c) < rank (net.target c)) :
    net.Acyclic := by
  have hlt {a b : E} (hab : Relation.TransGen
      (fun a b => ∃ c, net.source c = a ∧ net.target c = b) a b) : rank a < rank b := by
    induction hab with
    | single hab =>
      obtain ⟨c, rfl, rfl⟩ := hab
      exact h c
    | tail _ hbc ih =>
      obtain ⟨c, rfl, rfl⟩ := hbc
      exact Nat.lt_trans ih (h c)
  exact fun e he => Nat.lt_irrefl _ (hlt he)

/-- What holds of an element when it holds of all that are connected to its inputs holds of all
elements. -/
theorem Acyclic.induction {net : Network E P C} {motive : E → Prop} (h : net.Acyclic)
    (hstep : ∀ e, (∀ c, net.target c = e → motive (net.source c)) → motive e) (e : E) :
    motive e := by
  classical
  have hfinite : Finite E := @Finite.of_fintype E (Fintype.ofList net.children net.mem_children)
  let r := Relation.TransGen fun a b => ∃ c, net.source c = a ∧ net.target c = b
  have hirrefl : Std.Irrefl r := ⟨h⟩
  have htrans : IsTrans E r := ⟨fun _ _ _ => Relation.TransGen.trans⟩
  have hwf : WellFounded r := Finite.wellFounded_of_trans_of_irrefl r
  induction e using hwf.induction with
  | h e ih =>
    apply hstep
    intro c hc
    exact ih _ (.single ⟨c, rfl, hc⟩)

theorem mem_syncInputs (e : E) (c : C) :
    c ∈ net.syncInputs e ↔ net.target c = e ∧ net.isSynchronous c := by
  rw [syncInputs, List.mem_filter, net.mem_inputs]

theorem m_hasSynchronousPin_iff (e : E) :
    net.m_hasSynchronousPin e ↔ ∃ c, net.target c = e ∧ net.isSynchronous c := by
  rw [m_hasSynchronousPin, List.any_eq_true]
  constructor
  · rintro ⟨c, hc, hs⟩
    exact ⟨c, (net.mem_inputs e c).mp hc, hs⟩
  · rintro ⟨c, hc, hs⟩
    exact ⟨c, (net.mem_inputs e c).mpr hc, hs⟩

theorem exists_syncInput {e : E} (h : net.m_hasSynchronousPin e = true) :
    ∃ c, c ∈ net.syncInputs e := by
  obtain ⟨c, hc⟩ := (net.m_hasSynchronousPin_iff e).mp h
  exact ⟨c, (net.mem_syncInputs e c).mpr hc⟩

theorem isSynchronous_of_not {c : C} (h : net.m_hasSynchronousPin (net.target c) = false) :
    net.isSynchronous c = false := by
  rw [Bool.eq_false_iff]
  intro hsync
  rw [(net.m_hasSynchronousPin_iff _).mpr ⟨c, rfl, hsync⟩] at h
  cases h

theorem producer_syncInputs {e : E} (h : net.isProducer e = true) : net.syncInputs e = [] := by
  rw [syncInputs, net.producer_inputs e h, List.filter_nil]

theorem producer_m_hasSynchronousPin {e : E} (h : net.isProducer e = true) :
    net.m_hasSynchronousPin e = false := by
  rw [m_hasSynchronousPin, net.producer_inputs e h, List.any_nil]

/-- A producer has no pin that could be connected. -/
theorem target_not_producer (c : C) : net.isProducer (net.target c) = false := by
  by_contra hp
  have hin := (net.mem_inputs _ c).mpr rfl
  rw [net.producer_inputs _ (Bool.not_eq_false _ ▸ hp)] at hin
  cases hin

theorem ne_target {e : E} (he : net.isProducer e = true) (c : C) : e ≠ net.target c := by
  rintro rfl
  rw [net.target_not_producer] at he
  cases he

theorem m_pincount_eq (e : E) : net.m_pincount e = (net.syncInputs e).length := by
  rw [m_pincount, syncInputs, List.countP_eq_length_filter]

variable [DecidableEq P]

theorem mem_posts (e : E) (put : List P) (c : C) :
    c ∈ net.posts e put ↔ net.source c = e ∧ net.isSynchronous c ∧ net.fromPin c ∉ put := by
  rw [posts, List.mem_flatMap]
  constructor
  · rintro ⟨p, hp, hc⟩
    split at hc
    · cases hc
    case isFalse hput =>
      obtain ⟨hout, hsync⟩ := List.mem_filter.mp hc
      have hpin := (net.mem_outputs p c).mp hout
      exact ⟨by rw [source, hpin, (net.mem_outputPins e p).mp hp], hsync, hpin ▸ hput⟩
  · rintro ⟨hsource, hsync, hput⟩
    refine ⟨net.fromPin c, (net.mem_outputPins e _).mpr hsource, ?_⟩
    rw [if_neg hput]
    exact List.mem_filter.mpr ⟨(net.mem_outputs _ c).mpr rfl, hsync⟩

theorem posts_nodup (e : E) (put : List P) : (net.posts e put).Nodup := by
  rw [posts, List.nodup_flatMap]
  constructor
  · intro p _
    split
    · exact List.nodup_nil
    · exact (net.outputs_nodup p).filter _
  · refine (net.outputPins_nodup e).imp ?_
    intro p q hpq c hc hc'
    -- a connection belongs to one pin
    have hpin (r : P) (hr : c ∈ if r ∈ put then [] else (net.outputs r).filter net.isSynchronous) :
        net.fromPin c = r := by
      split at hr
      · cases hr
      · exact (net.mem_outputs r c).mp (List.mem_of_mem_filter hr)
    exact hpq ((hpin p hc).symm.trans (hpin q hc'))

end Network

end ParleVision.Runtime
