import ParleVision.Loader.Files

namespace ParleVision.Loader
open Lib ParleVision.Graph

namespace Pipeline

/-- The same elements with the same properties, and the same connections. -/
structure SameContent (s t : Pipeline P) : Prop where
  m_children : t.m_children = s.m_children
  m_producers : t.m_producers = s.m_producers
  m_processors : t.m_processors = s.m_processors
  m_connections : t.m_connections = s.m_connections
  conns : t.conns = s.conns
  elems : ∀ p, s.IsChild p → t.elems p = s.elems p ∧ t.props p = s.props p

theorem SameContent.refl (s : Pipeline P) : s.SameContent s :=
  ⟨rfl, rfl, rfl, rfl, rfl, fun _ _ => ⟨rfl, rfl⟩⟩

/-- Reading `doc` fails at the entry that follows the part `read`, which by itself is
read and gives `u`. -/
inductive FailsAfter (R : Registry P) (s : Pipeline P) (doc : Document) :
    Document → Pipeline P → Prop
  | element (pre : List XmlElement) (x : XmlElement) (post : List XmlElement) (u t : Pipeline P)
      (e : LoadError) : doc.elements = pre ++ x :: post →
      s.deserialize R ⟨pre, []⟩ = some (u, .ok ()) → u.parseElement R x = (t, .error e) →
      FailsAfter R s doc ⟨pre, []⟩ u
  | connection (pre : List XmlConnection) (y : XmlConnection) (post : List XmlConnection)
      (u t : Pipeline P) (e : LoadError) : doc.connections = pre ++ y :: post →
      s.deserialize R ⟨doc.elements, pre⟩ = some (u, .ok ()) →
      u.parseConnection R y = some (t, .error e) → FailsAfter R s doc ⟨doc.elements, pre⟩ u

section Run
variable {R : Registry P} {s : Pipeline P}

theorem Sound.parseElement (hR : R.Sound) (hs : s.Sound R) (x : XmlElement) :
    (∃ t, s.parseElement R x = (t, .ok ()) ∧ t.Sound R ∧ t.m_children ≠ ∅) ∨
    (∃ t e, s.parseElement R x = (t, .error e) ∧ t.Sound R ∧ s.SameContent t) := by
  rcases s.parseElement_cases R x with
    ⟨-, hstep⟩ | ⟨e, props, hc, ⟨-, -, hstep⟩ | ⟨hfree, hstep⟩⟩
  · exact .inr ⟨s, _, hstep, hs, .refl s⟩
  · refine .inr ⟨_, _, hstep, hs.construct hR hc _, rfl, rfl, rfl, rfl, rfl, ?_⟩
    rintro p ⟨k, hk⟩
    have hne : p ≠ s.nextElem := Nat.ne_of_lt (hs.constructed k p hk)
    exact ⟨Function.update_of_ne hne _ _, Function.update_of_ne hne _ _⟩
  · refine .inl ⟨_, hstep, hs.added hR hc hfree, ?_⟩
    rw [added_children]
    exact Std.ExtTreeMap.insert_ne_empty

theorem Sound.parseElements (hR : R.Sound) (hs : s.Sound R) (xs : List XmlElement) :
    (∃ t, parseElements R xs s = (t, .ok ()) ∧ t.Sound R ∧
      (t.m_children = ∅ ↔ s.m_children = ∅ ∧ xs = [])) ∨
    (∃ pre x post u t e, xs = pre ++ x :: post ∧ parseElements R pre s = (u, .ok ()) ∧
      u.parseElement R x = (t, .error e) ∧ parseElements R xs s = (t, .error e) ∧
      (u.m_children = ∅ ↔ s.m_children = ∅ ∧ pre = []) ∧ t.Sound R ∧ u.SameContent t) := by
  induction xs generalizing s with
  | nil => exact .inl ⟨s, rfl, hs, by simp⟩
  | cons x xs ih =>
    rcases hs.parseElement hR x with ⟨s', hstep, hs', hne⟩ | ⟨t, e, hstep, ht, hsame⟩
    · rcases ih hs' with
        ⟨t, hrun, ht, hemp⟩ | ⟨pre, y, post, u, t, e, rfl, hpre, hy, hrun, hemp, ht, hsame⟩
      · refine .inl ⟨t, by simp [Pipeline.parseElements, hstep, hrun], ht, ?_⟩
        simp [hemp, hne]
      · refine .inr ⟨x :: pre, y, post, u, t, e, rfl, ?_, hy, ?_, ?_, ht, hsame⟩
        · simp [Pipeline.parseElements, hstep, hpre]
        · simp [Pipeline.parseElements, hstep, hrun]
        · simp [hemp, hne]
    · refine .inr ⟨[], x, xs, s, t, e, rfl, rfl, hstep, ?_, by simp, ht, hsame⟩
      simp [Pipeline.parseElements, hstep]

theorem Sound.parseConnection (hs : s.Sound R) (y : XmlConnection) :
    (∃ t, s.parseConnection R y = some (t, .ok ()) ∧ t.Sound R ∧ t.m_children = s.m_children) ∨
    (∃ e, s.parseConnection R y = some (s, .error e)) := by
  by_cases h : ∃ out inp o i i', Connectable R s y out inp o i i'
  · obtain ⟨out, inp, o, i, i', hcon⟩ := h
    exact .inl ⟨_, parseConnection_ok hcon, hs.connectedTo hcon,
      Graph.Pipeline.connected_children _ out inp o i'⟩
  · refine .inr (parseConnection_error ?_)
    intro out inp o i i' hcon
    exact h ⟨out, inp, o, i, i', hcon⟩

theorem Sound.parseConnections (hs : s.Sound R) (ys : List XmlConnection) :
    (∃ t, parseConnections R ys s = some (t, .ok ()) ∧ t.Sound R) ∨
    (∃ pre y post u e, ys = pre ++ y :: post ∧ parseConnections R pre s = some (u, .ok ()) ∧
      u.parseConnection R y = some (u, .error e) ∧
      parseConnections R ys s = some (u, .error e) ∧ u.Sound R ∧
      u.m_children = s.m_children) := by
  induction ys generalizing s with
  | nil => exact .inl ⟨s, rfl, hs⟩
  | cons y ys ih =>
    rcases hs.parseConnection y with ⟨s', hstep, hs', hsame⟩ | ⟨e, hstep⟩
    · rcases ih hs' with
        ⟨t, hrun, ht⟩ | ⟨pre, z, post, u, e, rfl, hpre, hz, hrun, hu, hsame'⟩
      · exact .inl ⟨t, by simp [Pipeline.parseConnections, hstep, hrun], ht⟩
      · refine .inr ⟨y :: pre, z, post, u, e, rfl, ?_, hz, ?_, hu, hsame'.trans hsame⟩
        · simp [Pipeline.parseConnections, hstep, hpre]
        · simp [Pipeline.parseConnections, hstep, hrun]
    · refine .inr ⟨[], y, ys, s, e, rfl, rfl, hstep, ?_, hs, rfl⟩
      simp [Pipeline.parseConnections, hstep]

theorem Sound.deserialize (hR : R.Sound) (hs : s.Sound R) (doc : Document) :
    (∃ t, s.deserialize R doc = some (t, .ok ()) ∧ t.Sound R) ∨
    (∃ read u t e, s.deserialize R doc = some (t, .error e) ∧ FailsAfter R s doc read u ∧
      t.Sound R ∧ u.SameContent t ∧ (u.m_children = ∅ ↔ s.m_children = ∅ ∧ read.elements = [])) := by
  obtain ⟨xs, ys⟩ := doc
  rcases hs.parseElements hR xs with
    ⟨t, hrun, ht, hemp⟩ | ⟨pre, x, post, u, t, e, hxs, hpre, hx, hrun, hemp, ht, hsame⟩
  · rcases ht.parseConnections ys with
      ⟨t', hrun', ht'⟩ | ⟨pre, y, post, u, e, hys, hpre, hy, hrun', hu, hchildren⟩
    · exact .inl ⟨t', by simp [Pipeline.deserialize, hrun, hrun'], ht'⟩
    · refine .inr ⟨⟨xs, pre⟩, u, u, e, by simp [Pipeline.deserialize, hrun, hrun'], ?_, hu, .refl u,
        hchildren ▸ hemp⟩
      exact .connection pre y post u u e hys (by simp [Pipeline.deserialize, hrun, hpre]) hy
  · refine .inr ⟨⟨pre, []⟩, u, t, e, by simp [Pipeline.deserialize, hrun], ?_, ht, hsame, hemp⟩
    exact .element pre x post u t e hxs (by simp [Pipeline.deserialize, hpre,
      Pipeline.parseConnections]) hx

end Run

/-- A load that returns false leaves a consistent pipeline that holds what the file says
before the entry at fault, so it is still empty only when no element comes before it. -/
theorem load_failed {R : Registry P} (hR : R.Sound) {s : Pipeline P} (hs : s.toPipeline.Inv)
    (hempty : s.isEmpty = true) (files : String → File) (filename : String) :
    ∃ t b, s.load R files filename = some (t, b) ∧ t.toPipeline.Consistent ∧ (b = false →
      (s.SameContent t ∧ t.isEmpty = true ∧ ∀ doc, files filename ≠ .document doc) ∨
      ∃ doc read u, files filename = .document doc ∧
        FailsAfter R { s with m_filename := filename } doc read u ∧ u.SameContent t ∧
        (t.isEmpty = true ↔ read.elements = [])) := by
  have hchildren : s.m_children = ∅ := Std.ExtTreeMap.isEmpty_iff.mp hempty
  have hs' : Sound R { s with m_filename := filename } := by
    refine ⟨hs, ?_, ?_⟩
    · simp [hchildren]
    · simp [hchildren]
  have hsame : s.SameContent { s with m_filename := filename } :=
    ⟨rfl, rfl, rfl, rfl, rfl, fun _ _ => ⟨rfl, rfl⟩⟩
  unfold load
  rw [if_neg (by simp [hempty])]
  unfold deserializeFile
  cases hfile : files filename with
  | missing => exact ⟨_, _, rfl, hs.consistent, fun _ => .inl ⟨hsame, hempty, by simp⟩⟩
  | unreadable => exact ⟨_, _, rfl, hs.consistent, fun _ => .inl ⟨hsame, hempty, by simp⟩⟩
  | document doc =>
    dsimp only
    rcases hs'.deserialize hR doc with
      ⟨t, hrun, ht⟩ | ⟨read, u, t, e, hrun, hfail, ht, hsame, hemp⟩
    · exact ⟨t, true, by rw [hrun], ht.inv.consistent, fun h => by cases h⟩
    · refine ⟨t, false, by rw [hrun], ht.inv.consistent, fun _ => .inr ⟨doc, read, u, rfl, hfail,
        hsame, ?_⟩⟩
      rw [isEmpty, Std.ExtTreeMap.isEmpty_iff, hsame.m_children, hemp]
      exact and_iff_right hchildren

def unknownSecond : Document := ⟨[⟨some 0, "Source", []⟩, ⟨some 1, "Unknown", []⟩], []⟩

theorem load_failed_unknownSecond : ∃ t b,
    emptyPipeline.load sourceAndServer (fun _ => .document unknownSecond) "a.plv" = some (t, b) ∧
    t.toPipeline.Consistent ∧ (b = false →
      (emptyPipeline.SameContent t ∧ t.isEmpty = true ∧
        ∀ doc, File.document unknownSecond ≠ .document doc) ∨
      ∃ doc read u, File.document unknownSecond = .document doc ∧
        FailsAfter sourceAndServer { emptyPipeline with m_filename := "a.plv" } doc read u ∧
        u.SameContent t ∧ (t.isEmpty = true ↔ read.elements = [])) :=
  load_failed sourceAndServer_sound emptyPipeline_inv rfl (fun _ => .document unknownSecond) "a.plv"

/-- What precedes the unknown element stays, and the next load is ignored. -/
theorem load_failed_not_empty : emptyPipeline.isEmpty = true ∧ ∃ t,
    emptyPipeline.load sourceAndServer (fun _ => .document unknownSecond) "a.plv" =
      some (t, false) ∧ t.isEmpty = false ∧
    t.load sourceAndServer (fun _ => .document ⟨[], []⟩) "b.plv" = some (t, false) := by
  refine ⟨rfl, _, rfl, rfl, ?_⟩
  rfl

end Pipeline

end ParleVision.Loader
