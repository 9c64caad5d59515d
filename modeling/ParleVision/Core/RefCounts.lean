import ParleVision.Core.RefPtr

namespace ParleVision.Core
open Lib

namespace Heap
variable {Obj Loc : Type}

section Steps
variable [DecidableEq Obj] [DecidableEq Loc] {s s' : Heap Obj Loc}

theorem Sound.empty : Sound (empty : Heap Obj Loc) where
  balanced := by
    refine ⟨by simp [Heap.empty], fun o => ?_⟩
    have hnone : { l | (Heap.empty : Heap Obj Loc).held l = some o } = ∅ := by
      ext l
      simp [held, Heap.empty, Heap.setting]
    rw [hnone]
    simp [balance, refCount, Heap.empty]
  owned := by
    constructor <;> simp [membersOf, Heap.empty, doomed]
  setting _ h := by cases h
  last := .nil
  once := List.nodup_nil
  gone _ h := by cases h

/-- A pointer is replaced, and what it pointed to is to be released. -/
theorem Balanced.replace (h : Balanced s) {l : Loc} {rp : Option (RefPtr Obj)}
    (before after : List (Action Obj Loc)) (htodo : s.todo = before ++ after)
    (hbefore : ∀ o, .dec o ∉ before) (hsetting : Heap.setting before = [])
    (hl : l ∉ Heap.setting after) (hrefs : s'.refPtrs = Function.update s.refPtrs l rp)
    (htodo' : s'.todo = release ((s.refPtrs l).bind RefPtr.m_ptr) ++ after)
    (hcount : ∀ o, s'.refCount o = s.refCount o + one (rp.bind RefPtr.m_ptr) o) :
    Balanced s' := by
  have hset : Heap.setting s.todo = Heap.setting after := by
    rw [htodo]
    unfold Heap.setting at hsetting ⊢
    rw [List.filterMap_append, hsetting, List.nil_append]
  have hset' : Heap.setting s'.todo = Heap.setting after := by
    rw [htodo', setting_release]
  refine h.moved (l := l) (x := rp.bind RefPtr.m_ptr) ((h.finite.insert l).subset fun l' hl' => ?_)
    (funext fun l' => ?_) fun o => ?_
  · by_cases hne : l' = l
    · exact .inl hne
    · rw [Set.mem_ofPred_eq, hrefs, Function.update_of_ne hne] at hl'
      exact .inr hl'
  · unfold held
    rw [hset', hrefs]
    by_cases hne : l' = l
    · subst hne
      rw [if_neg hl, Function.update_self, Function.update_self]
    · rw [Function.update_of_ne hne, Function.update_of_ne hne, hset]
  · have hheld : s.held l = (s.refPtrs l).bind RefPtr.m_ptr := by
      unfold held
      rw [hset, if_neg hl]
    have hdec : s.todo.count (Action.dec o) = after.count (Action.dec o) := by
      rw [htodo, List.count_append, List.count_eq_zero_of_not_mem (hbefore o), zero_add]
    unfold balance
    rw [hcount, hheld, htodo', count_release, hdec]
    omega

/-- The `RefPtr` on top of what is to be done is destroyed. -/
theorem Sound.destroy_action {l : Loc} {todo : List (Action Obj Loc)} (h : Sound s)
    (htodo : s.todo = .destroy l :: todo) (hl : l ∉ Heap.setting todo) :
    ∃ s', ({ s with todo } : Heap Obj Loc).destroy l = some s' ∧ Sound s' := by
  have hmem : l ∈ doomed s.todo := by
    rw [htodo]
    exact List.mem_cons_self
  have hdoomed : doomed s.todo = l :: doomed todo := by rw [htodo]; rfl
  have hset : Heap.setting s.todo = Heap.setting todo := by rw [htodo]; rfl
  obtain ⟨rp, hrp, -⟩ := Option.map_eq_some_iff.mp (h.owned.doomed_kind l hmem)
  have hnodup := h.owned.doomed_nodup
  rw [hdoomed, List.nodup_cons] at hnodup
  unfold Heap.destroy
  dsimp only
  rw [hrp]
  refine ⟨_, rfl, ?_, ?_, ?_, ?_, h.once, h.gone⟩
  · refine h.balanced.replace (l := l) [.destroy l] todo htodo (by simp) rfl hl
      rfl (by rw [hrp]; rfl) (fun o => ?_)
    simp [one, refCount]
  · have hkind : ∀ l' ≠ l, s.kind l' = some true →
        ((Function.update s.refPtrs l none) l').map RefPtr.member = some true := by
      intro l' hne hl'
      rw [Function.update_of_ne hne]
      exact hl'
    refine ⟨h.owned.nodup, fun o l' hl' => hkind l' ?_ (h.owned.kind o l' hl'), h.owned.apart, ?_,
      fun l' hl' => ?_, fun l' hl' => ?_⟩
    · rintro rfl
      exact h.owned.doomed_apart l' hmem o hl'
    · rw [doomed_release]
      exact hnodup.2
    · rw [doomed_release] at hl'
      refine hkind l' ?_ (h.owned.doomed_kind l' (by rw [hdoomed]; exact .tail _ hl'))
      rintro rfl
      exact hnodup.1 hl'
    · rw [doomed_release] at hl'
      exact h.owned.doomed_apart l' (by rw [hdoomed]; exact .tail _ hl')
  · intro l' hl'
    rw [setting_release] at hl'
    have hne : l' ≠ l := by
      rintro rfl
      exact hl hl'
    dsimp only
    rw [Function.update_of_ne hne]
    exact h.setting l' (hset ▸ hl')
  · have hlast := h.last
    rw [htodo] at hlast
    exact hlast.tail.append (put_notMem_release rp.m_ptr)

/-- An object that is to be released is there. -/
theorem Sound.refCount_pos (h : Sound s) {o : Obj} (ho : .dec o ∈ s.todo) : 1 ≤ s.refCount o := by
  have hpos := List.count_pos_iff.mpr ho
  have hcount := h.balanced.count o
  unfold balance at hcount
  omega

omit [DecidableEq Loc] in
/-- The members of a deleted object become what is to be destroyed. -/
theorem Owned.destroyed (h : Owned s) {o : Obj}
    (hmembers : s'.membersOf = Function.update s.membersOf o [])
    (hdoomed : doomed s'.todo = (s.membersOf o).reverse ++ doomed s.todo)
    (hkind : ∀ l, s'.kind l = s.kind l) : Owned s' := by
  have hsub : ∀ o' l, l ∈ s'.membersOf o' → o' ≠ o ∧ l ∈ s.membersOf o' := by
    intro o' l hl
    rw [hmembers] at hl
    by_cases hsame : o' = o
    · subst hsame
      rw [Function.update_self] at hl
      cases hl
    · rw [Function.update_of_ne hsame] at hl
      exact ⟨hsame, hl⟩
  refine ⟨fun o' => ?_, fun o' l hl => ?_, fun o' o'' l hl hl' => ?_, ?_, fun l hl => ?_,
    fun l hl o' hl' => ?_⟩
  · rw [hmembers]
    by_cases hsame : o' = o
    · rw [hsame, Function.update_self]
      exact List.nodup_nil
    · rw [Function.update_of_ne hsame]
      exact h.nodup o'
  · rw [hkind]
    exact h.kind o' l (hsub o' l hl).2
  · exact h.apart o' o'' l (hsub o' l hl).2 (hsub o'' l hl').2
  · rw [hdoomed]
    refine List.nodup_append.mpr ⟨List.nodup_reverse.mpr (h.nodup o), h.doomed_nodup,
      fun l hl l' hl' heq => ?_⟩
    subst heq
    exact h.doomed_apart l hl' o (List.mem_reverse.mp hl)
  · rw [hkind]
    rw [hdoomed, List.mem_append, List.mem_reverse] at hl
    rcases hl with hl | hl
    · exact h.kind o l hl
    · exact h.doomed_kind l hl
  · obtain ⟨hne, hl'⟩ := hsub o' l hl'
    rw [hdoomed, List.mem_append, List.mem_reverse] at hl
    rcases hl with hl | hl
    · exact hne (h.apart o' o l hl' hl)
    · exact h.doomed_apart l hl o' hl'

omit [DecidableEq Loc] in
theorem dec_isSome {o : Obj} (hpos : 1 ≤ s.refCount o) : ∃ s', s.dec o = some s' := by
  unfold refCount at hpos
  unfold Heap.dec
  cases ho : s.objects o with
  | none =>
    rw [ho] at hpos
    cases hpos
  | some r =>
    dsimp only
    split <;> exact ⟨_, rfl⟩

/-- One pointer less is to be released, and nothing else that counts changes. -/
theorem Balanced.dec (h : Balanced s) {o : Obj} (before : List (Action Obj Loc))
    {todo : List (Action Obj Loc)} (htodo : s.todo = .dec o :: todo)
    (hbefore : ∀ o', .dec o' ∉ before)
    (hsetting : Heap.setting (before ++ todo) = Heap.setting s.todo)
    (hrefs : s'.refPtrs = s.refPtrs) (htodo' : s'.todo = before ++ todo)
    (hcount : ∀ o', s'.refCount o' = s.refCount o' - one (some o) o') : Balanced s' := by
  have hheld : s'.held = s.held := by
    funext l
    unfold held
    rw [htodo', hsetting, hrefs]
  refine ⟨hrefs ▸ h.finite, fun o' => ?_⟩
  have hold : (s.todo.count (Action.dec o') : Int) =
      todo.count (Action.dec o') + one (some o) o' := by
    rw [htodo]
    exact count_release (some o) todo o'
  have hnew : s'.todo.count (Action.dec o') = todo.count (Action.dec o') := by
    rw [htodo', List.count_append, List.count_eq_zero_of_not_mem (hbefore o'), zero_add]
  rw [hheld, ← h.count o']
  unfold balance
  rw [hcount, hnew]
  omega

theorem Sound.dec_action {o : Obj} {todo : List (Action Obj Loc)} (h : Sound s)
    (htodo : s.todo = .dec o :: todo) :
    ∃ s', ({ s with todo } : Heap Obj Loc).dec o = some s' ∧ Sound s' := by
  have hpos : 1 ≤ s.refCount o := h.refCount_pos (by rw [htodo]; exact List.mem_cons_self)
  have hset : Heap.setting s.todo = Heap.setting todo := by rw [htodo]; rfl
  have hdoomed : doomed s.todo = doomed todo := by rw [htodo]; rfl
  have hlast := h.last
  rw [htodo] at hlast
  obtain ⟨s', hs'⟩ := @dec_isSome _ _ _ { s with todo } o hpos
  refine ⟨s', hs', ?_⟩
  obtain ⟨hrefs, hnone, hcount, hcase⟩ := dec_some hs' hpos
  have hkind : ∀ l, s'.kind l = s.kind l := fun l => by unfold kind; rw [hrefs]
  have hsetting : Heap.setting s'.todo = Heap.setting s.todo →
      ∀ l ∈ Heap.setting s'.todo, (s'.refPtrs l).isSome := by
    intro hset' l hl
    rw [hrefs]
    exact h.setting l (hset' ▸ hl)
  rcases hcase with ⟨-, hdeleted, hself, hmembers, htodo'⟩ | ⟨-, hdeleted, hmembers, htodo'⟩
  · have hset' : Heap.setting s'.todo = Heap.setting s.todo := by
      rw [htodo', setting_destroy, hset]
    have hdoomed' : doomed s'.todo = (s.membersOf o).reverse ++ doomed s.todo := by
      rw [htodo', doomed_destroy, hdoomed]
      rfl
    refine ⟨h.balanced.dec _ htodo (by simp) (htodo' ▸ hset') hrefs htodo' hcount,
      h.owned.destroyed hmembers hdoomed' hkind, hsetting hset', ?_, ?_, ?_⟩
    · rw [htodo']
      exact hlast.tail.append (by simp)
    · rw [hdeleted]
      refine List.nodup_cons.mpr ⟨fun hmem => ?_, h.once⟩
      have hgone := h.gone o hmem
      unfold refCount at hpos
      rw [hgone] at hpos
      cases hpos
    · intro o' ho'
      rw [hdeleted] at ho'
      rcases List.mem_cons.mp ho' with rfl | ho'
      · exact hself
      · exact hnone o' (h.gone o' ho')
  · have hset' : Heap.setting s'.todo = Heap.setting s.todo := by rw [htodo', hset]
    refine ⟨h.balanced.dec [] htodo (by simp) hset.symm hrefs htodo' hcount,
      h.owned.of_eq hmembers ?_ fun l hl => (hkind l).trans hl, hsetting hset', ?_, ?_, ?_⟩
    · rw [htodo', hdoomed]
    · rw [htodo']
      exact hlast.tail
    · rw [hdeleted]
      exact h.once
    · intro o' ho'
      exact hnone o' (h.gone o' (hdeleted ▸ ho'))

theorem Sound.put_action {l : Loc} {obj : Option Obj} {todo : List (Action Obj Loc)} (h : Sound s)
    (htodo : s.todo = .put l obj :: todo) :
    ∃ s', ({ s with todo } : Heap Obj Loc).put l obj = some s' ∧ Sound s' := by
  obtain ⟨rfl, rfl⟩ := h.last l obj [] todo htodo
  have hset : Heap.setting s.todo = [l] := by rw [htodo]; rfl
  obtain ⟨rp, hrp⟩ := Option.isSome_iff_exists.mp (h.setting l (by rw [hset]; simp))
  unfold Heap.put
  dsimp only
  rw [hrp]
  refine ⟨_, rfl, ?_, ?_, (fun l hl => by cases hl), .nil, h.once, h.gone⟩
  · -- it was not counted any more
    refine h.balanced.moved (l := l) (x := none) ((h.balanced.finite.insert l).subset ?_)
      (funext fun l' => ?_) fun o => ?_
    · intro l' hl'
      by_cases hne : l' = l
      · exact .inl hne
      · dsimp only [Set.mem_ofPred_eq] at hl'
        rw [Function.update_of_ne hne] at hl'
        exact .inr hl'
    · unfold held
      rw [hset]
      by_cases hne : l' = l
      · subst hne
        simp [Heap.setting]
      · simp [Heap.setting, hne]
    · have hheld : s.held l = none := by
        unfold held
        rw [hset]
        simp
      rw [hheld]
      unfold balance
      rw [htodo]
      simp [one, refCount]
  · refine h.owned.of_eq rfl ?_ fun l' hl' => ?_
    · rw [htodo]
      rfl
    · unfold kind at hl' ⊢
      dsimp only
      by_cases hne : l' = l
      · subst hne
        rw [hrp] at hl'
        rw [Function.update_self]
        exact hl'
      · rw [Function.update_of_ne hne]
        exact hl'

/-- A call that replaces a pointer. -/
theorem Sound.replace (h : Sound s) (htodo : s.todo = []) {l : Loc} {rp : Option (RefPtr Obj)}
    (hrefs : s'.refPtrs = Function.update s.refPtrs l rp)
    (htodo' : s'.todo = release ((s.refPtrs l).bind RefPtr.m_ptr))
    (hcount : ∀ o, s'.refCount o = s.refCount o + one (rp.bind RefPtr.m_ptr) o)
    (hmembers : s'.membersOf = s.membersOf) (hdeleted : s'.deleted = s.deleted)
    (hnone : ∀ o, s.objects o = none → s'.objects o = none)
    (hkind : s.kind l = some true → rp.map RefPtr.member = some true) : Sound s' := by
  refine ⟨?_, h.owned.of_eq hmembers ?_ fun l' hl' => ?_, ?_, ?_, hdeleted ▸ h.once, fun o ho => ?_⟩
  · exact h.balanced.replace [] [] htodo (by simp) rfl (by simp [Heap.setting])
      hrefs (by rw [htodo', List.append_nil]) hcount
  · rw [htodo', htodo, ← List.append_nil (release _), doomed_release]
  · unfold Heap.kind
    rw [hrefs]
    by_cases hne : l' = l
    · subst hne
      rw [Function.update_self]
      exact hkind hl'
    · rw [Function.update_of_ne hne]
      exact hl'
  · rw [htodo', ← List.append_nil (release _), setting_release]
    intro l' hl'
    cases hl'
  · rw [htodo', ← List.append_nil (release _)]
    exact PutLast.nil.append (put_notMem_release _)
  · exact hnone o (h.gone o (hdeleted ▸ ho))

theorem Sound.construct {l : Loc} {ptr : Option Obj} (h : Sound s) (htodo : s.todo = [])
    (hs : s.construct l ptr = some s') : Sound s' := by
  unfold Heap.construct at hs
  cases hl : s.refPtrs l with
  | some rp =>
    rw [hl] at hs
    cases hs
  | none =>
    rw [hl] at hs
    obtain ⟨hrefs, htodo', hdeleted, hmembers, hnone, hcount⟩ := inc_some hs
    refine h.replace htodo hrefs ?_ hcount hmembers hdeleted hnone ?_
    · rw [htodo', hl, htodo]
      rfl
    · intro hkind
      unfold kind at hkind
      rw [hl] at hkind
      cases hkind

theorem Sound.assignPtr {l : Loc} {ptr : Option Obj} (h : Sound s) (htodo : s.todo = [])
    (hs : s.assignPtr l ptr = some s') : Sound s' := by
  unfold Heap.assignPtr at hs
  cases hl : s.refPtrs l with
  | none =>
    rw [hl] at hs
    cases hs
  | some rp =>
    rw [hl] at hs
    dsimp only at hs
    split at hs
    · cases hs
      exact h
    · obtain ⟨hrefs, htodo', hdeleted, hmembers, hnone, hcount⟩ := inc_some hs
      refine h.replace htodo hrefs ?_ hcount hmembers hdeleted hnone ?_
      · rw [htodo', hl, htodo, List.append_nil]
        rfl
      · intro hkind
        unfold kind at hkind
        rw [hl] at hkind
        exact hkind

theorem Sound.destroy {l : Loc} {p : Option Obj} (h : Sound s) (htodo : s.todo = [])
    (hl : s.refPtrs l = some ⟨p, false⟩) (hs : s.destroy l = some s') : Sound s' := by
  unfold Heap.destroy at hs
  rw [hl] at hs
  cases hs
  refine h.replace (l := l) htodo rfl ?_ (fun o => by simp [one, refCount]) rfl rfl
    (fun _ ho => ho) ?_
  · rw [hl, htodo, List.append_nil]
    rfl
  · intro hkind
    unfold kind at hkind
    rw [hl] at hkind
    cases hkind

theorem Sound.set {l : Loc} (h : Sound s) (htodo : s.todo = []) (hs : s.set l none = some s') :
    Sound s' := by
  unfold Heap.set at hs
  cases hl : s.refPtrs l with
  | none =>
    rw [hl] at hs
    cases hs
  | some rp =>
    rw [hl] at hs
    cases hs
    rw [htodo]
    refine ⟨?_, h.owned.of_eq rfl ?_ fun _ hk => hk, fun l' hl' => ?_, ?_, h.once, h.gone⟩
    · have hheld : s.held l = rp.m_ptr := by
        unfold held
        rw [htodo, hl]
        rfl
      refine h.balanced.moved (l := l) (x := none) h.balanced.finite (funext fun l' => ?_)
        fun o => ?_
      · unfold held
        rw [htodo, setting_release]
        by_cases hne : l' = l
        · subst hne
          simp [Heap.setting]
        · simp [Heap.setting, hne]
      · unfold balance
        rw [hheld, count_release, htodo]
        simp [one, refCount]
    · rw [doomed_release, htodo]
      rfl
    · rw [setting_release] at hl'
      obtain rfl : l' = l := by simpa [Heap.setting] using hl'
      rw [hl]
      rfl
    · exact (PutLast.put l).append (put_notMem_release _)

/-- The new object and its members. -/
theorem new_some {o : Obj} {members : List Loc} (hs : s.new o members = some s') :
    (s.objects o = none ∧ o ∉ s.deleted ∧ members.Nodup ∧ ∀ l ∈ members, s.refPtrs l = none) ∧
      s'.todo = s.todo ∧ s'.deleted = s.deleted ∧
      s'.objects = Function.update s.objects o (some ⟨0, members⟩) ∧
      ∀ l, s'.refPtrs l = if l ∈ members then some ⟨none, true⟩ else s.refPtrs l := by
  unfold Heap.new at hs
  split at hs
  · rename_i hnew
    obtain ⟨hnone, hdeleted, hnodup, hdead⟩ := hnew
    cases hs
    exact ⟨⟨Option.isNone_iff_eq_none.mp hnone, hdeleted, hnodup,
      fun l hl => Option.isNone_iff_eq_none.mp (hdead l hl)⟩, rfl, rfl, rfl, fun _ => rfl⟩
  · cases hs

theorem Sound.new {o : Obj} {members : List Loc} (h : Sound s) (htodo : s.todo = [])
    (hs : s.new o members = some s') : Sound s' := by
  obtain ⟨⟨hnone, hdeleted, hnodup, hdead⟩, htodo', hdeleted', hobjects, hrefs⟩ := new_some hs
  rw [htodo] at htodo'
  have hold : ∀ o', ∀ l ∈ s.membersOf o', l ∉ members := by
    intro o' l hl hmem
    have hkind := h.owned.kind o' l hl
    unfold Heap.kind at hkind
    rw [hdead l hmem] at hkind
    cases hkind
  have hmembers : ∀ o', s'.membersOf o' = if o' = o then members else s.membersOf o' := by
    intro o'
    unfold membersOf
    rw [hobjects]
    by_cases hsame : o' = o
    · subst hsame
      simp
    · simp [hsame]
  have hheld : ∀ l, s'.held l = s.held l := by
    intro l
    unfold held
    rw [htodo', htodo, hrefs]
    by_cases hmem : l ∈ members
    · rw [if_pos hmem, hdead l hmem]
      rfl
    · rw [if_neg hmem]
  refine ⟨⟨?_, fun o' => ?_⟩,
    ⟨fun o' => ?_, fun o' l hl => ?_, fun o' o'' l hl hl' => ?_, ?_, ?_, ?_⟩,
    ?_, ?_, hdeleted' ▸ h.once, fun o' ho' => ?_⟩
  · refine (h.balanced.finite.union (List.finite_toSet members)).subset fun l hl => ?_
    rw [Set.mem_ofPred_eq, hrefs] at hl
    split at hl
    case isTrue hmem => exact .inr hmem
    case isFalse => exact .inl hl
  · simp only [hheld]
    rw [← h.balanced.count o']
    unfold balance refCount
    rw [htodo', htodo, hobjects]
    by_cases hsame : o' = o
    · subst hsame
      rw [Function.update_self, hnone]
    · rw [Function.update_of_ne hsame]
  · rw [hmembers]
    split
    · exact hnodup
    · exact h.owned.nodup o'
  · rw [hmembers] at hl
    unfold Heap.kind
    rw [hrefs]
    split at hl
    · rw [if_pos hl]
      rfl
    · rw [if_neg (hold o' l hl)]
      exact h.owned.kind o' l hl
  · rw [hmembers] at hl hl'
    split at hl <;> split at hl'
    case isTrue.isTrue ho' ho'' => rw [ho', ho'']
    case isTrue.isFalse => exact absurd hl (hold o'' l hl')
    case isFalse.isTrue => exact absurd hl' (hold o' l hl)
    case isFalse.isFalse => exact h.owned.apart o' o'' l hl hl'
  · rw [htodo']
    exact List.nodup_nil
  · rw [htodo']
    exact fun l hl => by cases hl
  · rw [htodo']
    exact fun l hl => by cases hl
  · rw [htodo']
    exact fun l hl => by cases hl
  · rw [htodo']
    exact PutLast.nil
  · rw [hdeleted'] at ho'
    rw [hobjects, Function.update_of_ne, h.gone o' ho']
    rintro rfl
    exact hdeleted ho'

/-- What is to be done next can be done. -/
theorem Sound.resume (h : Sound s) (htodo : s.todo ≠ []) (hkeeps : ¬ DestroysItself s.todo) :
    ∃ s', s.resume = some s' ∧ Sound s' := by
  unfold Heap.resume
  cases hnext : s.todo with
  | nil => exact absurd hnext htodo
  | cons a todo =>
    cases a with
    | dec o => exact h.dec_action hnext
    | destroy l =>
      rw [hnext] at hkeeps
      exact h.destroy_action hnext hkeeps
    | put l obj => exact h.put_action hnext

theorem Sound.event {e : Event Obj Loc} (h : Sound s) (hkeeps : Keeps s e)
    (hs : s.step e = some s') : Sound s' := by
  by_cases hresume : e = .resume
  · subst hresume
    have htodo : s.todo ≠ [] := by
      intro hnil
      change s.resume = some s' at hs
      unfold Heap.resume at hs
      rw [hnil] at hs
      cases hs
    obtain ⟨s'', hs'', hsound⟩ := h.resume htodo hkeeps
    change s.resume = some s' at hs
    rw [hs] at hs''
    cases hs''
    exact hsound
  · have hcall : s.todo = [] ∧ s.call e = some s' := by
      unfold Heap.step at hs
      split at hs
      · exact absurd rfl hresume
      · split at hs
        · rename_i hnil
          exact ⟨List.isEmpty_iff.mp hnil, hs⟩
        · cases hs
    obtain ⟨htodo, hs⟩ := hcall
    cases e with
    | new o members => exact h.new htodo hs
    | construct l ptr => exact h.construct htodo hs
    | copy l rp =>
      obtain ⟨rp, -, hs⟩ := Option.bind_eq_some_iff.mp hs
      exact h.construct htodo hs
    | assign l rp =>
      obtain ⟨rp, -, hs⟩ := Option.bind_eq_some_iff.mp hs
      exact h.assignPtr htodo hs
    | assignPtr l ptr => exact h.assignPtr htodo hs
    | set l obj =>
      obtain rfl : obj = none := hkeeps
      exact h.set htodo hs
    | destroy l =>
      unfold Heap.call at hs
      dsimp only at hs
      split at hs
      · rename_i p hl
        exact h.destroy htodo hl hs
      · cases hs
    | resume => cases hs

theorem sound_of_reaches (h : Reaches step Keeps empty s) : Sound s :=
  h.invariant Sound.empty fun _ _ _ hs hkeeps hstep => hs.event hkeeps hstep

theorem Sound.refCount_eq (h : Sound s) (htodo : s.todo = []) (o : Obj) :
    s.refCount o = { l | s.PointsTo l o }.ncard := by
  have hcount := h.balanced.count o
  unfold balance at hcount
  rw [htodo] at hcount
  simp only [pointsTo_iff htodo]
  simpa using hcount

theorem Sound.finite (h : Sound s) (htodo : s.todo = []) (o : Obj) :
    { l | s.PointsTo l o }.Finite := by
  simp only [pointsTo_iff htodo]
  exact h.balanced.finite.subset (held_subset s o)

theorem Sound.pos_iff (h : Sound s) (htodo : s.todo = []) (o : Obj) :
    1 ≤ s.refCount o ↔ ∃ l, s.PointsTo l o := by
  rw [h.refCount_eq htodo]
  have hpos := Set.ncard_pos (h.finite htodo o)
  constructor
  · intro hle
    exact hpos.mp (by omega)
  · intro hex
    have := hpos.mpr hex
    omega

theorem Sound.counted (h : Sound s) (htodo : s.todo = []) : Counted s where
  count o r ho := by
    refine ⟨h.finite htodo o, ?_⟩
    rw [← h.refCount_eq htodo]
    unfold refCount
    rw [ho]
  there l o hl := by
    have hpos := (h.pos_iff htodo o).mpr ⟨l, hl⟩
    unfold refCount at hpos
    cases ho : s.objects o with
    | none =>
      rw [ho] at hpos
      cases hpos
    | some r => rfl
  once := h.once
  gone := h.gone

theorem one_nonneg (p : Option Obj) (o : Obj) : 0 ≤ one p o := by
  unfold one
  split <;> decide

/-- A call deletes nothing and takes nothing off a count until `dec` is called. -/
theorem seen_call {e : Event Obj Loc} (hs : s.call e = some s') :
    s'.deleted = s.deleted ∧ ∀ o, 1 ≤ s.refCount o → s.refCount o ≤ s'.refCount o := by
  have hinc : ∀ (t : Heap Obj Loc) x, t.objects = s.objects → t.deleted = s.deleted →
      t.inc x = some s' →
      s'.deleted = s.deleted ∧ ∀ o, 1 ≤ s.refCount o → s.refCount o ≤ s'.refCount o := by
    intro t x ht hdel hinc
    obtain ⟨-, -, hdeleted, -, -, hcount⟩ := inc_some hinc
    refine ⟨hdeleted.trans hdel, fun o _ => ?_⟩
    have hnonneg := one_nonneg x o
    have hsame : t.refCount o = s.refCount o := by
      unfold refCount
      rw [ht]
    rw [hcount, hsame]
    omega
  have hconstruct : ∀ l ptr, s.construct l ptr = some s' →
      s'.deleted = s.deleted ∧ ∀ o, 1 ≤ s.refCount o → s.refCount o ≤ s'.refCount o := by
    intro l ptr hs
    unfold Heap.construct at hs
    split at hs
    · cases hs
    · refine hinc _ ptr ?_ ?_ hs <;> rfl
  have hassign : ∀ l ptr, s.assignPtr l ptr = some s' →
      s'.deleted = s.deleted ∧ ∀ o, 1 ≤ s.refCount o → s.refCount o ≤ s'.refCount o := by
    intro l ptr hs
    unfold Heap.assignPtr at hs
    split at hs
    · cases hs
    · split at hs
      · cases hs
        exact ⟨rfl, fun _ _ => le_refl _⟩
      · refine hinc _ ptr ?_ ?_ hs <;> rfl
  cases e with
  | new o' members =>
    obtain ⟨⟨hnone, -⟩, -, hdeleted, hobjects, -⟩ := new_some hs
    refine ⟨hdeleted, fun o hle => ?_⟩
    unfold refCount at hle ⊢
    rw [hobjects]
    by_cases hsame : o = o'
    · subst hsame
      rw [hnone] at hle
      cases hle
    · rw [Function.update_of_ne hsame]
  | construct l ptr => exact hconstruct l ptr hs
  | copy l rp =>
    obtain ⟨rp, -, hs⟩ := Option.bind_eq_some_iff.mp hs
    exact hconstruct l _ hs
  | assign l rp =>
    obtain ⟨rp, -, hs⟩ := Option.bind_eq_some_iff.mp hs
    exact hassign l _ hs
  | assignPtr l ptr => exact hassign l ptr hs
  | set l obj =>
    change s.set l obj = some s' at hs
    unfold Heap.set at hs
    split at hs
    · cases hs
    · cases hs
      exact ⟨rfl, fun _ _ => le_refl _⟩
  | destroy l =>
    unfold Heap.call at hs
    dsimp only at hs
    split at hs
    · unfold Heap.destroy at hs
      split at hs
      · cases hs
      · cases hs
        exact ⟨rfl, fun _ _ => le_refl _⟩
    · cases hs
  | resume => cases hs

/-- An object that was pointed to is counted until it is deleted. -/
theorem Sound.seen_resume {o : Obj} (h : Sound s) (hs : s.resume = some s')
    (hseen : 1 ≤ s.refCount o ∨ o ∈ s.deleted) : 1 ≤ s'.refCount o ∨ o ∈ s'.deleted := by
  unfold Heap.resume at hs
  cases hnext : s.todo with
  | nil =>
    rw [hnext] at hs
    cases hs
  | cons a todo =>
    rw [hnext] at hs
    cases a with
    | dec o' =>
      have hpos : 1 ≤ s.refCount o' := h.refCount_pos (by rw [hnext]; exact List.mem_cons_self)
      obtain ⟨-, -, hcount, hcase⟩ := dec_some hs hpos
      by_cases hsame : o = o'
      · subst hsame
        rcases hcase with ⟨-, hdeleted, -⟩ | ⟨htwo, -⟩
        · rw [hdeleted]
          exact .inr List.mem_cons_self
        · left
          change 2 ≤ s.refCount o at htwo
          rw [hcount]
          simp only [one, ↓reduceIte]
          change 1 ≤ s.refCount o - 1
          omega
      · rcases hseen with hle | hmem
        · left
          rw [hcount, one, if_neg (fun heq => hsame (Option.some.inj heq).symm), sub_zero]
          exact hle
        · right
          rcases hcase with ⟨-, hdeleted, -⟩ | ⟨-, hdeleted, -⟩
          · rw [hdeleted]
            exact List.mem_cons_of_mem _ hmem
          · rw [hdeleted]
            exact hmem
    | destroy l =>
      dsimp only at hs
      unfold Heap.destroy at hs
      split at hs
      · cases hs
      · cases hs
        exact hseen
    | put l obj =>
      dsimp only at hs
      unfold Heap.put at hs
      split at hs
      · cases hs
      · cases hs
        exact hseen

theorem Sound.seen_step {e : Event Obj Loc} {o : Obj} (h : Sound s) (hs : s.step e = some s')
    (hseen : 1 ≤ s.refCount o ∨ o ∈ s.deleted) : 1 ≤ s'.refCount o ∨ o ∈ s'.deleted := by
  unfold Heap.step at hs
  split at hs
  · exact h.seen_resume hs hseen
  · split at hs
    · obtain ⟨hdeleted, hcount⟩ := seen_call hs
      rw [hdeleted]
      exact hseen.imp (fun hle => hle.trans (hcount o hle)) id
    · cases hs

/-- It is deleted when it loses its last `RefPtr`, and not before. -/
theorem Sound.deleted_iff (h : Sound s) (h' : Reaches step Keeps s s') (htodo : s.todo = [])
    (htodo' : s'.todo = []) {l : Loc} {o : Obj} (hl : s.PointsTo l o) :
    o ∈ s'.deleted ↔ ∀ l', ¬ s'.PointsTo l' o := by
  obtain ⟨hsound, hseen⟩ : Sound s' ∧ (1 ≤ s'.refCount o ∨ o ∈ s'.deleted) :=
    h'.invariant (I := fun t => Sound t ∧ (1 ≤ t.refCount o ∨ o ∈ t.deleted))
      ⟨h, .inl ((h.pos_iff htodo o).mpr ⟨l, hl⟩)⟩
      fun t e t' ht hkeeps hs => ⟨ht.1.event hkeeps hs, ht.1.seen_step hs ht.2⟩
  rw [hsound.pos_iff htodo'] at hseen
  constructor
  · intro hmem l' hl'
    have hthere := (hsound.counted htodo').there l' o hl'
    rw [hsound.gone o hmem] at hthere
    cases hthere
  · intro hnone
    exact hseen.resolve_left fun ⟨l', hl'⟩ => hnone l' hl'

/-- Each action uses up a task or a `RefPtr`. -/
theorem Sound.resume_lt (h : Sound s) (hs : s.resume = some s') :
    2 * { l | (s'.refPtrs l).isSome }.ncard + tasks s'.todo <
      2 * { l | (s.refPtrs l).isSome }.ncard + tasks s.todo := by
  unfold Heap.resume at hs
  cases hnext : s.todo with
  | nil =>
    rw [hnext] at hs
    cases hs
  | cons a todo =>
    rw [hnext] at hs
    cases a with
    | dec o =>
      have hpos : 1 ≤ s.refCount o := h.refCount_pos (by rw [hnext]; exact List.mem_cons_self)
      obtain ⟨hrefs, -, -, hcase⟩ := dec_some hs hpos
      have htasks : tasks s'.todo = tasks todo := by
        rcases hcase with ⟨-, -, -, -, htodo⟩ | ⟨-, -, -, htodo⟩
        · rw [htodo, tasks_destroy]
        · rw [htodo]
      have hone : tasks (.dec o :: todo) = tasks todo + 1 := List.countP_cons_of_pos rfl
      rw [hrefs, htasks, hone]
      dsimp only
      omega
    | destroy l =>
      dsimp only at hs
      unfold Heap.destroy at hs
      split at hs
      · cases hs
      · rename_i rp hl
        cases hs
        dsimp only at hl ⊢
        have hmem : l ∈ { l' | (s.refPtrs l').isSome } := by
          rw [Set.mem_ofPred_eq, hl]
          rfl
        have hrest : { l' | (Function.update s.refPtrs l none l').isSome } =
            { l' | (s.refPtrs l').isSome } \ {l} := by
          ext l'
          by_cases hne : l' = l
          · subst hne
            simp
          · simp [hne]
        have hless := Set.ncard_sdiff_singleton_add_one hmem h.balanced.finite
        have htasks := tasks_release rp.m_ptr todo
        have hsame : tasks (.destroy l :: todo) = tasks todo := rfl
        rw [hrest, hsame]
        omega
    | put l obj =>
      dsimp only at hs
      unfold Heap.put at hs
      split at hs
      · cases hs
      · rename_i rp hl
        cases hs
        dsimp only at hl ⊢
        have hsame :
            { l' | (Function.update s.refPtrs l (some { rp with m_ptr := obj }) l').isSome } =
              { l' | (s.refPtrs l').isSome } := by
          ext l'
          by_cases hne : l' = l
          · subst hne
            simp [hl]
          · simp [hne]
        have hone : tasks (.put l obj :: todo) = tasks todo + 1 := List.countP_cons_of_pos rfl
        rw [hsame, hone]
        omega

theorem Sound.settles (h : Sound s) :
    ∃ s', Reaches step (fun t e => Keeps t e ∧ e = .resume) s s' ∧
      (s'.todo = [] ∨ DestroysItself s'.todo) := by
  obtain ⟨n, hn⟩ : ∃ n, 2 * { l | (s.refPtrs l).isSome }.ncard + tasks s.todo = n := ⟨_, rfl⟩
  induction n using Nat.strong_induction_on generalizing s with
  | _ n ih =>
    by_cases htodo : s.todo = []
    · exact ⟨s, .start, .inl htodo⟩
    by_cases hself : DestroysItself s.todo
    · exact ⟨s, .start, .inr hself⟩
    obtain ⟨t, ht, hsound⟩ := h.resume htodo hself
    obtain ⟨s', hs', hend⟩ := ih _ (hn ▸ h.resume_lt ht) hsound rfl
    have hone : Reaches step (fun t e => Keeps t e ∧ e = .resume) s t :=
      .step .resume .start ⟨hself, rfl⟩ ht
    exact ⟨s', hone.trans hs', hend⟩

/-- As long as `set` is only used to give a pointer up, and not in a way that it destroys its own
`RefPtr`: no call gets stuck with a deleted object or a destroyed `RefPtr`, each call comes to an
end, and between two calls all counts are right. An object that was pointed to is deleted if and
only if no `RefPtr` points to it any more. -/
theorem refCounts_right (h : Reaches step Keeps empty s) :
    (s.todo ≠ [] → ¬ DestroysItself s.todo → ∃ s', s.step .resume = some s') ∧
      (∃ s', Reaches step (fun t e => Keeps t e ∧ e = .resume) s s' ∧
        (s'.todo = [] ∨ DestroysItself s'.todo)) ∧
      (s.todo = [] → Counted s ∧
        ∀ s' l o, Reaches step Keeps s s' → s'.todo = [] → s.PointsTo l o →
          (o ∈ s'.deleted ↔ ∀ l', ¬ s'.PointsTo l' o)) := by
  have hsound := sound_of_reaches h
  refine ⟨fun htodo hself => ?_, hsound.settles, fun htodo => ⟨hsound.counted htodo, ?_⟩⟩
  · obtain ⟨s', hs', -⟩ := hsound.resume htodo hself
    exact ⟨s', hs'⟩
  · exact fun s' l o h' htodo' hl => hsound.deleted_iff h' htodo htodo' hl

end Steps

/-- The only `RefPtr` to an object gives it up, and with it goes the member that points to another
object. -/
def cascade : List (Event Nat Nat) :=
  [.new 0 [], .new 1 [10], .assignPtr 10 (some 0), .construct 11 (some 1), .set 11 none, .resume,
    .resume, .resume, .resume, .destroy 11]

theorem refCounts_right_cascade :
    ∃ s, run step empty cascade = some s ∧ s.todo = [] ∧ s.deleted = [0, 1] ∧ Counted s := by
  obtain ⟨s, hs, hrun, htodo, hdeleted⟩ : ∃ s, run (guarded step Keeps) empty cascade = some s ∧
      run step empty cascade = some s ∧ s.todo = [] ∧ s.deleted = [0, 1] :=
    ⟨_, rfl, rfl, rfl, rfl⟩
  exact ⟨s, hrun, htodo, hdeleted, ((refCounts_right (.of_guarded_run hs)).2.2 htodo).1⟩

/-- `set` counts nothing for the object that it is given. -/
theorem refCounts_set : ¬ ∀ s : Heap Nat Nat,
    Reaches step (fun _ _ => True) empty s → s.todo = [] → Counted s := by
  intro hall
  obtain ⟨s, hs, htodo, hcount, hpoints⟩ : ∃ s : Heap Nat Nat,
      run step empty [.new 0 [], .construct 1 none, .set 1 (some 0), .resume] = some s ∧
        s.todo = [] ∧ s.objects 0 = some ⟨0, []⟩ ∧ s.refPtrs 1 = some ⟨some 0, false⟩ :=
    ⟨_, rfl, rfl, rfl, rfl⟩
  obtain ⟨hfin, hzero⟩ := (hall s (.of_run (fun _ _ _ => trivial) hs) htodo).count 0 _ hcount
  have hempty := (Set.ncard_eq_zero hfin).mp (Int.ofNat_eq_zero.mp hzero.symm)
  have hmem : 1 ∈ { l | s.PointsTo l 0 } := ⟨_, hpoints, rfl⟩
  rw [hempty] at hmem
  exact hmem

end Heap

end ParleVision.Core
