import Kaya.Phase1.Represents

open Links

namespace Kaya

variable {h : Heap} {q : Queues} {p c prnt : Pid} {rest free : List Pid} {f : Forest Pid}

theorem run_emptyChild (h : Heap) (p : Pid) :
    (emptyChild (.to p)).run h = .ok (decide (h.pcb_child p = .null)) h := by
  simp [emptyChild]

theorem emptyChild_spec (hrep : Represents h q) (hp : p ∉ q.free) :
    (emptyChild (.to p)).run h = .ok (decide (q.children p = [])) h := by
  have hhead := (hrep.children p hp).head
  simp [run_emptyChild, hhead]

/-- The heap with other links between siblings. -/
def Heap.withFamily (h : Heap) (child parent prevSib nextSib : Pid → PcbPtr) : Heap :=
  { h with
    pcb_child := child
    pcb_parent := parent
    pcb_prevSib := prevSib
    pcb_nextSib := nextSib }

/-- The family links of the pcbs that are not free hold the child lists of `f`. -/
structure Heap.Family (h : Heap) (free : List Pid) (f : Forest Pid) : Prop where
  lists : ∀ p ∉ free, Siblings h.pcb_nextSib h.pcb_prevSib (h.pcb_child p) (f p)
  roots : ∀ p ∉ free, h.pcb_parent p = .zero → h.pcb_nextSib p = .null ∧ h.pcb_prevSib p = .null

theorem Represents.family (hrep : Represents h q) : h.Family q.free q.children :=
  ⟨hrep.children, by rw [hrep.parent]; exact hrep.roots⟩

/-- A change of family links that is right for the child lists leaves the
queues as they were. -/
theorem Represents.with_family {child parent prevSib nextSib : Pid → PcbPtr}
    (hrep : Represents h q)
    (hfamily : (h.withFamily child parent prevSib nextSib).Family q.free f) :
    Represents (h.withFamily child parent prevSib nextSib)
      { q with children := f, parent := parent } where
  free := hrep.free
  ready := hrep.ready
  asl := hrep.asl_congr rfl rfl rfl rfl rfl fun _ _ => ⟨rfl, rfl⟩
  children := hfamily.lists
  parent := rfl
  roots := hfamily.roots
  semAdd := hrep.semAdd
  states := hrep.states
  rom := hrep.rom

/-- `insertChild` puts a pcb that is nobody's child in front of the children of
`prnt`. -/
theorem Heap.Family.insertChild (hfamily : h.Family free f) (hkin : Kin f h.pcb_parent free)
    (hprnt : prnt ∉ free) (hparent : ∀ r, h.pcb_parent p ≠ .to r) :
    ∃ prevSib nextSib, (insertChild (.to prnt) (.to p)).run h =
        .ok () (h.withFamily (Function.update h.pcb_child prnt (.to p))
          (Function.update h.pcb_parent p (.to prnt)) prevSib nextSib) ∧
      (h.withFamily (Function.update h.pcb_child prnt (.to p))
        (Function.update h.pcb_parent p (.to prnt)) prevSib nextSib).Family free
        (f.adopt prnt p) := by
  have hfresh : ∀ r, p ∉ f r := fun r hr => hparent r ((hkin.child r p).mp hr)
  have hsib := hfamily.lists prnt hprnt
  have hempty : (emptyChild (.to prnt)).run h = .ok (decide (f prnt = [])) h := by
    simp [emptyChild, hsib.head]
  have hother : ∀ r ≠ prnt, ∀ y ∈ f r, headPtr (f prnt) ≠ .to y := by
    intro r hr y hy hhead
    have hy' := (hkin.child prnt y).mp (mem_of_headPtr hhead)
    rw [(hkin.child r y).mp hy, Ptr.to.injEq] at hy'
    exact hr hy'
  have hself : ∀ r, ∀ y ∈ f r, y ≠ p := fun r y hy heq => hfresh r (heq ▸ hy)
  have hfamilies : ∀ prevSib nextSib : Pid → PcbPtr,
      (∀ y ≠ p, nextSib y = h.pcb_nextSib y) →
      (∀ y ≠ p, headPtr (f prnt) ≠ .to y → prevSib y = h.pcb_prevSib y) →
      nextSib p = h.pcb_child prnt → prevSib p = .null →
      (∀ x, headPtr (f prnt) = .to x → prevSib x = .to p) →
      (h.withFamily (Function.update h.pcb_child prnt (.to p))
        (Function.update h.pcb_parent p (.to prnt)) prevSib nextSib).Family free
        (f.adopt prnt p) := by
    intro prevSib nextSib hnext hprev hnextp hprevp hfirst
    constructor
    · intro r hr
      by_cases hrp : r = prnt
      · subst hrp
        simp only [Heap.withFamily, Forest.adopt, Function.update_self]
        refine hsib.cons (hfresh r) (fun y hy => hnext y (hself r y hy)) ?_ hnextp hprevp hfirst
        exact fun y hy hhead => hprev y (hself r y hy) hhead
      · simp only [Heap.withFamily, Forest.adopt, Function.update_of_ne hrp]
        refine (hfamily.lists r hr).congr (fun y hy => hnext y (hself r y hy)) ?_
        exact fun y hy => hprev y (hself r y hy) (hother r hrp y hy)
    · intro r hr hzero
      have hrp : r ≠ p := by
        rintro rfl
        simp [Heap.withFamily] at hzero
      simp only [Heap.withFamily, Function.update_of_ne hrp] at hzero ⊢
      have hhead : headPtr (f prnt) ≠ .to r := by
        intro hhead
        have hr' := (hkin.child prnt r).mp (mem_of_headPtr hhead)
        rw [hzero] at hr'
        exact absurd hr' (by simp)
      obtain ⟨hn, hp⟩ := hfamily.roots r hr hzero
      exact ⟨(hnext r hrp).trans hn, (hprev r hrp hhead).trans hp⟩
  cases hlist : f prnt with
  | nil =>
    have hhead : h.pcb_child prnt = .null := by simpa [hlist] using hsib.head
    simp only [hlist, decide_true] at hempty
    refine ⟨_, _, ?_, hfamilies (Function.update h.pcb_prevSib p .null)
      (Function.update h.pcb_nextSib p .null) ?_ ?_ ?_ ?_ ?_⟩
    · simp [Kaya.insertChild, hempty, Heap.putChild, Heap.putParent, Heap.putNextSib,
        Heap.putPrevSib, Heap.withFamily]
    · exact fun y hy => Function.update_of_ne hy _ _
    · exact fun y hy _ => Function.update_of_ne hy _ _
    · simp [hhead]
    · simp
    · simp [hlist]
  | cons x l =>
    have hhead : h.pcb_child prnt = .to x := by simpa [hlist] using hsib.head
    have hxp : x ≠ p := hself prnt x (by simp [hlist])
    rw [hlist] at hempty
    refine ⟨_, _, ?_, hfamilies
      (Function.update (Function.update h.pcb_prevSib x (.to p)) p .null)
      (Function.update h.pcb_nextSib p (.to x)) ?_ ?_ ?_ ?_ ?_⟩
    · simp [Kaya.insertChild, hempty, hhead, Heap.putChild, Heap.putParent, Heap.putNextSib,
        Heap.putPrevSib, Heap.withFamily]
    · exact fun y hy => Function.update_of_ne hy _ _
    · intro y hy hne
      have hyx : y ≠ x := by simpa [hlist, eq_comm] using hne
      simp [hy, hyx]
    · simp [hhead]
    · simp
    · intro y hy
      obtain rfl : x = y := by simpa [hlist] using hy
      simp [hxp]

/-- What `outChild` does to a child, at any position among its siblings. -/
theorem Heap.Family.unlinkChild (hfamily : h.Family free f) (hkin : Kin f h.pcb_parent free)
    (hparent : h.pcb_parent c = .to prnt) :
    ∃ prevSib nextSib, (unlinkChild (.to c)).run h =
        .ok (.to c) (h.withFamily (Function.update h.pcb_child prnt (headPtr ((f prnt).erase c)))
          (Function.update h.pcb_parent c .null) prevSib nextSib) ∧
      (h.withFamily (Function.update h.pcb_child prnt (headPtr ((f prnt).erase c)))
        (Function.update h.pcb_parent c .null) prevSib nextSib).Family free
        (f.detach prnt c) := by
  have hmem : c ∈ f prnt := (hkin.child prnt c).mpr hparent
  have hlive : prnt ∉ free := by
    intro hfree
    simp [(hkin.unborn prnt hfree).1] at hmem
  have hsib := hfamily.lists prnt hlive
  obtain ⟨a, b, hab⟩ := List.append_of_mem hmem
  have hnodup := hkin.siblings prnt
  rw [hab] at hsib hnodup
  have hca : c ∉ a := fun hca => (List.nodup_append.mp hnodup).2.2 c hca c (by simp) rfl
  have hcb : c ∉ b := (List.nodup_cons.mp (List.nodup_append.mp hnodup).2.1).1
  have herase : (f prnt).erase c = a ++ b := by
    rw [hab, List.erase_append_right _ hca, List.erase_cons_head]
  rw [herase]
  obtain ⟨hnext, hprev⟩ := hsib.neighbours
  have hchild : h.pcb_child prnt = headPtr (a ++ c :: b) := hsib.head
  have hbrother : ∀ {x}, x ∈ a ++ b → h.pcb_parent x = .to prnt := by
    intro x hx
    refine (hkin.child prnt x).mp ?_
    simp only [hab, List.mem_append, List.mem_cons] at hx ⊢
    exact hx.imp_right Or.inr
  have hfamilies : ∀ prevSib nextSib : Pid → PcbPtr,
      (∀ y, tailPtr a ≠ .to y → nextSib y = h.pcb_nextSib y) →
      (∀ y, headPtr b ≠ .to y → prevSib y = h.pcb_prevSib y) →
      (∀ y, tailPtr a = .to y → nextSib y = headPtr b) →
      (∀ x, headPtr b = .to x → prevSib x = tailPtr a) →
      (h.withFamily (Function.update h.pcb_child prnt (headPtr (a ++ b)))
        (Function.update h.pcb_parent c .null) prevSib nextSib).Family free
        (f.detach prnt c) := by
    intro prevSib nextSib hn hp hy hx
    have hlast : ∀ {r y}, h.pcb_parent y = r → r ≠ .to prnt → tailPtr a ≠ .to y := by
      rintro r y rfl hne htail
      exact hne (hbrother (List.mem_append_left _ (mem_of_tailPtr htail)))
    have hfirst : ∀ {r y}, h.pcb_parent y = r → r ≠ .to prnt → headPtr b ≠ .to y := by
      rintro r y rfl hne hhead
      exact hne (hbrother (List.mem_append_right _ (mem_of_headPtr hhead)))
    constructor
    · intro r hr
      by_cases hrp : r = prnt
      · subst hrp
        simp only [Heap.withFamily, Forest.detach, Function.update_self, herase]
        exact hsib.remove (fun z _ hz => hn z hz) (fun z _ hz => hp z hz) hy hx
      · have hne : Ptr.to r ≠ .to prnt := by simpa using hrp
        simp only [Heap.withFamily, Forest.detach, Function.update_of_ne hrp]
        refine (hfamily.lists r hr).congr (fun z hz => hn z ?_) (fun z hz => hp z ?_)
        · exact hlast ((hkin.child r z).mp hz) hne
        · exact hfirst ((hkin.child r z).mp hz) hne
    · intro r hr hzero
      have hrc : r ≠ c := by
        rintro rfl
        simp [Heap.withFamily] at hzero
      simp only [Heap.withFamily, Function.update_of_ne hrc] at hzero ⊢
      obtain ⟨hrn, hrp⟩ := hfamily.roots r hr hzero
      exact ⟨(hn r (hlast hzero (by simp))).trans hrn, (hp r (hfirst hzero (by simp))).trans hrp⟩
  rcases List.eq_nil_or_concat' a with rfl | ⟨a, y, rfl⟩
  · cases b with
    | nil =>
      have hfamily' := hfamilies h.pcb_prevSib h.pcb_nextSib
        (fun _ _ => rfl) (fun _ _ => rfl) (by simp) (by simp)
      refine ⟨_, _, ?_, hfamily'⟩
      simp only [List.nil_append, headPtr_nil, headPtr_cons, tailPtr_nil] at hnext hprev hchild ⊢
      simp [Kaya.unlinkChild, hnext, hprev, hparent, hchild, Heap.putChild, Heap.putParent,
        Heap.withFamily]
    | cons x b =>
      have hxc : x ≠ c := fun heq => hcb (heq ▸ List.mem_cons_self)
      have hfamily' := hfamilies (Function.update h.pcb_prevSib x .null)
        h.pcb_nextSib (fun _ _ => rfl)
        (fun z hz => Function.update_of_ne (by simpa [eq_comm] using hz) _ _) (by simp)
        (fun z hz => by simp_all)
      refine ⟨_, _, ?_, hfamily'⟩
      simp only [List.nil_append, headPtr_cons, tailPtr_nil] at hnext hprev hchild ⊢
      simp [Kaya.unlinkChild, hnext, hprev, hparent, hchild, Heap.putChild, Heap.putParent,
        Heap.putPrevSib, Heap.withFamily]
  · have hyc : y ≠ c := fun heq => hca (heq ▸ by simp)
    rw [tailPtr_concat] at hprev
    have hfirst : ∃ z, headPtr (a ++ [y] ++ c :: b) = .to z ∧ headPtr (a ++ [y] ++ b) = .to z ∧ z ≠ c := by
      cases a with
      | nil => exact ⟨y, rfl, rfl, hyc⟩
      | cons z a => exact ⟨z, rfl, rfl, fun heq => hca (heq ▸ by simp)⟩
    obtain ⟨z, hz, hz', hzc⟩ := hfirst
    have hsame : Function.update h.pcb_child prnt (headPtr (a ++ [y] ++ b)) = h.pcb_child := by
      rw [hz', ← hz, ← hchild, Function.update_eq_self]
    rw [hz] at hchild
    rw [hsame] at hfamilies ⊢
    cases b with
    | nil =>
      have hfamily' := hfamilies h.pcb_prevSib
        (Function.update h.pcb_nextSib y .null)
        (fun z hz => Function.update_of_ne (by simpa [eq_comm] using hz) _ _) (fun _ _ => rfl)
        (fun z hz => by simp_all) (by simp)
      refine ⟨_, _, ?_, hfamily'⟩
      simp only [headPtr_nil] at hnext
      simp [Kaya.unlinkChild, hnext, hprev, hparent, hchild, hzc.symm, Heap.putParent,
        Heap.putNextSib, Heap.withFamily]
    | cons x b =>
      have hxc : x ≠ c := fun heq => hcb (heq ▸ List.mem_cons_self)
      have hfamily' := hfamilies (Function.update h.pcb_prevSib x (.to y))
        (Function.update h.pcb_nextSib y (.to x))
        (fun z hz => Function.update_of_ne (by simpa [eq_comm] using hz) _ _)
        (fun z hz => Function.update_of_ne (by simpa [eq_comm] using hz) _ _)
        (fun z hz => by simp_all) (fun z hz => by simp_all)
      refine ⟨_, _, ?_, hfamily'⟩
      simp only [headPtr_cons] at hnext
      simp [Kaya.unlinkChild, hnext, hprev, hparent, hchild, hzc.symm, hyc.symm, Heap.putParent,
        Heap.putNextSib, Heap.putPrevSib, Heap.withFamily]

theorem Represents.kin (hrep : Represents h q) (hq : q.WF) : Kin q.children h.pcb_parent q.free :=
  hrep.parent ▸ hq.kin

theorem insertChild_spec (hrep : Represents h q) (hq : q.WF) (hprnt : prnt ∉ q.free)
    (hparent : ∀ r, q.parent p ≠ .to r) :
    ∃ h', (insertChild (.to prnt) (.to p)).run h = .ok () h' ∧ Represents h' (q.adopt prnt p) := by
  rw [← hrep.parent] at hparent
  obtain ⟨prevSib, nextSib, hrun, hfamily⟩ :=
    hrep.family.insertChild (hrep.kin hq) hprnt hparent
  refine ⟨_, hrun, ?_⟩
  unfold Queues.adopt
  rw [← hrep.parent]
  exact hrep.with_family hfamily

theorem unlinkChild_spec (hrep : Represents h q) (hq : q.WF) (hprnt : q.parent c = .to prnt) :
    ∃ h', (unlinkChild (.to c)).run h = .ok (.to c) h' ∧ Represents h' (q.orphan c) := by
  have hparent : h.pcb_parent c = .to prnt := by rw [hrep.parent, hprnt]
  obtain ⟨prevSib, nextSib, hrun, hfamily⟩ := hrep.family.unlinkChild (hrep.kin hq) hparent
  refine ⟨_, hrun, ?_⟩
  unfold Queues.orphan
  rw [hprnt, ← hrep.parent]
  exact hrep.with_family hfamily

/-- `outChild` on any live pcb: a child leaves its parent, and a pcb that is
nobody's child stays as it is. A root whose `pcb_parent` was never set is only
compared with a word of the ROM. -/
theorem outChild_spec (hrep : Represents h q) (hq : q.WF) (hc : c ∉ q.free) :
    ∃ r h', (outChild (.to c)).run h = .ok r h' ∧ Represents h' (q.orphan c) := by
  have hparent : h.pcb_parent c = q.parent c := by rw [hrep.parent]
  rcases hcase : q.parent c with - | - | prnt
  · refine ⟨.null, h, ?_, by simpa [Queues.orphan, hcase] using hrep⟩
    simp [outChild, hparent, hcase]
  · obtain ⟨hnext, hprev⟩ := hrep.roots c hc hcase
    refine ⟨.null, h, ?_, by simpa [Queues.orphan, hcase] using hrep⟩
    have hrom : Ptr.to c ≠ h.rom := (hrep.rom c).symm
    simp [outChild, unlinkChild, hparent, hcase, hnext, hprev, hrom]
  · obtain ⟨h', hrun, hrep'⟩ := unlinkChild_spec hrep hq hcase
    refine ⟨.to c, h', ?_, hrep'⟩
    simp [outChild, hparent, hcase, hrun]

/-- `removeChild` detaches the first child. -/
theorem removeChild_spec (hrep : Represents h q) (hq : q.WF) (hp : p ∉ q.free)
    (hchildren : q.children p = c :: rest) :
    ∃ h', (removeChild (.to p)).run h = .ok (.to c) h' ∧ Represents h' (q.orphan c) := by
  have hparent : q.parent c = .to p := (hq.child p c).mp (by simp [hchildren])
  have hhead : h.pcb_child p = .to c := by simpa [hchildren] using (hrep.children p hp).head
  obtain ⟨h', hrun, hrep'⟩ := unlinkChild_spec hrep hq hparent
  refine ⟨h', ?_, hrep'⟩
  have hptr : h.pcb_parent c = .to p := by rw [hrep.parent, hparent]
  simp [removeChild, outChild, hhead, hptr, hrun]

end Kaya
