import Kaya.Exec.System
import Kaya.Phase1.Init
import Kaya.Phase1.View

open Links Exec

namespace Kaya

/-! Process trees, over every sequence of calls. -/

inductive TreeCall where
  | allocPcb
  | freePcb (p : Pid)
  | insertChild (prnt p : Pid)
  | removeChild (parent : Pid)
  | outChild (child : Pid)

namespace TreeCall

/-- The function of the source. `freePcb` and `insertChild` return nothing. -/
def perform : TreeCall → HeapM (Option PcbPtr)
  | allocPcb => return some (← Kaya.allocPcb)
  | freePcb p => do
    Kaya.freePcb (.to p)
    return none
  | insertChild prnt p => do
    Kaya.insertChild (.to prnt) (.to p)
    return none
  | removeChild parent => return some (← Kaya.removeChild (.to parent))
  | outChild child => return some (← Kaya.outChild (.to child))

/-- What the function is for: its result and the family afterwards. -/
def spec (h : Heap) : TreeCall → Option PcbPtr × Forest Pid
  | allocPcb => (some (headPtr h.freeList), h.childList)
  | freePcb _ => (none, h.childList)
  | insertChild prnt p => (none, Forest.adopt h.childList prnt p)
  | removeChild parent =>
    (some (headPtr (h.childList parent)),
      Function.update h.childList parent (h.childList parent).tail)
  | outChild child =>
    match h.pcb_parent child with
    | .to parent => (some (.to child), Forest.detach h.childList parent child)
    | _ => (some .null, h.childList)

/-- The free list after the call. -/
def free (h : Heap) : TreeCall → List Pid
  | allocPcb => h.freeList.tail
  | freePcb p => p :: h.freeList
  | _ => h.freeList

/-- Only allocated pcbs are freed or get children; those that are freed have neither
parent nor children, and those that are inserted have no parent. -/
def Allowed (h : Heap) : TreeCall → Prop
  | allocPcb => True
  | freePcb p => p ∉ h.freeList ∧ (∀ r, h.pcb_parent p ≠ .to r) ∧ h.childList p = []
  | insertChild prnt p => prnt ∉ h.freeList ∧ p ∉ h.freeList ∧ ∀ r, h.pcb_parent p ≠ .to r
  | removeChild parent => parent ∉ h.freeList
  | outChild _ => True

/-- A pcb becomes a child neither of itself nor of one of its descendants, and
`outChild` is called only for a pcb whose `pcb_parent` is no longer the zero of static
storage. -/
def Grounded (h : Heap) : TreeCall → Prop
  | insertChild prnt p => ¬ Forest.Descends h.childList p prnt
  | outChild child => h.pcb_parent child ≠ .zero
  | _ => True

end TreeCall

/-- The links represent a forest: the child lists are doubly linked, end with `NULL`
on both sides and hold exactly the pcbs that name their parent, and nobody is their
own ancestor. -/
structure Heap.IsForest (h : Heap) : Prop where
  lists : ∀ p ∉ h.freeList, Siblings h.pcb_nextSib h.pcb_prevSib (h.pcb_child p) (h.childList p)
  kin : Kin h.childList h.pcb_parent h.freeList
  acyclic : Forest.Acyclic h.childList

/-- The call returns what it is for and keeps the forest. For a pcb that is nobody's
child `outChild` returns `NULL` and changes nothing, whatever word lies behind the
zero pointer; that is the only pointer besides those to pcbs that can be followed
without a trap. -/
structure TreeCall.Meets (h : Heap) (call : TreeCall) : Prop where
  returns : ∃ h', call.perform.run h = .ok (call.spec h).1 h' ∧ h'.IsForest ∧
    h'.freeList = call.free h ∧ h'.childList = (call.spec h).2
  nobody : ∀ c, call = .outChild c → (∀ r, c ∉ h.childList r) → ∀ rom,
    (Kaya.outChild (.to c)).run { h with rom := rom } = .ok .null { h with rom := rom }

/-- `initPcbs` in static storage, and then one call after the other. -/
def treeSystem : System Heap TreeCall where
  init h := ∃ rom, initPcbs.run (Heap.bss rom) = .ok () h
  step h call h' := call.Allowed h ∧ ∃ r, call.perform.run h = .ok r h'

variable {h h' : Heap} {f : Forest Pid} {free rest : List Pid} {p c prnt : Pid} {call : TreeCall}

/-- The free list is a stack of pcbs that are nobody's kin, and the links of the
others hold the child lists of `f`. -/
structure Heap.Trees (h : Heap) (free : List Pid) (f : Forest Pid) : Prop where
  stack : Segment h.pcb_next h.pcb_FREE_h free .null
  nodup : free.Nodup
  family : h.Family free f
  kin : Kin f h.pcb_parent free
  childless : ∀ p ∈ free, ∀ c, h.pcb_child p ≠ .to c

theorem Heap.Trees.freeList (htrees : h.Trees free f) : h.freeList = free :=
  htrees.stack.walk_eq (by simp) ((nodup_length_le htrees.nodup).trans (by decide))

theorem Heap.Trees.childList (htrees : h.Trees free f) : h.childList = f := by
  funext p
  by_cases hp : p ∈ free
  · rw [(htrees.kin.unborn p hp).1, Heap.childList]
    match hchild : h.pcb_child p with
    | .null => rfl
    | .zero => rfl
    | .to c => exact absurd hchild (htrees.childless p hp c)
  · have hsib := htrees.family.lists p hp
    exact hsib.walk_eq ((nodup_length_le hsib.nodup).trans (by decide))

theorem Heap.Trees.isForest (htrees : h.Trees free f) (hf : f.Acyclic) : h.IsForest := by
  refine ⟨?_, ?_, ?_⟩
  · rw [htrees.freeList, htrees.childList]
    exact htrees.family.lists
  · rw [htrees.freeList, htrees.childList]
    exact htrees.kin
  · rw [htrees.childList]
    exact hf

theorem Heap.Trees.initPcbs (rom : PcbPtr) :
    ∃ h, initPcbs.run (Heap.bss rom) = .ok () h ∧ (h.pcb_parent = fun _ => .zero) ∧
      h.Trees Queues.initial.free fun _ => [] := by
  obtain ⟨next, head, hrun, hseg⟩ := initPcbs_run (Heap.bss rom)
  refine ⟨_, hrun, rfl, hseg, ?_, ⟨?_, ?_⟩, ⟨?_, ?_, ?_⟩, ?_⟩
  · simpa [Queues.initial] using List.nodup_finRange MAXPROC
  all_goals simp [Heap.bss, Queues.initial]

theorem Heap.Trees.allocPcb (htrees : h.Trees (p :: rest) f) :
    (Kaya.allocPcb).run h = .ok (.to p) (h.allocated p) ∧ (h.allocated p).Trees rest f := by
  obtain ⟨hhead, hrest⟩ := htrees.stack
  obtain ⟨hp, hnodup⟩ := List.nodup_cons.mp htrees.nodup
  have hoff : ∀ x ∈ rest, x ≠ p := fun x hx heq => hp (heq ▸ hx)
  refine ⟨run_allocPcb hhead, ?_, hnodup, htrees.family.allocPcb htrees.kin, htrees.kin.alloc, ?_⟩
  · exact hrest.congr fun x hx => Function.update_of_ne (hoff x hx) _ _
  · intro x hx
    simpa [Heap.allocated, hoff x hx] using htrees.childless x (List.mem_cons_of_mem p hx)

theorem Heap.Trees.allocPcb_nil (htrees : h.Trees [] f) :
    (Kaya.allocPcb).run h = .ok .null h := by
  have hhead : h.pcb_FREE_h = .null := htrees.stack
  simp [Kaya.allocPcb, hhead]

theorem Heap.Trees.freePcb (htrees : h.Trees free f) (hp : p ∉ free) (hchildren : f p = [])
    (hparent : ∀ r, h.pcb_parent p ≠ .to r) : (h.freed p).Trees (p :: free) f := by
  refine ⟨⟨rfl, ?_⟩, List.nodup_cons.mpr ⟨hp, htrees.nodup⟩, htrees.family.freePcb,
    htrees.kin.discard hchildren hparent, ?_⟩
  · rw [show (h.freed p).pcb_next p = h.pcb_FREE_h from Function.update_self ..]
    have hoff : ∀ x ∈ free, x ≠ p := fun x hx heq => hp (heq ▸ hx)
    exact htrees.stack.congr fun x hx => Function.update_of_ne (hoff x hx) _ _
  · intro x hx c
    rcases List.mem_cons.mp hx with rfl | hx
    · have hhead := (htrees.family.lists x hp).head
      rw [hchildren] at hhead
      simp [Heap.freed, hhead]
    · exact htrees.childless x hx c

theorem Heap.Trees.insertChild (htrees : h.Trees free f) (hprnt : prnt ∉ free) (hp : p ∉ free)
    (hparent : ∀ r, h.pcb_parent p ≠ .to r) :
    ∃ h', (Kaya.insertChild (.to prnt) (.to p)).run h = .ok () h' ∧
      h'.Trees free (f.adopt prnt p) := by
  obtain ⟨prevSib, nextSib, hrun, hfamily⟩ := htrees.family.insertChild htrees.kin hprnt hparent
  refine ⟨_, hrun, htrees.stack, htrees.nodup, hfamily, htrees.kin.adopt hprnt hp hparent, ?_⟩
  intro x hx
  have hne : x ≠ prnt := fun heq => hprnt (heq ▸ hx)
  simpa [Heap.withFamily, hne] using htrees.childless x hx

/-- A child leaves its parent, from any position among its siblings. -/
theorem Heap.Trees.outChild (htrees : h.Trees free f) (hparent : h.pcb_parent c = .to prnt) :
    ∃ h', (Kaya.outChild (.to c)).run h = .ok (.to c) h' ∧ h'.Trees free (f.detach prnt c) := by
  obtain ⟨prevSib, nextSib, hrun, hfamily⟩ := htrees.family.unlinkChild htrees.kin hparent
  have hcall : (Kaya.outChild (.to c)).run h = (unlinkChild (.to c)).run h := by
    simp [Kaya.outChild, hparent]
  refine ⟨_, hcall.trans hrun, htrees.stack, htrees.nodup, hfamily,
    htrees.kin.orphan hparent, ?_⟩
  intro x hx
  have hne : x ≠ prnt := by
    rintro rfl
    have hc := (htrees.kin.child x c).mpr hparent
    simp [(htrees.kin.unborn x hx).1] at hc
  simpa [Heap.withFamily, hne] using htrees.childless x hx

theorem outChild_root (hnull : h.pcb_parent c = .null) :
    (outChild (.to c)).run h = .ok .null h := by
  simp [outChild, hnull]

/-- `pcb_parent` is still zero and the word behind the zero pointer is the address of
the pcb: it is taken for a child, and a store to ROM ends the run. -/
theorem outChild_zero {r : PcbPtr} (hzero : h.pcb_parent c = .zero) (hrom : h.rom = .to c) :
    (outChild (.to c)).run h ≠ .ok r h' := by
  unfold outChild unlinkChild
  by_cases honly : h.pcb_nextSib c = .null ∧ h.pcb_prevSib c = .null
  · simp [hzero, hrom, honly.1, honly.2]
  · match hnext : h.pcb_nextSib c with
    | .null =>
      have hprev : h.pcb_prevSib c ≠ .null := fun hprev => honly ⟨hnext, hprev⟩
      simp [hzero, hrom, hnext, hprev]
    | .zero => simp [hzero, hrom, hnext]
    | .to x => simp [hzero, hrom, hnext, Heap.putPrevSib]

theorem Heap.Trees.removeChild (htrees : h.Trees free f) (hprnt : prnt ∉ free) :
    ∃ h', (Kaya.removeChild (.to prnt)).run h = .ok (headPtr (f prnt)) h' ∧
      h'.Trees free (Function.update f prnt (f prnt).tail) := by
  have hhead := (htrees.family.lists prnt hprnt).head
  have hcall : (Kaya.removeChild (.to prnt)).run h =
      (Kaya.outChild (headPtr (f prnt))).run h := by
    simp [Kaya.removeChild, hhead]
  rw [hcall]
  cases hlist : f prnt with
  | nil =>
    have hsame : Function.update f prnt [] = f := by rw [← hlist, Function.update_eq_self]
    exact ⟨h, by simp [Kaya.outChild], by rwa [List.tail_nil, hsame]⟩
  | cons c rest =>
    have hparent : h.pcb_parent c = .to prnt := by
      rw [← htrees.kin.child, hlist]
      exact List.mem_cons_self
    obtain ⟨h', hrun, htrees'⟩ := htrees.outChild hparent
    refine ⟨h', hrun, ?_⟩
    rwa [Forest.detach, hlist, List.erase_cons_head] at htrees'

/-- Every call returns what it is for, and changes the trees as it should. -/
theorem Heap.Trees.perform (htrees : h.Trees free f) (hallowed : call.Allowed h)
    (hzero : ∀ c, call = .outChild c → h.pcb_parent c ≠ .zero) :
    ∃ h', call.perform.run h = .ok (call.spec h).1 h' ∧
      h'.Trees (call.free h) (call.spec h).2 := by
  cases call with
  | allocPcb =>
    simp only [TreeCall.spec, TreeCall.free, htrees.freeList, htrees.childList]
    cases free with
    | nil => exact ⟨h, by simp [TreeCall.perform, htrees.allocPcb_nil], htrees⟩
    | cons p rest =>
      obtain ⟨hrun, htrees'⟩ := htrees.allocPcb
      exact ⟨_, by simp [TreeCall.perform, hrun], htrees'⟩
  | freePcb p =>
    obtain ⟨hp, hparent, hchildren⟩ := hallowed
    rw [htrees.freeList] at hp
    rw [htrees.childList] at hchildren
    simp only [TreeCall.spec, TreeCall.free, htrees.freeList, htrees.childList]
    refine ⟨h.freed p, ?_, htrees.freePcb hp hchildren hparent⟩
    simp [TreeCall.perform, run_freePcb]
  | insertChild prnt p =>
    obtain ⟨hprnt, hp, hparent⟩ := hallowed
    rw [htrees.freeList] at hprnt hp
    simp only [TreeCall.spec, TreeCall.free, htrees.freeList, htrees.childList]
    obtain ⟨h', hrun, htrees'⟩ := htrees.insertChild hprnt hp hparent
    exact ⟨h', by simp [TreeCall.perform, hrun], htrees'⟩
  | removeChild prnt =>
    have hprnt : prnt ∉ h.freeList := hallowed
    rw [htrees.freeList] at hprnt
    simp only [TreeCall.spec, TreeCall.free, htrees.freeList, htrees.childList]
    obtain ⟨h', hrun, htrees'⟩ := htrees.removeChild hprnt
    exact ⟨h', by simp [TreeCall.perform, hrun], htrees'⟩
  | outChild c =>
    simp only [TreeCall.spec, TreeCall.free, htrees.freeList, htrees.childList]
    match hparent : h.pcb_parent c with
    | .null => exact ⟨h, by simp [TreeCall.perform, outChild_root hparent], htrees⟩
    | .zero => exact absurd hparent (hzero c rfl)
    | .to prnt =>
      obtain ⟨h', hrun, htrees'⟩ := htrees.outChild hparent
      exact ⟨h', by simp [TreeCall.perform, hrun], htrees'⟩

/-- Only a pcb that is inserted below itself closes a cycle. -/
theorem TreeCall.Grounded.acyclic (hgrounded : call.Grounded h)
    (hf : Forest.Acyclic h.childList) : (call.spec h).2.Acyclic := by
  cases call with
  | allocPcb => exact hf
  | freePcb p => exact hf
  | insertChild prnt p => exact hf.adopt hgrounded
  | removeChild prnt =>
    refine hf.mono fun r => ?_
    by_cases hr : r = prnt
    · subst hr
      simpa [TreeCall.spec] using List.tail_subset (h.childList r)
    · simp [TreeCall.spec, hr]
  | outChild c =>
    match hparent : h.pcb_parent c with
    | .null => simpa [TreeCall.spec, hparent] using hf
    | .zero => simpa [TreeCall.spec, hparent] using hf
    | .to prnt => simpa [TreeCall.spec, hparent] using hf.mono Forest.detach_subset

theorem TreeCall.Grounded.parent (hgrounded : call.Grounded h) :
    ∀ c, call = .outChild c → h.pcb_parent c ≠ .zero := by
  rintro c rfl
  exact hgrounded

theorem TreeCall.Meets.parent (hmeets : call.Meets h) (hkin : Kin h.childList h.pcb_parent free) :
    ∀ c, call = .outChild c → h.pcb_parent c ≠ .zero := by
  intro c hc hzero
  have hnobody : ∀ r, c ∉ h.childList r := by
    intro r hmem
    rw [hkin.child, hzero] at hmem
    exact absurd hmem (by simp)
  exact outChild_zero (h := { h with rom := .to c }) hzero rfl (hmeets.nobody c hc hnobody (.to c))

/-- The tables hold trees. -/
def Heap.Planted (h : Heap) : Prop := ∃ free f, h.Trees free f ∧ Forest.Acyclic f

theorem Heap.Planted.isForest (hplanted : h.Planted) : h.IsForest := by
  obtain ⟨free, f, htrees, hf⟩ := hplanted
  exact htrees.isForest hf

theorem Heap.Planted.meets_iff (hplanted : h.Planted) (hallowed : call.Allowed h) :
    call.Meets h ↔ call.Grounded h := by
  obtain ⟨free, f, htrees, hf⟩ := hplanted
  have hkin := (htrees.isForest hf).kin
  rw [← htrees.childList] at hf
  constructor
  · intro hmeets
    have hzero := hmeets.parent hkin
    obtain ⟨h', -, hforest, -, hchildren⟩ := hmeets.returns
    have hacyclic := hforest.acyclic
    rw [hchildren] at hacyclic
    cases call with
    | insertChild prnt p => exact fun hd => hd.not_acyclic_adopt hacyclic
    | outChild c => exact hzero c rfl
    | allocPcb | freePcb | removeChild => trivial
  · intro hgrounded
    obtain ⟨h', hrun, htrees'⟩ := htrees.perform hallowed hgrounded.parent
    refine ⟨⟨h', hrun, htrees'.isForest (hgrounded.acyclic hf), htrees'.freeList,
      htrees'.childList⟩, ?_⟩
    rintro c rfl hnobody rom
    refine outChild_root ?_
    match hparent : h.pcb_parent c with
    | .null => rfl
    | .zero => exact absurd hparent hgrounded
    | .to r => exact absurd ((hkin.child r c).mpr hparent) (hnobody r)

theorem Heap.Planted.step (hplanted : h.Planted)
    (hstep : (treeSystem.restrict fun h call _ => call.Grounded h).step h call h') :
    h'.Planted := by
  obtain ⟨⟨hallowed, r, hrun⟩, hgrounded⟩ := hstep
  obtain ⟨free, f, htrees, hf⟩ := hplanted
  rw [← htrees.childList] at hf
  obtain ⟨h'', hrun', htrees'⟩ := htrees.perform hallowed hgrounded.parent
  rw [hrun] at hrun'
  cases hrun'
  exact ⟨_, _, htrees', hgrounded.acyclic hf⟩

theorem planted_initPcbs {rom : PcbPtr} (hrun : initPcbs.run (Heap.bss rom) = .ok () h) :
    h.Planted := by
  obtain ⟨h', hrun', -, htrees⟩ := Heap.Trees.initPcbs rom
  rw [hrun] at hrun'
  cases hrun'
  exact ⟨_, _, htrees, ⟨fun p => Acc.intro p (by simp)⟩⟩

/-- As long as nobody becomes their own ancestor and `outChild` is kept off pcbs whose
`pcb_parent` was never set, the links represent a forest; and each further call does
what it is for exactly if it meets that condition. -/
theorem family_of_run
    (hs : (treeSystem.restrict fun h call _ => call.Grounded h).Reachable h) :
    h.IsForest ∧ ∀ call : TreeCall, call.Allowed h → (call.Meets h ↔ call.Grounded h) := by
  have hplanted : h.Planted := by
    refine hs.invariant ?_ fun _ _ _ hplanted hstep => hplanted.step hstep
    rintro h ⟨rom, hrun⟩
    exact planted_initPcbs hrun
  exact ⟨hplanted.isForest, fun call hallowed => hplanted.meets_iff hallowed⟩

theorem Heap.Trees.reach (htrees : h.Trees free f)
    (hs : (treeSystem.restrict fun h call _ => call.Grounded h).Reachable h)
    (hallowed : call.Allowed h) (hgrounded : call.Grounded h) :
    ∃ h', (treeSystem.restrict fun h call _ => call.Grounded h).Reachable h' ∧
      h'.Trees (call.free h) (call.spec h).2 := by
  obtain ⟨h', hrun, htrees'⟩ := htrees.perform hallowed hgrounded.parent
  exact ⟨h', hs.step ⟨⟨hallowed, _, hrun⟩, hgrounded⟩, htrees'⟩

/-- The first pcb is obtained: it names no parent, but not with `NULL`. -/
theorem exists_first_pcb : ∃ h,
    (treeSystem.restrict fun h call _ => call.Grounded h).Reachable h ∧
      h.Trees Queues.booted.free (fun _ => []) ∧ h.pcb_parent firstPid = .zero := by
  obtain ⟨h, hrun, hparent, htrees⟩ := Heap.Trees.initPcbs .null
  rw [Queues.initial_free] at htrees
  obtain ⟨halloc, htrees'⟩ := htrees.allocPcb
  refine ⟨h.allocated firstPid, ?_, htrees', congrFun hparent firstPid⟩
  have hperform : TreeCall.allocPcb.perform.run h =
      .ok (some (.to firstPid)) (h.allocated firstPid) := by
    simp [TreeCall.perform, halloc]
  have hinit : (treeSystem.restrict fun h call _ => call.Grounded h).Reachable h :=
    .init ⟨.null, hrun⟩
  exact hinit.step (e := .allocPcb) ⟨⟨trivial, _, hperform⟩, trivial⟩

/-- The first pcb gets the second one as its child. -/
theorem family_of_run_child : ∃ h : Heap, h.childList firstPid = [18] ∧ h.IsForest ∧
    ((TreeCall.outChild 18).Meets h ↔ (TreeCall.outChild 18).Grounded h) := by
  obtain ⟨h, hs, htrees, -⟩ := exists_first_pcb
  have hfree : TreeCall.allocPcb.Allowed h := trivial
  obtain ⟨h₁, hs₁, htrees₁⟩ := htrees.reach hs hfree trivial
  simp only [TreeCall.free, TreeCall.spec, htrees.freeList, htrees.childList] at htrees₁
  have hallowed : (TreeCall.insertChild firstPid 18).Allowed h₁ := by
    simp only [TreeCall.Allowed, htrees₁.freeList]
    exact ⟨by decide, by decide, fun r hr => List.not_mem_nil ((htrees₁.kin.child r 18).mpr hr)⟩
  have hgrounded : (TreeCall.insertChild firstPid 18).Grounded h₁ := by
    simp only [TreeCall.Grounded, htrees₁.childList, Forest.descends_of_childless]
    decide
  obtain ⟨h₂, hs₂, htrees₂⟩ := htrees₁.reach hs₁ hallowed hgrounded
  simp only [TreeCall.free, TreeCall.spec, htrees₁.freeList, htrees₁.childList] at htrees₂
  obtain ⟨hforest, hcalls⟩ := family_of_run hs₂
  refine ⟨h₂, ?_, hforest, hcalls _ trivial⟩
  rw [htrees₂.childList]
  rfl

/-- `outChild` of the pcb that was obtained first. -/
theorem not_always_family : ¬ ∀ h, treeSystem.Reachable h →
    h.IsForest ∧ ∀ call : TreeCall, call.Allowed h → call.Meets h := by
  intro hall
  obtain ⟨h, hs, htrees, hzero⟩ := exists_first_pcb
  obtain ⟨hforest, hcalls⟩ := hall h hs.of_restrict
  exact (hcalls (.outChild firstPid) trivial).parent hforest.kin firstPid rfl hzero

end Kaya
