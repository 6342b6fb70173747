import Kaya.Exec.Run
import Kaya.Links.Ring
import Kaya.Phase1.Pcb
import Mathlib.Data.Fintype.Card

open Links

namespace Kaya

/-- The heap with other queue links. -/
def Heap.withLinks (h : Heap) (next prev : Pid → PcbPtr) : Heap :=
  { h with pcb_next := next, pcb_prev := prev }

/-- The queue links of the entries outside `l` are those of `h`. -/
def Heap.LinksOff (h : Heap) (next prev : Pid → PcbPtr) (l : List Pid) : Prop :=
  ∀ x ∉ l, next x = h.pcb_next x ∧ prev x = h.pcb_prev x

theorem nodup_length_le {l : List Pid} (h : l.Nodup) : l.length ≤ MAXPROC := by
  simpa using h.length_le_card

/-- `insertProcQ` appends a pcb that is not on the queue. -/
theorem insertProcQ_spec {h : Heap} {tp : PcbPtr} {l : List Pid} {p : Pid}
    (hring : Ring h.pcb_next h.pcb_prev tp l) (hp : p ∉ l) :
    ∃ next prev, (insertProcQ tp (.to p)).run h = .ok (.to p) (h.withLinks next prev) ∧
      Ring next prev (.to p) (l ++ [p]) ∧ h.LinksOff next prev (p :: l) := by
  cases l with
  | nil =>
    obtain rfl : tp = .null := hring.tail
    refine ⟨Function.update h.pcb_next p (.to p), Function.update h.pcb_prev p (.to p), ?_, ?_, ?_⟩
    · simp [insertProcQ, emptyProcQ, Heap.putNext, Heap.putPrev, Heap.withLinks]
    · exact Ring.singleton (by simp) (by simp)
    · intro x hx
      have hne : x ≠ p := by simpa using hx
      simp [hne]
  | cons x l =>
    obtain ⟨m, t, hm⟩ := List.eq_nil_or_concat (x :: l) |>.resolve_left (by simp)
    have ht : tailPtr (x :: l) = .to t := by simp [hm]
    obtain rfl : tp = .to t := hring.tail.trans ht
    obtain ⟨htx, hxt⟩ := hring.tail_head ht
    have htmem : t ∈ x :: l := by simp [hm]
    have hpt : p ≠ t := fun heq => hp (heq ▸ htmem)
    have hpx : p ≠ x := fun heq => hp (heq ▸ List.mem_cons_self)
    refine ⟨Function.update (Function.update h.pcb_next p (.to x)) t (.to p),
      Function.update (Function.update h.pcb_prev p (.to t)) x (.to p), ?_, ?_, ?_⟩
    · simp [insertProcQ, emptyProcQ, Heap.putNext, Heap.putPrev, Heap.withLinks, htx, hpt]
    · refine hring.push ht hp ?_ ?_ ?_ ?_
      · intro y hy hyt
        have hyp : y ≠ p := fun heq => hp (heq ▸ hy)
        simp [hyt, hyp]
      · intro y hy hyx
        have hyp : y ≠ p := fun heq => hp (heq ▸ hy)
        simp [hyx, hyp]
      · refine ⟨by simp, ?_⟩
        simp [hpx]
      · refine ⟨?_, by simp⟩
        simp [hpt]
    · intro y hy
      have hyp : y ≠ p := fun heq => hy (heq ▸ List.mem_cons_self)
      have hyl : y ∉ x :: l := fun hmem => hy (List.mem_cons_of_mem _ hmem)
      have hyt : y ≠ t := fun heq => hyl (heq ▸ htmem)
      have hyx : y ≠ x := fun heq => hyl (heq ▸ List.mem_cons_self)
      simp [hyp, hyt, hyx]

theorem headProcQ_spec {h : Heap} {tp : PcbPtr} {l : List Pid}
    (hring : Ring h.pcb_next h.pcb_prev tp l) :
    (headProcQ tp).run h = .ok (headPtr l) h := by
  cases l with
  | nil =>
    obtain rfl : tp = .null := hring.tail
    simp [headProcQ, emptyProcQ]
  | cons x l =>
    obtain ⟨m, t, hm⟩ := List.eq_nil_or_concat (x :: l) |>.resolve_left (by simp)
    have ht : tailPtr (x :: l) = .to t := by simp [hm]
    obtain rfl : tp = .to t := hring.tail.trans ht
    simp [headProcQ, emptyProcQ, (hring.tail_head ht).1]

/-- The search walks along the queue and stops at `p`, or else at the tail. -/
theorem searchProcQ_spec {h : Heap} {p : PcbPtr} {t : Pid} {l : List Pid} {x : Pid} {fuel : Nat}
    (hchain : (x :: l).IsChain (Linked h.pcb_next h.pcb_prev))
    (htail : tailPtr (x :: l) = .to t) (hpt : p ≠ .to t) (hnodup : (x :: l).Nodup)
    (hfuel : l.length < fuel) :
    (searchProcQ (.to t) p fuel (.to x)).run h =
      .ok (if p ∈ (x :: l).map .to then p else .to t) h := by
  induction l generalizing x fuel with
  | nil =>
    obtain rfl : x = t := by simpa [tailPtr] using htail
    cases fuel with
    | zero => omega
    | succ fuel => simp [searchProcQ, hpt]
  | cons y l ih =>
    cases fuel with
    | zero => omega
    | succ fuel =>
      rw [List.isChain_cons_cons] at hchain
      have htail' : tailPtr (y :: l) = .to t := by
        rw [← htail]
        exact (tailPtr_append_cons [x] l y).symm
      have hxt : x ≠ t := by
        rintro rfl
        obtain ⟨m, hm⟩ := exists_concat_of_tailPtr htail'
        have hmem : x ∈ y :: l := by simp [hm]
        exact (List.nodup_cons.mp hnodup).1 hmem
      by_cases hxp : Ptr.to x = p
      · subst hxp
        simp [searchProcQ]
      · have hstep := ih hchain.2 htail' (List.nodup_cons.mp hnodup).2
          (show _ < fuel by simp only [List.length_cons] at hfuel; omega)
        have hmem : p ∈ (x :: y :: l).map .to ↔ p ∈ (y :: l).map .to := by
          simp [Ne.symm hxp]
        simp only [searchProcQ, hmem]
        simpa [hxt, hxp, hchain.1.1] using hstep

theorem run_unlinkProcQ {h : Heap} {p x y : Pid} (hnext : h.pcb_next p = .to x)
    (hprev : h.pcb_prev p = .to y) (hyp : y ≠ p) :
    (unlinkProcQ (.to p)).run h = .ok ()
      (h.withLinks (Function.update h.pcb_next y (.to x))
        (Function.update h.pcb_prev x (.to y))) := by
  simp [unlinkProcQ, hnext, hprev, Heap.putNext, Heap.putPrev, Heap.withLinks, hyp.symm]

/-- Removing a pcb that is on the queue, at any position. -/
theorem outProcQ_spec {h : Heap} {tp : PcbPtr} {a b : List Pid} {p : Pid}
    (hring : Ring h.pcb_next h.pcb_prev tp (a ++ p :: b)) :
    ∃ next prev, (outProcQ tp (.to p)).run h =
        .ok (.to p, tailPtr (a ++ b)) (h.withLinks next prev) ∧
      Ring next prev (tailPtr (a ++ b)) (a ++ b) ∧ h.LinksOff next prev (a ++ b) := by
  have hnodup := hring.nodup
  rcases hc : b ++ a with - | ⟨x, c⟩
  · -- the only element
    obtain ⟨rfl, rfl⟩ := List.append_eq_nil_iff.mp hc
    obtain rfl : tp = .to p := hring.tail
    have hself := (hring.tail_head (x := p) (t := p) (l := []) rfl).1
    refine ⟨h.pcb_next, h.pcb_prev, ?_, Ring.nil, fun x _ => ⟨rfl, rfl⟩⟩
    simp [outProcQ, emptyProcQ, hself, mkEmptyProcQ, Heap.withLinks]
  obtain ⟨m, y, hm⟩ := List.eq_nil_or_concat (x :: c) |>.resolve_left (by simp)
  have hx : headPtr (b ++ a) = .to x := by simp [hc]
  have hy : tailPtr (b ++ a) = .to y := by simp [hc, hm]
  have hmem : ∀ z, z ∈ b ++ a ↔ z ∈ a ++ b := fun z => by simp [or_comm]
  have hxmem : x ∈ a ++ b := (hmem x).mp (by simp [hc])
  have hymem : y ∈ a ++ b := (hmem y).mp (by simp [hc, hm])
  have hpmem : p ∉ a ++ b := by
    simp only [List.nodup_append, List.nodup_cons, List.mem_append] at hnodup ⊢
    grind
  have hxp : x ≠ p := fun heq => hpmem (heq ▸ hxmem)
  have hyp : y ≠ p := fun heq => hpmem (heq ▸ hymem)
  obtain ⟨hnext, hprev⟩ := hring.neighbours hx hy
  have hunlink := run_unlinkProcQ hnext hprev hyp
  refine ⟨Function.update h.pcb_next y (.to x), Function.update h.pcb_prev x (.to y), ?_, ?_, ?_⟩
  · rcases List.eq_nil_or_concat' b with rfl | ⟨b', t, rfl⟩
    · -- the tail
      obtain rfl : tp = .to p := by simpa using hring.tail
      have hne : h.pcb_next p ≠ .to p := by simpa [hnext] using hxp
      have htail : tailPtr a = .to y := by simpa using hy
      simp [outProcQ, emptyProcQ, hne, hunlink, htail, Heap.withLinks, hprev, hxp.symm]
    · -- before the tail
      have htail : tp = .to t := by
        rw [hring.tail, ← List.cons_append, ← List.append_assoc]
        exact tailPtr_concat _ t
      subst htail
      have htb : t ∈ a ++ (b' ++ [t]) := by simp
      have htp : t ≠ p := fun heq => hpmem (heq ▸ htb)
      have hlist : tailPtr (a ++ p :: (b' ++ [t])) = .to t := hring.tail.symm
      have hsearch : (searchProcQ (.to t) (.to p) (MAXPROC + 1)
          (headPtr (a ++ p :: (b' ++ [t])))).run h = .ok (.to p) h := by
        cases hab : a ++ p :: (b' ++ [t]) with
        | nil => simp at hab
        | cons z d =>
          rw [hab] at hlist hnodup
          have hchain : (z :: d).IsChain (Linked h.pcb_next h.pcb_prev) := by
            have := hring.cyclic.left_of_append
            rwa [hab] at this
          have hlen := nodup_length_le hnodup
          have hpz : Ptr.to p ∈ (z :: d).map .to := by simp [← hab]
          have hpt : Ptr.to p ≠ .to t := by simpa using htp.symm
          rw [headPtr_cons, searchProcQ_spec hchain hlist hpt hnodup
            (by simp only [List.length_cons] at hlen; omega), if_pos hpz]
      have hres : tailPtr (a ++ (b' ++ [t])) = .to t := by
        rw [← List.append_assoc]
        exact tailPtr_concat _ t
      simp [outProcQ, emptyProcQ, htp, htp.symm, headProcQ_spec hring, hsearch, hunlink, hres]
  · refine hring.remove hx hy ?_ ?_ ⟨by simp, by simp⟩
    · intro z _ hz
      simp [hz]
    · intro z _ hz
      simp [hz]
  · intro z hz
    have hzx : z ≠ x := fun heq => hz (heq ▸ hxmem)
    have hzy : z ≠ y := fun heq => hz (heq ▸ hymem)
    simp [hzx, hzy]

/-- A pointer to no pcb of the queue is not found, and nothing changes. -/
theorem outProcQ_absent {h : Heap} {tp p : PcbPtr} {l : List Pid}
    (hring : Ring h.pcb_next h.pcb_prev tp l) (hp : ∀ x ∈ l, p ≠ .to x) :
    (outProcQ tp p).run h = .ok (.null, tp) h := by
  cases l with
  | nil =>
    obtain rfl : tp = .null := hring.tail
    simp [outProcQ, emptyProcQ]
  | cons x l =>
    obtain ⟨m, t, hm⟩ := List.eq_nil_or_concat (x :: l) |>.resolve_left (by simp)
    have ht : tailPtr (x :: l) = .to t := by simp [hm]
    obtain rfl : tp = .to t := hring.tail.trans ht
    have htmem : t ∈ x :: l := by simp [hm]
    have htp : Ptr.to t ≠ p := (hp t htmem).symm
    have hlen := nodup_length_le hring.nodup
    have hsearch := searchProcQ_spec (h := h) hring.cyclic.left_of_append ht htp.symm hring.nodup
      (show _ < MAXPROC + 1 by simp only [List.length_cons] at hlen; omega)
    have hnot : p ∉ (x :: l).map .to := by
      intro hmem
      obtain ⟨y, hy, rfl⟩ := List.mem_map.mp hmem
      exact hp y hy rfl
    rw [if_neg hnot] at hsearch
    have hhead : (headProcQ (.to t)).run h = .ok (.to x) h := headProcQ_spec hring
    simp [outProcQ, emptyProcQ, htp, hhead, hsearch]

/-- A pcb that is not on the queue is not found, and nothing changes. -/
theorem outProcQ_not_mem {h : Heap} {tp : PcbPtr} {l : List Pid} {p : Pid}
    (hring : Ring h.pcb_next h.pcb_prev tp l) (hp : p ∉ l) :
    (outProcQ tp (.to p)).run h = .ok (.null, tp) h :=
  outProcQ_absent hring fun x hx heq => hp (by cases heq; exact hx)

/-- Removing from an empty queue. -/
theorem removeProcQ_nil {h : Heap} :
    (removeProcQ .null).run h = .ok (.null, .null) h := by
  simp [removeProcQ, headProcQ, outProcQ, emptyProcQ]

/-- `removeProcQ` takes the oldest element. -/
theorem removeProcQ_cons {h : Heap} {tp : PcbPtr} {p : Pid} {l : List Pid}
    (hring : Ring h.pcb_next h.pcb_prev tp (p :: l)) :
    ∃ next prev, (removeProcQ tp).run h = .ok (.to p, tailPtr l) (h.withLinks next prev) ∧
      Ring next prev (tailPtr l) l ∧ h.LinksOff next prev l := by
  obtain ⟨next, prev, hrun, hring', hoff⟩ := outProcQ_spec (a := []) hring
  refine ⟨next, prev, ?_, hring', hoff⟩
  simp [removeProcQ, headProcQ_spec hring]
  simpa using hrun

end Kaya
