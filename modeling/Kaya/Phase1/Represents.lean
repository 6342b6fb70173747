import Kaya.Links.Siblings
import Kaya.Phase1.Asl
import Kaya.Phase1.ProcQ
import Kaya.Phase1.Queues.Preserve

open Links

namespace Kaya

/-- Descriptor `i` holds one entry of the semaphore map: its address and the
ring of its queue. -/
def Heap.Entry (h : Heap) (i : Sid) (e : Word × List Pid) : Prop :=
  h.s_semAdd i = e.1 ∧ Ring h.pcb_next h.pcb_prev (h.s_procQ i) e.2

/-- The active descriptors are `ids`, linked between the dummy nodes, and hold
the entries of `m`; all other descriptors are on the free list `fr`. -/
structure AslRep (h : Heap) (ids fr : List Sid) (m : FifoMap Word Pid) : Prop where
  head : h.semdActive_h = .to semdZero
  active : Segment h.s_next (.to semdZero) (semdZero :: ids) (.to semdMax)
  free : Segment h.s_next h.semdFree_h fr .null
  nodup : (ids ++ fr).Nodup
  cover : ∀ i, i ∈ ids ++ fr ↔ i ≠ semdZero ∧ i ≠ semdMax
  keys : h.s_semAdd semdZero = 0 ∧ h.s_semAdd semdMax = MAXINT
  noProcs : h.s_procQ semdZero = .null ∧ h.s_procQ semdMax = .null
  entries : List.Forall₂ h.Entry ids m

/-- The heap holds the lists, queues and trees of `q`. -/
structure Represents (h : Heap) (q : Queues) : Prop where
  free : Segment h.pcb_next h.pcb_FREE_h q.free .null
  ready : Ring h.pcb_next h.pcb_prev h.readyQueue q.ready
  asl : ∃ ids fr, AslRep h ids fr q.asl
  children : ∀ p ∉ q.free, Siblings h.pcb_nextSib h.pcb_prevSib (h.pcb_child p) (q.children p)
  parent : h.pcb_parent = q.parent
  roots : ∀ p ∉ q.free, q.parent p = .zero → h.pcb_nextSib p = .null ∧ h.pcb_prevSib p = .null
  semAdd : h.pcb_semAdd = q.semAdd
  states : h.pcb_states = q.states
  rom : ∀ p, h.rom ≠ .to p

theorem List.Forall₂.of_mem_left {α β : Type} {R : α → β → Prop} {l : List α} {m : List β} {a : α}
    (h : List.Forall₂ R l m) (ha : a ∈ l) : ∃ b ∈ m, R a b := by
  induction h with
  | nil => simp at ha
  | cons hab _ ih =>
    rcases List.mem_cons.mp ha with rfl | ha
    · exact ⟨_, List.mem_cons_self, hab⟩
    · obtain ⟨b, hb, hR⟩ := ih ha
      exact ⟨b, List.mem_cons_of_mem _ hb, hR⟩

/-- Entries survive changes that leave their descriptors and the links of their
queued pcbs alone. -/
theorem Heap.entries_congr {h h' : Heap} {ids : List Sid} {m : FifoMap Word Pid}
    (hent : List.Forall₂ h.Entry ids m)
    (hids : ∀ i ∈ ids, h'.s_semAdd i = h.s_semAdd i ∧ h'.s_procQ i = h.s_procQ i)
    (hlinks : ∀ x ∈ FifoMap.values m, h'.pcb_next x = h.pcb_next x ∧ h'.pcb_prev x = h.pcb_prev x) :
    List.Forall₂ h'.Entry ids m := by
  induction hent with
  | nil => exact List.Forall₂.nil
  | @cons i e ids m hie _ ih =>
    refine List.Forall₂.cons ?_ (ih (fun j hj => hids j (List.mem_cons_of_mem _ hj)) ?_)
    · obtain ⟨hkey, hq⟩ := hids i List.mem_cons_self
      refine ⟨hkey.trans hie.1, ?_⟩
      rw [hq]
      exact hie.2.congr (fun x hx => (hlinks x (List.mem_append_left _ hx)).1)
        (fun x hx => (hlinks x (List.mem_append_left _ hx)).2)
    · exact fun x hx => hlinks x (List.mem_append_right _ hx)

theorem AslRep.congr {h h' : Heap} {ids fr : List Sid} {m : FifoMap Word Pid}
    (hasl : AslRep h ids fr m) (hactive : h'.semdActive_h = h.semdActive_h)
    (hfree : h'.semdFree_h = h.semdFree_h) (hnext : h'.s_next = h.s_next)
    (hkeys : h'.s_semAdd = h.s_semAdd) (hprocQ : h'.s_procQ = h.s_procQ)
    (hlinks : ∀ x ∈ FifoMap.values m, h'.pcb_next x = h.pcb_next x ∧ h'.pcb_prev x = h.pcb_prev x) :
    AslRep h' ids fr m where
  head := hactive.trans hasl.head
  active := by rw [hnext]; exact hasl.active
  free := by rw [hnext, hfree]; exact hasl.free
  nodup := hasl.nodup
  cover := hasl.cover
  keys := by rw [hkeys]; exact hasl.keys
  noProcs := by rw [hprocQ]; exact hasl.noProcs
  entries := by
    refine Heap.entries_congr hasl.entries (fun i _ => ?_) hlinks
    rw [hkeys, hprocQ]
    exact ⟨rfl, rfl⟩

/-- A heap that differs in queue links only, and only on pcbs that are in no
place, represents the same queues. -/
theorem Represents.asl_congr {h h' : Heap} {q : Queues} (hrep : Represents h q)
    (hactive : h'.semdActive_h = h.semdActive_h)
    (hfree : h'.semdFree_h = h.semdFree_h) (hnext : h'.s_next = h.s_next)
    (hkeys : h'.s_semAdd = h.s_semAdd) (hprocQ : h'.s_procQ = h.s_procQ)
    (hlinks : ∀ x ∈ FifoMap.values q.asl,
      h'.pcb_next x = h.pcb_next x ∧ h'.pcb_prev x = h.pcb_prev x) :
    ∃ ids fr, AslRep h' ids fr q.asl := by
  obtain ⟨ids, fr, hasl⟩ := hrep.asl
  exact ⟨ids, fr, hasl.congr hactive hfree hnext hkeys hprocQ hlinks⟩

end Kaya
