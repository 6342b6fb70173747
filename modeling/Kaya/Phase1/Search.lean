import Kaya.Phase1.Represents

open Links

namespace Kaya

/-- The pointer to the first of the remaining active descriptors, or to the
dummy node behind them. -/
def nodePtr : List Sid → SemdPtr
  | [] => .to semdMax
  | i :: _ => .to i

theorem segment_eq_nodePtr {next : Sid → SemdPtr} {p : SemdPtr} {l : List Sid}
    (h : Segment next p l (.to semdMax)) : p = nodePtr l := by
  cases l with
  | nil => exact h
  | cons i l => exact h.1

/-- The active list behind `z` cut at the place of the address `a`: `w` is the
descriptor before the cut. -/
structure Cut (h : Heap) (z : Sid) (ids : List Sid) (m : FifoMap Word Pid) (a : Word)
    (c : List Sid) (w : Sid) (behind : List Sid) (lo hi : FifoMap Word Pid) : Prop where
  ids_eq : z :: ids = c ++ w :: behind
  map_eq : m = lo ++ hi
  before : List.Forall₂ h.Entry (c ++ [w]).tail lo
  after : List.Forall₂ h.Entry behind hi
  lt : ∀ e ∈ lo, e.1 < a
  ge : ∀ e ∈ hi, a ≤ e.1
  next : h.s_next w = nodePtr behind

/-- The key the search compares with next. -/
def nextKey : FifoMap Word Pid → Word
  | [] => MAXINT
  | e :: _ => e.1

theorem load_nodePtr {h : Heap} {ids : List Sid} {m : FifoMap Word Pid}
    (hent : List.Forall₂ h.Entry ids m) (hmax : h.s_semAdd semdMax = MAXINT) :
    (load Heap.s_semAdd (nodePtr ids)).run h = .ok (nextKey m) h := by
  cases hent with
  | nil => simp [nodePtr, nextKey, hmax]
  | cons hie _ => simp [nodePtr, nextKey, hie.1]

/-- The search stops in front of the first active address that is not below the
one it looks for. -/
theorem searchASLLoop_spec {h : Heap} {z : Sid} {ids : List Sid} {m : FifoMap Word Pid} {a : Word}
    {fuel : Nat} (hactive : Segment h.s_next (.to z) (z :: ids) (.to semdMax))
    (hent : List.Forall₂ h.Entry ids m) (hmax : h.s_semAdd semdMax = MAXINT)
    (hm : FifoMap.WF m) (ha : a ≤ MAXINT) (hfuel : ids.length < fuel) :
    ∃ c w behind lo hi, Cut h z ids m a c w behind lo hi ∧
      (searchASLLoop a fuel (.to z)).run h = .ok (.to w) h := by
  have hstop : ∀ fuel z ids m, Segment h.s_next (.to z) (z :: ids) (.to semdMax) →
      List.Forall₂ h.Entry ids m → FifoMap.WF m → ¬ nextKey m < a →
      Cut h z ids m a [] z ids [] m ∧
        (searchASLLoop a (fuel + 1) (.to z)).run h = .ok (.to z) h := by
    intro fuel z ids m hactive hent hm hkey
    have hnext : h.s_next z = nodePtr ids := segment_eq_nodePtr hactive.2
    refine ⟨⟨rfl, rfl, List.Forall₂.nil, hent, by simp, ?_, hnext⟩, ?_⟩
    · intro e he
      cases m with
      | nil => simp at he
      | cons e' m =>
        have hle : a ≤ e'.1 := not_lt.mp hkey
        rcases List.mem_cons.mp he with rfl | he
        · exact hle
        · exact hle.trans ((FifoMap.wf_cons.mp hm).2.1 e he).le
    · simp only [searchASLLoop, EStateM.run_bind, run_load_to, hnext, load_nodePtr hent hmax,
        if_neg hkey, EStateM.run_pure]
  induction ids generalizing z m fuel with
  | nil =>
    obtain rfl : m = [] := by simpa using hent
    obtain ⟨fuel, rfl⟩ : ∃ n, fuel = n + 1 := ⟨fuel - 1, by simp at hfuel; omega⟩
    exact ⟨_, _, _, _, _, hstop fuel z [] [] hactive hent hm (not_lt.mpr ha)⟩
  | cons i ids ih =>
    obtain ⟨fuel, rfl⟩ : ∃ n, fuel = n + 1 := ⟨fuel - 1, by simp at hfuel; omega⟩
    by_cases hkey : nextKey m < a
    · cases hent with
      | @cons _ e _ m hie hent =>
        obtain ⟨hs, -, hw⟩ := FifoMap.wf_cons.mp (show FifoMap.WF ((e.1, e.2) :: m) from hm)
        have hseg : Segment h.s_next (.to i) (i :: ids) (.to semdMax) := ⟨rfl, hactive.2.2⟩
        obtain ⟨c, w, behind, lo, hi, hcut, hrun⟩ := ih hseg hent hw
          (show _ < fuel by simp only [List.length_cons] at hfuel; omega)
        refine ⟨z :: c, w, behind, e :: lo, hi, ⟨?_, ?_, ?_, hcut.after, ?_, hcut.ge, hcut.next⟩, ?_⟩
        · rw [hcut.ids_eq, List.cons_append]
        · rw [hcut.map_eq, List.cons_append]
        · have hci : c ++ [w] = i :: (c ++ [w]).tail := by
            have hhead := congrArg List.head? hcut.ids_eq
            cases c with
            | nil => simpa using hhead.symm
            | cons j c => simpa using hhead.symm
          rw [List.cons_append, List.tail_cons, hci]
          exact List.Forall₂.cons hie hcut.before
        · intro e' he'
          rcases List.mem_cons.mp he' with rfl | he'
          · exact hkey
          · exact hcut.lt e' he'
        · have hnext : h.s_next z = nodePtr (i :: ids) := segment_eq_nodePtr hactive.2
          simp only [searchASLLoop, EStateM.run_bind, run_load_to, hnext,
            load_nodePtr (List.Forall₂.cons hie hent) hmax, if_pos hkey]
          exact hrun
    · exact ⟨_, _, _, _, _, hstop fuel z (i :: ids) m hactive hent hm hkey⟩

theorem AslRep.length_eq {h : Heap} {ids fr : List Sid} {m : FifoMap Word Pid}
    (hasl : AslRep h ids fr m) : ids.length + fr.length = MAXPROC := by
  have hperm : (semdZero :: semdMax :: (ids ++ fr)).Perm (List.finRange (MAXPROC + 2)) := by
    refine (List.perm_ext_iff_of_nodup ?_ (List.nodup_finRange _)).mpr ?_
    · have hz : semdZero ∉ ids ++ fr := fun hmem => ((hasl.cover _).mp hmem).1 rfl
      have hm : semdMax ∉ ids ++ fr := fun hmem => ((hasl.cover _).mp hmem).2 rfl
      have hzm : semdZero ≠ semdMax := by decide
      simp only [List.nodup_cons, List.mem_cons, not_or]
      exact ⟨⟨hzm, hz⟩, hm, hasl.nodup⟩
    · intro i
      simp only [List.mem_cons, hasl.cover, List.mem_finRange, iff_true]
      tauto
  have hlen := hperm.length_eq
  simp only [List.length_cons, List.length_append, List.length_finRange] at hlen
  omega

/-- `searchASL` on an address other than `NULL` that no dummy node passes. -/
theorem searchASL_spec {h : Heap} {ids fr : List Sid} {m : FifoMap Word Pid} {a : Word}
    (hasl : AslRep h ids fr m) (hm : FifoMap.WF m) (ha : a < MAXINT) :
    ∃ c w behind lo hi, Cut h semdZero ids m a c w behind lo hi ∧
      (searchASL a).run h = .ok (.to w) h := by
  have hne : a ≠ NULL := by
    rintro rfl
    exact absurd ha (by decide)
  have hlen := hasl.length_eq
  obtain ⟨c, w, behind, lo, hi, hcut, hrun⟩ := searchASLLoop_spec hasl.active hasl.entries
    hasl.keys.2 hm ha.le (show _ < MAXPROC + 3 by omega)
  refine ⟨c, w, behind, lo, hi, hcut, ?_⟩
  simp only [searchASL, if_neg hne, EStateM.run_bind, EStateM.run_get, hasl.head, hrun]

end Kaya
