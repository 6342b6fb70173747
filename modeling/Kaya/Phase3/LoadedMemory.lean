import Kaya.Phase3.LoadRuns
import Kaya.Phase3.UserMemory

open Exec

namespace Kaya

open Phase3

variable {β : Type} {S : Setup} {tapes : Word → List β} {l : LoadTrace β}
  {g : Word → Point} {s s' : Phase3 β} {t u ID page : Word} {p x : Point} {o : Op} {r : o.Answer}
  {a : Word} {w : Swap} {v : Word} {i j k : Nat} {c c' : UserPool β} {m : Word × Word → β}
  {e : Happening Word UserEntry Op}

namespace Point

/-- The address whose page the pager has not mapped yet. -/
def misses : Point → Option Word
  | fault a => some a
  | next a => some a
  | advance a _ => some a
  | victim a _ => some a
  | entry a _ _ => some a
  | unmap a _ _ _ => some a
  | disk (.evict a _ _) _ => some a
  | disk (.fetch a _) _ => some a
  | swapIn a _ => some a
  | map a _ => some a
  | _ => none

/-- The frame from which the pager has taken the page and which it has not mapped again. -/
def empties : Point → Option Nat
  | disk (.evict _ i _) _ => some i
  | disk (.fetch _ i) _ => some i
  | swapIn _ i => some i
  | map _ i => some i
  | _ => none

/-- The frame whose page is neither mapped nor on the disk, with its old entry. -/
def leaves : Point → Option (Nat × Swap)
  | disk (.evict _ _ _) .unlock => none
  | disk (.evict _ i w) _ => some (i, w)
  | _ => none

/-- The page that has come into a frame and is not mapped yet. -/
def brings : Point → Option (Word × Nat)
  | disk (.fetch a i) .unlock => some (a, i)
  | swapIn a i => some (a, i)
  | map a i => some (a, i)
  | _ => none

/-- The process is in `uProcInit`. -/
def Boots : Point → Prop
  | boot => True
  | tape _ => True
  | disk (.store _) _ => True
  | check _ => True
  | finish => True
  | _ => False

end Point

/-- An operation that takes no page from its frame and brings none. -/
structure Follows (p x : Point) : Prop where
  misses : ∀ a, x.misses = some a → p.misses = some a
  empties : ∀ i, p.empties = some i → x.empties = some i
  leaves : x.leaves = p.leaves
  brings : ∀ y, x.brings = some y → p.brings = some y
  boots : x.Boots → p.Boots

/-- The next operation moves a page between a frame and the disk or changes a page table. -/
def Point.Moving : Point → Prop
  | disk (.evict _ _ _) .transfer => True
  | disk (.fetch _ _) .transfer => True
  | unmap _ _ _ _ => True
  | map _ _ => True
  | _ => False

/-- Of all operations only four have to do with the contents of pages. -/
theorem Moves.follows (h : Moves S ID p o r x) (hno : ¬ p.Moving) : Follows p x := by
  cases h with
  | @transfer j =>
    cases j with
    | store k => exact ⟨fun _ => id, fun _ => id, rfl, fun _ => id, id⟩
    | _ => exact absurd trivial hno
  | @lock j | @seek j | @unlock j =>
    cases j <;> exact ⟨fun _ => id, fun _ => id, rfl, fun _ => id, id⟩
  | check | victim =>
    split <;> exact ⟨by simp [Point.misses], by simp [Point.empties], rfl,
      by simp [Point.brings], by simp [Point.Boots]⟩
  | unmap | map => exact absurd trivial hno
  | _ => exact ⟨by simp [Point.misses], by simp [Point.empties], rfl,
      by simp [Point.brings], by simp [Point.Boots]⟩

/-- A process that does not have `swap` has nothing to do with the frames. -/
theorem apart_of_waiting (h : Sem.swap ∈ p.held ID → p.awaited ID = some .swap) :
    p.empties = none ∧ p.leaves = none ∧ p.brings = none := by
  cases p with
  | disk j stage =>
    cases j with
    | store k => exact ⟨rfl, rfl, rfl⟩
    | _ => cases stage <;> exact absurd (h (by simp [Point.held])) (by simp [Point.awaited])
  | swapIn | map => exact absurd (h (by simp [Point.held])) (by simp [Point.awaited])
  | _ => exact ⟨rfl, rfl, rfl⟩

/-- The frame of a page that has come in. -/
theorem pages_of_brings {T : List β} (h : Pages S T l s ID p) (hbrings : p.brings = some (a, i)) :
    p.misses = some a ∧ i < S.SWAPSIZE ∧ Unmapped S s i := by
  cases p with
  | disk j stage =>
    cases j with
    | fetch =>
      cases stage with
      | unlock =>
        cases hbrings
        exact ⟨rfl, h.1⟩
      | _ => exact absurd hbrings (by simp [Point.brings])
    | _ => cases stage <;> exact absurd hbrings (by simp [Point.brings])
  | swapIn =>
    cases hbrings
    exact ⟨rfl, h.1⟩
  | map =>
    cases hbrings
    exact ⟨rfl, h.1.1⟩
  | _ => exact absurd hbrings (by simp [Point.brings])

/-- Where the pages of the memory `m` are while the processes are at their points. -/
structure Remembers (S : Setup) (g : Word → Point) (s : Phase3 β) (m : Word × Word → β) :
    Prop where
  /-- A page that is being brought in is not mapped yet. -/
  missing : ∀ u a, (g u).misses = some a → ¬ s.IsValid (.uProc_pte u (pageOf a))
  /-- A frame in use is mapped unless the pager works on it. -/
  frames : ∀ i < S.SWAPSIZE, s.Occupied i → (∃ u, (g u).empties = some i) ∨
    (s.IsValid (s.swapPool i).sw_pte ∧
      frameNumber (s.entryLO (s.swapPool i).sw_pte) = swapAddress S i)
  /-- Before its code is loaded a process has no page in a frame. -/
  fresh : ∀ u, s.started u = false ∨ (g u).Boots → ∀ i < S.SWAPSIZE, s.Occupied i →
    (s.swapPool i).sw_asid ≠ u
  leaving : ∀ u i w, (g u).leaves = some (i, w) → (i < S.SWAPSIZE ∧ s.swapPool i = w ∧
    s.Occupied i) ∧ ¬ s.IsValid w.sw_pte ∧ s.page (swapAddress S i) = m (w.sw_asid, w.sw_pgNum)
  bringing : ∀ u a i, (g u).brings = some (a, i) → s.page (swapAddress S i) = m (u, pageOf a)
  mapped : ∀ u page, s.IsValid (.uProc_pte u page) →
    s.page (frameNumber (s.entryLO (.uProc_pte u page))) = m (u, page)
  stored : ∀ u page, ¬ s.IsValid (.uProc_pte u page) →
    (∀ v i w, (g v).leaves = some (i, w) → ¬ (w.sw_asid = u ∧ w.sw_pgNum = page)) →
    s.block page 0 (u - 1) = m (u, page)

/-- What the points of the processes have, they had before. -/
theorem update_point {γ : Type} {f : Point → Option γ} {P : Word → γ → Prop}
    (ht : ∀ y, f x = some y → P t y) (h : ∀ u y, f (g u) = some y → P u y) :
    ∀ u y, f (Function.update g t x u) = some y → P u y := by
  refine (Function.forall_update_iff g fun u p => ∀ y, f p = some y → P u y).mpr ?_
  exact ⟨ht, fun u _ => h u⟩

section

variable (h : Remembers S g s m) (hframes : FramesKept S tapes l g s)

include hframes

/-- Only pages of `kUseg2` are mapped, each of them in a frame of its own. -/
theorem FramesKept.valid {q : PtePtr} (hvalid : s.IsValid q) : ∃ i < S.SWAPSIZE, ∃ u page,
    q = .uProc_pte u page ∧ s.Occupied i ∧ s.swapPool i = pageEntry u page ∧
      frameNumber (s.entryLO q) = swapAddress S i := by
  obtain ⟨i, hi, ⟨hoccupied, hpte⟩, hframe⟩ := hframes.entries q hvalid
  obtain ⟨u, a, -, hswap, -⟩ := hframes.frames i hi hoccupied
  refine ⟨i, hi, u, pageOf a, ?_, hoccupied, hswap, hframe⟩
  rw [← hpte, hswap]
  rfl

/-- Two pages that are mapped to one frame are one page. -/
theorem FramesKept.valid_inj {q q' : PtePtr} (hvalid : s.IsValid q) (hvalid' : s.IsValid q')
    (hsame : frameNumber (s.entryLO q) = frameNumber (s.entryLO q')) : q = q' := by
  obtain ⟨i, hi, hholds, hframe⟩ := hframes.entries q hvalid
  obtain ⟨j, hj, hholds', hframe'⟩ := hframes.entries q' hvalid'
  obtain rfl := swapAddress_inj hi hj (hframe.symm.trans (hsame.trans hframe'))
  exact hholds.2.symm.trans hholds'.2

include h

/-- A page of a process that is still to be loaded is not mapped. -/
theorem Remembers.unmapped (hfresh : s.started u = false ∨ (g u).Boots) :
    ¬ s.IsValid (.uProc_pte u page) := by
  intro hvalid
  obtain ⟨i, hi, u', page', hq, hoccupied, hswap, -⟩ := hframes.valid hvalid
  obtain ⟨rfl, rfl⟩ := PtePtr.uProc_pte.inj hq
  exact h.fresh u hfresh i hi hoccupied (by rw [hswap]; rfl)

/-- Neither the tables nor the disk change, and of the pages none in a frame. -/
theorem Remembers.move (hpool : s'.swapPool = s.swapPool)
    (hentry : ∀ q, s'.entryLO q = s.entryLO q) (hblock : s'.block = s.block)
    (hpage : ∀ i < S.SWAPSIZE, s'.page (swapAddress S i) = s.page (swapAddress S i))
    (hmisses : ∀ a, x.misses = some a → ¬ s.IsValid (.uProc_pte t (pageOf a)))
    (hempties : ∀ i, (g t).empties = some i → x.empties = some i)
    (hleaves : x.leaves = (g t).leaves)
    (hbrings : ∀ y, x.brings = some y → (g t).brings = some y)
    (hfresh : s'.started t = false ∨ x.Boots → s.started t = false ∨ (g t).Boots)
    (hothers : ∀ u, u ≠ t → s'.started u = s.started u) :
    Remembers S (Function.update g t x) s' m := by
  have hvalid : ∀ q, s'.IsValid q ↔ s.IsValid q := fun q => by rw [IsValid, hentry, IsValid]
  have hleaves' : ∀ u, (Function.update g t x u).leaves = (g u).leaves := by
    refine (Function.forall_update_iff g fun u p => p.leaves = (g u).leaves).mpr ?_
    exact ⟨hleaves, fun _ _ => rfl⟩
  refine ⟨?_, fun i hi hoccupied => ?_, ?_, fun u i w hu => ?_, fun u a i hu => ?_,
    fun u page hpage' => ?_, fun u page hpage' hnot => ?_⟩
  · refine update_point (fun a ha => ?_) fun u a ha => ?_
    · exact (hvalid _).not.mpr (hmisses a ha)
    · exact (hvalid _).not.mpr (h.missing u a ha)
  · rw [Occupied, hpool] at hoccupied
    rw [hpool, hvalid, hentry]
    refine (h.frames i hi hoccupied).imp_left (Exists.imp fun u hu => ?_)
    by_cases hut : u = t
    · subst hut
      rw [Function.update_self]
      exact hempties i hu
    · rwa [Function.update_of_ne hut]
  · simp only [Occupied, hpool]
    refine (Function.forall_update_iff g fun u p => s'.started u = false ∨ p.Boots →
      ∀ i < S.SWAPSIZE, s.Occupied i → (s.swapPool i).sw_asid ≠ u).mpr ?_
    refine ⟨fun ht => h.fresh t (hfresh ht), fun u hut hu => h.fresh u ?_⟩
    rwa [hothers u hut] at hu
  · obtain ⟨⟨hi, hswap, hoccupied⟩, hw, hm⟩ := h.leaving u i w ((hleaves' u).symm.trans hu)
    rw [Occupied, hpool, hvalid, hpage i hi]
    exact ⟨⟨hi, hswap, hoccupied⟩, hw, hm⟩
  · have hbefore : (g u).brings = some (a, i) :=
      update_point (P := fun u y => (g u).brings = some y) hbrings (fun _ _ => id) u _ hu
    obtain ⟨-, hi, -⟩ := pages_of_brings (hframes.pages u) hbefore
    rw [hpage i hi]
    exact h.bringing u a i hbefore
  · rw [hvalid] at hpage'
    obtain ⟨i, hi, -, -, -, -, -, hframe⟩ := hframes.valid hpage'
    rw [hentry, hframe, hpage i hi, ← hframe]
    exact h.mapped u page hpage'
  · rw [hblock]
    refine h.stored u page ((hvalid _).not.mp hpage') fun v i w hv => hnot v i w ?_
    exact (hleaves' v).trans hv

/-- The page that leaves a frame. -/
theorem Remembers.leaves (hu : (g u).leaves = some (i, w)) : ∃ owner page,
    w = pageEntry owner page ∧ i < S.SWAPSIZE ∧ s.swapPool i = w ∧ s.Occupied i ∧
      ¬ s.IsValid (.uProc_pte owner page) ∧ s.page (swapAddress S i) = m (owner, page) := by
  obtain ⟨⟨hi, hw, hoccupied⟩, hvalid, hm⟩ := h.leaving u i w hu
  obtain ⟨owner, b, -, hswap, -⟩ := hframes.frames i hi hoccupied
  obtain rfl : w = pageEntry owner (pageOf b) := hw.symm.trans hswap
  exact ⟨owner, pageOf b, rfl, hi, hw, hoccupied, hvalid, hm⟩

omit h in
/-- The page of an address that a process can access. -/
theorem FramesKept.accessed (hseg : SEG2 ≤ a) (hmapped : s.Mapped t a) :
    s.IsValid (.uProc_pte t (pageOf a)) ∧
      s.pageAt t a = frameNumber (s.entryLO (.uProc_pte t (pageOf a))) := by
  have hvalid : s.IsValid (pteOf t a) := hmapped hseg
  have hpte : pteOf t a = .uProc_pte t (pageOf a) := by
    refine pteOf_private fun hthree => ?_
    obtain ⟨i, hi, u, page, hq, -⟩ := hframes.valid hvalid
    rw [pteOf, if_pos hthree] at hq
    exact absurd hq (by simp)
  rw [hpte] at hvalid
  refine ⟨hvalid, ?_⟩
  rw [pageAt, if_pos hseg, hpte, frameNumber]

/-- A process stores to a page of its own. -/
theorem Remembers.store {y : β} (hseg : SEG2 ≤ a) (hmapped : s.Mapped t a) :
    Remembers S g (s.setPage (s.pageAt t a) y) (Function.update m (t, pageOf a) y) := by
  obtain ⟨hown, haddress⟩ := hframes.accessed hseg hmapped
  rw [haddress]
  generalize pageOf a = page at hown
  have hentry : ∀ q, (s.setPage (frameNumber (s.entryLO (.uProc_pte t page))) y).entryLO q =
      s.entryLO q := by
    intro q
    cases q <;> rfl
  have hother : ∀ {u page'}, ¬ s.IsValid (.uProc_pte u page') → (u, page') ≠ (t, page) := by
    rintro u page' hnot hsame
    obtain ⟨rfl, rfl⟩ := Prod.mk.inj hsame
    exact hnot hown
  refine ⟨fun u b hu => ?_, fun j hj hj' => ?_, h.fresh, fun u j w hu => ?_, fun u b j hu => ?_,
    fun u page' hvalid => ?_, fun u page' hvalid hnot => ?_⟩
  · rw [IsValid, hentry]
    exact h.missing u b hu
  · rw [IsValid, hentry]
    exact h.frames j hj hj'
  · obtain ⟨owner, page', rfl, hj, hw, hoccupied, hvalid, hm⟩ := h.leaves hframes hu
    rw [IsValid, hentry]
    refine ⟨⟨hj, hw, hoccupied⟩, hvalid, ?_⟩
    have hne : swapAddress S j ≠ frameNumber (s.entryLO (.uProc_pte t page)) := by
      intro heq
      obtain ⟨i, hi, u', page'', hq, -, hswap, hframe⟩ := hframes.valid hown
      obtain rfl := swapAddress_inj hj hi (heq.trans hframe)
      rw [show PtePtr.uProc_pte owner page' = .uProc_pte t page from
        (congrArg Swap.sw_pte (hw.symm.trans hswap)).trans hq.symm] at hvalid
      exact hvalid hown
    rw [show (pageEntry owner page').sw_asid = owner from rfl,
      show (pageEntry owner page').sw_pgNum = page' from rfl,
      Function.update_of_ne (hother hvalid), ← hm]
    exact Function.update_of_ne hne _ _
  · obtain ⟨hmisses, -, hunmapped⟩ := pages_of_brings (hframes.pages u) hu
    rw [Function.update_of_ne (hother (h.missing u b hmisses)), ← h.bringing u b j hu]
    exact Function.update_of_ne (hunmapped _ hown).symm _ _
  · rw [IsValid, hentry] at hvalid
    rw [hentry]
    by_cases hsame : (u, page') = (t, page)
    · obtain ⟨rfl, rfl⟩ := Prod.mk.inj hsame
      rw [Function.update_self]
      exact Function.update_self _ _ _
    · rw [Function.update_of_ne hsame, ← h.mapped u page' hvalid]
      refine Function.update_of_ne (fun heq => hsame ?_) _ _
      obtain ⟨rfl, rfl⟩ := PtePtr.uProc_pte.inj (hframes.valid_inj hvalid hown heq)
      rfl
  · rw [IsValid, hentry] at hvalid
    rw [Function.update_of_ne (hother hvalid)]
    exact h.stored u page' hvalid hnot

/-- The loader stores a block. -/
theorem Remembers.load {y : β} {cylinder : Word} (hpoint : g t = .disk (.store k) .transfer) :
    Remembers S (Function.update g t (.disk (.store k) .unlock))
      (s.setBlock cylinder 0 (t - 1) y) (Function.update m (t, cylinder) y) := by
  have hboots : s.started t = false ∨ (g t).Boots := .inr (by rw [hpoint]; trivial)
  have hentry : ∀ q, (s.setBlock cylinder 0 (t - 1) y).entryLO q = s.entryLO q := by
    intro q
    cases q <;> rfl
  have hvalid : ∀ q, (s.setBlock cylinder 0 (t - 1) y).IsValid q ↔ s.IsValid q := fun q => by
    rw [IsValid, hentry, IsValid]
  have hother : ∀ u page, u ≠ t → Function.update m (t, cylinder) y (u, page) = m (u, page) :=
    fun u page hut => Function.update_of_ne (fun heq => hut (congrArg Prod.fst heq)) _ _
  refine ⟨?_, fun i hi hoccupied => ?_, ?_, ?_, ?_, fun u page hpage => ?_,
    fun u page hpage hnot => ?_⟩
  · simp only [hvalid]
    exact update_point (by simp [Point.misses]) h.missing
  · rw [hvalid, hentry]
    refine (h.frames i hi hoccupied).imp_left (Exists.imp fun u hu => ?_)
    have hut : u ≠ t := by
      rintro rfl
      rw [hpoint] at hu
      exact absurd hu (by simp [Point.empties])
    rwa [Function.update_of_ne hut]
  · refine (Function.forall_update_iff g fun u p => s.started u = false ∨ p.Boots →
      ∀ i < S.SWAPSIZE, s.Occupied i → (s.swapPool i).sw_asid ≠ u).mpr ?_
    exact ⟨fun _ => h.fresh t hboots, fun u _ => h.fresh u⟩
  · simp only [hvalid]
    intro u i w hu
    have hu : (g u).leaves = some (i, w) :=
      update_point (P := fun u y => (g u).leaves = some y) (by simp [Point.leaves])
        (fun _ _ => id) u (i, w) hu
    obtain ⟨hi, hw, hm⟩ := h.leaving u i w hu
    refine ⟨hi, hw, ?_⟩
    rw [hother _ _ (hi.2.1 ▸ h.fresh t hboots i hi.1 hi.2.2)]
    exact hm
  · intro u a i hu
    by_cases hut : u = t
    · subst hut
      rw [Function.update_self] at hu
      exact absurd hu (by simp [Point.brings])
    · rw [Function.update_of_ne hut] at hu
      rw [hother u _ hut]
      exact h.bringing u a i hu
  · rw [hvalid] at hpage
    rw [hentry, hother u page]
    · exact h.mapped u page hpage
    · rintro rfl
      exact h.unmapped hframes hboots hpage
  · rw [hvalid] at hpage
    have hkept : ∀ v i w, (g v).leaves = some (i, w) → ¬ (w.sw_asid = u ∧ w.sw_pgNum = page) := by
      intro v i w hv
      refine hnot v i w ?_
      have hvt : v ≠ t := by
        rintro rfl
        rw [hpoint] at hv
        exact absurd hv (by simp [Point.leaves])
      rwa [Function.update_of_ne hvt]
    by_cases hsame : (u, page) = (t, cylinder)
    · obtain ⟨rfl, rfl⟩ := Prod.mk.inj hsame
      rw [Function.update_self]
      exact if_pos ⟨rfl, rfl, rfl⟩
    · rw [Function.update_of_ne hsame, ← h.stored u page hpage hkept]
      apply if_neg
      rintro ⟨hcylinder, -, hsector⟩
      apply hsame
      rw [hcylinder, (BitVec.sub_left_inj 1).mp hsector]

section pager

variable (hapart : ∀ u, u ≠ t → (g u).empties = none ∧ (g u).leaves = none ∧ (g u).brings = none)

omit h hframes in
include hapart in
/-- Only the process that has `swap` takes pages from frames. -/
theorem update_leaves (hu : (Function.update g t x u).leaves = some (i, w)) :
    u = t ∧ x.leaves = some (i, w) := by
  by_cases hut : u = t
  · subst hut
    exact ⟨rfl, by rwa [Function.update_self] at hu⟩
  · rw [Function.update_of_ne hut, (hapart u hut).2.1] at hu
    exact absurd hu (by simp)

omit h hframes in
include hapart in
theorem update_brings (hu : (Function.update g t x u).brings = some (a, i)) :
    u = t ∧ x.brings = some (a, i) := by
  by_cases hut : u = t
  · subst hut
    exact ⟨rfl, by rwa [Function.update_self] at hu⟩
  · rw [Function.update_of_ne hut, (hapart u hut).2.2] at hu
    exact absurd hu (by simp)

omit h hframes in
include hapart in
theorem empties_alone (hu : (g u).empties = some i) : (g t).empties = some i := by
  by_cases hut : u = t
  · rwa [hut] at hu
  · rw [(hapart u hut).1] at hu
    exact absurd hu (by simp)

omit hframes in
include hapart in
/-- All frames in use are mapped but that of the process that has `swap`. -/
theorem Remembers.busy (hempties : (g t).empties ≠ some i) (hi : i < S.SWAPSIZE)
    (hoccupied : s.Occupied i) : s.IsValid (s.swapPool i).sw_pte ∧
      frameNumber (s.entryLO (s.swapPool i).sw_pte) = swapAddress S i :=
  (h.frames i hi hoccupied).resolve_left fun ⟨_, hu⟩ => hempties (empties_alone hapart hu)

omit hframes in
include hapart in
/-- The block of a page that is not mapped, while no page leaves its frame. -/
theorem Remembers.block (hleaves : (g t).leaves = none) (hpage : ¬ s.IsValid (.uProc_pte u page)) :
    s.block page 0 (u - 1) = m (u, page) := by
  refine h.stored u page hpage fun v i w hv => ?_
  have hnone : (g v).leaves = none := by
    by_cases hvt : v = t
    · rw [hvt, hleaves]
    · exact (hapart v hvt).2.1
  rw [hnone] at hv
  exact absurd hv (by simp)

omit hframes in
/-- What stays where only the table of the pool is not changed. -/
theorem Remembers.fresh_move (hpool : s'.swapPool = s.swapPool) (hstarted : s'.started = s.started)
    (hx : ¬ x.Boots) (ht : s.started t = true) : ∀ u, s'.started u = false ∨
      (Function.update g t x u).Boots → ∀ i < S.SWAPSIZE, s'.Occupied i →
        (s'.swapPool i).sw_asid ≠ u := by
  simp only [Occupied, hpool, hstarted]
  refine (Function.forall_update_iff g fun u p => s.started u = false ∨ p.Boots →
    ∀ i < S.SWAPSIZE, s.Occupied i → (s.swapPool i).sw_asid ≠ u).mpr ?_
  refine ⟨fun hfalse => ?_, fun u _ => h.fresh u⟩
  rcases hfalse with hfalse | hboots
  · exact absurd (ht.symm.trans hfalse) (by simp)
  · exact absurd hboots hx

include hapart

/-- The pager writes a page back. -/
theorem Remembers.evict (hstarted : s.started t = true)
    (hpoint : g t = .disk (.evict a i w) .transfer) :
    Remembers S (Function.update g t (.disk (.evict a i w) .unlock))
      (s.setBlock w.sw_pgNum 0 (w.sw_asid - 1) (s.page (swapAddress S i))) m := by
  obtain ⟨owner, page, rfl, hi, hw, hoccupied, hgone, hm⟩ :=
    h.leaves hframes (u := t) (i := i) (w := w) (by rw [hpoint]; rfl)
  have hentry : ∀ q, (s.setBlock page 0 (owner - 1) (s.page (swapAddress S i))).entryLO q =
      s.entryLO q := by
    intro q
    cases q <;> rfl
  have hvalid : ∀ q, (s.setBlock page 0 (owner - 1) (s.page (swapAddress S i))).IsValid q ↔
      s.IsValid q := fun q => by rw [IsValid, hentry, IsValid]
  refine ⟨?_, fun j hj hj' => ?_, h.fresh_move rfl rfl id hstarted, fun u j w hu => ?_,
    fun u b j hu => ?_, fun u page' hpage => ?_, fun u page' hpage _ => ?_⟩
  · refine update_point (fun b hb => ?_) fun u b hu => (hvalid _).not.mpr (h.missing u b hu)
    exact (hvalid _).not.mpr (h.missing t b (by rw [hpoint]; exact hb))
  · rcases h.frames j hj hj' with ⟨u, hu⟩ | ⟨hmapped, hframe⟩
    · have hempties := empties_alone hapart hu
      rw [hpoint] at hempties
      exact .inl ⟨t, by rwa [Function.update_self]⟩
    · exact .inr ⟨(hvalid _).mpr hmapped, (congrArg frameNumber (hentry _)).trans hframe⟩
  · exact absurd (update_leaves hapart hu).2 (by simp [Point.leaves])
  · exact absurd (update_brings hapart hu).2 (by simp [Point.brings])
  · exact (congrArg (fun v => s.page (frameNumber v)) (hentry _)).trans
      (h.mapped u page' ((hvalid _).mp hpage))
  · by_cases hsame : page' = page ∧ u = owner
    · obtain ⟨rfl, rfl⟩ := hsame
      exact (if_pos ⟨rfl, rfl, rfl⟩).trans hm
    · refine (if_neg ?_).trans (h.stored u page' ((hvalid _).not.mp hpage) fun v j w hv => ?_)
      · rintro ⟨hpage', -, hsector⟩
        exact hsame ⟨hpage', (BitVec.sub_left_inj 1).mp hsector⟩
      · have hvt : v = t := by
          by_contra hvt
          rw [(hapart v hvt).2.1] at hv
          exact absurd hv (by simp)
        rw [hvt, hpoint] at hv
        cases hv
        exact fun hboth => hsame ⟨hboth.2.symm, hboth.1.symm⟩

omit hframes in
/-- A page has come in from the disk. -/
theorem Remembers.fetch (hstarted : s.started t = true)
    (hpoint : g t = .disk (.fetch a i) .transfer) (hunmapped : Unmapped S s i) :
    Remembers S (Function.update g t (.disk (.fetch a i) .unlock))
      (s.setPage (swapAddress S i) (s.block (pageOf a) 0 (t - 1))) m := by
  have hblock : ∀ {u page}, ¬ s.IsValid (.uProc_pte u page) →
      s.block page 0 (u - 1) = m (u, page) := h.block hapart (by rw [hpoint]; rfl)
  have hentry : ∀ q, (s.setPage (swapAddress S i) (s.block (pageOf a) 0 (t - 1))).entryLO q =
      s.entryLO q := by
    intro q
    cases q <;> rfl
  have hvalid : ∀ q, (s.setPage (swapAddress S i) (s.block (pageOf a) 0 (t - 1))).IsValid q ↔
      s.IsValid q := fun q => by rw [IsValid, hentry, IsValid]
  refine ⟨?_, fun j hj hj' => ?_, h.fresh_move rfl rfl id hstarted, fun u j w hu => ?_,
    fun u b j hu => ?_, fun u page' hpage => ?_, fun u page' hpage _ => ?_⟩
  · refine update_point (fun b hb => ?_) fun u b hu => (hvalid _).not.mpr (h.missing u b hu)
    exact (hvalid _).not.mpr (h.missing t b (by rw [hpoint]; exact hb))
  · rcases h.frames j hj hj' with ⟨u, hu⟩ | ⟨hmapped, hframe⟩
    · have hempties := empties_alone hapart hu
      rw [hpoint] at hempties
      exact .inl ⟨t, by rwa [Function.update_self]⟩
    · exact .inr ⟨(hvalid _).mpr hmapped, (congrArg frameNumber (hentry _)).trans hframe⟩
  · exact absurd (update_leaves hapart hu).2 (by simp [Point.leaves])
  · obtain ⟨rfl, hx⟩ := update_brings hapart hu
    cases hx
    exact (Function.update_self _ _ _).trans (hblock (h.missing u a (by rw [hpoint]; rfl)))
  · rw [hvalid] at hpage
    rw [hentry, ← h.mapped u page' hpage]
    exact Function.update_of_ne (hunmapped _ hpage) _ _
  · exact hblock ((hvalid _).not.mp hpage)

/-- The page in a frame loses its entry. -/
theorem Remembers.unmap (hstarted : s.started t = true) (hpoint : g t = .unmap a i w v)
    (hi : i < S.SWAPSIZE) (hw : s.swapPool i = w) (hoccupied : w.sw_asid ≠ -1) :
    Remembers S (Function.update g t (.disk (.evict a i w) .lock))
      (s.setEntryLO w.sw_pte (v &&& nVALID)) m := by
  have hoccupied' : s.Occupied i := by rwa [Occupied, hw]
  obtain ⟨owner, b, -, hswap, -⟩ := hframes.frames i hi hoccupied'
  obtain rfl : w = pageEntry owner (pageOf b) := hw.symm.trans hswap
  generalize pageOf b = page at *
  change Remembers S _ (s.setEntryLO (.uProc_pte owner page) (v &&& nVALID)) m
  have hempties : ∀ j, (g t).empties ≠ some j := fun j => by simp [hpoint, Point.empties]
  obtain ⟨hmapped, hframe⟩ := h.busy hapart (hempties i) hi hoccupied'
  rw [hswap] at hmapped hframe
  have hentry : ∀ q, (s.setEntryLO (.uProc_pte owner page) (v &&& nVALID)).entryLO q =
      if q = .uProc_pte owner page then v &&& nVALID else s.entryLO q := fun q =>
    entryLO_setEntryLO (by simp)
  have hvalid : ∀ q, (s.setEntryLO (.uProc_pte owner page) (v &&& nVALID)).IsValid q ↔
      q ≠ .uProc_pte owner page ∧ s.IsValid q := by
    intro q
    rw [IsValid, hentry]
    split
    · rw [show nVALID = 0#32 from rfl, BitVec.and_zero]
      exact ⟨fun hfalse => absurd hfalse (by decide), fun hfalse => absurd ‹_› hfalse.1⟩
    · exact ⟨fun hq => ⟨‹_›, hq⟩, And.right⟩
  refine ⟨?_, fun j hj hj' => ?_, h.fresh_move rfl rfl id hstarted, fun u j w hu => ?_,
    fun u b j hu => ?_, fun u page' hpage => ?_, fun u page' hpage hnot => ?_⟩
  · refine update_point (fun b hb hq => ?_) fun u b hu hq => h.missing u b hu ((hvalid _).mp hq).2
    exact h.missing t b (by rw [hpoint]; exact hb) ((hvalid _).mp hq).2
  · by_cases hji : j = i
    · exact .inl ⟨t, by rw [Function.update_self, hji]; rfl⟩
    · obtain ⟨hmapped', hframe'⟩ := h.busy hapart (hempties j) hj hj'
      have hne : (s.swapPool j).sw_pte ≠ .uProc_pte owner page := by
        intro hsame
        rw [hsame] at hframe'
        exact hji (swapAddress_inj hj hi (hframe'.symm.trans hframe))
      refine .inr ⟨(hvalid _).mpr ⟨hne, hmapped'⟩, ?_⟩
      exact (congrArg frameNumber ((hentry _).trans (if_neg hne))).trans hframe'
  · obtain ⟨rfl, hx⟩ := update_leaves hapart hu
    cases hx
    refine ⟨⟨hi, hswap, hoccupied'⟩, fun hq => ((hvalid _).mp hq).1 rfl, ?_⟩
    exact (congrArg s.page hframe.symm).trans (h.mapped owner page hmapped)
  · exact absurd (update_brings hapart hu).2 (by simp [Point.brings])
  · obtain ⟨hne, hpage⟩ := (hvalid _).mp hpage
    rw [hentry, if_neg hne]
    exact h.mapped u page' hpage
  · by_cases hsame : PtePtr.uProc_pte u page' = .uProc_pte owner page
    · obtain ⟨rfl, rfl⟩ := PtePtr.uProc_pte.inj hsame
      exact absurd ⟨rfl, rfl⟩ (hnot t i (pageEntry u page') (by rw [Function.update_self]; rfl))
    · refine h.block hapart (by rw [hpoint]; rfl) fun hq => ?_
      exact hpage ((hvalid _).mpr ⟨hsame, hq⟩)

omit hframes in
/-- The frame is entered into the swap pool. -/
theorem Remembers.swapIn (hstarted : s.started t = true)
    (hpoint : g t = .swapIn a i) :
    Remembers S (Function.update g t (.map a i))
      { s with swapPool := Function.update s.swapPool i (pageEntry t (pageOf a)) } m := by
  have hkept : ∀ {j}, j ≠ i → Function.update s.swapPool i (pageEntry t (pageOf a)) j =
      s.swapPool j := fun hji => Function.update_of_ne hji _ _
  have hpool : ({ s with swapPool := Function.update s.swapPool i (pageEntry t (pageOf a)) } :
      Phase3 β).swapPool = Function.update s.swapPool i (pageEntry t (pageOf a)) := rfl
  have hentry : ∀ q, ({ s with swapPool := Function.update s.swapPool i (pageEntry t (pageOf a)) } :
      Phase3 β).entryLO q = s.entryLO q := by
    intro q
    cases q <;> rfl
  refine ⟨?_, fun j hj hj' => ?_, ?_, fun u j w hu => ?_, fun u b j hu => ?_,
    fun u page' hpage => ?_, fun u page' hpage _ => ?_⟩
  · simp only [IsValid, hentry]
    exact update_point (fun b hb => h.missing t b (by rw [hpoint]; exact hb)) h.missing
  · rw [IsValid, hentry, hpool]
    rw [Occupied, hpool] at hj'
    by_cases hji : j = i
    · exact .inl ⟨t, by rw [Function.update_self, hji]; rfl⟩
    · rw [hkept hji] at hj' ⊢
      refine .inr (h.busy hapart (fun hempties => ?_) hj hj')
      rw [hpoint] at hempties
      exact hji (Option.some.inj hempties).symm
  · simp only [Occupied]
    refine (Function.forall_update_iff g fun u p => s.started u = false ∨ p.Boots →
      ∀ j < S.SWAPSIZE, (Function.update s.swapPool i (pageEntry t (pageOf a)) j).sw_asid ≠ -1 →
        (Function.update s.swapPool i (pageEntry t (pageOf a)) j).sw_asid ≠ u).mpr ?_
    refine ⟨fun hfalse => ?_, fun u hut hu j hj hj' => ?_⟩
    · rcases hfalse with hfalse | hboots
      · exact absurd (hstarted.symm.trans hfalse) (by simp)
      · exact hboots.elim
    · by_cases hji : j = i
      · rw [hji, Function.update_self]
        exact hut.symm
      · rw [hkept hji] at hj' ⊢
        exact h.fresh u hu j hj hj'
  · exact absurd (update_leaves hapart hu).2 (by simp [Point.leaves])
  · obtain ⟨rfl, hx⟩ := update_brings hapart hu
    exact h.bringing u b j (by rw [hpoint]; exact hx)
  · rw [IsValid, hentry] at hpage
    rw [hentry]
    exact h.mapped u page' hpage
  · rw [IsValid, hentry] at hpage
    exact h.block hapart (by rw [hpoint]; rfl) hpage

omit hframes in
/-- The page is mapped. -/
theorem Remembers.map (hstarted : s.started t = true) (hpoint : g t = .map a i)
    (hswap : s.swapPool i = pageEntry t (pageOf a)) :
    Remembers S (Function.update g t .release)
      (s.setEntryLO (.uProc_pte t (pageOf a)) (swapAddress S i ||| VALID ||| DIRTY)) m := by
  have hmissing : ¬ s.IsValid (.uProc_pte t (pageOf a)) := h.missing t a (by rw [hpoint]; rfl)
  have hbringing : s.page (swapAddress S i) = m (t, pageOf a) :=
    h.bringing t a i (by rw [hpoint]; rfl)
  have hframe : frameNumber (swapAddress S i ||| VALID ||| DIRTY) = swapAddress S i := by
    rw [BitVec.or_assoc]
    exact frameNumber_or swapAddress_low rfl
  have hnew : (swapAddress S i ||| VALID ||| DIRTY) &&& VALID = VALID := by
    rw [BitVec.or_assoc]
    exact valid_or swapAddress_low rfl
  generalize pageOf a = page at *
  have hentry : ∀ q, (s.setEntryLO (.uProc_pte t page)
      (swapAddress S i ||| VALID ||| DIRTY)).entryLO q = if q = .uProc_pte t page then
        swapAddress S i ||| VALID ||| DIRTY else s.entryLO q := fun q =>
    entryLO_setEntryLO (by simp)
  have hvalid : ∀ q, (s.setEntryLO (.uProc_pte t page)
      (swapAddress S i ||| VALID ||| DIRTY)).IsValid q ↔ q = .uProc_pte t page ∨ s.IsValid q := by
    intro q
    rw [IsValid, hentry]
    split
    · exact ⟨fun _ => .inl ‹_›, fun _ => hnew⟩
    · exact ⟨.inr, fun hq => hq.resolve_left ‹_›⟩
  refine ⟨?_, fun j hj hj' => ?_, h.fresh_move rfl rfl id hstarted, fun u j w hu => ?_,
    fun u b j hu => ?_, fun u page' hpage => ?_, fun u page' hpage _ => ?_⟩
  · refine (Function.forall_update_iff g fun u p => ∀ b, p.misses = some b →
      ¬ (s.setEntryLO (.uProc_pte t page) (swapAddress S i ||| VALID ||| DIRTY)).IsValid
        (.uProc_pte u (pageOf b))).mpr ⟨by simp [Point.misses], fun u hut b hu hq => ?_⟩
    rcases (hvalid _).mp hq with hsame | hq
    · exact hut (PtePtr.uProc_pte.inj hsame).1
    · exact h.missing u b hu hq
  · by_cases hji : j = i
    · subst hji
      refine .inr ⟨(hvalid _).mpr (.inl ?_), ?_⟩
      · exact congrArg Swap.sw_pte hswap
      · exact (congrArg frameNumber ((hentry _).trans (if_pos (congrArg Swap.sw_pte hswap)))).trans
          hframe
    · refine .inr ?_
      have hempties : (g t).empties ≠ some j := fun heq => by
        rw [hpoint] at heq
        exact hji (Option.some.inj heq).symm
      obtain ⟨hmapped, hframe'⟩ := h.busy hapart hempties hj hj'
      have hne : (s.swapPool j).sw_pte ≠ .uProc_pte t page := fun hsame =>
        hmissing (hsame ▸ hmapped)
      exact ⟨(hvalid _).mpr (.inr hmapped),
        (congrArg frameNumber ((hentry _).trans (if_neg hne))).trans hframe'⟩
  · exact absurd (update_leaves hapart hu).2 (by simp [Point.leaves])
  · exact absurd (update_brings hapart hu).2 (by simp [Point.brings])
  · rw [hentry]
    split
    · rename_i hsame
      obtain ⟨rfl, rfl⟩ := PtePtr.uProc_pte.inj hsame
      exact (congrArg s.page hframe).trans hbringing
    · exact h.mapped u page' (((hvalid _).mp hpage).resolve_left ‹_›)
  · refine h.block hapart (by rw [hpoint]; rfl) fun hq => hpage ((hvalid _).mpr (.inr hq))

end pager

end

/-- A process traps only where a page is not mapped. -/
def Faults (ID : Word) (e : UserEntry) (s : Phase3 β) : Prop :=
  match e with
  | .tlb st => ¬ s.IsValid (pteOf ID st.s_asid)
  | _ => True

/-- Loaders and processes that run in `kUseg2` and trap only where a page is missing. -/
def faultSystem (S : Setup) (tapes : Word → List β) :
    System (UserPool β) (Happening Word UserEntry Op) :=
  ((loadThreads β S).guarded Faults).system (Unloaded S tapes)

/-- What a step stores to the memory: a process at an address of its own, or the loader,
with its command to the disk, a block of the tape in the page of the same number. -/
def storesOf (tapes : Word → List β) (c : UserPool β) (e : Happening Word UserEntry Op)
    (c' : UserPool β) : List ((Word × Word) × β) :=
  match e with
  | .enter ID (.store a) => [((ID, pageOf a), c'.shared.page (c.shared.pageAt ID a))]
  | .perform ID (.waitio d) =>
    if d.devNum = DISK0 ∧ d.d_data0 = some (tapeBuffer ID) ∧ (ID - 1).toNat < DEVPERINT then
      ((tapes ID)[c.shared.cylinder.toNat]?).toList.map fun b => ((ID, c.shared.cylinder), b)
    else []
  | _ => []

/-- The processes are at their points, and the memory `m` is what they have stored. -/
structure Recalls (S : Setup) (tapes : Word → List β) (c : UserPool β) (m : Word × Word → β) :
    Prop where
  locked : (loadThreads β S).Locked steady c
  length : ∀ ID, S.IsProcess ID → (tapes ID).length ≤ KUSEGSIZE - 1
  points : ∃ l g, (loadPoints β S).At g c ∧ Loaded S tapes l g c.shared ∧ Remembers S g c.shared m

theorem Unloaded.recalls (h : Unloaded S tapes c) : Recalls S tapes c (backing c.shared) := by
  obtain ⟨hlocked, hlength, -⟩ := loaded_of_run (.init h)
  refine ⟨hlocked, hlength, [], fun _ => .rest, ⟨fun t => ?_, fun t s hs => ?_⟩, h.loaded, ?_⟩
  · rw [h.atRest.stack]
    exact .idle rfl
  · rw [h.atRest.queue] at hs
    exact absurd hs List.not_mem_nil
  · refine ⟨by simp [Point.misses], fun i hi hoccupied => absurd hoccupied (h.frames i hi),
      fun u _ i hi hoccupied => absurd hoccupied (h.frames i hi), by simp [Point.leaves],
      by simp [Point.brings], fun u page hvalid => absurd hvalid (h.entries _), fun _ _ _ _ => rfl⟩

/-- What an operation changes where no page moves. -/
theorem Remembers.perform_other (h : Remembers S g s m) (hloaded : Loaded S tapes l g s)
    (hlength : (tapes t).length ≤ KUSEGSIZE - 1) (hmove : Moves S t (g t) o r x)
    (halone : Alone S true t o s r s') (hdevice : ∀ c, o = .waitio c → c.device.toNat < DEVPERINT)
    (hstay : (g t).Quiet ∨ (∃ k, g t = .tape k) ∨ ∃ j, g t = .disk j .seek) :
    Remembers S (Function.update g t x) s' m := by
  have hID := hloaded.process t (hloaded.started t hmove.ne_rest)
  have hno : ¬ (g t).Moving := by
    rcases hstay with hquiet | ⟨k, hk⟩ | ⟨j, hj⟩
    · generalize g t = p at hquiet
      cases p with
      | disk j stage =>
        cases stage with
        | transfer | seek => exact hquiet.elim
        | _ => cases j <;> exact id
      | unmap | map => exact hquiet.elim
      | _ => exact id
    · rw [hk]
      exact id
    · rw [hj]
      cases j <;> exact id
  have hfollows := hmove.follows hno
  have hstate : s'.swapPool = s.swapPool ∧ (∀ q, s'.entryLO q = s.entryLO q) ∧ s'.block = s.block ∧
      (∀ i < S.SWAPSIZE, s'.page (swapAddress S i) = s.page (swapAddress S i)) ∧
      s'.started = s.started := by
    rcases hstay with hquiet | ⟨k, hk⟩ | ⟨j, hj⟩
    · obtain ⟨⟨n, rfl⟩, -⟩ := hmove.quiet hquiet halone
      exact ⟨rfl, fun q => by cases q <;> rfl, rfl, fun _ _ => rfl, rfl⟩
    · rw [hk] at hmove
      cases hmove
      obtain ⟨b, rest, -, rfl⟩ := done_tape hID halone.of_waitio.2
      refine ⟨rfl, fun q => by cases q <;> rfl, rfl, fun i hi => ?_, rfl⟩
      rw [readTape_page, Function.update_of_ne (tapeBuffer_ne_swapAddress (hdevice _ rfl) hi).symm]
    · have hcylinder := hloaded.cylinder_lt hlength hj
      rw [hj] at hmove
      cases hmove
      obtain rfl := halone.of_waitio.2.of_seek rfl DISKINT_ne rfl hcylinder
      exact ⟨rfl, fun q => by cases q <;> rfl, rfl, fun _ _ => rfl, rfl⟩
  obtain ⟨hpool, hentry, hblock, hpage, hstarted⟩ := hstate
  refine h.move hloaded.frames hpool hentry hblock hpage
    (fun a ha => h.missing t a (hfollows.misses a ha)) hfollows.empties hfollows.leaves
    hfollows.brings ?_ fun u _ => congrFun hstarted u
  rw [hstarted]
  exact Or.imp_right hfollows.boots

/-- Only the command that stores a block of the tape is seen. -/
theorem storesOf_other (h : ∀ d, o = .waitio d → d.devNum = DISK0 →
    d.d_data0 = some (tapeBuffer t) → ¬ (t - 1).toNat < DEVPERINT) :
    storesOf tapes c (.perform t o) c' = [] := by
  cases o with
  | waitio d => exact if_neg fun hstore => h d rfl hstore.1 hstore.2.1 hstore.2.2
  | _ => rfl

/-- An operation of a process changes the memory as it is seen. -/
theorem Remembers.perform (h : Remembers S g c.shared m) (hloaded : Loaded S tapes l g c.shared)
    (hlength : (tapes t).length ≤ KUSEGSIZE - 1) (hapart : Apart g t)
    (hmove : Moves S t (g t) o r x) (halone : Alone S true t o c.shared r c'.shared)
    (hdevice : ∀ c, o = .waitio c → c.device.toNat < DEVPERINT) :
    ∃ m', (memory (Word × Word) β).Does m (storesOf tapes c (.perform t o) c') m' ∧
      Remembers S (Function.update g t x) c'.shared m' := by
  have hstarted := hloaded.started t hmove.ne_rest
  have hID := hloaded.process t hstarted
  have hpages := hloaded.frames.pages t
  have hmoves := hmove
  generalize hpoint : g t = p at hmove hpages
  have hothers : Sem.swap ∈ p.held t → ∀ u, u ≠ t →
      (g u).empties = none ∧ (g u).leaves = none ∧ (g u).brings = none := fun hmem u hut =>
    apart_of_waiting (hapart.swap (hpoint ▸ hmem) hut)
  have hother := h.perform_other hloaded hlength hmoves halone hdevice
  cases hmove with
  | tape =>
    refine ⟨m, ?_, hother (.inr (.inl ⟨_, hpoint⟩))⟩
    rw [storesOf_other]
    · exact .nil
    · rintro d heq hdisk -
      cases heq
      exact absurd hdisk (deviceMutex_ne hID _ (by decide) (by decide))
  | seek =>
    refine ⟨m, ?_, hother (.inr (.inr ⟨_, hpoint⟩))⟩
    rw [storesOf_other]
    · exact .nil
    · rintro d heq - hdata
      cases heq
      exact absurd hdata (by simp [seekCommand])
  | @transfer j =>
    have hcylinder := hloaded.disk.cylinder t j hpoint
    have hreads := hloaded.reading.reads t
    rw [hpoint] at hreads
    have hframe : ∀ {i}, i < S.SWAPSIZE → (j.command S t).d_data0 = some (swapAddress S i) →
        storesOf tapes c (.perform t (.waitio (j.command S t))) c' = [] := by
      intro i hi hframe
      apply storesOf_other
      rintro d heq - hdata hlt
      cases heq
      exact tapeBuffer_ne_swapAddress hlt hi (Option.some.inj (hdata.symm.trans hframe))
    cases j with
    | store k =>
      have hk : k < 2 ^ 24 := lt_of_lt_of_le (HasRead.lt hreads) (hlength.trans (by decide))
      have hnat : c.shared.cylinder.toNat = k := by
        rw [hcylinder]
        exact (BitVec.toNat_ofNat _ _).trans (Nat.mod_eq_of_lt (hk.trans (by decide)))
      refine ⟨Function.update m (t, c.shared.cylinder) (c.shared.page (tapeBuffer t)), ?_, ?_⟩
      · have hseen : storesOf tapes c (.perform t (.waitio (Job.command S t (.store k)))) c' =
            [((t, c.shared.cylinder), c.shared.page (tapeBuffer t))] := by
          refine (if_pos ⟨rfl, rfl, hreads.device⟩).trans ?_
          rw [hnat, hreads.buffer]
          rfl
        rw [hseen]
        exact .single rfl
      · rw [halone.of_waitio.2.of_write rfl DISKINT_ne rfl hID.sector_lt rfl]
        exact h.load hloaded.frames hpoint
    | evict a i w =>
      obtain ⟨⟨hi, -⟩, owner, b, howner, rfl, -⟩ := hpages
      refine ⟨m, ?_, ?_⟩
      · rw [hframe hi rfl]
        exact .nil
      · rw [halone.of_waitio.2.of_write rfl DISKINT_ne rfl howner.sector_lt (head_zero _ _),
          hcylinder]
        exact h.evict hloaded.frames (hothers (by simp [Point.held])) hstarted hpoint
    | fetch a i =>
      obtain ⟨hi, hunmapped⟩ := hpages
      refine ⟨m, ?_, ?_⟩
      · rw [hframe hi rfl]
        exact .nil
      · rw [halone.of_waitio.2.of_read rfl DISKINT_ne rfl hID.sector_lt (head_zero _ _), hcylinder]
        exact h.fetch (hothers (by simp [Point.held])) hstarted hpoint hunmapped
  | @unmap a i w v =>
    obtain ⟨hi, hw, hoccupied⟩ := hpages
    refine ⟨m, .nil, ?_⟩
    rw [alone_setEntryLO halone]
    exact h.unmap hloaded.frames (hothers (by simp [Point.held])) hstarted hpoint hi hw hoccupied
  | swapIn =>
    refine ⟨m, .nil, ?_⟩
    rw [alone_setSwap halone]
    exact h.swapIn (hothers (by simp [Point.held])) hstarted hpoint
  | map =>
    refine ⟨m, .nil, ?_⟩
    rw [alone_setEntryLO halone]
    exact h.map (hothers (by simp [Point.held])) hstarted hpoint hpages.2
  | lock | unlock =>
    refine ⟨m, .nil, hother (.inl ?_)⟩
    rw [hpoint]
    trivial
  | _ =>
    refine ⟨m, .nil, hother (.inl ?_)⟩
    rw [hpoint]
    trivial

/-- A process enters code or executes an instruction of its own. -/
theorem Remembers.enter {entry : UserEntry} (h : Remembers S g c.shared m)
    (hframes : FramesKept S tapes l g c.shared) (hrest : g t = .rest)
    (henters : (loadThreads β S).enters t entry [] c.shared c'.shared)
    (hfault : Faults t entry c.shared) :
    ∃ m', (memory (Word × Word) β).Does m (storesOf tapes c (.enter t entry) c') m' ∧
      Remembers S (Function.update g t (entryPoint entry)) c'.shared m' := by
  have hleaves : (g t).leaves = none := by
    rw [hrest]
    rfl
  have hnone : ∀ i, (g t).empties ≠ some i := fun i => by simp [hrest, Point.empties]
  obtain ⟨henter, hload⟩ := henters
  generalize hs : c.shared = s at *
  generalize hs' : c'.shared = s' at *
  cases entry with
  | boot n =>
    cases henter with
    | boot _ hnot =>
      refine ⟨m, .nil, h.move hframes rfl (fun q => by cases q <;> rfl) rfl (fun _ _ => rfl)
        (by simp [entryPoint, Point.misses]) (fun i hi => absurd hi (hnone i)) hleaves.symm
        (by simp [entryPoint, Point.brings]) (fun _ => .inl hnot) fun u hut => ?_⟩
      exact Function.update_of_ne hut _ _
  | tlb st =>
    cases henter with
    | tlb _ =>
      refine ⟨m, .nil, h.move hframes rfl (fun _ => rfl) rfl (fun _ _ => rfl) (fun a ha => ?_)
        (fun i hi => absurd hi (hnone i)) hleaves.symm (by simp [entryPoint, Point.brings])
        (Or.imp_right fun hboots => hboots.elim) fun _ _ => rfl⟩
      obtain rfl : st.s_asid = a := Option.some.inj ha
      have hseg : segmentOf st.s_asid ≠ 3 := by
        rw [hload.2]
        decide
      rw [← pteOf_private hseg]
      exact hfault
  | @store a =>
    cases henter with
    | @store _ y _ _ _ hseg hmapped =>
      refine ⟨Function.update m (t, pageOf a) y, ?_, ?_⟩
      · have hseen : c'.shared.page (c.shared.pageAt t a) = y := by
          rw [hs, hs']
          exact Function.update_self _ _ _
        simp only [storesOf, hseen]
        exact .single rfl
      · have hstored := h.store hframes (y := y) hseg hmapped
        rw [show entryPoint (.store a) = g t from hrest.symm, Function.update_eq_self]
        exact hstored
  | _ => exact absurd hload (by simp [LoadEntry])

/-- In any order of steps, loaders and paging implement a memory of its own for every
process. -/
theorem load_simulation : Simulation (faultSystem S tapes) (memory (Word × Word) β)
    (storesOf tapes) (Recalls S tapes) := by
  refine ⟨fun c hinit => ⟨backing c.shared, trivial, hinit.recalls⟩, fun c e c' m hstep h => ?_⟩
  obtain ⟨hstep, hfault⟩ := Threads.Step.of_guarded hstep
  obtain ⟨hlocked, hlength, l, g, hat, hloaded, hremembers⟩ := h
  obtain ⟨hlocked', g', hat', hturn⟩ := load_step hlocked hat hstep
  have hloaded' := hloaded.step hlocked hat hlength hturn
  cases e with
  | enter t entry =>
    cases hturn with
    | enter _ hrest henters =>
      obtain ⟨m', hdoes, hremembers'⟩ := hremembers.enter hloaded.frames hrest henters
        (hfault t entry rfl)
      exact ⟨m', hdoes, hlocked', hlength, _, _, hat', hloaded', hremembers'⟩
  | leave t =>
    cases hturn with
    | leave _ hshared =>
      exact ⟨m, .nil, hlocked', hlength, _, _, hat', hloaded', hshared ▸ hremembers⟩
  | perform t o =>
    obtain ⟨r, x, hrun, hmove, halone, hdevice, rfl⟩ := load_performs hturn
    have hapart : Apart g t := fun u hut m hmutex hmem hmem' =>
      hat.exclusive hlocked hrun hmutex hmem hut hmem'
    have hID := hloaded.process t (hloaded.started t hmove.ne_rest)
    obtain ⟨m', hdoes, hremembers'⟩ :=
      hremembers.perform hloaded (hlength t hID) hapart hmove halone hdevice
    exact ⟨m', hdoes, hlocked', hlength, _, _, hat', hloaded', hremembers'⟩

/-- In every run of loaders and of processes in `kUseg2`, in any order of steps, a process
finds at every address that it can access what it or its loader has stored to that page
last, and the block of the disk if that is nothing. -/
theorem loaded_memory {l : List (Happening Word UserEntry Op × UserPool β)}
    (hinit : Unloaded S tapes c) (hpath : (faultSystem S tapes).Path c l c') :
    ∃ m, (memory (Word × Word) β).Does (backing c.shared) (observed (storesOf tapes) c l) m ∧
      ∀ ID a, SEG2 ≤ a → c'.shared.Mapped ID a →
        c'.shared.page (c'.shared.pageAt ID a) = m (ID, pageOf a) := by
  obtain ⟨m, hdoes, hrecalls⟩ := load_simulation.path hpath hinit.recalls
  obtain ⟨-, -, l', g, -, hloaded, hremembers⟩ := hrecalls
  refine ⟨m, hdoes, fun ID a hseg hmapped => ?_⟩
  obtain ⟨hvalid, hpage⟩ := hloaded.frames.accessed hseg hmapped
  rw [hpage]
  exact hremembers.mapped ID (pageOf a) hvalid

instance (ID : Word) (entry : UserEntry) (s : Phase3 β) : Decidable (Faults ID entry s) :=
  match entry with
  | .tlb _ => inferInstanceAs (Decidable (¬ _))
  | .daemon _ => .isTrue trivial
  | .boot _ => .isTrue trivial
  | .call _ _ => .isTrue trivial
  | .program => .isTrue trivial
  | .store _ => .isTrue trivial

abbrev faultScript : Script (UserScene Bool) (Happening Word UserEntry Op) UserCue :=
  Scene.script ((loadCast Bool .small).guarded Faults)

def mappedCues : List UserCue := loadCues ++ onwards 2 2

/-- Both processes have loaded their tapes, and the second one has its second page. -/
def mappedScene : UserScene Bool := faultScript.play tapedScene mappedCues

/-- The steps, each with the state it leads to. -/
def mappedPath : List (Happening Word UserEntry Op × UserPool Bool) :=
  (faultScript.events tapedScene mappedCues).map fun x => (x.1, x.2.pool)

theorem mappedPath_path :
    (faultSystem .small twoTapes).Path tapedPool mappedPath mappedScene.pool := by
  have hfollows : faultScript.Follows ((faultSystem .small twoTapes).comap Scene.pool) :=
    Scene.script_follows _
  have hpath := hfollows.path (s := tapedScene) (l := mappedCues) (by decide +kernel)
  exact hpath.of_comap

theorem loaded_memory_small : ∃ m : Word × Word → Bool,
    (memory (Word × Word) Bool).Does (backing tapedPool.shared)
      (observed (storesOf twoTapes) tapedPool mappedPath) m ∧
    mappedScene.pool.shared.page (mappedScene.pool.shared.pageAt 2 0x80001000) =
      m (2, pageOf 0x80001000) ∧
    mappedScene.pool.shared.page (mappedScene.pool.shared.pageAt 2 0x80001000) = true := by
  obtain ⟨m, hdoes, hpages⟩ := loaded_memory tapedPool_unloaded mappedPath_path
  have hmapped : mappedScene.pool.shared.Mapped 2 0x80001000 := by decide +kernel
  exact ⟨m, hdoes, hpages 2 0x80001000 (by decide) hmapped, by decide +kernel⟩

end Kaya
