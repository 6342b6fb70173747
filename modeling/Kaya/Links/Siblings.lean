import Kaya.Links.Ring

namespace Links

variable {ι : Type} {next prev next' prev' : ι → Ptr ι}

/-- `Siblings next prev p l`: the doubly linked list that starts at `p` and ends
with null pointers on both sides holds exactly `l`. -/
structure Siblings (next prev : ι → Ptr ι) (p : Ptr ι) (l : List ι) : Prop where
  head : p = headPtr l
  nodup : l.Nodup
  chain : l.IsChain (Linked next prev)
  first : ∀ x, headPtr l = .to x → prev x = .null
  last : ∀ x, tailPtr l = .to x → next x = .null

theorem Siblings.nil : Siblings next prev .null [] :=
  ⟨rfl, List.nodup_nil, by simp, by simp, by simp⟩

theorem mem_of_headPtr {l : List ι} {x : ι} (h : headPtr l = .to x) : x ∈ l := by
  cases l with
  | nil => simp at h
  | cons y l =>
    obtain rfl : y = x := by simpa using h
    exact List.mem_cons_self

theorem mem_of_tailPtr {l : List ι} {x : ι} (h : tailPtr l = .to x) : x ∈ l := by
  obtain ⟨m, rfl⟩ := exists_concat_of_tailPtr h
  simp

theorem Siblings.congr {p : Ptr ι} {l : List ι} (h : Siblings next prev p l)
    (hnext : ∀ x ∈ l, next' x = next x) (hprev : ∀ x ∈ l, prev' x = prev x) :
    Siblings next' prev' p l := by
  refine ⟨h.head, h.nodup, ?_, ?_, ?_⟩
  · exact isChain_linked_congr h.chain (fun x hx => hnext x (List.dropLast_subset _ hx))
      (fun x hx => hprev x (List.mem_of_mem_tail hx))
  · intro x hx
    rw [hprev x (mem_of_headPtr hx), h.first x hx]
  · intro x hx
    rw [hnext x (mem_of_tailPtr hx), h.last x hx]

/-- Putting `c` in front of a list of siblings. -/
theorem Siblings.cons {p : Ptr ι} {c : ι} {l : List ι} (h : Siblings next prev p l) (hc : c ∉ l)
    (hnext : ∀ y ∈ l, next' y = next y)
    (hprev : ∀ y ∈ l, headPtr l ≠ .to y → prev' y = prev y)
    (hcnext : next' c = p) (hcprev : prev' c = .null)
    (hfirst : ∀ x, headPtr l = .to x → prev' x = .to c) :
    Siblings next' prev' (.to c) (c :: l) := by
  refine ⟨rfl, List.nodup_cons.mpr ⟨hc, h.nodup⟩, ?_, ?_, ?_⟩
  · have hinner : l.IsChain (Linked next' prev') := by
      refine isChain_linked_congr h.chain (fun y hy => hnext y (List.dropLast_subset _ hy)) ?_
      intro y hy
      refine hprev y (List.mem_of_mem_tail hy) ?_
      intro hhead
      cases l with
      | nil => simp at hhead
      | cons x l =>
        obtain rfl : x = y := by simpa using hhead
        exact (List.nodup_cons.mp h.nodup).1 hy
    refine hinner.cons ?_
    intro x hx
    have hhead : headPtr l = .to x := by
      cases l with
      | nil => simp at hx
      | cons y l => simpa using hx
    exact ⟨by rw [hcnext, h.head, hhead], hfirst x hhead⟩
  · intro x hx
    obtain rfl : c = x := by simpa using hx
    exact hcprev
  · intro x hx
    cases l with
    | nil =>
      obtain rfl : c = x := by simpa [tailPtr] using hx
      rw [hcnext, h.head]
      rfl
    | cons y l =>
      have htail : tailPtr (y :: l) = .to x := by
        rw [← hx]
        exact (tailPtr_append_cons [c] l y).symm
      rw [hnext x (mem_of_tailPtr htail)]
      exact h.last x htail

/-- The links of a member lead to the neighbouring parts of the list. -/
theorem Siblings.neighbours {p : Ptr ι} {c : ι} {a b : List ι}
    (h : Siblings next prev p (a ++ c :: b)) : next c = headPtr b ∧ prev c = tailPtr a := by
  constructor
  · cases b with
    | nil => exact h.last c (tailPtr_concat a c)
    | cons x b => exact (linked_of_isChain_append h.chain).1
  · rcases List.eq_nil_or_concat a with rfl | ⟨m, y, rfl⟩
    · exact h.first c rfl
    · have hchain := h.chain
      simp only [List.concat_eq_append, List.append_assoc, List.cons_append, List.nil_append] at hchain ⊢
      rw [tailPtr_concat]
      exact (linked_of_isChain_append hchain).2

/-- Unlinking a member: the part before it now leads to the part behind it. -/
theorem Siblings.remove {p : Ptr ι} {c : ι} {a b : List ι}
    (h : Siblings next prev p (a ++ c :: b))
    (hnext : ∀ z ∈ a ++ b, tailPtr a ≠ .to z → next' z = next z)
    (hprev : ∀ z ∈ a ++ b, headPtr b ≠ .to z → prev' z = prev z)
    (hy : ∀ y, tailPtr a = .to y → next' y = headPtr b)
    (hx : ∀ x, headPtr b = .to x → prev' x = tailPtr a) :
    Siblings next' prev' (headPtr (a ++ b)) (a ++ b) := by
  have hnodup : (a ++ b).Nodup := by
    have := h.nodup
    simp only [List.nodup_append, List.nodup_cons] at this ⊢
    grind
  obtain ⟨hac, hcb, -⟩ := List.isChain_append.mp h.chain
  have hb : b.IsChain (Linked next prev) := hcb.tail
  obtain ⟨hnda, hndb, hdisj⟩ := List.nodup_append.mp hnodup
  have hdisj' : ∀ z ∈ a, z ∉ b := fun z hz hzb => hdisj z hz z hzb rfl
  have ha' : a.IsChain (Linked next' prev') := by
    refine isChain_linked_congr hac ?_ ?_
    · intro z hz
      refine hnext z (List.mem_append_left _ (List.dropLast_subset _ hz)) ?_
      intro htail
      obtain ⟨m, rfl⟩ := exists_concat_of_tailPtr htail
      rw [List.dropLast_concat] at hz
      exact (List.nodup_append.mp hnda).2.2 z hz z (by simp) rfl
    · intro z hz
      have hza := List.mem_of_mem_tail hz
      exact hprev z (List.mem_append_left _ hza) fun hhead => hdisj' z hza (mem_of_headPtr hhead)
  have hb' : b.IsChain (Linked next' prev') := by
    refine isChain_linked_congr hb ?_ ?_
    · intro z hz
      have hzb := List.dropLast_subset _ hz
      exact hnext z (List.mem_append_right _ hzb) fun htail => hdisj' z (mem_of_tailPtr htail) hzb
    · intro z hz
      refine hprev z (List.mem_append_right _ (List.mem_of_mem_tail hz)) ?_
      intro hhead
      cases b with
      | nil => simp at hhead
      | cons x b =>
        obtain rfl : x = z := by simpa using hhead
        exact (List.nodup_cons.mp hndb).1 hz
  refine ⟨rfl, hnodup, ha'.append hb' ?_, ?_, ?_⟩
  · intro y hya x hxb
    have hty : tailPtr a = .to y := by simp [tailPtr, Option.mem_def.mp hya]
    have hhx : headPtr b = .to x := by
      cases b with
      | nil => simp at hxb
      | cons z b => simpa using hxb
    exact ⟨by rw [hy y hty, hhx], by rw [hx x hhx, hty]⟩
  · intro x hhead
    cases a with
    | nil => exact hx x hhead
    | cons y a =>
      obtain rfl : y = x := by simpa using hhead
      rw [hprev y (by simp) fun hh => hdisj' y (by simp) (mem_of_headPtr hh)]
      exact h.first y rfl
  · intro x htail
    cases b with
    | nil => exact hy x (by simpa using htail)
    | cons z b =>
      rw [tailPtr_append_cons] at htail
      have hxb := mem_of_tailPtr htail
      rw [hnext x (List.mem_append_right _ hxb) fun hh => hdisj' x (mem_of_tailPtr hh) hxb]
      refine h.last x ?_
      rw [tailPtr_append_cons, ← htail]
      exact tailPtr_append_cons [c] b z

theorem Siblings.walk_eq [DecidableEq ι] {p : Ptr ι} {l : List ι} {fuel : Nat}
    (h : Siblings next prev p l) (hfuel : l.length ≤ fuel) : walk next .null fuel p = l := by
  refine Segment.walk_eq ?_ (by simp) hfuel
  rw [h.head]
  rcases List.eq_nil_or_concat' l with rfl | ⟨m, t, rfl⟩
  · rfl
  · refine segment_append.mpr ⟨.to t, segment_of_isChain h.chain, rfl, ?_⟩
    exact h.last t (tailPtr_concat m t)

/-- The links of a member of a list of siblings stay inside the list. -/
theorem Siblings.mem_of_link {p : Ptr ι} {l : List ι} {x y : ι} (h : Siblings next prev p l)
    (hx : x ∈ l) (hy : next x = .to y ∨ prev x = .to y) : y ∈ l := by
  obtain ⟨a, b, rfl⟩ := List.mem_iff_append.mp hx
  obtain ⟨hnext, hprev⟩ := h.neighbours
  rcases hy with hy | hy
  · rw [hnext] at hy
    exact List.mem_append_right _ (List.mem_cons_of_mem _ (mem_of_headPtr hy))
  · rw [hprev] at hy
    exact List.mem_append_left _ (mem_of_tailPtr hy)

end Links
