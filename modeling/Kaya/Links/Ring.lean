import Kaya.Links.Chain

namespace Links

variable {ι : Type} {next prev next' prev' : ι → Ptr ι}

/-- The pointer to the last entry of a list. -/
def tailPtr (l : List ι) : Ptr ι :=
  match l.getLast? with
  | none => .null
  | some t => .to t

@[simp] theorem tailPtr_nil : tailPtr ([] : List ι) = .null := rfl

@[simp] theorem tailPtr_concat (l : List ι) (x : ι) : tailPtr (l ++ [x]) = .to x := by
  simp [tailPtr]

theorem tailPtr_append_cons (l l' : List ι) (x : ι) :
    tailPtr (l ++ x :: l') = tailPtr (x :: l') := by
  simp [tailPtr, List.getLast?_append, List.getLast?_cons]

@[simp] theorem tailPtr_eq_null {l : List ι} : tailPtr l = .null ↔ l = [] := by
  rcases List.eq_nil_or_concat l with rfl | ⟨l, x, rfl⟩ <;> simp

theorem exists_concat_of_tailPtr {l : List ι} {t : ι} (h : tailPtr l = .to t) :
    ∃ m, l = m ++ [t] := by
  rcases List.eq_nil_or_concat l with rfl | ⟨m, y, rfl⟩
  · simp at h
  · obtain rfl : y = t := by simpa using h
    exact ⟨m, by simp⟩

/-- The links between the entries of a chain survive any change of the forward
link of its last entry and of the backward link of its first. -/
theorem isChain_linked_relink {x t : ι} {l : List ι}
    (h : (x :: l).IsChain (Linked next prev)) (hnodup : (x :: l).Nodup)
    (ht : tailPtr (x :: l) = .to t)
    (hnext : ∀ y ∈ x :: l, y ≠ t → next' y = next y)
    (hprev : ∀ y ∈ x :: l, y ≠ x → prev' y = prev y) :
    (x :: l).IsChain (Linked next' prev') := by
  obtain ⟨m, hm⟩ := exists_concat_of_tailPtr ht
  refine isChain_linked_congr h ?_ ?_
  · intro z hz
    refine hnext z (List.dropLast_subset _ hz) ?_
    rintro rfl
    rw [hm, List.dropLast_concat] at hz
    rw [hm] at hnodup
    exact (List.nodup_append.mp hnodup).2.2 z hz z (by simp) rfl
  · intro z hz
    refine hprev z (List.mem_of_mem_tail hz) ?_
    rintro rfl
    exact (List.nodup_cons.mp hnodup).1 hz

/-- The entries of `l` are linked in order, and its last entry to its first. -/
def Cyclic (next prev : ι → Ptr ι) (l : List ι) : Prop :=
  (l ++ l.head?.toList).IsChain (Linked next prev)

theorem cyclic_cons_append_cons {x y : ι} {l l' : List ι} :
    Cyclic next prev (x :: l ++ y :: l') ↔
      (x :: l ++ [y]).IsChain (Linked next prev) ∧ (y :: l' ++ [x]).IsChain (Linked next prev) := by
  unfold Cyclic
  have hsplit : (x :: l ++ y :: l') ++ (x :: l ++ y :: l').head?.toList =
      (x :: l) ++ y :: (l' ++ [x]) := by simp
  rw [hsplit, List.isChain_split]
  rfl

theorem cyclic_of_isChain {x t : ι} {l : List ι} (h : (x :: l).IsChain (Linked next prev))
    (ht : tailPtr (x :: l) = .to t) (htx : Linked next prev t x) : Cyclic next prev (x :: l) := by
  obtain ⟨m, hm⟩ := exists_concat_of_tailPtr ht
  refine h.append (by simp) ?_
  intro a ha b hb
  obtain rfl : t = a := by simpa [hm] using ha
  obtain rfl : x = b := by simpa using hb
  exact htx

/-- A ring has no distinguished start. -/
theorem cyclic_append_comm {l l' : List ι} :
    Cyclic next prev (l ++ l') ↔ Cyclic next prev (l' ++ l) := by
  cases l with
  | nil => simp
  | cons x l =>
    cases l' with
    | nil => simp
    | cons y l' => rw [cyclic_cons_append_cons, cyclic_cons_append_cons, and_comm]

/-- `Ring next prev tp l`: the circular doubly linked list reached from its
tail pointer `tp` holds exactly `l`, head first. -/
structure Ring (next prev : ι → Ptr ι) (tp : Ptr ι) (l : List ι) : Prop where
  tail : tp = tailPtr l
  nodup : l.Nodup
  cyclic : Cyclic next prev l

theorem Ring.nil : Ring next prev .null [] :=
  ⟨rfl, List.nodup_nil, by simp [Cyclic]⟩

/-- A ring depends on the links of its own entries only. -/
theorem Ring.congr {tp : Ptr ι} {l : List ι} (h : Ring next prev tp l)
    (hnext : ∀ x ∈ l, next' x = next x) (hprev : ∀ x ∈ l, prev' x = prev x) :
    Ring next' prev' tp l := by
  refine ⟨h.tail, h.nodup, ?_⟩
  cases l with
  | nil => simp [Cyclic]
  | cons x l =>
    refine isChain_linked_congr h.cyclic ?_ ?_
    · intro y hy
      have hmem : y ∈ (x :: l ++ [x]).dropLast := hy
      rw [List.dropLast_concat] at hmem
      exact hnext y hmem
    · intro y hy
      have hmem : y ∈ x :: l := by
        simp only [List.cons_append, List.tail_cons, List.mem_append] at hy
        rcases hy with hy | hy
        · exact List.mem_cons_of_mem _ hy
        · simp at hy
          simp [hy]
      exact hprev y hmem

theorem Ring.singleton {x : ι} (hnext : next x = .to x) (hprev : prev x = .to x) :
    Ring next prev (.to x) [x] :=
  ⟨rfl, List.nodup_singleton x, by simp [Cyclic, Linked, hnext, hprev]⟩

/-- The head of a nonempty ring follows its tail, and the tail precedes it. -/
theorem Ring.tail_head {tp : Ptr ι} {x t : ι} {l : List ι} (h : Ring next prev tp (x :: l))
    (ht : tailPtr (x :: l) = .to t) : next t = .to x ∧ prev x = .to t := by
  obtain ⟨m, y, hm⟩ := List.eq_nil_or_concat (x :: l) |>.resolve_left (by simp)
  have hty : y = t := by simpa [hm] using ht
  subst hty
  have hchain := h.cyclic
  unfold Cyclic at hchain
  rw [List.head?_cons, hm] at hchain
  have hlink : Linked next prev y x := by
    have hsplit : (m ++ y :: x :: []).IsChain (Linked next prev) := by simpa using hchain
    exact linked_of_isChain_append hsplit
  exact hlink

/-- From the head of a ring the links lead through the other entries back to it. -/
theorem Ring.segment {tp : Ptr ι} {x : ι} {l : List ι} (h : Ring next prev tp (x :: l)) :
    Segment next (next x) l (.to x) :=
  (segment_of_isChain (l := x :: l) h.cyclic).2

/-- Appending `p` behind the tail `t` of a nonempty ring with head `x`. -/
theorem Ring.push {tp : Ptr ι} {x t p : ι} {l : List ι} (h : Ring next prev tp (x :: l))
    (ht : tailPtr (x :: l) = .to t) (hp : p ∉ x :: l)
    (hnext : ∀ y ∈ x :: l, y ≠ t → next' y = next y)
    (hprev : ∀ y ∈ x :: l, y ≠ x → prev' y = prev y)
    (htp : Linked next' prev' t p) (hpx : Linked next' prev' p x) :
    Ring next' prev' (.to p) (x :: l ++ [p]) := by
  refine ⟨(tailPtr_concat _ _).symm, ?_, ?_⟩
  · exact List.nodup_append.mpr ⟨h.nodup, List.nodup_singleton p, by
      intro a ha b hb
      rw [List.mem_singleton.mp hb]
      rintro rfl
      exact hp ha⟩
  · have hinner : (x :: l).IsChain (Linked next' prev') :=
      isChain_linked_relink h.cyclic.left_of_append h.nodup ht hnext hprev
    obtain ⟨m, hm⟩ := exists_concat_of_tailPtr ht
    refine cyclic_of_isChain (t := p) ?_ (tailPtr_concat (x :: l) p) hpx
    refine hinner.append (by simp) ?_
    intro a ha b hb
    obtain rfl : t = a := by simpa [hm] using ha
    obtain rfl : p = b := by simpa using hb
    exact htp

/-- The neighbours of an entry `p` are the ends of the ring cut open at `p`. -/
theorem Ring.neighbours {tp : Ptr ι} {p x y : ι} {a b : List ι}
    (h : Ring next prev tp (a ++ p :: b))
    (hx : headPtr (b ++ a) = .to x) (hy : tailPtr (b ++ a) = .to y) :
    next p = .to x ∧ prev p = .to y := by
  have hcyc : Cyclic next prev (p :: (b ++ a)) := by
    have := cyclic_append_comm.mp h.cyclic
    simpa using this
  have hring : Ring next prev (tailPtr (p :: (b ++ a))) (p :: (b ++ a)) := by
    refine ⟨rfl, ?_, hcyc⟩
    have := h.nodup
    simp only [List.nodup_append, List.nodup_cons, List.mem_append] at this ⊢
    grind
  cases hc : b ++ a with
  | nil => simp [hc] at hx
  | cons z c =>
    rw [hc] at hx hy hcyc hring
    have hzx : z = x := by simpa using hx
    subst hzx
    have htail : tailPtr (p :: z :: c) = .to y := by
      rw [← hy]
      exact tailPtr_append_cons [p] c z
    refine ⟨?_, (hring.tail_head htail).2⟩
    have hsplit : ([] ++ p :: z :: (c ++ [p])).IsChain (Linked next prev) := by
      simpa [Cyclic] using hcyc
    have hlink : Linked next prev p z := linked_of_isChain_append hsplit
    exact hlink.1

/-- Unlinking `p` from a ring with other entries, whose neighbours of `p` are
`y` before it and `x` behind it. -/
theorem Ring.remove {tp : Ptr ι} {p x y : ι} {a b : List ι}
    (h : Ring next prev tp (a ++ p :: b))
    (hx : headPtr (b ++ a) = .to x) (hy : tailPtr (b ++ a) = .to y)
    (hnext : ∀ z ∈ a ++ b, z ≠ y → next' z = next z)
    (hprev : ∀ z ∈ a ++ b, z ≠ x → prev' z = prev z)
    (hyx : Linked next' prev' y x) : Ring next' prev' (tailPtr (a ++ b)) (a ++ b) := by
  have hnodup : (p :: (b ++ a)).Nodup := by
    have := h.nodup
    simp only [List.nodup_append, List.nodup_cons, List.mem_append] at this ⊢
    grind
  refine ⟨rfl, ?_, ?_⟩
  · have := h.nodup
    simp only [List.nodup_append, List.nodup_cons] at this ⊢
    grind
  have hcyc : Cyclic next prev (p :: (b ++ a)) := by
    have := cyclic_append_comm.mp h.cyclic
    simpa using this
  rw [cyclic_append_comm]
  have hmem : ∀ z, z ∈ b ++ a → z ∈ a ++ b := by
    intro z hz
    simp only [List.mem_append] at hz ⊢
    exact hz.symm
  cases hc : b ++ a with
  | nil => simp [hc] at hx
  | cons z c =>
    obtain rfl : z = x := by simpa [hc] using hx
    have hinner : (z :: c).IsChain (Linked next prev) := by
      have hsub : (z :: c) <:+: (p :: (b ++ a)) ++ (p :: (b ++ a)).head?.toList :=
        ⟨[p], [p], by simp [hc]⟩
      exact hcyc.infix hsub
    rw [hc] at hnodup hmem hy
    refine cyclic_of_isChain ?_ hy hyx
    exact isChain_linked_relink hinner (List.nodup_cons.mp hnodup).2 hy
      (fun w hw => hnext w (hmem w hw)) (fun w hw => hprev w (hmem w hw))

variable [DecidableEq ι]

/-- The entries of a ring, head first, as far as `fuel` steps from its tail go. -/
def ringList (next : ι → Ptr ι) (fuel : Nat) (tp : Ptr ι) : List ι :=
  match tp with
  | .to t => walk next (.to t) fuel (next t) ++ [t]
  | _ => []

theorem Ring.ringList_eq {tp : Ptr ι} {l : List ι} {fuel : Nat} (h : Ring next prev tp l)
    (hfuel : l.length ≤ fuel) : ringList next fuel tp = l := by
  rcases List.eq_nil_or_concat' l with rfl | ⟨m, t, rfl⟩
  · rw [h.tail]
    rfl
  · have ht : tp = .to t := by rw [h.tail, tailPtr_concat]
    subst ht
    have hhead : next t = headPtr (m ++ [t]) := by
      cases hm : m ++ [t] with
      | nil => simp at hm
      | cons x l =>
        rw [hm] at h
        exact (h.tail_head (by rw [← hm, tailPtr_concat])).1
    have hseg : Segment next (next t) m (.to t) := by
      rw [hhead]
      exact segment_of_isChain h.cyclic.left_of_append
    have hstop : ∀ x ∈ m, Ptr.to t ≠ .to x := by
      rintro x hx heq
      obtain rfl : t = x := by simpa using heq
      exact (List.nodup_append.mp h.nodup).2.2 t hx t (by simp) rfl
    have hlen : m.length ≤ fuel := by
      rw [List.length_append] at hfuel
      omega
    unfold ringList
    simp only
    rw [hseg.walk_eq hstop hlen]

end Links
