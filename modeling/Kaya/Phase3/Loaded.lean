import Kaya.Phase3.Loading

open Exec

namespace Kaya

open Phase3

variable {β : Type} {S : Setup} {tapes : Word → List β} {l : LoadTrace β}
  {y : UserPool β × Happening Word UserEntry Op} {g : Word → Point} {s s' : Phase3 β}
  {t u ID : Word} {x : Point} {o : Op} {r : o.Answer} {i j k : Nat} {T : List β}

/-! Buffers and frames are different pages of the RAM -/

theorem swapAddress_toNat (hi : i < S.SWAPSIZE) : (swapAddress S i).toNat =
    S.RAMTOP.toNat - (S.SWAPSIZE + 3) * PAGESIZE + i * PAGESIZE := by
  have hroom := S.room
  have htop := S.RAMTOP.isLt
  simp only [swapAddress, SWAPPOOL, PAGESIZE, BitVec.toNat_add, BitVec.toNat_sub,
    BitVec.toNat_ofNat] at hroom ⊢
  omega

theorem swapAddress_inj (hi : i < S.SWAPSIZE) (hj : j < S.SWAPSIZE)
    (h : swapAddress S i = swapAddress S j) : i = j := by
  have hnat := congrArg BitVec.toNat h
  rw [swapAddress_toNat hi, swapAddress_toNat hj] at hnat
  simp only [PAGESIZE] at hnat
  omega

theorem tapeBuffer_toNat (hID : (ID - 1).toNat < DEVPERINT) :
    (tapeBuffer ID).toNat = OSCODEEND.toNat + (ID - 1).toNat * PAGESIZE := by
  have hend : OSCODEEND.toNat = 0x2001E000 := rfl
  simp only [DEVPERINT] at hID
  simp only [tapeBuffer, PAGESIZE, BitVec.toNat_add, BitVec.toNat_mul, BitVec.toNat_ofNat, hend]
  omega

theorem tapeBuffer_inj (ht : (t - 1).toNat < DEVPERINT) (hu : (u - 1).toNat < DEVPERINT)
    (h : tapeBuffer t = tapeBuffer u) : t = u := by
  have hnat := congrArg BitVec.toNat h
  rw [tapeBuffer_toNat ht, tapeBuffer_toNat hu] at hnat
  have hsub : t - 1 = u - 1 := by
    apply BitVec.eq_of_toNat_eq
    simp only [PAGESIZE] at hnat
    omega
  exact (BitVec.sub_left_inj 1).mp hsub

theorem tapeBuffer_ne_swapAddress (hID : (ID - 1).toNat < DEVPERINT) (hi : i < S.SWAPSIZE) :
    tapeBuffer ID ≠ swapAddress S i := by
  intro h
  have hnat := congrArg BitVec.toNat h
  have hroom := S.room
  rw [tapeBuffer_toNat hID, swapAddress_toNat hi] at hnat
  simp only [PAGESIZE, DEVPERINT] at hnat hroom hID
  omega

theorem tapeNumber_inj (h : tapeNumber t = tapeNumber u) : t = u :=
  (BitVec.sub_left_inj 1).mp ((BitVec.add_right_inj _).mp h)

/-! The tapes -/

/-- Block `k` of the tape is in the buffer. -/
structure HasRead (T : List β) (s : Phase3 β) (ID : Word) (k : Nat) : Prop where
  tape : s.tape ID = T.drop (k + 1)
  data1 : s.data1 (tapeNumber ID) = if T.drop (k + 1) = [] then 0 else TAPE_EOB
  buffer : T[k]? = some (s.page (tapeBuffer ID))
  device : (ID - 1).toNat < DEVPERINT

/-- What a loader has read of its tape. -/
def Reads (T : List β) (s : Phase3 β) (ID : Word) : Point → Prop
  | .boot => s.tape ID = T
  | .tape k => s.tape ID = T.drop k
  | .disk (.store k) _ => HasRead T s ID k
  | .check k => HasRead T s ID k
  | _ => True

theorem Reads.congr (h : Reads T s ID x) (htape : s'.tape ID = s.tape ID)
    (hdata1 : s'.data1 (tapeNumber ID) = s.data1 (tapeNumber ID))
    (hbuffer : (ID - 1).toNat < DEVPERINT → s'.page (tapeBuffer ID) = s.page (tapeBuffer ID)) :
    Reads T s' ID x := by
  have hread : ∀ {k : Nat}, HasRead T s ID k → HasRead T s' ID k := fun h =>
    ⟨htape.trans h.tape, hdata1.trans h.data1, (hbuffer h.device) ▸ h.buffer, h.device⟩
  cases x with
  | boot | tape => exact htape.trans h
  | disk j stage =>
    cases j with
    | store k => exact hread h
    | _ => trivial
  | check k => exact hread h
  | _ => trivial

/-- Only the command to the tape reads a block. -/
theorem Moves.reads {p : Point} (hmove : Moves S ID p o r x) (hno : ∀ k, p ≠ .tape k)
    (h : Reads T s ID p) : Reads T s ID x := by
  cases hmove with
  | boot => exact h
  | tape => exact absurd rfl (hno _)
  | @lock j | @seek j | @transfer j | @unlock j =>
    cases j with
    | store k => exact h
    | _ => trivial
  | check =>
    split
    · exact h.tape
    · trivial
  | victim =>
    split <;> trivial
  | _ => trivial

/-- The tapes and their buffers. -/
structure TapesKept (tapes : Word → List β) (g : Word → Point) (s : Phase3 β) : Prop where
  unread : ∀ ID, s.started ID = false → s.tape ID = tapes ID
  reads : ∀ ID, Reads (tapes ID) s ID (g ID)

theorem TapesKept.move (h : TapesKept tapes g s)
    (hunread : ∀ u, s'.started u = false → s'.tape u = tapes u)
    (htape : ∀ u, u ≠ t → s'.tape u = s.tape u)
    (hdata1 : ∀ u, u ≠ t → s'.data1 (tapeNumber u) = s.data1 (tapeNumber u))
    (hbuffer : ∀ u, u ≠ t → (u - 1).toNat < DEVPERINT →
      s'.page (tapeBuffer u) = s.page (tapeBuffer u))
    (hreads : Reads (tapes t) s' t x) : TapesKept tapes (Function.update g t x) s' := by
  refine ⟨hunread, (Function.forall_update_iff g fun u p => Reads (tapes u) s' u p).mpr ?_⟩
  refine ⟨hreads, fun u hut => ?_⟩
  exact (h.reads u).congr (htape u hut) (hdata1 u hut) (hbuffer u hut)

/-- No tape is read. -/
theorem TapesKept.stay (h : TapesKept tapes g s) (hstarted : s'.started = s.started)
    (htape : s'.tape = s.tape) (hdata1 : s'.data1 = s.data1)
    (hbuffer : ∀ u, (u - 1).toNat < DEVPERINT → s'.page (tapeBuffer u) = s.page (tapeBuffer u))
    (hreads : Reads (tapes t) s t x) : TapesKept tapes (Function.update g t x) s' := by
  refine h.move (fun u hu => ?_) (fun u _ => by rw [htape]) (fun u _ => by rw [hdata1])
    (fun u _ => hbuffer u) (hreads.congr (by rw [htape]) (by rw [hdata1]) (hbuffer t))
  rw [hstarted] at hu
  rw [htape, h.unread u hu]

/-- The next block of a tape is in its buffer. -/
def Phase3.readTape (s : Phase3 β) (ID : Word) (b : β) (rest : List β) : Phase3 β :=
  { s.setPage (tapeBuffer ID) b with
    tape := Function.update s.tape ID rest
    data1 := Function.update s.data1 (tapeNumber ID) (if rest = [] then 0 else TAPE_EOB) }

theorem Phase3.readTape_page {b : β} {rest : List β} :
    (s.readTape ID b rest).page = Function.update s.page (tapeBuffer ID) b := rfl

theorem done_tape (hID : S.IsProcess ID) (h : s.Done (tapeCommand ID) s') :
    ∃ b rest, s.tape ID = b :: rest ∧ s' = s.readTape ID b rest := by
  have hdevice : tapeNumber ID ≠ DISK0 := deviceMutex_ne hID _ (by decide) (by decide)
  cases h with
  | seek hdev _ | read hdev _ _ | write hdev _ _ => exact absurd hdev hdevice
  | tape hdev _ _ hdata htape =>
    obtain rfl := tapeNumber_inj hdev
    obtain rfl := Option.some.inj hdata
    exact ⟨_, _, htape, rfl⟩
  | other _ hline => exact absurd rfl hline

/-- The command to the tape. -/
theorem TapesKept.read (h : TapesKept tapes g s) (hpoint : g t = .tape k) (hID : S.IsProcess t)
    (hstarted : s.started t = true) (hdevice : (t - 1).toNat < DEVPERINT)
    (hdone : s.Done (tapeCommand t) s') :
    TapesKept tapes (Function.update g t (.disk (.store k) .lock)) s' := by
  obtain ⟨b, rest, htape, rfl⟩ := done_tape hID hdone
  have hreads := h.reads t
  rw [hpoint] at hreads
  have hdrop : (tapes t).drop k = b :: rest := hreads.symm.trans htape
  have hget : (tapes t)[k]? = some b := by
    rw [← List.head?_drop, hdrop]
    rfl
  have hrest : (tapes t).drop (k + 1) = rest := by
    rw [← List.tail_drop, hdrop]
    rfl
  refine h.move (fun u hu => ?_) (fun u hut => Function.update_of_ne hut _ _) (fun u hut => ?_)
    (fun u hut hu => ?_) ?_
  · have hut : u ≠ t := by
      rintro rfl
      exact absurd (hstarted.symm.trans hu) (by simp)
    exact (Function.update_of_ne hut _ _).trans (h.unread u hu)
  · exact Function.update_of_ne (fun heq => hut (tapeNumber_inj heq)) _ _
  · have hne : tapeBuffer u ≠ tapeBuffer t := fun heq => hut (tapeBuffer_inj hu hdevice heq)
    rw [readTape_page, Function.update_of_ne hne]
  · refine ⟨?_, ?_, ?_, hdevice⟩
    · rw [hrest]
      exact Function.update_self _ _ _
    · rw [hrest]
      exact Function.update_self _ _ _
    · rw [hget, readTape_page, Function.update_self]

/-- What the code learns from an operation. -/
def Learns (s : Phase3 β) : (o : Op) → o.Answer → Prop
  | .getData1 d, r => r = s.data1 d
  | .getSwap i, r => r = s.swapPool i
  | _, _ => True

theorem Alone.learns (h : Alone S true ID o s r s') : Learns s o r := by
  cases h with
  | semaphore hkind => cases o <;> trivial
  | waitio _ _ => trivial
  | other _ _ hact => cases hact <;> first | rfl | trivial

/-! The disk -/

/-- How many of the `n` blocks of its tape a process has stored. -/
def Point.stored (n : Nat) : Point → Nat
  | boot => 0
  | tape k => k
  | disk (.store k) .unlock => k + 1
  | disk (.store k) _ => k
  | check k => k + 1
  | _ => n

theorem BroughtIn.mono {page : Word} (h : BroughtIn l ID page) : BroughtIn (y :: l) ID page := by
  obtain ⟨z, hz, hin⟩ := h
  exact ⟨z, List.mem_cons_of_mem y hz, hin⟩

/-- The first `n` blocks of the tape are on the disk, except for pages that may have
been written back. -/
def Stored (T : List β) (l : LoadTrace β) (s : Phase3 β) (ID : Word) (n : Nat) : Prop :=
  ∀ k < n, ∀ b, T[k]? = some b → ¬ BroughtIn l ID (BitVec.ofNat 32 k) →
    s.block (BitVec.ofNat 32 k) 0 (ID - 1) = b

/-- Disk 0. -/
structure BlocksKept (tapes : Word → List β) (l : LoadTrace β) (g : Word → Point)
    (s : Phase3 β) : Prop where
  cylinder : ∀ ID j, g ID = .disk j .transfer → s.cylinder = j.cylinder
  stored : ∀ ID, s.started ID = true →
    Stored (tapes ID) l s ID ((g ID).stored (tapes ID).length)

/-- Until the next block is stored, the loader only counts. -/
theorem Moves.stored {p : Point} (hmove : Moves S ID p o r x) (hno : ∀ j, p ≠ .disk j .transfer)
    (hreads : Reads T s ID p) (hlearns : Learns s o r) : x.stored T.length ≤ p.stored T.length := by
  cases hmove with
  | boot | tape | finish | fault | next | advance | entry | unmap | swapIn | map | release =>
    exact le_refl _
  | @lock j | @seek j | @unlock j => cases j <;> exact le_refl _
  | transfer => exact absurd rfl (hno _)
  | victim => split <;> exact le_refl _
  | @check k w =>
    split
    · exact le_refl _
    · rename_i hlast
      by_contra hmore
      have hdrop : T.drop (k + 1) ≠ [] := by
        rw [Ne, List.drop_eq_nil_iff]
        exact fun hle => hmore hle
      have hw : w = s.data1 (tapeNumber ID) := hlearns
      rw [hreads.data1, if_neg hdrop] at hw
      exact hlast hw

theorem BlocksKept.move (h : BlocksKept tapes l g s)
    (hstarted : ∀ u, u ≠ t → s'.started u = s.started u)
    (hcylinder : ∀ u j, u ≠ t → g u = .disk j .transfer → s'.cylinder = s.cylinder)
    (hblock : ∀ u k, u ≠ t → ¬ BroughtIn l u (BitVec.ofNat 32 k) →
      s'.block (BitVec.ofNat 32 k) 0 (u - 1) = s.block (BitVec.ofNat 32 k) 0 (u - 1))
    (hx : ∀ j, x = .disk j .transfer → s'.cylinder = j.cylinder)
    (hstored : s'.started t = true → Stored (tapes t) l s' t (x.stored (tapes t).length)) :
    BlocksKept tapes (y :: l) (Function.update g t x) s' := by
  refine ⟨?_, fun u hu k hk b hb hnot => ?_⟩
  · refine (Function.forall_update_iff g fun _ p => ∀ j, p = .disk j .transfer →
      s'.cylinder = j.cylinder).mpr ?_
    exact ⟨hx, fun u hut j hu => (hcylinder u j hut hu).trans (h.cylinder u j hu)⟩
  · by_cases hut : u = t
    · subst hut
      rw [Function.update_self] at hk
      exact hstored hu k hk b hb fun hin => hnot hin.mono
    · rw [Function.update_of_ne hut] at hk
      rw [hstarted u hut] at hu
      rw [hblock u k hut fun hin => hnot hin.mono]
      exact h.stored u hu k hk b hb fun hin => hnot hin.mono

/-- The disk is not used. -/
theorem BlocksKept.stay (h : BlocksKept tapes l g s) (hstarted : s'.started = s.started)
    (hcylinder : s'.cylinder = s.cylinder) (hblock : s'.block = s.block)
    (hx : ∀ j, x ≠ .disk j .transfer)
    (hstored : x.stored (tapes t).length ≤ (g t).stored (tapes t).length) :
    BlocksKept tapes (y :: l) (Function.update g t x) s' := by
  refine h.move (fun _ _ => by rw [hstarted]) (fun _ _ _ _ => hcylinder)
    (fun _ _ _ _ => by rw [hblock]) (fun j hj => absurd hj (hx j)) fun ht k hk => ?_
  rw [hstarted] at ht
  rw [hblock]
  exact h.stored t ht k (lt_of_lt_of_le hk hstored)

/-- The cylinder of a page of `kUseg2` or of a block of a tape. -/
theorem ofNat_toNat_lt (hk : k < 2 ^ 24) : (BitVec.ofNat 32 k).toNat < 2 ^ 24 := by
  rw [BitVec.toNat_ofNat]
  exact lt_of_le_of_lt (Nat.mod_le _ _) hk

/-- Disk 0 seeks for one process. -/
theorem BlocksKept.seek {j : Job} (h : BlocksKept tapes l g s) (hpoint : g t = .disk j .seek)
    (hothers : ∀ u j', u ≠ t → g u ≠ .disk j' .transfer) (hcylinder : j.cylinder.toNat < 2 ^ 24)
    (hdone : s.Done (seekCommand DISK0 j.cylinder) s') :
    BlocksKept tapes (y :: l) (Function.update g t (.disk j .transfer)) s' := by
  obtain rfl := hdone.of_seek rfl DISKINT_ne rfl hcylinder
  refine h.move (fun _ _ => rfl) (fun u j' hut hu => absurd hu (hothers u j' hut))
    (fun _ _ _ _ => rfl) (fun j' hj' => ?_) fun ht => ?_
  · cases hj'
    rfl
  · have hstored := h.stored t ht
    rw [hpoint] at hstored
    cases j <;> exact hstored

/-- The loader has stored a block. -/
theorem BlocksKept.store (h : BlocksKept tapes l g s) (hpoint : g t = .disk (.store k) .transfer)
    (hothers : ∀ u j', u ≠ t → g u ≠ .disk j' .transfer)
    (hread : HasRead (tapes t) s t k) (hk : k < 2 ^ 24) (hID : S.IsProcess t)
    (hdone : s.Done (storeCommand t) s') :
    BlocksKept tapes (y :: l) (Function.update g t (.disk (.store k) .unlock)) s' := by
  obtain rfl := hdone.of_write rfl DISKINT_ne rfl hID.sector_lt rfl
  have hcylinder : s.cylinder = BitVec.ofNat 32 k := h.cylinder t _ hpoint
  refine h.move (fun _ _ => rfl) (fun u j' hut hu => absurd hu (hothers u j' hut))
    (fun u k' hut _ => ?_) (fun j' hj' => absurd hj' (by simp)) fun ht k' hk' b hb hnot => ?_
  · refine if_neg fun hsame => hut ?_
    exact (BitVec.sub_left_inj 1).mp hsame.2.2
  · have hsplit : k' = k ∨ k' < k := by
      have hlt : k' < k + 1 := hk'
      omega
    rcases hsplit with rfl | hlt
    · refine (if_pos ⟨hcylinder.symm, rfl, rfl⟩).trans ?_
      exact Option.some.inj (hread.buffer.symm.trans hb)
    · have hne : ¬ (BitVec.ofNat 32 k' = s.cylinder ∧ (0 : Word) = 0 ∧ t - 1 = t - 1) := by
        rintro ⟨hsame, -, -⟩
        have hnat := congrArg BitVec.toNat (hsame.trans hcylinder)
        rw [BitVec.toNat_ofNat, BitVec.toNat_ofNat] at hnat
        omega
      have hstored := h.stored t ht
      rw [hpoint] at hstored
      exact (if_neg hne).trans (hstored k' hlt b hb hnot)

/-- The pager has written a page back. -/
theorem BlocksKept.evict {a page owner : Word} {w : Swap} (h : BlocksKept tapes l g s)
    (hpoint : g t = .disk (.evict a i w) .transfer)
    (hothers : ∀ u j', u ≠ t → g u ≠ .disk j' .transfer) (howner : S.IsProcess owner)
    (hw : w = pageEntry owner page) (hin : BroughtIn l owner page)
    (hdone : s.Done (Job.command S t (.evict a i w)) s') :
    BlocksKept tapes (y :: l) (Function.update g t (.disk (.evict a i w) .unlock)) s' := by
  subst hw
  obtain rfl := hdone.of_write rfl DISKINT_ne rfl howner.sector_lt (head_zero _ _)
  have hcylinder : s.cylinder = page := h.cylinder t _ hpoint
  have hblock : ∀ u k', ¬ BroughtIn l u (BitVec.ofNat 32 k') →
      ¬ (BitVec.ofNat 32 k' = s.cylinder ∧ (0 : Word) = 0 ∧ u - 1 = owner - 1) := by
    rintro u k' hnot ⟨hpage, -, hsector⟩
    obtain rfl := (BitVec.sub_left_inj 1).mp hsector
    rw [hpage, hcylinder] at hnot
    exact hnot hin
  refine h.move (fun _ _ => rfl) (fun u j' hut hu => absurd hu (hothers u j' hut))
    (fun u k' _ hnot => if_neg (hblock u k' hnot)) (fun j' hj' => absurd hj' (by simp))
    fun ht k' hk' b hb hnot => ?_
  have hstored := h.stored t ht
  rw [hpoint] at hstored
  exact (if_neg (hblock t k' hnot)).trans (hstored k' hk' b hb hnot)

/-! The frames -/

/-- No entry leads to the frame. -/
def Unmapped (S : Setup) (s : Phase3 β) (i : Nat) : Prop :=
  ∀ q, s.IsValid q → frameNumber (s.entryLO q) ≠ swapAddress S i

/-- A page that has not been in a frame before is in the frame as the tape has it. -/
def Fetched (S : Setup) (T : List β) (l : LoadTrace β) (s : Phase3 β) (ID a : Word)
    (i : Nat) : Prop :=
  ¬ BroughtIn l ID (pageOf a) → ∀ b, T[(pageOf a).toNat]? = some b → s.page (swapAddress S i) = b

/-- What the pager knows of the frame that it uses. -/
def Pages (S : Setup) (T : List β) (l : LoadTrace β) (s : Phase3 β) (ID : Word) : Point → Prop
  | .advance _ i => i < S.SWAPSIZE
  | .victim _ i => i < S.SWAPSIZE
  | .entry _ i w => i < S.SWAPSIZE ∧ s.swapPool i = w ∧ w.sw_asid ≠ -1
  | .unmap _ i w _ => i < S.SWAPSIZE ∧ s.swapPool i = w ∧ w.sw_asid ≠ -1
  | .disk (.evict _ i w) _ => (i < S.SWAPSIZE ∧ Unmapped S s i) ∧
      ∃ owner a, S.IsProcess owner ∧ w = pageEntry owner (pageOf a) ∧ BroughtIn l owner (pageOf a)
  | .disk (.fetch a i) .unlock => (i < S.SWAPSIZE ∧ Unmapped S s i) ∧ Fetched S T l s ID a i
  | .disk (.fetch _ i) _ => i < S.SWAPSIZE ∧ Unmapped S s i
  | .swapIn a i => (i < S.SWAPSIZE ∧ Unmapped S s i) ∧ Fetched S T l s ID a i
  | .map a i => ((i < S.SWAPSIZE ∧ Unmapped S s i) ∧ Fetched S T l s ID a i) ∧
      s.swapPool i = pageEntry ID (pageOf a)
  | _ => True

/-- The swap pool and the page tables. -/
structure FramesKept (S : Setup) (tapes : Word → List β) (l : LoadTrace β) (g : Word → Point)
    (s : Phase3 β) : Prop where
  pages : ∀ ID, Pages S (tapes ID) l s ID (g ID)
  frames : ∀ i < S.SWAPSIZE, s.Occupied i → ∃ owner a, S.IsProcess owner ∧
    s.swapPool i = pageEntry owner (pageOf a) ∧ (BroughtIn l owner (pageOf a) ∨ g owner = .map a i)
  entries : ∀ q, s.IsValid q → ∃ i < S.SWAPSIZE, s.Holds i q ∧
    frameNumber (s.entryLO q) = swapAddress S i

/-- Frames in use while a process goes to another point. -/
theorem FramesKept.owners (h : FramesKept S tapes l g s) (hpoint : ∀ a i, g t ≠ .map a i)
    (hi : i < S.SWAPSIZE) (hoccupied : s.Occupied i) : ∃ owner a, S.IsProcess owner ∧
      s.swapPool i = pageEntry owner (pageOf a) ∧
      (BroughtIn (y :: l) owner (pageOf a) ∨ Function.update g t x owner = .map a i) := by
  obtain ⟨owner, a, howner, hswap, hin⟩ := h.frames i hi hoccupied
  refine ⟨owner, a, howner, hswap, hin.imp BroughtIn.mono fun hmap => ?_⟩
  have hne : owner ≠ t := by
    rintro rfl
    exact hpoint a i hmap
  rwa [Function.update_of_ne hne]

section congr

variable (hpool : s'.swapPool = s.swapPool) (hentry : ∀ q, s'.entryLO q = s.entryLO q)

include hentry

theorem Unmapped.congr (h : Unmapped S s i) : Unmapped S s' i := by
  intro q hvalid
  rw [IsValid, hentry] at hvalid
  rw [hentry]
  exact h q hvalid

include hpool

/-- Pages that are mapped may change. -/
theorem Pages.congr (h : Pages S T l s ID x)
    (hpage : ∀ i < S.SWAPSIZE, Unmapped S s i →
      s'.page (swapAddress S i) = s.page (swapAddress S i)) :
    Pages S T (y :: l) s' ID x := by
  have hfree : ∀ {i : Nat}, i < S.SWAPSIZE ∧ Unmapped S s i → i < S.SWAPSIZE ∧ Unmapped S s' i :=
    fun hi => ⟨hi.1, hi.2.congr hentry⟩
  have hfetched : ∀ {a : Word} {i : Nat},
      (i < S.SWAPSIZE ∧ Unmapped S s i) ∧ Fetched S T l s ID a i →
      (i < S.SWAPSIZE ∧ Unmapped S s' i) ∧ Fetched S T (y :: l) s' ID a i := by
    rintro a i ⟨hi, hfetched⟩
    refine ⟨hfree hi, fun hnot b hb => ?_⟩
    rw [hpage i hi.1 hi.2]
    exact hfetched (fun hin => hnot hin.mono) b hb
  cases x with
  | entry a i w | unmap a i w _ => exact ⟨h.1, hpool ▸ h.2.1, h.2.2⟩
  | disk j stage =>
    cases j with
    | store k => trivial
    | evict a i w =>
      obtain ⟨hi, owner, a', howner, hw, hin⟩ := h
      exact ⟨hfree hi, owner, a', howner, hw, hin.mono⟩
    | fetch a i =>
      cases stage with
      | unlock => exact hfetched h
      | _ => exact hfree h
  | swapIn a i => exact hfetched h
  | map a i => exact ⟨hfetched h.1, hpool ▸ h.2⟩
  | advance a i | victim a i => exact h
  | _ => trivial

end congr

/-- The tables stay as they are. -/
theorem FramesKept.move (h : FramesKept S tapes l g s) (hpool : s'.swapPool = s.swapPool)
    (hshared : s'.kuSeg3 = s.kuSeg3) (hown : s'.uProc_pte = s.uProc_pte)
    (hpage : ∀ i < S.SWAPSIZE, Unmapped S s i →
      s'.page (swapAddress S i) = s.page (swapAddress S i))
    (hpoint : ∀ a i, g t ≠ .map a i) (hx : Pages S (tapes t) l s t x) :
    FramesKept S tapes (y :: l) (Function.update g t x) s' := by
  have hentry : ∀ q, s'.entryLO q = s.entryLO q := by
    intro q
    cases q with
    | null => rfl
    | kuSeg3 page => exact congrFun hshared page
    | uProc_pte ID page => exact congrFun (congrFun hown ID) page
  refine ⟨?_, fun i hi hoccupied => ?_, fun q hvalid => ?_⟩
  · refine (Function.forall_update_iff g fun u p => Pages S (tapes u) (y :: l) s' u p).mpr ?_
    exact ⟨hx.congr hpool hentry hpage, fun u _ => (h.pages u).congr hpool hentry hpage⟩
  · rw [Occupied, hpool] at hoccupied
    rw [hpool]
    exact h.owners hpoint hi hoccupied
  · rw [IsValid, hentry] at hvalid
    obtain ⟨i, hi, hholds, hframe⟩ := h.entries q hvalid
    refine ⟨i, hi, ?_, hentry q ▸ hframe⟩
    rwa [Holds, Occupied, hpool]

/-- A process that does not have `swap` knows nothing of the frames. -/
theorem pages_of_waiting (h : Sem.swap ∈ x.held ID → x.awaited ID = some .swap) :
    Pages S T l s ID x := by
  cases x with
  | disk j stage =>
    cases j with
    | store k => trivial
    | evict a i w | fetch a i =>
      cases stage <;> exact absurd (h (by simp [Point.held])) (by simp [Point.awaited])
  | advance | victim | entry | unmap | swapIn | map =>
    exact absurd (h (by simp [Point.held])) (by simp [Point.awaited])
  | _ => trivial

theorem ne_map_of_waiting {a : Word} (h : Sem.swap ∈ (g u).held u → (g u).awaited u = some .swap) :
    g u ≠ .map a i := by
  intro hmap
  rw [hmap] at h
  exact absurd (h (by simp [Point.held])) (by simp [Point.awaited])

/-- Only one process knows of the frames. -/
theorem pages_alone (hothers : ∀ u, u ≠ t → Sem.swap ∈ (g u).held u →
    (g u).awaited u = some .swap) (hx : Pages S (tapes t) l s t x) :
    ∀ u, Pages S (tapes u) l s u (Function.update g t x u) := by
  refine (Function.forall_update_iff g fun u p => Pages S (tapes u) l s u p).mpr ?_
  exact ⟨hx, fun u hut => pages_of_waiting (hothers u hut)⟩

/-- The next operation changes a table, or the page in a frame. -/
def Point.ChangesFrames : Point → Prop
  | disk (.fetch _ _) .transfer => True
  | unmap _ _ _ _ => True
  | swapIn _ _ => True
  | map _ _ => True
  | _ => False

theorem Moves.pages {p : Point} (hmove : Moves S ID p o r x) (hno : ¬ p.ChangesFrames)
    (hlearns : Learns s o r)
    (hentries : ∀ q, s.IsValid q → ∃ i < S.SWAPSIZE, s.Holds i q ∧
      frameNumber (s.entryLO q) = swapAddress S i)
    (h : Pages S T l s ID p) : Pages S T l s ID x := by
  cases hmove with
  | unmap | swapIn | map => exact absurd trivial hno
  | @lock j | @seek j | @unlock j =>
    cases j with
    | store k => trivial
    | evict a i w => first | exact h | exact h.1
    | fetch a i => exact h
  | @transfer j =>
    cases j with
    | store k => trivial
    | evict a i w => exact h
    | fetch a i => exact absurd trivial hno
  | next => exact Nat.mod_lt _ S.frames
  | advance => exact h
  | @victim a i w =>
    obtain rfl : w = s.swapPool i := hlearns
    split
    · exact ⟨h, rfl, ‹_›⟩
    · rename_i hfree
      refine ⟨h, fun q hvalid hframe => ?_⟩
      obtain ⟨j, hj, hholds, hframe'⟩ := hentries q hvalid
      obtain rfl := swapAddress_inj hj h (hframe'.symm.trans hframe)
      exact hfree hholds.1
  | entry => exact h
  | check => split <;> trivial
  | _ => trivial

section pager

variable {a : Word} {w : Swap} {v : Word}
  (h : FramesKept S tapes l g s)
  (hothers : ∀ u, u ≠ t → Sem.swap ∈ (g u).held u → (g u).awaited u = some .swap)

include h hothers

/-- A page of the disk has come into the frame. -/
theorem FramesKept.fetch (hpoint : g t = .disk (.fetch a i) .transfer)
    (hblock : ¬ BroughtIn l t (pageOf a) → ∀ b, (tapes t)[(pageOf a).toNat]? = some b →
      s.block s.cylinder 0 (t - 1) = b) (hID : S.IsProcess t)
    (hdone : s.Done (Job.command S t (.fetch a i)) s') :
    FramesKept S tapes (y :: l) (Function.update g t (.disk (.fetch a i) .unlock)) s' := by
  obtain rfl := hdone.of_read rfl DISKINT_ne rfl hID.sector_lt (head_zero _ _)
  have hpages := h.pages t
  rw [hpoint] at hpages
  refine ⟨pages_alone hothers ⟨hpages, fun hnot b hb => ?_⟩,
    fun j hj hoccupied => h.owners (by simp [hpoint]) hj hoccupied, h.entries⟩
  exact (Function.update_self _ _ _).trans (hblock (fun hin => hnot hin.mono) b hb)

/-- The page in the frame has lost its entry. -/
theorem FramesKept.unmap (hpoint : g t = .unmap a i w v) :
    FramesKept S tapes (y :: l) (Function.update g t (.disk (.evict a i w) .lock))
      (s.setEntryLO w.sw_pte (v &&& nVALID)) := by
  have hpages := h.pages t
  rw [hpoint] at hpages
  obtain ⟨hi, rfl, hoccupied⟩ := hpages
  obtain ⟨owner, a', howner, hswap, hin⟩ := h.frames i hi hoccupied
  have hnull : (s.swapPool i).sw_pte ≠ .null := by
    rw [hswap]
    simp [pageEntry]
  have hkept : ∀ q, (s.setEntryLO (s.swapPool i).sw_pte (v &&& nVALID)).IsValid q →
      q ≠ (s.swapPool i).sw_pte ∧
        (s.setEntryLO (s.swapPool i).sw_pte (v &&& nVALID)).entryLO q = s.entryLO q := by
    intro q hvalid
    have hq : q ≠ (s.swapPool i).sw_pte := by
      intro hq
      rw [IsValid, entryLO_setEntryLO hnull, if_pos hq, show nVALID = 0#32 from rfl,
        BitVec.and_zero] at hvalid
      exact absurd hvalid (by decide)
    exact ⟨hq, by rw [entryLO_setEntryLO hnull, if_neg hq]⟩
  have hentries : ∀ q, (s.setEntryLO (s.swapPool i).sw_pte (v &&& nVALID)).IsValid q →
      ∃ j < S.SWAPSIZE, j ≠ i ∧ s.Holds j q ∧ frameNumber (s.entryLO q) = swapAddress S j := by
    intro q hvalid
    obtain ⟨hq, hsame⟩ := hkept q hvalid
    rw [IsValid, hsame] at hvalid
    obtain ⟨j, hj, hholds, hframe⟩ := h.entries q hvalid
    refine ⟨j, hj, ?_, hholds, hframe⟩
    rintro rfl
    exact hq hholds.2.symm
  refine ⟨pages_alone hothers ⟨⟨hi, fun q hvalid hframe => ?_⟩, owner, a', howner, hswap, ?_⟩,
    fun j hj hoccupied' => ?_, fun q hvalid => ?_⟩
  · obtain ⟨j, hj, hji, -, hframe'⟩ := hentries q hvalid
    rw [(hkept q hvalid).2] at hframe
    exact hji (swapAddress_inj hj hi (hframe'.symm.trans hframe))
  · refine (hin.resolve_right fun hmap => ?_).mono
    have hne : owner ≠ t := by
      rintro rfl
      exact absurd (hmap.symm.trans hpoint) (by simp)
    exact ne_map_of_waiting (hothers owner hne) hmap
  · rw [Occupied, setEntryLO_swapPool] at hoccupied'
    rw [setEntryLO_swapPool]
    exact h.owners (by simp [hpoint]) hj hoccupied'
  · obtain ⟨j, hj, -, hholds, hframe⟩ := hentries q hvalid
    refine ⟨j, hj, ?_, (hkept q hvalid).2 ▸ hframe⟩
    rwa [Holds, Occupied, setEntryLO_swapPool]

/-- The frame is entered into the swap pool. -/
theorem FramesKept.swapIn (hpoint : g t = .swapIn a i) (hID : S.IsProcess t) :
    FramesKept S tapes (y :: l) (Function.update g t (.map a i))
      { s with swapPool := Function.update s.swapPool i (pageEntry t (pageOf a)) } := by
  have hpages := h.pages t
  rw [hpoint] at hpages
  obtain ⟨⟨hi, hunmapped⟩, hfetched⟩ := hpages
  refine ⟨pages_alone hothers ⟨⟨⟨hi, hunmapped⟩, fun hnot => hfetched fun hin => hnot hin.mono⟩,
    Function.update_self _ _ _⟩, fun j hj hoccupied => ?_, fun q hvalid => ?_⟩
  · by_cases hji : j = i
    · subst hji
      exact ⟨t, a, hID, Function.update_self _ _ _, .inr (Function.update_self _ _ _)⟩
    · have hsame : Function.update s.swapPool i (pageEntry t (pageOf a)) j = s.swapPool j :=
        Function.update_of_ne hji _ _
      have hoccupied' : s.Occupied j := by
        rw [Occupied] at hoccupied ⊢
        exact hsame ▸ hoccupied
      obtain ⟨owner, b, howner, hswap, hin⟩ :=
        h.owners (x := .map a i) (y := y) (t := t) (by simp [hpoint]) hj hoccupied'
      exact ⟨owner, b, howner, hsame.trans hswap, hin⟩
  · obtain ⟨j, hj, hholds, hframe⟩ := h.entries q hvalid
    have hji : j ≠ i := by
      rintro rfl
      exact hunmapped q hvalid hframe
    have hsame : ({ s with swapPool := Function.update s.swapPool i (pageEntry t (pageOf a)) } :
        Phase3 β).swapPool j = s.swapPool j := Function.update_of_ne hji _ _
    refine ⟨j, hj, ?_, hframe⟩
    rwa [Holds, Occupied, hsame]

/-- The frame is entered into the page table. -/
theorem FramesKept.map (hpoint : g t = .map a i) (hID : S.IsProcess t)
    (hin : BroughtIn (y :: l) t (pageOf a)) :
    FramesKept S tapes (y :: l) (Function.update g t .release)
      (s.setEntryLO (.uProc_pte t (pageOf a)) (swapAddress S i ||| VALID ||| DIRTY)) := by
  have hpages := h.pages t
  rw [hpoint] at hpages
  obtain ⟨⟨⟨hi, hunmapped⟩, -⟩, hswap⟩ := hpages
  refine ⟨pages_alone hothers trivial, fun j hj hoccupied => ?_, fun q hvalid => ?_⟩
  · rw [Occupied, setEntryLO_swapPool] at hoccupied
    rw [setEntryLO_swapPool]
    obtain ⟨owner, b, howner, hswap', hin'⟩ := h.frames j hj hoccupied
    refine ⟨owner, b, howner, hswap', .inl ?_⟩
    rcases hin' with hin' | hmap
    · exact hin'.mono
    · by_cases hut : owner = t
      · subst hut
        cases hpoint.symm.trans hmap
        exact hin
      · exact absurd hmap (ne_map_of_waiting (hothers owner hut))
  · by_cases hq : q = .uProc_pte t (pageOf a)
    · subst hq
      refine ⟨i, hi, ?_, ?_⟩
      · rw [Holds, Occupied, setEntryLO_swapPool, hswap]
        exact ⟨hID.ne_neg_one, rfl⟩
      · rw [entryLO_setEntryLO (by simp), if_pos rfl, BitVec.or_assoc]
        exact frameNumber_or swapAddress_low rfl
    · have hsame : (s.setEntryLO (.uProc_pte t (pageOf a))
          (swapAddress S i ||| VALID ||| DIRTY)).entryLO q = s.entryLO q := by
        rw [entryLO_setEntryLO (by simp), if_neg hq]
      rw [IsValid, hsame] at hvalid
      obtain ⟨j, hj, hholds, hframe⟩ := h.entries q hvalid
      refine ⟨j, hj, ?_, hsame ▸ hframe⟩
      rwa [Holds, Occupied, setEntryLO_swapPool]

end pager

end Kaya
