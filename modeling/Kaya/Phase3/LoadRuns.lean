import Kaya.Phase3.Loaded
import Kaya.Phase3.Script

open Exec

namespace Kaya

open Phase3

variable {β : Type} {S : Setup} {tapes : Word → List β} {l : LoadTrace β}
  {y : UserPool β × Happening Word UserEntry Op} {g g' : Word → Point} {s s' : Phase3 β}
  {t u ID : Word} {p x : Point} {o : Op} {r : o.Answer} {i k : Nat}
  {c c' : UserPool β} {e : Happening Word UserEntry Op}

/-- The point can be one of `uProcInit`. -/
def Point.Loads : Point → Prop
  | rest => True
  | boot => True
  | tape _ => True
  | disk (.store _) _ => True
  | check _ => True
  | finish => True
  | _ => False

/-- What holds in all states of a run. -/
structure Loaded (S : Setup) (tapes : Word → List β) (l : LoadTrace β) (g : Word → Point)
    (s : Phase3 β) : Prop where
  process : ∀ ID, s.started ID = true → S.IsProcess ID
  started : ∀ ID, g ID ≠ .rest → s.started ID = true
  booting : ∀ ID, Booting l ID → (g ID).Loads
  reading : TapesKept tapes g s
  disk : BlocksKept tapes l g s
  frames : FramesKept S tapes l g s

/-- The next operation changes nothing that the processes share but `next`. -/
def Point.Quiet : Point → Prop
  | tape _ => False
  | disk _ .seek => False
  | disk _ .transfer => False
  | unmap _ _ _ _ => False
  | swapIn _ _ => False
  | map _ _ => False
  | _ => True

theorem Moves.ne_rest (h : Moves S ID p o r x) : p ≠ .rest := by
  cases h <;> simp

theorem Moves.loads (h : Moves S ID p o r x) (hp : p.Loads) : x.Loads := by
  cases h with
  | @lock j | @seek j | @transfer j | @unlock j =>
    cases j with
    | store k => trivial
    | _ => exact hp
  | check => split <;> trivial
  | boot | tape | finish => trivial
  | _ => exact absurd hp (by simp [Point.Loads])

theorem Moves.quiet (h : Moves S ID p o r x) (hquiet : p.Quiet)
    (halone : Alone S true ID o s r s') :
    (∃ n, s' = { s with next := n }) ∧ ∀ j, x ≠ .disk j .transfer := by
  have hsemaphore : opKind S o ≠ .other → ∃ n, s' = { s with next := n } := fun hkind =>
    ⟨s.next, halone.of_semaphore hkind⟩
  cases h with
  | boot => exact ⟨hsemaphore (by simp [opKind]), by simp⟩
  | lock => exact ⟨hsemaphore (by simp [opKind]), by simp⟩
  | @unlock j =>
    refine ⟨hsemaphore (by simp [opKind]), ?_⟩
    cases j <;> simp [Job.after]
  | finish => exact ⟨hsemaphore (by simp [opKind]), by simp⟩
  | fault => exact ⟨hsemaphore (by simp [opKind]), by simp⟩
  | release => exact ⟨hsemaphore (by simp [opKind]), by simp⟩
  | check =>
    refine ⟨?_, fun j => by split <;> simp⟩
    cases halone with
    | semaphore hkind => exact absurd rfl hkind
    | other _ _ hact =>
      cases hact
      exact ⟨s.next, rfl⟩
  | next =>
    obtain ⟨-, rfl⟩ := alone_getNext halone
    exact ⟨⟨s'.next, rfl⟩, by simp⟩
  | advance =>
    obtain rfl := alone_setNext halone
    exact ⟨⟨_, rfl⟩, by simp⟩
  | victim =>
    obtain ⟨-, rfl⟩ := alone_getSwap halone
    exact ⟨⟨s'.next, rfl⟩, fun j => by split <;> simp⟩
  | entry =>
    obtain ⟨-, rfl⟩ := alone_getEntryLO halone
    exact ⟨⟨s'.next, rfl⟩, by simp⟩
  | tape | seek | transfer | unmap | swapIn | map => exact absurd hquiet (by simp [Point.Quiet])

/-- Where a process has a mutex, all others that took it may still wait. -/
def Apart (g : Word → Point) (t : Word) : Prop :=
  ∀ u, u ≠ t → ∀ m : Sem, m.isMutex = true → m ∈ (g t).held t → m ∈ (g u).held u →
    (g u).awaited u = some m

/-- No other process is between a seek and its transfer. -/
theorem Apart.disk (h : Apart g t) {j j' : Job} {stage : Stage} (hpoint : g t = .disk j stage)
    (hstage : stage ≠ .lock) (hut : u ≠ t) : g u ≠ .disk j' .transfer := by
  intro hu
  have hmem : Sem.mutexArray DISK0 ∈ (g t).held t := by
    rw [hpoint]
    cases stage with
    | lock => exact absurd rfl hstage
    | _ => cases j <;> simp [Point.held]
  have hmem' : Sem.mutexArray DISK0 ∈ (g u).held u := by
    rw [hu]
    cases j' <;> simp [Point.held]
  have hwaits := h u hut _ rfl hmem hmem'
  rw [hu] at hwaits
  exact absurd hwaits (by simp [Point.awaited])

theorem Apart.swap (h : Apart g t) (hmem : Sem.swap ∈ (g t).held t) (hut : u ≠ t)
    (hmem' : Sem.swap ∈ (g u).held u) : (g u).awaited u = some .swap :=
  h u hut _ rfl hmem hmem'

section perform

variable (h : Loaded S tapes l g s) (hmove : Moves S t (g t) o r x)

include h hmove

/-- What does not depend on the operation. -/
theorem Loaded.move (hstarted : s'.started = s.started) (hy : y.2 = .perform t o)
    (hreading : TapesKept tapes (Function.update g t x) s')
    (hdisk : BlocksKept tapes (y :: l) (Function.update g t x) s')
    (hframes : FramesKept S tapes (y :: l) (Function.update g t x) s') :
    Loaded S tapes (y :: l) (Function.update g t x) s' := by
  obtain ⟨c, e⟩ := y
  obtain rfl : e = .perform t o := hy
  refine ⟨?_, ?_, fun u hu => ?_, hreading, hdisk, hframes⟩
  · rw [hstarted]
    exact h.process
  · rw [hstarted]
    refine (Function.forall_update_iff g fun u p => p ≠ .rest → s.started u = true).mpr ?_
    exact ⟨fun _ => h.started t hmove.ne_rest, fun u _ => h.started u⟩
  · have hloads := h.booting u hu
    by_cases hut : u = t
    · subst hut
      rw [Function.update_self]
      exact hmove.loads hloads
    · rwa [Function.update_of_ne hut]

theorem Loaded.quiet (hquiet : (g t).Quiet) (halone : Alone S true t o s r s')
    (hy : y.2 = .perform t o) : Loaded S tapes (y :: l) (Function.update g t x) s' := by
  have hlearns := halone.learns
  obtain ⟨⟨n, rfl⟩, hx⟩ := hmove.quiet hquiet halone
  have hreads : ∀ k, g t ≠ .tape k := by
    intro k hk
    rw [hk] at hquiet
    exact hquiet
  have hstores : ∀ j, g t ≠ .disk j .transfer := by
    intro j hj
    rw [hj] at hquiet
    exact hquiet
  have hmaps : ∀ a i, g t ≠ .map a i := by
    intro a i hmap
    rw [hmap] at hquiet
    exact hquiet
  have hchanges : ¬ (g t).ChangesFrames := by
    intro hchanges
    generalize g t = p at hquiet hchanges
    cases p with
    | disk j stage =>
      cases stage with
      | transfer => exact hquiet
      | _ => cases j <;> exact hchanges
    | unmap | swapIn | map => exact hquiet
    | _ => exact hchanges
  refine h.move hmove rfl hy ?_ ?_ ?_
  · exact h.reading.stay rfl rfl rfl (fun _ _ => rfl) (hmove.reads hreads (h.reading.reads t))
  · exact h.disk.stay rfl rfl rfl hx (hmove.stored hstores (h.reading.reads t) hlearns)
  · refine h.frames.move rfl rfl rfl (fun _ _ _ => rfl) hmaps ?_
    exact hmove.pages hchanges hlearns h.frames.entries (h.frames.pages t)

end perform

theorem HasRead.lt {T : List β} (h : HasRead T s ID k) : k < T.length :=
  (List.getElem?_eq_some_iff.mp h.buffer).1

section busy

variable (h : Loaded S tapes l g s)

include h

theorem Loaded.cylinder_lt (hlength : (tapes t).length ≤ KUSEGSIZE - 1) {j : Job} {stage : Stage}
    (hpoint : g t = .disk j stage) : j.cylinder.toNat < 2 ^ 24 := by
  have hreads := h.reading.reads t
  have hpages := h.frames.pages t
  rw [hpoint] at hreads hpages
  cases j with
  | store k =>
    have hk : k < 2 ^ 24 :=
      lt_of_lt_of_le (HasRead.lt hreads) (hlength.trans (by decide))
    exact ofNat_toNat_lt hk
  | evict a i w =>
    obtain ⟨-, owner, a', -, rfl, -⟩ := hpages
    exact lt_trans pageOf_lt (by decide)
  | fetch a i => exact lt_trans pageOf_lt (by decide)

theorem Loaded.tape (hID : S.IsProcess t) (hpoint : g t = .tape k)
    (hdone : s.Done (tapeCommand t) s') (hdevice : (t - 1).toNat < DEVPERINT)
    (hy : y.2 = .perform t (.waitio (tapeCommand t))) :
    Loaded S tapes (y :: l) (Function.update g t (.disk (.store k) .lock)) s' := by
  have hmove : Moves S t (g t) (.waitio (tapeCommand t)) READY (.disk (.store k) .lock) :=
    hpoint ▸ .tape
  have hreading := h.reading.read hpoint hID (h.started t hmove.ne_rest) hdevice hdone
  obtain ⟨b, rest, -, rfl⟩ := done_tape hID hdone
  refine h.move hmove rfl hy hreading ?_ ?_
  · exact h.disk.stay rfl rfl rfl (by simp) (by rw [hpoint]; exact le_refl _)
  · refine h.frames.move rfl rfl rfl (fun i hi _ => ?_) (by simp [hpoint])
      trivial
    rw [readTape_page, Function.update_of_ne (tapeBuffer_ne_swapAddress hdevice hi).symm]

theorem Loaded.seek {j : Job} (hlength : (tapes t).length ≤ KUSEGSIZE - 1) (hapart : Apart g t)
    (hpoint : g t = .disk j .seek) (hdone : s.Done (seekCommand DISK0 j.cylinder) s')
    (hy : y.2 = .perform t (.waitio (seekCommand DISK0 j.cylinder))) :
    Loaded S tapes (y :: l) (Function.update g t (.disk j .transfer)) s' := by
  have hmove : Moves S t (g t) (.waitio (seekCommand DISK0 j.cylinder)) READY (.disk j .transfer) :=
    hpoint ▸ .seek
  have hcylinder := h.cylinder_lt hlength hpoint
  have hdisk := h.disk.seek (y := y) hpoint
    (fun u j' hut => hapart.disk hpoint (by simp) hut) hcylinder hdone
  obtain rfl := hdone.of_seek rfl DISKINT_ne rfl hcylinder
  refine h.move hmove rfl hy ?_ hdisk ?_
  · exact h.reading.stay rfl rfl rfl (fun _ _ => rfl)
      (hmove.reads (by simp [hpoint]) (h.reading.reads t))
  · refine h.frames.move rfl rfl rfl (fun _ _ _ => rfl) (by simp [hpoint]) ?_
    refine hmove.pages ?_ trivial h.frames.entries (h.frames.pages t)
    rw [hpoint]
    cases j <;> exact id

/-- What a transfer of any kind leaves as it is. -/
theorem Loaded.transfer {j : Job} (hID : S.IsProcess t) (hlength : (tapes t).length ≤ KUSEGSIZE - 1)
    (hapart : Apart g t) (hpoint : g t = .disk j .transfer) (hdone : s.Done (j.command S t) s')
    (hy : y.2 = .perform t (.waitio (j.command S t))) :
    Loaded S tapes (y :: l) (Function.update g t (.disk j .unlock)) s' := by
  have hmove : Moves S t (g t) (.waitio (j.command S t)) READY (.disk j .unlock) :=
    hpoint ▸ .transfer
  have hothers : ∀ u j', u ≠ t → g u ≠ .disk j' .transfer := fun u j' hut =>
    hapart.disk hpoint (by simp) hut
  have hreads := h.reading.reads t
  have hpages := h.frames.pages t
  have hmoved := hmove.reads (by simp [hpoint]) hreads
  rw [hpoint] at hreads hpages
  cases j with
  | store k =>
    have hk : k < 2 ^ 24 :=
      lt_of_lt_of_le (HasRead.lt hreads) (hlength.trans (by decide))
    have hdisk := h.disk.store (y := y) hpoint hothers hreads hk hID hdone
    obtain rfl := hdone.of_write rfl DISKINT_ne rfl hID.sector_lt rfl
    refine h.move hmove rfl hy (h.reading.stay rfl rfl rfl (fun _ _ => rfl) hmoved) hdisk ?_
    exact h.frames.move rfl rfl rfl (fun _ _ _ => rfl) (by simp [hpoint]) trivial
  | evict a i w =>
    obtain ⟨hi, owner, a', howner, hw, hin⟩ := hpages
    have hdisk := h.disk.evict (y := y) hpoint hothers howner hw hin hdone
    subst hw
    obtain rfl := hdone.of_write rfl DISKINT_ne rfl howner.sector_lt (head_zero _ _)
    refine h.move hmove rfl hy (h.reading.stay rfl rfl rfl (fun _ _ => rfl) hmoved) hdisk ?_
    exact h.frames.move rfl rfl rfl (fun _ _ _ => rfl) (by simp [hpoint])
      ⟨hi, owner, a', howner, rfl, hin⟩
  | fetch a i =>
    have hstarted := h.started t hmove.ne_rest
    have hblock : ¬ BroughtIn l t (pageOf a) → ∀ b, (tapes t)[(pageOf a).toNat]? = some b →
        s.block s.cylinder 0 (t - 1) = b := by
      intro hnot b hb
      have hpage : BitVec.ofNat 32 (pageOf a).toNat = pageOf a := BitVec.ofNat_toNat ..
      have hstored := h.disk.stored t hstarted
      rw [hpoint] at hstored
      have hkept := hstored _ (List.getElem?_eq_some_iff.mp hb).1 b hb (by rwa [hpage])
      rw [hpage] at hkept
      rw [h.disk.cylinder t _ hpoint]
      exact hkept
    have hswap : Sem.swap ∈ (g t).held t := by
      rw [hpoint]
      simp [Point.held]
    have hframes := h.frames.fetch (y := y) (fun u hut => hapart.swap hswap hut) hpoint hblock
      hID hdone
    obtain rfl := hdone.of_read rfl DISKINT_ne rfl hID.sector_lt (head_zero _ _)
    refine h.move hmove rfl hy ?_ ?_ hframes
    · refine h.reading.stay rfl rfl rfl (fun u hu => ?_) hmoved
      exact Function.update_of_ne (tapeBuffer_ne_swapAddress hu hpages.1) _ _
    · exact h.disk.stay rfl rfl rfl (by simp) (by rw [hpoint]; exact le_refl _)

/-- Only the tables change. -/
theorem Loaded.table (hmove : Moves S t (g t) o r x) (hy : y.2 = .perform t o)
    (htables : ∃ pool shared own,
      s' = { s with swapPool := pool, kuSeg3 := shared, uProc_pte := own })
    (hread : ∀ k, g t ≠ .tape k) (htransfer : ∀ j, g t ≠ .disk j .transfer)
    (hseek : ∀ j, x ≠ .disk j .transfer) (hlearns : Learns s o r)
    (hframes : FramesKept S tapes (y :: l) (Function.update g t x) s') :
    Loaded S tapes (y :: l) (Function.update g t x) s' := by
  obtain ⟨pool, shared, own, rfl⟩ := htables
  refine h.move hmove rfl hy ?_ ?_ hframes
  · exact h.reading.stay rfl rfl rfl (fun _ _ => rfl) (hmove.reads hread (h.reading.reads t))
  · exact h.disk.stay rfl rfl rfl hseek (hmove.stored htransfer (h.reading.reads t) hlearns)

/-- One operation of one process. -/
theorem Loaded.perform (hlength : ∀ ID, S.IsProcess ID → (tapes ID).length ≤ KUSEGSIZE - 1)
    (hapart : Apart g t) (hmove : Moves S t (g t) o r x) (halone : Alone S true t o s r s')
    (hdevice : ∀ c, o = .waitio c → c.device.toNat < DEVPERINT) (hy : y.2 = .perform t o) :
    Loaded S tapes (y :: l) (Function.update g t x) s' := by
  have hID := h.process t (h.started t hmove.ne_rest)
  by_cases hquiet : (g t).Quiet
  · exact h.quiet hmove hquiet halone hy
  have hmoves := hmove
  generalize hpoint : g t = p at hmove hquiet
  have hothers : Sem.swap ∈ p.held t → ∀ u, u ≠ t → Sem.swap ∈ (g u).held u →
      (g u).awaited u = some .swap := fun hmem u hut => hapart.swap (hpoint ▸ hmem) hut
  cases hmove with
  | tape => exact h.tape hID hpoint halone.of_waitio.2 (hdevice _ rfl) hy
  | seek => exact h.seek (hlength t hID) hapart hpoint halone.of_waitio.2 hy
  | transfer => exact h.transfer hID (hlength t hID) hapart hpoint halone.of_waitio.2 hy
  | @unmap a i w v =>
    obtain rfl := alone_setEntryLO halone
    have hframes := h.frames.unmap (y := y) (hothers (by simp [Point.held])) hpoint
    exact h.table hmoves hy (by cases w.sw_pte <;> exact ⟨_, _, _, rfl⟩) (by simp [hpoint])
      (by simp [hpoint]) (by simp) trivial hframes
  | @swapIn a i =>
    obtain rfl := alone_setSwap halone
    have hframes := h.frames.swapIn (y := y) (hothers (by simp [Point.held])) hpoint hID
    exact h.table hmoves hy ⟨_, _, _, rfl⟩ (by simp [hpoint]) (by simp [hpoint]) (by simp)
      trivial hframes
  | @map a i =>
    obtain rfl := alone_setEntryLO halone
    have hin : BroughtIn (y :: l) t (pageOf a) := by
      refine ⟨y, List.mem_cons_self, t, _, hy, ?_⟩
      rw [BitVec.or_assoc]
      exact valid_or swapAddress_low rfl
    have hframes := h.frames.map (y := y) (hothers (by simp [Point.held])) hpoint hID hin
    exact h.table hmoves hy ⟨_, _, _, rfl⟩ (by simp [hpoint]) (by simp [hpoint]) (by simp)
      trivial hframes
  | _ => exact absurd trivial hquiet

end busy

/-- A process begins to load its tape. -/
theorem Loaded.boot (h : Loaded S tapes l g s) {n : Nat} (hrest : g t = .rest) (hID : S.IsProcess t)
    (hnot : s.started t = false) (hy : y.2 = .enter t (.boot n)) :
    Loaded S tapes (y :: l) (Function.update g t .boot)
      { s with started := Function.update s.started t true } := by
  obtain ⟨c, e⟩ := y
  obtain rfl : e = .enter t (.boot n) := hy
  have hothers : ∀ u, u ≠ t → Function.update s.started t true u = s.started u := fun u hut =>
    Function.update_of_ne hut _ _
  refine ⟨?_, ?_, fun u hu => ?_, ?_, ?_, ?_⟩
  · refine (Function.forall_update_iff s.started fun u b => b = true → S.IsProcess u).mpr ?_
    exact ⟨fun _ => hID, fun u _ => h.process u⟩
  · refine (Function.forall_update_iff g fun u p => p ≠ .rest →
      Function.update s.started t true u = true).mpr ?_
    refine ⟨fun _ => Function.update_self _ _ _, fun u hut hu => ?_⟩
    exact (hothers u hut).trans (h.started u hu)
  · by_cases hut : u = t
    · subst hut
      rw [Function.update_self]
      trivial
    · rw [Function.update_of_ne hut]
      exact h.booting u ((if_neg (Ne.symm hut)).mp hu)
  · refine h.reading.move (fun u hu => ?_) (fun _ _ => rfl) (fun _ _ => rfl) (fun _ _ _ => rfl)
      (h.reading.unread t hnot)
    have hut : u ≠ t := by
      rintro rfl
      exact absurd ((Function.update_self _ _ _).symm.trans hu) (by simp)
    exact h.reading.unread u ((hothers u hut).symm.trans hu)
  · exact h.disk.move hothers (fun _ _ _ _ => rfl) (fun _ _ _ _ => rfl) (by simp)
      fun _ k hk => absurd hk (Nat.not_lt_zero k)
  · exact h.frames.move rfl rfl rfl (fun _ _ _ => rfl) (by simp [hrest]) trivial

/-- A process that has no code to run changes at most pages that are mapped. -/
theorem Loaded.user (h : Loaded S tapes l g s) {page : Word → β} (hrest : g t = .rest)
    (hx : x = .rest ∨ ∃ a, x = .fault a ∧ s.started t = true)
    (hbooting : ∀ u, Booting (y :: l) u → u ≠ t ∧ Booting l u)
    (hpage : ∀ a, page a ≠ s.page a → ∃ q, s.IsValid q ∧ a = frameNumber (s.entryLO q)) :
    Loaded S tapes (y :: l) (Function.update g t x) { s with page := page } := by
  have hbuffer : ∀ u, (u - 1).toNat < DEVPERINT → page (tapeBuffer u) = s.page (tapeBuffer u) := by
    intro u hu
    by_contra hne
    obtain ⟨q, hvalid, hframe⟩ := hpage _ hne
    obtain ⟨i, hi, -, hframe'⟩ := h.frames.entries q hvalid
    exact tapeBuffer_ne_swapAddress hu hi (hframe.trans hframe')
  have hframes : ∀ i < S.SWAPSIZE, Unmapped S s i →
      page (swapAddress S i) = s.page (swapAddress S i) := by
    intro i _ hunmapped
    by_contra hne
    obtain ⟨q, hvalid, hframe⟩ := hpage _ hne
    exact hunmapped q hvalid hframe.symm
  have hpoint : Reads (tapes t) s t x ∧ (∀ j, x ≠ .disk j .transfer) ∧
      x.stored (tapes t).length ≤ (g t).stored (tapes t).length ∧ Pages S (tapes t) l s t x := by
    rw [hrest]
    rcases hx with rfl | ⟨a, rfl, -⟩
    all_goals exact ⟨trivial, by simp, le_refl _, trivial⟩
  obtain ⟨hreads, htransfer, hstored, hpages⟩ := hpoint
  refine ⟨h.process, ?_, fun u hu => ?_, h.reading.stay rfl rfl rfl hbuffer hreads,
    h.disk.stay rfl rfl rfl htransfer hstored, ?_⟩
  · refine (Function.forall_update_iff g fun u p => p ≠ .rest → s.started u = true).mpr ?_
    refine ⟨fun hne => ?_, fun u _ => h.started u⟩
    rcases hx with rfl | ⟨a, -, hstarted⟩
    · exact absurd rfl hne
    · exact hstarted
  · obtain ⟨hut, hu⟩ := hbooting u hu
    rw [Function.update_of_ne hut]
    exact h.booting u hu
  · exact h.frames.move rfl rfl rfl hframes (by simp [hrest]) hpages

/-- A process enters code or executes an instruction of its own. -/
theorem Loaded.enter (h : Loaded S tapes l g s) {entry : UserEntry} (hrest : g t = .rest)
    (henters : (loadThreads β S).enters t entry [] s s') (hy : y.2 = .enter t entry) :
    Loaded S tapes (y :: l) (Function.update g t (entryPoint entry)) s' := by
  have hbooting : (∀ n, entry ≠ .boot n) → ∀ u, Booting (y :: l) u → u ≠ t ∧ Booting l u := by
    intro hentry u hu
    obtain ⟨c, e⟩ := y
    obtain rfl : e = .enter t entry := hy
    have hif : if t = u then ∃ n, entry = .boot n else Booting l u := hu
    split at hif
    · obtain ⟨n, hn⟩ := hif
      exact absurd hn (hentry n)
    · exact ⟨Ne.symm ‹_›, hif⟩
  obtain ⟨henter, hload⟩ := henters
  cases entry with
  | boot n =>
    cases henter with
    | boot hID hnot => exact h.boot hrest hID hnot hy
  | tlb st =>
    cases henter with
    | tlb htrap =>
      rcases htrap with huser | ⟨o, k, held, fs, hstack, -⟩
      · exact h.user hrest (.inr ⟨_, rfl, huser.2.2⟩) (hbooting (by simp))
          fun a hne => absurd rfl hne
      · exact absurd hstack (by simp)
  | store a =>
    cases henter with
    | store _ hseg hmapped =>
      refine h.user hrest (.inl rfl) (hbooting (by simp)) fun a' hne => ?_
      refine ⟨pteOf t a, hmapped hseg, ?_⟩
      by_contra hother
      have hpage : s.pageAt t a = frameNumber (s.entryLO (pteOf t a)) := by
        rw [pageAt, if_pos hseg]
        rfl
      exact hne (Function.update_of_ne (hpage ▸ hother) _ _)
  | _ => exact absurd hload (by simp [LoadEntry])

theorem Loaded.leave (h : Loaded S tapes l g s) (hrest : g t = .rest) (hy : y.2 = .leave t) :
    Loaded S tapes (y :: l) g s := by
  have hbooting : ∀ u, Booting (y :: l) u → u ≠ t ∧ Booting l u := by
    intro u hu
    obtain ⟨c, e⟩ := y
    obtain rfl : e = .leave t := hy
    exact ⟨Ne.symm hu.1, hu.2⟩
  have hleft : Loaded S tapes (y :: l) (Function.update g t (g t)) s :=
    h.user hrest (.inl hrest) hbooting fun a hne => absurd rfl hne
  rwa [Function.update_eq_self] at hleft

/-- What an operation does when the devices are ready. -/
theorem DevicesReady.alone {v v' : Sem → Int} (hkind : opKind S o = .other)
    (hact : Acts S t o (v, s) r (v', s')) (hready : DevicesReady o r) :
    Alone S true t o s r s' ∧ ∀ c, o = .waitio c → c.device.toNat < DEVPERINT := by
  by_cases hwait : ∃ c, o = .waitio c
  · obtain ⟨c, rfl⟩ := hwait
    refine ⟨.waitio hact fun _ => hready.1, fun c' hc' => ?_⟩
    obtain rfl := Op.waitio.inj hc'
    exact hready.2
  · exact ⟨.other hkind (fun c hc => hwait ⟨c, hc⟩) hact, fun c hc => absurd ⟨c, hc⟩ hwait⟩

/-- An operation of a process, while the other processes are at their points. -/
theorem load_performs (hturn : (loadPoints β S).Turn g c c' (.perform t o) g') :
    ∃ r x, c.Running t ∧ Moves S t (g t) o r x ∧ Alone S true t o c.shared r c'.shared ∧
      (∀ d, o = .waitio d → d.device.toNat < DEVPERINT) ∧ g' = Function.update g t x := by
  cases hturn with
  | @semaphore _ _ r x hrun hkind hmove hshared =>
    refine ⟨r, x, hrun, hmove, ?_, fun d hd => ?_, rfl⟩
    · rw [hshared]
      exact .semaphore hkind
    · subst hd
      exact absurd rfl hkind
  | @other _ _ r x hrun hkind hmove hact =>
    obtain ⟨halone, hdevice⟩ := DevicesReady.alone hkind hact.1 hact.2
    exact ⟨r, x, hrun, hmove, halone, hdevice, rfl⟩

theorem Loaded.step (h : Loaded S tapes l g c.shared) (hlocked : (loadThreads β S).Locked steady c)
    (hat : (loadPoints β S).At g c)
    (hlength : ∀ ID, S.IsProcess ID → (tapes ID).length ≤ KUSEGSIZE - 1)
    (hturn : (loadPoints β S).Turn g c c' e g') : Loaded S tapes ((c, e) :: l) g' c'.shared := by
  cases e with
  | enter t entry =>
    cases hturn with
    | enter _ hrest henters => exact h.enter hrest henters rfl
  | leave t =>
    cases hturn with
    | leave hrest hshared =>
      rw [hshared]
      exact h.leave hrest rfl
  | perform t o =>
    obtain ⟨r, x, hrun, hmove, halone, hdevice, rfl⟩ := load_performs hturn
    have hapart : Apart g t := fun u hut m hmutex hmem hmem' =>
      hat.exclusive hlocked hrun hmutex hmem hut hmem'
    exact h.perform hlength hapart hmove halone hdevice rfl

/-- A loader changes blocks of its own process only. -/
theorem Loaded.keeps {cylinder head sector : Word} (h : Loaded S tapes l g s)
    (hlength : ∀ ID, S.IsProcess ID → (tapes ID).length ≤ KUSEGSIZE - 1) (hbooting : Booting l t)
    (hmove : Moves S t (g t) o r x) (halone : Alone S true t o s r s')
    (hne : s'.block cylinder head sector ≠ s.block cylinder head sector) :
    head = 0 ∧ sector = t - 1 := by
  have hID := h.process t (h.started t hmove.ne_rest)
  have hloads := h.booting t hbooting
  by_cases hquiet : (g t).Quiet
  · obtain ⟨⟨n, rfl⟩, -⟩ := hmove.quiet hquiet halone
    exact absurd rfl hne
  generalize hpoint : g t = p at hmove hquiet hloads
  cases hmove with
  | tape =>
    obtain ⟨b, rest, -, rfl⟩ := done_tape hID halone.of_waitio.2
    exact absurd rfl hne
  | seek =>
    obtain rfl := halone.of_waitio.2.of_seek rfl DISKINT_ne rfl
      (h.cylinder_lt (hlength t hID) hpoint)
    exact absurd rfl hne
  | @transfer j =>
    cases j with
    | store k =>
      obtain rfl := halone.of_waitio.2.of_write rfl DISKINT_ne rfl hID.sector_lt rfl
      by_contra hother
      exact hne (if_neg fun hsame => hother hsame.2)
    | _ => exact absurd hloads (by simp [Point.Loads])
  | unmap | swapIn | map => exact absurd hloads (by simp [Point.Loads])
  | _ => exact absurd trivial hquiet

/-- The page that is entered into a page table for the first time. -/
theorem Loaded.delivers {owner page w : Word} {b : β} {r : Unit} (h : Loaded S tapes l g s)
    (hmove : Moves S t (g t) (.setEntryLO (.uProc_pte owner page) w) r x)
    (halone : Alone S true t (.setEntryLO (.uProc_pte owner page) w) s r s')
    (hvalid : w &&& VALID = VALID) (hnot : ¬ BroughtIn l owner page)
    (hb : (tapes owner)[page.toNat]? = some b) : s'.page (frameNumber w) = b := by
  have hpages := h.frames.pages t
  obtain rfl := alone_setEntryLO halone
  generalize g t = p at hmove hpages
  generalize hq : PtePtr.uProc_pte owner page = q at hmove
  cases hmove with
  | unmap =>
    rw [show nVALID = 0#32 from rfl, BitVec.and_zero] at hvalid
    exact absurd hvalid (by decide)
  | @map a i =>
    cases hq
    obtain ⟨⟨-, hfetched⟩, -⟩ := hpages
    rw [setEntryLO_page, BitVec.or_assoc, frameNumber_or swapAddress_low rfl]
    exact hfetched hnot b hb

theorem Unloaded.loaded (h : Unloaded S tapes c) :
    Loaded S tapes [] (fun _ => .rest) c.shared := by
  have hnone : ∀ ID, c.shared.started ID ≠ true := fun ID => by simp [h.started ID]
  refine ⟨fun ID hID => absurd hID (hnone ID), fun ID hID => absurd rfl hID, fun ID hID => hID.elim,
    ⟨fun ID _ => by rw [h.tape], fun ID => trivial⟩,
    ⟨fun ID j hj => absurd hj (by simp), fun ID hID => absurd hID (hnone ID)⟩,
    ⟨fun ID => trivial, fun i hi hoccupied => absurd hoccupied (h.frames i hi), fun q hvalid => ?_⟩⟩
  exact absurd hvalid (h.entries q)

theorem loaded_of_run (h : (loadSystem S tapes).Trace l c) :
    (loadThreads β S).Locked steady c ∧
      (∀ ID, S.IsProcess ID → (tapes ID).length ≤ KUSEGSIZE - 1) ∧
      ∃ g, (loadPoints β S).At g c ∧ Loaded S tapes l g c.shared := by
  induction h with
  | @init c hinit =>
    refine ⟨?_, fun ID hID => (hinit.blocks ID hID).2, fun _ => .rest,
      ⟨fun t => ?_, fun t s hs => ?_⟩, hinit.loaded⟩
    · have hlocked : (userThreads S).Locked steady c := hinit.atRest.locked
      refine ⟨fun t => ?_, hlocked.nodup, hlocked.exclusive, hlocked.mutexes, hlocked.dead⟩
      rw [hinit.atRest.stack]
      trivial
    · rw [hinit.atRest.stack]
      exact .idle rfl
    · rw [hinit.atRest.queue] at hs
      exact absurd hs List.not_mem_nil
  | step _ hstep ih =>
    obtain ⟨hlocked, hlength, g, hat, hloaded⟩ := ih
    obtain ⟨hlocked', g', hat', hturn⟩ := load_step hlocked hat hstep
    exact ⟨hlocked', hlength, g', hat', hloaded.step hlocked hat hlength hturn⟩

/-- In every run of loaders and of processes in `kUseg2`, the pager brings in what the
loaders have stored. -/
theorem loads_of_run (h : (loadSystem S tapes).Trace ((c, e) :: l) c') :
    LoadsRight tapes l c e c' := by
  cases h with
  | step htrace hstep =>
    obtain ⟨hlocked, hlength, g, hat, hloaded⟩ := loaded_of_run htrace
    obtain ⟨-, g', -, hturn⟩ := load_step hlocked hat hstep
    refine ⟨?_, ?_⟩
    · rintro t owner page w b rfl hvalid hnot hb
      obtain ⟨r, x, -, hmove, halone, -⟩ := load_performs hturn
      exact hloaded.delivers hmove halone hvalid hnot hb
    · rintro t o cylinder head sector rfl hbooting hne
      obtain ⟨r, x, -, hmove, halone, -⟩ := load_performs hturn
      exact hloaded.keeps hlength hbooting hmove halone hne

/-- Whether a step brings the page in. -/
def bringsIn (ID page : Word) : Happening Word UserEntry Op → Bool
  | .perform _ (.setEntryLO (.uProc_pte a p) w) => decide (a = ID ∧ p = page ∧ w &&& VALID = VALID)
  | _ => false

theorem bringsIn_iff {page : Word} : bringsIn ID page e = true ↔
    ∃ t w, e = .perform t (.setEntryLO (.uProc_pte ID page) w) ∧ w &&& VALID = VALID := by
  constructor
  · intro h
    unfold bringsIn at h
    split at h
    · obtain ⟨rfl, rfl, hvalid⟩ := of_decide_eq_true h
      exact ⟨_, _, rfl, hvalid⟩
    · exact absurd h Bool.false_ne_true
  · rintro ⟨t, w, rfl, hvalid⟩
    exact decide_eq_true ⟨rfl, rfl, hvalid⟩

instance (l : LoadTrace β) (ID page : Word) : Decidable (BroughtIn l ID page) :=
  decidable_of_iff (∃ y ∈ l, bringsIn ID page y.2 = true)
    (exists_congr fun _ => and_congr_right' bringsIn_iff)

instance (entry : UserEntry) : Decidable (LoadEntry entry) :=
  match entry with
  | .boot _ => .isTrue trivial
  | .tlb _ => inferInstanceAs (Decidable (_ ∧ _))
  | .store _ => .isTrue trivial
  | .daemon _ => .isFalse id
  | .call _ _ => .isFalse id
  | .program => .isFalse id

theorem devicesReady_of_serve {w : Word} {o : Op} {r : o.Answer} {s s' : Phase3 β}
    (h : o.serve S ID w s = some (r, s'))
    (hdevice : ∀ c, o = .waitio c → c.device.toNat < DEVPERINT) : DevicesReady o r := by
  cases o with
  | waitio c =>
    obtain ⟨s'', -, heq⟩ := Option.map_eq_some_iff.mp h
    exact ⟨(congrArg Prod.fst heq).symm, hdevice c rfl⟩
  | _ => trivial

/-- The operation is no command to a device that does not exist. -/
def Op.onDevice : Op → Bool
  | .waitio c => decide (c.device.toNat < DEVPERINT)
  | _ => true

def loadCast (β : Type) (S : Setup) : Scene.Cast (loadThreads β S) Word where
  enters ID entry fs s := if LoadEntry entry then entry.admitted S ID fs s else none
  act ID w o s := if o.onDevice = true then o.serve S ID w s else none
  answer := Op.answer
  enters_spec ID entry fs s s' h := by
    obtain ⟨hentry, hadmit⟩ := Option.ite_none_right_eq_some.mp h
    exact ⟨enters_of_admitted hadmit, hentry⟩
  act_spec ID w o v s r s' h := by
    obtain ⟨hdevice, hserve⟩ := Option.ite_none_right_eq_some.mp h
    refine ⟨acts_of_serve v hserve, devicesReady_of_serve hserve ?_⟩
    rintro c rfl
    exact of_decide_eq_true hdevice

/-- The tapes of two processes. -/
def twoTapes (ID : Word) : List Bool := if ID = 1 then [true, false] else [false, true]

/-- Nothing has run, and each tape has two blocks. -/
def tapedPool : UserPool Bool where
  value _ := 1
  queue _ := []
  stack _ := []
  dead _ := false
  halted := false
  shared := { Phase3.blank false with tape := twoTapes }

theorem tapedPool_unloaded : Unloaded .small twoTapes tapedPool := by
  refine ⟨⟨fun _ => rfl, fun _ _ => rfl, fun _ => rfl, fun _ => rfl, rfl⟩, fun _ => rfl,
    fun i _ hoccupied => hoccupied rfl, fun p => ?_, rfl, fun ID _ => ?_⟩
  · cases p with
    | null => exact (by decide : ¬ (0 : Word) &&& VALID = VALID)
    | kuSeg3 page => exact (by decide : ¬ (GLOBAL ||| DIRTY) &&& VALID = VALID)
    | uProc_pte ID page => exact (by decide : ¬ DIRTY &&& VALID = VALID)
  · unfold twoTapes
    split <;> exact ⟨by decide, by decide⟩

/-- Both processes load their tapes, and each waits for the disk once. The first one faults
on its first page, and the second one takes the frame for its second page, up to the store
to its page table. -/
def loadCues : List UserCue :=
  [.enter 1 (.boot 2), .enter 2 (.boot 2)] ++ onwards 1 2 ++ onwards 2 2 ++ onwards 1 1 ++
    onwards 2 1 ++ onwards 1 6 ++ onwards 2 4 ++ onwards 1 5 ++ .leave 1 :: onwards 2 7 ++
    .leave 2 :: .enter 1 (.tlb firstFault) :: onwards 1 11 ++
    .leave 1 :: .enter 2 (.tlb secondFault) :: onwards 2 15

abbrev loadScript : Script (UserScene Bool) (Happening Word UserEntry Op) UserCue :=
  Scene.script (loadCast Bool .small)

def tapedScene : UserScene Bool := .start tapedPool fun _ => rfl

def loadedScene : UserScene Bool := loadScript.play tapedScene loadCues

/-- The steps that have led there. -/
def loadedTrace : LoadTrace Bool :=
  (loadScript.history tapedScene loadCues []).map fun x => (x.1.pool, x.2)

theorem loadScript_follows :
    loadScript.Follows ((loadSystem .small twoTapes).comap Scene.pool) :=
  Scene.script_follows _

/-- The second block of the tape of the second process is brought in. -/
theorem loads_of_run_small : ∃ t w c', (loadSystem .small twoTapes).Trace
      ((loadedScene.pool, .perform t (.setEntryLO (.uProc_pte 2 1) w)) :: loadedTrace) c' ∧
    BroughtIn loadedTrace 1 0 ∧ ¬ BroughtIn loadedTrace 2 1 ∧
    c'.shared.page (frameNumber w) = true := by
  have hinit : ((loadSystem .small twoTapes).comap Scene.pool).Trace [] tapedScene :=
    .init tapedPool_unloaded
  have hloaded := (loadScript_follows.trace hinit (l := loadCues) (by decide +kernel)).of_comap
  have hstep := loadScript_follows loadedScene (.perform 2 0) (by decide +kernel)
  have hbrings : bringsIn 2 1 (loadScript.event loadedScene (.perform 2 0)) = true := by
    decide +kernel
  obtain ⟨t, w, he, hvalid⟩ := bringsIn_iff.mp hbrings
  rw [he] at hstep
  have htrace := hloaded.step hstep
  have hfirst : ¬ BroughtIn loadedTrace 2 1 := by decide +kernel
  exact ⟨t, w, _, htrace, by decide +kernel, hfirst,
    (loads_of_run htrace).delivers t 2 1 w true rfl hvalid hfirst rfl⟩

end Kaya
