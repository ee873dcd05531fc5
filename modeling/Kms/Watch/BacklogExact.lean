import Kms.Watch.Backlog

/-!
# replay は完全であるか、使われないかである

頁の境目で prune や commit が割り込んでも、replay した列に穴は残らない。穴を見付けた replay は捨てられ、snapshot に落ちる。
ただし、穴の先の頁が `current` より後の行だけで一杯だと、cursor は進まず、loop は同じ頁を読み直し続ける。

* `scanPage_inv` — 走査した所までの entry は揃っている
* `replayEntries_diverges_iff` — 終わらないのは、cursor の先の頁が一杯で、全て `current` より後であり続けるとき
* `computeBacklog_correct` — 返った backlog は正しい
* `backlog_complete_iff` — 主定理
-/

namespace Kms.Watch

open Kms.Infra Kms.Storage

/-! ## 一頁の走査 -/

section Scan

variable {reg : Registration} {current : Nat}

/-- 検査を通った登録では、走査の一行は三通りである。 -/
theorem scanPage_cons_cases (hreg : reg.Valid) (st : ReplayState) (e : ChangeLogModel)
    (es : List ChangeLogModel) :
    (current < e.revision ∧ scanPage reg current st (e :: es) = .ok (some st)) ∨
      (e.revision ≤ current ∧ scanPage reg current st (e :: es) = .ok none) ∨
      (e.revision ≤ current ∧ e.revision = st.cursor + 1 ∧
        scanPage reg current st (e :: es) = scanPage reg current
          ⟨e.revision, st.out ++ (if reg.wants e then [e] else [])⟩ es) := by
  rw [scanPage]
  by_cases hcur : e.revision > current
  · rw [if_pos hcur]
    exact Or.inl ⟨hcur, rfl⟩
  have hle : e.revision ≤ current := Nat.le_of_not_lt hcur
  rw [if_neg hcur]
  by_cases hnext : e.revision ≠ st.cursor + 1
  · rw [if_pos hnext]
    exact Or.inr (Or.inl ⟨hle, rfl⟩)
  rw [if_neg hnext]
  have hnext' : e.revision = st.cursor + 1 := not_not.mp hnext
  -- この登録に流れない行は、cursor だけを進める。
  have hskip : reg.wants e = false → (⟨e.revision, st.out⟩ : ReplayState) =
      ⟨e.revision, st.out ++ (if reg.wants e then [e] else [])⟩ := by
    intro hw
    rw [hw]
    simp
  by_cases hres : isResourceChange e = false
  · rw [if_pos hres]
    refine Or.inr (Or.inr ⟨hle, hnext', ?_⟩)
    rw [← hskip (by simp [Registration.wants, hres])]
  rw [if_neg hres]
  by_cases hns : e.ref.ns ∉ reg.namespaces
  · rw [if_pos hns]
    refine Or.inr (Or.inr ⟨hle, hnext', ?_⟩)
    rw [← hskip (by simp [Registration.wants, Registration.matches, hns])]
  rw [if_neg hns]
  obtain ⟨id, hid, hpos⟩ := hreg.2 _ (not_not.mp hns)
  have hid' : reg.namespaceIDs e.ref.ns = some id := hid
  obtain ⟨n, rfl⟩ := Nat.exists_eq_succ_of_ne_zero (Nat.ne_of_gt hpos)
  rw [hid']
  show _ ∨ (_ ∧ (if e.namespaceID = 0 then Except.ok none
    else if e.namespaceID ≠ n + 1 then _ else _) = _) ∨ _
  by_cases hzero : e.namespaceID = 0
  · rw [if_pos hzero]
    exact Or.inr (Or.inl ⟨hle, rfl⟩)
  have hwants : reg.wants e = decide (e.namespaceID = n + 1) := by
    simp [Registration.wants, Registration.matches, hid', not_not.mp hns, hres]
  refine Or.inr (Or.inr ⟨hle, hnext', ?_⟩)
  show (if e.namespaceID = 0 then Except.ok none
    else if e.namespaceID ≠ n + 1 then _ else _) = _
  rw [if_neg hzero]
  by_cases hne : e.namespaceID ≠ n + 1
  · rw [if_pos hne, ← hskip (by rw [hwants]; exact decide_eq_false hne)]
  · rw [if_neg hne, hwants, if_pos (decide_eq_true (not_not.mp hne))]

theorem scanPage_progress (hreg : reg.Valid) {batch : List ChangeLogModel} :
    ∀ {st st' : ReplayState}, scanPage reg current st batch = .ok (some st') →
      (st' = st ∧ ∀ e ∈ batch.head?, current < e.revision) ∨
        (st.cursor < st'.cursor ∧ ∃ e ∈ batch.head?, e.revision ≤ current) := by
  induction batch with
  | nil =>
    intro st st' h
    rw [scanPage] at h
    cases h
    exact Or.inl ⟨rfl, fun e he => nomatch he⟩
  | cons e es ih =>
    intro st st' h
    rcases scanPage_cons_cases hreg st e es with ⟨hlt, heq⟩ | ⟨hle, heq⟩ | ⟨hle, hnext, heq⟩
    · rw [heq] at h
      cases h
      exact Or.inl ⟨rfl, fun x hx => Option.some.inj hx ▸ hlt⟩
    · rw [heq] at h
      cases h
    · rw [heq] at h
      refine Or.inr ⟨?_, e, rfl, hle⟩
      rcases ih h with ⟨rfl, _⟩ | ⟨hlt, _⟩
      · exact hnext ▸ Nat.lt_succ_self _
      · exact Nat.lt_trans (hnext ▸ Nat.lt_succ_self _) hlt

/-- 走査した所までの entry が揃っている。 -/
structure ReplayInv (reg : Registration) (history : List ChangeLogModel) (current : Nat)
    (st : ReplayState) : Prop where
  lastSeen_le : reg.lastSeenRevision ≤ st.cursor
  le_current : st.cursor ≤ current
  out : st.out = between reg.wants history reg.lastSeenRevision st.cursor

theorem scanPage_inv (hreg : reg.Valid) {history : List ChangeLogModel}
    (hinc : Increasing history) {batch : List ChangeLogModel}
    (hmem : ∀ e ∈ batch, e.revision ≤ current → e ∈ history) :
    ∀ {st : ReplayState}, ReplayInv reg history current st →
      scanPage reg current st batch = .ok none ∨
        ∃ st', scanPage reg current st batch = .ok (some st') ∧
          ReplayInv reg history current st' := by
  induction batch with
  | nil =>
    intro st hinv
    exact Or.inr ⟨st, by rw [scanPage], hinv⟩
  | cons e es ih =>
    intro st hinv
    rcases scanPage_cons_cases hreg st e es with ⟨_, heq⟩ | ⟨_, heq⟩ | ⟨hle, hnext, heq⟩
    · exact Or.inr ⟨st, heq, hinv⟩
    · exact Or.inl heq
    · rw [heq]
      refine ih (fun x hx => hmem x (List.mem_cons_of_mem _ hx)) ⟨?_, hle, ?_⟩
      · show reg.lastSeenRevision ≤ e.revision
        rw [hnext]
        exact Nat.le_succ_of_le hinv.lastSeen_le
      · show st.out ++ _ = between reg.wants history reg.lastSeenRevision e.revision
        rw [between_succ hinc hinv.lastSeen_le (hmem e List.mem_cons_self hle) hnext,
          hinv.out]

end Scan

/-! ## 頁の loop -/

/-- cursor の先の頁が一杯で、全て `current` より後である。 -/
def FullBeyond (log : ChangeLog) (cursor current : Nat) : Prop :=
  (listChangesSince log cursor dispatchBatch).length = dispatchBatch ∧
    ∀ e ∈ listChangesSince log cursor dispatchBatch, current < e.revision

/-- 頁は昇順なので、先頭が `current` より後なら全てがそうである。 -/
theorem fullBeyond_of_head {log : ChangeLog} {cursor current : Nat}
    (hfull : (listChangesSince log cursor dispatchBatch).length = dispatchBatch)
    (hhead : ∀ e ∈ (listChangesSince log cursor dispatchBatch).head?, current < e.revision) :
    FullBeyond log cursor current := by
  refine ⟨hfull, ?_⟩
  have hsorted := increasing_listChangesSince log cursor dispatchBatch
  generalize listChangesSince log cursor dispatchBatch = batch at hhead hsorted
  cases batch with
  | nil => exact fun e he => absurd he List.not_mem_nil
  | cons e es =>
    intro x hx
    have he := hhead e rfl
    rcases List.mem_cons.mp hx with rfl | hx
    · exact he
    · exact he.trans ((List.pairwise_cons.mp hsorted).1 x hx)

section Loop

variable {log : Nat → ChangeLog} {reg : Registration} {current k : Nat} {st st' : ReplayState}

theorem replayPage_inl (h : replayPage log reg current k st = .inl st') :
    st.cursor < current ∧
      scanPage reg current st (listChangesSince (log k) st.cursor dispatchBatch) =
        .ok (some st') ∧
      (listChangesSince (log k) st.cursor dispatchBatch).length = dispatchBatch := by
  unfold replayPage at h
  by_cases hlt : st.cursor < current
  · rw [if_pos hlt] at h
    simp only at h
    split at h
    · cases h
    · split at h
      · cases h
      · cases h
      · next hscan =>
        split at h
        · cases h
        · split at h
          · cases h
          · next hfull =>
            cases h
            refine ⟨hlt, hscan, Nat.le_antisymm ?_ (Nat.le_of_not_lt hfull)⟩
            exact List.length_take_le _ _
  · rw [if_neg hlt] at h
    cases h

theorem replayPage_measure (hreg : reg.Valid) (h : replayPage log reg current k st = .inl st') :
    st' = st ∨ current - st'.cursor < current - st.cursor := by
  obtain ⟨hlt, hscan, _⟩ := replayPage_inl h
  rcases scanPage_progress hreg hscan with ⟨heq, _⟩ | ⟨hcur, _⟩
  · exact Or.inl heq
  · exact Or.inr (by omega)

/-- 同じ状態に留まるのは、頁が一杯で、全て `current` より後であるとき。 -/
theorem replayPage_stays_iff (hreg : reg.Valid) :
    replayPage log reg current k st = .inl st ↔
      st.cursor < current ∧ FullBeyond (log k) st.cursor current := by
  constructor
  · intro h
    obtain ⟨hlt, hscan, hfull⟩ := replayPage_inl h
    refine ⟨hlt, ?_⟩
    rcases scanPage_progress hreg hscan with ⟨_, hhead⟩ | ⟨hcur, _⟩
    · exact fullBeyond_of_head hfull hhead
    · exact absurd hcur (Nat.lt_irrefl _)
  · rintro ⟨hlt, hfull, hbeyond⟩
    have hscan : scanPage reg current st (listChangesSince (log k) st.cursor dispatchBatch) =
        .ok (some st) := by
      generalize listChangesSince (log k) st.cursor dispatchBatch = batch at hbeyond
      cases batch with
      | nil => rw [scanPage]
      | cons e es => rw [scanPage, if_pos (hbeyond e List.mem_cons_self)]
    have hne : listChangesSince (log k) st.cursor dispatchBatch ≠ [] := by
      intro hnil
      rw [hnil] at hfull
      exact absurd hfull (by decide)
    unfold replayPage
    simp only [if_pos hlt, if_neg hne, hscan, hfull, if_neg (Nat.not_le_of_lt hlt),
      Nat.lt_irrefl, if_false]

theorem replayEntries_diverges_iff (hreg : reg.Valid) :
    (∀ fuel, replayEntries log reg current fuel = none) ↔
      ∃ m st, Reaches (replayPage log reg current) 2 ⟨reg.lastSeenRevision, []⟩ m st ∧
        st.cursor < current ∧ ∀ j, m ≤ j → FullBeyond (log j) st.cursor current := by
  unfold replayEntries
  rw [diverges_iff_stutters (fun st => current - st.cursor)
    (fun j t t' hb => replayPage_measure hreg hb)]
  refine exists_congr (fun m => exists_congr (fun st => and_congr_right (fun _ => ?_)))
  constructor
  · intro hst
    have hall := fun j hj => (replayPage_stays_iff hreg).mp (hst j hj)
    exact ⟨(hall m (Nat.le_refl m)).1, fun j hj => (hall j hj).2⟩
  · rintro ⟨hlt, hall⟩ j hj
    exact (replayPage_stays_iff hreg).mpr ⟨hlt, hall j hj⟩

/-- loop の一回は、揃った entry を保つか、揃った replay か、不完全という答を出す。 -/
theorem replayPage_inv (hreg : reg.Valid) {history : List ChangeLogModel}
    (hinc : Increasing history)
    (hmem : ∀ k, ∀ e ∈ log k, e.revision ≤ current → e ∈ history)
    (hinv : ReplayInv reg history current st) :
    (∀ st', replayPage log reg current k st = .inl st' → ReplayInv reg history current st') ∧
      ∀ r, replayPage log reg current k st = .inr r → r = .ok none ∨
        r = .ok (some (between reg.wants history reg.lastSeenRevision current)) := by
  have hbatch : ∀ e ∈ listChangesSince (log k) st.cursor dispatchBatch,
      e.revision ≤ current → e ∈ history :=
    fun e he => hmem k e (mem_listChangesSince he).1
  unfold replayPage
  by_cases hlt : st.cursor < current
  · simp only [if_pos hlt]
    split
    · exact ⟨(fun _ h => nomatch h), fun r h => Or.inl (Sum.inr.inj h).symm⟩
    · rcases scanPage_inv hreg hinc hbatch hinv with heq | ⟨st₁, heq, hinv₁⟩
      · rw [heq]
        exact ⟨(fun _ h => nomatch h), fun r h => Or.inl (Sum.inr.inj h).symm⟩
      · rw [heq]
        simp only
        split
        · next hge =>
          refine ⟨(fun _ h => nomatch h), fun r h => Or.inr ?_⟩
          rw [← Sum.inr.inj h, hinv₁.out, Nat.le_antisymm hinv₁.le_current hge]
        · split
          · exact ⟨(fun _ h => nomatch h), fun r h => Or.inl (Sum.inr.inj h).symm⟩
          · exact ⟨fun st' h => Sum.inl.inj h ▸ hinv₁, fun r h => nomatch h⟩
  · rw [if_neg hlt]
    refine ⟨(fun _ h => nomatch h), fun r h => Or.inr ?_⟩
    rw [← Sum.inr.inj h, hinv.out, Nat.le_antisymm hinv.le_current (Nat.le_of_not_lt hlt)]

theorem replayEntries_result (hreg : reg.Valid) {history : List ChangeLogModel}
    (hinc : Increasing history)
    (hmem : ∀ k, ∀ e ∈ log k, e.revision ≤ current → e ∈ history)
    (hle : reg.lastSeenRevision ≤ current) {fuel : Nat}
    {r : Except Err (Option (List ChangeLogModel))}
    (h : replayEntries log reg current fuel = some (k, r)) : 2 ≤ k ∧ (r = .ok none ∨
      r = .ok (some (between reg.wants history reg.lastSeenRevision current))) := by
  obtain ⟨j, st, hreach, hbody, rfl⟩ := iterate_eq_some h
  have hst : 2 ≤ j ∧ ReplayInv reg history current st := by
    refine hreach.invariant (I := fun j st => 2 ≤ j ∧ ReplayInv reg history current st) ?_
      ⟨Nat.le_refl 2, le_rfl, hle, (between_self reg.wants history _).symm⟩
    rintro j t t' ⟨hj, ht⟩ hb
    exact ⟨Nat.le_succ_of_le hj, (replayPage_inv hreg hinc hmem ht).1 t' hb⟩
  exact ⟨Nat.le_succ_of_le hst.1, (replayPage_inv hreg hinc hmem hst.2).2 r hbody⟩

end Loop

/-! ## view -/

theorem View.increasing (v : View) : Increasing v.history := by
  have hsorted := List.pairwise_lt_range' (s := 1) (n := v.store.changeLog.seq)
  rw [← v.contiguous, List.pairwise_map] at hsorted
  exact hsorted

theorem View.mem_of_revision_le {v v' : View} (h : v.history <+: v'.history) {e : ChangeLogModel}
    (he : e ∈ v'.history) (hle : e.revision ≤ v.store.changeLog.seq) : e ∈ v.history := by
  have hone : e.revision ∈ v'.history.map (·.revision) := List.mem_map_of_mem he
  rw [v'.contiguous, List.mem_range'_1] at hone
  have hthere : e.revision ∈ v.history.map (·.revision) := by
    rw [v.contiguous, List.mem_range'_1]
    omega
  obtain ⟨x, hx, hrev⟩ := List.mem_map.mp hthere
  rw [← v'.increasing.eq_of_revision_eq (h.subset hx) he hrev]
  exact hx

section Views

variable {view : Nat → View}

theorem prefix_view_history (hview : ∀ k, Later (view k) (view (k + 1))) (k : Nat) :
    (view 0).history <+: (view k).history := by
  induction k with
  | zero => exact List.prefix_rfl
  | succ k ih => exact ih.trans (hview k).history

theorem view_seq_le (hview : ∀ k, Later (view k) (view (k + 1))) (k : Nat) :
    (view 0).store.changeLog.seq ≤ (view k).store.changeLog.seq := by
  have hlen := (prefix_view_history hview k).length_le
  have hseq : ∀ v : View, v.history.length = v.store.changeLog.seq := by
    intro v
    have h := congrArg List.length v.contiguous
    rwa [List.length_map, List.length_range'] at h
  rwa [hseq, hseq] at hlen

/-- 購読した namespace incarnation のどれかが、もう無い。 -/
def NamespaceGone (s : Store) (reg : Registration) : Prop :=
  ∃ ns ∈ reg.namespaces, ∃ id ∈ reg.namespaceIDs ns,
    (⟨id, ns⟩ : NamespaceModel) ∉ s.namespaces.table.rows

/-- 正しい backlog。replay なら、最初に読んだ revision までの entry が全て揃っている。snapshot なら、その revision 以後の
一つの時点の値である。snapshot が取れないのは、購読した namespace が消えたときだけである。 -/
def CorrectBacklog (rq : Request) (view : Nat → View) (reg : Registration) :
    Except Err Backlog → Prop
  | .ok b =>
    if b.isSnapshot then
      currentRevision (view 0).store.changeLog ≤ b.revision ∧
        ∃ k, snapshotParameters (bindNamespaces rq reg) (view k).store reg.namespaces =
          .ok (b.snapshot, b.revision)
    else
      b.revision = currentRevision (view 0).store.changeLog ∧
        b.replay = between reg.wants (view 0).history reg.lastSeenRevision b.revision
  | .error _ => ∃ k, NamespaceGone (view k).store reg

theorem snapshotBacklog_correct (hview : ∀ k, Later (view k) (view (k + 1))) (rq : Request)
    (reg : Registration) (k : Nat) :
    CorrectBacklog rq view reg (snapshotBacklog rq (view k).store reg) := by
  cases hsnap : snapshotParameters (bindNamespaces rq reg) (view k).store reg.namespaces with
  | error e =>
    have hback : snapshotBacklog rq (view k).store reg = .error e := by
      rw [snapshotBacklog, hsnap]
      rfl
    rw [hback]
    refine ⟨k, ?_⟩
    rw [snapshotParameters, bind_eq_error_iff] at hsnap
    rcases hsnap with hids | ⟨rows, _, hpure⟩
    · rw [snapshotNamespaceIDs, bind_eq_error_iff] at hids
      rcases hids with hreq | ⟨_, _, hpure⟩
      · obtain ⟨hnot, _⟩ := require_eq_error_iff.mp hreq
        push Not at hnot
        obtain ⟨ns, hns, id, hid, hrow⟩ := hnot
        have hid' : (bindNamespaces rq reg).incarnation ns = some id := hid
        have hbound : reg.namespaceIDs ns = some id := by
          simpa [bindNamespaces, hns] using hid'
        refine ⟨ns, hns, id, hbound, fun hmem => hrow (List.mem_filter.mpr ⟨hmem, ?_⟩)⟩
        simp [hns, hid']
      · exact absurd hpure pure_ne_error
    · exact absurd hpure pure_ne_error
  | ok p =>
    have hback : snapshotBacklog rq (view k).store reg = .ok ⟨true, p.1, [], p.2⟩ := by
      rw [snapshotBacklog, hsnap]
      rfl
    rw [hback]
    refine ⟨?_, k, hsnap⟩
    rw [snapshotParameters, bind_eq_ok_iff] at hsnap
    obtain ⟨rows, _, hpure⟩ := hsnap
    rw [pure_eq_ok_iff] at hpure
    rw [← hpure]
    exact view_seq_le hview k

theorem canReplay_le {snapshotMaxReplay lastSeen current : Nat} {log : ChangeLog}
    (h : canReplay snapshotMaxReplay log lastSeen current = true) : lastSeen ≤ current := by
  unfold canReplay at h
  split at h
  · cases h
  · next hc =>
    push Not at hc
    exact hc.2

theorem computeBacklog_correct (hview : ∀ k, Later (view k) (view (k + 1))) {rq : Request}
    {snapshotMaxReplay : Nat} {reg : Registration} (hreg : reg.Valid) {fuel : Nat}
    {out : Except Err Backlog}
    (h : computeBacklog rq snapshotMaxReplay (fun k => (view k).store) reg fuel = some out) :
    CorrectBacklog rq view reg out := by
  unfold computeBacklog at h
  simp only at h
  split at h
  · next hcan =>
    have hmem : ∀ k, ∀ e ∈ (view k).store.changeLog,
        e.revision ≤ currentRevision (view 0).store.changeLog → e ∈ (view 0).history :=
      fun k e he hle =>
        View.mem_of_revision_le (prefix_view_history hview k) ((view k).retained e he) hle
    have hlast := canReplay_le hcan
    split at h
    · cases h
    · next hr =>
      rcases (replayEntries_result hreg (view 0).increasing hmem hlast hr).2 with heq | heq
        <;> cases heq
    · next hr =>
      cases h
      rcases (replayEntries_result hreg (view 0).increasing hmem hlast hr).2 with heq | heq
      · cases heq
      · cases heq
        exact ⟨rfl, rfl⟩
    · cases h
      exact snapshotBacklog_correct hview rq reg _
  · cases h
    exact snapshotBacklog_correct hview rq reg 2

/-- 穴の手前で止まった cursor の先の頁が、どの読み出しでも一杯で、全て `current` より後である。 -/
def Livelocked (snapshotMaxReplay : Nat) (log : Nat → ChangeLog) (reg : Registration) : Prop :=
  canReplay snapshotMaxReplay (log 1) reg.lastSeenRevision (currentRevision (log 0)) = true ∧
    ∃ m st,
      Reaches (replayPage log reg (currentRevision (log 0))) 2 ⟨reg.lastSeenRevision, []⟩ m st ∧
      st.cursor < currentRevision (log 0) ∧
        ∀ j, m ≤ j → FullBeyond (log j) st.cursor (currentRevision (log 0))

theorem computeBacklog_returns_iff (rq : Request) (snapshotMaxReplay : Nat) (store : Nat → Store)
    {reg : Registration} (hreg : reg.Valid) :
    (∃ fuel out, computeBacklog rq snapshotMaxReplay store reg fuel = some out) ↔
      ¬ Livelocked snapshotMaxReplay (fun k => (store k).changeLog) reg := by
  unfold Livelocked
  by_cases hcan : canReplay snapshotMaxReplay (store 1).changeLog reg.lastSeenRevision
      (currentRevision (store 0).changeLog) = true
  · rw [← replayEntries_diverges_iff hreg, and_iff_right hcan]
    push Not
    simp only [computeBacklog, if_pos hcan]
    refine exists_congr (fun fuel => ?_)
    cases replayEntries (fun k => (store k).changeLog) reg
        (currentRevision (store 0).changeLog) fuel with
    | none => simp
    | some p =>
      obtain ⟨k, r⟩ := p
      rcases r with e | _ | replay <;> simp
  · refine iff_of_true ⟨0, snapshotBacklog rq (store 2) reg, ?_⟩ (fun h => hcan h.1)
    simp only [computeBacklog, if_neg hcan]

end Views

/-! ## 主定理 -/

/-- どの change log、どの prune と commit の割り込みに対しても、`computeBacklog` は、揃った replay か、最初に読んだ
revision 以後の snapshot を返す。ただし livelock するときには何も返さない。 -/
theorem backlog_complete_iff {view : Nat → View} (hview : ∀ k, Later (view k) (view (k + 1)))
    (rq : Request) (snapshotMaxReplay : Nat) {reg : Registration} (hreg : reg.Valid) :
    ((∃ fuel out,
        computeBacklog rq snapshotMaxReplay (fun k => (view k).store) reg fuel = some out) ∧
      ∀ fuel out,
        computeBacklog rq snapshotMaxReplay (fun k => (view k).store) reg fuel = some out →
          CorrectBacklog rq view reg out) ↔
      ¬ Livelocked snapshotMaxReplay (fun k => (view k).store.changeLog) reg := by
  rw [← computeBacklog_returns_iff rq snapshotMaxReplay (fun k => (view k).store) hreg]
  refine ⟨fun h => h.1, fun h => ⟨h, fun fuel out hout => ?_⟩⟩
  exact computeBacklog_correct hview hreg hout

section Sample

/-- 行の無い store。 -/
def View.empty : View where
  store := Store.empty
  history := []
  contiguous := rfl
  retained := fun _ he => absurd he List.not_mem_nil

/-- 同じ parameter を `n` 回書く。 -/
def View.commits (v : View) : Nat → View
  | 0 => v
  | n + 1 =>
    (v.commits n).transact
      { (v.commits n).store with
        changeLog := logChange (v.commits n).store.changeLog sampleChange 1 0 }
      (.appended _ _ _)

def View.prune (v : View) (p : ChangeLogModel → Bool) : View :=
  v.transact { v.store with changeLog := v.store.changeLog.deleteWhere p } (.pruned p)

theorem later_commits (v : View) (m n : Nat) : Later (v.commits m) (v.commits (m + n)) := by
  induction n with
  | zero => exact Relation.ReflTransGen.refl
  | succ n ih => exact ih.tail ⟨_, _, rfl⟩

theorem changeLog_commits (v : View) (n : Nat) :
    (v.commits n).store.changeLog.seq = v.store.changeLog.seq + n ∧
      (v.commits n).store.changeLog.rows = v.store.changeLog.rows ++
        (List.range' (v.store.changeLog.seq + 1) n).map (sampleChange.row 1 0) := by
  induction n with
  | zero => exact ⟨rfl, (List.append_nil _).symm⟩
  | succ n ih =>
    refine ⟨congrArg (· + 1) ih.1, ?_⟩
    show (v.commits n).store.changeLog.rows ++
      [sampleChange.row 1 0 ((v.commits n).store.changeLog.seq + 1)] = _
    rw [ih.1, ih.2, List.range'_1_concat, List.map_append, List.append_assoc]
    show _ = _ ++ (_ ++ [sampleChange.row 1 0 (v.store.changeLog.seq + 1 + n)])
    rw [Nat.add_right_comm]

/-- 最初の二つの読み出しの後、`512` 個の entry が commit され、最初の二つが消える。 -/
def sampleViews (k : Nat) : View :=
  if k < 2 then View.empty.commits 2
  else (View.empty.commits (2 + dispatchBatch)).prune (fun e => decide (e.revision ≤ 2))

def sampleResume : Registration := { sampleRegistration with lastSeenRevision := 1 }

theorem later_sampleViews (k : Nat) : Later (sampleViews k) (sampleViews (k + 1)) := by
  unfold sampleViews
  by_cases h₀ : k + 1 < 2
  · rw [if_pos h₀, if_pos (Nat.lt_of_succ_lt h₀)]
    exact Relation.ReflTransGen.refl
  · rw [if_neg h₀]
    by_cases h₁ : k < 2
    · rw [if_pos h₁]
      exact (later_commits _ _ _).tail ⟨_, _, rfl⟩
    · rw [if_neg h₁]
      exact Relation.ReflTransGen.refl

theorem livelocked_sample :
    Livelocked 4096 (fun k => (sampleViews k).store.changeLog) sampleResume := by
  have hcurrent : currentRevision (sampleViews 0).store.changeLog = 2 := by decide
  have hfull : FullBeyond ((View.empty.commits (2 + dispatchBatch)).prune
      (fun e => decide (e.revision ≤ 2))).store.changeLog 1 2 := by
    simp only [FullBeyond, listChangesSince, View.prune, View.transact, Journal.deleteWhere,
      (changeLog_commits View.empty (2 + dispatchBatch)).2]
    decide +kernel
  refine ⟨by decide, 2, ⟨1, []⟩, Reaches.refl _ _, by decide, fun j hj => ?_⟩
  show FullBeyond (sampleViews j).store.changeLog 1
    (currentRevision (sampleViews 0).store.changeLog)
  rw [hcurrent, sampleViews, if_neg (Nat.not_lt_of_le hj)]
  exact hfull

/-- revision `1` から再接続した購読者は、replay も snapshot も受け取らない。 -/
theorem computeBacklog_never_returns :
    (∀ k, Later (sampleViews k) (sampleViews (k + 1))) ∧ sampleResume.Valid ∧
      ∀ fuel, computeBacklog ⟨0, fun _ => none⟩ 4096 (fun k => (sampleViews k).store)
        sampleResume fuel = none := by
  have hreg : sampleResume.Valid := by decide
  refine ⟨later_sampleViews, hreg, fun fuel => ?_⟩
  have hnot := mt (computeBacklog_returns_iff ⟨0, fun _ => none⟩ 4096
    (fun k => (sampleViews k).store) hreg).mp (not_not.mpr livelocked_sample)
  cases hout : computeBacklog ⟨0, fun _ => none⟩ 4096 (fun k => (sampleViews k).store)
      sampleResume fuel with
  | none => rfl
  | some out => exact absurd ⟨fuel, out, hout⟩ hnot

/-- 割り込みが無ければ、replay は揃って返る。 -/
theorem backlog_complete_sample :
    (∃ fuel out, computeBacklog ⟨0, fun _ => none⟩ 4096 (fun _ => (View.empty.commits 2).store)
        sampleResume fuel = some out) ∧
      ∀ fuel out, computeBacklog ⟨0, fun _ => none⟩ 4096 (fun _ => (View.empty.commits 2).store)
        sampleResume fuel = some out →
          CorrectBacklog ⟨0, fun _ => none⟩ (fun _ => View.empty.commits 2) sampleResume out := by
  have hreg : sampleResume.Valid := by decide
  have hview : ∀ k : Nat, Later ((fun _ : Nat => View.empty.commits 2) k) (View.empty.commits 2) :=
    fun _ => Relation.ReflTransGen.refl
  refine (backlog_complete_iff hview ⟨0, fun _ => none⟩ 4096 hreg).mpr ?_
  refine (computeBacklog_returns_iff ⟨0, fun _ => none⟩ 4096 (fun _ => _) hreg).mp ⟨1, ?_⟩
  refine Option.isSome_iff_exists.mp ?_
  decide

end Sample

end Kms.Watch
