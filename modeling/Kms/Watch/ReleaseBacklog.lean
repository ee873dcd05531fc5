import Kms.Watch.ActivationLog

/-!
# release の backlog

`SubscribeRelease` の読み出しの列が、どの時点に他の transaction が入っても正しい backlog に至ることを示す。

* `CorrectReleaseBacklog` — replay は範囲の有効化のちょうど全てで、snapshot はその revision での最後の有効化である
* `SubscribeInv` — 居場所ごとの不変条件。`subscribeInv_next` が一つの読み出し、`SubscribeInv.grow` が他の transaction
* `SubscribePhase.remaining` — 残る読み出し。頁の loop は、一杯の頁が全て `current` より後のときだけ留まる
-/

namespace Kms.Watch

open Kms.Infra Kms.Storage

/-! ## 正しい backlog -/

structure CorrectReleaseBacklog (history : List ChangeLogModel) (reg : ReleaseRegistration)
    (revisionRead : Nat) (bl : ReleaseBacklog) : Prop where
  revisionRead_le : revisionRead ≤ bl.revision
  replay : bl.isSnapshot = false → bl.events ≠ [] ∧ List.Forall₂ (Names reg)
    (between reg.matches history reg.lastSeenRevision bl.revision) bl.events
  snapshot : bl.isSnapshot = true → List.Forall₂ (Names reg)
    (between reg.matches history 0 bl.revision).getLast?.toList bl.events

theorem CorrectReleaseBacklog.append {history new : List ChangeLogModel}
    {reg : ReleaseRegistration} {revisionRead : Nat} {bl : ReleaseBacklog}
    (h : CorrectReleaseBacklog history reg revisionRead bl)
    (hnew : ∀ e ∈ new, bl.revision < e.revision) :
    CorrectReleaseBacklog (history ++ new) reg revisionRead bl where
  revisionRead_le := h.revisionRead_le
  replay := by
    rw [between_append hnew]
    exact h.replay
  snapshot := by
    rw [between_append hnew]
    exact h.snapshot

/-! ## 居場所ごとの不変条件 -/

/-- 走査が `upTo` まで進んだ。 -/
structure ReplayedTo (history : List ChangeLogModel) (reg : ReleaseRegistration)
    (current upTo : Nat) (events : List ReleaseEvent) : Prop where
  lastSeen_le : reg.lastSeenRevision ≤ upTo
  le_current : upTo ≤ current
  events : List.Forall₂ (Names reg)
    (between reg.matches history reg.lastSeenRevision upTo) events

/-- 登録の後に読んだ revision。 -/
structure RevisionRead (v : View) (reg : ReleaseRegistration) (registeredAt revisionRead : Nat) :
    Prop where
  positive : 0 < reg.namespaceID
  registered : registeredAt ≤ revisionRead
  committed : revisionRead ≤ v.store.changeLog.seq

def SubscribeInv (v : View) (reg : ReleaseRegistration) (registeredAt revisionRead : Nat) :
    SubscribePhase → Prop
  | .checkSchema | .register => 0 < reg.namespaceID
  | .readRevision => 0 < reg.namespaceID ∧ registeredAt ≤ v.store.changeLog.seq
  | .readOldest current | .readActive current =>
    current = revisionRead ∧ RevisionRead v reg registeredAt revisionRead
  | .readPage current st => current = revisionRead ∧
    RevisionRead v reg registeredAt revisionRead ∧
      ReplayedTo v.history reg current st.cursor st.events
  | .readRelease current st e rest _ => current = revisionRead ∧
    RevisionRead v reg registeredAt revisionRead ∧ e.revision = st.cursor ∧
      st.cursor ≤ current ∧ reg.matches e = true ∧ (∀ x ∈ e :: rest, x ∈ v.history) ∧
        ∃ upTo, st.cursor = upTo + 1 ∧ ReplayedTo v.history reg current upTo st.events
  | .activate bl => RevisionRead v reg registeredAt revisionRead ∧
    bl.revision ≤ v.store.changeLog.seq ∧ CorrectReleaseBacklog v.history reg revisionRead bl
  | _ => True

section

variable {v : View} {reg : ReleaseRegistration} {registeredAt revisionRead : Nat}

variable {e : ChangeLogModel} {current upTo : Nat} {events : List ReleaseEvent}

theorem View.revision_pos (he : e ∈ v.history) :
    0 < e.revision ∧ e.revision ≤ v.store.changeLog.seq := by
  have hrev : e.revision ∈ v.history.map (·.revision) := List.mem_map_of_mem he
  rw [v.contiguous, List.mem_range'_1] at hrev
  omega

theorem ReplayedTo.grow {history new : List ChangeLogModel}
    (h : ReplayedTo history reg current upTo events)
    (hnew : ∀ e ∈ new, current < e.revision) :
    ReplayedTo (history ++ new) reg current upTo events where
  lastSeen_le := h.lastSeen_le
  le_current := h.le_current
  events := by
    rw [between_append (fun e he => h.le_current.trans_lt (hnew e he))]
    exact h.events

theorem ReplayedTo.skip (h : ReplayedTo v.history reg current upTo events)
    (he : e ∈ v.history) (hrev : e.revision = upTo + 1) (hle : e.revision ≤ current)
    (hmiss : reg.matches e = false) : ReplayedTo v.history reg current e.revision events where
  lastSeen_le := h.lastSeen_le.trans (by omega)
  le_current := hle
  events := by
    rw [between_succ v.increasing h.lastSeen_le he hrev, hmiss]
    simpa using h.events

theorem ReplayedTo.push (h : ReplayedTo v.history reg current upTo events) {ev : ReleaseEvent}
    (he : e ∈ v.history) (hrev : e.revision = upTo + 1) (hle : e.revision ≤ current)
    (hmatch : reg.matches e = true) (hnames : Names reg e ev) :
    ReplayedTo v.history reg current e.revision (events ++ [ev]) where
  lastSeen_le := h.lastSeen_le.trans (by omega)
  le_current := hle
  events := by
    rw [between_succ v.increasing h.lastSeen_le he hrev, if_pos hmatch]
    exact List.rel_append h.events (.cons hnames .nil)

theorem subscribeInv_replayed (hr : RevisionRead v reg registeredAt revisionRead)
    {st : ReleaseReplay} (h : ReplayedTo v.history reg revisionRead revisionRead st.events) :
    SubscribeInv v reg registeredAt revisionRead (replayed revisionRead st) := by
  unfold replayed
  split
  · exact ⟨rfl, hr⟩
  · next hne =>
    exact ⟨hr, hr.committed, le_rfl, fun _ => ⟨hne, h.events⟩, fun hf => by cases hf⟩

theorem subscribeInv_endPage (hr : RevisionRead v reg registeredAt revisionRead)
    {st : ReleaseReplay} (full : Bool)
    (h : ReplayedTo v.history reg revisionRead st.cursor st.events) :
    SubscribeInv v reg registeredAt revisionRead (endPage revisionRead full st) := by
  unfold endPage
  split
  · next hge =>
    have heq : st.cursor = revisionRead := Nat.le_antisymm h.le_current hge
    exact subscribeInv_replayed hr (heq ▸ h)
  · split
    · exact ⟨rfl, hr⟩
    · exact ⟨rfl, hr, h⟩

/-- 頁の走査の終わり方。 -/
inductive Scanned (reg : ReleaseRegistration) (current : Nat) (full : Bool) :
    ReleaseReplay → List ChangeLogModel → SubscribePhase → Prop
  | ended {st : ReleaseReplay} {batch : List ChangeLogModel}
      (hhead : ∀ e ∈ batch.head?, current < e.revision) :
      Scanned reg current full st batch (endPage current full st)
  | stopped {st : ReleaseReplay} {batch : List ChangeLogModel} :
      Scanned reg current full st batch (.readActive current)
  | skipped {st : ReleaseReplay} {e : ChangeLogModel} {es : List ChangeLogModel}
      {phase : SubscribePhase} (hle : e.revision ≤ current) (hrev : e.revision = st.cursor + 1)
      (hmiss : reg.matches e = false)
      (h : Scanned reg current full { st with cursor := e.revision } es phase) :
      Scanned reg current full st (e :: es) phase
  | found {st : ReleaseReplay} {e : ChangeLogModel} {es : List ChangeLogModel}
      (hle : e.revision ≤ current) (hrev : e.revision = st.cursor + 1)
      (htrack : reg.ofTrack e = true) (hid : e.namespaceID = reg.namespaceID) :
      Scanned reg current full st (e :: es)
        (.readRelease current { st with cursor := e.revision } e es full)

theorem scanReleases_scanned (reg : ReleaseRegistration) (current : Nat) (full : Bool)
    (st : ReleaseReplay) (batch : List ChangeLogModel) :
    Scanned reg current full st batch (scanReleases reg current full st batch) := by
  induction batch generalizing st with
  | nil => exact .ended (fun e he => by cases he)
  | cons e es ih =>
    unfold scanReleases
    split
    · next hgt => exact .ended (fun x hx => by cases hx; exact hgt)
    · next hle =>
      have hle : e.revision ≤ current := Nat.le_of_not_lt hle
      split
      · exact .stopped
      · next hnext =>
        have hrev : e.revision = st.cursor + 1 := not_not.mp hnext
        split
        · next htrack =>
          exact .skipped hle hrev (by simp [ReleaseRegistration.matches, htrack]) (ih _)
        · next htrack =>
          split
          · exact .stopped
          · split
            · next hother =>
              exact .skipped hle hrev (by simp [ReleaseRegistration.matches, hother]) (ih _)
            · next hsame => exact .found hle hrev (by simpa using htrack) (not_not.mp hsame)

theorem subscribeInv_scan (hr : RevisionRead v reg registeredAt revisionRead) {full : Bool}
    {batch : List ChangeLogModel} {st : ReleaseReplay} {phase : SubscribePhase}
    (hscan : Scanned reg revisionRead full st batch phase) (hmem : ∀ e ∈ batch, e ∈ v.history)
    (h : ReplayedTo v.history reg revisionRead st.cursor st.events) :
    SubscribeInv v reg registeredAt revisionRead phase := by
  induction hscan with
  | ended => exact subscribeInv_endPage hr full h
  | stopped => exact ⟨rfl, hr⟩
  | skipped hle hrev hmiss _ ih =>
    exact ih (fun x hx => hmem x (List.mem_cons_of_mem _ hx))
      (h.skip (hmem _ List.mem_cons_self) hrev hle hmiss)
  | found hle hrev htrack hid =>
    refine ⟨rfl, hr, rfl, hle, ?_, hmem, _, hrev, h⟩
    rw [ReleaseRegistration.matches, Bool.and_eq_true, decide_eq_true_eq]
    exact ⟨htrack, hr.positive, hid⟩

theorem latest_between (hlast : (reg.activations v.history).getLast? = some e)
    {hi : Nat} (hle : e.revision ≤ hi) :
    (between reg.matches v.history 0 hi).getLast? = some e := by
  have hinc : Increasing (reg.activations v.history) := v.increasing.filter _
  have hall : between reg.matches v.history 0 hi = reg.activations v.history := by
    refine List.filter_congr (fun x hx => ?_)
    by_cases hm : reg.matches x = true
    · have hxe : x.revision ≤ e.revision :=
        le_getLast_of_sorted hinc hlast (List.mem_filter.mpr ⟨hx, hm⟩)
      rw [hm, Bool.true_and, decide_eq_true_eq]
      exact ⟨(View.revision_pos hx).1, hxe.trans hle⟩
    · rw [Bool.not_eq_true] at hm
      rw [hm, Bool.false_and]
  rw [hall]
  exact hlast

end

section

variable [Hashing] {v : View} {reg : ReleaseRegistration} {registeredAt revisionRead : Nat}

theorem subscribeInv_active (hf : FeedInv v) (hr : RevisionRead v reg registeredAt revisionRead)
    (snapshotMaxReplay : Nat) :
    SubscribeInv v reg registeredAt revisionRead
      (nextPhase snapshotMaxReplay v.store reg (.readActive revisionRead)) := by
  simp only [nextPhase]
  split
  · next active hget =>
    obtain ⟨e, hlast, hrev, hnames⟩ := hf.active_ok hr.positive hget
    have he : e ∈ v.history :=
      (List.mem_filter.mp (List.mem_of_getLast? hlast)).1
    refine ⟨hr, ?_, Nat.le_max_left _ _, (fun h => by cases h), fun _ => ?_⟩
    · exact Nat.max_le.mpr ⟨hr.committed, hrev ▸ (View.revision_pos he).2⟩
    · rw [latest_between hlast (hrev ▸ Nat.le_max_right _ _)]
      exact .cons hnames .nil
  · next err hget =>
    split
    · next herr =>
      have hnil := hf.active_notFound hr.positive herr hget
      have hempty : between reg.matches v.history 0 revisionRead = [] := by
        refine List.filter_eq_nil_iff.mpr (fun e he hm => ?_)
        have hmem : e ∈ reg.activations v.history :=
          List.mem_filter.mpr ⟨he, (Bool.and_eq_true _ _ ▸ hm).1⟩
        rw [hnil] at hmem
        exact absurd hmem List.not_mem_nil
      refine ⟨hr, hr.committed, le_rfl, (fun h => by cases h), fun _ => ?_⟩
      show List.Forall₂ (Names reg)
        (between reg.matches v.history 0 revisionRead).getLast?.toList []
      rw [hempty]
      exact .nil
    · trivial

theorem subscribeInv_next (hf : FeedInv v) (snapshotMaxReplay : Nat) {phase : SubscribePhase}
    (hregister : phase ≠ .register) (hrevision : phase ≠ .readRevision)
    (h : SubscribeInv v reg registeredAt revisionRead phase) :
    SubscribeInv v reg registeredAt revisionRead
      (nextPhase snapshotMaxReplay v.store reg phase) := by
  cases phase with
  | checkNamespace =>
    simp only [nextPhase]
    split
    · trivial
    · next hzero =>
      have hpos : 0 < reg.namespaceID := Nat.pos_of_ne_zero hzero
      split
      · trivial
      · split
        · trivial
        · split
          all_goals exact hpos
  | checkSchema =>
    simp only [nextPhase]
    split
    · trivial
    · exact h
  | register => exact absurd rfl hregister
  | readRevision => exact absurd rfl hrevision
  | readOldest current =>
    obtain ⟨rfl, hr⟩ := h
    simp only [nextPhase]
    split
    · next hcan =>
      have hle := canReplay_le hcan
      have hstart : ReplayedTo v.history reg current reg.lastSeenRevision [] := by
        refine ⟨le_rfl, hle, ?_⟩
        rw [between_self]
        exact .nil
      split
      · exact ⟨rfl, hr, hstart⟩
      · next hge =>
        have heq : reg.lastSeenRevision = current := Nat.le_antisymm hle (Nat.le_of_not_lt hge)
        refine subscribeInv_replayed hr ?_
        rw [heq] at hstart
        exact hstart
    · exact ⟨rfl, hr⟩
  | readPage current st =>
    obtain ⟨rfl, hr, hst⟩ := h
    simp only [nextPhase]
    split
    · exact ⟨rfl, hr⟩
    · exact subscribeInv_scan hr (scanReleases_scanned ..)
        (fun e he => v.retained e (mem_listChangesSince he).1) hst
  | readRelease current st e rest full =>
    obtain ⟨rfl, hr, hcursor, hle, hmatch, hmem, upTo, hupTo, hst⟩ := h
    have he : e ∈ v.history := hmem e List.mem_cons_self
    obtain ⟨⟨hkind, _, _, hschema⟩, _, hid⟩ := matches_iff.mp hmatch
    simp only [nextPhase]
    split
    · next rel hrel =>
      obtain ⟨htrack, hversion⟩ :=
        getConfigurationRelease_names (hf.activation.versions e he hkind) hrel
      have hnames : Names reg e (reg.replayEvent rel e) :=
        ⟨rfl, rfl, ⟨rfl, rfl, hschema, hid⟩, rel, rfl, htrack, hversion⟩
      have hpush := hst.push he (hcursor.trans hupTo) (hcursor ▸ hle) hmatch hnames
      rw [hcursor] at hpush
      exact subscribeInv_scan hr (scanReleases_scanned ..)
        (fun x hx => hmem x (List.mem_cons_of_mem _ hx)) hpush
    · split
      · exact ⟨rfl, hr⟩
      · trivial
  | readActive current =>
    obtain ⟨rfl, hr⟩ := h
    exact subscribeInv_active hf hr snapshotMaxReplay
  | activate bl => exact h
  | unlock | returned | failed err => trivial

/-! ## 他の transaction -/

theorem View.call_history (v : View) (c : Call) :
    ∃ new, (v.call c).history = v.history ++ new ∧
      ∀ e ∈ new, v.store.changeLog.seq < e.revision := by
  refine ⟨_, rfl, fun e he => ?_⟩
  exact of_decide_eq_true (List.mem_filter.mp he).2

theorem View.call_seq (v : View) (c : Call) :
    v.store.changeLog.seq ≤ (v.call c).store.changeLog.seq :=
  (step_sessionEffect (s := v.store) (c := c) rfl).seq_le

theorem SubscribeInv.grow {phase : SubscribePhase}
    (h : SubscribeInv v reg registeredAt revisionRead phase) (c : Call) :
    SubscribeInv (v.call c) reg registeredAt revisionRead phase := by
  obtain ⟨new, hhistory, hnew⟩ := v.call_history c
  have hseq := v.call_seq c
  have hread : RevisionRead v reg registeredAt revisionRead →
      RevisionRead (v.call c) reg registeredAt revisionRead :=
    fun hr => ⟨hr.positive, hr.registered, hr.committed.trans hseq⟩
  have hbeyond : revisionRead ≤ v.store.changeLog.seq → ∀ e ∈ new, revisionRead < e.revision :=
    fun hle e he => hle.trans_lt (hnew e he)
  cases phase with
  | checkNamespace | unlock | returned | failed err => trivial
  | checkSchema | register => exact h
  | readRevision => exact ⟨h.1, h.2.trans hseq⟩
  | readOldest current | readActive current => exact ⟨h.1, hread h.2⟩
  | readPage current st =>
    obtain ⟨rfl, hr, hst⟩ := h
    refine ⟨rfl, hread hr, ?_⟩
    rw [hhistory]
    exact hst.grow (hbeyond hr.committed)
  | readRelease current st e rest full =>
    obtain ⟨rfl, hr, hcursor, hle, hmatch, hmem, upTo, hupTo, hst⟩ := h
    refine ⟨rfl, hread hr, hcursor, hle, hmatch, fun x hx => ?_, upTo, hupTo, ?_⟩
    · rw [hhistory]
      exact List.mem_append_left _ (hmem x hx)
    · rw [hhistory]
      exact hst.grow (hbeyond hr.committed)
  | activate bl =>
    obtain ⟨hr, hle, hbl⟩ := h
    refine ⟨hread hr, hle.trans hseq, ?_⟩
    rw [hhistory]
    exact hbl.append (fun e he => hle.trans_lt (hnew e he))

end

/-! ## 残る読み出し -/

/-- 居場所の段。 -/
def SubscribePhase.stage : SubscribePhase → Nat
  | .checkNamespace => 9
  | .checkSchema => 8
  | .register => 7
  | .readRevision => 6
  | .readOldest _ => 5
  | .readPage .. | .readRelease .. => 4
  | .readActive _ => 3
  | .activate _ => 2
  | .unlock => 1
  | .returned | .failed _ => 0

def SubscribePhase.remaining : SubscribePhase → Nat
  | .readPage current st => 2 * (current - st.cursor)
  | .readRelease current st _ _ _ => 2 * (current - st.cursor) + 1
  | _ => 0

/-- 呼び出しが終わりに近付いた。 -/
def SubscribePhase.Closer (next phase : SubscribePhase) : Prop :=
  next.stage < phase.stage ∨ next.stage = phase.stage ∧ next.remaining < phase.remaining

theorem replayed_stage (current : Nat) (st : ReleaseReplay) : (replayed current st).stage < 4 := by
  unfold replayed
  split
  · exact (by decide : 3 < 4)
  · exact (by decide : 2 < 4)

theorem Scanned.closer {reg : ReleaseRegistration} {current : Nat} {full : Bool}
    {st : ReleaseReplay} {batch : List ChangeLogModel} {phase : SubscribePhase}
    (h : Scanned reg current full st batch phase) :
    phase.stage < 4 ∨ (phase.stage = 4 ∧ phase.remaining < 2 * (current - st.cursor)) ∨
      (phase = .readPage current st ∧ full = true ∧ ∀ e ∈ batch.head?, current < e.revision) := by
  induction h with
  | @ended st _ hhead =>
    unfold endPage
    split
    · exact Or.inl (replayed_stage current st)
    · split
      · exact Or.inl (by decide : 3 < 4)
      · next hfull => exact Or.inr (Or.inr ⟨rfl, by simpa using hfull, hhead⟩)
  | stopped => exact Or.inl (by decide : 3 < 4)
  | @skipped st e _ _ hle hrev _ _ ih =>
    -- 走査が進んだ後は、cursor が前に出ている。
    rcases ih with hlow | ⟨hstage, hlt⟩ | ⟨rfl, _⟩
    · exact Or.inl hlow
    · exact Or.inr (Or.inl ⟨hstage, Nat.lt_of_lt_of_le hlt
        (by omega : 2 * (current - e.revision) ≤ 2 * (current - st.cursor))⟩)
    · exact Or.inr (Or.inl ⟨rfl,
        (by omega : 2 * (current - e.revision) < 2 * (current - st.cursor))⟩)
  | @found st e _ hle hrev =>
    exact Or.inr (Or.inl ⟨rfl,
      (by omega : 2 * (current - e.revision) + 1 < 2 * (current - st.cursor))⟩)

/-- 一つの読み出しは、呼び出しを終わりに近付ける。例外は、一杯の頁が全て `current` より後の時の頁の読み直しだけである。 -/
theorem nextPhase_closer (snapshotMaxReplay : Nat) (s : Store) (reg : ReleaseRegistration)
    {phase : SubscribePhase} (hread : 2 < phase.stage) :
    (nextPhase snapshotMaxReplay s reg phase).Closer phase ∨
      ∃ current st, phase = .readPage current st ∧ FullBeyond s.changeLog st.cursor current := by
  cases phase with
  | checkNamespace | checkSchema | readActive current =>
    refine Or.inl (Or.inl ?_)
    simp only [nextPhase]
    repeat' split
    all_goals simp [SubscribePhase.stage]
  | register => exact Or.inl (Or.inl (by decide : 6 < 7))
  | readRevision => exact Or.inl (Or.inl (by decide : 5 < 6))
  | readOldest current =>
    refine Or.inl (Or.inl ?_)
    simp only [nextPhase]
    split
    · split
      · exact (by decide : 4 < 5)
      · exact Nat.lt_succ_of_lt (replayed_stage current _)
    · exact (by decide : 3 < 5)
  | readPage current st =>
    simp only [nextPhase]
    split
    · exact Or.inl (Or.inl (by decide : 3 < 4))
    · rcases (scanReleases_scanned reg current _ st _).closer with
        hlow | hmoved | ⟨_, hfull, hhead⟩
      · exact Or.inl (Or.inl hlow)
      · exact Or.inl (Or.inr hmoved)
      · refine Or.inr ⟨current, st, rfl, fullBeyond_of_head ?_ hhead⟩
        exact Nat.le_antisymm (List.length_take_le _ _) (of_decide_eq_true hfull)
  | readRelease current st e rest full =>
    refine Or.inl ?_
    simp only [nextPhase]
    split
    · rcases (scanReleases_scanned reg current full _ rest).closer with
        hlow | ⟨hstage, hlt⟩ | ⟨heq, _⟩
      · exact Or.inl hlow
      · exact Or.inr ⟨hstage, Nat.lt_succ_of_lt hlt⟩
      · rw [heq]
        exact Or.inr ⟨rfl, Nat.lt_succ_self _⟩
    · split
      · exact Or.inl (by decide : 3 < 4)
      · exact Or.inl (by decide : 0 < 4)
  | activate bl => exact absurd hread (by decide : ¬ 2 < 2)
  | unlock => exact absurd hread (by decide : ¬ 2 < 1)
  | returned | failed err => exact absurd hread (by decide : ¬ 2 < 0)

end Kms.Watch
