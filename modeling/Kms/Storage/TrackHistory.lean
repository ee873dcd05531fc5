import Kms.Storage.Catalog
import Kms.Storage.Composite

/-!
# release 系列の label・有効化の記録・番号

release の作成・有効化・保持期限が、label・counter・有効化の記録・release の四つの表を別々に書き換える。

* `HistoryEffect` — 一つの transaction が label と有効化の記録にすること
* `TrackInv` — current と previous は違う version を指し、current の有効化は系列で最後の有効化である
* `mem_pruneConfigurationReleases_iff` — 保持期限が残す release のちょうどの条件
* `release_track_history` — 主定理
-/

namespace Kms.Storage

open Kms.Infra

/-! ## label と有効化の記録の一歩 -/

def activationLabelled (s : Store) (a : ConfigurationReleaseActivationModel) : Bool :=
  s.releaseLabels.rows.any
    (fun l => decide (l.track = a.track) && decide (l.activationRevision = a.revision))

variable {s s' : Store} {k : TrackKey} {n : Nat}

theorem activationLabelled_iff {a : ConfigurationReleaseActivationModel} :
    activationLabelled s a = true ↔
      ∃ l ∈ s.releaseLabels, l.track = a.track ∧ l.activationRevision = a.revision := by
  simp [activationLabelled, List.any_eq_true, Table.mem_def]

inductive HistoryEffect (s : Store) (c : Call) (s' : Store) : Prop
  | neutral (hlabels : s'.releaseLabels = s.releaseLabels)
      (hactivations : s'.releaseActivations = s.releaseActivations)
  | namespaceDeleted (id : Nat)
      (hlabels : s'.releaseLabels =
        s.releaseLabels.deleteWhere (fun m => decide (m.track.namespaceID = id)))
      (hactivations : s'.releaseActivations =
        s.releaseActivations.deleteWhere (fun m => decide (m.track.namespaceID = id)))
  | activated (k : TrackKey) (version : Nat)
      (htarget : ∃ m ∈ s.releases, m.versionNumber = version)
      (hmoved : currentVersion s k ≠ version)
      (hactivations : s.releaseActivations.insert?
        ⟨s.changeLog.seq + 1, k, version, c.rq.now⟩ = some s'.releaseActivations)
      (hlabels : s'.releaseLabels = activatedLabels s k version (s.changeLog.seq + 1))
      (hseq : s'.changeLog.seq = s.changeLog.seq + 1)
  | pruned (cutoff : Time) (hlabels : s'.releaseLabels = s.releaseLabels)
      (hactivations : s'.releaseActivations = s.releaseActivations.deleteWhere
        (fun a => decide (a.activatedAt < cutoff) && !activationLabelled s a))

section Effect

variable [Hashing]

theorem step_historyEffect {s s' : Store} {c : Call} (hs : step s c = s') :
    HistoryEffect s c s' := by
  cases step_storeEffect hs with
  | namespaceDeleted ns u h =>
    obtain ⟨id, _, _, _, rfl⟩ := deleteNamespaceTx_ok_cases h
    exact .namespaceDeleted id rfl rfl
  | activated track version expectedCurrent out h =>
    obtain ⟨nsID, target, _, htarget, _, ⟨_, rfl⟩ | ⟨hmoved, _, hins, rfl⟩⟩ :=
      activateConfigurationRelease_ok_cases h
    · exact .neutral rfl rfl
    · refine .activated ⟨nsID, track.name, track.schemaVersion⟩ version
        ⟨target, AutoTable.mem_of_get htarget, ?_⟩ hmoved hins rfl rfl
      exact congrArg ReleaseKey.versionNumber (AutoTable.key_of_get htarget)
  | pruned retainDuration retainVersions h =>
    unfold pruneConfigurationReleases at h
    split at h
    · subst h
      exact .neutral rfl rfl
    · subst h
      exact .pruned _ rfl rfl
  | _ =>
    rename_i hs
    subst hs
    exact .neutral rfl rfl

end Effect

/-! ## 系列の不変条件 -/

theorem get_activatedLabels_previous (s : Store) (k k' : TrackKey) (version rev : Nat) :
    (activatedLabels s k version rev).get (k', .previous) =
      if k = k' ∧ currentVersion s k ≠ 0 then
        some ⟨k, .previous, currentVersion s k, currentActivation s k⟩
      else s.releaseLabels.get (k', .previous) := by
  unfold activatedLabels
  rw [Table.get_upsert, if_neg (by simp [ConfigurationReleaseLabelModel.key])]
  by_cases hc : currentVersion s k = 0
  · simp [hc]
  · by_cases hk : k = k'
    · rw [if_pos hc, Table.get_upsert, if_pos (by rw [hk]; rfl), if_pos ⟨hk, hc⟩]
    · rw [if_pos hc, Table.get_upsert, if_neg (fun h => hk (congrArg Prod.fst h)),
        if_neg (fun h => hk h.1)]

structure TrackInv (s : Store) : Prop where
  versions : ∀ r ∈ s.releases, r.versionNumber ≠ 0
  positive : ∀ k c, s.releaseLabels.get (k, .current) = some c → c.versionNumber ≠ 0
  distinct : ∀ k c p, s.releaseLabels.get (k, .current) = some c →
    s.releaseLabels.get (k, .previous) = some p → p.versionNumber ≠ c.versionNumber
  followed : ∀ k p, s.releaseLabels.get (k, .previous) = some p →
    ∃ c, s.releaseLabels.get (k, .current) = some c
  recorded : ∀ k c, s.releaseLabels.get (k, .current) = some c →
    ∃ a ∈ s.releaseActivations, a.track = k ∧ a.revision = c.activationRevision ∧
      a.versionNumber = c.versionNumber
  newest : ∀ a ∈ s.releaseActivations, ∃ c, s.releaseLabels.get (a.track, .current) = some c ∧
    a.revision ≤ c.activationRevision
  numbered : ∀ a ∈ s.releaseActivations, 0 < a.revision ∧ a.revision ≤ s.changeLog.seq

theorem trackInv_empty : TrackInv Store.empty where
  versions := fun r hr => absurd hr (AutoTable.not_mem_empty r)
  positive := by
    intro k c hc
    cases hc
  distinct := by
    intro k c p hc
    cases hc
  followed := by
    intro k p hp
    cases hp
  recorded := by
    intro k c hc
    cases hc
  newest := fun a ha => absurd ha (Table.not_mem_empty a)
  numbered := fun a ha => absurd ha (Table.not_mem_empty a)

theorem ReleaseEffect.versions {c : Call} (h : ReleaseEffect s c s')
    (hv : ∀ r ∈ s.releases, r.versionNumber ≠ 0) : ∀ r ∈ s'.releases, r.versionNumber ≠ 0 := by
  intro r hr
  cases h with
  | neutral h | namespaceCreated ns hc t ht hns h =>
    rw [h.releases] at hr
    exact hv r hr
  | namespaceDeleted id _ hreleases _ _ | pruned a cutoff retainVersions _ _ hreleases _ _ =>
    rw [hreleases, AutoTable.mem_deleteWhere] at hr
    exact hv r hr.1
  | added rq nsID release h =>
    rcases (AutoTable.mem_insert? h.releases).mp hr with hold | rfl
    · exact hv r hold
    · exact Nat.succ_ne_zero _

theorem currentVersion_of_get {c : ConfigurationReleaseLabelModel}
    (h : s.releaseLabels.get (k, .current) = some c) : currentVersion s k = c.versionNumber := by
  rw [currentVersion, h]
  rfl

theorem currentVersion_eq_zero (hi : TrackInv s) :
    currentVersion s k = 0 ↔ s.releaseLabels.get (k, .current) = none := by
  cases hc : s.releaseLabels.get (k, .current) with
  | none => simp [currentVersion, hc]
  | some c =>
    rw [currentVersion_of_get hc]
    simpa using hi.positive k c hc

theorem TrackInv.activated {version : Nat} {now : Time}
    (hi : TrackInv s) (hversions : ∀ r ∈ s'.releases, r.versionNumber ≠ 0)
    (hv : version ≠ 0) (hmoved : currentVersion s k ≠ version)
    (hins : s.releaseActivations.insert? ⟨s.changeLog.seq + 1, k, version, now⟩ =
      some s'.releaseActivations)
    (hlabels : s'.releaseLabels = activatedLabels s k version (s.changeLog.seq + 1))
    (hseq : s'.changeLog.seq = s.changeLog.seq + 1) : TrackInv s' where
  versions := hversions
  positive := by
    intro k' c hc
    rw [hlabels, get_activatedLabels_current] at hc
    split at hc
    · cases hc
      exact hv
    · exact hi.positive k' c hc
  distinct := by
    intro k' c p hc hp
    rw [hlabels, get_activatedLabels_current] at hc
    rw [hlabels, get_activatedLabels_previous] at hp
    by_cases hk : k = k'
    · subst hk
      rw [if_pos rfl] at hc
      cases hc
      by_cases hcur : currentVersion s k = 0
      · -- current が無い系列には previous も無い。
        rw [if_neg (fun h => h.2 hcur)] at hp
        obtain ⟨c, hc⟩ := hi.followed k p hp
        rw [(currentVersion_eq_zero hi).mp hcur] at hc
        cases hc
      · rw [if_pos ⟨rfl, hcur⟩] at hp
        cases hp
        exact hmoved
    · rw [if_neg hk] at hc
      rw [if_neg (fun h => hk h.1)] at hp
      exact hi.distinct k' c p hc hp
  followed := by
    intro k' p hp
    rw [hlabels, get_activatedLabels_current]
    rw [hlabels, get_activatedLabels_previous] at hp
    by_cases hk : k = k'
    · exact ⟨_, if_pos hk⟩
    · rw [if_neg (fun h => hk h.1)] at hp
      rw [if_neg hk]
      exact hi.followed k' p hp
  recorded := by
    intro k' c hc
    rw [hlabels, get_activatedLabels_current] at hc
    split at hc
    · next hk =>
      cases hc
      exact ⟨_, (Table.mem_insert? hins).mpr (Or.inr rfl), hk, rfl, rfl⟩
    · obtain ⟨a, ha, h⟩ := hi.recorded k' c hc
      exact ⟨a, (Table.mem_insert? hins).mpr (Or.inl ha), h⟩
  newest := by
    intro a ha
    rw [hlabels, get_activatedLabels_current]
    by_cases hk : k = a.track
    · refine ⟨_, if_pos hk, ?_⟩
      rcases (Table.mem_insert? hins).mp ha with hold | rfl
      · exact Nat.le_succ_of_le (hi.numbered a hold).2
      · exact le_rfl
    · rw [if_neg hk]
      rcases (Table.mem_insert? hins).mp ha with hold | rfl
      · exact hi.newest a hold
      · exact absurd rfl hk
  numbered := by
    intro a ha
    rw [hseq]
    rcases (Table.mem_insert? hins).mp ha with hold | rfl
    · exact ⟨(hi.numbered a hold).1, Nat.le_succ_of_le (hi.numbered a hold).2⟩
    · exact ⟨Nat.succ_pos _, le_rfl⟩

theorem TrackInv.kept (hi : TrackInv s) (hversions : ∀ r ∈ s'.releases, r.versionNumber ≠ 0)
    (hlabels : s'.releaseLabels = s.releaseLabels)
    (hsub : ∀ a ∈ s'.releaseActivations, a ∈ s.releaseActivations)
    (hkeep : ∀ a ∈ s.releaseActivations, activationLabelled s a = true →
      a ∈ s'.releaseActivations)
    (hseq : s.changeLog.seq ≤ s'.changeLog.seq) : TrackInv s' where
  versions := hversions
  positive := by
    rw [hlabels]
    exact hi.positive
  distinct := by
    rw [hlabels]
    exact hi.distinct
  followed := by
    rw [hlabels]
    exact hi.followed
  recorded := by
    intro k c hc
    rw [hlabels] at hc
    obtain ⟨a, ha, hk, hrev, hver⟩ := hi.recorded k c hc
    refine ⟨a, hkeep a ha (activationLabelled_iff.mpr ⟨c, Table.mem_of_get hc, ?_, hrev.symm⟩), hk,
      hrev, hver⟩
    exact (congrArg Prod.fst (Table.key_of_get hc)).trans hk.symm
  newest := by
    intro a ha
    rw [hlabels]
    exact hi.newest a (hsub a ha)
  numbered := fun a ha =>
    ⟨(hi.numbered a (hsub a ha)).1, Nat.le_trans (hi.numbered a (hsub a ha)).2 hseq⟩

theorem TrackInv.deleted {id : Nat} (hi : TrackInv s)
    (hversions : ∀ r ∈ s'.releases, r.versionNumber ≠ 0)
    (hlabels : s'.releaseLabels =
      s.releaseLabels.deleteWhere (fun m => decide (m.track.namespaceID = id)))
    (hactivations : s'.releaseActivations =
      s.releaseActivations.deleteWhere (fun m => decide (m.track.namespaceID = id)))
    (hseq : s.changeLog.seq ≤ s'.changeLog.seq) : TrackInv s' := by
  have hget : ∀ k label l, s'.releaseLabels.get (k, label) = some l ↔
      s.releaseLabels.get (k, label) = some l ∧ k.namespaceID ≠ id := by
    intro k label l
    rw [hlabels, Table.get_deleteWhere, Option.filter_eq_some_iff]
    refine and_congr_right (fun hl => ?_)
    rw [show l.track = k from congrArg Prod.fst (Table.key_of_get hl)]
    simp
  have hmem : ∀ a, a ∈ s'.releaseActivations ↔
      a ∈ s.releaseActivations ∧ a.track.namespaceID ≠ id := by
    intro a
    rw [hactivations]
    simp
  exact {
    versions := hversions
    positive := fun k c hc => hi.positive k c ((hget k _ c).mp hc).1
    distinct := fun k c p hc hp => hi.distinct k c p ((hget k _ c).mp hc).1 ((hget k _ p).mp hp).1
    followed := by
      intro k p hp
      obtain ⟨hp, hk⟩ := (hget k _ p).mp hp
      obtain ⟨c, hc⟩ := hi.followed k p hp
      exact ⟨c, (hget k _ c).mpr ⟨hc, hk⟩⟩
    recorded := by
      intro k c hc
      obtain ⟨hc, hk⟩ := (hget k _ c).mp hc
      obtain ⟨a, ha, hak, h⟩ := hi.recorded k c hc
      exact ⟨a, (hmem a).mpr ⟨ha, hak ▸ hk⟩, hak, h⟩
    newest := by
      intro a ha
      obtain ⟨ha, hk⟩ := (hmem a).mp ha
      obtain ⟨c, hc, hle⟩ := hi.newest a ha
      exact ⟨c, (hget _ _ c).mpr ⟨hc, hk⟩, hle⟩
    numbered := fun a ha => ⟨(hi.numbered a ((hmem a).mp ha).1).1,
      Nat.le_trans (hi.numbered a ((hmem a).mp ha).1).2 hseq⟩ }

section Run

variable [Hashing]

theorem trackInv_step (s : Store) (c : Call) (hi : TrackInv s) : TrackInv (step s c) := by
  have hversions := (step_releaseEffect (s := s) (c := c) rfl).versions hi.versions
  have hseq := (step_sessionEffect (s := s) (c := c) rfl).seq_le
  cases step_historyEffect (s := s) (c := c) rfl with
  | neutral hlabels hactivations =>
    refine hi.kept hversions hlabels (fun a ha => hactivations ▸ ha) (fun a ha _ => ?_) hseq
    rw [hactivations]
    exact ha
  | namespaceDeleted id hlabels hactivations =>
    exact hi.deleted hversions hlabels hactivations hseq
  | activated k version htarget hmoved hactivations hlabels hseq =>
    obtain ⟨m, hm, rfl⟩ := htarget
    exact hi.activated hversions (hi.versions m hm) hmoved hactivations hlabels hseq
  | pruned cutoff hlabels hactivations =>
    refine hi.kept hversions hlabels (fun a ha => ?_) (fun a ha hl => ?_) hseq
    · rw [hactivations, Table.mem_deleteWhere] at ha
      exact ha.1
    · rw [hactivations, Table.mem_deleteWhere, hl]
      exact ⟨ha, by simp⟩

theorem trackInv_runsTo {P : Call → Prop} {s s' : Store} (h : RunsTo step P s s')
    (hi : TrackInv s) : TrackInv s' :=
  h.invariant (fun s c _ hs => trackInv_step s c hs) hi

omit [Hashing] in
theorem Evolves.later_version {s s' : Store} (h : Evolves s s') (hi : CatalogInv s)
    {r r' : ConfigurationReleaseModel} (hr : r ∈ s.releases) (hr' : r' ∈ s'.releases)
    (hnew : r' ∉ s.releases) (hk : r'.trackKey = r.trackKey) :
    r.versionNumber < r'.versionNumber := by
  rcases h.releases r' hr' with hold | ⟨_, hlt⟩
  · exact absurd hold hnew
  · rw [hk] at hlt
    exact Nat.lt_of_le_of_lt (hi.numbered r hr) hlt

end Run

/-! ## 保持期限 -/

/-- change log の有効化の行がこの release を指す。 -/
def namedByChange (s : Store) (r : ConfigurationReleaseModel) : Prop :=
  ∃ e ∈ s.changeLog, e.resourceType = .configurationRelease ∧ e.changeType = .activate ∧
    e.namespaceID = r.namespaceID ∧ e.ref.key = r.name ∧ e.schemaVersion = r.schemaVersion ∧
    e.versionNumber = r.versionNumber

def namedByActivation (s : Store) (r : ConfigurationReleaseModel) : Prop :=
  ∃ a ∈ s.releaseActivations, a.track = r.trackKey ∧ a.versionNumber = r.versionNumber

/-- 系列の、label の無い release のうち新しい方から `n` 件に入る。 -/
def amongNewestUnlabelled (s : Store) (n : Nat) (r : ConfigurationReleaseModel) : Prop :=
  releaseLabelled s r.trackKey r.versionNumber = false ∧ newerUnlabelled s r < n

/-- 残す理由の無い release。`s'` は古い有効化の記録を消した後である。 -/
structure Discardable (s s' : Store) (cutoff : Time) (n : Nat) (r : ConfigurationReleaseModel) :
    Prop where
  unlabelled : releaseLabelled s r.trackKey r.versionNumber = false
  unpinned : releasePinned s r.trackKey r.versionNumber = false
  old : r.createdAt < cutoff
  inactive : ¬ namedByActivation s' r
  unlogged : ¬ namedByChange s r
  surplus : ¬ amongNewestUnlabelled s n r

theorem releasePrunable_iff {cutoff : Time} {r : ConfigurationReleaseModel} :
    releasePrunable s s'.releaseActivations cutoff n r = true ↔ Discardable s s' cutoff n r := by
  have hlogged : s.changeLog.rows.any (fun c =>
      decide (c.resourceType = .configurationRelease) && decide (c.namespaceID = r.namespaceID) &&
        decide (c.ref.key = r.name) && decide (c.schemaVersion = r.schemaVersion) &&
        decide (c.versionNumber = r.versionNumber) && decide (c.changeType = .activate)) = true ↔
      namedByChange s r := by
    simp only [namedByChange, List.any_eq_true, Bool.and_eq_true, decide_eq_true_eq,
      Journal.mem_def]
    refine exists_congr (fun e => and_congr_right (fun _ => ?_))
    tauto
  have hactive : s'.releaseActivations.rows.any
      (fun a => decide (a.track = r.trackKey) && decide (a.versionNumber = r.versionNumber)) =
        true ↔ namedByActivation s' r := by
    simp [namedByActivation, List.any_eq_true, Table.mem_def]
  simp only [releasePrunable, Bool.and_eq_true, decide_eq_true_eq, Bool.not_eq_true',
    ← Bool.not_eq_true, hlogged, hactive]
  constructor
  · rintro ⟨⟨⟨⟨⟨hold, hpin⟩, hlabel⟩, hsurplus⟩, hinactive⟩, hunlogged⟩
    exact ⟨by simpa using hlabel, by simpa using hpin, hold, hinactive, hunlogged,
      fun h => Nat.not_lt_of_le hsurplus h.2⟩
  · rintro ⟨hlabel, hpin, hold, hinactive, hunlogged, hsurplus⟩
    refine ⟨⟨⟨⟨⟨hold, by simp [hpin]⟩, by simp [hlabel]⟩, ?_⟩, hinactive⟩, hunlogged⟩
    exact Nat.le_of_not_lt (fun hlt => hsurplus ⟨hlabel, hlt⟩)

theorem mem_pruneConfigurationReleases_iff {rq : Request} {d : Nat} (hd : 0 < d)
    (hn : 0 < n) {r : ConfigurationReleaseModel} (hr : r ∈ s.releases) :
    r ∈ (pruneConfigurationReleases rq s d n).releases ↔
      ¬ Discardable s (pruneConfigurationReleases rq s d n) (rq.now - d) n r := by
  rw [← releasePrunable_iff]
  unfold pruneConfigurationReleases
  rw [if_neg (by omega : ¬ (d = 0 ∨ n = 0))]
  simp [hr]

theorem pruneConfigurationReleases_keeps_activation {rq : Request} {d : Nat}
    {a : ConfigurationReleaseActivationModel} (ha : a ∈ s.releaseActivations)
    (hl : activationLabelled s a = true) :
    a ∈ (pruneConfigurationReleases rq s d n).releaseActivations := by
  unfold pruneConfigurationReleases
  split
  · exact ha
  · rw [Table.mem_deleteWhere]
    refine ⟨ha, ?_⟩
    rw [show (s.releaseLabels.rows.any (fun l => decide (l.track = a.track) &&
      decide (l.activationRevision = a.revision))) = true from hl]
    simp

/-! ## 主定理 -/

section Main

variable [Hashing] [SnapshotHashing]

/--
release 系列の label・履歴・番号。空の store からのどの run の後でも、(1) previous と current は違う version を
指し、(2) current の activation revision は系列で最大で、その version の有効化の記録のものであり、(3) その後の run で
作られた release の番号は、既にあったどの番号よりも大きく、(4) 保持期限は、label の付いた有効化の記録を残し、
label・pin・期限内（期限ちょうどを含む）・有効化の記録・change log・新しい方から `n` 件のどれにも当たらない release の
ちょうど全てを消す。
-/
theorem release_track_history (ts us : List Transaction) (rq : Request) {d n : Nat} (hd : 0 < d)
    (hn : 0 < n) :
    (∀ k c p, (run transact Store.empty ts).releaseLabels.get (k, .current) = some c →
      (run transact Store.empty ts).releaseLabels.get (k, .previous) = some p →
      p.versionNumber ≠ c.versionNumber) ∧
    (∀ k c, (run transact Store.empty ts).releaseLabels.get (k, .current) = some c →
      (∃ a ∈ (run transact Store.empty ts).releaseActivations, a.track = k ∧
        a.revision = c.activationRevision ∧ a.versionNumber = c.versionNumber) ∧
      ∀ a ∈ (run transact Store.empty ts).releaseActivations, a.track = k →
        a.revision ≤ c.activationRevision) ∧
    (∀ r ∈ (run transact Store.empty ts).releases,
      ∀ r' ∈ (run transact (run transact Store.empty ts) us).releases,
        r' ∉ (run transact Store.empty ts).releases → r'.trackKey = r.trackKey →
          r.versionNumber < r'.versionNumber) ∧
    (∀ a ∈ (run transact Store.empty ts).releaseActivations,
      activationLabelled (run transact Store.empty ts) a = true →
        a ∈ (pruneConfigurationReleases rq (run transact Store.empty ts) d n).releaseActivations) ∧
    (∀ r ∈ (run transact Store.empty ts).releases,
      (r ∈ (pruneConfigurationReleases rq (run transact Store.empty ts) d n).releases ↔
        ¬ Discardable (run transact Store.empty ts)
          (pruneConfigurationReleases rq (run transact Store.empty ts) d n) (rq.now - d) n r)) := by
  have hreach : RunsTo transact (fun _ => True) Store.empty (run transact Store.empty ts) :=
    ⟨ts, fun _ _ => trivial, rfl⟩
  have hlater : RunsTo transact (fun _ => True) (run transact Store.empty ts)
      (run transact (run transact Store.empty ts) us) := ⟨us, fun _ _ => trivial, rfl⟩
  have hi : TrackInv (run transact Store.empty ts) :=
    trackInv_runsTo (runsTo_anyCalls hreach) trackInv_empty
  have hcatalog : CatalogInv (run transact Store.empty ts) := (runsTo_anyCalls hreach).invariant
    (fun s c _ hs => catalogInv_step s c hs) catalogInv_empty
  refine ⟨hi.distinct, fun k c hc => ⟨hi.recorded k c hc, fun a ha hk => ?_⟩, ?_,
    fun a ha hl => pruneConfigurationReleases_keeps_activation ha hl,
    fun r hr => mem_pruneConfigurationReleases_iff hd hn hr⟩
  · obtain ⟨c', hc', hle⟩ := hi.newest a ha
    rw [hk, hc] at hc'
    cases hc'
    exact hle
  · intro r hr r' hr' hnew hk
    exact (evolves_runsTo hcatalog (runsTo_anyCalls hlater)).later_version hcatalog hr hr' hnew hk

/-- **一度読めた release の中身は、いつ読んでも同じである。** 保持期限で消えても、同じ番号で別の中身が読めることは無い。 -/
theorem released_content_immutable (ts us : List Transaction) (rq rq' : Request)
    (track : ReleaseTrack) (version : Nat) {rel rel' : ConfigurationRelease} (hv : version ≠ 0)
    (hread : getConfigurationRelease rq (run transact Store.empty ts) track version = .ok rel)
    (hlater : getConfigurationRelease rq' (run transact (run transact Store.empty ts) us) track
      version = .ok rel')
    (hns : resolveNamespaceID rq' (run transact (run transact Store.empty ts) us) track.ns =
      resolveNamespaceID rq (run transact Store.empty ts) track.ns) : rel' = rel := by
  have hcatalog : CatalogInv (run transact Store.empty ts) :=
    (runsTo_anyCalls (P := fun _ => True) ⟨ts, fun _ _ => trivial, rfl⟩).invariant
      (fun s c _ hs => catalogInv_step s c hs) catalogInv_empty
  have hevolves := evolves_runsTo hcatalog (runsTo_anyCalls (P := fun _ => True)
    ⟨us, fun _ _ => trivial, rfl⟩)
  obtain ⟨id, m, hid, hm, rfl⟩ := getConfigurationRelease_row hv hread
  obtain ⟨id', m', hid', hm', rfl⟩ := getConfigurationRelease_row hv hlater
  -- 同じ namespace の行なので、二つの行の key は等しい
  cases hid'.symm.trans (hns.trans hid)
  have hmem := AutoTable.mem_of_get hm
  have hmem' := AutoTable.mem_of_get hm'
  have hkey := (AutoTable.key_of_get hm).trans (AutoTable.key_of_get hm').symm
  cases hevolves.release_eq hcatalog hmem hmem' hkey
  simp only [releaseFromModel, hevolves.entries_eq hmem hmem']

end Main

section Sample

local instance historyHashing : Hashing := sampleHashing

local instance historySnapshotHashing : SnapshotHashing := ⟨fun _ => "", fun _ => ""⟩

/-- 時刻 `1` に release を三つ作り、二番目を有効にする。 -/
private def sampleThree : List Transaction :=
  [.call ⟨sampleRequest, .createNamespace sampleNamespace⟩,
    .call ⟨sampleRequest, .createRelease sampleRelease ⟨false, none⟩⟩,
    .call ⟨sampleRequest, .createRelease sampleRelease ⟨false, none⟩⟩,
    .call ⟨sampleRequest, .createRelease sampleRelease ⟨false, none⟩⟩,
    .call ⟨sampleRequest, .activateRelease sampleSession.track 2 none⟩]

private def sampleThreeStore : Store := run transact Store.empty sampleThree

private def sampleOldest : ConfigurationReleaseModel :=
  { id := 1, namespaceID := 1, name := "runtime", versionNumber := 1, schemaVersion := 0
    digest := "", metadataJSON := "\x7b\x7d", createdBy := "ops", createdAt := 1 }

/-- 期限ちょうどに作られた release は、他に残す理由が無くても消えない。 -/
theorem created_at_cutoff_is_kept :
    sampleOldest ∈ sampleThreeStore.releases ∧
      releaseLabelled sampleThreeStore sampleOldest.trackKey sampleOldest.versionNumber = false ∧
      releasePinned sampleThreeStore sampleOldest.trackKey sampleOldest.versionNumber = false ∧
      ¬ 2 - 1 < sampleOldest.createdAt ∧
      (∀ a ∈ sampleThreeStore.releaseActivations.rows, a.versionNumber ≠ 1) ∧
      (∀ e ∈ sampleThreeStore.changeLog.rows, e.versionNumber ≠ 1) ∧
      ¬ newerUnlabelled sampleThreeStore sampleOldest < 1 ∧
      sampleOldest ∈
        (pruneConfigurationReleases ⟨2, fun _ => none⟩ sampleThreeStore 1 1).releases := by
  refine ⟨?_, by decide +kernel, by decide +kernel, by decide +kernel, by decide +kernel,
    by decide +kernel, by decide +kernel, ?_⟩
  · show sampleOldest ∈ sampleThreeStore.releases.table.rows
    decide +kernel
  · show sampleOldest ∈
      (pruneConfigurationReleases ⟨2, fun _ => none⟩ sampleThreeStore 1 1).releases.table.rows
    decide +kernel

theorem release_track_history_sample :
    sampleOldest ∉
      (pruneConfigurationReleases ⟨3, fun _ => none⟩ sampleThreeStore 1 1).releases := by
  obtain ⟨_, _, _, _, hprune⟩ := release_track_history sampleThree [] ⟨3, fun _ => none⟩
    (d := 1) (n := 1) (by decide) (by decide)
  have hmem : sampleOldest ∈ (run transact Store.empty sampleThree).releases := by
    show sampleOldest ∈ (run transact Store.empty sampleThree).releases.table.rows
    decide +kernel
  rw [show sampleThreeStore = run transact Store.empty sampleThree from rfl, hprune _ hmem,
    not_not, ← releasePrunable_iff]
  decide +kernel

theorem released_content_immutable_sample :
    ∃ rel rel', getConfigurationRelease sampleRequest sampleThreeStore sampleSession.track 1 =
        .ok rel ∧
      getConfigurationRelease sampleRequest (run transact sampleThreeStore sampleThree)
        sampleSession.track 1 = .ok rel' ∧ rel' = rel :=
  ⟨_, _, rfl, rfl, released_content_immutable sampleThree sampleThree sampleRequest sampleRequest
    sampleSession.track 1 (by decide) rfl rfl rfl⟩

end Sample

end Kms.Storage
