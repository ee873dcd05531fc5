import Kms.Storage.SessionTarget

/-!
# namespace と release の表の一歩

namespace と release の表に対して、一つの transaction が何をしうるかを `ReleaseEffect` に一度だけ数え上げる。
そこから、二つの時点の store の関係 `Evolves` を導く。

* `Evolves.release_eq` — 同じ系列の同じ version は、いつ読んでも同じ release である。番号は
  counter から採るので、消えた version が別の内容で戻ることはない
* `Evolves.namespace_eq` — namespace の id は再利用されない
* `Evolves.latest` — namespace が生きている間、最新の version は下がらない
* `run_evolves` — run の始めと終わりは `Evolves` で結ばれる
-/

namespace Kms.Storage

open Kms.Infra

/-! ## 一歩の数え上げ -/

/-- namespace と release の表が同じである。 -/
structure SameReleases (s s' : Store) : Prop where
  namespaces : s'.namespaces = s.namespaces
  releases : s'.releases = s.releases
  releaseEntries : s'.releaseEntries = s.releaseEntries
  releaseCounters : s'.releaseCounters = s.releaseCounters

/-- 採番した version の行を足した後の store。 -/
structure ReleaseAdded (s s' : Store) (rq : Request) (nsID : Nat)
    (release : ConfigurationRelease) : Prop where
  owner : ∃ n, s.namespaces.get release.ns = some n ∧ n.id = nsID
  namespaces : s'.namespaces = s.namespaces
  releases : s.releases.insert? (newReleaseRow rq nsID
    (lastReleaseVersion s ⟨nsID, release.name, release.schemaVersion⟩) release) (fun _ => rfl) =
      some s'.releases
  releaseEntries : insertEntries (s.releases.seq + 1) nsID s.releaseEntries release.entries =
    .ok s'.releaseEntries
  releaseCounters : s'.releaseCounters = s.releaseCounters.upsert
    ⟨⟨nsID, release.name, release.schemaVersion⟩,
      lastReleaseVersion s ⟨nsID, release.name, release.schemaVersion⟩ + 1⟩

section

variable [Hashing]

variable {s s' : Store}

/-- namespace と release の表の一歩。 -/
inductive ReleaseEffect (s : Store) (c : Call) (s' : Store) : Prop
  | neutral (h : SameReleases s s')
  | namespaceCreated (ns : NamespaceRef) (hc : c.op = .createNamespace ns)
      (t : AutoTable NamespaceModel.id NamespaceModel.ref)
      (ht : s.namespaces.insert? (fun id => ⟨id, ns⟩) (fun _ => rfl) = some t)
      (hns : s'.namespaces = t) (h : SameReleases { s with namespaces := t } s')
  | namespaceDeleted (id : Nat)
      (hns : s'.namespaces = s.namespaces.deleteWhere (fun m => decide (m.id = id)))
      (hreleases : s'.releases = s.releases.deleteWhere (fun m => decide (m.namespaceID = id)))
      (hentries : s'.releaseEntries =
        s.releaseEntries.deleteWhere (fun m => releaseInNamespace s id m.releaseID))
      (hcounters : s'.releaseCounters =
        s.releaseCounters.deleteWhere (fun m => decide (m.track.namespaceID = id)))
  | added (rq : Request) (nsID : Nat) (release : ConfigurationRelease)
      (h : ReleaseAdded s s' rq nsID release)
  | pruned (a : Table ConfigurationReleaseActivationModel.revision) (cutoff : Time)
      (retainVersions : Nat) (hpos : 0 < retainVersions)
      (hns : s'.namespaces = s.namespaces)
      (hreleases : s'.releases = s.releases.deleteWhere (releasePrunable s a cutoff retainVersions))
      (hentries : s'.releaseEntries = s.releaseEntries.deleteWhere (fun e =>
        (s.releases.byId e.releaseID).any (releasePrunable s a cutoff retainVersions)))
      (hcounters : s'.releaseCounters = s.releaseCounters)

theorem step_releaseEffect {c : Call} (hs : step s c = s') : ReleaseEffect s c s' := by
  cases step_storeEffect hs with
  | namespaceCreated ns id hc h =>
    obtain ⟨t, ht, _, _, rfl⟩ := createNamespace_ok_cases h
    exact .namespaceCreated ns hc t ht rfl ⟨rfl, rfl, rfl, rfl⟩
  | namespaceDeleted ns u h =>
    obtain ⟨id, _, _, _, rfl⟩ := deleteNamespaceTx_ok_cases h
    exact .namespaceDeleted id rfl rfl rfl rfl
  | released release options out h =>
    rcases createConfigurationRelease_ok_cases h with
      ⟨_, _, rfl⟩ | ⟨nsID, t, es, _, _, hns, ht, hes, rfl⟩
    · exact .neutral ⟨rfl, rfl, rfl, rfl⟩
    · exact .added c.rq nsID (release.homed nsID) ⟨resolveNamespaceID_ok hns, rfl, ht, hes, rfl⟩
  | pruned retainDuration retainVersions h =>
    unfold pruneConfigurationReleases at h
    split at h
    · subst h
      exact .neutral ⟨rfl, rfl, rfl, rfl⟩
    · next hne =>
      subst h
      exact .pruned _ _ retainVersions (by omega) rfl rfl rfl rfl
  | _ =>
    rename_i hs
    subst hs
    exact .neutral ⟨rfl, rfl, rfl, rfl⟩

end

/-! ## 表の不変条件 -/

/-- release・entry・counter は持ち主と一緒にあり、version は counter を超えない。 -/
structure CatalogInv (s : Store) : Prop where
  owner : ∀ r ∈ s.releases, ∃ n ∈ s.namespaces, n.id = r.namespaceID
  entryOwner : ∀ e ∈ s.releaseEntries, ∃ r ∈ s.releases, r.id = e.releaseID
  numbered : ∀ r ∈ s.releases, r.versionNumber ≤ lastReleaseVersion s r.trackKey
  counterOwner : ∀ c ∈ s.releaseCounters, ∃ n ∈ s.namespaces, n.id = c.track.namespaceID

theorem catalogInv_empty : CatalogInv Store.empty where
  owner := fun r hr => absurd hr (AutoTable.not_mem_empty r)
  entryOwner := fun e he => absurd he (Table.not_mem_empty e)
  numbered := fun r hr => absurd hr (AutoTable.not_mem_empty r)
  counterOwner := fun c hc => absurd hc (Table.not_mem_empty c)

variable {s s' : Store} {c : Call} {id nsID : Nat} {k : TrackKey} {r : ConfigurationReleaseModel}

theorem lastReleaseVersion_deleteWhere (h : s'.releaseCounters =
      s.releaseCounters.deleteWhere (fun m => decide (m.track.namespaceID = id)))
    (hk : k.namespaceID ≠ id) : lastReleaseVersion s' k = lastReleaseVersion s k := by
  unfold lastReleaseVersion
  rw [h, Table.get_deleteWhere]
  cases hg : s.releaseCounters.get k with
  | none => rfl
  | some c =>
    have hck : c.track = k := Table.key_of_get hg
    rw [Option.filter_some_pos]
    simp [hck, hk]

theorem lastReleaseVersion_upsert {k₀ : TrackKey} {v : Nat}
    (h : s'.releaseCounters = s.releaseCounters.upsert ⟨k₀, v⟩) (k : TrackKey) :
    lastReleaseVersion s' k = if k₀ = k then v else lastReleaseVersion s k := by
  unfold lastReleaseVersion
  rw [h, Table.get_upsert]
  split <;> rfl

theorem SameReleases.inv (h : SameReleases s s') (hi : CatalogInv s) :
    CatalogInv s' where
  owner := by
    rw [h.releases, h.namespaces]
    exact hi.owner
  entryOwner := by
    rw [h.releaseEntries, h.releases]
    exact hi.entryOwner
  numbered := by
    unfold lastReleaseVersion
    rw [h.releases, h.releaseCounters]
    exact hi.numbered
  counterOwner := by
    rw [h.releaseCounters, h.namespaces]
    exact hi.counterOwner

theorem ReleaseAdded.inv {rq : Request} {release : ConfigurationRelease}
    (h : ReleaseAdded s s' rq nsID release) (hi : CatalogInv s) : CatalogInv s' := by
  obtain ⟨n, hn, hid⟩ := h.owner
  have hmem : n ∈ s.namespaces := AutoTable.mem_of_get hn
  refine ⟨?_, ?_, ?_, ?_⟩
  · rw [h.namespaces]
    intro r hr
    rcases (AutoTable.mem_insert? h.releases).mp hr with hr | rfl
    · exact hi.owner r hr
    · exact ⟨n, hmem, hid⟩
  · intro e he
    rcases (mem_insertEntries h.releaseEntries).mp he with he | ⟨x, _, rfl⟩
    · obtain ⟨r, hr, hrid⟩ := hi.entryOwner e he
      exact ⟨r, (AutoTable.mem_insert? h.releases).mpr (Or.inl hr), hrid⟩
    · exact ⟨_, (AutoTable.mem_insert? h.releases).mpr (Or.inr rfl), rfl⟩
  · intro r hr
    rw [lastReleaseVersion_upsert h.releaseCounters]
    rcases (AutoTable.mem_insert? h.releases).mp hr with hr | rfl
    · have hle := hi.numbered r hr
      split
      · next hk =>
        rw [← hk] at hle
        exact Nat.le_succ_of_le hle
      · exact hle
    · rw [if_pos]
      · exact le_rfl
      · rfl
  · rw [h.namespaces, h.releaseCounters]
    intro c hc
    rcases Table.mem_upsert.mp hc with rfl | ⟨hc, _⟩
    · exact ⟨n, hmem, hid⟩
    · exact hi.counterOwner c hc

theorem ReleaseEffect.inv (h : ReleaseEffect s c s') (hi : CatalogInv s) : CatalogInv s' := by
  cases h with
  | neutral h | added rq nsID release h => exact h.inv hi
  | namespaceCreated ns hc t ht _ h =>
    refine h.inv ⟨fun r hr => ?_, hi.entryOwner, hi.numbered, fun c hc => ?_⟩
    · obtain ⟨n, hn, hid⟩ := hi.owner r hr
      exact ⟨n, (AutoTable.mem_insert? ht).mpr (Or.inl hn), hid⟩
    · obtain ⟨n, hn, hid⟩ := hi.counterOwner c hc
      exact ⟨n, (AutoTable.mem_insert? ht).mpr (Or.inl hn), hid⟩
  | namespaceDeleted id hns hreleases hentries hcounters =>
    -- 消した namespace の release・entry・counter も一緒に消える。
    refine ⟨fun r hr => ?_, fun e he => ?_, fun r hr => ?_, fun c hc => ?_⟩
    · rw [hreleases, AutoTable.mem_deleteWhere, decide_eq_false_iff_not] at hr
      obtain ⟨n, hn, hid⟩ := hi.owner r hr.1
      refine ⟨n, ?_, hid⟩
      rw [hns, AutoTable.mem_deleteWhere, decide_eq_false_iff_not, hid]
      exact ⟨hn, hr.2⟩
    · rw [hentries, Table.mem_deleteWhere] at he
      obtain ⟨r, hr, hid⟩ := hi.entryOwner e he.1
      refine ⟨r, ?_, hid⟩
      have hin := he.2
      rw [releaseInNamespace, ← hid, AutoTable.byId_of_mem hr] at hin
      rw [hreleases, AutoTable.mem_deleteWhere]
      exact ⟨hr, hin⟩
    · rw [hreleases, AutoTable.mem_deleteWhere, decide_eq_false_iff_not] at hr
      rw [lastReleaseVersion_deleteWhere hcounters hr.2]
      exact hi.numbered r hr.1
    · rw [hcounters, Table.mem_deleteWhere, decide_eq_false_iff_not] at hc
      obtain ⟨n, hn, hid⟩ := hi.counterOwner c hc.1
      refine ⟨n, ?_, hid⟩
      rw [hns, AutoTable.mem_deleteWhere, decide_eq_false_iff_not, hid]
      exact ⟨hn, hc.2⟩
  | pruned a cutoff retainVersions _ hns hreleases hentries hcounters =>
    refine ⟨fun r hr => ?_, fun e he => ?_, fun r hr => ?_, ?_⟩
    · rw [hreleases, AutoTable.mem_deleteWhere] at hr
      rw [hns]
      exact hi.owner r hr.1
    · rw [hentries, Table.mem_deleteWhere] at he
      obtain ⟨r, hr, hid⟩ := hi.entryOwner e he.1
      have hkept := he.2
      rw [← hid, AutoTable.byId_of_mem hr, Option.any_some] at hkept
      refine ⟨r, ?_, hid⟩
      rw [hreleases, AutoTable.mem_deleteWhere]
      exact ⟨hr, hkept⟩
    · rw [hreleases, AutoTable.mem_deleteWhere] at hr
      unfold lastReleaseVersion
      rw [hcounters]
      exact hi.numbered r hr.1
    · rw [hns, hcounters]
      exact hi.counterOwner

/-! ## 二つの時点の関係 -/

def Alive (s : Store) (id : Nat) : Prop := ∃ n ∈ s.namespaces, n.id = id

/-- `s` の後の時点の store `s'`。 -/
structure Evolves (s s' : Store) : Prop where
  nsSeq : s.namespaces.seq ≤ s'.namespaces.seq
  ns : ∀ n ∈ s'.namespaces, n ∈ s.namespaces ∨ s.namespaces.seq < n.id
  releaseSeq : s.releases.seq ≤ s'.releases.seq
  releases : ∀ r ∈ s'.releases, r ∈ s.releases ∨
    s.releases.seq < r.id ∧ lastReleaseVersion s r.trackKey < r.versionNumber
  counters : ∀ k, Alive s' k.namespaceID → lastReleaseVersion s k ≤ lastReleaseVersion s' k
  latest : ∀ k, Alive s' k.namespaceID → latestVersion s k ≤ latestVersion s' k
  entries : ∀ r ∈ s.releases, r ∈ s'.releases →
    s'.releaseEntries.rows.filter (fun e => decide (e.releaseID = r.id)) =
      s.releaseEntries.rows.filter (fun e => decide (e.releaseID = r.id))

theorem Evolves.namespace_eq (h : Evolves s s') {n n' : NamespaceModel}
    (hn : n ∈ s.namespaces) (hn' : n' ∈ s'.namespaces) (hid : n.id = n'.id) : n = n' := by
  rcases h.ns n' hn' with hold | hfresh
  · exact s.namespaces.id_inj n hn n' hold hid
  · have hle := s.namespaces.id_le n hn
    omega

theorem Evolves.release_eq (h : Evolves s s') (hi : CatalogInv s)
    {r' : ConfigurationReleaseModel} (hr : r ∈ s.releases) (hr' : r' ∈ s'.releases)
    (hkey : r.key = r'.key) : r = r' := by
  rcases h.releases r' hr' with hold | ⟨_, hlt⟩
  · exact Table.eq_of_key_eq hr hold hkey
  · have hnum := hi.numbered r hr
    simp only [ConfigurationReleaseModel.key, ReleaseKey.mk.injEq] at hkey
    obtain ⟨hns, hname, hversion, hschema⟩ := hkey
    rw [ConfigurationReleaseModel.trackKey, hns, hname, hschema] at hnum
    have hlt' : lastReleaseVersion s ⟨r'.namespaceID, r'.name, r'.schemaVersion⟩ <
        r'.versionNumber := hlt
    omega

theorem Evolves.entries_eq (h : Evolves s s') (hr : r ∈ s.releases) (hr' : r ∈ s'.releases) :
    releaseEntriesOf s' r.id = releaseEntriesOf s r.id := by
  unfold releaseEntriesOf
  rw [h.entries r hr hr']

theorem Evolves.refl (s : Store) : Evolves s s where
  nsSeq := le_rfl
  ns := fun _ hn => Or.inl hn
  releaseSeq := le_rfl
  releases := fun _ hr => Or.inl hr
  counters := fun _ _ => le_rfl
  latest := fun _ _ => le_rfl
  entries := fun _ _ _ => rfl

theorem Evolves.alive_or_fresh (h : Evolves s s') (ha : Alive s' id) :
    Alive s id ∨ s.namespaces.seq < id := by
  obtain ⟨n, hn, rfl⟩ := ha
  rcases h.ns n hn with hold | hfresh
  · exact Or.inl ⟨n, hold, rfl⟩
  · exact Or.inr hfresh

theorem CatalogInv.fresh (hi : CatalogInv s) (h : s.namespaces.seq < k.namespaceID) :
    lastReleaseVersion s k = 0 ∧ latestVersion s k = 0 := by
  have hdead : ∀ n ∈ s.namespaces, n.id ≠ k.namespaceID := by
    intro n hn hid
    have hle := s.namespaces.id_le n hn
    omega
  constructor
  · unfold lastReleaseVersion
    cases hg : s.releaseCounters.get k with
    | none => rfl
    | some c =>
      obtain ⟨n, hn, hid⟩ := hi.counterOwner c (Table.mem_of_get hg)
      rw [Table.key_of_get hg] at hid
      exact absurd hid (hdead n hn)
  · by_contra hne
    obtain ⟨r, hr, rfl, _⟩ := exists_latest hne
    obtain ⟨n, hn, hid⟩ := hi.owner r hr
    exact hdead n hn hid

theorem Evolves.trans {s'' : Store} (hi : CatalogInv s) (hi'' : CatalogInv s'')
    (h : Evolves s s') (h' : Evolves s' s'') : Evolves s s'' where
  nsSeq := h.nsSeq.trans h'.nsSeq
  ns := by
    intro n hn
    rcases h'.ns n hn with hold | hfresh
    · exact h.ns n hold
    · exact Or.inr (h.nsSeq.trans_lt hfresh)
  releaseSeq := h.releaseSeq.trans h'.releaseSeq
  releases := by
    intro r hr
    rcases h'.releases r hr with hold | ⟨hfresh, hlt⟩
    · exact h.releases r hold
    · refine Or.inr ⟨h.releaseSeq.trans_lt hfresh, ?_⟩
      have halive : Alive s'' r.trackKey.namespaceID := hi''.owner r hr
      rcases h'.alive_or_fresh halive with ha | hf
      · exact Nat.lt_of_le_of_lt (h.counters _ ha) hlt
      · rw [(hi.fresh (h.nsSeq.trans_lt hf)).1]
        omega
  counters := by
    intro k halive
    rcases h'.alive_or_fresh halive with ha | hf
    · exact Nat.le_trans (h.counters k ha) (h'.counters k halive)
    · rw [(hi.fresh (h.nsSeq.trans_lt hf)).1]
      exact Nat.zero_le _
  latest := by
    intro k halive
    rcases h'.alive_or_fresh halive with ha | hf
    · exact Nat.le_trans (h.latest k ha) (h'.latest k halive)
    · rw [(hi.fresh (h.nsSeq.trans_lt hf)).2]
      exact Nat.zero_le _
  entries := by
    intro r hr hr''
    have hr' : r ∈ s'.releases := by
      rcases h'.releases r hr'' with hold | ⟨hfresh, _⟩
      · exact hold
      · have hle := s.releases.id_le r hr
        have hseq := h.releaseSeq
        omega
    rw [h'.entries r hr' hr'', h.entries r hr hr']

/-! ## 一歩の関係 -/

theorem SameReleases.evolves (h : SameReleases s s') : Evolves s s' where
  nsSeq := Nat.le_of_eq (by rw [h.namespaces])
  ns := fun n hn => Or.inl (h.namespaces ▸ hn)
  releaseSeq := Nat.le_of_eq (by rw [h.releases])
  releases := fun r hr => Or.inl (h.releases ▸ hr)
  counters := fun k _ =>
    Nat.le_of_eq (by rw [lastReleaseVersion, lastReleaseVersion, h.releaseCounters])
  latest := fun k _ => Nat.le_of_eq (by rw [latestVersion, latestVersion, h.releases])
  entries := fun r _ _ => by rw [h.releaseEntries]

theorem latestVersion_mono
    (h : ∀ r ∈ s.releases, r.trackKey = k → r.versionNumber = latestVersion s k →
      r ∈ s'.releases) : latestVersion s k ≤ latestVersion s' k := by
  by_cases h0 : latestVersion s k = 0
  · rw [h0]
    exact Nat.zero_le _
  · obtain ⟨r, hr, rfl, hv⟩ := exists_latest h0
    rw [← hv]
    exact le_latestVersion (h r hr rfl hv)

theorem filter_insertEntries {releaseID : Nat} {es : List ConfigurationReleaseEntry}
    {t t' : Table ConfigurationReleaseEntryModel.key}
    (h : insertEntries releaseID nsID t es = .ok t') (hne : releaseID ≠ id) :
    t'.rows.filter (fun e => decide (e.releaseID = id)) =
      t.rows.filter (fun e => decide (e.releaseID = id)) := by
  have hnone : (es.map (entryRow releaseID nsID)).filter (fun e => decide (e.releaseID = id)) =
      [] := by
    rw [List.filter_eq_nil_iff]
    intro e he
    obtain ⟨x, _, rfl⟩ := List.mem_map.mp he
    rw [decide_eq_true_eq]
    exact hne
  rw [rows_insertEntries h, List.filter_append, hnone, List.append_nil]

theorem filter_deleteWhere {t : Table ConfigurationReleaseEntryModel.key}
    {p : ConfigurationReleaseEntryModel → Bool} (h : ∀ e ∈ t, e.releaseID = id → p e = false) :
    (t.deleteWhere p).rows.filter (fun e => decide (e.releaseID = id)) =
      t.rows.filter (fun e => decide (e.releaseID = id)) := by
  show (t.rows.filter _).filter _ = _
  rw [List.filter_filter]
  refine List.filter_congr (fun e he => ?_)
  by_cases hid : e.releaseID = id
  · simp [hid, h e he hid]
  · simp [hid]

theorem ReleaseAdded.evolves {rq : Request}
    {release : ConfigurationRelease} (h : ReleaseAdded s s' rq nsID release) : Evolves s s' where
  nsSeq := Nat.le_of_eq (by rw [h.namespaces])
  ns := fun n hn => Or.inl (h.namespaces ▸ hn)
  releaseSeq := by
    rw [(AutoTable.insert?_table h.releases).2]
    exact Nat.le_succ _
  releases := by
    intro r hr
    rcases (AutoTable.mem_insert? h.releases).mp hr with hr | rfl
    · exact Or.inl hr
    · exact Or.inr ⟨Nat.lt_succ_self _, Nat.lt_succ_self _⟩
  counters := by
    intro k _
    rw [lastReleaseVersion_upsert h.releaseCounters]
    split
    · next hk =>
      rw [hk]
      exact Nat.le_succ _
    · exact le_rfl
  latest := fun k _ => latestVersion_mono
    (fun r hr _ _ => (AutoTable.mem_insert? h.releases).mpr (Or.inl hr))
  entries := by
    intro r hr _
    refine filter_insertEntries h.releaseEntries ?_
    have hle := s.releases.id_le r hr
    omega

theorem latest_not_prunable {a : Table ConfigurationReleaseActivationModel.revision}
    {cutoff : Time} {retainVersions : Nat} (hpos : 0 < retainVersions)
    (hv : r.versionNumber = latestVersion s r.trackKey) :
    releasePrunable s a cutoff retainVersions r = false := by
  have hnone : newerUnlabelled s r = 0 := by
    unfold newerUnlabelled
    rw [List.length_eq_zero_iff, List.filter_eq_nil_iff]
    intro x hx
    simp only [Bool.and_eq_true, decide_eq_true_eq, not_and, Nat.not_lt, and_imp]
    intro hk _
    rw [hv, ← hk]
    exact le_latestVersion hx
  unfold releasePrunable
  rw [hnone]
  simp [Nat.not_le.mpr hpos]

theorem ReleaseEffect.evolves (h : ReleaseEffect s c s') : Evolves s s' := by
  cases h with
  | neutral h | added rq nsID release h => exact h.evolves
  | namespaceCreated ns hc t ht _ h =>
    have hseq := (AutoTable.insert?_table ht).2
    have hev := h.evolves
    refine ⟨?_, fun n hn => ?_, hev.releaseSeq, hev.releases, hev.counters, hev.latest, hev.entries⟩
    · have hle : t.seq ≤ s'.namespaces.seq := hev.nsSeq
      omega
    · rw [h.namespaces] at hn
      rcases (AutoTable.mem_insert? ht).mp hn with hn | rfl
      · exact Or.inl hn
      · exact Or.inr (Nat.lt_succ_self _)
  | namespaceDeleted id hns hreleases hentries hcounters =>
    have hlive : ∀ i, Alive s' i → i ≠ id := by
      rintro _ ⟨n, hn, rfl⟩
      rw [hns, AutoTable.mem_deleteWhere, decide_eq_false_iff_not] at hn
      exact hn.2
    refine ⟨Nat.le_of_eq (by rw [hns]; rfl), fun n hn => ?_, Nat.le_of_eq (by rw [hreleases]; rfl),
      fun r hr => ?_, fun k hk => ?_, fun k hk => ?_, fun r hr hr' => ?_⟩
    · rw [hns, AutoTable.mem_deleteWhere] at hn
      exact Or.inl hn.1
    · rw [hreleases, AutoTable.mem_deleteWhere] at hr
      exact Or.inl hr.1
    · rw [lastReleaseVersion_deleteWhere hcounters (hlive _ hk)]
    · refine latestVersion_mono (fun r hr hrk _ => ?_)
      rw [hreleases, AutoTable.mem_deleteWhere, decide_eq_false_iff_not]
      refine ⟨hr, ?_⟩
      rw [show r.namespaceID = k.namespaceID from congrArg TrackKey.namespaceID hrk]
      exact hlive _ hk
    · rw [hentries]
      refine filter_deleteWhere (fun e _ hid => ?_)
      rw [hreleases, AutoTable.mem_deleteWhere] at hr'
      rw [releaseInNamespace, hid, AutoTable.byId_of_mem hr]
      exact hr'.2
  | pruned a cutoff retainVersions hpos hns hreleases hentries hcounters =>
    refine ⟨Nat.le_of_eq (by rw [hns]), fun n hn => Or.inl (hns ▸ hn),
      Nat.le_of_eq (by rw [hreleases]; rfl), fun r hr => ?_, fun k _ => ?_, fun k _ => ?_,
      fun r hr hr' => ?_⟩
    · rw [hreleases, AutoTable.mem_deleteWhere] at hr
      exact Or.inl hr.1
    · unfold lastReleaseVersion
      rw [hcounters]
    · refine latestVersion_mono (fun r hr hrk hv => ?_)
      rw [hreleases, AutoTable.mem_deleteWhere]
      rw [← hrk] at hv
      exact ⟨hr, latest_not_prunable hpos hv⟩
    · rw [hentries]
      refine filter_deleteWhere (fun e _ hid => ?_)
      rw [hreleases, AutoTable.mem_deleteWhere] at hr'
      rw [hid, AutoTable.byId_of_mem hr, Option.any_some]
      exact hr'.2

/-! ## run -/

section Run

variable [Hashing]

theorem catalogInv_step (s : Store) (c : Call) (hi : CatalogInv s) : CatalogInv (step s c) :=
  (step_releaseEffect rfl).inv hi

variable {s : Store}

theorem catalogInv_run (hi : CatalogInv s) (cs : List Call) : CatalogInv (run step s cs) :=
  run_invariant catalogInv_step hi cs

/-- namespace を作らない操作の後の namespace は、前からあったものである。 -/
theorem step_namespaces {c : Call} (hc : c.op.createsNamespace = false)
    {n : NamespaceModel} (hn : n ∈ (step s c).namespaces) : n ∈ s.namespaces := by
  cases step_releaseEffect (s := s) (c := c) rfl with
  | neutral h | added rq nsID release h => exact h.namespaces ▸ hn
  | namespaceCreated ns hop _ _ _ _ =>
    rw [hop] at hc
    cases hc
  | namespaceDeleted id hns _ _ _ =>
    rw [hns, AutoTable.mem_deleteWhere] at hn
    exact hn.1
  | pruned a cutoff retainVersions _ hns _ _ _ => exact hns ▸ hn

theorem namespaces_runsTo {s' : Store}
    (h : RunsTo step (fun c => c.op.createsNamespace = false) s s') {n : NamespaceModel}
    (hn : n ∈ s'.namespaces) : n ∈ s.namespaces := by
  obtain ⟨cs, hcs, rfl⟩ := h
  induction cs generalizing s with
  | nil => exact hn
  | cons c cs ih =>
    rw [List.forall_mem_cons] at hcs
    exact step_namespaces hcs.1 (ih hcs.2 hn)

theorem run_evolves (hi : CatalogInv s) (cs : List Call) : Evolves s (run step s cs) := by
  induction cs generalizing s with
  | nil => exact Evolves.refl s
  | cons c cs ih =>
    have hstep : Evolves s (step s c) := (step_releaseEffect rfl).evolves
    have hi' := catalogInv_step s c hi
    exact hstep.trans hi (catalogInv_run hi' cs) (ih hi')

theorem evolves_runsTo {P : Call → Prop} {s' : Store} (hi : CatalogInv s)
    (h : RunsTo step P s s') : Evolves s s' := by
  obtain ⟨cs, _, rfl⟩ := h
  exact run_evolves hi cs

end Run

end Kms.Storage
