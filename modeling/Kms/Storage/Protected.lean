import Kms.Storage.SecretFrame

/-!
# 守られた release は配り続けられる

label か session の pin が指す version を、守られた version と呼ぶ。守られた version には release の行があり、その
entry が指す資源は全て読める。資源を消す操作は参照を調べてから消し、label と pin は全ての entry を検査してから動く。

* `Deliverable` — release の行と、その entry が指す資源が揃っている
* `Guarded` — 守られた version は全て `Deliverable` である
* `guarded_step` — どの transaction も `Guarded` を保つ
* `protected_releases_deliverable` — 主定理
-/

namespace Kms.Storage

open Kms.Infra

/-! ## 守られた version -/

/-- label か session の pin が指している。 -/
def Protected (s : Store) (k : TrackKey) (version : Nat) : Prop :=
  (∃ l ∈ s.releaseLabels, l.track = k ∧ l.versionNumber = version) ∨
    (version ≠ 0 ∧ ∃ m ∈ s.sessions, m.track = k ∧ m.pinVersion = version)

theorem Protected.flag {s : Store} {r : ConfigurationReleaseModel}
    (h : Protected s r.trackKey r.versionNumber) :
    (releaseLabelled s r.trackKey r.versionNumber || releasePinned s r.trackKey r.versionNumber) =
      true := by
  rw [Bool.or_eq_true, releaseLabelled, releasePinned, List.any_eq_true, List.any_eq_true]
  rcases h with ⟨l, hl, ht, hv⟩ | ⟨_, m, hm, ht, hv⟩
  · exact Or.inl ⟨l, hl, by simp [ht, hv]⟩
  · exact Or.inr ⟨m, hm, by simp [ht, hv]⟩

theorem track_of_release_key {r : ConfigurationReleaseModel} {k : TrackKey} {version : Nat}
    (h : r.key = k.release version) : r.trackKey = k ∧ r.versionNumber = version := by
  have hns := congrArg ReleaseKey.namespaceID h
  have hname := congrArg ReleaseKey.name h
  have hschema := congrArg ReleaseKey.schemaVersion h
  refine ⟨?_, congrArg ReleaseKey.versionNumber h⟩
  cases k
  simp only [ConfigurationReleaseModel.key, TrackKey.release] at hns hname hschema
  simp only [ConfigurationReleaseModel.trackKey, hns, hname, hschema]

section

variable [Hashing]

/-! ## 読める entry -/

/-- entry が指す資源が読める。`purged` は、明示の消去で破棄された secret version。 -/
def EntryReadable (purged : Nat × Nat → Prop) (s : Store) (r : ConfigurationReleaseModel)
    (e : ConfigurationReleaseEntryModel) : Prop :=
  e.resourceNamespaceID = r.namespaceID ∧
    (s.namespaces.byId r.namespaceID).map (·.ref) = some e.resourceNS ∧
    match e.kind with
    | .parameter => ∃ pv, pinnedParameterVersion s e = some pv ∧ pv.contentType = e.contentType ∧
        (e.parameterDigest = "" ∨ Hashing.sha256Hex pv.value = e.parameterDigest)
    | .secret => ∃ sec sv, s.secrets.get (e.resourceNamespaceID, e.resourceKey) = some sec ∧
        s.secretVersions.get (sec.id, e.resourceVersion) = some sv ∧
        (sv.state = .destroyed → purged (sec.id, e.resourceVersion))
    | .other _ => False

def Deliverable (purged : Nat × Nat → Prop) (s : Store) (k : TrackKey) (version : Nat) : Prop :=
  ∃ r, s.releases.get (k.release version) = some r ∧
    ∀ e ∈ s.releaseEntries, e.releaseID = r.id → EntryReadable purged s r e

def Guarded (purged : Nat × Nat → Prop) (s : Store) : Prop :=
  ∀ k version, Protected s k version → Deliverable purged s k version

variable {purged purged' : Nat × Nat → Prop} {rq : Request} {s s' : Store}
  {r : ConfigurationReleaseModel} {e : ConfigurationReleaseEntryModel} {u : Unit} {version : Nat}
  {ns : NamespaceRef} {ref : ReleaseSessionRef} {m : ReleaseSessionModel}

theorem entryReadable_of_validate {owner : NamespaceModel}
    (howner : s.namespaces.byId r.namespaceID = some owner)
    (h : validateReleasePin rq s owner e = .ok u) : EntryReadable purged s r e := by
  have hid := (AutoTable.byId_eq_some_iff.mp howner).2
  simp only [validateReleasePin, bind_eq_ok_iff, require_eq_ok_iff] at h
  obtain ⟨_, ⟨hns, hnsref⟩, _, hmatch, h⟩ := h
  refine ⟨hns.trans hid, ?_, ?_⟩
  · rw [howner, Option.map_some, hnsref]
  · cases hk : e.kind with
    | parameter =>
      simp only [hk, bind_eq_ok_iff, orThrow_eq_ok_iff, require_eq_ok_iff] at h
      obtain ⟨pv, hpv, _, hct, hdigest⟩ := h
      exact ⟨pv, hpv, hct, hdigest⟩
    | secret =>
      simp only [hk, bind_eq_ok_iff, orThrow_eq_ok_iff, require_eq_ok_iff] at h
      obtain ⟨sv, hsv, _, hstate, _⟩ := h
      obtain ⟨sec, hsec, hver⟩ := Option.bind_eq_some_iff.mp hsv
      refine ⟨sec, sv, hsec, hver, fun hd => ?_⟩
      rw [hstate.1] at hd
      cases hd
    | other text =>
      simp only [hk] at h
      cases h

theorem deliverable_of_validate {k : TrackKey}
    (hns : resolveNamespaceID rq s ns = .ok k.namespaceID)
    (hr : s.releases.get (k.release version) = some r)
    (h : validateReleasePinsTx rq s r.id = .ok ()) : Deliverable purged s k version := by
  refine ⟨r, hr, fun e he hid => ?_⟩
  obtain ⟨owner, howner, hownerid⟩ := resolveNamespaceID_ok hns
  have hmem := AutoTable.mem_of_get howner
  have htrack := (track_of_release_key (AutoTable.key_of_get hr)).1
  have hby : s.namespaces.byId r.namespaceID = some owner := by
    rw [show r.namespaceID = k.namespaceID from congrArg TrackKey.namespaceID htrack, ← hownerid]
    exact AutoTable.byId_of_mem hmem
  rw [validateReleasePinsTx, AutoTable.byId_of_mem (AutoTable.mem_of_get hr)] at h
  simp only [hby] at h
  exact entryReadable_of_validate hby
    (forM_eq_ok_iff.mp h e (mem_releaseEntriesOf.mpr ⟨he, hid⟩))

/-! ## 内容を変えない操作 -/

/-- release と資源の表が変わらない一歩。 -/
structure SameContent (s s' : Store) : Prop where
  namespaces : s'.namespaces = s.namespaces
  parameters : s'.parameters = s.parameters
  parameterVersions : s'.parameterVersions = s.parameterVersions
  secrets : s'.secrets = s.secrets
  secretVersions : s'.secretVersions = s.secretVersions
  releases : s'.releases = s.releases
  releaseEntries : s'.releaseEntries = s.releaseEntries

theorem EntryReadable.congr {e : ConfigurationReleaseEntryModel}
    (h : EntryReadable purged s r e) (hns : s'.namespaces = s.namespaces)
    (hp : s'.parameters = s.parameters) (hpv : s'.parameterVersions = s.parameterVersions)
    (hsec : s'.secrets = s.secrets) (hsv : s'.secretVersions = s.secretVersions) :
    EntryReadable purged s' r e := by
  unfold EntryReadable pinnedParameterVersion at h ⊢
  rw [hns, hp, hpv, hsec, hsv]
  exact h

theorem Deliverable.congr {k : TrackKey}
    (h : Deliverable purged s k version) (hsame : SameContent s s') :
    Deliverable purged s' k version := by
  obtain ⟨r, hr, hall⟩ := h
  refine ⟨r, by rw [hsame.releases]; exact hr, fun e he hid => ?_⟩
  rw [hsame.releaseEntries] at he
  exact (hall e he hid).congr hsame.namespaces hsame.parameters hsame.parameterVersions
    hsame.secrets hsame.secretVersions

/-- 守られた version が増えず、その entry が読めるままなら、`Guarded` は保たれる。 -/
theorem Guarded.of_entries
    (h : Guarded purged s) (hprot : ∀ k v, Protected s' k v → Protected s k v)
    (hrel : s'.releases = s.releases) (hent : s'.releaseEntries = s.releaseEntries)
    (hkeep : ∀ r ∈ s.releases, Protected s r.trackKey r.versionNumber →
      ∀ e ∈ s.releaseEntries, e.releaseID = r.id → EntryReadable purged s r e →
        EntryReadable purged' s' r e) : Guarded purged' s' := by
  intro k v hp
  have hp₀ := hprot k v hp
  obtain ⟨r, hr, hall⟩ := h k v hp₀
  obtain ⟨htrack, hver⟩ := track_of_release_key (AutoTable.key_of_get hr)
  refine ⟨r, by rw [hrel]; exact hr, fun e he hid => ?_⟩
  rw [hent] at he
  refine hkeep r (AutoTable.mem_of_get hr) ?_ e he hid (hall e he hid)
  rw [htrack, hver]
  exact hp₀

theorem Guarded.of_same (h : Guarded purged s) (hsame : SameContent s s')
    (hprot : ∀ k v, Protected s' k v → Protected s k v ∨ Deliverable purged s k v) :
    Guarded purged s' := by
  intro k v hp
  rcases hprot k v hp with hold | hnew
  · exact (h k v hold).congr hsame
  · exact hnew.congr hsame

/-! ## 資源の操作 -/

/-- 一つの entry が読めるままであるための条件。 -/
theorem EntryReadable.mono {e : ConfigurationReleaseEntryModel} (h : EntryReadable purged s r e)
    (hns : ∀ n, s.namespaces.byId r.namespaceID = some n →
      s'.namespaces.byId r.namespaceID = some n)
    (hparam : e.kind = .parameter → ∀ pv, pinnedParameterVersion s e = some pv →
      pinnedParameterVersion s' e = some pv)
    (hsecret : e.kind = .secret → ∀ sec sv,
      s.secrets.get (e.resourceNamespaceID, e.resourceKey) = some sec →
      s.secretVersions.get (sec.id, e.resourceVersion) = some sv →
      ∃ sec' sv', s'.secrets.get (e.resourceNamespaceID, e.resourceKey) = some sec' ∧
        sec'.id = sec.id ∧ s'.secretVersions.get (sec.id, e.resourceVersion) = some sv' ∧
        (sv'.state = .destroyed → sv.state ≠ .destroyed → purged' (sec.id, e.resourceVersion)))
    (hpurged : ∀ key, purged key → purged' key) : EntryReadable purged' s' r e := by
  obtain ⟨hid, href, hkind⟩ := h
  refine ⟨hid, ?_, ?_⟩
  · obtain ⟨n, hn, heq⟩ := Option.map_eq_some_iff.mp href
    rw [hns n hn, Option.map_some, heq]
  · cases hk : e.kind with
    | parameter =>
      simp only [hk] at hkind
      obtain ⟨pv, hpv, hct, hdigest⟩ := hkind
      exact ⟨pv, hparam hk pv hpv, hct, hdigest⟩
    | secret =>
      simp only [hk] at hkind
      obtain ⟨sec, sv, hsec, hsv, hdes⟩ := hkind
      obtain ⟨sec', sv', hsec', hsid, hsv', hdes'⟩ := hsecret hk sec sv hsec hsv
      refine ⟨sec', sv', hsec', by rw [hsid]; exact hsv', fun hd => ?_⟩
      rw [hsid]
      by_cases hold : sv.state = .destroyed
      · exact hpurged _ (hdes hold)
      · exact hdes' hd hold
    | other text =>
      simp only [hk] at hkind

/-- 参照の検査を通ったなら、守られた release の読める entry は、その資源を指していない。 -/
theorem not_referenced {ref : Ref} {kind : ReleaseEntryKind} {id : Nat}
    (hrej : rejectProtectedReleaseReference rq s ref kind version = .ok u)
    (hid : resolveNamespaceID rq s ref.ns = .ok id)
    (hr : r ∈ s.releases) (hp : Protected s r.trackKey r.versionNumber)
    (he : e ∈ s.releaseEntries) (hrid : e.releaseID = r.id)
    (hread : EntryReadable purged s r e) (hkind : e.kind = kind)
    (hns : e.resourceNamespaceID = id) (hkey : e.resourceKey = ref.key) :
    version ≠ 0 ∧ e.resourceVersion ≠ version := by
  obtain ⟨hown, href, _⟩ := hread
  obtain ⟨n, hn, hnref⟩ := Option.map_eq_some_iff.mp href
  obtain ⟨m, hm, hmid⟩ := resolveNamespaceID_ok hid
  have hnm : n = m := by
    have hby := AutoTable.byId_of_mem (AutoTable.mem_of_get hm)
    rw [hmid, ← hns, hown, hn] at hby
    exact Option.some.inj hby
  have hnsref : e.resourceNS = ref.ns := by
    rw [← hnref, hnm]
    exact AutoTable.key_of_get hm
  have hnone := rejectProtectedReleaseReference_ok hrej hid e he
  rw [protectedReferenceOf, hrid, AutoTable.byId_of_mem hr] at hnone
  simp only [hn, hp.flag, hkind, hkey, hns, hnsref, decide_true, Bool.and_self, Bool.true_and,
    Bool.or_eq_true, decide_eq_true_eq] at hnone
  split at hnone
  · cases hnone
  · next hnot =>
    push Not at hnot
    exact hnot

theorem guarded_putParameter {ref : Ref}
    {value contentType metadata createdBy : String} {createOnly preserveMetadata : Bool}
    {out : Nat × Nat} (hg : Guarded purged s)
    (h : putParameter rq s ref value contentType metadata createdBy createOnly preserveMetadata =
      .ok (out, s')) : Guarded purged s' := by
  obtain ⟨parameters, versions, labels, nsID, entry, hkeep, hkeepv, rfl⟩ := putParameter_ok_cases h
  refine hg.of_entries (fun _ _ hp => hp) rfl rfl (fun r hr hp e he hid hread => ?_)
  refine hread.mono (fun _ hn => hn) (fun _ pv hpv => ?_)
    (fun _ sec sv hsec hsv => ⟨sec, sv, hsec, rfl, hsv, fun hd hnd => absurd hd hnd⟩)
    (fun _ hk => hk)
  obtain ⟨p, hp, hv⟩ := Option.bind_eq_some_iff.mp hpv
  obtain ⟨p', hp', hpid⟩ := hkeep _ p hp
  refine Option.bind_eq_some_iff.mpr ⟨p', hp', ?_⟩
  rw [hpid]
  exact hkeepv _ _ hv

theorem guarded_deleteParameter {ref : Ref} {rev : Nat} (hg : Guarded purged s)
    (h : deleteParameterTx rq s ref = .ok (rev, s')) : Guarded purged s' := by
  obtain ⟨nsID, p, entry, hns, hget, hrej, rfl⟩ := deleteParameterTx_ok_cases h
  refine hg.of_entries (fun _ _ hp => hp) rfl rfl (fun r hr hp e he hid hread => ?_)
  refine hread.mono (fun _ hn => hn) (fun hk pv hpv => ?_)
    (fun _ sec sv hsec hsv => ⟨sec, sv, hsec, rfl, hsv, fun hd hnd => absurd hd hnd⟩)
    (fun _ hk => hk)
  obtain ⟨q, hq, hv⟩ := Option.bind_eq_some_iff.mp hpv
  have hne : q.id ≠ p.id := by
    intro hqp
    have hqe := s.parameters.id_inj q (AutoTable.mem_of_get hq) p (AutoTable.mem_of_get hget) hqp
    have hkey := (AutoTable.key_of_get hq).symm.trans
      ((congrArg ParameterModel.key hqe).trans (AutoTable.key_of_get hget))
    exact (not_referenced hrej hns hr hp he hid hread hk (congrArg Prod.fst hkey)
      (congrArg Prod.snd hkey)).1 rfl
  refine Option.bind_eq_some_iff.mpr ⟨q, ?_, ?_⟩
  · rw [AutoTable.get_deleteWhere, hq]
    simp [hne]
  · show (s.parameterVersions.deleteWhere _).get _ = some pv
    have hpid : pv.parameterID = q.id := congrArg Prod.fst (Table.key_of_get hv)
    rw [Table.get_deleteWhere, hv]
    simp [hpid, hne]

/-- secret の表の一歩。破棄されるのは、どの守られた entry も指さない version か、明示の消去で選ばれた version である。 -/
theorem guarded_secretEffect {c : Call} (heff : SecretEffect s c s') (hg : Guarded purged s)
    (hs' : ∃ secrets secretHighWater secretVersions secretLabels changeLog keyMetadata caKeys
        auditEvents, s' = { s with
      secrets, secretHighWater, secretVersions, secretLabels, changeLog, keyMetadata, caKeys,
      auditEvents })
    (hpurged : ∀ key, purged key → purged' key)
    (hpurge : ∀ ref guard selector actor, c.op = .secret (.purge ref guard selector actor) →
      ∀ key sv sv', s.secretVersions.get key = some sv → sv.state ≠ .destroyed →
      s'.secretVersions.get key = some sv' → sv'.state = .destroyed → purged' key) :
    Guarded purged' s' := by
  refine hg.of_entries ?_ ?_ ?_ (fun r hr hp e he hid hread => ?_)
  · obtain ⟨_, _, _, _, _, _, _, _, rfl⟩ := hs'
    exact fun _ _ hp => hp
  · obtain ⟨_, _, _, _, _, _, _, _, rfl⟩ := hs'
    rfl
  · obtain ⟨_, _, _, _, _, _, _, _, rfl⟩ := hs'
    rfl
  refine hread.mono ?_ ?_ (fun hk sec sv hsec hsv => ?_) hpurged
  · obtain ⟨_, _, _, _, _, _, _, _, rfl⟩ := hs'
    exact fun _ hn => hn
  · obtain ⟨_, _, _, _, _, _, _, _, rfl⟩ := hs'
    exact fun _ _ hpv => hpv
  -- 参照の検査を通った secret は、この entry の secret ではない。
  have hnot : ∀ {rq : Request} {ref : Ref} {version nsID : Nat} {sec₁ : SecretModel},
      resolveNamespaceID rq s ref.ns = .ok nsID → s.secrets.get (nsID, ref.key) = some sec₁ →
      rejectProtectedReleaseReference rq s ref .secret version = .ok () → sec.id = sec₁.id →
      version ≠ 0 ∧ e.resourceVersion ≠ version := by
    intro rq ref version nsID sec₁ hns hsec₁ hrej hseq
    have heq := s.secrets.id_inj sec (AutoTable.mem_of_get hsec) sec₁ (AutoTable.mem_of_get hsec₁)
      hseq
    have hkeys : (e.resourceNamespaceID, e.resourceKey) = (nsID, ref.key) :=
      (AutoTable.key_of_get hsec).symm.trans
        ((congrArg SecretModel.key heq).trans (AutoTable.key_of_get hsec₁))
    exact not_referenced hrej hns hr hp he hid hread hk (congrArg Prod.fst hkeys)
      (congrArg Prod.snd hkeys)
  have hsec' : ∃ sec', s'.secrets.get (e.resourceNamespaceID, e.resourceKey) = some sec' ∧
      sec'.id = sec.id := by
    rcases heff.delta.secrets.keeps (AutoTable.mem_of_get hsec) with
      ⟨sec', hmem, hsid, hkey⟩ | ⟨hgone, _, rq, ref, rev, hop⟩
    · refine ⟨sec', ?_, hsid⟩
      rw [← AutoTable.key_of_get hsec, ← hkey]
      exact Table.get_of_mem hmem
    · obtain ⟨nsID, sec₁, entry, hns, hsec₁, hrej, rfl⟩ := deleteSecretTx_ok_cases hop
      by_cases hseq : sec.id = sec₁.id
      · exact absurd rfl (hnot hns hsec₁ hrej hseq).1
      · exact absurd rfl (hgone sec
          (AutoTable.mem_deleteWhere.mpr ⟨AutoTable.mem_of_get hsec, decide_eq_false hseq⟩))
  obtain ⟨sec', hget, hsid⟩ := hsec'
  have hkey := Table.key_of_get hsv
  have hsv' : ∃ sv', s'.secretVersions.get (sec.id, e.resourceVersion) = some sv' := by
    rcases heff.delta.versions sv (Table.mem_of_get hsv) with hkept | hgone
    · rwa [hkey] at hkept
    · exact absurd (hsid.trans (congrArg Prod.fst hkey).symm)
        (hgone sec' (AutoTable.mem_of_get hget))
  obtain ⟨sv', hsv'⟩ := hsv'
  refine ⟨sec', sv', hget, hsid, hsv', fun hd hnd => ?_⟩
  rcases (heff.versionOrigin (Table.mem_of_get hsv')).source
      (by rw [Table.key_of_get hsv', hsv]) with rfl | ⟨_, hlive, _⟩ | ⟨_, _, hby⟩
  · exact absurd hd hnd
  · exact absurd hd hlive
  · rcases hby with ⟨ref, version, rev, hop⟩ | ⟨ref, guard, selector, actor, hc⟩
    · obtain ⟨nsID, sec₁, sv₁, entry, hns, hsec₁, _, hrej, _, _, rfl⟩ :=
        destroySecretVersion_ok_cases hop
      have hsv' : (s.secretVersions.updateWhere _ _).get _ = some sv' := hsv'
      rw [Table.get_updateWhere (fun _ => by rfl), hsv, Option.map_some] at hsv'
      by_cases hk₁ : sv.key = (sec₁.id, version)
      · rw [hkey] at hk₁
        exact absurd (congrArg Prod.snd hk₁) (hnot hns hsec₁ hrej (congrArg Prod.fst hk₁)).2
      · rw [if_neg (by simpa using hk₁)] at hsv'
        cases hsv'
        exact absurd hd hnd
    · exact hpurge ref guard selector actor hc _ _ _ hsv hnd hsv' hd

/-! ## namespace と release の操作 -/

theorem guarded_createNamespace {id : Nat} (hg : Guarded purged s)
    (h : createNamespace rq s ns = .ok (id, s')) :
    Guarded purged s' := by
  obtain ⟨t, ht, _, apps, rfl⟩ := createNamespace_ok_cases h
  refine hg.of_entries (fun _ _ hp => hp) rfl rfl (fun r hr hp e he hid hread => ?_)
  refine hread.mono (fun n hn => ?_) (fun _ _ hpv => hpv)
    (fun _ sec sv hsec hsv => ⟨sec, sv, hsec, rfl, hsv, fun hd hnd => absurd hd hnd⟩)
    (fun _ hk => hk)
  obtain ⟨hmem, hnid⟩ := AutoTable.byId_eq_some_iff.mp hn
  exact AutoTable.byId_eq_some_iff.mpr ⟨(AutoTable.mem_insert? ht).mpr (Or.inl hmem), hnid⟩

theorem guarded_deleteNamespace {u : Unit} (hg : Guarded purged s)
    (h : deleteNamespaceTx rq s ns = .ok (u, s')) : Guarded purged s' := by
  obtain ⟨id, _, _, _, rfl⟩ := deleteNamespaceTx_ok_cases h
  intro k v hp
  have hprot : Protected s k v ∧ k.namespaceID ≠ id := by
    rcases hp with ⟨l, hl, rfl, hv⟩ | ⟨hv0, m, hm, rfl, hv⟩
    · obtain ⟨hl, hne⟩ := Table.mem_deleteWhere.mp hl
      exact ⟨Or.inl ⟨l, hl, rfl, hv⟩, of_decide_eq_false hne⟩
    · obtain ⟨hm, hne⟩ := Table.mem_deleteWhere.mp hm
      exact ⟨Or.inr ⟨hv0, m, hm, rfl, hv⟩, of_decide_eq_false hne⟩
  obtain ⟨r, hr, hall⟩ := hg k v hprot.1
  have hrns : r.namespaceID = k.namespaceID :=
    congrArg TrackKey.namespaceID (track_of_release_key (AutoTable.key_of_get hr)).1
  refine ⟨r, ?_, fun e he hid => ?_⟩
  · show (s.releases.deleteWhere _).get _ = _
    rw [AutoTable.get_deleteWhere, hr]
    simp [hrns, hprot.2]
  · refine (hall e (Table.mem_deleteWhere.mp he).1 hid).mono (fun n hn => ?_) (fun _ _ hpv => hpv)
      (fun _ sec sv hsec hsv => ⟨sec, sv, hsec, rfl, hsv, fun hd hnd => absurd hd hnd⟩)
      (fun _ hk => hk)
    obtain ⟨hmem, hnid⟩ := AutoTable.byId_eq_some_iff.mp hn
    refine AutoTable.byId_eq_some_iff.mpr ⟨AutoTable.mem_deleteWhere.mpr ⟨hmem, ?_⟩, hnid⟩
    rw [decide_eq_false_iff_not, hnid, hrns]
    exact hprot.2

theorem guarded_createRelease {input : ConfigurationRelease} {options : ReleaseCreateOptions}
    {out : ConfigurationRelease × Bool} (hg : Guarded purged s)
    (h : createConfigurationRelease rq s input options = .ok (out, s')) : Guarded purged s' := by
  rcases createConfigurationRelease_ok_cases h with
    ⟨_, _, rfl⟩ | ⟨nsID, t, es, _, _, _, ht, hes, rfl⟩
  · exact hg.of_same ⟨rfl, rfl, rfl, rfl, rfl, rfl, rfl⟩ (fun _ _ hp => Or.inl hp)
  · intro k v hp
    obtain ⟨r, hr, hall⟩ := hg k v hp
    refine ⟨r, Table.get_insert?_of_some (AutoTable.insert?_table ht).1 hr, fun e he hid => ?_⟩
    rcases (mem_insertEntries hes).mp he with hold | ⟨x, _, rfl⟩
    · exact (hall e hold hid).congr rfl rfl rfl rfl rfl
    · have hle := s.releases.id_le r (AutoTable.mem_of_get hr)
      have hseq : s.releases.seq + 1 = r.id := hid
      omega

theorem guarded_pruneReleases {retainDuration retainVersions : Nat} (hg : Guarded purged s)
    (h : pruneConfigurationReleases rq s retainDuration retainVersions = s') :
    Guarded purged s' := by
  rcases pruneConfigurationReleases_cases h with rfl | ⟨p, activations, cutoff, _, rfl⟩
  · exact hg
  · intro k v hp
    have hp₀ : Protected s k v := hp
    obtain ⟨r, hr, hall⟩ := hg k v hp₀
    obtain ⟨htrack, hver⟩ := track_of_release_key (AutoTable.key_of_get hr)
    have hflag : (releaseLabelled s r.trackKey r.versionNumber ||
        releasePinned s r.trackKey r.versionNumber) = true := by
      refine Protected.flag ?_
      rw [htrack, hver]
      exact hp₀
    have hkept : releasePrunable s activations cutoff retainVersions r = false := by
      unfold releasePrunable
      rcases Bool.or_eq_true_iff.mp hflag with hf | hf
      all_goals simp [hf]
    refine ⟨r, ?_, fun e he hid => ?_⟩
    · show (s.releases.deleteWhere _).get _ = _
      rw [AutoTable.get_deleteWhere, hr]
      simp [hkept]
    · exact (hall e (Table.mem_deleteWhere.mp he).1 hid).congr rfl rfl rfl rfl rfl

theorem guarded_activate {track : ReleaseTrack} {expectedCurrent : Option Nat}
    {out : ActiveConfigurationRelease × Bool} (hg : Guarded purged s)
    (h : activateConfigurationRelease rq s track version expectedCurrent = .ok (out, s')) :
    Guarded purged s' := by
  obtain ⟨nsID, target, hns, htarget, hpins, ⟨_, rfl⟩ | ⟨_, _, _, rfl⟩⟩ :=
    activateConfigurationRelease_ok_cases h
  · exact hg
  · refine hg.of_same ⟨rfl, rfl, rfl, rfl, rfl, rfl, rfl⟩ (fun k v hp => ?_)
    rcases hp with ⟨l, hl, rfl, rfl⟩ | hpin
    · have hl' : l ∈ activatedLabels s ⟨nsID, track.name, track.schemaVersion⟩ version
          (s.changeLog.seq + 1) := hl
      unfold activatedLabels at hl'
      rcases Table.mem_upsert.mp hl' with rfl | ⟨hl', _⟩
      · exact Or.inr (deliverable_of_validate hns htarget hpins)
      · split at hl'
        · next hcur =>
          rcases Table.mem_upsert.mp hl' with rfl | ⟨hl', _⟩
          · -- 古い current は、label が指していた。
            left
            unfold currentVersion at hcur ⊢
            cases hget : s.releaseLabels.get
                (⟨nsID, track.name, track.schemaVersion⟩, .current) with
            | none =>
              rw [hget] at hcur
              exact absurd rfl hcur
            | some l₀ =>
              refine Or.inl ⟨l₀, Table.mem_of_get hget, ?_, rfl⟩
              exact congrArg Prod.fst (Table.key_of_get hget)
          · exact Or.inl (Or.inl ⟨l, hl', rfl, rfl⟩)
        · exact Or.inl (Or.inl ⟨l, hl', rfl, rfl⟩)
    · exact Or.inl (Or.inr hpin)

/-! ## session の操作 -/

theorem Guarded.of_sessions (hg : Guarded purged s)
    (hsame : SameContent s s') (hlabels : s'.releaseLabels = s.releaseLabels)
    (hpins : ∀ m ∈ s'.sessions, m.pinVersion = 0 ∨
      (∃ m₀ ∈ s.sessions, m₀.track = m.track ∧ m₀.pinVersion = m.pinVersion) ∨
      Deliverable purged s m.track m.pinVersion) : Guarded purged s' := by
  refine hg.of_same hsame (fun k v hp => ?_)
  rcases hp with hl | ⟨hv, m, hm, rfl, rfl⟩
  · rw [hlabels] at hl
    exact Or.inl (Or.inl hl)
  · rcases hpins m hm with h0 | ⟨m₀, hm₀, ht, hpv⟩ | hnew
    · exact absurd h0 hv
    · exact Or.inl (Or.inr ⟨hv, m₀, hm₀, ht, hpv⟩)
    · exact Or.inr hnew

theorem deliverable_of_checkPinTarget {m : ReleaseSessionModel}
    (htx : sessionTx rq s ref = .ok m) (hv : version ≠ 0)
    (h : checkPinTarget rq s m version = .ok ()) : Deliverable purged s m.track version := by
  obtain ⟨nsID, hns, _, _, htrack⟩ := sessionTx_ok htx
  simp only [checkPinTarget, hv, if_false, bind_eq_ok_iff, require_eq_ok_iff,
    orThrow_eq_ok_iff] at h
  obtain ⟨_, _, rel, hrel, hval⟩ := h
  have hns' : resolveNamespaceID rq s ref.track.ns = .ok m.track.namespaceID := by
    rw [htrack]
    exact hns
  exact deliverable_of_validate hns' hrel hval

theorem guarded_setPin {expected : Nat} {actor : String}
    {out : InstanceReleaseTarget} (hg : Guarded purged s)
    (h : setReleasePin rq s ref version expected actor = .ok (out, s')) : Guarded purged s' := by
  obtain ⟨m, htx, hcheck, ⟨_, hres⟩ | ⟨_, entry, audits, hres⟩⟩ := setReleasePin_ok_cases h
  · obtain ⟨d, _, rfl⟩ := resolveInstanceTx_delivered hres
    exact hg.of_sessions ⟨rfl, rfl, rfl, rfl, rfl, rfl, rfl⟩ rfl
      (fun x hx => Or.inr (Or.inl ⟨x, hx, rfl, rfl⟩))
  · obtain ⟨d, _, rfl⟩ := resolveInstanceTx_delivered hres
    refine hg.of_sessions ⟨rfl, rfl, rfl, rfl, rfl, rfl, rfl⟩ rfl (fun x hx => ?_)
    rcases Table.mem_upsert.mp hx with rfl | ⟨hx, _⟩
    · by_cases hv : version = 0
      · exact Or.inl hv
      · have hd : Deliverable purged s m.track version :=
          deliverable_of_checkPinTarget htx hv hcheck
        exact Or.inr (Or.inr hd)
    · exact Or.inr (Or.inl ⟨x, hx, rfl, rfl⟩)

/-! ## 一歩と run -/

theorem Guarded.mono (h : Guarded purged s)
    (hp : ∀ key, purged key → purged' key) : Guarded purged' s := by
  refine h.of_entries (fun _ _ hp => hp) rfl rfl (fun r _ _ e _ _ hread => ?_)
  exact hread.mono (fun _ hn => hn) (fun _ _ hpv => hpv)
    (fun _ sec sv hsec hsv => ⟨sec, sv, hsec, rfl, hsv, fun hd hnd => absurd hd hnd⟩) hp

/-- 明示の消去が、この secret version を破棄した。 -/
def Purges (s : Store) (c : Call) (key : Nat × Nat) : Prop :=
  (∃ ref guard selector actor, c.op = .secret (.purge ref guard selector actor)) ∧
    (∃ sv, s.secretVersions.get key = some sv ∧ sv.state ≠ .destroyed) ∧
    ∃ sv, (step s c).secretVersions.get key = some sv ∧ sv.state = .destroyed

theorem guarded_step {c : Call} (hs : step s c = s')
    (hg : Guarded purged s) : Guarded (fun key => purged key ∨ Purges s c key) s' := by
  have hmono : Guarded purged s' → Guarded (fun key => purged key ∨ Purges s c key) s' :=
    fun h => h.mono (fun _ => Or.inl)
  cases step_storeEffect hs with
  | refused hs | administered op hc h hs | logPruned hseq hlog hs =>
    subst hs
    exact hmono (hg.of_same ⟨rfl, rfl, rfl, rfl, rfl, rfl, rfl⟩ (fun _ _ hp => Or.inl hp))
  | parameter op hc h hlog hs' =>
    clear hs'
    cases op with
    | put ref value contentType metadata createdBy createOnly preserveMetadata =>
      obtain rfl | ⟨out, h⟩ := commit_cases h
      · exact hmono hg
      · exact hmono (guarded_putParameter hg h)
    | delete ref =>
      obtain rfl | ⟨out, h⟩ := commit_cases h
      · exact hmono hg
      · exact hmono (guarded_deleteParameter hg h)
  | secret op hc h hlog hs' =>
    refine guarded_secretEffect (step_secretEffect hs) hg ⟨_, _, _, _, _, _, _, _, hs'⟩
      (fun _ => Or.inl) ?_
    rintro ref guard selector actor hp key sv sv' hsv hnd hsv' hd
    exact Or.inr ⟨⟨ref, guard, selector, actor, hp⟩, ⟨sv, hsv, hnd⟩, sv', hs ▸ hsv', hd⟩
  | namespaceCreated ns id hc h => exact hmono (guarded_createNamespace hg h)
  | namespaceDeleted ns u h => exact hmono (guarded_deleteNamespace hg h)
  | rotated hc h =>
    obtain ⟨_, _, _, _, heq⟩ := rotateKEK_ok_cases h
    refine guarded_secretEffect (step_secretEffect hs) hg ⟨_, _, _, _, _, _, _, _, heq⟩
      (fun _ => Or.inl) (fun _ _ _ _ hp => ?_)
    rw [hc] at hp
    cases hp
  | released release options out h => exact hmono (guarded_createRelease hg h)
  | activated track version expectedCurrent out h => exact hmono (guarded_activate hg h)
  | pruned retainDuration retainVersions h => exact hmono (guarded_pruneReleases hg h)
  | session heff hpins hs =>
    subst hs
    exact hmono (hg.of_sessions ⟨rfl, rfl, rfl, rfl, rfl, rfl, rfl⟩ rfl
      (fun x hx => (hpins x hx).imp_right Or.inl))
  | pinned ref version expected actor out h => exact hmono (guarded_setPin hg h)

/-- run の途中の明示の消去が、この secret version を破棄した。 -/
def PurgedIn (s₀ : Store) (cs : List Call) (key : Nat × Nat) : Prop :=
  ∃ before c after, cs = before ++ c :: after ∧ Purges (run step s₀ before) c key

theorem guarded_empty : Guarded purged Store.empty := by
  rintro k v (⟨l, hl, _⟩ | ⟨_, m, hm, _⟩)
  · exact absurd hl (Table.not_mem_empty l)
  · exact absurd hm (Table.not_mem_empty m)

theorem guarded_run {s₀ : Store} (h₀ : Guarded (fun _ => False) s₀) (cs : List Call) :
    Guarded (PurgedIn s₀ cs) (run step s₀ cs) := by
  induction cs using List.reverseRecOn with
  | nil => exact h₀.mono (fun _ hf => hf.elim)
  | append_singleton cs c ih =>
    rw [run_append]
    refine (guarded_step rfl ih).mono (fun key hkey => ?_)
    rcases hkey with ⟨before, c', after, rfl, hp⟩ | hp
    · exact ⟨before, c', after ++ [c], by simp, hp⟩
    · exact ⟨cs, c, [], rfl, hp⟩

omit [Hashing] in
theorem resolveInstanceTx_of_release (htx : sessionTx rq s ref = .ok m)
    (hv : (assignedTarget s m).version ≠ 0)
    (hr : s.releases.get (m.track.release (assignedTarget s m).version) = some r) :
    ∃ out s', resolveInstanceTx rq s ref m = .ok (out, s') ∧
      out.release = some (releaseFromModel s ref.track.ns r) := by
  obtain ⟨nsID, hns, _, _, htrack⟩ := sessionTx_ok htx
  have hget : getConfigurationRelease rq s ref.track (assignedTarget s m).version =
      .ok (releaseFromModel s ref.track.ns r) := by
    rw [htrack] at hr
    simp only [getConfigurationRelease, if_neg hv, bind_eq_ok_iff, orThrow_eq_ok_iff,
      pure_eq_ok_iff]
    exact ⟨nsID, hns, r, hr, rfl⟩
  unfold resolveInstanceTx
  simp only [if_neg hv, hget]
  exact ⟨_, _, rfl, rfl⟩

/-! ## 主定理 -/

/-- どの run の後も、守られた version には release の行があり、その entry が指す資源は読める。破棄された secret version を
指すのは、明示の消去がその version を破棄したときだけである。pin された session の target は必ず解決する。 -/
theorem protected_releases_deliverable {s₀ : Store} (h₀ : Guarded (fun _ => False) s₀)
    (cs : List Call) :
    (∀ k version, Protected (run step s₀ cs) k version →
      Deliverable (PurgedIn s₀ cs) (run step s₀ cs) k version) ∧
    ∀ rq ref m, sessionTx rq (run step s₀ cs) ref = .ok m → m.pinVersion ≠ 0 →
      ∃ out s' r, resolveInstanceTx rq (run step s₀ cs) ref m = .ok (out, s') ∧
        (run step s₀ cs).releases.get (m.track.release m.pinVersion) = some r ∧
        out.release = some (releaseFromModel (run step s₀ cs) ref.track.ns r) := by
  have hg := guarded_run h₀ cs
  refine ⟨hg, fun rq ref m htx hpin => ?_⟩
  obtain ⟨_, _, hget, _⟩ := sessionTx_ok htx
  obtain ⟨r, hr, _⟩ := hg m.track m.pinVersion
    (Or.inr ⟨hpin, m, Table.mem_of_get hget, rfl, rfl⟩)
  have hassigned : (assignedTarget (run step s₀ cs) m).version = m.pinVersion := by
    rw [assignedTarget, if_pos hpin]
  obtain ⟨out, s', hres, hout⟩ := resolveInstanceTx_of_release htx (by rw [hassigned]; exact hpin)
    (by rw [hassigned]; exact hr)
  exact ⟨out, s', r, hres, hr, hout⟩

end

section Sample

local instance protectedSampleHashing : Hashing := sampleHashing

/-- parameter を指す release を有効にし、その parameter を消そうとする。 -/
def sampleProtectedCalls : List Call :=
  [⟨sampleRequest, .createNamespace sampleNamespace⟩,
    ⟨sampleRequest,
      .parameter (.put ⟨sampleNamespace, "limit"⟩ "5" "text/plain" "" "ops" false false)⟩,
    ⟨sampleRequest, .createRelease { sampleRelease with
      entries := [⟨"limit", .parameter, ⟨sampleNamespace, "limit"⟩, 1, 0, "text/plain", "", ""⟩] }
      ⟨false, none⟩⟩,
    ⟨sampleRequest, .activateRelease sampleSession.track 1 none⟩,
    ⟨sampleRequest, .parameter (.delete ⟨sampleNamespace, "limit"⟩)⟩]

theorem protected_releases_deliverable_sample :
    Protected (run step Store.empty sampleProtectedCalls) ⟨1, "runtime", 0⟩ 1 ∧
      Deliverable (PurgedIn Store.empty sampleProtectedCalls)
        (run step Store.empty sampleProtectedCalls) ⟨1, "runtime", 0⟩ 1 := by
  have hlabel : (run step Store.empty sampleProtectedCalls).releaseLabels.get
      (⟨1, "runtime", 0⟩, .current) = some ⟨⟨1, "runtime", 0⟩, .current, 1, 2⟩ := by decide
  have hp : Protected (run step Store.empty sampleProtectedCalls) ⟨1, "runtime", 0⟩ 1 :=
    Or.inl ⟨_, Table.mem_of_get hlabel, rfl, rfl⟩
  exact ⟨hp, (protected_releases_deliverable guarded_empty sampleProtectedCalls).1 _ _ hp⟩

end Sample

end Kms.Storage
