import Kms.Storage.SessionTarget

/-!
# secret の表の一歩

secret・version・label・KEK・CA の表に対して、一つの transaction が何をしうるかを `SecretEffect` に数え上げる。
secret についての不変条件は、全てこの場合分けから導く。

* `step_secretEffect` — どの transaction も `SecretEffect` のどれかである
* `SecretEffect.versionOrigin` — 一歩の後の version の行の由来
* `SecretEffect.keepsSecret` / `SecretEffect.secretOrigin` — secret の行の同一性
* `Housed` — version には secret の行が、secret には namespace の行がある
* `Retired` — 破棄された version は、行が残る限り破棄されたままである
-/

namespace Kms.Storage

open Kms.Infra

/-! ## 一歩の数え上げ -/

/-- secret・KEK・CA の表に触れない一歩。namespace は増えるだけである。 -/
structure SecretNeutral (s s' : Store) : Prop where
  secrets : s'.secrets = s.secrets
  secretHighWater : s'.secretHighWater = s.secretHighWater
  secretVersions : s'.secretVersions = s.secretVersions
  secretLabels : s'.secretLabels = s.secretLabels
  keyMetadata : s'.keyMetadata = s.keyMetadata
  caKeys : s'.caKeys = s.caKeys
  namespaces : ∀ n ∈ s.namespaces, n ∈ s'.namespaces
  namespacesFresh : ∀ n ∈ s'.namespaces, n ∈ s.namespaces ∨ s.namespaces.seq < n.id
  namespacesSeq : s.namespaces.seq ≤ s'.namespaces.seq

variable {s s' : Store} {c : Call} {ref : Ref} {sv' sv : SecretVersionModel} {key : Nat × Nat}

theorem SecretNeutral.of_same (hsec : s'.secrets = s.secrets)
    (hw : s'.secretHighWater = s.secretHighWater) (hv : s'.secretVersions = s.secretVersions)
    (hl : s'.secretLabels = s.secretLabels) (hk : s'.keyMetadata = s.keyMetadata)
    (hca : s'.caKeys = s.caKeys) (hns : s'.namespaces = s.namespaces) : SecretNeutral s s' :=
  ⟨hsec, hw, hv, hl, hk, hca, fun _ hn => hns ▸ hn, fun _ hn => Or.inl (hns ▸ hn),
    Nat.le_of_eq (congrArg AutoTable.seq hns).symm⟩

theorem SecretNeutral.refl (s : Store) : SecretNeutral s s :=
  .of_same rfl rfl rfl rfl rfl rfl rfl

/-- 一つの transaction が secret の表に対してすること。 -/
inductive SecretEffect (s : Store) (c : Call) (s' : Store) : Prop
  | neutral (h : SecretNeutral s s')
  | namespaceDeleted (ns : NamespaceRef) (h : deleteNamespaceTx c.rq s ns = .ok ((), s'))
  | rotated {id : String} {keyCheck : Bytes} {createdAt : Time}
      {rewrapSecret : SecretVersionModel → Except Err Bytes}
      {rewrapCA : CAKeyModel → Except Err Bytes} {out : Nat × Nat}
      (hc : c.op = .rotateKEK id keyCheck createdAt rewrapSecret rewrapCA)
      (h : rotateKEK s id keyCheck createdAt rewrapSecret rewrapCA = .ok (out, s'))
  | created (p : CreateSecretParams) (out : Nat × Nat) (hc : c.op = .secret (.create p))
      (h : createSecretVersion c.rq s p = .ok (out, s'))
  | transitioned (p : SecretVersionTransitionParams) (out : SecretVersionTransitionResult)
      (hc : c.op = .secret (.transition p))
      (h : transitionSecretVersion c.rq s p = .ok (out, s'))
  | stateSet (ref : Ref) (version : Nat) (state : VersionState) (rev : Nat)
      (h : setSecretVersionState c.rq s ref version state = .ok (rev, s'))
  | destroyed (ref : Ref) (version : Nat) (rev : Nat)
      (h : destroySecretVersion c.rq s ref version = .ok (rev, s'))
  | promoted (ref : Ref) (version : Nat) (out : Nat × Nat × Nat)
      (h : promoteSecretVersion c.rq s ref version = .ok (out, s'))
  | deleted (ref : Ref) (rev : Nat) (h : deleteSecretTx c.rq s ref = .ok (rev, s'))
  | purged (ref : Ref) (guard : SecretBindingCASGuard) (selector : PurgeSelector) (actor : String)
      (out : List Nat × Nat) (hc : c.op = .secret (.purge ref guard selector actor))
      (h : purgeSecretVersions c.rq s ref guard selector actor = .ok (out, s'))

theorem secretOp_effect {rq : Request} {op : SecretOp}
    (hs : (op.exec rq s).2 = s') : SecretEffect s ⟨rq, .secret op⟩ s' := by
  subst hs
  have hcommit : ∀ {α : Type} {r : Except Err (α × Store)} {out : α → Output},
      (∀ a t, r = .ok (a, t) → SecretEffect s ⟨rq, .secret op⟩ t) →
      SecretEffect s ⟨rq, .secret op⟩ (commit s r out).2 :=
    commit_keeps (.neutral (SecretNeutral.refl _))
  cases op with
  | create p => exact hcommit (fun out _ h => .created p out rfl h)
  | transition p => exact hcommit (fun out _ h => .transitioned p out rfl h)
  | setState ref version state => exact hcommit (fun out _ h => .stateSet ref version state out h)
  | destroy ref version => exact hcommit (fun out _ h => .destroyed ref version out h)
  | promote ref version => exact hcommit (fun out _ h => .promoted ref version out h)
  | delete ref => exact hcommit (fun out _ h => .deleted ref out h)
  | purge ref guard selector actor =>
    exact hcommit (fun out _ h => .purged ref guard selector actor out rfl h)

theorem step_secretEffect [Hashing] (hs : step s c = s') : SecretEffect s c s' := by
  cases step_storeEffect hs with
  | secret op hc h hlog hs =>
    obtain ⟨rq, _⟩ := c
    subst hc
    exact secretOp_effect h
  | namespaceCreated ns id hc h =>
    obtain ⟨t, ht, _, apps, rfl⟩ := createNamespace_ok_cases h
    refine .neutral ⟨rfl, rfl, rfl, rfl, rfl, rfl, fun n hn => ?_, fun n hn => ?_, ?_⟩
    · exact (AutoTable.mem_insert? ht).mpr (Or.inl hn)
    · rcases (AutoTable.mem_insert? ht).mp hn with hold | rfl
      · exact Or.inl hold
      · exact Or.inr (Nat.lt_succ_self _)
    · show s.namespaces.seq ≤ t.seq
      rw [(AutoTable.insert?_table ht).2]
      exact Nat.le_succ _
  | namespaceDeleted ns u h => exact .namespaceDeleted ns h
  | rotated hc h =>
    exact .rotated hc h
  | _ =>
    rename_i hs
    subst hs
    exact .neutral (.of_same rfl rfl rfl rfl rfl rfl rfl)

/-- secret の表の外から見た効果。secret の操作は log に一行を足し、secret の表の他には触れない。 -/
inductive OuterEffect (s : Store) (c : Call) (s' : Store) : Prop
  | neutral (h : SecretNeutral s s')
  | namespaceDeleted (ns : NamespaceRef) (h : deleteNamespaceTx c.rq s ns = .ok ((), s'))
  | rotated {id : String} {keyCheck : Bytes} {createdAt : Time}
      {rewrapSecret : SecretVersionModel → Except Err Bytes}
      {rewrapCA : CAKeyModel → Except Err Bytes} {out : Nat × Nat}
      (hc : c.op = .rotateKEK id keyCheck createdAt rewrapSecret rewrapCA)
      (h : rotateKEK s id keyCheck createdAt rewrapSecret rewrapCA = .ok (out, s'))
  | logged {a b d e f} (entry : ChangeEntry) (nsID : Nat) (now : Time) (hs : s' = { s with
      secrets := a
      secretHighWater := b
      secretVersions := d
      secretLabels := e
      auditEvents := f
      changeLog := logChange s.changeLog entry nsID now })

/-! ## version の行の由来 -/

/-- 破棄され、暗号文も DEK も nonce も持たない。 -/
structure Erased (sv : SecretVersionModel) : Prop where
  state : sv.state = .destroyed
  ciphertext : sv.ciphertext = []
  encryptedDEK : sv.encryptedDEK = []
  nonce : sv.nonce = []

/-- 採番した行。持ち主の新しい高水位を番号に持ち、content type と metadata は空でない。 -/
structure FreshRow (s' : Store) (sv' : SecretVersionModel) : Prop where
  owner : ∃ sec ∈ s'.secrets, sec.id = sv'.secretID ∧
    sv'.versionNumber = lastSecretVersion s' sec.key
  contentType : sv'.contentType ≠ ""
  metadataJSON : sv'.metadataJSON ≠ ""

/-- 一歩の後の行 `sv'` の由来。 -/
inductive VersionOrigin (s : Store) (c : Call) (s' : Store) (sv' : SecretVersionModel) : Prop
  | kept (h : sv' ∈ s.secretVersions)
  | restated (sv : SecretVersionModel) (state : VersionState) (hsv : sv ∈ s.secretVersions)
      (hlive : sv.state ≠ .destroyed) (hst : state ≠ .destroyed) (h : sv' = { sv with state })
  | erased (sv : SecretVersionModel) (hsv : sv ∈ s.secretVersions) (hkey : sv'.key = sv.key)
      (h : Erased sv')
      (hcontent : (sv'.contentType = sv.contentType ∧ sv'.metadataJSON = sv.metadataJSON) ∨
        (sv'.contentType = "" ∧ sv'.metadataJSON = ""))
      (hby : (∃ ref version rev, destroySecretVersion c.rq s ref version = .ok (rev, s')) ∨
        ∃ ref guard selector actor, c.op = .secret (.purge ref guard selector actor))
  | rewrapped {sv : SecretVersionModel} {id : String} {keyCheck : Bytes} {createdAt : Time}
      {rewrapSecret : SecretVersionModel → Except Err Bytes}
      {rewrapCA : CAKeyModel → Except Err Bytes} {dek : Bytes}
      (hc : c.op = .rotateKEK id keyCheck createdAt rewrapSecret rewrapCA)
      (hsv : sv ∈ s.secretVersions) (hlive : sv.state ≠ .destroyed)
      (hdek : rewrapSecret sv = .ok dek) (h : sv' = { sv with encryptedDEK := dek, kekID := id })
  | assigned (hc : (∃ p, c.op = .secret (.create p)) ∨ ∃ p, c.op = .secret (.transition p))
      (hnew : s.secretVersions.get sv'.key = none) (hrow : FreshRow s' sv')

theorem versionOrigin_purged {guard : SecretBindingCASGuard} {actor : String}
    {selector : PurgeSelector} {out : List Nat × Nat}
    (hc : c.op = .secret (.purge ref guard selector actor))
    (h : purgeSecretVersions c.rq s ref guard selector actor = .ok (out, s'))
    (hsv' : sv' ∈ s'.secretVersions) : VersionOrigin s c s' sv' := by
  obtain ⟨nsID, sec, affected, entry, _, _, _, rfl⟩ := purgeSecretVersions_ok_cases h
  obtain ⟨sv, hsv, rfl⟩ := (Table.mem_updateWhere (fun _ => by rfl)).mp hsv'
  by_cases ht : purgeTarget sec.id affected sv
  · rw [if_pos ht]
    exact .erased sv hsv rfl ⟨rfl, rfl, rfl, rfl⟩ (Or.inr ⟨rfl, rfl⟩)
      (Or.inr ⟨ref, guard, selector, actor, hc⟩)
  · rw [if_neg ht]
    exact .kept hsv

theorem ensureSecret_mem {nsID id : Nat} {contentType metadata : String}
    {t : AutoTable SecretModel.id SecretModel.key}
    (h : ensureSecret s nsID ref contentType metadata = .ok (id, t)) :
    t.get (nsID, ref.key) = some ⟨id, nsID, ref.key, contentType, metadata⟩ := by
  unfold ensureSecret at h
  cases hg : s.secrets.get (nsID, ref.key) with
  | none =>
    simp only [hg, bind_eq_ok_iff, orThrow_eq_ok_iff, pure_eq_ok_iff] at h
    obtain ⟨t', ht', heq⟩ := h
    cases heq
    exact (AutoTable.get_insert? ht' _).trans (if_pos rfl)
  | some sec =>
    simp only [hg, pure_eq_ok_iff] at h
    cases h
    have hkey := AutoTable.key_of_get hg
    rw [touchSecret, AutoTable.get_updateWhere (fun _ => by rfl) (fun _ => by rfl), hg,
      Option.map_some, if_pos (decide_eq_true rfl)]
    rw [show sec.namespaceID = nsID from congrArg Prod.fst hkey,
      show sec.name = ref.key from congrArg Prod.snd hkey]

theorem lastSecretVersion_upsert {nsID last : Nat} {name : String}
    (h : s'.secretHighWater = s.secretHighWater.upsert ⟨nsID, name, last⟩) (k : Nat × String) :
    lastSecretVersion s' k = if (nsID, name) = k then last else lastSecretVersion s k := by
  unfold lastSecretVersion
  rw [h, Table.get_upsert]
  show Option.getD (Option.map _ (if (nsID, name) = k then _ else _)) 0 = _
  split <;> rfl

theorem SecretEffect.versionOrigin (h : SecretEffect s c s')
    (hsv' : sv' ∈ s'.secretVersions) : VersionOrigin s c s' sv' := by
  cases h with
  | neutral h =>
    rw [h.secretVersions] at hsv'
    exact .kept hsv'
  | namespaceDeleted ns h =>
    obtain ⟨id, _, _, _, rfl⟩ := deleteNamespaceTx_ok_cases h
    exact .kept hsv'
  | rotated hc h =>
    obtain ⟨keys, _, hrew, _, rfl⟩ := rotateKEK_ok_cases h
    obtain ⟨sv, hsv, rfl⟩ := (Table.mem_updateWhere (fun _ => by rfl)).mp hsv'
    by_cases hlive : sv.state = .destroyed
    · rw [if_neg (by simpa using hlive)]
      exact .kept hsv
    · rw [if_pos (by simpa using hlive)]
      obtain ⟨dek, hdek⟩ := hrew sv hsv hlive
      refine .rewrapped hc hsv hlive hdek ?_
      rw [hdek]
      rfl
  | created p out hc h =>
    obtain ⟨nsID, _, _, _, _, _, _, _, hens, _, _, _, _, hver, _, rfl⟩ :=
      createSecretVersion_ok_cases h
    rcases (Table.mem_insert? hver).mp hsv' with hold | rfl
    · exact .kept hold
    · refine .assigned (Or.inl ⟨p, hc⟩) (Table.insert?_eq_some_iff.mp hver).1
        ⟨⟨_, AutoTable.mem_of_get (ensureSecret_mem hens), rfl, ?_⟩, zeroOr_ne_empty (by decide),
          zeroOr_ne_empty (by decide)⟩
      exact ((lastSecretVersion_upsert rfl _).trans (if_pos rfl)).symm
  | transitioned p out hc h =>
    obtain ⟨_, sec, _, hw, _, _, _, _, _, _, hsec, _, _, _, _, _, _, _, _, hver, _, rfl⟩ :=
      transitionSecretVersion_ok_cases h
    rcases (Table.mem_insert? hver).mp hsv' with hold | rfl
    · exact .kept hold
    · obtain ⟨sec', hsec', hid⟩ := get_touchSecret hsec
      have hkey : sec'.key = sec.key :=
        (AutoTable.key_of_get hsec').trans (AutoTable.key_of_get hsec).symm
      refine .assigned (Or.inr ⟨p, hc⟩) (Table.insert?_eq_some_iff.mp hver).1
        ⟨⟨sec', AutoTable.mem_of_get hsec', hid, ?_⟩, zeroOr_ne_empty (by decide),
          zeroOr_ne_empty (by decide)⟩
      rw [hkey]
      exact ((lastSecretVersion_upsert rfl _).trans (if_pos rfl)).symm
  | stateSet ref version state rev h =>
    obtain ⟨nsID, sec, entry, _, _, hst, hlive, rfl⟩ := setSecretVersionState_ok_cases h
    obtain ⟨sv, hsv, rfl⟩ := (Table.mem_updateWhere (fun _ => by rfl)).mp hsv'
    by_cases ht : stateTarget sec.id version sv
    · rw [if_pos ht]
      exact .restated sv state hsv (hlive sv hsv ht) hst rfl
    · rw [if_neg ht]
      exact .kept hsv
  | destroyed ref version rev h =>
    have hby := h
    obtain ⟨nsID, sec, sv₁, entry, _, _, _, _, _, _, rfl⟩ := destroySecretVersion_ok_cases h
    obtain ⟨sv, hsv, rfl⟩ := (Table.mem_updateWhere (fun _ => by rfl)).mp hsv'
    by_cases ht : sv.key = (sec.id, version)
    · rw [if_pos (decide_eq_true ht)]
      exact .erased sv hsv rfl ⟨rfl, rfl, rfl, rfl⟩ (Or.inl ⟨rfl, rfl⟩)
        (Or.inl ⟨ref, version, rev, hby⟩)
    · rw [if_neg (by simpa using ht)]
      exact .kept hsv
  | promoted ref version out h =>
    obtain ⟨_, _, _, _, _, _, _, rfl⟩ := promoteSecretVersion_ok_cases h
    exact .kept hsv'
  | deleted ref rev h =>
    obtain ⟨_, _, _, _, _, _, rfl⟩ := deleteSecretTx_ok_cases h
    exact .kept (Table.mem_deleteWhere.mp hsv').1
  | purged ref guard selector actor out hc h => exact versionOrigin_purged hc h hsv'

/-! ## secret の行の同一性 -/

/-- 一歩の後の secret の表。行を消す一歩は、その version も消す。 -/
inductive SecretsChange (s s' : Store) : Prop
  | same (h : s'.secrets = s.secrets)
  | touched (id : Nat) (contentType metadata : String)
      (h : s'.secrets = touchSecret s.secrets id contentType metadata)
  | inserted (nsID : Nat) (name contentType metadata : String)
      (hns : ∃ n ∈ s.namespaces, n.id = nsID)
      (h : s.secrets.insert? (fun id => ⟨id, nsID, name, contentType, metadata⟩) (fun _ => rfl) =
        some s'.secrets)
  | deleted (hop : ∃ rq ref rev, deleteSecretTx rq s ref = .ok (rev, s')) (id : Nat)
      (h : s'.secrets = s.secrets.deleteWhere (fun m => decide (m.id = id)))
      (hv : ∀ sv ∈ s'.secretVersions, sv.secretID ≠ id)

theorem ensureSecret_change {rq : Request} {nsID id : Nat}
    {contentType metadata : String} (hns : resolveNamespaceID rq s ref.ns = .ok nsID)
    (h : ensureSecret s nsID ref contentType metadata = .ok (id, s'.secrets)) :
    SecretsChange s s' := by
  obtain ⟨n, hn, hid⟩ := resolveNamespaceID_ok hns
  unfold ensureSecret at h
  cases hg : s.secrets.get (nsID, ref.key) with
  | none =>
    simp only [hg, bind_eq_ok_iff, orThrow_eq_ok_iff, pure_eq_ok_iff, Prod.mk.injEq] at h
    obtain ⟨t, ht, _, heq⟩ := h
    rw [heq] at ht
    exact .inserted nsID ref.key contentType metadata ⟨n, AutoTable.mem_of_get hn, hid⟩ ht
  | some sec =>
    simp only [hg, pure_eq_ok_iff, Prod.mk.injEq] at h
    exact .touched _ _ _ h.2.symm

/-! ## 表ごとの変化 -/

theorem lastSecretVersion_of_get {k : Nat × String} {m : SecretVersionHighWaterModel}
    (h : s.secretHighWater.get k = some m) : lastSecretVersion s k = m.lastVersion := by
  unfold lastSecretVersion
  rw [h]
  rfl

/-- 一つの transaction が高水位に対してすること。 -/
inductive HighWaterChange (s s' : Store) : Prop
  | same (h : s'.secretHighWater = s.secretHighWater)
  | raised (k : Nat × String)
      (h : s'.secretHighWater = s.secretHighWater.upsert ⟨k.1, k.2, lastSecretVersion s k + 1⟩)
  | dropped (id : Nat)
      (h : s'.secretHighWater = s.secretHighWater.deleteWhere
        (fun m => decide (m.namespaceID = id)))
      (hns : ∀ n ∈ s'.namespaces, n.id ≠ id) (hsec : ∀ sec ∈ s'.secrets, sec.namespaceID ≠ id)

theorem updateWhere_keeps {t : Table SecretVersionModel.key} {p : SecretVersionModel → Bool}
    {f : SecretVersionModel → SecretVersionModel} (hf : ∀ m, (f m).key = m.key) (k : Nat × Nat)
    (sv : SecretVersionModel) (h : t.get k = some sv) :
    ∃ sv', (t.updateWhere p f).get k = some sv' := by
  rw [Table.get_updateWhere hf, h]
  exact ⟨_, rfl⟩

/-- version の行は、secret の行が消えない限り残る。 -/
def VersionsKept (s s' : Store) : Prop :=
  ∀ sv ∈ s.secretVersions,
    (∃ sv', s'.secretVersions.get sv.key = some sv') ∨ ∀ sec ∈ s'.secrets, sec.id ≠ sv.secretID

theorem VersionsKept.of_get
    (h : ∀ k sv, s.secretVersions.get k = some sv → ∃ sv', s'.secretVersions.get k = some sv') :
    VersionsKept s s' :=
  fun sv hsv => Or.inl (h sv.key sv (Table.get_of_mem hsv))

theorem VersionsKept.of_same (h : s'.secretVersions = s.secretVersions) : VersionsKept s s' :=
  .of_get (fun _ sv hsv => ⟨sv, h ▸ hsv⟩)

theorem VersionsKept.of_insert {row : SecretVersionModel}
    (h : s.secretVersions.insert? row = some s'.secretVersions) : VersionsKept s s' :=
  .of_get (fun _ sv hsv => ⟨sv, Table.get_insert?_of_some h hsv⟩)

/-- 一つの transaction が、表のそれぞれに対してすること。 -/
structure SecretDelta (s : Store) (c : Call) (s' : Store) : Prop where
  outer : OuterEffect s c s'
  secrets : SecretsChange s s'
  highWater : HighWaterChange s s'
  versions : VersionsKept s s'

theorem SecretEffect.delta (h : SecretEffect s c s') : SecretDelta s c s' := by
  cases h with
  | neutral h =>
    exact ⟨.neutral h, .same h.secrets, .same h.secretHighWater, .of_same h.secretVersions⟩
  | namespaceDeleted ns h =>
    have houter : OuterEffect s c s' := .namespaceDeleted ns h
    obtain ⟨id, _, _, hsec, rfl⟩ := deleteNamespaceTx_ok_cases h
    refine ⟨houter, .same rfl, .dropped id rfl (fun n hn => ?_) hsec, .of_same rfl⟩
    exact of_decide_eq_false (AutoTable.mem_deleteWhere.mp hn).2
  | rotated hc h =>
    have houter := OuterEffect.rotated hc h
    obtain ⟨keys, _, _, _, rfl⟩ := rotateKEK_ok_cases h
    exact ⟨houter, .same rfl, .same rfl, .of_get (updateWhere_keeps (fun _ => rfl))⟩
  | created p out hc h =>
    obtain ⟨nsID, _, _, _, _, _, _, hns, hens, _, _, _, _, hver, _, rfl⟩ :=
      createSecretVersion_ok_cases h
    exact ⟨.logged _ _ _ rfl, ensureSecret_change hns hens, .raised (nsID, p.ref.key) rfl,
      .of_insert hver⟩
  | transitioned p out hc h =>
    obtain ⟨_, sec, _, hw, _, _, _, _, _, _, _, _, _, _, hhw, _, _, _, _, hver, _, rfl⟩ :=
      transitionSecretVersion_ok_cases h
    refine ⟨.logged _ _ _ rfl, .touched _ _ _ rfl, .raised sec.key ?_, .of_insert hver⟩
    rw [lastSecretVersion_of_get hhw]
    rfl
  | stateSet ref version state rev h =>
    obtain ⟨_, _, _, _, _, _, _, rfl⟩ := setSecretVersionState_ok_cases h
    exact ⟨.logged _ _ _ rfl, .same rfl, .same rfl, .of_get (updateWhere_keeps (fun _ => rfl))⟩
  | destroyed ref version rev h =>
    obtain ⟨_, _, _, _, _, _, _, _, _, _, rfl⟩ := destroySecretVersion_ok_cases h
    exact ⟨.logged _ _ _ rfl, .same rfl, .same rfl, .of_get (updateWhere_keeps (fun _ => rfl))⟩
  | promoted ref version out h =>
    obtain ⟨_, _, _, _, _, _, _, rfl⟩ := promoteSecretVersion_ok_cases h
    exact ⟨.logged _ _ _ rfl, .touched _ _ _ rfl, .same rfl, .of_same rfl⟩
  | deleted ref rev h =>
    have hop := h
    obtain ⟨_, sec, _, _, _, _, rfl⟩ := deleteSecretTx_ok_cases h
    refine ⟨.logged _ _ _ rfl, .deleted ⟨_, _, _, hop⟩ sec.id rfl (fun sv hsv => ?_), .same rfl,
      fun sv hsv => ?_⟩
    · exact of_decide_eq_false (Table.mem_deleteWhere.mp hsv).2
    · by_cases hid : sv.secretID = sec.id
      · rw [hid]
        exact Or.inr (fun sec' hsec' => of_decide_eq_false (AutoTable.mem_deleteWhere.mp hsec').2)
      · exact Or.inl ⟨sv, Table.get_of_mem (Table.mem_deleteWhere.mpr ⟨hsv, decide_eq_false hid⟩)⟩
  | purged ref guard selector actor out hc h =>
    obtain ⟨_, sec, affected, _, _, _, _, rfl⟩ := purgeSecretVersions_ok_cases h
    refine ⟨.logged _ _ _ rfl, ?_, .same rfl, .of_get (updateWhere_keeps (fun _ => rfl))⟩
    cases hl : s.secretLabels.get (sec.id, .current) with
    | none => exact .same (by simp only [purgedSecrets, hl])
    | some l =>
      by_cases hin : l.versionNumber ∈ affected
      · exact .touched sec.id "" "" (by simp only [purgedSecrets, hl, if_pos hin])
      · exact .same (by simp only [purgedSecrets, hl, if_neg hin])

theorem SecretsChange.seq_le (h : SecretsChange s s') : s.secrets.seq ≤ s'.secrets.seq := by
  cases h with
  | same h => rw [h]
  | touched id contentType metadata h | deleted hop id h hv =>
    rw [h]
    exact le_rfl
  | inserted nsID name contentType metadata hns h =>
    rw [(AutoTable.insert?_table h).2]
    exact Nat.le_succ _

theorem SecretsChange.origin (h : SecretsChange s s') {sec' : SecretModel}
    (hsec' : sec' ∈ s'.secrets) :
    (∃ sec ∈ s.secrets, sec.id = sec'.id ∧ sec.key = sec'.key) ∨
      (s.secrets.seq < sec'.id ∧ ∃ n ∈ s.namespaces, n.id = sec'.namespaceID) := by
  cases h with
  | same h => exact Or.inl ⟨sec', h ▸ hsec', rfl, rfl⟩
  | touched id contentType metadata h =>
    rw [h] at hsec'
    obtain ⟨sec, hsec, rfl⟩ := mem_touchSecret.mp hsec'
    refine Or.inl ⟨sec, hsec, ?_⟩
    split <;> exact ⟨rfl, rfl⟩
  | inserted nsID name contentType metadata hns h =>
    rcases (AutoTable.mem_insert? h).mp hsec' with hold | rfl
    · exact Or.inl ⟨sec', hold, rfl, rfl⟩
    · exact Or.inr ⟨Nat.lt_succ_self _, hns⟩
  | deleted hop id h hv =>
    rw [h] at hsec'
    exact Or.inl ⟨sec', (AutoTable.mem_deleteWhere.mp hsec').1, rfl, rfl⟩

theorem SecretsChange.keeps (h : SecretsChange s s') {sec : SecretModel} (hsec : sec ∈ s.secrets) :
    (∃ sec' ∈ s'.secrets, sec'.id = sec.id ∧ sec'.key = sec.key) ∨
      ((∀ sec' ∈ s'.secrets, sec'.id ≠ sec.id) ∧
        (∀ sv ∈ s'.secretVersions, sv.secretID ≠ sec.id) ∧
        ∃ rq ref rev, deleteSecretTx rq s ref = .ok (rev, s')) := by
  cases h with
  | same h => exact Or.inl ⟨sec, h ▸ hsec, rfl, rfl⟩
  | touched id contentType metadata h =>
    rw [h]
    refine Or.inl ⟨_, mem_touchSecret.mpr ⟨sec, hsec, rfl⟩, ?_⟩
    split <;> exact ⟨rfl, rfl⟩
  | inserted nsID name contentType metadata hns h =>
    exact Or.inl ⟨sec, (AutoTable.mem_insert? h).mpr (Or.inl hsec), rfl, rfl⟩
  | deleted hop id h hv =>
    rw [h]
    by_cases hid : sec.id = id
    · subst hid
      exact Or.inr
        ⟨fun sec' hsec' => of_decide_eq_false (AutoTable.mem_deleteWhere.mp hsec').2, hv, hop⟩
    · exact Or.inl ⟨sec, AutoTable.mem_deleteWhere.mpr ⟨hsec, decide_eq_false hid⟩, rfl, rfl⟩

theorem SecretEffect.keepsNamespace (h : SecretEffect s c s')
    {n : NamespaceModel} (hn : n ∈ s.namespaces) :
    n ∈ s'.namespaces ∨ ∀ sec ∈ s'.secrets, sec.namespaceID ≠ n.id := by
  cases h.delta.outer with
  | neutral h => exact Or.inl (h.namespaces n hn)
  | namespaceDeleted ns h =>
    obtain ⟨id, _, _, hsec, rfl⟩ := deleteNamespaceTx_ok_cases h
    by_cases hid : n.id = id
    · refine Or.inr (fun sec hs => ?_)
      rw [hid]
      exact hsec sec hs
    · exact Or.inl (AutoTable.mem_deleteWhere.mpr ⟨hn, decide_eq_false hid⟩)
  | rotated hc h =>
    obtain ⟨keys, _, _, _, rfl⟩ := rotateKEK_ok_cases h
    exact Or.inl hn
  | logged entry nsID now hs => exact Or.inl (by rw [hs]; exact hn)

/-! ## 持ち主 -/

structure Housed (s : Store) : Prop where
  versions : ∀ sv ∈ s.secretVersions, ∃ sec ∈ s.secrets, sec.id = sv.secretID
  secrets : ∀ sec ∈ s.secrets, ∃ n ∈ s.namespaces, n.id = sec.namespaceID

theorem SecretsChange.owner (h : SecretsChange s s') (hh : Housed s)
    (hsv : sv ∈ s.secretVersions) (hsv' : sv' ∈ s'.secretVersions)
    (hid : sv'.secretID = sv.secretID) : ∃ sec ∈ s'.secrets, sec.id = sv'.secretID := by
  obtain ⟨sec, hsec, hown⟩ := hh.versions sv hsv
  rcases h.keeps hsec with ⟨sec', hsec', hsid, _⟩ | ⟨_, hgone, _⟩
  · exact ⟨sec', hsec', hsid.trans (hown.trans hid.symm)⟩
  · exact absurd (hid.trans hown.symm) (hgone sv' hsv')

theorem housed_step (h : SecretEffect s c s') (hh : Housed s) :
    Housed s' where
  versions := by
    intro sv' hsv'
    have hch := h.delta.secrets
    cases h.versionOrigin hsv' with
    | kept hsv => exact hch.owner hh hsv hsv' rfl
    | restated sv state hsv hlive hst heq => exact hch.owner hh hsv hsv' (by rw [heq])
    | erased sv hsv hkey he => exact hch.owner hh hsv hsv' (congrArg Prod.fst hkey)
    | rewrapped hc hsv hlive hdek heq =>
      exact hch.owner hh hsv hsv' (by rw [heq])
    | assigned hc hnew hrow =>
      obtain ⟨sec, hsec, hid, _⟩ := hrow.owner
      exact ⟨sec, hsec, hid⟩
  secrets := by
    intro sec' hsec'
    have hns : ∃ n ∈ s.namespaces, n.id = sec'.namespaceID := by
      rcases h.delta.secrets.origin hsec' with ⟨sec, hsec, _, hkey⟩ | ⟨_, hnew⟩
      · obtain ⟨n, hn, hid⟩ := hh.secrets sec hsec
        exact ⟨n, hn, hid.trans (congrArg Prod.fst hkey)⟩
      · exact hnew
    obtain ⟨n, hn, hid⟩ := hns
    rcases h.keepsNamespace hn with hn' | hnone
    · exact ⟨n, hn', hid⟩
    · exact absurd hid.symm (hnone sec' hsec')

/-! ## 破棄は戻らない -/

/-- 鍵 `key` の行が `P` を満たすか、行ごと消えて二度と現れない。 -/
def Lasting (P : SecretVersionModel → Prop) (s : Store) (key : Nat × Nat) : Prop :=
  (∃ sv, s.secretVersions.get key = some sv ∧ P sv) ∨
    (key.1 ≤ s.secrets.seq ∧ ∀ sec ∈ s.secrets, sec.id ≠ key.1)

theorem Lasting.holds {P : SecretVersionModel → Prop} (h : Lasting P s key) (hh : Housed s)
    (hsv : s.secretVersions.get key = some sv) : P sv := by
  rcases h with ⟨sv₀, hsv₀, hd⟩ | ⟨_, hgone⟩
  · rw [hsv] at hsv₀
    cases hsv₀
    exact hd
  · obtain ⟨sec, hsec, hid⟩ := hh.versions sv (Table.mem_of_get hsv)
    exact absurd (hid.trans (congrArg Prod.fst (Table.key_of_get hsv))) (hgone sec hsec)

/-- 行が残る一歩で `P` が保たれるなら、行が消える一歩も込めて保たれる。id は使い回されない。 -/
theorem lasting_step {P : SecretVersionModel → Prop} (h : SecretEffect s c s') (hh : Housed s)
    (hP : ∀ sv sv', s.secretVersions.get key = some sv → P sv →
      s'.secretVersions.get key = some sv' → P sv') (hl : Lasting P s key) : Lasting P s' key := by
  have hch := h.delta.secrets
  rcases hl with ⟨sv, hsv, hd⟩ | ⟨hle, hgone⟩
  · have hmem := Table.mem_of_get hsv
    have hid : sv.secretID = key.1 := congrArg Prod.fst (Table.key_of_get hsv)
    rcases h.delta.versions _ hmem with ⟨sv', hsv'⟩ | hgone
    · rw [Table.key_of_get hsv] at hsv'
      exact Or.inl ⟨sv', hsv', hP sv sv' hsv hd hsv'⟩
    · obtain ⟨sec, hsec, hown⟩ := hh.versions sv hmem
      refine Or.inr ⟨Nat.le_trans ?_ hch.seq_le, fun sec' hsec' => ?_⟩
      · rw [← hid, ← hown]
        exact s.secrets.id_le sec hsec
      · rw [← hid]
        exact hgone sec' hsec'
  · refine Or.inr ⟨hle.trans hch.seq_le, fun sec' hsec' heq => ?_⟩
    rcases hch.origin hsec' with ⟨sec, hsec, hid, _⟩ | ⟨hlt, _⟩
    · exact hgone sec hsec (hid.trans heq)
    · omega

/-- 行が残る一歩では、行は同じ鍵の行から来る。採番した行ではない。 -/
theorem VersionOrigin.source
    (h : VersionOrigin s c s' sv') (hsv : s.secretVersions.get sv'.key = some sv) :
    sv' = sv ∨ (sv.state ≠ .destroyed ∧ sv'.state ≠ .destroyed ∧
        sv'.contentType = sv.contentType ∧ sv'.metadataJSON = sv.metadataJSON ∧
        sv'.destroyedAt = sv.destroyedAt ∧ sv'.expiresAt = sv.expiresAt) ∨
      (Erased sv' ∧ ((sv'.contentType = sv.contentType ∧ sv'.metadataJSON = sv.metadataJSON) ∨
        (sv'.contentType = "" ∧ sv'.metadataJSON = "")) ∧
        ((∃ ref version rev, destroySecretVersion c.rq s ref version = .ok (rev, s')) ∨
          ∃ ref guard selector actor, c.op = .secret (.purge ref guard selector actor))) := by
  have hsame : ∀ {sv₀}, sv₀ ∈ s.secretVersions → sv₀.key = sv'.key → sv₀ = sv := by
    intro sv₀ hsv₀ hk
    have := Table.get_of_mem hsv₀
    rw [hk, hsv] at this
    exact (Option.some.inj this).symm
  cases h with
  | kept h => exact Or.inl (hsame h rfl)
  | restated sv₀ state hsv₀ hlive hst heq =>
    subst heq
    rw [hsame hsv₀ rfl] at hlive ⊢
    exact Or.inr (Or.inl ⟨hlive, hst, rfl, rfl, rfl, rfl⟩)
  | erased sv₀ hsv₀ hk he hcontent hby =>
    rw [hsame hsv₀ hk.symm] at hcontent
    exact Or.inr (Or.inr ⟨he, hcontent, hby⟩)
  | rewrapped hc hsv₀ hlive hdek heq =>
    subst heq
    rw [hsame hsv₀ rfl] at hlive ⊢
    exact Or.inr (Or.inl ⟨hlive, hlive, rfl, rfl, rfl, rfl⟩)
  | assigned hc hnew hrow =>
    rw [hsv] at hnew
    cases hnew

def Retired (s : Store) (key : Nat × Nat) : Prop :=
  (∃ sv, s.secretVersions.get key = some sv ∧ sv.state = .destroyed) ∨
    (key.1 ≤ s.secrets.seq ∧ ∀ sec ∈ s.secrets, sec.id ≠ key.1)

theorem Retired.destroyed (h : Retired s key) (hh : Housed s)
    (hsv : s.secretVersions.get key = some sv) :
    sv.state = .destroyed :=
  Lasting.holds (P := fun sv => sv.state = .destroyed) h hh hsv

theorem retired_step (h : SecretEffect s c s') (hh : Housed s)
    (hr : Retired s key) : Retired s' key := by
  refine lasting_step (P := fun sv => sv.state = .destroyed) h hh ?_ hr
  intro sv sv' hsv hd hsv'
  have horigin := h.versionOrigin (Table.mem_of_get hsv')
  rcases horigin.source (by rw [Table.key_of_get hsv', hsv]) with rfl | ⟨hlive, _⟩ | ⟨he, _⟩
  · exact hd
  · exact absurd hd hlive
  · exact he.state

/-- 消去された version は、行が残る限り content type も metadata も空のままである。 -/
def Blanked (s : Store) (key : Nat × Nat) : Prop :=
  Lasting (fun sv => sv.contentType = "" ∧ sv.metadataJSON = "") s key

theorem blanked_step (h : SecretEffect s c s') (hh : Housed s)
    (hb : Blanked s key) : Blanked s' key := by
  refine lasting_step h hh ?_ hb
  intro sv sv' hsv hblank hsv'
  have horigin := h.versionOrigin (Table.mem_of_get hsv')
  rcases horigin.source (by rw [Table.key_of_get hsv', hsv]) with
    rfl | ⟨_, _, hct, hmd, _⟩ | ⟨_, ⟨hct, hmd⟩ | hempty, _⟩
  · exact hblank
  · exact ⟨hct.trans hblank.1, hmd.trans hblank.2⟩
  · exact ⟨hct.trans hblank.1, hmd.trans hblank.2⟩
  · exact hempty

end Kms.Storage
