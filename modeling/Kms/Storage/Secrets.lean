import Kms.Storage.Releases

/-!
# secret

`internal/storage/secrets.go` を写す。version 番号は secret の行とは独立な高水位から採番し、
KEK は書き込みと同じ transaction の中で確かめる。暗号化は呼び出し側の関数で、
store は結果の形だけを検査する。
-/

namespace Kms.Storage

open Kms.Infra

/-! ## payload -/

/-- 暗号化の結果。 -/
structure EncryptedPayload where
  ciphertext : Bytes
  encryptedDEK : Bytes
  kekID : String
  wrapMode : WrapMode
  bindingKeySalt : Bytes
  algorithm : String
  nonce : Bytes
  aad : String
  deriving DecidableEq

def bindingKeySaltSize : Nat := 32

def WrapMode.orStandard (w : WrapMode) : WrapMode := if w = .other "" then .standard else w

def validateSecretPayloadWrapping (bound : Bool) (payload : EncryptedPayload) : Except Err Unit :=
  if bound then
    require (WrapMode.orStandard payload.wrapMode = .bindingKey ∧
        payload.bindingKeySalt.length = bindingKeySaltSize)
      (.failedPrecondition
        (s!"bound secret payload must use binding-key wrapping with a " ++
          s!"{bindingKeySaltSize}-byte salt"))
  else
    require (WrapMode.orStandard payload.wrapMode = .standard ∧ payload.bindingKeySalt = [])
      (.failedPrecondition
        "unbound secret payload must use standard wrapping without a binding-key salt")

/-! ## 有効な KEK -/

/-- `created_at DESC, id DESC` で先に来る行。 -/
def laterKey (a b : KeyMetadataModel) : KeyMetadataModel :=
  if a.createdAt < b.createdAt ∨ (a.createdAt = b.createdAt ∧ a.id < b.id) then b else a

/-- `ORDER BY ... LIMIT 1`。 -/
def firstKey : List KeyMetadataModel → Option KeyMetadataModel
  | [] => none
  | k :: ks =>
    match firstKey ks with
    | none => some k
    | some k' => some (laterKey k k')

theorem mem_of_firstKey {l : List KeyMetadataModel} {k : KeyMetadataModel}
    (h : firstKey l = some k) : k ∈ l := by
  induction l generalizing k with
  | nil => cases h
  | cons a as ih =>
    simp only [firstKey] at h
    cases hf : firstKey as with
    | none =>
      rw [hf] at h
      cases h
      exact List.mem_cons_self ..
    | some b =>
      rw [hf] at h
      cases h
      unfold laterKey
      split
      · exact List.mem_cons_of_mem a (ih hf)
      · exact List.mem_cons_self ..

def activeKey (s : Store) : Option KeyMetadataModel :=
  firstKey (s.keyMetadata.rows.filter (fun k => decide (k.state = .active)))

variable {s s' : Store} {id rev version : Nat} {contentType metadata : String} {m : SecretModel}
  {ref : Ref} {rq : Request}

theorem activeKey_spec {k : KeyMetadataModel} (h : activeKey s = some k) :
    k ∈ s.keyMetadata ∧ k.state = .active := by
  have hm := List.mem_filter.mp (mem_of_firstKey h)
  exact ⟨hm.1, by simpa using hm.2⟩

/-! ## secret の行と label -/

def findSecret (rq : Request) (s : Store) (ref : Ref) : Except Err SecretModel := do
  let nsID ← resolveNamespaceID rq s ref.ns
  orThrow (s.secrets.get (nsID, ref.key)) (.notFound s!"secret {ref}")

/-- secret の行の content type と metadata を書き換える。 -/
def touchSecret (t : AutoTable SecretModel.id SecretModel.key) (id : Nat)
    (contentType metadata : String) : AutoTable SecretModel.id SecretModel.key :=
  t.updateWhere (fun m => decide (m.id = id))
    (fun m => { m with contentType, metadataJSON := metadata })

theorem mem_touchSecret {t : AutoTable SecretModel.id SecretModel.key} {m : SecretModel} :
    m ∈ touchSecret t id contentType metadata ↔
      ∃ m₀ ∈ t, (if m₀.id = id then { m₀ with contentType, metadataJSON := metadata } else m₀) =
        m := by
  rw [touchSecret, AutoTable.mem_updateWhere (fun _ => by rfl) (fun _ => by rfl)]
  simp

/-- 書き換えた表の行は、書き換えた行か、元のままの他の行である。 -/
theorem touchSecret_cases {t : AutoTable SecretModel.id SecretModel.key} {m : SecretModel}
    (h : m ∈ touchSecret t id contentType metadata) :
    (∃ m₀ ∈ t, m₀.id = id ∧ m = { m₀ with contentType, metadataJSON := metadata }) ∨
      (m ∈ t ∧ m.id ≠ id) := by
  obtain ⟨m₀, hm₀, rfl⟩ := mem_touchSecret.mp h
  by_cases hid : m₀.id = id
  · rw [if_pos hid]
    exact Or.inl ⟨m₀, hm₀, hid, rfl⟩
  · rw [if_neg hid]
    exact Or.inr ⟨hm₀, hid⟩

theorem get_touchSecret {t : AutoTable SecretModel.id SecretModel.key}
    {k : Nat × String} (hm : t.get k = some m) :
    ∃ m', (touchSecret t id contentType metadata).get k = some m' ∧ m'.id = m.id := by
  rw [touchSecret, AutoTable.get_updateWhere, hm, Option.map_some]
  · refine ⟨_, rfl, ?_⟩
    split <;> rfl
  all_goals exact fun _ => rfl

/-- secret の行を用意する。返り値は id と新しい表。 -/
def ensureSecret (s : Store) (nsID : Nat) (ref : Ref) (contentType metadata : String) :
    Except Err (Nat × AutoTable SecretModel.id SecretModel.key) :=
  match s.secrets.get (nsID, ref.key) with
  | none => do
    let secrets ← orThrow
      (s.secrets.insert? (fun id => ⟨id, nsID, ref.key, contentType, metadata⟩) (fun _ => rfl))
      (.alreadyExists s!"secret {ref}")
    pure (s.secrets.seq + 1, secrets)
  | some sec => pure (sec.id, touchSecret s.secrets sec.id contentType metadata)

/-- current を `version` に動かした label。古い current は previous になる。 -/
def movedSecretLabels (t : Table SecretLabelModel.key) (secretID version : Nat) :
    Table SecretLabelModel.key :=
  match t.get (secretID, .current) with
  | some old =>
    if old.versionNumber ≠ version then
      (t.upsert ⟨secretID, .current, version⟩).upsert ⟨secretID, .previous, old.versionNumber⟩
    else t.upsert ⟨secretID, .current, version⟩
  | none => t.upsert ⟨secretID, .current, version⟩

/-- `(namespace, key)` の高水位。行が無ければ `0`。 -/
def lastSecretVersion (s : Store) (k : Nat × String) : Nat :=
  ((s.secretHighWater.get k).map (·.lastVersion)).getD 0

def maxInt64 : Nat := 9223372036854775807

/-! ## 作成 -/

/-- 書き込みの前提。 -/
structure SecretWriteExpectation where
  exists_ : Bool
  id : Nat

structure CreateSecretParams where
  ref : Ref
  contentType : String
  metadata : String
  createdBy : String
  bound : Bool
  expected : Option SecretWriteExpectation
  expiresAt : Option Time
  encrypt : Nat → Except Err EncryptedPayload

/-- payload から作る version の行。空の列には database の既定値が入る。 -/
def secretVersionRow (secretID version : Nat) (contentType metadata createdBy : String)
    (bound : Bool) (state : VersionState) (expiresAt : Option Time) (payload : EncryptedPayload) :
    SecretVersionModel where
  secretID := secretID
  versionNumber := version
  contentType := zeroOr contentType "application/octet-stream"
  bound := bound
  ciphertext := payload.ciphertext
  encryptedDEK := payload.encryptedDEK
  kekID := payload.kekID
  wrapMode := WrapMode.orStandard payload.wrapMode
  bindingKeySalt := payload.bindingKeySalt
  algorithm := zeroOr payload.algorithm "AES-256-GCM"
  nonce := payload.nonce
  aad := payload.aad
  state := state
  createdBy := createdBy
  destroyedAt := none
  expiresAt := expiresAt
  metadataJSON := zeroOr metadata "\x7b\x7d"

/-- `CreateSecretVersion`。返り値は version と revision。 -/
def createSecretVersion (rq : Request) (s : Store) (p : CreateSecretParams) :
    Except Err ((Nat × Nat) × Store) := do
  let contentType := zeroOr p.contentType "application/octet-stream"
  let metadata := zeroOr p.metadata "\x7b\x7d"
  let nsID ← resolveNamespaceID rq s p.ref.ns
  let existing := s.secrets.get (nsID, p.ref.key)
  require (∀ e ∈ p.expected, e.exists_ = existing.isSome ∧ ∀ sec ∈ existing, sec.id = e.id)
    (.aborted s!"secret {p.ref} changed concurrently; retry")
  let (secretID, secrets) ← ensureSecret s nsID p.ref contentType metadata
  let last := lastSecretVersion s (nsID, p.ref.key)
  require (last ≠ maxInt64) (.failedPrecondition s!"secret {p.ref} version space exhausted")
  let payload ← p.encrypt (last + 1)
  validateSecretPayloadWrapping p.bound payload
  -- 暗号化の後、書き込み lock を持ったまま KEK を確かめる。
  let active ← orThrow (activeKey s) (.failedPrecondition "no active KEK for secret write")
  require (payload.kekID = active.id)
    (.failedPrecondition "active KEK changed during secret write; retry")
  let row := secretVersionRow secretID (last + 1) contentType metadata p.createdBy p.bound
    .enabled p.expiresAt payload
  let secretVersions ← orThrow (s.secretVersions.insert? row)
    (.alreadyExists s!"secret {p.ref} version {last + 1}")
  let (rev, s) := appendChange rq
    { s with
      secrets
      secretHighWater := s.secretHighWater.upsert ⟨nsID, p.ref.key, last + 1⟩
      secretVersions
      secretLabels := movedSecretLabels s.secretLabels secretID (last + 1) } nsID
    { resourceType := .secret, ref := p.ref, changeType := .put, contentType,
      versionNumber := last + 1, label := some .current }
  pure ((last + 1, rev), s)

theorem createSecretVersion_ok_cases {p : CreateSecretParams}
    {out : Nat × Nat} (h : createSecretVersion rq s p = .ok (out, s')) :
    ∃ nsID secretID secrets payload active versions entry,
      resolveNamespaceID rq s p.ref.ns = .ok nsID ∧
      ensureSecret s nsID p.ref (zeroOr p.contentType "application/octet-stream")
        (zeroOr p.metadata "\x7b\x7d") = .ok (secretID, secrets) ∧
      p.encrypt (lastSecretVersion s (nsID, p.ref.key) + 1) = .ok payload ∧
      validateSecretPayloadWrapping p.bound payload = .ok () ∧
      activeKey s = some active ∧ payload.kekID = active.id ∧
      s.secretVersions.insert?
        (secretVersionRow secretID (lastSecretVersion s (nsID, p.ref.key) + 1)
          (zeroOr p.contentType "application/octet-stream") (zeroOr p.metadata "\x7b\x7d")
          p.createdBy p.bound .enabled p.expiresAt payload) = some versions ∧
      out.1 = lastSecretVersion s (nsID, p.ref.key) + 1 ∧
      s' = { s with
        secrets := secrets
        secretHighWater := s.secretHighWater.upsert
          ⟨nsID, p.ref.key, lastSecretVersion s (nsID, p.ref.key) + 1⟩
        secretVersions := versions
        secretLabels := movedSecretLabels s.secretLabels secretID
          (lastSecretVersion s (nsID, p.ref.key) + 1)
        changeLog := logChange s.changeLog entry nsID rq.now } := by
  simp only [createSecretVersion, bind_eq_ok_iff, orThrow_eq_ok_iff, pure_eq_ok_iff,
    require_eq_ok_iff, appendChange] at h
  obtain ⟨nsID, hns, _, _, ⟨secretID, secrets⟩, hsec, _, _, payload, henc, _, hwrap, active, hact,
    _, hkek, versions, hver, heq⟩ := h
  cases heq
  exact ⟨nsID, secretID, secrets, payload, active, versions, _, hns, hsec, henc, hwrap, hact, hkek,
    hver, rfl, rfl⟩

/-! ## 削除・状態・破棄・昇格 -/

/-- `deleteSecretTx`。高水位の行は残る。 -/
def deleteSecretTx (rq : Request) (s : Store) (ref : Ref) : Except Err (Nat × Store) := do
  let sec ← findSecret rq s ref
  rejectProtectedReleaseReference rq s ref .secret 0
  let secretLabels := s.secretLabels.deleteWhere (fun m => decide (m.secretID = sec.id))
  let secretVersions := s.secretVersions.deleteWhere (fun m => decide (m.secretID = sec.id))
  let secrets := s.secrets.deleteWhere (fun m => decide (m.id = sec.id))
  pure (appendChange rq { s with secrets, secretVersions, secretLabels } sec.namespaceID
    { resourceType := .secret, ref, changeType := .delete })

theorem deleteSecretTx_ok_cases (h : deleteSecretTx rq s ref = .ok (rev, s')) :
    ∃ nsID sec entry, resolveNamespaceID rq s ref.ns = .ok nsID ∧
      s.secrets.get (nsID, ref.key) = some sec ∧
      rejectProtectedReleaseReference rq s ref .secret 0 = .ok () ∧
      s' = { s with
        secrets := s.secrets.deleteWhere (fun m => decide (m.id = sec.id))
        secretVersions := s.secretVersions.deleteWhere (fun m => decide (m.secretID = sec.id))
        secretLabels := s.secretLabels.deleteWhere (fun m => decide (m.secretID = sec.id))
        changeLog := logChange s.changeLog entry sec.namespaceID rq.now } := by
  simp only [deleteSecretTx, findSecret, bind_eq_ok_iff, orThrow_eq_ok_iff, pure_eq_ok_iff,
    appendChange] at h
  obtain ⟨sec, ⟨nsID, hns, hsec⟩, _, hrej, heq⟩ := h
  cases heq
  exact ⟨nsID, sec, _, hns, hsec, hrej, rfl⟩

/-- 検査する version。`0` は全ての非破棄の version を指す。 -/
def checkStateTarget (s : Store) (ref : Ref) (secretID version : Nat) : Except Err Unit :=
  if version = 0 then pure ()
  else do
    let sv ← orThrow (s.secretVersions.get (secretID, version))
      (.notFound s!"secret {ref} version {version}")
    require (sv.state ≠ .destroyed)
      (.failedPrecondition s!"secret {ref} version {version} is destroyed")

def stateTarget (secretID version : Nat) (m : SecretVersionModel) : Bool :=
  decide (m.secretID = secretID) &&
    (if version = 0 then decide (m.state ≠ .destroyed) else decide (m.versionNumber = version))

/-- `SetSecretVersionState`。破棄された version は復活しない。 -/
def setSecretVersionState (rq : Request) (s : Store) (ref : Ref) (version : Nat)
    (state : VersionState) : Except Err (Nat × Store) := do
  require (state ≠ .destroyed) (.invalidArgument "invalid state \"destroyed\"")
  let sec ← findSecret rq s ref
  checkStateTarget s ref sec.id version
  let secretVersions := s.secretVersions.updateWhere (stateTarget sec.id version)
    (fun m => { m with state })
  pure (appendChange rq { s with secretVersions } sec.namespaceID
    { resourceType := .secret, ref
      changeType := if state = .disabled then .disable else .enable
      versionNumber := version })

/-- 状態の変更は、対象の secret の破棄されていない version だけに及ぶ。 -/
theorem setSecretVersionState_ok_cases {state : VersionState}
    (h : setSecretVersionState rq s ref version state = .ok (rev, s')) :
    ∃ nsID sec entry, resolveNamespaceID rq s ref.ns = .ok nsID ∧
      s.secrets.get (nsID, ref.key) = some sec ∧ state ≠ .destroyed ∧
      (∀ m ∈ s.secretVersions, stateTarget sec.id version m → m.state ≠ .destroyed) ∧
      s' = { s with
        secretVersions := s.secretVersions.updateWhere (stateTarget sec.id version)
          (fun m => { m with state })
        changeLog := logChange s.changeLog entry sec.namespaceID rq.now } := by
  simp only [setSecretVersionState, findSecret, bind_eq_ok_iff, orThrow_eq_ok_iff, pure_eq_ok_iff,
    require_eq_ok_iff, appendChange] at h
  obtain ⟨_, hst, sec, ⟨nsID, hns, hsec⟩, _, hcheck, heq⟩ := h
  cases heq
  refine ⟨nsID, sec, _, hns, hsec, hst, ?_, rfl⟩
  intro m hm ht
  simp only [stateTarget, Bool.and_eq_true, decide_eq_true_eq] at ht
  by_cases hv : version = 0
  · simpa [hv] using ht.2
  · have hver : m.versionNumber = version := by simpa [hv] using ht.2
    simp only [checkStateTarget, hv, if_false, bind_eq_ok_iff, orThrow_eq_ok_iff,
      require_eq_ok_iff] at hcheck
    obtain ⟨sv, hsv, hne⟩ := hcheck
    have hkey : m.key = (sec.id, version) := by rw [SecretVersionModel.key, ht.1, hver]
    rw [← hkey, Table.get_of_mem hm] at hsv
    cases hsv
    exact hne

/-- 破棄した行。KEK の id は残る。 -/
def destroyedVersion (m : SecretVersionModel) (now : Time) : SecretVersionModel :=
  { m with
    ciphertext := []
    encryptedDEK := []
    nonce := []
    state := .destroyed
    destroyedAt := some now }

def destroySecretVersion (rq : Request) (s : Store) (ref : Ref) (version : Nat) :
    Except Err (Nat × Store) := do
  require (version ≠ 0) (.invalidArgument "version is required")
  let sec ← findSecret rq s ref
  rejectProtectedReleaseReference rq s ref .secret version
  let sv ← orThrow (s.secretVersions.get (sec.id, version))
    (.notFound s!"secret {ref} version {version}")
  require (sv.state ≠ .destroyed)
    (.failedPrecondition s!"secret {ref} version {version} already destroyed")
  let secretVersions := s.secretVersions.updateWhere
    (fun m => decide (m.key = (sec.id, version))) (fun m => destroyedVersion m rq.now)
  pure (appendChange rq { s with secretVersions } sec.namespaceID
    { resourceType := .secret, ref, changeType := .destroy, versionNumber := version })

theorem destroySecretVersion_ok_cases (h : destroySecretVersion rq s ref version = .ok (rev, s')) :
    ∃ nsID sec sv entry, resolveNamespaceID rq s ref.ns = .ok nsID ∧
      s.secrets.get (nsID, ref.key) = some sec ∧ version ≠ 0 ∧
      rejectProtectedReleaseReference rq s ref .secret version = .ok () ∧
      s.secretVersions.get (sec.id, version) = some sv ∧ sv.state ≠ .destroyed ∧
      s' = { s with
        secretVersions := s.secretVersions.updateWhere
          (fun m => decide (m.key = (sec.id, version))) (fun m => destroyedVersion m rq.now)
        changeLog := logChange s.changeLog entry sec.namespaceID rq.now } := by
  simp only [destroySecretVersion, findSecret, bind_eq_ok_iff, orThrow_eq_ok_iff, pure_eq_ok_iff,
    require_eq_ok_iff, appendChange] at h
  obtain ⟨_, hv, sec, ⟨nsID, hns, hsec⟩, _, hrej, sv, hsv, _, hst, heq⟩ := h
  cases heq
  exact ⟨nsID, sec, sv, _, hns, hsec, hv, hrej, hsv, hst, rfl⟩

/-- `PromoteSecretVersion`。返り値は current、previous、revision。 -/
def promoteSecretVersion (rq : Request) (s : Store) (ref : Ref) (version : Nat) :
    Except Err ((Nat × Nat × Nat) × Store) := do
  require (version ≠ 0) (.invalidArgument "version is required")
  let sec ← findSecret rq s ref
  let sv ← orThrow (s.secretVersions.get (sec.id, version))
    (.notFound s!"secret {ref} version {version}")
  require (sv.state = .enabled ∧ sv.destroyedAt = none)
    (.failedPrecondition s!"secret {ref} version {version} is not enabled")
  let secrets := touchSecret s.secrets sec.id sv.contentType sv.metadataJSON
  let secretLabels := movedSecretLabels s.secretLabels sec.id version
  let previous := ((secretLabels.get (sec.id, .previous)).map (·.versionNumber)).getD 0
  let (rev, s) := appendChange rq { s with secrets, secretLabels } sec.namespaceID
    { resourceType := .secret, ref, changeType := .promote, versionNumber := version,
      label := some .current }
  pure ((version, previous, rev), s)

theorem promoteSecretVersion_ok_cases
    {out : Nat × Nat × Nat} (h : promoteSecretVersion rq s ref version = .ok (out, s')) :
    ∃ nsID sec sv entry, resolveNamespaceID rq s ref.ns = .ok nsID ∧
      s.secrets.get (nsID, ref.key) = some sec ∧
      s.secretVersions.get (sec.id, version) = some sv ∧
      s' = { s with
        secrets := touchSecret s.secrets sec.id sv.contentType sv.metadataJSON
        secretLabels := movedSecretLabels s.secretLabels sec.id version
        changeLog := logChange s.changeLog entry sec.namespaceID rq.now } := by
  simp only [promoteSecretVersion, findSecret, bind_eq_ok_iff, orThrow_eq_ok_iff, pure_eq_ok_iff,
    appendChange] at h
  obtain ⟨_, _, sec, ⟨nsID, hns, hsec⟩, sv, hsv, _, _, heq⟩ := h
  cases heq
  exact ⟨nsID, sec, sv, _, hns, hsec, hsv, rfl⟩

end Kms.Storage
