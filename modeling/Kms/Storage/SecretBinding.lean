import Kms.Infra.Scan
import Kms.Storage.Secrets

/-!
# binding key の遷移・消去と KEK の交換

`internal/storage/secret_binding.go` と `keymeta.go` を写す。

* `transitionSecretVersion` — current を複製して新しい version を作る。元の行は書き換えない
* `purgeSecretVersions` — 選んだ version を最小の tombstone にする。release の参照は見ない
* `rotateKEK` — 新しい KEK を active にし、破棄されていない全ての行を包み直す
-/

namespace Kms.Storage

open Kms.Infra

/-! ## 遷移 -/

/-- 操作の対象の version 番号。`requested = 0` は current を指す。 -/
def bindingVersionNumber (s : Store) (ref : Ref) (secretID requested : Nat) : Except Err Nat :=
  if requested = 0 then do
    let label ← orThrow (s.secretLabels.get (secretID, .current))
      (.notFound s!"secret {ref} current version")
    require (label.versionNumber ≠ 0)
      (.failedPrecondition s!"secret {ref} current label is invalid")
    pure label.versionNumber
  else pure requested

def resolveBindingVersion (rq : Request) (s : Store) (ref : Ref) (requested : Nat) :
    Except Err (SecretModel × SecretVersionModel) := do
  let sec ← findSecret rq s ref
  let version ← bindingVersionNumber s ref sec.id requested
  let row ← orThrow (s.secretVersions.get (sec.id, version))
    (.notFound s!"secret {ref} version {version}")
  pure (sec, row)

def validBoundWrapping (row : SecretVersionModel) : Bool :=
  decide (row.state ≠ .destroyed) && row.bound && decide (row.wrapMode = .bindingKey) &&
    decide (row.bindingKeySalt.length = bindingKeySaltSize) &&
    decide (row.encryptedDEK ≠ []) && decide (row.kekID ≠ "")

def validStandardWrapping (row : SecretVersionModel) : Bool :=
  decide (row.state ≠ .destroyed) && !row.bound && decide (row.wrapMode = .standard) &&
    decide (row.bindingKeySalt = []) && decide (row.encryptedDEK ≠ []) && decide (row.kekID ≠ "")

inductive SecretTransitionKind where
  | bind
  | unbind
  | rotate
  deriving DecidableEq

/-- 遷移先が binding key に結び付くか。 -/
def SecretTransitionKind.targetBound : SecretTransitionKind → Bool
  | .bind => true
  | .unbind => false
  | .rotate => true

def SecretTransitionKind.changeType : SecretTransitionKind → ChangeType
  | .bind => .bind
  | .unbind => .unbind
  | .rotate => .rotateBindingKey

def SecretTransitionKind.auditEvent : SecretTransitionKind → String
  | .bind => "secret.bind"
  | .unbind => "secret.unbind"
  | .rotate => "secret.binding_key.rotate"

structure SecretVersionTransitionParams where
  ref : Ref
  expectedCurrentVersion : Nat
  kind : SecretTransitionKind
  createdBy : String
  actor : String
  encrypt : SecretVersionModel → Nat → Except Err EncryptedPayload

def invalidWrapping (ref : Ref) (source : SecretVersionModel) : String :=
  s!"secret {ref} current version {source.versionNumber} has invalid wrapping metadata"

/-- 遷移の元の行の検査。 -/
def checkTransitionSource (p : SecretVersionTransitionParams) (source : SecretVersionModel) :
    Except Err Unit := do
  require (source.versionNumber = p.expectedCurrentVersion)
    (.aborted s!"secret {p.ref} current version changed; retry")
  require (source.state ≠ .destroyed ∧ source.destroyedAt = none)
    (.failedPrecondition s!"secret {p.ref} current version {source.versionNumber} is destroyed")
  match p.kind with
  | .bind =>
    require (source.bound = false)
      (.failedPrecondition
        s!"secret {p.ref} current version {source.versionNumber} is already bound")
    require (validStandardWrapping source = true)
      (.failedPrecondition (invalidWrapping p.ref source))
  | .unbind | .rotate =>
    require (source.bound = true)
      (.failedPrecondition s!"secret {p.ref} current version {source.versionNumber} is not bound")
    require (validBoundWrapping source = true)
      (.failedPrecondition (invalidWrapping p.ref source))

/-- 暗号化し直した payload の検査。元の行の材料を使い回していないこと。 -/
def checkTransitionPayload (targetBound : Bool) (source : SecretVersionModel)
    (payload : EncryptedPayload) : Except Err Unit := do
  validateSecretPayloadWrapping targetBound payload
  require (payload.ciphertext ≠ [] ∧ payload.encryptedDEK ≠ [] ∧ payload.nonce ≠ [] ∧
      payload.aad ≠ "" ∧ payload.algorithm ≠ "")
    (.failedPrecondition "transition encryption returned incomplete cryptographic material")
  require (payload.ciphertext ≠ source.ciphertext ∧ payload.encryptedDEK ≠ source.encryptedDEK ∧
      payload.nonce ≠ source.nonce ∧ payload.aad ≠ source.aad)
    (.failedPrecondition
      "transition encryption must use fresh cryptographic material and version-bound AAD")
  require (targetBound = false ∨ payload.bindingKeySalt ≠ source.bindingKeySalt)
    (.failedPrecondition "transition encryption must use a fresh binding salt")

/-- `appendSecretBindingAllowAudit`。 -/
def bindingAudit (eventType : String) (sec : SecretModel) (ref : Ref) (anchor : Nat)
    (affected : List Nat) (actor : String) (now : Time) : AuditEvent where
  eventType := eventType
  actorIdentity := actor
  resourceType := "secret"
  resourceNamespaceID := sec.namespaceID
  ref := ref
  resourceVersion := anchor
  decision := "allow"
  metadata := [("affected_versions", "[" ++ ",".intercalate (affected.map toString) ++ "]")]
  createdAt := now

structure SecretVersionTransitionResult where
  currentVersion : Nat
  previousVersion : Nat
  revision : Nat
  deriving DecidableEq

/-- 遷移後の label。current が新しい version、previous が元の version を指す。 -/
def transitionLabels (t : Table SecretLabelModel.key) (secretID new source : Nat) :
    Table SecretLabelModel.key :=
  (t.upsert ⟨secretID, .current, new⟩).upsert ⟨secretID, .previous, source⟩

def transitionSecretVersion (rq : Request) (s : Store) (p : SecretVersionTransitionParams) :
    Except Err (SecretVersionTransitionResult × Store) := do
  require (p.expectedCurrentVersion ≠ 0)
    (.invalidArgument "expected current version is required")
  let (sec, source) ← resolveBindingVersion rq s p.ref 0
  checkTransitionSource p source
  let highWater ← orThrow (s.secretHighWater.get sec.key)
    (.failedPrecondition s!"secret {p.ref} version high-water mark is missing")
  require (highWater.lastVersion ≠ maxInt64)
    (.failedPrecondition s!"secret {p.ref} version space exhausted")
  let new := highWater.lastVersion + 1
  let payload ← p.encrypt source new
  checkTransitionPayload p.kind.targetBound source payload
  let active ← orThrow (activeKey s) (.failedPrecondition "no active KEK for secret transition")
  require (payload.kekID = active.id)
    (.failedPrecondition "active KEK changed during secret transition; retry")
  let row := secretVersionRow sec.id new source.contentType source.metadataJSON p.createdBy
    p.kind.targetBound source.state source.expiresAt payload
  let secretVersions ← orThrow (s.secretVersions.insert? row)
    (.alreadyExists s!"secret {p.ref} version {new}")
  let (rev, s) := appendChange rq
    { s with
      secrets := touchSecret s.secrets sec.id source.contentType source.metadataJSON
      secretHighWater := s.secretHighWater.upsert ⟨sec.namespaceID, sec.name, new⟩
      secretVersions
      secretLabels := transitionLabels s.secretLabels sec.id new source.versionNumber }
    sec.namespaceID
    { resourceType := .secret, ref := p.ref, changeType := p.kind.changeType,
      versionNumber := new, affectedVersions := [source.versionNumber, new] }
  let audit := bindingAudit p.kind.auditEvent sec p.ref new
    [source.versionNumber, new] p.actor rq.now
  pure (⟨new, source.versionNumber, rev⟩, { s with auditEvents := s.auditEvents ++ [audit] })

variable {rq : Request} {s s' : Store} {ref : Ref} {sec : SecretModel}

theorem resolveBindingVersion_ok {requested : Nat} {row : SecretVersionModel}
    (h : resolveBindingVersion rq s ref requested = .ok (sec, row)) :
    ∃ nsID version, resolveNamespaceID rq s ref.ns = .ok nsID ∧
      s.secrets.get (nsID, ref.key) = some sec ∧
      s.secretVersions.get (sec.id, version) = some row ∧
      (requested = 0 → ∃ l, s.secretLabels.get (sec.id, .current) = some l ∧
        l.versionNumber = version) := by
  simp only [resolveBindingVersion, findSecret, bind_eq_ok_iff, orThrow_eq_ok_iff,
    pure_eq_ok_iff] at h
  obtain ⟨sec', ⟨nsID, hns, hsec⟩, version, hver, row', hrow, heq⟩ := h
  cases heq
  refine ⟨nsID, version, hns, hsec, hrow, ?_⟩
  intro h0
  simp only [bindingVersionNumber, h0, if_true, bind_eq_ok_iff, orThrow_eq_ok_iff,
    pure_eq_ok_iff] at hver
  obtain ⟨l, hl, _, _, hl'⟩ := hver
  exact ⟨l, hl, hl'⟩

theorem transitionSecretVersion_ok_cases
    {p : SecretVersionTransitionParams} {out : SecretVersionTransitionResult}
    (h : transitionSecretVersion rq s p = .ok (out, s')) :
    ∃ nsID sec source highWater payload active versions entry audits,
      resolveNamespaceID rq s p.ref.ns = .ok nsID ∧
      s.secrets.get (nsID, p.ref.key) = some sec ∧
      s.secretVersions.get (sec.id, source.versionNumber) = some source ∧
      (∃ l, s.secretLabels.get (sec.id, .current) = some l ∧
        l.versionNumber = source.versionNumber) ∧
      checkTransitionSource p source = .ok () ∧
      s.secretHighWater.get sec.key = some highWater ∧
      p.encrypt source (highWater.lastVersion + 1) = .ok payload ∧
      checkTransitionPayload p.kind.targetBound source payload = .ok () ∧
      activeKey s = some active ∧ payload.kekID = active.id ∧
      s.secretVersions.insert?
        (secretVersionRow sec.id (highWater.lastVersion + 1) source.contentType
          source.metadataJSON p.createdBy p.kind.targetBound source.state source.expiresAt
          payload) = some versions ∧
      out.currentVersion = highWater.lastVersion + 1 ∧
      s' = { s with
        secrets := touchSecret s.secrets sec.id source.contentType source.metadataJSON
        secretHighWater := s.secretHighWater.upsert
          ⟨sec.namespaceID, sec.name, highWater.lastVersion + 1⟩
        secretVersions := versions
        secretLabels := transitionLabels s.secretLabels sec.id (highWater.lastVersion + 1)
          source.versionNumber
        auditEvents := audits
        changeLog := logChange s.changeLog entry sec.namespaceID rq.now } := by
  simp only [transitionSecretVersion, bind_eq_ok_iff, orThrow_eq_ok_iff, pure_eq_ok_iff,
    require_eq_ok_iff, appendChange] at h
  obtain ⟨_, _, ⟨sec, source⟩, hres, _, hsrc, hw, hhw, _, _, payload, henc, _, hpay, active, hact,
    _, hkek, versions, hver, heq⟩ := h
  obtain ⟨nsID, version, hns, hsec, hrow, hlab⟩ := resolveBindingVersion_ok hres
  have hvn : source.versionNumber = version := congrArg Prod.snd (Table.key_of_get hrow)
  subst hvn
  cases heq
  exact ⟨nsID, sec, source, hw, payload, active, versions, _, _, hns, hsec,
    hrow, hlab rfl, hsrc, hhw,
    henc, hpay, hact, hkek, hver, rfl, rfl⟩

/-! ## 消去 -/

def maxSecretBindingCohortVersions : Nat := 128

/-- 隣の version を取り込めるか。 -/
def inCohort (s : Store) (secretID : Nat) (test : SecretVersionModel → Except Err Unit)
    (version : Nat) : Option SecretVersionModel :=
  (s.secretVersions.get (secretID, version)).filter
    (fun row => validBoundWrapping row && (test row).toBool)

def cohortExceeded : Err :=
  .sentinel .resourceExhausted
    s!"binding cohort exceeds the {maxSecretBindingCohortVersions}-version limit"

/--
`discoverSecretBindingCohort`。anchor と、同じ binding key で読める隣接した version の列。

`cohortSize` は 1 から始まり、下向きと上向きの走査で共有する。上向きの走査の上限 `math.MaxInt64` は、version
番号がそれを越えないので現れない。
-/
def discoverSecretBindingCohort (rq : Request) (s : Store) (ref : Ref) (requested : Nat)
    (test : SecretVersionModel → Except Err Unit) :
    Except Err (SecretModel × Nat × List SecretVersionModel) := do
  let (sec, anchor) ← resolveBindingVersion rq s ref requested
  require (anchor.state ≠ .destroyed)
    (.failedPrecondition s!"secret {ref} version {anchor.versionNumber} is destroyed")
  require (anchor.bound = true)
    (.failedPrecondition s!"secret {ref} version {anchor.versionNumber} is not bound")
  require (validBoundWrapping anchor = true)
    (.failedPrecondition
      s!"secret {ref} version {anchor.versionNumber} has invalid wrapping metadata")
  test anchor
  let (down, cohortSize) ← scan
    (fun version => if 0 < version then inCohort s sec.id test version else none) Nat.pred
    maxSecretBindingCohortVersions cohortExceeded maxSecretBindingCohortVersions
    (anchor.versionNumber - 1) 1
  let (up, _) ← scan (inCohort s sec.id test) Nat.succ maxSecretBindingCohortVersions
    cohortExceeded maxSecretBindingCohortVersions (anchor.versionNumber + 1) cohortSize
  pure (sec, anchor.versionNumber, down.reverse ++ [anchor] ++ up)

def discoverSecretUnboundVersions (rq : Request) (s : Store) (ref : Ref) :
    Except Err (SecretModel × Nat × List SecretVersionModel) := do
  let sec ← findSecret rq s ref
  let rows := (s.secretVersions.rows.filter (fun m =>
    decide (m.secretID = sec.id) && decide (m.state ≠ .destroyed) && !m.bound)).insertionSort
    (fun a b => a.versionNumber ≤ b.versionNumber)
  match rows with
  | [] => .error (.failedPrecondition s!"secret {ref} has no unbound versions to purge")
  | first :: rest => pure (sec, first.versionNumber, first :: rest)

/-- 消去した行。version 番号だけが残る。 -/
def tombstone (m : SecretVersionModel) (now : Time) : SecretVersionModel :=
  { m with
    contentType := ""
    bound := false
    ciphertext := []
    encryptedDEK := []
    kekID := ""
    wrapMode := .other ""
    bindingKeySalt := []
    algorithm := ""
    nonce := []
    aad := ""
    state := .destroyed
    destroyedAt := some now
    expiresAt := none
    metadataJSON := "" }

structure SecretBindingCASGuard where
  expectedRevision : Nat
  expectedAffectedVersions : List Nat

/-- `validateSecretBindingGuard`。 -/
def validGuard (guard : SecretBindingCASGuard) : Bool :=
  decide (guard.expectedRevision ≠ 0) && decide (guard.expectedAffectedVersions ≠ []) &&
    guard.expectedAffectedVersions.all (fun v => decide (v ≠ 0)) &&
    decide (guard.expectedAffectedVersions.Pairwise (· < ·))

/-- 消す行の選び方。 -/
inductive PurgeSelector where
  | bindingCohort (anchor : Nat) (test : SecretVersionModel → Except Err Unit)
  | unboundVersions

def PurgeSelector.select (rq : Request) (s : Store) (ref : Ref) :
    PurgeSelector → Except Err (SecretModel × Nat × List SecretVersionModel)
  | .bindingCohort anchor test => discoverSecretBindingCohort rq s ref anchor test
  | .unboundVersions => discoverSecretUnboundVersions rq s ref

def PurgeSelector.changeType : PurgeSelector → ChangeType
  | .bindingCohort .. => .purgeBindingCohort
  | .unboundVersions => .purgeUnbound

def PurgeSelector.auditEvent : PurgeSelector → String
  | .bindingCohort .. => "secret.binding_cohort.purge"
  | .unboundVersions => "secret.unbound_versions.purge"

def purgeTarget (secretID : Nat) (affected : List Nat) (m : SecretVersionModel) : Bool :=
  decide (m.secretID = secretID) && decide (m.versionNumber ∈ affected)

/-- current を消したなら、secret の行の写しも空にする。 -/
def purgedSecrets (s : Store) (secretID : Nat) (affected : List Nat) :
    AutoTable SecretModel.id SecretModel.key :=
  match s.secretLabels.get (secretID, .current) with
  | some l => if l.versionNumber ∈ affected then touchSecret s.secrets secretID "" "" else s.secrets
  | none => s.secrets

def purgeSecretVersions (rq : Request) (s : Store) (ref : Ref) (guard : SecretBindingCASGuard)
    (selector : PurgeSelector) (actor : String) : Except Err ((List Nat × Nat) × Store) := do
  require (validGuard guard = true)
    (.invalidArgument "expected revision and affected versions must be supplied together")
  let (sec, anchor, rows) ← selector.select rq s ref
  let affected := rows.map (·.versionNumber)
  require (guard.expectedRevision = s.changeLog.seq ∧ guard.expectedAffectedVersions = affected)
    (.aborted "secret version set changed; preview and retry")
  require (∀ row ∈ rows, row.state ≠ .destroyed)
    (.aborted "secret version changed concurrently; retry")
  let (rev, s) := appendChange rq
    { s with
      secretVersions := s.secretVersions.updateWhere (purgeTarget sec.id affected)
        (fun m => tombstone m rq.now)
      secrets := purgedSecrets s sec.id affected }
    sec.namespaceID
    { resourceType := .secret, ref, changeType := selector.changeType, versionNumber := anchor,
      affectedVersions := affected }
  let audit := bindingAudit selector.auditEvent sec ref anchor affected actor rq.now
  pure ((affected, rev), { s with auditEvents := s.auditEvents ++ [audit] })

theorem resolveBindingVersion_mem {requested : Nat} {row : SecretVersionModel}
    (h : resolveBindingVersion rq s ref requested = .ok (sec, row)) :
    ∃ nsID, resolveNamespaceID rq s ref.ns = .ok nsID ∧
      s.secrets.get (nsID, ref.key) = some sec := by
  obtain ⟨nsID, _, hns, hsec, _⟩ := resolveBindingVersion_ok h
  exact ⟨nsID, hns, hsec⟩

theorem PurgeSelector.select_ok {selector : PurgeSelector}
    {anchor : Nat} {rows : List SecretVersionModel}
    (h : selector.select rq s ref = .ok (sec, anchor, rows)) :
    ∃ nsID, resolveNamespaceID rq s ref.ns = .ok nsID ∧
      s.secrets.get (nsID, ref.key) = some sec := by
  cases selector with
  | bindingCohort requested test =>
    simp only [select, discoverSecretBindingCohort, bind_eq_ok_iff, pure_eq_ok_iff] at h
    obtain ⟨⟨sec', anchor'⟩, hres, _, _, _, _, _, _, _, _, _, _, _, _, heq⟩ := h
    cases heq
    exact resolveBindingVersion_mem hres
  | unboundVersions =>
    simp only [select, discoverSecretUnboundVersions, findSecret, bind_eq_ok_iff,
      orThrow_eq_ok_iff] at h
    obtain ⟨sec', ⟨nsID, hns, hsec⟩, h⟩ := h
    split at h
    · cases h
    · rw [pure_eq_ok_iff] at h
      cases h
      exact ⟨nsID, hns, hsec⟩

theorem purgeSecretVersions_ok_cases
    {guard : SecretBindingCASGuard} {selector : PurgeSelector} {actor : String}
    {out : List Nat × Nat}
    (h : purgeSecretVersions rq s ref guard selector actor = .ok (out, s')) :
    ∃ nsID sec affected entry audits, resolveNamespaceID rq s ref.ns = .ok nsID ∧
      s.secrets.get (nsID, ref.key) = some sec ∧
      s' = { s with
        secretVersions := s.secretVersions.updateWhere (purgeTarget sec.id affected)
          (fun m => tombstone m rq.now)
        secrets := purgedSecrets s sec.id affected
        auditEvents := audits
        changeLog := logChange s.changeLog entry sec.namespaceID rq.now } := by
  simp only [purgeSecretVersions, bind_eq_ok_iff, pure_eq_ok_iff, appendChange] at h
  obtain ⟨_, _, ⟨sec, anchor, rows⟩, hsel, _, _, _, _, heq⟩ := h
  obtain ⟨nsID, hns, hsec⟩ := PurgeSelector.select_ok hsel
  cases heq
  exact ⟨nsID, sec, _, _, _, hns, hsec, rfl⟩

/-! ## KEK の交換 -/

def activateKey (t : Table KeyMetadataModel.id) (id : String) : Table KeyMetadataModel.id :=
  t.updateWhere (fun k => decide (k.id ≠ id)) (fun k => { k with state := .retired })

/-- 包み直した DEK。callback が失敗すれば transaction 全体が戻るので、その値は使われない。 -/
def rewrapped (e : Except Err Bytes) (old : Bytes) : Bytes :=
  match e with
  | .ok dek => dek
  | .error _ => old

def rotateKEK (s : Store) (id : String) (keyCheck : Bytes) (createdAt : Time)
    (rewrapSecret : SecretVersionModel → Except Err Bytes)
    (rewrapCA : CAKeyModel → Except Err Bytes) : Except Err ((Nat × Nat) × Store) := do
  let keys ← orThrow (s.keyMetadata.insert? ⟨id, keyCheck, .active, createdAt⟩)
    (.alreadyExists s!"key {id}")
  let rows := s.secretVersions.rows.filter (fun m => decide (m.state ≠ .destroyed))
  rows.forM (fun m => (rewrapSecret m).map (fun _ => PUnit.unit))
  s.caKeys.rows.forM (fun m => (rewrapCA m).map (fun _ => PUnit.unit))
  let secretVersions := s.secretVersions.updateWhere (fun m => decide (m.state ≠ .destroyed))
    (fun m => { m with encryptedDEK := rewrapped (rewrapSecret m) m.encryptedDEK, kekID := id })
  let caKeys := s.caKeys.updateWhere (fun _ => true)
    (fun m => { m with encryptedDEK := rewrapped (rewrapCA m) m.encryptedDEK, kekID := id })
  pure ((rows.length, s.caKeys.rows.length),
    { s with keyMetadata := activateKey keys id, secretVersions, caKeys })

/-- 交換が成功したなら、全ての対象の行の callback が成功している。 -/
theorem rotateKEK_ok_cases {id : String} {keyCheck : Bytes} {createdAt : Time}
    {rewrapSecret : SecretVersionModel → Except Err Bytes}
    {rewrapCA : CAKeyModel → Except Err Bytes} {out : Nat × Nat}
    (h : rotateKEK s id keyCheck createdAt rewrapSecret rewrapCA = .ok (out, s')) :
    ∃ keys, s.keyMetadata.insert? ⟨id, keyCheck, .active, createdAt⟩ = some keys ∧
      (∀ m ∈ s.secretVersions, m.state ≠ .destroyed → ∃ dek, rewrapSecret m = .ok dek) ∧
      (∀ m ∈ s.caKeys, ∃ dek, rewrapCA m = .ok dek) ∧
      s' = { s with
        keyMetadata := activateKey keys id
        secretVersions := s.secretVersions.updateWhere (fun m => decide (m.state ≠ .destroyed))
          (fun m =>
            { m with encryptedDEK := rewrapped (rewrapSecret m) m.encryptedDEK, kekID := id })
        caKeys := s.caKeys.updateWhere (fun _ => true)
          (fun m =>
            { m with encryptedDEK := rewrapped (rewrapCA m) m.encryptedDEK, kekID := id }) } := by
  simp only [rotateKEK, bind_eq_ok_iff, orThrow_eq_ok_iff, pure_eq_ok_iff] at h
  obtain ⟨keys, hkeys, _, hsv, _, hca, heq⟩ := h
  cases heq
  refine ⟨keys, hkeys, ?_, ?_, rfl⟩
  · intro m hm hst
    exact map_eq_ok (forM_eq_ok_iff.mp hsv m (List.mem_filter.mpr ⟨hm, by simpa using hst⟩))
  · intro m hm
    exact map_eq_ok (forM_eq_ok_iff.mp hca m hm)

end Kms.Storage
