import Kms.Domain
import Kms.Infra.AutoTable
import Kms.Infra.Except

/-!
# store の表

`internal/storage/models.go` の表を写す。一意 index は表の key に、AUTOINCREMENT の id は
`AutoTable` の採番に対応する。identity の証明書・policy など、model 化した操作が
読まない列と表は持たない。

書き込みは BEGIN IMMEDIATE の transaction で直列化されるので、一つの transaction を
`Store → Except Err (α × Store)` で表す。error は rollback である。
-/

namespace Kms.Storage

open Kms.Infra

/-! ## namespace と application -/

/-- 一つの namespace incarnation。 -/
structure NamespaceModel where
  id : Nat
  ref : NamespaceRef
  deriving DecidableEq

/-- `contract` は contract の JSON に対応する。渡されなかった contract は空の列になる。 -/
structure ApplicationModel where
  name : String
  description : String
  releaseName : String
  schemaVersion : Nat
  contract : List ApplicationContractField
  createdAt : Time
  updatedAt : Time
  archivedAt : Option Time
  deriving DecidableEq

/-- 登録済み schema。`contract` は canonical な contract の JSON に対応する。 -/
structure ConfigurationSchemaModel where
  applicationName : String
  releaseName : String
  versionNumber : Nat
  schemaJSON : String
  digest : String
  contract : Option (List ApplicationContractField)
  deriving DecidableEq

def ConfigurationSchemaModel.key (m : ConfigurationSchemaModel) : String × String × Nat :=
  (m.applicationName, m.releaseName, m.versionNumber)

structure SchemaFreeContractModel where
  applicationName : String
  releaseName : String
  contract : List ApplicationContractField
  deriving DecidableEq

def SchemaFreeContractModel.key (m : SchemaFreeContractModel) : String × String :=
  (m.applicationName, m.releaseName)

structure IdentityModel where
  name : String
  namespaceID : Option Nat
  deriving DecidableEq

/-! ## parameter -/

structure ParameterModel where
  id : Nat
  namespaceID : Nat
  name : String
  contentType : String
  metadataJSON : String
  deriving DecidableEq

def ParameterModel.key (m : ParameterModel) : Nat × String := (m.namespaceID, m.name)

structure ParameterVersionModel where
  parameterID : Nat
  versionNumber : Nat
  value : String
  contentType : String
  metadataJSON : String
  createdBy : String
  deriving DecidableEq

def ParameterVersionModel.key (m : ParameterVersionModel) : Nat × Nat :=
  (m.parameterID, m.versionNumber)

structure ParameterLabelModel where
  parameterID : Nat
  label : Label
  versionNumber : Nat
  deriving DecidableEq

def ParameterLabelModel.key (m : ParameterLabelModel) : Nat × Label := (m.parameterID, m.label)

/-! ## secret -/

structure SecretModel where
  id : Nat
  namespaceID : Nat
  name : String
  contentType : String
  metadataJSON : String
  deriving DecidableEq

def SecretModel.key (m : SecretModel) : Nat × String := (m.namespaceID, m.name)

/-- secret の行とは独立に残る version 番号の高水位。 -/
structure SecretVersionHighWaterModel where
  namespaceID : Nat
  name : String
  lastVersion : Nat
  deriving DecidableEq

def SecretVersionHighWaterModel.key (m : SecretVersionHighWaterModel) : Nat × String :=
  (m.namespaceID, m.name)

/-- secret の一つの version。NULL の blob は空の byte 列である。 -/
structure SecretVersionModel where
  secretID : Nat
  versionNumber : Nat
  contentType : String
  bound : Bool
  ciphertext : Bytes
  encryptedDEK : Bytes
  kekID : String
  wrapMode : WrapMode
  bindingKeySalt : Bytes
  algorithm : String
  nonce : Bytes
  aad : String
  state : VersionState
  createdBy : String
  destroyedAt : Option Time
  expiresAt : Option Time
  metadataJSON : String
  deriving DecidableEq

def SecretVersionModel.key (m : SecretVersionModel) : Nat × Nat :=
  (m.secretID, m.versionNumber)

structure SecretLabelModel where
  secretID : Nat
  label : Label
  versionNumber : Nat
  deriving DecidableEq

def SecretLabelModel.key (m : SecretLabelModel) : Nat × Label := (m.secretID, m.label)

/-! ## KEK と CA -/

inductive KeyState where
  | active
  | retired
  deriving DecidableEq

structure KeyMetadataModel where
  id : String
  keyCheck : Bytes
  state : KeyState
  createdAt : Time
  deriving DecidableEq

structure CAKeyModel where
  id : String
  encryptedKey : Bytes
  encryptedDEK : Bytes
  kekID : String
  deriving DecidableEq

/-! ## configuration release -/

structure ConfigurationReleaseModel where
  id : Nat
  namespaceID : Nat
  name : String
  versionNumber : Nat
  schemaVersion : Nat
  digest : String
  metadataJSON : String
  createdBy : String
  createdAt : Time
  deriving DecidableEq

/-- `(namespace, name, version, schema)` の一意 index。 -/
structure ReleaseKey where
  namespaceID : Nat
  name : String
  versionNumber : Nat
  schemaVersion : Nat
  deriving DecidableEq

def ConfigurationReleaseModel.key (m : ConfigurationReleaseModel) : ReleaseKey :=
  ⟨m.namespaceID, m.name, m.versionNumber, m.schemaVersion⟩

/-- namespace incarnation の中の release 系列。 -/
structure TrackKey where
  namespaceID : Nat
  name : String
  schemaVersion : Nat
  deriving DecidableEq

def ConfigurationReleaseModel.trackKey (m : ConfigurationReleaseModel) : TrackKey :=
  ⟨m.namespaceID, m.name, m.schemaVersion⟩

def TrackKey.release (k : TrackKey) (version : Nat) : ReleaseKey :=
  ⟨k.namespaceID, k.name, version, k.schemaVersion⟩

structure ConfigurationReleaseCounterModel where
  track : TrackKey
  lastVersion : Nat
  deriving DecidableEq

structure ConfigurationReleaseEntryModel where
  releaseID : Nat
  entryAlias : String
  kind : ReleaseEntryKind
  resourceNamespaceID : Nat
  resourceNS : NamespaceRef
  resourceKey : String
  resourceVersion : Nat
  contentType : String
  metadataJSON : String
  parameterDigest : String
  deriving DecidableEq

def ConfigurationReleaseEntryModel.key (m : ConfigurationReleaseEntryModel) : Nat × String :=
  (m.releaseID, m.entryAlias)

structure ConfigurationReleaseLabelModel where
  track : TrackKey
  label : Label
  versionNumber : Nat
  activationRevision : Nat
  deriving DecidableEq

def ConfigurationReleaseLabelModel.key (m : ConfigurationReleaseLabelModel) : TrackKey × Label :=
  (m.track, m.label)

structure ConfigurationReleaseActivationModel where
  revision : Nat
  track : TrackKey
  versionNumber : Nat
  activatedAt : Time
  deriving DecidableEq

/-! ## release session -/

structure ReleaseSessionModel where
  sessionID : String
  track : TrackKey
  clientName : String
  instanceID : String
  identity : String
  pinVersion : Nat
  pinRevision : Nat
  pinnedBy : String
  pinnedAt : Time
  connected : Bool
  connectionID : String
  serverTimestamp : Time
  disconnectedAt : Option Time
  state : ReleaseState
  releaseVersion : Nat
  targetRevision : Nat
  activationRevision : Nat
  rejectionCategory : String
  appliedDivergent : Bool
  divergentFieldCount : Nat
  lastAppliedVersion : Nat
  lastAckSequence : Nat
  lastAppliedRevision : Nat
  lastAppliedSequence : Nat
  prunedAckSequence : Nat
  diagnostic : String
  clientTimestamp : Time
  deriving DecidableEq

structure ReleaseSessionEventModel where
  sessionID : String
  sequence : Nat
  fingerprint : String
  deriving DecidableEq

def ReleaseSessionEventModel.key (m : ReleaseSessionEventModel) : String × Nat :=
  (m.sessionID, m.sequence)

structure ReleaseTargetDeliveryModel where
  createdAt : Time
  sessionID : String
  revision : Nat
  version : Nat
  activationRevision : Nat
  deriving DecidableEq

def ReleaseTargetDeliveryModel.key (m : ReleaseTargetDeliveryModel) : String × Nat :=
  (m.sessionID, m.revision)

/-! ## change log -/

structure ChangeLogModel where
  revision : Nat
  schemaVersion : Nat
  resourceType : ResourceType
  namespaceID : Nat
  ref : Ref
  changeType : ChangeType
  value : Option String
  contentType : String
  versionNumber : Nat
  affectedVersions : List Nat
  label : Option Label
  createdAt : Time
  deriving DecidableEq

/-! ## store 全体 -/

/-- 一つの database。 -/
structure Store where
  namespaces : AutoTable NamespaceModel.id NamespaceModel.ref
  applications : Table ApplicationModel.name
  schemas : Table ConfigurationSchemaModel.key
  schemaFreeContracts : Table SchemaFreeContractModel.key
  identities : Table IdentityModel.name
  parameters : AutoTable ParameterModel.id ParameterModel.key
  parameterVersions : Table ParameterVersionModel.key
  parameterLabels : Table ParameterLabelModel.key
  secrets : AutoTable SecretModel.id SecretModel.key
  secretHighWater : Table SecretVersionHighWaterModel.key
  secretVersions : Table SecretVersionModel.key
  secretLabels : Table SecretLabelModel.key
  keyMetadata : Table KeyMetadataModel.id
  caKeys : Table CAKeyModel.id
  releases : AutoTable ConfigurationReleaseModel.id ConfigurationReleaseModel.key
  releaseCounters : Table ConfigurationReleaseCounterModel.track
  releaseEntries : Table ConfigurationReleaseEntryModel.key
  releaseLabels : Table ConfigurationReleaseLabelModel.key
  releaseActivations : Table ConfigurationReleaseActivationModel.revision
  sessions : Table ReleaseSessionModel.sessionID
  sessionEvents : Table ReleaseSessionEventModel.key
  targetDeliveries : Table ReleaseTargetDeliveryModel.key
  changeLog : Journal ChangeLogModel.revision
  auditEvents : List AuditEvent

/-- 作成直後の空の database。 -/
def Store.empty : Store where
  namespaces := .empty
  applications := .empty
  schemas := .empty
  schemaFreeContracts := .empty
  identities := .empty
  parameters := .empty
  parameterVersions := .empty
  parameterLabels := .empty
  secrets := .empty
  secretHighWater := .empty
  secretVersions := .empty
  secretLabels := .empty
  keyMetadata := .empty
  caKeys := .empty
  releases := .empty
  releaseCounters := .empty
  releaseEntries := .empty
  releaseLabels := .empty
  releaseActivations := .empty
  sessions := .empty
  sessionEvents := .empty
  targetDeliveries := .empty
  changeLog := .empty
  auditEvents := []

/-- 一つの要求の文脈。`incarnation` は context に結び付けた namespace の行、`now` は時計。 -/
structure Request where
  now : Time
  incarnation : NamespaceRef → Option Nat

def zeroOr (v default : String) : String := if v = "" then default else v

theorem zeroOr_ne_empty {v default : String} (h : default ≠ "") : zeroOr v default ≠ "" := by
  unfold zeroOr
  by_cases hv : v = ""
  · rw [if_pos hv]; exact h
  · rw [if_neg hv]; exact hv

/-! ## namespace の解決と change log -/

/-- `resolveNamespaceID`。文脈に結び付けた incarnation と違えば Aborted。 -/
def resolveNamespaceID (rq : Request) (s : Store) (ns : NamespaceRef) : Except Err Nat :=
  match rq.incarnation ns with
  | some expectedID =>
    match s.namespaces.get ns with
    | some m =>
      if m.id = expectedID then .ok m.id
      else .error (.aborted s!"namespace {ns} changed during request; retry")
    | none => .error (.aborted s!"namespace {ns} changed during request; retry")
  | none =>
    match s.namespaces.get ns with
    | some m => .ok m.id
    | none => .error (.notFound s!"namespace {ns}")

theorem resolveNamespaceID_ok {rq : Request} {s : Store} {ns : NamespaceRef} {id : Nat}
    (h : resolveNamespaceID rq s ns = .ok id) :
    ∃ m, s.namespaces.get ns = some m ∧ m.id = id := by
  unfold resolveNamespaceID at h
  cases hi : rq.incarnation ns with
  | none =>
    cases hg : s.namespaces.get ns with
    | none => simp [hi, hg] at h
    | some m => exact ⟨m, rfl, by simpa [hi, hg] using h⟩
  | some e =>
    cases hg : s.namespaces.get ns with
    | none => simp [hi, hg] at h
    | some m =>
      by_cases he : m.id = e
      · exact ⟨m, rfl, by simpa [hi, hg, he] using h⟩
      · simp [hi, hg, he] at h

theorem resolveNamespaceID_error {rq : Request} {s : Store} {ns : NamespaceRef} {e : Err}
    (h : resolveNamespaceID rq s ns = .error e) :
    (∃ msg, e = .aborted msg) ∨ ∃ msg, e = .notFound msg := by
  unfold resolveNamespaceID at h
  split at h
  · split at h
    · split at h
      · cases h
      · cases h
        exact Or.inl ⟨_, rfl⟩
    · cases h
      exact Or.inl ⟨_, rfl⟩
  · split at h
    · cases h
    · cases h
      exact Or.inr ⟨_, rfl⟩

/-- 採番前の change log の行。 -/
structure ChangeEntry where
  schemaVersion : Nat := 0
  resourceType : ResourceType
  ref : Ref
  changeType : ChangeType
  value : Option String := none
  contentType : String := ""
  versionNumber : Nat := 0
  affectedVersions : List Nat := []
  label : Option Label := none

/-- 採番した revision で行を作る。 -/
def ChangeEntry.row (c : ChangeEntry) (namespaceID : Nat) (now : Time) (revision : Nat) :
    ChangeLogModel :=
  { revision, schemaVersion := c.schemaVersion, resourceType := c.resourceType, namespaceID,
    ref := c.ref, changeType := c.changeType, value := c.value, contentType := c.contentType,
    versionNumber := c.versionNumber, affectedVersions := c.affectedVersions, label := c.label,
    createdAt := now }

def logChange (j : Journal ChangeLogModel.revision) (c : ChangeEntry) (namespaceID : Nat)
    (now : Time) : Journal ChangeLogModel.revision :=
  j.append (c.row namespaceID now) (fun _ => rfl)

@[simp] theorem seq_logChange (j : Journal ChangeLogModel.revision) (c : ChangeEntry)
    (namespaceID : Nat) (now : Time) : (logChange j c namespaceID now).seq = j.seq + 1 := rfl

theorem mem_logChange {j : Journal ChangeLogModel.revision} {c : ChangeEntry} {namespaceID : Nat}
    {now : Time} {m : ChangeLogModel} :
    m ∈ logChange j c namespaceID now ↔ m ∈ j ∨ m = c.row namespaceID now (j.seq + 1) :=
  Journal.mem_append

/-- `appendChange`。割り当てた revision と新しい store を返す。 -/
def appendChange (rq : Request) (s : Store) (namespaceID : Nat) (c : ChangeEntry) : Nat × Store :=
  (s.changeLog.seq + 1, { s with changeLog := logChange s.changeLog c namespaceID rq.now })

end Kms.Storage
