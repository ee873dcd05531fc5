import Kms.Storage.Parameters

/-!
# schema の系列をまたぐ移行

`internal/storage/migrations.go` を写す。移行の計画が依存する行を `MigrationFacts` に集め、
その hash を snapshot とする。適用は snapshot を取り直して比べ、parameter・release・activation・監査を
一つの transaction で書く。

secret の暗号文は読まない。
-/

namespace Kms.Storage

open Kms.Infra

/-! ## snapshot -/

/-- 移行後の release が指す資源。`write` は parameter を書き足すこと。 -/
structure MigrationResource where
  kind : ReleaseEntryKind
  key : String
  version : Nat
  write : Bool
  deriving DecidableEq

/-- 一つの系列の schema・contract・label・counter の行。 -/
structure TrackFacts where
  schema : Option ConfigurationSchemaModel
  schemaFreeContract : Option SchemaFreeContractModel
  labels : List ConfigurationReleaseLabelModel
  counter : Option ConfigurationReleaseCounterModel
  deriving DecidableEq

/-- 定義と environment の行。資源を読む前に取る。 -/
structure BaseFacts where
  application : Option ApplicationModel
  ns : Option NamespaceModel
  source : TrackFacts
  target : TrackFacts
  deriving DecidableEq

/-- secret version のうち、暗号文と鍵に関わらない列。 -/
structure SecretVersionFacts where
  versionNumber : Nat
  contentType : String
  bound : Bool
  wrapMode : WrapMode
  state : VersionState
  destroyedAt : Option Time
  expiresAt : Option Time
  metadataJSON : String
  deriving DecidableEq

/-- secret の行と、指す version。 -/
structure SecretFacts where
  secretID : Nat
  namespaceID : Nat
  name : String
  version : Option SecretVersionFacts
  deriving DecidableEq

/-- 一つの資源の行。書き足す parameter だけ、行全体と label も読む。 -/
inductive ResourceFacts where
  | parameter (row : Option ParameterModel) (version : Option ParameterVersionModel)
  | written (row : Option ParameterModel) (version : Option ParameterVersionModel)
      (labels : List ParameterLabelModel) (next : Nat)
  | secret (row : Option SecretFacts)
  deriving DecidableEq

/-- 移行の計画が依存する行の全て。 -/
structure MigrationFacts where
  base : BaseFacts
  resources : List ResourceFacts
  deriving DecidableEq

/-- snapshot の hash。行を JSON にして sha256 を取る。 -/
class SnapshotHashing where
  base : BaseFacts → String
  facts : MigrationFacts → String

/-- 系列の label。`current` が先に並ぶ。 -/
def trackLabels (s : Store) (k : TrackKey) : List ConfigurationReleaseLabelModel :=
  (s.releaseLabels.get (k, .current)).toList ++ (s.releaseLabels.get (k, .previous)).toList

def trackFacts (s : Store) (ns : Option NamespaceModel) (track : ReleaseTrack) : TrackFacts where
  schema := s.schemas.get (track.ns.app, track.name, track.schemaVersion)
  schemaFreeContract :=
    if track.schemaVersion = 0 then s.schemaFreeContracts.get (track.ns.app, track.name) else none
  labels := ns.elim [] (fun n => trackLabels s ⟨n.id, track.name, track.schemaVersion⟩)
  counter := ns.bind (fun n => s.releaseCounters.get ⟨n.id, track.name, track.schemaVersion⟩)

def baseFacts (s : Store) (sourceTrack targetTrack : ReleaseTrack) : BaseFacts :=
  let ns := s.namespaces.get sourceTrack.ns
  { application := s.applications.get sourceTrack.ns.app
    ns
    source := trackFacts s ns sourceTrack
    target := trackFacts s ns targetTrack }

def nextParameterVersion (s : Store) (p : Option ParameterModel) : Nat :=
  p.elim 0 (fun p => maxParameterVersion s p.id) + 1

/-- 書き足さない parameter は、行の id と名前だけを読む。 -/
def ParameterModel.identity (p : ParameterModel) : ParameterModel :=
  { p with contentType := "", metadataJSON := "" }

def SecretVersionModel.facts (v : SecretVersionModel) : SecretVersionFacts where
  versionNumber := v.versionNumber
  contentType := v.contentType
  bound := v.bound
  wrapMode := v.wrapMode
  state := v.state
  destroyedAt := v.destroyedAt
  expiresAt := v.expiresAt
  metadataJSON := v.metadataJSON

def secretFacts (s : Store) (sec : SecretModel) (version : Nat) : SecretFacts where
  secretID := sec.id
  namespaceID := sec.namespaceID
  name := sec.name
  version := (s.secretVersions.get (sec.id, version)).map (·.facts)

def resourceFacts (s : Store) (ns : Option NamespaceModel) (r : MigrationResource) :
    ResourceFacts :=
  match r.kind with
  | .parameter =>
    let row := ns.bind (fun n => s.parameters.get (n.id, r.key))
    let version :=
      if 0 < r.version then row.bind (fun p => s.parameterVersions.get (p.id, r.version)) else none
    if r.write then
      .written row version
        (row.elim [] (fun p => (s.parameterLabels.get (p.id, .current)).toList ++
          (s.parameterLabels.get (p.id, .previous)).toList))
        (nextParameterVersion s row)
    else .parameter (row.map (·.identity)) version
  | _ =>
    .secret ((ns.bind (fun n => s.secrets.get (n.id, r.key))).map
      (fun sec => secretFacts s sec r.version))

def migrationFacts (s : Store) (sourceTrack targetTrack : ReleaseTrack)
    (resources : List MigrationResource) : MigrationFacts where
  base := baseFacts s sourceTrack targetTrack
  resources := resources.map (resourceFacts s (s.namespaces.get sourceTrack.ns))

/-- 書き足す key ごとの次の version。 -/
def parameterNext (s : Store) (ns : NamespaceRef) (resources : List MigrationResource)
    (key : String) : Nat :=
  if resources.any (fun r => decide (r.kind = .parameter) && r.write && decide (r.key = key)) then
    nextParameterVersion s ((s.namespaces.get ns).bind (fun n => s.parameters.get (n.id, key)))
  else 0

structure MigrationSnapshot where
  digest : String
  baseDigest : String
  parameterNext : String → Nat

section Write

variable [Hashing] [SnapshotHashing]

def migrationSnapshot (s : Store) (sourceTrack targetTrack : ReleaseTrack)
    (resources : List MigrationResource) : Except Err MigrationSnapshot := do
  require (targetTrack.ns = sourceTrack.ns ∧ targetTrack.name = sourceTrack.name)
    (.invalidArgument "invalid argument")
  pure
    { digest := SnapshotHashing.facts (migrationFacts s sourceTrack targetTrack resources)
      baseDigest := SnapshotHashing.base (baseFacts s sourceTrack targetTrack)
      parameterNext := parameterNext s sourceTrack.ns resources }

/-! ## 適用 -/

structure MigrationParameterWrite where
  fieldAlias : String
  key : String
  value : String
  contentType : String
  version : Nat
  deriving DecidableEq

structure ApplicationMigrationTransaction where
  sourceSchemaVersion : Nat
  expectedSourceVersion : Nat
  expectedSourceActivationRevision : Nat
  resources : List MigrationResource
  ns : NamespaceRef
  snapshot : String
  contract : List ApplicationContractField
  release : ConfigurationRelease
  writes : List MigrationParameterWrite
  expectedActiveVersion : Nat
  audit : AuditEvent
  resourceAudits : List AuditEvent

def ApplicationMigrationTransaction.sourceTrack (input : ApplicationMigrationTransaction) :
    ReleaseTrack :=
  ⟨input.ns, input.release.name, input.sourceSchemaVersion⟩

/-- 計画した version 番号で parameter を順に書き足す。 -/
def writeMigrated (rq : Request) (ns : NamespaceRef) (createdBy : String) :
    Store → List MigrationParameterWrite → Except Err Store
  | s, [] => pure s
  | s, w :: ws => do
    let ((version, _), s) ← putParameter rq s ⟨ns, w.key⟩ w.value w.contentType "\x7b\x7d"
      createdBy false false
    require (version = w.version) applicationReleaseStale
    writeMigrated rq ns createdBy s ws

def setMetadata (metadata : List (String × String)) (key value : String) :
    List (String × String) :=
  metadata.filter (fun p => decide (p.1 ≠ key)) ++ [(key, value)]

/-- transaction の中で決まった activation を監査の metadata に足す。 -/
def activationMetadata (schemaVersion : Nat) (active : ActiveConfigurationRelease)
    (event : AuditEvent) : AuditEvent :=
  let metadata := setMetadata event.metadata "schema_version" (toString schemaVersion)
  if event.eventType = "configuration_release.activate" ∨
      event.eventType = "application.release.migrate" then
    let metadata :=
      setMetadata metadata "activation_revision" (toString active.activationRevision)
    { event with
      metadata := setMetadata metadata "previous_version" (toString active.previousVersion) }
  else { event with metadata }

/-- 資源ごとの監査。release の監査には、作った version と activation を入れる。 -/
def resourceAudit (version schemaVersion : Nat) (active : ActiveConfigurationRelease)
    (event : AuditEvent) : AuditEvent :=
  if event.resourceType = "configuration_release" then
    activationMetadata schemaVersion active { event with resourceVersion := version }
  else event

/-- 移行が書く監査の列。 -/
def migrationAudits (input : ApplicationMigrationTransaction) (release : ConfigurationRelease)
    (active : ActiveConfigurationRelease) : List AuditEvent :=
  input.resourceAudits.map (resourceAudit release.version release.schemaVersion active) ++
    [activationMetadata release.schemaVersion active
      { input.audit with resourceVersion := release.version }]

/-- 移行元の系列が計画の時の activation のままであること。 -/
def verifyMigrationSource (s : Store) (nsID : Nat) (input : ApplicationMigrationTransaction) :
    Except Err Unit :=
  let source := s.releaseLabels.get
    (⟨nsID, input.release.name, input.sourceSchemaVersion⟩, .current)
  require ((source.map (·.versionNumber)).getD 0 = input.expectedSourceVersion ∧
    (source.map (·.activationRevision)).getD 0 = input.expectedSourceActivationRevision)
    applicationReleaseStale

def applyApplicationMigration (rq : Request) (s : Store)
    (input : ApplicationMigrationTransaction) :
    Except Err (ActiveConfigurationRelease × Store) := do
  let state ← migrationSnapshot s input.sourceTrack input.release.track input.resources
  require (state.digest = input.snapshot) applicationReleaseStale
  let nsID ← resolveNamespaceID rq s input.ns
  verifyMigrationSource s nsID input
  let (_, s) ← adoptSchemaContractTx s input.ns.app input.release.name
    input.release.schemaVersion input.contract
  let s ← writeMigrated rq input.ns input.release.createdBy s input.writes
  let ((release, _), s) ← createConfigurationRelease rq s input.release ⟨false, none⟩
  let ((active, _), s) ← activateConfigurationRelease rq s release.track release.version
    (some input.expectedActiveVersion)
  pure (active, { s with auditEvents := s.auditEvents ++ migrationAudits input release active })

end Write

end Kms.Storage
