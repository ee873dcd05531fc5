import Kms.Storage.Parameters

/-!
# 既定値の一括適用

`internal/storage/defaults.go` の `ApplyDefaults` を写す。preview の時に読んだ事実を
`DefaultsApplyTransaction` に持たせ、一つの transaction の中で確かめ直してから、変わった parameter を
全て書く。

* `verifyDefaultsApplication` — application・namespace・schema・contract
* `verifyDefaultsResolution` — 全 environment の release の状態と、資源の名前の一覧
* `verifyDefaultsParameters` — 書こうとする parameter の今の version・digest・content type
-/

namespace Kms.Storage

open Kms.Infra

/-! ## transaction の入力 -/

/-- 一つの environment の、preview の時の release の状態。 -/
structure DefaultsResolutionState where
  schemaVersion : Nat
  environment : String
  namespaceID : Nat
  activeVersion : Nat
  activationRevision : Nat
  latestVersion : Nat
  deriving DecidableEq

/-- 資源の名前。値は含まない。 -/
structure DefaultsResourceIdentity where
  environment : String
  kind : ReleaseEntryKind
  key : String
  deriving DecidableEq

/-- 一つの parameter の、preview の時の状態と書く値。`expectedVersion = 0` は存在しないこと。 -/
structure DefaultsParameterExpectation where
  fieldAlias : String
  key : String
  value : String
  contentType : String
  expectedVersion : Nat
  expectedDigest : String
  expectedContentType : String
  write : Bool
  deriving DecidableEq

structure DefaultsApplyTransaction where
  expectedApplicationSchemaVersion : Nat
  expectedApplicationContract : List ApplicationContractField
  expectedApplicationUpdatedAt : Time
  ns : NamespaceRef
  namespaceID : Nat
  releaseName : String
  schemaVersion : Nat
  schemaDigest : String
  contract : List ApplicationContractField
  updateDefinition : Bool
  desiredSchemaVersion : Nat
  desiredContract : List ApplicationContractField
  resolutionState : List DefaultsResolutionState
  resources : List DefaultsResourceIdentity
  parameters : List DefaultsParameterExpectation
  createdBy : String
  deriving DecidableEq

structure DefaultsAppliedWrite where
  fieldAlias : String
  version : Nat
  revision : Nat
  deriving DecidableEq

def defaultsStale : Err := .aborted "defaults plan is stale; preview again"

/-! ## application と schema の検査 -/

/-- 定義を書き換える前に、preview の時の定義のままであることを確かめる。 -/
def verifyDefinition (app : ApplicationModel) (input : DefaultsApplyTransaction) :
    Except Err Unit :=
  if input.updateDefinition then do
    let expectedContract ← canonicalSchemaContract input.expectedApplicationContract
    require (app.schemaVersion = input.expectedApplicationSchemaVersion ∧
      app.contract = expectedContract ∧
      app.updatedAt = input.expectedApplicationUpdatedAt) defaultsStale
  else pure ()

/-- 選んだ schema の digest が artifact のものと同じであることを確かめる。 -/
def verifySchemaDigest (s : Store) (input : DefaultsApplyTransaction) : Except Err Unit := do
  let schemaVersion :=
    if input.updateDefinition then input.desiredSchemaVersion else input.schemaVersion
  require (schemaVersion ≠ 0 ∨ input.schemaDigest = "")
    (.failedPrecondition "schema-free defaults must not claim a registered schema digest")
  if schemaVersion ≠ 0 then
    let schema ← orThrow (s.schemas.get (input.ns.app, input.releaseName, schemaVersion))
      defaultsStale
    require (schema.digest = input.schemaDigest) defaultsStale
  else pure ()

/-- 定義を書き換えない適用は、ここで contract を採用する。 -/
def adoptDefaultsContract (s : Store) (input : DefaultsApplyTransaction)
    (contract : List ApplicationContractField) : Except Err Store :=
  if input.updateDefinition then pure s
  else do
    let (adopted, s) ← adoptSchemaContractTx s input.ns.app input.releaseName input.schemaVersion
      input.contract
    let actual ← canonicalSchemaContract (adopted.getD [])
    require (actual = contract) defaultsStale
    pure s

def verifyDefaultsApplication (s : Store) (input : DefaultsApplyTransaction) :
    Except Err Store := do
  let app ← orThrow (s.applications.get input.ns.app) defaultsStale
  let contract ← canonicalSchemaContract input.contract
  require (app.releaseName = input.releaseName ∧ app.archivedAt = none) defaultsStale
  verifyDefinition app input
  require ((s.namespaces.get input.ns).map (·.id) = some input.namespaceID) defaultsStale
  verifySchemaDigest s input
  adoptDefaultsContract s input contract

/-! ## release と資源の検査 -/

/-- application の environment。env 順。 -/
def applicationNamespaces (s : Store) (app : String) : List NamespaceModel :=
  (s.namespaces.table.rows.filter (fun m => decide (m.ref.app = app))).insertionSort
    (fun a b => a.ref.env ≤ b.ref.env)

/-- 一つの environment の release の状態が preview の時のままであること。 -/
def verifyResolution (s : Store) (releaseName : String) (expected : DefaultsResolutionState) :
    Except Err Unit := do
  let k : TrackKey := ⟨expected.namespaceID, releaseName, expected.schemaVersion⟩
  require (latestVersion s k = expected.latestVersion) defaultsStale
  let active := s.releaseLabels.get (k, .current)
  require ((active.map (·.versionNumber)).getD 0 = expected.activeVersion ∧
    (active.map (·.activationRevision)).getD 0 = expected.activationRevision) defaultsStale

/-- 資源の種類の文字列。SQL の整列に使う。 -/
def kindText : ReleaseEntryKind → String
  | .parameter => "parameter"
  | .secret => "secret"
  | .other text => text

/-- environment・種類・key の順。 -/
def DefaultsResourceIdentity.le (a b : DefaultsResourceIdentity) : Prop :=
  a.environment < b.environment ∨ a.environment = b.environment ∧
    (kindText a.kind < kindText b.kind ∨ kindText a.kind = kindText b.kind ∧ a.key ≤ b.key)

instance : DecidableRel DefaultsResourceIdentity.le := fun a b => by
  unfold DefaultsResourceIdentity.le
  infer_instance

/-- 一つの environment にある資源の名前。 -/
def namespaceResources (s : Store) (n : NamespaceModel) : List DefaultsResourceIdentity :=
  (s.parameters.table.rows.filter (fun p => decide (p.namespaceID = n.id))).map
      (fun p => ⟨n.ref.env, .parameter, p.name⟩) ++
    (s.secrets.table.rows.filter (fun p => decide (p.namespaceID = n.id))).map
      (fun p => ⟨n.ref.env, .secret, p.name⟩)

/-- application の全 environment にある資源の名前。 -/
def applicationResources (s : Store) (app : String) : List DefaultsResourceIdentity :=
  ((s.namespaces.table.rows.filter (fun m => decide (m.ref.app = app))).flatMap
    (namespaceResources s)).insertionSort DefaultsResourceIdentity.le

def verifyDefaultsResolution (s : Store) (input : DefaultsApplyTransaction) :
    Except Err Unit := do
  require ((applicationNamespaces s input.ns.app).map (fun n => (n.id, n.ref.env)) =
    input.resolutionState.map (fun r => (r.namespaceID, r.environment))) defaultsStale
  input.resolutionState.forM (verifyResolution s input.releaseName)
  require (applicationResources s input.ns.app = input.resources) defaultsStale

/-! ## parameter の検査 -/

/-- parameter の current の version。 -/
def currentParameterVersion (s : Store) (nsID : Nat) (key : String) :
    Option ParameterVersionModel :=
  (s.parameters.get (nsID, key)).bind (fun p =>
    (s.parameterLabels.get (p.id, .current)).bind (fun l =>
      s.parameterVersions.get (p.id, l.versionNumber)))

section Apply

variable [Hashing]

/-- 一つの parameter が preview の時のままであること。 -/
def verifyParameter (s : Store) (nsID : Nat) (expected : DefaultsParameterExpectation) :
    Except Err Unit := do
  let row := currentParameterVersion s nsID expected.key
  let version : Nat := (row.map (·.versionNumber)).getD 0
  if expected.expectedVersion = 0 then
    require (version = 0) defaultsStale
  else
    require (version = expected.expectedVersion ∧
      (row.map (·.contentType)).getD "" = expected.expectedContentType) defaultsStale
    require (Hashing.sha256Hex ((row.map (·.value)).getD "") = expected.expectedDigest)
      defaultsStale

def verifyDefaultsParameters (s : Store) (input : DefaultsApplyTransaction) : Except Err Unit :=
  input.parameters.forM (verifyParameter s input.namespaceID)

/-! ## 適用 -/

/-- 定義を書き換える適用は、検査の後で contract を採用し、application の行を書き換える。 -/
def updateDefinition (rq : Request) (s : Store) (input : DefaultsApplyTransaction) :
    Except Err Store :=
  if input.updateDefinition then do
    let (_, s) ← adoptSchemaContractTx s input.ns.app input.releaseName
      input.desiredSchemaVersion input.desiredContract
    let contract ← canonicalSchemaContract input.desiredContract
    pure (touchApplication s input.ns.app (fun m => { m with
      schemaVersion := input.desiredSchemaVersion
      contract
      updatedAt := rq.now }))
  else pure s

/-- 書くべき parameter を順に書く。 -/
def writeDefaults (rq : Request) (ns : NamespaceRef) (createdBy : String) :
    Store → List DefaultsParameterExpectation → Except Err (List DefaultsAppliedWrite × Store)
  | s, [] => pure ([], s)
  | s, p :: ps =>
    if p.write then do
      let ((version, revision), s) ← putParameter rq s ⟨ns, p.key⟩ p.value p.contentType
        "\x7b\x7d" createdBy false false
      let (writes, s) ← writeDefaults rq ns createdBy s ps
      pure (⟨p.fieldAlias, version, revision⟩ :: writes, s)
    else writeDefaults rq ns createdBy s ps

def applyDefaults (rq : Request) (s : Store) (input : DefaultsApplyTransaction) :
    Except Err (List DefaultsAppliedWrite × Store) := do
  let s ← verifyDefaultsApplication s input
  verifyDefaultsResolution s input
  verifyDefaultsParameters s input
  let s ← updateDefinition rq s input
  writeDefaults rq input.ns input.createdBy s input.parameters

end Apply

end Kms.Storage
