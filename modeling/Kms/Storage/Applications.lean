import Mathlib.Data.List.Sort
import Kms.Storage.Model

/-!
# application・schema・namespace の管理

release の作成を門番する表（application、schema、contract、identity）と、
namespace incarnation の作成・削除を写す。

* `adoptSchemaContractTx` — contract は一度だけ採用され、以後は不変
* `deleteNamespaceTx` — 生きた資源が無い namespace だけを、release と session の履歴ごと消す
-/

namespace Kms.Storage

open Kms.Infra

/-! ## schema contract -/

/-- contract の field の検査。`prev` は整列後の直前の alias。 -/
def validContractFields : Option String → List ApplicationContractField → Bool
  | _, [] => true
  | prev, f :: fs =>
    decide (f.fieldAlias ≠ "") && decide (prev ≠ some f.fieldAlias) &&
      (match f.kind with
        | .parameter => true
        | .secret => decide (f.contentType = "")
        | .other _ => false) &&
      validContractFields (some f.fieldAlias) fs

/-- alias 順に並べ、検査した contract。 -/
def canonicalSchemaContract (fields : List ApplicationContractField) :
    Except Err (List ApplicationContractField) := do
  let sorted := fields.insertionSort (fun a b => a.fieldAlias ≤ b.fieldAlias)
  require (validContractFields none sorted = true)
    (.invalidArgument "invalid schema contract field")
  pure sorted

/-- contract の field の alias 順。 -/
instance fieldAlias_total :
    Std.Total (fun a b : ApplicationContractField => a.fieldAlias ≤ b.fieldAlias) :=
  ⟨fun a b => String.le_total a.fieldAlias b.fieldAlias⟩

instance fieldAlias_trans :
    IsTrans ApplicationContractField (fun a b => a.fieldAlias ≤ b.fieldAlias) :=
  ⟨fun _ _ _ => String.le_trans⟩

variable {fields c : List ApplicationContractField} {s s' : Store}

theorem canonicalSchemaContract_ok_iff :
    canonicalSchemaContract fields = .ok c ↔
      c = fields.insertionSort (fun a b => a.fieldAlias ≤ b.fieldAlias) ∧
      validContractFields none c = true := by
  simp only [canonicalSchemaContract, bind_eq_ok_iff, require_eq_ok_iff, pure_eq_ok_iff]
  constructor
  · rintro ⟨_, hv, rfl⟩
    exact ⟨rfl, hv⟩
  · rintro ⟨rfl, hv⟩
    exact ⟨⟨⟩, hv, rfl⟩

theorem canonicalSchemaContract_canonical
    (h : canonicalSchemaContract fields = .ok c) : canonicalSchemaContract c = .ok c := by
  rw [canonicalSchemaContract_ok_iff] at h ⊢
  refine ⟨?_, h.2⟩
  rw [h.1]
  exact (List.Pairwise.insertionSort_eq (List.pairwise_insertionSort _ fields)).symm

def adoptSchemaContractTx (s : Store) (application releaseName : String) (version : Nat)
    (fields : List ApplicationContractField) :
    Except Err (Option (List ApplicationContractField) × Store) := do
  let canonical ← canonicalSchemaContract fields
  let app ← orThrow (s.applications.get application) (.notFound "not found")
  require (app.archivedAt = none ∧ app.releaseName = releaseName)
    (.failedPrecondition "failed precondition")
  if version = 0 then
    let row : SchemaFreeContractModel :=
      { applicationName := application, releaseName, contract := canonical }
    let contracts := s.schemaFreeContracts.insertIgnore row
    let stored ← orThrow (contracts.get (application, releaseName)) (.notFound "not found")
    require (stored.contract = canonical) (.failedPrecondition "schema contract is immutable")
    pure (some canonical, { s with schemaFreeContracts := contracts })
  else
    let row ← orThrow (s.schemas.get (application, releaseName, version)) (.notFound "not found")
    require (row.contract = none ∨ row.contract = some canonical)
      (.failedPrecondition "schema contract is immutable")
    let schemas := s.schemas.updateWhere
      (fun m => decide (m.key = (application, releaseName, version)) && decide (m.contract = none))
      (fun m => { m with contract := some canonical })
    pure (some canonical, { s with schemas })

theorem adoptSchemaContractTx_frame {application releaseName : String} {version : Nat}
    {out : Option (List ApplicationContractField)}
    (h : adoptSchemaContractTx s application releaseName version fields = .ok (out, s')) :
    ∃ schemas contracts, s' = { s with schemas := schemas, schemaFreeContracts := contracts } := by
  unfold adoptSchemaContractTx at h
  by_cases hv : version = 0
  · simp only [hv, if_true, bind_eq_ok_iff, pure_eq_ok_iff] at h
    obtain ⟨_, _, _, _, _, _, _, _, _, _, heq⟩ := h
    cases heq
    exact ⟨_, _, rfl⟩
  · simp only [hv, if_false, bind_eq_ok_iff, pure_eq_ok_iff] at h
    obtain ⟨_, _, _, _, _, _, _, _, _, _, heq⟩ := h
    cases heq
    exact ⟨_, _, rfl⟩

theorem adoptSchemaContractTx_canonical {application releaseName : String} {version : Nat}
    (h : canonicalSchemaContract fields = .ok c) :
    adoptSchemaContractTx s application releaseName version c =
      adoptSchemaContractTx s application releaseName version fields := by
  unfold adoptSchemaContractTx
  rw [h, canonicalSchemaContract_canonical h]

/-- `GetConfigurationSchemaContract`。`none` は未採用。 -/
def getConfigurationSchemaContract (s : Store) (application releaseName : String) (version : Nat) :
    Except Err (Option (List ApplicationContractField)) :=
  if version ≠ 0 then do
    let row ← orThrow (s.schemas.get (application, releaseName, version))
      (.notFound s!"configuration schema {application}/{releaseName} version {version}")
    pure row.contract
  else do
    let app ← orThrow (s.applications.get application) (.notFound "not found")
    require (app.releaseName = releaseName) (.notFound "not found")
    pure ((s.schemaFreeContracts.get (application, releaseName)).map (·.contract))

/-! ## application -/

def toApplication (m : ApplicationModel) : Application where
  name := m.name
  description := m.description
  releaseName := m.releaseName
  schemaVersion := m.schemaVersion
  contract := some m.contract
  createdAt := m.createdAt
  updatedAt := m.updatedAt
  archivedAt := m.archivedAt

/-- `applicationModelFromDomain`。時刻が無ければ今を使う。 -/
def applicationModelFromDomain (rq : Request) (app : Application) : ApplicationModel :=
  let created := if app.createdAt = 0 then rq.now else app.createdAt
  { name := app.name, description := app.description, releaseName := app.releaseName
    schemaVersion := app.schemaVersion, contract := app.contract.getD []
    createdAt := created, updatedAt := if app.updatedAt = 0 then created else app.updatedAt
    archivedAt := app.archivedAt }

/-- 渡された contract を、その定義の系列に採用する。 -/
def adoptGivenContract (s : Store) (app : Application) : Except Err Store :=
  match app.contract with
  | some fields => do
    let (_, s) ← adoptSchemaContractTx s app.name app.releaseName app.schemaVersion fields
    pure s
  | none => pure s

/-- `CreateApplication`。contract を渡せば同じ transaction で採用する。 -/
def createApplication (rq : Request) (s : Store) (app : Application) :
    Except Err (Unit × Store) := do
  let applications ← orThrow (s.applications.insert? (applicationModelFromDomain rq app))
    (.alreadyExists s!"application {app.name}")
  let s ← adoptGivenContract { s with applications } app
  pure ((), s)

/-- core が観測した application の定義。 -/
structure ApplicationDefinitionExpectation where
  name : String
  releaseName : String
  schemaVersion : Nat
  updatedAt : Time
  createdAt : Time

/-- `verifyApplicationDefinitionExpectation`。期待が無ければ通す。 -/
def verifyApplicationDefinitionExpectation (s : Store) (name : String) :
    Option ApplicationDefinitionExpectation → Except Err Unit
  | none => pure ()
  | some expected => do
    let changed := Err.aborted "application definition changed; reload and retry"
    let app ← orThrow (s.applications.get name) changed
    require (expected.name = name ∧ expected.releaseName = app.releaseName ∧
      expected.schemaVersion = app.schemaVersion ∧ expected.updatedAt = app.updatedAt ∧
      expected.createdAt = app.createdAt ∧ app.archivedAt = none) changed

def touchApplication (s : Store) (name : String) (f : ApplicationModel → ApplicationModel) :
    Store :=
  { s with applications := s.applications.updateWhere (fun m => decide (m.name = name)) f }

def updateApplication (rq : Request) (s : Store) (app : Application)
    (expected : Option ApplicationDefinitionExpectation) : Except Err (Unit × Store) := do
  verifyApplicationDefinitionExpectation s app.name expected
  let s ← adoptGivenContract s app
  let row ← orThrow (s.applications.get app.name) (.notFound s!"application {app.name}")
  require (row.releaseName = app.releaseName ∧ row.archivedAt = none)
    (.notFound s!"application {app.name}")
  pure ((), touchApplication s app.name (fun m => { m with
    description := app.description
    schemaVersion := app.schemaVersion
    contract := app.contract.getD []
    updatedAt := rq.now }))

/-- `AdoptApplicationContract`。application が今選んでいる系列に採用する。 -/
def adoptApplicationContract (rq : Request) (s : Store) (name : String)
    (fields : List ApplicationContractField) : Except Err (Unit × Store) := do
  let app ← orThrow (s.applications.get name) (.notFound "not found")
  let (adopted, s) ← adoptSchemaContractTx s name app.releaseName app.schemaVersion fields
  let contract ← canonicalSchemaContract (adopted.getD [])
  pure ((), touchApplication s name (fun m => { m with contract, updatedAt := rq.now }))

def archiveApplication (rq : Request) (s : Store) (name : String) : Except Err (Unit × Store) := do
  let app ← orThrow (s.applications.get name) (.notFound s!"application {name}")
  if app.archivedAt.isSome then
    pure ((), s)
  else
    require (s.namespaces.table.rows.all (fun m => decide (m.ref.app ≠ name)) = true)
      (.failedPrecondition s!"application {name} still has environments")
    let applications := s.applications.updateWhere
      (fun m => decide (m.name = name) && decide (m.archivedAt = none))
      (fun m => { m with archivedAt := some rq.now, updatedAt := rq.now })
    pure ((), { s with applications })

def unarchiveApplication (rq : Request) (s : Store) (name : String) :
    Except Err (Unit × Store) := do
  let _ ← orThrow (s.applications.get name) (.notFound s!"application {name}")
  pure ((), touchApplication s name (fun m => { m with archivedAt := none, updatedAt := rq.now }))

/--
`deleteApplicationTx`。environment も schema も残っていない application だけを消す。
schema 無しの系列の contract は、外部 key の CASCADE で消える。
-/
def deleteApplicationTx (s : Store) (name : String) : Except Err (Unit × Store) := do
  let _ ← orThrow (s.applications.get name) (.notFound s!"application {name}")
  let count := (s.namespaces.table.rows.filter (fun m => decide (m.ref.app = name))).length
  require (count = 0) (.failedPrecondition s!"application {name} still has {count} environments")
  require (s.schemas.rows.all (fun m => decide (m.applicationName ≠ name)) = true)
    (.failedPrecondition s!"application {name} has schema history; archive it instead")
  pure ((), { s with
    applications := s.applications.deleteWhere (fun m => decide (m.name = name))
    schemaFreeContracts :=
      s.schemaFreeContracts.deleteWhere (fun m => decide (m.applicationName = name)) })

/-! ## schema -/

def schemaFromModel (m : ConfigurationSchemaModel) : ConfigurationSchema where
  application := m.applicationName
  releaseName := m.releaseName
  version := m.versionNumber
  schema := m.schemaJSON
  digest := m.digest
  contract := m.contract

/--
`createConfigurationSchemaTx`。`annotated` は `schemaAnnotationContract` が schema 本文の
`x-kms-contract` から読んだ contract。
-/
def createConfigurationSchemaTx (s : Store) (schema : ConfigurationSchema)
    (annotated : Option (List ApplicationContractField)) :
    Except Err (ConfigurationSchema × Store) := do
  let app ← orThrow (s.applications.get schema.application)
    (.notFound s!"application {schema.application}")
  require (app.archivedAt = none)
    (.failedPrecondition s!"application {schema.application} is archived")
  require (schema.releaseName = app.releaseName) (.failedPrecondition
    s!"application {schema.application} owns schemas under release {app.releaseName}")
  let fromSchema ← annotated.mapM canonicalSchemaContract
  let supplied ← schema.contract.mapM canonicalSchemaContract
  require (fromSchema = none ∨ supplied = none ∨ fromSchema = supplied)
    (.failedPrecondition "failed precondition")
  let rows := s.schemas.rows.filter (fun m =>
    decide (m.applicationName = schema.application ∧ m.releaseName = schema.releaseName))
  let duplicate := Err.alreadyExists
    s!"configuration schema {schema.application}/{schema.releaseName} with this digest"
  require (rows.all (fun m => decide (m.digest ≠ schema.digest)) = true) duplicate
  let versionNumber := (rows.map (·.versionNumber)).foldr max 0 + 1
  let row : ConfigurationSchemaModel :=
    { applicationName := schema.application, releaseName := schema.releaseName, versionNumber
      schemaJSON := schema.schema, digest := schema.digest, contract := fromSchema.or supplied }
  let schemas ← orThrow (s.schemas.insert? row) duplicate
  pure ({ schema with contract := annotated.or schema.contract, version := versionNumber },
    { s with schemas })

theorem createConfigurationSchemaTx_ok_cases {schema out : ConfigurationSchema}
    {annotated : Option (List ApplicationContractField)}
    (h : createConfigurationSchemaTx s schema annotated = .ok (out, s')) :
    ∃ row t, s.schemas.insert? row = some t ∧ s' = { s with schemas := t } := by
  simp only [createConfigurationSchemaTx, bind_eq_ok_iff, orThrow_eq_ok_iff, pure_eq_ok_iff] at h
  obtain ⟨_, _, _, _, _, _, _, _, _, _, _, _, _, _, t, ht, heq⟩ := h
  cases heq
  exact ⟨_, t, ht, rfl⟩

/-- `CreateApplicationWithSchema`。application と最初の schema を一つの transaction で作る。 -/
def createApplicationWithSchema (rq : Request) (s : Store) (app : Application)
    (schema : ConfigurationSchema) (annotated : Option (List ApplicationContractField)) :
    Except Err (ConfigurationSchema × Store) := do
  let applications ← orThrow (s.applications.insert? (applicationModelFromDomain rq app))
    (.alreadyExists s!"application {app.name}")
  let (created, s) ← createConfigurationSchemaTx { s with applications }
    { schema with contract := schema.contract.or app.contract } annotated
  let contract ← canonicalSchemaContract (created.contract.getD [])
  pure (created, touchApplication s app.name
    (fun m => { m with schemaVersion := created.version, contract }))

/-! ## namespace と identity -/

/-- `CreateNamespace`。application が無ければ既定の application を作る。 -/
def createNamespace (rq : Request) (s : Store) (ns : NamespaceRef) : Except Err (Nat × Store) := do
  let fresh : ApplicationModel :=
    { name := ns.app, description := "", releaseName := "runtime", schemaVersion := 0
      contract := [], createdAt := rq.now, updatedAt := rq.now, archivedAt := none }
  let app := (s.applications.get ns.app).getD fresh
  require (app.archivedAt = none) (.failedPrecondition s!"application {ns.app} is archived")
  let namespaces ← orThrow (s.namespaces.insert? (fun id => ⟨id, ns⟩) (fun _ => rfl))
    (.alreadyExists s!"namespace {ns}")
  pure (s.namespaces.seq + 1,
    { s with applications := s.applications.insertIgnore fresh, namespaces })

theorem createNamespace_ok_cases {rq : Request} {ns : NamespaceRef} {id : Nat}
    (h : createNamespace rq s ns = .ok (id, s')) :
    ∃ t, s.namespaces.insert? (fun id => ⟨id, ns⟩) (fun _ => rfl) = some t ∧
      id = s.namespaces.seq + 1 ∧
      ∃ applications, s' = { s with applications := applications, namespaces := t } := by
  simp only [createNamespace, bind_eq_ok_iff, pure_eq_ok_iff, orThrow_eq_ok_iff] at h
  obtain ⟨_, _, t, ht, heq⟩ := h
  cases heq
  exact ⟨t, ht, rfl, _, rfl⟩

/-- `CreateIdentity` のうち、namespace への結び付き。 -/
def createIdentity (rq : Request) (s : Store) (name : String) (ns : Option NamespaceRef) :
    Except Err (Unit × Store) := do
  let namespaceID ← ns.mapM (resolveNamespaceID rq s)
  let identities ← orThrow (s.identities.insert? { name, namespaceID })
    (.alreadyExists s!"identity {name}")
  pure ((), { s with identities })

/-- session がこの namespace に属するか。 -/
def sessionInNamespace (s : Store) (id : Nat) (sessionID : String) : Bool :=
  match s.sessions.get sessionID with
  | some m => decide (m.track.namespaceID = id)
  | none => false

/-- release がこの namespace に属するか。 -/
def releaseInNamespace (s : Store) (id : Nat) (releaseID : Nat) : Bool :=
  match s.releases.byId releaseID with
  | some m => decide (m.namespaceID = id)
  | none => false

/--
`deleteNamespaceTx`。

生きた parameter・secret・identity が残る namespace は消さない。release と session の履歴は
同じ transaction で消す。`release_counters` と `secret_version_high_water` は外部 key の
CASCADE で消える。
-/
def deleteNamespaceTx (rq : Request) (s : Store) (ns : NamespaceRef) :
    Except Err (Unit × Store) := do
  let id ← resolveNamespaceID rq s ns
  require (s.parameters.table.rows.all (fun m => decide (m.namespaceID ≠ id)) = true)
    (.failedPrecondition s!"namespace {ns} is not empty (parameters)")
  require (s.secrets.table.rows.all (fun m => decide (m.namespaceID ≠ id)) = true)
    (.failedPrecondition s!"namespace {ns} is not empty (secrets)")
  require (s.identities.rows.all (fun m => decide (m.namespaceID ≠ some id)) = true)
    (.failedPrecondition s!"namespace {ns} is not empty (bound identities)")
  pure ((), { s with
    sessionEvents := s.sessionEvents.deleteWhere (fun m => sessionInNamespace s id m.sessionID)
    targetDeliveries :=
      s.targetDeliveries.deleteWhere (fun m => sessionInNamespace s id m.sessionID)
    sessions := s.sessions.deleteWhere (fun m => decide (m.track.namespaceID = id))
    releaseActivations :=
      s.releaseActivations.deleteWhere (fun m => decide (m.track.namespaceID = id))
    releaseLabels := s.releaseLabels.deleteWhere (fun m => decide (m.track.namespaceID = id))
    releaseEntries := s.releaseEntries.deleteWhere (fun m => releaseInNamespace s id m.releaseID)
    releases := s.releases.deleteWhere (fun m => decide (m.namespaceID = id))
    releaseCounters := s.releaseCounters.deleteWhere (fun m => decide (m.track.namespaceID = id))
    secretHighWater := s.secretHighWater.deleteWhere (fun m => decide (m.namespaceID = id))
    namespaces := s.namespaces.deleteWhere (fun m => decide (m.id = id)) })

theorem deleteNamespaceTx_ok_cases {rq : Request} {ns : NamespaceRef} {u : Unit}
    (h : deleteNamespaceTx rq s ns = .ok (u, s')) :
    ∃ id, resolveNamespaceID rq s ns = .ok id ∧
      (∀ m ∈ s.parameters, m.namespaceID ≠ id) ∧ (∀ m ∈ s.secrets, m.namespaceID ≠ id) ∧
      s' = { s with
        sessionEvents := s.sessionEvents.deleteWhere (fun m => sessionInNamespace s id m.sessionID)
        targetDeliveries :=
          s.targetDeliveries.deleteWhere (fun m => sessionInNamespace s id m.sessionID)
        sessions := s.sessions.deleteWhere (fun m => decide (m.track.namespaceID = id))
        releaseActivations :=
          s.releaseActivations.deleteWhere (fun m => decide (m.track.namespaceID = id))
        releaseLabels := s.releaseLabels.deleteWhere (fun m => decide (m.track.namespaceID = id))
        releaseEntries :=
          s.releaseEntries.deleteWhere (fun m => releaseInNamespace s id m.releaseID)
        releases := s.releases.deleteWhere (fun m => decide (m.namespaceID = id))
        releaseCounters :=
          s.releaseCounters.deleteWhere (fun m => decide (m.track.namespaceID = id))
        secretHighWater := s.secretHighWater.deleteWhere (fun m => decide (m.namespaceID = id))
        namespaces := s.namespaces.deleteWhere (fun m => decide (m.id = id)) } := by
  simp only [deleteNamespaceTx, bind_eq_ok_iff, pure_eq_ok_iff, require_eq_ok_iff,
    List.all_eq_true, decide_eq_true_eq] at h
  obtain ⟨id, hid, _, hp, _, hsec, _, _, heq⟩ := h
  cases heq
  exact ⟨id, hid, hp, hsec, rfl⟩

end Kms.Storage
