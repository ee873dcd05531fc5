import Kms.Storage.Applications

/-!
# configuration release

`internal/storage/releases.go` の作成・有効化・保持期限による削除と、
release が指す資源の検査を写す。

* `validateReleasePinsTx` — 有効化と pin の前に、全 entry が読めることを確かめる
* `rejectProtectedReleaseReference` — label か session pin に守られた release が指す資源は消せない
* `activateConfigurationRelease` — label を動かすたびに change log の新しい revision を使う
-/

namespace Kms.Storage

open Kms.Infra

/-! ## 保護された release -/

def releaseLabelled (s : Store) (k : TrackKey) (version : Nat) : Bool :=
  s.releaseLabels.rows.any (fun l => decide (l.track = k) && decide (l.versionNumber = version))

def releasePinned (s : Store) (k : TrackKey) (version : Nat) : Bool :=
  s.sessions.rows.any (fun p => decide (p.track = k) && decide (p.pinVersion = version))

/-- 保護された release への参照。 -/
structure ReleaseReference where
  ns : NamespaceRef
  releaseName : String
  schemaVersion : Nat
  releaseVersion : Nat
  entryAlias : String
  deriving DecidableEq

/-- entry が保護された release に属し、指定の資源を指すなら、その参照。 -/
def protectedReferenceOf (s : Store) (ref : Ref) (resourceNamespaceID : Nat)
    (kind : ReleaseEntryKind) (version : Nat) (e : ConfigurationReleaseEntryModel) :
    Option ReleaseReference :=
  match s.releases.byId e.releaseID with
  | none => none
  | some r =>
    match s.namespaces.byId r.namespaceID with
    | none => none
    | some n =>
      if (releaseLabelled s r.trackKey r.versionNumber ||
            releasePinned s r.trackKey r.versionNumber) &&
          (decide (e.kind = kind) && decide (e.resourceKey = ref.key) &&
            decide (e.resourceNamespaceID = resourceNamespaceID) &&
            decide (e.resourceNS = ref.ns)) &&
          (decide (version = 0) || decide (e.resourceVersion = version)) then
        some ⟨n.ref, r.name, r.schemaVersion, r.versionNumber, e.entryAlias⟩
      else none

/-- version の大きい参照を残す。 -/
def newestReference : List ReleaseReference → Option ReleaseReference
  | [] => none
  | r :: rs =>
    match newestReference rs with
    | none => some r
    | some r' => if r'.releaseVersion > r.releaseVersion then some r' else some r

theorem newestReference_eq_none_iff {l : List ReleaseReference} :
    newestReference l = none ↔ l = [] := by
  cases l with
  | nil => simp [newestReference]
  | cons r rs =>
    simp only [newestReference]
    split
    · simp
    · split <;> simp

def findProtectedReleaseReference (rq : Request) (s : Store) (ref : Ref)
    (kind : ReleaseEntryKind) (version : Nat) : Except Err ReleaseReference := do
  let resourceNamespaceID ← resolveNamespaceID rq s ref.ns
  orThrow
    (newestReference
      (s.releaseEntries.rows.filterMap
        (protectedReferenceOf s ref resourceNamespaceID kind version)))
    (.notFound "not found")

def rejectProtectedReleaseReference (rq : Request) (s : Store) (ref : Ref)
    (kind : ReleaseEntryKind) (version : Nat) : Except Err Unit :=
  match findProtectedReleaseReference rq s ref kind version with
  | .ok rr => .error (.failedPrecondition (s!"resource is referenced by configuration release " ++
      s!"{rr.ns}/{rr.releaseName} schema {rr.schemaVersion} version {rr.releaseVersion} " ++
      s!"alias {rr.entryAlias}"))
  | .error e => if e.is .notFound then .ok () else .error e

variable {rq : Request} {s : Store} {releaseID : Nat}

theorem rejectProtectedReleaseReference_ok {ref : Ref}
    {kind : ReleaseEntryKind} {version id : Nat} {u : Unit}
    (h : rejectProtectedReleaseReference rq s ref kind version = .ok u)
    (hid : resolveNamespaceID rq s ref.ns = .ok id) :
    ∀ e ∈ s.releaseEntries, protectedReferenceOf s ref id kind version e = none := by
  intro e he
  cases hp : protectedReferenceOf s ref id kind version e with
  | none => rfl
  | some rr =>
    exfalso
    have hmem : rr ∈ s.releaseEntries.rows.filterMap
        (protectedReferenceOf s ref id kind version) :=
      List.mem_filterMap.mpr ⟨e, he, hp⟩
    have hne : newestReference (s.releaseEntries.rows.filterMap
        (protectedReferenceOf s ref id kind version)) ≠ none := by
      rw [Ne, newestReference_eq_none_iff]
      exact List.ne_nil_of_mem hmem
    obtain ⟨r, hr⟩ := Option.ne_none_iff_exists'.mp hne
    have hfind : findProtectedReleaseReference rq s ref kind version = .ok r := by
      simp only [findProtectedReleaseReference, bind_eq_ok_iff, orThrow_eq_ok_iff]
      exact ⟨id, hid, hr⟩
    rw [rejectProtectedReleaseReference, hfind] at h
    cases h

/-! ## release が指す資源の検査 -/

/-- release の entry。alias 順。 -/
def releaseEntriesOf (s : Store) (releaseID : Nat) : List ConfigurationReleaseEntryModel :=
  (s.releaseEntries.rows.filter (fun e => decide (e.releaseID = releaseID))).insertionSort
    (fun a b => a.entryAlias ≤ b.entryAlias)

theorem mem_releaseEntriesOf {e : ConfigurationReleaseEntryModel} :
    e ∈ releaseEntriesOf s releaseID ↔ e ∈ s.releaseEntries ∧ e.releaseID = releaseID := by
  simp [releaseEntriesOf, List.mem_insertionSort, Table.mem_def]

/-- entry が指す parameter version。 -/
def pinnedParameterVersion (s : Store) (e : ConfigurationReleaseEntryModel) :
    Option ParameterVersionModel :=
  (s.parameters.get (e.resourceNamespaceID, e.resourceKey)).bind
    (fun p => s.parameterVersions.get (p.id, e.resourceVersion))

/-- entry が指す secret version。 -/
def pinnedSecretVersion (s : Store) (e : ConfigurationReleaseEntryModel) :
    Option SecretVersionModel :=
  (s.secrets.get (e.resourceNamespaceID, e.resourceKey)).bind
    (fun sec => s.secretVersions.get (sec.id, e.resourceVersion))

section Validate

variable [Hashing]

/-- 一つの entry の検査。`owner` は release の属する namespace の行。 -/
def validateReleasePin (rq : Request) (s : Store) (owner : NamespaceModel)
    (e : ConfigurationReleaseEntryModel) : Except Err Unit := do
  let fail := Err.releaseValidationFailed e.entryAlias
  require (e.resourceNamespaceID = owner.id ∧ e.resourceNS = owner.ref)
    (fail "unreadable" "release entry resource namespace does not match its owner")
  require ((s.namespaces.byId e.resourceNamespaceID).map (·.ref) = some e.resourceNS)
    (fail "not_found" "release entry references a missing or replaced namespace")
  match e.kind with
  | .parameter =>
    let pv ← orThrow (pinnedParameterVersion s e)
      (fail "not_found" "release entry references a missing parameter version")
    require (pv.contentType = e.contentType)
      (fail "content_type" "parameter content type does not match release pin")
    require (e.parameterDigest = "" ∨ Hashing.sha256Hex pv.value = e.parameterDigest)
      (fail "digest_mismatch" "parameter digest does not match release pin")
  | .secret =>
    let sv ← orThrow (pinnedSecretVersion s e)
      (fail "not_found" "release entry references a missing secret version")
    require (sv.state = .enabled ∧ sv.destroyedAt = none)
      (fail "unreadable" "secret version is not readable")
    require (∀ t ∈ sv.expiresAt, t ≠ 0 ∧ rq.now ≤ t)
      (fail "unreadable" "secret version is expired")
    require (sv.contentType = e.contentType)
      (fail "content_type" "secret content type does not match release pin")
  | .other _ => .error (fail "unreadable" "release entry kind is invalid")

def validateReleasePinsTx (rq : Request) (s : Store) (releaseID : Nat) : Except Err Unit :=
  match s.releases.byId releaseID with
  | none => .ok ()
  | some r =>
    match s.namespaces.byId r.namespaceID with
    | none => .ok ()
    | some owner => (releaseEntriesOf s releaseID).forM (validateReleasePin rq s owner)

end Validate

/-! ## 読み出し -/

def releaseFromModel (s : Store) (ns : NamespaceRef) (m : ConfigurationReleaseModel) :
    ConfigurationRelease where
  ns := ns
  name := m.name
  version := m.versionNumber
  schemaVersion := m.schemaVersion
  entries := (releaseEntriesOf s m.id).map (fun e =>
    { entryAlias := e.entryAlias, kind := e.kind, ref := ⟨e.resourceNS, e.resourceKey⟩,
      version := e.resourceVersion, resourceNamespaceID := e.resourceNamespaceID,
      contentType := e.contentType, metadata := e.metadataJSON,
      parameterDigest := e.parameterDigest })
  digest := m.digest
  metadata := m.metadataJSON
  createdBy := m.createdBy
  createdAt := m.createdAt

/-- 系列に残る最大の version。無ければ `0`。 -/
def latestVersion (s : Store) (k : TrackKey) : Nat :=
  ((s.releases.table.rows.filter (fun m => decide (m.trackKey = k))).map
    (·.versionNumber)).foldr max 0

theorem le_latestVersion {r : ConfigurationReleaseModel} (hr : r ∈ s.releases) :
    r.versionNumber ≤ latestVersion s r.trackKey := by
  refine le_foldr_max (List.mem_map.mpr ⟨r, List.mem_filter.mpr ⟨hr, ?_⟩, rfl⟩)
  exact decide_eq_true rfl

theorem exists_latest {k : TrackKey} (h : latestVersion s k ≠ 0) :
    ∃ r ∈ s.releases, r.trackKey = k ∧ r.versionNumber = latestVersion s k := by
  obtain ⟨r, hr, hv⟩ := List.mem_map.mp (foldr_max_mem h)
  obtain ⟨hmem, hk⟩ := List.mem_filter.mp hr
  exact ⟨r, hmem, of_decide_eq_true hk, hv⟩

/-- version の大きい行を残す。 -/
def newestRelease : List ConfigurationReleaseModel → Option ConfigurationReleaseModel
  | [] => none
  | r :: rs =>
    match newestRelease rs with
    | none => some r
    | some r' => if r'.versionNumber > r.versionNumber then some r' else some r

/-- `getConfigurationRelease`。version が `0` なら最新。 -/
def getConfigurationRelease (rq : Request) (s : Store) (track : ReleaseTrack) (version : Nat) :
    Except Err ConfigurationRelease := do
  let nsID ← resolveNamespaceID rq s track.ns
  let k : TrackKey := ⟨nsID, track.name, track.schemaVersion⟩
  let row :=
    if version = 0 then
      newestRelease (s.releases.table.rows.filter (fun m => decide (m.trackKey = k)))
    else s.releases.get (k.release version)
  let m ← orThrow row
    (.notFound s!"configuration release {track.ns}/{track.name} version {version}")
  pure (releaseFromModel s track.ns m)

theorem getConfigurationRelease_row {track : ReleaseTrack}
    {version : Nat} {rel : ConfigurationRelease} (hv : version ≠ 0)
    (h : getConfigurationRelease rq s track version = .ok rel) :
    ∃ nsID m, resolveNamespaceID rq s track.ns = .ok nsID ∧
      s.releases.get (TrackKey.release ⟨nsID, track.name, track.schemaVersion⟩ version) = some m ∧
      rel = releaseFromModel s track.ns m := by
  simp only [getConfigurationRelease, hv, if_false, bind_eq_ok_iff, orThrow_eq_ok_iff,
    pure_eq_ok_iff] at h
  obtain ⟨nsID, hns, m, hm, rfl⟩ := h
  exact ⟨nsID, m, hns, hm, rfl⟩

def getActiveConfigurationRelease (rq : Request) (s : Store) (track : ReleaseTrack) :
    Except Err ActiveConfigurationRelease := do
  let nsID ← resolveNamespaceID rq s track.ns
  let k : TrackKey := ⟨nsID, track.name, track.schemaVersion⟩
  let cur ← orThrow (s.releaseLabels.get (k, .current))
    (.notFound s!"active configuration release {track.ns}/{track.name}")
  let release ← getConfigurationRelease rq s track cur.versionNumber
  let previousVersion := ((s.releaseLabels.get (k, .previous)).map (·.versionNumber)).getD 0
  pure { release, activationRevision := cur.activationRevision, previousVersion }

/-! ## 作成 -/

/-- preview が解決した current label。 -/
structure ApplicationReleaseCurrentPin where
  kind : ReleaseEntryKind
  ref : Ref
  version : Nat

structure ApplicationReleaseSourceState where
  schemaVersion : Nat
  version : Nat
  activationRevision : Nat
  digest : String

/-- `ApplicationReleaseCreate` のうち release 本体以外の期待値。 -/
structure ApplicationReleaseCreate where
  source : Option ApplicationReleaseSourceState
  namespaceID : Nat
  contract : List ApplicationContractField
  schemaDigest : String
  expectedLatestVersion : Nat
  expectedActiveVersion : Nat
  expectedActivationRevision : Nat
  currentPins : List ApplicationReleaseCurrentPin

def applicationReleaseStale : Err :=
  .aborted "application release plan is stale; preview again"

/-- preview した pin が今も current であるか。 -/
def verifyCurrentPin (rq : Request) (s : Store) (pin : ApplicationReleaseCurrentPin) :
    Except Err Unit :=
  match resolveNamespaceID rq s pin.ref.ns with
  | .error e =>
    if e.is .notFound || e.is .aborted then .error applicationReleaseStale else .error e
  | .ok nsID =>
    match pin.kind with
    | .parameter =>
      let current := (s.parameters.get (nsID, pin.ref.key)).bind
        (fun p => s.parameterLabels.get (p.id, .current))
      require ((current.map (·.versionNumber)).getD 0 = pin.version) applicationReleaseStale
    | .secret =>
      let current := (s.secrets.get (nsID, pin.ref.key)).bind
        (fun sec => s.secretLabels.get (sec.id, .current))
      require ((current.map (·.versionNumber)).getD 0 = pin.version) applicationReleaseStale
    | .other _ => .error applicationReleaseStale

def verifyApplicationReleaseState (rq : Request) (s : Store) (nsID : Nat)
    (release : ConfigurationRelease) (opt : ApplicationReleaseCreate) : Except Err Unit := do
  let app ← orThrow (s.applications.get release.ns.app) applicationReleaseStale
  let contract ← canonicalSchemaContract opt.contract
  require (app.archivedAt = none ∧ app.releaseName = release.name) applicationReleaseStale
  require (opt.namespaceID = nsID) applicationReleaseStale
  let selected ← getConfigurationSchemaContract s app.name app.releaseName release.schemaVersion
  let actual ← canonicalSchemaContract (selected.getD [])
  require (selected ≠ none ∧ actual = contract) applicationReleaseStale
  if release.schemaVersion ≠ 0 then
    let schema ← orThrow (s.schemas.get (app.name, app.releaseName, release.schemaVersion))
      applicationReleaseStale
    require (schema.digest = opt.schemaDigest) applicationReleaseStale
  else
    require (opt.schemaDigest = "") applicationReleaseStale
  let active := s.releaseLabels.get (⟨nsID, release.name, release.schemaVersion⟩, .current)
  require ((active.map (·.versionNumber)).getD 0 = opt.expectedActiveVersion ∧
    (active.map (·.activationRevision)).getD 0 = opt.expectedActivationRevision)
    applicationReleaseStale
  match opt.source with
  | none => pure ()
  | some want =>
    match getActiveConfigurationRelease rq s ⟨release.ns, release.name, want.schemaVersion⟩ with
    | .error e => if e.is .notFound then .error applicationReleaseStale else .error e
    | .ok source =>
      require (source.release.version = want.version ∧
        source.activationRevision = want.activationRevision ∧ source.release.digest = want.digest)
        applicationReleaseStale
  opt.currentPins.forM (verifyCurrentPin rq s)

/-- 比較の前に揃える。version・作成者・時刻は比べない。 -/
def normalizeRelease (r : ConfigurationRelease) : ConfigurationRelease :=
  { r with
    version := 0
    createdBy := ""
    createdAt := 0
    metadata := zeroOr r.metadata "\x7b\x7d"
    entries := (r.entries.map (fun e => { e with metadata := zeroOr e.metadata "\x7b\x7d" })
      ).insertionSort (fun a b => a.entryAlias ≤ b.entryAlias) }

def sameCanonicalRelease (a b : ConfigurationRelease) : Bool :=
  decide (normalizeRelease a = normalizeRelease b)

def lastReleaseVersion (s : Store) (k : TrackKey) : Nat :=
  ((s.releaseCounters.get k).map (·.lastVersion)).getD 0

structure ReleaseCreateOptions where
  requireFirst : Bool
  application : Option ApplicationReleaseCreate

/-- 作成する entry の行。 -/
def entryRow (releaseID nsID : Nat) (e : ConfigurationReleaseEntry) :
    ConfigurationReleaseEntryModel where
  releaseID := releaseID
  entryAlias := e.entryAlias
  kind := e.kind
  resourceNamespaceID := nsID
  resourceNS := e.ref.ns
  resourceKey := e.ref.key
  resourceVersion := e.version
  contentType := e.contentType
  metadataJSON := zeroOr e.metadata "\x7b\x7d"
  parameterDigest := e.parameterDigest

/-- entry を順に足す。alias が重なれば InvalidArgument。 -/
def insertEntries (releaseID nsID : Nat) (t : Table ConfigurationReleaseEntryModel.key) :
    List ConfigurationReleaseEntry → Except Err (Table ConfigurationReleaseEntryModel.key)
  | [] => pure t
  | e :: es => do
    let t' ← orThrow (t.insert? (entryRow releaseID nsID e))
      (.invalidArgument s!"duplicate release alias {e.entryAlias}")
    insertEntries releaseID nsID t' es

theorem rows_insertEntries {nsID : Nat} {es : List ConfigurationReleaseEntry}
    {t t' : Table ConfigurationReleaseEntryModel.key}
    (h : insertEntries releaseID nsID t es = .ok t') :
    t'.rows = t.rows ++ es.map (entryRow releaseID nsID) := by
  induction es generalizing t with
  | nil =>
    simp only [insertEntries, pure_eq_ok_iff] at h
    rw [h, List.map_nil, List.append_nil]
  | cons e es ih =>
    simp only [insertEntries, bind_eq_ok_iff, orThrow_eq_ok_iff] at h
    obtain ⟨t₁, ht₁, h⟩ := h
    rw [ih h, (Table.insert?_eq_some_iff.mp ht₁).2, List.append_assoc]
    rfl

theorem mem_insertEntries {nsID : Nat} {es : List ConfigurationReleaseEntry}
    {t t' : Table ConfigurationReleaseEntryModel.key}
    (h : insertEntries releaseID nsID t es = .ok t') {x : ConfigurationReleaseEntryModel} :
    x ∈ t' ↔ x ∈ t ∨ ∃ e ∈ es, x = entryRow releaseID nsID e := by
  rw [Table.mem_def, rows_insertEntries h, List.mem_append, List.mem_map, Table.mem_def]
  simp only [eq_comm]

section Write

variable [Hashing]

/-- application release の冪等な再利用。最新版が同じ内容なら、pin を検査してそれを返す。 -/
def reuseLatestRelease (rq : Request) (s : Store) (nsID : Nat) (release : ConfigurationRelease)
    (opt : ApplicationReleaseCreate) : Except Err (Option ConfigurationRelease) :=
  match getConfigurationRelease rq s release.track 0 with
  | .error e =>
    if e.is .notFound then do
      require (0 = opt.expectedLatestVersion) applicationReleaseStale
      pure none
    else .error e
  | .ok latest =>
    if sameCanonicalRelease latest release then do
      let k : TrackKey := ⟨nsID, release.name, release.schemaVersion⟩
      let m ← orThrow (s.releases.get (k.release latest.version)) (.notFound "record not found")
      validateReleasePinsTx rq s m.id
      pure (some latest)
    else do
      require (latest.version = opt.expectedLatestVersion) applicationReleaseStale
      pure none

/-- application release なら、preview の前提を確かめてから再利用を試みる。 -/
def planReuse (rq : Request) (s : Store) (nsID : Nat) (release : ConfigurationRelease) :
    Option ApplicationReleaseCreate → Except Err (Option ConfigurationRelease)
  | none => pure none
  | some opt => do
    verifyApplicationReleaseState rq s nsID release opt
    reuseLatestRelease rq s nsID release opt

/-- application release だけは、作成と同じ transaction で pin を検査する。 -/
def validateCreated (rq : Request) (s : Store) (releaseID : Nat) :
    Option ApplicationReleaseCreate → Except Err Unit
  | none => pure ()
  | some _ => validateReleasePinsTx rq s releaseID

/-- 新しい version の行。 -/
def newReleaseRow (rq : Request) (nsID maxVersion : Nat) (release : ConfigurationRelease)
    (id : Nat) : ConfigurationReleaseModel where
  id := id
  namespaceID := nsID
  name := release.name
  versionNumber := maxVersion + 1
  schemaVersion := release.schemaVersion
  digest := release.digest
  metadataJSON := zeroOr release.metadata "\x7b\x7d"
  createdBy := release.createdBy
  createdAt := rq.now

/-- 新しい version の行・counter・entry を書く。 -/
def insertRelease (rq : Request) (s : Store) (nsID maxVersion : Nat)
    (release : ConfigurationRelease) (requireFirst : Bool) : Except Err (Nat × Store) := do
  let releases ← orThrow
    (s.releases.insert? (newReleaseRow rq nsID maxVersion release) (fun _ => rfl))
    (if requireFirst then
      .aborted s!"configuration release {release.ns}/{release.name} is already established"
    else
      .alreadyExists
        s!"configuration release {release.ns}/{release.name} version {maxVersion + 1}")
  let id := s.releases.seq + 1
  let counter : ConfigurationReleaseCounterModel :=
    ⟨⟨nsID, release.name, release.schemaVersion⟩, maxVersion + 1⟩
  let releaseEntries ← insertEntries id nsID s.releaseEntries release.entries
  pure (id,
    { s with releases, releaseEntries, releaseCounters := s.releaseCounters.upsert counter })

/-- `createConfigurationRelease`。返り値は release と、新しく作ったかどうか。 -/
def createConfigurationRelease (rq : Request) (s : Store) (input : ConfigurationRelease)
    (options : ReleaseCreateOptions) : Except Err ((ConfigurationRelease × Bool) × Store) := do
  let nsID ← resolveNamespaceID rq s input.ns
  input.entries.forM (fun e => require (e.ref.ns = input.ns) (.invalidArgument
    s!"release entry \"{e.entryAlias}\" must reference its home namespace {input.ns}"))
  let release := input.homed nsID
  let (_, s) ← adoptSchemaContractTx s release.ns.app release.name release.schemaVersion
    (release.entries.map (·.field))
  let maxVersion := lastReleaseVersion s ⟨nsID, release.name, release.schemaVersion⟩
  let reused ← planReuse rq s nsID release options.application
  match reused with
  | some latest => pure ((latest, false), s)
  | none => do
    require (options.requireFirst = false ∨ maxVersion = 0)
      (.aborted s!"configuration release {release.ns}/{release.name} is already established")
    let (id, s) ← insertRelease rq s nsID maxVersion release options.requireFirst
    validateCreated rq s id options.application
    pure (({ release with
      version := maxVersion + 1
      createdAt := rq.now
      metadata := zeroOr release.metadata "\x7b\x7d" }, true), s)

variable {rq : Request} {s s' : Store} {out : ActiveConfigurationRelease × Bool}
  {track : ReleaseTrack} {version : Nat} {expectedCurrent : Option Nat}

omit [Hashing] in
theorem insertRelease_ok_cases {nsID maxVersion id : Nat}
    {release : ConfigurationRelease} {requireFirst : Bool}
    (h : insertRelease rq s nsID maxVersion release requireFirst = .ok (id, s')) :
    id = s.releases.seq + 1 ∧ ∃ t es,
      s.releases.insert? (newReleaseRow rq nsID maxVersion release) (fun _ => rfl) = some t ∧
      insertEntries (s.releases.seq + 1) nsID s.releaseEntries release.entries = .ok es ∧
      s' = { s with
        releases := t
        releaseEntries := es
        releaseCounters := s.releaseCounters.upsert
          ⟨⟨nsID, release.name, release.schemaVersion⟩, maxVersion + 1⟩ } := by
  simp only [insertRelease, bind_eq_ok_iff, pure_eq_ok_iff, orThrow_eq_ok_iff] at h
  obtain ⟨t, ht, es, hes, heq⟩ := h
  cases heq
  exact ⟨rfl, t, es, ht, hes, rfl⟩

/-- 作成は、contract を採用してから、最新版を再利用するか、次の version を書く。 -/
theorem createConfigurationRelease_ok
    {input : ConfigurationRelease} {options : ReleaseCreateOptions}
    {out : ConfigurationRelease × Bool}
    (h : createConfigurationRelease rq s input options = .ok (out, s')) :
    ∃ nsID adopted s₁, resolveNamespaceID rq s input.ns = .ok nsID ∧
      (∀ e ∈ input.entries, e.ref.ns = input.ns) ∧
      adoptSchemaContractTx s input.ns.app input.name input.schemaVersion
        (input.entries.map (·.field)) = .ok (adopted, s₁) ∧
      ((∃ latest, planReuse rq s₁ nsID (input.homed nsID) options.application = .ok (some latest) ∧
          out = (latest, false) ∧ s' = s₁) ∨
        ∃ id, planReuse rq s₁ nsID (input.homed nsID) options.application = .ok none ∧
          (options.requireFirst = false ∨
            lastReleaseVersion s ⟨nsID, input.name, input.schemaVersion⟩ = 0) ∧
          insertRelease rq s₁ nsID
            (lastReleaseVersion s ⟨nsID, input.name, input.schemaVersion⟩) (input.homed nsID)
            options.requireFirst = .ok (id, s') ∧
          validateCreated rq s' id options.application = .ok () ∧
          out = ({ input.homed nsID with
            version := lastReleaseVersion s ⟨nsID, input.name, input.schemaVersion⟩ + 1
            createdAt := rq.now
            metadata := zeroOr input.metadata "\x7b\x7d" }, true)) := by
  simp only [createConfigurationRelease, bind_eq_ok_iff, forM_eq_ok_iff, require_eq_ok_iff] at h
  obtain ⟨nsID, hns, _, hhome, ⟨adopted, s₁⟩, hadopt, reused, hplan, h⟩ := h
  have hfields : (input.homed nsID).entries.map (·.field) = input.entries.map (·.field) := by
    simp [ConfigurationRelease.homed, ConfigurationReleaseEntry.field, Function.comp_def]
  rw [hfields] at hadopt
  obtain ⟨schemas, contracts, rfl⟩ := adoptSchemaContractTx_frame hadopt
  refine ⟨nsID, adopted, _, hns, hhome, hadopt, ?_⟩
  cases reused with
  | some latest =>
    simp only [pure_eq_ok_iff, Prod.mk.injEq] at h
    exact Or.inl ⟨latest, hplan, h.1.symm, h.2.symm⟩
  | none =>
    simp only [bind_eq_ok_iff, pure_eq_ok_iff, require_eq_ok_iff, Prod.mk.injEq] at h
    obtain ⟨_, hfirst, ⟨id, s₂⟩, hins, _, hval, hout, rfl⟩ := h
    exact Or.inr ⟨id, hplan, hfirst, hins, hval, hout.symm⟩

/--
作成が成功したとき、最新版の再利用なら release の表は変わらない。新規なら、採番した id で
行と entry が足される。どちらの場合も contract の採用が入りうる。
-/
theorem createConfigurationRelease_ok_cases
    {input : ConfigurationRelease} {options : ReleaseCreateOptions}
    {out : ConfigurationRelease × Bool}
    (h : createConfigurationRelease rq s input options = .ok (out, s')) :
    (∃ schemas contracts, s' = { s with schemas := schemas, schemaFreeContracts := contracts }) ∨
    ∃ nsID t es schemas contracts, resolveNamespaceID rq s input.ns = .ok nsID ∧
      s.releases.insert? (newReleaseRow rq nsID
        (lastReleaseVersion s ⟨nsID, input.name, input.schemaVersion⟩) (input.homed nsID))
          (fun _ => rfl) = some t ∧
      insertEntries (s.releases.seq + 1) nsID s.releaseEntries (input.homed nsID).entries =
        .ok es ∧
      s' = { s with
        schemas := schemas
        schemaFreeContracts := contracts
        releases := t
        releaseEntries := es
        releaseCounters := s.releaseCounters.upsert ⟨⟨nsID, input.name, input.schemaVersion⟩,
          lastReleaseVersion s ⟨nsID, input.name, input.schemaVersion⟩ + 1⟩ } := by
  obtain ⟨nsID, adopted, s₁, hns, _, hadopt, ⟨_, _, _, rfl⟩ | ⟨id, _, _, hins, _, _⟩⟩ :=
    createConfigurationRelease_ok h
  · exact Or.inl (adoptSchemaContractTx_frame hadopt)
  · obtain ⟨schemas, contracts, rfl⟩ := adoptSchemaContractTx_frame hadopt
    obtain ⟨_, t, es, ht, hes, rfl⟩ := insertRelease_ok_cases hins
    exact Or.inr ⟨nsID, t, es, schemas, contracts, hns, ht, hes, rfl⟩

/-! ## 有効化 -/

/-- 系列の current label の version。label が無ければ `0`。 -/
def currentVersion (s : Store) (k : TrackKey) : Nat :=
  ((s.releaseLabels.get (k, .current)).map (·.versionNumber)).getD 0

/-- 系列の current label の activation revision。label が無ければ `0`。 -/
def currentActivation (s : Store) (k : TrackKey) : Nat :=
  ((s.releaseLabels.get (k, .current)).map (·.activationRevision)).getD 0

/-- 有効化の後の label。古い current は、あれば previous になる。 -/
def activatedLabels (s : Store) (k : TrackKey) (version rev : Nat) :
    Table ConfigurationReleaseLabelModel.key :=
  let labels :=
    if currentVersion s k ≠ 0 then
      s.releaseLabels.upsert ⟨k, .previous, currentVersion s k, currentActivation s k⟩
    else s.releaseLabels
  labels.upsert ⟨k, .current, version, rev⟩

def activateConfigurationRelease (rq : Request) (s : Store) (track : ReleaseTrack)
    (version : Nat) (expectedCurrent : Option Nat) :
    Except Err ((ActiveConfigurationRelease × Bool) × Store) := do
  let nsID ← resolveNamespaceID rq s track.ns
  let k : TrackKey := ⟨nsID, track.name, track.schemaVersion⟩
  let target ← orThrow (s.releases.get (k.release version))
    (.notFound s!"configuration release {track.ns}/{track.name} version {version}")
  require (∀ v ∈ expectedCurrent, v = currentVersion s k)
    (.aborted (s!"configuration release current version is {currentVersion s k}, " ++
      s!"expected {expectedCurrent.getD 0}"))
  -- 冪等な有効化でも pin は検査し直す。
  validateReleasePinsTx rq s target.id
  let previousVersion := ((s.releaseLabels.get (k, .previous)).map (·.versionNumber)).getD 0
  if currentVersion s k = version then
    let active : ActiveConfigurationRelease :=
      ⟨releaseFromModel s track.ns target, currentActivation s k, previousVersion⟩
    pure ((active, false), s)
  else
    let (rev, s₁) := appendChange rq s nsID
      { schemaVersion := track.schemaVersion, resourceType := .configurationRelease,
        ref := ⟨track.ns, track.name⟩, changeType := .activate, versionNumber := version }
    let releaseActivations ← orThrow
      (s₁.releaseActivations.insert? ⟨rev, k, version, rq.now⟩) (.alreadyExists "activation")
    let s₂ := { s₁ with releaseActivations, releaseLabels := activatedLabels s₁ k version rev }
    let active : ActiveConfigurationRelease :=
      ⟨releaseFromModel s₂ track.ns target, rev, currentVersion s k⟩
    pure ((active, true), s₂)

/-- 有効化は、対象の release の行と全 pin を確かめ、current と違う version のときだけ label を動かす。 -/
theorem activateConfigurationRelease_ok_cases {version : Nat}
    (h : activateConfigurationRelease rq s track version expectedCurrent = .ok (out, s')) :
    ∃ nsID target, resolveNamespaceID rq s track.ns = .ok nsID ∧
      s.releases.get (TrackKey.release ⟨nsID, track.name, track.schemaVersion⟩ version) =
        some target ∧
      validateReleasePinsTx rq s target.id = .ok () ∧
      (currentVersion s ⟨nsID, track.name, track.schemaVersion⟩ = version ∧ s' = s ∨
        currentVersion s ⟨nsID, track.name, track.schemaVersion⟩ ≠ version ∧ ∃ activations,
          s.releaseActivations.insert? ⟨s.changeLog.seq + 1,
            ⟨nsID, track.name, track.schemaVersion⟩, version, rq.now⟩ = some activations ∧
          s' = { s with
            changeLog := logChange s.changeLog
              { schemaVersion := track.schemaVersion, resourceType := .configurationRelease
                ref := ⟨track.ns, track.name⟩, changeType := .activate, versionNumber := version }
              nsID rq.now
            releaseActivations := activations
            releaseLabels := activatedLabels s ⟨nsID, track.name, track.schemaVersion⟩ version
              (s.changeLog.seq + 1) }) := by
  simp only [activateConfigurationRelease, bind_eq_ok_iff, orThrow_eq_ok_iff] at h
  obtain ⟨nsID, hns, target, htarget, _, _, _, hpins, h⟩ := h
  refine ⟨nsID, target, hns, htarget, hpins, ?_⟩
  by_cases hc : currentVersion s ⟨nsID, track.name, track.schemaVersion⟩ = version
  · rw [if_pos hc, pure_eq_ok_iff] at h
    cases h
    exact Or.inl ⟨hc, rfl⟩
  · rw [if_neg hc] at h
    simp only [bind_eq_ok_iff, orThrow_eq_ok_iff, pure_eq_ok_iff, appendChange] at h
    obtain ⟨activations, hins, heq⟩ := h
    cases heq
    exact Or.inr ⟨hc, activations, hins, rfl⟩

theorem activateConfigurationRelease_current {version : Nat}
    (h : activateConfigurationRelease rq s track version expectedCurrent = .ok (out, s')) :
    ∃ nsID, resolveNamespaceID rq s track.ns = .ok nsID ∧
      currentVersion s' ⟨nsID, track.name, track.schemaVersion⟩ = version := by
  obtain ⟨nsID, _, hns, _, _, ⟨hc, rfl⟩ | ⟨_, _, _, rfl⟩⟩ :=
    activateConfigurationRelease_ok_cases h
  · exact ⟨nsID, hns, hc⟩
  · refine ⟨nsID, hns, ?_⟩
    simp [currentVersion, activatedLabels, Table.get_upsert, ConfigurationReleaseLabelModel.key]

end Write

/-! ## 保持期限 -/

/-- 系列の中で、label の無い release のうち自分より新しいものの数。 -/
def newerUnlabelled (s : Store) (m : ConfigurationReleaseModel) : Nat :=
  (s.releases.table.rows.filter (fun r =>
    decide (r.trackKey = m.trackKey) && !releaseLabelled s r.trackKey r.versionNumber &&
      decide (m.versionNumber < r.versionNumber))).length

/-- 古い delivery を残す理由。session の pin・最新の attempt・label の activation。 -/
def deliveryRetained (s : Store) (d : ReleaseTargetDeliveryModel) : Bool :=
  match s.sessions.get d.sessionID with
  | none => false
  | some p =>
    decide (p.pinRevision = d.revision) || decide (p.targetRevision = d.revision) ||
      s.releaseLabels.rows.any
        (fun l => decide (l.track = p.track) && decide (l.activationRevision = d.revision))

/-- `PruneConfigurationReleases` の release の削除条件。activation は削除後の表を見る。 -/
def releasePrunable (s : Store) (activations : Table ConfigurationReleaseActivationModel.revision)
    (cutoff : Time) (retainVersions : Nat) (m : ConfigurationReleaseModel) : Bool :=
  decide (m.createdAt < cutoff) && !releasePinned s m.trackKey m.versionNumber &&
    !releaseLabelled s m.trackKey m.versionNumber &&
    decide (retainVersions ≤ newerUnlabelled s m) &&
    !activations.rows.any
      (fun a => decide (a.track = m.trackKey) && decide (a.versionNumber = m.versionNumber)) &&
    !s.changeLog.rows.any (fun c =>
      decide (c.resourceType = .configurationRelease) && decide (c.namespaceID = m.namespaceID) &&
        decide (c.ref.key = m.name) && decide (c.schemaVersion = m.schemaVersion) &&
        decide (c.versionNumber = m.versionNumber) && decide (c.changeType = .activate))

/--
`PruneConfigurationReleases`。`retainDuration` か `retainVersions` が `0` なら何もしない。

release の行を消すと、外部 key の CASCADE で entry も消える。
-/
def pruneConfigurationReleases (rq : Request) (s : Store) (retainDuration retainVersions : Nat) :
    Store :=
  if retainDuration = 0 ∨ retainVersions = 0 then s
  else
    let cutoff := rq.now - retainDuration
    let targetDeliveries := s.targetDeliveries.deleteWhere
      (fun d => decide (d.createdAt < cutoff) && !deliveryRetained s d)
    let releaseActivations := s.releaseActivations.deleteWhere (fun a =>
      decide (a.activatedAt < cutoff) && !s.releaseLabels.rows.any
        (fun l => decide (l.track = a.track) && decide (l.activationRevision = a.revision)))
    let prunable := releasePrunable s releaseActivations cutoff retainVersions
    let releases := s.releases.deleteWhere prunable
    let releaseEntries := s.releaseEntries.deleteWhere
      (fun e => (s.releases.byId e.releaseID).any prunable)
    { s with targetDeliveries, releaseActivations, releases, releaseEntries }

/-- 保持期限は、残す理由の無い古い delivery・activation と、prunable な release だけを消す。 -/
theorem pruneConfigurationReleases_cases {s' : Store} {retainDuration retainVersions : Nat}
    (h : pruneConfigurationReleases rq s retainDuration retainVersions = s') :
    s' = s ∨ ∃ p activations cutoff,
      (∀ d, p d = true → deliveryRetained s d = false) ∧ s' = { s with
      targetDeliveries := s.targetDeliveries.deleteWhere p
      releaseActivations := activations
      releases := s.releases.deleteWhere (releasePrunable s activations cutoff retainVersions)
      releaseEntries := s.releaseEntries.deleteWhere (fun e =>
        (s.releases.byId e.releaseID).any
          (releasePrunable s activations cutoff retainVersions)) } := by
  subst h
  unfold pruneConfigurationReleases
  split
  · exact Or.inl rfl
  · refine Or.inr ⟨_, _, _, fun d hd => ?_, rfl⟩
    rw [Bool.and_eq_true, Bool.not_eq_true'] at hd
    exact hd.2

end Kms.Storage
