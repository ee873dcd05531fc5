import Mathlib.Data.Nat.Basic

/-!
# domain の語彙

`internal/domain` の型のうち、store・watch・SDK の model が使うものを写す。
列挙は inductive 型にする。wire から任意の文字列が来る列挙だけは `other` を持つ。
-/

namespace Kms

/-- 時刻。zero time（DB では空文字列）は `0`。`fmtTime` は固定幅なので、文字列順は時刻順である。 -/
abbrev Time := Nat

abbrev Bytes := List UInt8

/-! ## 参照 -/

/-- `(env, app)` の組。 -/
structure NamespaceRef where
  env : String
  app : String
  deriving DecidableEq

instance : ToString NamespaceRef := ⟨fun ns => ns.env ++ "/" ++ ns.app⟩

/-- parameter か secret の名前。 -/
structure Ref where
  ns : NamespaceRef
  key : String
  deriving DecidableEq

instance : ToString Ref := ⟨fun ref => s!"/{ref.ns}/{ref.key}"⟩

/-- release の系列。`schemaVersion = 0` は schema 無しの系列である。 -/
structure ReleaseTrack where
  ns : NamespaceRef
  name : String
  schemaVersion : Nat
  deriving DecidableEq

/-- client process の一つの incarnation。 -/
structure ReleaseSessionRef where
  track : ReleaseTrack
  clientName : String
  instanceID : String
  sessionID : String
  identity : String
  deriving DecidableEq

/-! ## 列挙 -/

/-- version と release の label。 -/
inductive Label where
  | current
  | previous
  deriving DecidableEq

/-- secret version の状態。 -/
inductive VersionState where
  | enabled
  | disabled
  | destroyed
  deriving DecidableEq

/-- DEK の包み方。消去済みの行は空文字列を持つ。 -/
inductive WrapMode where
  | standard
  | bindingKey
  | other (text : String)
  deriving DecidableEq

/-- release entry が指す資源の種類。 -/
inductive ReleaseEntryKind where
  | parameter
  | secret
  | other (text : String)
  deriving DecidableEq

/-- acknowledgement の lifecycle state。client が送る文字列なので `other` を持つ。 -/
inductive ReleaseState where
  | received
  | prepared
  | applied
  | rejected
  | other (text : String)
  deriving DecidableEq

/-- change log の資源の種類。 -/
inductive ResourceType where
  | parameter
  | secret
  | configurationRelease
  | releaseInstance
  deriving DecidableEq

/-- change log の変更の種類。 -/
inductive ChangeType where
  | put
  | delete
  | promote
  | disable
  | enable
  | destroy
  | activate
  | target
  | bind
  | unbind
  | rotateBindingKey
  | purgeBindingCohort
  | purgeUnbound
  deriving DecidableEq

/-! ## error -/

/-- transport が code に写す sentinel。 -/
inductive Sentinel where
  | notFound
  | alreadyExists
  | invalidArgument
  | failedPrecondition
  | aborted
  | resourceExhausted
  | decryptFailed
  | permissionDenied
  deriving DecidableEq

/-- release の検査の一つの違反。値は含まない。 -/
structure ReleaseValidationError where
  entryAlias : String
  code : String
  message : String
  schemaPointer : String
  instancePointer : String
  deriving DecidableEq

/-- schema の位置を持たない違反。 -/
def violation (entryAlias code message : String) : ReleaseValidationError :=
  ⟨entryAlias, code, message, "", ""⟩

/-- `domain.Errorf` で包んだ sentinel と、どの sentinel にも解けない error と、型を持つ error。 -/
inductive Err where
  | sentinel (kind : Sentinel) (message : String)
  | plain (message : String)
  | releaseAcknowledgementUnavailable
  | releaseValidationFailed (entry code message : String)
  | releaseValidationErrors (violations : List ReleaseValidationError)
  deriving DecidableEq

namespace Err

/-- `errors.Is(err, kind)`。型を持つ error は FailedPrecondition に解ける。 -/
def is (e : Err) (kind : Sentinel) : Bool :=
  match e with
  | .sentinel k _ => decide (k = kind)
  | .plain _ => false
  | .releaseAcknowledgementUnavailable => decide (kind = .failedPrecondition)
  | .releaseValidationFailed .. => decide (kind = .failedPrecondition)
  | .releaseValidationErrors _ => decide (kind = .failedPrecondition)

def notFound (message : String) : Err := .sentinel .notFound message
def alreadyExists (message : String) : Err := .sentinel .alreadyExists message
def invalidArgument (message : String) : Err := .sentinel .invalidArgument message
def failedPrecondition (message : String) : Err := .sentinel .failedPrecondition message
def aborted (message : String) : Err := .sentinel .aborted message
def permissionDenied (message : String) : Err := .sentinel .permissionDenied message

end Err

/-! ## release と acknowledgement -/

/-- 一つの資源への正確な pin。 -/
structure ConfigurationReleaseEntry where
  entryAlias : String
  kind : ReleaseEntryKind
  ref : Ref
  version : Nat
  resourceNamespaceID : Nat
  contentType : String
  metadata : String
  parameterDigest : String
  deriving DecidableEq

/-- 不変の configuration release。 -/
structure ConfigurationRelease where
  ns : NamespaceRef
  name : String
  version : Nat
  schemaVersion : Nat
  entries : List ConfigurationReleaseEntry
  digest : String
  metadata : String
  createdBy : String
  createdAt : Time
  deriving DecidableEq

def ConfigurationRelease.track (r : ConfigurationRelease) : ReleaseTrack :=
  ⟨r.ns, r.name, r.schemaVersion⟩

/-- 有効な release とその activation。 -/
structure ActiveConfigurationRelease where
  release : ConfigurationRelease
  activationRevision : Nat
  previousVersion : Nat
  deriving DecidableEq

/-- session に割り当てた target。release が無ければ `release = none`。 -/
structure InstanceReleaseTarget where
  release : Option ConfigurationRelease
  targetRevision : Nat
  activationRevision : Nat
  pinned : Bool
  pinRevision : Nat
  pinnedBy : String
  pinnedAt : Time
  deriving DecidableEq

/-- contract の一 field。 -/
structure ApplicationContractField where
  fieldAlias : String
  kind : ReleaseEntryKind
  contentType : String
  deriving DecidableEq

/-- entry が定める contract の field。content type は parameter のものだけを持つ。 -/
def ConfigurationReleaseEntry.field (e : ConfigurationReleaseEntry) : ApplicationContractField where
  fieldAlias := e.entryAlias
  kind := e.kind
  contentType := if e.kind = .parameter then e.contentType else ""

/-- 全 entry を自分の namespace incarnation に結び付けた release。 -/
def ConfigurationRelease.homed (r : ConfigurationRelease) (nsID : Nat) : ConfigurationRelease :=
  { r with entries := r.entries.map (fun e => { e with resourceNamespaceID := nsID }) }

/-- application の定義。`contract = none` は contract を渡さないこと。 -/
structure Application where
  name : String
  description : String
  releaseName : String
  schemaVersion : Nat
  contract : Option (List ApplicationContractField)
  createdAt : Time
  updatedAt : Time
  archivedAt : Option Time
  deriving DecidableEq

/-- 登録された schema。`contract = none` は未採用。 -/
structure ConfigurationSchema where
  application : String
  releaseName : String
  version : Nat
  schema : String
  digest : String
  contract : Option (List ApplicationContractField)
  deriving DecidableEq

/-- 監査の一行。`metadata` は JSON 化する key と値の組。 -/
structure AuditEvent where
  eventType : String
  actorIdentity : String
  resourceType : String
  resourceNamespaceID : Nat
  ref : Ref
  resourceVersion : Nat
  decision : String
  metadata : List (String × String)
  createdAt : Time
  deriving DecidableEq

/-- client が送る acknowledgement のうち reducer が読む部分。 -/
structure ReleaseAcknowledgement where
  payloadFingerprint : String
  sequence : Nat
  targetRevision : Nat
  releaseVersion : Nat
  activationRevision : Nat
  connectionID : String
  state : ReleaseState
  rejectionCategory : String
  diagnostic : String
  clientTimestamp : Time
  appliedDivergent : Bool
  divergentFieldCount : Nat
  deriving DecidableEq

/-- `ReleaseAcknowledgementFingerprint` が hash する組。接続の世代と server 時刻は含まない。 -/
structure AcknowledgementPayload where
  target : Nat
  version : Nat
  activation : Nat
  state : ReleaseState
  category : String
  diagnostic : String
  timestamp : Time
  divergent : Bool
  fields : Nat
  deriving DecidableEq

/-- 標準 library の hash。`sha256Hex` は `hex(sha256(bytes))`、`payloadDigest` は JSON 化した組の hash。 -/
class Hashing where
  sha256Hex : String → String
  payloadDigest : AcknowledgementPayload → String

end Kms
