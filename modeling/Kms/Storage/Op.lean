import Kms.Infra.Run
import Kms.Storage.Parameters
import Kms.Storage.SecretBinding
import Kms.Storage.ReleaseSessions
import Kms.Storage.ChangeLog

/-!
# 書き込み transaction の列

store の書き込み操作を一つの型 `Op` に集め、直列化された transaction の列を run にする。
失敗した transaction は store を変えない。

操作は触る表ごとに分ける。各群には「触る表だけが変わる」という枠の補題を付け、
他の表についての不変条件はこの補題一つで通す。
-/

namespace Kms.Storage

open Kms.Infra

/-! ## 操作 -/

/-- application・schema・identity の管理と監査。 -/
inductive AdminOp where
  | createApplication (app : Application)
  | createApplicationWithSchema (app : Application) (schema : ConfigurationSchema)
      (annotated : Option (List ApplicationContractField))
  | updateApplication (app : Application) (expected : Option ApplicationDefinitionExpectation)
  | archiveApplication (name : String)
  | unarchiveApplication (name : String)
  | deleteApplication (name : String)
  | createConfigurationSchema (schema : ConfigurationSchema)
      (annotated : Option (List ApplicationContractField))
  | adoptConfigurationSchemaContract (application releaseName : String) (version : Nat)
      (fields : List ApplicationContractField)
  | adoptApplicationContract (name : String) (fields : List ApplicationContractField)
  | createIdentity (name : String) (ns : Option NamespaceRef)
  | appendAudit (event : AuditEvent)

inductive ParameterOp where
  | put (ref : Ref) (value contentType metadata createdBy : String)
      (createOnly preserveMetadata : Bool)
  | delete (ref : Ref)

inductive SecretOp where
  | create (p : CreateSecretParams)
  | transition (p : SecretVersionTransitionParams)
  | setState (ref : Ref) (version : Nat) (state : VersionState)
  | destroy (ref : Ref) (version : Nat)
  | promote (ref : Ref) (version : Nat)
  | delete (ref : Ref)
  | purge (ref : Ref) (guard : SecretBindingCASGuard) (selector : PurgeSelector) (actor : String)

/-- 一つの書き込み transaction。 -/
inductive Op where
  | admin (op : AdminOp)
  | createNamespace (ns : NamespaceRef)
  | deleteNamespace (ns : NamespaceRef)
  | parameter (op : ParameterOp)
  | secret (op : SecretOp)
  | rotateKEK (id : String) (keyCheck : Bytes) (createdAt : Time)
      (rewrapSecret : SecretVersionModel → Except Err Bytes)
      (rewrapCA : CAKeyModel → Except Err Bytes)
  | createRelease (release : ConfigurationRelease) (options : ReleaseCreateOptions)
  | activateRelease (track : ReleaseTrack) (version : Nat) (expectedCurrent : Option Nat)
  | pruneReleases (retainDuration retainVersions : Nat)
  | registerSession (ref : ReleaseSessionRef) (resume : Bool)
  | connectSession (ref : ReleaseSessionRef) (connection : String) (connected : Bool)
  | setPin (ref : ReleaseSessionRef) (version expected : Nat) (actor : String)
  | resolveInstance (ref : ReleaseSessionRef)
  | acknowledge (ref : ReleaseSessionRef) (ack : ReleaseAcknowledgement)
  | pruneSessions (before : Time)
  | resetConnections (stamp : Time)
  | pruneChangeLog (keepDuration maxRows : Nat)

def Op.createsNamespace : Op → Bool
  | .createNamespace _ => true
  | _ => false

def Op.keepsApplications : Op → Bool
  | .admin (.deleteApplication _) => false
  | _ => true

/-- 一つの呼び出し。 -/
structure Call where
  rq : Request
  op : Op

/-- 呼び出し側に返る値のうち、後の性質が読むもの。 -/
inductive Output where
  | done
  | version (n : Nat)
  | target (t : InstanceReleaseTarget)
  | acknowledged (r : ReleaseAcknowledgementResult)
  | failed (e : Err)
  | acknowledgementFailed (r : ReleaseAcknowledgementResult) (e : Err)
  deriving DecidableEq

/-- acknowledgement の結果の disposition。error でも付く。 -/
def Output.disposition : Output → Option Disposition
  | .acknowledged r => some r.disposition
  | .acknowledgementFailed r _ => some r.disposition
  | _ => none

/-! ## 実行 -/

/-- 成功なら commit、失敗なら rollback。 -/
def commit {α : Type} (s : Store) (r : Except Err (α × Store)) (out : α → Output) :
    Output × Store :=
  match r with
  | .ok (a, s') => (out a, s')
  | .error e => (.failed e, s)

theorem commit_store {α : Type} {s : Store} {r : Except Err (α × Store)} {out : α → Output} :
    (commit s r out).2 = s ∨ ∃ a, r = .ok (a, (commit s r out).2) := by
  cases r with
  | error e => exact Or.inl rfl
  | ok p => exact Or.inr ⟨p.1, rfl⟩

theorem commit_cases {α : Type} {s s' : Store} {r : Except Err (α × Store)} {out : α → Output}
    (h : (commit s r out).2 = s') : s' = s ∨ ∃ a, r = .ok (a, s') := by
  subst h
  exact commit_store

/-- 失敗した transaction は store を変えないので、成功した場合だけを見ればよい。 -/
theorem commit_keeps {α : Type} {P : Store → Prop} {s : Store} {r : Except Err (α × Store)}
    {out : α → Output} (h : P s) (hok : ∀ a s', r = .ok (a, s') → P s') : P (commit s r out).2 := by
  cases r with
  | error e => exact h
  | ok p => exact hok p.1 p.2 rfl

theorem commit_target {s : Store} {r : Except Err (InstanceReleaseTarget × Store)}
    {t : InstanceReleaseTarget} (h : (commit s r .target).1 = .target t) :
    r = .ok (t, (commit s r .target).2) := by
  cases r with
  | error e => cases h
  | ok p =>
    cases h
    rfl

def AdminOp.exec (rq : Request) (s : Store) : AdminOp → Output × Store
  | .createApplication app => commit s (Storage.createApplication rq s app) (fun _ => .done)
  | .createApplicationWithSchema app schema annotated =>
    commit s (Storage.createApplicationWithSchema rq s app schema annotated)
      (fun out => .version out.version)
  | .updateApplication app expected =>
    commit s (Storage.updateApplication rq s app expected) (fun _ => .done)
  | .archiveApplication name => commit s (Storage.archiveApplication rq s name) (fun _ => .done)
  | .unarchiveApplication name => commit s (Storage.unarchiveApplication rq s name) (fun _ => .done)
  | .deleteApplication name => commit s (deleteApplicationTx s name) (fun _ => .done)
  | .createConfigurationSchema schema annotated =>
    commit s (createConfigurationSchemaTx s schema annotated) (fun out => .version out.version)
  | .adoptConfigurationSchemaContract application releaseName version fields =>
    commit s (adoptSchemaContractTx s application releaseName version fields) (fun _ => .done)
  | .adoptApplicationContract name fields =>
    commit s (Storage.adoptApplicationContract rq s name fields) (fun _ => .done)
  | .createIdentity name ns => commit s (Storage.createIdentity rq s name ns) (fun _ => .done)
  | .appendAudit event => (.done, { s with auditEvents := s.auditEvents ++ [event] })

def ParameterOp.exec (rq : Request) (s : Store) : ParameterOp → Output × Store
  | .put ref value contentType metadata createdBy createOnly preserveMetadata =>
    commit s (putParameter rq s ref value contentType metadata createdBy createOnly
      preserveMetadata) (fun out => .version out.1)
  | .delete ref => commit s (deleteParameterTx rq s ref) (fun _ => .done)

def SecretOp.exec (rq : Request) (s : Store) : SecretOp → Output × Store
  | .create p => commit s (createSecretVersion rq s p) (fun out => .version out.1)
  | .transition p =>
    commit s (transitionSecretVersion rq s p) (fun out => .version out.currentVersion)
  | .setState ref version state =>
    commit s (setSecretVersionState rq s ref version state) (fun _ => .done)
  | .destroy ref version => commit s (destroySecretVersion rq s ref version) (fun _ => .done)
  | .promote ref version => commit s (promoteSecretVersion rq s ref version) (fun _ => .done)
  | .delete ref => commit s (deleteSecretTx rq s ref) (fun _ => .done)
  | .purge ref guard selector actor =>
    commit s (purgeSecretVersions rq s ref guard selector actor) (fun _ => .done)

section Exec

variable [Hashing]

/-- 一つの transaction の実行。 -/
def exec (s : Store) (c : Call) : Output × Store :=
  match c.op with
  | .admin op => op.exec c.rq s
  | .createNamespace ns => commit s (createNamespace c.rq s ns) (fun _ => .done)
  | .deleteNamespace ns => commit s (deleteNamespaceTx c.rq s ns) (fun _ => .done)
  | .parameter op => op.exec c.rq s
  | .secret op => op.exec c.rq s
  | .rotateKEK id keyCheck createdAt rewrapSecret rewrapCA =>
    commit s (rotateKEK s id keyCheck createdAt rewrapSecret rewrapCA) (fun _ => .done)
  | .createRelease release options =>
    commit s (createConfigurationRelease c.rq s release options) (fun out => .version out.1.version)
  | .activateRelease track version expectedCurrent =>
    commit s (activateConfigurationRelease c.rq s track version expectedCurrent) (fun _ => .done)
  | .pruneReleases retainDuration retainVersions =>
    (.done, pruneConfigurationReleases c.rq s retainDuration retainVersions)
  | .registerSession ref resume =>
    commit s (registerReleaseSession c.rq s ref resume) (fun _ => .done)
  | .connectSession ref connection connected =>
    commit s (connectReleaseSession c.rq s ref connection connected) (fun _ => .done)
  | .setPin ref version expected actor =>
    commit s (setReleasePin c.rq s ref version expected actor) .target
  | .resolveInstance ref => commit s (resolveInstanceRelease c.rq s ref) .target
  | .acknowledge ref ack =>
    match reduceReleaseSessionAcknowledgement c.rq s ref ack with
    | .ok (r, s') => (.acknowledged r, s')
    | .error (r, e) => (.acknowledgementFailed r e, s)
  | .pruneSessions before => (.done, pruneReleaseSessions s before)
  | .resetConnections stamp => (.done, resetReleaseInstanceConnections s stamp)
  | .pruneChangeLog keepDuration maxRows =>
    (.done, Storage.pruneChangeLog c.rq s keepDuration maxRows)

/-- 一つの transaction の後の store。 -/
def step (s : Store) (c : Call) : Store := (exec s c).2

theorem step_acknowledge {s s' : Store} {rq : Request} {ref : ReleaseSessionRef}
    {ack : ReleaseAcknowledgement} (hs : step s ⟨rq, .acknowledge ref ack⟩ = s') :
    s' = s ∨ ∃ r, reduceReleaseSessionAcknowledgement rq s ref ack = .ok (r, s') := by
  cases hred : reduceReleaseSessionAcknowledgement rq s ref ack with
  | error p =>
    simp only [step, exec, hred] at hs
    exact Or.inl hs.symm
  | ok p =>
    simp only [step, exec, hred] at hs
    subst hs
    exact Or.inr ⟨p.1, rfl⟩

end Exec

/-! ## 例の呼び出し列 -/

/-- 例のための hash。 -/
abbrev sampleHashing : Hashing := ⟨id, fun p => p.diagnostic⟩

def sampleNamespace : NamespaceRef := ⟨"prod", "shop"⟩

def sampleSession : ReleaseSessionRef :=
  ⟨⟨sampleNamespace, "runtime", 0⟩, "api", "api-1", "session-1", "api"⟩

def sampleRelease : ConfigurationRelease :=
  { ns := sampleNamespace, name := "runtime", version := 0, schemaVersion := 0, entries := []
    digest := "", metadata := "", createdBy := "ops", createdAt := 0 }

def sampleRequest : Request := ⟨1, fun _ => none⟩

/-- release を有効にし、接続した session に target を渡すまで。 -/
def sampleCalls : List Call :=
  [⟨sampleRequest, .createNamespace sampleNamespace⟩,
    ⟨sampleRequest, .createRelease sampleRelease ⟨false, none⟩⟩,
    ⟨sampleRequest, .activateRelease sampleSession.track 1 none⟩,
    ⟨sampleRequest, .registerSession sampleSession false⟩,
    ⟨sampleRequest, .connectSession sampleSession "c1" true⟩,
    ⟨sampleRequest, .resolveInstance sampleSession⟩]

/-- 渡した target への acknowledgement。 -/
def sampleAck (sequence : Nat) (state : ReleaseState) : ReleaseAcknowledgement :=
  { payloadFingerprint := "", sequence, targetRevision := 1, releaseVersion := 1
    activationRevision := 1, connectionID := "c1", state, rejectionCategory := ""
    diagnostic := "", clientTimestamp := 0, appliedDivergent := false, divergentFieldCount := 0 }

end Kms.Storage
