import Kms.Core.Request
import Kms.Storage.Reads

/-!
# release の検査

`internal/core/releases.go` の検査を写す。保存された release の全 entry を一つずつ読み直し、
parameter の値を組み立てて schema に通す。読み出しの間に他の transaction が入りうる。

* `validateApplicationReleaseContract` — application の contract との照合
* `validateReleaseValues` — 全 entry の読み直しと schema の検査
* `sanitizeSchemaErrors_ne_nil` — schema の error は必ず違反を残す
-/

namespace Kms.Core

open Kms.Infra Kms.Storage

/-! ## JSON Schema -/

/-- validator の error の木。葉が個々の違反である。 -/
inductive SchemaError where
  | mk (instanceLocation keywordPath : List String) (message : String) (causes : List SchemaError)

mutual

def schemaErrorLeaves : SchemaError → List SchemaError
  | .mk location path message [] => [.mk location path message []]
  | .mk _ _ _ (c :: cs) => schemaErrorLeaves c ++ causesLeaves cs

def causesLeaves : List SchemaError → List SchemaError
  | [] => []
  | c :: cs => schemaErrorLeaves c ++ causesLeaves cs

end

theorem schemaErrorLeaves_ne_nil : ∀ e : SchemaError, schemaErrorLeaves e ≠ []
  | .mk _ _ _ [] => by simp [schemaErrorLeaves]
  | .mk _ _ _ (c :: cs) => by
    have h := schemaErrorLeaves_ne_nil c
    simp [schemaErrorLeaves, h]

def jsonPointerEscape (segment : String) : String :=
  String.ofList (segment.toList.flatMap (fun c =>
    if c = '~' then ['~', '0'] else if c = '/' then ['~', '1'] else [c]))

def instancePointer (location : List String) : String :=
  String.join (location.map (fun segment => "/" ++ jsonPointerEscape segment))

/-- 葉の違反。 -/
def leafViolation : SchemaError → ReleaseValidationError
  | .mk location path message _ =>
    { entryAlias := location.head?.getD ""
      code := "schema_violation"
      message
      schemaPointer := if path = [] then "" else "/" ++ "/".intercalate path
      instancePointer := instancePointer location }

/-- `sanitizeSchemaErrors`。違反は 64 件までを返す。 -/
def sanitizeSchemaErrors (e : SchemaError) : List ReleaseValidationError :=
  ((schemaErrorLeaves e).take 64).map leafViolation

theorem sanitizeSchemaErrors_ne_nil (e : SchemaError) : sanitizeSchemaErrors e ≠ [] := by
  intro h
  rw [sanitizeSchemaErrors, List.map_eq_nil_iff, List.take_eq_nil_iff] at h
  rcases h with h | h
  · cases h
  · exact schemaErrorLeaves_ne_nil e h

/-- 値の解釈と JSON Schema の validator。どちらも純粋な関数である。 -/
class SchemaValidator where
  /-- 値を解釈したもの。 -/
  Value : Type
  Schema : Type
  /-- `parameterSchemaValue`。 -/
  parameterSchemaValue : (value contentType : String) → Option Value
  /-- `compileSchema`。 -/
  compileSchema : String → Option Schema
  /-- `sch.Validate`。`none` は schema を満たすこと。 -/
  validate : Schema → List (String × Value) → Option SchemaError

variable [SchemaValidator]

open SchemaValidator

/-- 組み立てた object の schema による検査。 -/
def schemaViolations (schema : String) (object : List (String × Value)) :
    List ReleaseValidationError :=
  match compileSchema schema with
  | none => [violation "" "schema_violation" "configuration schema is invalid"]
  | some sch =>
    match validate sch object with
    | none => []
    | some e => sanitizeSchemaErrors e

/-- 組み立てた object が schema を満たすこと。 -/
def Satisfies (schema : String) (object : List (String × Value)) : Prop :=
  ∃ sch, compileSchema schema = some sch ∧ validate sch object = none

theorem schemaViolations_eq_nil_iff {schema : String} {object : List (String × Value)} :
    schemaViolations schema object = [] ↔ Satisfies schema object := by
  unfold schemaViolations Satisfies
  cases hc : compileSchema schema with
  | none => simp
  | some sch =>
    cases hv : validate sch object with
    | none => simp [hv]
    | some e => simp [hv, sanitizeSchemaErrors_ne_nil]

/-! ## contract -/

/-- contract の field と entry の照合。 -/
def fieldMatches (field : ApplicationContractField) (e : ConfigurationReleaseEntry) : Bool :=
  decide (field.fieldAlias = e.entryAlias) && decide (field.kind = e.kind) &&
    (decide (field.kind ≠ .parameter) || decide (field.contentType = e.contentType))

/-- field と entry を順に照合し、合わない最初の alias を返す。 -/
def firstMismatch : List ApplicationContractField → List ConfigurationReleaseEntry → Option String
  | f :: fs, e :: es => if fieldMatches f e then firstMismatch fs es else some e.entryAlias
  | _, _ => none

/-- contract と entry の一致。 -/
def matchContract (appName : String) (contract : List ApplicationContractField)
    (entries : List ConfigurationReleaseEntry) : Except Err Unit := do
  require (entries.length = contract.length)
    (.failedPrecondition s!"release does not match application {appName} contract")
  match firstMismatch contract entries with
  | some entryAlias => .error (.failedPrecondition
      s!"release alias \"{entryAlias}\" does not match application {appName} contract")
  | none => .ok ()

/--
`validateApplicationReleaseContract`。contract が未採用なら、`adopt` のときだけ entry から採用する。
-/
def validateApplicationReleaseContract (ctx : Ctx) (appName releaseName : String)
    (schemaVersion : Nat) (entries : List ConfigurationReleaseEntry) (adopt : Bool) :
    Flow Shared Err Unit := do
  let app ← readStore ctx (fun _ s => getApplication s appName)
  Flow.check (require (app.releaseName = "" ∨ releaseName = app.releaseName)
    (.failedPrecondition s!"application {appName} requires release name \"{app.releaseName}\""))
  Flow.check (require (app.archivedAt = none)
    (.failedPrecondition s!"application {appName} is archived"))
  let contract ← readStore ctx (fun _ s =>
    getConfigurationSchemaContract s appName releaseName schemaVersion)
  match contract with
  | some contract => Flow.check (matchContract appName contract entries)
  | none =>
    if adopt then do
      let adopted ← writeStore ctx (fun _ s =>
        adoptSchemaContractTx s appName releaseName schemaVersion (entries.map (·.field)))
      Flow.check (matchContract appName (adopted.getD []) entries)
    else pure ()

/-! ## entry -/

/-- 保存せずに検査する値。 -/
structure ReleaseCandidateValue where
  value : String
  contentType : String
  deriving DecidableEq

def checkVersionReadable (now : Time) (sv : SecretVersionModel) : Except Err Unit := do
  require (sv.destroyedAt.getD 0 = 0)
    (.failedPrecondition s!"secret version {sv.versionNumber} is destroyed")
  match sv.state with
  | .enabled => pure ()
  | .disabled =>
    .error (.failedPrecondition s!"secret version {sv.versionNumber} is disabled")
  | .destroyed =>
    .error (.failedPrecondition s!"secret version {sv.versionNumber} is destroyed")
  require (sv.expiresAt.getD 0 = 0 ∨ now ≤ sv.expiresAt.getD 0)
    (.failedPrecondition s!"secret version {sv.versionNumber} is expired")

def validationReadError (entryAlias : String) (e : Err) : ReleaseValidationError :=
  violation entryAlias (if e.is .notFound || e.is .aborted then "not_found" else "unreadable")
    "referenced resource is unavailable"

def validationAuthError (entryAlias : String) (e : Err) : ReleaseValidationError :=
  violation entryAlias
    (if e.is .notFound || e.is .aborted then "not_found" else "permission_denied")
    "referenced resource is not readable"

section Values

variable [Hashing] [Authorization]

/-- 保存された entry を、その namespace incarnation に結び付ける。 -/
def entryContext (ctx : Ctx) (e : ConfigurationReleaseEntry) :
    Except ReleaseValidationError Ctx :=
  if 0 < e.resourceNamespaceID then
    (ctx.bindNamespaceIncarnation e.ref.ns e.resourceNamespaceID).mapError (fun _ =>
      violation e.entryAlias "not_found"
        "release entry references a missing or replaced namespace")
  else .ok ctx

/-- `authorizeEntries` なら資源ごとに認可する。 -/
def authorizeEntry (ctx : Ctx) (pr : Principal) (authorizeEntries : Bool)
    (e : ConfigurationReleaseEntry) (operation resourceType : String) :
    Flow Shared ReleaseValidationError Ctx :=
  if authorizeEntries then do
    let (authorized, _) ← (authorize ctx pr operation resourceType e.ref).mapError
      (validationAuthError e.entryAlias)
    pure authorized
  else pure ctx

/-- parameter の値と content type。上書きがあれば store を読まない。 -/
def entryValue (ctx : Ctx) (override : Option ReleaseCandidateValue)
    (e : ConfigurationReleaseEntry) : Flow Shared ReleaseValidationError (String × String) :=
  match override with
  | some o => pure (o.value, o.contentType)
  | none => do
    let p ← (readStore ctx (fun rq s => getParameter rq s e.ref e.version none)).mapError
      (validationReadError e.entryAlias)
    Flow.check (require (Hashing.sha256Hex p.value = e.parameterDigest)
      (violation e.entryAlias "digest_mismatch" "parameter digest does not match release pin"))
    pure (p.value, p.contentType)

/-- 値を content type に従って解釈する。 -/
def interpretValue (e : ConfigurationReleaseEntry) (value contentType : String) :
    Except ReleaseValidationError (String × Value) := do
  require (contentType = e.contentType)
    (violation e.entryAlias "content_type" "parameter content type does not match release pin")
  let v ← orThrow (parameterSchemaValue value e.contentType)
    (violation e.entryAlias (if contentType = "json" then "malformed_json" else "content_type")
      "parameter does not match its declared content type")
  pure (e.entryAlias, v)

/-- secret version の検査。 -/
def secretEntry (ctx : Ctx) (e : ConfigurationReleaseEntry) :
    Flow Shared ReleaseValidationError Unit := do
  let (_, sv) ← (readStore ctx (fun rq s => getSecretVersion rq s e.ref e.version none)).mapError
    (validationReadError e.entryAlias)
  let now ← Flow.lift (Prog.read (fun w : Shared => w.now))
  Flow.check ((checkVersionReadable now sv).mapError (fun _ =>
    violation e.entryAlias "unreadable" "secret version is not readable"))
  Flow.check (require (sv.contentType = e.contentType)
    (violation e.entryAlias "content_type" "secret content type does not match release pin"))

/-- 一つの entry の検査。parameter なら、schema に通す組を返す。 -/
def validateReleaseEntry (ctx : Ctx) (pr : Principal) (home : NamespaceRef)
    (overrides : String → Option ReleaseCandidateValue) (authorizeEntries : Bool)
    (e : ConfigurationReleaseEntry) :
    Flow Shared ReleaseValidationError (Option (String × Value)) := do
  Flow.check (require (e.ref.ns = home)
    (violation e.entryAlias "unreadable" "release entry is outside the release namespace"))
  let bound ← Flow.check (entryContext ctx e)
  match e.kind with
  | .parameter => do
    let bound ← authorizeEntry bound pr authorizeEntries e "parameter:read" "parameter"
    let (value, contentType) ← entryValue bound (overrides e.entryAlias) e
    let pair ← Flow.check (interpretValue e value contentType)
    pure (some pair)
  | .secret => do
    let bound ← authorizeEntry bound pr authorizeEntries e "secret:read" "secret"
    secretEntry bound e
    pure none
  | .other _ => throw (violation e.entryAlias "unreadable" "release entry kind is invalid")

/-- 全 entry の検査。違反と、schema に通す object を集める。 -/
def validateEach (ctx : Ctx) (pr : Principal) (home : NamespaceRef)
    (overrides : String → Option ReleaseCandidateValue) (authorizeEntries : Bool) :
    List ConfigurationReleaseEntry →
      Prog Shared (List ReleaseValidationError × List (String × Value))
  | [] => pure ([], [])
  | e :: es => do
    let checked ← (validateReleaseEntry ctx pr home overrides authorizeEntries e).run
    let (violations, object) ← validateEach ctx pr home overrides authorizeEntries es
    match checked with
    | .error v => pure (v :: violations, object)
    | .ok pair => pure (violations, pair.toList ++ object)

def validateReleaseValues (ctx : Ctx) (pr : Principal) (rel : ConfigurationRelease)
    (overrides : String → Option ReleaseCandidateValue) (authorizeEntries : Bool) :
    Prog Shared (List ReleaseValidationError) := do
  let (violations, object) ← validateEach ctx pr rel.ns overrides authorizeEntries rel.entries
  if violations = [] ∧ rel.schemaVersion ≠ 0 then do
    let schema ← (readStore ctx (fun _ s =>
      getConfigurationSchema s rel.ns.app rel.name rel.schemaVersion)).run
    match schema with
    | .error _ => pure [violation "" "not_found" "configuration schema is unavailable"]
    | .ok schema => pure (schemaViolations schema.schema object)
  else pure violations

def validateReleaseEntries (ctx : Ctx) (pr : Principal) (rel : ConfigurationRelease)
    (overrides : String → Option ReleaseCandidateValue) (authorizeEntries adopt : Bool) :
    Flow Shared Err (List ReleaseValidationError) := do
  validateApplicationReleaseContract ctx rel.ns.app rel.name rel.schemaVersion rel.entries adopt
  Flow.lift (validateReleaseValues ctx pr rel overrides authorizeEntries)

/-- 一つの entry が、release の namespace incarnation に結び付いていること。 -/
def integrityViolation (home : NamespaceRef) (e : ConfigurationReleaseEntry) :
    Option ReleaseValidationError :=
  if e.ref.ns ≠ home then
    some (violation e.entryAlias "unreadable" "release entry is outside the release namespace")
  else if e.resourceNamespaceID = 0 then
    some (violation e.entryAlias "unreadable" "release entry is missing its namespace identity")
  else none

def persistedReleaseIntegrityViolations (home : NamespaceRef) (rel : ConfigurationRelease) :
    List ReleaseValidationError :=
  if rel.ns ≠ home then
    [violation "" "unreadable" "release is outside its requested namespace"]
  else rel.entries.filterMap (integrityViolation home)

def validatePersistedReleaseEntries (ctx : Ctx) (pr : Principal) (home : NamespaceRef)
    (rel : ConfigurationRelease) (authorizeEntries adopt : Bool) :
    Flow Shared Err (List ReleaseValidationError) :=
  let violations := persistedReleaseIntegrityViolations home rel
  if violations ≠ [] then pure violations
  else validateReleaseEntries ctx pr rel (fun _ => none) authorizeEntries adopt

def validateConfigurationRelease (ctx : Ctx) (pr : Principal) (track : ReleaseTrack)
    (version : Nat) (authorizeEntries : Bool) : Flow Shared Err (List ReleaseValidationError) := do
  let rel ← readStore ctx (fun rq s => getConfigurationRelease rq s track version)
  Flow.check (require (rel.track = track)
    (.failedPrecondition "release does not match requested schema track"))
  validatePersistedReleaseEntries ctx pr track.ns rel authorizeEntries true

/-! ## 検査の枠 -/

variable {P : Shared → Shared → Prop}

/-- contract の採用を許す関係。 -/
def AllowsAdopt (P : Shared → Shared → Prop) : Prop :=
  ∀ (w : Shared) (appName releaseName : String) (version : Nat)
    (fields : List ApplicationContractField) (out : Option (List ApplicationContractField))
    (st : Store), adoptSchemaContractTx w.store appName releaseName version fields = .ok (out, st) →
    P w { w with store := st }

omit [SchemaValidator] [Hashing] [Authorization] in
theorem within_validateApplicationReleaseContract (hP : AllowsAudit P) (hA : AllowsAdopt P)
    (ctx : Ctx) (appName releaseName : String) (schemaVersion : Nat)
    (entries : List ConfigurationReleaseEntry) (adopt : Bool) :
    Within P (validateApplicationReleaseContract ctx appName releaseName schemaVersion entries
      adopt).run := by
  refine Within.flow_bind (within_readStore hP.refl _ _) (fun app => ?_)
  refine Within.flow_bind (within_check _) (fun _ => ?_)
  refine Within.flow_bind (within_check _) (fun _ => ?_)
  refine Within.flow_bind (within_readStore hP.refl _ _) (fun contract => ?_)
  cases contract with
  | some contract => exact within_check _
  | none =>
    cases adopt with
    | false => exact Within.pure _
    | true =>
      refine Within.flow_bind (within_writeStore hP.refl ?_) (fun _ => within_check _)
      exact fun w out st h => hA w _ _ _ _ out st h

omit [SchemaValidator] [Hashing] in
theorem within_authorizeEntry (hP : AllowsAudit P) (ctx : Ctx) (pr : Principal)
    (authorizeEntries : Bool) (e : ConfigurationReleaseEntry) (operation resourceType : String) :
    Within P (authorizeEntry ctx pr authorizeEntries e operation resourceType).run := by
  unfold authorizeEntry
  split
  · exact Within.flow_bind (Within.flow_mapError (within_authorize hP ctx pr _ _ _))
      (fun _ => Within.pure _)
  · exact Within.pure _

theorem within_validateReleaseEntry (hP : AllowsAudit P) (ctx : Ctx) (pr : Principal)
    (home : NamespaceRef) (overrides : String → Option ReleaseCandidateValue)
    (authorizeEntries : Bool) (e : ConfigurationReleaseEntry) :
    Within P (validateReleaseEntry ctx pr home overrides authorizeEntries e).run := by
  refine Within.flow_bind (Within.pure _) (fun _ => ?_)
  refine Within.flow_bind (Within.pure _) (fun bound => ?_)
  split
  · refine Within.flow_bind (within_authorizeEntry hP _ _ _ _ _ _) (fun bound => ?_)
    refine Within.flow_bind ?_ (fun _ => Within.flow_bind (Within.pure _) (fun _ => Within.pure _))
    unfold entryValue
    split
    · exact Within.pure _
    · exact Within.flow_bind (Within.flow_mapError (within_readStore hP.refl _ _))
        (fun _ => Within.flow_bind (Within.pure _) (fun _ => Within.pure _))
  · refine Within.flow_bind (within_authorizeEntry hP _ _ _ _ _ _) (fun bound => ?_)
    refine Within.flow_bind ?_ (fun _ => Within.pure _)
    refine Within.flow_bind (Within.flow_mapError (within_readStore hP.refl _ _)) (fun _ => ?_)
    refine Within.flow_bind (Within.flow_lift (Within.read hP.refl _)) (fun _ => ?_)
    exact Within.flow_bind (Within.pure _) (fun _ => Within.pure _)
  · exact Within.pure _

theorem within_validateEach (hP : AllowsAudit P) (ctx : Ctx) (pr : Principal)
    (home : NamespaceRef) (overrides : String → Option ReleaseCandidateValue)
    (authorizeEntries : Bool) (es : List ConfigurationReleaseEntry) :
    Within P (validateEach ctx pr home overrides authorizeEntries es) := by
  induction es with
  | nil => exact Within.pure _
  | cons e es ih =>
    refine Within.bind (within_validateReleaseEntry hP ctx pr home overrides authorizeEntries e)
      (fun checked => Within.bind ih (fun _ => ?_))
    cases checked with
    | error v | ok pair => exact Within.pure _

theorem within_validateReleaseValues (hP : AllowsAudit P) (ctx : Ctx) (pr : Principal)
    (rel : ConfigurationRelease) (overrides : String → Option ReleaseCandidateValue)
    (authorizeEntries : Bool) :
    Within P (validateReleaseValues ctx pr rel overrides authorizeEntries) := by
  refine Within.bind (within_validateEach hP ctx pr _ overrides authorizeEntries _)
    (fun ⟨violations, object⟩ => ?_)
  dsimp only
  split
  · refine Within.bind (within_readStore hP.refl _ _) (fun schema => ?_)
    cases schema with
    | error e | ok schema => exact Within.pure _
  · exact Within.pure _

theorem within_validateReleaseEntries (hP : AllowsAudit P) (hA : AllowsAdopt P) (ctx : Ctx)
    (pr : Principal) (rel : ConfigurationRelease)
    (overrides : String → Option ReleaseCandidateValue) (authorizeEntries adopt : Bool) :
    Within P (validateReleaseEntries ctx pr rel overrides authorizeEntries adopt).run :=
  Within.flow_bind (within_validateApplicationReleaseContract hP hA ctx _ _ _ _ adopt)
    (fun _ => Within.flow_lift
      (within_validateReleaseValues hP ctx pr rel overrides authorizeEntries))

theorem within_validateConfigurationRelease (hP : AllowsAudit P) (hA : AllowsAdopt P) (ctx : Ctx)
    (pr : Principal) (track : ReleaseTrack) (version : Nat) (authorizeEntries : Bool) :
    Within P (validateConfigurationRelease ctx pr track version authorizeEntries).run := by
  refine Within.flow_bind (within_readStore hP.refl _ _) (fun rel => ?_)
  refine Within.flow_bind (within_check _) (fun _ => ?_)
  unfold validatePersistedReleaseEntries
  dsimp only
  split
  · exact Within.pure _
  · exact within_validateReleaseEntries hP hA ctx pr rel _ authorizeEntries true

end Values

end Kms.Core
