import Kms.Storage.ChangeLog
import Kms.Storage.Parameters
import Kms.Storage.Secrets

/-!
# 読み出し

core の操作が使う読み出し。一つの読み出しは一つの read transaction で、その間は store が動かない。
-/

namespace Kms.Storage

open Kms.Infra

/-! ## parameter と secret -/

def labelText : Label → String
  | .current => "current"
  | .previous => "previous"

/-- `resolveParamVersion`。version が無ければ label（既定は current）で選ぶ。 -/
def resolveParamVersion (s : Store) (ref : Ref) (parameterID version : Nat)
    (label : Option Label) : Except Err Nat :=
  if 0 < version then .ok version
  else do
    let label := label.getD .current
    let row ← orThrow (s.parameterLabels.get (parameterID, label))
      (.notFound s!"parameter {ref} label \"{labelText label}\"")
    pure row.versionNumber

def getParameter (rq : Request) (s : Store) (ref : Ref) (version : Nat) (label : Option Label) :
    Except Err Parameter := do
  let p ← findParameter rq s ref
  let version ← resolveParamVersion s ref p.id version label
  let pv ← orThrow (s.parameterVersions.get (p.id, version))
    (.notFound s!"parameter {ref} version {version}")
  pure
    { ref, value := pv.value, contentType := pv.contentType, version, metadata := pv.metadataJSON
      createdBy := pv.createdBy
      labels := (s.parameterLabels.rows.filter (fun l => decide (l.parameterID = p.id))).map
        (fun l => (l.label, l.versionNumber)) }

def getSecretVersion (rq : Request) (s : Store) (ref : Ref) (version : Nat)
    (label : Option Label) : Except Err (SecretModel × SecretVersionModel) := do
  let sec ← findSecret rq s ref
  let label := label.getD .current
  let version ←
    if version = 0 then do
      let row ← orThrow (s.secretLabels.get (sec.id, label))
        (.notFound s!"secret {ref} label \"{labelText label}\"")
      pure row.versionNumber
    else pure version
  let sv ← orThrow (s.secretVersions.get (sec.id, version))
    (.notFound s!"secret {ref} version {version}")
  pure (sec, sv)

/-- secret の情報のうち、current の保護と version の一覧。 -/
structure SecretInfo where
  bound : Bool
  versions : List SecretVersionModel

def getSecretInfo (rq : Request) (s : Store) (ref : Ref) : Except Err SecretInfo := do
  let sec ← findSecret rq s ref
  let bound ←
    match s.secretLabels.get (sec.id, .current) with
    | none => pure false
    | some l => do
      let v ← orThrow (s.secretVersions.get (sec.id, l.versionNumber)) (.failedPrecondition
        s!"secret current label points to missing version {l.versionNumber}")
      pure v.bound
  pure ⟨bound, (s.secretVersions.rows.filter (fun v => decide (v.secretID = sec.id))).insertionSort
    (fun a b => a.versionNumber ≤ b.versionNumber)⟩

/-! ## application と schema -/

def getApplication (s : Store) (name : String) : Except Err Application := do
  let m ← orThrow (s.applications.get name) (.notFound s!"application {name}")
  pure (toApplication m)

/-- version の大きい schema を残す。 -/
def newestSchema : List ConfigurationSchemaModel → Option ConfigurationSchemaModel
  | [] => none
  | m :: ms =>
    match newestSchema ms with
    | none => some m
    | some m' => if m'.versionNumber > m.versionNumber then some m' else some m

/-- `GetConfigurationSchema`。version が `0` なら最新。 -/
def getConfigurationSchema (s : Store) (application releaseName : String) (version : Nat) :
    Except Err ConfigurationSchema := do
  let row :=
    if version = 0 then
      newestSchema (s.schemas.rows.filter (fun m =>
        decide (m.applicationName = application ∧ m.releaseName = releaseName)))
    else s.schemas.get (application, releaseName, version)
  let m ← orThrow row
    (.notFound s!"configuration schema {application}/{releaseName} version {version}")
  pure (schemaFromModel m)

def getConfigurationSchemaByDigest (s : Store) (application releaseName digest : String) :
    Except Err ConfigurationSchema := do
  let m ← orThrow (s.schemas.rows.find? (fun m =>
    decide (m.applicationName = application ∧ m.releaseName = releaseName ∧ m.digest = digest)))
    (.notFound "not found")
  pure (schemaFromModel m)

end Kms.Storage
