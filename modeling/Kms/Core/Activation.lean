import Kms.Core.Validation
import Kms.Storage.Contracts

/-!
# 有効化

`Service.ActivateConfigurationRelease` を写す。検査は transaction の外で一つずつ行い、有効化の
transaction は pin と digest だけを確かめ直す。

release は不変で番号は再利用されない（`Evolves`）ので、検査した release と有効にする release は同じである。
digest の一致と hash の単射性から、commit の時の値は検査した値と同じである。

* `Service.activateConfigurationRelease` — 認可・検査・transaction・監査
* `same_release` — 前に読んだ release は、後の時点の行と entry そのものである
* `activation_activates_validated` — 成功したら、commit の時の全 pin が読め、値は schema を満たす
-/

namespace Kms.Core

open Kms.Infra Kms.Storage SchemaValidator

/-! ## 操作 -/

section

variable [SchemaValidator] [Hashing] [Authorization]

/-- 有効化の失敗の監査。CAS の衝突と pin の違反は deny である。 -/
def activationFailure : Err → String × String × List (String × String)
  | .releaseValidationFailed .. =>
    ("configuration_release.activate", "deny",
      [("error_count", "1"), ("reason", "validation_failed")])
  | e =>
    if e.is .aborted then ("configuration_release.cas_conflict", "deny", [])
    else ("configuration_release.activate", "error", [])

/-- 有効化の成功の監査。前の version より古い version への有効化は rollback である。 -/
def activationEvent (version : Nat) (active : ActiveConfigurationRelease) : String :=
  if 0 < active.previousVersion ∧ version < active.previousVersion then
    "configuration_release.rollback"
  else "configuration_release.activate"

def releaseAuditMetadata (schemaVersion activationRevision : Nat)
    (metadata : List (String × String)) : List (String × String) :=
  let metadata := setMetadata metadata "schema_version" (toString schemaVersion)
  if activationRevision ≠ 0 then
    setMetadata metadata "activation_revision" (toString activationRevision)
  else metadata

/-- release の操作の監査。 -/
def auditRelease (ctx : Ctx) (pr : Principal) (track : ReleaseTrack) (ns : Option NamespaceModel)
    (version : Nat) (event decision : String) (metadata : List (String × String)) :
    Flow Shared Err Unit :=
  Flow.lift (auditRefWithNamespaceID ctx pr event "configuration_release" ⟨track.ns, track.name⟩
    ((ns.map (·.id)).getD 0) version decision metadata)

/-- 検査の通った release を有効にし、監査に残す。 -/
def activateValidated (ctx : Ctx) (pr : Principal) (track : ReleaseTrack)
    (ns : Option NamespaceModel) (version : Nat) (expectedCurrent : Option Nat) :
    Flow Shared Err (ActiveConfigurationRelease × Bool) := do
  let activated ← (writeStore ctx (fun rq s =>
    Storage.activateConfigurationRelease rq s track version expectedCurrent)).attempt
  match activated with
  | .error e => do
    let (event, decision, metadata) := activationFailure e
    auditRelease ctx pr track ns version event decision metadata
    throw e
  | .ok (active, false) => pure (active, false)
  | .ok (active, true) => do
    auditRelease ctx pr track ns version (activationEvent version active) "allow"
      (releaseAuditMetadata track.schemaVersion active.activationRevision
        [("previous_version", toString active.previousVersion)])
    pure (active, true)

def Service.activateConfigurationRelease (ctx : Ctx) (pr : Principal) (track : ReleaseTrack)
    (version : Nat) (expectedCurrent : Option Nat) :
    Flow Shared Err (ActiveConfigurationRelease × Bool) := do
  Flow.check (validateReleaseAddress track.ns track.name)
  Flow.check (require (version ≠ 0) (.invalidArgument "version is required"))
  let (ctx, ns) ← authorize (ctx.withReleaseAuditTrack track) pr "configuration-release:activate"
    "configuration_release" ⟨track.ns, track.name⟩
  let validated ← (validateConfigurationRelease ctx pr track version false).attempt
  match validated with
  | .error e => do
    auditRelease ctx pr track ns version "configuration_release.activate" "error" []
    throw e
  | .ok (v :: vs) => do
    auditRelease ctx pr track ns version "configuration_release.activate" "deny"
      [("error_count", toString (v :: vs).length), ("reason", "validation_failed")]
    throw (.releaseValidationErrors (v :: vs))
  | .ok [] => activateValidated ctx pr track ns version expectedCurrent

/-! ## 検査が確かめたこと -/

/-- 検査の通った entry。parameter なら、digest の合う値が解釈できた。 -/
def EntryChecked (e : ConfigurationReleaseEntry) (pair : Option (String × Value)) : Prop :=
  match e.kind with
  | .parameter => ∃ value v, Hashing.sha256Hex value = e.parameterDigest ∧
      parameterSchemaValue value e.contentType = some v ∧ pair = some (e.entryAlias, v)
  | .secret => pair = none
  | .other _ => False

section Checked

variable {R : Shared → Shared → Prop} {s s' : Shared} {tr : List (Shared × Shared)}

variable {ctx : Ctx} {pr : Principal} {authorizeEntries : Bool}

theorem validateReleaseEntry_checked {home : NamespaceRef}
    {e : ConfigurationReleaseEntry} {pair : Option (String × Value)}
    (h : Runs R (validateReleaseEntry ctx pr home (fun _ => none) authorizeEntries e).run s tr
      (.ok pair) s') : EntryChecked e pair := by
  obtain ⟨_, _, _, _, _, h, _⟩ := flow_bind_ok_iff.mp h
  obtain ⟨_, bound, _, _, _, h, _⟩ := flow_bind_ok_iff.mp h
  split at h
  · next hk =>
    obtain ⟨_, bound, _, _, _, h, _⟩ := flow_bind_ok_iff.mp h
    obtain ⟨_, ⟨value, contentType⟩, _, _, hvalue, h, _⟩ := flow_bind_ok_iff.mp h
    obtain ⟨_, kv, _, _, hinterpret, h, _⟩ := flow_bind_ok_iff.mp h
    obtain ⟨_, hkv, _⟩ := flow_pure_iff.mp h
    cases hkv
    -- 読んだ値の digest は pin の digest と合う。
    obtain ⟨_, p, _, _, _, hvalue, _⟩ := flow_bind_ok_iff.mp hvalue
    obtain ⟨_, _, _, _, hdigest, hvalue, _⟩ := flow_bind_ok_iff.mp hvalue
    obtain ⟨_, hdigest, _⟩ := flow_check_iff.mp hdigest
    have hdigest := require_eq_ok_iff.mp hdigest.symm
    obtain ⟨_, hp, _⟩ := flow_pure_iff.mp hvalue
    cases hp
    obtain ⟨_, hinterpret, _⟩ := flow_check_iff.mp hinterpret
    replace hinterpret := hinterpret.symm
    simp only [interpretValue, bind_eq_ok_iff, require_eq_ok_iff, orThrow_eq_ok_iff,
      pure_eq_ok_iff] at hinterpret
    obtain ⟨_, _, v, hv, rfl⟩ := hinterpret
    rw [EntryChecked, hk]
    exact ⟨_, v, hdigest, hv, rfl⟩
  · next hk =>
    obtain ⟨_, bound, _, _, _, h, _⟩ := flow_bind_ok_iff.mp h
    obtain ⟨_, _, _, _, _, h, _⟩ := flow_bind_ok_iff.mp h
    obtain ⟨_, hpair, _⟩ := flow_pure_iff.mp h
    cases hpair
    rw [EntryChecked, hk]
  · obtain ⟨_, hpair, _⟩ := flow_throw_iff.mp h
    cases hpair

theorem validateEach_checked {home : NamespaceRef} {es : List ConfigurationReleaseEntry}
    {object : List (String × Value)}
    (h : Runs R (validateEach ctx pr home (fun _ => none) authorizeEntries es) s tr ([], object)
      s') :
    ∃ pairs, List.Forall₂ EntryChecked es pairs ∧ object = pairs.flatMap Option.toList := by
  induction es generalizing s tr object s' with
  | nil =>
    obtain ⟨_, hout, _⟩ := runs_pure_iff.mp h
    cases hout
    exact ⟨[], .nil, rfl⟩
  | cons e es ih =>
    obtain ⟨_, checked, _, _, he, h, _⟩ := runs_bind_iff.mp h
    obtain ⟨_, ⟨violations, rest⟩, _, _, hes, h, _⟩ := runs_bind_iff.mp h
    cases checked with
    | error v =>
      obtain ⟨_, hout, _⟩ := runs_pure_iff.mp h
      cases hout
    | ok pair =>
      obtain ⟨_, hout, _⟩ := runs_pure_iff.mp h
      cases hout
      obtain ⟨pairs, hpairs, rfl⟩ := ih hes
      exact ⟨pair :: pairs, .cons (validateReleaseEntry_checked he) hpairs, rfl⟩

/-- 検査を通った release を読んだ時点と、検査が確かめたこと。 -/
structure ReleaseChecked (ctx : Ctx) (track : ReleaseTrack) (version : Nat) (read schema : Shared)
    (rel : ConfigurationRelease) (object : List (String × Value)) : Prop where
  release : getConfigurationRelease (ctx.request read.now) read.store track version = .ok rel
  entries : ∃ pairs, List.Forall₂ EntryChecked rel.entries pairs ∧
    object = pairs.flatMap Option.toList
  satisfied : rel.schemaVersion ≠ 0 → ∃ row,
    getConfigurationSchema schema.store rel.ns.app rel.name rel.schemaVersion = .ok row ∧
      Satisfies row.schema object

/-- 違反の無い検査は、release を読み、全 entry を確かめ、object を schema に通した。 -/
theorem validateConfigurationRelease_checked {track : ReleaseTrack} {version : Nat}
    (hrefl : ∀ w, R w w) (htrans : ∀ a b c, R a b → R b c → R a c)
    (hP : AllowsAudit R) (hA : AllowsAdopt R)
    (h : Runs R (validateConfigurationRelease ctx pr track version authorizeEntries).run s tr
      (.ok []) s') :
    ∃ read schema rel object, R s read ∧ R read schema ∧ R schema s' ∧
      ReleaseChecked ctx track version read schema rel object := by
  obtain ⟨_, rel, read, _, hread, hrest, _⟩ := flow_bind_ok_iff.mp h
  obtain ⟨hsr, _, hrel⟩ := runs_readStore_iff.mp hread
  obtain ⟨_, _, _, _, htrack, hpersisted, _⟩ := flow_bind_ok_iff.mp hrest
  obtain ⟨_, _, hsame⟩ := flow_check_iff.mp htrack
  rw [hsame] at hpersisted
  unfold validatePersistedReleaseEntries at hpersisted
  dsimp only at hpersisted
  split at hpersisted
  · next hne =>
    obtain ⟨_, hout, _⟩ := flow_pure_iff.mp hpersisted
    rw [Except.ok.injEq] at hout
    exact absurd hout.symm hne
  · obtain ⟨_, _, checkedAt, _, hcontract, hvalues, _⟩ := flow_bind_ok_iff.mp hpersisted
    have hcontractR : R read checkedAt := hcontract.rel hrefl htrans
      ((within_validateApplicationReleaseContract hP hA ctx _ _ _ _ true).of_runs hcontract)
    obtain ⟨_, hnil, hvalues⟩ := flow_lift_iff.mp hvalues
    cases hnil
    obtain ⟨_, ⟨violations, object⟩, eachAt, _, heach, hschema, _⟩ := runs_bind_iff.mp hvalues
    have heachR : R checkedAt eachAt := heach.rel hrefl htrans
      ((within_validateEach hP ctx pr _ _ authorizeEntries _).of_runs heach)
    have hreadR := htrans _ _ _ hcontractR heachR
    dsimp only at hschema
    split at hschema
    · next hcond =>
      obtain ⟨rfl, _⟩ := hcond
      obtain ⟨_, schema, schemaAt, _, hget, hout, _⟩ := runs_bind_iff.mp hschema
      obtain ⟨hsR, _, hget⟩ := runs_readStore_iff.mp hget
      cases schema with
      | error e =>
        obtain ⟨_, hnil, _⟩ := runs_pure_iff.mp hout
        cases hnil
      | ok row =>
        obtain ⟨_, hnil, rfl⟩ := runs_pure_iff.mp hout
        exact ⟨read, s', rel, object, hsr, htrans _ _ _ hreadR hsR, hrefl _, hrel.symm,
          validateEach_checked heach,
          fun _ => ⟨row, hget.symm, schemaViolations_eq_nil_iff.mp hnil.symm⟩⟩
    · next hcond =>
      obtain ⟨_, hnil, rfl⟩ := runs_pure_iff.mp hschema
      subst hnil
      exact ⟨read, s', rel, object, hsr, hreadR, hrefl _, hrel.symm, validateEach_checked heach,
        fun hne => absurd ⟨rfl, hne⟩ hcond⟩

end Checked

/-! ## 同じ release -/

omit [SchemaValidator] [Authorization] in
theorem same_release {s s' : Store} {rq rq' : Request} {track : ReleaseTrack} {version nsID : Nat}
    {rel : ConfigurationRelease} {target : ConfigurationReleaseModel} (hi : CatalogInv s)
    (hrun : RunsTo Storage.step (fun c => c.op.createsNamespace = false) s s')
    (hv : version ≠ 0) (hrel : getConfigurationRelease rq s track version = .ok rel)
    (hns : resolveNamespaceID rq' s' track.ns = .ok nsID)
    (htarget : s'.releases.get
      (TrackKey.release ⟨nsID, track.name, track.schemaVersion⟩ version) = some target) :
    rel = releaseFromModel s' track.ns target := by
  obtain ⟨id, m, hid, hm, rfl⟩ := getConfigurationRelease_row hv hrel
  obtain ⟨n, hn, rfl⟩ := resolveNamespaceID_ok hid
  obtain ⟨n', hn', rfl⟩ := resolveNamespaceID_ok hns
  have hnn : n' = n := by
    have hold := namespaces_runsTo hrun (AutoTable.mem_of_get hn')
    exact Table.eq_of_key_eq hold (AutoTable.mem_of_get hn)
      ((AutoTable.key_of_get hn').trans (AutoTable.key_of_get hn).symm)
  subst hnn
  have hevolves := evolves_runsTo hi hrun
  have hsame : m = target := hevolves.release_eq hi (AutoTable.mem_of_get hm)
    (AutoTable.mem_of_get htarget)
    ((AutoTable.key_of_get hm).trans (AutoTable.key_of_get htarget).symm)
  subst hsame
  unfold releaseFromModel
  rw [hevolves.entries_eq (AutoTable.mem_of_get hm) (AutoTable.mem_of_get htarget)]

/-! ## commit の時の条件 -/

/-- entry の指す version が、pin のまま読める。 -/
def PinHolds (w : Shared) (e : ConfigurationReleaseEntryModel) : Prop :=
  match e.kind with
  | .parameter => ∃ pv, pinnedParameterVersion w.store e = some pv ∧
      pv.contentType = e.contentType ∧ Hashing.sha256Hex pv.value = e.parameterDigest
  | .secret => ∃ sv, pinnedSecretVersion w.store e = some sv ∧
      checkVersionReadable w.now sv = .ok () ∧ sv.contentType = e.contentType
  | .other _ => False

/-- 保存されている値で組み立てた組。parameter でなければ空。 -/
def storedPair (s : Store) (e : ConfigurationReleaseEntryModel) : List (String × Value) :=
  match e.kind with
  | .parameter =>
    ((pinnedParameterVersion s e).bind (fun pv => parameterSchemaValue pv.value e.contentType)
      ).toList.map (fun v => (e.entryAlias, v))
  | _ => []

/-- 系列の version が、検査した通りに有効にできる。 -/
structure ActivatesValidated (w : Shared) (track : ReleaseTrack) (version : Nat) : Prop where
  target : ∃ n m, w.store.namespaces.get track.ns = some n ∧
    w.store.releases.get (TrackKey.release ⟨n.id, track.name, track.schemaVersion⟩ version) =
      some m ∧
    (∀ e ∈ releaseEntriesOf w.store m.id, PinHolds w e) ∧
    (track.schemaVersion ≠ 0 → ∃ row,
      schemaRow w.store ⟨track.ns.app, track.name, track.schemaVersion⟩ = some row ∧
      Satisfies row.schemaJSON ((releaseEntriesOf w.store m.id).flatMap (storedPair w.store)))

variable {ctx : Ctx} {w : Shared}

omit [SchemaValidator] [Authorization] in
theorem validateReleasePin_holds {owner : NamespaceModel}
    {e : ConfigurationReleaseEntryModel} {u : Unit}
    (h : validateReleasePin (ctx.request w.now) w.store owner e = .ok u)
    (hdigest : e.kind = .parameter → e.parameterDigest ≠ "") : PinHolds w e := by
  simp only [validateReleasePin, bind_eq_ok_iff, require_eq_ok_iff] at h
  obtain ⟨_, _, _, _, h⟩ := h
  split at h
  · next hk =>
    simp only [bind_eq_ok_iff, require_eq_ok_iff, orThrow_eq_ok_iff] at h
    obtain ⟨pv, hpv, _, htype, hvalue⟩ := h
    rw [PinHolds, hk]
    exact ⟨pv, hpv, htype, hvalue.resolve_left (hdigest hk)⟩
  · next hk =>
    simp only [bind_eq_ok_iff, require_eq_ok_iff, orThrow_eq_ok_iff] at h
    obtain ⟨sv, hsv, _, ⟨hstate, hdestroyed⟩, _, hexpires, htype⟩ := h
    rw [PinHolds, hk]
    refine ⟨sv, hsv, ?_, htype⟩
    simp only [checkVersionReadable, bind_eq_ok_iff, require_eq_ok_iff, hstate, hdestroyed]
    refine ⟨(), rfl, ?_⟩
    cases hx : sv.expiresAt with
    | none => exact Or.inl rfl
    | some t => exact Or.inr (hexpires t hx).2
  · cases h

/-- 保存された entry を読み出したもの。 -/
def pinnedEntry (e : ConfigurationReleaseEntryModel) : ConfigurationReleaseEntry :=
  { entryAlias := e.entryAlias, kind := e.kind, ref := ⟨e.resourceNS, e.resourceKey⟩,
    version := e.resourceVersion, resourceNamespaceID := e.resourceNamespaceID,
    contentType := e.contentType, metadata := e.metadataJSON, parameterDigest := e.parameterDigest }

omit [Authorization] in
/-- 検査した値と commit の時の値は、digest が同じなので同じである。 -/
theorem storedPair_checked {e : ConfigurationReleaseEntryModel}
    {pair : Option (String × Value)} (hinj : Function.Injective Hashing.sha256Hex)
    (hc : EntryChecked (pinnedEntry e) pair) (hp : PinHolds w e) :
    storedPair w.store e = pair.toList := by
  unfold EntryChecked pinnedEntry at hc
  unfold PinHolds at hp
  unfold storedPair
  cases hk : e.kind with
  | parameter =>
    rw [hk] at hc hp
    obtain ⟨value, v, hvalue, hv, rfl⟩ := hc
    obtain ⟨pv, hpv, _, hpd⟩ := hp
    have hsame : pv.value = value := hinj (by rw [hpd, hvalue])
    simp [hpv, hsame, hv]
  | secret =>
    rw [hk] at hc
    rw [hc]
    rfl
  | other kind =>
    rw [hk] at hp
    exact hp.elim

omit [Authorization] in
/--
検査した entry の列が transaction の pin の検査も通れば、全 pin が読め、保存された値は検査した object である。
-/
theorem holds_and_stored {owner : NamespaceModel}
    {es : List ConfigurationReleaseEntryModel} {pairs : List (Option (String × Value))}
    (hinj : Function.Injective Hashing.sha256Hex) (hne : ∀ v, Hashing.sha256Hex v ≠ "")
    (hc : List.Forall₂ (fun e pair => EntryChecked (pinnedEntry e) pair) es pairs)
    (hpins : ∀ e ∈ es, validateReleasePin (ctx.request w.now) w.store owner e = .ok ()) :
    (∀ e ∈ es, PinHolds w e) ∧
      es.flatMap (storedPair w.store) = pairs.flatMap Option.toList := by
  induction hc with
  | nil => exact ⟨List.forall_mem_nil _, rfl⟩
  | @cons e pair _ _ he _ ih =>
    rw [List.forall_mem_cons] at hpins
    obtain ⟨hholds, hstored⟩ := ih hpins.2
    -- 検査した parameter の digest は空でないので、transaction でも確かめられている。
    have hdigest : e.kind = .parameter → e.parameterDigest ≠ "" := by
      intro hk
      simp only [EntryChecked, pinnedEntry, hk] at he
      obtain ⟨value, _, hvalue, _⟩ := he
      exact hvalue ▸ hne value
    have hpin : PinHolds w e := validateReleasePin_holds hpins.1 hdigest
    refine ⟨List.forall_mem_cons.mpr ⟨hpin, hholds⟩, ?_⟩
    rw [List.flatMap_cons, List.flatMap_cons, hstored, storedPair_checked hinj he hpin]

/-! ## 成功した有効化 -/

section Activates

variable {R : Shared → Shared → Prop} {s s' : Shared} {tr : List (Shared × Shared)}

omit [SchemaValidator] [Authorization] in
theorem activateValidated_ok {ctx : Ctx} {pr : Principal} {track : ReleaseTrack}
    {ns : Option NamespaceModel} {version : Nat} {expectedCurrent : Option Nat}
    {out : ActiveConfigurationRelease × Bool}
    (h : Runs R (activateValidated ctx pr track ns version expectedCurrent).run s tr (.ok out)
      s') :
    ∃ t t', R s t ∧ (t, t') ∈ tr ∧ Storage.activateConfigurationRelease (ctx.request t.now) t.store
      track version expectedCurrent = .ok (out, t'.store) := by
  obtain ⟨_, activated, _, _, hcommit, hrest, rfl⟩ := flow_bind_ok_iff.mp h
  obtain ⟨_, ha, hwrite⟩ := flow_attempt_iff.mp hcommit
  cases ha
  match activated, hrest, hwrite with
  | .error e, hrest, _ =>
    obtain ⟨_, _, _, _, _, hthrow, _⟩ := flow_bind_ok_iff.mp hrest
    obtain ⟨_, hout, _⟩ := flow_throw_iff.mp hthrow
    cases hout
  | .ok (active, false), hrest, hwrite =>
    obtain ⟨_, hout, _⟩ := flow_pure_iff.mp hrest
    cases hout
    obtain ⟨t, hst, hact, _, rfl⟩ := runs_writeStore_ok hwrite
    exact ⟨t, _, hst, by simp, hact⟩
  | .ok (active, true), hrest, hwrite =>
    obtain ⟨_, _, _, _, _, hpure, _⟩ := flow_bind_ok_iff.mp hrest
    obtain ⟨_, hout, _⟩ := flow_pure_iff.mp hpure
    cases hout
    obtain ⟨t, hst, hact, _, rfl⟩ := runs_writeStore_ok hwrite
    exact ⟨t, _, hst, by simp, hact⟩

/-- 成功した呼び出しは、検査を通した後に有効化の transaction を commit した。 -/
theorem activateConfigurationRelease_committed {ctx : Ctx} {pr : Principal} {track : ReleaseTrack}
    {version : Nat} {expectedCurrent : Option Nat} {out : ActiveConfigurationRelease × Bool}
    (hrefl : ∀ w, R w w) (htrans : ∀ a b c, R a b → R b c → R a c)
    (hP : AllowsAudit R) (hA : AllowsAdopt R)
    (h : Runs R (Service.activateConfigurationRelease ctx pr track version expectedCurrent).run s
      tr (.ok out) s') :
    version ≠ 0 ∧ ∃ bound read schema rel object t t', R s read ∧ R read schema ∧ R schema t ∧
      ReleaseChecked bound track version read schema rel object ∧ (t, t') ∈ tr ∧
      Storage.activateConfigurationRelease (bound.request t.now) t.store track version
        expectedCurrent = .ok (out, t'.store) := by
  obtain ⟨_, _, _, _, haddress, hrest₁, rfl⟩ := flow_bind_ok_iff.mp h
  obtain ⟨_, _, hat⟩ := flow_check_iff.mp haddress
  rw [hat] at hrest₁
  obtain ⟨_, _, _, _, hversion, hrest₂, rfl⟩ := flow_bind_ok_iff.mp hrest₁
  obtain ⟨_, hversion, hat⟩ := flow_check_iff.mp hversion
  rw [hat] at hrest₂
  refine ⟨require_eq_ok_iff.mp hversion.symm, ?_⟩
  obtain ⟨_, ⟨bound, ns⟩, authorizedAt, _, hauth, hrest₃, rfl⟩ := flow_bind_ok_iff.mp hrest₂
  have hauthR : R s authorizedAt := hauth.rel hrefl htrans
    ((within_authorize hP _ pr _ _ _).of_runs hauth)
  obtain ⟨_, validated, _, _, hvalidate, hrest₄, rfl⟩ := flow_bind_ok_iff.mp hrest₃
  obtain ⟨_, ha, hvalidate⟩ := flow_attempt_iff.mp hvalidate
  cases ha
  match validated, hrest₄, hvalidate with
  | .error e, hrest, _ =>
    obtain ⟨_, _, _, _, _, hthrow, _⟩ := flow_bind_ok_iff.mp hrest
    obtain ⟨_, hout, _⟩ := flow_throw_iff.mp hthrow
    cases hout
  | .ok (v :: vs), hrest, _ =>
    obtain ⟨_, _, _, _, _, hthrow, _⟩ := flow_bind_ok_iff.mp hrest
    obtain ⟨_, hout, _⟩ := flow_throw_iff.mp hthrow
    cases hout
  | .ok [], hrest, hvalidate =>
    obtain ⟨read, schema, rel, object, hread, hschema, hafter, hchecked⟩ :=
      validateConfigurationRelease_checked hrefl htrans hP hA hvalidate
    obtain ⟨t, t', ht, hmem, hact⟩ := activateValidated_ok hrest
    refine ⟨bound, read, schema, rel, object, t, t', htrans _ _ _ hauthR hread, hschema,
      htrans _ _ _ hafter ht, hchecked, ?_, hact⟩
    simp only [List.mem_append]
    exact Or.inr (Or.inr (Or.inr (Or.inr hmem)))

end Activates

/-- label・有効化の記録・change log が同じである。 -/
structure SameActivations (w w' : Shared) : Prop where
  labels : w'.store.releaseLabels = w.store.releaseLabels
  activations : w'.store.releaseActivations = w.store.releaseActivations
  changeLog : w'.store.changeLog = w.store.changeLog

omit [SchemaValidator] [Hashing] [Authorization] in
theorem sameActivations_audit : AllowsAudit SameActivations :=
  fun _ _ => ⟨rfl, rfl, rfl⟩

omit [SchemaValidator] [Hashing] [Authorization] in
theorem sameActivations_adopt : AllowsAdopt SameActivations := by
  intro w _ _ _ _ _ st h
  obtain ⟨_, _, rfl⟩ := adoptSchemaContractTx_frame h
  exact ⟨rfl, rfl, rfl⟩

omit [SchemaValidator] [Hashing] [Authorization] in
theorem within_auditRelease {P : Shared → Shared → Prop} (hP : AllowsAudit P) (ctx : Ctx)
    (pr : Principal) (track : ReleaseTrack) (ns : Option NamespaceModel) (version : Nat)
    (event decision : String) (metadata : List (String × String)) :
    Within P (auditRelease ctx pr track ns version event decision metadata).run :=
  Within.flow_lift (within_audit hP _)

omit [SchemaValidator] [Authorization] in
theorem failsWithin_activateValidated (ctx : Ctx) (pr : Principal) (track : ReleaseTrack)
    (ns : Option NamespaceModel) (version : Nat) (expectedCurrent : Option Nat) :
    FailsWithin SameActivations
      (activateValidated ctx pr track ns version expectedCurrent) := by
  intro s tr e s' h
  rcases flow_bind_iff.mp h with ⟨e', _, hattempt⟩ | ⟨tr₁, activated, t, tr₂, hcommit, hrest, rfl⟩
  · obtain ⟨_, ha, _⟩ := flow_attempt_iff.mp hattempt
    cases ha
  · obtain ⟨_, ha, hwrite⟩ := flow_attempt_iff.mp hcommit
    cases ha
    match activated, hrest, hwrite with
    | .error e, hrest, hwrite =>
      obtain ⟨_, _, rfl⟩ := runs_writeStore_error hwrite
      intro y hy
      rcases List.mem_append.mp hy with hy | hy
      · rw [List.mem_singleton.mp hy]
        exact ⟨rfl, rfl, rfl⟩
      · exact Within.flow_bind (within_auditRelease sameActivations_audit ctx pr track ns version
          _ _ _) (fun _ => within_throw e) _ _ _ _ hrest y hy
    | .ok (active, false), hrest, _ =>
      obtain ⟨_, hout, _⟩ := flow_pure_iff.mp hrest
      cases hout
    | .ok (active, true), hrest, _ =>
      rcases flow_bind_iff.mp hrest with ⟨_, _, haudit⟩ | ⟨_, _, _, _, _, hpure, _⟩
      · obtain ⟨_, hout, _⟩ := flow_lift_iff.mp haudit
        cases hout
      · obtain ⟨_, hout, _⟩ := flow_pure_iff.mp hpure
        cases hout

theorem failsWithin_activateConfigurationRelease (ctx : Ctx) (pr : Principal)
    (track : ReleaseTrack) (version : Nat) (expectedCurrent : Option Nat) :
    FailsWithin SameActivations
      (Service.activateConfigurationRelease ctx pr track version expectedCurrent) := by
  refine FailsWithin.bind (within_check _) (fun _ => ?_)
  refine FailsWithin.bind (within_check _) (fun _ => ?_)
  refine FailsWithin.bind (within_authorize sameActivations_audit _ pr _ _ _)
    (fun ⟨bound, ns⟩ => ?_)
  refine FailsWithin.bind (Within.flow_lift (within_validateConfigurationRelease
    sameActivations_audit sameActivations_adopt _ pr track version false)) (fun validated => ?_)
  match validated with
  | .error e =>
    exact (Within.flow_bind (within_auditRelease sameActivations_audit _ _ _ _ _ _ _ _)
      (fun _ => within_throw e)).fails
  | .ok (v :: vs) =>
    exact (Within.flow_bind (within_auditRelease sameActivations_audit _ _ _ _ _ _ _ _)
      (fun _ => within_throw _)).fails
  | .ok [] => exact failsWithin_activateValidated bound pr track ns version expectedCurrent

/-! ## 主定理 -/

variable [SnapshotHashing]

omit [SchemaValidator] [Authorization] in
theorem env_allowsAdopt :
    AllowsAdopt (Env (fun t => t.createsNamespace = false)) := by
  intro w application releaseName version fields out st h
  refine ⟨le_rfl, .single (c := .call ⟨⟨w.now, fun _ => none⟩,
    .admin (.adoptConfigurationSchemaContract application releaseName version fields)⟩) rfl ?_⟩
  exact commit_ok h

omit [Authorization] in
/--
検査した release を commit する時点。namespace を作らない間は、release も schema も検査した時のままで、
値は digest の一致から同じである。
-/
theorem activatesValidated_commit {track : ReleaseTrack} {version : Nat}
    {read schema t : Shared} {rel : ConfigurationRelease} {object : List (String × Value)}
    {expectedCurrent : Option Nat} {out : ActiveConfigurationRelease × Bool} {committed : Store}
    (hinj : Function.Injective Hashing.sha256Hex) (hne : ∀ v, Hashing.sha256Hex v ≠ "")
    (hi : CatalogInv read.store) (hv : version ≠ 0)
    (hschema : Env (fun t => t.createsNamespace = false) read schema)
    (hcommit : Env (fun t => t.createsNamespace = false) schema t)
    (hchecked : ReleaseChecked ctx track version read schema rel object)
    (hact : Storage.activateConfigurationRelease (ctx.request t.now) t.store track version
      expectedCurrent = .ok (out, committed)) : ActivatesValidated t track version := by
  obtain ⟨nsID, m, hns, hm, hpins, _⟩ := activateConfigurationRelease_ok_cases hact
  obtain ⟨n, hn, rfl⟩ := resolveNamespaceID_ok hns
  have hrun := runsTo_createsNamespace (hschema.trans hcommit).2
  have hrel : rel = releaseFromModel t.store track.ns m :=
    same_release hi hrun hv hchecked.release hns hm
  have hkey := AutoTable.key_of_get hm
  simp only [ConfigurationReleaseModel.key, TrackKey.release, ReleaseKey.mk.injEq] at hkey
  obtain ⟨hmns, hmname, _, hmschema⟩ := hkey
  obtain ⟨pairs, hentries, hobject⟩ := hchecked.entries
  rw [hrel, releaseFromModel, List.forall₂_map_left_iff] at hentries
  rw [validateReleasePinsTx, AutoTable.byId_of_mem (AutoTable.mem_of_get hm)] at hpins
  dsimp only at hpins
  rw [hmns, AutoTable.byId_of_mem (AutoTable.mem_of_get hn)] at hpins
  dsimp only at hpins
  rw [forM_eq_ok_iff] at hpins
  obtain ⟨hholds, hstored⟩ := holds_and_stored hinj hne hentries hpins
  rw [← hobject] at hstored
  refine ⟨n, m, hn, hm, hholds, fun hsv => ?_⟩
  have hrelSchema : rel.schemaVersion = track.schemaVersion := by rw [hrel]; exact hmschema
  have hrelApp : rel.ns.app = track.ns.app := by rw [hrel]; rfl
  have hrelName : rel.name = track.name := by rw [hrel]; exact hmname
  obtain ⟨row, hrow, hsat⟩ := hchecked.satisfied (hrelSchema ▸ hsv)
  rw [hrelSchema, hrelApp, hrelName] at hrow
  simp only [getConfigurationSchema, hsv, if_false, bind_eq_ok_iff, orThrow_eq_ok_iff,
    pure_eq_ok_iff] at hrow
  obtain ⟨model, hmodel, rfl⟩ := hrow
  have hkeeps := keepsContract_alive (runsTo_createsNamespace hcommit.2)
    (AutoTable.mem_of_get hn) (k := ⟨track.ns.app, track.name, track.schemaVersion⟩)
    (congrArg NamespaceRef.app (AutoTable.key_of_get hn))
  obtain ⟨row', hrow', hjson, _⟩ := hkeeps.schema model hmodel
  refine ⟨row', hrow', ?_⟩
  rw [hjson, hstored]
  exact hsat

/--
有効化は、検査したものだけを有効にする。他の client の transaction がどこに割り込んでも、成功したなら、
有効化を commit した時点で全 pin が読め、保存された値は系列の schema を満たし、その version が current になる。
失敗したなら、label・有効化の記録・change log に触れない。
-/
theorem activation_activates_validated (hinj : Function.Injective Hashing.sha256Hex)
    (hne : ∀ v, Hashing.sha256Hex v ≠ "") (ts : List Transaction) {w w' : Shared}
    {tr : List (Shared × Shared)} (hw : w.store = run transact Store.empty ts)
    {ctx : Ctx} {pr : Principal} {track : ReleaseTrack} {version : Nat}
    {expectedCurrent : Option Nat} {r : Except Err (ActiveConfigurationRelease × Bool)}
    (h : Runs (Env (fun t => t.createsNamespace = false))
      (Service.activateConfigurationRelease ctx pr track version expectedCurrent).run w tr r w') :
    (∀ out, r = .ok out → ∃ x ∈ tr, ActivatesValidated x.1 track version ∧
      ∃ n, x.1.store.namespaces.get track.ns = some n ∧
        currentVersion x.2.store ⟨n.id, track.name, track.schemaVersion⟩ = version) ∧
    (∀ e, r = .error e → ∀ x ∈ tr, SameActivations x.1 x.2) := by
  refine ⟨?_, ?_⟩
  · rintro out rfl
    obtain ⟨hv, bound, read, schema, rel, object, t, t', hread, hschema, hcommit, hchecked, hmem,
      hact⟩ := activateConfigurationRelease_committed Env.refl (fun _ _ _ => Env.trans)
        (Env.allowsAudit (fun _ _ => rfl)) env_allowsAdopt h
    have hreach : RunsTo transact (fun _ => True) Store.empty read.store :=
      RunsTo.trans ⟨ts, fun _ _ => trivial, hw.symm⟩ (hread.2.mono (fun _ _ => trivial))
    have hi : CatalogInv read.store := (runsTo_anyCalls hreach).invariant
      (fun s c _ hs => catalogInv_step s c hs) catalogInv_empty
    refine ⟨(t, t'), hmem, activatesValidated_commit hinj hne hi hv hschema hcommit hchecked hact,
      ?_⟩
    obtain ⟨nsID, hns, hcurrent⟩ := activateConfigurationRelease_current hact
    obtain ⟨n, hn, rfl⟩ := resolveNamespaceID_ok hns
    exact ⟨n, hn, hcurrent⟩
  · rintro e rfl
    exact (failsWithin_activateConfigurationRelease ctx pr track version expectedCurrent).of_runs h

end

section Sample

local instance activationHashing : Hashing :=
  ⟨fun v => String.ofList ('#' :: v.toList), fun p => p.diagnostic⟩

local instance activationSnapshotHashing : SnapshotHashing := ⟨fun _ => "", fun _ => ""⟩

/-- 全ての field が空でないことを求める schema。 -/
local instance activationValidator : SchemaValidator where
  Value := String
  Schema := Unit
  parameterSchemaValue value _ := some value
  compileSchema _ := some ()
  validate _ object :=
    (object.find? (fun field => field.2 = "")).map (fun field => .mk [field.1] ["minLength"] "" [])

local instance activationAuthorization : Authorization :=
  ⟨fun _ _ _ => true, fun _ _ => "", fun _ _ _ _ => true⟩

private def sampleSchemaTrack : ReleaseTrack := ⟨sampleNamespace, "runtime", 1⟩

/-- schema のある系列に、parameter を一つ指す release を作るまで。 -/
private def samplePrepared : List Transaction :=
  [.call ⟨sampleRequest, .createNamespace sampleNamespace⟩,
    .call ⟨sampleRequest, .admin (.createConfigurationSchema
      ⟨"shop", "runtime", 0, "schema", "d", none⟩ none)⟩,
    .call ⟨sampleRequest, .parameter (.put ⟨sampleNamespace, "limit"⟩ "5" "json" "" "ops" false
      false)⟩,
    .call ⟨sampleRequest, .createRelease { sampleRelease with
      schemaVersion := 1
      entries := [{ entryAlias := "limit", kind := .parameter, ref := ⟨sampleNamespace, "limit"⟩
                    version := 1, resourceNamespaceID := 0, contentType := "json", metadata := ""
                    parameterDigest := "#5" }] } ⟨false, none⟩⟩]

private def sampleActivation : Flow Shared Err (ActiveConfigurationRelease × Bool) :=
  Service.activateConfigurationRelease Ctx.empty ⟨"ops", true, "token"⟩ sampleSchemaTrack 1 none

private def sampleShared : Shared := ⟨run transact Store.empty samplePrepared, 2⟩

theorem sample_activation_ok : (sampleActivation.run.alone sampleShared).2.1.isOk = true := by
  decide +kernel

theorem activation_activates_validated_sample :
    ∃ x ∈ (sampleActivation.run.alone sampleShared).1,
      ActivatesValidated x.1 sampleSchemaTrack 1 := by
  have hinj : Function.Injective activationHashing.sha256Hex := by
    intro a b hab
    have hlist := String.ofList_injective hab
    exact String.toList_injective (List.cons.inj hlist).2
  have hne : ∀ v, activationHashing.sha256Hex v ≠ "" := by
    intro v h
    have hlist : '#' :: v.toList = [] := String.ofList_injective (h.trans rfl)
    cases hlist
  obtain ⟨hok, _⟩ := activation_activates_validated hinj hne samplePrepared (w := sampleShared) rfl
    (runs_alone Env.refl sampleActivation.run sampleShared)
  have hrun := sample_activation_ok
  cases hr : (sampleActivation.run.alone sampleShared).2.1 with
  | error e =>
    rw [hr] at hrun
    cases hrun
  | ok out =>
    obtain ⟨x, hx, hvalid, _⟩ := hok out hr
    exact ⟨x, hx, hvalid⟩

end Sample

end Kms.Core
