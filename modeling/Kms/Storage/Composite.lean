import Kms.Storage.Op
import Kms.Storage.Defaults
import Kms.Storage.Migrations

/-!
# 複合 transaction

既定値の一括適用と schema をまたぐ移行は、複数の書き込みを一つの transaction で行う。
成功したときの書き込みは、単独の操作の列と同じである。従って、操作の列の run について示した性質は、
複合 transaction を含む run でも成り立つ。

* `applyDefaults_runsTo`・`applyApplicationMigration_runsTo` — 成功した複合 transaction は操作の列に解ける
* `runsTo_calls` — transaction の run は操作の run である
* `Transaction.exec_failed` — 失敗した transaction は store を変えない
-/

namespace Kms.Storage

open Kms.Infra

/-! ## transaction -/

/-- 複合 transaction の部分になりうる操作。 -/
def Op.constituent : Op → Bool
  | .admin (.deleteApplication _) => false
  | .admin _ => true
  | .parameter _ => true
  | .createRelease .. => true
  | .activateRelease .. => true
  | _ => false

theorem Op.keepsApplications_of_constituent {op : Op} (h : op.constituent = true) :
    op.keepsApplications = true := by
  cases op with
  | admin op =>
    cases op with
    | deleteApplication name => cases h
    | _ => rfl
  | _ => rfl

theorem Op.createsNamespace_of_constituent {op : Op} (h : op.constituent = true) :
    op.createsNamespace = false := by
  cases op with
  | createNamespace ns => cases h
  | _ => rfl

/-- 一つの書き込み transaction。単独の操作か、複合の transaction である。 -/
inductive Transaction where
  | call (c : Call)
  | applyDefaults (rq : Request) (input : DefaultsApplyTransaction)
  | migrate (rq : Request) (input : ApplicationMigrationTransaction)

def Transaction.keepsApplications : Transaction → Bool
  | .call c => c.op.keepsApplications
  | _ => true

def Transaction.createsNamespace : Transaction → Bool
  | .call c => c.op.createsNamespace
  | _ => false

/-- transaction が失敗を返したこと。 -/
def Output.isFailure : Output → Bool
  | .failed _ => true
  | .acknowledgementFailed .. => true
  | _ => false

section

variable [Hashing] [SnapshotHashing]

def Transaction.exec (s : Store) : Transaction → Output × Store
  | .call c => Storage.exec s c
  | .applyDefaults rq input => commit s (Storage.applyDefaults rq s input) (fun _ => .done)
  | .migrate rq input => commit s (applyApplicationMigration rq s input) (fun _ => .done)

/-- 一つの transaction の後の store。 -/
def transact (s : Store) (t : Transaction) : Store := (t.exec s).2

/-! ## 失敗 -/

variable {s s' : Store}

omit [Hashing] [SnapshotHashing] in
theorem commit_failed {α : Type} {r : Except Err (α × Store)} {out : α → Output}
    (hout : ∀ a, (out a).isFailure = false) (h : (commit s r out).1.isFailure = true) :
    (commit s r out).2 = s := by
  cases r with
  | error e => rfl
  | ok p => simp [commit, hout] at h

omit [SnapshotHashing] in
theorem exec_failed {c : Call} (h : (exec s c).1.isFailure = true) : (exec s c).2 = s := by
  obtain ⟨rq, op⟩ := c
  cases op with
  | admin op =>
    cases op with
    | appendAudit event => cases h
    | _ => exact commit_failed (fun _ => rfl) h
  | parameter op => cases op <;> exact commit_failed (fun _ => rfl) h
  | secret op => cases op <;> exact commit_failed (fun _ => rfl) h
  | acknowledge ref ack =>
    simp only [exec] at h ⊢
    split at h
    · cases h
    · rfl
  | pruneReleases | pruneSessions | resetConnections | pruneChangeLog => cases h
  | _ => exact commit_failed (fun _ => rfl) h

theorem Transaction.exec_failed {t : Transaction}
    (h : (t.exec s).1.isFailure = true) : (t.exec s).2 = s := by
  cases t with
  | call c => exact Storage.exec_failed h
  | applyDefaults rq input | migrate rq input => exact commit_failed (fun _ => rfl) h

/-! ## 操作の列への分解 -/

section Reach

variable {P : Call → Prop}

variable {s s' : Store} {rq : Request} {createdBy : String} {input : DefaultsApplyTransaction}

omit [Hashing] [SnapshotHashing] in
theorem commit_ok {α : Type} {r : Except Err (α × Store)} {out : α → Output}
    {a : α} (h : r = .ok (a, s')) : (commit s r out).2 = s' := by
  rw [h]
  rfl

omit [SnapshotHashing] in
theorem adopt_runsTo {application releaseName : String}
    {version : Nat} {fields : List ApplicationContractField}
    {out : Option (List ApplicationContractField)}
    (hp : P ⟨rq, .admin (.adoptConfigurationSchemaContract application releaseName version
      fields)⟩)
    (h : adoptSchemaContractTx s application releaseName version fields = .ok (out, s')) :
    RunsTo step P s s' :=
  .single hp (commit_ok h)

omit [SnapshotHashing] in
theorem put_runsTo {ref : Ref}
    {value contentType metadata : String} {createOnly preserveMetadata : Bool}
    {out : Nat × Nat}
    (hp : P ⟨rq, .parameter (.put ref value contentType metadata createdBy createOnly
      preserveMetadata)⟩)
    (h : putParameter rq s ref value contentType metadata createdBy createOnly
      preserveMetadata = .ok (out, s')) : RunsTo step P s s' :=
  .single hp (commit_ok h)

omit [Hashing] [SnapshotHashing] in
/-- 採用できたなら、application の行は archive されておらず、release の名前が一致する。 -/
theorem adoptSchemaContractTx_application {application releaseName : String}
    {version : Nat} {fields : List ApplicationContractField}
    {out : Option (List ApplicationContractField)}
    (h : adoptSchemaContractTx s application releaseName version fields = .ok (out, s')) :
    ∃ app, s'.applications.get application = some app ∧ app.archivedAt = none ∧
      app.releaseName = releaseName := by
  obtain ⟨_, _, rfl⟩ := adoptSchemaContractTx_frame h
  simp only [adoptSchemaContractTx, bind_eq_ok_iff, orThrow_eq_ok_iff, require_eq_ok_iff] at h
  obtain ⟨_, _, app, happ, _, ⟨harch, hname⟩, _⟩ := h
  exact ⟨app, happ, harch, hname⟩

/-- 選ぶ schema と contract だけを替えた定義。他の列は今の行の値をそのまま渡す。 -/
def redefined (row : ApplicationModel) (schemaVersion : Nat)
    (contract : List ApplicationContractField) : Application :=
  { toApplication row with schemaVersion, contract := some contract }

omit [SnapshotHashing] in
/-- 定義の書き換えは、contract を渡した `UpdateApplication` と同じである。 -/
theorem updateDefinition_runsTo (hp : ∀ app, P ⟨rq, .admin (.updateApplication app none)⟩)
    (h : updateDefinition rq s input = .ok s') : RunsTo step P s s' := by
  unfold updateDefinition at h
  split at h
  · simp only [bind_eq_ok_iff, pure_eq_ok_iff] at h
    obtain ⟨⟨out, s₁⟩, hadopt, contract, hcanon, rfl⟩ := h
    obtain ⟨row, hrow, harch, hname⟩ := adoptSchemaContractTx_application hadopt
    have hkey : row.name = input.ns.app := Table.key_of_get hrow
    have happ : s₁.applications.get row.name = some row := by
      rw [hkey]
      exact hrow
    have hgiven : adoptGivenContract s (redefined row input.desiredSchemaVersion contract) =
        .ok s₁ := by
      show (adoptSchemaContractTx s row.name row.releaseName input.desiredSchemaVersion contract >>=
        fun p => pure p.2) = .ok s₁
      rw [hkey, hname, adoptSchemaContractTx_canonical hcanon, hadopt]
      rfl
    refine .single (hp (redefined row input.desiredSchemaVersion contract))
      (commit_ok (a := ()) ?_)
    simp only [updateApplication, bind_eq_ok_iff, pure_eq_ok_iff, orThrow_eq_ok_iff,
      require_eq_ok_iff, verifyApplicationDefinitionExpectation]
    refine ⟨⟨⟩, trivial, s₁, hgiven, row, happ, ⟨⟩, ⟨rfl, harch⟩, ?_⟩
    rw [Prod.mk.injEq]
    refine ⟨rfl, ?_⟩
    show touchApplication s₁ row.name _ = touchApplication s₁ input.ns.app _
    rw [hkey]
    unfold touchApplication
    congr 1
    refine Table.updateWhere_congr (fun m hm hname => ?_)
    have hm' : m = row :=
      Table.eq_of_key_eq hm (Table.mem_of_get hrow) ((of_decide_eq_true hname).trans hkey.symm)
    subst hm'
    rfl
  · rw [pure_eq_ok_iff] at h
    subst h
    exact .refl _

omit [SnapshotHashing] in
theorem writeDefaults_runsTo {ns : NamespaceRef}
    {ps : List DefaultsParameterExpectation} {out : List DefaultsAppliedWrite}
    (hp : ∀ op, P ⟨rq, .parameter op⟩)
    (h : writeDefaults rq ns createdBy s ps = .ok (out, s')) : RunsTo step P s s' := by
  induction ps generalizing s out with
  | nil =>
    simp only [writeDefaults, pure_eq_ok_iff] at h
    cases h
    exact .refl _
  | cons p ps ih =>
    unfold writeDefaults at h
    split at h
    · simp only [bind_eq_ok_iff, pure_eq_ok_iff] at h
      obtain ⟨⟨_, s₁⟩, hput, ⟨writes, s₂⟩, hrest, heq⟩ := h
      cases heq
      exact (put_runsTo (hp _) hput).trans (ih hrest)
    · exact ih h

omit [SnapshotHashing] in
theorem verifyDefaultsApplication_runsTo (hp : ∀ op : AdminOp,
      (Op.admin op).constituent = true → P ⟨rq, .admin op⟩)
    (h : verifyDefaultsApplication s input = .ok s') : RunsTo step P s s' := by
  simp only [verifyDefaultsApplication, bind_eq_ok_iff] at h
  obtain ⟨_, _, contract, _, _, _, _, _, _, _, _, _, h⟩ := h
  unfold adoptDefaultsContract at h
  split at h
  · rw [pure_eq_ok_iff] at h
    subst h
    exact .refl _
  · simp only [bind_eq_ok_iff, pure_eq_ok_iff] at h
    obtain ⟨⟨_, s₁⟩, hadopt, _, _, _, _, rfl⟩ := h
    exact adopt_runsTo (hp _ rfl) hadopt

omit [SnapshotHashing] in
theorem applyDefaults_runsTo
    {out : List DefaultsAppliedWrite} (h : applyDefaults rq s input = .ok (out, s')) :
    RunsTo step (fun c => c.rq = rq ∧ c.op.constituent = true) s s' := by
  simp only [applyDefaults, bind_eq_ok_iff] at h
  obtain ⟨s₁, hverify, _, _, _, _, s₂, hdef, hwrite⟩ := h
  have hadopted : RunsTo step (fun c => c.rq = rq ∧ c.op.constituent = true) s s₁ :=
    verifyDefaultsApplication_runsTo (fun _ hk => ⟨rfl, hk⟩) hverify
  have hdefined : RunsTo step (fun c => c.rq = rq ∧ c.op.constituent = true) s₁ s₂ :=
    updateDefinition_runsTo (fun _ => ⟨rfl, rfl⟩) hdef
  exact (hadopted.trans hdefined).trans (writeDefaults_runsTo (fun _ => ⟨rfl, rfl⟩) hwrite)

omit [SnapshotHashing] in
theorem writeMigrated_runsTo {ns : NamespaceRef}
    {ws : List MigrationParameterWrite} (hp : ∀ op, P ⟨rq, .parameter op⟩)
    (h : writeMigrated rq ns createdBy s ws = .ok s') : RunsTo step P s s' := by
  induction ws generalizing s with
  | nil =>
    simp only [writeMigrated, pure_eq_ok_iff] at h
    subst h
    exact .refl _
  | cons w ws ih =>
    simp only [writeMigrated, bind_eq_ok_iff] at h
    obtain ⟨⟨_, s₁⟩, hput, _, _, hrest⟩ := h
    exact (put_runsTo (hp _) hput).trans (ih hrest)

omit [SnapshotHashing] in
theorem audits_runsTo (hp : ∀ event, P ⟨rq, .admin (.appendAudit event)⟩)
    (s : Store) (events : List AuditEvent) :
    RunsTo step P s { s with auditEvents := s.auditEvents ++ events } := by
  induction events generalizing s with
  | nil =>
    rw [List.append_nil]
    exact .refl s
  | cons event events ih =>
    have hrest := ih { s with auditEvents := s.auditEvents ++ [event] }
    rw [List.append_assoc] at hrest
    exact (RunsTo.single (hp event) rfl).trans hrest

theorem applyApplicationMigration_runsTo
    {input : ApplicationMigrationTransaction} {out : ActiveConfigurationRelease}
    (h : applyApplicationMigration rq s input = .ok (out, s')) :
    RunsTo step (fun c => c.rq = rq ∧ c.op.constituent = true) s s' := by
  simp only [applyApplicationMigration, bind_eq_ok_iff, pure_eq_ok_iff] at h
  obtain ⟨_, _, _, _, _, _, _, _, ⟨_, s₁⟩, hadopt, s₂, hwrite, ⟨⟨release, _⟩, s₃⟩, hcreate,
    ⟨⟨active, _⟩, s₄⟩, hactivate, heq⟩ := h
  cases heq
  have hput : RunsTo step (fun c => c.rq = rq ∧ c.op.constituent = true) s s₂ :=
    (adopt_runsTo ⟨rfl, rfl⟩ hadopt).trans (writeMigrated_runsTo (fun _ => ⟨rfl, rfl⟩) hwrite)
  have hrelease : RunsTo step (fun c => c.rq = rq ∧ c.op.constituent = true) s₂ s₃ :=
    .single (c := ⟨rq, .createRelease input.release ⟨false, none⟩⟩) ⟨rfl, rfl⟩
      (commit_ok hcreate)
  have hlabel : RunsTo step (fun c => c.rq = rq ∧ c.op.constituent = true) s₃ s₄ :=
    .single (c := ⟨rq, .activateRelease release.track release.version
      (some input.expectedActiveVersion)⟩) ⟨rfl, rfl⟩ (commit_ok hactivate)
  exact ((hput.trans hrelease).trans hlabel).trans (audits_runsTo (fun _ => ⟨rfl, rfl⟩) s₄ _)

end Reach

theorem transact_runsTo {P : Call → Prop} (s : Store) (t : Transaction)
    (hcall : ∀ c, t = .call c → P c) (hpart : ∀ c : Call, c.op.constituent = true → P c) :
    RunsTo step P s (transact s t) := by
  cases t with
  | call c => exact .single (hcall c rfl) rfl
  | applyDefaults rq input =>
    have hs : (commit s (Storage.applyDefaults rq s input) (fun _ => .done)).2 =
        transact s (.applyDefaults rq input) := rfl
    rcases commit_cases hs with h | ⟨out, h⟩
    · rw [h]
      exact .refl s
    · exact (applyDefaults_runsTo h).mono (fun c hc => hpart c hc.2)
  | migrate rq input =>
    have hs : (commit s (Storage.applyApplicationMigration rq s input) (fun _ => .done)).2 =
        transact s (.migrate rq input) := rfl
    rcases commit_cases hs with h | ⟨out, h⟩
    · rw [h]
      exact .refl s
    · exact (applyApplicationMigration_runsTo h).mono (fun c hc => hpart c hc.2)

theorem runsTo_calls {P : Transaction → Prop} {Q : Call → Prop}
    (h : RunsTo transact P s s') (hcall : ∀ c, P (.call c) → Q c)
    (hpart : ∀ c : Call, c.op.constituent = true → Q c) : RunsTo step Q s s' := by
  obtain ⟨ts, hts, rfl⟩ := h
  induction ts generalizing s with
  | nil => exact .refl s
  | cons t ts ih =>
    rw [List.forall_mem_cons] at hts
    have hhead : RunsTo step Q s (transact s t) :=
      transact_runsTo s t (fun c hc => hcall c (hc ▸ hts.1)) hpart
    exact hhead.trans (ih hts.2)

theorem runsTo_keepsApplications (h : RunsTo transact (fun t => t.keepsApplications = true) s s') :
    RunsTo step (fun c => c.op.keepsApplications = true) s s' :=
  runsTo_calls h (fun _ hc => hc) (fun _ => Op.keepsApplications_of_constituent)

theorem runsTo_createsNamespace (h : RunsTo transact (fun t => t.createsNamespace = false) s s') :
    RunsTo step (fun c => c.op.createsNamespace = false) s s' :=
  runsTo_calls h (fun _ hc => hc) (fun _ => Op.createsNamespace_of_constituent)

theorem runsTo_anyCalls {P : Transaction → Prop} (h : RunsTo transact P s s') :
    RunsTo step (fun _ => True) s s' :=
  runsTo_calls h (fun _ _ => trivial) (fun _ _ => trivial)

end

end Kms.Storage
