import Kms.Storage.Op

/-!
# 操作の枠

操作の群ごとに、変わりうる表を明示する。不変条件の証明は、関係しない群をここの補題で済ませる。
-/

namespace Kms.Storage

open Kms.Infra

/-! ## 群ごとの枠 -/

variable {s s' : Store} {app : Application} {rq : Request} {u : Unit} {name : String}

theorem adoptGivenContract_frame (h : adoptGivenContract s app = .ok s') :
    ∃ b c, s' = { s with schemas := b, schemaFreeContracts := c } := by
  unfold adoptGivenContract at h
  split at h
  · simp only [bind_eq_ok_iff, pure_eq_ok_iff] at h
    obtain ⟨⟨o, s₁⟩, hadopt, rfl⟩ := h
    exact adoptSchemaContractTx_frame hadopt
  · rw [pure_eq_ok_iff] at h
    subst h
    exact ⟨_, _, rfl⟩

theorem createApplication_frame (h : createApplication rq s app = .ok (u, s')) :
    ∃ a b c, s' = { s with applications := a, schemas := b, schemaFreeContracts := c } := by
  simp only [createApplication, bind_eq_ok_iff, pure_eq_ok_iff] at h
  obtain ⟨a, _, s₁, hadopt, heq⟩ := h
  obtain ⟨b, c, rfl⟩ := adoptGivenContract_frame hadopt
  cases heq
  exact ⟨a, b, c, rfl⟩

theorem updateApplication_frame {expected : Option ApplicationDefinitionExpectation}
    (h : updateApplication rq s app expected = .ok (u, s')) :
    ∃ a b c, s' = { s with applications := a, schemas := b, schemaFreeContracts := c } := by
  simp only [updateApplication, bind_eq_ok_iff, pure_eq_ok_iff] at h
  obtain ⟨_, _, s₁, hadopt, _, _, _, _, heq⟩ := h
  obtain ⟨b, c, rfl⟩ := adoptGivenContract_frame hadopt
  cases heq
  exact ⟨_, b, c, rfl⟩

theorem adoptApplicationContract_frame {fields : List ApplicationContractField}
    (h : adoptApplicationContract rq s name fields = .ok (u, s')) :
    ∃ a b c, s' = { s with applications := a, schemas := b, schemaFreeContracts := c } := by
  simp only [adoptApplicationContract, bind_eq_ok_iff, pure_eq_ok_iff] at h
  obtain ⟨_, _, ⟨o, s₁⟩, hadopt, _, _, heq⟩ := h
  obtain ⟨b, c, rfl⟩ := adoptSchemaContractTx_frame hadopt
  cases heq
  exact ⟨_, b, c, rfl⟩

theorem createApplicationWithSchema_frame
    {schema out : ConfigurationSchema} {annotated : Option (List ApplicationContractField)}
    (h : createApplicationWithSchema rq s app schema annotated = .ok (out, s')) :
    ∃ a b, s' = { s with applications := a, schemas := b } := by
  simp only [createApplicationWithSchema, bind_eq_ok_iff, pure_eq_ok_iff] at h
  obtain ⟨_, _, ⟨o, s₁⟩, hschema, _, _, heq⟩ := h
  obtain ⟨_, b, _, rfl⟩ := createConfigurationSchemaTx_ok_cases hschema
  cases heq
  exact ⟨_, b, rfl⟩

theorem archiveApplication_frame (h : archiveApplication rq s name = .ok (u, s')) :
    ∃ a, s' = { s with applications := a } := by
  simp only [archiveApplication, bind_eq_ok_iff] at h
  obtain ⟨app, _, h⟩ := h
  split at h
  · rw [pure_eq_ok_iff] at h
    cases h
    exact ⟨_, rfl⟩
  · simp only [bind_eq_ok_iff, pure_eq_ok_iff] at h
    obtain ⟨_, _, heq⟩ := h
    cases heq
    exact ⟨_, rfl⟩

theorem unarchiveApplication_frame (h : unarchiveApplication rq s name = .ok (u, s')) :
    ∃ a, s' = { s with applications := a } := by
  simp only [unarchiveApplication, bind_eq_ok_iff, pure_eq_ok_iff] at h
  obtain ⟨_, _, heq⟩ := h
  cases heq
  exact ⟨_, rfl⟩

theorem deleteApplicationTx_frame (h : deleteApplicationTx s name = .ok (u, s')) :
    ∃ a c, s' = { s with applications := a, schemaFreeContracts := c } := by
  simp only [deleteApplicationTx, bind_eq_ok_iff, pure_eq_ok_iff] at h
  obtain ⟨_, _, _, _, _, _, heq⟩ := h
  cases heq
  exact ⟨_, _, rfl⟩

theorem createIdentity_frame
    {ns : Option NamespaceRef} (h : createIdentity rq s name ns = .ok (u, s')) :
    ∃ d, s' = { s with identities := d } := by
  simp only [createIdentity, bind_eq_ok_iff, pure_eq_ok_iff] at h
  obtain ⟨_, _, d, _, heq⟩ := h
  cases heq
  exact ⟨d, rfl⟩

/-- 管理操作が変えうるのは、release の作成を門番する表と監査だけである。 -/
def AdminFrame (s s' : Store) : Prop :=
  ∃ a b c d e, s' = { s with
    applications := a
    schemas := b
    schemaFreeContracts := c
    identities := d
    auditEvents := e }

theorem admin_frame (rq : Request) (s : Store) (op : AdminOp) : AdminFrame s (op.exec rq s).2 := by
  have hcommit : ∀ {α : Type} {r : Except Err (α × Store)} {out : α → Output},
      (∀ u t, r = .ok (u, t) → AdminFrame s t) → AdminFrame s (commit s r out).2 :=
    commit_keeps ⟨_, _, _, _, _, rfl⟩
  cases op
  case appendAudit event => exact ⟨_, _, _, _, _, rfl⟩
  all_goals refine hcommit (fun u t h => ?_)
  case createApplication =>
    obtain ⟨a, b, c, h'⟩ := createApplication_frame h
    exact ⟨a, b, c, _, _, h'⟩
  case createApplicationWithSchema =>
    obtain ⟨a, b, h'⟩ := createApplicationWithSchema_frame h
    exact ⟨a, b, _, _, _, h'⟩
  case updateApplication =>
    obtain ⟨a, b, c, h'⟩ := updateApplication_frame h
    exact ⟨a, b, c, _, _, h'⟩
  case archiveApplication =>
    obtain ⟨a, h'⟩ := archiveApplication_frame h
    exact ⟨a, _, _, _, _, h'⟩
  case unarchiveApplication =>
    obtain ⟨a, h'⟩ := unarchiveApplication_frame h
    exact ⟨a, _, _, _, _, h'⟩
  case deleteApplication =>
    obtain ⟨a, c, h'⟩ := deleteApplicationTx_frame h
    exact ⟨a, _, c, _, _, h'⟩
  case createConfigurationSchema =>
    obtain ⟨_, b, _, h'⟩ := createConfigurationSchemaTx_ok_cases h
    exact ⟨_, b, _, _, _, h'⟩
  case adoptConfigurationSchemaContract =>
    obtain ⟨b, c, h'⟩ := adoptSchemaContractTx_frame h
    exact ⟨_, b, c, _, _, h'⟩
  case adoptApplicationContract =>
    obtain ⟨a, b, c, h'⟩ := adoptApplicationContract_frame h
    exact ⟨a, b, c, _, _, h'⟩
  case createIdentity =>
    obtain ⟨d, h'⟩ := createIdentity_frame h
    exact ⟨_, _, _, d, _, h'⟩

theorem parameter_commits (rq : Request) (s : Store) (op : ParameterOp) :
    (op.exec rq s).2 = s ∨ ∃ (a : _) (b : _) (c : _) (entry : ChangeEntry) (nsID : Nat),
      entry.resourceType = .parameter ∧ (op.exec rq s).2 = { s with
        parameters := a
        parameterVersions := b
        parameterLabels := c
        changeLog := logChange s.changeLog entry nsID rq.now } := by
  cases op
  all_goals
    rcases commit_store with h | ⟨out, h⟩
    · exact Or.inl h
    simp only [putParameter, deleteParameterTx, bind_eq_ok_iff, orThrow_eq_ok_iff,
      pure_eq_ok_iff, appendChange] at h
  case put =>
    obtain ⟨_, _, _, _, _, _, heq⟩ := h
    exact Or.inr ⟨_, _, _, _, _, rfl, congrArg Prod.snd heq.symm⟩
  case delete =>
    obtain ⟨_, _, _, _, heq⟩ := h
    exact Or.inr ⟨_, _, _, _, _, rfl, congrArg Prod.snd heq.symm⟩

theorem parameter_frame (rq : Request) (s : Store) (op : ParameterOp) :
    ∃ a b c j, LogStep s.changeLog j ∧ (op.exec rq s).2 = { s with
      parameters := a
      parameterVersions := b
      parameterLabels := c
      changeLog := j } := by
  rcases parameter_commits rq s op with h | ⟨a, b, c, _, _, _, h⟩
  · exact ⟨_, _, _, _, .same, h⟩
  · exact ⟨a, b, c, _, .appended _ _ _, h⟩

/-- secret の操作が commit したなら、secret の表を変え、log に一行を足した。 -/
def SecretCommit (rq : Request) (s s' : Store) : Prop :=
  ∃ (a : _) (b : _) (c : _) (d : _) (audits : _) (entry : ChangeEntry) (nsID : Nat),
    entry.resourceType = .secret ∧ s' = { s with
      secrets := a
      secretHighWater := b
      secretVersions := c
      secretLabels := d
      auditEvents := audits
      changeLog := logChange s.changeLog entry nsID rq.now }

theorem secret_commits (rq : Request) (s : Store) (op : SecretOp) :
    (op.exec rq s).2 = s ∨ SecretCommit rq s (op.exec rq s).2 := by
  have hcommit : ∀ {α : Type} {r : Except Err (α × Store)} {out : α → Output},
      (∀ u t, r = .ok (u, t) → SecretCommit rq s t) →
      (commit s r out).2 = s ∨ SecretCommit rq s (commit s r out).2 :=
    fun h => commit_keeps (P := fun t => t = s ∨ SecretCommit rq s t) (.inl rfl)
      (fun u t hr => .inr (h u t hr))
  cases op
  all_goals
    refine hcommit (fun u t h => ?_)
    simp only [createSecretVersion, transitionSecretVersion, setSecretVersionState,
      destroySecretVersion, promoteSecretVersion, deleteSecretTx, purgeSecretVersions,
      bind_eq_ok_iff, pure_eq_ok_iff, appendChange] at h
  case create =>
    obtain ⟨_, _, _, _, _, _, _, _, _, _, _, _, _, _, _, _, _, _, ⟨⟩⟩ := h
    exact ⟨_, _, _, _, _, _, _, rfl, rfl⟩
  case transition =>
    obtain ⟨_, _, _, _, _, _, _, _, _, _, _, _, _, _, _, _, _, _, _, _, ⟨⟩⟩ := h
    exact ⟨_, _, _, _, _, _, _, rfl, rfl⟩
  case setState =>
    obtain ⟨_, _, _, _, _, _, ⟨⟩⟩ := h
    exact ⟨_, _, _, _, _, _, _, rfl, rfl⟩
  case destroy =>
    obtain ⟨_, _, _, _, _, _, _, _, _, _, ⟨⟩⟩ := h
    exact ⟨_, _, _, _, _, _, _, rfl, rfl⟩
  case promote =>
    obtain ⟨_, _, _, _, _, _, _, _, ⟨⟩⟩ := h
    exact ⟨_, _, _, _, _, _, _, rfl, rfl⟩
  case delete =>
    obtain ⟨_, _, _, _, ⟨⟩⟩ := h
    exact ⟨_, _, _, _, _, _, _, rfl, rfl⟩
  case purge =>
    obtain ⟨_, _, _, _, _, _, _, _, ⟨⟩⟩ := h
    exact ⟨_, _, _, _, _, _, _, rfl, rfl⟩

theorem secret_frame (rq : Request) (s : Store) (op : SecretOp) :
    ∃ a b c d e j, LogStep s.changeLog j ∧ (op.exec rq s).2 = { s with
      secrets := a
      secretHighWater := b
      secretVersions := c
      secretLabels := d
      auditEvents := e
      changeLog := j } := by
  rcases secret_commits rq s op with h | ⟨a, b, c, d, e, _, _, _, h⟩
  · exact ⟨_, _, _, _, _, _, .same, h⟩
  · exact ⟨a, b, c, d, e, _, .appended _ _ _, h⟩

end Kms.Storage
