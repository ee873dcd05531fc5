import Kms.Storage.Catalog
import Kms.Storage.Composite

/-!
# 採用した contract の不変性

contract は、schema の作成・明示の採用・application の定義・最初の release・既定値の適用・移行の
どれからも採用されうる。どの経路も `adoptSchemaContractTx` か schema の行の作成を通り、採用した contract を
書き換えない。

* `step_keepsContract` — 一つの操作は、採用した contract を変えない。application を消す操作だけは、
  その application の schema 無しの系列の contract を消すが、そのとき environment は残っていない
* `ContractInv` — 保存された release は、系列の contract と同じ alias・kind・content type を持つ
* `contracts_immutable` — run 全体での不変性
-/

namespace Kms.Storage

open Kms.Infra

/-! ## 採用した contract -/

/-- contract を持つ系列。`version = 0` は schema 無しの系列である。 -/
structure ContractKey where
  application : String
  releaseName : String
  version : Nat
  deriving DecidableEq

/-- 採用した contract。 -/
def adoptedContract (s : Store) (k : ContractKey) : Option (List ApplicationContractField) :=
  if k.version = 0 then
    (s.schemaFreeContracts.get (k.application, k.releaseName)).map (·.contract)
  else (s.schemas.get (k.application, k.releaseName, k.version)).bind (·.contract)

/-- entry の行が定める contract の field。 -/
def ConfigurationReleaseEntryModel.field (e : ConfigurationReleaseEntryModel) :
    ApplicationContractField where
  fieldAlias := e.entryAlias
  kind := e.kind
  contentType := if e.kind = .parameter then e.contentType else ""

variable {s s' : Store} {k : ContractKey} {application releaseName : String}
  {fields : List ApplicationContractField} {out : Option (List ApplicationContractField)}

theorem adoptedContract_congr (hs : s'.schemas = s.schemas)
    (hf : s'.schemaFreeContracts = s.schemaFreeContracts) :
    adoptedContract s' k = adoptedContract s k := by
  unfold adoptedContract
  rw [hs, hf]

def schemaRow (s : Store) (k : ContractKey) : Option ConfigurationSchemaModel :=
  s.schemas.get (k.application, k.releaseName, k.version)

/-- `s` で採用した contract と登録した schema は `s'` でも同じである。 -/
structure KeepsContract (s s' : Store) (k : ContractKey) : Prop where
  adopted : ∀ contract, adoptedContract s k = some contract → adoptedContract s' k = some contract
  schema : ∀ row, schemaRow s k = some row → ∃ row', schemaRow s' k = some row' ∧
    row'.schemaJSON = row.schemaJSON ∧ row'.digest = row.digest

theorem KeepsContract.of_same (hs : s'.schemas = s.schemas)
    (hf : s'.schemaFreeContracts = s.schemaFreeContracts) : KeepsContract s s' k where
  adopted := by
    intro contract hc
    rw [adoptedContract_congr hs hf, hc]
  schema := by
    intro row hr
    refine ⟨row, ?_, rfl, rfl⟩
    rw [schemaRow, hs]
    exact hr

theorem KeepsContract.trans {s'' : Store} (h : KeepsContract s s' k)
    (h' : KeepsContract s' s'' k) : KeepsContract s s'' k where
  adopted := fun contract hc => h'.adopted contract (h.adopted contract hc)
  schema := by
    intro row hr
    obtain ⟨row', hr', hjson, hdigest⟩ := h.schema row hr
    obtain ⟨row'', hr'', hjson', hdigest'⟩ := h'.schema row' hr'
    exact ⟨row'', hr'', hjson'.trans hjson, hdigest'.trans hdigest⟩

/-! ## 採用 -/

theorem adopt_schemaFree {out : Option (List ApplicationContractField)}
    (h : adoptSchemaContractTx s application releaseName 0 fields = .ok (out, s')) :
    ∃ canonical, canonicalSchemaContract fields = .ok canonical ∧
      adoptedContract s' ⟨application, releaseName, 0⟩ = some canonical ∧
      ∀ k, KeepsContract s s' k := by
  simp only [adoptSchemaContractTx, if_true, bind_eq_ok_iff, orThrow_eq_ok_iff, pure_eq_ok_iff,
    require_eq_ok_iff] at h
  obtain ⟨canonical, hcanon, _, _, _, _, stored, hstored, _, heq, hout⟩ := h
  cases hout
  refine ⟨canonical, hcanon, ?_, fun k => ⟨fun contract hk => ?_,
    fun row hr => ⟨row, hr, rfl, rfl⟩⟩⟩
  · rw [adoptedContract, if_pos rfl, hstored, Option.map_some, heq]
  · unfold adoptedContract at hk ⊢
    split
    · next h0 =>
      rw [if_pos h0, Option.map_eq_some_iff] at hk
      obtain ⟨row, hrow, rfl⟩ := hk
      -- 既にある行は、INSERT が衝突して残る。
      rw [Table.get_insertIgnore, hrow]
      split <;> rfl
    · next h0 => rwa [if_neg h0] at hk

theorem adopt_registered {version : Nat} {out : Option (List ApplicationContractField)}
    (hv : version ≠ 0)
    (h : adoptSchemaContractTx s application releaseName version fields = .ok (out, s')) :
    ∃ canonical, canonicalSchemaContract fields = .ok canonical ∧
      adoptedContract s' ⟨application, releaseName, version⟩ = some canonical ∧
      ∀ k, KeepsContract s s' k := by
  simp only [adoptSchemaContractTx, hv, if_false, bind_eq_ok_iff, orThrow_eq_ok_iff,
    pure_eq_ok_iff, require_eq_ok_iff] at h
  obtain ⟨canonical, hcanon, _, _, _, _, row, hrow, _, hopen, hout⟩ := h
  cases hout
  refine ⟨canonical, hcanon, ?_, fun k => ⟨fun contract hk => ?_, fun r hr => ?_⟩⟩
  · have hkey : row.key = (application, releaseName, version) := Table.key_of_get hrow
    rw [adoptedContract, if_neg hv, Table.get_updateWhere, hrow, Option.map_some,
      Option.bind_some]
    · rcases hopen with hnone | hsome
      · simp [hkey, hnone]
      · simp [hsome]
    · intro m
      rfl
  · unfold adoptedContract at hk ⊢
    split
    · next h0 => rwa [if_pos h0] at hk
    · next h0 =>
      rw [if_neg h0, Option.bind_eq_some_iff] at hk
      obtain ⟨r, hr, hc⟩ := hk
      -- 書き換える条件は contract が未採用であることを含む。
      rw [Table.get_updateWhere, hr, Option.map_some, Option.bind_some]
      · simp [hc]
      · intro m
        rfl
  · have hget : (s.schemas.updateWhere (fun m => decide (m.key = (application, releaseName,
        version)) && decide (m.contract = none)) (fun m => { m with contract := some canonical })
        ).get (k.application, k.releaseName, k.version) = some
        (if decide (r.key = (application, releaseName, version)) && decide (r.contract = none) then
          { r with contract := some canonical } else r) := by
      rw [Table.get_updateWhere, show s.schemas.get _ = some r from hr, Option.map_some]
      intro m
      rfl
    refine ⟨_, hget, ?_⟩
    split <;> exact ⟨rfl, rfl⟩

theorem adoptSchemaContractTx_adopts {version : Nat}
    (h : adoptSchemaContractTx s application releaseName version fields = .ok (out, s')) :
    ∃ canonical, canonicalSchemaContract fields = .ok canonical ∧
      adoptedContract s' ⟨application, releaseName, version⟩ = some canonical ∧
      ∀ k, KeepsContract s s' k := by
  by_cases hv : version = 0
  · subst hv
    exact adopt_schemaFree h
  · exact adopt_registered hv h

theorem adoptGivenContract_keeps {app : Application}
    (h : adoptGivenContract s app = .ok s') (k : ContractKey) : KeepsContract s s' k := by
  unfold adoptGivenContract at h
  split at h
  · simp only [bind_eq_ok_iff, pure_eq_ok_iff] at h
    obtain ⟨⟨_, s₁⟩, hadopt, rfl⟩ := h
    obtain ⟨_, _, _, hkeep⟩ := adoptSchemaContractTx_adopts hadopt
    exact hkeep k
  · rw [pure_eq_ok_iff] at h
    subst h
    exact .of_same rfl rfl

theorem createConfigurationSchemaTx_keeps {schema out : ConfigurationSchema}
    {annotated : Option (List ApplicationContractField)}
    (h : createConfigurationSchemaTx s schema annotated = .ok (out, s')) (k : ContractKey) :
    KeepsContract s s' k := by
  obtain ⟨row, t, ht, rfl⟩ := createConfigurationSchemaTx_ok_cases h
  refine ⟨fun contract hk => ?_, fun r hr => ⟨r, Table.get_insert?_of_some ht hr, rfl, rfl⟩⟩
  unfold adoptedContract at hk ⊢
  split
  · next h0 => rwa [if_pos h0] at hk
  · next h0 =>
    rw [if_neg h0, Option.bind_eq_some_iff] at hk
    obtain ⟨r, hr, hc⟩ := hk
    rw [Table.get_insert?_of_some ht hr, Option.bind_some, hc]

/-! ## 一歩 -/

theorem admin_keepsContract {rq : Request} {op : AdminOp} (hs : (op.exec rq s).2 = s')
    (hk : (Op.admin op).keepsApplications = true ∨
      ∃ n ∈ s.namespaces, n.ref.app = k.application) : KeepsContract s s' k := by
  subst hs
  have hcommit : ∀ {α : Type} {r : Except Err (α × Store)} {out : α → Output},
      (∀ a t, r = .ok (a, t) → KeepsContract s t k) → KeepsContract s (commit s r out).2 k :=
    commit_keeps (P := fun t => KeepsContract s t k) (.of_same rfl rfl)
  cases op
  case appendAudit event => exact .of_same rfl rfl
  all_goals refine hcommit (fun u t h => ?_)
  case createApplication =>
    simp only [createApplication, bind_eq_ok_iff, pure_eq_ok_iff] at h
    obtain ⟨applications, _, s₁, hadopt, heq⟩ := h
    cases heq
    have hsame : KeepsContract s { s with applications := applications } k := .of_same rfl rfl
    exact hsame.trans (adoptGivenContract_keeps hadopt k)
  case createApplicationWithSchema =>
    simp only [createApplicationWithSchema, bind_eq_ok_iff, pure_eq_ok_iff] at h
    obtain ⟨applications, _, ⟨created, s₁⟩, hschema, _, _, heq⟩ := h
    cases heq
    have hsame : KeepsContract s { s with applications := applications } k := .of_same rfl rfl
    exact (hsame.trans (createConfigurationSchemaTx_keeps hschema k)).trans (.of_same rfl rfl)
  case updateApplication =>
    simp only [updateApplication, bind_eq_ok_iff, pure_eq_ok_iff] at h
    obtain ⟨_, _, s₁, hadopt, _, _, _, _, heq⟩ := h
    cases heq
    exact (adoptGivenContract_keeps hadopt k).trans (.of_same rfl rfl)
  case archiveApplication =>
    obtain ⟨_, rfl⟩ := archiveApplication_frame h
    exact .of_same rfl rfl
  case unarchiveApplication =>
    obtain ⟨_, rfl⟩ := unarchiveApplication_frame h
    exact .of_same rfl rfl
  case deleteApplication name =>
    rcases hk with hkeep | ⟨n, hn, happ⟩
    · cases hkeep
    · -- environment が残っているので、消えた application は `k` のものではない。
      simp only [deleteApplicationTx, bind_eq_ok_iff, pure_eq_ok_iff, require_eq_ok_iff,
        List.length_eq_zero_iff, List.filter_eq_nil_iff, decide_eq_true_eq] at h
      obtain ⟨_, _, _, hnone, _, _, heq⟩ := h
      cases heq
      have hne : k.application ≠ name := happ ▸ hnone n hn
      refine ⟨fun contract hc => ?_, fun row hr => ⟨row, hr, rfl, rfl⟩⟩
      unfold adoptedContract at hc ⊢
      split
      · next h0 =>
        rw [if_pos h0, Option.map_eq_some_iff] at hc
        obtain ⟨row, hrow, rfl⟩ := hc
        have hrowName : row.applicationName = k.application :=
          congrArg Prod.fst (Table.key_of_get hrow)
        rw [Table.get_deleteWhere, hrow, Option.filter_some_pos, Option.map_some]
        simpa [hrowName] using hne
      · next h0 => rwa [if_neg h0] at hc
  case createConfigurationSchema =>
    exact createConfigurationSchemaTx_keeps h k
  case adoptConfigurationSchemaContract =>
    obtain ⟨_, _, _, hkeep⟩ := adoptSchemaContractTx_adopts h
    exact hkeep k
  case adoptApplicationContract =>
    simp only [adoptApplicationContract, bind_eq_ok_iff, pure_eq_ok_iff] at h
    obtain ⟨_, _, ⟨_, s₁⟩, hadopt, _, _, heq⟩ := h
    cases heq
    obtain ⟨_, _, _, hkeep⟩ := adoptSchemaContractTx_adopts hadopt
    exact (hkeep k).trans (.of_same rfl rfl)
  case createIdentity =>
    obtain ⟨_, rfl⟩ := createIdentity_frame h
    exact .of_same rfl rfl

section

variable [Hashing]

variable {s s' : Store} {k : ContractKey}

theorem createConfigurationRelease_keeps {rq : Request}
    {input : ConfigurationRelease} {options : ReleaseCreateOptions}
    {out : ConfigurationRelease × Bool}
    (h : createConfigurationRelease rq s input options = .ok (out, s')) (k : ContractKey) :
    KeepsContract s s' k := by
  obtain ⟨_, _, s₁, _, _, hadopt, h⟩ := createConfigurationRelease_ok h
  obtain ⟨_, _, _, hkeep⟩ := adoptSchemaContractTx_adopts hadopt
  rcases h with ⟨_, _, _, rfl⟩ | ⟨_, _, _, hins, _, _⟩
  · exact hkeep k
  · obtain ⟨_, _, _, _, _, rfl⟩ := insertRelease_ok_cases hins
    exact (hkeep k).trans (.of_same rfl rfl)

theorem step_keepsContract {c : Call} (hs : step s c = s')
    (hk : c.op.keepsApplications = true ∨ ∃ n ∈ s.namespaces, n.ref.app = k.application) :
    KeepsContract s s' k := by
  cases step_storeEffect hs with
  | administered op hc h hs =>
    rw [hc] at hk
    exact admin_keepsContract h hk
  | namespaceDeleted ns u h =>
    obtain ⟨_, _, _, _, rfl⟩ := deleteNamespaceTx_ok_cases h
    exact .of_same rfl rfl
  | released release options out h => exact createConfigurationRelease_keeps h k
  | _ =>
    rename_i hs
    subst hs
    exact .of_same rfl rfl

/-! ## release と contract -/

def ContractInv (s : Store) : Prop :=
  ∀ r ∈ s.releases, ∀ n ∈ s.namespaces, n.id = r.namespaceID →
    adoptedContract s ⟨n.ref.app, r.name, r.schemaVersion⟩ =
      some ((releaseEntriesOf s r.id).map (·.field))

omit [Hashing] in
/-- 書いた entry の行を alias 順に読むと、渡した entry を揃えた contract になる。 -/
theorem fields_inserted {rows old : List ConfigurationReleaseEntryModel}
    {es : List ConfigurationReleaseEntry} {id nsID : Nat} (hold : ∀ e ∈ old, e.releaseID ≠ id)
    (hrows : rows = old ++ es.map (entryRow id nsID)) :
    ((rows.filter (fun e => decide (e.releaseID = id))).insertionSort
      (fun a b => a.entryAlias ≤ b.entryAlias)).map (·.field) =
      (es.map (·.field)).insertionSort (fun a b => a.fieldAlias ≤ b.fieldAlias) := by
  have hfilter : rows.filter (fun e => decide (e.releaseID = id)) =
      es.map (entryRow id nsID) := by
    rw [hrows, List.filter_append, List.filter_eq_nil_iff.mpr, List.nil_append,
      List.filter_eq_self.mpr]
    · intro e he
      obtain ⟨x, _, rfl⟩ := List.mem_map.mp he
      exact decide_eq_true rfl
    · intro e he
      simpa using hold e he
  rw [hfilter, List.map_insertionSort
    (fun a b : ConfigurationReleaseEntryModel => a.entryAlias ≤ b.entryAlias)
    (fun a b : ApplicationContractField => a.fieldAlias ≤ b.fieldAlias) _ _
    (fun _ _ _ _ => Iff.rfl), List.map_map]
  rfl

/-- 新しい release は、同じ transaction で定めたか確かめた contract に従う。 -/
theorem created_matches {rq : Request} {input : ConfigurationRelease}
    {options : ReleaseCreateOptions} {out : ConfigurationRelease × Bool} (hi : CatalogInv s)
    (h : createConfigurationRelease rq s input options = .ok (out, s'))
    {r : ConfigurationReleaseModel} (hr : r ∈ s'.releases) (hnew : r ∉ s.releases)
    {n : NamespaceModel} (hn : n ∈ s'.namespaces) (hid : n.id = r.namespaceID) :
    adoptedContract s' ⟨n.ref.app, r.name, r.schemaVersion⟩ =
      some ((releaseEntriesOf s' r.id).map (·.field)) := by
  obtain ⟨nsID, adopted, s₁, hns, _, hadopt, h⟩ := createConfigurationRelease_ok h
  obtain ⟨canonical, hcanon, hadopted, _⟩ := adoptSchemaContractTx_adopts hadopt
  obtain ⟨_, _, rfl⟩ := adoptSchemaContractTx_frame hadopt
  rcases h with ⟨_, _, _, rfl⟩ | ⟨id, _, _, hins, _, _⟩
  · exact absurd hr hnew
  · obtain ⟨_, t, es, ht, hes, rfl⟩ := insertRelease_ok_cases hins
    rcases (AutoTable.mem_insert? ht).mp hr with hr | rfl
    · exact absurd hr hnew
    · obtain ⟨m, hm, hmid⟩ := resolveNamespaceID_ok hns
      have hnm : n = m := s.namespaces.id_inj n hn m (AutoTable.mem_of_get hm)
        (hid.trans hmid.symm)
      have href : n.ref = input.ns := by
        rw [hnm]
        exact AutoTable.key_of_get hm
      have hfresh : ∀ e ∈ s.releaseEntries.rows, e.releaseID ≠ s.releases.seq + 1 := by
        intro e he heq
        obtain ⟨x, hx, hxid⟩ := hi.entryOwner e he
        have hle := s.releases.id_le x hx
        omega
      have hfields := fields_inserted hfresh (rows_insertEntries hes)
      have hsame : (input.homed nsID).entries.map (·.field) = input.entries.map (·.field) := by
        simp [ConfigurationRelease.homed, ConfigurationReleaseEntry.field, Function.comp_def]
      rw [hsame, ← (canonicalSchemaContract_ok_iff.mp hcanon).1] at hfields
      rw [href]
      exact hadopted.trans (congrArg some hfields.symm)

theorem contractInv_step (s : Store) (c : Call) (hi : CatalogInv s) (hc : ContractInv s) :
    ContractInv (step s c) := by
  intro r hr n hn hid
  have hevolves : Evolves s (step s c) := (step_releaseEffect rfl).evolves
  by_cases hold : r ∈ s.releases
  · -- 前からある release。持ち主も entry も変わらず、contract も保たれる。
    obtain ⟨m, hm, hmid⟩ := hi.owner r hold
    have hmn : m = n := hevolves.namespace_eq hm hn (hmid.trans hid.symm)
    subst hmn
    rw [hevolves.entries_eq hold hr]
    exact (step_keepsContract rfl (Or.inr ⟨m, hm, rfl⟩)).adopted _ (hc r hold m hm hmid)
  · -- 新しい release を足すのは作成だけである。
    cases step_storeEffect (s := s) (c := c) rfl with
    | namespaceDeleted ns u h =>
      obtain ⟨_, _, _, _, h'⟩ := deleteNamespaceTx_ok_cases h
      rw [h', AutoTable.mem_deleteWhere] at hr
      exact absurd hr.1 hold
    | released release options out h => exact created_matches hi h hr hold hn hid
    | pruned retainDuration retainVersions h =>
      rcases pruneConfigurationReleases_cases h with h' | ⟨_, _, _, _, h'⟩
      · rw [h'] at hr
        exact absurd hr hold
      · rw [h', AutoTable.mem_deleteWhere] at hr
        exact absurd hr.1 hold
    | _ =>
      rename_i hs
      rw [hs] at hr
      exact absurd hr hold

omit [Hashing] in
theorem contractInv_empty : ContractInv Store.empty :=
  fun r hr => absurd hr (AutoTable.not_mem_empty r)

theorem contractInv_runsTo {P : Call → Prop} (h : RunsTo step P s s')
    (hi : CatalogInv s) (hc : ContractInv s) : CatalogInv s' ∧ ContractInv s' :=
  h.invariant (I := fun s => CatalogInv s ∧ ContractInv s)
    (fun s c _ hs => ⟨catalogInv_step s c hs.1, contractInv_step s c hs.1 hs.2⟩) ⟨hi, hc⟩

theorem keepsContract_runsTo
    (h : RunsTo step (fun c => c.op.keepsApplications = true) s s') : KeepsContract s s' k := by
  obtain ⟨cs, hcs, rfl⟩ := h
  induction cs generalizing s with
  | nil => exact .of_same rfl rfl
  | cons c cs ih =>
    rw [List.forall_mem_cons] at hcs
    exact (step_keepsContract rfl (Or.inl hcs.1)).trans (ih hcs.2)

theorem keepsContract_alive
    (h : RunsTo step (fun c => c.op.createsNamespace = false) s s') {n : NamespaceModel}
    (hn : n ∈ s'.namespaces) (hk : n.ref.app = k.application) :
    KeepsContract s s' k := by
  obtain ⟨cs, hcs, rfl⟩ := h
  induction cs generalizing s with
  | nil => exact .of_same rfl rfl
  | cons c cs ih =>
    rw [List.forall_mem_cons] at hcs
    -- 後で生きている namespace は、途中の全ての時点で生きている。
    have hmid : n ∈ (step s c).namespaces := namespaces_runsTo ⟨cs, hcs.2, rfl⟩ hn
    have halive : n ∈ s.namespaces := step_namespaces hcs.1 hmid
    exact (step_keepsContract rfl (Or.inr ⟨n, halive, hk⟩)).trans (ih hcs.2 hn)

/-! ## run -/

variable [SnapshotHashing]

/--
採用した contract の不変性。空の store からのどの run の後でも、(1) 採用した contract は、application を
消さない限りその後の run で変わらず、(2) 保存された release には持ち主の namespace があり、release の entry の
alias・kind・content type は、系列に採用された contract そのものであり、(3) 失敗した transaction は採用した
contract を変えない。
-/
theorem contracts_immutable (ts us : List Transaction)
    (hus : ∀ t ∈ us, t.keepsApplications = true) :
    (∀ k contract, adoptedContract (run transact Store.empty ts) k = some contract →
      adoptedContract (run transact (run transact Store.empty ts) us) k = some contract) ∧
    (∀ r ∈ (run transact Store.empty ts).releases,
      ∃ n ∈ (run transact Store.empty ts).namespaces, n.id = r.namespaceID ∧
        adoptedContract (run transact Store.empty ts) ⟨n.ref.app, r.name, r.schemaVersion⟩ =
          some ((releaseEntriesOf (run transact Store.empty ts) r.id).map (·.field))) ∧
    (∀ t : Transaction, (t.exec (run transact Store.empty ts)).1.isFailure = true →
      adoptedContract (t.exec (run transact Store.empty ts)).2 =
        adoptedContract (run transact Store.empty ts)) := by
  have hreach : RunsTo transact (fun _ => True) Store.empty (run transact Store.empty ts) :=
    ⟨ts, fun _ _ => trivial, rfl⟩
  obtain ⟨hi, hc⟩ := contractInv_runsTo (runsTo_anyCalls hreach) catalogInv_empty contractInv_empty
  refine ⟨fun k contract hk => ?_, fun r hr => ?_, fun t ht => ?_⟩
  · have hrun : RunsTo transact (fun t => t.keepsApplications = true)
        (run transact Store.empty ts) (run transact (run transact Store.empty ts) us) :=
      ⟨us, hus, rfl⟩
    exact (keepsContract_runsTo (runsTo_keepsApplications hrun)).adopted contract hk
  · obtain ⟨n, hn, hid⟩ := hi.owner r hr
    exact ⟨n, hn, hid, hc r hr n hn hid⟩
  · rw [Transaction.exec_failed ht]

end

section Sample

local instance contractHashing : Hashing := sampleHashing

local instance contractSnapshotHashing : SnapshotHashing := ⟨fun _ => "", fun _ => ""⟩

/-- parameter を一つ指す release。最初の作成で contract が定まる。 -/
private def sampleShaped : ConfigurationRelease :=
  { sampleRelease with
    entries := [{ entryAlias := "limit", kind := .parameter, ref := ⟨sampleNamespace, "limit"⟩
                  version := 1, resourceNamespaceID := 0, contentType := "json", metadata := ""
                  parameterDigest := "" }] }

private def sampleAdopting : List Transaction :=
  [.call ⟨sampleRequest, .createNamespace sampleNamespace⟩,
    .call ⟨sampleRequest, .createRelease sampleShaped ⟨false, none⟩⟩]

/-- 別の contract の採用と、別の形の release の作成。どちらも拒否される。 -/
private def sampleOverriding : List Transaction :=
  [.call ⟨sampleRequest, .admin (.adoptConfigurationSchemaContract "shop" "runtime" 0 [])⟩,
    .call ⟨sampleRequest, .createRelease sampleRelease ⟨false, none⟩⟩]

theorem contracts_immutable_sample :
    adoptedContract (run transact (run transact Store.empty sampleAdopting) sampleOverriding)
      ⟨"shop", "runtime", 0⟩ = some [⟨"limit", .parameter, "json"⟩] := by
  obtain ⟨hkept, _⟩ := contracts_immutable sampleAdopting sampleOverriding (by decide)
  exact hkept _ _ (by decide +kernel)

end Sample

end Kms.Storage
