import Kms.Storage.SecretLabels
import Mathlib.Data.Finset.Range

/-!
# binding cohort の発見と消去

* `discoverSecretBindingCohort_eq` — 発見は、anchor を含む極大の区間をちょうど返す
* `previewSecretVersions` — 消去の guard のもとになる preview
* `SecretEffect.secrets_of_quiet` — revision が進まない一歩は、secret の表を変えない
-/

namespace Kms.Storage

open Kms.Infra

def previewSecretVersions (rq : Request) (s : Store) (ref : Ref) (selector : PurgeSelector) :
    Except Err (Nat × List Nat × Nat) := do
  let (_, anchor, rows) ← selector.select rq s ref
  pure (anchor, rows.map (·.versionNumber), s.changeLog.seq)

variable {rq : Request} {s s' : Store} {c : Call} {ref : Ref} {requested lo hi : Nat}
  {test : SecretVersionModel → Except Err Unit} {sec : SecretModel} {anchor : SecretVersionModel}

/-! ## 発見 -/

theorem bindingVersionNumber_pos {id version : Nat}
    (h : bindingVersionNumber s ref id requested = .ok version) : 0 < version := by
  unfold bindingVersionNumber at h
  split at h
  · simp only [bind_eq_ok_iff, require_eq_ok_iff, pure_eq_ok_iff] at h
    obtain ⟨_, _, _, hne, rfl⟩ := h
    exact Nat.pos_of_ne_zero hne
  · rw [pure_eq_ok_iff] at h
    omega

theorem inCohort_anchor (hres : resolveBindingVersion rq s ref requested = .ok (sec, anchor))
    (hvalid : validBoundWrapping anchor = true) (htest : test anchor = .ok ()) :
    0 < anchor.versionNumber ∧ inCohort s sec.id test anchor.versionNumber = some anchor := by
  simp only [resolveBindingVersion, bind_eq_ok_iff, orThrow_eq_ok_iff, pure_eq_ok_iff] at hres
  obtain ⟨_, _, version, hver, _, hget, heq⟩ := hres
  cases heq
  have hvn : anchor.versionNumber = version := congrArg Prod.snd (Table.key_of_get hget)
  rw [hvn]
  refine ⟨bindingVersionNumber_pos hver, Option.filter_eq_some_iff.mpr ⟨hget, ?_⟩⟩
  rw [hvalid, htest]
  rfl

/-- 行は有限なので、anchor を含む極大の区間がある。 -/
theorem exists_cohort (hres : resolveBindingVersion rq s ref requested = .ok (sec, anchor))
    (hvalid : validBoundWrapping anchor = true) (htest : test anchor = .ok ()) :
    ∃ lo hi, MaximalRun (inCohort s sec.id test) lo anchor.versionNumber hi := by
  obtain ⟨hpos, hanchor⟩ := inCohort_anchor hres hvalid htest
  obtain ⟨bound, hbound⟩ :=
    (s.secretVersions.rows.map SecretVersionModel.versionNumber).toFinset.exists_nat_subset_range
  refine exists_maximalRun hpos (Option.isSome_of_eq_some hanchor) (fun n (hn : bound ≤ n) => ?_)
  rw [Option.eq_none_iff_forall_ne_some]
  intro row hrow
  have hget := (Option.filter_eq_some_iff.mp hrow).1
  have hvn : row.versionNumber = n := congrArg Prod.snd (Table.key_of_get hget)
  have hlt := Finset.mem_range.mp (hbound (List.mem_toFinset.mpr
    (List.mem_map.mpr ⟨row, Table.mem_of_get hget, hvn⟩)))
  omega

theorem discoverSecretBindingCohort_eq
    (hres : resolveBindingVersion rq s ref requested = .ok (sec, anchor))
    (hvalid : validBoundWrapping anchor = true) (htest : test anchor = .ok ())
    (hrun : MaximalRun (inCohort s sec.id test) lo anchor.versionNumber hi) :
    discoverSecretBindingCohort rq s ref requested test =
      if hi + 1 - lo ≤ maxSecretBindingCohortVersions then
        .ok (sec, anchor.versionNumber,
          (List.range' lo (hi + 1 - lo)).filterMap (inCohort s sec.id test))
      else .error cohortExceeded := by
  have hlive : anchor.state ≠ .destroyed ∧ anchor.bound = true := by
    simp only [validBoundWrapping, Bool.and_eq_true, decide_eq_true_eq] at hvalid
    exact ⟨hvalid.1.1.1.1.1, hvalid.1.1.1.1.2⟩
  simp only [discoverSecretBindingCohort, bind_of_ok hres]
  rw [require_bind hlive.1, require_bind hlive.2, require_bind hvalid, bind_of_ok htest]
  exact hrun.scan (inCohort_anchor hres hvalid htest).2 (by decide)
    (fun rows => (sec, anchor.versionNumber, rows))

theorem map_versionNumber_cohort {l : List Nat}
    (h : ∀ n ∈ l, (inCohort s sec.id test n).isSome) :
    (l.filterMap (inCohort s sec.id test)).map (·.versionNumber) = l := by
  induction l with
  | nil => rfl
  | cons n l ih =>
    obtain ⟨row, hrow⟩ := Option.isSome_iff_exists.mp (h n List.mem_cons_self)
    have hget := (Option.filter_eq_some_iff.mp hrow).1
    have hvn : row.versionNumber = n := congrArg Prod.snd (Table.key_of_get hget)
    rw [List.filterMap_cons_some hrow, List.map_cons, hvn,
      ih (fun m hm => h m (List.mem_cons_of_mem _ hm))]

/-! ## 消去 -/

theorem SecretEffect.secrets_of_quiet (h : SecretEffect s c s')
    (hseq : s'.changeLog.seq = s.changeLog.seq) : s'.secrets = s.secrets := by
  cases h.delta.outer with
  | neutral h => exact h.secrets
  | namespaceDeleted ns h =>
    obtain ⟨id, _, _, _, rfl⟩ := deleteNamespaceTx_ok_cases h
    rfl
  | rotated hc h =>
    obtain ⟨keys, _, _, _, rfl⟩ := rotateKEK_ok_cases h
    rfl
  | logged entry nsID now hs =>
    subst hs
    exact absurd hseq (Nat.succ_ne_self _)

section Purge

variable [Hashing]

/-- revision が進まない間、secret の表も、中に secret がある namespace の行も変わらない。 -/
theorem secrets_of_quiet_run {n : NamespaceModel} (hn : n ∈ s.namespaces) (hsec : sec ∈ s.secrets)
    (hid : sec.namespaceID = n.id) (cs : List Call) :
    s.changeLog.seq ≤ (run step s cs).changeLog.seq ∧
      ((run step s cs).changeLog.seq = s.changeLog.seq →
        (run step s cs).secrets = s.secrets ∧ n ∈ (run step s cs).namespaces) := by
  refine run_invariant (I := fun t : Store => s.changeLog.seq ≤ t.changeLog.seq ∧
    (t.changeLog.seq = s.changeLog.seq → t.secrets = s.secrets ∧ n ∈ t.namespaces))
    (fun t c ⟨hle, hkeep⟩ => ?_) ⟨le_rfl, fun _ => ⟨rfl, hn⟩⟩ cs
  have hmono := (step_sessionEffect (s := t) (c := c) rfl).seq_le
  refine ⟨hle.trans hmono, fun hseq => ?_⟩
  have hquiet : (step t c).changeLog.seq = t.changeLog.seq := by omega
  obtain ⟨hsecrets, hns⟩ := hkeep (hquiet ▸ hseq)
  have heff := step_secretEffect (s := t) (c := c) rfl
  have hsame := (heff.secrets_of_quiet hquiet).trans hsecrets
  refine ⟨hsame, (heff.keepsNamespace hns).resolve_right (fun hnone => ?_)⟩
  exact hnone sec (hsame ▸ hsec) hid

/--
発見は、anchor を含み、全ての version が実在し、正しく bound で、検査を通る極大の区間を昇順に返し、区間が上限より長い
ときに限って `ResourceExhausted` で失敗する。preview の結果を guard にした消去は、間にどの操作があっても、preview
した version だけを空の tombstone にするか、何も変えない。
-/
theorem cohort_discovered_and_purged_exactly (rq : Request) (s : Store) (ref : Ref) :
    (∀ requested test sec anchor,
      resolveBindingVersion rq s ref requested = .ok (sec, anchor) →
      validBoundWrapping anchor = true → test anchor = .ok () →
      ∃ lo hi rows, MaximalRun (inCohort s sec.id test) lo anchor.versionNumber hi ∧
        rows.map (·.versionNumber) = List.range' lo (hi + 1 - lo) ∧
        (∀ row ∈ rows, s.secretVersions.get (sec.id, row.versionNumber) = some row) ∧
        discoverSecretBindingCohort rq s ref requested test =
          if hi + 1 - lo ≤ maxSecretBindingCohortVersions then .ok (sec, anchor.versionNumber, rows)
          else .error cohortExceeded) ∧
      ∀ selector anchor affected revision,
        previewSecretVersions rq s ref selector = .ok (anchor, affected, revision) →
        ∃ sec, findSecret rq s ref = .ok sec ∧ ∀ cs rq' selector' actor t t',
          run step s cs = t →
          step t ⟨rq', .secret (.purge ref ⟨revision, affected⟩ selector' actor)⟩ = t' →
          t' = t ∨
            (∀ v ∈ affected, ∃ row, t.secretVersions.get (sec.id, v) = some row ∧
              t'.secretVersions.get (sec.id, v) = some (tombstone row rq'.now)) ∧
            ∀ id v, (id = sec.id → v ∉ affected) →
              t'.secretVersions.get (id, v) = t.secretVersions.get (id, v) := by
  refine ⟨fun requested test sec anchor hres hvalid htest => ?_,
    fun selector anchor affected revision hpreview => ?_⟩
  · obtain ⟨lo, hi, hrun⟩ := exists_cohort hres hvalid htest
    refine ⟨lo, hi, _, hrun, map_versionNumber_cohort (fun n hn => ?_), fun row hrow => ?_,
      discoverSecretBindingCohort_eq hres hvalid htest hrun⟩
    · rw [List.mem_range'_1] at hn
      exact hrun.all n hn.1 (by omega)
    · obtain ⟨n, _, hrow⟩ := List.mem_filterMap.mp hrow
      obtain ⟨hmem, hid⟩ := inCohort_mem hrow
      rw [← hid]
      exact Table.get_of_mem hmem
  · simp only [previewSecretVersions, bind_eq_ok_iff, pure_eq_ok_iff] at hpreview
    obtain ⟨⟨sec, _, rows₀⟩, hsel₀, heq⟩ := hpreview
    cases heq
    obtain ⟨nsID, hns, hsec⟩ := PurgeSelector.select_ok hsel₀
    obtain ⟨n, hn, rfl⟩ := resolveNamespaceID_ok hns
    have hkey := AutoTable.key_of_get hsec
    refine ⟨sec, ?_, fun cs rq' selector' actor t t' ht hstep => ?_⟩
    · simp only [findSecret, bind_eq_ok_iff, orThrow_eq_ok_iff]
      exact ⟨n.id, hns, hsec⟩
    rcases commit_cases hstep with hsame | ⟨⟨_, _⟩, h⟩
    · exact Or.inl hsame
    subst ht
    obtain ⟨sec', hfind, hseq, rfl, hrows, hget⟩ := purgeSecretVersions_spec h
    simp only [findSecret, bind_eq_ok_iff, orThrow_eq_ok_iff] at hfind
    obtain ⟨nsID', hns', hsec'⟩ := hfind
    obtain ⟨n', hget', rfl⟩ := resolveNamespaceID_ok hns'
    -- guard の revision が一致したので、preview の時の secret がそのまま選ばれている。
    obtain ⟨hsecrets, hmem⟩ := (secrets_of_quiet_run (AutoTable.mem_of_get hn)
      (AutoTable.mem_of_get hsec) (congrArg Prod.fst hkey) cs).2 hseq.symm
    have hsame : (run step s cs).namespaces.get n.ref = some n := Table.get_of_mem hmem
    rw [AutoTable.key_of_get hn, hget'] at hsame
    cases hsame
    rw [hsecrets, hsec] at hsec'
    cases hsec'
    refine Or.inr ⟨fun v hv => ?_, fun id v hout => ?_⟩
    · obtain ⟨row, hrow⟩ := hrows v hv
      exact ⟨row, hrow, by rw [hget, hrow, Option.map_some, if_pos ⟨rfl, hv⟩]⟩
    · rw [hget]
      simp only [if_neg (fun hin : id = sec.id ∧ v ∈ _ => hout hin.1 hin.2), Option.map_id']

end Purge

section Sample

local instance cohortHashing : Hashing := sampleHashing

private def sampleCohortRef : Ref := ⟨sampleNamespace, "token"⟩

private def sampleBoundPayload : EncryptedPayload :=
  ⟨[1], [2], "kek-1", .bindingKey, List.replicate 32 0, "aes", [3], "aad"⟩

/-- binding key に結び付いた version を書く。 -/
private def sampleBoundWrite : Call :=
  ⟨sampleRequest, .secret (.create
    { ref := sampleCohortRef, contentType := "text/plain", metadata := "", createdBy := "ops"
      bound := true, expected := none, expiresAt := none
      encrypt := fun _ => .ok sampleBoundPayload })⟩

private def sampleBoundSecret : SecretModel := ⟨1, 1, "token", "text/plain", "\x7b\x7d"⟩

private def sampleBoundRow : SecretVersionModel :=
  secretVersionRow 1 2 "text/plain" "\x7b\x7d" "ops" true .enabled none sampleBoundPayload

/-- 二つの version が結び付いた secret。 -/
private def sampleBoundStore : Store :=
  run step
    { step Store.empty ⟨sampleRequest, .createNamespace sampleNamespace⟩ with
      keyMetadata := Store.empty.keyMetadata.upsert ⟨"kek-1", [], .active, 0⟩ }
    [sampleBoundWrite, sampleBoundWrite]

private def sampleOpens : SecretVersionModel → Except Err Unit := fun _ => .ok ()

/-- preview した二つの version を消す。 -/
private def sampleCohortPurge : Call :=
  ⟨sampleRequest, .secret (.purge sampleCohortRef ⟨2, [1, 2]⟩ (.bindingCohort 0 sampleOpens) "ops")⟩

/-- 二つの version の cohort を見つけ、preview した通りに消す。 -/
theorem cohort_discovered_and_purged_exactly_pair :
    (∃ lo hi rows, MaximalRun (inCohort sampleBoundStore 1 sampleOpens) lo 2 hi ∧
      rows.map (·.versionNumber) = List.range' lo (hi + 1 - lo) ∧
      discoverSecretBindingCohort sampleRequest sampleBoundStore sampleCohortRef 0 sampleOpens =
        if hi + 1 - lo ≤ maxSecretBindingCohortVersions then .ok (sampleBoundSecret, 2, rows)
        else .error cohortExceeded) ∧
      ∀ v ∈ [1, 2], ∃ row, sampleBoundStore.secretVersions.get (1, v) = some row ∧
        (step sampleBoundStore sampleCohortPurge).secretVersions.get (1, v) =
          some (tombstone row 1) := by
  obtain ⟨hdiscover, hpurge⟩ :=
    cohort_discovered_and_purged_exactly sampleRequest sampleBoundStore sampleCohortRef
  refine ⟨?_, ?_⟩
  · have hres : resolveBindingVersion sampleRequest sampleBoundStore sampleCohortRef 0 =
        .ok (sampleBoundSecret, sampleBoundRow) := by decide +kernel
    obtain ⟨lo, hi, rows, hrun, hversions, -, heq⟩ :=
      hdiscover 0 sampleOpens _ _ hres (by decide +kernel) rfl
    exact ⟨lo, hi, rows, hrun, hversions, heq⟩
  · have hpreview : previewSecretVersions sampleRequest sampleBoundStore sampleCohortRef
        (.bindingCohort 0 sampleOpens) = .ok (2, [1, 2], 2) := by decide +kernel
    obtain ⟨sec, hsec, hstep⟩ := hpurge _ _ _ _ hpreview
    have hfind : findSecret sampleRequest sampleBoundStore sampleCohortRef =
        .ok sampleBoundSecret := by decide +kernel
    rw [hfind, Except.ok.injEq] at hsec
    subst hsec
    have hchanged : (step sampleBoundStore sampleCohortPurge).changeLog.seq ≠
        sampleBoundStore.changeLog.seq := by decide +kernel
    refine ((hstep [] sampleRequest (.bindingCohort 0 sampleOpens) "ops" _ _ rfl rfl).resolve_left
      fun hsame => hchanged ?_).1
    exact congrArg (·.changeLog.seq) hsame

end Sample

end Kms.Storage
