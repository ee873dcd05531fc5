import Kms.Storage.TrackHistory

/-!
# change log の有効化の行

`configuration_release` の行を書くのは `ActivateConfigurationRelease` だけである。一つの transaction が、その行・
current label・namespace の三つに一度に何をするかを数え上げる。

* `Logs` — log に一行を足すか、何もしない
* `FeedEffect` / `step_feedEffect` — 一つの transaction の場合分け
-/

namespace Kms.Storage

open Kms.Infra

/-! ## 操作ごとの行 -/

def Logs (kind : ResourceType) (log log' : ChangeLog) : Prop :=
  log' = log ∨ ∃ (entry : ChangeEntry) (namespaceID : Nat) (now : Time),
    entry.resourceType = kind ∧ log' = logChange log entry namespaceID now

theorem Logs.committed {kind : ResourceType} {log log' : ChangeLog} (h : Logs kind log log')
    {e : ChangeLogModel} (he : e ∈ committedBy log log') : e.resourceType = kind := by
  rcases h with rfl | ⟨entry, namespaceID, now, hkind, rfl⟩
  · rw [committedBy_eq_nil le_rfl] at he
    exact absurd he List.not_mem_nil
  · rw [committedBy_logChange, List.mem_singleton] at he
    rw [he]
    exact hkind

theorem parameter_logs (rq : Request) (s : Store) (op : ParameterOp) :
    Logs .parameter s.changeLog (op.exec rq s).2.changeLog := by
  rcases parameter_commits rq s op with h | ⟨_, _, _, entry, nsID, hkind, h⟩
  · exact Or.inl (congrArg Store.changeLog h)
  · exact Or.inr ⟨entry, nsID, rq.now, hkind, congrArg Store.changeLog h⟩

theorem secret_logs (rq : Request) (s : Store) (op : SecretOp) :
    Logs .secret s.changeLog (op.exec rq s).2.changeLog := by
  rcases secret_commits rq s op with h | ⟨_, _, _, _, _, entry, nsID, hkind, h⟩
  · exact Or.inl (congrArg Store.changeLog h)
  · exact Or.inr ⟨entry, nsID, rq.now, hkind, congrArg Store.changeLog h⟩

theorem setReleasePin_logs [Hashing] {rq : Request} {s s' : Store} {ref : ReleaseSessionRef}
    {version expected : Nat} {actor : String} {out : InstanceReleaseTarget}
    (h : setReleasePin rq s ref version expected actor = .ok (out, s')) :
    Logs .releaseInstance s.changeLog s'.changeLog := by
  simp only [setReleasePin, bind_eq_ok_iff] at h
  obtain ⟨m, _, _, _, _, _, h⟩ := h
  by_cases hv : m.pinVersion = version
  · rw [if_pos hv] at h
    obtain ⟨_, rfl⟩ := resolveInstanceTx_frame h
    exact Or.inl rfl
  · rw [if_neg hv] at h
    obtain ⟨_, rfl⟩ := resolveInstanceTx_frame h
    exact Or.inr ⟨_, _, _, rfl, rfl⟩

def activationEntry (track : ReleaseTrack) (version : Nat) : ChangeEntry :=
  { schemaVersion := track.schemaVersion, resourceType := .configurationRelease,
    ref := ⟨track.ns, track.name⟩, changeType := .activate, versionNumber := version }

/-! ## 一歩の数え上げ -/

inductive FeedEffect (s : Store) (c : Call) (s' : Store) : Prop
  | quiet (hns : s'.namespaces = s.namespaces) (hlabels : s'.releaseLabels = s.releaseLabels)
      (hlog : ∀ e ∈ committedBy s.changeLog s'.changeLog,
        e.resourceType ≠ .configurationRelease)
  | namespaceCreated (ns : NamespaceRef)
      (hns : s.namespaces.insert? (fun id => ⟨id, ns⟩) (fun _ => rfl) = some s'.namespaces)
      (hlabels : s'.releaseLabels = s.releaseLabels) (hlog : s'.changeLog = s.changeLog)
  | namespaceDeleted (id : Nat)
      (hns : s'.namespaces = s.namespaces.deleteWhere (fun m => decide (m.id = id)))
      (hlabels : s'.releaseLabels =
        s.releaseLabels.deleteWhere (fun m => decide (m.track.namespaceID = id)))
      (hlog : s'.changeLog = s.changeLog)
  | activated (track : ReleaseTrack) (nsID version : Nat)
      (hid : resolveNamespaceID c.rq s track.ns = .ok nsID)
      (htarget : ∃ target ∈ s.releases, target.versionNumber = version)
      (hns : s'.namespaces = s.namespaces)
      (hlog : s'.changeLog = logChange s.changeLog (activationEntry track version) nsID c.rq.now)
      (hlabels : s'.releaseLabels = activatedLabels s
        ⟨nsID, track.name, track.schemaVersion⟩ version (s.changeLog.seq + 1))

theorem FeedEffect.silent {s s' : Store} {c : Call} (hns : s'.namespaces = s.namespaces)
    (hlabels : s'.releaseLabels = s.releaseLabels) (hseq : s'.changeLog.seq ≤ s.changeLog.seq) :
    FeedEffect s c s' := by
  refine .quiet hns hlabels (fun e he => ?_)
  rw [committedBy_eq_nil hseq] at he
  exact absurd he List.not_mem_nil

theorem FeedEffect.logs {s s' : Store} {c : Call} {kind : ResourceType}
    (hns : s'.namespaces = s.namespaces) (hlabels : s'.releaseLabels = s.releaseLabels)
    (hlogs : Logs kind s.changeLog s'.changeLog) (hkind : kind ≠ .configurationRelease) :
    FeedEffect s c s' :=
  .quiet hns hlabels (fun _ he => hlogs.committed he ▸ hkind)

section

variable [Hashing]

theorem step_feedEffect {s s' : Store} {c : Call} (hs : step s c = s') : FeedEffect s c s' := by
  cases step_storeEffect hs with
  | parameter op hc h hlog hs =>
    have hlogs := parameter_logs c.rq s op
    rw [h] at hlogs
    subst hs
    exact .logs rfl rfl hlogs (by decide)
  | secret op hc h hlog hs =>
    have hlogs := secret_logs c.rq s op
    rw [h] at hlogs
    subst hs
    exact .logs rfl rfl hlogs (by decide)
  | namespaceCreated ns id hc h =>
    obtain ⟨t, ht, _, _, rfl⟩ := createNamespace_ok_cases h
    exact .namespaceCreated ns ht rfl rfl
  | namespaceDeleted ns u h =>
    obtain ⟨id, _, _, _, rfl⟩ := deleteNamespaceTx_ok_cases h
    exact .namespaceDeleted id rfl rfl rfl
  | activated track version expectedCurrent out h =>
    obtain ⟨nsID, target, hns, htarget, _, ⟨_, rfl⟩ | ⟨_, _, _, rfl⟩⟩ :=
      activateConfigurationRelease_ok_cases h
    · exact .silent rfl rfl le_rfl
    · exact .activated track nsID version hns ⟨target, AutoTable.mem_of_get htarget,
        congrArg ReleaseKey.versionNumber (AutoTable.key_of_get htarget)⟩ rfl rfl rfl
  | pinned ref version expected actor out h hs =>
    have hlogs := setReleasePin_logs h
    subst hs
    exact .logs rfl rfl hlogs (by decide)
  | logPruned hseq hlog hs =>
    subst hs
    exact .silent rfl rfl hseq.le
  | _ =>
    rename_i hs
    subst hs
    exact .silent rfl rfl le_rfl

end

end Kms.Storage
