import Kms.Loader.GoTracking
import Kms.Storage.Catalog

/-!
# server の返す target の順序

一つの session の target を読み直す loader は、target を revision の昇順に見て、同じ revision では同じ release を見る。
`Go.ServerOrdered` が読み出しに求める順序である。

* `targetCandidate` — 読み出した target の候補
* `resolved_upTo` — 後の読み出しから見て、先の読み出しはそこまでの target である
-/

namespace Kms.Loader

open Kms.Infra Kms.Storage

def targetCandidate (t : InstanceReleaseTarget) : Candidate where
  release := t.release.map (fun r => ⟨some r.ns, r.name, r.schemaVersion, r.version, r.digest⟩)
  revision := t.targetRevision
  activationRevision := t.activationRevision
  seq := 0
  source := .reconciliation

variable [Hashing] {s : Store} {rq : Request} {ref : ReleaseSessionRef} {t : InstanceReleaseTarget}

/-- 読み出しは、session の系列にある、割り当てた番号の release を返す。 -/
theorem resolved_row (h : (exec s ⟨rq, .resolveInstance ref⟩).1 = .target t) :
    ∃ m, s.sessions.get ref.sessionID = some m ∧
      ((resolvedTarget t).version = 0 ∧ t.release = none ∨
        (resolvedTarget t).version ≠ 0 ∧ ∃ r,
          s.releases.get (m.track.release (resolvedTarget t).version) = some r ∧
          t.release = some (releaseFromModel s ref.track.ns r)) := by
  obtain ⟨s', hres⟩ : ∃ s', resolveInstanceRelease rq s ref = .ok (t, s') := ⟨_, commit_target h⟩
  simp only [resolveInstanceRelease, bind_eq_ok_iff] at hres
  obtain ⟨m, htx, hres⟩ := hres
  obtain ⟨nsID, hns, hget, -, htrack⟩ := sessionTx_ok htx
  refine ⟨m, hget, ?_⟩
  rw [(resolveInstanceTx_ok_cases hres).1]
  unfold resolveInstanceTx at hres
  by_cases hv : (assignedTarget s m).version = 0
  · simp only [hv, if_true, pure_eq_ok_iff] at hres
    cases hres
    exact .inl ⟨hv, rfl⟩
  · simp only [if_neg hv, bind_eq_ok_iff, pure_eq_ok_iff] at hres
    obtain ⟨rel, hrel, heq⟩ := hres
    obtain ⟨nsID', r, hns', hr, rfl⟩ := getConfigurationRelease_row hv hrel
    cases hns'.symm.trans hns
    refine .inr ⟨hv, r, htrack ▸ hr, ?_⟩
    exact congrArg (·.1.release) heq.symm

/-- session の系列は、行が生きている限り変わらない。 -/
theorem track_run {cs : List Call} {sid : String} {m m' : ReleaseSessionModel}
    (halive : Along step (SessionAlive sid) s cs) (hm : s.sessions.get sid = some m)
    (hm' : (run step s cs).sessions.get sid = some m') : m'.track = m.track := by
  have hrel := run_rel (I := fun _ => True)
    (R := fun a b => ∀ x, a.sessions.get sid = some x → ∃ y, b.sessions.get sid = some y ∧
      y.track = x.track)
    (fun _ x hx => ⟨x, hx, rfl⟩) (fun a b c hab hbc x hx => ?_) (fun _ _ _ => trivial)
    (fun a c _ _ hafter x hx => ?_) trivial halive
  · obtain ⟨y, hy, heq⟩ := hrel m hm
    rw [hm'] at hy
    cases hy
    exact heq
  · obtain ⟨y, hy, hyx⟩ := hab x hx
    obtain ⟨z, hz, hzy⟩ := hbc y hy
    exact ⟨z, hz, hzy.trans hyx⟩
  · obtain ⟨y, hy⟩ := Option.isSome_iff_exists.mp hafter
    refine ⟨y, hy, ?_⟩
    cases (step_sessionEffect (s := a) (c := c) rfl).rowStep hx hy with
    | same | connection | repin => rfl
    | acknowledged ref ack _ _ _ hsame => exact hsame.track

/-- 読み出しの後、行が生きている間のどの読み出しから見ても、先の読み出しはそこまでの target である。 -/
theorem resolved_upTo (hist cs : List Call) {rq₁ rq₂ : Request} {t₁ t₂ : InstanceReleaseTarget}
    (hout₁ : (exec (run step Store.empty hist) ⟨rq₁, .resolveInstance ref⟩).1 = .target t₁)
    (halive : Along step (SessionAlive ref.sessionID)
      (run step Store.empty (hist ++ [⟨rq₁, .resolveInstance ref⟩])) cs)
    (hout₂ : (exec (run step Store.empty (hist ++ [⟨rq₁, .resolveInstance ref⟩] ++ cs))
      ⟨rq₂, .resolveInstance ref⟩).1 = .target t₂) :
    Go.UpTo (targetCandidate t₂) (targetCandidate t₁) := by
  have hle := (identifies_resolved ⟨ref, rfl, .inl rfl⟩ hout₁ halive).le_resolved
    (deliveryInv_run _) ⟨ref, rfl, .inl rfl⟩ hout₂
  rcases Nat.lt_or_eq_of_le hle.revision_le with hlt | heq
  · exact .inl hlt
  refine .inr ⟨heq, ?_⟩
  have hsame : resolvedTarget t₁ = resolvedTarget t₂ := hle.eq_of_revision_eq heq.symm
  obtain ⟨m₁, hm₁, hrow₁⟩ := resolved_row hout₁
  obtain ⟨m₂, hm₂, hrow₂⟩ := resolved_row hout₂
  rw [List.append_assoc, run_append] at hm₂ hrow₂
  rw [run_append] at halive
  have halong : Along step (SessionAlive ref.sessionID) (run step Store.empty hist)
      (⟨rq₁, .resolveInstance ref⟩ :: cs) := ⟨Option.isSome_of_mem hm₁, halive⟩
  have htrack : m₂.track = m₁.track := track_run halong hm₁ hm₂
  have hcatalog := catalogInv_run catalogInv_empty hist
  have hevolves := run_evolves hcatalog (⟨rq₁, .resolveInstance ref⟩ :: cs)
  rw [hsame] at hrow₁
  rcases hrow₁ with ⟨hzero, hnone₁⟩ | ⟨hne, r₁, hr₁, hsome₁⟩ <;>
    rcases hrow₂ with ⟨hzero₂, hnone₂⟩ | ⟨hne₂, r₂, hr₂, hsome₂⟩
  · simp only [targetCandidate, hnone₁, hnone₂]
  · exact absurd hzero hne₂
  · exact absurd hzero₂ hne
  · rw [htrack] at hr₂
    have hkey := (AutoTable.key_of_get hr₁).trans (AutoTable.key_of_get hr₂).symm
    cases hevolves.release_eq hcatalog (AutoTable.mem_of_get hr₁) (AutoTable.mem_of_get hr₂) hkey
    simp only [targetCandidate, hsome₁, hsome₂, Option.map_some, releaseFromModel]

end Kms.Loader
