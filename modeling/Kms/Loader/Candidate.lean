import Kms.Domain

/-!
# release の候補

SDK の release loader が扱う候補と、候補どうしの比較。`sdk/go/kmsclient/release_loader.go` を写す。
-/

namespace Kms.Loader

/-- wire の `ConfigurationRelease` のうち、loader の loop が読む部分。 -/
structure Release where
  ns : Option NamespaceRef
  name : String
  schemaVersion : Nat
  version : Nat
  digest : String
  deriving DecidableEq

inductive Source where
  | activation
  | reconciliation
  deriving DecidableEq

/-- `releaseCandidate`。`seq` は loop が受け入れた順番で、受け入れる前は `0`。 -/
structure Candidate where
  release : Option Release
  revision : Nat
  activationRevision : Nat
  seq : Nat
  source : Source
  deriving DecidableEq

/-- 拒否の分類。 -/
inductive RejectCategory where
  | resolutionFailed
  | bindingKeyUnavailable
  | versionMismatch
  | digestMismatch
  | prepareFailed
  | configContractMismatch
  | configDecodeFailed
  | configValidationFailed
  | defaultMismatch
  | restartRequired
  | superseded
  | activeCheck
  | internal
  deriving DecidableEq

/-- loader が送る lifecycle state。 -/
inductive AckState where
  | received
  | prepared
  | applied
  | rejected
  deriving DecidableEq

/-- `ackWithDivergence` の呼び出しのうち、候補以外の引数。 -/
structure Report where
  state : AckState
  category : Option RejectCategory
  divergent : Bool
  divergentFieldCount : Nat
  deriving DecidableEq

def Report.plain (state : AckState) : Report := ⟨state, none, false, 0⟩

def Report.rejected (category : RejectCategory) : Report := ⟨.rejected, some category, false, 0⟩

/-! ## application の結果 -/

/-- application の `prepare` の結果。error の分類は application が付ける。 -/
inductive PrepareOutcome where
  | ok
  | failed (classified : Option RejectCategory)
  deriving DecidableEq

/-- application の `commit` の結果。 -/
inductive CommitOutcome where
  | returned (divergent : Bool) (divergentFieldCount : Nat)
  /-- 例外を投げたか、値の無いことを表す値のほかを返した。 -/
  | broken
  deriving DecidableEq

/-- 取り消されていれば、superseded に置き換える。 -/
def orSuperseded (cancelled : Bool) (category : RejectCategory) : RejectCategory :=
  if cancelled then .superseded else category

/-! ## 比較 -/

def releaseHasAddress (release : Option Release) (track : ReleaseTrack) : Bool :=
  match release with
  | none => false
  | some r =>
    match r.ns with
    | none => false
    | some ns =>
      decide (ns.env = track.ns.env) && decide (ns.app = track.ns.app) &&
        decide (r.name = track.name) && decide (r.schemaVersion = track.schemaVersion)

def sameQueuedCandidate (a b : Candidate) : Bool :=
  match a.release, b.release with
  | some ra, some rb =>
    decide (a.revision = b.revision) && decide (ra.schemaVersion = rb.schemaVersion) &&
      decide (ra.version = rb.version) && decide (ra.digest = rb.digest)
  | _, _ => false

/-- `shouldQueueReleaseCandidate`。`latest` は `haveLatest` と組にした。 -/
def shouldQueueReleaseCandidate (candidate : Candidate) (latest : Option Candidate)
    (retryLatest : Bool) : Bool :=
  if candidate.release = none then false
  else
    match latest with
    | none => true
    | some latest =>
      if candidate.revision < latest.revision then false
      else if sameQueuedCandidate candidate latest then
        retryLatest && decide (candidate.source = .reconciliation)
      else true

def sameActiveCandidate (want got : Candidate) : Bool :=
  match want.release, got.release with
  | some w, some g =>
    match w.ns, g.ns with
    | some wns, some gns =>
      decide (want.revision = got.revision) && decide (wns.env = gns.env) &&
        decide (wns.app = gns.app) && decide (w.name = g.name) &&
        decide (w.schemaVersion = g.schemaVersion) && decide (w.version = g.version) &&
        decide (w.digest = g.digest)
    | _, _ => false
  | _, _ => false

theorem revision_le_of_shouldQueue {candidate latest : Candidate} {retry : Bool}
    (h : shouldQueueReleaseCandidate candidate (some latest) retry = true) :
    latest.revision ≤ candidate.revision := by
  unfold shouldQueueReleaseCandidate at h
  split at h
  · cases h
  · by_cases hlt : candidate.revision < latest.revision
    · simp [hlt] at h
    · omega

theorem revision_eq_of_sameQueued {a b : Candidate} (h : sameQueuedCandidate a b = true) :
    a.revision = b.revision := by
  unfold sameQueuedCandidate at h
  split at h
  · simp only [Bool.and_eq_true, decide_eq_true_eq] at h
    exact h.1.1.1
  · cases h

end Kms.Loader
