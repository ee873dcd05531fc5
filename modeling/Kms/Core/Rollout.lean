import Kms.Core.Request
import Kms.Storage.Projection

/-!
# rollout の集計

`ReadReleaseProjection` の行から、生きている instance を取り出し、あるべき target に対する状態で分類し、系列の
rollout を数える。

* `computeRollout_counts` — 五つの分類の数は、それぞれの instance の数であり、足すと総数になる
* `classifyInstance_*` — 分類は、session の最新の acknowledgement と割り当てた target で決まる
* `rollout_agrees_with_delivery` — 主定理
-/

namespace Kms.Core

open Kms.Infra Kms.Storage

/-! ## instance -/

/-- 分類の結果。 -/
inductive InstanceClass where
  | applied
  | rejected
  | pending
  | pinned
  | unknown
  deriving DecidableEq

/-- `SubscriberInstance`。`classification` と `reason` は投影が埋める。 -/
structure SubscriberInstance where
  fleetVersion : Nat
  ns : NamespaceRef
  releaseName : String
  schemaVersion : Nat
  sequence : Nat
  classification : Option InstanceClass
  reason : String
  lastAppliedRevision : Nat
  lastAppliedSequence : Nat
  sessionID : String
  targetRevision : Nat
  pinVersion : Nat
  pinRevision : Nat
  pinnedBy : String
  pinnedAt : Time
  lastAppliedVersion : Nat
  desiredVersion : Nat
  desiredRevision : Nat
  identity : String
  clientName : String
  instanceID : String
  state : ReleaseState
  releaseVersion : Nat
  activationRevision : Nat
  rejectionCategory : String
  diagnostic : String
  connected : Bool
  clientTimestamp : Time
  serverTimestamp : Time
  liveTimestamp : Time
  appliedDivergent : Bool
  divergentFieldCount : Nat
  deriving DecidableEq

/-- 一覧の一行の写し。divergent は applied の行でだけ意味を持つ。 -/
def subscriberInstance (r : AcknowledgementRow) : SubscriberInstance :=
  let divergent := decide (r.session.state = .applied) && r.session.appliedDivergent
  { fleetVersion := 0
    ns := r.ns
    releaseName := r.session.track.name
    schemaVersion := r.session.track.schemaVersion
    sequence := r.session.lastAckSequence
    classification := none
    reason := ""
    lastAppliedRevision := r.session.lastAppliedRevision
    lastAppliedSequence := r.session.lastAppliedSequence
    sessionID := r.session.sessionID
    targetRevision := r.session.targetRevision
    pinVersion := r.session.pinVersion
    pinRevision := r.session.pinRevision
    pinnedBy := r.session.pinnedBy
    pinnedAt := r.session.pinnedAt
    lastAppliedVersion := r.session.lastAppliedVersion
    desiredVersion := r.desiredVersion
    desiredRevision := r.desiredRevision
    identity := r.session.identity
    clientName := r.session.clientName
    instanceID := r.session.instanceID
    state := r.session.state
    releaseVersion := r.session.releaseVersion
    activationRevision := r.session.activationRevision
    rejectionCategory := r.session.rejectionCategory
    diagnostic := r.session.diagnostic
    connected := r.session.connected
    clientTimestamp := r.session.clientTimestamp
    serverTimestamp := r.session.serverTimestamp
    liveTimestamp := r.liveTimestamp
    appliedDivergent := divergent
    divergentFieldCount := if divergent then r.session.divergentFieldCount else 0 }

/-- 並び順。 -/
def instanceKey (i : SubscriberInstance) :
    String ×ₗ String ×ₗ String ×ₗ Nat ×ₗ String ×ₗ String ×ₗ String ×ₗ String :=
  toLex (i.ns.env, toLex (i.ns.app, toLex (i.releaseName, toLex (i.schemaVersion,
    toLex (i.identity, toLex (i.clientName, toLex (i.instanceID, i.sessionID)))))))

/-- `groupSubscriberInstances`。session の無い古い行は数えない。 -/
def groupSubscriberInstances (acks : List AcknowledgementRow) : List SubscriberInstance :=
  ordered instanceKey
    ((acks.filter (fun r => decide (r.session.sessionID ≠ ""))).map subscriberInstance)

/-- 90 秒。`Time` は nanosecond で数える。 -/
def departAfter : Time := 90 * 1000000000

/-- `departed`。切断されて久しい pin 無しの instance。 -/
def departed (i : SubscriberInstance) (now : Time) : Bool :=
  if i.connected || decide (i.pinVersion > 0) then false
  else
    let seen := if i.liveTimestamp = 0 then i.serverTimestamp else i.liveTimestamp
    decide (now - seen > departAfter)

def liveInstances (acks : List AcknowledgementRow) (now : Time) : List SubscriberInstance :=
  (groupSubscriberInstances acks).filter (fun i => !departed i now)

/-! ## 分類 -/

def classifyInstance (i : SubscriberInstance) (currentRevision : Nat) : InstanceClass :=
  if i.connected = false ∧ i.pinVersion > 0 then .pinned
  else if i.sessionID = "" ∨ currentRevision = 0 ∨ i.desiredRevision = 0 ∨ i.desiredVersion = 0 then
    .unknown
  else if i.sessionID ≠ "" ∧
      (i.targetRevision ≠ i.desiredRevision ∨ i.releaseVersion ≠ i.desiredVersion) then .pending
  else if i.sessionID ≠ "" ∧ i.state = .rejected then .rejected
  else if i.sessionID ≠ "" ∧ i.state = .applied ∧ i.pinVersion > 0 then .pinned
  else if currentRevision > 0 ∧ i.activationRevision = currentRevision then
    if i.state = .rejected then .rejected
    else if i.state = .applied then .applied
    else .pending
  else .pending

/-- 分類の理由。 -/
def classReason (i : SubscriberInstance) : InstanceClass → String
  | .applied => "desired_target_applied"
  | .rejected => "desired_target_rejected"
  | .pending => "desired_target_unconfirmed"
  | .pinned =>
    if i.connected = false then "disconnected_pin"
    else if i.pinVersion = i.fleetVersion then "fleet_matching_pin_applied"
    else "instance_pin_applied"
  | .unknown => "target_unavailable"

/-- 一つの instance に、全体の version と分類を書き込む。 -/
def projectInstance (currentRevision fleetVersion : Nat) (i : SubscriberInstance) :
    SubscriberInstance :=
  let i := { i with fleetVersion }
  { i with
    classification := some (classifyInstance i currentRevision)
    reason := classReason i (classifyInstance i currentRevision) }

def projectSubscriberInstances (acks : List AcknowledgementRow) (currentRevision : Nat)
    (now : Time) (fleetVersion : Nat) : List SubscriberInstance :=
  (liveInstances acks now).map (projectInstance currentRevision fleetVersion)

/-! ## 集計 -/

inductive RolloutState where
  | noSubscribers
  | applied
  | rolling
  | degraded
  | pinned
  | unknown
  deriving DecidableEq

structure RolloutSummary where
  differentPins : Nat
  unknown : Nat
  complete : Bool
  pinned : Nat
  total : Nat
  connected : Nat
  appliedCurrent : Nat
  appliedDivergent : Nat
  rejected : Nat
  pending : Nat
  otherReleaseNames : List String
  rejectedInstances : List SubscriberInstance
  truncated : Bool
  deriving DecidableEq

def maxRolloutInstanceFindings : Nat := 50

def filterAcks (acks : List AcknowledgementRow) (releaseName : String) :
    List AcknowledgementRow :=
  acks.filter (fun r => decide (r.session.track.name = releaseName))

/-- 一つの instance を数える。 -/
def countInstance (currentRevision : Nat) (out : RolloutSummary) (i : SubscriberInstance) :
    RolloutSummary :=
  let out := { out with
    total := out.total + 1
    connected := out.connected + if i.connected then 1 else 0 }
  match classifyInstance i currentRevision with
  | .unknown => { out with unknown := out.unknown + 1 }
  | .pinned =>
    { out with
      pinned := out.pinned + 1
      differentPins := out.differentPins + if i.pinVersion ≠ i.fleetVersion then 1 else 0 }
  | .applied =>
    { out with
      appliedCurrent := out.appliedCurrent + 1
      appliedDivergent := out.appliedDivergent + if i.appliedDivergent then 1 else 0 }
  | .rejected =>
    if out.rejectedInstances.length < maxRolloutInstanceFindings then
      { out with
        rejected := out.rejected + 1
        rejectedInstances := out.rejectedInstances ++ [i] }
    else { out with rejected := out.rejected + 1, truncated := true }
  | .pending => { out with pending := out.pending + 1 }

/-- 他の release 名のうち、生きている instance のあるもの。 -/
def otherReleaseNames (acks : List AcknowledgementRow) (releaseName : String) (now : Time) :
    List String :=
  ((((acks.map (·.session.track.name)).filter (fun n => decide (n ≠ releaseName))).dedup).filter
    (fun n => !(liveInstances (filterAcks acks n) now).isEmpty)).insertionSort (· ≤ ·)

def rolloutState (summary : RolloutSummary) : RolloutState :=
  if summary.total = 0 then .noSubscribers
  else if summary.rejected > 0 then .degraded
  else if summary.unknown > 0 then .unknown
  else if summary.pending > 0 then .rolling
  else if summary.differentPins > 0 then .pinned
  else .applied

def computeRollout (acks : List AcknowledgementRow) (releaseName : String)
    (currentRevision : Nat) (now : Time) (fleetVersion : Nat) : RolloutSummary × RolloutState :=
  let start : RolloutSummary :=
    { differentPins := 0, unknown := 0, complete := true, pinned := 0, total := 0, connected := 0
      appliedCurrent := 0, appliedDivergent := 0, rejected := 0, pending := 0
      otherReleaseNames := otherReleaseNames acks releaseName now, rejectedInstances := []
      truncated := false }
  let summary := (projectSubscriberInstances (filterAcks acks releaseName) currentRevision now
    fleetVersion).foldl (countInstance currentRevision) start
  (summary, rolloutState summary)

/-! ## 一つの系列の snapshot -/

structure RolloutSnapshot where
  instances : List SubscriberInstance
  summary : RolloutSummary
  currentRevision : Nat
  serverTime : Time

/-- `GetReleaseRolloutSnapshot` の、認可の後。`readReleaseProjection` の loop の回数は `fuel` で限る。 -/
def getReleaseRolloutSnapshot (rq : Request) (s : Store) (track : ReleaseTrack) (fuel : Nat) :
    Option (Except Err RolloutSnapshot) :=
  match validateReleaseAddress track.ns track.name with
  | .error e => some (.error e)
  | .ok () =>
    (readReleaseProjection rq s ⟨track.ns, track.name, some track.schemaVersion⟩ fuel).map
      (fun read => do
        let (acks, actives) ← read
        let active := actives.lookup track
        require (¬ (active.isNone ∧ acks = []))
          (.notFound "release track has no active target or sessions")
        let currentRevision := (active.map (·.activationRevision)).getD 0
        let fleetVersion := (active.map (·.release.version)).getD 0
        pure
          { instances := projectSubscriberInstances acks currentRevision rq.now fleetVersion
            summary := (computeRollout acks track.name currentRevision rq.now fleetVersion).1
            currentRevision
            serverTime := rq.now })

/-! ## 数え上げ -/

def classCount (currentRevision : Nat) (is : List SubscriberInstance) (c : InstanceClass) : Nat :=
  is.countP (fun i => decide (classifyInstance i currentRevision = c))

theorem classCount_cons (currentRevision : Nat) (i : SubscriberInstance)
    (is : List SubscriberInstance) (c : InstanceClass) :
    classCount currentRevision (i :: is) c = classCount currentRevision is c +
      if classifyInstance i currentRevision = c then 1 else 0 := by
  simp [classCount, List.countP_cons]

/-- 分類ごとの欄。 -/
def RolloutSummary.count (out : RolloutSummary) : InstanceClass → Nat
  | .applied => out.appliedCurrent
  | .rejected => out.rejected
  | .pending => out.pending
  | .pinned => out.pinned
  | .unknown => out.unknown

theorem countInstance_count (currentRevision : Nat) (out : RolloutSummary)
    (i : SubscriberInstance) :
    (countInstance currentRevision out i).total = out.total + 1 ∧
      ∀ c, (countInstance currentRevision out i).count c =
        out.count c + if classifyInstance i currentRevision = c then 1 else 0 := by
  unfold countInstance
  cases classifyInstance i currentRevision with
  | rejected =>
    dsimp only
    split <;> exact ⟨rfl, fun c => by cases c <;> rfl⟩
  | _ => exact ⟨rfl, fun c => by cases c <;> rfl⟩

theorem foldl_countInstance (currentRevision : Nat) (is : List SubscriberInstance) :
    ∀ out : RolloutSummary,
      (is.foldl (countInstance currentRevision) out).total = out.total + is.length ∧
        ∀ c, (is.foldl (countInstance currentRevision) out).count c =
          out.count c + classCount currentRevision is c := by
  induction is with
  | nil => exact fun out => ⟨rfl, fun c => rfl⟩
  | cons i is ih =>
    intro out
    obtain ⟨htotal, hcount⟩ := countInstance_count currentRevision out i
    obtain ⟨htotal', hcount'⟩ := ih (countInstance currentRevision out i)
    refine ⟨?_, fun c => ?_⟩
    · rw [List.foldl_cons, htotal', htotal, List.length_cons]
      omega
    · rw [List.foldl_cons, hcount', hcount, classCount_cons]
      omega

theorem classCount_total (currentRevision : Nat) (is : List SubscriberInstance) :
    classCount currentRevision is .applied + classCount currentRevision is .rejected +
      classCount currentRevision is .pending + classCount currentRevision is .pinned +
      classCount currentRevision is .unknown = is.length := by
  induction is with
  | nil => rfl
  | cons i is ih =>
    simp only [classCount_cons, List.length_cons]
    cases classifyInstance i currentRevision <;> simp <;> omega

theorem computeRollout_counts (acks : List AcknowledgementRow) (releaseName : String)
    (currentRevision : Nat) (now : Time) (fleetVersion : Nat) :
    (computeRollout acks releaseName currentRevision now fleetVersion).1.total =
        (projectSubscriberInstances (filterAcks acks releaseName) currentRevision now
          fleetVersion).length ∧
      ∀ c, (computeRollout acks releaseName currentRevision now fleetVersion).1.count c =
        classCount currentRevision (projectSubscriberInstances (filterAcks acks releaseName)
          currentRevision now fleetVersion) c := by
  obtain ⟨htotal, hcount⟩ := foldl_countInstance currentRevision
    (projectSubscriberInstances (filterAcks acks releaseName) currentRevision now fleetVersion)
    { differentPins := 0, unknown := 0, complete := true, pinned := 0, total := 0, connected := 0
      appliedCurrent := 0, appliedDivergent := 0, rejected := 0, pending := 0
      otherReleaseNames := otherReleaseNames acks releaseName now, rejectedInstances := []
      truncated := false }
  refine ⟨htotal.trans (Nat.zero_add _), fun c => (hcount c).trans ?_⟩
  cases c <;> exact Nat.zero_add _

/-! ## 投影した instance -/

theorem mem_projectSubscriberInstances {acks : List AcknowledgementRow} {currentRevision : Nat}
    {now : Time} {fleetVersion : Nat} {i : SubscriberInstance} :
    i ∈ projectSubscriberInstances acks currentRevision now fleetVersion ↔
      ∃ r ∈ acks, r.session.sessionID ≠ "" ∧ departed (subscriberInstance r) now = false ∧
        i = projectInstance currentRevision fleetVersion (subscriberInstance r) := by
  unfold projectSubscriberInstances liveInstances groupSubscriberInstances
  rw [List.mem_map]
  constructor
  · rintro ⟨i₀, hi₀, rfl⟩
    obtain ⟨hmem, hlive⟩ := List.mem_filter.mp hi₀
    obtain ⟨r, hr, rfl⟩ := List.mem_map.mp ((ordered_perm _).mem_iff.mp hmem)
    obtain ⟨hack, hid⟩ := List.mem_filter.mp hr
    exact ⟨r, hack, of_decide_eq_true hid, by simpa using hlive, rfl⟩
  · rintro ⟨r, hr, hid, hlive, rfl⟩
    refine ⟨subscriberInstance r, List.mem_filter.mpr ⟨?_, by simpa using hlive⟩, rfl⟩
    refine (ordered_perm _).mem_iff.mpr (List.mem_map.mpr ⟨r, ?_, rfl⟩)
    exact List.mem_filter.mpr ⟨hr, decide_eq_true hid⟩

theorem nodup_projectSubscriberInstances {acks : List AcknowledgementRow} {currentRevision : Nat}
    {now : Time} {fleetVersion : Nat} (h : (acks.map (·.session.sessionID)).Nodup) :
    ((projectSubscriberInstances acks currentRevision now fleetVersion).map
      (·.sessionID)).Nodup := by
  have hgroup : ((groupSubscriberInstances acks).map (·.sessionID)).Nodup := by
    refine ((ordered_perm _).map _).nodup_iff.mpr ?_
    rw [List.map_map]
    exact h.sublist (List.filter_sublist.map _)
  unfold projectSubscriberInstances
  rw [List.map_map]
  exact hgroup.sublist (List.filter_sublist.map _)

theorem classCount_classification (acks : List AcknowledgementRow) (currentRevision : Nat)
    (now : Time) (fleetVersion : Nat) (c : InstanceClass) :
    classCount currentRevision
        (projectSubscriberInstances acks currentRevision now fleetVersion) c =
      (projectSubscriberInstances acks currentRevision now fleetVersion).countP
        (fun i => decide (i.classification = some c)) := by
  refine List.countP_congr (fun i hi => ?_)
  obtain ⟨r, _, _, _, rfl⟩ := mem_projectSubscriberInstances.mp hi
  have hwritten : (projectInstance currentRevision fleetVersion
      (subscriberInstance r)).classification = some (classifyInstance
        (projectInstance currentRevision fleetVersion (subscriberInstance r)) currentRevision) := by
    rfl
  simp [hwritten]

/-! ## 分類と割り当て -/

/-- session の最新の acknowledgement が答えた target。 -/
def acknowledgedTarget (m : ReleaseSessionModel) : Target :=
  ⟨m.targetRevision, m.releaseVersion, m.activationRevision⟩

def sessionClass (s : Store) (ns : NamespaceRef) (m : ReleaseSessionModel) (currentRevision : Nat) :
    InstanceClass :=
  classifyInstance (subscriberInstance (sessionRow s ns m)) currentRevision

section

variable {s : Store} {m : ReleaseSessionModel} {l : ConfigurationReleaseLabelModel}
  (ns : NamespaceRef)

/-- 分類は、割り当てと行の欄で決まる。 -/
theorem sessionClass_eq (currentRevision : Nat) :
    sessionClass s ns m currentRevision =
      if m.connected = false ∧ m.pinVersion > 0 then .pinned
      else if m.sessionID = "" ∨ currentRevision = 0 ∨ (assignedTarget s m).revision = 0 ∨
          (assignedTarget s m).version = 0 then .unknown
      else if m.sessionID ≠ "" ∧ (m.targetRevision ≠ (assignedTarget s m).revision ∨
          m.releaseVersion ≠ (assignedTarget s m).version) then .pending
      else if m.sessionID ≠ "" ∧ m.state = .rejected then .rejected
      else if m.sessionID ≠ "" ∧ m.state = .applied ∧ m.pinVersion > 0 then .pinned
      else if currentRevision > 0 ∧ m.activationRevision = currentRevision then
        if m.state = .rejected then .rejected
        else if m.state = .applied then .applied
        else .pending
      else .pending := by
  obtain ⟨hversion, hrevision⟩ := sessionRow_desired s ns m
  rw [← hversion, ← hrevision]
  rfl

/-- 割り当てに答えた接続中の session は、状態と pin だけで分類される。 -/
theorem sessionClass_current (hid : m.sessionID ≠ "") (hconn : m.connected = true)
    (hpin : m.pinVersion ≠ 0 → m.pinRevision ≠ 0)
    (hl : s.releaseLabels.get (m.track, .current) = some l) (hversion : l.versionNumber ≠ 0)
    (hrevision : 0 < l.activationRevision) (hack : acknowledgedTarget m = assignedTarget s m) :
    (m.state = .applied →
        sessionClass s ns m l.activationRevision = if m.pinVersion = 0 then .applied else .pinned) ∧
      (m.state = .rejected → sessionClass s ns m l.activationRevision = .rejected) := by
  have hrev : m.targetRevision = (assignedTarget s m).revision := congrArg Target.revision hack
  have hver : m.releaseVersion = (assignedTarget s m).version := congrArg Target.version hack
  have hact : m.activationRevision = (assignedTarget s m).activation :=
    congrArg Target.activation hack
  have hassigned : (assignedTarget s m).revision ≠ 0 ∧ (assignedTarget s m).version ≠ 0 ∧
      (m.pinVersion = 0 → (assignedTarget s m).activation = l.activationRevision) := by
    unfold assignedTarget
    by_cases hp : m.pinVersion = 0
    · rw [if_neg (not_not.mpr hp), hl]
      exact ⟨Nat.ne_of_gt (hrevision.trans_le (Nat.le_max_right ..)), hversion,
        fun _ => rfl⟩
    · rw [if_pos hp]
      exact ⟨hpin hp, hp, fun h => absurd h hp⟩
  obtain ⟨hrev₀, hver₀, hact₀⟩ := hassigned
  have hrevision₀ : l.activationRevision ≠ 0 := Nat.ne_of_gt hrevision
  refine ⟨fun hstate => ?_, fun hstate => ?_⟩
  · rw [sessionClass_eq]
    by_cases hp : m.pinVersion = 0
    · simp [hconn, hid, hrev, hver, hrev₀, hver₀, hrevision₀, hrevision, hstate, hp,
        hact.trans (hact₀ hp)]
    · simp [hconn, hid, hrev, hver, hrev₀, hver₀, hrevision₀, hstate, hp, Nat.pos_of_ne_zero hp]
  · rw [sessionClass_eq]
    simp [hconn, hid, hrev, hver, hrev₀, hver₀, hrevision₀, hstate]

theorem sessionClass_other (hl : s.releaseLabels.get (m.track, .current) = some l)
    (hack : acknowledgedTarget m ≠ assignedTarget s m) :
    sessionClass s ns m l.activationRevision ≠ .applied := by
  rw [sessionClass_eq]
  intro hclass
  -- applied になるのは、名前があり、pin が無く、三つの欄が割り当てと同じときだけである。
  split_ifs at hclass with _ hknown hmatch _ hpinned hcurrent _ hstate
  rw [not_or] at hknown
  have hp : ¬ m.pinVersion ≠ 0 := fun hp => hpinned ⟨hknown.1, hstate, Nat.pos_of_ne_zero hp⟩
  rw [not_and, not_or, not_not, not_not] at hmatch
  obtain ⟨hrev, hver⟩ := hmatch hknown.1
  have hact : (assignedTarget s m).activation = l.activationRevision := by
    rw [assignedTarget, if_neg hp, hl]
  refine hack ?_
  show (⟨m.targetRevision, m.releaseVersion, m.activationRevision⟩ : Target) =
    ⟨(assignedTarget s m).revision, (assignedTarget s m).version, (assignedTarget s m).activation⟩
  rw [hrev, hver, hcurrent.2, hact]

end

/-! ## 主定理 -/

/-- 系列の rollout の snapshot が、session の行と割り当てに合っている。 -/
structure RolloutAgrees (s : Store) (k : TrackKey) (out : RolloutSnapshot) : Prop where
  total : out.summary.total = out.instances.length
  sum : out.summary.appliedCurrent + out.summary.rejected + out.summary.pending +
    out.summary.pinned + out.summary.unknown = out.summary.total
  counted : ∀ c, out.summary.count c =
    out.instances.countP (fun i => decide (i.classification = some c))
  once : (out.instances.map (·.sessionID)).Nodup
  sessions : ∀ i ∈ out.instances, ∃ m ∈ s.sessions, m.track = k ∧ m.sessionID = i.sessionID
  connected : ∀ m ∈ s.sessions, m.track = k → m.connected = true →
    ∃ i ∈ out.instances, i.sessionID = m.sessionID
  applied : ∀ i ∈ out.instances, ∀ m ∈ s.sessions, m.sessionID = i.sessionID →
    m.connected = true → m.state = .applied → acknowledgedTarget m = assignedTarget s m →
      i.classification = some (if m.pinVersion = 0 then .applied else .pinned)
  rejected : ∀ i ∈ out.instances, ∀ m ∈ s.sessions, m.sessionID = i.sessionID →
    m.connected = true → m.state = .rejected → acknowledgedTarget m = assignedTarget s m →
      i.classification = some .rejected
  other : ∀ i ∈ out.instances, ∀ m ∈ s.sessions, m.sessionID = i.sessionID →
    acknowledgedTarget m ≠ assignedTarget s m → i.classification ≠ some .applied

section

variable [Hashing]

omit [Hashing] in
theorem validateReleaseAddress_name {ns : NamespaceRef} {name : String}
    (h : validateReleaseAddress ns name = .ok ()) : name ≠ "" := by
  simp only [validateReleaseAddress, bind_eq_ok_iff, mapError_eq_ok_iff, validateKey,
    require_eq_ok_iff] at h
  obtain ⟨_, _, _, hname, _⟩ := h
  exact hname

omit [Hashing] in
theorem selects_track {track : ReleaseTrack} {nsID : Nat} (hname : track.name ≠ "")
    {k : TrackKey} :
    (decide (k.namespaceID = nsID) &&
        ReleaseFilter.selects ⟨track.ns, track.name, some track.schemaVersion⟩ k) = true ↔
      k = ⟨nsID, track.name, track.schemaVersion⟩ := by
  obtain ⟨id, name, schema⟩ := k
  simp [ReleaseFilter.selects, hname]

omit [Hashing] in
/-- 系列の一覧の行は、その系列の session の行のちょうど全てである。 -/
theorem mem_rows_iff {s : Store} {track : ReleaseTrack} {nsID : Nat}
    {rows : List AcknowledgementRow}
    {active : List (ReleaseTrack × ActiveConfigurationRelease)} (hname : track.name ≠ "")
    (hp : ProjectsStore s ⟨track.ns, track.name, some track.schemaVersion⟩ nsID rows active)
    (hpin : PinInv s) {r : AcknowledgementRow} :
    r ∈ rows ↔ ∃ m ∈ s.sessions, m.track = ⟨nsID, track.name, track.schemaVersion⟩ ∧
      r = sessionRow s track.ns m := by
  rw [hp.rows.mem_iff, List.mem_map]
  refine exists_congr (fun m => ?_)
  rw [List.mem_filter, Bool.and_eq_true, selects_track hname, decide_eq_true_eq]
  constructor
  · rintro ⟨⟨hm, htrack, _⟩, rfl⟩
    exact ⟨hm, htrack, rfl⟩
  · rintro ⟨hm, htrack, rfl⟩
    exact ⟨⟨hm, htrack, hpin.identified m hm⟩, rfl⟩

omit [Hashing] in
/-- 系列の一覧から作った snapshot は、session の行に合う。 -/
theorem rolloutAgrees_of_projection {s : Store} {track : ReleaseTrack} {nsID : Nat}
    {rows : List AcknowledgementRow}
    {active : List (ReleaseTrack × ActiveConfigurationRelease)}
    {l : ConfigurationReleaseLabelModel} (now : Time) (fleetVersion : Nat)
    (hname : track.name ≠ "")
    (hp : ProjectsStore s ⟨track.ns, track.name, some track.schemaVersion⟩ nsID rows active)
    (hpin : PinInv s)
    (hl : s.releaseLabels.get (⟨nsID, track.name, track.schemaVersion⟩, .current) = some l)
    (hversion : l.versionNumber ≠ 0) (hrevision : 0 < l.activationRevision) :
    RolloutAgrees s ⟨nsID, track.name, track.schemaVersion⟩
      { instances := projectSubscriberInstances rows l.activationRevision now fleetVersion
        summary := (computeRollout rows track.name l.activationRevision now fleetVersion).1
        currentRevision := l.activationRevision
        serverTime := now } := by
  have hrows := @mem_rows_iff s track nsID rows active hname hp hpin
  have hfilter : filterAcks rows track.name = rows := by
    refine List.filter_eq_self.mpr (fun r hr => ?_)
    obtain ⟨m, _, htrack, rfl⟩ := hrows.mp hr
    exact decide_eq_true (congrArg TrackKey.name htrack)
  obtain ⟨htotal, hcount⟩ :=
    computeRollout_counts rows track.name l.activationRevision now fleetVersion
  rw [hfilter] at htotal hcount
  -- 一つの instance の分類は、その session の行の分類である。
  have hclass : ∀ i ∈ projectSubscriberInstances rows l.activationRevision now fleetVersion,
      ∀ m ∈ s.sessions, m.sessionID = i.sessionID →
        m.track = ⟨nsID, track.name, track.schemaVersion⟩ ∧
          i.classification = some (sessionClass s track.ns m l.activationRevision) := by
    intro i hi m hm hid
    obtain ⟨r, hr, _, _, rfl⟩ := mem_projectSubscriberInstances.mp hi
    obtain ⟨m', hm', htrack, rfl⟩ := hrows.mp hr
    have hsame : m = m' := Table.eq_of_key_eq hm hm' hid
    subst hsame
    exact ⟨htrack, rfl⟩
  have hids : (rows.map (·.session.sessionID)).Nodup := by
    refine (hp.rows.map _).nodup_iff.mpr ?_
    rw [List.map_map]
    exact s.sessions.nodup.sublist (List.filter_sublist.map _)
  refine ⟨htotal, ?_, ?_, nodup_projectSubscriberInstances hids, ?_, ?_, ?_, ?_, ?_⟩
  · have hsum := classCount_total l.activationRevision
      (projectSubscriberInstances rows l.activationRevision now fleetVersion)
    rw [← hcount, ← hcount, ← hcount, ← hcount, ← hcount, ← htotal] at hsum
    exact hsum
  · exact fun c => (hcount c).trans (classCount_classification ..)
  · intro i hi
    obtain ⟨r, hr, _, _, rfl⟩ := mem_projectSubscriberInstances.mp hi
    obtain ⟨m, hm, htrack, rfl⟩ := hrows.mp hr
    exact ⟨m, hm, htrack, rfl⟩
  · intro m hm htrack hconn
    refine ⟨_, mem_projectSubscriberInstances.mpr ⟨sessionRow s track.ns m,
      hrows.mpr ⟨m, hm, htrack, rfl⟩, hpin.identified m hm, ?_, rfl⟩, rfl⟩
    -- 接続中の instance は departed にならない。
    show (if (m.connected || decide (m.pinVersion > 0)) = true then false else _) = false
    simp [hconn]
  · intro i hi m hm hid hconn hstate hack
    obtain ⟨htrack, hc⟩ := hclass i hi m hm hid
    rw [hc, (sessionClass_current track.ns (hpin.identified m hm) hconn (hpin.pinned m hm)
      (by rw [htrack]; exact hl) hversion hrevision hack).1 hstate]
  · intro i hi m hm hid hconn hstate hack
    obtain ⟨htrack, hc⟩ := hclass i hi m hm hid
    rw [hc, (sessionClass_current track.ns (hpin.identified m hm) hconn (hpin.pinned m hm)
      (by rw [htrack]; exact hl) hversion hrevision hack).2 hstate]
  · intro i hi m hm hid hack
    obtain ⟨htrack, hc⟩ := hclass i hi m hm hid
    rw [hc, Ne, Option.some.injEq]
    exact sessionClass_other track.ns (by rw [htrack]; exact hl) hack

/-- 到達できる store では、session の target は必ず解決し、一覧の行はその target をあるべきものとする。 -/
theorem listed_desired {purged : Nat × Nat → Prop} {s : Store} (hg : Guarded purged s)
    {rq : Request} {filter : ReleaseFilter} {p : ListPage} {batch : List AcknowledgementRow}
    {next : Option AcknowledgementCursor}
    (h : listReleaseAcknowledgements rq s filter p = .ok (batch, next))
    {r : AcknowledgementRow} (hr : r ∈ batch) :
    r.session ∈ s.sessions ∧
      ∀ rq' ref, sessionTx rq' s ref = .ok r.session →
        ∃ out s', resolveInstanceTx rq' s ref r.session = .ok (out, s') ∧
          resolvedTarget out = assignedTarget s r.session ∧
          r.desiredVersion = (resolvedTarget out).version ∧
          r.desiredRevision = out.targetRevision := by
  simp only [listReleaseAcknowledgements, bind_eq_ok_iff, pure_eq_ok_iff] at h
  obtain ⟨nsID, _, hpage⟩ := h
  have hmem : r ∈ subscriberRows s filter nsID := by
    have hpaged : r ∈ (page acknowledgementCursor (listedRows s filter nsID p.departedBefore)
        (clampLimit p.limit) p.token).1 := by
      rw [hpage]
      exact hr
    exact List.mem_of_mem_filter (mem_of_mem_page hpaged)
  rw [subscriberRows_eq] at hmem
  obtain ⟨m, hm, rfl⟩ := List.mem_map.mp hmem
  have hm : m ∈ s.sessions := List.mem_of_mem_filter hm
  refine ⟨hm, fun rq' ref htx => ?_⟩
  have htx : sessionTx rq' s ref = .ok m := htx
  have hresolved : ∃ out s', resolveInstanceTx rq' s ref m = .ok (out, s') := by
    by_cases hv : (assignedTarget s m).version = 0
    · unfold resolveInstanceTx
      simp only [if_pos hv]
      exact ⟨_, _, rfl⟩
    · obtain ⟨_, _, hget, _⟩ := sessionTx_ok htx
      obtain ⟨row, hrow, _⟩ := hg m.track _ (protected_assigned hget hv)
      obtain ⟨out, s', hres, _⟩ := resolveInstanceTx_of_release htx hv hrow
      exact ⟨out, s', hres⟩
  obtain ⟨out, s', hres⟩ := hresolved
  obtain ⟨hdv, hdr⟩ := sessionRow_resolved filter.ns hres
  exact ⟨out, s', hres, (resolveInstanceTx_ok_cases hres).1, hdv, hdr⟩

/--
空の store からの、名前のある session だけを登録する任意の run の後で、

* 一覧のどの頁のどの行についても、session の target は解決し、SQL が計算した version と revision はその target の
  ものである
* 集計の五つの欄は、どの一覧に対しても、分類ごとの instance の数であり、足すと総数になる
* 有効な release のある系列の snapshot は必ず読め、session の行と割り当てに合う（`RolloutAgrees`）
-/
theorem rollout_agrees_with_delivery (cs : List Call) (hcs : ∀ c ∈ cs, NamesSession c) :
    (∀ rq filter p batch next,
      listReleaseAcknowledgements rq (run step Store.empty cs) filter p = .ok (batch, next) →
      ∀ r ∈ batch, r.session ∈ (run step Store.empty cs).sessions ∧
        ∀ rq' ref, sessionTx rq' (run step Store.empty cs) ref = .ok r.session →
          ∃ out s', resolveInstanceTx rq' (run step Store.empty cs) ref r.session = .ok (out, s') ∧
            resolvedTarget out = assignedTarget (run step Store.empty cs) r.session ∧
            r.desiredVersion = (resolvedTarget out).version ∧
            r.desiredRevision = out.targetRevision) ∧
    (∀ acks releaseName currentRevision now fleetVersion,
      let out := (computeRollout acks releaseName currentRevision now fleetVersion).1
      let instances := projectSubscriberInstances (filterAcks acks releaseName) currentRevision now
        fleetVersion
      out.appliedCurrent + out.rejected + out.pending + out.pinned + out.unknown = out.total ∧
        out.total = instances.length ∧
        ∀ c, out.count c = instances.countP (fun i => decide (i.classification = some c))) ∧
    ∀ rq track nsID l, validateReleaseAddress track.ns track.name = .ok () →
      resolveNamespaceID rq (run step Store.empty cs) track.ns = .ok nsID →
      (run step Store.empty cs).releaseLabels.get
        (⟨nsID, track.name, track.schemaVersion⟩, .current) = some l →
      ∃ out, RolloutAgrees (run step Store.empty cs) ⟨nsID, track.name, track.schemaVersion⟩ out ∧
        out.currentRevision = l.activationRevision ∧
        ∀ fuel, (run step Store.empty cs).sessions.rows.length < fuel →
          getReleaseRolloutSnapshot rq (run step Store.empty cs) track fuel = some (.ok out) := by
  have hg := guarded_run guarded_empty cs
  have hi : TrackInv (run step Store.empty cs) := run_invariant trackInv_step trackInv_empty cs
  have hpin := pinInv_run cs hcs
  refine ⟨fun rq filter p batch next h r hr => listed_desired hg h hr, ?_, ?_⟩
  · intro acks releaseName currentRevision now fleetVersion
    obtain ⟨htotal, hcount⟩ :=
      computeRollout_counts acks releaseName currentRevision now fleetVersion
    have hsum := classCount_total currentRevision (projectSubscriberInstances
      (filterAcks acks releaseName) currentRevision now fleetVersion)
    rw [← hcount, ← hcount, ← hcount, ← hcount, ← hcount, ← htotal] at hsum
    refine ⟨hsum, htotal, fun c => (hcount c).trans (classCount_classification ..)⟩
  · intro rq track nsID l haddress hns hl
    have hname := validateReleaseAddress_name haddress
    have hversion := hi.positive _ l hl
    obtain ⟨a, ha, _, hrev, _⟩ := hi.recorded _ l hl
    have hrevision : 0 < l.activationRevision := by
      rw [← hrev]
      exact (hi.numbered a ha).1
    obtain ⟨rows, active, hp, hread⟩ := readReleaseProjection_complete
      (show resolveNamespaceID rq _
        (ReleaseFilter.mk track.ns track.name
          (some track.schemaVersion)).ns = .ok nsID from hns) hi hg
    have hlookup := hp.active ⟨nsID, track.name, track.schemaVersion⟩ rfl (by
      simp [ReleaseFilter.selects])
    rw [hl] at hlookup
    obtain ⟨current, hcurrent, hpair⟩ := Option.map_eq_some_iff.mp hlookup
    obtain ⟨hact, hver⟩ := Prod.mk.inj hpair
    refine ⟨_, rolloutAgrees_of_projection rq.now l.versionNumber
      hname hp hpin hl hversion hrevision, rfl, fun fuel hfuel => ?_⟩
    have hcurrent : active.lookup track = some current := hcurrent
    unfold getReleaseRolloutSnapshot
    simp only [haddress, hread fuel hfuel, Option.map_some]
    refine congrArg some ?_
    simp only [bind_eq_ok_iff, require_eq_ok_iff, pure_eq_ok_iff]
    refine ⟨(rows, active), rfl, ?_⟩
    simp only [hcurrent, Option.map_some, Option.getD_some, hact, hver]
    exact ⟨(), by simp, trivial⟩

end

section Sample

local instance rolloutSampleHashing : Hashing := sampleHashing

/-- 例: applied を返した一つの session は、系列の snapshot で applied に数えられる。 -/
theorem rollout_agrees_with_delivery_sample :
    ∃ out, getReleaseRolloutSnapshot sampleRequest (run step Store.empty acknowledgedCalls)
        sampleSession.track 2 = some (.ok out) ∧
      out.summary.appliedCurrent + out.summary.rejected + out.summary.pending +
        out.summary.pinned + out.summary.unknown = out.summary.total ∧
      ∃ i ∈ out.instances, i.sessionID = "session-1" ∧ i.classification = some .applied := by
  have hnamed : ∀ c ∈ acknowledgedCalls, NamesSession c := by
    intro c hc ref resume hop
    simp only [acknowledgedCalls, sampleCalls, List.cons_append, List.nil_append,
      List.mem_cons, List.not_mem_nil, or_false] at hc
    rcases hc with rfl | rfl | rfl | rfl | rfl | rfl | rfl
    all_goals cases hop
    decide
  have hrow : ∃ m, (run step Store.empty acknowledgedCalls).sessions.get "session-1" = some m ∧
      m.track = ⟨1, "runtime", 0⟩ ∧ m.connected = true ∧ m.state = .applied ∧ m.pinVersion = 0 ∧
      acknowledgedTarget m = assignedTarget (run step Store.empty acknowledgedCalls) m :=
    ⟨_, rfl, rfl, rfl, rfl, rfl, by decide +kernel⟩
  obtain ⟨m, hm, htrack, hconn, hstate, hpin, hack⟩ := hrow
  obtain ⟨out, hagrees, _, hread⟩ := (rollout_agrees_with_delivery acknowledgedCalls hnamed).2.2
    sampleRequest sampleSession.track 1 ⟨⟨1, "runtime", 0⟩, .current, 1, 1⟩ (by decide +kernel)
    (by decide +kernel) (by decide +kernel)
  obtain ⟨i, hi, hid⟩ := hagrees.connected m (Table.mem_of_get hm) htrack hconn
  have hsid : m.sessionID = "session-1" := Table.key_of_get hm
  refine ⟨out, hread 2 (by decide +kernel), hagrees.sum, i, hi, hid.trans hsid, ?_⟩
  rw [hagrees.applied i hi m (Table.mem_of_get hm) hid.symm hconn hstate hack, if_pos hpin]

end Sample

end Kms.Core
