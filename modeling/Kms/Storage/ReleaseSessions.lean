import Kms.Storage.Releases

/-!
# release session

`internal/storage/release_sessions.go` を写す。session は一つの client process の行で、
target の割り当て・pin・接続・acknowledgement の還元を持つ。

* `assignedTarget` — session に今割り当てられている target
* `reduceReleaseSessionAcknowledgement` — acknowledgement を行と event の台帳へ還元する
-/

namespace Kms.Storage

open Kms.Infra

/-! ## session の検索と登録 -/

/-- session の行が ref の全ての欄と一致するか。 -/
def sessionMatches (ref : ReleaseSessionRef) (nsID : Nat) (m : ReleaseSessionModel) : Bool :=
  decide (m.track = ⟨nsID, ref.track.name, ref.track.schemaVersion⟩) &&
    decide (m.clientName = ref.clientName) && decide (m.instanceID = ref.instanceID) &&
    decide (m.identity = ref.identity)

def sessionTx (rq : Request) (s : Store) (ref : ReleaseSessionRef) :
    Except Err ReleaseSessionModel := do
  let nsID ← resolveNamespaceID rq s ref.track.ns
  orThrow ((s.sessions.get ref.sessionID).filter (sessionMatches ref nsID))
    (.failedPrecondition
      "release session is unavailable or expired; restart the client application")

variable {rq : Request} {s s' : Store} {ref : ReleaseSessionRef} {m : ReleaseSessionModel}

theorem sessionTx_ok (h : sessionTx rq s ref = .ok m) :
    ∃ nsID, resolveNamespaceID rq s ref.track.ns = .ok nsID ∧
      s.sessions.get ref.sessionID = some m ∧ m.sessionID = ref.sessionID ∧
      m.track = ⟨nsID, ref.track.name, ref.track.schemaVersion⟩ := by
  simp only [sessionTx, bind_eq_ok_iff, orThrow_eq_ok_iff, Option.filter_eq_some_iff] at h
  obtain ⟨nsID, hns, hget, hm⟩ := h
  simp only [sessionMatches, Bool.and_eq_true, decide_eq_true_eq] at hm
  exact ⟨nsID, hns, hget, Table.key_of_get hget, hm.1.1.1⟩

theorem sessionTx_error_ne {e : Err} (h : sessionTx rq s ref = .error e) :
    e ≠ .failedPrecondition "acknowledgement does not match assigned target" := by
  simp only [sessionTx, bind_eq_error_iff, orThrow_eq_error_iff] at h
  rcases h with h | ⟨_, _, _, rfl⟩
  · rcases resolveNamespaceID_error h with ⟨msg, rfl⟩ | ⟨msg, rfl⟩
    · simp [Err.aborted, Err.failedPrecondition]
    · simp [Err.notFound, Err.failedPrecondition]
  · simp [Err.failedPrecondition]

/-- 登録直後の行。 -/
def newSession (ref : ReleaseSessionRef) (nsID : Nat) (now : Time) : ReleaseSessionModel where
  sessionID := ref.sessionID
  track := ⟨nsID, ref.track.name, ref.track.schemaVersion⟩
  clientName := ref.clientName
  instanceID := ref.instanceID
  identity := ref.identity
  pinVersion := 0
  pinRevision := 0
  pinnedBy := ""
  pinnedAt := 0
  connected := false
  connectionID := ""
  serverTimestamp := now
  disconnectedAt := some now
  state := .other ""
  releaseVersion := 0
  targetRevision := 0
  activationRevision := 0
  rejectionCategory := ""
  appliedDivergent := false
  divergentFieldCount := 0
  lastAppliedVersion := 0
  lastAckSequence := 0
  lastAppliedRevision := 0
  lastAppliedSequence := 0
  prunedAckSequence := 0
  diagnostic := ""
  clientTimestamp := 0

/-- `RegisterReleaseSession`。既にある session は検査だけする。 -/
def registerReleaseSession (rq : Request) (s : Store) (ref : ReleaseSessionRef) (resume : Bool) :
    Except Err (Unit × Store) := do
  let nsID ← resolveNamespaceID rq s ref.track.ns
  if resume || (s.sessions.get ref.sessionID).isSome then
    let _ ← sessionTx rq s ref
    pure ((), s)
  else
    let sessions ← orThrow (s.sessions.insert? (newSession ref nsID rq.now))
      (.alreadyExists "release session")
    pure ((), { s with sessions })

theorem registerReleaseSession_ok_cases
    {resume : Bool} {u : Unit} (h : registerReleaseSession rq s ref resume = .ok (u, s')) :
    s' = s ∨ ∃ nsID t, resolveNamespaceID rq s ref.track.ns = .ok nsID ∧
      s.sessions.insert? (newSession ref nsID rq.now) = some t ∧
      s' = { s with sessions := t } := by
  simp only [registerReleaseSession, bind_eq_ok_iff] at h
  obtain ⟨nsID, hns, h⟩ := h
  split at h
  · simp only [bind_eq_ok_iff, pure_eq_ok_iff] at h
    obtain ⟨_, _, heq⟩ := h
    cases heq
    exact Or.inl rfl
  · simp only [bind_eq_ok_iff, pure_eq_ok_iff, orThrow_eq_ok_iff] at h
    obtain ⟨t, ht, heq⟩ := h
    cases heq
    exact Or.inr ⟨nsID, t, hns, ht, rfl⟩

/-- target の割り当てを決める欄が同じ二つの行。 -/
structure SameAssignment (m m' : ReleaseSessionModel) : Prop where
  sessionID : m'.sessionID = m.sessionID
  track : m'.track = m.track
  pinVersion : m'.pinVersion = m.pinVersion
  pinRevision : m'.pinRevision = m.pinRevision

theorem SameAssignment.trans {a b c : ReleaseSessionModel} (h : SameAssignment a b)
    (h' : SameAssignment b c) : SameAssignment a c where
  sessionID := h'.sessionID.trans h.sessionID
  track := h'.track.trans h.track
  pinVersion := h'.pinVersion.trans h.pinVersion
  pinRevision := h'.pinRevision.trans h.pinRevision

/-! ## target の割り当て -/

/-- session に割り当てた target。`version = 0` は release 無し。 -/
structure Target where
  revision : Nat
  version : Nat
  activation : Nat
  deriving DecidableEq

/--
`resolveInstanceTx` が計算する target。

pin されている間は pin revision、pin が無ければ pin revision と current label の
activation revision の大きい方が target revision である。
-/
def assignedTarget (s : Store) (m : ReleaseSessionModel) : Target :=
  if m.pinVersion ≠ 0 then ⟨m.pinRevision, m.pinVersion, 0⟩
  else
    match s.releaseLabels.get (m.track, .current) with
    | some l =>
      ⟨max m.pinRevision l.activationRevision, l.versionNumber, l.activationRevision⟩
    | none => ⟨m.pinRevision, 0, 0⟩

def deliveryRow (now : Time) (m : ReleaseSessionModel) (t : Target) :
    ReleaseTargetDeliveryModel :=
  ⟨now, m.sessionID, t.revision, t.version, t.activation⟩

/-- `resolveInstanceTx`。target を返し、delivery の行を残す。 -/
def resolveInstanceTx (rq : Request) (s : Store) (ref : ReleaseSessionRef)
    (m : ReleaseSessionModel) : Except Err (InstanceReleaseTarget × Store) := do
  let t := assignedTarget s m
  let out : InstanceReleaseTarget :=
    { release := none, targetRevision := t.revision, activationRevision := t.activation
      pinned := decide (m.pinVersion > 0), pinRevision := m.pinRevision, pinnedBy := m.pinnedBy
      pinnedAt := m.pinnedAt }
  if t.version = 0 then
    pure (out, s)
  else
    let rel ← getConfigurationRelease rq s ref.track t.version
    let targetDeliveries := s.targetDeliveries.insertIgnore (deliveryRow rq.now m t)
    pure ({ out with release := some rel }, { s with targetDeliveries })

def resolvedTarget (t : InstanceReleaseTarget) : Target :=
  ⟨t.targetRevision, (t.release.map (·.version)).getD 0, t.activationRevision⟩

theorem getConfigurationRelease_version {track : ReleaseTrack}
    {version : Nat} {rel : ConfigurationRelease} (hv : version ≠ 0)
    (h : getConfigurationRelease rq s track version = .ok rel) : rel.version = version := by
  simp only [getConfigurationRelease, if_neg hv, bind_eq_ok_iff, orThrow_eq_ok_iff,
    pure_eq_ok_iff] at h
  obtain ⟨nsID, _, m, hm, rfl⟩ := h
  have hk := AutoTable.key_of_get hm
  exact congrArg ReleaseKey.versionNumber hk

/-- 解決は割り当てた target をそのまま返し、release があれば delivery の行を一つ残す。 -/
theorem resolveInstanceTx_ok_cases {out : InstanceReleaseTarget}
    (h : resolveInstanceTx rq s ref m = .ok (out, s')) :
    resolvedTarget out = assignedTarget s m ∧
      ((assignedTarget s m).version = 0 ∧ s' = s ∨
        (assignedTarget s m).version ≠ 0 ∧
          s' = { s with
            targetDeliveries :=
              s.targetDeliveries.insertIgnore (deliveryRow rq.now m (assignedTarget s m)) }) := by
  unfold resolveInstanceTx at h
  by_cases hv : (assignedTarget s m).version = 0
  · simp only [hv, if_true, pure_eq_ok_iff] at h
    cases h
    refine ⟨?_, Or.inl ⟨hv, rfl⟩⟩
    show (⟨_, 0, _⟩ : Target) = _
    rw [← hv]
  · simp only [hv, if_false, bind_eq_ok_iff, pure_eq_ok_iff] at h
    obtain ⟨rel, hrel, heq⟩ := h
    cases heq
    refine ⟨?_, Or.inr ⟨hv, rfl⟩⟩
    show (⟨_, rel.version, _⟩ : Target) = _
    rw [getConfigurationRelease_version hv hrel]

theorem resolveInstanceTx_frame {out : InstanceReleaseTarget}
    (h : resolveInstanceTx rq s ref m = .ok (out, s')) :
    ∃ d, s' = { s with targetDeliveries := d } := by
  rcases (resolveInstanceTx_ok_cases h).2 with ⟨_, rfl⟩ | ⟨_, h'⟩
  · exact ⟨_, rfl⟩
  · exact ⟨_, h'⟩

def resolveInstanceRelease (rq : Request) (s : Store) (ref : ReleaseSessionRef) :
    Except Err (InstanceReleaseTarget × Store) := do
  let m ← sessionTx rq s ref
  resolveInstanceTx rq s ref m

/-! ## pin と接続 -/

section Pin

variable [Hashing]

/-- pin する release の存在と全 pin の検査。`version = 0`（解除）なら検査は無い。 -/
def checkPinTarget (rq : Request) (s : Store) (m : ReleaseSessionModel) (version : Nat) :
    Except Err Unit :=
  if version = 0 then pure ()
  else do
    require (m.connected = true)
      (.failedPrecondition "pinning requires a connected client process")
    let rel ← orThrow (s.releases.get (m.track.release version)) (.notFound "release not found")
    validateReleasePinsTx rq s rel.id

/-- pin を書き換えた行。 -/
def repinned (m : ReleaseSessionModel) (version rev : Nat) (actor : String) (now : Time) :
    ReleaseSessionModel :=
  { m with
    pinVersion := version
    pinRevision := rev
    pinnedBy := if version = 0 then "" else actor
    pinnedAt := if version = 0 then 0 else now
    serverTimestamp := now }

/-- `SetReleasePin` が同じ transaction に残す監査。core の event に、namespace の行と metadata を加えたものである。 -/
def pinAudit (ref : ReleaseSessionRef) (m : ReleaseSessionModel) (version rev : Nat)
    (actor : String) (now : Time) : AuditEvent where
  eventType := if version = 0 then "configuration_release.unpin" else "configuration_release.pin"
  actorIdentity := actor
  resourceType := "configuration_release"
  resourceNamespaceID := m.track.namespaceID
  ref := ⟨ref.track.ns, ref.track.name⟩
  resourceVersion := version
  decision := "allow"
  metadata :=
    [("session_id", m.sessionID), ("instance_id", m.instanceID), ("client_name", m.clientName),
      ("identity", m.identity), ("schema_version", toString m.track.schemaVersion),
      ("target_revision", toString rev)]
  createdAt := now

/-- `SetReleasePin`。pin が変わるときは新しい revision を使う。 -/
def setReleasePin (rq : Request) (s : Store) (ref : ReleaseSessionRef) (version expected : Nat)
    (actor : String) : Except Err (InstanceReleaseTarget × Store) := do
  let m ← sessionTx rq s ref
  require (m.pinRevision = expected)
    (.aborted "instance pin changed; refresh before retrying")
  checkPinTarget rq s m version
  if m.pinVersion = version then
    resolveInstanceTx rq s ref m
  else
    let (rev, s) := appendChange rq s m.track.namespaceID
      { schemaVersion := m.track.schemaVersion, resourceType := .releaseInstance,
        ref := ⟨ref.track.ns, m.track.name⟩, changeType := .target, versionNumber := version }
    let m := repinned m version rev actor rq.now
    resolveInstanceTx rq
      { s with
        sessions := s.sessions.upsert m
        auditEvents := s.auditEvents ++ [pinAudit ref m version rev actor rq.now] }
      ref m

/-- pin の変更は、対象の release を検査し、新しい revision で行を書いてから解決する。 -/
theorem setReleasePin_ok_cases {rq : Request} {s s' : Store} {ref : ReleaseSessionRef}
    {version expected : Nat} {actor : String} {out : InstanceReleaseTarget}
    (h : setReleasePin rq s ref version expected actor = .ok (out, s')) :
    ∃ m, sessionTx rq s ref = .ok m ∧ checkPinTarget rq s m version = .ok () ∧
      (m.pinVersion = version ∧ resolveInstanceTx rq s ref m = .ok (out, s') ∨
        m.pinVersion ≠ version ∧ ∃ entry audits,
          resolveInstanceTx rq
            { s with
              changeLog := logChange s.changeLog entry m.track.namespaceID rq.now
              sessions := s.sessions.upsert
                (repinned m version (s.changeLog.seq + 1) actor rq.now)
              auditEvents := audits }
            ref (repinned m version (s.changeLog.seq + 1) actor rq.now) = .ok (out, s')) := by
  simp only [setReleasePin, bind_eq_ok_iff] at h
  obtain ⟨m, hm, _, _, _, hpin, h⟩ := h
  refine ⟨m, hm, hpin, ?_⟩
  by_cases hv : m.pinVersion = version
  · rw [if_pos hv] at h
    exact Or.inl ⟨hv, h⟩
  · rw [if_neg hv] at h
    exact Or.inr ⟨hv, _, _, h⟩

end Pin

/-- `ConnectReleaseSession`。古い接続の切断は何もしない。 -/
def connectReleaseSession (rq : Request) (s : Store) (ref : ReleaseSessionRef)
    (connection : String) (connected : Bool) : Except Err (Unit × Store) := do
  let m ← sessionTx rq s ref
  if connected = false ∧ m.connectionID ≠ connection then
    pure ((), s)
  else
    let m : ReleaseSessionModel :=
      { m with
        connected
        connectionID := connection
        serverTimestamp := rq.now
        disconnectedAt := if connected then none else some rq.now }
    pure ((), { s with sessions := s.sessions.upsert m })

theorem connectReleaseSession_ok_cases {connection : String} {connected : Bool} {u : Unit}
    (h : connectReleaseSession rq s ref connection connected = .ok (u, s')) :
    ∃ m, sessionTx rq s ref = .ok m ∧ (s' = s ∨ ∃ disconnectedAt,
      s' = { s with
        sessions := s.sessions.upsert { m with
          connected := connected
          connectionID := connection
          serverTimestamp := rq.now
          disconnectedAt := disconnectedAt } }) := by
  simp only [connectReleaseSession, bind_eq_ok_iff] at h
  obtain ⟨m, hm, h⟩ := h
  refine ⟨m, hm, ?_⟩
  split at h
  · rw [pure_eq_ok_iff] at h
    cases h
    exact Or.inl rfl
  · rw [pure_eq_ok_iff] at h
    cases h
    exact Or.inr ⟨_, rfl⟩

/-! ## acknowledgement の還元 -/

/-- 還元の結果。 -/
inductive Disposition where
  | accepted
  | duplicate
  | stale
  | conflict
  | unavailable
  deriving DecidableEq

/-- `sessionAcknowledgement`。永続化された行の写しと、最後に生きていた時刻。 -/
structure SessionAcknowledgement where
  ns : NamespaceRef
  row : ReleaseSessionModel
  liveTimestamp : Time
  deriving DecidableEq

def sessionAcknowledgement (ref : ReleaseSessionRef) (m : ReleaseSessionModel) :
    SessionAcknowledgement where
  ns := ref.track.ns
  row := m
  liveTimestamp :=
    if m.connected then m.serverTimestamp else m.disconnectedAt.getD m.serverTimestamp

structure ReleaseAcknowledgementResult where
  disposition : Disposition
  effective : Option SessionAcknowledgement
  deriving DecidableEq

/-- event の同一性は直近の 256 件だけ保持する。 -/
def releaseSessionEventRetention : Nat := 256

def sessionStateRank : ReleaseState → Nat
  | .received => 1
  | .prepared => 2
  | .applied => 3
  | .rejected => 4
  | .other _ => 0

/-- hash する payload。 -/
def acknowledgementPayload (ack : ReleaseAcknowledgement) : AcknowledgementPayload where
  target := ack.targetRevision
  version := ack.releaseVersion
  activation := ack.activationRevision
  state := ack.state
  category := ack.rejectionCategory
  diagnostic := ack.diagnostic
  timestamp := ack.clientTimestamp
  divergent := ack.appliedDivergent
  fields := ack.divergentFieldCount

def newerAttempt (m : ReleaseSessionModel) (ack : ReleaseAcknowledgement) : Prop :=
  ack.targetRevision > m.targetRevision ∨
    (ack.targetRevision = m.targetRevision ∧ ack.sequence > m.lastAckSequence)

instance (m : ReleaseSessionModel) (ack : ReleaseAcknowledgement) :
    Decidable (newerAttempt m ack) := inferInstanceAs (Decidable (_ ∨ _))

def newerApplied (m : ReleaseSessionModel) (ack : ReleaseAcknowledgement) : Prop :=
  ack.state = .applied ∧ (ack.targetRevision > m.lastAppliedRevision ∨
    (ack.targetRevision = m.lastAppliedRevision ∧ ack.sequence > m.lastAppliedSequence))

instance (m : ReleaseSessionModel) (ack : ReleaseAcknowledgement) :
    Decidable (newerApplied m ack) := inferInstanceAs (Decidable (_ ∧ _))

/-- attempt の欄を書く。 -/
def recordAttempt (m : ReleaseSessionModel) (ack : ReleaseAcknowledgement) : ReleaseSessionModel :=
  if newerAttempt m ack then
    { m with
      lastAckSequence := ack.sequence
      state := ack.state
      releaseVersion := ack.releaseVersion
      targetRevision := ack.targetRevision
      activationRevision := ack.activationRevision
      rejectionCategory := ack.rejectionCategory
      diagnostic := ack.diagnostic
      clientTimestamp := ack.clientTimestamp
      appliedDivergent := ack.appliedDivergent
      divergentFieldCount := ack.divergentFieldCount }
  else m

/-- last-applied の欄を書く。 -/
def recordApplied (m : ReleaseSessionModel) (ack : ReleaseAcknowledgement) : ReleaseSessionModel :=
  if newerApplied m ack then
    { m with
      lastAppliedRevision := ack.targetRevision
      lastAppliedSequence := ack.sequence
      lastAppliedVersion := ack.releaseVersion }
  else m

theorem recordAttempt_sameAssignment (m : ReleaseSessionModel) (ack : ReleaseAcknowledgement) :
    SameAssignment m (recordAttempt m ack) := by
  unfold recordAttempt
  split <;> exact ⟨rfl, rfl, rfl, rfl⟩

theorem recordApplied_sameAssignment (m : ReleaseSessionModel) (ack : ReleaseAcknowledgement) :
    SameAssignment m (recordApplied m ack) := by
  unfold recordApplied
  split <;> exact ⟨rfl, rfl, rfl, rfl⟩

/-- session の event の sequence。大きい順。 -/
def eventSequences (events : Table ReleaseSessionEventModel.key) (sessionID : String) : List Nat :=
  ((events.rows.filter (fun e => decide (e.sessionID = sessionID))).map (·.sequence)).insertionSort
    (· ≥ ·)

/-- 保持数を超えた event のうち最大の sequence。 -/
def expiredSequence (events : Table ReleaseSessionEventModel.key) (sessionID : String) :
    Option Nat :=
  ((eventSequences events sessionID).drop releaseSessionEventRetention).head?

/-- 保持数を超えた event を消し、watermark を上げる。 -/
def expireEvents (m : ReleaseSessionModel) (events : Table ReleaseSessionEventModel.key) :
    ReleaseSessionModel × Table ReleaseSessionEventModel.key :=
  match expiredSequence events m.sessionID with
  | none => (m, events)
  | some q =>
    let pruned := max m.prunedAckSequence q
    ({ m with prunedAckSequence := pruned },
      events.deleteWhere
        (fun e => decide (e.sessionID = m.sessionID) && decide (e.sequence ≤ pruned)))

theorem expireEvents_row (m : ReleaseSessionModel) (events : Table ReleaseSessionEventModel.key) :
    ∃ pruned, m.prunedAckSequence ≤ pruned ∧
      (expireEvents m events).1 = { m with prunedAckSequence := pruned } := by
  unfold expireEvents
  cases expiredSequence events m.sessionID with
  | none => exact ⟨m.prunedAckSequence, le_rfl, rfl⟩
  | some q => exact ⟨_, Nat.le_max_left .., rfl⟩

theorem mem_expireEvents_of_ne
    {events : Table ReleaseSessionEventModel.key} {e : ReleaseSessionEventModel}
    (he : e.sessionID ≠ m.sessionID) : e ∈ (expireEvents m events).2 ↔ e ∈ events := by
  unfold expireEvents
  cases expiredSequence events m.sessionID with
  | none => exact Iff.rfl
  | some q => simp [he]

section Reduce

variable [Hashing]

/-- 取り込み口で計算済みの fingerprint があれば使う。 -/
def acknowledgementFingerprint (ack : ReleaseAcknowledgement) : String :=
  if ack.payloadFingerprint = "" then Hashing.payloadDigest (acknowledgementPayload ack)
  else ack.payloadFingerprint

/-- 台帳に無い event を、割り当てた target と照らして取り込む。 -/
def admitEvent (rq : Request) (s : Store) (m : ReleaseSessionModel)
    (ack : ReleaseAcknowledgement) :
    Except (Disposition × Err) ((Disposition × ReleaseSessionModel) × Store) := do
  let d ← orThrow (s.targetDeliveries.get (m.sessionID, ack.targetRevision))
    (.unavailable, .releaseAcknowledgementUnavailable)
  require (d.version = ack.releaseVersion ∧ d.activationRevision = ack.activationRevision)
    (.unavailable, .failedPrecondition "acknowledgement does not match assigned target")
  let events ← orThrow
    (s.sessionEvents.insert? ⟨m.sessionID, ack.sequence, acknowledgementFingerprint ack⟩)
    (.unavailable, .alreadyExists "release session event")
  let disposition := if newerAttempt m ack then Disposition.accepted else .stale
  let (m, events) := expireEvents (recordApplied (recordAttempt m ack) ack) events
  let m := { m with serverTimestamp := rq.now }
  pure ((disposition, m), { s with sessions := s.sessions.upsert m, sessionEvents := events })

/-- `uint64` の最上位 bit だけの値 `1 << 63`。 -/
def highBit : Nat := 9223372036854775808

/-- 最上位 bit の立った `uint64` を、`database/sql` は query の引数に取らない。 -/
def unconvertibleSequence : Err :=
  .plain ("sql: converting argument $2 type: " ++
    "uint64 values with high bit set are not supported")

/-- 接続を確かめた後の transaction 本体。error には disposition が付く。 -/
def reduceTx (rq : Request) (s : Store) (m : ReleaseSessionModel)
    (ack : ReleaseAcknowledgement) :
    Except (Disposition × Err) ((Disposition × ReleaseSessionModel) × Store) := do
  require (ack.sequence ≠ 0 ∧ sessionStateRank ack.state ≠ 0)
    (.unavailable, .failedPrecondition
      "release acknowledgement requires a nonzero sequence and valid lifecycle state")
  require (ack.sequence < highBit) (.unavailable, unconvertibleSequence)
  let touched := { m with serverTimestamp := rq.now }
  let s' := { s with sessions := s.sessions.upsert touched }
  match s.sessionEvents.get (m.sessionID, ack.sequence) with
  | some retained =>
    require (retained.fingerprint = acknowledgementFingerprint ack)
      (.conflict, .failedPrecondition
        "release acknowledgement sequence has conflicting payload")
    pure ((.duplicate, touched), s')
  | none =>
    if ack.sequence ≤ m.prunedAckSequence then
      pure ((.stale, touched), s')
    else admitEvent rq s m ack

def reduceReleaseSessionAcknowledgement (rq : Request) (s : Store) (ref : ReleaseSessionRef)
    (ack : ReleaseAcknowledgement) :
    Except (ReleaseAcknowledgementResult × Err) (ReleaseAcknowledgementResult × Store) :=
  match sessionTx rq s ref with
  | .error e => .error (⟨.unavailable, none⟩, e)
  | .ok m =>
    if m.connected = false ∨ m.connectionID ≠ ack.connectionID then
      .error (⟨.unavailable, none⟩, .aborted "release session connection changed")
    else
      match reduceTx rq s m ack with
      | .error (d, e) => .error (⟨d, some (sessionAcknowledgement ref m)⟩, e)
      | .ok ((d, m'), s') => .ok (⟨d, some (sessionAcknowledgement ref m')⟩, s')

/-- 還元の後の行。 -/
def reducedRow (rq : Request) (m : ReleaseSessionModel) (ack : ReleaseAcknowledgement)
    (events : Table ReleaseSessionEventModel.key) : ReleaseSessionModel :=
  { (expireEvents (recordApplied (recordAttempt m ack) ack) events).1 with
    serverTimestamp := rq.now }

/-- 還元の後の store。 -/
def reducedStore (rq : Request) (s : Store) (m : ReleaseSessionModel)
    (ack : ReleaseAcknowledgement) (events : Table ReleaseSessionEventModel.key) : Store :=
  { s with
    sessions := s.sessions.upsert (reducedRow rq m ack events)
    sessionEvents := (expireEvents (recordApplied (recordAttempt m ack) ack) events).2 }

omit [Hashing] in
theorem reducedRow_sameAssignment (rq : Request) (m : ReleaseSessionModel)
    (ack : ReleaseAcknowledgement) (events : Table ReleaseSessionEventModel.key) :
    SameAssignment m (reducedRow rq m ack events) := by
  obtain ⟨pruned, _, h⟩ := expireEvents_row (recordApplied (recordAttempt m ack) ack) events
  refine (recordAttempt_sameAssignment m ack).trans
    ((recordApplied_sameAssignment _ ack).trans ?_)
  unfold reducedRow
  rw [h]
  exact ⟨rfl, rfl, rfl, rfl⟩

/-- acknowledgement が、その target の delivery の行と一致する。 -/
def MatchesDelivery (s : Store) (sessionID : String) (ack : ReleaseAcknowledgement) : Prop :=
  ∃ d, s.targetDeliveries.get (sessionID, ack.targetRevision) = some d ∧
    d.version = ack.releaseVersion ∧ d.activationRevision = ack.activationRevision

/-- 生きた接続からの acknowledgement である。 -/
def LiveDelivery (rq : Request) (s : Store) (ref : ReleaseSessionRef)
    (ack : ReleaseAcknowledgement) (m : ReleaseSessionModel) : Prop :=
  sessionTx rq s ref = .ok m ∧ m.connected = true ∧ m.connectionID = ack.connectionID

variable {rq : Request} {s : Store} {ref : ReleaseSessionRef} {ack : ReleaseAcknowledgement}
  {m : ReleaseSessionModel}

omit [Hashing] in
theorem exists_liveDelivery_iff :
    (∃ m, LiveDelivery rq s ref ack m) ↔
      ∃ m ∈ (sessionTx rq s ref).toOption,
        m.connected = true ∧ m.connectionID = ack.connectionID := by
  refine exists_congr (fun m => and_congr_left' ?_)
  cases sessionTx rq s ref with
  | error e | ok m₀ => simp [Except.toOption]

instance (rq : Request) (s : Store) (ref : ReleaseSessionRef) (ack : ReleaseAcknowledgement) :
    Decidable (∃ m, LiveDelivery rq s ref ack m) := decidable_of_iff' _ exists_liveDelivery_iff

instance (s : Store) (sessionID : String) (ack : ReleaseAcknowledgement) :
    Decidable (MatchesDelivery s sessionID ack) :=
  inferInstanceAs (Decidable
    (∃ d ∈ s.targetDeliveries.get (sessionID, ack.targetRevision),
      d.version = ack.releaseVersion ∧ d.activationRevision = ack.activationRevision))

theorem reduce_of_live {m : ReleaseSessionModel} (h : LiveDelivery rq s ref ack m) :
    reduceReleaseSessionAcknowledgement rq s ref ack =
      match reduceTx rq s m ack with
      | .error (d, e) => .error (⟨d, some (sessionAcknowledgement ref m)⟩, e)
      | .ok ((d, m'), s') => .ok (⟨d, some (sessionAcknowledgement ref m')⟩, s') := by
  obtain ⟨htx, hconn, hid⟩ := h
  simp [reduceReleaseSessionAcknowledgement, htx, hconn, hid]

/-- 取り込みは、delivery の行と一致する新しい sequence でだけ成功する。 -/
theorem admitEvent_ok_iff {out : (Disposition × ReleaseSessionModel) × Store} :
    admitEvent rq s m ack = .ok out ↔
      MatchesDelivery s m.sessionID ack ∧
        ∃ t, s.sessionEvents.insert? ⟨m.sessionID, ack.sequence, acknowledgementFingerprint ack⟩ =
            some t ∧
          out = ((if newerAttempt m ack then .accepted else .stale, reducedRow rq m ack t),
            reducedStore rq s m ack t) := by
  simp only [admitEvent, bind_eq_ok_iff, orThrow_eq_ok_iff, require_eq_ok_iff, pure_eq_ok_iff,
    MatchesDelivery]
  constructor
  · rintro ⟨d, hd, _, hmatch, t, ht, heq⟩
    exact ⟨⟨d, hd, hmatch⟩, t, ht, heq.symm⟩
  · rintro ⟨⟨d, hd, hmatch⟩, t, ht, heq⟩
    exact ⟨d, hd, ⟨⟩, hmatch, t, ht, heq.symm⟩

theorem reduceTx_duplicate (rq : Request) {e : ReleaseSessionEventModel}
    (hvalid : ack.sequence ≠ 0 ∧ sessionStateRank ack.state ≠ 0) (hbound : ack.sequence < highBit)
    (he : s.sessionEvents.get (m.sessionID, ack.sequence) = some e)
    (hf : e.fingerprint = acknowledgementFingerprint ack) :
    reduceTx rq s m ack = .ok ((.duplicate, { m with serverTimestamp := rq.now }),
      { s with sessions := s.sessions.upsert { m with serverTimestamp := rq.now } }) := by
  simp only [reduceTx, bind_eq_ok_iff, require_eq_ok_iff, he, pure_eq_ok_iff]
  exact ⟨⟨⟩, hvalid, ⟨⟩, hbound, ⟨⟩, hf, trivial⟩

/-- 台帳に無く、watermark より新しい event の取り込み。 -/
theorem reduceTx_newEvent (rq : Request) {t : Table ReleaseSessionEventModel.key}
    (hvalid : ack.sequence ≠ 0 ∧ sessionStateRank ack.state ≠ 0) (hbound : ack.sequence < highBit)
    (hlt : m.prunedAckSequence < ack.sequence) (hmatch : MatchesDelivery s m.sessionID ack)
    (ht : s.sessionEvents.insert? ⟨m.sessionID, ack.sequence, acknowledgementFingerprint ack⟩ =
      some t) :
    reduceTx rq s m ack =
      .ok ((if newerAttempt m ack then .accepted else .stale, reducedRow rq m ack t),
        reducedStore rq s m ack t) := by
  have hnone : s.sessionEvents.get (m.sessionID, ack.sequence) = none :=
    (Table.insert?_eq_some_iff.mp ht).1
  simp only [reduceTx, bind_eq_ok_iff, require_eq_ok_iff, hnone]
  refine ⟨⟨⟩, hvalid, ⟨⟩, hbound, ?_⟩
  rw [if_neg (Nat.not_le_of_lt hlt)]
  exact admitEvent_ok_iff.mpr ⟨hmatch, t, ht, rfl⟩

/-- 成功した還元は、再送・watermark 以下・取り込みのどれかである。 -/
theorem reduceTx_ok_cases {s' : Store} {m' : ReleaseSessionModel} {d : Disposition}
    (h : reduceTx rq s m ack = .ok ((d, m'), s')) :
    ((d = .duplicate ∨ d = .stale) ∧ m' = { m with serverTimestamp := rq.now } ∧
        s' = { s with sessions := s.sessions.upsert m' } ∧
        (s.sessionEvents.get (m.sessionID, ack.sequence) ≠ none ∨
          ack.sequence ≤ m.prunedAckSequence)) ∨
      (m.prunedAckSequence < ack.sequence ∧ MatchesDelivery s m.sessionID ack ∧
        ∃ t, s.sessionEvents.insert? ⟨m.sessionID, ack.sequence, acknowledgementFingerprint ack⟩ =
            some t ∧
          d = (if newerAttempt m ack then .accepted else .stale) ∧
          m' = reducedRow rq m ack t ∧ s' = reducedStore rq s m ack t) := by
  simp only [reduceTx, bind_eq_ok_iff] at h
  obtain ⟨_, _, _, _, h⟩ := h
  cases hev : s.sessionEvents.get (m.sessionID, ack.sequence) with
  | some retained =>
    simp only [hev, bind_eq_ok_iff, pure_eq_ok_iff] at h
    obtain ⟨_, _, heq⟩ := h
    cases heq
    exact Or.inl ⟨Or.inl rfl, rfl, rfl, Or.inl (by simp)⟩
  | none =>
    simp only [hev] at h
    by_cases hp : ack.sequence ≤ m.prunedAckSequence
    · rw [if_pos hp, pure_eq_ok_iff] at h
      cases h
      exact Or.inl ⟨Or.inr rfl, rfl, rfl, Or.inr hp⟩
    · rw [if_neg hp, admitEvent_ok_iff] at h
      obtain ⟨hmatch, t, ht, heq⟩ := h
      cases heq
      exact Or.inr ⟨Nat.lt_of_not_le hp, hmatch, t, ht, rfl, rfl, rfl⟩

/-- 失敗した還元は、形の誤り・引数にできない sequence・内容の衝突・delivery の行との不一致のどれかである。 -/
theorem reduceTx_error_cases {d : Disposition} {e : Err} (h : reduceTx rq s m ack = .error (d, e)) :
    (¬ (ack.sequence ≠ 0 ∧ sessionStateRank ack.state ≠ 0) ∧ d = .unavailable ∧
        e = .failedPrecondition
          "release acknowledgement requires a nonzero sequence and valid lifecycle state") ∨
      (highBit ≤ ack.sequence ∧ d = .unavailable ∧ e = unconvertibleSequence) ∨
      (d = .conflict ∧
        e = .failedPrecondition "release acknowledgement sequence has conflicting payload") ∨
      (d = .unavailable ∧ ¬ MatchesDelivery s m.sessionID ack ∧
        (e = .failedPrecondition "acknowledgement does not match assigned target" →
          ∃ row, s.targetDeliveries.get (m.sessionID, ack.targetRevision) = some row ∧
            ¬ (row.version = ack.releaseVersion ∧
              row.activationRevision = ack.activationRevision))) := by
  simp only [reduceTx, bind_eq_error_iff, require_eq_error_iff] at h
  rcases h with ⟨hbad, he⟩ | ⟨_, _, ⟨hhigh, he⟩ | ⟨_, _, h⟩⟩
  · cases he
    exact Or.inl ⟨hbad, rfl, rfl⟩
  · cases he
    exact Or.inr (Or.inl ⟨Nat.le_of_not_lt hhigh, rfl, rfl⟩)
  refine Or.inr (Or.inr ?_)
  cases hev : s.sessionEvents.get (m.sessionID, ack.sequence) with
  | some retained =>
    simp only [hev, bind_eq_error_iff, require_eq_error_iff, pure_ne_error, and_false, exists_false,
      or_false] at h
    cases h.2
    exact Or.inl ⟨rfl, rfl⟩
  | none =>
    simp only [hev] at h
    by_cases hp : ack.sequence ≤ m.prunedAckSequence
    · rw [if_pos hp] at h
      exact absurd h pure_ne_error
    · simp only [if_neg hp, admitEvent, bind_eq_error_iff, require_eq_error_iff,
        orThrow_eq_error_iff, orThrow_eq_ok_iff, pure_ne_error, and_false, exists_false,
        or_false] at h
      rcases h with ⟨hnone, he⟩ | ⟨row, hrow, ⟨hne, he⟩ | ⟨_, _, hins, _⟩⟩
      · cases he
        refine Or.inr ⟨rfl, ?_, by simp [Err.failedPrecondition]⟩
        simp [MatchesDelivery, hnone]
      · cases he
        refine Or.inr ⟨rfl, ?_, fun _ => ⟨row, hrow, hne⟩⟩
        simpa [MatchesDelivery, hrow] using hne
      · -- 台帳に無い sequence なので、event の追加は失敗しない。
        exact absurd hev (Table.insert?_eq_none_iff.mp hins)

theorem reduce_ok_cases {s' : Store} {r : ReleaseAcknowledgementResult}
    (h : reduceReleaseSessionAcknowledgement rq s ref ack = .ok (r, s')) :
    ∃ m m', LiveDelivery rq s ref ack m ∧ reduceTx rq s m ack = .ok ((r.disposition, m'), s') := by
  unfold reduceReleaseSessionAcknowledgement at h
  cases htx : sessionTx rq s ref with
  | error e => simp [htx] at h
  | ok m =>
    simp only [htx] at h
    by_cases hlive : m.connected = false ∨ m.connectionID ≠ ack.connectionID
    · rw [if_pos hlive] at h
      cases h
    · rw [if_neg hlive] at h
      rw [not_or, Bool.not_eq_false, not_ne_iff] at hlive
      cases hred : reduceTx rq s m ack with
      | error p => simp [hred] at h
      | ok p =>
        simp only [hred] at h
        cases h
        exact ⟨m, p.1.2, ⟨htx, hlive⟩, hred⟩

theorem reduce_error_disposition {p : ReleaseAcknowledgementResult × Err}
    (h : reduceReleaseSessionAcknowledgement rq s ref ack = .error p) :
    p.1.disposition ≠ .accepted := by
  unfold reduceReleaseSessionAcknowledgement at h
  cases htx : sessionTx rq s ref with
  | error e =>
    simp only [htx] at h
    cases h
    exact Disposition.noConfusion
  | ok m =>
    simp only [htx] at h
    split at h
    · cases h
      exact Disposition.noConfusion
    · cases hred : reduceTx rq s m ack with
      | error q =>
        simp only [hred] at h
        cases h
        rcases reduceTx_error_cases hred with ⟨_, hd, _⟩ | ⟨_, hd, _⟩ | ⟨hd, _⟩ | ⟨hd, _⟩
        all_goals
          rw [hd]
          exact Disposition.noConfusion
      | ok q =>
        simp only [hred] at h
        cases h

end Reduce

/-! ## 保持期限と再起動 -/

/-- `pruneReleaseSessions`。切断されて久しい session と、その台帳と delivery を消す。 -/
def pruneReleaseSessions (s : Store) (before : Time) : Store :=
  let sessions := s.sessions.deleteWhere
    (fun m => !m.connected && m.disconnectedAt.any (fun t => decide (t < before)))
  { s with
    sessions
    targetDeliveries := s.targetDeliveries.deleteWhere
      (fun d => (sessions.get d.sessionID).isNone)
    sessionEvents := s.sessionEvents.deleteWhere (fun e => (sessions.get e.sessionID).isNone) }

/-- `ResetReleaseInstanceConnections`。起動時に全ての接続を切断済みにする。 -/
def resetReleaseInstanceConnections (s : Store) (stamp : Time) : Store :=
  { s with
    sessions := s.sessions.updateWhere (fun m => m.connected)
      (fun m => { m with
        connected := false
        disconnectedAt := some stamp
        serverTimestamp := stamp }) }

end Kms.Storage
