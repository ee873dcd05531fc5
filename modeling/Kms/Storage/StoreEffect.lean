import Kms.Storage.Frame

/-!
# 一つの transaction の効果

`step` の場合分けを一度だけして、各群が変える表を枠として添える。表ごとの数え上げは、ここから導く。

* `SessionEffect` — session の行・event の台帳・delivery・release の label に対してすること
* `StoreEffect` / `step_storeEffect`
-/

namespace Kms.Storage

open Kms.Infra

/-! ## session の表 -/

/-- session に触れない一歩。 -/
structure SessionNeutral (s s' : Store) : Prop where
  sessions : s'.sessions = s.sessions
  sessionEvents : s'.sessionEvents = s.sessionEvents
  targetDeliveries : s'.targetDeliveries = s.targetDeliveries
  releaseLabels : s'.releaseLabels = s.releaseLabels
  changeLog : LogStep s.changeLog s'.changeLog

theorem SessionNeutral.refl (s : Store) : SessionNeutral s s := ⟨rfl, rfl, rfl, rfl, .same⟩

/-- 解決の後の delivery の表。release の無い target は記録しない。 -/
def Delivered (now : Time) (s : Store) (m : ReleaseSessionModel)
    (d : Table ReleaseTargetDeliveryModel.key) : Prop :=
  (assignedTarget s m).version = 0 ∧ d = s.targetDeliveries ∨
    (assignedTarget s m).version ≠ 0 ∧
      d = s.targetDeliveries.insertIgnore (deliveryRow now m (assignedTarget s m))

variable {rq : Request} {s s' : Store} {ref : ReleaseSessionRef} {m m' : ReleaseSessionModel}
  {c : Call}

theorem resolveInstanceTx_delivered {out : InstanceReleaseTarget}
    (h : resolveInstanceTx rq s ref m = .ok (out, s')) :
    ∃ d, Delivered rq.now s m d ∧ s' = { s with targetDeliveries := d } := by
  rcases (resolveInstanceTx_ok_cases h).2 with ⟨hv, rfl⟩ | ⟨hv, rfl⟩
  · exact ⟨_, Or.inl ⟨hv, rfl⟩, rfl⟩
  · exact ⟨_, Or.inr ⟨hv, rfl⟩, rfl⟩

section

variable [Hashing]

theorem acknowledge_frame {ack : ReleaseAcknowledgement} {r : ReleaseAcknowledgementResult}
    (h : reduceReleaseSessionAcknowledgement rq s ref ack = .ok (r, s')) :
    ∃ m m' events, sessionTx rq s ref = .ok m ∧ SameAssignment m m' ∧
      s' = { s with sessions := s.sessions.upsert m', sessionEvents := events } := by
  obtain ⟨m, m', ⟨htx, _⟩, hred⟩ := reduce_ok_cases h
  rcases reduceTx_ok_cases hred with ⟨_, rfl, rfl, _⟩ | ⟨_, _, t, _, _, rfl, rfl⟩
  · exact ⟨m, { m with serverTimestamp := rq.now }, s.sessionEvents, htx,
      ⟨rfl, rfl, rfl, rfl⟩, rfl⟩
  · exact ⟨m, _, _, htx, reducedRow_sameAssignment rq m ack t, rfl⟩

inductive SessionEffect (s : Store) (c : Call) (s' : Store) : Prop
  | neutral (h : SessionNeutral s s')
  | namespaceDeleted (id : Nat) (a : Table ConfigurationReleaseActivationModel.revision)
      (e : Table ConfigurationReleaseEntryModel.key)
      (r : AutoTable ConfigurationReleaseModel.id ConfigurationReleaseModel.key)
      (k : Table ConfigurationReleaseCounterModel.track)
      (w : Table SecretVersionHighWaterModel.key)
      (n : AutoTable NamespaceModel.id NamespaceModel.ref)
      (h : s' = { s with
        sessionEvents := s.sessionEvents.deleteWhere (fun m => sessionInNamespace s id m.sessionID)
        targetDeliveries :=
          s.targetDeliveries.deleteWhere (fun m => sessionInNamespace s id m.sessionID)
        sessions := s.sessions.deleteWhere (fun m => decide (m.track.namespaceID = id))
        releaseActivations := a
        releaseLabels := s.releaseLabels.deleteWhere (fun m => decide (m.track.namespaceID = id))
        releaseEntries := e
        releases := r
        releaseCounters := k
        secretHighWater := w
        namespaces := n })
  | activated (k : TrackKey) (version : Nat) (entry : ChangeEntry)
      (a : Table ConfigurationReleaseActivationModel.revision)
      (h : s' = { s with
        changeLog := logChange s.changeLog entry k.namespaceID c.rq.now
        releaseActivations := a
        releaseLabels := activatedLabels s k version (s.changeLog.seq + 1) })
  | deliveriesExpired (p : ReleaseTargetDeliveryModel → Bool)
      (a : Table ConfigurationReleaseActivationModel.revision)
      (r : AutoTable ConfigurationReleaseModel.id ConfigurationReleaseModel.key)
      (e : Table ConfigurationReleaseEntryModel.key)
      (hp : ∀ d, p d = true → deliveryRetained s d = false)
      (h : s' = { s with
        targetDeliveries := s.targetDeliveries.deleteWhere p
        releaseActivations := a
        releases := r
        releaseEntries := e })
  | registered (ref : ReleaseSessionRef) (nsID : Nat) (t : Table ReleaseSessionModel.sessionID)
      (hc : ∃ resume, c.op = .registerSession ref resume)
      (ht : s.sessions.insert? (newSession ref nsID c.rq.now) = some t)
      (h : s' = { s with sessions := t })
  | connectionChanged (ref : ReleaseSessionRef) (m : ReleaseSessionModel) (connected : Bool)
      (connection : String) (disconnectedAt : Option Time) (htx : sessionTx c.rq s ref = .ok m)
      (h : s' = { s with
        sessions := s.sessions.upsert { m with
          connected := connected
          connectionID := connection
          serverTimestamp := c.rq.now
          disconnectedAt := disconnectedAt } })
  | resolved (ref : ReleaseSessionRef) (m : ReleaseSessionModel)
      (d : Table ReleaseTargetDeliveryModel.key) (htx : sessionTx c.rq s ref = .ok m)
      (hd : Delivered c.rq.now s m d) (h : s' = { s with targetDeliveries := d })
  | pinChanged (ref : ReleaseSessionRef) (m : ReleaseSessionModel) (version : Nat)
      (actor : String) (entry : ChangeEntry) (audits : List AuditEvent)
      (d : Table ReleaseTargetDeliveryModel.key)
      (htx : sessionTx c.rq s ref = .ok m) (hne : m.pinVersion ≠ version)
      (hd : Delivered c.rq.now s (repinned m version (s.changeLog.seq + 1) actor c.rq.now) d)
      (h : s' = { s with
        changeLog := logChange s.changeLog entry m.track.namespaceID c.rq.now
        sessions := s.sessions.upsert (repinned m version (s.changeLog.seq + 1) actor c.rq.now)
        auditEvents := audits
        targetDeliveries := d })
  | acknowledged (ref : ReleaseSessionRef) (ack : ReleaseAcknowledgement)
      (r : ReleaseAcknowledgementResult) (hc : c.op = .acknowledge ref ack)
      (h : reduceReleaseSessionAcknowledgement c.rq s ref ack = .ok (r, s'))
  | sessionsPruned (before : Time) (h : s' = pruneReleaseSessions s before)
  | connectionsReset (stamp : Time) (h : s' = resetReleaseInstanceConnections s stamp)

/-! ## store 全体 -/

/-- session の行は、pin が無いか、元の行と同じ track と pin を持つ。 -/
def KeepsPins (s s' : Store) : Prop :=
  ∀ x ∈ s'.sessions, x.pinVersion = 0 ∨
    ∃ m ∈ s.sessions, m.track = x.track ∧ m.pinVersion = x.pinVersion

/-- 一つの transaction が store に対してすること。 -/
inductive StoreEffect (s : Store) (c : Call) (s' : Store) : Prop
  | refused (hs : s' = s)
  | administered (op : AdminOp) (hc : c.op = .admin op) (h : (op.exec c.rq s).2 = s')
      {a b d e f} (hs : s' = { s with
        applications := a
        schemas := b
        schemaFreeContracts := d
        identities := e
        auditEvents := f })
  | parameter (op : ParameterOp) (hc : c.op = .parameter op) (h : (op.exec c.rq s).2 = s')
      {a b d j} (hlog : LogStep s.changeLog j) (hs : s' = { s with
        parameters := a
        parameterVersions := b
        parameterLabels := d
        changeLog := j })
  | secret (op : SecretOp) (hc : c.op = .secret op) (h : (op.exec c.rq s).2 = s')
      {a b d e f j} (hlog : LogStep s.changeLog j) (hs : s' = { s with
        secrets := a
        secretHighWater := b
        secretVersions := d
        secretLabels := e
        auditEvents := f
        changeLog := j })
  | namespaceCreated (ns : NamespaceRef) (id : Nat) (hc : c.op = .createNamespace ns)
      (h : createNamespace c.rq s ns = .ok (id, s')) {a b} (hs : s' = { s with
        applications := a
        namespaces := b })
  | namespaceDeleted (ns : NamespaceRef) (u : Unit) (h : deleteNamespaceTx c.rq s ns = .ok (u, s'))
  | rotated {id : String} {keyCheck : Bytes} {createdAt : Time}
      {rewrapSecret : SecretVersionModel → Except Err Bytes}
      {rewrapCA : CAKeyModel → Except Err Bytes} {out : Nat × Nat}
      (hc : c.op = .rotateKEK id keyCheck createdAt rewrapSecret rewrapCA)
      (h : rotateKEK s id keyCheck createdAt rewrapSecret rewrapCA = .ok (out, s'))
      {a b d} (hs : s' = { s with
        keyMetadata := a
        secretVersions := b
        caKeys := d })
  | released (release : ConfigurationRelease) (options : ReleaseCreateOptions)
      (out : ConfigurationRelease × Bool)
      (h : createConfigurationRelease c.rq s release options = .ok (out, s'))
      {a b d e f} (hs : s' = { s with
        schemas := a
        schemaFreeContracts := b
        releases := d
        releaseEntries := e
        releaseCounters := f })
  | activated (track : ReleaseTrack) (version : Nat) (expectedCurrent : Option Nat)
      (out : ActiveConfigurationRelease × Bool)
      (h : activateConfigurationRelease c.rq s track version expectedCurrent = .ok (out, s'))
      {a b j} (hs : s' = { s with
        releaseActivations := a
        releaseLabels := b
        changeLog := j })
  | pruned (retainDuration retainVersions : Nat)
      (h : pruneConfigurationReleases c.rq s retainDuration retainVersions = s')
      {a b d e} (hs : s' = { s with
        targetDeliveries := a
        releaseActivations := b
        releases := d
        releaseEntries := e })
  | session (heff : SessionEffect s c s') {a b d} (hpins : KeepsPins s s') (hs : s' = { s with
      sessions := a
      sessionEvents := b
      targetDeliveries := d })
  | pinned (ref : ReleaseSessionRef) (version expected : Nat) (actor : String)
      (out : InstanceReleaseTarget)
      (h : setReleasePin c.rq s ref version expected actor = .ok (out, s'))
      {a d f j} (hs : s' = { s with
        sessions := a
        targetDeliveries := d
        auditEvents := f
        changeLog := j })
  | logPruned {j} (hseq : j.seq = s.changeLog.seq) (hlog : LogStep s.changeLog j)
      (hs : s' = { s with changeLog := j })

omit [Hashing] in
theorem KeepsPins.of_subset (h : ∀ x ∈ s'.sessions, x ∈ s.sessions) : KeepsPins s s' :=
  fun x hx => .inr ⟨x, h x hx, rfl, rfl⟩

omit [Hashing] in
theorem KeepsPins.upsert (htx : sessionTx rq s ref = .ok m)
    (hs : s'.sessions = s.sessions.upsert m')
    (hsame : m'.track = m.track ∧ m'.pinVersion = m.pinVersion) : KeepsPins s s' := by
  intro x hx
  obtain ⟨_, _, hget, _⟩ := sessionTx_ok htx
  rw [hs] at hx
  rcases Table.mem_upsert.mp hx with rfl | ⟨hx, _⟩
  · exact .inr ⟨m, Table.mem_of_get hget, hsame.1.symm, hsame.2.symm⟩
  · exact .inr ⟨x, hx, rfl, rfl⟩

theorem step_storeEffect (hs : step s c = s') : StoreEffect s c s' := by
  subst hs
  obtain ⟨rq, op⟩ := c
  have hcommit : ∀ {α : Type} {r : Except Err (α × Store)} {out : α → Output},
      (∀ a t, r = .ok (a, t) → StoreEffect s ⟨rq, op⟩ t) →
      StoreEffect s ⟨rq, op⟩ (commit s r out).2 :=
    commit_keeps (.refused rfl)
  cases op with
  | admin op =>
    obtain ⟨_, _, _, _, _, h⟩ := admin_frame rq s op
    exact .administered op rfl rfl h
  | parameter op =>
    obtain ⟨_, _, _, _, hlog, h⟩ := parameter_frame rq s op
    exact .parameter op rfl rfl hlog h
  | secret op =>
    obtain ⟨_, _, _, _, _, _, hlog, h⟩ := secret_frame rq s op
    exact .secret op rfl rfl hlog h
  | createNamespace ns =>
    refine hcommit (fun id t h => ?_)
    obtain ⟨_, _, _, _, hs⟩ := createNamespace_ok_cases h
    exact .namespaceCreated ns id rfl h hs
  | deleteNamespace ns => exact hcommit (fun u _ h => .namespaceDeleted ns u h)
  | rotateKEK id keyCheck createdAt rewrapSecret rewrapCA =>
    refine hcommit (fun out t h => ?_)
    obtain ⟨_, _, _, _, hs⟩ := rotateKEK_ok_cases h
    exact .rotated rfl h hs
  | createRelease release options =>
    refine hcommit (fun out t h => ?_)
    rcases createConfigurationRelease_ok_cases h with
      ⟨_, _, hs⟩ | ⟨_, _, _, _, _, _, _, _, hs⟩
    all_goals exact .released release options out h hs
  | activateRelease track version expectedCurrent =>
    refine hcommit (fun out t h => ?_)
    obtain ⟨_, _, _, _, _, ⟨_, hs⟩ | ⟨_, _, _, hs⟩⟩ := activateConfigurationRelease_ok_cases h
    all_goals exact .activated track version expectedCurrent out h hs
  | pruneReleases retainDuration retainVersions =>
    generalize h : step s _ = t
    rcases pruneConfigurationReleases_cases h with hs | ⟨_, _, _, _, hs⟩
    all_goals exact .pruned retainDuration retainVersions h hs
  | registerSession ref resume =>
    refine hcommit (fun out t h => ?_)
    rcases registerReleaseSession_ok_cases h with h | ⟨nsID, t, _, ht, rfl⟩
    · exact .refused h
    · refine .session (.registered ref nsID t ⟨resume, rfl⟩ ht rfl) (fun x hx => ?_) rfl
      rcases (Table.mem_insert? ht).mp hx with hx | rfl
      · exact .inr ⟨x, hx, rfl, rfl⟩
      · exact .inl rfl
  | connectSession ref connection connected =>
    refine hcommit (fun out t h => ?_)
    obtain ⟨m, htx, h | ⟨disconnectedAt, rfl⟩⟩ := connectReleaseSession_ok_cases h
    · exact .refused h
    · exact .session (.connectionChanged ref m connected connection disconnectedAt htx rfl)
        (.upsert htx rfl ⟨rfl, rfl⟩) rfl
  | setPin ref version expected actor =>
    refine hcommit (fun out t h => ?_)
    obtain ⟨_, _, _, ⟨_, hres⟩ | ⟨_, _, _, hres⟩⟩ := setReleasePin_ok_cases h
    all_goals
      obtain ⟨_, hs⟩ := resolveInstanceTx_frame hres
      exact .pinned ref version expected actor out h hs
  | resolveInstance ref =>
    refine hcommit (fun out t h => ?_)
    simp only [resolveInstanceRelease, bind_eq_ok_iff] at h
    obtain ⟨m, htx, hres⟩ := h
    obtain ⟨d, hd, rfl⟩ := resolveInstanceTx_delivered hres
    exact .session (.resolved ref m d htx hd rfl) (.of_subset fun _ hx => hx) rfl
  | acknowledge ref ack =>
    generalize hs : step s _ = s'
    obtain h | ⟨r, h⟩ := step_acknowledge hs
    · exact .refused h
    · obtain ⟨m, m', _, htx, hsame, hs⟩ := acknowledge_frame h
      exact .session (.acknowledged ref ack r rfl h)
        (.upsert htx (congrArg Store.sessions hs) ⟨hsame.track, hsame.pinVersion⟩) hs
  | pruneSessions before =>
    exact .session (.sessionsPruned before rfl)
      (.of_subset fun x hx => (Table.mem_deleteWhere.mp hx).1) rfl
  | resetConnections stamp =>
    refine .session (.connectionsReset stamp rfl) (fun x hx => ?_) rfl
    obtain ⟨m, hm, rfl⟩ := (Table.mem_updateWhere (fun _ => by rfl)).mp hx
    exact .inr ⟨m, hm, by split <;> rfl, by split <;> rfl⟩
  | pruneChangeLog keepDuration maxRows =>
    exact .logPruned (Journal.seq_deleteWhere ..) (.pruned _) rfl

end

end Kms.Storage
