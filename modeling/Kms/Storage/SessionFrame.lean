import Kms.Storage.StoreEffect

/-!
# session の表の一歩

どの transaction も、session の行・event の台帳・delivery・release の label に対しては `SessionEffect` のどれかで
ある。session についての不変条件は、全てこの場合分けから導く。

* `step_sessionEffect` — どの transaction も `SessionEffect` のどれかである
* `SessionEffect.rowStep` — 生きている session の行の変わり方
* `SessionEffect.owned` — 台帳と delivery は、持ち主の行と一緒に消える
* `SessionEffect.events_subset` / `SessionEffect.events_keep` — 台帳は、その session への
  acknowledgement でしか変わらない
-/

namespace Kms.Storage

open Kms.Infra

/-! ## 一歩の数え上げ -/

variable {rq : Request} {s s' : Store} {ref : ReleaseSessionRef} {m m' : ReleaseSessionModel}
  {sid : String}

theorem Delivered.mem {now : Time}
    {d : Table ReleaseTargetDeliveryModel.key} (h : Delivered now s m d)
    {r : ReleaseTargetDeliveryModel} (hr : r ∈ d) :
    r ∈ s.targetDeliveries ∨
      (r = deliveryRow now m (assignedTarget s m) ∧ (assignedTarget s m).version ≠ 0) := by
  rcases h with ⟨_, rfl⟩ | ⟨hv, rfl⟩
  · exact Or.inl hr
  · rcases Table.mem_insertIgnore.mp hr with hold | ⟨rfl, _⟩
    · exact Or.inl hold
    · exact Or.inr ⟨rfl, hv⟩

theorem step_sessionEffect [Hashing] {c : Call} (hs : step s c = s') : SessionEffect s c s' := by
  cases step_storeEffect hs with
  | refused hs =>
    subst hs
    exact .neutral (SessionNeutral.refl _)
  | administered op hc h hs | namespaceCreated ns id hc h hs
  | rotated hc h hs
  | released release options out h hs =>
    subst hs
    exact .neutral ⟨rfl, rfl, rfl, rfl, .same⟩
  | parameter op hc h hlog hs | secret op hc h hlog hs | logPruned hseq hlog hs =>
    subst hs
    exact .neutral ⟨rfl, rfl, rfl, rfl, hlog⟩
  | namespaceDeleted ns u h =>
    obtain ⟨id, _, _, _, rfl⟩ := deleteNamespaceTx_ok_cases h
    exact .namespaceDeleted id _ _ _ _ _ _ rfl
  | activated track version expectedCurrent out h hs =>
    obtain ⟨nsID, _, _, _, _, ⟨_, rfl⟩ | ⟨_, _, _, rfl⟩⟩ :=
      activateConfigurationRelease_ok_cases h
    · exact .neutral (SessionNeutral.refl _)
    · exact .activated ⟨nsID, track.name, track.schemaVersion⟩ version _ _ rfl
  | pruned retainDuration retainVersions h hs =>
    rcases pruneConfigurationReleases_cases h with rfl | ⟨p, a, cutoff, hp, rfl⟩
    · exact .neutral (SessionNeutral.refl _)
    · exact .deliveriesExpired p a _ _ hp rfl
  | session heff hpins hs => exact heff
  | pinned ref version expected actor out h hs =>
    obtain ⟨m, htx, _, ⟨_, hres⟩ | ⟨hne, entry, audits, hres⟩⟩ := setReleasePin_ok_cases h
    · obtain ⟨d, hd, rfl⟩ := resolveInstanceTx_delivered hres
      exact .resolved ref m d htx hd rfl
    · obtain ⟨d, hd, rfl⟩ := resolveInstanceTx_delivered hres
      exact .pinChanged ref m version actor entry audits d htx hne hd rfl

/-! ## 行の変わり方 -/

theorem get_upsert_cases {m₀ r : ReleaseSessionModel} (htx : sessionTx rq s ref = .ok m₀)
    (hm : s.sessions.get sid = some m) (hm' : (s.sessions.upsert r).get sid = some m')
    (hr : r.sessionID = m₀.sessionID) : m' = m ∨ (m₀ = m ∧ m' = r ∧ ref.sessionID = sid) := by
  obtain ⟨_, _, hget, hid, _⟩ := sessionTx_ok htx
  by_cases hsid : r.sessionID = sid
  · rw [Table.get_upsert, if_pos hsid] at hm'
    rw [← hid, ← hr, hsid, hm] at hget
    cases hm'
    cases hget
    exact Or.inr ⟨rfl, rfl, hid.symm.trans (hr.symm.trans hsid)⟩
  · rw [Table.get_upsert, if_neg hsid, hm] at hm'
    cases hm'
    exact Or.inl rfl

theorem isSome_get_upsert {t : Table ReleaseSessionModel.sessionID} {r : ReleaseSessionModel}
    (h : (t.get sid).isSome) : ((t.upsert r).get sid).isSome := by
  rw [Table.get_upsert]
  split
  · rfl
  · exact h

theorem isSome_of_sessionTx (htx : sessionTx rq s ref = .ok m) :
    (s.sessions.get m.sessionID).isSome := by
  obtain ⟨_, _, hget, hid, _⟩ := sessionTx_ok htx
  rw [hid, hget]
  rfl

/-- 台帳の event と delivery には、必ず session の行がある。 -/
structure SessionOwned (s : Store) : Prop where
  events : ∀ e ∈ s.sessionEvents, (s.sessions.get e.sessionID).isSome
  deliveries : ∀ d ∈ s.targetDeliveries, (s.sessions.get d.sessionID).isSome

/-- 一歩 `s → s'` の後の行の、元の行 `m` からの変わり方。 -/
inductive RowStep (s s' : Store) (c : Call) (m : ReleaseSessionModel) :
    ReleaseSessionModel → Prop
  | same : RowStep s s' c m m
  | connection (connected : Bool) (connectionID : String) (serverTimestamp : Time)
      (disconnectedAt : Option Time) :
      RowStep s s' c m { m with
        connected := connected
        connectionID := connectionID
        serverTimestamp := serverTimestamp
        disconnectedAt := disconnectedAt }
  | repin (version : Nat) (actor : String) : m.pinVersion ≠ version →
      s'.releaseLabels = s.releaseLabels → s'.changeLog.seq = s.changeLog.seq + 1 →
      RowStep s s' c m (repinned m version (s.changeLog.seq + 1) actor c.rq.now)
  | acknowledged (ref : ReleaseSessionRef) (ack : ReleaseAcknowledgement)
      (m' : ReleaseSessionModel) : c.op = .acknowledge ref ack → ref.sessionID = m.sessionID →
      SameAssignment m m' → RowStep s s' c m m'

theorem RowStep.of_get_eq {c : Call}
    (hm : s.sessions.get sid = some m) (hm' : s'.sessions.get sid = some m')
    (h : s'.sessions.get sid = s.sessions.get sid) : RowStep s s' c m m' := by
  rw [h, hm] at hm'
  cases hm'
  exact RowStep.same

theorem RowStep.of_deleteWhere {c : Call} {p : ReleaseSessionModel → Bool}
    (hm : s.sessions.get sid = some m) (hm' : (s.sessions.deleteWhere p).get sid = some m') :
    RowStep s s' c m m' := by
  rw [Table.get_deleteWhere, hm, Option.filter_eq_some_iff] at hm'
  cases hm'.1
  exact RowStep.same

section

variable [Hashing]

variable {s s' : Store} {sid : String} {c : Call} {m' : ReleaseSessionModel}
  {e : ReleaseSessionEventModel}

theorem acknowledge_rowStep {rq : Request} {ref : ReleaseSessionRef}
    {ack : ReleaseAcknowledgement} {r : ReleaseAcknowledgementResult}
    {m : ReleaseSessionModel} (hc : c.op = .acknowledge ref ack)
    (h : reduceReleaseSessionAcknowledgement rq s ref ack = .ok (r, s'))
    (hm : s.sessions.get sid = some m) (hm' : s'.sessions.get sid = some m') :
    RowStep s s' c m m' := by
  have hsid := Table.key_of_get hm
  obtain ⟨m₀, m₁, ⟨htx, _⟩, hred⟩ := reduce_ok_cases h
  rcases reduceTx_ok_cases hred with ⟨_, rfl, rfl, _⟩ | ⟨_, _, t, _, _, rfl, rfl⟩
  · rcases get_upsert_cases htx hm hm' rfl with rfl | ⟨rfl, rfl, href⟩
    · exact RowStep.same
    · exact RowStep.acknowledged ref ack _ hc (href.trans hsid.symm) ⟨rfl, rfl, rfl, rfl⟩
  · have hrow := reducedRow_sameAssignment rq m₀ ack t
    rcases get_upsert_cases htx hm hm' hrow.sessionID with rfl | ⟨rfl, rfl, href⟩
    · exact RowStep.same
    · exact RowStep.acknowledged ref ack _ hc (href.trans hsid.symm) hrow

theorem SessionEffect.rowStep
    {m : ReleaseSessionModel} (h : SessionEffect s c s') (hm : s.sessions.get sid = some m)
    (hm' : s'.sessions.get sid = some m') : RowStep s s' c m m' := by
  cases h with
  | neutral h => exact RowStep.of_get_eq hm hm' (by rw [h.sessions])
  | namespaceDeleted id a e r k w n h | sessionsPruned before h =>
    subst h
    exact RowStep.of_deleteWhere hm hm'
  | activated k version entry a h | deliveriesExpired p a r e _ h | resolved ref m₀ d htx hd h =>
    subst h
    exact RowStep.of_get_eq hm hm' rfl
  | registered ref nsID t _ ht h =>
    subst h
    refine RowStep.of_get_eq hm hm' ?_
    show t.get sid = s.sessions.get sid
    rw [Table.get_insert? ht, if_neg]
    -- 登録が通ったので、その session の行はまだ無かった。
    intro hsid
    have hnone := (Table.insert?_eq_some_iff.mp ht).1
    rw [hsid, hm] at hnone
    cases hnone
  | connectionChanged ref m₀ connected connection disconnectedAt htx h =>
    subst h
    rcases get_upsert_cases htx hm hm' rfl with rfl | ⟨rfl, rfl, _⟩
    · exact RowStep.same
    · exact RowStep.connection _ _ _ _
  | pinChanged ref m₀ version actor entry audits d htx hne hd h =>
    subst h
    rcases get_upsert_cases htx hm hm' rfl with rfl | ⟨rfl, rfl, _⟩
    · exact RowStep.same
    · exact RowStep.repin version actor hne rfl rfl
  | acknowledged ref ack r hc h => exact acknowledge_rowStep hc h hm hm'
  | connectionsReset stamp h =>
    subst h
    unfold resetReleaseInstanceConnections at hm'
    rw [Table.get_updateWhere, hm, Option.map_some, Option.some.injEq] at hm'
    · rw [← hm']
      split
      · exact RowStep.connection _ _ _ _
      · exact RowStep.same
    · exact fun _ => rfl

/-! ## 台帳の変わり方 -/

theorem acknowledge_events_of_ne {rq : Request} {ref : ReleaseSessionRef}
    {ack : ReleaseAcknowledgement} {r : ReleaseAcknowledgementResult}
    (h : reduceReleaseSessionAcknowledgement rq s ref ack = .ok (r, s'))
    (hne : ref.sessionID ≠ e.sessionID) : e ∈ s'.sessionEvents ↔ e ∈ s.sessionEvents := by
  obtain ⟨m, m', ⟨htx, _⟩, hred⟩ := reduce_ok_cases h
  obtain ⟨_, _, _, hid, _⟩ := sessionTx_ok htx
  rcases reduceTx_ok_cases hred with ⟨_, _, rfl, _⟩ | ⟨_, _, t, ht, _, _, rfl⟩
  · exact Iff.rfl
  · have hsame := (recordAttempt_sameAssignment m ack).trans (recordApplied_sameAssignment _ ack)
    show e ∈ (expireEvents _ t).2 ↔ _
    rw [mem_expireEvents_of_ne, Table.mem_insert? ht]
    · refine or_iff_left ?_
      rintro rfl
      exact hne hid.symm
    · rw [hsame.sessionID, hid]
      exact hne.symm

theorem SessionEffect.events_subset (h : SessionEffect s c s') (he : e ∈ s'.sessionEvents)
    (hack : ∀ ref ack, c.op = .acknowledge ref ack → ref.sessionID ≠ e.sessionID) :
    e ∈ s.sessionEvents := by
  cases h with
  | neutral h =>
    rw [h.sessionEvents] at he
    exact he
  | namespaceDeleted id a es r k w n h | sessionsPruned before h =>
    subst h
    exact (Table.mem_deleteWhere.mp he).1
  | acknowledged ref ack r hc h => exact (acknowledge_events_of_ne h (hack ref ack hc)).mp he
  | _ =>
    rename_i h
    subst h
    exact he

theorem SessionEffect.events_keep (h : SessionEffect s c s') (he : e ∈ s.sessionEvents)
    (hm' : s'.sessions.get e.sessionID = some m')
    (hack : ∀ ref ack, c.op = .acknowledge ref ack → ref.sessionID ≠ e.sessionID) :
    e ∈ s'.sessionEvents := by
  cases h with
  | neutral h =>
    rw [h.sessionEvents]
    exact he
  | namespaceDeleted id a es r k w n h =>
    subst h
    -- 行が残ったのだから、この session は消した namespace に属さない。
    rw [Table.get_deleteWhere, Option.filter_eq_some_iff] at hm'
    refine Table.mem_deleteWhere.mpr ⟨he, ?_⟩
    unfold sessionInNamespace
    rw [hm'.1]
    simpa using hm'.2
  | acknowledged ref ack r hc h => exact (acknowledge_events_of_ne h (hack ref ack hc)).mpr he
  | sessionsPruned before h =>
    subst h
    refine Table.mem_deleteWhere.mpr ⟨he, ?_⟩
    rw [Option.isNone_eq_false_iff]
    exact Option.isSome_of_mem hm'
  | _ =>
    rename_i h
    subst h
    exact he

/-! ## 行を失った session -/

omit [Hashing] in
theorem SessionOwned.of_keep (hown : SessionOwned s)
    (hkeep : ∀ sid, (s.sessions.get sid).isSome → (s'.sessions.get sid).isSome)
    (hevents : ∀ e ∈ s'.sessionEvents,
      e ∈ s.sessionEvents ∨ (s'.sessions.get e.sessionID).isSome)
    (hdeliveries : ∀ d ∈ s'.targetDeliveries,
      d ∈ s.targetDeliveries ∨ (s'.sessions.get d.sessionID).isSome) : SessionOwned s' where
  events := by
    intro e he
    rcases hevents e he with he | hsome
    · exact hkeep e.sessionID (hown.events e he)
    · exact hsome
  deliveries := by
    intro d hd
    rcases hdeliveries d hd with hd | hsome
    · exact hkeep d.sessionID (hown.deliveries d hd)
    · exact hsome

omit [Hashing] in
theorem isSome_get_of_not_inNamespace {id : Nat}
    (h : (s.sessions.get sid).isSome) (hns : sessionInNamespace s id sid = false) :
    ((s.sessions.deleteWhere (fun m => decide (m.track.namespaceID = id))).get sid).isSome := by
  obtain ⟨m, hm⟩ := Option.isSome_iff_exists.mp h
  unfold sessionInNamespace at hns
  rw [hm] at hns
  rw [Table.get_deleteWhere, hm]
  simpa [Option.filter] using hns

theorem SessionEffect.owned (h : SessionEffect s c s')
    (hown : SessionOwned s) : SessionOwned s' := by
  cases h with
  | neutral h =>
    refine hown.of_keep (fun sid hsid => ?_) (fun e he => Or.inl ?_) (fun d hd => Or.inl ?_)
    · rw [h.sessions]
      exact hsid
    · rw [h.sessionEvents] at he
      exact he
    · rw [h.targetDeliveries] at hd
      exact hd
  | namespaceDeleted id a es r k w n h =>
    subst h
    refine ⟨fun e he => ?_, fun d hd => ?_⟩
    · obtain ⟨he, hns⟩ := Table.mem_deleteWhere.mp he
      exact isSome_get_of_not_inNamespace (hown.events e he) hns
    · obtain ⟨hd, hns⟩ := Table.mem_deleteWhere.mp hd
      exact isSome_get_of_not_inNamespace (hown.deliveries d hd) hns
  | activated k version entry a h =>
    subst h
    exact ⟨hown.events, hown.deliveries⟩
  | deliveriesExpired p a r es _ h =>
    subst h
    exact ⟨hown.events, fun d hd => hown.deliveries d (Table.mem_deleteWhere.mp hd).1⟩
  | registered ref nsID t _ ht h =>
    subst h
    refine hown.of_keep (fun sid hsid => ?_) (fun _ => Or.inl) (fun _ => Or.inl)
    show (t.get sid).isSome
    rw [Table.get_insert? ht]
    split
    · rfl
    · exact hsid
  | connectionChanged ref m connected connection disconnectedAt htx h =>
    subst h
    exact hown.of_keep (fun _ => isSome_get_upsert) (fun _ => Or.inl) (fun _ => Or.inl)
  | resolved ref m d htx hd h =>
    subst h
    refine ⟨hown.events, fun d' hd' => ?_⟩
    rcases hd.mem hd' with hold | ⟨rfl, _⟩
    · exact hown.deliveries d' hold
    · exact isSome_of_sessionTx htx
  | pinChanged ref m version actor entry audits d htx hne hd h =>
    subst h
    refine hown.of_keep (fun _ => isSome_get_upsert) (fun _ => Or.inl) (fun d' hd' => ?_)
    rcases hd.mem hd' with hold | ⟨rfl, _⟩
    · exact Or.inl hold
    · have hsome := isSome_of_sessionTx htx
      exact Or.inr (isSome_get_upsert hsome)
  | acknowledged ref ack r hc h =>
    obtain ⟨m, m', ⟨htx, _⟩, hred⟩ := reduce_ok_cases h
    obtain ⟨_, _, hget, hid, _⟩ := sessionTx_ok htx
    rcases reduceTx_ok_cases hred with ⟨_, rfl, rfl, _⟩ | ⟨_, _, t, _, _, rfl, rfl⟩
    · exact hown.of_keep (fun _ => isSome_get_upsert) (fun _ => Or.inl) (fun _ => Or.inl)
    · refine hown.of_keep (fun _ => isSome_get_upsert) (fun e he => ?_) (fun _ => Or.inl)
      by_cases hsid : ref.sessionID = e.sessionID
      · refine Or.inr (isSome_get_upsert ?_)
        rw [← hsid, hget]
        rfl
      · exact Or.inl ((acknowledge_events_of_ne h hsid).mp he)
  | sessionsPruned before h =>
    subst h
    refine ⟨fun e he => ?_, fun d hd => ?_⟩
    · exact Option.isNone_eq_false_iff.mp (Table.mem_deleteWhere.mp he).2
    · exact Option.isNone_eq_false_iff.mp (Table.mem_deleteWhere.mp hd).2
  | connectionsReset stamp h =>
    subst h
    refine hown.of_keep (fun sid hsid => ?_) (fun _ => Or.inl) (fun _ => Or.inl)
    unfold resetReleaseInstanceConnections
    rw [Table.get_updateWhere, Option.isSome_map]
    · exact hsid
    · exact fun _ => rfl

end

end Kms.Storage
