import Kms.Storage.Protected

/-!
# 保持期限は生きた delivery を消さない

delivery の行と release の行は、別々の条件で消える。どちらの条件も、session に今割り当てている target を残す。
割り当ての revision は、pin revision か current label の activation revision であり、delivery の保持条件はその両方を
見るからである。

* `deliveryRetained_assigned` — 割り当て中の target の delivery は残す理由を持つ
* `delivery_kept_step` / `delivery_kept_run` — 割り当てが変わらない限り、delivery の行は残る
* `reduceTx_matching` — delivery の行と一致する acknowledgement への答え
* `pruning_keeps_live_delivery` — 主定理
-/

namespace Kms.Storage

open Kms.Infra

/-! ## 残す理由 -/

theorem deliveryRetained_assigned {s : Store} {m : ReleaseSessionModel}
    {d : ReleaseTargetDeliveryModel} (hm : s.sessions.get d.sessionID = some m)
    (hrev : d.revision = (assignedTarget s m).revision) : deliveryRetained s d = true := by
  have hpin : m.pinRevision = d.revision → deliveryRetained s d = true := by
    intro h
    simp [deliveryRetained, hm, h]
  unfold assignedTarget at hrev
  split at hrev
  · exact hpin hrev.symm
  · cases hl : s.releaseLabels.get (m.track, .current) with
    | none =>
      rw [hl] at hrev
      exact hpin hrev.symm
    | some l =>
      rw [hl] at hrev
      rcases Nat.le_total l.activationRevision m.pinRevision with hle | hle
      · exact hpin (hrev.trans (Nat.max_eq_left hle)).symm
      · -- activation revision の方が大きいので、current label が理由になる。
        have hact : l.activationRevision = d.revision :=
          (hrev.trans (Nat.max_eq_right hle)).symm
        have htrack : l.track = m.track := congrArg Prod.fst (Table.key_of_get hl)
        have hany : s.releaseLabels.rows.any (fun l => decide (l.track = m.track) &&
            decide (l.activationRevision = d.revision)) = true :=
          List.any_eq_true.mpr ⟨l, Table.mem_of_get hl, by simp [htrack, hact]⟩
        simp [deliveryRetained, hm, hany]

section

variable [Hashing]

/-! ## delivery の行が残ること -/

variable {s : Store} {m : ReleaseSessionModel} {sid : String}

theorem SessionEffect.delivery_kept {s' : Store} {c : Call} (h : SessionEffect s c s')
    {d : ReleaseTargetDeliveryModel} {m' : ReleaseSessionModel} (hd : d ∈ s.targetDeliveries)
    (hm : s.sessions.get d.sessionID = some m) (hm' : s'.sessions.get d.sessionID = some m')
    (hrev : d.revision = (assignedTarget s m).revision) : d ∈ s'.targetDeliveries := by
  have hdelivered : ∀ {now : Time} {m₀ : ReleaseSessionModel}
      {t : Table ReleaseTargetDeliveryModel.key}, Delivered now s m₀ t → d ∈ t := by
    rintro now m₀ t (⟨_, rfl⟩ | ⟨_, rfl⟩)
    · exact hd
    · exact Table.mem_insertIgnore.mpr (Or.inl hd)
  cases h with
  | neutral h =>
    rw [h.targetDeliveries]
    exact hd
  | namespaceDeleted id a es r k w n h =>
    subst h
    rw [Table.get_deleteWhere, Option.filter_eq_some_iff] at hm'
    refine Table.mem_deleteWhere.mpr ⟨hd, ?_⟩
    -- 行が残ったのだから、session は消した namespace のものではない。
    have hns := hm'.2
    simp only [sessionInNamespace, hm'.1]
    simpa using hns
  | deliveriesExpired p _ _ _ hp h =>
    subst h
    refine Table.mem_deleteWhere.mpr ⟨hd, ?_⟩
    rw [← Bool.not_eq_true]
    intro hexpired
    have hdropped := hp d hexpired
    rw [deliveryRetained_assigned hm hrev] at hdropped
    cases hdropped
  | resolved ref m₀ t htx ht h | pinChanged ref m₀ version actor entry audits t htx hne ht h =>
    subst h
    exact hdelivered ht
  | acknowledged ref ack r _ h =>
    obtain ⟨_, _, _, _, _, rfl⟩ := acknowledge_frame h
    exact hd
  | sessionsPruned before h =>
    subst h
    have hget := hm'
    unfold pruneReleaseSessions at hget ⊢
    refine Table.mem_deleteWhere.mpr ⟨hd, ?_⟩
    simp only [hget, Option.isNone_some]
  | _ =>
    rename_i h
    subst h
    exact hd

/-- 渡した target `t` は、もう割り当てではないか、delivery の行を持つ。 -/
def Backed (sid : String) (t : Target) (s : Store) : Prop :=
  ∃ m, s.sessions.get sid = some m ∧
    (t.revision < (assignedTarget s m).revision ∨
      t = assignedTarget s m ∧ ∃ d, s.targetDeliveries.get (sid, t.revision) = some d)

theorem delivery_kept_step {c : Call} {t : Target}
    (hinv : DeliveryInv s) (halive : SessionAlive sid (step s c)) (h : Backed sid t s) :
    Backed sid t (step s c) := by
  obtain ⟨m, hm, hcase⟩ := h
  obtain ⟨m', hm'⟩ := Option.isSome_iff_exists.mp halive
  have hle := targetLe_step hinv.revision hm hm'
  refine ⟨m', hm', ?_⟩
  rcases hcase with hlt | ⟨rfl, d, hd⟩
  · exact Or.inl (hlt.trans_le hle.revision_le)
  · rcases hle with hlt | heq
    · exact Or.inl hlt
    · have hkey := Table.key_of_get hd
      have hsid : d.sessionID = sid := congrArg Prod.fst hkey
      have hrev : d.revision = (assignedTarget s m).revision := congrArg Prod.snd hkey
      have hkept : d ∈ (step s c).targetDeliveries :=
        (step_sessionEffect rfl).delivery_kept (Table.mem_of_get hd) (by rw [hsid]; exact hm)
          (by rw [hsid]; exact hm') hrev
      refine Or.inr ⟨heq, d, ?_⟩
      rw [← hkey]
      exact Table.get_of_mem hkept

theorem delivery_kept_run {cs : List Call} {t : Target}
    (hinv : DeliveryInv s) (halive : Along step (SessionAlive sid) s cs) (h : Backed sid t s) :
    Backed sid t (run step s cs) :=
  run_rel (I := DeliveryInv) (R := fun s s' => Backed sid t s → Backed sid t s')
    (fun _ h => h) (fun _ _ _ hab hbc h => hbc (hab h)) deliveryInv_step
    (fun _ _ hinv _ hafter h => delivery_kept_step hinv hafter h) hinv halive h

/-- delivery の行は、release のある target だけを記録する。 -/
theorem delivery_version_run (cs : List Call) :
    ∀ d ∈ (run step Store.empty cs).targetDeliveries, d.version ≠ 0 := by
  refine run_invariant (I := fun s : Store => ∀ d ∈ s.targetDeliveries, d.version ≠ 0) ?_
    (fun d hd => absurd hd (Table.not_mem_empty d)) cs
  intro s c hall d hd
  rcases (step_sessionEffect rfl).delivered hd with hold | ⟨_, _, _, hv⟩
  · exact hall d hold
  · exact hv

theorem no_delivery_of_released {cs : List Call}
    {rev : Nat} (hm : (run step Store.empty cs).sessions.get sid = some m)
    (hv : (assignedTarget (run step Store.empty cs) m).version = 0)
    (hrev : rev = (assignedTarget (run step Store.empty cs) m).revision) :
    (run step Store.empty cs).targetDeliveries.get (sid, rev) = none := by
  rw [Option.eq_none_iff_forall_ne_some]
  intro d hd
  have hkey := Table.key_of_get hd
  have hsid : d.sessionID = sid := congrArg Prod.fst hkey
  have hsame := ((deliveryInv_run cs).le d (Table.mem_of_get hd) m
    (by rw [hsid]; exact hm)).eq_of_revision_eq (hrev.symm.trans (congrArg Prod.snd hkey).symm)
  refine delivery_version_run cs d (Table.mem_of_get hd) ?_
  rw [← hv, ← hsame]
  rfl

/-! ## acknowledgement への答え -/

/-- acknowledgement の形の検査だけに落ちる error。 -/
def malformedAcknowledgement : Err :=
  .failedPrecondition
    "release acknowledgement requires a nonzero sequence and valid lifecycle state"

/-- 同じ sequence に違う内容を送ったときの error。 -/
def conflictingAcknowledgement : Err :=
  .failedPrecondition "release acknowledgement sequence has conflicting payload"

theorem reduceTx_matching {rq : Request} {ack : ReleaseAcknowledgement} {d : Disposition} {e : Err}
    (hmatch : MatchesDelivery s m.sessionID ack) (h : reduceTx rq s m ack = .error (d, e)) :
    (¬ (ack.sequence ≠ 0 ∧ sessionStateRank ack.state ≠ 0) ∧ e = malformedAcknowledgement) ∨
      (highBit ≤ ack.sequence ∧ e = unconvertibleSequence) ∨
      (d = .conflict ∧ e = conflictingAcknowledgement) := by
  rcases reduceTx_error_cases h with ⟨hbad, _, he⟩ | ⟨hhigh, _, he⟩ | hconflict | ⟨_, hno, _⟩
  · exact Or.inl ⟨hbad, he⟩
  · exact Or.inr (Or.inl ⟨hhigh, he⟩)
  · exact Or.inr (Or.inr hconflict)
  · exact absurd hmatch hno

theorem reduceTx_available {rq : Request} {s' : Store} {m' : ReleaseSessionModel}
    {ack : ReleaseAcknowledgement} {d : Disposition}
    (h : reduceTx rq s m ack = .ok ((d, m'), s')) : d ≠ .unavailable := by
  rcases reduceTx_ok_cases h with ⟨rfl | rfl, _⟩ | ⟨_, _, _, _, rfl, _⟩
  · exact Disposition.noConfusion
  · exact Disposition.noConfusion
  · split <;> exact Disposition.noConfusion

omit [Hashing] in
theorem protected_assigned
    (hm : s.sessions.get sid = some m) (hv : (assignedTarget s m).version ≠ 0) :
    Protected s m.track (assignedTarget s m).version := by
  by_cases hpin : m.pinVersion ≠ 0
  · have heq : (assignedTarget s m).version = m.pinVersion := by rw [assignedTarget, if_pos hpin]
    rw [heq]
    exact Or.inr ⟨hpin, m, Table.mem_of_get hm, rfl, rfl⟩
  · cases hl : s.releaseLabels.get (m.track, .current) with
    | none =>
      refine absurd ?_ hv
      rw [assignedTarget, if_neg hpin, hl]
    | some l =>
      have heq : (assignedTarget s m).version = l.versionNumber := by
        rw [assignedTarget, if_neg hpin, hl]
      rw [heq]
      exact Or.inl ⟨l, Table.mem_of_get hl, congrArg Prod.fst (Table.key_of_get hl), rfl⟩

/-! ## 主定理 -/

/--
空の store からの任意の run `hist` の後に、呼び出し `c₁` が session に target `t₁` を渡したとする。その後、session の
行が生きている任意の run `cs` の後で、割り当てがまだ `t₁` なら、

* release のある `t₁` の release の行は残っていて、解決は `t₁` を返す
* 生きた接続から `t₁` をそのまま返す acknowledgement は、形の誤りか、引数にできない sequence か、同じ sequence への
  違う内容でしか拒否されず、受け付けられれば unavailable にはならない
* release の無い `t₁` には、どの時点でも delivery の行が無い
-/
theorem pruning_keeps_live_delivery (hist cs : List Call) (c₁ : Call) (sid : String)
    (t₁ : InstanceReleaseTarget) (hc₁ : Resolves c₁ sid)
    (hout₁ : (exec (run step Store.empty hist) c₁).1 = .target t₁)
    (halive : Along step (SessionAlive sid) (run step Store.empty (hist ++ [c₁])) cs)
    (rq : Request) (ref : ReleaseSessionRef) (ack : ReleaseAcknowledgement)
    (m : ReleaseSessionModel) (href : ref.sessionID = sid)
    (hlive : LiveDelivery rq (run step Store.empty (hist ++ [c₁] ++ cs)) ref ack m)
    (hecho : (⟨ack.targetRevision, ack.releaseVersion, ack.activationRevision⟩ : Target) =
      resolvedTarget t₁)
    (hstill : assignedTarget (run step Store.empty (hist ++ [c₁] ++ cs)) m = resolvedTarget t₁) :
    ((resolvedTarget t₁).version ≠ 0 →
      (∃ out s', resolveInstanceTx rq (run step Store.empty (hist ++ [c₁] ++ cs)) ref m =
          .ok (out, s') ∧ resolvedTarget out = resolvedTarget t₁ ∧ out.release.isSome) ∧
        (∀ r e, (exec (run step Store.empty (hist ++ [c₁] ++ cs)) ⟨rq, .acknowledge ref ack⟩).1 =
            .acknowledgementFailed r e →
          (¬ (ack.sequence ≠ 0 ∧ sessionStateRank ack.state ≠ 0) ∧
              e = malformedAcknowledgement) ∨
            (highBit ≤ ack.sequence ∧ e = unconvertibleSequence) ∨
            (r.disposition = .conflict ∧ e = conflictingAcknowledgement)) ∧
        ∀ r, (exec (run step Store.empty (hist ++ [c₁] ++ cs)) ⟨rq, .acknowledge ref ack⟩).1 =
            .acknowledged r → r.disposition ≠ .unavailable) ∧
      ((resolvedTarget t₁).version = 0 →
        (run step Store.empty (hist ++ [c₁])).targetDeliveries.get (sid, t₁.targetRevision) = none ∧
          (run step Store.empty (hist ++ [c₁] ++ cs)).targetDeliveries.get
            (sid, t₁.targetRevision) = none) := by
  have hinv := deliveryInv_run hist
  obtain ⟨m₁, hm₁, htarget₁, hrow₁⟩ := resolves_assigned hinv hc₁ hout₁
  have hstep : run step Store.empty (hist ++ [c₁]) = step (run step Store.empty hist) c₁ :=
    run_append ..
  rw [← hstep] at hm₁ htarget₁ hrow₁
  obtain ⟨htx, _, _⟩ := id hlive
  obtain ⟨_, _, hget, hid, _⟩ := sessionTx_ok htx
  rw [href] at hget hid
  refine ⟨fun hv => ?_, fun hv => ⟨?_, ?_⟩⟩
  · have hbacked : Backed sid (resolvedTarget t₁)
        (run step Store.empty (hist ++ [c₁] ++ cs)) := by
      rw [run_append step Store.empty (hist ++ [c₁]) cs]
      obtain ⟨d, hd, _⟩ := hrow₁ hv
      exact delivery_kept_run (deliveryInv_run _) halive ⟨m₁, hm₁, Or.inr ⟨htarget₁, d, hd⟩⟩
    have hmatch : MatchesDelivery (run step Store.empty (hist ++ [c₁] ++ cs)) m.sessionID ack := by
      obtain ⟨m', hm', hcase⟩ := hbacked
      rw [hget] at hm'
      cases hm'
      rcases hcase with hlt | ⟨_, d, hd⟩
      · rw [hstill] at hlt
        exact absurd hlt (Nat.lt_irrefl _)
      · have hdelivered : deliveredTarget d = resolvedTarget t₁ := by
          have hkey := Table.key_of_get hd
          have hsid : d.sessionID = sid := congrArg Prod.fst hkey
          rw [← hstill]
          refine ((deliveryInv_run _).le d (Table.mem_of_get hd) m
            (by rw [hsid]; exact hget)).eq_of_revision_eq ?_
          rw [hstill]
          exact (congrArg Prod.snd hkey).symm
        rw [← hecho] at hdelivered hd
        rw [hid]
        exact ⟨d, hd, congrArg Target.version hdelivered, congrArg Target.activation hdelivered⟩
    refine ⟨?_, fun r e hout => ?_, fun r hout => ?_⟩
    · rw [← hstill] at hv
      obtain ⟨r, hr, _⟩ := guarded_run guarded_empty (hist ++ [c₁] ++ cs) m.track _
        (protected_assigned hget hv)
      obtain ⟨out, s', hres, hrel⟩ := resolveInstanceTx_of_release htx hv hr
      refine ⟨out, s', hres, ?_, by rw [hrel]; rfl⟩
      rw [← hstill]
      exact (resolveInstanceTx_ok_cases hres).1
    · simp only [exec, reduce_of_live hlive] at hout
      cases hred : reduceTx rq (run step Store.empty (hist ++ [c₁] ++ cs)) m ack with
      | ok p =>
        simp only [hred] at hout
        cases hout
      | error p =>
        simp only [hred] at hout
        cases hout
        exact reduceTx_matching hmatch hred
    · simp only [exec, reduce_of_live hlive] at hout
      cases hred : reduceTx rq (run step Store.empty (hist ++ [c₁] ++ cs)) m ack with
      | ok p =>
        simp only [hred] at hout
        cases hout
        exact reduceTx_available hred
      | error p =>
        simp only [hred] at hout
        cases hout
  · exact no_delivery_of_released hm₁ (by rw [← htarget₁]; exact hv)
      (congrArg Target.revision htarget₁)
  · exact no_delivery_of_released hget (by rw [hstill]; exact hv)
      (congrArg Target.revision hstill).symm

end

section Sample

local instance retentionSampleHashing : Hashing := sampleHashing

/-- target を渡した後、期限を大きく過ぎてから保持期限が二度働く。 -/
private def sampleExpiry : List Call :=
  [⟨⟨50, fun _ => none⟩, .pruneReleases 1 1⟩, ⟨⟨90, fun _ => none⟩, .pruneReleases 1 1⟩]

private def sampleExpired : Store :=
  run step Store.empty
    (sampleCalls.take 5 ++ [⟨sampleRequest, .resolveInstance sampleSession⟩] ++ sampleExpiry)

/-- 接続中の session の行。 -/
private def sampleConnected : ReleaseSessionModel :=
  { newSession sampleSession 1 1 with
    connected := true
    connectionID := "c1"
    disconnectedAt := none }

/-- 例: 期限を過ぎた target への applied は、保持期限の後でも受け付けられる。 -/
theorem pruning_keeps_live_delivery_sample :
    ∃ r, (exec sampleExpired
        ⟨sampleRequest, .acknowledge sampleSession (sampleAck 1 .applied)⟩).1 =
      .acknowledged r ∧ r.disposition ≠ .unavailable := by
  have hlive : LiveDelivery sampleRequest sampleExpired sampleSession (sampleAck 1 .applied)
      sampleConnected := ⟨rfl, rfl, rfl⟩
  have hstill : assignedTarget sampleExpired sampleConnected = resolvedTarget sampleTarget := by
    decide
  obtain ⟨_, _, hok⟩ := (pruning_keeps_live_delivery (sampleCalls.take 5) sampleExpiry
    ⟨sampleRequest, .resolveInstance sampleSession⟩ "session-1" sampleTarget
    ⟨sampleSession, rfl, Or.inl rfl⟩ (by decide)
    ⟨show SessionAlive _ _ from by decide, show SessionAlive _ _ from by decide,
      show SessionAlive _ _ from by decide⟩
    sampleRequest sampleSession (sampleAck 1 .applied) sampleConnected rfl hlive (by decide)
    hstill).1 (by decide)
  have hrun : (exec sampleExpired
      ⟨sampleRequest, .acknowledge sampleSession (sampleAck 1 .applied)⟩).1 =
        .acknowledged ⟨.accepted, some (sessionAcknowledgement sampleSession
          { sampleConnected with
            lastAckSequence := 1
            state := .applied
            releaseVersion := 1
            targetRevision := 1
            activationRevision := 1
            lastAppliedRevision := 1
            lastAppliedSequence := 1
            lastAppliedVersion := 1 })⟩ := by decide
  exact ⟨_, hrun, hok _ hrun⟩

end Sample

end Kms.Storage
