import Kms.Storage.Authority

/-!
# target revision は一つの target を表し続ける

target revision は、pin されている間は pin revision、pin が無ければ pin revision と activation revision の
大きい方である。どちらの revision も change log の採番から来るので、割り当てが変わるたびに、それまでに
使われたどの revision よりも大きくなる。

* `targetLe_step` — 割り当ては、同じままか、revision が増えるかである
* `identifies_step` — 一度渡した target の revision は、その後も他の target を表さない
* `target_revision_identifies` — 主定理
-/

namespace Kms.Storage

open Kms.Infra

/-! ## target の順序 -/

/-- 同じ target か、revision が増えている。 -/
def TargetLe (t t' : Target) : Prop := t.revision < t'.revision ∨ t = t'

theorem TargetLe.refl (t : Target) : TargetLe t t := Or.inr rfl

theorem TargetLe.trans {a b c : Target} (h : TargetLe a b) (h' : TargetLe b c) : TargetLe a c := by
  rcases h with h | rfl
  · rcases h' with h' | rfl
    · exact Or.inl (h.trans h')
    · exact Or.inl h
  · exact h'

theorem TargetLe.revision_le {t t' : Target} (h : TargetLe t t') : t.revision ≤ t'.revision := by
  rcases h with h | rfl
  · exact h.le
  · exact le_rfl

theorem TargetLe.eq_of_revision_eq {t t' : Target} (h : TargetLe t t')
    (he : t'.revision = t.revision) : t = t' := by
  rcases h with h | rfl
  · exact absurd he (Nat.ne_of_gt h)
  · rfl

def deliveredTarget (d : ReleaseTargetDeliveryModel) : Target :=
  ⟨d.revision, d.version, d.activationRevision⟩

/-! ## 割り当ての一歩 -/

variable {s : Store} {m : ReleaseSessionModel}

theorem assignedTarget_congr {s' : Store} {m' : ReleaseSessionModel} (hrow : SameAssignment m m')
    (hlabel : s'.releaseLabels.get (m.track, .current) = s.releaseLabels.get (m.track, .current)) :
    assignedTarget s' m' = assignedTarget s m := by
  unfold assignedTarget
  rw [hrow.pinVersion, hrow.pinRevision, hrow.track, hlabel]

/-- revision は全て change log の採番から来る。 -/
structure RevisionInv (s : Store) : Prop where
  pin : ∀ m ∈ s.sessions, m.pinRevision ≤ s.changeLog.seq
  label : ∀ l ∈ s.releaseLabels, l.activationRevision ≤ s.changeLog.seq

theorem revisionInv_empty : RevisionInv Store.empty where
  pin := fun m hm => absurd hm (Table.not_mem_empty m)
  label := fun l hl => absurd hl (Table.not_mem_empty l)

theorem assignedTarget_revision_le (hinv : RevisionInv s)
    (hm : m ∈ s.sessions) : (assignedTarget s m).revision ≤ s.changeLog.seq := by
  unfold assignedTarget
  split
  · exact hinv.pin m hm
  · cases hl : s.releaseLabels.get (m.track, .current) with
    | none => exact hinv.pin m hm
    | some l => exact Nat.max_le.mpr ⟨hinv.pin m hm, hinv.label l (Table.mem_of_get hl)⟩

theorem assignedTarget_repinned_revision (hinv : RevisionInv s)
    (m : ReleaseSessionModel) (version : Nat) (actor : String) (now : Time) :
    (assignedTarget s (repinned m version (s.changeLog.seq + 1) actor now)).revision =
      s.changeLog.seq + 1 := by
  unfold assignedTarget
  split
  · rfl
  · cases hl : s.releaseLabels.get
      ((repinned m version (s.changeLog.seq + 1) actor now).track, .current) with
    | none => rfl
    | some l =>
      have hle := hinv.label l (Table.mem_of_get hl)
      exact Nat.max_eq_left (Nat.le_succ_of_le hle)

theorem get_activatedLabels_current (s : Store) (k k' : TrackKey) (version rev : Nat) :
    (activatedLabels s k version rev).get (k', .current) =
      if k = k' then some ⟨k, .current, version, rev⟩ else s.releaseLabels.get (k', .current) := by
  have hprev : ∀ (l : ConfigurationReleaseLabelModel), l.key = (k, .previous) →
      (s.releaseLabels.upsert l).get (k', .current) = s.releaseLabels.get (k', .current) := by
    intro l hl
    rw [Table.get_upsert, if_neg]
    rw [hl]
    simp
  unfold activatedLabels
  rw [Table.get_upsert]
  by_cases hk : k = k'
  · rw [if_pos hk, if_pos (by rw [hk]; rfl)]
  · rw [if_neg hk, if_neg (fun h => hk (congrArg Prod.fst h))]
    split
    · exact hprev _ rfl
    · rfl

theorem mem_activatedLabels {k : TrackKey} {version rev : Nat}
    {l : ConfigurationReleaseLabelModel} (hl : l ∈ activatedLabels s k version rev) :
    l = ⟨k, .current, version, rev⟩ ∨
      l = ⟨k, .previous, currentVersion s k, currentActivation s k⟩ ∨ l ∈ s.releaseLabels := by
  unfold activatedLabels at hl
  rcases Table.mem_upsert.mp hl with rfl | ⟨hl, _⟩
  · exact Or.inl rfl
  · split at hl
    · rcases Table.mem_upsert.mp hl with rfl | ⟨hl, _⟩
      · exact Or.inr (Or.inl rfl)
      · exact Or.inr (Or.inr hl)
    · exact Or.inr (Or.inr hl)

theorem currentActivation_le (hinv : RevisionInv s) (k : TrackKey) :
    currentActivation s k ≤ s.changeLog.seq := by
  unfold currentActivation
  cases hl : s.releaseLabels.get (k, .current) with
  | none => exact Nat.zero_le _
  | some l => exact hinv.label l (Table.mem_of_get hl)

theorem get_of_get_upsert {rq : Request} {ref : ReleaseSessionRef}
    {r : ReleaseSessionModel} {sid : String} (htx : sessionTx rq s ref = .ok m)
    (h : ((s.sessions.upsert r).get sid).isSome) (hr : r.sessionID = m.sessionID) :
    (s.sessions.get sid).isSome := by
  by_cases hsid : r.sessionID = sid
  · rw [← hsid, hr]
    exact isSome_of_sessionTx htx
  · rw [Table.get_upsert, if_neg hsid] at h
    exact h

section

variable [Hashing]

variable {rq : Request} {s s' : Store} {ref : ReleaseSessionRef} {c : Call} {sid : String}
  {m m' : ReleaseSessionModel}

theorem SessionEffect.logStep (h : SessionEffect s c s') : LogStep s.changeLog s'.changeLog := by
  cases h with
  | neutral h => exact h.changeLog
  | activated _ _ _ _ h | pinChanged _ _ _ _ _ _ _ _ _ _ h => exact h ▸ .appended _ _ _
  | acknowledged ref ack r _ h =>
    obtain ⟨_, _, _, _, _, rfl⟩ := acknowledge_frame h
    exact .same
  | _ =>
    rename_i h
    exact h ▸ .same

theorem SessionEffect.seq_le (h : SessionEffect s c s') : s.changeLog.seq ≤ s'.changeLog.seq :=
  h.logStep.seq_le

theorem SessionEffect.row_origin (h : SessionEffect s c s')
    {m' : ReleaseSessionModel} (hm' : s'.sessions.get sid = some m') :
    (s.sessions.get sid).isSome ∨ ∃ ref nsID, (∃ resume, c.op = .registerSession ref resume) ∧
      m' = newSession ref nsID c.rq.now := by
  have hsome : (s'.sessions.get sid).isSome := by
    rw [hm']
    rfl
  cases h with
  | neutral h =>
    rw [h.sessions] at hsome
    exact Or.inl hsome
  | namespaceDeleted id a es r k w n h =>
    subst h
    rw [Table.get_deleteWhere, Option.filter_eq_some_iff] at hm'
    exact Or.inl (Option.isSome_of_mem hm'.1)
  | activated k version entry a h | deliveriesExpired p a r es _ h | resolved ref m d htx hd h =>
    subst h
    exact Or.inl hsome
  | registered ref nsID t hc ht h =>
    subst h
    have hget : t.get sid = some m' := hm'
    rw [Table.get_insert? ht] at hget
    split at hget
    · cases hget
      exact Or.inr ⟨ref, nsID, hc, rfl⟩
    · exact Or.inl (Option.isSome_of_mem hget)
  | connectionChanged ref m connected connection disconnectedAt htx h
  | pinChanged ref m version actor entry audits d htx hne hd h =>
    subst h
    exact Or.inl (get_of_get_upsert htx hsome rfl)
  | acknowledged ref ack r hc h =>
    obtain ⟨m, m₁, _, htx, hrow, rfl⟩ := acknowledge_frame h
    exact Or.inl (get_of_get_upsert htx hsome hrow.sessionID)
  | sessionsPruned before h =>
    subst h
    have hget := hm'
    unfold pruneReleaseSessions at hget
    rw [Table.get_deleteWhere, Option.filter_eq_some_iff] at hget
    exact Or.inl (Option.isSome_of_mem hget.1)
  | connectionsReset stamp h =>
    subst h
    unfold resetReleaseInstanceConnections at hsome
    rw [Table.get_updateWhere, Option.isSome_map] at hsome
    · exact Or.inl hsome
    · exact fun _ => rfl

theorem SessionEffect.currentLabel (h : SessionEffect s c s')
    {m' : ReleaseSessionModel} (hm' : s'.sessions.get sid = some m') :
    s'.releaseLabels.get (m'.track, .current) = s.releaseLabels.get (m'.track, .current) ∨
      (s'.sessions = s.sessions ∧ ∃ version, s'.releaseLabels.get (m'.track, .current) =
        some ⟨m'.track, .current, version, s.changeLog.seq + 1⟩) := by
  cases h with
  | neutral h => exact Or.inl (by rw [h.releaseLabels])
  | namespaceDeleted id a es r k w n h =>
    subst h
    rw [Table.get_deleteWhere, Option.filter_eq_some_iff] at hm'
    refine Or.inl ?_
    rw [Table.get_deleteWhere]
    cases hl : s.releaseLabels.get (m'.track, .current) with
    | none => rfl
    | some l =>
      -- 行が残ったのだから、その系列の label も残る。
      have hk : l.track = m'.track := congrArg Prod.fst (Table.key_of_get hl)
      have hns := hm'.2
      rw [← hk] at hns
      exact Option.filter_some_pos hns
  | activated k version entry a h =>
    subst h
    show (activatedLabels s k version _).get _ = _ ∨ _
    by_cases hk : k = m'.track
    · refine Or.inr ⟨rfl, version, ?_⟩
      rw [get_activatedLabels_current, if_pos hk, hk]
    · exact Or.inl (by rw [get_activatedLabels_current, if_neg hk])
  | acknowledged ref ack r _ h =>
    obtain ⟨_, _, _, _, _, rfl⟩ := acknowledge_frame h
    exact Or.inl rfl
  | sessionsPruned before h | connectionsReset stamp h =>
    subst h
    exact Or.inl rfl
  | _ =>
    rename_i h
    exact Or.inl (by rw [h])

theorem SessionEffect.label_le (h : SessionEffect s c s')
    (hinv : RevisionInv s) {l : ConfigurationReleaseLabelModel} (hl : l ∈ s'.releaseLabels) :
    l.activationRevision ≤ s'.changeLog.seq := by
  have hle := h.seq_le
  have hold : l ∈ s.releaseLabels → l.activationRevision ≤ s'.changeLog.seq :=
    fun hl => Nat.le_trans (hinv.label l hl) hle
  cases h with
  | neutral h =>
    rw [h.releaseLabels] at hl
    exact hold hl
  | namespaceDeleted id a es r k w n h =>
    subst h
    exact hold (Table.mem_deleteWhere.mp hl).1
  | activated k version entry a h =>
    subst h
    rcases mem_activatedLabels hl with rfl | rfl | hl
    · exact le_rfl
    · exact Nat.le_trans (currentActivation_le hinv k) hle
    · exact hold hl
  | acknowledged ref ack r _ h =>
    obtain ⟨_, _, _, _, _, rfl⟩ := acknowledge_frame h
    exact hold hl
  | _ =>
    rename_i h
    subst h
    exact hold hl

theorem revisionInv_step (s : Store) (c : Call) (hinv : RevisionInv s) :
    RevisionInv (step s c) where
  label := fun _ hl => (step_sessionEffect rfl).label_le hinv hl
  pin := by
    intro m' hm'
    have heff := step_sessionEffect (s := s) (c := c) rfl
    have hget' := Table.get_of_mem hm'
    rcases heff.row_origin hget' with hsome | ⟨ref, nsID, _, rfl⟩
    · obtain ⟨m, hm⟩ := Option.isSome_iff_exists.mp hsome
      have hle := Nat.le_trans (hinv.pin m (Table.mem_of_get hm)) heff.seq_le
      cases heff.rowStep hm hget' with
      | same | connection => exact hle
      | repin version actor _ _ hseq =>
        rw [hseq]
        exact le_rfl
      | acknowledged ref ack _ _ _ hrow =>
        rw [hrow.pinRevision]
        exact hle
    · exact Nat.zero_le _

theorem targetLe_step (hinv : RevisionInv s) (hm : s.sessions.get sid = some m)
    (hm' : (step s c).sessions.get sid = some m') :
    TargetLe (assignedTarget s m) (assignedTarget (step s c) m') := by
  have heff := step_sessionEffect (s := s) (c := c) rfl
  have hold := assignedTarget_revision_le hinv (Table.mem_of_get hm)
  rcases heff.currentLabel hm' with hlabel | ⟨hsess, version, hlabel⟩
  · have hsame : SameAssignment m m' →
        TargetLe (assignedTarget s m) (assignedTarget (step s c) m') := by
      intro hrow
      rw [hrow.track] at hlabel
      exact Or.inr (assignedTarget_congr hrow hlabel).symm
    cases heff.rowStep hm hm' with
    | same | connection => exact hsame ⟨rfl, rfl, rfl, rfl⟩
    | repin version actor _ hlabels _ =>
      have hnew : assignedTarget (step s c)
            (repinned m version (s.changeLog.seq + 1) actor c.rq.now) =
          assignedTarget s (repinned m version (s.changeLog.seq + 1) actor c.rq.now) :=
        assignedTarget_congr ⟨rfl, rfl, rfl, rfl⟩ (by rw [hlabels])
      refine Or.inl ?_
      rw [hnew, assignedTarget_repinned_revision hinv]
      exact Nat.lt_succ_of_le hold
    | acknowledged ref ack _ _ _ hrow => exact hsame hrow
  · rw [hsess, hm] at hm'
    cases hm'
    by_cases hpin : m.pinVersion ≠ 0
    · refine Or.inr ?_
      unfold assignedTarget
      rw [if_pos hpin, if_pos hpin]
    · refine Or.inl (hold.trans_lt ?_)
      have hnew : assignedTarget (step s c) m =
          ⟨max m.pinRevision (s.changeLog.seq + 1), version, s.changeLog.seq + 1⟩ := by
        unfold assignedTarget
        rw [if_neg hpin, hlabel]
      rw [hnew]
      exact Nat.lt_of_lt_of_le (Nat.lt_succ_self _) (Nat.le_max_right ..)

/-! ## delivery の行 -/

theorem SessionEffect.delivered (h : SessionEffect s c s')
    {d : ReleaseTargetDeliveryModel} (hd : d ∈ s'.targetDeliveries) :
    d ∈ s.targetDeliveries ∨ ∃ m', s'.sessions.get d.sessionID = some m' ∧
      deliveredTarget d = assignedTarget s' m' ∧ d.version ≠ 0 := by
  cases h with
  | neutral h =>
    rw [h.targetDeliveries] at hd
    exact Or.inl hd
  | namespaceDeleted id a es r k w n h | deliveriesExpired p _ _ _ _ h | sessionsPruned before h =>
    subst h
    exact Or.inl (Table.mem_deleteWhere.mp hd).1
  | resolved ref m t htx ht h =>
    subst h
    rcases ht.mem hd with hold | ⟨rfl, hv⟩
    · exact Or.inl hold
    · obtain ⟨_, _, hget, hid, _⟩ := sessionTx_ok htx
      rw [← hid] at hget
      exact Or.inr ⟨m, hget, rfl, hv⟩
  | pinChanged ref m version actor entry audits t htx hne ht h =>
    subst h
    rcases ht.mem hd with hold | ⟨rfl, hv⟩
    · exact Or.inl hold
    · refine Or.inr ⟨_, ?_, rfl, hv⟩
      rw [Table.get_upsert]
      exact if_pos rfl
  | acknowledged ref ack r _ h =>
    obtain ⟨_, _, _, _, _, rfl⟩ := acknowledge_frame h
    exact Or.inl hd
  | _ =>
    rename_i h
    subst h
    exact Or.inl hd

/-- 記録された target は、今の割り当てと同じか、それより古い。 -/
structure DeliveryInv (s : Store) : Prop where
  revision : RevisionInv s
  owned : SessionOwned s
  le : ∀ d ∈ s.targetDeliveries, ∀ m, s.sessions.get d.sessionID = some m →
    TargetLe (deliveredTarget d) (assignedTarget s m)

omit [Hashing] in
theorem deliveryInv_empty : DeliveryInv Store.empty where
  revision := revisionInv_empty
  owned := ledgerInv_empty.owned
  le := fun d hd => absurd hd (Table.not_mem_empty d)

theorem deliveryInv_step (s : Store) (c : Call) (hinv : DeliveryInv s) :
    DeliveryInv (step s c) where
  revision := revisionInv_step s c hinv.revision
  owned := (step_sessionEffect rfl).owned hinv.owned
  le := by
    intro d hd m' hm'
    rcases (step_sessionEffect rfl).delivered hd with hold | ⟨m₁, hm₁, heq, _⟩
    · obtain ⟨m, hm⟩ := Option.isSome_iff_exists.mp (hinv.owned.deliveries d hold)
      exact (hinv.le d hold m hm).trans (targetLe_step hinv.revision hm hm')
    · rw [hm'] at hm₁
      cases hm₁
      exact Or.inr heq

theorem deliveryInv_run (cs : List Call) : DeliveryInv (run step Store.empty cs) :=
  run_invariant deliveryInv_step deliveryInv_empty cs

/-! ## 渡した target の識別 -/

/-- 渡した target `t` の revision が、session の割り当てと delivery の行の中で `t` だけを表す。 -/
def Identifies (sid : String) (t : Target) (s : Store) : Prop :=
  ∃ m, s.sessions.get sid = some m ∧ TargetLe t (assignedTarget s m) ∧
    ∀ d ∈ s.targetDeliveries, d.sessionID = sid → d.revision = t.revision → deliveredTarget d = t

omit [Hashing] in
theorem identifies_assigned (hinv : DeliveryInv s) (hm : s.sessions.get sid = some m) :
    Identifies sid (assignedTarget s m) s := by
  refine ⟨m, hm, TargetLe.refl _, ?_⟩
  rintro d hd rfl hrev
  exact (hinv.le d hd m hm).eq_of_revision_eq hrev.symm

theorem identifies_step {t : Target} (hinv : DeliveryInv s)
    (halive : SessionAlive sid (step s c)) (h : Identifies sid t s) :
    Identifies sid t (step s c) := by
  obtain ⟨m, hm, hle, hrows⟩ := h
  obtain ⟨m', hm'⟩ := Option.isSome_iff_exists.mp halive
  have hle' := hle.trans (targetLe_step hinv.revision hm hm')
  refine ⟨m', hm', hle', ?_⟩
  rintro d hd rfl hrev
  rcases (step_sessionEffect rfl).delivered hd with hold | ⟨m₁, hm₁, heq, _⟩
  · exact hrows d hold rfl hrev
  · -- 新しい行は今の割り当てである。revision が `t` と同じなら、割り当ては `t` そのものである。
    rw [hm'] at hm₁
    cases hm₁
    have hrev' : (assignedTarget (step s c) m').revision = t.revision := by
      rw [← heq]
      exact hrev
    rw [heq]
    exact (hle'.eq_of_revision_eq hrev').symm

theorem identifies_run {cs : List Call} {t : Target}
    (hinv : DeliveryInv s) (halive : Along step (SessionAlive sid) s cs)
    (h : Identifies sid t s) : Identifies sid t (run step s cs) :=
  run_rel (I := DeliveryInv) (R := fun s s' => Identifies sid t s → Identifies sid t s')
    (fun _ h => h) (fun _ _ _ hab hbc h => hbc (hab h)) deliveryInv_step
    (fun _ _ hinv _ hafter h => identifies_step hinv hafter h) hinv halive h

/-- session の target を解決する呼び出し。`SetReleasePin` も最後に解決する。 -/
def Resolves (c : Call) (sid : String) : Prop :=
  ∃ ref : ReleaseSessionRef, ref.sessionID = sid ∧
    (c.op = .resolveInstance ref ∨ ∃ version expected actor,
      c.op = .setPin ref version expected actor)

omit [Hashing] in
theorem resolveInstanceTx_assigned {out : InstanceReleaseTarget}
    (h : resolveInstanceTx rq s ref m = .ok (out, s')) :
    resolvedTarget out = assignedTarget s' m ∧ s'.sessions = s.sessions ∧
      ((resolvedTarget out).version ≠ 0 →
        ∃ d, s'.targetDeliveries.get (m.sessionID, out.targetRevision) = some d) := by
  obtain ⟨htarget, ⟨hv, rfl⟩ | ⟨_, rfl⟩⟩ := resolveInstanceTx_ok_cases h
  · rw [htarget]
    exact ⟨rfl, rfl, fun hne => absurd hv hne⟩
  · refine ⟨htarget, rfl, fun _ => ?_⟩
    have hrev : out.targetRevision = (assignedTarget s m).revision :=
      congrArg Target.revision htarget
    refine Option.isSome_iff_exists.mp ?_
    rw [hrev, Table.get_insertIgnore]
    split
    · rfl
    · next hne => exact absurd rfl hne

/-- 解決が返した target は、その transaction の後の割り当てであり、release があれば記録も同じである。 -/
theorem resolves_assigned {t : InstanceReleaseTarget}
    (hinv : DeliveryInv s) (hc : Resolves c sid) (hout : (exec s c).1 = .target t) :
    ∃ m', (step s c).sessions.get sid = some m' ∧
      resolvedTarget t = assignedTarget (step s c) m' ∧
      ((resolvedTarget t).version ≠ 0 →
        ∃ d, (step s c).targetDeliveries.get (sid, t.targetRevision) = some d ∧
          deliveredTarget d = resolvedTarget t) := by
  have hinv' := deliveryInv_step s c hinv
  -- 行と delivery の存在だけ言えば、一致は不変条件から出る。
  have hfinish : ∀ m' : ReleaseSessionModel, m'.sessionID = sid →
      (step s c).sessions.get sid = some m' → resolvedTarget t = assignedTarget (step s c) m' →
      ((resolvedTarget t).version ≠ 0 →
        ∃ d, (step s c).targetDeliveries.get (m'.sessionID, t.targetRevision) = some d) →
      ∃ m', (step s c).sessions.get sid = some m' ∧
        resolvedTarget t = assignedTarget (step s c) m' ∧
        ((resolvedTarget t).version ≠ 0 →
          ∃ d, (step s c).targetDeliveries.get (sid, t.targetRevision) = some d ∧
            deliveredTarget d = resolvedTarget t) := by
    intro m' hid hm' htarget hrow
    refine ⟨m', hm', htarget, fun hv => ?_⟩
    obtain ⟨d, hd⟩ := hrow hv
    rw [hid] at hd
    have hkey := Table.key_of_get hd
    have hsid : d.sessionID = sid := congrArg Prod.fst hkey
    have hrev : d.revision = t.targetRevision := congrArg Prod.snd hkey
    refine ⟨d, hd, ?_⟩
    rw [htarget]
    refine (hinv'.le d (Table.mem_of_get hd) m' (by rw [hsid]; exact hm')).eq_of_revision_eq ?_
    rw [← htarget]
    exact hrev.symm
  obtain ⟨rq, op⟩ := c
  obtain ⟨ref, href, rfl | ⟨version, expected, actor, rfl⟩⟩ := hc
  · have h := commit_target hout
    simp only [resolveInstanceRelease, bind_eq_ok_iff] at h
    obtain ⟨m, htx, hres⟩ := h
    obtain ⟨_, _, hget, hid, _⟩ := sessionTx_ok htx
    obtain ⟨htarget, hsess, hrow⟩ := resolveInstanceTx_assigned hres
    refine hfinish m (hid.trans href) ?_ htarget hrow
    rw [← href, ← hget]
    exact congrArg (fun t => t.get ref.sessionID) hsess
  · obtain ⟨m, htx, _, ⟨_, hres⟩ | ⟨_, _, _, hres⟩⟩ := setReleasePin_ok_cases (commit_target hout)
    · obtain ⟨_, _, hget, hid, _⟩ := sessionTx_ok htx
      obtain ⟨htarget, hsess, hrow⟩ := resolveInstanceTx_assigned hres
      refine hfinish m (hid.trans href) ?_ htarget hrow
      rw [← href, ← hget]
      exact congrArg (fun t => t.get ref.sessionID) hsess
    · obtain ⟨_, _, _, hid, _⟩ := sessionTx_ok htx
      obtain ⟨htarget, hsess, hrow⟩ := resolveInstanceTx_assigned hres
      refine hfinish (repinned m version (s.changeLog.seq + 1) actor rq.now) (hid.trans href) ?_
        htarget hrow
      refine (congrArg (fun t => t.get sid) hsess).trans ?_
      show (s.sessions.upsert _).get sid = _
      rw [Table.get_upsert]
      exact if_pos (hid.trans href)

theorem acknowledge_mismatch {ack : ReleaseAcknowledgement} {r : ReleaseAcknowledgementResult}
    (hout : (exec s ⟨rq, .acknowledge ref ack⟩).1 = .acknowledgementFailed r
      (.failedPrecondition "acknowledgement does not match assigned target")) :
    ∃ d, s.targetDeliveries.get (ref.sessionID, ack.targetRevision) = some d ∧
      ¬ (d.version = ack.releaseVersion ∧ d.activationRevision = ack.activationRevision) := by
  cases hred : reduceReleaseSessionAcknowledgement rq s ref ack with
  | ok p =>
    simp only [exec, hred] at hout
    cases hout
  | error p =>
    simp only [exec, hred] at hout
    injection hout with hr he
    unfold reduceReleaseSessionAcknowledgement at hred
    cases htx : sessionTx rq s ref with
    | error e =>
      simp only [htx] at hred
      cases hred
      exact absurd he (sessionTx_error_ne htx)
    | ok m =>
      obtain ⟨_, _, _, hid, _⟩ := sessionTx_ok htx
      simp only [htx] at hred
      split at hred
      · cases hred
        simp [Err.aborted, Err.failedPrecondition] at he
      · cases htxr : reduceTx rq s m ack with
        | ok q =>
          simp only [htxr] at hred
          cases hred
        | error q =>
          simp only [htxr] at hred
          cases hred
          rcases reduceTx_error_cases htxr with ⟨_, _, hq⟩ | ⟨_, _, hq⟩ | ⟨_, hq⟩ | ⟨_, _, hrow⟩
          · simp [hq, Err.failedPrecondition] at he
          · simp [hq, unconvertibleSequence, Err.failedPrecondition] at he
          · simp [hq, Err.failedPrecondition] at he
          · rw [← hid]
            exact hrow he

/-! ## 主定理 -/

theorem identifies_resolved {hist cs : List Call} {c₁ : Call} {t₁ : InstanceReleaseTarget}
    (hc₁ : Resolves c₁ sid) (hout₁ : (exec (run step Store.empty hist) c₁).1 = .target t₁)
    (halive : Along step (SessionAlive sid) (run step Store.empty (hist ++ [c₁])) cs) :
    Identifies sid (resolvedTarget t₁) (run step Store.empty (hist ++ [c₁] ++ cs)) := by
  have hinv := deliveryInv_run hist
  obtain ⟨m₁, hm₁, htarget₁, -⟩ := resolves_assigned hinv hc₁ hout₁
  have hstart := identifies_assigned (deliveryInv_step _ c₁ hinv) hm₁
  have hstep : run step Store.empty (hist ++ [c₁]) = step (run step Store.empty hist) c₁ :=
    run_append ..
  rw [← htarget₁, ← hstep] at hstart
  rw [run_append step Store.empty (hist ++ [c₁]) cs]
  exact identifies_run (deliveryInv_run _) halive hstart

theorem Identifies.le_resolved {t : Target} {t₂ : InstanceReleaseTarget} (h : Identifies sid t s)
    (hinv : DeliveryInv s) (hc : Resolves c sid) (hout : (exec s c).1 = .target t₂) :
    TargetLe t (resolvedTarget t₂) := by
  obtain ⟨m₂, hm₂, htarget₂, -⟩ := resolves_assigned hinv hc hout
  obtain ⟨m, hm, hle, -⟩ := identifies_step hinv (Option.isSome_of_mem hm₂) h
  rw [hm₂] at hm
  cases hm
  rwa [← htarget₂] at hle

/--
空の store からの任意の run `hist` の後に呼び出し `c₁` が session の target `t₁` を返したとする。その後
session の行が生きている限り、

* 任意の run `cs` を挟んで `c₂` が target `t₂` を返すなら、revision は減らず、同じ revision なら
  version と activation revision も同じである
* release のある `t₁` の delivery の行は、`t₁` をそのまま記録している
* `t₁` をそのまま返す acknowledgement は、割り当てとの不一致では拒否されない
-/
theorem target_revision_identifies (hist cs : List Call) (c₁ : Call) (sid : String)
    (t₁ : InstanceReleaseTarget) (hc₁ : Resolves c₁ sid)
    (hout₁ : (exec (run step Store.empty hist) c₁).1 = .target t₁)
    (halive : Along step (SessionAlive sid) (run step Store.empty (hist ++ [c₁])) cs) :
    (∀ c₂ t₂, Resolves c₂ sid →
        (exec (run step Store.empty (hist ++ [c₁] ++ cs)) c₂).1 = .target t₂ →
        t₁.targetRevision ≤ t₂.targetRevision ∧
          (t₁.targetRevision = t₂.targetRevision → resolvedTarget t₁ = resolvedTarget t₂)) ∧
      ((resolvedTarget t₁).version ≠ 0 →
        ∃ d, (run step Store.empty (hist ++ [c₁])).targetDeliveries.get
            (sid, t₁.targetRevision) = some d ∧
          d.version = (resolvedTarget t₁).version ∧
          d.activationRevision = t₁.activationRevision) ∧
      ∀ rq ref ack r, ref.sessionID = sid →
        (⟨ack.targetRevision, ack.releaseVersion, ack.activationRevision⟩ : Target) =
          resolvedTarget t₁ →
        (exec (run step Store.empty (hist ++ [c₁] ++ cs)) ⟨rq, .acknowledge ref ack⟩).1 ≠
          .acknowledgementFailed r
            (.failedPrecondition "acknowledgement does not match assigned target") := by
  have hinv := deliveryInv_run hist
  obtain ⟨m₁, hm₁, htarget₁, hrow₁⟩ := resolves_assigned hinv hc₁ hout₁
  have hstep : run step Store.empty (hist ++ [c₁]) = step (run step Store.empty hist) c₁ :=
    run_append ..
  have hident := identifies_resolved hc₁ hout₁ halive
  refine ⟨?_, ?_, ?_⟩
  · intro c₂ t₂ hc₂ hout₂
    have hle := hident.le_resolved (deliveryInv_run _) hc₂ hout₂
    exact ⟨hle.revision_le, fun heq => hle.eq_of_revision_eq heq.symm⟩
  · intro hv
    obtain ⟨d, hd, heq⟩ := hrow₁ hv
    rw [hstep]
    exact ⟨d, hd, congrArg Target.version heq, congrArg Target.activation heq⟩
  · intro rq ref ack r href hecho hout
    obtain ⟨m, hm, _, hrows⟩ := hident
    obtain ⟨d, hd, hne⟩ := acknowledge_mismatch hout
    have hkey := Table.key_of_get hd
    have hsid : d.sessionID = sid := (congrArg Prod.fst hkey).trans href
    have hrev : d.revision = (resolvedTarget t₁).revision := by
      rw [← hecho]
      exact congrArg Prod.snd hkey
    have heq := hrows d (Table.mem_of_get hd) hsid hrev
    rw [← hecho] at heq
    exact hne ⟨congrArg Target.version heq, congrArg Target.activation heq⟩

end

section Sample

local instance sessionTargetSampleHashing : Hashing := sampleHashing

/-- 例の session に最初に渡す target。 -/
def sampleTarget : InstanceReleaseTarget where
  release := some { sampleRelease with version := 1, metadata := "\x7b\x7d", createdAt := 1 }
  targetRevision := 1
  activationRevision := 1
  pinned := false
  pinRevision := 0
  pinnedBy := ""
  pinnedAt := 0

/-- 例: 同じ release に pin すると、revision は進む。 -/
theorem target_revision_identifies_sample :
    ∃ t₂, (exec (run step Store.empty
        (sampleCalls.take 5 ++ [⟨sampleRequest, .resolveInstance sampleSession⟩] ++ []))
          ⟨sampleRequest, .setPin sampleSession 1 0 "ops"⟩).1 = .target t₂ ∧
      sampleTarget.targetRevision ≤ t₂.targetRevision := by
  have hpinned : (exec (run step Store.empty
      (sampleCalls.take 5 ++ [⟨sampleRequest, .resolveInstance sampleSession⟩] ++ []))
        ⟨sampleRequest, .setPin sampleSession 1 0 "ops"⟩).1 =
      .target { sampleTarget with
        targetRevision := 2
        activationRevision := 0
        pinned := true
        pinRevision := 2
        pinnedBy := "ops"
        pinnedAt := 1 } := by decide
  have h := (target_revision_identifies (sampleCalls.take 5) []
    ⟨sampleRequest, .resolveInstance sampleSession⟩ "session-1" sampleTarget
    ⟨sampleSession, rfl, Or.inl rfl⟩ (by decide) (show SessionAlive _ _ from by decide)).1
  exact ⟨_, hpinned, (h _ _ ⟨sampleSession, rfl, Or.inr ⟨1, 0, "ops", rfl⟩⟩ hpinned).1⟩

end Sample

end Kms.Storage
