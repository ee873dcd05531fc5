import Kms.Storage.Reducer

/-!
# acknowledgement の権威は後退しない

session の行が登録されてから消えるまで、どの transaction の列でも、二つの register の順位と
watermark は下がらない。台帳の event は 256 件以下で、全て watermark より新しい。

watermark が fingerprint の消えた sequence を代わりに覚えるので、一度台帳に載った sequence は、
消えた後も二度と accepted にならない（`recorded_inert`）。
-/

namespace Kms.Storage

open Kms.Infra

/-! ## 台帳の不変条件 -/

/-- 台帳の不変条件。 -/
structure LedgerInv (s : Store) : Prop where
  owned : SessionOwned s
  above : ∀ m ∈ s.sessions, ∀ e ∈ s.sessionEvents, e.sessionID = m.sessionID →
    m.prunedAckSequence < e.sequence
  bounded : ∀ sid, (retainedEvents s.sessionEvents sid).length ≤ releaseSessionEventRetention

theorem ledgerInv_empty : LedgerInv Store.empty where
  owned := ⟨fun e he => absurd he (Table.not_mem_empty e),
    fun d hd => absurd hd (Table.not_mem_empty d)⟩
  above := fun m hm => absurd hm (Table.not_mem_empty m)
  bounded := fun _ => Nat.zero_le _

theorem RowStep.ackFields {s s' : Store} {c : Call} {m m' : ReleaseSessionModel}
    (h : RowStep s s' c m m')
    (hack : ∀ ref ack, c.op = .acknowledge ref ack → ref.sessionID ≠ m.sessionID) :
    m'.attempt = m.attempt ∧ m'.applied = m.applied ∧
      m'.prunedAckSequence = m.prunedAckSequence := by
  cases h with
  | same | connection | repin => exact ⟨rfl, rfl, rfl⟩
  | acknowledged ref ack _ hc href _ => exact absurd href (hack ref ack hc)

section

variable [Hashing]

variable {rq : Request} {s s' : Store} {ref : ReleaseSessionRef} {ack : ReleaseAcknowledgement}
  {r : ReleaseAcknowledgementResult} {m m' : ReleaseSessionModel} {c : Call} {sid : String}
  {q : Nat}

/-- 一つの acknowledgement が、その session の行と台帳に対してすること。 -/
theorem acknowledge_cases {r : ReleaseAcknowledgementResult}
    (hm : s.sessions.get ref.sessionID = some m)
    (h : reduceReleaseSessionAcknowledgement rq s ref ack = .ok (r, s')) :
    (r.disposition ≠ .accepted ∧
        s' = { s with sessions := s.sessions.upsert { m with serverTimestamp := rq.now } } ∧
        (s.sessionEvents.get (m.sessionID, ack.sequence) ≠ none ∨
          ack.sequence ≤ m.prunedAckSequence)) ∨
      (m.prunedAckSequence < ack.sequence ∧
        ∃ t, s.sessionEvents.insert? ⟨m.sessionID, ack.sequence, acknowledgementFingerprint ack⟩ =
            some t ∧ s' = reducedStore rq s m ack t) := by
  obtain ⟨m₀, m', ⟨htx, _⟩, hred⟩ := reduce_ok_cases h
  obtain ⟨_, _, hget, _, _⟩ := sessionTx_ok htx
  rw [hm] at hget
  cases hget
  rcases reduceTx_ok_cases hred with ⟨hd, rfl, rfl, hrec⟩ | ⟨hlt, _, t, ht, _, _, rfl⟩
  · exact Or.inl ⟨by rcases hd with hd | hd <;> simp [hd], rfl, hrec⟩
  · exact Or.inr ⟨hlt, t, ht, rfl⟩

/-- 取り込みの後の台帳は、新しい event を足してから、新しい watermark 以下を落としたものである。 -/
theorem mem_reducedStore_events {t : Table ReleaseSessionEventModel.key}
    (hinv : LedgerInv s) (hm : m ∈ s.sessions) (hlt : m.prunedAckSequence < ack.sequence)
    (ht : s.sessionEvents.insert? ⟨m.sessionID, ack.sequence, acknowledgementFingerprint ack⟩ =
      some t) {e : ReleaseSessionEventModel} (he : e.sessionID = m.sessionID) :
    e ∈ (reducedStore rq s m ack t).sessionEvents ↔
      (e ∈ s.sessionEvents ∨ e = ⟨m.sessionID, ack.sequence, acknowledgementFingerprint ack⟩) ∧
        (reducedRow rq m ack t).prunedAckSequence < e.sequence := by
  have hsame := (recordAttempt_sameAssignment m ack).trans (recordApplied_sameAssignment _ ack)
  show e ∈ (expireEvents _ t).2 ↔ _
  rw [mem_expireEvents _ (he.trans hsame.sessionID.symm), Table.mem_insert? ht]
  · rfl
  · intro e' he' hsid
    rw [recordApplied_pruned, recordAttempt_pruned]
    rw [hsame.sessionID] at hsid
    rcases (Table.mem_insert? ht).mp he' with hold | rfl
    · exact hinv.above m hm e' hold hsid
    · exact hlt

/-- この session への acknowledgement であるか。 -/
def AcksSession (c : Call) (sid : String) : Prop :=
  ∃ ref ack, c.op = .acknowledge ref ack ∧ ref.sessionID = sid

omit [Hashing] in
theorem not_acksSession_iff :
    ¬ AcksSession c sid ↔ ∀ ref ack, c.op = .acknowledge ref ack → ref.sessionID ≠ sid := by
  unfold AcksSession
  push Not
  rfl

theorem acknowledge_above {r : ReleaseAcknowledgementResult}
    {e : ReleaseSessionEventModel} (hinv : LedgerInv s)
    (hm : s.sessions.get ref.sessionID = some m)
    (h : reduceReleaseSessionAcknowledgement rq s ref ack = .ok (r, s'))
    (hm' : s'.sessions.get ref.sessionID = some m') (he : e ∈ s'.sessionEvents)
    (hsid : e.sessionID = ref.sessionID) : m'.prunedAckSequence < e.sequence := by
  have hid : m.sessionID = ref.sessionID := Table.key_of_get hm
  rcases acknowledge_cases hm h with ⟨_, rfl, _⟩ | ⟨hlt, t, ht, rfl⟩
  · rw [Table.get_upsert, if_pos hid] at hm'
    cases hm'
    exact hinv.above m (Table.mem_of_get hm) e he (hsid.trans hid.symm)
  · have hrow : (reducedRow rq m ack t).sessionID = ref.sessionID :=
      (reducedRow_sameAssignment rq m ack t).sessionID.trans hid
    have hget : (s.sessions.upsert (reducedRow rq m ack t)).get ref.sessionID = some m' := hm'
    rw [Table.get_upsert, if_pos hrow] at hget
    cases hget
    exact ((mem_reducedStore_events hinv (Table.mem_of_get hm) hlt ht
      (hsid.trans hid.symm)).mp he).2

theorem acknowledge_bounded {r : ReleaseAcknowledgementResult} (hinv : LedgerInv s)
    (h : reduceReleaseSessionAcknowledgement rq s ref ack = .ok (r, s')) :
    (retainedEvents s'.sessionEvents ref.sessionID).length ≤ releaseSessionEventRetention := by
  obtain ⟨m, _, ⟨htx, _⟩, _⟩ := reduce_ok_cases h
  obtain ⟨_, _, hm, hid, _⟩ := sessionTx_ok htx
  rcases acknowledge_cases hm h with ⟨_, rfl, _⟩ | ⟨_, t, _, rfl⟩
  · exact hinv.bounded ref.sessionID
  · have hsame := (recordAttempt_sameAssignment m ack).trans (recordApplied_sameAssignment _ ack)
    have hb := expireEvents_bounded (recordApplied (recordAttempt m ack) ack) t
    rw [hsame.sessionID, hid] at hb
    exact hb

/-- 台帳の不変条件は、どの一歩でも保たれる。 -/
theorem ledgerInv_step (s : Store) (c : Call) (hinv : LedgerInv s) : LedgerInv (step s c) where
  owned := (step_sessionEffect rfl).owned hinv.owned
  above := by
    intro m' hm' e he hsid
    have heff := step_sessionEffect (s := s) (c := c) rfl
    have hget' : (step s c).sessions.get e.sessionID = some m' := by
      rw [hsid]
      exact Table.get_of_mem hm'
    by_cases hack : AcksSession c e.sessionID
    · obtain ⟨ref, ack, hc, href⟩ := hack
      obtain ⟨rq, op⟩ := c
      cases hc
      rcases step_acknowledge rfl with hs | ⟨r, h⟩
      · rw [hs] at hm' he
        exact hinv.above m' hm' e he hsid
      · obtain ⟨m, _, ⟨htx, _⟩, _⟩ := reduce_ok_cases h
        obtain ⟨_, _, hm, _, _⟩ := sessionTx_ok htx
        rw [← href] at hget'
        exact acknowledge_above hinv hm h hget' he href.symm
    · rw [not_acksSession_iff] at hack
      have he₀ := heff.events_subset he hack
      obtain ⟨m, hm⟩ := Option.isSome_iff_exists.mp (hinv.owned.events e he₀)
      have hid : m.sessionID = e.sessionID := Table.key_of_get hm
      obtain ⟨_, _, hpruned⟩ := (heff.rowStep hm hget').ackFields (by rw [hid]; exact hack)
      rw [hpruned]
      exact hinv.above m (Table.mem_of_get hm) e he₀ hid.symm
  bounded := by
    intro sid
    by_cases hack : AcksSession c sid
    · obtain ⟨ref, ack, hc, href⟩ := hack
      obtain ⟨rq, op⟩ := c
      cases hc
      rcases step_acknowledge rfl with hs | ⟨r, h⟩
      · rw [hs]
        exact hinv.bounded sid
      · rw [← href]
        exact acknowledge_bounded hinv h
    · rw [not_acksSession_iff] at hack
      refine Nat.le_trans (length_retainedEvents_le (fun e hsid he => ?_)) (hinv.bounded sid)
      rw [← hsid] at hack
      exact (step_sessionEffect rfl).events_subset he hack

theorem ledgerInv_run (cs : List Call) : LedgerInv (run step Store.empty cs) :=
  run_invariant ledgerInv_step ledgerInv_empty cs

/-! ## 後退しないこと -/

/-- 二つの register の順位と watermark が下がっていない。 -/
structure AuthorityLe (m m' : ReleaseSessionModel) : Prop where
  attempt : m.attempt.rank ≤ m'.attempt.rank
  applied : m.applied.rank ≤ m'.applied.rank
  pruned : m.prunedAckSequence ≤ m'.prunedAckSequence

omit [Hashing] in
theorem AuthorityLe.of_eq (h : m'.attempt = m.attempt ∧
    m'.applied = m.applied ∧ m'.prunedAckSequence = m.prunedAckSequence) : AuthorityLe m m' where
  attempt := le_of_eq (congrArg Attempt.rank h.1.symm)
  applied := le_of_eq (congrArg Applied.rank h.2.1.symm)
  pruned := h.2.2.symm.le

omit [Hashing] in
theorem AuthorityLe.trans {a b c : ReleaseSessionModel} (h : AuthorityLe a b)
    (h' : AuthorityLe b c) : AuthorityLe a c where
  attempt := le_trans h.attempt h'.attempt
  applied := le_trans h.applied h'.applied
  pruned := h.pruned.trans h'.pruned

omit [Hashing] in
theorem authorityLe_reducedRow (rq : Request) (m : ReleaseSessionModel)
    (ack : ReleaseAcknowledgement) (t : Table ReleaseSessionEventModel.key) :
    AuthorityLe m (reducedRow rq m ack t) where
  attempt := by
    rw [reducedRow_attempt]
    split
    · next h => exact le_of_lt h
    · exact le_refl _
  applied := by
    rw [reducedRow_applied]
    split
    · next h => exact le_of_lt h.2
    · exact le_refl _
  pruned := reducedRow_pruned_le rq m ack t

theorem authorityLe_step
    (hm : s.sessions.get sid = some m) (hm' : (step s c).sessions.get sid = some m') :
    AuthorityLe m m' := by
  have hid : m.sessionID = sid := Table.key_of_get hm
  by_cases hack : AcksSession c sid
  · obtain ⟨ref, ack, hc, rfl⟩ := hack
    obtain ⟨rq, op⟩ := c
    cases hc
    rcases step_acknowledge rfl with hs | ⟨r, h⟩
    · rw [hs, hm] at hm'
      cases hm'
      exact AuthorityLe.of_eq ⟨rfl, rfl, rfl⟩
    · rcases acknowledge_cases hm h with ⟨_, hs, _⟩ | ⟨_, t, _, hs⟩
      · rw [hs, Table.get_upsert, if_pos hid] at hm'
        cases hm'
        exact AuthorityLe.of_eq ⟨rfl, rfl, rfl⟩
      · have hrow := (reducedRow_sameAssignment rq m ack t).sessionID.trans hid
        rw [hs, reducedStore, Table.get_upsert, if_pos hrow] at hm'
        cases hm'
        exact authorityLe_reducedRow rq m ack t
  · rw [not_acksSession_iff, ← hid] at hack
    exact AuthorityLe.of_eq (((step_sessionEffect rfl).rowStep hm hm').ackFields hack)

def SessionAlive (sid : String) (s : Store) : Prop := (s.sessions.get sid).isSome

instance (sid : String) (s : Store) : Decidable (SessionAlive sid s) :=
  inferInstanceAs (Decidable (_ = true))

/-- 行が生きている run で、権威は後退しない。 -/
theorem authorityLe_run {cs : List Call}
    (hm : s.sessions.get sid = some m) (halive : Along step (SessionAlive sid) s cs) :
    ∃ m', (run step s cs).sessions.get sid = some m' ∧ AuthorityLe m m' := by
  refine run_rel (I := fun _ => True) (R := fun s s' => ∀ m, s.sessions.get sid = some m →
    ∃ m', s'.sessions.get sid = some m' ∧ AuthorityLe m m') ?_ ?_ (fun _ _ h => h) ?_ trivial
    halive m hm
  · exact fun s m hm => ⟨m, hm, AuthorityLe.of_eq ⟨rfl, rfl, rfl⟩⟩
  · intro a b c hab hbc m hm
    obtain ⟨m₁, hm₁, hle₁⟩ := hab m hm
    obtain ⟨m₂, hm₂, hle₂⟩ := hbc m₁ hm₁
    exact ⟨m₂, hm₂, hle₁.trans hle₂⟩
  · intro s c _ _ hafter m hm
    obtain ⟨m', hm'⟩ := Option.isSome_iff_exists.mp hafter
    exact ⟨m', hm', authorityLe_step hm hm'⟩

/-! ## 一度載った sequence -/

/-- sequence は台帳にあるか、watermark 以下である。 -/
def Recorded (s : Store) (sid : String) (q : Nat) : Prop :=
  (∃ e ∈ s.sessionEvents, e.sessionID = sid ∧ e.sequence = q) ∨
    ∃ m, s.sessions.get sid = some m ∧ q ≤ m.prunedAckSequence

theorem recorded_step (hinv : LedgerInv s)
    (hbefore : SessionAlive sid s) (hafter : SessionAlive sid (step s c))
    (h : Recorded s sid q) : Recorded (step s c) sid q := by
  obtain ⟨m, hm⟩ := Option.isSome_iff_exists.mp hbefore
  obtain ⟨m', hm'⟩ := Option.isSome_iff_exists.mp hafter
  have hle := authorityLe_step hm hm'
  rcases h with ⟨e, he, hsid, hq⟩ | ⟨m₀, hm₀, hq⟩
  · by_cases hack : AcksSession c sid
    · obtain ⟨ref, ack, hc, rfl⟩ := hack
      obtain ⟨rq, op⟩ := c
      cases hc
      rcases step_acknowledge rfl with hs | ⟨r, h⟩
      · rw [hs]
        exact Or.inl ⟨e, he, hsid, hq⟩
      · have hid : m.sessionID = ref.sessionID := Table.key_of_get hm
        rcases acknowledge_cases hm h with ⟨_, hs, _⟩ | ⟨hlt, t, ht, hs⟩
        · rw [hs]
          exact Or.inl ⟨e, he, hsid, hq⟩
        · -- 新しい watermark を超えていれば残り、そうでなければ watermark が覚えている。
          have hrow := (reducedRow_sameAssignment rq m ack t).sessionID.trans hid
          by_cases hp : (reducedRow rq m ack t).prunedAckSequence < e.sequence
          · rw [hs]
            exact Or.inl ⟨e, (mem_reducedStore_events hinv (Table.mem_of_get hm) hlt ht
              (hsid.trans hid.symm)).mpr ⟨Or.inl he, hp⟩, hsid, hq⟩
          · refine Or.inr ⟨reducedRow rq m ack t, ?_, hq ▸ Nat.le_of_not_lt hp⟩
            rw [hs, reducedStore, Table.get_upsert, if_pos hrow]
    · rw [not_acksSession_iff, ← hsid] at hack
      rw [← hsid] at hm'
      exact Or.inl ⟨e, (step_sessionEffect rfl).events_keep he hm' hack, hsid, hq⟩
  · rw [hm] at hm₀
    cases hm₀
    exact Or.inr ⟨m', hm', hq.trans hle.pruned⟩

theorem recorded_run {cs : List Call} (hinv : LedgerInv s)
    (halive : Along step (SessionAlive sid) s cs) (h : Recorded s sid q) :
    Recorded (run step s cs) sid q :=
  run_rel (I := LedgerInv) (R := fun s s' => Recorded s sid q → Recorded s' sid q)
    (fun _ h => h) (fun _ _ _ hab hbc h => hbc (hab h)) ledgerInv_step
    (fun _ _ hinv hbefore hafter h => recorded_step hinv hbefore hafter h) hinv halive h

theorem recorded_of_acknowledged {r : ReleaseAcknowledgementResult} (hinv : LedgerInv s)
    (hout : (exec s ⟨rq, .acknowledge ref ack⟩).1 = .acknowledged r) :
    Recorded (step s ⟨rq, .acknowledge ref ack⟩) ref.sessionID ack.sequence := by
  cases hred : reduceReleaseSessionAcknowledgement rq s ref ack with
  | error p =>
    simp only [exec, hred] at hout
    cases hout
  | ok p =>
    have hs : step s ⟨rq, .acknowledge ref ack⟩ = p.2 := by simp only [step, exec, hred]
    obtain ⟨m, _, ⟨htx, _⟩, _⟩ := reduce_ok_cases hred
    obtain ⟨_, _, hm, hid, _⟩ := sessionTx_ok htx
    rw [hs]
    rcases acknowledge_cases hm hred with ⟨_, hs', hrec⟩ | ⟨hlt, t, ht, hs'⟩
    · rw [hs']
      rcases hrec with hev | hle
      · obtain ⟨e, he⟩ := Option.ne_none_iff_exists'.mp hev
        have hkey := Table.key_of_get he
        refine Or.inl ⟨e, Table.mem_of_get he, ?_, congrArg Prod.snd hkey⟩
        exact (congrArg Prod.fst hkey).trans hid
      · refine Or.inr ⟨{ m with serverTimestamp := rq.now }, ?_, hle⟩
        rw [Table.get_upsert, if_pos hid]
    · rw [hs']
      by_cases hp : (reducedRow rq m ack t).prunedAckSequence < ack.sequence
      · exact Or.inl ⟨_, (mem_reducedStore_events hinv (Table.mem_of_get hm) hlt ht rfl).mpr
          ⟨Or.inr rfl, hp⟩, hid, rfl⟩
      · refine Or.inr ⟨reducedRow rq m ack t, ?_, Nat.le_of_not_lt hp⟩
        rw [reducedStore, Table.get_upsert,
          if_pos ((reducedRow_sameAssignment rq m ack t).sessionID.trans hid)]

theorem recorded_inert {m : ReleaseSessionModel} (hm : s.sessions.get ref.sessionID = some m)
    (hrec : Recorded s ref.sessionID ack.sequence) :
    (exec s ⟨rq, .acknowledge ref ack⟩).1.disposition ≠ some .accepted ∧
      ∃ m', (step s ⟨rq, .acknowledge ref ack⟩).sessions.get ref.sessionID = some m' ∧
        m'.attempt = m.attempt ∧ m'.applied = m.applied := by
  have hid : m.sessionID = ref.sessionID := Table.key_of_get hm
  cases hred : reduceReleaseSessionAcknowledgement rq s ref ack with
  | error p =>
    simp only [step, exec, hred, Output.disposition]
    refine ⟨?_, m, hm, rfl, rfl⟩
    simpa using reduce_error_disposition hred
  | ok p =>
    simp only [step, exec, hred, Output.disposition]
    rcases acknowledge_cases hm hred with ⟨hd, hs, _⟩ | ⟨hlt, t, ht, _⟩
    · refine ⟨by simpa using hd, { m with serverTimestamp := rq.now }, ?_, rfl, rfl⟩
      rw [hs, Table.get_upsert, if_pos hid]
    · -- 取り込みには、台帳に無く watermark より新しいことが要る。
      exfalso
      rcases hrec with ⟨e, he, hsid, hq⟩ | ⟨m₀, hm₀, hle⟩
      · have hnone := Table.get_eq_none_iff.mp (Table.insert?_eq_some_iff.mp ht).1 e he
        exact hnone (Prod.ext (hsid.trans hid.symm) hq)
      · rw [hm] at hm₀
        cases hm₀
        exact Nat.not_le_of_lt hlt hle

/-! ## 主定理 -/

/--
呼び出し列 `hist` の終わりまでに、sequence `q` が session の台帳に載った。

event の行が残っているか、最後の呼び出しが `q` の acknowledgement を commit したか、である。
後者は、載せた transaction がそのまま fingerprint を消した場合を含む。
-/
def EnteredLedger (hist : List Call) (sid : String) (q : Nat) : Prop :=
  (∃ e ∈ (run step Store.empty hist).sessionEvents, e.sessionID = sid ∧ e.sequence = q) ∨
    ∃ before rq ref ack r, hist = before ++ [⟨rq, .acknowledge ref ack⟩] ∧
      ref.sessionID = sid ∧ ack.sequence = q ∧
      (exec (run step Store.empty before) ⟨rq, .acknowledge ref ack⟩).1 = .acknowledged r

theorem recorded_of_enteredLedger {hist : List Call}
    (h : EnteredLedger hist sid q) : Recorded (run step Store.empty hist) sid q := by
  rcases h with h | ⟨before, rq, ref, ack, r, rfl, rfl, rfl, hout⟩
  · exact Or.inl h
  · rw [run_append]
    exact recorded_of_acknowledged (ledgerInv_run before) hout

/--
空の store からの任意の run `hist` の後に行 `m` を持つ session について、行が生きている限り、続く
任意の run `cs` の後の行 `m'` は後退していない。台帳の上限と watermark も保たれ、`hist` の終わりまでに
載った sequence はどの payload で再び来ても効かない。
-/
theorem authority_never_regresses (hist cs : List Call) (sid : String) (m : ReleaseSessionModel)
    (hm : (run step Store.empty hist).sessions.get sid = some m)
    (halive : Along step (SessionAlive sid) (run step Store.empty hist) cs) :
    ∃ m', (run step Store.empty (hist ++ cs)).sessions.get sid = some m' ∧
      m.attempt.rank ≤ m'.attempt.rank ∧ m.applied.rank ≤ m'.applied.rank ∧
      m.prunedAckSequence ≤ m'.prunedAckSequence ∧
      (retainedEvents (run step Store.empty (hist ++ cs)).sessionEvents sid).length ≤
        releaseSessionEventRetention ∧
      (∀ e ∈ retainedEvents (run step Store.empty (hist ++ cs)).sessionEvents sid,
        m'.prunedAckSequence < e.sequence) ∧
      ∀ q, EnteredLedger hist sid q → ∀ rq ref ack, ref.sessionID = sid → ack.sequence = q →
        (exec (run step Store.empty (hist ++ cs)) ⟨rq, .acknowledge ref ack⟩).1.disposition ≠
            some .accepted ∧
          ∃ m'', (step (run step Store.empty (hist ++ cs))
              ⟨rq, .acknowledge ref ack⟩).sessions.get sid = some m'' ∧
            m''.attempt = m'.attempt ∧ m''.applied = m'.applied := by
  have hinv := ledgerInv_run (hist ++ cs)
  obtain ⟨m', hm', hle⟩ := authorityLe_run hm halive
  rw [run_append] at hinv ⊢
  refine ⟨m', hm', hle.attempt, hle.applied, hle.pruned, hinv.bounded sid, ?_, ?_⟩
  · intro e he
    obtain ⟨he, hsid⟩ := mem_retainedEvents.mp he
    exact hinv.above m' (Table.mem_of_get hm') e he (hsid.trans (Table.key_of_get hm').symm)
  · intro q hq rq ref ack href hack
    subst href hack
    have hrec := recorded_run (ledgerInv_run hist) halive (recorded_of_enteredLedger hq)
    exact recorded_inert hm' hrec

end

section Sample

local instance authoritySampleHashing : Hashing := sampleHashing

/-- applied を一つ載せた後まで。 -/
def acknowledgedCalls : List Call :=
  sampleCalls ++ [⟨sampleRequest, .acknowledge sampleSession (sampleAck 1 .applied)⟩]

/-- 例: applied を載せて再接続した後の行は後退せず、同じ sequence の rejected は効かない。 -/
theorem authority_never_regresses_sample :
    ∃ m m', (run step Store.empty acknowledgedCalls).sessions.get "session-1" = some m ∧
      (run step Store.empty (acknowledgedCalls ++
        [⟨sampleRequest, .connectSession sampleSession "c2" true⟩])).sessions.get "session-1" =
          some m' ∧
      m.attempt.rank ≤ m'.attempt.rank ∧
      (exec (run step Store.empty (acknowledgedCalls ++
          [⟨sampleRequest, .connectSession sampleSession "c2" true⟩]))
        ⟨sampleRequest, .acknowledge sampleSession
          { sampleAck 1 .rejected with connectionID := "c2" }⟩).1.disposition ≠
          some .accepted := by
  obtain ⟨m, hm⟩ := Option.isSome_iff_exists.mp
    (show ((run step Store.empty acknowledgedCalls).sessions.get "session-1").isSome from
      by decide)
  obtain ⟨m', hm', hle, _, _, _, _, hinert⟩ := authority_never_regresses acknowledgedCalls
    [⟨sampleRequest, .connectSession sampleSession "c2" true⟩] "session-1" m hm
    ⟨show SessionAlive _ _ from by decide, show SessionAlive _ _ from by decide⟩
  have hentered : EnteredLedger acknowledgedCalls "session-1" 1 :=
    Or.inl ⟨⟨"session-1", 1, ""⟩, show _ ∈ Table.rows _ from by decide, rfl, rfl⟩
  have hrejected := hinert 1 hentered sampleRequest sampleSession
    { sampleAck 1 .rejected with connectionID := "c2" } rfl rfl
  exact ⟨m, m', hm, hm', hle, hrejected.1⟩

end Sample

end Kms.Storage
