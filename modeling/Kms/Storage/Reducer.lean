import Mathlib.Data.Prod.Lex
import Kms.Infra.Latest
import Kms.Storage.SessionFrame

/-!
# acknowledgement の還元の仕様

還元が書く欄を `Attempt` と `Applied` の二つの値に束ねる。どちらも (target revision, sequence) の
辞書式順序で大きいものだけを覚える register である。

* `reducedRow_attempt` / `reducedRow_applied` — 還元は二つの register への書き込みである
* `expireEvents_bounded` — 台帳に残る event は 256 件以下である
* `mem_expireEvents` — 残る event は watermark より新しいものに限る
-/

namespace Kms.Storage

open Kms.Infra

/-! ## 二つの register -/

/-- 最新の attempt。 -/
structure Attempt where
  sequence : Nat
  state : ReleaseState
  releaseVersion : Nat
  targetRevision : Nat
  activationRevision : Nat
  rejectionCategory : String
  diagnostic : String
  clientTimestamp : Time
  appliedDivergent : Bool
  divergentFieldCount : Nat
  deriving DecidableEq

def Attempt.rank (a : Attempt) : Nat ×ₗ Nat := toLex (a.targetRevision, a.sequence)

/-- まだ acknowledgement が無いときの attempt。 -/
def Attempt.none : Attempt := ⟨0, .other "", 0, 0, 0, "", "", 0, false, 0⟩

/-- 最後に applied になった target。 -/
structure Applied where
  revision : Nat
  sequence : Nat
  version : Nat
  deriving DecidableEq

def Applied.rank (a : Applied) : Nat ×ₗ Nat := toLex (a.revision, a.sequence)

def Applied.none : Applied := ⟨0, 0, 0⟩

def ReleaseSessionModel.attempt (m : ReleaseSessionModel) : Attempt :=
  ⟨m.lastAckSequence, m.state, m.releaseVersion, m.targetRevision, m.activationRevision,
    m.rejectionCategory, m.diagnostic, m.clientTimestamp, m.appliedDivergent,
    m.divergentFieldCount⟩

def ReleaseSessionModel.applied (m : ReleaseSessionModel) : Applied :=
  ⟨m.lastAppliedRevision, m.lastAppliedSequence, m.lastAppliedVersion⟩

/-- acknowledgement が attempt に書く値。 -/
def attemptOf (ack : ReleaseAcknowledgement) : Attempt :=
  ⟨ack.sequence, ack.state, ack.releaseVersion, ack.targetRevision, ack.activationRevision,
    ack.rejectionCategory, ack.diagnostic, ack.clientTimestamp, ack.appliedDivergent,
    ack.divergentFieldCount⟩

/-- applied の acknowledgement が last-applied に書く値。 -/
def appliedOf (ack : ReleaseAcknowledgement) : Applied :=
  ⟨ack.targetRevision, ack.sequence, ack.releaseVersion⟩

section Row

variable (rq : Request) (m : ReleaseSessionModel) (ack : ReleaseAcknowledgement)
  (t : Table ReleaseSessionEventModel.key)

theorem newerAttempt_iff :
    newerAttempt m ack ↔ m.attempt.rank < (attemptOf ack).rank := by
  unfold newerAttempt Attempt.rank
  rw [Prod.Lex.toLex_lt_toLex]
  exact or_congr_right (and_congr_left' eq_comm)

theorem newerApplied_iff :
    newerApplied m ack ↔ ack.state = .applied ∧ m.applied.rank < (appliedOf ack).rank := by
  unfold newerApplied Applied.rank
  rw [Prod.Lex.toLex_lt_toLex]
  exact and_congr_right' (or_congr_right (and_congr_left' eq_comm))

theorem attempt_none_lt {ack : ReleaseAcknowledgement} (h : ack.sequence ≠ 0) :
    Attempt.none.rank < (attemptOf ack).rank := by
  unfold Attempt.rank
  rw [Prod.Lex.toLex_lt_toLex']
  exact ⟨Nat.zero_le _, fun _ => Nat.pos_of_ne_zero h⟩

theorem applied_none_lt {ack : ReleaseAcknowledgement} (h : ack.sequence ≠ 0) :
    Applied.none.rank < (appliedOf ack).rank := by
  unfold Applied.rank
  rw [Prod.Lex.toLex_lt_toLex']
  exact ⟨Nat.zero_le _, fun _ => Nat.pos_of_ne_zero h⟩

/-! ## 還元が書く値 -/

theorem recordAttempt_attempt :
    (recordAttempt m ack).attempt =
      if m.attempt.rank < (attemptOf ack).rank then attemptOf ack else m.attempt := by
  unfold recordAttempt
  by_cases h : newerAttempt m ack
  · rw [if_pos h, if_pos ((newerAttempt_iff m ack).mp h)]
    rfl
  · rw [if_neg h, if_neg (mt (newerAttempt_iff m ack).mpr h)]

theorem recordAttempt_applied :
    (recordAttempt m ack).applied = m.applied := by
  unfold recordAttempt
  split <;> rfl

theorem recordAttempt_pruned :
    (recordAttempt m ack).prunedAckSequence = m.prunedAckSequence := by
  unfold recordAttempt
  split <;> rfl

theorem recordApplied_attempt :
    (recordApplied m ack).attempt = m.attempt := by
  unfold recordApplied
  split <;> rfl

theorem recordApplied_applied :
    (recordApplied m ack).applied =
      if ack.state = .applied ∧ m.applied.rank < (appliedOf ack).rank then appliedOf ack
      else m.applied := by
  unfold recordApplied
  by_cases h : newerApplied m ack
  · rw [if_pos h, if_pos ((newerApplied_iff m ack).mp h)]
    rfl
  · rw [if_neg h, if_neg (mt (newerApplied_iff m ack).mpr h)]

theorem recordApplied_pruned :
    (recordApplied m ack).prunedAckSequence = m.prunedAckSequence := by
  unfold recordApplied
  split <;> rfl

theorem reducedRow_attempt :
    (reducedRow rq m ack t).attempt =
      if m.attempt.rank < (attemptOf ack).rank then attemptOf ack else m.attempt := by
  obtain ⟨_, _, h⟩ := expireEvents_row (recordApplied (recordAttempt m ack) ack) t
  have hrow : (reducedRow rq m ack t).attempt =
      (recordApplied (recordAttempt m ack) ack).attempt := by
    unfold reducedRow
    rw [h]
    rfl
  rw [hrow, recordApplied_attempt, recordAttempt_attempt]

theorem reducedRow_applied :
    (reducedRow rq m ack t).applied =
      if ack.state = .applied ∧ m.applied.rank < (appliedOf ack).rank then appliedOf ack
      else m.applied := by
  obtain ⟨_, _, h⟩ := expireEvents_row (recordApplied (recordAttempt m ack) ack) t
  have hrow : (reducedRow rq m ack t).applied =
      (recordApplied (recordAttempt m ack) ack).applied := by
    unfold reducedRow
    rw [h]
    rfl
  rw [hrow, recordApplied_applied, recordAttempt_applied]

theorem reducedRow_pruned_le :
    m.prunedAckSequence ≤ (reducedRow rq m ack t).prunedAckSequence := by
  obtain ⟨pruned, hle, h⟩ := expireEvents_row (recordApplied (recordAttempt m ack) ack) t
  unfold reducedRow
  rw [h]
  rw [recordApplied_pruned, recordAttempt_pruned] at hle
  exact hle

end Row

/-! ## 台帳の保持 -/

def retainedEvents (t : Table ReleaseSessionEventModel.key) (sessionID : String) :
    List ReleaseSessionEventModel :=
  t.rows.filter (fun e => decide (e.sessionID = sessionID))

variable {t : Table ReleaseSessionEventModel.key} {sessionID : String}

theorem mem_retainedEvents {e : ReleaseSessionEventModel} :
    e ∈ retainedEvents t sessionID ↔ e ∈ t ∧ e.sessionID = sessionID := by
  simp [retainedEvents, Table.mem_def]

theorem length_retainedEvents_le {t' : Table ReleaseSessionEventModel.key}
    (h : ∀ e, e.sessionID = sessionID → e ∈ t' → e ∈ t) :
    (retainedEvents t' sessionID).length ≤ (retainedEvents t sessionID).length := by
  have hnodup : (retainedEvents t' sessionID).Nodup := (List.Nodup.of_map _ t'.nodup).filter _
  refine (List.subperm_of_subset hnodup ?_).length_le
  intro e he
  rw [mem_retainedEvents] at he ⊢
  exact ⟨h e he.2 he.1, he.2⟩

theorem eventSequences_perm (t : Table ReleaseSessionEventModel.key) (sessionID : String) :
    (eventSequences t sessionID).Perm ((retainedEvents t sessionID).map (·.sequence)) :=
  List.perm_insertionSort ..

theorem length_eventSequences (t : Table ReleaseSessionEventModel.key) (sessionID : String) :
    (eventSequences t sessionID).length = (retainedEvents t sessionID).length := by
  rw [(eventSequences_perm t sessionID).length_eq, List.length_map]

theorem expireEvents_of_le {m : ReleaseSessionModel}
    (h : (retainedEvents t m.sessionID).length ≤ releaseSessionEventRetention) :
    expireEvents m t = (m, t) := by
  have hnone : expiredSequence t m.sessionID = none := by
    unfold expiredSequence
    rw [List.drop_eq_nil_of_le]
    · rfl
    · rw [length_eventSequences]
      exact h
  unfold expireEvents
  rw [hnone]

theorem length_above_expired
    {q pruned : Nat} (hq : expiredSequence t sessionID = some q) (hle : q ≤ pruned) :
    ((eventSequences t sessionID).filter (fun n => decide (pruned < n))).length ≤
      releaseSessionEventRetention := by
  have hsorted : (eventSequences t sessionID).Pairwise (· ≥ ·) := List.pairwise_insertionSort ..
  rw [← List.take_append_drop releaseSessionEventRetention (eventSequences t sessionID),
    List.filter_append, List.length_append]
  -- 落とした側は先頭が `q` で降順なので、全て `pruned` 以下である。
  have hdrop : ∀ n ∈ (eventSequences t sessionID).drop releaseSessionEventRetention,
      n ≤ pruned := by
    obtain ⟨rest, hrest⟩ := List.head?_eq_some_iff.mp hq
    have hs := hsorted.drop (i := releaseSessionEventRetention)
    rw [hrest] at hs ⊢
    intro n hn
    rcases List.mem_cons.mp hn with rfl | hn
    · exact hle
    · exact Nat.le_trans ((List.pairwise_cons.mp hs).1 n hn) hle
  have hnil : ((eventSequences t sessionID).drop releaseSessionEventRetention).filter
      (fun n => decide (pruned < n)) = [] := by
    rw [List.filter_eq_nil_iff]
    intro n hn
    simpa using hdrop n hn
  rw [hnil]
  exact Nat.le_trans (List.length_filter_le ..) (List.length_take_le ..)

theorem expireEvents_bounded (m : ReleaseSessionModel) (t : Table ReleaseSessionEventModel.key) :
    (retainedEvents (expireEvents m t).2 m.sessionID).length ≤ releaseSessionEventRetention := by
  by_cases hle : (retainedEvents t m.sessionID).length ≤ releaseSessionEventRetention
  · rw [expireEvents_of_le hle]
    exact hle
  · have hlt : releaseSessionEventRetention < (eventSequences t m.sessionID).length := by
      rw [length_eventSequences]
      exact Nat.lt_of_not_le hle
    have hq : expiredSequence t m.sessionID =
        some ((eventSequences t m.sessionID).get ⟨releaseSessionEventRetention, hlt⟩) := by
      unfold expiredSequence
      rw [List.head?_drop, List.getElem?_eq_getElem hlt]
      rfl
    have habove := length_above_expired hq (Nat.le_max_right m.prunedAckSequence _)
    rw [((eventSequences_perm t m.sessionID).filter _).length_eq, List.filter_map,
      List.length_map] at habove
    refine Nat.le_trans (Nat.le_of_eq ?_) habove
    unfold expireEvents
    rw [hq]
    unfold retainedEvents Table.deleteWhere
    simp only [List.filter_filter]
    congr 1
    refine List.filter_congr (fun e _ => ?_)
    by_cases hs : e.sessionID = m.sessionID
    · rw [Bool.eq_iff_iff]
      simp [hs]
    · simp [hs]

theorem mem_expireEvents {m : ReleaseSessionModel}
    (habove : ∀ e ∈ t, e.sessionID = m.sessionID → m.prunedAckSequence < e.sequence)
    {e : ReleaseSessionEventModel} (he : e.sessionID = m.sessionID) :
    e ∈ (expireEvents m t).2 ↔ e ∈ t ∧ (expireEvents m t).1.prunedAckSequence < e.sequence := by
  unfold expireEvents
  cases expiredSequence t m.sessionID with
  | none => exact ⟨fun h => ⟨h, habove e h he⟩, fun h => h.1⟩
  | some q =>
    show e ∈ Table.deleteWhere _ _ ↔ e ∈ t ∧ max m.prunedAckSequence q < e.sequence
    rw [Table.mem_deleteWhere]
    refine and_congr_right (fun _ => ?_)
    simp only [he, decide_true, Bool.true_and, decide_eq_false_iff_not, Nat.not_le]

end Kms.Storage
