import Mathlib.Data.Finset.Card
import Kms.Storage.Authority

/-!
# acknowledgement の還元は順序によらず、ちょうど一度である

一つの session に、sequence の異なる 256 件以下の acknowledgement の集合 `E` が届く。どの順序でも、
同じ event が何度再送されても、間に再接続や pin や activation が挟まっても、残る行は `E` だけで決まる。

* `Reduced` — それまでに届いた event の集合と、行・台帳との対応
* `reduced_step` — どの一歩も対応を保つ
* `acknowledgement_order_independent` — 主定理
-/

namespace Kms.Storage

open Kms.Infra

/-! ## event と届け方 -/

/-- 接続の世代を除いて同じ acknowledgement。再送は接続だけが変わる。 -/
def SameEvent (ack e : ReleaseAcknowledgement) : Prop :=
  ack = { e with connectionID := ack.connectionID }

variable {ack e : ReleaseAcknowledgement}

theorem SameEvent.sequence (h : SameEvent ack e) : ack.sequence = e.sequence := by
  rw [h]

theorem SameEvent.state (h : SameEvent ack e) : ack.state = e.state := by
  rw [h]

theorem SameEvent.attemptOf (h : SameEvent ack e) :
    Storage.attemptOf ack = Storage.attemptOf e := by
  rw [h]
  rfl

theorem SameEvent.appliedOf (h : SameEvent ack e) :
    Storage.appliedOf ack = Storage.appliedOf e := by
  rw [h]
  rfl

/-- 呼び出し `c` が、event `e` を session に届ける。 -/
def Delivers (sid : String) (c : Call) (e : ReleaseAcknowledgement) : Prop :=
  ∃ ref ack, c.op = .acknowledge ref ack ∧ ref.sessionID = sid ∧ SameEvent ack e

/-- 呼び出し列 `hist` の中で、event `e` が少なくとも一度届いた。 -/
def DeliveredIn (sid : String) (hist : List Call) (e : ReleaseAcknowledgement) : Prop :=
  ∃ c ∈ hist, Delivers sid c e

theorem deliveredIn_append {sid : String} {hist : List Call} {c : Call} :
    DeliveredIn sid (hist ++ [c]) e ↔ DeliveredIn sid hist e ∨ Delivers sid c e := by
  simp [DeliveredIn, or_and_right, exists_or]

/-- sequence の異なる、還元できる acknowledgement の有限集合。sequence の最上位 bit は立たない。 -/
structure AckSet (E : Finset ReleaseAcknowledgement) : Prop where
  distinct : ∀ e ∈ E, ∀ e' ∈ E, e.sequence = e'.sequence → e = e'
  nonzero : ∀ e ∈ E, e.sequence ≠ 0
  bounded : ∀ e ∈ E, e.sequence < highBit
  validState : ∀ e ∈ E, sessionStateRank e.state ≠ 0
  card_le : E.card ≤ releaseSessionEventRetention

theorem AckSet.eq_of_sameEvent {E : Finset ReleaseAcknowledgement} (hE : AckSet E)
    {e' : ReleaseAcknowledgement} (he : e ∈ E) (he' : e' ∈ E) (h : SameEvent ack e)
    (h' : SameEvent ack e') : e = e' :=
  hE.distinct e he e' he' (h.sequence.symm.trans h'.sequence)

section

variable [Hashing]

variable {ack e : ReleaseAcknowledgement} {E : Finset ReleaseAcknowledgement}
  {D : ReleaseAcknowledgement → Prop} {m : ReleaseSessionModel} {sid : String}
  {t : Table ReleaseSessionEventModel.key} {s : Store} {rq : Request} {ref : ReleaseSessionRef}

theorem SameEvent.fingerprint (h : SameEvent ack e) :
    acknowledgementFingerprint ack = acknowledgementFingerprint e := by
  rw [h]
  rfl

/--
一歩の条件。session の行は消えず、この session への acknowledgement は `E` の event を生きた接続から
届ける。台帳にまだ無い event なら、その target の delivery の行と一致する。
-/
structure OrderlyStep (E : Finset ReleaseAcknowledgement) (sid : String) (s : Store) (c : Call) :
    Prop where
  alive : SessionAlive sid (step s c)
  delivery : ∀ ref ack, c.op = .acknowledge ref ack → ref.sessionID = sid →
    ∃ e ∈ E, SameEvent ack e ∧ (∃ m, LiveDelivery c.rq s ref ack m) ∧
      (s.sessionEvents.get (sid, ack.sequence) = none → MatchesDelivery s sid ack)

/-! ## 行と台帳の対応 -/

/-- 届いた event `D` と、行・台帳との対応。 -/
structure ReducedRow (E : Finset ReleaseAcknowledgement) (D : ReleaseAcknowledgement → Prop)
    (m : ReleaseSessionModel) : Prop where
  attempt : Latest Attempt.rank attemptOf Attempt.none (fun e => e ∈ E ∧ D e) m.attempt
  applied : Latest Applied.rank appliedOf Applied.none
    (fun e => (e ∈ E ∧ D e) ∧ e.state = .applied) m.applied
  pruned : m.prunedAckSequence = 0

/-- 台帳は、届いた event をちょうど一つずつ持つ。 -/
def ReducedLedger (E : Finset ReleaseAcknowledgement) (D : ReleaseAcknowledgement → Prop)
    (sid : String) (events : Table ReleaseSessionEventModel.key) : Prop :=
  ∀ ev : ReleaseSessionEventModel, ev.sessionID = sid →
    (ev ∈ events ↔
      ∃ e ∈ E, D e ∧ ev = ⟨sid, e.sequence, acknowledgementFingerprint e⟩)

def Reduced (E : Finset ReleaseAcknowledgement) (sid : String)
    (D : ReleaseAcknowledgement → Prop) (s : Store) : Prop :=
  ∃ m, s.sessions.get sid = some m ∧ ReducedRow E D m ∧ ReducedLedger E D sid s.sessionEvents

omit [Hashing] in
theorem ReducedRow.congr {D' : ReleaseAcknowledgement → Prop}
    {m' : ReleaseSessionModel} (h : ReducedRow E D m) (hD : ∀ e ∈ E, D e ↔ D' e)
    (hf : m'.attempt = m.attempt ∧ m'.applied = m.applied ∧
      m'.prunedAckSequence = m.prunedAckSequence) : ReducedRow E D' m' where
  attempt := by
    rw [hf.1]
    exact h.attempt.congr (fun e => and_congr_right (hD e))
  applied := by
    rw [hf.2.1]
    exact h.applied.congr (fun e => and_congr_left' (and_congr_right (hD e)))
  pruned := hf.2.2.trans h.pruned

theorem ReducedLedger.congr {D' : ReleaseAcknowledgement → Prop}
    {t' : Table ReleaseSessionEventModel.key} (h : ReducedLedger E D sid t)
    (hD : ∀ e ∈ E, D e ↔ D' e)
    (hev : ∀ ev : ReleaseSessionEventModel, ev.sessionID = sid → (ev ∈ t' ↔ ev ∈ t)) :
    ReducedLedger E D' sid t' := by
  intro ev hsid
  rw [hev ev hsid, h ev hsid]
  refine exists_congr (fun e => and_congr_right (fun he => ?_))
  rw [hD e he]

theorem ReducedLedger.length_le {sid : String}
    (h : ReducedLedger E D sid t) : (retainedEvents t sid).length ≤ E.card := by
  have hnodup : (retainedEvents t sid).Nodup := (List.Nodup.of_map _ t.nodup).filter _
  rw [← List.toFinset_card_of_nodup hnodup]
  refine Nat.le_trans (Finset.card_le_card ?_) (Finset.card_image_le (s := E)
    (f := fun e => ⟨sid, e.sequence, acknowledgementFingerprint e⟩))
  intro ev hev
  obtain ⟨hmem, hsid⟩ := mem_retainedEvents.mp (List.mem_toFinset.mp hev)
  obtain ⟨e, he, _, hev⟩ := (h ev hsid).mp hmem
  exact Finset.mem_image.mpr ⟨e, he, hev.symm⟩

theorem reduced_step_other {s : Store} {c : Call} (h : Reduced E sid D s)
    (halive : SessionAlive sid (step s c)) (hack : ¬ AcksSession c sid) :
    Reduced E sid D (step s c) := by
  obtain ⟨m, hm, hrow, hledger⟩ := h
  obtain ⟨m', hm'⟩ := Option.isSome_iff_exists.mp halive
  have hid : m.sessionID = sid := Table.key_of_get hm
  have heff := step_sessionEffect (s := s) (c := c) rfl
  rw [not_acksSession_iff] at hack
  refine ⟨m', hm', hrow.congr (fun _ _ => Iff.rfl)
    ((heff.rowStep hm hm').ackFields (by rw [hid]; exact hack)),
    hledger.congr (fun _ _ => Iff.rfl) ?_⟩
  rintro ev rfl
  exact ⟨fun hev => heff.events_subset hev hack, fun hev => heff.events_keep hev hm' hack⟩

/-- 既に届いた event の再送は duplicate であり、時刻の他に何も変えない。 -/
theorem exec_redelivery (hE : AckSet E) {s : Store} {m : ReleaseSessionModel}
    (hledger : ReducedLedger E D sid s.sessionEvents) (hlive : LiveDelivery rq s ref ack m)
    (href : ref.sessionID = sid) (he : e ∈ E) (hsame : SameEvent ack e) (hD : D e) :
    (exec s ⟨rq, .acknowledge ref ack⟩).1.disposition = some .duplicate ∧
      step s ⟨rq, .acknowledge ref ack⟩ =
        { s with sessions := s.sessions.upsert { m with serverTimestamp := rq.now } } := by
  obtain ⟨_, _, _, hid, _⟩ := sessionTx_ok hlive.1
  have hvalid : ack.sequence ≠ 0 ∧ sessionStateRank ack.state ≠ 0 := by
    rw [hsame.sequence, hsame.state]
    exact ⟨hE.nonzero e he, hE.validState e he⟩
  have hev : s.sessionEvents.get (m.sessionID, ack.sequence) =
      some ⟨sid, e.sequence, acknowledgementFingerprint e⟩ := by
    rw [Table.get_eq_some_iff]
    refine ⟨(hledger _ rfl).mpr ⟨e, he, hD, rfl⟩, ?_⟩
    rw [hid, href, hsame.sequence]
    rfl
  have hred := reduceTx_duplicate rq hvalid
    (hsame.sequence ▸ hE.bounded e he) hev hsame.fingerprint.symm
  simp only [step, exec, reduce_of_live hlive, hred, Output.disposition, and_self]

/-- まだ届いていない event の取り込み。期限切れは起きない。 -/
theorem exec_first_delivery (hE : AckSet E) {s : Store}
    {m : ReleaseSessionModel} (hrow : ReducedRow E D m)
    (hledger : ReducedLedger E D sid s.sessionEvents) (hlive : LiveDelivery rq s ref ack m)
    (href : ref.sessionID = sid) (he : e ∈ E) (hsame : SameEvent ack e) (hD : ¬ D e)
    (hmatch : s.sessionEvents.get (sid, ack.sequence) = none → MatchesDelivery s sid ack) :
    ∃ t, s.sessionEvents.insert? ⟨sid, ack.sequence, acknowledgementFingerprint ack⟩ = some t ∧
      (exec s ⟨rq, .acknowledge ref ack⟩).1.disposition =
        some (if newerAttempt m ack then .accepted else .stale) ∧
      step s ⟨rq, .acknowledge ref ack⟩ = reducedStore rq s m ack t := by
  obtain ⟨_, _, _, hid, _⟩ := sessionTx_ok hlive.1
  rw [href] at hid
  have hvalid : ack.sequence ≠ 0 ∧ sessionStateRank ack.state ≠ 0 := by
    rw [hsame.sequence, hsame.state]
    exact ⟨hE.nonzero e he, hE.validState e he⟩
  -- 台帳の event は届いたものに限り、sequence は `E` の中で一つなので、まだ無い。
  have hnone : s.sessionEvents.get (sid, ack.sequence) = none := by
    rw [Table.get_eq_none_iff]
    intro ev hev hkey
    have hsid : ev.sessionID = sid := congrArg Prod.fst hkey
    obtain ⟨e', he', hD', rfl⟩ := (hledger ev hsid).mp hev
    have hseq : e'.sequence = e.sequence := (congrArg Prod.snd hkey).trans hsame.sequence
    rw [hE.distinct e' he' e he hseq] at hD'
    exact hD hD'
  cases ht : s.sessionEvents.insert? ⟨sid, ack.sequence, acknowledgementFingerprint ack⟩ with
  | none => exact absurd hnone (Table.insert?_eq_none_iff.mp ht)
  | some t =>
    have hlt : m.prunedAckSequence < ack.sequence := by
      rw [hrow.pruned]
      exact Nat.pos_of_ne_zero hvalid.1
    have hbound : ack.sequence < highBit := hsame.sequence ▸ hE.bounded e he
    have hred := reduceTx_newEvent rq hvalid hbound hlt (hid.symm ▸ hmatch hnone) (hid.symm ▸ ht)
    refine ⟨t, rfl, ?_⟩
    simp only [step, exec, reduce_of_live hlive, hred, Output.disposition, and_self]

theorem ReducedLedger.insert {sid : String} {t' : Table ReleaseSessionEventModel.key}
    (h : ReducedLedger E D sid t) (he : e ∈ E) (hsame : SameEvent ack e)
    (ht : t.insert? ⟨sid, ack.sequence, acknowledgementFingerprint ack⟩ = some t') :
    ReducedLedger E (fun e' => D e' ∨ e' = e) sid t' := by
  intro ev hsid
  rw [Table.mem_insert? ht, h ev hsid, hsame.sequence, hsame.fingerprint]
  constructor
  · rintro (⟨e', he', hD, rfl⟩ | rfl)
    · exact ⟨e', he', Or.inl hD, rfl⟩
    · exact ⟨e, he, Or.inr rfl, rfl⟩
  · rintro ⟨e', he', hD | rfl, rfl⟩
    · exact Or.inl ⟨e', he', hD, rfl⟩
    · exact Or.inr rfl

omit [Hashing] in
theorem ReducedRow.offer (hE : AckSet E) {m : ReleaseSessionModel}
    (h : ReducedRow E D m) (rq : Request) (he : e ∈ E)
    (hsame : SameEvent ack e)
    (hlen : (retainedEvents t m.sessionID).length ≤ releaseSessionEventRetention) :
    ReducedRow E (fun e' => D e' ∨ e' = e) (reducedRow rq m ack t) where
  attempt := by
    rw [reducedRow_attempt, hsame.attemptOf]
    refine (h.attempt.offer (attempt_none_lt (hE.nonzero e he))).congr (fun e' => ?_)
    constructor
    · rintro (⟨he', hD⟩ | rfl)
      · exact ⟨he', Or.inl hD⟩
      · exact ⟨he, Or.inr rfl⟩
    · rintro ⟨he', hD | rfl⟩
      · exact Or.inl ⟨he', hD⟩
      · exact Or.inr rfl
  applied := by
    rw [reducedRow_applied, hsame.appliedOf, hsame.state]
    by_cases happ : e.state = .applied
    · simp only [happ, true_and]
      refine (h.applied.offer (applied_none_lt (hE.nonzero e he))).congr (fun e' => ?_)
      constructor
      · rintro (⟨⟨he', hD⟩, hst⟩ | rfl)
        · exact ⟨⟨he', Or.inl hD⟩, hst⟩
        · exact ⟨⟨he, Or.inr rfl⟩, happ⟩
      · rintro ⟨⟨he', hD | rfl⟩, hst⟩
        · exact Or.inl ⟨⟨he', hD⟩, hst⟩
        · exact Or.inr rfl
    · -- applied でない event は last-applied の候補にならない。
      rw [if_neg (fun hc => happ hc.1)]
      refine h.applied.congr (fun e' => ?_)
      constructor
      · exact fun hc => ⟨⟨hc.1.1, Or.inl hc.1.2⟩, hc.2⟩
      · rintro ⟨⟨he', hD | rfl⟩, hst⟩
        · exact ⟨⟨he', hD⟩, hst⟩
        · exact absurd hst happ
  pruned := by
    have hsess := (recordAttempt_sameAssignment m ack).trans (recordApplied_sameAssignment _ ack)
    unfold reducedRow
    rw [expireEvents_of_le (by rw [hsess.sessionID]; exact hlen)]
    show (recordApplied (recordAttempt m ack) ack).prunedAckSequence = 0
    rw [recordApplied_pruned, recordAttempt_pruned]
    exact h.pruned

theorem reduced_step (hE : AckSet E) {hist : List Call} {c : Call} (hstep : OrderlyStep E sid s c)
    (h : Reduced E sid (DeliveredIn sid hist) s) :
    Reduced E sid (DeliveredIn sid (hist ++ [c])) (step s c) := by
  by_cases hack : AcksSession c sid
  · obtain ⟨ref, ack, hc, href⟩ := hack
    obtain ⟨e, he, hsame, ⟨m₀, hlive⟩, hmatch⟩ := hstep.delivery ref ack hc href
    obtain ⟨rq, op⟩ := c
    cases hc
    obtain ⟨m, hm, hrow, hledger⟩ := h
    obtain ⟨_, _, hget, hid, _⟩ := sessionTx_ok hlive.1
    rw [href, hm] at hget
    obtain rfl : m = m₀ := Option.some.inj hget
    rw [href] at hid
    -- 新しく届いたのは `e` だけである。
    have hD : ∀ e' ∈ E, (DeliveredIn sid hist e' ∨ e' = e) ↔
        DeliveredIn sid (hist ++ [⟨rq, .acknowledge ref ack⟩]) e' := by
      intro e' he'
      rw [deliveredIn_append]
      refine or_congr_right ⟨?_, ?_⟩
      · rintro rfl
        exact ⟨ref, ack, rfl, href, hsame⟩
      · rintro ⟨ref', ack', hop, _, hsame'⟩
        cases hop
        exact hE.eq_of_sameEvent he' he hsame' hsame
    by_cases hold : DeliveredIn sid hist e
    · obtain ⟨_, hs⟩ := exec_redelivery hE hledger hlive href he hsame hold
      have hD' : ∀ e' ∈ E, DeliveredIn sid hist e' ↔
          DeliveredIn sid (hist ++ [⟨rq, .acknowledge ref ack⟩]) e' := by
        intro e' he'
        rw [← hD e' he', or_iff_left_of_imp]
        rintro rfl
        exact hold
      rw [hs]
      refine ⟨{ m with serverTimestamp := rq.now }, ?_, hrow.congr hD' ⟨rfl, rfl, rfl⟩,
        hledger.congr hD' (fun _ _ => Iff.rfl)⟩
      rw [Table.get_upsert, if_pos hid]
    · obtain ⟨t, ht, _, hs⟩ :=
        exec_first_delivery hE hrow hledger hlive href he hsame hold hmatch
      have hledger' := hledger.insert he hsame ht
      have hlen : (retainedEvents t m.sessionID).length ≤ releaseSessionEventRetention := by
        rw [hid]
        exact hledger'.length_le.trans hE.card_le
      have hsess := (recordAttempt_sameAssignment m ack).trans (recordApplied_sameAssignment _ ack)
      rw [hs]
      refine ⟨reducedRow rq m ack t, ?_,
        (hrow.offer hE rq he hsame hlen).congr hD ⟨rfl, rfl, rfl⟩,
        hledger'.congr hD (fun ev _ => ?_)⟩
      · rw [reducedStore, Table.get_upsert,
          if_pos ((reducedRow_sameAssignment rq m ack t).sessionID.trans hid)]
      · rw [reducedStore, expireEvents_of_le (by rw [hsess.sessionID]; exact hlen)]
  · have hD : ∀ e ∈ E, DeliveredIn sid hist e ↔ DeliveredIn sid (hist ++ [c]) e := by
      intro e _
      rw [deliveredIn_append, or_iff_left]
      rintro ⟨ref, ack, hop, href, _⟩
      exact hack ⟨ref, ack, hop, href⟩
    obtain ⟨m, hm, hrow, hledger⟩ := reduced_step_other h hstep.alive hack
    exact ⟨m, hm, hrow.congr hD ⟨rfl, rfl, rfl⟩, hledger.congr hD (fun _ _ => Iff.rfl)⟩

/-! ## 主定理 -/

theorem reduced_registered {resume : Bool} (hown : SessionOwned s)
    (hfresh : s.sessions.get ref.sessionID = none)
    (halive : SessionAlive ref.sessionID (step s ⟨rq, .registerSession ref resume⟩)) :
    Reduced E ref.sessionID (DeliveredIn ref.sessionID [])
      (step s ⟨rq, .registerSession ref resume⟩) := by
  have habsent : ¬ SessionAlive ref.sessionID s := by
    unfold SessionAlive
    rw [hfresh]
    exact Bool.false_ne_true
  have hnothing : ∀ e, ¬ DeliveredIn ref.sessionID [] e := by
    rintro e ⟨c, hc, _⟩
    exact List.not_mem_nil hc
  generalize hs : step s ⟨rq, .registerSession ref resume⟩ = s' at halive ⊢
  rcases commit_cases hs with rfl | ⟨u, h⟩
  · exact absurd halive habsent
  · rcases registerReleaseSession_ok_cases h with rfl | ⟨nsID, t, _, ht, rfl⟩
    · exact absurd halive habsent
    · refine ⟨newSession ref nsID rq.now, ?_, ⟨?_, ?_, rfl⟩, ?_⟩
      · show t.get ref.sessionID = _
        rw [Table.get_insert? ht]
        exact if_pos rfl
      · exact Latest.of_empty (fun e he => hnothing e he.2)
      · exact Latest.of_empty (fun e he => hnothing e he.1.2)
      · intro ev hsid
        refine ⟨fun hev => ?_, ?_⟩
        · have hsome := hown.events ev hev
          rw [hsid, hfresh] at hsome
          cases hsome
        · rintro ⟨e, _, hD, _⟩
          exact absurd hD (hnothing e)

/-- run の全ての一歩の条件から、終わりの状態の対応が出る。 -/
theorem reduced_run (hE : AckSet E) {cs : List Call} (h : Reduced E sid (DeliveredIn sid []) s)
    (horder : AlongSteps step (OrderlyStep E sid) s cs) :
    Reduced E sid (DeliveredIn sid cs) (run step s cs) :=
  run_history (I := fun hist s => Reduced E sid (DeliveredIn sid hist) s)
    (fun _ _ _ hstep h => reduced_step hE hstep h) h horder

omit [Hashing] in
theorem newerAttempt_iff_max (hE : AckSet E) {m : ReleaseSessionModel}
    (hrow : ReducedRow E D m) (he : e ∈ E) (hsame : SameEvent ack e) :
    newerAttempt m ack ↔
      ∀ e' ∈ E, D e' → (attemptOf e').rank < (attemptOf ack).rank := by
  rw [newerAttempt_iff, hsame.attemptOf,
    hrow.attempt.lt_iff (attempt_none_lt (hE.nonzero e he))]
  exact ⟨fun h e' he' hD => h e' ⟨he', hD⟩, fun h e' hc => h e' hc.1 hc.2⟩

/--
空の store から `hist` を経て登録した session に、続く run `cs` で `E` の event がどの順序で何度届いても、

* 初めて届いた event は、それまでに届いた全ての event を超えるとき accepted、さもなくば stale である
* 既に届いた event は duplicate であり、行の時刻の他に何も変えない
* `E` の全てが届いていれば、attempt の欄は `E` の最大、last-applied の欄は applied の中の最大である
-/
theorem acknowledgement_order_independent (hist : List Call) (rq : Request)
    (ref : ReleaseSessionRef) (resume : Bool) (s : Store) (E : Finset ReleaseAcknowledgement)
    (cs : List Call) (hE : AckSet E)
    (hfresh : (run step Store.empty hist).sessions.get ref.sessionID = none)
    (hs : step (run step Store.empty hist) ⟨rq, .registerSession ref resume⟩ = s)
    (hregistered : SessionAlive ref.sessionID s)
    (horder : AlongSteps step (OrderlyStep E ref.sessionID) s cs) :
    (∀ before c after ref' ack, cs = before ++ c :: after → c.op = .acknowledge ref' ack →
        ref'.sessionID = ref.sessionID →
        ((∀ e ∈ E, SameEvent ack e → ¬ DeliveredIn ref.sessionID before e) →
          ((∀ e ∈ E, DeliveredIn ref.sessionID before e →
              (attemptOf e).rank < (attemptOf ack).rank) →
            (exec (run step s before) c).1.disposition = some .accepted) ∧
          (¬ (∀ e ∈ E, DeliveredIn ref.sessionID before e →
              (attemptOf e).rank < (attemptOf ack).rank) →
            (exec (run step s before) c).1.disposition = some .stale)) ∧
        (∀ e ∈ E, SameEvent ack e → DeliveredIn ref.sessionID before e →
          (exec (run step s before) c).1.disposition = some .duplicate ∧
          ∃ m, (run step s before).sessions.get ref.sessionID = some m ∧
            step (run step s before) c =
              { run step s before with
                sessions := (run step s before).sessions.upsert
                  { m with serverTimestamp := c.rq.now } })) ∧
      ((∀ e ∈ E, DeliveredIn ref.sessionID cs e) →
        ∃ m, (run step s cs).sessions.get ref.sessionID = some m ∧
          Latest Attempt.rank attemptOf Attempt.none (· ∈ E) m.attempt ∧
          Latest Applied.rank appliedOf Applied.none (fun e => e ∈ E ∧ e.state = .applied)
            m.applied) := by
  subst hs
  have hstart := reduced_registered (E := E) (ledgerInv_run hist).owned hfresh hregistered
  refine ⟨?_, fun hall => ?_⟩
  · rintro before c after ref' ack rfl hc href
    obtain ⟨e, he, hsame, ⟨m₀, hlive⟩, hmatch⟩ := horder.at.delivery ref' ack hc href
    obtain ⟨m, hm, hrow, hledger⟩ := reduced_run hE hstart (AlongSteps.append.mp horder).1
    obtain ⟨rq', op⟩ := c
    cases hc
    obtain ⟨_, _, hget, _, _⟩ := sessionTx_ok hlive.1
    rw [href, hm] at hget
    obtain rfl : m = m₀ := Option.some.inj hget
    refine ⟨fun hfirst => ?_, fun e' he' hsame' hD => ?_⟩
    · obtain ⟨_, _, hdisp, _⟩ := exec_first_delivery hE hrow hledger hlive href he hsame
        (hfirst e he hsame) hmatch
      rw [hdisp]
      refine ⟨fun hmax => ?_, fun hmax => ?_⟩
      · rw [if_pos ((newerAttempt_iff_max hE hrow he hsame).mpr hmax)]
      · rw [if_neg (mt (newerAttempt_iff_max hE hrow he hsame).mp hmax)]
    · obtain ⟨hdisp, hs⟩ := exec_redelivery hE hledger hlive href he' hsame' hD
      exact ⟨hdisp, m, hm, hs⟩
  · obtain ⟨m, hm, hrow, _⟩ := reduced_run hE hstart horder
    refine ⟨m, hm, hrow.attempt.congr (fun e => ?_), hrow.applied.congr (fun e => ?_)⟩
    · exact ⟨fun h => h.1, fun h => ⟨h, hall e h⟩⟩
    · exact ⟨fun h => ⟨h.1.1, h.2⟩, fun h => ⟨⟨h.1, hall e h.1⟩, h.2⟩⟩

end

section Sample

local instance ackOrderSampleHashing : Hashing := sampleHashing

def sampleAcks : Finset ReleaseAcknowledgement := {sampleAck 1 .received, sampleAck 2 .applied}

/-- 後の event が先に届き、再接続の後に再送される。 -/
def shuffledCalls : List Call :=
  [⟨sampleRequest, .connectSession sampleSession "c1" true⟩,
    ⟨sampleRequest, .resolveInstance sampleSession⟩,
    ⟨sampleRequest, .acknowledge sampleSession (sampleAck 2 .applied)⟩,
    ⟨sampleRequest, .acknowledge sampleSession (sampleAck 1 .received)⟩,
    ⟨sampleRequest, .connectSession sampleSession "c2" true⟩,
    ⟨sampleRequest, .acknowledge sampleSession
      { sampleAck 2 .applied with connectionID := "c2" }⟩]

/-- 例: 逆順と再送でも、残る attempt は二つの event の最大である。 -/
theorem acknowledgement_order_independent_sample :
    ∃ m, (run step (step (run step Store.empty (sampleCalls.take 3))
        ⟨sampleRequest, .registerSession sampleSession false⟩) shuffledCalls).sessions.get
          "session-1" = some m ∧
      Latest Attempt.rank attemptOf Attempt.none (· ∈ sampleAcks) m.attempt := by
  have hE : AckSet sampleAcks := ⟨by decide, by decide, by decide, by decide, by decide⟩
  have hdelivery : ∀ {s : Store} {ack e : ReleaseAcknowledgement}, e ∈ sampleAcks →
      SameEvent ack e →
      SessionAlive "session-1" (step s ⟨sampleRequest, .acknowledge sampleSession ack⟩) →
      (∃ m, LiveDelivery sampleRequest s sampleSession ack m) → MatchesDelivery s "session-1" ack →
      OrderlyStep sampleAcks "session-1" s ⟨sampleRequest, .acknowledge sampleSession ack⟩ := by
    intro s ack e he hsame halive hlive hmatch
    refine ⟨halive, fun ref ack' hop _ => ?_⟩
    cases hop
    exact ⟨e, he, hsame, hlive, fun _ => hmatch⟩
  have horder : AlongSteps step (OrderlyStep sampleAcks "session-1")
      (step (run step Store.empty (sampleCalls.take 3))
        ⟨sampleRequest, .registerSession sampleSession false⟩) shuffledCalls := by
    refine ⟨⟨by decide, fun _ _ h => nomatch h⟩, ⟨by decide, fun _ _ h => nomatch h⟩,
      hdelivery (e := sampleAck 2 .applied) (by decide) rfl (by decide) (by decide) (by decide),
      hdelivery (e := sampleAck 1 .received) (by decide) rfl (by decide) (by decide) (by decide),
      ⟨by decide, fun _ _ h => nomatch h⟩,
      hdelivery (e := sampleAck 2 .applied) (by decide) rfl (by decide) (by decide) (by decide),
      trivial⟩
  obtain ⟨_, hfinal⟩ := acknowledgement_order_independent (sampleCalls.take 3) sampleRequest
    sampleSession false _ sampleAcks shuffledCalls hE (by decide) rfl (by decide) horder
  obtain ⟨m, hm, hattempt, _⟩ := hfinal (by
    intro e he
    rcases Finset.mem_insert.mp he with rfl | he
    · exact ⟨_, List.mem_of_getElem? (i := 3) rfl, sampleSession, _, rfl, rfl, rfl⟩
    · rw [Finset.mem_singleton.mp he]
      exact ⟨_, List.mem_of_getElem? (i := 2) rfl, sampleSession, _, rfl, rfl, rfl⟩)
  exact ⟨m, hm, hattempt⟩

/-- 登録と接続と解決を終えた session。 -/
def sampleResolved : Store := run step (step (run step Store.empty (sampleCalls.take 3))
  ⟨sampleRequest, .registerSession sampleSession false⟩) (shuffledCalls.take 2)

/-- 最上位 bit の立った sequence は、生きた接続から、delivery の行と一致する target を返しても、`unavailable` で
終わり、行も台帳も変えない。 -/
theorem high_bit_sequence_unavailable :
    (∃ m, LiveDelivery sampleRequest sampleResolved sampleSession (sampleAck (2 ^ 63) .applied) m) ∧
      MatchesDelivery sampleResolved "session-1" (sampleAck (2 ^ 63) .applied) ∧
      (exec sampleResolved
          ⟨sampleRequest, .acknowledge sampleSession (sampleAck (2 ^ 63) .applied)⟩).1.disposition =
        some .unavailable ∧
      step sampleResolved
          ⟨sampleRequest, .acknowledge sampleSession (sampleAck (2 ^ 63) .applied)⟩ =
        sampleResolved :=
  ⟨by decide, by decide, by decide, rfl⟩

end Sample

end Kms.Storage
