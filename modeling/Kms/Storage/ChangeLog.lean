import Mathlib.Data.List.Sort
import Kms.Storage.Model

/-!
# change log の読み出しと保持期限

`internal/storage/changelog.go` を写す。revision は AUTOINCREMENT で、行を消しても再利用されない。
-/

namespace Kms.Storage

open Kms.Infra

/-! ## 読み出し -/

abbrev ChangeLog := Journal ChangeLogModel.revision

def clampLimit (limit : Nat) : Nat :=
  if limit = 0 then 100 else if limit > 1000 then 1000 else limit

/-- `currentRevision`。`sqlite_sequence` を読むので、全ての行を消しても戻らない。 -/
def currentRevision (log : ChangeLog) : Nat := log.seq

/-- `OldestRetainedRevision`。空なら `0`。 -/
def oldestRetainedRevision (log : ChangeLog) : Nat := (log.rows.head?.map (·.revision)).getD 0

/-- `ListChangesSince`。行は revision の昇順に並んでいる。 -/
def listChangesSince (log : ChangeLog) (since limit : Nat) : List ChangeLogModel :=
  (log.rows.filter (fun m => decide (since < m.revision))).take (clampLimit limit)

variable {log log' : ChangeLog} {l : List ChangeLogModel}

theorem mem_listChangesSince {since limit : Nat} {m : ChangeLogModel}
    (h : m ∈ listChangesSince log since limit) : m ∈ log ∧ since < m.revision := by
  have hm := List.mem_filter.mp (List.mem_of_mem_take h)
  exact ⟨hm.1, of_decide_eq_true hm.2⟩

/-! ## revision の順に並ぶ列 -/

/-- revision の狭義昇順。 -/
def Increasing (l : List ChangeLogModel) : Prop :=
  l.Pairwise (fun a b => a.revision < b.revision)

theorem Increasing.nodup (h : Increasing l) : l.Nodup := by
  refine List.Pairwise.imp ?_ h
  rintro a b hlt rfl
  exact Nat.lt_irrefl _ hlt

theorem Increasing.ext {l' : List ChangeLogModel} (h : Increasing l) (h' : Increasing l')
    (hmem : ∀ e, e ∈ l ↔ e ∈ l') : l = l' := by
  have hperm : l.Perm l' := (List.perm_ext_iff_of_nodup h.nodup h'.nodup).mpr hmem
  refine hperm.eq_of_pairwise ?_ h h'
  intro a b _ _ hab hba
  exact absurd (hab.trans hba) (Nat.lt_irrefl _)

theorem Increasing.append_singleton {e : ChangeLogModel}
    (h : Increasing l) (he : ∀ x ∈ l, x.revision < e.revision) : Increasing (l ++ [e]) := by
  refine List.pairwise_append.mpr ⟨h, List.pairwise_singleton _ _, ?_⟩
  intro a ha b hb
  rw [List.mem_singleton.mp hb]
  exact he a ha

theorem Increasing.eq_of_revision_eq (h : Increasing l)
    {a b : ChangeLogModel} (ha : a ∈ l) (hb : b ∈ l) (he : a.revision = b.revision) : a = b := by
  have hinj : (l.map ChangeLogModel.revision).Nodup := by
    refine List.Pairwise.map _ ?_ h
    exact fun a b hab => Nat.ne_of_lt hab
  exact List.inj_on_of_nodup_map hinj ha hb he

theorem increasing_listChangesSince (log : ChangeLog) (since limit : Nat) :
    Increasing (listChangesSince log since limit) :=
  (log.sorted.filter _).take

theorem listChangesSince_eq_take {since limit : Nat}
    {rest : List ChangeLogModel} (hrest : Increasing rest)
    (hmem : ∀ e, e ∈ rest ↔ e ∈ log ∧ since < e.revision) :
    listChangesSince log since limit = rest.take (clampLimit limit) := by
  have hrows : log.rows.filter (fun m => decide (since < m.revision)) = rest := by
    refine Increasing.ext (log.sorted.filter _) hrest (fun e => ?_)
    rw [List.mem_filter, decide_eq_true_eq, hmem]
    exact Iff.rfl
  rw [listChangesSince, hrows]

/-- `cursor` より後の entry。 -/
def ahead (history : List ChangeLogModel) (cursor : Nat) : List ChangeLogModel :=
  history.filter (fun e => decide (cursor < e.revision))

theorem mem_ahead {history : List ChangeLogModel} {cursor : Nat} {e : ChangeLogModel} :
    e ∈ ahead history cursor ↔ e ∈ history ∧ cursor < e.revision := by
  simp [ahead]

theorem Increasing.head_ahead {history rest : List ChangeLogModel} {cursor : Nat}
    {e : ChangeLogModel} (hinc : Increasing history) (h : e :: rest <+: ahead history cursor) :
    e ∈ history ∧ cursor < e.revision ∧
      (∀ x ∈ history, x.revision ≤ e.revision ↔ x.revision ≤ cursor ∨ x = e) ∧
      rest <+: ahead history e.revision := by
  obtain ⟨tail, htail⟩ := h
  have hmem : ∀ x, x ∈ history ∧ cursor < x.revision ↔ x = e ∨ x ∈ rest ++ tail := by
    intro x
    rw [← mem_ahead, ← htail, List.cons_append, List.mem_cons]
  have hsorted : Increasing (ahead history cursor) := hinc.filter _
  rw [← htail] at hsorted
  obtain ⟨hfirst, hrest⟩ := List.pairwise_cons.mp hsorted
  obtain ⟨he, hlt⟩ := (hmem e).mpr (Or.inl rfl)
  refine ⟨he, hlt, fun x hx => ⟨fun hle => ?_, ?_⟩, tail, ?_⟩
  · by_cases hc : x.revision ≤ cursor
    · exact Or.inl hc
    · refine Or.inr (((hmem x).mp ⟨hx, Nat.lt_of_not_le hc⟩).resolve_right (fun hx' => ?_))
      exact absurd (hfirst x hx') (Nat.not_lt_of_le hle)
  · rintro (hle | rfl)
    · omega
    · exact le_rfl
  · refine Increasing.ext hrest (hinc.filter _) (fun x => ?_)
    rw [mem_ahead]
    constructor
    · exact fun hx => ⟨((hmem x).mpr (Or.inr hx)).1, hfirst x hx⟩
    · rintro ⟨hx, hgt⟩
      refine ((hmem x).mp ⟨hx, hlt.trans hgt⟩).resolve_left (fun heq => ?_)
      exact Nat.lt_irrefl _ (heq ▸ hgt)

theorem listChangesSince_ahead {history : List ChangeLogModel} {cursor : Nat}
    (hinc : Increasing history) (hlog : ∀ e, cursor < e.revision → (e ∈ log ↔ e ∈ history))
    (limit : Nat) : listChangesSince log cursor limit <+: ahead history cursor := by
  rw [@listChangesSince_eq_take log cursor limit (ahead history cursor)
    (hinc.filter _) (fun e => ?_)]
  · exact List.take_prefix _ _
  · rw [mem_ahead]
    exact and_congr_left (fun hlt => (hlog e hlt).symm)

/-! ## 範囲の entry -/

/-- 範囲 `(lo, hi]` の entry のうち、`p` に当たるもの。 -/
def between (p : ChangeLogModel → Bool) (history : List ChangeLogModel) (lo hi : Nat) :
    List ChangeLogModel :=
  history.filter (fun e => p e && decide (lo < e.revision ∧ e.revision ≤ hi))

section Between

variable {p : ChangeLogModel → Bool} {history : List ChangeLogModel} {lo hi : Nat}
  {e : ChangeLogModel}

theorem mem_between :
    e ∈ between p history lo hi ↔ e ∈ history ∧ p e = true ∧ lo < e.revision ∧ e.revision ≤ hi := by
  simp [between]

theorem Increasing.between (h : Increasing history) : Increasing (between p history lo hi) :=
  h.filter _

theorem between_self (p : ChangeLogModel → Bool) (history : List ChangeLogModel) (lo : Nat) :
    between p history lo lo = [] := by
  refine List.filter_eq_nil_iff.mpr (fun e _ => ?_)
  rw [Bool.and_eq_true, decide_eq_true_eq]
  rintro ⟨_, hlt, hle⟩
  exact absurd hlt (Nat.not_lt_of_le hle)

theorem between_append {new : List ChangeLogModel} (h : ∀ x ∈ new, hi < x.revision) :
    between p (history ++ new) lo hi = between p history lo hi := by
  have hnil : between p new lo hi = [] := by
    refine List.filter_eq_nil_iff.mpr (fun x hx => ?_)
    rw [Bool.and_eq_true, decide_eq_true_eq]
    rintro ⟨_, _, hle⟩
    exact absurd (h x hx) (Nat.not_lt_of_le hle)
  unfold between at hnil ⊢
  rw [List.filter_append, hnil, List.append_nil]

theorem between_succ (hinc : Increasing history) (hle : lo ≤ hi) (he : e ∈ history)
    (hrev : e.revision = hi + 1) :
    between p history lo e.revision = between p history lo hi ++ (if p e then [e] else []) := by
  have hnext : ∀ x ∈ history, (x.revision ≤ e.revision ↔ x.revision ≤ hi ∨ x = e) := by
    intro x hx
    constructor
    · intro hxe
      by_cases hxh : x.revision ≤ hi
      · exact Or.inl hxh
      · exact Or.inr (hinc.eq_of_revision_eq hx he (by omega))
    · rintro (hxh | rfl)
      · omega
      · exact le_rfl
  have hinc' : Increasing (Storage.between p history lo hi ++ (if p e then [e] else [])) := by
    split
    · refine Increasing.append_singleton hinc.between (fun x hx => ?_)
      have hx' := (mem_between.mp hx).2.2.2
      omega
    · rw [List.append_nil]
      exact hinc.between
  refine Increasing.ext hinc.between hinc' (fun x => ?_)
  have htail : x ∈ (if p e then [e] else []) ↔ p x = true ∧ x = e := by
    split
    · next hw =>
      rw [List.mem_singleton]
      exact ⟨fun hx => ⟨hx ▸ hw, hx⟩, fun hx => hx.2⟩
    · next hw =>
      refine ⟨fun hx => absurd hx List.not_mem_nil, fun hx => absurd (hx.2 ▸ hx.1) hw⟩
  rw [List.mem_append, mem_between, htail, mem_between]
  constructor
  · rintro ⟨hx, hw, hlt, hxe⟩
    rcases (hnext x hx).mp hxe with hxh | rfl
    · exact Or.inl ⟨hx, hw, hlt, hxh⟩
    · exact Or.inr ⟨hw, rfl⟩
  · rintro (⟨hx, hw, hlt, hxh⟩ | ⟨hw, rfl⟩)
    · exact ⟨hx, hw, hlt, (hnext x hx).mpr (Or.inl hxh)⟩
    · exact ⟨he, hw, by omega, le_rfl⟩

end Between

/-! ## snapshot -/

/-- `current` label の parameter。 -/
structure Parameter where
  ref : Ref
  value : String
  contentType : String
  version : Nat
  metadata : String
  createdBy : String
  labels : List (Label × Nat)
  deriving DecidableEq

/-- `snapshotNamespaceIDs`。名前の行を一度に引き、文脈の incarnation と違えば Aborted。 -/
def snapshotNamespaceIDs (rq : Request) (s : Store) (namespaces : List NamespaceRef) :
    Except Err (List NamespaceModel) := do
  let rows := s.namespaces.table.rows.filter (fun m =>
    decide (m.ref ∈ namespaces) && (rq.incarnation m.ref).all (fun id => decide (m.id = id)))
  require (∀ ns ∈ namespaces, ∀ id ∈ rq.incarnation ns, (⟨id, ns⟩ : NamespaceModel) ∈ rows)
    (.aborted "subscribed namespace changed during request; retry")
  pure rows

/-- 一つの parameter を current label で引く。label か version が無ければ落とす。 -/
def snapshotRow (s : Store) (n : NamespaceModel) (p : ParameterModel) : Option Parameter := do
  let label ← s.parameterLabels.get (p.id, .current)
  let v ← s.parameterVersions.get (p.id, label.versionNumber)
  pure
    { ref := ⟨n.ref, p.name⟩
      value := v.value
      contentType := v.contentType
      version := v.versionNumber
      metadata := v.metadataJSON
      createdBy := v.createdBy
      labels := (s.parameterLabels.rows.filter (fun l => decide (l.parameterID = p.id))).map
        (fun l => (l.label, l.versionNumber)) }

/-- `SnapshotParameters` の並び順。 -/
def snapshotLe (a b : Parameter) : Bool :=
  decide (a.ref.ns.env < b.ref.ns.env) ||
    (decide (a.ref.ns.env = b.ref.ns.env) && (decide (a.ref.ns.app < b.ref.ns.app) ||
      (decide (a.ref.ns.app = b.ref.ns.app) && decide (a.ref.key ≤ b.ref.key))))

/-- `SnapshotParameters`。一つの読み取り transaction の中の revision と値。 -/
def snapshotParameters (rq : Request) (s : Store) (namespaces : List NamespaceRef) :
    Except Err (List Parameter × Nat) := do
  let rows ← snapshotNamespaceIDs rq s namespaces
  let found := rows.flatMap (fun n =>
    (s.parameters.table.rows.filter (fun p => decide (p.namespaceID = n.id))).filterMap
      (snapshotRow s n))
  pure (found.insertionSort (fun a b => snapshotLe a b), currentRevision s.changeLog)

/-! ## 保持期限 -/

/-- 件数で残す最小の revision。`maxRows = 0` なら全てを消す。 -/
def keepThreshold (log : ChangeLog) (maxRows : Nat) : Nat :=
  if maxRows = 0 then log.seq + 1
  else ((log.rows.reverse.drop (maxRows - 1)).head?.map (·.revision)).getD 0

/-- `PruneChangeLog`。期限切れの行と、新しい方から `maxRows` 件を超えた行を消す。 -/
def pruneChangeLog (rq : Request) (s : Store) (keepDuration maxRows : Nat) : Store :=
  { s with
    changeLog := s.changeLog.deleteWhere (fun m =>
      decide (m.createdAt < rq.now - keepDuration) ||
        decide (m.revision < keepThreshold s.changeLog maxRows)) }

/-! ## 一歩 -/

/-- 一つの transaction が change log にすること。prune は、どの行の集合を消してもよい。 -/
inductive LogStep (log : ChangeLog) : ChangeLog → Prop
  | same : LogStep log log
  | appended (entry : ChangeEntry) (namespaceID : Nat) (now : Time) :
      LogStep log (logChange log entry namespaceID now)
  | pruned (p : ChangeLogModel → Bool) : LogStep log (log.deleteWhere p)

theorem LogStep.seq_le (h : LogStep log log') : log.seq ≤ log'.seq := by
  cases h with
  | same | pruned => exact le_rfl
  | appended => exact Nat.le_succ _

/-- 一つの transaction で新しく commit された entry。 -/
def committedBy (log log' : ChangeLog) : List ChangeLogModel :=
  log'.rows.filter (fun e => decide (log.seq < e.revision))

theorem committedBy_eq_nil (h : log'.seq ≤ log.seq) : committedBy log log' = [] := by
  refine List.filter_eq_nil_iff.mpr (fun e he => ?_)
  rw [decide_eq_true_eq]
  exact Nat.not_lt_of_le (Nat.le_trans (log'.rev_le e he) h)

theorem committedBy_logChange (log : ChangeLog) (entry : ChangeEntry) (namespaceID : Nat)
    (now : Time) : committedBy log (logChange log entry namespaceID now) =
      [entry.row namespaceID now (log.seq + 1)] := by
  show (log.rows ++ [entry.row namespaceID now (log.seq + 1)]).filter _ = _
  rw [List.filter_append, show log.rows.filter _ = [] from committedBy_eq_nil le_rfl]
  simp [ChangeEntry.row]

theorem LogStep.contiguous (h : LogStep log log') :
    (committedBy log log').map (·.revision) =
      List.range' (log.seq + 1) (log'.seq - log.seq) := by
  cases h with
  | same =>
    rw [committedBy_eq_nil le_rfl, Nat.sub_self]
    rfl
  | appended entry namespaceID now =>
    rw [committedBy_logChange, seq_logChange, Nat.add_sub_cancel_left]
    rfl
  | pruned p =>
    have hseq : (log.deleteWhere p).seq ≤ log.seq := le_rfl
    rw [committedBy_eq_nil hseq, Journal.seq_deleteWhere, Nat.sub_self]
    rfl

theorem LogStep.retained (h : LogStep log log') {e : ChangeLogModel}
    (he : e ∈ log') : e ∈ log ∨ e ∈ committedBy log log' := by
  cases h with
  | same => exact Or.inl he
  | appended entry namespaceID now =>
    rw [committedBy_logChange, List.mem_singleton]
    exact mem_logChange.mp he
  | pruned p => exact Or.inl (Journal.mem_deleteWhere.mp he).1

end Kms.Storage
