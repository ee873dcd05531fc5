import Kms.Watch.Hub

/-!
# dispatch loop

`Hub.Run` の select loop と `drain` を、途中で他の goroutine の commit と `Wake` が入りうる所ごとの event に分けて写す。
保持期限の tick は同じ loop の中で走るので、drain の途中には入らない。

`SetReleasePin` の commit は `Wake` を呼ばないので、commit は `Wake` を伴うとは限らない。

* `LoopInv` — 渡した列は commit された列の先頭であり、残りは全て log にある
* `hub_dispatches_every_change` — 主定理。最後に読み切った後の commit が、保持期限の件数と長さに収まるときに成り立つ
* `prune_loses_undispatched` — 保持期限は cursor を見ないので、drain の失敗の間に、渡していない entry を消しうる
-/

namespace Kms.Watch

open Kms.Infra Kms.Storage

/-! ## 設定 -/

/-- change log の保持期限の設定。`0` は既定値になる。 -/
structure RetainOptions where
  retainDuration : Nat
  retainRows : Nat
  deriving DecidableEq

/-- 24 時間。 -/
def defaultRetainDuration : Nat := 24 * 3600 * 1000000000

def defaultRetainRows : Nat := 100000

/-- `withDefaults` の、保持期限の二つの欄。 -/
def RetainOptions.withDefaults (o : RetainOptions) : RetainOptions where
  retainDuration := if o.retainDuration = 0 then defaultRetainDuration else o.retainDuration
  retainRows := if o.retainRows = 0 then defaultRetainRows else o.retainRows

/-- 保持期限が消す行。 -/
def RetainOptions.expires (o : RetainOptions) (now : Time) (log : ChangeLog)
    (m : ChangeLogModel) : Bool :=
  decide (m.createdAt < now - o.retainDuration) ||
    decide (m.revision < keepThreshold log o.retainRows)

/-! ## 状態 -/

/-- drain を始めた select の枝。 -/
inductive DrainSource where
  | wake
  | retry
  deriving DecidableEq

/-- loop の居場所。`dispatching` の `full` は、頁が `dispatchBatch` 件だったことを、`busy` は先頭の entry を渡している
最中であることを表す。 -/
inductive LoopPhase where
  | idle
  | reading (source : DrainSource)
  | dispatching (source : DrainSource) (batch : List ChangeLogModel) (full busy : Bool)
  deriving DecidableEq

structure DispatchLoop where
  options : RetainOptions
  log : ChangeLog
  cursor : Nat
  phase : LoopPhase
  /-- 一つ分の `wake` の channel。 -/
  wake : Bool
  /-- 再試行の timer が動いている。 -/
  retry : Bool
  /-- commit したが、まだ `Wake` を呼んでいない書き手の数。 -/
  owed : Nat
  /-- 呼ばれたか、これから呼ばれる `Wake` より前の commit の数。証明のためだけに持つ。 -/
  announced : Nat
  /-- 最後に log を読み切った時の、commit の数。証明のためだけに持つ。 -/
  scanned : Nat
  /-- 起動の後に commit された entry。証明のためだけに持つ。 -/
  committed : List ChangeLogModel
  /-- `dispatch` に渡した entry。証明のためだけに持つ。 -/
  dispatched : List ChangeLogModel

/-- `Run` が起動時の revision を読んだ直後。 -/
def DispatchLoop.start (options : RetainOptions) (log : ChangeLog) : DispatchLoop where
  options := options.withDefaults
  log := log
  cursor := currentRevision log
  phase := .idle
  wake := false
  retry := false
  owed := 0
  announced := 0
  scanned := 0
  committed := []
  dispatched := []

/-! ## event -/

/-- `commit` の `wakes` は、書き手が後で `Wake` を呼ぶことを、`extraWake` は、commit の無い `Wake` を表す。 -/
inductive LoopEvent where
  | commit (entry : ChangeEntry) (namespaceID : Nat) (now : Time) (wakes : Bool)
  | wakeUp
  | extraWake
  | takeWake
  | retryFires
  | read
  | readFails
  | beginDispatch
  | endDispatch
  | pruneTick (now : Time)
  | livenessTick

/-- drain が終わった。wake の枝だけが再試行の timer を止める。 -/
def DispatchLoop.finishDrain (s : DispatchLoop) : DrainSource → DispatchLoop
  | .wake => { s with phase := .idle, retry := false }
  | .retry => { s with phase := .idle }

/-- `ListChangesSince` を一頁読む。空なら drain は終わる。 -/
def DispatchLoop.read (s : DispatchLoop) (source : DrainSource) : DispatchLoop :=
  let entries := listChangesSince s.log s.cursor dispatchBatch
  let scanned := if entries.length < dispatchBatch then s.committed.length else s.scanned
  if entries = [] then { s with scanned }.finishDrain source
  else
    { s with
      scanned
      phase := .dispatching source entries (decide (dispatchBatch ≤ entries.length)) false }

/-- 一つの entry を渡し終え、cursor を進める。頁の終わりでは、頁が一杯なら次を読む。 -/
def DispatchLoop.endDispatch (s : DispatchLoop) (source : DrainSource) (e : ChangeLogModel)
    (rest : List ChangeLogModel) (full : Bool) : DispatchLoop :=
  let s := { s with cursor := e.revision }
  match rest, full with
  | [], true => { s with phase := .reading source }
  | [], false => s.finishDrain source
  | _ :: _, _ => { s with phase := .dispatching source rest full false }

/-- 一つの event。起こりえない event は何も変えない。 -/
def loopStep (s : DispatchLoop) : LoopEvent → DispatchLoop
  | .commit entry namespaceID now wakes =>
    { s with
      log := logChange s.log entry namespaceID now
      owed := s.owed + wakes.toNat
      announced := if wakes then s.committed.length + 1 else s.announced
      committed := s.committed ++ [entry.row namespaceID now (s.log.seq + 1)] }
  | .wakeUp =>
    if s.owed = 0 then s
    else { s with wake := true, owed := s.owed - 1, announced := s.committed.length }
  | .extraWake => { s with wake := true, announced := s.committed.length }
  | .takeWake =>
    if s.phase = .idle ∧ s.wake = true then { s with wake := false, phase := .reading .wake } else s
  | .retryFires =>
    if s.phase = .idle ∧ s.retry = true then { s with retry := false, phase := .reading .retry }
    else s
  | .read =>
    match s.phase with
    | .reading source => s.read source
    | _ => s
  | .readFails =>
    match s.phase with
    | .reading _ => { s with phase := .idle, retry := true }
    | _ => s
  | .beginDispatch =>
    match s.phase with
    | .dispatching source (e :: rest) full false =>
      { s with
        phase := .dispatching source (e :: rest) full true
        dispatched := s.dispatched ++ [e] }
    | _ => s
  | .endDispatch =>
    match s.phase with
    | .dispatching source (e :: rest) full true => s.endDispatch source e rest full
    | _ => s
  | .pruneTick now =>
    if s.phase = .idle then { s with log := s.log.deleteWhere (s.options.expires now s.log) } else s
  | .livenessTick => s

/-! ## 不変条件 -/

def DispatchLoop.undispatched (s : DispatchLoop) : List ChangeLogModel :=
  s.committed.drop s.dispatched.length

def DispatchLoop.willDrain (s : DispatchLoop) : Prop := 0 < s.owed ∨ s.wake = true

/-- 居場所ごとの不変条件。`first` は起動時の revision。 -/
def PhaseInv (first : Nat) (s : DispatchLoop) : LoopPhase → Prop
  | .idle => s.cursor = first + s.dispatched.length ∧ s.scanned ≤ s.dispatched.length ∧
    (s.dispatched.length < s.announced → s.willDrain ∨ s.retry = true)
  | .reading _ => s.cursor = first + s.dispatched.length ∧ s.scanned ≤ s.dispatched.length
  | .dispatching _ batch full false => batch ≠ [] ∧ s.cursor = first + s.dispatched.length ∧
    batch <+: s.undispatched ∧ s.scanned ≤ s.dispatched.length + batch.length ∧
    (full = false → s.dispatched.length + batch.length < s.announced → s.willDrain)
  | .dispatching _ batch full true => ∃ e rest, batch = e :: rest ∧
    e.revision = first + s.dispatched.length ∧ rest <+: s.undispatched ∧
    s.scanned ≤ s.dispatched.length + rest.length ∧
    (full = false → s.dispatched.length + rest.length < s.announced → s.willDrain)

structure LoopInv (first : Nat) (s : DispatchLoop) : Prop where
  rows : s.options.retainRows ≠ 0
  contiguous : s.committed.map (·.revision) = List.range' (first + 1) s.committed.length
  seq : s.log.seq = first + s.committed.length
  logged : ∀ e ∈ s.log, first < e.revision → e ∈ s.committed
  dispatched : s.dispatched <+: s.committed
  retained : ∀ e ∈ s.undispatched, e ∈ s.log
  announced : s.announced ≤ s.committed.length
  phase : PhaseInv first s s.phase

theorem withDefaults_retainRows (o : RetainOptions) : o.withDefaults.retainRows ≠ 0 := by
  unfold RetainOptions.withDefaults
  dsimp only
  split
  · decide
  · assumption

theorem loopInv_start (options : RetainOptions) (log : ChangeLog) :
    LoopInv log.seq (DispatchLoop.start options log) where
  rows := withDefaults_retainRows options
  contiguous := rfl
  seq := rfl
  logged := fun e he hlt => absurd (log.rev_le e he) (Nat.not_le_of_lt hlt)
  dispatched := List.prefix_rfl
  retained := fun _ he => absurd he List.not_mem_nil
  announced := le_rfl
  phase := ⟨rfl, le_rfl, fun hlt => absurd hlt (Nat.lt_irrefl _)⟩

section

variable {first : Nat} {s : DispatchLoop}

theorem LoopInv.split (h : LoopInv first s) : s.dispatched ++ s.undispatched = s.committed :=
  List.prefix_iff_eq_append.mp h.dispatched

theorem LoopInv.length_committed (h : LoopInv first s) :
    s.committed.length = s.dispatched.length + s.undispatched.length := by
  rw [← h.split, List.length_append]

theorem LoopInv.increasing (h : LoopInv first s) : Increasing s.committed := by
  have hrange : (s.committed.map (·.revision)).Pairwise (· < ·) := by
    rw [h.contiguous]
    exact List.pairwise_lt_range'
  exact List.pairwise_map.mp hrange

theorem LoopInv.undispatched_revisions (h : LoopInv first s) :
    s.undispatched.map (·.revision) =
      List.range' (first + s.dispatched.length + 1) s.undispatched.length := by
  have hlen := h.length_committed
  unfold DispatchLoop.undispatched at hlen ⊢
  rw [List.map_drop, h.contiguous, List.drop_range', List.length_drop]
  congr 1
  omega

theorem LoopInv.dispatched_revisions (h : LoopInv first s) :
    s.dispatched.map (·.revision) = List.range' (first + 1) s.dispatched.length := by
  have hle : s.dispatched.length ≤ s.committed.length := h.dispatched.length_le
  have hprefix : s.dispatched.map (·.revision) <+: List.range' (first + 1) s.committed.length := by
    rw [← h.contiguous]
    exact h.dispatched.map _
  rw [List.prefix_iff_eq_take.mp hprefix, List.length_map, List.take_range'_of_length_ge hle]

theorem LoopInv.nextPage (h : LoopInv first s) (hcursor : s.cursor = first + s.dispatched.length) :
    listChangesSince s.log s.cursor dispatchBatch = s.undispatched.take dispatchBatch := by
  refine listChangesSince_eq_take h.increasing.drop (fun e => ?_)
  rw [hcursor]
  constructor
  · intro he
    refine ⟨h.retained e he, ?_⟩
    have hrev : e.revision ∈ s.undispatched.map (·.revision) := List.mem_map_of_mem he
    rw [h.undispatched_revisions, List.mem_range'_1] at hrev
    omega
  · rintro ⟨he, hlt⟩
    have hmem := h.logged e he (by omega)
    rw [← h.split, List.mem_append] at hmem
    refine hmem.resolve_left (fun hd => ?_)
    have hrev : e.revision ∈ s.dispatched.map (·.revision) := List.mem_map_of_mem hd
    rw [h.dispatched_revisions, List.mem_range'_1] at hrev
    omega

/-! ## event ごとの保存 -/

theorem undispatched_commit (h : LoopInv first s) (e : ChangeLogModel) :
    (s.committed ++ [e]).drop s.dispatched.length = s.undispatched ++ [e] := by
  rw [List.drop_append_of_le_length h.dispatched.length_le]
  rfl

theorem loopInv_commit (h : LoopInv first s) (entry : ChangeEntry) (namespaceID : Nat)
    (now : Time) (wakes : Bool) :
    LoopInv first (loopStep s (.commit entry namespaceID now wakes)) where
  rows := h.rows
  contiguous := by
    show (s.committed ++ [entry.row namespaceID now (s.log.seq + 1)]).map _ =
      List.range' (first + 1) (s.committed ++ [_]).length
    rw [List.map_append, h.contiguous, List.length_append, List.length_singleton,
      List.range'_concat, h.seq]
    simp [ChangeEntry.row]
    omega
  seq := by
    show s.log.seq + 1 = first + (s.committed ++ [_]).length
    rw [h.seq, List.length_append, List.length_singleton, Nat.add_assoc]
  logged := by
    intro e he hlt
    rcases mem_logChange.mp he with hold | rfl
    · exact List.mem_append_left _ (h.logged e hold hlt)
    · exact List.mem_append_right _ (List.mem_singleton_self _)
  dispatched := h.dispatched.trans (List.prefix_append _ _)
  retained := by
    intro e he
    have he : e ∈ (s.committed ++ [entry.row namespaceID now (s.log.seq + 1)]).drop
      s.dispatched.length := he
    rw [undispatched_commit h, List.mem_append, List.mem_singleton] at he
    exact mem_logChange.mpr (he.imp_left (h.retained e))
  announced := by
    show (if wakes then s.committed.length + 1 else s.announced) ≤ (s.committed ++ [_]).length
    have hle := h.announced
    rw [List.length_append, List.length_singleton]
    split <;> omega
  phase := by
    -- `Wake` を呼ぶ書き手だけが、知らされた commit を増やす
    have hwill : ∀ {n}, n < (loopStep s (.commit entry namespaceID now wakes)).announced →
        (loopStep s (.commit entry namespaceID now wakes)).willDrain ∨ n < s.announced := by
      intro n hn
      cases wakes with
      | true => exact .inl (.inl (Nat.succ_pos s.owed))
      | false => exact .inr hn
    have hkeep : s.willDrain → (loopStep s (.commit entry namespaceID now wakes)).willDrain :=
      fun hd => hd.imp_left (fun howed => Nat.lt_add_right _ howed)
    have hgrow : s.undispatched <+:
        (loopStep s (.commit entry namespaceID now wakes)).undispatched := by
      rw [show (loopStep s (.commit entry namespaceID now wakes)).undispatched = _ from
        undispatched_commit h _]
      exact List.prefix_append _ _
    have hphase := h.phase
    show PhaseInv first _ s.phase
    cases hp : s.phase with
    | idle =>
      rw [hp] at hphase
      obtain ⟨hcursor, hscan, hsig⟩ := hphase
      refine ⟨hcursor, hscan, fun hlt => ?_⟩
      rcases hwill hlt with hd | hlt
      · exact .inl hd
      · exact (hsig hlt).imp_left hkeep
    | reading source =>
      rw [hp] at hphase
      exact hphase
    | dispatching source batch full busy =>
      rw [hp] at hphase
      cases busy with
      | false =>
        obtain ⟨hne, hcursor, hbatch, hscan, hsig⟩ := hphase
        exact ⟨hne, hcursor, hbatch.trans hgrow, hscan,
          fun hf hlt => (hwill hlt).elim id (fun hlt => hkeep (hsig hf hlt))⟩
      | true =>
        obtain ⟨e, rest, hbatch, hrev, hrest, hscan, hsig⟩ := hphase
        exact ⟨e, rest, hbatch, hrev, hrest.trans hgrow, hscan,
          fun hf hlt => (hwill hlt).elim id (fun hlt => hkeep (hsig hf hlt))⟩

/-- `Wake` の後には drain が始まる。 -/
theorem LoopInv.signalled (h : LoopInv first s) (owed : Nat) :
    LoopInv first { s with wake := true, owed, announced := s.committed.length } where
  rows := h.rows
  contiguous := h.contiguous
  seq := h.seq
  logged := h.logged
  dispatched := h.dispatched
  retained := h.retained
  announced := le_rfl
  phase := by
    have hphase := h.phase
    have hwill : DispatchLoop.willDrain
        { s with wake := true, owed, announced := s.committed.length } := .inr rfl
    show PhaseInv first _ s.phase
    cases hp : s.phase with
    | idle =>
      rw [hp] at hphase
      exact ⟨hphase.1, hphase.2.1, fun _ => .inl hwill⟩
    | reading source =>
      rw [hp] at hphase
      exact hphase
    | dispatching source batch full busy =>
      rw [hp] at hphase
      cases busy with
      | false =>
        obtain ⟨hne, hcursor, hbatch, hscan, -⟩ := hphase
        exact ⟨hne, hcursor, hbatch, hscan, fun _ _ => hwill⟩
      | true =>
        obtain ⟨e, rest, hbatch, hrev, hrest, hscan, -⟩ := hphase
        exact ⟨e, rest, hbatch, hrev, hrest, hscan, fun _ _ => hwill⟩

theorem LoopInv.moved (h : LoopInv first s) {phase : LoopPhase} {wake retry : Bool} {scanned : Nat}
    (hphase : PhaseInv first { s with phase, wake, retry, scanned } phase) :
    LoopInv first { s with phase, wake, retry, scanned } :=
  ⟨h.rows, h.contiguous, h.seq, h.logged, h.dispatched, h.retained, h.announced, hphase⟩

/-- 一頁の後、drain は終わるか、その頁を渡し始める。 -/
theorem read_cases (s : DispatchLoop) (source : DrainSource) : ∃ scanned,
    s.read source = { s with scanned }.finishDrain source ∨ ∃ batch full,
      s.read source = { s with scanned, phase := .dispatching source batch full false } := by
  simp only [DispatchLoop.read]
  split
  · exact ⟨_, .inl rfl⟩
  · exact ⟨_, .inr ⟨_, _, rfl⟩⟩

theorem LoopInv.finishDrain (h : LoopInv first s) (source : DrainSource) {scanned : Nat}
    (hcursor : s.cursor = first + s.dispatched.length) (hscan : scanned ≤ s.dispatched.length)
    (hdone : s.dispatched.length < s.announced → s.willDrain) :
    LoopInv first ({ s with scanned }.finishDrain source) := by
  cases source with
  | wake | retry => exact h.moved ⟨hcursor, hscan, fun hlt => Or.inl (hdone hlt)⟩

theorem loopInv_read (h : LoopInv first s) (source : DrainSource)
    (hcursor : s.cursor = first + s.dispatched.length) (hscan : s.scanned ≤ s.dispatched.length) :
    LoopInv first (s.read source) := by
  have hlen := h.length_committed
  have hann := h.announced
  have htake : (s.undispatched.take dispatchBatch).length =
      min dispatchBatch s.undispatched.length := List.length_take
  simp only [DispatchLoop.read]
  rw [h.nextPage hcursor]
  by_cases hshort : (s.undispatched.take dispatchBatch).length < dispatchBatch
  · -- 短い頁は、まだ渡していない列の全てである
    have hall : s.undispatched.length = (s.undispatched.take dispatchBatch).length := by omega
    rw [if_pos hshort]
    split
    · next hnil =>
      rw [hnil, List.length_nil] at hall
      exact h.finishDrain source hcursor (by omega) (fun hlt => by omega)
    · next hnil =>
      refine h.moved ⟨hnil, hcursor, List.take_prefix _ _, ?_, fun _ hlt => absurd hlt ?_⟩
      · show s.committed.length ≤ s.dispatched.length + _
        omega
      · show ¬ s.dispatched.length + _ < s.announced
        omega
  · rw [if_neg hshort]
    have hne : s.undispatched.take dispatchBatch ≠ [] := by
      intro hnil
      rw [hnil] at hshort
      exact hshort (by decide)
    rw [if_neg hne]
    refine h.moved ⟨hne, hcursor, List.take_prefix _ _, Nat.le_add_right_of_le hscan,
      fun hfull => ?_⟩
    simp only [decide_eq_false_iff_not] at hfull
    omega

variable {source : DrainSource} {e : ChangeLogModel} {rest : List ChangeLogModel} {full : Bool}

theorem loopInv_beginDispatch (h : LoopInv first s) {full : Bool}
    (hp : s.phase = .dispatching source (e :: rest) full false) :
    LoopInv first { s with
      phase := .dispatching source (e :: rest) full true
      dispatched := s.dispatched ++ [e] } := by
  have hphase := h.phase
  rw [hp] at hphase
  obtain ⟨_, hcursor, hbatch, hscan, hsig⟩ := hphase
  obtain ⟨tail, htail⟩ := hbatch
  have hnext : s.undispatched = e :: (rest ++ tail) := htail.symm
  have hdrop : s.committed.drop (s.dispatched ++ [e]).length = rest ++ tail := by
    rw [List.length_append, List.length_singleton, ← List.drop_drop]
    show s.undispatched.drop 1 = _
    rw [hnext]
    rfl
  have hcount : (s.dispatched ++ [e]).length + rest.length =
      s.dispatched.length + (e :: rest).length := by
    simp only [List.length_append, List.length_cons, List.length_nil]
    omega
  refine ⟨h.rows, h.contiguous, h.seq, h.logged, ?_, ?_, h.announced, ?_⟩
  · show s.dispatched ++ [e] <+: s.committed
    rw [← h.split, hnext]
    exact ⟨rest ++ tail, by rw [List.append_assoc, List.singleton_append]⟩
  · intro x hx
    have hx : x ∈ s.committed.drop (s.dispatched ++ [e]).length := hx
    rw [hdrop] at hx
    refine h.retained x ?_
    rw [hnext]
    exact List.mem_cons_of_mem _ hx
  · refine ⟨e, rest, rfl, ?_, ?_, ?_, fun hfull hlt => hsig hfull ?_⟩
    · have hrevs := h.undispatched_revisions
      rw [hnext, List.map_cons, List.length_cons, List.range'_succ] at hrevs
      show e.revision = first + (s.dispatched ++ [e]).length
      rw [(List.cons.inj hrevs).1, List.length_append, List.length_singleton, Nat.add_assoc]
    · show rest <+: s.committed.drop (s.dispatched ++ [e]).length
      rw [hdrop]
      exact List.prefix_append _ _
    · exact hcount ▸ hscan
    · exact hcount ▸ hlt

theorem loopInv_endDispatch (h : LoopInv first s) {full : Bool}
    (hp : s.phase = .dispatching source (e :: rest) full true) :
    LoopInv first (s.endDispatch source e rest full) := by
  have hphase := h.phase
  rw [hp] at hphase
  obtain ⟨e', rest', hbatch, hrev, hrest, hscan, hsig⟩ := hphase
  cases hbatch
  have hmoved : ∀ phase retry, PhaseInv first { s with cursor := e.revision, phase, retry } phase →
      LoopInv first { s with cursor := e.revision, phase, retry } :=
    fun phase retry hph =>
      ⟨h.rows, h.contiguous, h.seq, h.logged, h.dispatched, h.retained, h.announced, hph⟩
  unfold DispatchLoop.endDispatch
  cases rest with
  | nil =>
    cases full with
    | true => exact hmoved _ _ ⟨hrev, hscan⟩
    | false =>
      cases source with
      | wake | retry => exact hmoved .idle _ ⟨hrev, hscan, fun hlt => Or.inl (hsig rfl hlt)⟩
  | cons x rest => exact hmoved _ _ ⟨by simp, hrev, hrest, hscan, hsig⟩

/-! ## 保持期限 -/

theorem le_length_ahead_of_lt_keepThreshold {log : ChangeLog} {maxRows : Nat} {rev : Nat}
    (hpos : maxRows ≠ 0) (h : rev < keepThreshold log maxRows) :
    maxRows ≤ (ahead log.rows rev).length := by
  rw [keepThreshold, if_neg hpos, List.drop_reverse, List.head?_reverse] at h
  cases hlast : (log.rows.take (log.rows.length - (maxRows - 1))).getLast? with
  | none =>
    rw [hlast] at h
    exact absurd h (Nat.not_lt_zero _)
  | some r =>
    rw [hlast] at h
    have hr : r ∈ log.rows.take (log.rows.length - (maxRows - 1)) := List.mem_of_getLast? hlast
    have hsplit := List.take_append_drop (log.rows.length - (maxRows - 1)) log.rows
    have hlater : ∀ x ∈ log.rows.drop (log.rows.length - (maxRows - 1)),
        r.revision < x.revision := by
      have hsorted : log.rows.Pairwise (fun a b => a.revision < b.revision) := log.sorted
      rw [← hsplit, List.pairwise_append] at hsorted
      exact fun x hx => hsorted.2.2 r hr x hx
    -- しきい値の行と、その後の行
    have hsub : (r :: log.rows.drop (log.rows.length - (maxRows - 1))).Sublist
        (ahead log.rows rev) := by
      have hkept : (r :: log.rows.drop (log.rows.length - (maxRows - 1))).filter
          (fun e => decide (rev < e.revision)) =
            r :: log.rows.drop (log.rows.length - (maxRows - 1)) := by
        refine List.filter_eq_self.mpr (fun x hx => decide_eq_true ?_)
        rcases List.mem_cons.mp hx with rfl | hx
        · exact h
        · exact h.trans (hlater x hx)
      rw [← hkept]
      refine List.Sublist.filter _ ?_
      conv_rhs => rw [← hsplit]
      exact (List.singleton_sublist.mpr hr).append (List.Sublist.refl _)
    have hne : log.rows.length - (maxRows - 1) ≠ 0 := by
      intro hzero
      rw [hzero] at hr
      exact absurd hr List.not_mem_nil
    have hle := hsub.length_le
    rw [List.length_cons, List.length_drop] at hle
    omega

/-- 保持期限の tick の時、最後に読み切った後の commit は `retainRows` 件までであり、どれも `retainDuration` より古くない。 -/
def Retains (s : DispatchLoop) : LoopEvent → Prop
  | .pruneTick now => s.phase = .idle →
    s.committed.length ≤ s.scanned + s.options.retainRows ∧
      ∀ e ∈ s.committed.drop s.scanned, now - s.options.retainDuration ≤ e.createdAt
  | _ => True

theorem LoopInv.not_expires (h : LoopInv first s) (hidle : s.phase = .idle)
    {now : Time} (hr : Retains s (.pruneTick now))
    {e : ChangeLogModel} (he : e ∈ s.undispatched) : s.options.expires now s.log e = false := by
  obtain ⟨hrows, hage⟩ := hr hidle
  have hscan : s.scanned ≤ s.dispatched.length := by
    have hphase := h.phase
    rw [hidle] at hphase
    exact hphase.2.1
  have hold : e ∈ s.committed.drop s.scanned := by
    have hdrop : s.undispatched =
        (s.committed.drop s.scanned).drop (s.dispatched.length - s.scanned) := by
      rw [List.drop_drop, Nat.add_sub_cancel' hscan]
      rfl
    rw [hdrop] at he
    exact List.mem_of_mem_drop he
  unfold RetainOptions.expires
  rw [Bool.or_eq_false_iff, decide_eq_false_iff_not, decide_eq_false_iff_not]
  refine ⟨Nat.not_lt_of_le (hage e hold), fun hlt => ?_⟩
  -- `e` より新しい行は、どれもまだ渡していない
  have hsub : e :: ahead s.log.rows e.revision ⊆ s.undispatched := by
    refine List.cons_subset.mpr ⟨he, fun x hx => ?_⟩
    obtain ⟨hx, hlt⟩ := mem_ahead.mp hx
    have hrev : e.revision ∈ s.undispatched.map (·.revision) := List.mem_map_of_mem he
    rw [h.undispatched_revisions, List.mem_range'_1] at hrev
    have hmem := h.logged x hx (by omega)
    rw [← h.split, List.mem_append] at hmem
    refine hmem.resolve_left (fun hd => ?_)
    have hrev' : x.revision ∈ s.dispatched.map (·.revision) := List.mem_map_of_mem hd
    rw [h.dispatched_revisions, List.mem_range'_1] at hrev'
    omega
  have hnodup : (e :: ahead s.log.rows e.revision).Nodup := by
    refine List.nodup_cons.mpr ⟨fun hmem => ?_, Increasing.nodup (s.log.sorted.filter _)⟩
    exact absurd (mem_ahead.mp hmem).2 (Nat.lt_irrefl _)
  have hcount := (List.subperm_of_subset hnodup hsub).length_le
  have hahead := le_length_ahead_of_lt_keepThreshold h.rows hlt
  have hlen := h.length_committed
  rw [List.length_cons] at hcount
  omega

theorem loopInv_pruneTick (h : LoopInv first s) (now : Time)
    (hr : Retains s (.pruneTick now)) : LoopInv first (loopStep s (.pruneTick now)) := by
  show LoopInv first (if s.phase = .idle then _ else s)
  by_cases hidle : s.phase = .idle
  · rw [if_pos hidle]
    exact ⟨h.rows, h.contiguous, h.seq, fun e he => h.logged e (Journal.mem_deleteWhere.mp he).1,
      h.dispatched, fun e he => Journal.mem_deleteWhere.mpr
        ⟨h.retained e he, h.not_expires hidle hr he⟩, h.announced, h.phase⟩
  · rw [if_neg hidle]
    exact h

theorem loopInv_step (s : DispatchLoop) (ev : LoopEvent) (hr : Retains s ev)
    (h : LoopInv first s) : LoopInv first (loopStep s ev) := by
  have hphase := h.phase
  cases ev with
  | commit entry namespaceID now wakes => exact loopInv_commit h entry namespaceID now wakes
  | wakeUp =>
    simp only [loopStep]
    split
    · exact h
    · exact h.signalled _
  | extraWake => exact h.signalled s.owed
  | takeWake | retryFires =>
    simp only [loopStep]
    split
    · next hc =>
      rw [hc.1] at hphase
      exact h.moved ⟨hphase.1, hphase.2.1⟩
    · exact h
  | read =>
    simp only [loopStep]
    split
    · next source hr =>
      rw [hr] at hphase
      exact loopInv_read h source hphase.1 hphase.2
    · exact h
  | readFails =>
    simp only [loopStep]
    split
    · next source hr =>
      rw [hr] at hphase
      exact h.moved ⟨hphase.1, hphase.2, fun _ => Or.inr rfl⟩
    · exact h
  | beginDispatch =>
    simp only [loopStep]
    split
    · next hd => exact loopInv_beginDispatch h hd
    · exact h
  | endDispatch =>
    simp only [loopStep]
    split
    · next hd => exact loopInv_endDispatch h hd
    · exact h
  | pruneTick now => exact loopInv_pruneTick h now hr
  | livenessTick => exact h

/-! ## drain は終わる -/

/-- 新しい commit も失敗もない、drain を進める event。 -/
def LoopEvent.Drains : LoopEvent → Prop
  | .wakeUp | .takeWake | .retryFires | .read | .beginDispatch | .endDispatch => True
  | _ => False

/-- 合図も、待っている timer も、呼ばれていない `Wake` もない。 -/
def DispatchLoop.Quiescent (s : DispatchLoop) : Prop :=
  s.phase = .idle ∧ s.wake = false ∧ s.retry = false ∧ s.owed = 0

/-- 居場所に残る仕事。 -/
def LoopPhase.weight : LoopPhase → Nat
  | .idle => 0
  | .reading _ => 3
  | .dispatching _ _ _ false => 2
  | .dispatching _ _ _ true => 4

/-- 残る仕事。合図は一回の drain を、呼ばれていない `Wake` は合図を一つ生む。 -/
def DispatchLoop.remaining (s : DispatchLoop) : Nat :=
  5 * s.owed + 4 * s.wake.toNat + 4 * s.retry.toNat + 3 * s.undispatched.length + s.phase.weight

theorem remaining_finishDrain (s : DispatchLoop) (source : DrainSource) :
    (s.finishDrain source).remaining + s.phase.weight ≤ s.remaining := by
  cases source with
  | wake =>
    show 5 * s.owed + 4 * s.wake.toNat + 4 * 0 + 3 * s.undispatched.length + 0 + _ ≤ _
    unfold DispatchLoop.remaining
    omega
  | retry =>
    show 5 * s.owed + 4 * s.wake.toNat + 4 * s.retry.toNat + 3 * s.undispatched.length + 0 + _ ≤ _
    exact le_rfl

theorem remaining_read (source : DrainSource) (hp : s.phase = .reading source) :
    (s.read source).remaining < s.remaining := by
  obtain ⟨scanned, hread | ⟨batch, full, hread⟩⟩ := read_cases s source
  · have hle := remaining_finishDrain { s with scanned } source
    have hweight : ({ s with scanned } : DispatchLoop).phase.weight = 3 :=
      congrArg LoopPhase.weight hp
    have hsame : ({ s with scanned } : DispatchLoop).remaining = s.remaining := rfl
    rw [hread]
    omega
  · rw [hread]
    unfold DispatchLoop.remaining
    rw [hp]
    exact Nat.add_lt_add_left (by decide : 2 < 3) _

theorem remaining_endDispatch {full : Bool}
    (hp : s.phase = .dispatching source (e :: rest) full true) :
    (s.endDispatch source e rest full).remaining < s.remaining := by
  have hmoved : ∀ phase : LoopPhase, phase.weight < 4 →
      ({ s with cursor := e.revision, phase } : DispatchLoop).remaining < s.remaining := by
    intro phase hlt
    unfold DispatchLoop.remaining
    rw [hp]
    exact Nat.add_lt_add_left hlt _
  unfold DispatchLoop.endDispatch
  cases rest with
  | nil =>
    cases full with
    | true => exact hmoved _ (by decide : 3 < 4)
    | false =>
      have hle := remaining_finishDrain { s with cursor := e.revision } source
      have hweight : ({ s with cursor := e.revision } : DispatchLoop).phase.weight = 4 :=
        congrArg LoopPhase.weight hp
      have hsame : ({ s with cursor := e.revision } : DispatchLoop).remaining = s.remaining := rfl
      show (DispatchLoop.finishDrain _ source).remaining < _
      omega
  | cons x rest => exact hmoved _ (by decide : 2 < 4)

theorem LoopInv.progress (h : LoopInv first s) (hq : ¬ s.Quiescent) :
    ∃ ev : LoopEvent, ev.Drains ∧ LoopInv first (loopStep s ev) ∧
      (loopStep s ev).remaining < s.remaining := by
  -- drain を進める event は保持期限の tick ではない。
  suffices hev : ∃ ev : LoopEvent, ev.Drains ∧ (loopStep s ev).remaining < s.remaining by
    obtain ⟨ev, hdrains, hlt⟩ := hev
    refine ⟨ev, hdrains, loopInv_step s ev ?_ h, hlt⟩
    cases ev with
    | pruneTick now => exact hdrains.elim
    | _ => trivial
  have hphase := h.phase
  cases hp : s.phase with
  | idle =>
    by_cases howed : s.owed = 0
    · by_cases hwake : s.wake = true
      · refine ⟨.takeWake, trivial, ?_⟩
        simp only [loopStep, if_pos (And.intro hp hwake)]
        unfold DispatchLoop.remaining DispatchLoop.undispatched
        simp only [hp, hwake, LoopPhase.weight, Bool.toNat_true, Bool.toNat_false]
        omega
      · by_cases hretry : s.retry = true
        · refine ⟨.retryFires, trivial, ?_⟩
          simp only [loopStep, if_pos (And.intro hp hretry)]
          unfold DispatchLoop.remaining DispatchLoop.undispatched
          simp only [hp, hretry, LoopPhase.weight, Bool.toNat_true, Bool.toNat_false]
          omega
        · exact absurd ⟨hp, by simpa using hwake, by simpa using hretry, howed⟩ hq
    · refine ⟨.wakeUp, trivial, ?_⟩
      simp only [loopStep, if_neg howed]
      unfold DispatchLoop.remaining DispatchLoop.undispatched
      simp only [Bool.toNat_true]
      omega
  | reading source =>
    refine ⟨.read, trivial, ?_⟩
    simp only [loopStep, hp]
    exact remaining_read source hp
  | dispatching source batch full busy =>
    rw [hp] at hphase
    cases busy with
    | true =>
      obtain ⟨e, rest, rfl, _⟩ := hphase
      refine ⟨.endDispatch, trivial, ?_⟩
      simp only [loopStep, hp]
      exact remaining_endDispatch hp
    | false =>
      obtain ⟨hne, _, hbatch, _⟩ := hphase
      cases batch with
      | nil => exact absurd rfl hne
      | cons e rest =>
        refine ⟨.beginDispatch, trivial, ?_⟩
        have hlen : (e :: rest).length ≤ s.undispatched.length := hbatch.length_le
        unfold DispatchLoop.remaining DispatchLoop.undispatched at *
        simp only [loopStep, hp, LoopPhase.weight, List.length_drop, List.length_append,
          List.length_cons, List.length_nil] at hlen ⊢
        omega

theorem committed_of_drains (s : DispatchLoop) {ev : LoopEvent} (hev : ev.Drains) :
    (loopStep s ev).committed = s.committed ∧
      ((loopStep s ev).announced = s.announced ∨
        (loopStep s ev).announced = s.committed.length) := by
  have hfinish : ∀ (t : DispatchLoop) source, (t.finishDrain source).committed = t.committed ∧
      (t.finishDrain source).announced = t.announced := by
    intro t source
    cases source <;> exact ⟨rfl, rfl⟩
  cases ev with
  | wakeUp => simp only [loopStep]; split; exacts [⟨rfl, .inl rfl⟩, ⟨rfl, .inr rfl⟩]
  | takeWake | retryFires | beginDispatch => simp only [loopStep]; split <;> exact ⟨rfl, .inl rfl⟩
  | read =>
    simp only [loopStep]
    split
    · next source _ =>
      obtain ⟨scanned, hread | ⟨batch, full, hread⟩⟩ := read_cases s source
      · rw [hread]
        exact (hfinish _ source).imp_right .inl
      · rw [hread]
        exact ⟨rfl, .inl rfl⟩
    · exact ⟨rfl, .inl rfl⟩
  | endDispatch =>
    simp only [loopStep]
    split
    · unfold DispatchLoop.endDispatch
      split
      · exact ⟨rfl, .inl rfl⟩
      · exact (hfinish _ _).imp_right .inl
      · exact ⟨rfl, .inl rfl⟩
    · exact ⟨rfl, .inl rfl⟩
  | commit | extraWake | readFails | pruneTick | livenessTick => exact hev.elim

theorem LoopInv.quiescent_dispatched (h : LoopInv first s) (hq : s.Quiescent)
    (hann : s.announced = s.committed.length) : s.dispatched = s.committed := by
  obtain ⟨hidle, hwake, hretry, howed⟩ := hq
  have hphase := h.phase
  rw [hidle] at hphase
  refine h.dispatched.eq_of_length_le (Nat.le_of_not_lt (fun hlt => ?_))
  rcases hphase.2.2 (hann ▸ hlt) with (howed' | hwake') | hretry'
  · omega
  · exact Bool.false_ne_true (hwake.symm.trans hwake')
  · exact Bool.false_ne_true (hretry.symm.trans hretry')

end

/-! ## 主定理 -/

def DispatchLoop.after (options : RetainOptions) (log : ChangeLog) (evs : List LoopEvent) :
    DispatchLoop :=
  run loopStep (DispatchLoop.start options log) evs

/--
最後に読み切った後の commit が、保持期限の tick のどれでも `retainRows` 件と `retainDuration` に収まれば、hub は起動の後に
commit された entry を revision の順に一度ずつ渡し、渡すまで log に残す。最後の commit の後に `Wake` が呼ばれる限り、どの時点
からも、drain を進めれば全て渡し終える。
-/
theorem hub_dispatches_every_change (options : RetainOptions) (log : ChangeLog)
    (evs : List LoopEvent)
    (hretain : AlongSteps loopStep Retains (DispatchLoop.start options log) evs) :
    let s := DispatchLoop.after options log evs
    s.committed.map (·.revision) = List.range' (log.seq + 1) s.committed.length ∧
    s.dispatched <+: s.committed ∧
    s.dispatched.map (·.revision) = List.range' (log.seq + 1) s.dispatched.length ∧
    (∀ e ∈ s.committed, e ∉ s.dispatched → e ∈ s.log) ∧
    (s.announced = s.committed.length →
      (s.Quiescent → s.dispatched = s.committed) ∧
      ∃ s', RunsTo loopStep LoopEvent.Drains s s' ∧ s'.Quiescent ∧
        s'.committed = s.committed ∧ s'.dispatched = s.committed) := by
  intro s
  have h : LoopInv log.seq s :=
    run_steps_invariant loopInv_step (loopInv_start options log) hretain
  refine ⟨h.contiguous, h.dispatched, h.dispatched_revisions, fun e he hnot => ?_, fun hann =>
    ⟨fun hq => h.quiescent_dispatched hq hann, ?_⟩⟩
  · rw [← h.split, List.mem_append] at he
    exact h.retained e (he.resolve_left hnot)
  · obtain ⟨s', hs', ⟨h', hsame, hann'⟩, hq⟩ := RunsTo.exists_of_measure
      (I := fun x => LoopInv log.seq x ∧ x.committed = s.committed ∧
        x.announced = x.committed.length) DispatchLoop.remaining
      (fun x hx hq => by
        obtain ⟨ev, hdrains, hinv, hlt⟩ := hx.1.progress hq
        obtain ⟨hcommitted, hannounced⟩ := committed_of_drains x hdrains
        refine ⟨ev, hdrains, ⟨hinv, hcommitted.trans hx.2.1, ?_⟩, hlt⟩
        rw [hcommitted]
        exact hannounced.elim (fun heq => heq.trans hx.2.2) id) ⟨h, rfl, hann⟩
    exact ⟨s', hs', hq, hsame, (h'.quiescent_dispatched hq hann').trans hsame⟩

section Sample

/-- 一つの wake で始まる drain が、`count` 件の頁を渡し終える。 -/
private def sampleDrain (count : Nat) : List LoopEvent :=
  [.wakeUp, .takeWake, .read] ++ (List.replicate count [.beginDispatch, .endDispatch]).flatten

/-- 二つ目の entry の drain は一度失敗し、`Wake` の無い commit と保持期限の tick の後で、再試行が二つを渡す。 -/
private def sampleRetained : List LoopEvent :=
  .commit sampleChange 1 1 true :: (sampleDrain 1 ++
    [.commit sampleChange 1 2 true, .wakeUp, .takeWake, .readFails, .commit sampleChange 1 3 false,
      .pruneTick 4, .extraWake, .retryFires, .read, .beginDispatch, .endDispatch, .beginDispatch,
      .endDispatch, .takeWake, .read])

theorem hub_dispatches_every_change_sample :
    let s := DispatchLoop.after ⟨0, 2⟩ Journal.empty sampleRetained
    s.log.rows.map (·.revision) = [2, 3] ∧ s.dispatched.map (·.revision) = [1, 2, 3] ∧
      s.dispatched = s.committed := by
  intro s
  have hretain : AlongSteps loopStep Retains
      (DispatchLoop.start ⟨0, 2⟩ Journal.empty) sampleRetained := by
    refine ⟨trivial, trivial, trivial, trivial, trivial, trivial, trivial, trivial, trivial,
      trivial, trivial, fun _ => ?_, trivial, trivial, trivial, trivial, trivial, trivial, trivial,
      trivial, trivial, trivial⟩
    decide
  have hq : s.Quiescent := ⟨by decide, by decide, by decide, by decide⟩
  exact ⟨by decide, by decide,
    ((hub_dispatches_every_change _ _ _ hretain).2.2.2.2 (by decide)).1 hq⟩

/-- 最初の entry の drain は読み出しに失敗し、再試行の前に保持期限の tick が最初の entry を消す。 -/
private def sampleLost : List LoopEvent :=
  [.commit sampleChange 1 1 true, .wakeUp, .takeWake, .readFails, .commit sampleChange 1 2 true,
    .pruneTick 3] ++ sampleDrain 1

/-- 保持期限は、まだ渡していない entry を消しうる。その entry はどの drain でも渡されない。 -/
theorem prune_loses_undispatched :
    let s := DispatchLoop.after ⟨0, 1⟩ Journal.empty sampleLost
    s.Quiescent ∧ s.committed.map (·.revision) = [1, 2] ∧ s.dispatched.map (·.revision) = [2] ∧
      s.log.rows.map (·.revision) = [2] :=
  ⟨⟨by decide, by decide, by decide, by decide⟩, by decide, by decide, by decide⟩

end Sample

end Kms.Watch
