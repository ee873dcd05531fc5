import Kms.Domain
import Kms.Infra.Run

/-!
# Go client の stream の張り直し

Go client の `subManager` は、登録された namespace の全部を一本の `Subscribe` stream で購読する。
stream が開いた後で namespace が増えると、登録は `restartCh` に一つだけ入る token を送り、
stream ごとの listener goroutine がそれを受け取って stream の context を cancel する。

`run` の loop・listener・登録はそれぞれ別の goroutine なので、一歩ずつを event とし、event の列で全ての
interleaving を表す。

* `SubManager` / `RestartEvent` / `restartStep` — 状態と一歩
* `SubManager.pending` — 張り直しが待たれている
* `RestartInv` — run の不変条件
* `every_namespace_requested` — 主定理
* `ended_listener_takes_token` — 終わった stream の listener が token を取ると、登録は届かない
-/

namespace Kms.Client

open Kms.Infra

/-! ## 状態 -/

/-- `run` の loop の位置。 -/
inductive RunPhase where
  | idle
  /-- loop の先頭の `stopCh` の検査。 -/
  | top
  /-- `drainRestart` の中。 -/
  | draining
  /-- context を作り listener を起動する所。 -/
  | launching
  /-- `Subscribe` の返りを待つ。 -/
  | subscribing
  /-- `snapshotNamespaces` の前。 -/
  | collecting
  /-- request の `Send` の前。 -/
  | sending (nss : List NamespaceRef)
  /-- 開いた stream の `Recv` を待つ。 -/
  | receiving (nss : List NamespaceRef)
  /-- `runStream` が返り、`close(watchDone)` の前。 -/
  | ended
  /-- `cancel()` の前。 -/
  | closed
  /-- `cancel()` の後の `stopCh` の検査。 -/
  | stopCheck
  /-- `restartRequested.Swap(false)` の前。 -/
  | swapping
  | backingOff
  | returned
  deriving DecidableEq

/-- 今の stream の `watchDone` がまだ閉じていない位置。 -/
def RunPhase.open : RunPhase → Bool
  | .subscribing | .collecting | .sending _ | .receiving _ | .ended => true
  | _ => false

/-- 今の stream の request に入れた namespace。 -/
def RunPhase.request : RunPhase → Option (List NamespaceRef)
  | .sending nss | .receiving nss => some nss
  | _ => none

/-- `run` が stream ごとに起動する listener goroutine の位置。 -/
inductive Listener where
  | absent
  /-- 起動されたが、まだ `select` に来ていない。 -/
  | launched
  /-- `select` で塞がっている。 -/
  | selecting
  /-- token を受け取り、`restartRequested.Store(true)` の前。 -/
  | received
  /-- `cancel()` の前。 -/
  | cancelling
  | returned
  deriving DecidableEq

structure SubManager where
  namespaces : List NamespaceRef
  started : Bool
  /-- 容量 1 の channel に token が入っている。 -/
  restartCh : Bool
  /-- `restartCh` の受信で塞がっている listener の stream の番号。 -/
  recvq : List Nat
  restartRequested : Bool
  /-- `stopCh` が閉じられた。 -/
  stopCh : Bool
  phase : RunPhase
  /-- 最後に起動した stream の番号。 -/
  stream : Nat
  listeners : Nat → Listener
  /-- stream の `watchDone` が閉じられた。 -/
  watchDone : Nat → Bool
  /-- stream の context が cancel された。 -/
  cancelled : Nat → Bool
  /-- namespace を加えて lock を放し、`signalRestart` をまだ呼んでいない登録。 -/
  signalling : List NamespaceRef

def newSubManager : SubManager where
  namespaces := []
  started := false
  restartCh := false
  recvq := []
  restartRequested := false
  stopCh := false
  phase := .idle
  stream := 0
  listeners := fun _ => .absent
  watchDone := fun _ => false
  cancelled := fun _ => false
  signalling := []

namespace SubManager

def setListener (s : SubManager) (j : Nat) (l : Listener) : SubManager :=
  { s with listeners := fun i => if i = j then l else s.listeners i }

def cancel (s : SubManager) (j : Nat) : SubManager :=
  { s with cancelled := fun i => if i = j then true else s.cancelled i }

/-! ## 登録 -/

/--
`registerParam` と `registerWatcher` の lock の中。

`addNamespaceLocked` が namespace を加え、`ensureStartedLocked` が最初の一回だけ `run` を起動する。
`wasStarted && changed` の時だけ、lock の外で `signalRestart` を呼ぶ。
-/
def register (s : SubManager) (ns : NamespaceRef) : SubManager :=
  let changed : Bool := decide (ns ∉ s.namespaces)
  let added : SubManager := if changed then { s with namespaces := s.namespaces ++ [ns] } else s
  if s.started then
    if changed then { added with signalling := s.signalling ++ [ns] } else added
  else { added with started := true, phase := .top }

/-- 塞がっている受信者があれば token は直に渡り、channel には入らない。一杯なら捨てられる。 -/
def signalRestart (s : SubManager) : SubManager :=
  match s.recvq with
  | j :: rest => { s with recvq := rest }.setListener j .received
  | [] => { s with restartCh := true }

/-! ## loop -/

/--
`close(watchDone)`。

塞がっていた listener はこの時に `watchDone` の枝で起きる。まだ `select` に来ていない listener は、来た時に
`watchDone` が閉じているのを見る。
-/
def closeWatchDone (s : SubManager) : SubManager :=
  let s' : SubManager :=
    { s with watchDone := fun i => if i = s.stream then true else s.watchDone i }
  if s.stream ∈ s.recvq then
    { s' with recvq := s.recvq.filter (· ≠ s.stream) }.setListener s.stream .returned
  else s'

/-- `run` の loop の一歩。`ok` は `Subscribe`・`Send`・`Recv` の成否か、timer が切れたかを表す。 -/
def loop (s : SubManager) (ok : Bool) : SubManager :=
  match s.phase with
  | .idle => s
  | .top => if s.stopCh then { s with phase := .returned } else { s with phase := .draining }
  | .draining =>
    if s.restartCh then { s with restartCh := false } else { s with phase := .launching }
  | .launching =>
    { s with stream := s.stream + 1, phase := .subscribing }.setListener (s.stream + 1) .launched
  | .subscribing => if ok then { s with phase := .collecting } else { s with phase := .ended }
  | .collecting => { s with phase := .sending s.namespaces }
  | .sending nss => if ok then { s with phase := .receiving nss } else { s with phase := .ended }
  | .receiving _ => if ok then s else { s with phase := .ended }
  | .ended => { s.closeWatchDone with phase := .closed }
  | .closed => { s.cancel s.stream with phase := .stopCheck }
  | .stopCheck => if s.stopCh then { s with phase := .returned } else { s with phase := .swapping }
  | .swapping =>
    if s.restartRequested then { s with restartRequested := false, phase := .top }
    else { s with phase := .backingOff }
  | .backingOff =>
    if ok then { s with phase := .top }
    else if s.stopCh then { s with phase := .returned } else s
  | .returned => s

/-! ## listener -/

end SubManager

/-- listener の `select` の枝。 -/
inductive SelectCase where
  | restart
  | stop
  | done
  deriving DecidableEq

namespace SubManager

/-- この枝がすぐに選べる。 -/
def ready (s : SubManager) (j : Nat) : SelectCase → Bool
  | .restart => s.restartCh
  | .stop => s.stopCh
  | .done => s.watchDone j

/-- 選んだ枝を実行する。 -/
def choose (s : SubManager) (j : Nat) : SelectCase → SubManager
  | .restart => { s with restartCh := false }.setListener j .received
  | .stop => s.setListener j .cancelling
  | .done => s.setListener j .returned

/--
stream `j` の listener の一歩。

`select` に来た時に選べる枝が幾つかあれば、どれが選ばれるかは決まっていない (`c`)。一つも無ければ塞がる。
-/
def listen (s : SubManager) (j : Nat) (c : SelectCase) : SubManager :=
  match s.listeners j with
  | .launched =>
    if s.ready j c then s.choose j c
    else if s.ready j .restart || s.ready j .stop || s.ready j .done then s
    else { s with recvq := s.recvq ++ [j] }.setListener j .selecting
  | .received => { s with restartRequested := true }.setListener j .cancelling
  | .cancelling => (s.cancel j).setListener j .returned
  | .absent | .selecting | .returned => s

/-- `stop` は `stopCh` を閉じ、塞がっている listener を `stopCh` の枝で起こす。 -/
def stop (s : SubManager) : SubManager :=
  { s with
    stopCh := true
    recvq := []
    listeners := fun j => if j ∈ s.recvq then .cancelling else s.listeners j }

end SubManager

inductive RestartEvent where
  | register (ns : NamespaceRef)
  /-- この namespace を加えた登録が `signalRestart` を呼ぶ。 -/
  | signal (ns : NamespaceRef)
  | loop (ok : Bool)
  | listen (stream : Nat) (choice : SelectCase)
  | stop
  deriving DecidableEq

def restartStep (s : SubManager) : RestartEvent → SubManager
  | .register ns => s.register ns
  | .signal ns =>
    if ns ∈ s.signalling then
      { s with signalling := s.signalling.erase ns }.signalRestart
    else s
  | .loop ok => s.loop ok
  | .listen j c => s.listen j c
  | .stop => s.stop

def SubManager.pending (s : SubManager) : Bool :=
  s.restartCh || s.cancelled s.stream ||
    decide (s.listeners s.stream = .received) || decide (s.listeners s.stream = .cancelling)

/-! ## 不変条件 -/

/-- 全ての namespace が request に入っているか、それを加えた登録がまだ signal していない。 -/
def SubManager.Requested (s : SubManager) (nss : List NamespaceRef) : Prop :=
  ∀ ns ∈ s.namespaces, ns ∈ nss ∨ ns ∈ s.signalling

structure RestartInv (s : SubManager) : Prop where
  idle : s.started = false → s.phase = .idle
  -- 塞がっているのは今の stream の listener だけである
  recvq : ∀ j ∈ s.recvq, j = s.stream ∧ s.phase.open = true
  -- `watchDone` が閉じていない stream は今の stream だけである
  launched : ∀ j, s.listeners j = .launched → s.watchDone j = false →
    j = s.stream ∧ s.phase.open = true
  requested : ∀ nss, s.phase.request = some nss → s.Requested nss ∨ s.pending = true

theorem restartInv_new : RestartInv newSubManager where
  idle := fun _ => rfl
  recvq := fun _ hj => absurd hj List.not_mem_nil
  launched := fun _ hj => by cases hj
  requested := fun _ h => by cases h

namespace RestartInv

variable {s : SubManager}

theorem started (h : RestartInv s) (hp : s.phase ≠ .idle) : s.started = true := by
  cases hs : s.started with
  | true => rfl
  | false => exact absurd (h.idle hs) hp

theorem moved (h : RestartInv s) {s' : SubManager} (hp : s.phase ≠ .idle)
    (hs : s'.started = s.started) (hq : s'.recvq = s.recvq) (hl : s'.listeners = s.listeners)
    (hd : s'.watchDone = s.watchDone) (hn : s'.stream = s.stream)
    (hopen : s.phase.open = true → s'.phase.open = true) (hr : s'.phase.request = none) :
    RestartInv s' where
  idle := fun hf => by
    rw [hs, h.started hp] at hf
    cases hf
  recvq := fun j hj => by
    rw [hq] at hj
    rw [hn]
    exact (h.recvq j hj).imp id hopen
  launched := fun j hj hw => by
    rw [hl] at hj
    rw [hd] at hw
    rw [hn]
    exact (h.launched j hj hw).imp id hopen
  requested := fun nss h' => by
    rw [hr] at h'
    cases h'

theorem register (h : RestartInv s) (ns : NamespaceRef) : RestartInv (s.register ns) := by
  unfold SubManager.register
  cases hs : s.started with
  | true =>
    by_cases hmem : ns ∈ s.namespaces
    · simpa [hmem] using h
    · simp only [hmem, not_false_eq_true, decide_true, if_true]
      refine ⟨fun hf => absurd hf (by simp), h.recvq, h.launched,
        fun nss hn => (h.requested nss hn).imp (fun hreq n hmem' => ?_) id⟩
      -- 加えた namespace は、その登録が signal するまで `signalling` に居る
      rcases List.mem_append.mp hmem' with hold | hnew
      · exact (hreq n hold).imp id (List.mem_append_left _)
      · exact .inr (List.mem_append_right _ hnew)
  | false =>
    have hshut : s.phase.open = false := by rw [h.idle hs]; rfl
    refine ⟨fun hf => by simp at hf, fun j hj => ?_, fun j hj hd => ?_,
      fun nss hn => by simp [RunPhase.request] at hn⟩
    · have hq := h.recvq j (by simpa [apply_ite SubManager.recvq] using hj)
      rw [hshut] at hq
      exact absurd hq.2 (by decide)
    · have hl := h.launched j (by simpa [apply_ite SubManager.listeners] using hj)
        (by simpa [apply_ite SubManager.watchDone] using hd)
      rw [hshut] at hl
      exact absurd hl.2 (by decide)

theorem setListener (h : RestartInv s) {j : Nat} {l : Listener} (hl : l ≠ .launched)
    (hpend : s.pending = true → (s.setListener j l).pending = true) :
    RestartInv (s.setListener j l) where
  idle := h.idle
  recvq := h.recvq
  launched := fun i hi hd => by
    simp only [SubManager.setListener] at hi
    split at hi
    · exact absurd hi hl
    · exact h.launched i hi hd
  requested := fun nss hr => (h.requested nss hr).imp id hpend

theorem signal (h : RestartInv s) (ns : NamespaceRef) :
    RestartInv { s with signalling := s.signalling.erase ns }.signalRestart := by
  unfold SubManager.signalRestart
  cases hq : s.recvq with
  | nil =>
    exact ⟨h.idle, fun j hj => absurd hj List.not_mem_nil, h.launched,
      fun nss _ => .inr (by simp [SubManager.pending])⟩
  | cons j rest =>
    have hj := h.recvq j (by rw [hq]; exact List.mem_cons_self)
    refine ⟨h.idle, fun i hi => h.recvq i (by rw [hq]; exact List.mem_cons_of_mem _ hi),
      fun i hi hd => ?_, fun nss _ => .inr ?_⟩
    · simp only [SubManager.setListener] at hi
      split at hi
      · cases hi
      · exact h.launched i hi hd
    · simp [SubManager.pending, SubManager.setListener, hj.1]

theorem closeWatchDone (h : RestartInv s) (hp : s.phase = .ended) :
    RestartInv { s.closeWatchDone with phase := .closed } := by
  have hstarted := h.started (by rw [hp]; exact RunPhase.noConfusion)
  have hdone : ∀ j, s.listeners j = .launched →
      ¬ (if j = s.stream then true else s.watchDone j) = false := by
    intro j hj hd
    split at hd
    · cases hd
    · next hne => exact hne (h.launched j hj hd).1
  unfold SubManager.closeWatchDone
  split
  · refine ⟨fun hf => absurd (hstarted.symm.trans hf) (by decide), fun j hj => ?_,
      fun j hj hd => ?_, fun nss hn => by cases hn⟩
    · obtain ⟨hj, hne⟩ := List.mem_filter.mp hj
      exact absurd (h.recvq j hj).1 (by simpa using hne)
    · simp only [SubManager.setListener] at hj
      split at hj
      · cases hj
      · exact absurd hd (hdone j hj)
  · next hmem =>
    refine ⟨fun hf => absurd (hstarted.symm.trans hf) (by decide), fun j hj => ?_,
      fun j hj hd => absurd hd (hdone j hj), fun nss hn => by cases hn⟩
    exact absurd ((h.recvq j hj).1 ▸ hj) hmem

theorem launch (h : RestartInv s) (hp : s.phase = .launching) :
    RestartInv
      ({ s with stream := s.stream + 1, phase := .subscribing }.setListener
        (s.stream + 1) .launched) := by
  have hshut : ¬ s.phase.open = true := by rw [hp]; decide
  have hstarted := h.started (by rw [hp]; exact RunPhase.noConfusion)
  refine ⟨fun hf => absurd (hstarted.symm.trans hf) (by decide),
    fun j hj => absurd (h.recvq j hj).2 hshut, fun j hj hd => ?_, fun nss hn => by cases hn⟩
  simp only [SubManager.setListener] at hj
  split at hj
  · next heq => exact ⟨heq, rfl⟩
  · exact absurd (h.launched j hj hd).2 hshut

theorem loop (h : RestartInv s) (ok : Bool) : RestartInv (s.loop ok) := by
  unfold SubManager.loop
  split
  case h_1 => exact h
  case h_4 hp => exact h.launch hp
  case h_6 hp =>
    have hs := h.started (by rw [hp]; exact RunPhase.noConfusion)
    refine ⟨fun hf => absurd (hs.symm.trans hf) (by decide),
      fun j hj => ⟨(h.recvq j hj).1, rfl⟩, fun j hj hd => ⟨(h.launched j hj hd).1, rfl⟩,
      fun nss hn => .inl (fun n hmem => .inl ?_)⟩
    cases hn
    exact hmem
  case h_7 nss hp =>
    have hs := h.started (by rw [hp]; exact RunPhase.noConfusion)
    split
    · refine ⟨fun hf => absurd (hs.symm.trans hf) (by decide),
        fun j hj => ⟨(h.recvq j hj).1, rfl⟩, fun j hj hd => ⟨(h.launched j hj hd).1, rfl⟩,
        fun nss' hn => h.requested nss' ?_⟩
      cases hn
      rw [hp]
      rfl
    · exact h.moved (by simp [hp]) rfl rfl rfl rfl rfl (fun _ => rfl) rfl
  case h_9 hp => exact h.closeWatchDone hp
  case h_14 => exact h
  all_goals
    next hp =>
      repeat' split
      all_goals first
        | exact h
        | exact h.moved (by simp [hp]) rfl rfl rfl rfl rfl (by simp [hp, RunPhase.open]) rfl
        | exact h.moved (by simp [hp]) rfl rfl rfl rfl rfl (by simp [hp, RunPhase.open])
            (by simp [hp, RunPhase.request])

theorem take (h : RestartInv s) {j : Nat} (hj : s.listeners j = .launched)
    (hlive : s.watchDone j = false) :
    RestartInv ({ s with restartCh := false }.setListener j .received) := by
  have hstream := (h.launched j hj hlive).1
  refine ⟨h.idle, h.recvq, fun i hi hd => ?_, fun nss _ => .inr ?_⟩
  · simp only [SubManager.setListener] at hi
    split at hi
    · cases hi
    · exact h.launched i hi hd
  · simp [SubManager.pending, SubManager.setListener, hstream]

theorem block (h : RestartInv s) {j : Nat} (hj : s.listeners j = .launched)
    (hlive : s.watchDone j = false) :
    RestartInv ({ s with recvq := s.recvq ++ [j] }.setListener j .selecting) := by
  have hcur := h.launched j hj hlive
  refine setListener (s := { s with recvq := s.recvq ++ [j] })
    ⟨h.idle, fun i hi => ?_, h.launched, h.requested⟩ (by decide) (fun hp => ?_)
  · rcases List.mem_append.mp hi with hi | hi
    · exact h.recvq i hi
    · rw [List.mem_singleton.mp hi]
      exact hcur
  · rw [hcur.1] at hj ⊢
    simpa [SubManager.pending, SubManager.setListener, hj] using hp

theorem listen (h : RestartInv s) {j : Nat} {c : SelectCase}
    (hlive : c = .restart → s.restartCh = true → s.listeners j = .launched →
      s.watchDone j = false) : RestartInv (s.listen j c) := by
  unfold SubManager.listen
  cases hj : s.listeners j with
  | absent | selecting | returned => exact h
  | launched =>
    simp only
    split
    · next hready =>
      cases c with
      | restart => exact h.take hj (hlive rfl hready hj)
      | stop =>
        refine h.setListener (by decide) (fun hp => ?_)
        by_cases hs : s.stream = j
        · simp [SubManager.pending, SubManager.setListener, hs]
        · simpa [SubManager.pending, SubManager.setListener, hs] using hp
      | done =>
        refine h.setListener (by decide) (fun hp => ?_)
        by_cases hs : s.stream = j
        · simpa [SubManager.pending, SubManager.setListener, hs, hj] using hp
        · simpa [SubManager.pending, SubManager.setListener, hs] using hp
    · split
      · exact h
      · next hnone =>
        simp only [SubManager.ready, Bool.or_eq_true, not_or, Bool.not_eq_true] at hnone
        exact h.block hj hnone.2
  | received =>
    refine setListener (s := { s with restartRequested := true })
      ⟨h.idle, h.recvq, h.launched, h.requested⟩ (by decide) (fun hp => ?_)
    by_cases hs : s.stream = j
    · simp [SubManager.pending, SubManager.setListener, hs]
    · simpa [SubManager.pending, SubManager.setListener, hs] using hp
  | cancelling =>
    have hcancel : s.pending = true → (s.cancel j).pending = true := by
      intro hp
      by_cases hs : s.stream = j
      · simp [SubManager.pending, SubManager.cancel, hs]
      · simpa [SubManager.pending, SubManager.cancel, hs] using hp
    refine setListener (s := s.cancel j)
      ⟨h.idle, h.recvq, h.launched, fun nss hr => (h.requested nss hr).imp id hcancel⟩
      (by decide) (fun hp => ?_)
    by_cases hs : s.stream = j
    · simp [SubManager.pending, SubManager.setListener, SubManager.cancel, hs]
    · simpa [SubManager.pending, SubManager.setListener, SubManager.cancel, hs] using hp

theorem stop (h : RestartInv s) : RestartInv s.stop := by
  refine ⟨h.idle, fun j hj => absurd hj List.not_mem_nil, fun j hj hd => ?_,
    fun nss hr => (h.requested nss hr).imp id (fun hp => ?_)⟩
  · simp only [SubManager.stop] at hj
    split at hj
    · cases hj
    · exact h.launched j hj hd
  · by_cases hs : s.stream ∈ s.recvq
    · simp [SubManager.pending, SubManager.stop, hs]
    · simpa [SubManager.pending, SubManager.stop, hs] using hp

end RestartInv

/-- `watchDone` の閉じた stream の listener は、token を取らない。 -/
def TokenKept (s : SubManager) (ev : RestartEvent) : Prop :=
  ∀ j, ev = .listen j .restart → s.restartCh = true → s.listeners j = .launched →
    s.watchDone j = false

instance (s : SubManager) : ∀ ev, Decidable (TokenKept s ev)
  | .listen j .restart =>
    decidable_of_iff (s.restartCh = true → s.listeners j = .launched → s.watchDone j = false)
      ⟨fun h _ heq => by cases heq; exact h, fun h => h j rfl⟩
  | .listen _ .done | .listen _ .stop | .register _ | .signal _ | .loop _ | .stop =>
    isTrue fun _ h => nomatch h

theorem restartInv_step {s : SubManager} {ev : RestartEvent} (hkept : TokenKept s ev)
    (h : RestartInv s) : RestartInv (restartStep s ev) := by
  cases ev with
  | register ns => exact h.register ns
  | signal ns =>
    simp only [restartStep]
    split
    · exact h.signal ns
    · exact h
  | loop ok => exact h.loop ok
  | listen j c => exact h.listen (fun hc => hkept j (by rw [hc]))
  | stop => exact h.stop

/-! ## 主定理 -/

/--
登録は stream に届く。

終わった stream の listener が token を取らなければ、登録・loop・listener のどの interleaving でも、
loop が開いた stream を待っていて張り直しが待たれていない時、stream の request には全ての namespace が
入っている。まだ `signalRestart` を呼んでいない登録の namespace だけは、これから signal される。
-/
theorem every_namespace_requested {evs : List RestartEvent}
    (hkept : AlongSteps restartStep TokenKept newSubManager evs) {nss : List NamespaceRef}
    (hrecv : (run restartStep newSubManager evs).phase = .receiving nss)
    (hpend : (run restartStep newSubManager evs).pending = false) :
    ∀ ns ∈ (run restartStep newSubManager evs).namespaces,
      ns ∈ nss ∨ ns ∈ (run restartStep newSubManager evs).signalling := by
  have hinv : RestartInv (run restartStep newSubManager evs) :=
    run_steps_invariant (fun _ _ hk h => restartInv_step hk h) restartInv_new hkept
  rcases hinv.requested nss (by rw [hrecv]; rfl) with hreq | hp
  · exact hreq
  · rw [hpend] at hp
    cases hp

section Sample

private def sampleHome : NamespaceRef := ⟨"prod", "billing"⟩

private def sampleExtra : NamespaceRef := ⟨"prod", "shared"⟩

/-- 一本目の stream が開き、二つ目の namespace の登録の token を listener が取って張り直す run。 -/
private def sampleRestart : List RestartEvent :=
  [.register sampleHome] ++ List.replicate 6 (.loop true) ++
    [.register sampleExtra, .signal sampleExtra, .listen 1 .restart, .listen 1 .done,
      .loop false] ++ List.replicate 10 (.loop true)

theorem every_namespace_requested_sample :
    (run restartStep newSubManager sampleRestart).namespaces = [sampleHome, sampleExtra] ∧
      (run restartStep newSubManager sampleRestart).signalling = [] ∧
      ∀ ns ∈ (run restartStep newSubManager sampleRestart).namespaces,
        ns ∈ [sampleHome, sampleExtra] ∨
          ns ∈ (run restartStep newSubManager sampleRestart).signalling := by
  have hkept : AlongSteps restartStep TokenKept newSubManager sampleRestart := by decide +kernel
  exact ⟨by decide, by decide, every_namespace_requested hkept (by decide) (by decide)⟩

/--
一本目の stream は開く前に終わり、その listener はまだ `select` に来ていない。二本目の stream が開いた後の
登録の token を、この listener が取る run。
-/
private def sampleLate : List RestartEvent :=
  [.register sampleHome] ++ List.replicate 3 (.loop true) ++ [.loop false] ++
    List.replicate 11 (.loop true) ++
    [.register sampleExtra, .signal sampleExtra, .listen 1 .restart, .listen 1 .done,
      .listen 1 .done, .listen 2 .done]

/--
終わった stream の listener が token を取ると、登録は届かない。

`watchDone` と `restartCh` の両方が選べる時、`select` はどちらも選べる。cancel されるのは終わった stream の
context なので、二本目の stream は待ち続け、登録も signal も済んだ namespace は request に無い。
-/
theorem ended_listener_takes_token :
    (run restartStep newSubManager sampleLate).phase = .receiving [sampleHome] ∧
      (run restartStep newSubManager sampleLate).pending = false ∧
      (run restartStep newSubManager sampleLate).signalling = [] ∧
      (run restartStep newSubManager sampleLate).listeners 2 = .selecting ∧
      sampleExtra ∈ (run restartStep newSubManager sampleLate).namespaces ∧
      sampleExtra ∉ [sampleHome] := by
  decide

end Sample

end Kms.Client
