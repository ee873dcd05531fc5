import Kms.Domain
import Kms.Infra.Run

/-!
# Python client の stream の張り直し

Python client の `_SubManager` も、登録された namespace の全部を一本の `Subscribe` stream で購読する。namespace を
加えた登録は、lock を放した後で `_restart_requested` を立て、`_current_responses` に公表されている call を読んで
cancel する。watch thread は namespace を集めてから stream を開き、その後で call を公表するので、その間に読んだ登録は
何も cancel しない。`_restart_requested` を見るのは stream が終わってからである。

* `PySubManager` / `PyRestartEvent` / `pyRestartStep` — 状態と一歩
* `PyRestartInv` — run の不変条件
* `py_every_namespace_requested` — 主定理
* `py_registration_before_publish_is_missed` — 公表の前に読んだ登録は、stream に届かない
-/

namespace Kms.Client

open Kms.Infra

/-! ## 状態 -/

/-- watch thread の位置。 -/
inductive WatchPhase where
  | idle
  /-- `_run` の loop の先頭の `_stop_event` の検査。 -/
  | top
  /-- `_restart_requested = False` の前。 -/
  | clearing
  /-- `_snapshot_namespaces` の前。 -/
  | collecting
  /-- `Subscribe` の前。 -/
  | subscribing (nss : List NamespaceRef)
  /-- stream は開き、`_current_responses` への公表の前。 -/
  | publishing (nss : List NamespaceRef)
  /-- 開いた stream の応答を待つ。 -/
  | iterating (nss : List NamespaceRef)
  /-- `finally` の `_current_responses = None` の前。 -/
  | finishing
  /-- `_run_stream` の後の `_stop_event` の検査。 -/
  | stopCheck
  /-- `_restart_requested` の検査。 -/
  | flagCheck
  | backingOff
  | returned
  deriving DecidableEq

/-- 今の stream の request に入れた namespace。 -/
def WatchPhase.request : WatchPhase → Option (List NamespaceRef)
  | .subscribing nss | .publishing nss | .iterating nss => some nss
  | _ => none

/-- 集めた namespace があり、call はまだ公表されていない。 -/
def WatchPhase.unpublished : WatchPhase → Option (List NamespaceRef)
  | .subscribing nss | .publishing nss => some nss
  | _ => none

/-- namespace を加えた登録の `_signal_restart` の位置。 -/
inductive SignalPhase where
  /-- `_restart_requested = True` の前。 -/
  | flagging
  /-- `_current_responses` を読む前。 -/
  | reading
  /-- 読んだ call (stream の番号) を cancel する前。 -/
  | cancelling (stream : Nat)
  | done
  deriving DecidableEq

structure PySubManager where
  namespaces : List NamespaceRef
  started : Bool
  restartRequested : Bool
  /-- `_stop_event` が立っている。 -/
  stopEvent : Bool
  /-- 公表された call の stream の番号。 -/
  currentResponses : Option Nat
  phase : WatchPhase
  /-- 最後に始めた stream の番号。 -/
  stream : Nat
  cancelled : Nat → Bool
  /-- 登録の thread。一つの namespace を加える登録は一つだけである。 -/
  signals : NamespaceRef → SignalPhase

def newPySubManager : PySubManager where
  namespaces := []
  started := false
  restartRequested := false
  stopEvent := false
  currentResponses := none
  phase := .idle
  stream := 0
  cancelled := fun _ => false
  signals := fun _ => .done

namespace PySubManager

def setSignal (s : PySubManager) (ns : NamespaceRef) (p : SignalPhase) : PySubManager :=
  { s with signals := fun ns' => if ns' = ns then p else s.signals ns' }

def cancel (s : PySubManager) (j : Nat) : PySubManager :=
  { s with cancelled := fun i => if i = j then true else s.cancelled i }

/--
`register_param` と `register_watcher` の lock の中。

`_ensure_started_locked` は最初の一回だけ thread を起動する。`was_started and new_ns` の時だけ、lock の外で
`_signal_restart` を呼ぶ。
-/
def register (s : PySubManager) (ns : NamespaceRef) : PySubManager :=
  let newNs : Bool := decide (ns ∉ s.namespaces)
  let added : PySubManager := if newNs then { s with namespaces := s.namespaces ++ [ns] } else s
  if s.started then
    if newNs then added.setSignal ns .flagging else added
  else { added with started := true, phase := .top }

/-- `_signal_restart` の一歩。 -/
def signalRestart (s : PySubManager) (ns : NamespaceRef) : PySubManager :=
  match s.signals ns with
  | .flagging => { s with restartRequested := true }.setSignal ns .reading
  | .reading =>
    match s.currentResponses with
    | some j => s.setSignal ns (.cancelling j)
    | none => s.setSignal ns .done
  | .cancelling j => (s.cancel j).setSignal ns .done
  | .done => s

/-- watch thread の一歩。`ok` は `Subscribe` と応答の成否か、backoff の時間が過ぎたかを表す。 -/
def loop (s : PySubManager) (ok : Bool) : PySubManager :=
  match s.phase with
  | .idle => s
  | .top => if s.stopEvent then { s with phase := .returned } else { s with phase := .clearing }
  | .clearing => { s with restartRequested := false, phase := .collecting }
  | .collecting => { s with stream := s.stream + 1, phase := .subscribing s.namespaces }
  | .subscribing nss =>
    if ok then { s with phase := .publishing nss } else { s with phase := .finishing }
  | .publishing nss => { s with currentResponses := some s.stream, phase := .iterating nss }
  | .iterating _ => if ok then s else { s with phase := .finishing }
  | .finishing => { s with currentResponses := none, phase := .stopCheck }
  | .stopCheck =>
    if s.stopEvent then { s with phase := .returned } else { s with phase := .flagCheck }
  | .flagCheck =>
    if s.restartRequested then { s with phase := .top } else { s with phase := .backingOff }
  | .backingOff =>
    if ok then { s with phase := .top }
    else if s.stopEvent then { s with phase := .returned } else s
  | .returned => s

/-- `stop` が公表された call を cancel する。 -/
def stopCancel (s : PySubManager) : PySubManager :=
  match s.currentResponses with
  | some j => s.cancel j
  | none => s

end PySubManager

inductive PyRestartEvent where
  | register (ns : NamespaceRef)
  | signal (ns : NamespaceRef)
  | loop (ok : Bool)
  | stop
  | stopCancel
  deriving DecidableEq

def pyRestartStep (s : PySubManager) : PyRestartEvent → PySubManager
  | .register ns => s.register ns
  | .signal ns => s.signalRestart ns
  | .loop ok => s.loop ok
  | .stop => { s with stopEvent := true }
  | .stopCancel => if s.stopEvent then s.stopCancel else s

/-! ## 不変条件 -/

/-- この登録の signal は、これから今の stream を cancel する。 -/
def PySubManager.pending (s : PySubManager) (ns : NamespaceRef) : Bool :=
  match s.signals ns with
  | .flagging | .reading => true
  | .cancelling j => decide (j = s.stream)
  | .done => false

structure PyRestartInv (s : PySubManager) : Prop where
  idle : s.started = false → s.phase = .idle
  published : ∀ nss, s.phase = .iterating nss → s.currentResponses = some s.stream
  requested : ∀ nss, s.phase.request = some nss →
    s.cancelled s.stream = true ∨ ∀ ns ∈ s.namespaces, ns ∈ nss ∨ s.pending ns = true

theorem pyRestartInv_new : PyRestartInv newPySubManager where
  idle := fun _ => rfl
  published := fun _ h => by cases h
  requested := fun _ h => by cases h

/-- call が公表される前に、集められなかった namespace の登録が call を読むことは無い。 -/
def ReadsPublished (s : PySubManager) (ev : PyRestartEvent) : Prop :=
  ∀ ns ∈ s.namespaces, ev = .signal ns → s.signals ns = .reading →
    ∀ nss ∈ s.phase.unpublished, ns ∈ nss

instance (s : PySubManager) (ev : PyRestartEvent) : Decidable (ReadsPublished s ev) :=
  inferInstanceAs (Decidable (∀ ns ∈ s.namespaces, ev = .signal ns → s.signals ns = .reading →
    ∀ nss ∈ s.phase.unpublished, ns ∈ nss))

namespace PyRestartInv

variable {s : PySubManager}

theorem started (h : PyRestartInv s) (hp : s.phase ≠ .idle) : s.started = true := by
  cases hs : s.started with
  | true => rfl
  | false => exact absurd (h.idle hs) hp

theorem moved (h : PyRestartInv s) {s' : PySubManager} (hp : s.phase ≠ .idle)
    (hs : s'.started = s.started) (hr : s'.phase.request = none) : PyRestartInv s' where
  idle := fun hf => by
    rw [hs, h.started hp] at hf
    cases hf
  published := fun nss hph => by
    rw [hph] at hr
    cases hr
  requested := fun nss hn => by
    rw [hr] at hn
    cases hn

theorem register (h : PyRestartInv s) (ns : NamespaceRef) : PyRestartInv (s.register ns) := by
  simp only [PySubManager.register]
  cases hs : s.started with
  | false =>
    refine ⟨fun hf => (by simp at hf), fun nss hph => (by cases hph), fun nss hn => (by cases hn)⟩
  | true =>
    by_cases hmem : ns ∈ s.namespaces
    · simpa [hmem] using h
    · simp only [hmem, not_false_eq_true, decide_true, if_true]
      refine ⟨fun hf => (by cases hf), h.published,
        fun nss hn => (h.requested nss hn).imp id (fun hreq ns' hmem' => ?_)⟩
      rcases List.mem_append.mp hmem' with hold | hnew
      · have hne : ns' ≠ ns := by
          rintro rfl
          exact hmem hold
        refine (hreq ns' hold).imp id (fun hpend => ?_)
        simpa [PySubManager.pending, PySubManager.setSignal, hne] using hpend
      · rw [List.mem_singleton.mp hnew]
        exact .inr (by simp [PySubManager.pending, PySubManager.setSignal])

theorem pending_setSignal_of_ne {ns ns' : NamespaceRef} (hne : ns' ≠ ns) (p : SignalPhase) :
    (s.setSignal ns p).pending ns' = s.pending ns' := by
  unfold PySubManager.pending PySubManager.setSignal
  simp only [if_neg hne]

theorem setSignal (h : PyRestartInv s) {ns : NamespaceRef} {p : SignalPhase}
    (hp : ns ∈ s.namespaces → s.pending ns = true → ∀ nss, s.phase.request = some nss →
      s.cancelled s.stream = true ∨ ns ∈ nss ∨ (s.setSignal ns p).pending ns = true) :
    PyRestartInv (s.setSignal ns p) := by
  refine ⟨h.idle, h.published, fun nss hn => ?_⟩
  by_cases hcan : s.cancelled s.stream = true
  · exact .inl hcan
  · have hreq := (h.requested nss hn).resolve_left hcan
    refine .inr (fun ns' hmem => ?_)
    by_cases hne : ns' = ns
    · subst hne
      rcases hreq ns' hmem with hin | hpend
      · exact .inl hin
      · exact (hp hmem hpend nss hn).resolve_left hcan
    · rw [pending_setSignal_of_ne hne]
      exact hreq ns' hmem

theorem cancel (h : PyRestartInv s) (j : Nat) : PyRestartInv (s.cancel j) := by
  refine ⟨h.idle, h.published, fun nss hn => (h.requested nss hn).imp (fun hcan => ?_) id⟩
  show (if s.stream = j then true else s.cancelled s.stream) = true
  split
  · rfl
  · exact hcan

theorem mem_of_unpublished {ns : NamespaceRef} (hread : ReadsPublished s (.signal ns))
    (hmem : ns ∈ s.namespaces) (hsig : s.signals ns = .reading) {nss : List NamespaceRef}
    (hn : s.phase.request = some nss) (hnot : ∀ nss', s.phase ≠ .iterating nss') : ns ∈ nss := by
  refine hread ns hmem rfl hsig nss ?_
  cases hph : s.phase with
  | iterating nss' => exact absurd hph (hnot nss')
  | _ =>
    rw [hph] at hn
    exact hn

theorem signalRestart (h : PyRestartInv s) {ns : NamespaceRef}
    (hread : ReadsPublished s (.signal ns)) : PyRestartInv (s.signalRestart ns) := by
  unfold PySubManager.signalRestart
  cases hsig : s.signals ns with
  | done => exact h
  | flagging =>
    refine setSignal (s := { s with restartRequested := true })
      ⟨h.idle, h.published, h.requested⟩ (fun _ _ _ _ => .inr (.inr ?_))
    simp [PySubManager.pending, PySubManager.setSignal]
  | reading =>
    cases hcur : s.currentResponses with
    | some j =>
      refine h.setSignal (fun hmem _ nss hn => .inr ?_)
      by_cases hiter : ∃ nss', s.phase = .iterating nss'
      · -- 公表された後なら、読んだ call は今の stream である
        obtain ⟨nss', hph⟩ := hiter
        have hj := h.published nss' hph
        rw [hcur] at hj
        cases hj
        exact .inr (by simp [PySubManager.pending, PySubManager.setSignal])
      · exact .inl (mem_of_unpublished hread hmem hsig hn (fun nss' hph => hiter ⟨nss', hph⟩))
    | none =>
      refine h.setSignal (fun hmem _ nss hn => .inr (.inl ?_))
      refine mem_of_unpublished hread hmem hsig hn (fun nss' hph => ?_)
      have hj := h.published nss' hph
      rw [hcur] at hj
      cases hj
  | cancelling j =>
    refine (h.cancel j).setSignal (fun _ hpend _ _ => .inl ?_)
    have hj : j = s.stream := by
      have hpend : s.pending ns = true := hpend
      unfold PySubManager.pending at hpend
      rw [hsig] at hpend
      exact of_decide_eq_true hpend
    exact if_pos hj.symm

theorem loop (h : PyRestartInv s) (ok : Bool) : PyRestartInv (s.loop ok) := by
  unfold PySubManager.loop
  cases hp : s.phase with
  | idle => exact h
  | returned => exact h
  | collecting =>
    refine ⟨fun hf => ?_, fun nss hph => (by cases hph),
      fun nss hn => .inr (fun ns hmem => .inl ?_)⟩
    · have := h.started (by rw [hp]; exact WatchPhase.noConfusion)
      exact absurd (this.symm.trans hf) (by decide)
    · cases hn
      exact hmem
  | subscribing nss =>
    simp only
    split
    · refine ⟨fun hf => ?_, fun nss' hph => (by cases hph), fun nss' hn => ?_⟩
      · have := h.started (by rw [hp]; exact WatchPhase.noConfusion)
        exact absurd (this.symm.trans hf) (by decide)
      · exact h.requested nss' (by rw [hp]; exact hn)
    · exact h.moved (by rw [hp]; exact WatchPhase.noConfusion) rfl rfl
  | publishing nss =>
    refine ⟨fun hf => ?_, fun nss' _ => rfl, fun nss' hn => ?_⟩
    · have := h.started (by rw [hp]; exact WatchPhase.noConfusion)
      exact absurd (this.symm.trans hf) (by decide)
    · exact h.requested nss' (by rw [hp]; exact hn)
  | iterating nss =>
    simp only
    split
    · exact h
    · exact h.moved (by rw [hp]; exact WatchPhase.noConfusion) rfl rfl
  | clearing => exact h.moved (by rw [hp]; exact WatchPhase.noConfusion) rfl rfl
  | finishing => exact h.moved (by rw [hp]; exact WatchPhase.noConfusion) rfl rfl
  | backingOff =>
    simp only
    split
    · exact h.moved (by rw [hp]; exact WatchPhase.noConfusion) rfl rfl
    · split
      · exact h.moved (by rw [hp]; exact WatchPhase.noConfusion) rfl rfl
      · exact h
  | _ =>
    simp only
    split <;> exact h.moved (by rw [hp]; exact WatchPhase.noConfusion) rfl rfl

end PyRestartInv

theorem pyRestartInv_step {s : PySubManager} {ev : PyRestartEvent} (hread : ReadsPublished s ev)
    (h : PyRestartInv s) : PyRestartInv (pyRestartStep s ev) := by
  cases ev with
  | register ns => exact h.register ns
  | signal ns => exact h.signalRestart hread
  | loop ok => exact h.loop ok
  | stop => exact ⟨h.idle, h.published, h.requested⟩
  | stopCancel =>
    simp only [pyRestartStep, PySubManager.stopCancel]
    split
    · split
      · exact h.cancel _
      · exact h
    · exact h

/-! ## 主定理 -/

/--
登録は stream に届く。

集められなかった namespace の登録が、call の公表の前に call を読まなければ、登録・watch thread のどの interleaving でも、
watch thread が cancel されていない開いた stream を待っている時、その request には、登録を終えた全ての namespace が入って
いる。
-/
theorem py_every_namespace_requested {evs : List PyRestartEvent}
    (hread : AlongSteps pyRestartStep ReadsPublished newPySubManager evs)
    {s : PySubManager} (hs : s = run pyRestartStep newPySubManager evs) {nss : List NamespaceRef}
    (hiter : s.phase = .iterating nss) (hopen : s.cancelled s.stream = false) :
    ∀ ns ∈ s.namespaces, s.signals ns = .done → ns ∈ nss := by
  have hinv : PyRestartInv s := by
    rw [hs]
    exact run_steps_invariant (fun _ _ hr h => pyRestartInv_step hr h) pyRestartInv_new hread
  intro ns hmem hdone
  rcases hinv.requested nss (by rw [hiter]; rfl) with hcan | hreq
  · rw [hopen] at hcan
    cases hcan
  · refine (hreq ns hmem).resolve_right ?_
    unfold PySubManager.pending
    rw [hdone]
    exact Bool.false_ne_true

section Sample

private def samplePyHome : NamespaceRef := ⟨"prod", "billing"⟩

private def samplePyExtra : NamespaceRef := ⟨"prod", "shared"⟩

/-- 一本目の stream が公表された後の登録で張り直す run。 -/
private def samplePyRestart : List PyRestartEvent :=
  [.register samplePyHome] ++ List.replicate 5 (.loop true) ++
    [.register samplePyExtra, .signal samplePyExtra, .signal samplePyExtra, .signal samplePyExtra,
      .loop false] ++ List.replicate 8 (.loop true)

theorem py_every_namespace_requested_sample :
    (run pyRestartStep newPySubManager samplePyRestart).namespaces = [samplePyHome, samplePyExtra] ∧
      ∀ ns ∈ (run pyRestartStep newPySubManager samplePyRestart).namespaces,
        (run pyRestartStep newPySubManager samplePyRestart).signals ns = .done →
          ns ∈ [samplePyHome, samplePyExtra] :=
  ⟨by decide, py_every_namespace_requested (by decide) rfl (by decide) (by decide)⟩

/-- namespace が集められた後、call が公表される前に、登録が call を読む run。 -/
private def samplePyMissed : List PyRestartEvent :=
  [.register samplePyHome] ++ List.replicate 3 (.loop true) ++
    [.register samplePyExtra, .signal samplePyExtra, .signal samplePyExtra] ++
    List.replicate 2 (.loop true)

/--
公表の前に call を読んだ登録は、何も cancel しない。stream は開いたまま待ち続け、登録を終えた namespace は request に無い。
-/
theorem py_registration_before_publish_is_missed :
    (run pyRestartStep newPySubManager samplePyMissed).phase = .iterating [samplePyHome] ∧
      (run pyRestartStep newPySubManager samplePyMissed).cancelled
        (run pyRestartStep newPySubManager samplePyMissed).stream = false ∧
      samplePyExtra ∈ (run pyRestartStep newPySubManager samplePyMissed).namespaces ∧
      (run pyRestartStep newPySubManager samplePyMissed).signals samplePyExtra = .done ∧
      samplePyExtra ∉ [samplePyHome] := by
  decide

end Sample

end Kms.Client
