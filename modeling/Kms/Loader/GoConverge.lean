import Kms.Loader.GoTracking

/-!
# Go の loop の収束

server の target が `T` のまま変わらず、読み出し・取得・`Prepare` が成功し続けるなら、その時動いていた
goroutine が終わった後の一度の reconcile で、`T` は反映される。

* `Caught` — `T` を失敗しない候補として動かしているか、反映した
* `completion` — 動いている候補を終わらせる event の列
* `run_converges` — 主定理
* `superseded_verdict_suppresses` — 条件を外した反例
-/

namespace Kms.Loader.Go

open Kms.Infra Kms.Infra.Lifecycle

section

variable {track : ReleaseTrack} {T : Candidate} {young : Nat → Prop} {s : State} {last floor : Nat}

/-! ## 追い付いた後 -/

structure Caught (T : Candidate) (young : Nat → Prop) (s : State) : Prop where
  latest : ∃ c, s.latest = some c ∧ Same T c
  state : (s.inFlight = false ∧ CommittedLast T s) ∨ (s.inFlight = true ∧ young s.latestSeq)
  mode : s.mode = .select ∨ s.mode = .reconciling

/-- 受け入れた `T` は新しい番号を持つので、失敗しない。 -/
theorem caught_accepted (h : Inv s last floor) (hyoung : ∀ seq, ¬ young seq → seq ≤ last)
    (hmode : s.mode = .select) {candidate : Candidate} (hsame : Same T candidate)
    (haddr : releaseHasAddress candidate.release track = true)
    (hshould : shouldQueueReleaseCandidate candidate s.latest s.retryLatest = true) :
    Caught T young (queue track s candidate) := by
  have hnew : young (s.latestSeq + 1) := by
    by_contra hold
    have hle := hyoung _ hold
    have hseq := h.seq
    omega
  unfold queue
  rw [if_neg (by rw [haddr]; exact fun hf => nomatch hf),
    if_neg (by rw [hshould]; exact fun hf => nomatch hf)]
  split
  · next hin =>
    obtain ⟨workers, hframe⟩ := cancelActive_frame (accept s candidate)
    rw [hframe]
    exact ⟨⟨_, rfl, hsame⟩, Or.inr ⟨hin, hnew⟩, Or.inl hmode⟩
  · exact ⟨⟨_, rfl, hsame⟩, Or.inr ⟨rfl, hnew⟩, Or.inl hmode⟩

theorem Caught.setMode (hc : Caught T young s) {mode : Mode}
    (hmode : mode = .select ∨ mode = .reconciling) (events : Option Candidate) :
    Caught T young { s with mode, events } :=
  ⟨hc.latest, hc.state, hmode⟩

theorem caught_queue (h : Inv s last floor) (hyoung : ∀ seq, ¬ young seq → seq ≤ last)
    (hc : Caught T young s) (hmode : s.mode = .select) {candidate : Candidate}
    (hupto : UpTo T candidate) : Caught T young (queue track s candidate) := by
  by_cases haddr : releaseHasAddress candidate.release track = true
  · by_cases hshould : shouldQueueReleaseCandidate candidate s.latest s.retryLatest = true
    · obtain ⟨c, hl, hsame⟩ := hc.latest
      have hle : T.revision ≤ candidate.revision := by
        rw [hl] at hshould
        rw [← hsame.1]
        exact revision_le_of_shouldQueue hshould
      exact caught_accepted h hyoung hmode (hupto.same_of_le hle) haddr hshould
    · unfold queue
      rw [if_neg (by rw [haddr]; exact fun hf => nomatch hf),
        if_pos (Bool.not_eq_true _ ▸ hshould)]
      exact hc
  · unfold queue
    rw [if_pos (Bool.not_eq_true _ ▸ haddr)]
    exact hc

theorem caught_takeResult (h : Inv s last floor) (ht : Tracking T young s)
    (hc : Caught T young s) (hlive : (takeResult s).runCancelled = false) :
    Caught T young (takeResult s) := by
  cases hres : s.results with
  | nil =>
    rw [takeResult_of_empty hres]
    exact hc
  | cons r rest =>
    obtain ⟨rfl, hin, _, hlast, _⟩ := h.finished hres
    have hmem : r ∈ s.results := by rw [hres]; exact List.mem_singleton.mpr rfl
    have hyoung : young s.latestSeq := by
      rcases hc.state with ⟨hidle, _⟩ | ⟨_, hy⟩
      · simp [hin] at hidle
      · exact hy
    -- 失敗しない候補なので、最新の候補の結果は反映である。
    have hdone : r.fatal = false → r.candidate.seq = s.latestSeq →
        r.category = none ∧ CommittedLast T s := by
      intro hfatal hseq
      obtain ⟨hlatest, hverdict⟩ := ht.result r hmem hseq
      obtain ⟨c, hl, hsame⟩ := hc.latest
      rw [hlatest] at hl
      cases hl
      rcases hverdict hsame with hf | ⟨happ, hnone⟩ | ⟨hold, _⟩
      · simp [hfatal] at hf
      · exact ⟨hnone, _, ht.applied r hmem happ, hsame⟩
      · rw [hseq] at hold
        exact absurd hyoung hold
    have htaken := takeResult_taken hres
    generalize takeResult s = s' at htaken hlive ⊢
    cases htaken with
    | panicked _ => cases hlive
    | started _ _ => exact ⟨hc.latest, Or.inr ⟨rfl, hyoung⟩, hc.mode⟩
    | kept hfatal hstale _ =>
      have hseq := h.latest_of_stale hin hlast hstale
      exact ⟨hc.latest, Or.inl ⟨rfl, (hdone hfatal hseq).2⟩, hc.mode⟩
    | retried hfatal hseq hcat | confirming hfatal hseq hcat _ =>
      exact absurd (hdone hfatal hseq).1 hcat

variable {e : Event} {n : Nat} {s₀ : State}

theorem caught_step (h : Inv s last floor) (hyoung : ∀ seq, ¬ young seq → seq ≤ last)
    (ht : Tracking T young s) (hc : Caught T young s)
    (hadm : Admissible T young s e) (hlive : (step track s e).runCancelled = false) :
    Caught T young (step track s e) := by
  have hstep := step_stepped track s e
  generalize step track s e = s' at hstep hlive ⊢
  cases hstep with
  | same => exact hc
  | offered => exact hc.setMode hc.mode _
  | cancelled | exited => cases hlive
  | ticked => exact hc.setMode (Or.inr rfl) _
  | selected => exact hc.setMode (Or.inl rfl) _
  | received hmode hev =>
    exact caught_queue (h.frame none _ _ _) hyoung (hc.setMode hc.mode none) hmode
      (ht.events _ hev)
  | @reconciled _ c hmode hget =>
    exact caught_queue (h.toSelect (by rw [State.running, hmode])) hyoung
      (hc.setMode (Or.inl rfl) s.events) rfl (hadm.ordered c hget)
  | confirmed hmode => simpa [hmode] using hc.mode
  | taken => exact caught_takeResult h ht hc hlive
  | worked e hget =>
    have hstate := hc.state
    rw [(h.working hget).2.1] at hstate
    obtain ⟨workers, results, log, hframe⟩ := stepWorker_frame track s _ _ e
    rw [hframe]
    exact ⟨hc.latest, Or.inr ⟨(h.working hget).2.1, by simpa using hstate⟩, hc.mode⟩

theorem latest_of_not_shouldQueue (hT : releaseHasAddress T.release track = true)
    (ht : Tracking T young s) {c : Candidate} (hc : Same T c)
    (h : ¬ shouldQueueReleaseCandidate { c with source := .reconciliation } s.latest
      s.retryLatest = true) :
    ∃ l, s.latest = some l ∧ Same T l ∧ s.retryLatest = false := by
  obtain ⟨r, _, hr, _⟩ := exists_ns_of_hasAddress hT
  have hrel : c.release ≠ none := by
    rw [hc.2, hr]
    exact fun hn => nomatch hn
  unfold shouldQueueReleaseCandidate at h
  rw [if_neg hrel] at h
  cases hl : s.latest with
  | none =>
    simp only [hl] at h
    exact absurd trivial h
  | some l =>
    simp only [hl] at h
    have hupto := ht.ordered l hl
    have hle := hupto.revision_le
    have hrev := hc.1
    rw [if_neg (by omega)] at h
    by_cases hq : sameQueuedCandidate { c with source := .reconciliation } l = true
    · rw [if_pos hq] at h
      refine ⟨l, rfl, hupto.same_of_le ?_, by simpa using h⟩
      rw [← hrev]
      exact Nat.le_of_eq (revision_eq_of_sameQueued hq)
    · rw [if_neg hq] at h
      exact absurd rfl h

theorem Inv.young_latestSeq (h : Inv s last floor) (hyoung : ∀ seq, ¬ young seq → seq ≤ last)
    (hfresh : ∀ seq, InFlight s seq → young seq) (hin : s.inFlight = true) :
    young s.latestSeq := by
  cases hp : s.pending with
  | none =>
    rw [← h.current hin hp]
    refine hfresh last ?_
    cases h.flight with
    | idle hin' =>
      simp [hin] at hin'
    | working w _ _ hw _ _ _ hlog =>
      exact Or.inl ⟨w, by rw [hw]; exact List.mem_singleton.mpr rfl, (hlog.job_last rfl).1⟩
    | finished r _ _ hr hseq =>
      exact Or.inr ⟨r, by rw [hr]; exact List.mem_singleton.mpr rfl, hseq⟩
  | some p =>
    -- pending の候補は、始めた候補の後に受け入れた。
    obtain ⟨hlatest, hlt⟩ := h.pending p hp
    have hseq := (h.latest p hlatest).1
    by_contra hold
    have hle := hyoung _ hold
    omega

theorem caught_tick (hT : releaseHasAddress T.release track = true) (h : Inv s last floor)
    (hyoung : ∀ seq, ¬ young seq → seq ≤ last) (ht : Tracking T young s)
    (hmode : s.mode = .reconciling) (hfresh : ∀ seq, InFlight s seq → young seq) {c : Candidate}
    (hc : Same T c) : Caught T young (step track s (.reconcileRead (some c))) := by
  have hrun : s.running = true := by
    rw [State.running, hmode]
  simp only [step, if_pos hmode, reconcileRead, getActive_of_same hT hc]
  have haddr : releaseHasAddress c.release track = true := by
    rw [hc.2]
    exact hT
  by_cases hshould : shouldQueueReleaseCandidate { c with source := .reconciliation } s.latest
      s.retryLatest = true
  · exact caught_accepted (h.toSelect hrun) hyoung rfl hc haddr hshould
  · obtain ⟨l, hl, hsame, hretry⟩ := latest_of_not_shouldQueue hT ht hc hshould
    unfold queue
    rw [if_neg (by simp [haddr]), if_pos (Bool.not_eq_true _ ▸ hshould)]
    refine ⟨⟨l, hl, hsame⟩, ?_, Or.inl rfl⟩
    cases hin : s.inFlight with
    | true => exact Or.inr ⟨rfl, h.young_latestSeq hyoung hfresh hin⟩
    | false =>
      rcases ht.progress l hl hsame with hr | hin' | ⟨r, hm⟩ | hcommit
      · simp [hretry] at hr
      · simp [hin] at hin'
      · simp [hmode] at hm
      · exact Or.inl ⟨rfl, hcommit⟩

/-! ## 動いている候補の完了 -/

/-- goroutine の全ての段階。済んだ段階の event は何も変えない。 -/
def stages (T : Candidate) : List WorkerEvent :=
  [.resolve none, .prepare .ok, .check, .read (some T), .commit false false 0]

/-- goroutine が終わり、loop が結果を取り出す。 -/
def round (T : Candidate) : List Event := (stages T).map (.worker 0) ++ [.takeResult]

def completion (T : Candidate) : List Event := .reconcileRead (some T) :: (round T ++ round T)

/-- 終わった段階の数。 -/
def Phase.rank : Phase → Nat
  | .resolving => 0
  | .preparing => 1
  | .prepared => 2
  | .reading => 3
  | .committing => 4

/-- goroutine は無いか、`n` 個の段階を終えている。 -/
def Passed (n : Nat) (s : State) : Prop :=
  s.workers = [] ∨ ∃ w, s.workers = [w] ∧ n ≤ w.phase.rank

theorem run_worker_frame (track : ReleaseTrack) (s : State) (es : List WorkerEvent) :
    ∃ workers results log,
      run (step track) s (es.map (.worker 0)) = { s with workers, results, log } := by
  induction es generalizing s with
  | nil => exact ⟨_, _, _, rfl⟩
  | cons e es ih =>
    rw [List.map_cons, run_cons]
    simp only [step]
    split
    · next w _ =>
      obtain ⟨_, _, _, hframe⟩ := stepWorker_frame track s 0 w e
      rw [hframe]
      exact ih _
    · exact ih s

theorem passed_advance {w : Worker} (hw : s.workers = [w]) {phase : Phase} {entries : Log}
    (hle : n ≤ phase.rank) : Passed n (advance s 0 w phase entries) :=
  Or.inr ⟨{ w with phase }, by simp only [advance, hw, List.set_cons_zero], hle⟩

theorem passed_finish {w : Worker} (hw : s.workers = [w]) {r : Result} {entries : Log} :
    Passed n (finish s 0 r entries) :=
  Or.inl (by simp only [finish, hw, List.eraseIdx_cons_zero])

variable (track T) in
theorem passed_step {e : WorkerEvent} (he : (stages T)[n]? = some e) (h : Passed n s) :
    Passed (n + 1) (step track s (.worker 0 e)) := by
  rcases h with hw | ⟨w, hw, hle⟩
  · refine Or.inl ?_
    simp only [step, hw, List.getElem?_nil]
  · have hstep : step track s (.worker 0 e) = stepWorker track s 0 w e := by
      simp only [step, hw, List.getElem?_cons_zero]
    rw [hstep]
    by_cases hlt : n < w.phase.rank
    · -- 済んだ段階の event。
      refine Or.inr ⟨w, ?_, hlt⟩
      rcases n with _ | _ | _ | _ | _ | n <;> cases he
      all_goals
        unfold stepWorker
        cases hphase : w.phase <;> simp_all [Phase.rank]
    · have hrank : n = w.phase.rank := by omega
      cases hphase : w.phase
      all_goals
        rw [hphase] at hrank
        subst hrank
        cases he
        simp only [stepWorker, hphase]
      · exact passed_advance hw (Nat.le_refl 1)
      · exact passed_advance hw (Nat.le_refl 2)
      · split
        · exact passed_finish hw
        · exact passed_advance hw (Nat.le_refl 3)
      · split
        · exact passed_finish hw
        · split
          · exact passed_finish hw
          · exact passed_advance hw (Nat.le_refl 4)
      · exact passed_finish hw

variable (track T) in
theorem stages_done (hw : s.workers = [] ∨ ∃ w, s.workers = [w]) :
    (run (step track) s ((stages T).map (.worker 0))).workers = [] := by
  have h₀ : Passed 0 s := by
    rcases hw with hw | ⟨w, hw⟩
    · exact Or.inl hw
    · exact Or.inr ⟨w, hw, Nat.zero_le _⟩
  have h₁ : Passed 1 _ := passed_step track T rfl h₀
  have h₂ : Passed 2 _ := passed_step track T rfl h₁
  have h₃ : Passed 3 _ := passed_step track T rfl h₂
  have h₄ : Passed 4 _ := passed_step track T rfl h₃
  have h₅ : Passed 5 _ := passed_step track T rfl h₄
  rcases h₅ with hnil | ⟨w, _, hle⟩
  · exact hnil
  · cases hphase : w.phase <;> simp [hphase, Phase.rank] at hle

/-- 結果を取り出すと、候補は終わり、pending の候補があれば始まる。 -/
theorem takeResult_settles (h : Inv s last floor) (hmode : s.mode = .select)
    (hin : s.inFlight = true) (hw : s.workers = []) :
    (takeResult s).workers = [] ∧ (takeResult s).results = [] ∧
        (takeResult s).mode = .exited .commitPanicked ∨
      (takeResult s).runCancelled = s.runCancelled ∧
        ((takeResult s).workers = [] ∧ (takeResult s).results = [] ∧
            (takeResult s).inFlight = false ∨
          (takeResult s).mode = .select ∧ (takeResult s).inFlight = true ∧
            (takeResult s).pending = none ∧ s.pending ≠ none) := by
  cases hres : s.results with
  | nil =>
    cases h.flight with
    | idle hin' =>
      simp [hin] at hin'
    | working _ _ _ hw' => exact absurd (hw'.symm.trans hw) (List.cons_ne_nil _ _)
    | finished _ _ _ hr => exact absurd (hr.symm.trans hres) (List.cons_ne_nil _ _)
  | cons r rest =>
    obtain ⟨rfl, _⟩ := h.finished hres
    have htaken := takeResult_taken hres
    generalize takeResult s = s' at htaken ⊢
    cases htaken with
    | panicked _ => exact Or.inl ⟨hw, rfl, rfl⟩
    | started _ hp =>
      exact Or.inr ⟨rfl, Or.inr ⟨hmode, rfl, rfl, by rw [hp]; exact Option.some_ne_none _⟩⟩
    | kept _ _ _ | retried _ _ _ | confirming _ _ _ _ => exact Or.inr ⟨rfl, Or.inl ⟨hw, rfl, rfl⟩⟩

theorem round_eq (track : ReleaseTrack) (T : Candidate) (s : State) :
    run (step track) s (round T) =
      step track (run (step track) s ((stages T).map (.worker 0))) .takeResult := by
  rw [round, run_append, run_cons, run_nil]

variable (track) in
theorem inv_run_from (h : Inv s last floor) (es : List Event) :
    ∃ last' floor', Inv (run (step track) s es) last' floor' :=
  run_invariant (I := fun s => ∃ last floor, Inv s last floor)
    (fun _ e ⟨_, _, h⟩ => inv_step h e) ⟨last, floor, h⟩ es

variable (track T) in
theorem round_settles (h : Inv s last floor) (hmode : s.mode = .select) (hin : s.inFlight = true) :
    let s' := run (step track) s (round T)
    s'.workers = [] ∧ s'.results = [] ∧ s'.mode = .exited .commitPanicked ∨
      s'.runCancelled = s.runCancelled ∧
        (s'.workers = [] ∧ s'.results = [] ∧ s'.inFlight = false ∨
          s'.mode = .select ∧ s'.inFlight = true ∧ s'.pending = none ∧ s.pending ≠ none) := by
  have hone : s.workers = [] ∨ ∃ w, s.workers = [w] := by
    cases h.flight with
    | idle _ hw | finished _ _ hw => exact Or.inl hw
    | working w _ _ hw => exact Or.inr ⟨w, hw⟩
  have hdone := stages_done track T hone
  obtain ⟨workers, results, log, hframe⟩ := run_worker_frame track s (stages T)
  obtain ⟨last', floor', h'⟩ := inv_run_from track h ((stages T).map (.worker 0))
  rw [round_eq]
  rw [hframe] at hdone h' ⊢
  simp only [step, if_pos hmode]
  exact takeResult_settles h' hmode hin hdone

theorem round_idle (track : ReleaseTrack) (T : Candidate) (hw : s.workers = [])
    (hr : s.results = []) : run (step track) s (round T) = s := by
  have hstep : ∀ e, step track s (.worker 0 e) = s := by
    intro e
    simp only [step, hw, List.getElem?_nil]
  have htake : step track s .takeResult = s := by
    simp only [step, takeResult, hr, ite_self]
  simp only [round, stages, List.map_cons, List.map_nil, List.cons_append, List.nil_append,
    run_cons, run_nil, hstep, htake]

variable (track T) in
theorem rounds_settle (h : Inv s last floor) (hmode : s.mode = .select) :
    let s' := run (step track) s (round T ++ round T)
    s'.mode = .exited .commitPanicked ∨ s'.runCancelled = s.runCancelled ∧ s'.inFlight = false := by
  dsimp only
  rw [run_append]
  cases hin : s.inFlight with
  | false =>
    cases h.flight with
    | idle _ hw hr =>
      rw [round_idle track T hw hr, round_idle track T hw hr]
      exact Or.inr ⟨rfl, hin⟩
    | working _ _ hin' | finished _ hin' =>
      simp [hin] at hin'
  | true =>
    obtain ⟨last₁, floor₁, h₁⟩ := inv_run_from track h (round T)
    rcases round_settles track T h hmode hin with
      ⟨hw, hr, hexit⟩ | ⟨hcancel, ⟨hw, hr, hidle⟩ | ⟨hmode₁, hin₁, hp₁, _⟩⟩
    · rw [round_idle track T hw hr]
      exact Or.inl hexit
    · rw [round_idle track T hw hr]
      exact Or.inr ⟨hcancel, hidle⟩
    · rcases round_settles track T h₁ hmode₁ hin₁ with
        ⟨_, _, hexit⟩ | ⟨hcancel₂, ⟨_, _, hidle⟩ | ⟨_, _, _, hp⟩⟩
      · exact Or.inl hexit
      · exact Or.inr ⟨hcancel₂.trans hcancel, hidle⟩
      · exact absurd hp₁ hp

/-! ## run -/

def Historic (T : Candidate) (s : State) (e : Event) : Prop :=
  ServerOrdered T s e ∧ NoForeignSuperseded s e

def Stable (T : Candidate) (s : State) (e : Event) : Prop := Historic T s e ∧ Converging T s e

/-- run の途中の状態。cancel された `Run` については何も言わない。 -/
structure Followed (T : Candidate) (young : Nat → Prop) (s : State) : Prop where
  inv : ∃ last floor, Inv s last floor
  tracking : s.runCancelled = false → Tracking T young s

theorem followed_step (hT : releaseHasAddress T.release track = true) (h : Followed T young s)
    (hadm : Admissible T young s e) : Followed T young (step track s e) := by
  obtain ⟨last, floor, hinv⟩ := h.inv
  exact ⟨inv_step hinv e, fun hlive =>
    tracking_step hT hinv (h.tracking ((step_grows track _ _).cancelled hlive)) hadm hlive⟩

theorem followed_history (hT : releaseHasAddress T.release track = true)
    {initial : Option Candidate}
    (hinit : ∀ c, initial = some c → UpTo T c) {es : List Event}
    (hes : AlongSteps (step track) (Historic T) (init track initial) es) :
    Followed T (fun _ => False) (runFrom track initial es) := by
  refine run_steps_invariant (I := Followed T fun _ => False)
    (fun s e hq h => followed_step hT h (.history hq.1 hq.2)) ⟨?_, fun _ => ?_⟩ hes
  · exact inv_init track initial
  · cases initial with
    | none => exact tracking_empty T _
    | some c => exact tracking_queue inv_empty (tracking_empty T _) rfl (hinit c rfl)

theorem Followed.aged (h : Followed T (fun _ => False) s) :
    Followed T (fun seq => ¬ InFlight s seq) s := by
  refine ⟨h.inv, fun hlive => ?_⟩
  have ht := h.tracking hlive
  refine { ht with result := fun r hmem hseq => ?_ }
  obtain ⟨hlatest, hverdict⟩ := ht.result r hmem hseq
  refine ⟨hlatest, fun hsame => ?_⟩
  rcases hverdict hsame with hf | happ | ⟨_, hcat⟩
  · exact Or.inl hf
  · exact Or.inr (Or.inl happ)
  · exact Or.inr (Or.inr ⟨not_not_intro (Or.inr ⟨r, hmem, rfl⟩), hcat⟩)

theorem Inv.last_eq (h : Inv s last floor) : last = lastTicket s.log := by
  cases h.flight with
  | idle _ _ _ _ hlog | working _ _ _ _ _ _ _ hlog | finished _ _ _ _ _ hlog => exact hlog.last_eq

theorem Inv.last_le {s' : State} {last' floor' : Nat} (h : Inv s last floor)
    (h' : Inv s' last' floor') (hlog : s.log <:+ s'.log) : last ≤ last' := by
  obtain ⟨post, hpost⟩ := hlog
  obtain ⟨st, hacc⟩ := h'.accepted_log
  rw [h.last_eq, h'.last_eq, ← hacc.last_eq]
  rw [← hpost] at hacc
  exact hacc.lastTicket_le

/-- `s₀` から動かし続けた状態。`s₀` で動いていた候補だけが失敗しうる。 -/
structure Settling (T : Candidate) (s₀ s : State) : Prop where
  followed : Followed T (fun seq => ¬ InFlight s₀ seq) s
  log : s₀.log <:+ s.log

theorem Settling.seq_le (h : Settling T s₀ s) (h₀ : ∃ last floor, Inv s₀ last floor)
    (hinv : Inv s last floor) (seq : Nat) (hseq : ¬ ¬ InFlight s₀ seq) : seq ≤ last := by
  obtain ⟨last₀, floor₀, hinv₀⟩ := h₀
  rw [hinv₀.seq_of_inFlight (not_not.mp hseq)]
  exact hinv₀.last_le hinv h.log

theorem settling_step (hT : releaseHasAddress T.release track = true)
    (h : Settling T s₀ s) (hq : (step track s e).runCancelled = false → Stable T s e) :
    Settling T s₀ (step track s e) := by
  refine ⟨⟨?_, fun hlive => ?_⟩, h.log.trans (step_grows track s e).log⟩
  · obtain ⟨last, floor, hinv⟩ := h.followed.inv
    exact inv_step hinv e
  · have hstable := hq hlive
    exact (followed_step hT h.followed
      (.converging hstable.1.1 hstable.1.2 hstable.2)).tracking hlive

/-- run が cancel されるまで、追い付いた状態が続く。 -/
structure Arrived (T : Candidate) (s₀ s : State) : Prop where
  settling : Settling T s₀ s
  caught : s.runCancelled = false → Caught T (fun seq => ¬ InFlight s₀ seq) s

theorem arrived_step (hT : releaseHasAddress T.release track = true)
    (h₀ : ∃ last floor, Inv s₀ last floor) (h : Arrived T s₀ s)
    (hq : (step track s e).runCancelled = false → Stable T s e) :
    Arrived T s₀ (step track s e) := by
  refine ⟨settling_step hT h.settling hq, fun hlive => ?_⟩
  obtain ⟨last, floor, hinv⟩ := h.settling.followed.inv
  have hlive₀ := (step_grows track s e).cancelled hlive
  have hstable := hq hlive
  exact caught_step hinv (h.settling.seq_le h₀ hinv) (h.settling.followed.tracking hlive₀)
    (h.caught hlive₀) (.converging hstable.1.1 hstable.1.2 hstable.2) hlive

theorem stable_completion (ht : Tracking T young s) (he : e ∈ completion T) : Stable T s e := by
  have hT : UpTo T T := Or.inr ⟨rfl, rfl⟩
  have hround : e ∈ round T → Stable T s e := by
    intro hmem
    simp only [round, stages, List.map_cons, List.map_nil, List.mem_append, List.mem_cons,
      List.not_mem_nil, or_false] at hmem
    rcases hmem with (rfl | rfl | rfl | rfl | rfl) | rfl
    · exact ⟨⟨trivial, fun _ _ h => nomatch h⟩, fun _ _ _ => rfl⟩
    · exact ⟨⟨trivial, fun _ _ h => nomatch h⟩, fun _ _ _ => rfl⟩
    · exact ⟨⟨trivial, trivial⟩, trivial⟩
    · refine ⟨⟨fun a ha => ?_, trivial⟩, T, rfl, rfl, rfl⟩
      cases ha
      exact ⟨hT, fun w hw => ht.workers w (List.mem_of_getElem? hw)⟩
    all_goals exact ⟨⟨trivial, trivial⟩, trivial⟩
  rcases List.mem_cons.mp he with rfl | hmem
  · refine ⟨⟨fun a ha => ?_, trivial⟩, T, rfl, rfl, rfl⟩
    cases ha
    exact hT
  · rcases List.mem_append.mp hmem with hmem | hmem
    all_goals exact hround hmem

theorem reconcileRead_select (track : ReleaseTrack)
    (hmode : s.mode = .select ∨ s.mode = .reconciling)
    (hlive : s.runCancelled = false) (c : Candidate) :
    (step track s (.reconcileRead (some c))).mode = .select ∧
      (step track s (.reconcileRead (some c))).runCancelled = false := by
  simp only [step]
  rcases hmode with hm | hm
  · rw [if_neg (by simp [hm])]
    exact ⟨hm, hlive⟩
  · rw [if_pos hm, reconcileRead]
    split
    · exact ⟨rfl, hlive⟩
    · obtain ⟨hmode, hcancelled, _⟩ := queue_frame track { s with mode := .select } _
      exact ⟨hmode, hcancelled.trans hlive⟩

/-- 追い付いた状態から `completion` を動かすと、`Commit` が panic しない限り `T` が反映される。 -/
theorem completion_commits (hT : releaseHasAddress T.release track = true)
    (h₀ : ∃ last floor, Inv s₀ last floor) (h : Arrived T s₀ s) (hlive : s.runCancelled = false) :
    (run (step track) s (completion T)).mode = .exited .commitPanicked ∨
      (run (step track) s (completion T)).inFlight = false ∧
        CommittedLast T (run (step track) s (completion T)) := by
  have harrived : Arrived T s₀ (run (step track) s (completion T)) :=
    run_steps_invariant (Q := fun _ e => e ∈ completion T)
      (fun s e he hs => arrived_step hT h₀ hs fun hlive =>
        stable_completion
          (hs.settling.followed.tracking ((step_grows track _ _).cancelled hlive)) he)
      h (.of_forall fun _ he => he)
  obtain ⟨hmode₁, hlive₁⟩ := reconcileRead_select track (h.caught hlive).mode hlive T
  obtain ⟨last, floor, hinv⟩ := h.settling.followed.inv
  obtain ⟨last₁, floor₁, hinv₁⟩ := inv_run_from track hinv [.reconcileRead (some T)]
  rw [completion, run_cons] at harrived ⊢
  rw [run_cons, run_nil] at hinv₁
  generalize step track s (.reconcileRead (some T)) = s₁ at *
  rcases rounds_settle track T hinv₁ hmode₁ with hexit | ⟨hcancel, hidle⟩
  · exact Or.inl hexit
  · refine Or.inr ⟨hidle, ?_⟩
    rcases (harrived.caught (hcancel.trans hlive₁)).state with ⟨_, hcommit⟩ | ⟨hin, _⟩
    · exact hcommit
    · simp [hin] at hidle

end

/-! ## 主定理 -/

theorem runFrom_append (track : ReleaseTrack) (initial : Option Candidate) (es fs : List Event) :
    runFrom track initial (es ++ fs) = run (step track) (runFrom track initial es) fs :=
  run_append (step track) (init track initial) es fs

/--
server の target が `T` になってからの run。その時動いていた候補が終わった後に reconcile の読み出しを一度
処理すれば、`Run` が返らない限り、候補が動いていない時点では `T` が最後に反映されている。まだ動いて
いれば、それを終わらせる event の列があり、その終わりには反映されている。
-/
theorem run_converges (track : ReleaseTrack) (T : Candidate)
    (hT : releaseHasAddress T.release track = true) (initial : Option Candidate)
    (hinit : ∀ c, initial = some c → UpTo T c) (hist pre post : List Event)
    (response : Option Candidate)
    (hhist : AlongSteps (step track) (Historic T) (init track initial) hist)
    (hstable : AlongSteps (step track) (Stable T) (runFrom track initial hist)
      (pre ++ .reconcileRead response :: post))
    (htick : (runFrom track initial (hist ++ pre)).mode = .reconciling)
    (hdone : ∀ seq, InFlight (runFrom track initial hist) seq →
      ¬ InFlight (runFrom track initial (hist ++ pre)) seq)
    (hlive : (runFrom track initial (hist ++ pre ++ .reconcileRead response :: post)).runCancelled =
      false) :
    let final := runFrom track initial (hist ++ pre ++ .reconcileRead response :: post)
    (final.inFlight = false → CommittedLast T final) ∧
      ((run (step track) final (completion T)).mode = .exited .commitPanicked ∨
        (run (step track) final (completion T)).inFlight = false ∧
          CommittedLast T (run (step track) final (completion T))) := by
  have hfollowed := followed_history hT hinit hhist
  have h₀ := hfollowed.inv
  have hstart : Settling T (runFrom track initial hist) (runFrom track initial hist) :=
    ⟨hfollowed.aged, List.suffix_rfl⟩
  obtain ⟨hpre, htickStable, hpost⟩ := AlongSteps.append.mp hstable
  -- reconcile の読み出しの直前。
  have hbefore : Settling T (runFrom track initial hist) (runFrom track initial (hist ++ pre)) := by
    rw [runFrom_append]
    exact run_steps_invariant (fun s e hq hs => settling_step hT hs fun _ => hq) hstart hpre
  rw [← runFrom_append] at htickStable hpost
  obtain ⟨c, rfl, hc⟩ := htickStable.2
  have hafter : Arrived T (runFrom track initial hist)
      (step track (runFrom track initial (hist ++ pre)) (.reconcileRead (some c))) := by
    refine ⟨settling_step hT hbefore fun _ => htickStable, fun hlive₁ => ?_⟩
    obtain ⟨last, floor, hinv⟩ := hbefore.followed.inv
    exact caught_tick hT hinv (hbefore.seq_le h₀ hinv)
      (hbefore.followed.tracking ((step_grows track _ _).cancelled hlive₁)) htick
      (fun seq hin hold => hdone seq hold hin) hc
  have hfinal : Arrived T (runFrom track initial hist)
      (runFrom track initial (hist ++ pre ++ .reconcileRead (some c) :: post)) := by
    rw [runFrom_append, run_cons]
    exact run_steps_invariant (fun s e hq hs => arrived_step hT h₀ hs fun _ => hq) hafter hpost
  refine ⟨fun hidle => ?_, completion_commits hT h₀ hfinal hlive⟩
  rcases (hfinal.caught hlive).state with ⟨_, hcommit⟩ | ⟨hin, _⟩
  · exact hcommit
  · rw [hidle] at hin
    cases hin

section Sample

private def sampleTrack : ReleaseTrack := ⟨⟨"prod", "api"⟩, "main", 1⟩

private def sampleTarget : Candidate :=
  ⟨some ⟨some ⟨"prod", "api"⟩, "main", 1, 7, "d7"⟩, 2, 2, 0, .reconciliation⟩

/-- 先に届いた古い target。 -/
private def sampleOlder : Candidate :=
  ⟨some ⟨some ⟨"prod", "api"⟩, "main", 1, 6, "d6"⟩, 1, 1, 0, .activation⟩

/-- 古い target の `Prepare` が失敗する。 -/
private def sampleHistory : List Event :=
  [.worker 0 (.resolve none), .worker 0 (.prepare (.failed none))]

/-- 読み直しで `T` を受け入れ、次の tick を待つ。 -/
private def samplePre : List Event :=
  [.takeResult, .confirmRead (some sampleTarget), .tick]

private theorem upTo_older : UpTo sampleTarget sampleOlder := Or.inl (by decide)

private theorem sample_history :
    AlongSteps (step sampleTrack) (Historic sampleTarget) (init sampleTrack (some sampleOlder))
      sampleHistory := by
  refine ⟨⟨trivial, fun _ _ h => nomatch h⟩, ⟨trivial, fun _ _ h => nomatch h⟩, trivial⟩

private theorem sample_stable :
    AlongSteps (step sampleTrack) (Stable sampleTarget)
      (runFrom sampleTrack (some sampleOlder) sampleHistory)
      (samplePre ++ .reconcileRead (some sampleTarget) :: []) := by
  refine ⟨⟨⟨trivial, trivial⟩, trivial⟩, ⟨⟨fun a ha => ?_, trivial⟩, _, rfl, rfl, rfl⟩,
    ⟨⟨trivial, trivial⟩, trivial⟩, ⟨⟨fun a ha => ?_, trivial⟩, _, rfl, rfl, rfl⟩, trivial⟩
  · cases ha
    refine ⟨Or.inr ⟨rfl, rfl⟩, fun r hr => ?_⟩
    cases hr
    exact Or.inl (by decide)
  · cases ha
    exact Or.inr ⟨rfl, rfl⟩

/-- 古い target の失敗の後に `T` を受け入れ、tick の後で反映する run。 -/
theorem run_converges_after_rejection :
    CommittedLast sampleTarget (run (step sampleTrack)
      (runFrom sampleTrack (some sampleOlder)
        (sampleHistory ++ samplePre ++ .reconcileRead (some sampleTarget) :: []))
      (completion sampleTarget)) := by
  have hold : ∀ seq, InFlight (runFrom sampleTrack (some sampleOlder) sampleHistory) seq →
      ¬ InFlight (runFrom sampleTrack (some sampleOlder) (sampleHistory ++ samplePre)) seq := by
    rintro seq (⟨w, hmem, _⟩ | ⟨r, hmem, rfl⟩) (⟨w', hmem', hseq⟩ | ⟨r', hmem', _⟩)
    · cases hmem
    · cases hmem
    · cases List.mem_singleton.mp hmem
      cases List.mem_singleton.mp hmem'
      cases hseq
    · cases hmem'
  have h := run_converges sampleTrack sampleTarget rfl (some sampleOlder)
    (fun c hc => by cases hc; exact upTo_older) sampleHistory samplePre []
    (some sampleTarget) sample_history sample_stable rfl hold rfl
  rcases h.2 with hexit | ⟨_, hcommit⟩
  · cases hexit
  · exact hcommit

/-- application が、cancel されていない `T` の `Prepare` を `superseded` と分類する。 -/
private def sampleVerdict : List Event :=
  [.worker 0 (.resolve none), .worker 0 (.prepare (.failed (some .superseded))), .takeResult]

/-- `n` 回の reconcile。 -/
private def sampleTicks (n : Nat) : List Event :=
  (List.replicate n [Event.tick, .reconcileRead (some sampleTarget)]).flatten

private theorem sample_tick :
    run (step sampleTrack) (runFrom sampleTrack (some sampleTarget) sampleVerdict)
        [.tick, .reconcileRead (some sampleTarget)] =
      runFrom sampleTrack (some sampleTarget) sampleVerdict := rfl

private theorem sample_ticks (n : Nat) :
    run (step sampleTrack) (runFrom sampleTrack (some sampleTarget) sampleVerdict) (sampleTicks n) =
      runFrom sampleTrack (some sampleTarget) sampleVerdict := by
  induction n with
  | zero => rfl
  | succ n ih =>
    rw [sampleTicks, List.replicate_succ, List.flatten_cons, run_append, sample_tick]
    exact ih

/--
`NoForeignSuperseded` を外した反例。`T` の `Prepare` が一度 `superseded` と分類されると、何も動いて
おらず `Run` も返っていないのに、何度 reconcile が `T` を読んでも `T` は受け入れられず、何も反映されない。
-/
theorem superseded_verdict_suppresses :
    releaseHasAddress sampleTarget.release sampleTrack = true ∧
      AlongSteps (step sampleTrack) (ServerOrdered sampleTarget)
        (init sampleTrack (some sampleTarget)) sampleVerdict ∧
      ∀ n, AlongSteps (step sampleTrack) (Stable sampleTarget)
          (runFrom sampleTrack (some sampleTarget) sampleVerdict) (sampleTicks n) ∧
        let final := runFrom sampleTrack (some sampleTarget) (sampleVerdict ++ sampleTicks n)
        final.inFlight = false ∧ final.mode = .select ∧ final.runCancelled = false ∧
          final.workers = [] ∧ final.results = [] ∧ commits final.log = [] := by
  refine ⟨rfl, ⟨trivial, trivial, trivial, trivial⟩, fun n => ⟨?_, ?_⟩⟩
  · induction n with
    | zero => exact trivial
    | succ n ih =>
      refine ⟨⟨⟨trivial, trivial⟩, trivial⟩, ⟨⟨fun a ha => ?_, trivial⟩, _, rfl, rfl, rfl⟩, ih⟩
      cases ha
      exact Or.inr ⟨rfl, rfl⟩
  · rw [runFrom_append, sample_ticks]
    exact ⟨rfl, rfl, rfl, rfl, rfl, rfl⟩

end Sample

end Kms.Loader.Go
