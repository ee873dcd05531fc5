import Kms.Loader.GoRun

/-!
# Go の loop の安全性

loop の変数と goroutine の log を結ぶ不変条件 `Inv` を一歩ごとに保ち、log が protocol の仕様
`Lifecycle.Accepts` を満たすことから、反映と破棄の性質を得る。

* `Flight` — 動いている goroutine は高々一本で、loop の `inFlight` と一致する
* `inv_step` — 一歩で不変条件は保たれる
* `run_safety` — 主定理
-/

namespace Kms.Loader.Go

open Kms.Infra Kms.Infra.Lifecycle

/-! ## 不変条件 -/

/-- 反映の条件を `sameActiveCandidate` とした protocol の log。 -/
abbrev Accepted (log : Log) (st : Lifecycle.State Candidate) : Prop :=
  Accepts Candidate.revision (fun want got => sameActiveCandidate want got = true) log st

/-- goroutine の段階と、log の上の段階の対応。 -/
inductive PhaseStage (c : Candidate) : Phase → Stage Candidate → Prop
  | resolving : PhaseStage c .resolving .fetching
  | preparing : PhaseStage c .preparing .fetching
  | prepared : PhaseStage c .prepared .prepared
  | reading : PhaseStage c .reading .reading
  | committing (a : Candidate) (h : sameActiveCandidate c a = true) :
      PhaseStage c .committing (.read a)

inductive Flight (s : State) (last floor : Nat) : Prop
  | idle (hin : s.inFlight = false) (hw : s.workers = []) (hr : s.results = [])
      (hp : s.running = true → s.pending = none) (hlog : Accepted s.log ⟨last, floor, none⟩)
  | working (w : Worker) (stage : Stage Candidate) (hin : s.inFlight = true)
      (hw : s.workers = [w]) (hr : s.results = []) (hactive : s.activeCancel = some w.candidate.seq)
      (hst : PhaseStage w.candidate w.phase stage)
      (hlog : Accepted s.log ⟨last, floor, some ⟨w.candidate.seq, w.candidate, stage⟩⟩)
  | finished (r : Result) (hin : s.inFlight = true) (hw : s.workers = []) (hr : s.results = [r])
      (hseq : r.candidate.seq = last) (hlog : Accepted s.log ⟨last, floor, none⟩)

structure Inv (s : State) (last floor : Nat) : Prop where
  flight : Flight s last floor
  seq : last ≤ s.latestSeq
  latest : ∀ l, s.latest = some l → l.seq = s.latestSeq ∧ floor ≤ l.revision
  unset : s.latest = none → floor = 0
  pending : ∀ p, s.pending = some p → s.latest = some p ∧ last < p.seq
  current : s.inFlight = true → s.pending = none → last = s.latestSeq
  accepted : s.accepted.head? = s.latest
  applied : commits s.log ≠ [] → s.appliedOnce = true ∨
    (∃ r ∈ s.results, r.applied = true ∨ r.fatal = true) ∨ s.mode = .exited .commitPanicked
  confirming : ∀ r, s.mode = .confirming r → s.inFlight = false ∧ s.appliedOnce = false
  rejected : ∀ c, s.mode = .exited (.rejected c) → s.inFlight = false ∧ commits s.log = []

theorem inv_empty : Inv State.empty 0 0 where
  flight := .idle rfl rfl rfl (fun _ => rfl) .nil
  seq := le_rfl
  latest := fun _ h => nomatch h
  unset := fun _ => rfl
  pending := fun _ h => nomatch h
  current := fun h => nomatch h
  accepted := rfl
  applied := fun h => absurd rfl h
  confirming := fun _ h => nomatch h
  rejected := fun _ h => nomatch h

section

variable {track : ReleaseTrack} {s : State} {last floor : Nat}

/-- goroutine の有無に関わる変数が同じなら、`Flight` も同じである。 -/
theorem Flight.congr (h : Flight s last floor) {s' : State} (hin : s'.inFlight = s.inFlight)
    (hw : s'.workers = s.workers) (hr : s'.results = s.results)
    (hactive : s'.activeCancel = s.activeCancel) (hlog : s'.log = s.log)
    (hp : (s.running = true → s.pending = none) → s'.running = true → s'.pending = none) :
    Flight s' last floor := by
  cases h with
  | idle hin₀ hw₀ hr₀ hp₀ hlog₀ =>
    exact .idle (hin.trans hin₀) (hw.trans hw₀) (hr.trans hr₀) (hp hp₀) (hlog ▸ hlog₀)
  | working w stage hin₀ hw₀ hr₀ hactive₀ hst hlog₀ =>
    exact .working w stage (hin.trans hin₀) (hw.trans hw₀) (hr.trans hr₀) (hactive.trans hactive₀)
      hst (hlog ▸ hlog₀)
  | finished r hin₀ hw₀ hr₀ hseq hlog₀ =>
    exact .finished r (hin.trans hin₀) (hw.trans hw₀) (hr.trans hr₀) hseq (hlog ▸ hlog₀)

theorem Inv.setMode (h : Inv s last floor) (hrun : s.running = true) {mode : Mode}
    (hconfirm : ∀ r, mode = .confirming r → s.inFlight = false ∧ s.appliedOnce = false)
    (hreject : ∀ c, mode = .exited (.rejected c) → s.inFlight = false ∧ commits s.log = []) :
    Inv { s with mode } last floor :=
  { h with
    flight := h.flight.congr rfl rfl rfl rfl rfl (fun hp _ => hp hrun)
    applied := fun hne => by
      rcases h.applied hne with happ | hres | hmode
      · exact Or.inl happ
      · exact Or.inr (Or.inl hres)
      · simp [State.running, hmode] at hrun
    confirming := hconfirm
    rejected := hreject }

theorem Inv.toSelect (h : Inv s last floor) (hrun : s.running = true) :
    Inv { s with mode := .select } last floor :=
  h.setMode hrun (fun _ hm => by cases hm) (fun _ hm => by cases hm)

theorem Inv.appliedOnce (h : Inv s last floor) (hrun : s.running = true)
    (hr : s.results = []) (hne : commits s.log ≠ []) : s.appliedOnce = true := by
  rcases h.applied hne with happ | ⟨r, hmem, _⟩ | hexit
  · exact happ
  · simp [hr] at hmem
  · simp [State.running, hexit] at hrun

/-! ## 受け入れ -/

/-- goroutine が無いときに、最新の候補を始める。 -/
theorem inv_start {c : Candidate} (hw : s.workers = []) (hr : s.results = [])
    (hp : s.pending = none) (hlog : Accepted s.log ⟨last, floor, none⟩)
    (hlatest : s.latest = some c) (hseq : c.seq = s.latestSeq) (hlt : last < c.seq)
    (hfloor : floor ≤ c.revision) (haccepted : s.accepted.head? = s.latest)
    (happlied : commits s.log ≠ [] → s.appliedOnce = true) (hmode : s.mode = .select) :
    Inv (start s c) c.seq c.revision where
  flight := by
    refine .working ⟨c, .resolving, false⟩ .fetching rfl ?_ hr rfl .resolving ?_
    · simp [start, hw]
    · exact .started hlog hlt hfloor
  seq := hseq.le
  latest := fun l hl => by
    have hl : s.latest = some l := hl
    rw [hlatest] at hl
    cases hl
    exact ⟨hseq, le_rfl⟩
  unset := fun hnone => by
    have hnone : s.latest = none := hnone
    simp [hlatest] at hnone
  pending := fun p hpend => by
    have hpend : s.pending = some p := hpend
    simp [hp] at hpend
  current := fun _ _ => hseq
  accepted := haccepted
  applied := fun hne => Or.inl (happlied hne)
  confirming := fun r hr' => by
    have hr' : s.mode = .confirming r := hr'
    rw [hmode] at hr'
    cases hr'
  rejected := fun c' hc' => by
    have hc' : s.mode = .exited (.rejected c') := hc'
    rw [hmode] at hc'
    cases hc'

theorem flight_cancelActive (h : Flight s last floor) (hin : s.inFlight = true)
    (pending : Option Candidate) : Flight { cancelActive s with pending } last floor := by
  cases h with
  | idle hin' =>
    simp [hin'] at hin
  | working w stage _ hw hr hactive hst hlog =>
    refine .working { w with cancelled := true } stage ?_ ?_ ?_ ?_ hst ?_
    · simp only [cancelActive, hactive, hin]
    · simp only [cancelActive, hactive, hw, List.map_cons, List.map_nil, if_pos]
    · simp only [cancelActive, hactive, hr]
    · simp only [cancelActive, hactive]
    · simp only [cancelActive, hactive]
      exact hlog
  | finished r _ hw hr hseq hlog =>
    unfold cancelActive
    split
    · exact .finished r hin hw hr hseq hlog
    · refine .finished r hin ?_ hr hseq hlog
      simp [hw]

theorem cancelActive_frame (s : State) : ∃ workers, cancelActive s = { s with workers } := by
  unfold cancelActive
  split <;> exact ⟨_, rfl⟩

theorem inv_queue (h : Inv s last floor) (hmode : s.mode = .select) (candidate : Candidate) :
    ∃ last' floor', Inv (queue track s candidate) last' floor' := by
  unfold queue
  split
  · exact ⟨last, floor, h⟩
  · split
    · exact ⟨last, floor, h⟩
    · next hshould =>
      rw [Bool.not_eq_false] at hshould
      have hfloor : floor ≤ candidate.revision := by
        cases hl : s.latest with
        | none =>
          rw [h.unset hl]
          exact Nat.zero_le _
        | some l =>
          rw [hl] at hshould
          exact Nat.le_trans (h.latest l hl).2 (revision_le_of_shouldQueue hshould)
      have hseq := h.seq
      split
      · next hin =>
        -- 動いている goroutine を cancel し、候補を pending に置く。
        obtain ⟨workers, hframe⟩ := cancelActive_frame (accept s candidate)
        have hflight : Flight (accept s candidate) last floor :=
          h.flight.congr rfl rfl rfl rfl rfl id
        refine ⟨last, floor, ?_⟩
        have hflight' := flight_cancelActive hflight hin
          (some { candidate with seq := s.latestSeq + 1 })
        rw [hframe] at hflight' ⊢
        exact
          { flight := hflight'
            seq := Nat.le_succ_of_le hseq
            latest := fun l hl => by
              cases hl
              exact ⟨rfl, hfloor⟩
            unset := fun hnone => nomatch hnone
            pending := fun p hp => by
              cases hp
              exact ⟨rfl, Nat.lt_succ_of_le hseq⟩
            current := fun _ hnone => nomatch hnone
            accepted := rfl
            applied := h.applied
            confirming := fun r hr => by
              have hr : s.mode = .confirming r := hr
              simp [hmode] at hr
            rejected := fun c hc => by
              have hc : s.mode = .exited (.rejected c) := hc
              rw [hmode] at hc
              cases hc }
      · next hin =>
        cases h.flight with
        | idle _ hw hr hp hlog =>
          have hrun : s.running = true := by
            rw [State.running, hmode]
          exact ⟨_, _, inv_start hw hr (hp hrun) hlog rfl rfl (Nat.lt_succ_of_le hseq) hfloor rfl
            (h.appliedOnce hrun hr) hmode⟩
        | working _ _ hin' | finished _ hin' => exact absurd hin' hin

/-! ## loop の一歩 -/

/-- 結果を channel から取り出した直後。 -/
def taken (s : State) (r : Result) (rest : List Result) : State :=
  { s with
    results := rest
    inFlight := false
    activeCancel := none
    appliedOnce := s.appliedOnce || r.applied }

/-- 取り出した結果の扱い。 -/
inductive Taken (s : State) (r : Result) (rest : List Result) : State → Prop
  | panicked (hfatal : r.fatal = true) : Taken s r rest (exit (taken s r rest) .commitPanicked)
  | started (hfatal : r.fatal = false) {next : Candidate} (hp : s.pending = some next) :
      Taken s r rest (start { taken s r rest with pending := none } next)
  /-- 候補が終わる。 -/
  | kept (hfatal : r.fatal = false) (hseq : r.candidate.seq ≠ s.latestSeq → s.pending = none)
      (hcat : r.candidate.seq = s.latestSeq →
        ∀ category, r.category = some category → category = .superseded) :
      Taken s r rest (taken s r rest)
  | retried (hfatal : r.fatal = false) (hseq : r.candidate.seq = s.latestSeq)
      (hcat : r.category ≠ none) :
      Taken s r rest { taken s r rest with retryLatest := true }
  | confirming (hfatal : r.fatal = false) (hseq : r.candidate.seq = s.latestSeq)
      (hcat : r.category ≠ none) (honce : (s.appliedOnce || r.applied) = false) :
      Taken s r rest { taken s r rest with mode := .confirming r }

theorem takeResult_taken {r : Result} {rest : List Result} (hres : s.results = r :: rest) :
    Taken s r rest (takeResult s) := by
  simp only [takeResult, hres]
  split
  · next hfatal => exact .panicked hfatal
  · next hfatal =>
    rw [Bool.not_eq_true] at hfatal
    split
    · next hne =>
      split
      · next next hp => exact .started hfatal hp
      · next hp => exact .kept hfatal (fun _ => hp) (fun heq => absurd heq hne)
    · next heq =>
      rw [not_not] at heq
      split
      · next hcat =>
        refine .kept hfatal (absurd heq) (fun _ category hsome => ?_)
        simp [hcat] at hsome
      · next category hcat =>
        split
        · next hsup =>
          refine .kept hfatal (absurd heq) (fun _ category' hsome => ?_)
          rw [hcat] at hsome
          cases hsome
          exact hsup
        · have hne : r.category ≠ none := hcat ▸ Option.some_ne_none category
          split
          · exact .retried hfatal heq hne
          · next honce => exact .confirming hfatal heq hne (Bool.not_eq_true _ ▸ honce)

theorem takeResult_of_empty (hres : s.results = []) : takeResult s = s := by
  simp only [takeResult, hres]

theorem Inv.finished (h : Inv s last floor) {r : Result} {rest : List Result}
    (hres : s.results = r :: rest) :
    rest = [] ∧ s.inFlight = true ∧ s.workers = [] ∧ r.candidate.seq = last ∧
      Accepted s.log ⟨last, floor, none⟩ := by
  cases h.flight with
  | idle _ _ hr | working _ _ _ _ hr =>
    simp [hr] at hres
  | finished r' hin hw hr hseq hlog =>
    rw [hr] at hres
    cases hres
    exact ⟨rfl, hin, hw, hseq, hlog⟩

theorem Inv.pending_of_latest (h : Inv s last floor) (hseq : last = s.latestSeq) :
    s.pending = none := by
  cases hpend : s.pending with
  | none => rfl
  | some p =>
    obtain ⟨hl, hlt⟩ := h.pending p hpend
    have hps := (h.latest p hl).1
    omega

theorem Inv.latest_of_stale (h : Inv s last floor) (hin : s.inFlight = true) {r : Result}
    (hlast : r.candidate.seq = last) (hstale : r.candidate.seq ≠ s.latestSeq → s.pending = none) :
    r.candidate.seq = s.latestSeq := by
  by_contra hne
  exact hne (hlast.trans (h.current hin (hstale hne)))

/-- 結果を取り出した後、pending が無ければ loop は空いている。 -/
theorem Inv.taken (h : Inv s last floor) {r : Result} (hres : s.results = [r]) (mode : Mode)
    (hp : (∃ reason, mode = .exited reason) ∨ s.pending = none)
    (happ : commits s.log ≠ [] → (s.appliedOnce || r.applied) = true ∨
      mode = .exited .commitPanicked)
    (hconf : ∀ r', mode = .confirming r' → (s.appliedOnce || r.applied) = false)
    (hrej : ∀ c, mode ≠ .exited (.rejected c)) (retryLatest runCancelled : Bool) :
    Inv { Go.taken s r [] with mode, retryLatest, runCancelled } last floor := by
  obtain ⟨_, _, hw, _, hlog⟩ := h.finished hres
  exact
    { h with
      flight := by
        refine .idle rfl hw rfl (fun hrun => ?_) hlog
        rcases hp with ⟨reason, rfl⟩ | hnone
        · cases hrun
        · exact hnone
      current := fun hfalse => nomatch hfalse
      applied := fun hne => by
        rcases happ hne with ha | hm
        · exact Or.inl ha
        · exact Or.inr (Or.inr hm)
      confirming := fun r' hr' => ⟨rfl, hconf r' hr'⟩
      rejected := fun c hc => absurd hc (hrej c) }

theorem inv_takeResult (h : Inv s last floor) (hmode : s.mode = .select) :
    ∃ last' floor', Inv (takeResult s) last' floor' := by
  cases hres : s.results with
  | nil =>
    rw [takeResult_of_empty hres]
    exact ⟨last, floor, h⟩
  | cons r rest =>
    obtain ⟨rfl, hin, hw, hseq, hlog⟩ := h.finished hres
    have happlied : commits s.log ≠ [] → r.fatal = false →
        (s.appliedOnce || r.applied) = true := by
      intro hne hfatal
      rcases h.applied hne with happ | ⟨r', hmem, hcase⟩ | hexit
      · rw [happ]
        rfl
      · rw [hres, List.mem_singleton] at hmem
        subst hmem
        rcases hcase with happ | hfat
        · rw [happ]
          exact Bool.or_true _
        · simp [hfatal] at hfat
      · simp [hmode] at hexit
    -- mode を変えない場合。
    have hstay : r.fatal = false → s.pending = none → ∀ retryLatest,
        Inv { taken s r [] with retryLatest } last floor := by
      intro hfatal hp retryLatest
      exact h.taken hres s.mode (Or.inr hp) (fun hne => Or.inl (happlied hne hfatal))
        (fun _ hm => nomatch hmode.symm.trans hm) (fun _ hm => nomatch hmode.symm.trans hm)
        retryLatest s.runCancelled
    have htaken := takeResult_taken hres
    generalize takeResult s = s' at htaken ⊢
    cases htaken with
    | panicked _ =>
      exact ⟨last, floor, h.taken hres (.exited .commitPanicked) (Or.inl ⟨_, rfl⟩)
        (fun _ => Or.inr rfl) (fun _ hm => nomatch hm) (fun _ hm => nomatch hm) s.retryLatest true⟩
    | @started hfatal next hp =>
      obtain ⟨hlatest, hlt⟩ := h.pending next hp
      obtain ⟨hlseq, hlfloor⟩ := h.latest next hlatest
      exact ⟨_, _, inv_start hw rfl rfl hlog hlatest hlseq hlt hlfloor h.accepted
        (fun hne => happlied hne hfatal) hmode⟩
    | kept hfatal hstale _ =>
      have hlast := h.latest_of_stale hin hseq hstale
      exact ⟨last, floor, hstay hfatal (h.pending_of_latest (hseq ▸ hlast)) _⟩
    | retried hfatal hlast _ =>
      exact ⟨last, floor, hstay hfatal (h.pending_of_latest (hseq ▸ hlast)) true⟩
    | confirming hfatal hlast _ honce =>
      exact ⟨last, floor, h.taken hres (.confirming r)
        (Or.inr (h.pending_of_latest (hseq ▸ hlast))) (fun hne => Or.inl (happlied hne hfatal))
        (fun _ _ => honce) (fun _ hm => nomatch hm) s.retryLatest s.runCancelled⟩

theorem inv_exit (h : Inv s last floor) (hrun : s.running = true) {reason : Exit}
    (hreject : ∀ c, reason = .rejected c → s.inFlight = false ∧ commits s.log = []) :
    Inv (exit s reason) last floor := by
  have hset : Inv { s with mode := .exited reason } last floor := by
    refine h.setMode hrun (fun _ hm => ?_) (fun c hc => ?_)
    · cases hm
    · cases hc
      exact hreject c rfl
  exact { hset with flight := hset.flight.congr rfl rfl rfl rfl rfl id }

theorem Inv.startup (h : Inv s last floor) {r : Result} (hmode : s.mode = .confirming r) :
    s.inFlight = false ∧ commits s.log = [] := by
  obtain ⟨hin, honce⟩ := h.confirming r hmode
  refine ⟨hin, by_contra (fun hne => ?_)⟩
  cases h.flight with
  | idle _ _ hr =>
    rw [h.appliedOnce (by rw [State.running, hmode]) hr hne] at honce
    cases honce
  | working _ _ hin' | finished _ hin' =>
    simp [hin'] at hin

/-! ## goroutine の一歩 -/

section Worker

variable {w : Worker} {stage : Stage Candidate}

theorem Inv.modes_of_inFlight (h : Inv s last floor) (hin : s.inFlight = true)
    (c : RejectCategory) : s.mode ≠ .exited (.rejected c) := by
  intro hc
  simp [(h.rejected c hc).1] at hin

theorem inv_advance (h : Inv s last floor) (hin : s.inFlight = true) (hw : s.workers = [w])
    (hr : s.results = []) (hactive : s.activeCancel = some w.candidate.seq) {phase : Phase}
    {entries : Log} (hst : PhaseStage w.candidate phase stage)
    (hlog : Accepted (entries ++ s.log) ⟨last, floor, some ⟨w.candidate.seq, w.candidate, stage⟩⟩)
    (hcommits : commits (entries ++ s.log) = commits s.log) :
    Inv (advance s 0 w phase entries) last floor :=
  { h with
    flight := by
      refine .working { w with phase } stage hin ?_ hr hactive hst hlog
      simp [advance, hw]
    applied := fun hne => by
      have hne : commits (entries ++ s.log) ≠ [] := hne
      rw [hcommits] at hne
      exact h.applied hne
    rejected := fun c hm => absurd hm (h.modes_of_inFlight hin c) }

theorem inv_finish (h : Inv s last floor) (hin : s.inFlight = true) (hw : s.workers = [w])
    (hr : s.results = []) {r : Result} {entries : Log} (hseq : r.candidate.seq = last)
    (hlog : Accepted (entries ++ s.log) ⟨last, floor, none⟩)
    (hcommits : commits (entries ++ s.log) = commits s.log ∨ r.applied = true ∨ r.fatal = true) :
    Inv (finish s 0 r entries) last floor :=
  { h with
    flight := by
      refine .finished r hin ?_ ?_ hseq hlog
      · simp [finish, hw]
      · simp [finish, hr]
    applied := fun hne => by
      have hmem : r ∈ s.results ++ [r] := List.mem_append_right _ (List.mem_singleton.mpr rfl)
      rcases hcommits with hsame | hres
      · have hne : commits (entries ++ s.log) ≠ [] := hne
        rw [hsame] at hne
        rcases h.applied hne with happ | ⟨r', hmem', hcase⟩ | hexit
        · exact Or.inl happ
        · exact Or.inr (Or.inl ⟨r', List.mem_append_left _ hmem', hcase⟩)
        · exact Or.inr (Or.inr hexit)
      · exact Or.inr (Or.inl ⟨r, hmem, hres⟩)
    rejected := fun c hm => absurd hm (h.modes_of_inFlight hin c) }

/-- 拒否。準備した資源を抱えているときに限り、先に破棄する。 -/
theorem inv_reject (h : Inv s last floor) (hin : s.inFlight = true) (hw : s.workers = [w])
    (hr : s.results = []) {category : RejectCategory} {held : Bool} (entries : Log)
    (hlog : Accepted (entries ++ s.log) ⟨last, floor, some ⟨w.candidate.seq, w.candidate, stage⟩⟩)
    (hheld : stage.holding = held) (hcommits : commits (entries ++ s.log) = commits s.log) :
    Inv (reject s 0 w category held entries) last floor := by
  have hseq : w.candidate.seq = last := (hlog.job_last rfl).1
  refine inv_finish h hin hw hr hseq ?_ (Or.inl ?_)
  · cases held with
    | true => exact .closed (.reported _ (.aborted hlog hheld)) rfl
    | false => exact .closed (.reported _ hlog) hheld
  · rw [← hcommits]
    cases held with
    | true => rfl
    | false => rfl

theorem inv_stepWorker (h : Inv s last floor) (hin : s.inFlight = true) (hw : s.workers = [w])
    (hr : s.results = []) (hactive : s.activeCancel = some w.candidate.seq)
    (hst : PhaseStage w.candidate w.phase stage)
    (hlog : Accepted s.log ⟨last, floor, some ⟨w.candidate.seq, w.candidate, stage⟩⟩)
    (e : WorkerEvent) : Inv (stepWorker track s 0 w e) last floor := by
  have hseq : w.candidate.seq = last := (hlog.job_last rfl).1
  unfold stepWorker
  dsimp only
  split
  all_goals
    try
      rename_i hphase
      rw [hphase] at hst
      cases hst
  · exact inv_advance h hin hw hr hactive .preparing (.reported _ hlog) rfl
  · exact inv_reject h hin hw hr [] hlog rfl rfl
  · exact inv_advance h hin hw hr hactive .prepared (.prepared hlog) rfl
  · exact inv_reject h hin hw hr [] hlog rfl rfl
  · split
    · exact inv_reject h hin hw hr [] hlog rfl rfl
    · exact inv_advance h hin hw hr hactive .reading (.issued (.reported _ hlog)) rfl
  · split
    · exact inv_reject h hin hw hr [] hlog rfl rfl
    · next active _ =>
      split
      · exact inv_reject h hin hw hr [_] (.returned active hlog) rfl rfl
      · next hsame =>
        rw [not_or, Bool.not_eq_false] at hsame
        exact inv_advance h hin hw hr hactive
          (.committing active hsame.1) (.returned active hlog) rfl
  · next hsame =>
    split
    · exact inv_finish h hin hw hr hseq (.closed (.committed hlog hsame) rfl)
        (Or.inr (Or.inr rfl))
    · exact inv_finish h hin hw hr hseq (.closed (.reported _ (.committed hlog hsame)) rfl)
        (Or.inr (Or.inl rfl))
  · exact h

end Worker

/-! ## 一歩 -/

theorem Inv.frame (h : Inv s last floor) (events : Option Candidate)
    (contextDone watchFatal runCancelled : Bool) :
    Inv { s with events, contextDone, watchFatal, runCancelled } last floor :=
  { h with flight := h.flight.congr rfl rfl rfl rfl rfl id }

theorem getActive_eq_some {response : Option Candidate} {a : Candidate}
    (h : getActive track response = some a) : response = some a :=
  (Option.filter_eq_some_iff.mp h).1

/-- `Run` の一歩。 -/
inductive Stepped (track : ReleaseTrack) (s : State) : Event → State → Prop
  | same (e : Event) : Stepped track s e s
  | offered (c : Candidate) : Stepped track s (.offer c) { s with events := some c }
  | cancelled (e : Event) (contextDone watchFatal : Bool) :
      Stepped track s e { s with contextDone, watchFatal, runCancelled := true }
  | ticked (hmode : s.mode = .select) : Stepped track s .tick { s with mode := .reconciling }
  | selected {response : Option Candidate} (hmode : s.mode = .reconciling) :
      Stepped track s (.reconcileRead response) { s with mode := .select }
  | received {c : Candidate} (hmode : s.mode = .select) (hc : s.events = some c) :
      Stepped track s .takeEvent (queue track { s with events := none } c)
  | reconciled {response : Option Candidate} {c : Candidate} (hmode : s.mode = .reconciling)
      (hc : response = some c) : Stepped track s (.reconcileRead response)
        (queue track { s with mode := .select } { c with source := .reconciliation })
  /-- 失敗した候補の代わりに、読み直した候補を受け入れる。 -/
  | confirmed {response : Option Candidate} {r : Result} {c : Candidate}
      (hmode : s.mode = .confirming r) (hc : response = some c)
      (hne : ¬ sameActiveCandidate r.candidate c = true) : Stepped track s (.confirmRead response)
        (queue track { s with mode := .select } { c with source := .reconciliation })
  | taken (hmode : s.mode = .select) : Stepped track s .takeResult (takeResult s)
  | exited (e : Event) {reason : Exit} (hrun : s.running = true)
      (hreject : ∀ c, reason = .rejected c → ∃ r, s.mode = .confirming r) :
      Stepped track s e (exit s reason)
  | worked {i : Nat} {w : Worker} (e : WorkerEvent) (hw : s.workers[i]? = some w) :
      Stepped track s (.worker i e) (stepWorker track s i w e)

theorem step_stepped (track : ReleaseTrack) (s : State) (e : Event) :
    Stepped track s e (step track s e) := by
  cases e with
  | offer c => exact .offered c
  | contextDone => exact .cancelled _ true _
  | watchFail => exact .cancelled _ _ true
  | takeEvent =>
    simp only [step]
    split
    · next hmode hc => exact .received hmode hc
    · exact .same _
  | tick =>
    simp only [step]
    split
    · next hmode => exact .ticked hmode
    · exact .same _
  | takeContextDone | takeWatchFail =>
    simp only [step]
    split
    · next hmode => exact .exited _ (by rw [State.running, hmode.1]) (fun _ hc => by cases hc)
    · exact .same _
  | reconcileRead response =>
    simp only [step, reconcileRead]
    split
    · next hmode =>
      split
      · exact .selected hmode
      · next hc => exact .reconciled hmode (getActive_eq_some hc)
    · exact .same _
  | takeResult =>
    simp only [step]
    split
    · next hmode => exact .taken hmode
    · exact .same _
  | confirmRead response =>
    simp only [step, confirmRead]
    split
    · next r hmode =>
      have hrun : s.running = true := by rw [State.running, hmode]
      split
      · exact .exited _ hrun (fun _ _ => ⟨r, hmode⟩)
      · next hc =>
        split
        · exact .exited _ hrun (fun _ _ => ⟨r, hmode⟩)
        · next hne => exact .confirmed hmode (getActive_eq_some hc) hne
    · exact .same _
  | worker i e =>
    simp only [step]
    split
    · next hw => exact .worked e hw
    · exact .same _

theorem Inv.working (h : Inv s last floor) {i : Nat} {w : Worker} (hget : s.workers[i]? = some w) :
    i = 0 ∧ s.inFlight = true ∧ s.workers = [w] ∧ s.results = [] ∧
      s.activeCancel = some w.candidate.seq ∧ ∃ stage, PhaseStage w.candidate w.phase stage ∧
        Accepted s.log ⟨last, floor, some ⟨w.candidate.seq, w.candidate, stage⟩⟩ := by
  cases h.flight with
  | idle _ hw | finished _ _ hw => simp [hw] at hget
  | working w' stage hin hw hr hactive hst hlog =>
    rw [hw, List.getElem?_singleton, Option.ite_none_right_eq_some] at hget
    obtain ⟨hi, ⟨⟩⟩ := hget
    exact ⟨hi, hin, hw, hr, hactive, stage, hst, hlog⟩

theorem inv_step (h : Inv s last floor) (e : Event) :
    ∃ last' floor', Inv (step track s e) last' floor' := by
  have hstep := step_stepped track s e
  generalize step track s e = s' at hstep ⊢
  cases hstep with
  | same => exact ⟨last, floor, h⟩
  | offered | cancelled => exact ⟨last, floor, h.frame _ _ _ _⟩
  | ticked hmode | selected hmode =>
    exact ⟨last, floor, h.setMode (by rw [State.running, hmode]) (fun _ hm => by cases hm)
      (fun _ hm => by cases hm)⟩
  | received hmode _ => exact inv_queue (h.frame none _ _ _) hmode _
  | reconciled hmode | confirmed hmode =>
    exact inv_queue (h.toSelect (by rw [State.running, hmode])) rfl _
  | taken hmode => exact inv_takeResult h hmode
  | exited _ hrun hreject =>
    refine ⟨last, floor, inv_exit h hrun (fun c hc => ?_)⟩
    obtain ⟨r, hmode⟩ := hreject c hc
    exact h.startup hmode
  | worked e hget =>
    obtain ⟨rfl, hin, hw, hr, hactive, stage, hst, hlog⟩ := h.working hget
    exact ⟨last, floor, inv_stepWorker h hin hw hr hactive hst hlog e⟩

theorem inv_init (track : ReleaseTrack) (initial : Option Candidate) :
    ∃ last floor, Inv (init track initial) last floor := by
  cases initial with
  | none => exact ⟨0, 0, inv_empty⟩
  | some candidate => exact inv_queue inv_empty rfl candidate

theorem inv_run (track : ReleaseTrack) (initial : Option Candidate) (es : List Event) :
    ∃ last floor, Inv (run (step track) (init track initial) es) last floor := by
  refine run_invariant (I := fun s => ∃ last floor, Inv s last floor) ?_ (inv_init track initial) es
  rintro s e ⟨last, floor, h⟩
  exact inv_step h e

/-! ## 記録は消えない -/

theorem queue_frame (track : ReleaseTrack) (s : State) (candidate : Candidate) :
    (queue track s candidate).mode = s.mode ∧
      (queue track s candidate).runCancelled = s.runCancelled ∧
      s.log <:+ (queue track s candidate).log := by
  obtain ⟨_, hframe⟩ := cancelActive_frame (accept s candidate)
  unfold queue
  split
  · exact ⟨rfl, rfl, List.suffix_rfl⟩
  · split
    · exact ⟨rfl, rfl, List.suffix_rfl⟩
    · split
      · rw [hframe]
        exact ⟨rfl, rfl, List.suffix_rfl⟩
      · exact ⟨rfl, rfl, List.suffix_cons _ _⟩

theorem stepWorker_frame (track : ReleaseTrack) (s : State) (i : Nat) (w : Worker)
    (e : WorkerEvent) :
    ∃ workers results entries,
      stepWorker track s i w e = { s with workers, results, log := entries ++ s.log } := by
  unfold stepWorker
  dsimp only
  split
  · exact ⟨_, _, _, rfl⟩
  · exact ⟨_, _, _, rfl⟩
  · exact ⟨_, _, _, rfl⟩
  · exact ⟨_, _, _, rfl⟩
  · split
    all_goals exact ⟨_, _, _, rfl⟩
  · split
    · exact ⟨_, _, _, rfl⟩
    · split
      all_goals exact ⟨_, _, _, rfl⟩
  · split
    all_goals exact ⟨_, _, _, rfl⟩
  · exact ⟨_, _, [], rfl⟩

/-- log は伸びるだけで、一度 cancel された `Run` は戻らない。 -/
structure Grows (s s' : State) : Prop where
  log : s.log <:+ s'.log
  cancelled : s'.runCancelled = false → s.runCancelled = false

theorem Grows.rfl : Grows s s := ⟨List.suffix_rfl, id⟩

theorem queue_grows (track : ReleaseTrack) (s : State) (mode : Mode) (events : Option Candidate)
    (candidate : Candidate) : Grows s (queue track { s with mode, events } candidate) := by
  obtain ⟨_, hcancelled, hlog⟩ := queue_frame track { s with mode, events } candidate
  exact ⟨hlog, fun h => hcancelled.symm.trans h⟩

theorem takeResult_grows (s : State) : Grows s (takeResult s) := by
  cases hres : s.results with
  | nil =>
    rw [takeResult_of_empty hres]
    exact .rfl
  | cons r rest =>
    have htaken := takeResult_taken hres
    generalize takeResult s = s' at htaken ⊢
    cases htaken with
    | panicked _ => exact ⟨List.suffix_rfl, fun h => nomatch h⟩
    | started _ _ => exact ⟨List.suffix_cons _ _, id⟩
    | kept _ _ _ | retried _ _ _ | confirming _ _ _ _ => exact ⟨List.suffix_rfl, id⟩

theorem step_grows (track : ReleaseTrack) (s : State) (e : Event) : Grows s (step track s e) := by
  have hstep := step_stepped track s e
  generalize step track s e = s' at hstep ⊢
  cases hstep with
  | same | offered | ticked | selected => exact ⟨List.suffix_rfl, id⟩
  | cancelled | exited => exact ⟨List.suffix_rfl, fun h => nomatch h⟩
  | received | reconciled | confirmed => exact queue_grows track s _ _ _
  | taken => exact takeResult_grows s
  | worked e _ =>
    obtain ⟨_, _, entries, hframe⟩ := stepWorker_frame track s _ _ e
    rw [hframe]
    exact ⟨List.suffix_append _ _, id⟩

theorem run_log (track : ReleaseTrack) (s : State) (es : List Event) :
    s.log <:+ (run (step track) s es).log := by
  induction es generalizing s with
  | nil => exact List.suffix_rfl
  | cons e es ih => exact (step_grows track s e).log.trans (ih (step track s e))

/-! ## 主定理 -/

def runFrom (track : ReleaseTrack) (initial : Option Candidate) (es : List Event) : State :=
  run (step track) (init track initial) es

/-- 準備した候補のうち、決着していないものは、まだ動いている goroutine のものである。 -/
theorem Inv.settled (h : Inv s last floor) {t : Nat} (ht : Entry.prepared t ∈ s.log) :
    settlements s.log t = 1 ∨
      settlements s.log t = 0 ∧ ∃ w ∈ s.workers, w.candidate.seq = t := by
  cases h.flight with
  | idle _ _ _ _ hlog | finished _ _ _ _ _ hlog => exact Or.inl (hlog.settled_of_idle rfl ht)
  | working w stage _ hw _ _ _ hlog =>
    rcases hlog.settled_or_job ht with hone | ⟨hzero, j, hj, hticket⟩
    · exact Or.inl hone
    · cases hj
      exact Or.inr ⟨hzero, w, by rw [hw]; exact List.mem_singleton.mpr rfl, hticket⟩

theorem Inv.commits_of_rejected (h : Inv s last floor) {category : RejectCategory}
    (hmode : s.mode = .exited (.rejected category)) : commits s.log = [] :=
  (h.rejected category hmode).2

theorem Inv.accepted_log (h : Inv s last floor) : ∃ st, Accepted s.log st := by
  cases h.flight with
  | idle _ _ _ _ hlog | working _ _ _ _ _ _ _ hlog | finished _ _ _ _ _ hlog => exact ⟨_, hlog⟩

end

end Kms.Loader.Go
