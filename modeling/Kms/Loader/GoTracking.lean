import Kms.Loader.GoSafety

/-!
# Go の loop が target を見失わないこと

server の target が `T` になった後、loop が記録した最新の候補が `T` なら、それは再試行できるか、動いて
いるか、反映されている。これを一歩ごとに保つ。

条件が一つ要る。`superseded` の拒否は再試行の対象にならないので、application が context の cancel 無しに
`superseded` と分類した error を返すと、loop は `T` を最新として記録したまま二度と受け入れない。

* `ServerOrdered`・`NoForeignSuperseded`・`Converging` — 環境の仮定
* `Tracking` — 不変条件
* `tracking_step` — 一歩で保たれる
-/

namespace Kms.Loader.Go

open Kms.Infra Kms.Infra.Lifecycle

/-! ## target の順序 -/

def Same (T c : Candidate) : Prop := c.revision = T.revision ∧ c.release = T.release

/-- server は target を revision の昇順に割り当て、同じ revision では同じ release を返す。 -/
def UpTo (T c : Candidate) : Prop := c.revision < T.revision ∨ Same T c

theorem UpTo.same_of_le {T c : Candidate} (h : UpTo T c) (hle : T.revision ≤ c.revision) :
    Same T c := by
  rcases h with hlt | hsame
  · omega
  · exact hsame

theorem UpTo.revision_le {T c : Candidate} (h : UpTo T c) : c.revision ≤ T.revision := by
  rcases h with hlt | hsame
  · omega
  · exact hsame.1.le

theorem Same.between {T c a : Candidate} (hc : Same T c) (ha : UpTo T a) (hca : UpTo a c) :
    Same T a := by
  have hle := hca.revision_le
  have hrev := hc.1
  exact ha.same_of_le (by omega)

section

variable {track : ReleaseTrack} {T c : Candidate}

theorem exists_ns_of_hasAddress {release : Option Release}
    (h : releaseHasAddress release track = true) : ∃ r ns, release = some r ∧ r.ns = some ns := by
  unfold releaseHasAddress at h
  split at h
  · cases h
  · next r =>
    split at h
    · cases h
    · next ns hns => exact ⟨r, ns, rfl, hns⟩

theorem sameActiveCandidate_of_same (hT : releaseHasAddress T.release track = true) {a : Candidate}
    (hc : Same T c) (ha : Same T a) : sameActiveCandidate c a = true := by
  obtain ⟨r, ns, hr, hns⟩ := exists_ns_of_hasAddress hT
  unfold sameActiveCandidate
  simp [hc.1, ha.1, hc.2, ha.2, hr, hns]

theorem getActive_of_same (hT : releaseHasAddress T.release track = true) (hc : Same T c) :
    getActive track (some c) = some c := by
  unfold getActive
  rw [Option.filter_some, hc.2, hT]
  rfl

end

/-! ## 仮定 -/

def ServerOrdered (T : Candidate) (s : State) : Event → Prop
  | .offer c => UpTo T c
  | .reconcileRead response => ∀ c, response = some c → UpTo T c
  | .confirmRead response => ∀ a, response = some a →
      UpTo T a ∧ ∀ r, s.mode = .confirming r → UpTo a r.candidate
  | .worker i (.read response) => ∀ a, response = some a →
      UpTo T a ∧ ∀ w, s.workers[i]? = some w → UpTo a w.candidate
  | _ => True

def NoForeignSuperseded (s : State) : Event → Prop
  | .worker i (.resolve failure) => ∀ w, s.workers[i]? = some w →
      failure = some .superseded → (w.cancelled || s.runCancelled) = true
  | .worker i (.prepare outcome) => ∀ w, s.workers[i]? = some w →
      outcome = .failed (some .superseded) → (w.cancelled || s.runCancelled) = true
  | _ => True

def Converging (T : Candidate) (s : State) : Event → Prop
  | .reconcileRead response => ∃ c, response = some c ∧ Same T c
  | .confirmRead response => ∃ c, response = some c ∧ Same T c
  | .worker i (.resolve failure) => ∀ w, s.workers[i]? = some w → Same T w.candidate →
      failure = none
  | .worker i (.prepare outcome) => ∀ w, s.workers[i]? = some w → Same T w.candidate →
      outcome = .ok
  | .worker _ (.read response) => ∃ c, response = some c ∧ Same T c
  | _ => True

/-- 証明が使う形。`young` の候補は失敗しない。 -/
structure Admissible (T : Candidate) (young : Nat → Prop) (s : State) (e : Event) : Prop where
  ordered : ServerOrdered T s e
  honest : NoForeignSuperseded s e
  resolve : ∀ i category, e = .worker i (.resolve (some category)) → ∀ w, s.workers[i]? = some w →
    Same T w.candidate → ¬ young w.candidate.seq
  prepare : ∀ i classified, e = .worker i (.prepare (.failed classified)) →
    ∀ w, s.workers[i]? = some w → Same T w.candidate → ¬ young w.candidate.seq
  read : ∀ i response, e = .worker i (.read response) → ∀ w, s.workers[i]? = some w →
    Same T w.candidate → young w.candidate.seq → ∃ a, response = some a ∧ Same T a

theorem Admissible.history {T : Candidate} {s : State} {e : Event} (ho : ServerOrdered T s e)
    (hn : NoForeignSuperseded s e) : Admissible T (fun _ => False) s e where
  ordered := ho
  honest := hn
  resolve := fun _ _ _ _ _ _ h => h
  prepare := fun _ _ _ _ _ _ h => h
  read := fun _ _ _ _ _ _ h => h.elim

theorem Admissible.converging {T : Candidate} {s : State} {e : Event} {young : Nat → Prop}
    (ho : ServerOrdered T s e) (hn : NoForeignSuperseded s e) (hc : Converging T s e) :
    Admissible T young s e where
  ordered := ho
  honest := hn
  resolve := fun i category he w hw hsame => by
    subst he
    cases hc w hw hsame
  prepare := fun i classified he w hw hsame => by
    subst he
    cases hc w hw hsame
  read := fun i response he _ _ _ _ => by
    subst he
    exact hc

/-! ## 不変条件 -/

/-- `T` の候補の結果。`young` でなければ失敗してよいが、`superseded` ではない。 -/
def Verdict (young : Nat → Prop) (r : Result) : Prop :=
  r.fatal = true ∨ (r.applied = true ∧ r.category = none) ∨
    (¬ young r.candidate.seq ∧ ∃ category, r.category = some category ∧ category ≠ .superseded)

/-- 最後に反映したのは `T` である。 -/
def CommittedLast (T : Candidate) (s : State) : Prop :=
  ∃ c, (commits s.log).head? = some c ∧ Same T c

structure Tracking (T : Candidate) (young : Nat → Prop) (s : State) : Prop where
  ordered : ∀ c, s.latest = some c → UpTo T c
  events : ∀ c, s.events = some c → UpTo T c
  workers : ∀ w ∈ s.workers, UpTo T w.candidate
  worker : ∀ w ∈ s.workers, w.candidate.seq = s.latestSeq →
    s.latest = some w.candidate ∧ w.cancelled = false
  result : ∀ r ∈ s.results, r.candidate.seq = s.latestSeq →
    s.latest = some r.candidate ∧ (Same T r.candidate → Verdict young r)
  applied : ∀ r ∈ s.results, r.applied = true → (commits s.log).head? = some r.candidate
  confirming : ∀ r, s.mode = .confirming r → s.latest = some r.candidate
  progress : ∀ c, s.latest = some c → Same T c →
    s.retryLatest = true ∨ s.inFlight = true ∨ (∃ r, s.mode = .confirming r) ∨ CommittedLast T s

theorem tracking_empty (T : Candidate) (young : Nat → Prop) : Tracking T young State.empty where
  ordered := fun _ h => nomatch h
  events := fun _ h => nomatch h
  workers := fun _ h => nomatch h
  worker := fun _ h => nomatch h
  result := fun _ h => nomatch h
  applied := fun _ h => nomatch h
  confirming := fun _ h => nomatch h
  progress := fun _ h => nomatch h

/-- 動いている goroutine と、channel にある結果の番号。 -/
def InFlight (s : State) (seq : Nat) : Prop :=
  (∃ w ∈ s.workers, w.candidate.seq = seq) ∨ ∃ r ∈ s.results, r.candidate.seq = seq

section

variable {track : ReleaseTrack} {T : Candidate} {young : Nat → Prop} {s : State} {last floor : Nat}

theorem Inv.seq_of_inFlight (h : Inv s last floor) {seq : Nat} (hseq : InFlight s seq) :
    seq = last := by
  cases h.flight with
  | idle _ hw hr =>
    rcases hseq with ⟨w, hmem, _⟩ | ⟨r, hmem, _⟩
    · simp [hw] at hmem
    · simp [hr] at hmem
  | working w stage _ hw hr _ _ hlog =>
    rcases hseq with ⟨w', hmem, rfl⟩ | ⟨r, hmem, _⟩
    · rw [hw, List.mem_singleton] at hmem
      subst hmem
      exact (hlog.job_last rfl).1
    · simp [hr] at hmem
  | finished r _ hw hr hlast =>
    rcases hseq with ⟨w, hmem, _⟩ | ⟨r', hmem, rfl⟩
    · simp [hw] at hmem
    · rw [hr, List.mem_singleton] at hmem
      subst hmem
      exact hlast

theorem Inv.seq_le_of_inFlight (h : Inv s last floor) {seq : Nat} (hseq : InFlight s seq) :
    seq ≤ s.latestSeq := by
  rw [h.seq_of_inFlight hseq]
  exact h.seq

theorem tracking_working {w : Worker} (hw : s.workers = [w]) (hr : s.results = [])
    (hin : s.inFlight = true) (hord : ∀ c, s.latest = some c → UpTo T c)
    (hev : ∀ c, s.events = some c → UpTo T c) (hc : UpTo T w.candidate)
    (hlatest : w.candidate.seq = s.latestSeq → s.latest = some w.candidate ∧ w.cancelled = false)
    (hconf : ∀ r, s.mode = .confirming r → s.latest = some r.candidate) : Tracking T young s where
  ordered := hord
  events := hev
  workers := by simpa [hw] using hc
  worker := by simpa [hw] using hlatest
  result := by simp [hr]
  applied := by simp [hr]
  confirming := hconf
  progress := fun _ _ _ => Or.inr (Or.inl hin)

theorem tracking_start {c : Candidate} (hw : s.workers = []) (hr : s.results = [])
    (hev : ∀ c, s.events = some c → UpTo T c) (hlatest : s.latest = some c)
    (hc : UpTo T c) (hmode : s.mode = .select) : Tracking T young (start s c) := by
  refine tracking_working (congrArg (· ++ [_]) hw) hr rfl (fun c' h => ?_) hev hc
    (fun _ => ⟨hlatest, rfl⟩) (fun _ h => by cases hmode.symm.trans h)
  cases hlatest.symm.trans h
  exact hc

theorem tracking_queue (h : Inv s last floor) (ht : Tracking T young s) (hmode : s.mode = .select)
    {candidate : Candidate} (hc : UpTo T candidate) :
    Tracking T young (queue track s candidate) := by
  unfold queue
  split
  · exact ht
  · split
    · exact ht
    · split
      · next hin =>
        obtain ⟨workers, hframe⟩ := cancelActive_frame (accept s candidate)
        have hworkers : ∀ w ∈ workers, ∃ w' ∈ s.workers, w'.candidate = w.candidate := by
          intro w hmem
          have heq : (cancelActive (accept s candidate)).workers = workers := by rw [hframe]
          rw [← heq] at hmem
          unfold cancelActive at hmem
          split at hmem
          · exact ⟨w, hmem, rfl⟩
          · obtain ⟨w', hmem', rfl⟩ := List.mem_map.mp hmem
            refine ⟨w', hmem', ?_⟩
            split <;> rfl
        rw [hframe]
        exact
          { ordered := fun c' hl => by
              cases hl
              exact hc
            events := ht.events
            workers := fun w hmem => by
              obtain ⟨w', hmem', heq⟩ := hworkers w hmem
              rw [← heq]
              exact ht.workers w' hmem'
            worker := fun w hmem hseq => by
              -- 動いている候補の番号は、今付けた番号より小さい。
              obtain ⟨w', hmem', heq⟩ := hworkers w hmem
              have hle := h.seq_le_of_inFlight (Or.inl ⟨w', hmem', rfl⟩)
              have hseq : w.candidate.seq = s.latestSeq + 1 := hseq
              rw [heq] at hle
              omega
            result := fun r hmem hseq => by
              have hle := h.seq_le_of_inFlight (Or.inr ⟨r, hmem, rfl⟩)
              have hseq : r.candidate.seq = s.latestSeq + 1 := hseq
              omega
            applied := ht.applied
            confirming := fun r hm => by
              have hm : s.mode = .confirming r := hm
              simp [hmode] at hm
            progress := fun _ _ _ => Or.inr (Or.inl hin) }
      · next hin =>
        cases h.flight with
        | idle _ hw hr => exact tracking_start hw hr ht.events rfl hc hmode
        | working _ _ hin' | finished _ hin' => exact absurd hin' hin

theorem tracking_idle (ht : Tracking T young s) {mode : Mode} {retry applied : Bool}
    (hw : s.workers = []) (hconf : ∀ r, mode = .confirming r → s.latest = some r.candidate)
    (hprogress : ∀ c, s.latest = some c → Same T c →
      retry = true ∨ (∃ r, mode = .confirming r) ∨ CommittedLast T s) :
    Tracking T young { s with
      results := []
      inFlight := false
      activeCancel := none
      appliedOnce := applied
      retryLatest := retry
      mode := mode } :=
  { ht with
    worker := fun w hmem => by
      have hmem : w ∈ s.workers := hmem
      simp [hw] at hmem
    result := fun _ hmem => nomatch hmem
    applied := fun _ hmem => nomatch hmem
    confirming := hconf
    progress := fun c hl hsame => by
      rcases hprogress c hl hsame with hretry | hconf | hcommit
      · exact Or.inl hretry
      · exact Or.inr (Or.inr (Or.inl hconf))
      · exact Or.inr (Or.inr (Or.inr hcommit)) }

theorem tracking_takeResult (h : Inv s last floor) (ht : Tracking T young s)
    (hmode : s.mode = .select) (hcancel : (takeResult s).runCancelled = false) :
    Tracking T young (takeResult s) := by
  cases hres : s.results with
  | nil =>
    rw [takeResult_of_empty hres]
    exact ht
  | cons r rest =>
    obtain ⟨rfl, hin, hw, hlast, _⟩ := h.finished hres
    have hmem : r ∈ s.results := by rw [hres]; exact List.mem_singleton.mpr rfl
    have hnotconf : ∀ r', s.mode = .confirming r' → s.latest = some r'.candidate :=
      fun _ hm => nomatch hmode.symm.trans hm
    have htaken := takeResult_taken hres
    generalize takeResult s = s' at htaken hcancel ⊢
    cases htaken with
    | panicked _ => cases hcancel
    | @started _ next hp =>
      obtain ⟨hlatest, _⟩ := h.pending next hp
      exact tracking_start hw rfl ht.events hlatest (ht.ordered next hlatest) hmode
    | kept hfatal hstale hcat =>
      have hseq := h.latest_of_stale hin hlast hstale
      obtain ⟨hlatest, hverdict⟩ := ht.result r hmem hseq
      refine tracking_idle ht hw hnotconf (fun c hl hsame => ?_)
      -- 最新の候補が `T` なら、結果は反映か、再試行できる失敗である。
      rw [hlatest] at hl
      cases hl
      rcases hverdict hsame with hf | ⟨happ, _⟩ | ⟨_, category, hsome, hne⟩
      · simp [hfatal] at hf
      · exact Or.inr (Or.inr ⟨r.candidate, ht.applied r hmem happ, hsame⟩)
      · exact absurd (hcat hseq category hsome) hne
    | retried _ _ _ => exact tracking_idle ht hw hnotconf (fun _ _ _ => Or.inl rfl)
    | confirming _ hseq _ _ =>
      refine tracking_idle ht hw (fun r' hm => ?_) (fun _ _ _ => Or.inr (Or.inl ⟨r, rfl⟩))
      cases hm
      exact (ht.result r hmem hseq).1

/-! ## goroutine の一歩 -/

section Worker

variable {w : Worker}

theorem tracking_advance (ht : Tracking T young s) (hin : s.inFlight = true) (hw : s.workers = [w])
    (hr : s.results = []) (phase : Phase) (entries : Log) :
    Tracking T young (advance s 0 w phase entries) := by
  have hmem : w ∈ s.workers := by rw [hw]; exact List.mem_singleton.mpr rfl
  have hadvanced : (advance s 0 w phase entries).workers = [{ w with phase }] := by
    rw [advance, hw]
    rfl
  exact tracking_working hadvanced hr hin ht.ordered ht.events (ht.workers w hmem)
    (ht.worker w hmem) ht.confirming

theorem tracking_finish (ht : Tracking T young s) (hin : s.inFlight = true) (hw : s.workers = [w])
    (hr : s.results = []) {r : Result} {entries : Log} (hcand : r.candidate = w.candidate)
    (hverdict : w.candidate.seq = s.latestSeq → Same T w.candidate → Verdict young r)
    (happlied : r.applied = true → (commits (entries ++ s.log)).head? = some r.candidate) :
    Tracking T young (finish s 0 r entries) :=
  { ht with
    workers := fun w' hmem => by
      have hmem : w' ∈ s.workers.eraseIdx 0 := hmem
      simp [hw] at hmem
    worker := fun w' hmem => by
      have hmem : w' ∈ s.workers.eraseIdx 0 := hmem
      simp [hw] at hmem
    result := fun r' hmem hseq => by
      have hmem : r' ∈ s.results ++ [r] := hmem
      rw [hr, List.nil_append, List.mem_singleton] at hmem
      subst hmem
      rw [hcand] at hseq ⊢
      exact ⟨(ht.worker w (by rw [hw]; exact List.mem_singleton.mpr rfl) hseq).1, hverdict hseq⟩
    applied := fun r' hmem happ => by
      have hmem : r' ∈ s.results ++ [r] := hmem
      rw [hr, List.nil_append, List.mem_singleton] at hmem
      subst hmem
      exact happlied happ
    progress := fun _ _ _ => Or.inr (Or.inl hin) }

/-- 拒否。最新の `T` は cancel されていないので、`superseded` にはならない。 -/
theorem tracking_reject (ht : Tracking T young s) (hin : s.inFlight = true) (hw : s.workers = [w])
    (hr : s.results = []) {category : RejectCategory} {held : Bool} {entries : Log}
    (hverdict : w.candidate.seq = s.latestSeq → Same T w.candidate →
      ¬ young w.candidate.seq ∧ category ≠ .superseded) :
    Tracking T young (reject s 0 w category held entries) := by
  refine tracking_finish ht hin hw hr rfl (fun hseq hsame => ?_) (fun happ => nomatch happ)
  obtain ⟨hyoung, hne⟩ := hverdict hseq hsame
  exact Or.inr (Or.inr ⟨hyoung, category, rfl, hne⟩)

theorem orSuperseded_ne {cancelled : Bool} {category : RejectCategory} (hc : cancelled = false)
    (hne : category ≠ .superseded) : orSuperseded cancelled category ≠ .superseded := by
  unfold orSuperseded
  rw [hc]
  exact hne

theorem tracking_stepWorker (hT : releaseHasAddress T.release track = true)
    (ht : Tracking T young s) (hin : s.inFlight = true) (hw : s.workers = [w])
    (hr : s.results = []) (hlive : s.runCancelled = false) {e : WorkerEvent}
    (hadm : Admissible T young s (.worker 0 e)) : Tracking T young (stepWorker track s 0 w e) := by
  have hget : s.workers[0]? = some w := by rw [hw]; rfl
  have hmem : w ∈ s.workers := by rw [hw]; exact List.mem_singleton.mpr rfl
  have huncancelled : w.candidate.seq = s.latestSeq → (w.cancelled || s.runCancelled) = false := by
    intro hseq
    rw [(ht.worker w hmem hseq).2, hlive]
    rfl
  unfold stepWorker
  dsimp only
  split
  · exact tracking_advance ht hin hw hr _ _
  · next category hphase =>
    refine tracking_reject ht hin hw hr (fun hseq hsame => ?_)
    refine ⟨hadm.resolve 0 category rfl w hget hsame, orSuperseded_ne (huncancelled hseq) ?_⟩
    rintro rfl
    have hcancelled := hadm.honest w hget rfl
    simp [huncancelled hseq] at hcancelled
  · exact tracking_advance ht hin hw hr _ _
  · next classified hphase =>
    refine tracking_reject ht hin hw hr (fun hseq hsame => ?_)
    refine ⟨hadm.prepare 0 classified rfl w hget hsame, orSuperseded_ne (huncancelled hseq) ?_⟩
    cases classified with
    | none => exact fun h => nomatch h
    | some category =>
      rintro (rfl : category = .superseded)
      have hcancelled := hadm.honest w hget rfl
      simp [huncancelled hseq] at hcancelled
  · split
    · next hcancelled =>
      refine tracking_reject ht hin hw hr (fun hseq _ => ?_)
      simp [huncancelled hseq] at hcancelled
    · exact tracking_advance ht hin hw hr _ _
  · next response hphase =>
    split
    · next hnone =>
      refine tracking_reject ht hin hw hr (fun hseq hsame => ?_)
      refine ⟨fun hyoung => ?_, orSuperseded_ne (huncancelled hseq) (fun h => nomatch h)⟩
      obtain ⟨a, rfl, ha⟩ := hadm.read 0 response rfl w hget hsame hyoung
      simp [getActive_of_same hT ha] at hnone
    · next active hactive =>
      split
      · next hbad =>
        -- 候補を見た後の読み出しは `T` より前に戻らないので、`T` の検査は一致する。
        refine tracking_reject ht hin hw hr (fun hseq hsame => ?_)
        obtain ⟨hupto, hafter⟩ := hadm.ordered active (getActive_eq_some hactive)
        have hsame' := hsame.between hupto (hafter w hget)
        rcases hbad with hdiff | hcancelled
        · simp [sameActiveCandidate_of_same hT hsame hsame'] at hdiff
        · simp [huncancelled hseq] at hcancelled
      · exact tracking_advance ht hin hw hr _ _
  · split
    · exact tracking_finish ht hin hw hr rfl (fun _ _ => Or.inl rfl) (fun happ => nomatch happ)
    · exact tracking_finish ht hin hw hr rfl (fun _ _ => Or.inr (Or.inl ⟨rfl, rfl⟩)) (fun _ => rfl)
  · exact ht

end Worker

/-! ## 一歩 -/

theorem Tracking.setMode (ht : Tracking T young s) {mode : Mode} (hmode : ∀ r, mode ≠ .confirming r)
    (hold : ∀ r, s.mode ≠ .confirming r) : Tracking T young { s with mode } :=
  { ht with
    confirming := fun r hm => absurd hm (hmode r)
    progress := fun c hl hsame => by
      rcases ht.progress c hl hsame with hretry | hin | ⟨r, hm⟩ | hcommit
      · exact Or.inl hretry
      · exact Or.inr (Or.inl hin)
      · exact absurd hm (hold r)
      · exact Or.inr (Or.inr (Or.inr hcommit)) }

theorem Tracking.setEvents (ht : Tracking T young s) {events : Option Candidate}
    (hev : ∀ c, events = some c → UpTo T c) : Tracking T young { s with events } :=
  { ht with
    events := hev }

theorem tracking_step (hT : releaseHasAddress T.release track = true) (h : Inv s last floor)
    (ht : Tracking T young s) {e : Event} (hadm : Admissible T young s e)
    (hlive : (step track s e).runCancelled = false) : Tracking T young (step track s e) := by
  have hlive₀ := (step_grows track s e).cancelled hlive
  have hstep := step_stepped track s e
  generalize step track s e = s' at hstep hlive ⊢
  cases hstep with
  | same => exact ht
  | offered =>
    refine ht.setEvents (fun c hc => ?_)
    cases hc
    exact hadm.ordered
  | cancelled | exited => cases hlive
  | ticked hmode | selected hmode =>
    exact ht.setMode (fun _ hm => by cases hm) (fun _ hm => by cases hmode.symm.trans hm)
  | received hmode hc =>
    exact tracking_queue (h.frame none _ _ _) (ht.setEvents (fun _ hc => by cases hc)) hmode
      (ht.events _ hc)
  | @reconciled _ c hmode hc =>
    have hselect : Tracking T young { s with mode := .select } :=
      ht.setMode (fun _ hm => by cases hm) (fun _ hm => by cases hmode.symm.trans hm)
    exact tracking_queue (h.toSelect (by rw [State.running, hmode])) hselect rfl
      (hadm.ordered c hc)
  | @confirmed _ r _ hmode hc hne =>
    obtain ⟨hupto, hafter⟩ := hadm.ordered _ hc
    have hselect : Tracking T young { s with mode := .select } :=
      { ht with
        confirming := fun _ hm => by cases hm
        progress := fun c hl hsame => by
          -- 失敗した候補が `T` なら、読み直しも `T` を返して `Run` は返っている。
          cases (ht.confirming r hmode).symm.trans hl
          exact absurd (sameActiveCandidate_of_same hT hsame (hsame.between hupto (hafter r hmode)))
            hne }
    exact tracking_queue (h.toSelect (by rw [State.running, hmode])) hselect rfl hupto
  | taken hmode => exact tracking_takeResult h ht hmode hlive
  | worked e hget =>
    obtain ⟨rfl, hin, hw, hr, _⟩ := h.working hget
    exact tracking_stepWorker hT ht hin hw hr hlive₀ hadm

end

end Kms.Loader.Go
