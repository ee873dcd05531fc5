import Kms.Loader.TsRun

/-!
# TypeScript の loader が候補の失敗で終わる条件

起動時の失敗を返すまでの `await` の間に新しい候補が受け入れられなければ、`run` が
`ReleaseCandidateError` で終わるのは、最新の候補が失敗し、まだ何も反映していないときに限る。

`then` の本体は `processing` を下ろしてから読み直しと確認の送信を待つ。その間に受け入れた候補は反映まで
進めるが、待っている失敗は取り消されない。

* `Quiet` — 待っている失敗があるとき、候補を受け入れない
* `Inv` — 終わっていない `run` の不変条件
* `run_survives_failures` — 主定理
* `waiting_rejection_outlives_commit` — 条件を外した反例
-/

namespace Kms.Loader.Ts

open Kms.Infra Kms.Infra.Lifecycle

/-! ## 不変条件 -/

/-- 番号が最新の候補と同じなら、最新の候補そのものである。 -/
structure Owned (s : State) (c : Candidate) : Prop where
  le : c.seq ≤ s.sequence
  eq : ∀ l, s.latest = some l → l.seq = c.seq → l = c

/-- `processing` と、動いている `#processCandidate` の対応。 -/
inductive Flight (s : State) : Prop
  | idle (hp : s.processing = false) (hw : s.workers = []) (hr : s.results = [])
  | working (w : Worker) (hp : s.processing = true) (hw : s.workers = [w]) (hr : s.results = [])
      (howned : Owned s w.candidate)
  | finished (r : Result) (hp : s.processing = true) (hw : s.workers = []) (hr : s.results = [r])
      (howned : Owned s r.candidate)

structure Inv (s : State) : Prop where
  flight : Flight s
  latest : ∀ l, s.latest = some l → l.seq = s.sequence
  pending : ∀ p, s.pending = some p → Owned s p
  /-- 返ろうとしている失敗は一つで、最新の候補のものである。 -/
  waiting : ∀ u ∈ s.startups, s.startups = [u] ∧ s.processing = false ∧
    s.latest = some u.result.candidate ∧ commits s.log = []
  applied : commits s.log ≠ [] → s.appliedOnce = true ∨
    ∃ r ∈ s.results, r.applied = true ∨ r.fatal = true

theorem inv_empty : Inv State.empty where
  flight := .idle rfl rfl rfl
  latest := fun _ h => nomatch h
  pending := fun _ h => nomatch h
  waiting := fun _ h => nomatch h
  applied := fun h => absurd rfl h

def Quiet (track : ReleaseTrack) (s : State) : Event → Prop
  | .offer candidate => s.startups ≠ [] → accepts track s candidate = false
  | _ => True

section

variable {track : ReleaseTrack} {s : State}

theorem Inv.no_waiting (h : Inv s) (hp : s.processing = true) : s.startups = [] := by
  cases hs : s.startups with
  | nil => rfl
  | cons u us =>
    obtain ⟨_, hidle, _⟩ := h.waiting u (by rw [hs]; exact List.mem_cons_self)
    simp [hp] at hidle

/-! ## 受け入れ -/

theorem abortActive_frame (s : State) : ∃ workers, abortActive s = { s with workers } := by
  unfold abortActive
  split <;> exact ⟨_, rfl⟩

variable {c : Candidate} {i : Nat} {u : Startup} {e : Event} {s' : State}

theorem Owned.accept (h : Owned s c) (incoming : Candidate) : Owned (accept s incoming) c := by
  refine ⟨Nat.le_succ_of_le h.le, fun l hl hseq => ?_⟩
  cases hl
  have hle := h.le
  have hseq : s.sequence + 1 = c.seq := hseq
  omega

theorem owned_accepted (s : State) (incoming : Candidate) :
    Owned (accept s incoming) { incoming with seq := s.sequence + 1 } :=
  ⟨le_rfl, fun _ hl _ => (Option.some.inj hl).symm⟩

theorem inv_start (hw : s.workers = []) (hr : s.results = [])
    (hs : s.startups = []) (howned : Owned s c)
    (hlatest : ∀ l, s.latest = some l → l.seq = s.sequence)
    (hpending : ∀ p, s.pending = some p → Owned s p)
    (happlied : commits s.log ≠ [] → s.appliedOnce = true) : Inv (start s c) where
  flight := by
    refine .working ⟨c, .resolving, false⟩ rfl ?_ hr ⟨howned.le, howned.eq⟩
    simp only [start, hw, List.nil_append]
  latest := hlatest
  pending := fun p hp => ⟨(hpending p hp).le, (hpending p hp).eq⟩
  waiting := fun u hu => by
    have hu : u ∈ s.startups := hu
    simp [hs] at hu
  applied := fun hne => Or.inl (happlied hne)

theorem flight_abortActive (h : Flight s) (hp : s.processing = true) (incoming : Candidate)
    (pending : Option Candidate) : Flight { abortActive (accept s incoming) with pending } := by
  obtain ⟨workers, hframe⟩ := abortActive_frame (accept s incoming)
  cases h with
  | idle hp' =>
    rw [hp] at hp'
    cases hp'
  | working w _ hw hr hown =>
    have hworkers : ∃ w', (abortActive (accept s incoming)).workers = [w'] ∧
        w'.candidate = w.candidate := by
      unfold abortActive
      split
      · exact ⟨w, hw, rfl⟩
      · next seq _ =>
        refine ⟨if w.candidate.seq = seq then { w with aborted := true } else w, ?_, ?_⟩
        · simp only [accept, hw, List.map_cons, List.map_nil]
        · split
          all_goals rfl
    obtain ⟨w', hw', hcand⟩ := hworkers
    rw [hframe] at hw' ⊢
    have hown' := hown.accept incoming
    rw [← hcand] at hown'
    exact .working w' hp hw' hr ⟨hown'.le, hown'.eq⟩
  | finished r _ hw hr hown =>
    have hworkers : (abortActive (accept s incoming)).workers = [] := by
      unfold abortActive
      split
      · exact hw
      · simp only [accept, hw, List.map_nil]
    rw [hframe] at hworkers ⊢
    have hown' := hown.accept incoming
    exact .finished r hp hworkers hr ⟨hown'.le, hown'.eq⟩

theorem Inv.appliedOnce (h : Inv s) (hr : s.results = []) (hne : commits s.log ≠ []) :
    s.appliedOnce = true := by
  rcases h.applied hne with happ | ⟨r, hmem, _⟩
  · exact happ
  · simp [hr] at hmem

theorem inv_offer (h : Inv s) {incoming : Candidate}
    (hquiet : s.startups ≠ [] → accepts track s incoming = false) :
    Inv (offer track s incoming) := by
  unfold offer
  split
  · exact h
  · next haccept =>
    have hs : s.startups = [] := by
      by_contra hne
      exact haccept (hquiet hne)
    split
    · next hp =>
      have hflight := flight_abortActive h.flight hp incoming
        (some { incoming with seq := s.sequence + 1 })
      obtain ⟨workers, hframe⟩ := abortActive_frame (accept s incoming)
      rw [hframe] at hflight ⊢
      exact
        { flight := hflight
          latest := fun l hl => by
            cases hl
            rfl
          pending := fun p hpend => by
            cases hpend
            exact ⟨(owned_accepted s incoming).le, (owned_accepted s incoming).eq⟩
          waiting := fun u hu => by
            have hu : u ∈ s.startups := hu
            simp [hs] at hu
          applied := h.applied }
    · next hp =>
      cases h.flight with
      | idle _ hw hr =>
        refine inv_start hw hr hs (owned_accepted s incoming) (fun l hl => ?_)
          (fun p hpend => (h.pending p hpend).accept incoming) (h.appliedOnce hr)
        cases hl
        rfl
      | working _ hp' | finished _ hp' => exact absurd hp' hp

/-! ## `then` の本体 -/

theorem inv_startPending (hw : s.workers = []) (hr : s.results = []) (hp : s.processing = false)
    (hs : s.startups = []) (hlatest : ∀ l, s.latest = some l → l.seq = s.sequence)
    (hpending : ∀ p, s.pending = some p → Owned s p)
    (happlied : commits s.log ≠ [] → s.appliedOnce = true) : Inv (startPending s) := by
  have hidle : Inv s :=
    { flight := .idle hp hw hr
      latest := hlatest
      pending := hpending
      waiting := fun u hu => by
        simp [hs] at hu
      applied := fun hne => Or.inl (happlied hne) }
  unfold startPending
  split
  · next next hpend =>
    split
    · exact hidle
    · have hown := hpending next hpend
      exact inv_start hw hr hs ⟨hown.le, hown.eq⟩ hlatest (fun _ h => nomatch h) happlied
  · exact hidle

theorem inv_handle (h : Inv s) (hlive : (handle s).finished = none) : Inv (handle s) := by
  unfold handle at hlive ⊢
  cases h.flight with
  | idle _ _ hr | working _ _ _ hr =>
    simp only [hr]
    exact h
  | finished r hp hw hr hown =>
    have hs := h.no_waiting hp
    simp only [hr] at hlive ⊢
    by_cases hfatal : r.fatal = true
    · rw [if_pos hfatal] at hlive
      cases hf : s.finished with
      | none | some o => simp [settle, hf] at hlive
    · rw [if_neg hfatal]
      have happlied : commits s.log ≠ [] → (s.appliedOnce || r.applied) = true := by
        intro hne
        rcases h.applied hne with happ | ⟨r', hmem, hr'⟩
        · rw [happ]
          rfl
        · rw [hr, List.mem_singleton] at hmem
          subst hmem
          rcases hr' with happ | hf
          · rw [happ, Bool.or_true]
          · exact absurd hf hfatal
      have hstart : ∀ retry, Inv (startPending { s with
          results := []
          processing := false
          activeController := none
          appliedOnce := s.appliedOnce || r.applied
          retryLatest := retry }) := by
        intro retry
        exact inv_startPending hw rfl rfl hs h.latest
          (fun p hpend => ⟨(h.pending p hpend).le, (h.pending p hpend).eq⟩) happlied
      split
      · exact hstart s.retryLatest
      · next hseq =>
        rw [not_not, Option.map_eq_some_iff] at hseq
        obtain ⟨l, hl, hseq⟩ := hseq
        split
        · exact hstart s.retryLatest
        · split
          · exact hstart s.retryLatest
          · split
            · exact hstart true
            · next honce =>
              exact
                { flight := .idle rfl hw rfl
                  latest := h.latest
                  pending := fun p hpend => ⟨(h.pending p hpend).le, (h.pending p hpend).eq⟩
                  waiting := fun u hu => by
                    have hu : u ∈ s.startups ++ [⟨r, .reading⟩] := hu
                    rw [hs, List.nil_append, List.mem_singleton] at hu
                    subst hu
                    refine ⟨by rw [hs]; rfl, rfl, ?_, ?_⟩
                    · rw [hown.eq l hl hseq] at hl
                      exact hl
                    · by_contra hne
                      exact honce (happlied hne)
                  applied := fun hne => Or.inl (happlied hne) }

/-! ## 起動時の失敗 -/

theorem Inv.of_startups (h : Inv s) {startups : List Startup}
    (hwaiting : ∀ u ∈ startups, startups = [u] ∧ s.processing = false ∧
      s.latest = some u.result.candidate ∧ commits s.log = []) : Inv { s with startups } where
  flight := by
    cases h.flight with
    | idle hp hw hr => exact .idle hp hw hr
    | working w hp hw hr hown => exact .working w hp hw hr ⟨hown.le, hown.eq⟩
    | finished r hp hw hr hown => exact .finished r hp hw hr ⟨hown.le, hown.eq⟩
  latest := h.latest
  pending := fun p hpend => ⟨(h.pending p hpend).le, (h.pending p hpend).eq⟩
  waiting := hwaiting
  applied := h.applied

theorem settle_finished (s : State) (o : Outcome) : (settle s o).finished ≠ none := by
  unfold settle
  cases hf : s.finished with
  | none | some o' => exact fun h => nomatch h

theorem inv_stepStartup (h : Inv s) (hget : s.startups[i]? = some u)
    {e : StartupEvent} (hlive : (stepStartup track s i u e).finished = none) :
    Inv (stepStartup track s i u e) := by
  have hmem := List.mem_of_getElem? hget
  obtain ⟨hone, hp, hlatest, hnone⟩ := h.waiting u hmem
  have hi : i = 0 := by
    rw [hone] at hget
    have hlt := (List.getElem?_eq_some_iff.mp hget).1
    simpa using hlt
  subst hi
  have hadvance : ∀ stage, Inv (advanceStartup s 0 u stage) := by
    intro stage
    refine h.of_startups fun u' hu' => ?_
    rw [hone, List.set_cons_zero, List.mem_singleton] at hu'
    subst hu'
    exact ⟨by rw [hone]; rfl, hp, hlatest, hnone⟩
  have hdrop : Inv (dropStartup s 0) := by
    refine h.of_startups fun u' hu' => ?_
    rw [hone] at hu'
    cases hu'
  have hinterrupt : (interruptStartup s 0).finished = none → Inv (interruptStartup s 0) := by
    unfold interruptStartup
    intro hfin
    split at hfin
    · exact absurd hfin (settle_finished _ _)
    · next haborted =>
      rw [if_neg haborted]
      exact h
  unfold stepStartup at hlive ⊢
  split
  · split
    · exact hadvance _
    · split
      · exact hadvance _
      · refine inv_offer hdrop fun hne => absurd ?_ hne
        simp only [dropStartup, hone, List.eraseIdx_cons_zero]
  · next delivered hstage =>
    simp only [hstage] at hlive
    split
    · exact hadvance _
    · next hdel =>
      rw [if_neg hdel] at hlive
      exact absurd hlive (settle_finished _ _)
  · exact hadvance _
  · next hstage =>
    simp only [hstage] at hlive
    exact absurd hlive (settle_finished _ _)
  iterate 3
    next hstage =>
    simp only [hstage] at hlive
    exact hinterrupt hlive
  · exact h

/-! ## `#processCandidate` -/

section Worker

variable {w : Worker}

theorem inv_advance (h : Inv s) (hp : s.processing = true) (hw : s.workers = [w])
    (hr : s.results = []) (hown : Owned s w.candidate) (phase : Phase) {entries : Log}
    (hentries : commits (entries ++ s.log) = commits s.log) :
    Inv (advance s 0 w phase entries) where
  flight := .working { w with phase } hp (by simp only [advance, hw, List.set_cons_zero]) hr
    ⟨hown.le, hown.eq⟩
  latest := h.latest
  pending := fun p hpend => ⟨(h.pending p hpend).le, (h.pending p hpend).eq⟩
  waiting := fun u hu => by
    have hu : u ∈ s.startups := hu
    simp [h.no_waiting hp] at hu
  applied := fun hne => by
    have hne : commits (entries ++ s.log) ≠ [] := hne
    rw [hentries] at hne
    exact Or.inl (h.appliedOnce hr hne)

theorem inv_finish (h : Inv s) (hp : s.processing = true) (hw : s.workers = [w])
    (hr : s.results = []) (hown : Owned s w.candidate) {r : Result} {entries : Log}
    (hcand : r.candidate = w.candidate)
    (hentries : commits (entries ++ s.log) = commits s.log ∨ r.applied = true ∨ r.fatal = true) :
    Inv (finish s 0 r entries) where
  flight := by
    refine .finished r hp ?_ ?_ ?_
    · simp only [finish, hw, List.eraseIdx_cons_zero]
    · simp only [finish, hr, List.nil_append]
    · rw [hcand]
      exact ⟨hown.le, hown.eq⟩
  latest := h.latest
  pending := fun p hpend => ⟨(h.pending p hpend).le, (h.pending p hpend).eq⟩
  waiting := fun u hu => by
    have hu : u ∈ s.startups := hu
    simp [h.no_waiting hp] at hu
  applied := fun hne => by
    have hne : commits (entries ++ s.log) ≠ [] := hne
    have hmem : r ∈ (finish s 0 r entries).results := by
      simp only [finish, hr, List.nil_append, List.mem_singleton]
    rcases hentries with heq | happ
    · rw [heq] at hne
      exact Or.inl (h.appliedOnce hr hne)
    · exact Or.inr ⟨r, hmem, happ⟩

theorem inv_stepWorker (h : Inv s) (hp : s.processing = true) (hw : s.workers = [w])
    (hr : s.results = []) (hown : Owned s w.candidate) (e : WorkerEvent) :
    Inv (stepWorker track s 0 w e) := by
  unfold stepWorker
  dsimp only
  split
  · exact inv_advance h hp hw hr hown _ rfl
  · exact inv_finish h hp hw hr hown rfl (Or.inl rfl)
  · exact inv_finish h hp hw hr hown rfl (Or.inl rfl)
  · split
    · exact inv_finish h hp hw hr hown rfl (Or.inl rfl)
    · exact inv_advance h hp hw hr hown _ rfl
  · split
    · exact inv_finish h hp hw hr hown rfl (Or.inl rfl)
    · split
      · exact inv_finish h hp hw hr hown rfl (Or.inl rfl)
      · split
        · exact inv_finish h hp hw hr hown rfl (Or.inr (Or.inr rfl))
        · exact inv_finish h hp hw hr hown rfl (Or.inr (Or.inl rfl))
  · exact h

end Worker

/-! ## 一歩 -/

theorem offer_frame (track : ReleaseTrack) (s : State) (incoming : Candidate) :
    (offer track s incoming).finished = s.finished ∧ s.log <:+ (offer track s incoming).log := by
  obtain ⟨_, hframe⟩ := abortActive_frame (accept s incoming)
  unfold offer
  split
  · exact ⟨rfl, List.suffix_rfl⟩
  · split
    · rw [hframe]
      exact ⟨rfl, List.suffix_rfl⟩
    · exact ⟨rfl, List.suffix_cons _ _⟩

theorem startPending_frame (s : State) :
    (startPending s).finished = s.finished ∧ s.log <:+ (startPending s).log := by
  unfold startPending
  split
  · split
    · exact ⟨rfl, List.suffix_rfl⟩
    · exact ⟨rfl, List.suffix_cons _ _⟩
  · exact ⟨rfl, List.suffix_rfl⟩

theorem stepWorker_frame (track : ReleaseTrack) (s : State) (i : Nat) (w : Worker)
    (e : WorkerEvent) :
    (stepWorker track s i w e).finished = s.finished ∧
      s.log <:+ (stepWorker track s i w e).log := by
  unfold stepWorker
  dsimp only
  split
  · exact ⟨rfl, List.suffix_append _ _⟩
  · exact ⟨rfl, List.suffix_append _ _⟩
  · exact ⟨rfl, List.suffix_append _ _⟩
  · split
    all_goals exact ⟨rfl, List.suffix_append _ _⟩
  · split
    · exact ⟨rfl, List.suffix_append _ _⟩
    · split
      · exact ⟨rfl, List.suffix_append _ _⟩
      · split
        all_goals exact ⟨rfl, List.suffix_append _ _⟩
  · exact ⟨rfl, List.suffix_rfl⟩

/-- 一歩が `finished` と log にすること。候補の失敗を返すのは、待っていた失敗だけである。 -/
structure Ends (s s' : State) : Prop where
  finished : s'.finished = s.finished ∨ ∃ o, s'.finished = s.finished.or (some o) ∧
    ∀ c category, o = .candidate c category → ∃ u ∈ s.startups, u.result.candidate = c
  log : s.log <:+ s'.log

theorem Ends.of_frame (h : s'.finished = s.finished ∧ s.log <:+ s'.log) :
    Ends s s' := ⟨Or.inl h.1, h.2⟩

theorem Ends.refl (s : State) : Ends s s := ⟨Or.inl rfl, List.suffix_rfl⟩

theorem ends_handle (s : State) : Ends s (handle s) := by
  unfold handle
  split
  · exact .refl s
  · dsimp only
    split
    · exact ⟨Or.inr ⟨.fatal, rfl, fun _ _ h => nomatch h⟩, List.suffix_rfl⟩
    · iterate 4
        split
        · exact .of_frame (startPending_frame _)
      exact ⟨Or.inl rfl, List.suffix_rfl⟩

theorem ends_interruptStartup (s : State) (i : Nat) : Ends s (interruptStartup s i) := by
  unfold interruptStartup
  split
  · exact ⟨Or.inr ⟨.aborted, rfl, fun _ _ h => nomatch h⟩, List.suffix_rfl⟩
  · exact .refl s

theorem ends_rejectStartup (hmem : u ∈ s.startups) : Ends s (rejectStartup s i u) := by
  refine ⟨Or.inr ⟨_, rfl, fun c category heq => ⟨u, hmem, ?_⟩⟩, List.suffix_rfl⟩
  injection heq

theorem ends_stepStartup (hmem : u ∈ s.startups) (e : StartupEvent) :
    Ends s (stepStartup track s i u e) := by
  unfold stepStartup
  split
  · split
    · exact ⟨Or.inl rfl, List.suffix_rfl⟩
    · split
      · exact ⟨Or.inl rfl, List.suffix_rfl⟩
      · exact .of_frame (offer_frame track (dropStartup s i) _)
  · split
    · exact ⟨Or.inl rfl, List.suffix_rfl⟩
    · exact ends_rejectStartup hmem
  · exact ⟨Or.inl rfl, List.suffix_rfl⟩
  · exact ends_rejectStartup hmem
  · exact ends_interruptStartup s i
  · exact ends_interruptStartup s i
  · exact ends_interruptStartup s i
  · exact .refl s

theorem ends_step (track : ReleaseTrack) (s : State) (e : Event) : Ends s (step track s e) := by
  cases e with
  | offer candidate => exact .of_frame (offer_frame track s candidate)
  | worker i e =>
    simp only [step]
    split
    · exact .of_frame (stepWorker_frame track s i _ e)
    · exact .refl s
  | handle => exact ends_handle s
  | startup i e =>
    simp only [step]
    split
    · next u hget => exact ends_stepStartup (List.mem_of_getElem? hget) e
    · exact .refl s
  | watchFail => exact ⟨Or.inr ⟨.watchFailed, rfl, fun _ _ h => nomatch h⟩, List.suffix_rfl⟩
  | stop => exact ⟨Or.inr ⟨.aborted, rfl, fun _ _ h => nomatch h⟩, List.suffix_rfl⟩
  | finalize =>
    simp only [step]
    split
    · exact .refl s
    · exact ⟨Or.inl rfl, List.suffix_rfl⟩

theorem Ends.finished_of_some (h : Ends s s') {o : Outcome}
    (ho : s.finished = some o) : s'.finished = some o := by
  rcases h.finished with heq | ⟨o', heq, _⟩
  · rw [heq, ho]
  · rw [heq, ho]
    rfl

theorem Ends.live (h : Ends s s') (hlive : s'.finished = none) : s.finished = none := by
  cases hf : s.finished with
  | none => rfl
  | some o =>
    simp [h.finished_of_some hf] at hlive

theorem inv_step (h : Inv s) (hq : Quiet track s e)
    (hlive : (step track s e).finished = none) : Inv (step track s e) := by
  cases e with
  | offer candidate => exact inv_offer h hq
  | worker i e =>
    simp only [step]
    split
    · next w hget =>
      cases h.flight with
      | idle _ hw | finished _ _ hw =>
        simp [hw] at hget
      | working w' hp hw hr hown =>
        have hi : i = 0 := by
          rw [hw] at hget
          have hlt := (List.getElem?_eq_some_iff.mp hget).1
          simpa using hlt
        subst hi
        rw [hw] at hget
        cases hget
        exact inv_stepWorker h hp hw hr hown e
    · exact h
  | handle => exact inv_handle h hlive
  | startup i e =>
    simp only [step] at hlive ⊢
    split
    · next u hget =>
      simp only [hget] at hlive
      exact inv_stepStartup h hget hlive
    · exact h
  | watchFail | stop => exact absurd hlive (settle_finished _ _)
  | finalize =>
    simp only [step] at hlive ⊢
    split
    · exact h
    · next hne =>
      rw [if_neg hne] at hlive
      exact absurd hlive hne

/-- 終わっていない `run` は不変条件を満たす。 -/
theorem inv_run {initial : Option Candidate} {es : List Event}
    (hq : AlongSteps (step track) (Quiet track) (init track initial) es)
    (hlive : (runFrom track initial es).finished = none) : Inv (runFrom track initial es) := by
  have hinit : Inv (init track initial) := by
    unfold init
    split
    · exact inv_offer inv_empty fun hne => absurd rfl hne
    · exact inv_empty
  refine run_steps_invariant (I := fun s => s.finished = none → Inv s)
    (fun s e hqe h hlive' => ?_) (fun _ => hinit) hq hlive
  exact inv_step (h ((ends_step track s e).live hlive')) hqe hlive'

theorem Inv.rejected (h : Inv s) (hlive : s.finished = none)
    {category : RejectCategory} (hend : (step track s e).finished = some (.candidate c category)) :
    s.latest = some c ∧ commits s.log = [] := by
  rcases (ends_step track s e).finished with heq | ⟨o, heq, hcand⟩
  · simp [heq, hlive] at hend
  · rw [heq, hlive] at hend
    obtain ⟨u, hmem, rfl⟩ := hcand c category (Option.some.inj hend)
    obtain ⟨_, _, hlatest, hnone⟩ := h.waiting u hmem
    exact ⟨hlatest, hnone⟩

/-- 一度反映した `run` は、候補の失敗で終わらない。 -/
structure Committed (s : State) : Prop where
  inv : s.finished = none → Inv s
  commits : commits s.log ≠ []
  finished : ∀ c category, s.finished ≠ some (.candidate c category)

theorem committed_step (h : Committed s) (hq : Quiet track s e) : Committed (step track s e) := by
  have hends := ends_step track s e
  refine ⟨fun hlive => inv_step (h.inv (hends.live hlive)) hq hlive, fun hnil => ?_,
    fun c category hend => ?_⟩
  · have hsuffix := commits_suffix hends.log
    rw [hnil, List.suffix_nil] at hsuffix
    exact h.commits hsuffix
  · cases hf : s.finished with
    | none => exact h.commits ((h.inv hf).rejected hf hend).2
    | some o =>
      rw [hends.finished_of_some hf] at hend
      cases hend
      exact h.finished c category hf

end

/-! ## 主定理 -/

theorem runFrom_append (track : ReleaseTrack) (initial : Option Candidate) (es fs : List Event) :
    runFrom track initial (es ++ fs) = run (step track) (runFrom track initial es) fs :=
  run_append (step track) (init track initial) es fs

/--
待っている失敗があるときに候補を受け入れない run では、一度反映すれば `ReleaseCandidateError` で終わる
ことは無い。候補の失敗で終わるときは、その時点の最新の候補の失敗である。
-/
theorem run_survives_failures (track : ReleaseTrack) (initial : Option Candidate)
    (es : List Event) (hq : AlongSteps (step track) (Quiet track) (init track initial) es) :
    (∀ pre post, es = pre ++ post → (runFrom track initial pre).finished = none →
      commits (runFrom track initial pre).log ≠ [] →
      ∀ c category, (runFrom track initial es).finished ≠ some (.candidate c category)) ∧
    (∀ pre e post c category, es = pre ++ e :: post → (runFrom track initial pre).finished = none →
      (runFrom track initial (pre ++ [e])).finished = some (.candidate c category) →
      (runFrom track initial pre).latest = some c) := by
  refine ⟨fun pre post hes hlive hne => ?_, fun pre e post c category hes hlive hend => ?_⟩
  · subst hes
    obtain ⟨hpre, hpost⟩ := AlongSteps.append.mp hq
    have hstart : Committed (runFrom track initial pre) :=
      ⟨fun _ => inv_run hpre hlive, hne, fun c category hend => by
        rw [hlive] at hend
        cases hend⟩
    rw [runFrom_append]
    have hend : Committed (run (step track) (runFrom track initial pre) post) :=
      run_steps_invariant (I := Committed) (fun s e hqe h => committed_step h hqe) hstart hpost
    exact hend.finished
  · subst hes
    rw [runFrom_append] at hend
    exact ((inv_run (AlongSteps.append.mp hq).1 hlive).rejected hlive hend).1

section Sample

private def sampleTsTrack : ReleaseTrack := ⟨⟨"prod", "api"⟩, "main", 1⟩

private def sampleFirst : Candidate :=
  ⟨some ⟨some ⟨"prod", "api"⟩, "main", 1, 6, "d6"⟩, 1, 1, 0, .reconciliation⟩

private def sampleSecond : Candidate :=
  ⟨some ⟨some ⟨"prod", "api"⟩, "main", 1, 7, "d7"⟩, 2, 2, 0, .reconciliation⟩

private def sampleThird : Candidate :=
  ⟨some ⟨some ⟨"prod", "api"⟩, "main", 1, 8, "d8"⟩, 3, 3, 0, .activation⟩

/-- 候補の `prepare` が失敗する。 -/
private def sampleFailure : List Event :=
  [.worker 0 (.resolve none), .worker 0 (.prepare (.failed none) false), .handle]

/-- 二つ目の候補が反映される。 -/
private def sampleCommit : List Event :=
  [.worker 0 (.resolve none), .worker 0 (.prepare .ok false),
    .worker 0 (.read (some sampleSecond) false (.returned false 0)), .handle]

/-- 読み直しが新しい target を返し、それを反映する。 -/
private def sampleReread : List Event :=
  sampleFailure ++ .startup 0 (.read (some sampleSecond)) :: sampleCommit

/-- その後で受け入れた候補の `prepare` が失敗する。 -/
private def sampleLaterFailure : List Event := .offer sampleThird :: sampleFailure

/-- 読み直した target を反映した後は、次に受け入れた候補が失敗しても、`run` は終わらない。 -/
theorem run_survives_failures_after_reread :
    commits (runFrom sampleTsTrack (some sampleFirst) sampleReread).log ≠ [] ∧
      (runFrom sampleTsTrack (some sampleFirst) (sampleReread ++ sampleLaterFailure)).latest =
        some { sampleThird with seq := 3 } ∧
      commits (runFrom sampleTsTrack (some sampleFirst) (sampleReread ++ sampleLaterFailure)).log =
        [{ sampleSecond with seq := 2 }] ∧
      ∀ c category, (runFrom sampleTsTrack (some sampleFirst)
        (sampleReread ++ sampleLaterFailure)).finished ≠ some (.candidate c category) := by
  have hquiet : AlongSteps (step sampleTsTrack) (Quiet sampleTsTrack)
      (init sampleTsTrack (some sampleFirst)) (sampleReread ++ sampleLaterFailure) :=
    ⟨trivial, trivial, trivial, trivial, trivial, trivial, trivial, trivial,
      fun hwait => absurd (by decide +kernel) hwait, trivial, trivial, trivial, trivial⟩
  have hlive : (runFrom sampleTsTrack (some sampleFirst) sampleReread).finished = none := by
    decide +kernel
  have hcommits : commits (runFrom sampleTsTrack (some sampleFirst) sampleReread).log ≠ [] := by
    decide +kernel
  obtain ⟨hsurvives, _⟩ := run_survives_failures sampleTsTrack (some sampleFirst)
    (sampleReread ++ sampleLaterFailure) hquiet
  exact ⟨hcommits, by decide +kernel, by decide +kernel,
    hsurvives sampleReread sampleLaterFailure rfl hlive hcommits⟩

/--
`Quiet` を外した反例。最初の候補の失敗を返す前の読み直しを待つ間に、二つ目の候補が受け入れられ、反映まで
進む。その後で読み直しが失敗した候補を返すと、`run` は二つ目の候補を反映した後に、最新でない候補の
`ReleaseCandidateError` で終わる。
-/
theorem waiting_rejection_outlives_commit :
    let before := runFrom sampleTsTrack (some sampleFirst)
      (sampleFailure ++ .offer sampleSecond :: sampleCommit ++
        [.startup 0 (.read (some sampleFirst))])
    let after := step sampleTsTrack before (.startup 0 (.acknowledged false))
    before.finished = none ∧ before.appliedOnce = true ∧
      commits before.log = [{ sampleSecond with seq := 2 }] ∧
      before.latest = some { sampleSecond with seq := 2 } ∧
      after.finished = some (.candidate { sampleFirst with seq := 1 } .prepareFailed) := by
  decide +kernel

end Sample

end Kms.Loader.Ts
