import Kms.Client.GoWatch

/-!
# Go client の cache

`Client` は parameter の読み出しを cache し、watch manager の `setValue` は、値が変わったと見た時にその path の項を
捨てる。読み出しは、cache に無いことを見てから `GetParameter` を呼び、返った値を cache に入れる。この三つの間には他の
goroutine が割り込む。

* `Cache` — `getParam` / `putParam` / `invalidateParam`
* `CachingClient` / `CacheEvent` / `cacheStep` — 読み出しと watch manager
* `CacheInv` — 捨てた後の項は、revision `r` 以後の値である
* `cache_not_staler_than_watch` — 主定理
* `cache_fill_after_invalidation_is_stale` — 追い越された読み出しと、変わったと見られない event
-/

namespace Kms.Client

open Kms.Infra

/-! ## cache -/

structure SubKey where
  version : Nat
  label : String
  deriving DecidableEq

def SubKey.isCurrent (sk : SubKey) : Bool :=
  decide (sk.version = 0) && (decide (sk.label = "") || decide (sk.label = "current"))

structure ParamEntry where
  value : String
  expires : Nat
  deriving DecidableEq

abbrev CacheKey := Ref × SubKey

structure Cache where
  ttl : Nat
  maxEntries : Nat
  params : Table (Prod.fst : CacheKey × ParamEntry → CacheKey)
  paramCount : Int

def defaultMaxCacheEntries : Nat := 4096

/-- `newCache`。`ttl` が正でなければ cache は無い。 -/
def newCache (ttl : Nat) : Option Cache :=
  if ttl = 0 then none else some ⟨ttl, defaultMaxCacheEntries, Table.empty, 0⟩

namespace Cache

def getParam (c : Cache) (now : Nat) (key : CacheKey) : Option String :=
  (c.params.get key).bind (fun row => if row.2.expires < now then none else some row.2.value)

/-- 期限の切れた項を捨てる。 -/
def dropExpired (c : Cache) (now : Nat) : Cache :=
  { c with
    params := c.params.deleteWhere (fun row => decide (row.2.expires < now))
    paramCount := c.paramCount -
      (c.params.rows.filter (fun row => decide (row.2.expires < now))).length }

/-- `evictOneParamLocked`。Go の map の順は決まっていないので、選ばれる項を引数に取る。 -/
def evictOneParam (c : Cache) (key : CacheKey) : Cache :=
  if (c.maxEntries : Int) < c.paramCount ∧ (c.params.get key).isSome then
    { c with
      params := c.params.deleteWhere (fun row => decide (row.1 = key))
      paramCount := c.paramCount - 1 }
  else c

/-- `evictParamsLocked`。 -/
def evictParams (c : Cache) (now : Nat) (order : List CacheKey) : Cache :=
  order.foldl evictOneParam (c.dropExpired now)

def putParam (c : Cache) (now : Nat) (key : CacheKey) (value : String) (order : List CacheKey) :
    Cache :=
  let count := if (c.params.get key).isSome then c.paramCount else c.paramCount + 1
  let c' := { c with params := c.params.upsert (key, ⟨value, now + c.ttl⟩), paramCount := count }
  if (c.maxEntries : Int) < count then c'.evictParams now order else c'

def invalidateParam (c : Cache) (p : Ref) : Cache :=
  { c with
    params := c.params.deleteWhere (fun row => decide (row.1.1 = p))
    paramCount := c.paramCount -
      (c.params.rows.filter (fun row => decide (row.1.1 = p))).length }

/-! ### 操作の後の項 -/

variable {c : Cache} {row : CacheKey × ParamEntry}

theorem mem_evictOneParam {key : CacheKey}
    (h : row ∈ (c.evictOneParam key).params) : row ∈ c.params := by
  unfold evictOneParam at h
  split at h
  · exact (Table.mem_deleteWhere.mp h).1
  · exact h

theorem mem_evictParams {now : Nat} {order : List CacheKey}
    (h : row ∈ (c.evictParams now order).params) :
    row ∈ c.params := by
  have hfold : ∀ (order : List CacheKey) (c : Cache),
      row ∈ (order.foldl evictOneParam c).params → row ∈ c.params := by
    intro order
    induction order with
    | nil => exact fun _ h => h
    | cons key rest ih => exact fun c h => mem_evictOneParam (ih _ h)
  exact (Table.mem_deleteWhere.mp (hfold order _ h)).1

theorem mem_putParam {now : Nat} {key : CacheKey} {value : String} {order : List CacheKey}
    (h : row ∈ (c.putParam now key value order).params) :
    row ∈ c.params ∨ (row.1 = key ∧ row.2.value = value) := by
  have hupsert : row ∈ c.params.upsert (key, ⟨value, now + c.ttl⟩) := by
    unfold putParam at h
    generalize (if (c.params.get key).isSome then c.paramCount else c.paramCount + 1) = count at h
    simp only at h
    split at h
    · exact mem_evictParams h
    · exact h
  rcases Table.mem_upsert.mp hupsert with rfl | ⟨hold, -⟩
  · exact .inr ⟨rfl, rfl⟩
  · exact .inl hold

theorem mem_invalidateParam {p : Ref}
    (h : row ∈ (c.invalidateParam p).params) : row ∈ c.params ∧ row.1.1 ≠ p := by
  have h' := Table.mem_deleteWhere.mp h
  exact ⟨h'.1, by simpa using h'.2⟩

end Cache

/-! ## 読み出しと watch manager -/

/-- `GetParameter` の server 側。版や他の label を指す読み出しの値は定めない。 -/
structure ParamServer where
  get : List Entry → Ref → SubKey → Option String
  get_current : ∀ log p sk, sk.isCurrent = true → get log p sk = current log p

/-- 読み出しの goroutine。 -/
inductive ReadPhase where
  | idle
  /-- `GetParameter` の返りを待つ。 -/
  | asking (p : Ref) (sk : SubKey)
  /-- 返った値を cache に入れる前。`pos` は、store が答えた時の revision である。 -/
  | answered (p : Ref) (sk : SubKey) (value : String) (pos : Nat)
  deriving DecidableEq

structure CachingClient where
  manager : Manager goSdk
  cache : Option Cache
  now : Nat
  readers : Nat → ReadPhase
  /-- `setValue` の lock を放し、`invalidateParam` をまだ呼んでいない path。 -/
  dirty : Thread → Option Ref

def newCachingClient (ttl : Nat) : CachingClient where
  manager := Manager.empty goSdk
  cache := newCache ttl
  now := 0
  readers := fun _ => .idle
  dirty := fun _ => none

namespace CachingClient

def setReader (s : CachingClient) (i : Nat) (ph : ReadPhase) : CachingClient :=
  { s with readers := fun j => if j = i then ph else s.readers j }

def cached (s : CachingClient) (p : Ref) (sk : SubKey) : Option String :=
  s.cache.bind (fun c => c.getParam s.now (p, sk))

/-- `getParameter` の始まり。cache にあれば、その値を返して終わる。 -/
def getParameter (s : CachingClient) (i : Nat) (p : Ref) (sk : SubKey) : CachingClient :=
  match s.readers i, s.cached p sk with
  | .idle, none => s.setReader i (.asking p sk)
  | _, _ => s

/-- `fetchParameter` の始まり。登録の最初の読み出しは cache を見ない。 -/
def fetchParameter (s : CachingClient) (i : Nat) (p : Ref) (sk : SubKey) : CachingClient :=
  match s.readers i with
  | .idle => s.setReader i (.asking p sk)
  | _ => s

/-- store が答える。無ければ error で終わる。 -/
def answer (srv : ParamServer) (s : CachingClient) (i : Nat) : CachingClient :=
  match s.readers i with
  | .asking p sk =>
    match srv.get s.manager.log p sk with
    | some v => s.setReader i (.answered p sk v s.manager.log.length)
    | none => s.setReader i .idle
  | _ => s

/-- 返った値を cache に入れる。 -/
def fill (s : CachingClient) (i : Nat) (order : List CacheKey) : CachingClient :=
  match s.readers i with
  | .answered p sk v _ =>
    { s with cache := s.cache.map (fun c : Cache => c.putParam s.now (p, sk) v order) }.setReader i
      .idle
  | _ => s

def invalidateParam (s : CachingClient) (p : Ref) : CachingClient :=
  { s with cache := s.cache.map (fun c : Cache => c.invalidateParam p) }

def setDirty (s : CachingClient) (t : Thread) (p : Option Ref) : CachingClient :=
  { s with dirty := fun t' => if t' = t then p else s.dirty t' }

/-- watch manager の一歩。値を変えた thread は、handle に知らせる前に cache の項を捨てる。 -/
def watch (s : CachingClient) (ev : WatchEvent) : CachingClient :=
  match ev.thread with
  | none => { s with manager := watchStep s.manager ev }
  | some t =>
    match s.dirty t with
    | some p => (s.invalidateParam p).setDirty t none
    | none =>
      let m := watchStep s.manager ev
      { s with manager := m }.setDirty t
        (match s.manager.delivering t with
          | none => (m.delivering t).map Delivery.ref
          | some _ => none)

end CachingClient

inductive CacheEvent where
  | getParameter (i : Nat) (p : Ref) (sk : SubKey)
  | fetchParameter (i : Nat) (p : Ref) (sk : SubKey)
  | answer (i : Nat)
  | fill (i : Nat) (order : List CacheKey)
  /-- `PutParameter` の最後。 -/
  | putParameter (p : Ref)
  | tick
  | watch (ev : WatchEvent)
  deriving DecidableEq

def cacheStep (srv : ParamServer) (s : CachingClient) : CacheEvent → CachingClient
  | .getParameter i p sk => s.getParameter i p sk
  | .fetchParameter i p sk => s.fetchParameter i p sk
  | .answer i => s.answer srv i
  | .fill i order => s.fill i order
  | .putParameter p => s.invalidateParam p
  | .tick => { s with now := s.now + 1 }
  | .watch ev => s.watch ev

/-! ## 不変条件 -/

/-- `v` は、revision `r` 以後に `p` が持った値である。 -/
def HeldSince (log : List Entry) (r : Nat) (p : Ref) (v : String) : Prop :=
  ∃ t, r ≤ t ∧ t ≤ log.length ∧ valueAt log t p = some v

theorem HeldSince.append {log : List Entry} {r : Nat} {p : Ref} {v : String}
    (h : HeldSince log r p v) (es : List Entry) : HeldSince (log ++ es) r p v := by
  obtain ⟨t, hr, hle, hval⟩ := h
  refine ⟨t, hr, ?_, ?_⟩
  · rw [List.length_append]
    omega
  · rw [valueAt_append hle]
    exact hval

/-- 答えられた読み出しの値は、答えられた時の値である。 -/
def Answered (log : List Entry) (ph : ReadPhase) : Prop :=
  ∀ p sk v pos, ph = .answered p sk v pos → sk.isCurrent = true →
    pos ≤ log.length ∧ valueAt log pos p = some v

theorem Answered.append {log : List Entry} {ph : ReadPhase} (h : Answered log ph)
    (es : List Entry) : Answered (log ++ es) ph := by
  intro p sk v pos hph hcur
  obtain ⟨hle, hval⟩ := h p sk v pos hph hcur
  refine ⟨?_, ?_⟩
  · rw [List.length_append]
    omega
  · rw [valueAt_append hle]
    exact hval

def AnswersInv (s : CachingClient) : Prop := ∀ i, Answered s.manager.log (s.readers i)

def CacheInv (r : Nat) (p : Ref) (s : CachingClient) : Prop :=
  ∀ c ∈ s.cache, ∀ row ∈ c.params, row.1.1 = p → row.1.2.isCurrent = true →
    HeldSince s.manager.log r p row.2.value

/-- revision `r` の前に答えられた読み出しを、`p` の項にしない。 -/
def FillsSince (r : Nat) (p : Ref) (s : CachingClient) (ev : CacheEvent) : Prop :=
  ∀ i order sk v pos, ev = .fill i order → s.readers i = .answered p sk v pos →
    sk.isCurrent = true → r ≤ pos

/-- `FillsSince` の検査。 -/
def fillsSinceCheck (r : Nat) (p : Ref) (s : CachingClient) : CacheEvent → Bool
  | .fill i _ =>
    match s.readers i with
    | .answered p' sk _ pos => decide (p' ≠ p) || !sk.isCurrent || decide (r ≤ pos)
    | _ => true
  | _ => true

theorem fillsSinceCheck_iff {r : Nat} {p : Ref} {s : CachingClient} {ev : CacheEvent} :
    fillsSinceCheck r p s ev = true ↔ FillsSince r p s ev := by
  constructor
  · rintro h i order sk v pos rfl hr hsk
    simp only [fillsSinceCheck, hr, Bool.or_eq_true, decide_eq_true_eq, Bool.not_eq_true'] at h
    rcases h with (hne | hcur) | hle
    · exact absurd rfl hne
    · rw [hsk] at hcur
      cases hcur
    · exact hle
  · intro h
    cases ev with
    | fill i order =>
      simp only [fillsSinceCheck]
      split
      · next p' sk v pos hr =>
        by_cases hp : p' = p
        · subst hp
          cases hsk : sk.isCurrent with
          | false => simp
          | true => simp [h i order sk v pos rfl hr hsk]
        · simp [hp]
      · rfl
    | _ => rfl

instance (r : Nat) (p : Ref) (s : CachingClient) (ev : CacheEvent) :
    Decidable (FillsSince r p s ev) := decidable_of_iff _ fillsSinceCheck_iff

section Steps

variable {srv : ParamServer} {s : CachingClient} {r : Nat} {p : Ref}

theorem log_watchStep {sdk : Sdk} (m : Manager sdk) (ev : WatchEvent) :
    m.log <+: (watchStep m ev).log := by
  generalize hs : watchStep m ev = m'
  cases watchStep_effect hs with
  | committed e => exact List.prefix_append ..
  | registered hr =>
    rw [m.registerRead_eq]
    exact List.prefix_rfl
  | streamed =>
    unfold Manager.streamStep Manager.notify
    split
    · split <;> exact List.prefix_rfl
    all_goals exact List.prefix_rfl
  | passed ok =>
    unfold Manager.passStep Manager.notify
    split
    · split <;> exact List.prefix_rfl
    · exact List.prefix_rfl
    · exact List.prefix_rfl
    · split <;> exact List.prefix_rfl
  | _ => exact List.prefix_rfl

theorem CacheInv.congr (h : CacheInv r p s) {s' : CachingClient}
    (hlog : s.manager.log <+: s'.manager.log) (hc : s'.cache = s.cache) : CacheInv r p s' := by
  obtain ⟨es, hes⟩ := hlog
  intro c hc' row hrow hp hcur
  rw [← hes]
  exact (h c (hc ▸ hc') row hrow hp hcur).append es

theorem CacheInv.invalidated (s : CachingClient) : CacheInv r p (s.invalidateParam p) := by
  intro c hc row hrow hp
  obtain ⟨c', -, rfl⟩ := Option.map_eq_some_iff.mp hc
  exact absurd hp (Cache.mem_invalidateParam hrow).2

theorem CacheInv.invalidateParam (h : CacheInv r p s) (q : Ref) :
    CacheInv r p (s.invalidateParam q) := by
  intro c hc row hrow
  obtain ⟨c', hc', rfl⟩ := Option.map_eq_some_iff.mp hc
  exact h c' hc' row (Cache.mem_invalidateParam hrow).1

theorem CacheInv.fill (h : CacheInv r p s) (ha : AnswersInv s) {i : Nat} {order : List CacheKey}
    (hfill : FillsSince r p s (.fill i order)) : CacheInv r p (s.fill i order) := by
  unfold CachingClient.fill
  split
  · next q sk v pos hread =>
    intro c hc row hrow hp hcur
    obtain ⟨c', hc', rfl⟩ := Option.map_eq_some_iff.mp hc
    rcases Cache.mem_putParam hrow with hold | ⟨hkey, hval⟩
    · exact h c' hc' row hold hp hcur
    · -- 入れた値は、答えられた時の値である
      rw [hkey] at hp hcur
      obtain rfl : q = p := hp
      have hpos := hfill i order sk v pos rfl hread hcur
      obtain ⟨hle, hvalue⟩ := ha i q sk v pos hread hcur
      rw [hval]
      exact ⟨pos, hpos, hle, hvalue⟩
  · exact h

theorem CacheInv.watch (h : CacheInv r p s) (ev : WatchEvent) : CacheInv r p (s.watch ev) := by
  unfold CachingClient.watch
  split
  · exact h.congr (log_watchStep s.manager ev) rfl
  · split
    · exact (h.invalidateParam _).congr List.prefix_rfl rfl
    · exact h.congr (log_watchStep s.manager ev) rfl

theorem cacheInv_step {ev : CacheEvent} (h : CacheInv r p s) (ha : AnswersInv s)
    (hfill : FillsSince r p s ev) : CacheInv r p (cacheStep srv s ev) := by
  cases ev with
  | getParameter i q sk =>
    simp only [cacheStep, CachingClient.getParameter]
    split <;> exact h.congr List.prefix_rfl rfl
  | fetchParameter i q sk =>
    simp only [cacheStep, CachingClient.fetchParameter]
    split <;> exact h.congr List.prefix_rfl rfl
  | answer i =>
    simp only [cacheStep, CachingClient.answer]
    split
    · split <;> exact h.congr List.prefix_rfl rfl
    · exact h
  | fill i order => exact h.fill ha hfill
  | putParameter q => exact h.invalidateParam q
  | tick => exact h.congr List.prefix_rfl rfl
  | watch ev => exact h.watch ev

theorem AnswersInv.congr (h : AnswersInv s) {s' : CachingClient}
    (hlog : s.manager.log <+: s'.manager.log) (hr : s'.readers = s.readers) : AnswersInv s' := by
  obtain ⟨es, hes⟩ := hlog
  intro i
  rw [hr, ← hes]
  exact (h i).append es

theorem AnswersInv.setReader (h : AnswersInv s) (i : Nat) {ph : ReadPhase}
    (hph : Answered s.manager.log ph) : AnswersInv (s.setReader i ph) := by
  intro j
  show Answered s.manager.log (if j = i then ph else s.readers j)
  split
  · exact hph
  · exact h j

theorem answersInv_step (h : AnswersInv s) (ev : CacheEvent) : AnswersInv (cacheStep srv s ev) := by
  cases ev with
  | getParameter i q sk =>
    simp only [cacheStep, CachingClient.getParameter]
    split
    · exact h.setReader i (fun _ _ _ _ heq => by cases heq)
    · exact h
  | fetchParameter i q sk =>
    simp only [cacheStep, CachingClient.fetchParameter]
    split
    · exact h.setReader i (fun _ _ _ _ heq => by cases heq)
    · exact h
  | answer i =>
    simp only [cacheStep, CachingClient.answer]
    split
    · next q sk _ =>
      split
      · next v hv =>
        refine h.setReader i (fun q' sk' v' pos heq hcur => ?_)
        cases heq
        rw [srv.get_current _ _ _ hcur] at hv
        exact ⟨le_rfl, hv⟩
      · exact h.setReader i (fun _ _ _ _ heq => by cases heq)
    · exact h
  | fill i order =>
    simp only [cacheStep, CachingClient.fill]
    split
    · refine AnswersInv.setReader ?_ i (fun _ _ _ _ heq => by cases heq)
      exact h.congr List.prefix_rfl rfl
    · exact h
  | putParameter q | tick => exact h.congr List.prefix_rfl rfl
  | watch ev =>
    simp only [cacheStep, CachingClient.watch]
    split
    · exact h.congr (log_watchStep s.manager ev) rfl
    · split
      · exact h.congr List.prefix_rfl rfl
      · exact h.congr (log_watchStep s.manager ev) rfl

theorem CacheInv.cached (h : CacheInv r p s) {sk : SubKey} {v : String}
    (hcur : sk.isCurrent = true) (hv : s.cached p sk = some v) :
    HeldSince s.manager.log r p v := by
  obtain ⟨c, hc, hget⟩ := Option.bind_eq_some_iff.mp hv
  obtain ⟨row, hrow, hval⟩ := Option.bind_eq_some_iff.mp hget
  have hkey := Table.key_of_get hrow
  split at hval
  · cases hval
  · cases hval
    refine h c hc row (Table.mem_of_get hrow) ?_ ?_
    · rw [hkey]
    · rw [hkey]
      exact hcur

end Steps

/-! ## 主定理 -/

/--
cache は watch より古くならない。

stream の goroutine が event で `p` の値を変え、その項を捨てる所 (`pre`) から後で、revision `r` より前に答えられた
読み出しを `p` の項にすることが無ければ、その後のどの時点でも、cache から返る `p` の値は、revision `r` 以後に `p` が持った
値である。`r` には、その event の revision を取れる。
-/
theorem cache_not_staler_than_watch {srv : ParamServer} {ttl : Nat} {pre post : List CacheEvent}
    {r : Nat} {p : Ref}
    (hdirty : (run (cacheStep srv) (newCachingClient ttl) pre).dirty .stream = some p)
    (hfill : AlongSteps (cacheStep srv) (FillsSince r p)
      (run (cacheStep srv) (newCachingClient ttl) (pre ++ [.watch .stream])) post)
    {s : CachingClient}
    (hs : s = run (cacheStep srv) (newCachingClient ttl) (pre ++ [.watch .stream] ++ post)) :
    ∀ sk v, sk.isCurrent = true → s.cached p sk = some v → HeldSince s.manager.log r p v := by
  have hpre :
      AnswersInv (run (cacheStep srv) (newCachingClient ttl) (pre ++ [.watch .stream])) := by
    refine run_invariant (I := AnswersInv) (fun _ ev hi => answersInv_step hi ev) ?_ _
    intro i p sk v pos heq
    cases heq
  -- 捨てた直後の cache に `p` の項は無い
  have hstart : CacheInv r p
      (run (cacheStep srv) (newCachingClient ttl) (pre ++ [.watch .stream])) := by
    rw [run_append]
    show CacheInv r p ((run (cacheStep srv) (newCachingClient ttl) pre).watch .stream)
    simp only [CachingClient.watch, WatchEvent.thread, hdirty]
    exact CacheInv.congr
      (CacheInv.invalidated (run (cacheStep srv) (newCachingClient ttl) pre)) List.prefix_rfl rfl
  have hend : AnswersInv s ∧ CacheInv r p s := by
    rw [hs, run_append]
    exact run_steps_invariant (I := fun s => AnswersInv s ∧ CacheInv r p s)
      (fun _ ev hq hi => ⟨answersInv_step hi.1 ev, cacheInv_step hi.2 hi.1 hq⟩)
      ⟨hpre, hstart⟩ hfill
  intro sk v hcur hv
  exact hend.2.cached hcur hv

section Sample

private def sampleCacheParam : Ref := ⟨⟨"prod", "billing"⟩, "limit"⟩

private def sampleCacheKey : SubKey := ⟨0, ""⟩

private def sampleServer : ParamServer where
  get := fun log p sk => if sk.isCurrent then current log p else none
  get_current := fun _ _ _ h => if_pos h

/-- 値 "1" の snapshot を処理し終える。 -/
private def sampleCacheStart : List CacheEvent :=
  [.watch (.commit (.parameter sampleCacheParam (some "1"))),
    .watch (.registerWatcher sampleCacheParam.ns), .watch .subscribe, .watch (.answer false),
    .watch .receive] ++ List.replicate 5 (.watch .stream)

/-- 値 "2" の event で項を捨てる所まで。 -/
private def sampleCacheChange : List CacheEvent :=
  [.watch (.commit (.parameter sampleCacheParam (some "2"))), .watch .receive, .watch .stream]

theorem cache_not_staler_than_watch_sample :
    (run (cacheStep sampleServer) (newCachingClient 60)
      (sampleCacheStart ++
        [.getParameter 0 sampleCacheParam sampleCacheKey, .answer 0, .fill 0 []] ++
        sampleCacheChange)).cached sampleCacheParam sampleCacheKey = some "1" ∧
      ∀ sk v, sk.isCurrent = true →
        (run (cacheStep sampleServer) (newCachingClient 60)
          ((sampleCacheStart ++ [.getParameter 0 sampleCacheParam sampleCacheKey, .answer 0,
            .fill 0 []] ++ sampleCacheChange) ++ [.watch .stream] ++
            [.watch .stream, .getParameter 1 sampleCacheParam sampleCacheKey, .answer 1,
              .fill 1 []])).cached sampleCacheParam sk = some v →
        HeldSince (run (cacheStep sampleServer) (newCachingClient 60)
          ((sampleCacheStart ++ [.getParameter 0 sampleCacheParam sampleCacheKey, .answer 0,
            .fill 0 []] ++ sampleCacheChange) ++ [.watch .stream] ++
            [.watch .stream, .getParameter 1 sampleCacheParam sampleCacheKey, .answer 1,
              .fill 1 []])).manager.log 2 sampleCacheParam v :=
  ⟨by decide, cache_not_staler_than_watch (by decide) (by decide) rfl⟩

/-- "1" と答えられた読み出しが、"2" の event の処理が終わってから cache に入る。 -/
private def sampleOvertaken : List CacheEvent :=
  sampleCacheStart ++ [.getParameter 0 sampleCacheParam sampleCacheKey, .answer 0] ++
    sampleCacheChange ++ List.replicate 3 (.watch .stream) ++ [.fill 0 []]

/-- "2" が cache に入った後で "1" に戻り、張り直した stream の snapshot は変わったと見られない。 -/
private def sampleRestored : List CacheEvent :=
  sampleCacheStart ++ [.watch (.commit (.parameter sampleCacheParam (some "2"))),
    .getParameter 0 sampleCacheParam sampleCacheKey, .answer 0, .fill 0 [],
    .watch (.commit (.parameter sampleCacheParam (some "1"))), .watch .disconnect,
    .watch .subscribe, .watch (.answer true), .watch .receive] ++ List.replicate 3 (.watch .stream)

/--
event の処理が終わった後でも、cache は古い値を返し得る。追い越された読み出しの値が後から入る時と、途中の値が cache に
あって、event の値が manager の知っている値と同じ時である。
-/
theorem cache_fill_after_invalidation_is_stale :
    ((run (cacheStep sampleServer) (newCachingClient 60) sampleOvertaken).manager.handling = .idle ∧
      (run (cacheStep sampleServer) (newCachingClient 60) sampleOvertaken).manager.lastRev = 2 ∧
      (run (cacheStep sampleServer) (newCachingClient 60) sampleOvertaken).cached sampleCacheParam
        sampleCacheKey = some "1" ∧
      ¬ HeldSince (run (cacheStep sampleServer) (newCachingClient 60) sampleOvertaken).manager.log 2
        sampleCacheParam "1") ∧
    (run (cacheStep sampleServer) (newCachingClient 60) sampleRestored).manager.handling = .idle ∧
      (run (cacheStep sampleServer) (newCachingClient 60) sampleRestored).manager.lastRev = 3 ∧
      (run (cacheStep sampleServer) (newCachingClient 60) sampleRestored).cached sampleCacheParam
        sampleCacheKey = some "2" ∧
      ¬ HeldSince (run (cacheStep sampleServer) (newCachingClient 60) sampleRestored).manager.log 3
        sampleCacheParam "2" := by
  refine ⟨⟨by decide, by decide, by decide, ?_⟩, by decide, by decide, by decide, ?_⟩
  · rintro ⟨t, hr, hle, hval⟩
    have hlog : ∀ t ≤ 2, 2 ≤ t → valueAt (run (cacheStep sampleServer) (newCachingClient 60)
        sampleOvertaken).manager.log t sampleCacheParam ≠ some "1" := by decide
    exact hlog t hle hr hval
  · rintro ⟨t, hr, hle, hval⟩
    have hlog : ∀ t ≤ 3, 3 ≤ t → valueAt (run (cacheStep sampleServer) (newCachingClient 60)
        sampleRestored).manager.log t sampleCacheParam ≠ some "2" := by decide
    exact hlog t hle hr hval

end Sample

end Kms.Client
