import Kms.Infra.Allowance
import Kms.Infra.Table

/-!
# key ごとの token bucket

`ratelimit.Limiter`。key ごとの bucket は、一秒に `rate` ずつ `burst` まで戻る。bucket の数には上限があり、上限に達すると、
戻り切った bucket を掃いてから新しい bucket を作る。token は有理数、時刻は秒で表す。

* `available` — 掃かれていても、その時刻に使える token
* `Spends` — limiter の操作が、ある key の token を使うこと
* `Metered.bound` — どの窓の中でも、使った量は `burst + rate * t` を超えない
* `available_sweep` — 戻り切った bucket を掃いても、使える token は変わらない
-/

namespace Kms.Core

open Kms.Infra

structure Bucket where
  key : String
  tokens : ℚ
  last : ℚ

structure Limiter where
  buckets : Table Bucket.key
  rate : ℚ
  burst : ℚ
  maxBuckets : Nat

namespace Limiter

def defaultMaxBuckets : Nat := 65536

def new (perMinute burst : ℚ) : Limiter := ⟨.empty, perMinute / 60, burst, defaultMaxBuckets⟩

def refill (l : Limiter) (b : Bucket) (now : ℚ) : Bucket :=
  let elapsed := now - b.last
  if elapsed ≤ 0 then b
  else { b with tokens := min l.burst (b.tokens + elapsed * l.rate), last := now }

def idle (l : Limiter) (now : ℚ) (b : Bucket) : Bool :=
  decide (l.burst ≤ b.tokens + (now - b.last) * l.rate)

/-- `sweep`。戻り切った bucket を掃く。 -/
def sweep (l : Limiter) (now : ℚ) : Limiter :=
  { l with buckets := l.buckets.deleteWhere (l.idle now) }

def put (l : Limiter) (b : Bucket) : Limiter := { l with buckets := l.buckets.upsert b }

/-- `lookup`。新しい bucket の入る場所が無ければ `none` で、そのとき掃けた bucket は無い。 -/
def lookup (l : Limiter) (now : ℚ) (key : String) : Option (Limiter × Bucket) :=
  match l.buckets.get key with
  | some b => some (l.put (l.refill b now), l.refill b now)
  | none =>
    let b : Bucket := ⟨key, l.burst, now⟩
    if l.buckets.rows.length < l.maxBuckets then some (l.put b, b)
    else if (l.sweep now).buckets.rows.length < l.buckets.rows.length then
      some ((l.sweep now).put b, b)
    else none

/-- `Take`。`n` 個を使えるだけあれば使い、無ければ何も使わない。 -/
def take (l : Limiter) (now : ℚ) (key : String) (n : ℚ) : Bool × Limiter :=
  if n ≤ 0 then (true, l)
  else
    match l.lookup now key with
    | none => (false, l)
    | some (l, b) =>
      if n ≤ b.tokens then (true, l.put { b with tokens := b.tokens - n }) else (false, l)

def allow (l : Limiter) (now : ℚ) (key : String) : Bool × Limiter := l.take now key 1

def drain (l : Limiter) (now : ℚ) (key : String) : Limiter :=
  match l.lookup now key with
  | none => l
  | some (l, b) => l.put { b with tokens := 0 }

def available (l : Limiter) (key : String) (now : ℚ) : ℚ :=
  ((l.buckets.get key).map fun b => min l.burst (b.tokens + (now - b.last) * l.rate)).getD l.burst

/-- limiter の不変条件。 -/
structure Inv (l : Limiter) (now : ℚ) : Prop where
  rate : 0 ≤ l.rate
  burst : 0 ≤ l.burst
  size : l.buckets.rows.length ≤ l.maxBuckets
  bucket : ∀ b ∈ l.buckets, 0 ≤ b.tokens ∧ b.tokens ≤ l.burst ∧ b.last ≤ now

variable {l l' : Limiter} {now now' : ℚ} {key : String}

theorem Inv.elapse (h : l.Inv now) (hnow : now ≤ now') : l.Inv now' :=
  ⟨h.rate, h.burst, h.size, fun b hb =>
    ⟨(h.bucket b hb).1, (h.bucket b hb).2.1, (h.bucket b hb).2.2.trans hnow⟩⟩

theorem available_none (h : l.buckets.get key = none) : l.available key now = l.burst := by
  rw [available, h]
  rfl

theorem available_some {b : Bucket} (h : l.buckets.get key = some b) :
    l.available key now = min l.burst (b.tokens + (now - b.last) * l.rate) := by
  rw [available, h]
  rfl

theorem available_le (key : String) : l.available key now ≤ l.burst := by
  cases hb : l.buckets.get key with
  | none => rw [available_none hb]
  | some b => rw [available_some hb]; exact min_le_left ..

theorem available_nonneg (h : l.Inv now) (key : String) : 0 ≤ l.available key now := by
  cases hb : l.buckets.get key with
  | none => rw [available_none hb]; exact h.burst
  | some b =>
    obtain ⟨htokens, -, hlast⟩ := h.bucket b (Table.mem_of_get hb)
    rw [available_some hb]
    exact le_min h.burst (add_nonneg htokens (mul_nonneg (sub_nonneg.mpr hlast) h.rate))

theorem available_elapse (h : l.Inv now) (hnow : now ≤ now') (key : String) :
    l.available key now' ≤ l.available key now + l.rate * (now' - now) := by
  have hgrow := mul_nonneg h.rate (sub_nonneg.mpr hnow)
  cases hb : l.buckets.get key with
  | none => rw [available_none hb, available_none hb]; linarith
  | some b =>
    rw [available_some hb, available_some hb, min_add]
    refine le_min (le_trans (min_le_left ..) (by linarith)) (le_trans (min_le_right ..) ?_)
    linarith [sub_mul now' b.last l.rate, sub_mul now b.last l.rate, mul_sub l.rate now' now]

theorem available_sweep (h : l.Inv now) (hnow : now ≤ now') (key : String) :
    (l.sweep now).available key now' = l.available key now' := by
  have hget : (l.sweep now).buckets.get key
      = (l.buckets.get key).filter (fun b => !l.idle now b) := Table.get_deleteWhere
  cases hb : l.buckets.get key with
  | none =>
    rw [hb] at hget
    rw [available_none hget, available_none hb]
    rfl
  | some b =>
    by_cases hidle : l.idle now b = true
    · have hfull := of_decide_eq_true hidle
      have hmore := mul_le_mul_of_nonneg_right (sub_le_sub_right hnow b.last) h.rate
      rw [hb, Option.filter_some, hidle] at hget
      rw [available_none hget, available_some hb, min_eq_left (by linarith)]
      rfl
    · rw [hb, Option.filter_some, Bool.eq_false_iff.mpr hidle] at hget
      rw [available_some hget, available_some hb]
      rfl

theorem sweep_length (l : Limiter) (now : ℚ) :
    (l.sweep now).buckets.rows.length ≤ l.buckets.rows.length :=
  List.length_filter_le ..

structure Spends (l l' : Limiter) (now : ℚ) (key : String) (n : ℚ) : Prop where
  inv : l'.Inv now
  rate : l'.rate = l.rate
  burst : l'.burst = l.burst
  maxBuckets : l'.maxBuckets = l.maxBuckets
  available : ∀ k, l'.available k now + (if k = key then n else 0) ≤ l.available k now

theorem Spends.refl (h : l.Inv now) : l.Spends l now key 0 := ⟨h, rfl, rfl, rfl, by simp⟩

theorem sweep_spends (h : l.Inv now) : l.Spends (l.sweep now) now key 0 where
  inv := ⟨h.rate, h.burst, (sweep_length l now).trans h.size,
    fun b hb => h.bucket b (Table.mem_deleteWhere.mp hb).1⟩
  rate := rfl
  burst := rfl
  maxBuckets := rfl
  available := fun k => by simp [available_sweep h le_rfl k]

theorem put_length {b : Bucket} : (l.put b).buckets.rows.length ≤
    if (l.buckets.get b.key).isSome then l.buckets.rows.length else l.buckets.rows.length + 1 := by
  obtain ⟨t, ht, heq⟩ := Table.upsert_insert? l.buckets b
  have hrows := (Table.insert?_eq_some_iff.mp ht).2
  rw [put, heq, hrows, List.length_append, List.length_singleton]
  cases hget : l.buckets.get b.key with
  | none => exact Nat.succ_le_succ (List.length_filter_le ..)
  | some x =>
    have hlt : (l.buckets.rows.filter (fun y => !decide (y.key = b.key))).length
        < l.buckets.rows.length :=
      List.length_filter_lt_length_iff_exists.mpr
        ⟨x, Table.mem_of_get hget, by simp [Table.key_of_get hget]⟩
    exact hlt

theorem available_put {b : Bucket} (hlast : b.last = now) (hle : b.tokens ≤ l.burst) (k : String) :
    (l.put b).available k now = if b.key = k then b.tokens else l.available k now := by
  have hget : (l.put b).buckets.get k = if b.key = k then some b else l.buckets.get k :=
    Table.get_upsert k
  by_cases hk : b.key = k
  · rw [if_pos hk] at hget ⊢
    rw [available_some hget, hlast, sub_self, zero_mul, add_zero]
    exact min_eq_right hle
  · rw [if_neg hk] at hget ⊢
    unfold available
    rw [hget]
    rfl

theorem put_spends (h : l.Inv now) {b : Bucket} {n : ℚ} (hlast : b.last = now)
    (hnonneg : 0 ≤ b.tokens) (hle : b.tokens ≤ l.burst) (hn : b.tokens + n ≤ l.available b.key now)
    (hsize : (l.buckets.get b.key).isSome ∨ l.buckets.rows.length < l.maxBuckets) :
    l.Spends (l.put b) now b.key n where
  inv := by
    refine ⟨h.rate, h.burst, ?_, ?_⟩
    · have := put_length (l := l) (b := b)
      rcases hsize with hsome | hroom
      · rw [if_pos hsome] at this
        exact this.trans h.size
      · refine this.trans ?_
        by_cases hsome : (l.buckets.get b.key).isSome = true
        · rw [if_pos hsome]
          exact h.size
        · rw [if_neg hsome]
          exact hroom
    · intro x hx
      rcases Table.mem_upsert.mp hx with rfl | ⟨hx, -⟩
      · exact ⟨hnonneg, hle, hlast.le⟩
      · exact h.bucket x hx
  rate := rfl
  burst := rfl
  maxBuckets := rfl
  available := fun k => by
    rw [available_put hlast hle]
    by_cases hk : b.key = k
    · subst hk
      simpa using hn
    · rw [if_neg hk, if_neg (Ne.symm hk), add_zero]

theorem Spends.trans {l'' : Limiter} {n m : ℚ} (h : l.Spends l' now key n)
    (h' : l'.Spends l'' now key m) : l.Spends l'' now key (n + m) where
  inv := h'.inv
  rate := h'.rate.trans h.rate
  burst := h'.burst.trans h.burst
  maxBuckets := h'.maxBuckets.trans h.maxBuckets
  available := fun k => by
    have h1 := h.available k
    have h2 := h'.available k
    by_cases hk : k = key
    · rw [if_pos hk] at h1 h2 ⊢
      linarith
    · rw [if_neg hk] at h1 h2 ⊢
      linarith

theorem lookup_spends (h : l.Inv now) {b : Bucket} (hl : l.lookup now key = some (l', b)) :
    l.Spends l' now key 0 ∧ b.key = key ∧ b.last = now ∧ b.tokens = l.available key now ∧
      l'.buckets.get key = some b := by
  unfold lookup at hl
  cases hget : l.buckets.get key with
  | some x =>
    rw [hget] at hl
    cases hl
    obtain ⟨hnonneg, hle, hlast⟩ := h.bucket x (Table.mem_of_get hget)
    have hkey : x.key = key := Table.key_of_get hget
    have hrefill : (l.refill x now).key = key ∧ (l.refill x now).last = now ∧
        (l.refill x now).tokens = l.available key now := by
      rw [available_some hget]
      unfold refill
      by_cases helapsed : now - x.last ≤ 0
      · have heq : x.last = now := le_antisymm hlast (by linarith)
        rw [if_pos helapsed]
        exact ⟨hkey, heq, by rw [heq, sub_self, zero_mul, add_zero, min_eq_right hle]⟩
      · rw [if_neg helapsed]
        exact ⟨hkey, rfl, rfl⟩
    obtain ⟨hk, hl, ht⟩ := hrefill
    refine ⟨?_, hk, hl, ht, by rw [put, Table.get_upsert, if_pos hk]⟩
    have := put_spends h hl (n := 0) (by rw [ht]; exact available_nonneg h key)
      (by rw [ht]; exact available_le key) (by rw [hk, ht, add_zero]) (.inl (by rw [hk, hget]; rfl))
    rwa [hk] at this
  | none =>
    simp only [hget] at hl
    have havail : l.available key now = l.burst := available_none hget
    have hput : ∀ {m : Limiter}, l.Spends m now key 0 → m.buckets.get key = none →
        m.buckets.rows.length < m.maxBuckets →
        l.Spends (m.put ⟨key, l.burst, now⟩) now key 0 ∧
          (m.put ⟨key, l.burst, now⟩).buckets.get key = some ⟨key, l.burst, now⟩ := by
      intro m hm hnone hroom
      have hfull : m.available key now = l.burst := (available_none hnone).trans hm.burst
      refine ⟨?_, by rw [put, Table.get_upsert, if_pos rfl]⟩
      have := hm.trans
        (put_spends hm.inv (b := ⟨key, l.burst, now⟩) (n := 0) rfl h.burst hm.burst.ge
        (by rw [add_zero]; exact hfull.ge) (.inr hroom))
      rwa [add_zero] at this
    split at hl
    · next hroom =>
      cases hl
      exact ⟨(hput (.refl h) hget hroom).1, rfl, rfl, havail.symm, (hput (.refl h) hget hroom).2⟩
    · split at hl
      · next hswept =>
        cases hl
        have hnone : (l.sweep now).buckets.get key = none := by
          rw [sweep, Table.get_deleteWhere, hget]
          rfl
        have hroom : (l.sweep now).buckets.rows.length < (l.sweep now).maxBuckets :=
          lt_of_lt_of_le hswept h.size
        have := hput (sweep_spends h) hnone hroom
        exact ⟨this.1, rfl, rfl, havail.symm, this.2⟩
      · cases hl

/-- `Take` は、通ったときだけ `n` 個を使う。 -/
theorem take_spends (h : l.Inv now) {n : ℚ} (hn : 0 < n) {ok : Bool}
    (ht : l.take now key n = (ok, l')) : l.Spends l' now key (if ok then n else 0) := by
  unfold take at ht
  rw [if_neg (not_le.mpr hn)] at ht
  cases hl : l.lookup now key with
  | none =>
    rw [hl] at ht
    cases ht
    exact .refl h
  | some p =>
    obtain ⟨m, b⟩ := p
    rw [hl] at ht
    obtain ⟨hm, rfl, hlast, htokens, hget⟩ := lookup_spends h hl
    dsimp only at ht
    split at ht
    · next henough =>
      cases ht
      have hb : b.tokens ≤ m.burst := by rw [htokens, hm.burst]; exact available_le b.key
      have havail : m.available b.key now = b.tokens := by
        rw [available_some hget, hlast, sub_self, zero_mul, add_zero, min_eq_right hb]
      have := hm.trans (put_spends hm.inv (b := { b with tokens := b.tokens - n }) (n := n) hlast
        (by simpa using henough) (by simp only; linarith) (by simp [havail])
        (.inl (by rw [hget]; rfl)))
      rwa [zero_add] at this
    · cases ht
      exact hm

theorem drain_spends (h : l.Inv now) : l.Spends (l.drain now key) now key 0 := by
  unfold drain
  cases hl : l.lookup now key with
  | none => exact .refl h
  | some p =>
    obtain ⟨m, b⟩ := p
    obtain ⟨hm, rfl, hlast, -, hget⟩ := lookup_spends h hl
    have := hm.trans (put_spends hm.inv (b := { b with tokens := 0 }) (n := 0) hlast le_rfl
      hm.inv.burst (by simpa using available_nonneg hm.inv b.key) (.inl (by rw [hget]; rfl)))
    rwa [add_zero] at this

/-- key ごとに、どの窓の中で使った量も、残りの token と合わせて収まる。`used k a t` は、窓 `[a, a + t]` の中で `k` が使った
量である。 -/
structure Metered (l : Limiter) (now : ℚ) (used : String → ℚ → ℚ → ℚ) : Prop where
  inv : l.Inv now
  window : ∀ k a t, 0 ≤ t → Allowed l.burst l.rate a t now (used k a t) (l.available k now)

variable {used used' : String → ℚ → ℚ → ℚ}

theorem Metered.elapse (h : l.Metered now used) (hnow : now ≤ now') : l.Metered now' used where
  inv := h.inv.elapse hnow
  window := fun k a t ht => (h.window k a t ht).elapse h.inv.rate hnow (available_nonneg h.inv k)
    (available_le k) h.inv.burst ht (available_elapse h.inv hnow k)

theorem Metered.spend (h : l.Metered now used) {n : ℚ} (hs : l.Spends l' now key n)
    (hused : ∀ k a t, used' k a t =
      used k a t + if k = key ∧ a ≤ now ∧ now ≤ a + t then n else 0) : l'.Metered now used' where
  inv := hs.inv
  window := fun k a t ht => by
    have := (h.window k a t ht).spend (hs.available k)
    rw [hused, hs.burst, hs.rate]
    by_cases hk : k = key
    all_goals simpa [hk] using this

theorem Metered.bound (h : l.Metered now used) (key : String) {a t : ℚ} (ht : 0 ≤ t) :
    used key a t ≤ l.burst + l.rate * t :=
  (h.window key a t ht).bound h.inv.rate (available_nonneg h.inv key) h.inv.burst ht

end Limiter

end Kms.Core
