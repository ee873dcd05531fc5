import Mathlib.Algebra.Order.BigOperators.Group.List
import Kms.Core.RateLimit
import Kms.Infra.Run

/-!
# HTTP の認証の前の limiter

`serveAPI` と `handleLogin` は、credential を調べる前に IP ごとの limiter から一つ引く。credential のある要求と無い要求は
別の limiter を使い、認証に成功した API の要求は引いた一つを戻す。認証の間に、他の要求が割り込む。

* `Limiter.refund_spends` — 戻すのは高々一つである
* `Server.Inv` — 引いて戻さない量は、どの窓でも収まる
* `failed_authentications_bounded` — 窓の中で受け付けて失敗した認証の数の上界
-/

namespace Kms.Core

open Kms.Infra

/-- `Refund`。掃かれた bucket には戻さない。 -/
def Limiter.refund (l : Limiter) (now : ℚ) (key : String) : Limiter :=
  match l.buckets.get key with
  | none => l
  | some b => l.put { l.refill b now with tokens := min l.burst ((l.refill b now).tokens + 1) }

theorem Limiter.refund_spends {l : Limiter} {now : ℚ} {key : String} (h : l.Inv now) :
    l.Spends (l.refund now key) now key (-1) := by
  unfold refund
  cases hget : l.buckets.get key with
  | none =>
    refine ⟨h, rfl, rfl, rfl, fun k => ?_⟩
    show l.available k now + (if k = key then -1 else 0) ≤ _
    split <;> linarith
  | some b =>
    have hlookup : l.lookup now key = some (l.put (l.refill b now), l.refill b now) := by
      rw [lookup, hget]
    obtain ⟨-, hkey, hlast, htokens, -⟩ := lookup_spends h hlookup
    have hnonneg := available_nonneg h key
    have hput := put_spends h (n := -1)
      (b := { l.refill b now with tokens := min l.burst ((l.refill b now).tokens + 1) }) hlast
      (le_min h.burst (by linarith)) (min_le_left ..)
      (by rw [hkey, ← htokens]; linarith [min_le_right l.burst ((l.refill b now).tokens + 1)])
      (.inl (by rw [hkey, hget]; rfl))
    rwa [hkey] at hput

namespace Admission

/-! ## 要求 -/

/-- credential のある要求は `loginLimiter`、無い要求は `credentiallessLimiter` から引く。 -/
inductive AdmissionClass where
  | credential
  | credentialless
  deriving DecidableEq

def AdmissionClass.limiter : AdmissionClass → Limiter
  | .credential => .new 5 10
  | .credentialless => .new 30 30

/-- 受け付けた要求の進み。`handleLogin` は、成功しても戻さない。 -/
inductive Phase where
  | verifying
  | failed
  | refunded (now : ℚ)
  | kept
  deriving DecidableEq

structure Attempt where
  ip : String
  cls : AdmissionClass
  login : Bool
  admittedAt : ℚ
  phase : Phase

structure Server where
  clock : ℚ
  limiters : AdmissionClass → Limiter
  attempts : List Attempt

inductive Event where
  | tick (now : ℚ)
  | serveAPI (ip : String) (credentialPresented : Bool)
  /-- `token` が無いか body が読めなければ、調べるものは無い。 -/
  | handleLogin (ip : String) (token : Bool)
  /-- `ResolvePrincipal` が返る。 -/
  | resolved (i : Nat) (ok : Bool)

namespace Server

def new (clock : ℚ) : Server := ⟨clock, AdmissionClass.limiter, []⟩

/-- limiter から一つ引く。引けなければ 429 を返す。 -/
def reserve (s : Server) (ip : String) (c : AdmissionClass) (login : Bool) (phase : Phase) :
    Server :=
  match (s.limiters c).allow s.clock ip with
  | (true, l) =>
    { s with
      limiters := Function.update s.limiters c l
      attempts := s.attempts ++ [⟨ip, c, login, s.clock, phase⟩] }
  | (false, l) => { s with limiters := Function.update s.limiters c l }

def step (s : Server) : Event → Server
  | .tick now => { s with clock := max s.clock now }
  | .serveAPI ip presented =>
    s.reserve ip (if presented then .credential else .credentialless) false .verifying
  | .handleLogin ip true => s.reserve ip .credential true .verifying
  | .handleLogin ip false => s.reserve ip .credentialless true .failed
  | .resolved i ok =>
    match s.attempts[i]? with
    | some x =>
      if x.phase ≠ .verifying then s
      else if ok = true ∧ x.login = false then
        { s with
          limiters := Function.update s.limiters x.cls
            ((s.limiters x.cls).refund s.clock x.ip)
          attempts := s.attempts.set i { x with phase := .refunded s.clock } }
      else
        { s with
          attempts := s.attempts.set i { x with phase := if ok then .kept else .failed } }
    | none => s

/-! ## 窓の中で引いた数 -/

def inWindow (a t x : ℚ) : ℚ := if a ≤ x ∧ x ≤ a + t then 1 else 0

/-- 窓の中で引いた数から、戻した数を除いたもの。 -/
def spent (c : AdmissionClass) (ip : String) (a t : ℚ) (x : Attempt) : ℚ :=
  if c = x.cls ∧ ip = x.ip then
    inWindow a t x.admittedAt - match x.phase with
      | .refunded now => inWindow a t now
      | _ => 0
  else 0

/-- 窓の中で受け付け、失敗した認証。 -/
def failure (c : AdmissionClass) (ip : String) (a t : ℚ) (x : Attempt) : ℚ :=
  if c = x.cls ∧ ip = x.ip ∧ x.phase = .failed then inWindow a t x.admittedAt else 0

/-- 窓の中で戻した、窓の外で受け付けた認証。 -/
def carried (c : AdmissionClass) (ip : String) (a t : ℚ) (x : Attempt) : ℚ :=
  match x.phase with
  | .refunded now =>
    if c = x.cls ∧ ip = x.ip ∧ inWindow a t x.admittedAt = 0 then inWindow a t now else 0
  | _ => 0

def total (s : Server) (f : Attempt → ℚ) : ℚ := (s.attempts.map f).sum

structure Inv (s : Server) : Prop where
  metered : ∀ c, (s.limiters c).Metered s.clock (fun ip a t => s.total (spent c ip a t))
  config : ∀ c, (s.limiters c).rate = c.limiter.rate ∧ (s.limiters c).burst = c.limiter.burst

variable {s : Server}

theorem inv_new (clock : ℚ) : Inv (new clock) := by
  refine ⟨fun c => ?_, fun c => ⟨rfl, rfl⟩⟩
  have hpos : 0 ≤ c.limiter.rate ∧ 0 ≤ c.limiter.burst := by
    cases c <;> norm_num [AdmissionClass.limiter, Limiter.new]
  have hempty : c.limiter.buckets = .empty := by cases c <;> rfl
  refine ⟨⟨hpos.1, hpos.2, ?_, fun b hb => ?_⟩, fun k a t ht =>
    Allowed.start hpos.1 ht hpos.2 (Limiter.available_le k)⟩
  · exact (congrArg (·.rows.length) hempty).trans_le (Nat.zero_le _)
  · exact absurd (hempty ▸ hb) (Table.not_mem_empty b)

/-- limiter の一つから `n` を引き、要求の列を替える一歩。 -/
theorem Inv.move (h : Inv s) {c : AdmissionClass} {l : Limiter} {ip : String} {n : ℚ}
    {attempts : List Attempt} (hs : (s.limiters c).Spends l s.clock ip n)
    (hspent : ∀ c' k a t, (attempts.map (spent c' k a t)).sum = s.total (spent c' k a t) +
      if c' = c ∧ k = ip ∧ a ≤ s.clock ∧ s.clock ≤ a + t then n else 0) :
    Inv ⟨s.clock, Function.update s.limiters c l, attempts⟩ := by
  refine ⟨fun c' => ?_, fun c' => ?_⟩ <;> by_cases hc : c' = c
  · subst hc
    simpa using (h.metered c').spend hs (fun k a t => by simpa [total] using hspent c' k a t)
  · simpa [total, hspent, hc] using h.metered c'
  · subst hc
    simpa [hs.rate, hs.burst] using h.config c'
  · simpa [hc] using h.config c'

theorem Inv.reserve (h : Inv s) (ip : String) (c : AdmissionClass) (login : Bool) {phase : Phase}
    (hphase : phase = .verifying ∨ phase = .failed) : Inv (s.reserve ip c login phase) := by
  unfold Server.reserve
  cases htake : (s.limiters c).allow s.clock ip with
  | mk ok l =>
    have hspends := Limiter.take_spends (h.metered c).inv (by norm_num) htake
    cases ok with
    | true =>
      refine h.move hspends (fun c' k a t => ?_)
      have hnew : spent c' k a t ⟨ip, c, login, s.clock, phase⟩ =
          if c' = c ∧ k = ip ∧ a ≤ s.clock ∧ s.clock ≤ a + t then 1 else 0 := by
        rcases hphase with rfl | rfl <;> simp [spent, inWindow, ← and_assoc, ite_and]
      simp [total, hnew]
    | false => exact h.move hspends (fun c' k a t => by simp [total])

/-- 調べ終えた要求の進みを替える一歩。 -/
theorem Inv.resolve (h : Inv s) {i : Nat} {x : Attempt} (hx : s.attempts[i]? = some x)
    {l : Limiter} {n : ℚ} (phase : Phase) (hs : (s.limiters x.cls).Spends l s.clock x.ip n)
    (hspent : ∀ c k a t, spent c k a t { x with phase } = spent c k a t x +
      if c = x.cls ∧ k = x.ip ∧ a ≤ s.clock ∧ s.clock ≤ a + t then n else 0) :
    Inv ⟨s.clock, Function.update s.limiters x.cls l, s.attempts.set i { x with phase }⟩ := by
  obtain ⟨hi, hget⟩ := List.getElem?_eq_some_iff.mp hx
  refine h.move hs (fun c k a t => ?_)
  rw [List.map_set, List.sum_set', dif_pos (by simpa using hi), List.getElem_map, hget, hspent,
    neg_add_cancel_left]
  rfl

theorem inv_step (h : Inv s) (e : Event) : Inv (s.step e) := by
  cases e with
  | tick now => exact ⟨fun c => (h.metered c).elapse (le_max_left ..), h.config⟩
  | serveAPI ip presented => exact h.reserve ip _ _ (by simp)
  | handleLogin ip token => cases token <;> exact h.reserve ip _ _ (by simp)
  | resolved i ok =>
    simp only [step]
    split
    · next x hx =>
      split
      · exact h
      · next hv =>
        have hv : x.phase = .verifying := not_not.mp hv
        split
        · refine h.resolve hx _ (Limiter.refund_spends (h.metered x.cls).inv) (fun c k a t => ?_)
          by_cases hk : c = x.cls ∧ k = x.ip
          · simp only [spent, hv, hk, inWindow, and_self, true_and, if_true]
            split_ifs <;> norm_num
          · simp [spent, hk, ← and_assoc]
        · -- 戻さない要求では、引いた数は変わらない
          have hsame := h.resolve hx (if ok then .kept else .failed)
            (.refl (h.metered x.cls).inv) (fun c k a t => by cases ok <;> simp [spent, hv])
          rwa [Function.update_eq_self] at hsame
    · exact h

/-- **窓の中で受け付けて失敗した認証は、limiter の量と、窓の外で受け付けて窓の中で戻した数の和を超えない。** -/
theorem failed_authentications_bounded (clock : ℚ) (es : List Event) (c : AdmissionClass)
    (ip : String) (a : ℚ) (t : ℚ≥0) :
    let s := run step (new clock) es
    s.total (failure c ip a t) ≤
      c.limiter.burst + c.limiter.rate * t + s.total (carried c ip a t) := by
  intro s
  have h : Inv s := run_invariant (I := Inv) (fun _ e h => inv_step h e) (inv_new clock) es
  have hbound := (h.metered c).bound ip (a := a) t.coe_nonneg
  rw [(h.config c).1, (h.config c).2] at hbound
  -- 要求ごとに比べて足す
  have hone : ∀ x ∈ s.attempts, failure c ip a t x ≤ spent c ip a t x + carried c ip a t x := by
    intro x _
    cases hp : x.phase <;> simp only [failure, spent, carried, hp, inWindow] <;> split_ifs <;>
      simp_all
  have hsum := List.sum_le_sum hone
  rw [List.sum_map_add] at hsum
  unfold total at hbound ⊢
  linarith

end Server

end Admission

end Kms.Core
