import Mathlib.Tactic.Linarith

/-!
# 時間とともに戻る持ち分

持ち分は `cap` を超えず、一単位の時間に `rate` より多くは戻らない。使った分だけ持ち分が減るなら、長さ `t` のどの窓の中で
使える量も `cap + rate * t` を超えない。

* `Allowed` — 窓の中で使った量と、残りの持ち分の関係
* `Allowed.elapse` / `Allowed.spend` — 時間が経っても、使っても保たれる
* `Allowed.bound` — 窓の中で使った量の上界
-/

namespace Kms.Infra

variable {K : Type*} [Field K] [LinearOrder K] [IsStrictOrderedRing K]
variable {cap rate a t now now' used avail avail' : K}

structure Allowed (cap rate a t now used avail : K) : Prop where
  before : now < a → used = 0
  inside : a ≤ now → now ≤ a + t → used + avail ≤ cap + rate * (now - a)
  after : a + t < now → used ≤ cap + rate * t

theorem Allowed.start (hrate : 0 ≤ rate) (ht : 0 ≤ t) (hcap : 0 ≤ cap) (havail : avail ≤ cap) :
    Allowed cap rate a t now 0 avail where
  before := fun _ => rfl
  inside := fun ha _ => by
    have := mul_nonneg hrate (sub_nonneg.mpr ha)
    linarith
  after := fun _ => by
    have := mul_nonneg hrate ht
    linarith

theorem Allowed.elapse (h : Allowed cap rate a t now used avail) (hrate : 0 ≤ rate)
    (hnow : now ≤ now') (hnonneg : 0 ≤ avail) (hcap : avail' ≤ cap) (hcap0 : 0 ≤ cap) (ht : 0 ≤ t)
    (hgrow : avail' ≤ avail + rate * (now' - now)) : Allowed cap rate a t now' used avail' where
  before := fun hlt => h.before (lt_of_le_of_lt hnow hlt)
  inside := fun ha hin => by
    by_cases hstart : now < a
    · -- 窓に入った。まだ使っていない
      have := mul_nonneg hrate (sub_nonneg.mpr ha)
      rw [h.before hstart]
      linarith
    · have := h.inside (not_lt.mp hstart) (hnow.trans hin)
      linarith [mul_sub rate now' now, mul_sub rate now a, mul_sub rate now' a]
  after := fun hout => by
    by_cases hend : a + t < now
    · exact h.after hend
    by_cases hstart : now < a
    · have := mul_nonneg hrate ht
      rw [h.before hstart]
      linarith
    · -- 窓から出た。窓の中で戻った分は、窓の長さの分より多くない
      have hinside := h.inside (not_lt.mp hstart) (not_lt.mp hend)
      have hle : now - a ≤ t := by linarith [not_lt.mp hend]
      have := mul_le_mul_of_nonneg_left hle hrate
      linarith

theorem Allowed.spend (h : Allowed cap rate a t now used avail) {n : K} (hn : avail' + n ≤ avail) :
    Allowed cap rate a t now (used + if a ≤ now ∧ now ≤ a + t then n else 0) avail' where
  before := fun hlt => by
    rw [h.before hlt, if_neg (fun hin => absurd hin.1 (not_le.mpr hlt)), add_zero]
  inside := fun ha hin => by
    have := h.inside ha hin
    rw [if_pos ⟨ha, hin⟩]
    linarith
  after := fun hout => by
    rw [if_neg (fun hin => absurd hin.2 (not_le.mpr hout)), add_zero]
    exact h.after hout

theorem Allowed.bound (h : Allowed cap rate a t now used avail) (hrate : 0 ≤ rate)
    (hnonneg : 0 ≤ avail) (hcap : 0 ≤ cap) (ht : 0 ≤ t) : used ≤ cap + rate * t := by
  have hle : now ≤ max now (a + t + 1) := le_max_left ..
  have hgrow : 0 ≤ avail + rate * (max now (a + t + 1) - now) :=
    add_nonneg hnonneg (mul_nonneg hrate (sub_nonneg.mpr hle))
  refine (h.elapse hrate hle hnonneg hcap hcap ht hgrow).after (lt_of_lt_of_le ?_ (le_max_right ..))
  linarith

end Kms.Infra
