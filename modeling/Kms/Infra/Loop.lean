import Mathlib.Logic.Relation
import Mathlib.Data.Nat.Find

/-!
# 外の世界を読みながら回る loop

`k` 回目の反復は、その時に見える外の世界に依る。`body k s` は次の状態か、loop の結果である。`iterate` は反復の
回数を燃料で限り、`Reaches` は結果を出さずに続いた反復の列である。

* `iterate_isSome_iff` — 結果が出ることと、続いた先で結果の出る反復があることは同じ
* `diverges_iff_stutters` — 状態が変われば測度が減る loop は、ある所から状態が変わらないまま回り続けるときに限り終わらない
-/

namespace Kms.Infra

universe u v

variable {σ : Type u} {ρ : Type v}

/-- 高々 `fuel` 回の反復。結果には、次に読む番号を添える。 -/
def iterate (body : Nat → σ → σ ⊕ ρ) : Nat → Nat → σ → Option (Nat × ρ)
  | 0, _, _ => none
  | fuel + 1, k, s =>
    match body k s with
    | .inl s' => iterate body fuel (k + 1) s'
    | .inr r => some (k + 1, r)

/-- 結果を出さずに続いた一回の反復。 -/
def Continues (body : Nat → σ → σ ⊕ ρ) (p q : Nat × σ) : Prop :=
  q.1 = p.1 + 1 ∧ body p.1 p.2 = .inl q.2

/-- 結果を出さずに続いた反復の列。 -/
def Reaches (body : Nat → σ → σ ⊕ ρ) (k : Nat) (s : σ) (m : Nat) (s' : σ) : Prop :=
  Relation.ReflTransGen (Continues body) (k, s) (m, s')

section

variable {body : Nat → σ → σ ⊕ ρ} {k m : Nat} {s s' : σ}

theorem Reaches.refl (k : Nat) (s : σ) : Reaches body k s k s := Relation.ReflTransGen.refl

theorem Reaches.head {t : σ} (hb : body k s = .inl t) (h : Reaches body (k + 1) t m s') :
    Reaches body k s m s' :=
  Relation.ReflTransGen.head (b := (k + 1, t)) ⟨rfl, hb⟩ h

theorem Reaches.trans {n : Nat} {t : σ} (h : Reaches body k s m s')
    (h' : Reaches body m s' n t) : Reaches body k s n t :=
  Relation.ReflTransGen.trans h h'

theorem Reaches.invariant {I : Nat → σ → Prop} (h : Reaches body k s m s')
    (hstep : ∀ j t t', I j t → body j t = .inl t' → I (j + 1) t') (hs : I k s) : I m s' := by
  have hall : ∀ q, Relation.ReflTransGen (Continues body) (k, s) q → I q.1 q.2 := by
    intro q hq
    induction hq with
    | refl => exact hs
    | tail _ hc ih =>
      rw [hc.1]
      exact hstep _ _ _ ih hc.2
  exact hall (m, s') h

theorem iterate_eq_some {fuel : Nat} {r : ρ} :
    ∀ {k : Nat} {s : σ}, iterate body fuel k s = some (m, r) →
      ∃ j t, Reaches body k s j t ∧ body j t = .inr r ∧ m = j + 1 := by
  induction fuel with
  | zero =>
    intro k s h
    cases h
  | succ fuel ih =>
    intro k s h
    unfold iterate at h
    cases hb : body k s with
    | inl t =>
      rw [hb] at h
      obtain ⟨j, t', hr, hj, hm⟩ := ih h
      exact ⟨j, t', hr.head hb, hj, hm⟩
    | inr r' =>
      rw [hb] at h
      cases h
      exact ⟨k, s, Reaches.refl k s, hb, rfl⟩

theorem Reaches.iterate (h : Reaches body k s m s') :
    ∃ n, ∀ fuel, iterate body (fuel + n) k s = iterate body fuel m s' := by
  have hall : ∀ p, Relation.ReflTransGen (Continues body) p (m, s') →
      ∃ n, ∀ fuel, Infra.iterate body (fuel + n) p.1 p.2 = Infra.iterate body fuel m s' := by
    intro p hp
    induction hp using Relation.ReflTransGen.head_induction_on with
    | refl => exact ⟨0, fun _ => rfl⟩
    | @head p q hc _ ih =>
      obtain ⟨n, hn⟩ := ih
      refine ⟨n + 1, fun fuel => ?_⟩
      rw [← Nat.add_assoc, Infra.iterate, hc.2]
      show Infra.iterate body (fuel + n) (p.1 + 1) q.2 = _
      rw [← hc.1]
      exact hn fuel
  exact hall (k, s) h

theorem iterate_add {r : Nat × ρ} (n : Nat) {fuel : Nat} :
    ∀ {k : Nat} {s : σ}, iterate body fuel k s = some r → iterate body (fuel + n) k s = some r := by
  induction fuel with
  | zero =>
    intro k s h
    cases h
  | succ fuel ih =>
    intro k s h
    rw [Nat.succ_add fuel n]
    unfold iterate at h ⊢
    cases hb : body k s with
    | inl t =>
      rw [hb] at h
      exact ih h
    | inr r' =>
      rw [hb] at h
      exact h

theorem iterate_isSome_iff : (∃ fuel r, iterate body fuel k s = some r) ↔
    ∃ j t r, Reaches body k s j t ∧ body j t = .inr r := by
  constructor
  · rintro ⟨fuel, ⟨m, r⟩, h⟩
    obtain ⟨j, t, hr, hb, _⟩ := iterate_eq_some h
    exact ⟨j, t, r, hr, hb⟩
  · rintro ⟨j, t, r, hr, hb⟩
    obtain ⟨n, hn⟩ := hr.iterate
    refine ⟨1 + n, (j + 1, r), ?_⟩
    rw [hn 1, iterate, hb]

/-- `s` のまま回り続ける。 -/
def Stutters (body : Nat → σ → σ ⊕ ρ) (k : Nat) (s : σ) : Prop := ∀ j, k ≤ j → body j s = .inl s

theorem Stutters.reaches (h : ∀ j, k ≤ j → j < m → body j s = .inl s) (hle : k ≤ m) :
    Reaches body k s m s := by
  induction m, hle using Nat.le_induction with
  | base => exact Reaches.refl k s
  | succ m hle ih =>
    have hprev := ih (fun j hkj hjm => h j hkj (Nat.lt_succ_of_lt hjm))
    exact hprev.trans (Reaches.head (h m hle (Nat.lt_succ_self m)) (Reaches.refl _ _))

theorem Stutters.iterate (fuel : Nat) : ∀ {k : Nat}, Stutters body k s →
    iterate body fuel k s = none := by
  induction fuel with
  | zero => exact fun _ => rfl
  | succ fuel ih =>
    intro k h
    rw [Infra.iterate, h k (Nat.le_refl k)]
    exact ih (fun j hj => h j (Nat.le_of_succ_le hj))

theorem diverges_iff_stutters (measure : σ → Nat)
    (hm : ∀ j t t', body j t = .inl t' → t' = t ∨ measure t' < measure t) :
    (∀ fuel, iterate body fuel k s = none) ↔
      ∃ m s', Reaches body k s m s' ∧ Stutters body m s' := by
  constructor
  · induction hn : measure s using Nat.strong_induction_on generalizing k s with
    | _ n ih =>
      intro hdiv
      by_cases hst : Stutters body k s
      · exact ⟨k, s, Reaches.refl k s, hst⟩
      · -- 初めて状態が変わる反復まで進む。
        have hex : ∃ j, k ≤ j ∧ body j s ≠ .inl s := by
          unfold Stutters at hst
          push Not at hst
          exact hst
        classical
        obtain ⟨hkj, hne⟩ := Nat.find_spec hex
        have hto : Reaches body k s (Nat.find hex) s := by
          refine Stutters.reaches (fun j hj hlt => ?_) hkj
          have hmin := Nat.find_min hex hlt
          push Not at hmin
          exact hmin hj
        cases hb : body (Nat.find hex) s with
        | inr r =>
          obtain ⟨fuel, r', hr⟩ := iterate_isSome_iff.mpr ⟨_, _, _, hto, hb⟩
          rw [hdiv fuel] at hr
          cases hr
        | inl t =>
          rcases hm _ _ _ hb with rfl | hlt
          · exact absurd hb hne
          · have hto' := hto.trans (Reaches.head hb (Reaches.refl _ _))
            have hdiv' : ∀ fuel, iterate body fuel (Nat.find hex + 1) t = none := by
              intro fuel
              obtain ⟨d, hd⟩ := hto'.iterate
              rw [← hd fuel]
              exact hdiv _
            obtain ⟨m, s', hr, hs'⟩ := ih (measure t) (hn ▸ hlt) rfl hdiv'
            exact ⟨m, s', hto'.trans hr, hs'⟩
  · rintro ⟨m, s', hr, hst⟩ fuel
    obtain ⟨n, hn⟩ := hr.iterate
    cases hres : iterate body fuel k s with
    | none => rfl
    | some r =>
      have hadd := iterate_add n hres
      rw [hn fuel, Stutters.iterate fuel hst] at hadd
      cases hadd

end

end Kms.Infra
