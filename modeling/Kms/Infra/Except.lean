import Mathlib.Logic.Basic

/-!
# 失敗しうる計算

transaction を `Except` の計算として書くための小道具。`require` は検査、`orThrow` は
「見つからなければ error」を表す。どちらにも成功の条件を言う iff の補題を付け、
`bind_eq_ok_iff` と合わせて、成功した計算を一段ずつほどけるようにする。
-/

namespace Kms.Infra

universe u v

variable {ε : Type u} {α β : Type v}

/-- 条件を満たさなければ error にする。 -/
def require (p : Prop) [Decidable p] (e : ε) : Except ε PUnit.{v + 1} :=
  if p then .ok ⟨⟩ else .error e

/-- 値が無ければ error にする。 -/
def orThrow (o : Option α) (e : ε) : Except ε α :=
  match o with
  | some a => .ok a
  | none => .error e

variable {x : Except ε α} {a : α} {e : ε}

theorem bind_eq_ok_iff {f : α → Except ε β} {b : β} :
    (x >>= f) = .ok b ↔ ∃ a, x = .ok a ∧ f a = .ok b := by
  cases x with
  | error e | ok a => simp [bind, Except.bind]

theorem bind_of_ok {f : α → Except ε β} (h : x = .ok a) : (x >>= f) = f a := by
  rw [h]
  rfl

theorem pure_eq_ok_iff {b : α} : (pure a : Except ε α) = .ok b ↔ a = b := by
  simp [pure, Except.pure]

theorem require_eq_ok_iff {p : Prop} [Decidable p] {u : PUnit.{v + 1}} :
    require p e = .ok u ↔ p := by
  unfold require
  by_cases h : p
  all_goals simp [h]

theorem require_bind {p : Prop} [Decidable p] {f : PUnit.{v + 1} → Except ε β} (h : p) :
    (require p e >>= f) = f ⟨⟩ :=
  bind_of_ok (require_eq_ok_iff.mpr h)

theorem orThrow_eq_ok_iff {o : Option α} : orThrow o e = .ok a ↔ o = some a := by
  cases o with
  | none | some b => simp [orThrow]

theorem bind_eq_error_iff {f : α → Except ε β} :
    (x >>= f) = .error e ↔ x = .error e ∨ ∃ a, x = .ok a ∧ f a = .error e := by
  cases x with
  | error e' | ok a => simp [bind, Except.bind]

theorem pure_ne_error : (pure a : Except ε α) ≠ .error e := by
  simp [pure, Except.pure]

theorem require_eq_error_iff {p : Prop} [Decidable p] {e' : ε} :
    (require p e : Except ε PUnit.{v + 1}) = .error e' ↔ ¬ p ∧ e = e' := by
  unfold require
  by_cases h : p
  all_goals simp [h]

theorem orThrow_eq_error_iff {o : Option α} {e' : ε} :
    orThrow o e = .error e' ↔ o = none ∧ e = e' := by
  cases o with
  | none | some b => simp [orThrow]

theorem map_eq_ok {f : α → β} {b : β} (h : x.map f = .ok b) : ∃ a, x = .ok a := by
  cases x with
  | error e => cases h
  | ok a => exact ⟨a, rfl⟩

theorem forM_eq_ok_iff {γ : Type v} {l : List γ} {f : γ → Except ε PUnit.{v + 1}}
    {u : PUnit.{v + 1}} : l.forM f = .ok u ↔ ∀ x ∈ l, f x = .ok ⟨⟩ := by
  induction l with
  | nil => simp [List.forM, pure, Except.pure]
  | cons x xs ih =>
    show (f x >>= fun _ => xs.forM f) = .ok u ↔ _
    rw [bind_eq_ok_iff]
    constructor
    · rintro ⟨a, ha, hxs⟩ y hy
      rcases List.mem_cons.mp hy with rfl | hy
      · exact ha
      · exact ih.mp hxs y hy
    · intro h
      exact ⟨⟨⟩, h x (List.mem_cons_self ..),
        ih.mpr (fun y hy => h y (List.mem_cons_of_mem x hy))⟩

theorem mapError_eq_ok_iff {ε' : Type u} {f : ε → ε'} : x.mapError f = .ok a ↔ x = .ok a := by
  cases x with
  | error e =>
    constructor <;> intro h <;> cases h
  | ok b =>
    constructor <;> intro h <;> cases h <;> rfl

end Kms.Infra
