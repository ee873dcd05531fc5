import Mathlib.Order.Lattice

/-!
# 最大の要素だけを覚える register

要素 `e : ε` は値 `view e : β` を持ち、値には線形順序の `rank` がある。register は値を一つだけ
覚え、より大きい `rank` の値が来たときだけ書き換える。

* `Latest.offer` — register は、それまでに来た要素のうち rank が最大のものの値を持つ
* `Latest.lt_iff` — 書き換わるのは、来た要素がそれまでの最大を超えるときに限る

来た順序は `P` に現れないので、結果は順序によらない。
-/

namespace Kms.Infra

universe u v w

variable {ε : Type u} {β : Type v} {ρ : Type w} [LinearOrder ρ]

/-- `x` は、`P` を満たす要素のうち rank が最大のものの値である。一つも無ければ `init` である。 -/
def Latest (rank : β → ρ) (view : ε → β) (init : β) (P : ε → Prop) (x : β) : Prop :=
  (∃ e, P e ∧ (∀ e', P e' → rank (view e') ≤ rank (view e)) ∧ x = view e) ∨
    ((∀ e, ¬ P e) ∧ x = init)

variable {rank : β → ρ} {view : ε → β} {init : β} {P P' : ε → Prop} {x : β}

theorem Latest.of_empty (h : ∀ e, ¬ P e) : Latest rank view init P init := Or.inr ⟨h, rfl⟩

theorem Latest.congr (h : ∀ e, P e ↔ P' e) (hx : Latest rank view init P x) :
    Latest rank view init P' x := by
  rcases hx with ⟨e, he, hmax, rfl⟩ | ⟨hnone, rfl⟩
  · exact Or.inl ⟨e, (h e).mp he, fun e' he' => hmax e' ((h e').mpr he'), rfl⟩
  · exact Or.inr ⟨fun e he => hnone e ((h e).mpr he), rfl⟩

theorem Latest.exists_max (hx : Latest rank view init P x) {e₀ : ε} (h₀ : P e₀) :
    ∃ e, P e ∧ (∀ e', P e' → rank (view e') ≤ rank (view e)) ∧ x = view e := by
  rcases hx with h | ⟨hnone, _⟩
  · exact h
  · exact absurd h₀ (hnone e₀)

theorem Latest.le (hx : Latest rank view init P x) {e : ε} (he : P e) :
    rank (view e) ≤ rank x := by
  obtain ⟨_, _, hmax, rfl⟩ := hx.exists_max he
  exact hmax e he

theorem Latest.lt_iff (hx : Latest rank view init P x) {b : β} (hb : rank init < rank b) :
    rank x < rank b ↔ ∀ e, P e → rank (view e) < rank b := by
  refine ⟨fun h e he => lt_of_le_of_lt (hx.le he) h, fun h => ?_⟩
  rcases hx with ⟨e, he, _, rfl⟩ | ⟨_, rfl⟩
  · exact h e he
  · exact hb

theorem Latest.offer (hx : Latest rank view init P x) {e : ε} (he : rank init < rank (view e)) :
    Latest rank view init (fun e' => P e' ∨ e' = e)
      (if rank x < rank (view e) then view e else x) := by
  by_cases hlt : rank x < rank (view e)
  · rw [if_pos hlt]
    refine Or.inl ⟨e, Or.inr rfl, ?_, rfl⟩
    rintro e' (he' | rfl)
    · exact le_of_lt ((hx.lt_iff he).mp hlt e' he')
    · exact le_refl _
  · rw [if_neg hlt]
    rcases hx with ⟨m, hm, hmax, rfl⟩ | ⟨_, rfl⟩
    · refine Or.inl ⟨m, Or.inl hm, ?_, rfl⟩
      rintro e' (he' | rfl)
      · exact hmax e' he'
      · exact le_of_not_gt hlt
    · exact absurd he hlt

end Kms.Infra
