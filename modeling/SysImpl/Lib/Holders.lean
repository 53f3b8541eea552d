import Mathlib.Data.Finset.Card
import Mathlib.Logic.Function.Basic

/-! How many holders a thing has.

Each of finitely many holders holds one thing or nothing. The counts are followed as holders
come and go and as they take and give up things. -/

namespace SysImpl.Holders

variable {H B : Type} [DecidableEq B]

def count (live : Finset H) (target : H → Option B) (b : B) : Nat :=
  (live.filter fun h => target h = some b).card

variable {live : Finset H} {target : H → Option B} {p q : H} {b : B}

theorem count_pos (member : p ∈ live) (holds : target p = some b) : 0 < count live target b :=
  Finset.card_pos.mpr ⟨p, Finset.mem_filter.mpr ⟨member, holds⟩⟩

theorem count_eq_zero (none : ∀ h ∈ live, target h ≠ some b) : count live target b = 0 := by
  rw [count, Finset.card_eq_zero, Finset.filter_eq_empty_iff]
  intro h member
  exact none h member

variable [DecidableEq H]

theorem count_insert (idle : target p = none) (b : B) :
    count (insert p live) target b = count live target b := by
  rw [count, Finset.filter_insert, if_neg]
  · rfl
  · rw [idle]
    exact Option.some_ne_none b ∘ Eq.symm

theorem count_erase (idle : target p = none) (b : B) :
    count (live.erase p) target b = count live target b := by
  have other : p ∉ live.filter fun h => target h = some b := by
    intro member
    have holds := (Finset.mem_filter.mp member).2
    rw [idle] at holds
    cases holds
  rw [count, Finset.filter_erase, Finset.erase_eq_of_notMem other]
  rfl

theorem count_grant (member : p ∈ live) (idle : target p = none) (b c : B) :
    count live (Function.update target p (some b)) c =
      count live target c + if c = b then 1 else 0 := by
  by_cases same : c = b
  · have taken : (live.filter fun h => Function.update target p (some b) h = some c) =
        insert p (live.filter fun h => target h = some c) := by
      ext h
      rw [Finset.mem_insert, Finset.mem_filter, Finset.mem_filter]
      by_cases here : h = p
      · rw [here, Function.update_self, same]
        exact iff_of_true ⟨member, rfl⟩ (Or.inl rfl)
      · rw [Function.update_of_ne here]
        exact (or_iff_right here).symm
    have fresh : p ∉ live.filter fun h => target h = some c := by
      intro held
      have holds := (Finset.mem_filter.mp held).2
      rw [idle] at holds
      cases holds
    rw [if_pos same, count, taken, Finset.card_insert_of_notMem fresh]
    rfl
  · rw [if_neg same, Nat.add_zero, count, count]
    congr 1
    apply Finset.filter_congr
    intro h _
    by_cases here : h = p
    · rw [here, Function.update_self, idle]
      refine iff_of_false ?_ (Option.some_ne_none c).symm
      exact fun equal => same (Option.some.inj equal).symm
    · rw [Function.update_of_ne here]

theorem count_revoke (member : p ∈ live) (holds : target p = some b) (c : B) :
    count live (Function.update target p none) c + (if c = b then 1 else 0) =
      count live target c := by
  have back : Function.update (Function.update target p none) p (some b) = target := by
    rw [Function.update_idem, ← holds, Function.update_eq_self]
  have granted := count_grant member (Function.update_self p none target) b c
  rw [back] at granted
  exact granted.symm

end SysImpl.Holders
