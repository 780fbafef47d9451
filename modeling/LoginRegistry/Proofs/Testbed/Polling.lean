import LoginRegistry.Testbed.Polling
import Mathlib.Tactic.ByContra

/-! # Waiting for a condition

    A wait ends with the first check that holds, or with the one after the timeout
    (`eventually_spec`).  So it tells whether any of its checks would hold, and it makes no check
    in vain.
-/

namespace LoginRegistry.Testbed

/-- How a wait is to end whose checks are numbered from `first` to `last`. -/
structure Polled.Ends (p : Polled) (condition : Nat → Bool) (first last : Nat) : Prop where
  first_le : first ≤ p.checks
  le_last : p.checks ≤ last
  /-- The last check decides. -/
  decides : condition p.checks = p.holds
  /-- The checks before it do not hold. -/
  before : ∀ n, first ≤ n → n < p.checks → condition n = false
  /-- A wait is given up after the last check only. -/
  patient : p.holds = false → p.checks = last

variable {condition : Nat → Bool}

theorem ends_poll (condition : Nat → Bool) (polls made : Nat) :
    (poll condition polls made).Ends condition (made + 1) (made + polls + 1) := by
  induction polls generalizing made with
  | zero =>
    exact ⟨Nat.le_refl _, Nat.le_refl _, rfl,
      fun n hfirst hlast => absurd hlast (Nat.not_lt.mpr hfirst), fun _ => rfl⟩
  | succ polls ih =>
    have hrest := ih (made + 1)
    have hlast : made + 1 + polls + 1 = made + (polls + 1) + 1 := by omega
    rw [hlast] at hrest
    rw [poll]
    split
    · next hholds =>
      exact ⟨Nat.le_refl _, Nat.succ_le_succ (Nat.le_add_right ..), hholds,
        fun n hfirst hlast => absurd hlast (Nat.not_lt.mpr hfirst), nofun⟩
    · next hnot =>
      refine ⟨Nat.le_of_succ_le hrest.first_le, hrest.le_last, hrest.decides, ?_, hrest.patient⟩
      intro n hfirst hn
      rcases Nat.eq_or_lt_of_le hfirst with rfl | hfirst
      · exact Bool.eq_false_iff.mpr hnot
      · exact hrest.before n hfirst hn

/-- A wait ends as it is to, and it holds just if one of the checks would that there is time for
    or the one after the timeout. -/
theorem eventually_spec (timeout : Nat) (condition : Nat → Bool) :
    let last := (timeout + pollInterval - 1) / pollInterval + 1
    let polled := eventually timeout condition
    polled.Ends condition 1 last ∧
      (polled.holds = true ↔ ∃ n, 1 ≤ n ∧ n ≤ last ∧ condition n = true) := by
  intro last polled
  have hends : polled.Ends condition 1 last := by
    have hpoll := ends_poll condition ((timeout + pollInterval - 1) / pollInterval) 0
    rw [Nat.zero_add, Nat.zero_add] at hpoll
    exact hpoll
  refine ⟨hends, fun hholds => ?_, ?_⟩
  · exact ⟨polled.checks, hends.first_le, hends.le_last, hends.decides.trans hholds⟩
  · rintro ⟨n, hfirst, hlast, hn⟩
    by_contra hnot
    have hgiven := hends.patient (Bool.eq_false_iff.mpr hnot)
    rcases Nat.eq_or_lt_of_le (hgiven ▸ hlast : n ≤ polled.checks) with rfl | hlt
    · exact hnot (hends.decides.symm.trans hn)
    · rw [hends.before n hfirst hlt] at hn
      cases hn

end LoginRegistry.Testbed
