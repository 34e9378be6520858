import Mathlib.Algebra.BigOperators.Finprod

/-!
# Totals

The sum of a function that is zero almost everywhere, and what changing one of its values
does to it.
-/

namespace Accumulate.Library

section Total

variable {α M : Type*} [DecidableEq α] [AddCommGroup M] {f : α → M}

theorem finsum_update (hf : (Function.support f).Finite) (a : α) (b : M) :
    ∑ᶠ c, Function.update f a b c = ∑ᶠ c, f c + (b - f a) := by
  have hsplit : Function.update f a b = fun c => f c + (Pi.single a (b - f a) : α → M) c := by
    funext c
    by_cases hc : c = a
    · subst hc
      simp
    · simp [hc]
  have hsingle : (Function.support (Pi.single a (b - f a) : α → M)).Finite :=
    (Set.finite_singleton a).subset Pi.support_single_subset
  have hvalue : ∑ᶠ c, (Pi.single a (b - f a) : α → M) c = b - f a := by
    rw [finsum_eq_single _ a fun c hc => Pi.single_eq_of_ne hc _, Pi.single_eq_same]
  rw [hsplit, finsum_add_distrib hf hsingle, hvalue]

end Total

end Accumulate.Library
