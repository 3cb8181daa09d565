import Enclave.Number.PowMod
import Mathlib.Data.Nat.Prime.Basic
import Mathlib.NumberTheory.LucasPrimality

/-!
# Primality certificates

A `PrattLine` claims that `p` is prime: it names a base `a` of order `p - 1` modulo `p` and the
primes `qs` that divide `p - 1`.  A certificate is a list of lines in which the primes of each line
are claimed by lines further down; `prattCheck` tests it by evaluation and
`prime_of_prattCheck` turns a passed test into primality (Lucas's criterion, `lucas_primality`).

That `qs` leaves no prime divisor of `p - 1` out is tested without multiplicities: `p - 1` divides a
power of the product of `qs`.
-/

namespace Enclave

/-- One line of a certificate. -/
structure PrattLine where
  p : ℕ
  a : ℕ
  qs : List ℕ

/-- Lucas's criterion for one line, the primality of `known` taken for granted. -/
def PrattLine.check (known : List ℕ) (l : PrattLine) : Bool :=
  2 ≤ l.p && l.qs.all (fun q => q ∈ known) && l.qs.prod ^ (l.p.log2 + 1) % (l.p - 1) == 0 &&
    powMod l.a (l.p - 1) l.p == 1 && l.qs.all fun q => powMod l.a ((l.p - 1) / q) l.p != 1

/-- Every line passes, given the lines below it. -/
def prattCheck : List PrattLine → Bool
  | [] => true
  | l :: ls => l.check (ls.map PrattLine.p) && prattCheck ls

theorem zmod_pow_eq_one_iff {p : ℕ} (hp : 2 ≤ p) (a e : ℕ) :
    (a : ZMod p) ^ e = 1 ↔ powMod a e p = 1 := by
  have h1 : 1 % p = 1 := Nat.mod_eq_of_lt hp
  rw [powMod_eq, ← Nat.cast_pow, ← Nat.cast_one, ZMod.natCast_eq_natCast_iff', h1]

/-- A prime that divides a number dividing a power of a product of primes is one of them. -/
theorem mem_of_dvd_prod_pow {qs : List ℕ} (hqs : ∀ q ∈ qs, q.Prime) {r m k : ℕ} (hr : r.Prime)
    (hrm : r ∣ m) (hm : m ∣ qs.prod ^ k) : r ∈ qs := by
  have hdvd : r ∣ qs.prod := hr.dvd_of_dvd_pow (hrm.trans hm)
  obtain ⟨q, hq, hrq⟩ := (Prime.dvd_prod_iff hr.prime).mp hdvd
  rwa [(Nat.prime_dvd_prime_iff_eq hr (hqs q hq)).mp hrq]

theorem PrattLine.prime_of_check {known : List ℕ} {l : PrattLine} (hknown : ∀ q ∈ known, q.Prime)
    (h : l.check known = true) : l.p.Prime := by
  simp only [PrattLine.check, Bool.and_eq_true, decide_eq_true_eq, List.all_eq_true, beq_iff_eq,
    bne_iff_ne] at h
  obtain ⟨⟨⟨⟨htwo, hmem⟩, hdvd⟩, hone⟩, hne⟩ := h
  have hqs : ∀ q ∈ l.qs, q.Prime := fun q hq => hknown q (hmem q hq)
  refine lucas_primality l.p (l.a : ZMod l.p) ((zmod_pow_eq_one_iff htwo _ _).mpr hone) ?_
  intro r hr hrp
  have hrmem : r ∈ l.qs := mem_of_dvd_prod_pow hqs hr hrp (Nat.dvd_of_mod_eq_zero hdvd)
  exact fun hpow => hne r hrmem ((zmod_pow_eq_one_iff htwo _ _).mp hpow)

theorem prime_of_prattCheck {ls : List PrattLine} (h : prattCheck ls = true) :
    ∀ l ∈ ls, l.p.Prime := by
  induction ls with
  | nil => simp
  | cons l ls ih =>
    simp only [prattCheck, Bool.and_eq_true] at h
    have hls := ih h.2
    have hknown : ∀ q ∈ ls.map PrattLine.p, q.Prime := by
      intro q hq
      obtain ⟨l', hl', rfl⟩ := List.mem_map.mp hq
      exact hls l' hl'
    intro l' hl'
    rcases List.mem_cons.mp hl' with rfl | hl'
    · exact l'.prime_of_check hknown h.1
    · exact hls l' hl'

end Enclave
