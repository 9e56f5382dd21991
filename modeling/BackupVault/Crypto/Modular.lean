import BackupVault.Bytes

/-!
# Arithmetic modulo a number

Powers, inverses and probable primes, for numbers of any size.
-/

set_option autoImplicit false

namespace BackupVault.Modular

/-- `b ^ e % m`, by repeated squaring. -/
def power (b e m : Nat) : Nat :=
  if e = 0 then 1 % m
  else
    let half := power (b * b % m) (e / 2) m
    if e % 2 = 0 then half else b * half % m
termination_by e

/-- One line of the extended Euclidean algorithm below the lines `(r₀, s₀)` and `(r₁, s₁)`, and so
on until the remainder is zero: the greatest common divisor with its coefficient. -/
def euclid (r₀ : Nat) (s₀ : Int) (r₁ : Nat) (s₁ : Int) : Nat × Int :=
  if r₁ = 0 then (r₀, s₀)
  else euclid r₁ s₁ (r₀ % r₁) (s₀ - (r₀ / r₁ : Nat) * s₁)
termination_by r₁
decreasing_by exact Nat.mod_lt _ (Nat.pos_of_ne_zero ‹_›)

/-- The number below `m` that times `a` leaves the remainder one. -/
def inverse? (a m : Nat) : Option Nat :=
  let (g, s) := euclid (a % m) 1 m 0
  if g = 1 then some (s.emod m).toNat else none

/-! ## Probable primes -/

/-- The primes that are tried first, as divisors and as bases. -/
def smallPrimes : List Nat :=
  [2, 3, 5, 7, 11, 13, 17, 19, 23, 29, 31, 37, 41, 43, 47, 53, 59, 61, 67, 71, 73, 79, 83, 89, 97,
   101, 103, 107, 109, 113, 127, 131, 137, 139, 149, 151, 157, 163, 167, 173, 179, 181, 191, 193,
   197, 199, 211, 223, 227, 229, 233, 239, 241, 251]

/-- `n = 2 ^ twos * odd`, for a positive `n`. -/
def splitTwos (n : Nat) : Nat × Nat :=
  if n ≠ 0 ∧ n % 2 = 0 then
    let (twos, odd) := splitTwos (n / 2)
    (twos + 1, odd)
  else (0, n)
termination_by n
decreasing_by omega

/-- Squaring `x` up to `k` times meets `n - 1`. -/
def meetsMinusOne (n : Nat) : (k x : Nat) → Bool
  | 0, _ => false
  | k + 1, x => x == n - 1 || meetsMinusOne n k (x * x % n)

/-- The base does not prove the odd number `n` to be composite. -/
def passes (n base : Nat) : Bool :=
  let (twos, odd) := splitTwos (n - 1)
  let x := power base odd n
  base % n == 0 || x == 1 || meetsMinusOne n twos x

/-- No small prime divides the number and, as a base, none of the first forty proves it to be
composite. -/
def isProbablePrime (n : Nat) : Bool :=
  if n < 2 then false
  else if smallPrimes.contains n then true
  else if smallPrimes.any (fun p => n % p == 0) then false
  else (smallPrimes.take 40).all (passes n)

end BackupVault.Modular
