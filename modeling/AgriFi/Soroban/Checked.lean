import Mathlib.Tactic.Common
import Mathlib.Algebra.Order.Ring.Int

/-
  Fallible calls of a Soroban contract. A call ends with a value, with one of the contract's
  own errors, or with a host trap; both failures roll the call back. `i128` values are
  integers: an operation of the source that can leave the range goes through `narrow`, and a
  checked operation turns the overflow into the error its caller names (`okOr`), while a plain
  operator traps (the workspace builds with `overflow-checks`). The lemmas are the inversions
  of each guard under `bind`: what must have held for the rest of the call to run.
-/

namespace AgriFi.Soroban

/-- Why the host, rather than the contract, ended the call. -/
inductive Trap where
  | auth
  | overflow
  | token
  deriving DecidableEq, Repr

inductive Fault (ε : Type) where
  | err (e : ε)
  | trap (t : Trap)
  deriving DecidableEq, Repr

abbrev Result (ε α : Type) := Except (Fault ε) α

variable {ε α β : Type}

/-- `if c { return Err(f) }`. -/
def failIf (c : Prop) [Decidable c] (f : ε) : Except ε Unit :=
  if c then .error f else .ok ()

/-- `o.ok_or(f)?`. -/
def okOr (o : Option α) (f : ε) : Except ε α :=
  match o with
  | some a => .ok a
  | none => .error f

def FitsI128 (z : Int) : Prop := -2 ^ 127 ≤ z ∧ z < 2 ^ 127

instance (z : Int) : Decidable (FitsI128 z) := inferInstanceAs (Decidable (_ ∧ _))

/-- `z` when it is an `i128`. -/
def narrow (z : Int) : Option Int := if FitsI128 z then some z else none

def checkedAdd (a b : Int) : Option Int := narrow (a + b)
def checkedSub (a b : Int) : Option Int := narrow (a - b)
def checkedMul (a b : Int) : Option Int := narrow (a * b)

/-- Division truncates toward zero and is undefined at a zero divisor. -/
def checkedDiv (a b : Int) : Option Int := if b = 0 then none else narrow (a.tdiv b)

/-- `z` when it is an `i64`. -/
def narrow64 (z : Int) : Option Int := if -2 ^ 63 ≤ z ∧ z < 2 ^ 63 then some z else none

/-- `a.checked_add(b)` on `u32` and `u64`. -/
def checkedAddU (bits a b : Nat) : Option Nat := if a + b < 2 ^ bits then some (a + b) else none

/-! ## Inversion of the guards -/

@[simp] theorem ok_bind (a : α) (f : α → Except ε β) : (Except.ok a >>= f) = f a := rfl

@[simp] theorem error_bind (e : ε) (f : α → Except ε β) :
    ((Except.error e : Except ε α) >>= f) = .error e := rfl

@[simp] theorem pure_eq_ok (a : α) : (pure a : Except ε α) = .ok a := rfl

@[simp] theorem failIf_bind_eq_ok {c : Prop} [Decidable c] {e : ε} {f : Unit → Except ε β} {b : β} :
    (failIf c e >>= f) = .ok b ↔ ¬ c ∧ f () = .ok b := by
  unfold failIf
  split
  · next h => simp [h]
  · next h => simp [h]

theorem failIf_eq_ok {c : Prop} [Decidable c] {e : ε} {u : Unit} :
    failIf c e = .ok u ↔ ¬ c := by
  unfold failIf
  split <;> simp_all

@[simp] theorem okOr_bind_eq_ok {o : Option α} {e : ε} {f : α → Except ε β} {b : β} :
    (okOr o e >>= f) = .ok b ↔ ∃ a, o = some a ∧ f a = .ok b := by
  cases o <;> simp [okOr]

/-- A guard that does not apply lets the call go on. -/
theorem failIf_of_not {c : Prop} [Decidable c] {e : ε} (h : ¬ c) : failIf c e = .ok () :=
  failIf_eq_ok.mpr h

theorem okOr_eq_ok {o : Option α} {e : ε} {a : α} : okOr o e = .ok a ↔ o = some a := by
  cases o <;> simp [okOr]

theorem bind_eq_ok {x : Except ε α} {f : α → Except ε β} {b : β} :
    (x >>= f) = .ok b ↔ ∃ a, x = .ok a ∧ f a = .ok b := by
  cases x <;> simp

/-! ## Ranges -/

@[simp] theorem narrow_eq_some {z a : Int} : narrow z = some a ↔ FitsI128 z ∧ z = a := by
  unfold narrow
  split <;> simp_all

@[simp] theorem narrow64_eq_some {z a : Int} :
    narrow64 z = some a ↔ (-2 ^ 63 ≤ z ∧ z < 2 ^ 63) ∧ z = a := by
  unfold narrow64
  split <;> simp_all

@[simp] theorem checkedAdd_eq_some {a b c : Int} :
    checkedAdd a b = some c ↔ FitsI128 (a + b) ∧ a + b = c := narrow_eq_some

@[simp] theorem checkedSub_eq_some {a b c : Int} :
    checkedSub a b = some c ↔ FitsI128 (a - b) ∧ a - b = c := narrow_eq_some

@[simp] theorem checkedMul_eq_some {a b c : Int} :
    checkedMul a b = some c ↔ FitsI128 (a * b) ∧ a * b = c := narrow_eq_some

@[simp] theorem checkedDiv_eq_some {a b c : Int} :
    checkedDiv a b = some c ↔ b ≠ 0 ∧ FitsI128 (a.tdiv b) ∧ a.tdiv b = c := by
  unfold checkedDiv
  split <;> simp_all

@[simp] theorem checkedAddU_eq_some {bits a b c : Nat} :
    checkedAddU bits a b = some c ↔ a + b < 2 ^ bits ∧ a + b = c := by
  unfold checkedAddU
  split
  · next h => simp [h]
  · next h => simp [h]

/-! ## Two computations that agree -/

/-- Both computations succeed, with related values, or both fail in the same way. -/
inductive Agrees (R : α → β → Prop) : Except ε α → Except ε β → Prop
  | ok {a : α} {b : β} : R a b → Agrees R (.ok a) (.ok b)
  | error (e : ε) : Agrees R (.error e) (.error e)

theorem Agrees.bind {α' β' : Type} {R : α → β → Prop} {S : α' → β' → Prop} {x : Except ε α}
    {y : Except ε β} {f : α → Except ε α'} {g : β → Except ε β'} (h : Agrees R x y)
    (hf : ∀ a b, R a b → Agrees S (f a) (g b)) : Agrees S (x >>= f) (y >>= g) := by
  cases h with
  | ok hab => exact hf _ _ hab
  | error e => exact .error e

/-- The same computation first. -/
theorem Agrees.bind_same {α' β' : Type} {S : α' → β' → Prop} (x : Except ε α)
    {f : α → Except ε α'} {g : α → Except ε β'} (hf : ∀ a, Agrees S (f a) (g a)) :
    Agrees S (x >>= f) (x >>= g) := by
  cases x with
  | ok a => exact hf a
  | error e => exact .error e

theorem Agrees.refl {R : α → α → Prop} (x : Except ε α) (h : ∀ a, R a a) : Agrees R x x := by
  cases x with
  | ok a => exact .ok (h a)
  | error e => exact .error e

end AgriFi.Soroban
