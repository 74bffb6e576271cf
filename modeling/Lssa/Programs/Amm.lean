/-
What swaps of the automated market maker cost (`lez/programs/amm/src/swap.rs`).

A swap pays one token into a pool and takes the other out of it.  The caller names what is paid in
and gets what keeps the product of the reserves (`swap_exact_input`), or names what is paid out and
pays for it (`swap_exact_output`).  Products are checked; sums and differences are those of the
release build and wrap.

* `le_withdrawAmount_iff`, `depositAmount_le_iff` — what the amounts are, as integers;
* **`least_input_iff`** — when an exact output asks for the least input that buys it.
-/
import Lssa.Guest
import Mathlib.Tactic.Linarith

namespace Lssa

namespace Amm

/-- `checked_mul`. -/
def checkedMul (a b : U128) : Option U128 :=
  if h : a.val * b.val < 2 ^ 128 then some ⟨a.val * b.val, h⟩ else none

/-- `div_ceil`. -/
def divCeil (a b : U128) : U128 := if a % b = 0 then a / b else a / b + 1

/-- What `swap_logic` pays out; a division by zero panics, and an amount that rounds to zero is
refused. -/
def withdrawAmount (reserveDeposit reserveWithdraw swapAmountIn : U128) : Option U128 := do
  let product ← checkedMul reserveWithdraw swapAmountIn
  require (reserveDeposit + swapAmountIn ≠ 0)
  let amount := product / (reserveDeposit + swapAmountIn)
  require (amount ≠ 0)
  pure amount

/-- What `exact_output_swap_logic` asks for. -/
def depositAmount (reserveDeposit reserveWithdraw exactAmountOut : U128) : Option U128 := do
  require (exactAmountOut ≠ 0)
  require (exactAmountOut < reserveWithdraw)
  let product ← checkedMul reserveDeposit exactAmountOut
  pure (divCeil product (reserveWithdraw - exactAmountOut))

/-! ### The amounts as integers -/

variable {reserveIn reserveOut x y w : U128}

theorem val_add {a b : U128} (h : a.val + b.val < 2 ^ 128) : (a + b).val = a.val + b.val := by
  rw [Fin.val_add, Nat.mod_eq_of_lt h]

theorem checkedMul_eq_some {a b c : U128} : checkedMul a b = some c ↔ c.val = a.val * b.val := by
  unfold checkedMul
  have hc := c.isLt
  split
  · rw [some_inj, Fin.ext_iff]
    exact eq_comm
  · refine iff_of_false (by simp) ?_
    omega

theorem withdrawAmount_eq_some : withdrawAmount reserveIn reserveOut x = some w ↔
    reserveOut.val * x.val < 2 ^ 128 ∧ reserveIn + x ≠ 0 ∧ w ≠ 0 ∧
      w.val = reserveOut.val * x.val / (reserveIn + x).val := by
  constructor
  · intro h
    obtain ⟨product, hproduct, h⟩ := bind_eq_some_iff.mp h
    obtain ⟨hne, h⟩ := require_bind_eq_some.mp h
    obtain ⟨hpays, h⟩ := require_bind_eq_some.mp h
    have hproduct := checkedMul_eq_some.mp hproduct
    rw [some.inj h] at hpays
    refine ⟨hproduct ▸ product.isLt, hne, hpays, ?_⟩
    rw [← some.inj h, Fin.div_val, hproduct]
  · rintro ⟨hlt, hne, hpays, hw⟩
    have hamount : (⟨_, hlt⟩ : U128) / (reserveIn + x) = w := Fin.ext (by rw [Fin.div_val, hw])
    refine bind_eq_some_iff.mpr ⟨⟨_, hlt⟩, checkedMul_eq_some.mpr rfl,
      require_bind_eq_some.mpr ⟨hne, require_bind_eq_some.mpr ?_⟩⟩
    rw [hamount]
    exact ⟨hpays, rfl⟩

/-- What is paid out, unless the sum wraps. -/
theorem le_withdrawAmount_iff (hfits : reserveIn.val + x.val < 2 ^ 128)
    (h : withdrawAmount reserveIn reserveOut x = some w) (n : ℕ) :
    n ≤ w.val ↔ n * (reserveIn.val + x.val) ≤ reserveOut.val * x.val := by
  obtain ⟨-, hne, -, hw⟩ := withdrawAmount_eq_some.mp h
  have hpos : 0 < (reserveIn + x).val := Fin.pos_iff_ne_zero.mpr hne
  rw [val_add hfits] at hw hpos
  rw [hw, Nat.le_div_iff_mul_le hpos]

theorem divCeil_le_iff {a b : U128} (hb : 0 < b.val) (n : ℕ) :
    (divCeil a b).val ≤ n ↔ a.val ≤ n * b.val := by
  have hdivision := Nat.div_add_mod' a.val b.val
  unfold divCeil
  split
  · rename_i hexact
    have hexact : a.val % b.val = 0 := congrArg Fin.val hexact
    rw [Fin.div_val, ← Nat.mul_le_mul_right_iff hb]
    rw [hexact] at hdivision
    rw [show a.val / b.val * b.val = a.val from hdivision]
  · rename_i hrest
    have hrest : a.val % b.val ≠ 0 := fun hzero => hrest (Fin.ext hzero)
    have hone : b.val ≠ 1 := fun hone => hrest (by rw [hone, Nat.mod_one])
    have hsmall : (a / b + 1).val = a.val / b.val + 1 := by
      rw [Fin.val_add, Fin.div_val]
      refine Nat.mod_eq_of_lt ?_
      have hlt := a.isLt
      have hhalf : a.val / b.val ≤ a.val / 2 := Nat.div_le_div_left (by omega) two_pos
      show a.val / b.val + 1 < 2 ^ 128
      omega
    rw [hsmall, Nat.succ_le_iff, Nat.div_lt_iff_lt_mul hb]
    refine ⟨le_of_lt, fun hle => lt_of_le_of_ne hle fun heq => hrest ?_⟩
    rw [heq, Nat.mul_mod_left]

/-- What is to be paid in: the least amount that the product allows. -/
theorem depositAmount_le_iff (h : depositAmount reserveIn reserveOut y = some x) (n : ℕ) :
    x.val ≤ n ↔ y.val * (reserveIn.val + n) ≤ reserveOut.val * n := by
  obtain ⟨-, h⟩ := require_bind_eq_some.mp h
  obtain ⟨hlt, h⟩ := require_bind_eq_some.mp h
  obtain ⟨product, hproduct, h⟩ := bind_eq_some_iff.mp h
  have hlt : y.val < reserveOut.val := hlt
  have hsub : (reserveOut - y).val = reserveOut.val - y.val := Fin.sub_val_of_le hlt.le
  rw [← some.inj h, divCeil_le_iff (by omega), checkedMul_eq_some.mp hproduct, hsub]
  obtain ⟨left, hleft⟩ := Nat.exists_eq_add_of_le hlt.le
  rw [hleft, Nat.add_sub_cancel_left]
  constructor <;> intro h <;> nlinarith

/-! ### Least inputs -/

/-- An exact input is paid for, or refused because what it pays out rounds to zero. -/
theorem withdrawAmount_cases (hin : reserveIn ≠ 0) (hfits : reserveIn.val + x.val < 2 ^ 128)
    (hproduct : reserveOut.val * x.val < 2 ^ 128) :
    (∃ w, withdrawAmount reserveIn reserveOut x = some w) ∨
      withdrawAmount reserveIn reserveOut x = none ∧
        reserveOut.val * x.val < reserveIn.val + x.val := by
  have hpos : 0 < reserveIn.val := Fin.pos_iff_ne_zero.mpr hin
  have hsum := val_add hfits
  have hne : reserveIn + x ≠ 0 := fun hzero => by
    rw [hzero, Fin.val_zero] at hsum
    omega
  by_cases hzero : reserveOut.val * x.val / (reserveIn + x).val = 0
  · right
    refine ⟨Option.eq_none_iff_forall_ne_some.mpr fun w hw => ?_, ?_⟩
    · obtain ⟨-, -, hpays, hamount⟩ := withdrawAmount_eq_some.mp hw
      exact hpays (Fin.ext (hamount.trans hzero))
    · rw [hsum] at hzero
      exact (Nat.div_eq_zero_iff.mp hzero).resolve_left (by omega)
  · exact .inl ⟨⟨_, (Nat.div_le_self _ _).trans_lt hproduct⟩, withdrawAmount_eq_some.mpr
      ⟨hproduct, hne, fun h => hzero (congrArg Fin.val h), rfl⟩⟩

/-- **When the two kinds of swaps agree**: if the exact input of the amount that an exact output
asks for does not overflow.  A smaller input pays out less, or is refused. -/
theorem least_input_iff (hin : reserveIn ≠ 0)
    (h : depositAmount reserveIn reserveOut y = some x) :
    ((∃ w, withdrawAmount reserveIn reserveOut x = some w ∧ y ≤ w) ∧
        ∀ x' < x, (∃ w, withdrawAmount reserveIn reserveOut x' = some w ∧ w < y) ∨
          withdrawAmount reserveIn reserveOut x' = none ∧
            reserveOut.val * x'.val < reserveIn.val + x'.val) ↔
      reserveOut.val * x.val < 2 ^ 128 := by
  refine ⟨fun ⟨⟨w, hw, _⟩, _⟩ => (withdrawAmount_eq_some.mp hw).1, fun hproduct => ?_⟩
  have hy : 0 < y.val := Fin.pos_iff_ne_zero.mpr (require_bind_eq_some.mp h).1
  -- the sum is not above the product: each unit that is paid out is bought with the whole sum
  have hbought : reserveIn.val + x.val ≤ reserveOut.val * x.val :=
    (Nat.le_mul_of_pos_left _ hy).trans ((depositAmount_le_iff h _).mp le_rfl)
  have hbuys : ∀ x' ≤ x, (∃ w, withdrawAmount reserveIn reserveOut x' = some w ∧
      (y ≤ w ↔ x ≤ x')) ∨ withdrawAmount reserveIn reserveOut x' = none ∧
        reserveOut.val * x'.val < reserveIn.val + x'.val := by
    intro x' hle
    have hle : x'.val ≤ x.val := hle
    have hfits : reserveIn.val + x'.val < 2 ^ 128 := by omega
    refine (withdrawAmount_cases hin hfits
      ((Nat.mul_le_mul_left _ hle).trans_lt hproduct)).imp_left fun ⟨w, hw⟩ => ⟨w, hw, ?_⟩
    rw [Fin.le_def, Fin.le_def, le_withdrawAmount_iff hfits hw, depositAmount_le_iff h]
  refine ⟨?_, fun x' hlt => (hbuys x' hlt.le).imp_left fun ⟨w, hw, hiff⟩ =>
    ⟨w, hw, not_le.mp fun hle => hlt.not_ge (hiff.mp hle)⟩⟩
  rcases hbuys x le_rfl with ⟨w, hw, hiff⟩ | ⟨-, hzero⟩
  · exact ⟨w, hw, hiff.mpr le_rfl⟩
  · omega

theorem fourth_bought_least : depositAmount 1000 500 100 = some 250 ∧
    (∃ w, withdrawAmount 1000 500 250 = some w ∧ 100 ≤ w) ∧
      ∀ x' < 250, (∃ w, withdrawAmount 1000 500 x' = some w ∧ w < 100) ∨
        withdrawAmount 1000 500 x' = none ∧
          (500 : U128).val * x'.val < (1000 : U128).val + x'.val :=
  ⟨by decide, (least_input_iff (by decide) (by decide)).mpr (by decide)⟩

/-- All but one of 2²⁰ is bought for 2¹⁰⁰ (2²⁰ - 1), but not with an exact input. -/
theorem exact_input_overflows :
    depositAmount 1267650600228229401496703205376 1048576 1048575 =
        some 1329226728134315644674405563577139200 ∧
      withdrawAmount 1267650600228229401496703205376 1048576
        1329226728134315644674405563577139200 = none := by
  decide +kernel

end Amm

end Lssa
