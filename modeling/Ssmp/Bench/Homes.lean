import Ssmp.Bench.Roles
import Ssmp.Pow2roundup

/-!
# Bench.Homes — where `benchmarks/bank.c` keeps an account

The number of accounts is rounded up to a power of two and divided by the number of servers, without
a remainder.  An account number is mapped to a server by a division and to a local index by the
remainder.  If there is a remainder, the accounts of it end up with the server 0 of the unused
entries of `dsl_seq`; if there are more servers than accounts, the divisor is 0.
-/

namespace Ssmp
namespace Bench

/-! ## Arguments -/

/-- The options of the benchmark, in the ranges that `main` and their types leave. -/
structure BankArgs where
  numProcs : Nat
  dslPerCore : Nat
  nbAccounts : UInt32
  numProcs_pos : 0 < numProcs
  numProcs_le : numProcs ≤ 255
  two_le_dslPerCore : 2 ≤ dslPerCore
  two_le_nbAccounts : 2 ≤ nbAccounts.toNat
  nbAccounts_le : nbAccounts.toNat ≤ 2 ^ 30

namespace BankArgs

variable (args : BankArgs)

/-- `nb_accounts` after `main` has rounded it up. -/
def accounts : UInt32 :=
  pow2roundup args.nbAccounts

def roles : Roles :=
  assignRoles args.dslPerCore args.numProcs

/-- `nb_accounts / num_dsl`: `nb_accounts_per_dsl` of the applications, and `nb_accounts_mine` of
every server; a division by zero where there is no server. -/
def accountsPerDsl : Nat :=
  args.accounts.toNat / args.roles.numDsl.toNat

/-- `get_dsl`; `none` is a division by zero, or an index behind the table. -/
def getDsl (accNum nbAccsPerDsl : Nat) : Option UInt8 :=
  if nbAccsPerDsl = 0 then none
  else if accNum / nbAccsPerDsl < 256 then some (args.roles.dslSeq (accNum / nbAccsPerDsl))
  else none

/-- The account number that an application draws, `r` being what `my_random` returns. -/
def draw (r : UInt32) : UInt32 :=
  r &&& (args.accounts - 1)

/-- Every account that can be drawn has a home of its own: a server and a local index among the
accounts that it has allocated. -/
structure OneHome : Prop where
  servers : args.roles.numDsl.toNat ≠ 0
  divisor : args.accountsPerDsl ≠ 0
  home : ∀ r, ∃ dsl, args.getDsl (args.draw r).toNat args.accountsPerDsl = some dsl ∧
    dsl.toNat < args.numProcs ∧ colorDsl args.dslPerCore dsl.toNat = true ∧
    (args.draw r).toNat % args.accountsPerDsl < args.accountsPerDsl
  unique : ∀ r r', args.draw r ≠ args.draw r' →
    (args.getDsl (args.draw r).toNat args.accountsPerDsl,
        (args.draw r).toNat % args.accountsPerDsl) ≠
      (args.getDsl (args.draw r').toNat args.accountsPerDsl,
        (args.draw r').toNat % args.accountsPerDsl)

/-! ## Accounts and servers -/

variable {args}

theorem accounts_toNat : args.accounts.toNat = 2 ^ Nat.clog 2 args.nbAccounts.toNat := by
  have := args.nbAccounts_le
  exact pow2roundup_toNat (by omega)

theorem accounts_le : args.accounts.toNat ≤ 2 ^ 30 := by
  rw [accounts_toNat]
  exact Nat.pow_le_pow_right (by decide) ((Nat.clog_le_iff_le_pow (by decide)).2 args.nbAccounts_le)

theorem accounts_pos : 0 < args.accounts.toNat := by
  have := args.nbAccounts_le
  exact one_le_pow2roundup (by omega)

/-- The mask leaves the remainder by a power of two. -/
theorem draw_toNat (r : UInt32) : (args.draw r).toNat = r.toNat % args.accounts.toNat := by
  have := args.nbAccounts_le
  exact and_pow2roundup_toNat (by omega) r

theorem draw_lt (r : UInt32) : (args.draw r).toNat < args.accounts.toNat := by
  rw [draw_toNat]
  exact Nat.mod_lt _ accounts_pos

/-- Every account number can be drawn. -/
theorem exists_draw {acc : Nat} (hacc : acc < args.accounts.toNat) :
    ∃ r, (args.draw r).toNat = acc := by
  have hword : acc % 2 ^ 32 = acc := by
    have := @accounts_le args
    exact Nat.mod_eq_of_lt (by omega)
  refine ⟨UInt32.ofNat acc, ?_⟩
  rw [draw_toNat, UInt32.toNat_ofNat', hword, Nat.mod_eq_of_lt hacc]

theorem dslPerCore_pos : 0 < args.dslPerCore :=
  Nat.lt_of_lt_of_le (by decide) args.two_le_dslPerCore

/-- The number of servers, and the table. -/
theorem roles_spec : ∃ d, args.roles.numDsl.toNat = d ∧ 0 < d ∧ 2 * d ≤ 256 ∧
    args.roles.Found args.dslPerCore args.numProcs d := by
  rcases Roles.found_assignRoles args.dslPerCore_pos args.numProcs_le with ⟨d, h⟩
  have hle := h.le
  have hn := args.numProcs_le
  have hpos := args.numProcs_pos
  have hd : 0 < d := by
    by_contra hzero
    have hcovers := h.covers
    rw [show d = 0 by omega, Nat.zero_mul] at hcovers
    omega
  refine ⟨d, ?_, hd, ?_, h⟩
  · exact h.numDsl_toNat hn
  · -- the last server has an id of at least twice its place in the table
    have hlast := h.below (d - 1) (by omega)
    have htwo : (d - 1) * 2 ≤ (d - 1) * args.dslPerCore :=
      Nat.mul_le_mul_left _ args.two_le_dslPerCore
    omega

theorem dslSeq_toNat {d j : Nat} (h : args.roles.Found args.dslPerCore args.numProcs d)
    (hj : j < d) : (args.roles.dslSeq j).toNat = j * args.dslPerCore :=
  h.dslSeq_toNat args.numProcs_le hj

theorem getDsl_eq {acc per : Nat} (hper : 0 < per) (hlt : acc / per < 256) :
    args.getDsl acc per = some (args.roles.dslSeq (acc / per)) := by
  rw [getDsl, if_neg (Nat.ne_of_gt hper), if_pos hlt]

/-! ## When every account has one home -/

/-- The quotient of an account number is a place in the table. -/
theorem div_lt_of_dvd {N d acc : Nat} (hdvd : d ∣ N) (hacc : acc < N) : acc / (N / d) < d := by
  have hmul : N / d * d = N := Nat.div_mul_cancel hdvd
  have hpos : 0 < N / d := by
    rcases Nat.eq_zero_or_pos (N / d) with hzero | hpos
    · rw [hzero, Nat.zero_mul] at hmul
      omega
    · exact hpos
  rw [Nat.div_lt_iff_lt_mul hpos, Nat.mul_comm, hmul]
  exact hacc

theorem oneHome_of_dvd (hdvd : args.roles.numDsl.toNat ∣ args.accounts.toNat) : args.OneHome := by
  rcases @roles_spec args with ⟨d, hd, hpos, hroom, hfound⟩
  rw [hd] at hdvd
  have hper : args.accountsPerDsl = args.accounts.toNat / d := by rw [accountsPerDsl, hd]
  have hperpos : 0 < args.accountsPerDsl := by
    rw [hper]
    exact Nat.div_pos (Nat.le_of_dvd accounts_pos hdvd) hpos
  -- where an account goes
  have hget : ∀ r, (args.draw r).toNat / args.accountsPerDsl < d ∧
      args.getDsl (args.draw r).toNat args.accountsPerDsl =
        some (args.roles.dslSeq ((args.draw r).toNat / args.accountsPerDsl)) := by
    intro r
    have hlt : (args.draw r).toNat / args.accountsPerDsl < d := by
      rw [hper]
      exact div_lt_of_dvd hdvd (draw_lt r)
    exact ⟨hlt, getDsl_eq hperpos (by omega)⟩
  refine ⟨by omega, by omega, ?_, ?_⟩
  · intro r
    rcases hget r with ⟨hlt, hsome⟩
    have hserver := hfound.server_iff.2 ⟨_, hlt, (dslSeq_toNat hfound hlt)⟩
    exact ⟨_, hsome, hserver.1, hserver.2, Nat.mod_lt _ hperpos⟩
  · intro r r' hne heq
    rcases hget r with ⟨hlt, hsome⟩
    rcases hget r' with ⟨hlt', hsome'⟩
    rcases Prod.mk.inj heq with ⟨hdsl, hmod⟩
    rw [hsome, hsome'] at hdsl
    have hid := congrArg UInt8.toNat (Option.some.inj hdsl)
    rw [dslSeq_toNat hfound hlt, dslSeq_toNat hfound hlt'] at hid
    -- same place in the table and same remainder
    have hdiv := Nat.eq_of_mul_eq_mul_right args.dslPerCore_pos hid
    refine hne (UInt32.toNat_inj.1 ?_)
    rw [← Nat.div_add_mod (args.draw r).toNat args.accountsPerDsl, hdiv, hmod, Nat.div_add_mod]

/-- The first account of the remainder shares its home with account 0. -/
theorem dvd_of_oneHome (h : args.OneHome) : args.roles.numDsl.toNat ∣ args.accounts.toNat := by
  rcases @roles_spec args with ⟨d, hd, hpos, hroom, hfound⟩
  by_contra hdvd
  rw [hd] at hdvd
  have hper : args.accountsPerDsl = args.accounts.toNat / d := by rw [accountsPerDsl, hd]
  have hperpos : 0 < args.accountsPerDsl := Nat.pos_of_ne_zero h.divisor
  have hlt : args.accountsPerDsl * d < args.accounts.toNat := by
    rw [hper]
    refine Nat.lt_of_le_of_ne (Nat.div_mul_le_self _ _) ?_
    intro heq
    exact hdvd ⟨_, by rw [Nat.mul_comm]; exact heq.symm⟩
  rcases exists_draw hlt with ⟨r, hr⟩
  rcases exists_draw accounts_pos with ⟨r', hr'⟩
  have hne : args.draw r ≠ args.draw r' := by
    intro heq
    rw [heq, hr'] at hr
    have := Nat.mul_pos hperpos hpos
    omega
  refine h.unique r r' hne ?_
  have hquot : args.accountsPerDsl * d / args.accountsPerDsl = d := Nat.mul_div_cancel_left d hperpos
  -- the entry behind the last server is 0, as the entry of the first server is
  have hlast : args.roles.dslSeq d = args.roles.dslSeq 0 := by
    rw [hfound.dslSeq, hfound.dslSeq, if_neg (Nat.lt_irrefl d), if_pos hpos, Nat.zero_mul]
    rfl
  have hget : args.getDsl (args.accountsPerDsl * d) args.accountsPerDsl =
      some (args.roles.dslSeq d) := by
    have hd' := @getDsl_eq args _ _ hperpos (hquot.trans_lt (by omega : d < 256))
    rwa [hquot] at hd'
  have hget' : args.getDsl 0 args.accountsPerDsl = some (args.roles.dslSeq 0) := by
    have hzero := @getDsl_eq args 0 _ hperpos (by simp)
    rwa [Nat.zero_div] at hzero
  rw [hr, hr', hget, hget', hlast, Nat.mul_mod_right, Nat.zero_mod]

/-- Every account has one home if and only if the number of servers divides the rounded number of
accounts. -/
theorem oneHome_iff (args : BankArgs) :
    args.OneHome ↔ args.roles.numDsl.toNat ∣ args.accounts.toNat :=
  ⟨dvd_of_oneHome, oneHome_of_dvd⟩

/-- Four accounts and three servers among six processes. -/
def fourOfThree : BankArgs where
  numProcs := 6
  dslPerCore := defaultDslPerCore
  nbAccounts := 4
  numProcs_pos := by decide
  numProcs_le := by decide
  two_le_dslPerCore := Nat.le_refl defaultDslPerCore
  two_le_nbAccounts := by decide
  nbAccounts_le := by decide

/-- Two accounts and three servers. -/
def twoOfThree : BankArgs where
  numProcs := 6
  dslPerCore := defaultDslPerCore
  nbAccounts := 2
  numProcs_pos := by decide
  numProcs_le := by decide
  two_le_dslPerCore := Nat.le_refl defaultDslPerCore
  two_le_nbAccounts := by decide
  nbAccounts_le := by decide

/-- Accounts 0 and 3 share the first account of process 0; with two accounts the divisor is 0. -/
theorem not_oneHome_three :
    fourOfThree.getDsl (fourOfThree.draw 3).toNat fourOfThree.accountsPerDsl = some 0 ∧
      fourOfThree.getDsl (fourOfThree.draw 0).toNat fourOfThree.accountsPerDsl = some 0 ∧
      (fourOfThree.draw 3).toNat % fourOfThree.accountsPerDsl =
        (fourOfThree.draw 0).toNat % fourOfThree.accountsPerDsl ∧
      ¬ fourOfThree.OneHome ∧ twoOfThree.accountsPerDsl = 0 ∧ ¬ twoOfThree.OneHome := by
  have hsame : fourOfThree.getDsl (fourOfThree.draw 3).toNat fourOfThree.accountsPerDsl =
      fourOfThree.getDsl (fourOfThree.draw 0).toNat fourOfThree.accountsPerDsl := by decide +kernel
  have hmod : (fourOfThree.draw 3).toNat % fourOfThree.accountsPerDsl =
      (fourOfThree.draw 0).toNat % fourOfThree.accountsPerDsl := by decide +kernel
  have hzero : twoOfThree.accountsPerDsl = 0 := by decide +kernel
  refine ⟨by decide +kernel, by decide +kernel, hmod, ?_, hzero, fun h => h.divisor hzero⟩
  intro h
  exact h.unique 3 0 (by decide +kernel) (by rw [hsame, hmod])

end BankArgs

end Bench
end Ssmp
