import Mathlib.Data.Prod.Lex
import Mathlib.Order.Lattice
import Mathlib.Tactic.Common

/-!
# Addresses and timestamps

`IpAddr` of the standard library and `DateTime<Utc>` of chrono, each with the order
its derived `Ord` gives it, and the few chrono operations the pool uses.
-/

namespace SodaPool

inductive IpAddr
  | v4 (octets : BitVec 32)
  | v6 (octets : BitVec 128)
  deriving DecidableEq

namespace IpAddr

/-- All IPv4 addresses come before all IPv6 addresses. -/
def rank : IpAddr → ℕ
  | .v4 octets => octets.toNat
  | .v6 octets => 4294967296 + octets.toNat

theorem rank_injective : Function.Injective rank := by
  intro a b h
  cases a with
  | v4 x =>
    cases b with
    | v4 y => exact congrArg _ (BitVec.eq_of_toNat_eq h)
    | v6 y => simp only [rank] at h; omega
  | v6 x =>
    cases b with
    | v4 y => simp only [rank] at h; omega
    | v6 y => exact congrArg _ (BitVec.eq_of_toNat_eq (by simp only [rank] at h; omega))

instance : LinearOrder IpAddr := LinearOrder.lift' rank rank_injective

end IpAddr

/-- Whole seconds since the epoch and a nanosecond field; a field of a billion or more
stands for a leap second. -/
structure DateTime where
  secs : ℤ
  nanosecond : ℕ
  nanosecond_lt : nanosecond < 2000000000
  deriving DecidableEq

namespace DateTime

@[ext] theorem ext {t u : DateTime} (hs : t.secs = u.secs) (hn : t.nanosecond = u.nanosecond) :
    t = u := by
  cases t; cases u; cases hs; cases hn; rfl

/-- The derived order compares the seconds first, then the nanosecond field. -/
def rank (t : DateTime) : ℤ := t.secs*2147483648 + t.nanosecond

theorem rank_injective : Function.Injective rank := by
  intro t u h
  have ht := t.nanosecond_lt
  have hu := u.nanosecond_lt
  simp only [rank] at h
  exact ext (by omega) (by omega)

instance : LinearOrder DateTime := LinearOrder.lift' rank rank_injective

theorem le_iff_rank {t u : DateTime} : t ≤ u ↔ t.rank ≤ u.rank := Iff.rfl

/-- `DateTime::<Utc>::MIN_UTC`, the first day of the year -262143. -/
def minUtc : DateTime := ⟨-8334601228800,0,by decide⟩

/-- `Utc::now()`, when the system clock is `now` nanoseconds past the epoch. -/
def utc (now : ℕ) : DateTime :=
  ⟨(now/1000000000 : ℕ),now%1000000000,(Nat.mod_lt _ (by decide)).trans (by decide)⟩

/-- Nanoseconds since the epoch. -/
def nanos (t : DateTime) : ℤ := t.secs*1000000000 + t.nanosecond

/-- `+ Duration::from_secs(n)`. -/
def addSecs (t : DateTime) (n : ℕ) : DateTime := { t with secs := t.secs + n }

/-- `signed_duration_since` in nanoseconds; readings of the clock have no leap seconds. -/
def signedDurationSince (t u : DateTime) : ℤ := t.nanos - u.nanos

/-- `with_nanosecond` refuses what does not fit the field. -/
def withNanosecond (t : DateTime) (n : ℕ) : Option DateTime :=
  if h : n < 2000000000 then some ⟨t.secs,n,h⟩ else none

@[simp] theorem utc_nanosecond (now : ℕ) : (utc now).nanosecond = now%1000000000 := rfl

@[simp] theorem nanos_utc (now : ℕ) : (utc now).nanos = now := by
  simp only [nanos,utc]
  omega

@[simp] theorem nanos_addSecs (t : DateTime) (n : ℕ) :
    (t.addSecs n).nanos = t.nanos + n*1000000000 := by
  simp only [nanos,addSecs]
  omega

end DateTime
end SodaPool
