import Emlinux.Lib.Ring
import Emlinux.Lib.Splice
import Mathlib.Data.Nat.ModEq

/-!
# Counters that wrap

A counter that only goes up is kept modulo `m`, and its position on a ring of `n` places, of which `m` is a multiple, is its rest. The start of a
lap and the position make up the counter, and the lap after the last one before `m` starts at 0. The distance of two counters less than `m`
apart is what is left when `m` is added or taken off.

One who follows a counter `t` from its positions alone is at `h`. The ring is divided into sections of `c` places. While the counter has not left
the section in which it was seen last, its position is not further behind than half the ring (`InStep`), and a position that is further behind
is one of the next lap.

A list that is written on a ring at the position of `x`, up to its end at most, leaves the places of the last `n` counts before the end of the list
(`splice_before`, `splice_at`).
-/

namespace Emlinux.Lib

variable {n m q r x y : Nat}

/-- There is room for the lap in which a lap starts. -/
theorem lap_le (hm : n ∣ m) (hpos : 0 < m) (q : Nat) : q * n % m + n ≤ m := by
  obtain ⟨k, rfl⟩ := hm
  have hlt : q % k < k := Nat.mod_lt _ (Nat.pos_of_mul_pos_left hpos)
  rw [Nat.mul_comm q n, Nat.mul_mod_mul_left, ← Nat.mul_succ]
  exact Nat.mul_le_mul_left n hlt

/-- The start of a lap and a position in it. -/
theorem lap_add (hm : n ∣ m) (hpos : 0 < m) (hr : r < n) : q * n % m + r = (q * n + r) % m := by
  have hle := lap_le hm hpos q
  rw [← Nat.mod_add_mod (q * n) m r, Nat.mod_eq_of_lt (show q * n % m + r < m by omega)]

theorem lap_mod (hm : n ∣ m) (hpos : 0 < m) (x : Nat) : x / n * n % m + x % n = x % m := by
  rw [lap_add hm hpos (Nat.mod_lt x (Nat.pos_of_dvd_of_pos hm hpos)), Nat.div_add_mod']

theorem lap_start (hm : n ∣ m) (hpos : 0 < m) (x : Nat) : x % m - x % m % n = x / n * n % m := by
  have h := lap_mod hm hpos x
  rw [Nat.mod_mod_of_dvd x hm]
  omega

/-- The start of the next lap. -/
theorem lap_next (hm : n ∣ m) (hpos : 0 < m) (q : Nat) : (if q * n % m + n = m then 0 else q * n % m + n) = (q + 1) * n % m := by
  have hle := lap_le hm hpos q
  rw [Nat.add_mul, Nat.one_mul, ← Nat.mod_add_mod (q * n) m n]
  split_ifs with h
  · rw [h, Nat.mod_self]
  · rw [Nat.mod_eq_of_lt (show q * n % m + n < m by omega)]

/-- A counter goes up by no more than `m`. -/
theorem wrap_add (hy : y ≤ m) (hpos : 0 < m) (x : Nat) : (if m ≤ x % m + y then x % m + y - m else x % m + y) = (x + y) % m := by
  have hx := Nat.mod_lt x hpos
  rw [← Nat.mod_add_mod x m y]
  split_ifs with h
  · rw [Nat.mod_eq_sub_mod h, Nat.mod_eq_of_lt (show x % m + y - m < m by omega)]
  · rw [Nat.mod_eq_of_lt (show x % m + y < m by omega)]

/-- The distance of `y` behind `x`, up to `n` more than what the counters show. -/
theorem wrap_sub (hyx : y ≤ x + n) (hlt : x + n < y + m) (hn : n ≤ m) :
    (let d : Int := (x % m : Nat) + n - (y % m : Nat); (if d < 0 then d + m else if (m : Int) ≤ d then d - m else d).toNat) = x + n - y := by
  have hpos : 0 < m := by omega
  have hx := Nat.mod_lt x hpos
  have hy := Nat.mod_lt y hpos
  have hmod : ((x % m : Nat) + n - (y % m : Nat) : Int) ≡ x + n - y [ZMOD m] := by
    rw [Int.natCast_mod, Int.natCast_mod]
    exact ((Int.mod_modEq x m).add_right n).sub (Int.mod_modEq y m)
  have hself : ((x : Int) + n - y) % m = x + n - y := Int.emod_eq_of_lt (by omega) (by omega)
  unfold Int.ModEq at hmod
  rw [hself] at hmod
  dsimp only
  generalize hd : ((x % m : Nat) + n - (y % m : Nat) : Int) = d at hmod
  split_ifs with hneg hbig
  · rw [← Int.add_emod_right, Int.emod_eq_of_lt (by omega) (by omega)] at hmod
    omega
  · rw [← Int.sub_emod_right, Int.emod_eq_of_lt (by omega) (by omega)] at hmod
    omega
  · rw [Int.emod_eq_of_lt (by omega) (by omega)] at hmod
    omega

/-! ## A list on a ring -/

section Ring

variable {α : Type*} {f : Nat → α} {xs : List α}

theorem mod_add_of_lt {i : Nat} (hi : x % n + i < n) : (x + i) % n = x % n + i := by
  rw [← Nat.mod_add_mod, Nat.mod_eq_of_lt hi]

theorem splice_before (hlen : xs.length ≤ n - x % n) (hlt : y < x) (hfit : x + xs.length ≤ y + n) :
    splice f (x % n) xs (y % n) = f (y % n) := by
  rcases Nat.lt_or_ge (y % n) (x % n) with hbefore | hge
  · exact splice_of_lt hbefore
  rcases Nat.lt_or_ge (y % n) (x % n + xs.length) with hin | hbehind
  · -- a place of the list is the place of a count that is less than a lap away
    exfalso
    have hmod : (x + (y % n - x % n)) % n = y % n := by
      rw [mod_add_of_lt (by omega)]
      omega
    have hdvd : n ∣ x + (y % n - x % n) - y := Nat.dvd_of_mod_eq_zero (Nat.sub_mod_eq_zero_of_mod_eq hmod)
    have hle := Nat.le_of_dvd (by omega) hdvd
    omega
  · exact splice_of_ge hbehind

theorem splice_at (hlen : xs.length ≤ n - x % n) (hle : x ≤ y) (hlt : y < x + xs.length) :
    splice f (x % n) xs (y % n) = xs.getD (y - x) (f 0) := by
  have hmod : y % n = x % n + (y - x) := by
    rw [← mod_add_of_lt (show x % n + (y - x) < n by omega), Nat.add_sub_cancel' hle]
  rw [hmod, splice_of_mem (by omega) (by omega), Nat.add_sub_cancel_left]

end Ring

/-! ## Following a counter -/

section Follow

variable {c h t u : Nat}

/-- The position of `t` is before the end of the section of `h`, by no more than half the ring. -/
def InStep (n c h t : Nat) : Prop := t % n < h % n / c * c + c ∧ h % n / c * c + c ≤ t % n + n / 2

theorem section_le (c r : Nat) : r / c * c ≤ r := Nat.div_mul_le_self r c

theorem lt_section (hc : 0 < c) (r : Nat) : r < r / c * c + c := Nat.lt_div_mul_add hc

theorem section_unique (hc : 0 < c) (hle : h ≤ t) (hlt : t < h / c * c + c) : t / c = h / c := by
  have h1 : h / c ≤ t / c := Nat.div_le_div_right hle
  have h2 : t / c < h / c + 1 := by
    rw [Nat.div_lt_iff_lt_mul hc, Nat.add_mul, Nat.one_mul]
    exact hlt
  omega

/-- The start of a section, by the lap that it is in. -/
theorem section_eq (hn : c ∣ n) (h : Nat) : h / c * c = h / n * n + h % n / c * c := by
  have hdvd : c ∣ h / n * n := Dvd.dvd.mul_left hn _
  calc h / c * c = (h / n * n + h % n) / c * c := by rw [Nat.div_add_mod']
    _ = h / n * n + h % n / c * c := by rw [Nat.add_div_of_dvd_right hdvd, Nat.add_mul, Nat.div_mul_cancel hdvd]

/-- Sections end with the ring. -/
theorem section_add_le (hn : c ∣ n) (hr : r < n) : r / c * c + c ≤ n := by
  obtain ⟨k, rfl⟩ := hn
  have hlt : r / c < k := Nat.div_lt_of_lt_mul hr
  rw [← Nat.succ_mul, Nat.mul_comm c k]
  exact Nat.mul_le_mul_right c hlt

/-- One who has seen the counter is in step. -/
theorem InStep.seen (hc : 0 < c) (h2 : 2 * c ≤ n) (he : t % n = h % n) : InStep n c h t := by
  have h1 := lt_section hc (h % n)
  have h3 := section_le c (h % n)
  unfold InStep
  omega

theorem forward_mod (hn : 0 < n) (hle : t ≤ u) : forward n (t % n) (u % n) = (u - t) % n := by
  have ht := Nat.mod_lt t hn
  have h1 : u % n + n - t % n + t % n ≡ u [MOD n] := by
    rw [show u % n + n - t % n + t % n = u % n + n by omega]
    exact (Nat.add_modEq_right).trans (Nat.mod_modEq u n)
  have h2 : u - t + t % n ≡ u [MOD n] := by
    have h := (Nat.mod_modEq t n).add_left (u - t)
    rwa [Nat.sub_add_cancel hle] at h
  exact Nat.ModEq.add_right_cancel' (t % n) (h1.trans h2.symm)

theorem forward_le (hn : 0 < n) (hle : t ≤ u) : forward n (t % n) (u % n) ≤ u - t := by
  rw [forward_mod hn hle]
  exact Nat.mod_le _ _

/-- The counter goes on within a section. -/
theorem InStep.stay (hn : c ∣ n) (hpos : 0 < n) (hc : 0 < c) (hs : InStep n c h t) (hstay : t % c + forward n (t % n) (u % n) < c) :
    InStep n c h u := by
  have ht := Nat.mod_lt t hpos
  have hend := section_add_le hn ht
  have hrest := Nat.div_add_mod' (t % n) c
  rw [Nat.mod_mod_of_dvd t hn] at hrest
  have hu : u % n = t % n + forward n (t % n) (u % n) := by
    have h := add_forward_mod ht (Nat.mod_lt u hpos)
    rwa [Nat.mod_eq_of_lt (show t % n + forward n (t % n) (u % n) < n by omega), eq_comm] at h
  have hsec : t % n / c * c ≤ h % n / c * c := by
    have hlt : t % n / c < h % n / c + 1 := by
      rw [Nat.div_lt_iff_lt_mul hc, Nat.add_mul, Nat.one_mul]
      exact hs.1
    exact Nat.mul_le_mul_right c (Nat.le_of_lt_succ hlt)
  unfold InStep at hs ⊢
  omega

/-- The counter leaves a section. -/
theorem section_left (hn : 0 < n) (hle : t ≤ u) (hht : h ≤ t) (hleft : c ≤ t % c + forward n (t % n) (u % n)) : h / c * c + c ≤ u := by
  have h1 := forward_le hn hle
  have h2 := Nat.div_add_mod' t c
  have h3 : h / c * c ≤ t / c * c := Nat.mul_le_mul_right c (Nat.div_le_div_right hht)
  omega

/-- The position is not behind that of the one who follows, so it is taken to be in the same lap. -/
theorem same_lap (hle : h ≤ t) (hr : h % n ≤ t % n) : h ≤ h / n * n + t % n ∧ h / n * n + t % n ≤ t := by
  have h1 := Nat.div_add_mod' h n
  have h2 := Nat.div_add_mod' t n
  have h3 : h / n * n ≤ t / n * n := Nat.mul_le_mul_right n (Nat.div_le_div_right hle)
  omega

/-- The position is before one that the counter has passed in the lap `q`, so the counter is in a later lap. -/
theorem later_lap {a : Nat} (hle : q * n + a ≤ t) (hr : t % n < a) : (q + 1) * n + t % n ≤ t := by
  have h1 := Nat.div_add_mod' t n
  have hlt : q < t / n := by
    by_contra hge
    have h2 : t / n * n ≤ q * n := Nat.mul_le_mul_right n (by omega)
    omega
  have h3 : (q + 1) * n ≤ t / n * n := Nat.mul_le_mul_right n hlt
  omega

/-- It is in the next lap when it has not gone on for another. -/
theorem lap_unique (hle : q * n + t % n ≤ t) (hlt : t < q * n + t % n + n) : q * n + t % n = t := by
  have h1 := Nat.div_add_mod' t n
  have h2 : q * n ≤ t / n * n := by omega
  have h3 : t / n * n < (q + 1) * n := by
    rw [Nat.add_mul]
    omega
  have hn : 0 < n := by
    by_contra h0
    omega
  have h4 : t / n < q + 1 := Nat.lt_of_mul_lt_mul_right h3
  have h5 : q ≤ t / n := Nat.le_of_mul_le_mul_right h2 hn
  rw [show q = t / n by omega]
  exact h1

end Follow

end Emlinux.Lib
