import Emlinux.Gpt.Timer

/-!
# The busy delay

`gpt_time_udelay` without a callback reads the counter, adds the ticks of the delay, and polls until the counter is there. The ticks are
computed in 32 bits, so that a product of 2^32 or more gives a delay that is too short. When the sum wraps, the loop that should see the
counter wrap compares it with the largest word, and does not end. And where the end value is close to the largest word, polls that are not at
every tick can miss the values behind it.

* `Polls`: when the counter is polled; between two polls at most `g` ticks are not seen.
* `LongEnough`: the delay returns, and not too early.
* `longEnough_iff`: when it does for all polls.
-/

namespace Emlinux.Gpt

open Lib

/-- Where the busy branch of `gpt_time_udelay` is: in the loop for a sum that wraps, in the loop for the end value, or at its end. -/
inductive Busy where
  | wrap (limit : Word)
  | wait (limit : Word)
  | done
deriving DecidableEq, Repr

/-- One poll, which reads `cnt`. -/
def Busy.poll (cnt : Word) : Busy → Busy
  | .wrap limit => if cnt ≤ ~~~0#32 then .wrap limit else .wait limit
  | .wait limit => if cnt < limit then .wait limit else .done
  | .done => .done

/-- From `gpt_profile_start` to the first poll. -/
def busyStart (t : Context) (usec : Word) : Busy :=
  let cnt := t.reg.cnt
  let ticks := usec * t.freq / 1000000#32
  if ticks + cnt < cnt then .wrap (cnt + ticks) else .wait (cnt + ticks)

/-- The ticks at which the counter is polled, from the start of the delay on: there is a poll among any `g + 1` ticks in a row. -/
structure Polls (g : Nat) where
  tick : Nat → Nat
  mono : Monotone tick
  dense : ∀ n, ∃ i, n ≤ tick i ∧ tick i ≤ n + g

/-- The busy branch after `n` polls. -/
def busyAfter (t : Context) (usec : Word) (tick : Nat → Nat) : Nat → Busy
  | 0 => busyStart t usec
  | n + 1 => (busyAfter t usec tick n).poll (t.reg.cnt + BitVec.ofNat 32 (tick n))

/-- The delay in ticks, computed without overflow. -/
def Context.ticks (t : Context) (usec : Word) : Nat := usec.toNat * t.freq.toNat / 1000000

/-- Some poll is the last one, and by then the delay has passed. -/
def LongEnough (t : Context) (usec : Word) (tick : Nat → Nat) : Prop :=
  ∃ n, busyAfter t usec tick n ≠ .done ∧ busyAfter t usec tick (n + 1) = .done ∧ t.ticks usec ≤ tick n

/-- A poll at every tick. -/
def everyTick (g : Nat) : Polls g where
  tick := id
  mono := monotone_id
  dense := fun n => ⟨n, le_rfl, Nat.le_add_right n g⟩

section Busy

variable {t : Context} {usec limit : Word} {tick : Nat → Nat}

/-- The loop for a sum that wraps does not end. -/
theorem busyAfter_wrap (h : busyStart t usec = .wrap limit) (n : Nat) : busyAfter t usec tick n = .wrap limit := by
  induction n with
  | zero => exact h
  | succ n ih =>
    have hle : ∀ c : Word, c ≤ ~~~0#32 := fun c => by
      rw [BitVec.le_def]
      have hlt := c.isLt
      have hall : (~~~0#32 : Word).toNat = 2 ^ 32 - 1 := rfl
      omega
    rw [busyAfter, ih, Busy.poll, if_pos (hle _)]

/-- The other loop goes on while the counter is below the end value. -/
theorem busyAfter_wait (h : busyStart t usec = .wait limit) {n : Nat}
    (hn : ∀ m < n, t.reg.cnt + BitVec.ofNat 32 (tick m) < limit) : busyAfter t usec tick n = .wait limit := by
  induction n with
  | zero => exact h
  | succ n ih => rw [busyAfter, ih fun m hm => hn m (Nat.lt_succ_of_lt hm), Busy.poll, if_pos (hn n (Nat.lt_succ_self n))]

theorem busyAfter_done {m n : Nat} (h : busyAfter t usec tick m = .done) (hmn : m ≤ n) : busyAfter t usec tick n = .done := by
  induction n, hmn using Nat.le_induction with
  | base => exact h
  | succ n _ ih => rw [busyAfter, ih, Busy.poll]

/-- The first poll that reads the end value, or a larger one, is the last. -/
theorem longEnough_wait (h : busyStart t usec = .wait limit) {n : Nat} (hn : ∀ m < n, t.reg.cnt + BitVec.ofNat 32 (tick m) < limit)
    (hlast : ¬ t.reg.cnt + BitVec.ofNat 32 (tick n) < limit) : LongEnough t usec tick ↔ t.ticks usec ≤ tick n := by
  have hbefore : ∀ m ≤ n, busyAfter t usec tick m = .wait limit := fun m hm =>
    busyAfter_wait h fun k hk => hn k (Nat.lt_of_lt_of_le hk hm)
  have hdone : busyAfter t usec tick (n + 1) = .done := by rw [busyAfter, hbefore n le_rfl, Busy.poll, if_neg hlast]
  constructor
  · rintro ⟨m, hm, hm1, hle⟩
    obtain rfl : m = n := by
      apply Nat.le_antisymm
      · by_contra hlt
        exact hm (busyAfter_done hdone (by omega))
      · by_contra hlt
        rw [hbefore (m + 1) (by omega)] at hm1
        cases hm1
    exact hle
  · exact fun hle => ⟨n, by rw [hbefore n le_rfl]; exact Busy.noConfusion, hdone, hle⟩

end Busy

/-- What the users of the timer wait for is what the loop waits for, or nothing where that does not end. -/
theorem waitLimit_eq_some_iff (t : Context) (usec l : Word) : waitLimit t usec = some l ↔ busyStart t usec = .wait l := by
  unfold waitLimit busyStart
  dsimp only
  split_ifs with hw
  · exact iff_of_false nofun nofun
  · rw [Option.some_inj, Busy.wait.injEq]

/-! ## The end value -/

section Ticks

variable {t : Context} {usec : Word}

/-- The ticks as the code computes them. -/
theorem toNat_ticks (t : Context) (usec : Word) :
    (usec * t.freq / 1000000#32).toNat = usec.toNat * t.freq.toNat % 2 ^ 32 / 1000000 := by
  rw [BitVec.toNat_udiv, BitVec.toNat_mul]
  rfl

/-- They are the delay when the product does not wrap, and fewer otherwise. -/
theorem ticks_le_iff : t.ticks usec ≤ (usec * t.freq / 1000000#32).toNat ↔ usec.toNat * t.freq.toNat < 2 ^ 32 := by
  rw [toNat_ticks, Context.ticks]
  generalize usec.toNat * t.freq.toNat = p
  omega

theorem busyStart_wrap (h : 2 ^ 32 ≤ t.reg.cnt.toNat + (usec * t.freq / 1000000#32).toNat) :
    busyStart t usec = .wrap (t.reg.cnt + usec * t.freq / 1000000#32) := by
  have hc := t.reg.cnt.isLt
  have ht := (usec * t.freq / 1000000#32).isLt
  unfold busyStart
  dsimp only
  rw [if_pos]
  rw [BitVec.lt_def, BitVec.toNat_add]
  omega

theorem busyStart_wait (h : t.reg.cnt.toNat + (usec * t.freq / 1000000#32).toNat < 2 ^ 32) :
    busyStart t usec = .wait (t.reg.cnt + usec * t.freq / 1000000#32) := by
  unfold busyStart
  dsimp only
  rw [if_neg]
  rw [BitVec.lt_def, BitVec.toNat_add]
  omega

/-- Whether a poll reads less than the end value. -/
theorem read_lt_iff (h : t.reg.cnt.toNat + (usec * t.freq / 1000000#32).toNat < 2 ^ 32) (n : Nat) :
    t.reg.cnt + BitVec.ofNat 32 n < t.reg.cnt + usec * t.freq / 1000000#32 ↔
      (t.reg.cnt.toNat + n) % 2 ^ 32 < t.reg.cnt.toNat + (usec * t.freq / 1000000#32).toNat := by
  rw [BitVec.lt_def, BitVec.toNat_add, BitVec.toNat_add, BitVec.toNat_ofNat, Nat.add_mod_mod, Nat.mod_eq_of_lt h]

/-- Polls that see the counter only while it is below `lim`, when the values from there on are at most `g`. -/
def missing (c lim g : Nat) (h0 : 0 < lim) (h : 2 ^ 32 ≤ lim + g) : Polls g where
  tick i := if (c + i) % 2 ^ 32 < lim then i else i + (2 ^ 32 - (c + i) % 2 ^ 32)
  mono := by
    apply monotone_nat_of_le_succ
    intro i
    split_ifs with h1 h2 <;> omega
  dense := by
    intro n
    refine ⟨n, ?_⟩
    split_ifs with h1 <;> omega

theorem missing_lt {c lim g : Nat} (h0 : 0 < lim) (h : 2 ^ 32 ≤ lim + g) (i : Nat) : (c + (missing c lim g h0 h).tick i) % 2 ^ 32 < lim := by
  unfold missing
  dsimp only
  split_ifs with h1 <;> omega

end Ticks

/-- With every tick polled, or more, a delay that does not wrap ends after the ticks that the code computed. -/
theorem everyTick_longEnough {t : Context} {usec : Word} (g : Nat)
    (hw : t.reg.cnt.toNat + (usec * t.freq / 1000000#32).toNat < 2 ^ 32) :
    LongEnough t usec (everyTick g).tick ↔ usec.toNat * t.freq.toNat < 2 ^ 32 := by
  rw [longEnough_wait (busyStart_wait hw) (n := (usec * t.freq / 1000000#32).toNat), ← ticks_le_iff]
  · rfl
  · intro m hm
    rw [read_lt_iff hw]
    show (t.reg.cnt.toNat + m) % 2 ^ 32 < _
    omega
  · rw [read_lt_iff hw]
    show ¬ (t.reg.cnt.toNat + (usec * t.freq / 1000000#32).toNat) % 2 ^ 32 < _
    omega

theorem not_longEnough_wrap {t : Context} {usec : Word} (hw : 2 ^ 32 ≤ t.reg.cnt.toNat + (usec * t.freq / 1000000#32).toNat)
    (tick : Nat → Nat) : ¬ LongEnough t usec tick := by
  rintro ⟨n, -, hn, -⟩
  rw [busyAfter_wrap (busyStart_wrap hw)] at hn
  cases hn

/-- Polls that miss the end value wait for ever. -/
theorem not_longEnough_missing {t : Context} {usec : Word} {g : Nat}
    (hw : t.reg.cnt.toNat + (usec * t.freq / 1000000#32).toNat < 2 ^ 32)
    (h0 : 0 < t.reg.cnt.toNat + (usec * t.freq / 1000000#32).toNat)
    (hg : 2 ^ 32 ≤ t.reg.cnt.toNat + (usec * t.freq / 1000000#32).toNat + g) :
    ¬ LongEnough t usec (missing t.reg.cnt.toNat _ g h0 hg).tick := by
  rintro ⟨n, -, hn, -⟩
  rw [busyAfter_wait (busyStart_wait hw)] at hn
  · cases hn
  · intro m _
    rw [read_lt_iff hw]
    exact missing_lt h0 hg m

/-- Polls that cannot miss it see it in time. -/
theorem longEnough_of_room {t : Context} {usec : Word} {g : Nat} (hp : usec.toNat * t.freq.toNat < 2 ^ 32)
    (hg : t.reg.cnt.toNat + (usec * t.freq / 1000000#32).toNat + g < 2 ^ 32) (p : Polls g) : LongEnough t usec p.tick := by
  have hw : t.reg.cnt.toNat + (usec * t.freq / 1000000#32).toNat < 2 ^ 32 := by omega
  -- the first poll that is not before the end value
  have hex : ∃ i, (usec * t.freq / 1000000#32).toNat ≤ p.tick i := by
    obtain ⟨i, hi, -⟩ := p.dense (usec * t.freq / 1000000#32).toNat
    exact ⟨i, hi⟩
  obtain ⟨i, hi, hi'⟩ := p.dense (usec * t.freq / 1000000#32).toNat
  have hfirst : p.tick (Nat.find hex) ≤ p.tick i := p.mono (Nat.find_min' hex hi)
  have hge := Nat.find_spec hex
  rw [longEnough_wait (busyStart_wait hw) (n := Nat.find hex)]
  · exact (ticks_le_iff.mpr hp).trans hge
  · intro m hm
    have hlt := Nat.find_min hex hm
    rw [read_lt_iff hw]
    omega
  · rw [read_lt_iff hw]
    omega

/-- An end value of zero is never missed. -/
theorem longEnough_zero {t : Context} {usec : Word} (hp : usec.toNat * t.freq.toNat < 2 ^ 32)
    (h0 : t.reg.cnt.toNat + (usec * t.freq / 1000000#32).toNat = 0) (tick : Nat → Nat) : LongEnough t usec tick := by
  have hw : t.reg.cnt.toNat + (usec * t.freq / 1000000#32).toNat < 2 ^ 32 := by omega
  have hle := ticks_le_iff.mpr hp
  rw [longEnough_wait (busyStart_wait hw) (n := 0)]
  · omega
  · exact fun m hm => absurd hm (Nat.not_lt_zero m)
  · rw [read_lt_iff hw]
    omega

/-- Starting the timer leaves the counter and the frequency. -/
theorem gptProfileStart_same {t t' : Context} {stack : Clk} (h : gptProfileStart t stack = .ok t') :
    t'.reg.cnt = t.reg.cnt ∧ t'.freq = t.freq := by
  unfold gptProfileStart at h
  split at h
  · cases hc : gptSetclk t .profile stack with
    | error e =>
      rw [hc] at h
      cases h
    | ok c =>
      rw [hc] at h
      cases h
      exact ⟨rfl, rfl⟩
  · cases h
    exact ⟨rfl, rfl⟩

/-- The delay returns and is long enough, however the counter is polled, exactly when the product fits 32 bits and the end value is so far
from the largest one that no poll can miss it. -/
theorem longEnough_iff (t t' : Context) (stack : Clk) (usec : Word) (g : Nat) (h : gptProfileStart t stack = .ok t') :
    (∀ p : Polls g, LongEnough t' usec p.tick) ↔ usec.toNat * t.freq.toNat < 2 ^ 32 ∧
      (t.reg.cnt.toNat + t.ticks usec + g < 2 ^ 32 ∨ t.reg.cnt.toNat + t.ticks usec = 0) := by
  obtain ⟨hcnt, hfreq⟩ := gptProfileStart_same h
  unfold Context.ticks
  rw [← hcnt, ← hfreq]
  have hticks := toNat_ticks t' usec
  constructor
  · intro hall
    have hw : t'.reg.cnt.toNat + (usec * t'.freq / 1000000#32).toNat < 2 ^ 32 := by
      by_contra hn
      exact not_longEnough_wrap (Nat.not_lt.mp hn) _ (hall (everyTick g))
    have hp := (everyTick_longEnough g hw).mp (hall (everyTick g))
    rw [Nat.mod_eq_of_lt hp] at hticks
    refine ⟨hp, ?_⟩
    rw [← hticks]
    by_contra hn
    rw [not_or, Nat.not_lt] at hn
    exact not_longEnough_missing hw (Nat.pos_of_ne_zero hn.2) hn.1 (hall _)
  · rintro ⟨hp, hroom⟩ p
    rw [Nat.mod_eq_of_lt hp] at hticks
    rw [← hticks] at hroom
    rcases hroom with hg | h0
    · exact longEnough_of_room hp hg p
    · exact longEnough_zero hp h0 p.tick

/-- A timer of 1 MHz whose counter is 16 ticks before its wrap. -/
def late : Context :=
  ⟨⟨0x08020000#32, 0#32, 0#32, 0#32, 0#32, 0xfffffff0#32, 0#32, 0#32⟩, 32000000#32, 32000000#32, none, 1000000#32, .none, 0#8⟩

/-- The same timer, after its start. -/
def lateRunning : Context := { late with reg := { late.reg with ctrl := 0x109#32, pslr := 31#32 }, mode := .profile, usage := 1#8 }

/-- Five microseconds still fit, with ten ticks that may pass between two polls. -/
theorem longEnough_iff_late : LongEnough lateRunning 5#32 (everyTick 10).tick :=
  (longEnough_iff late lateRunning ⟨0#32, 0#16, 0#32⟩ 5#32 10 (by decide)).mpr (by decide) (everyTick 10)

/-- A delay of a hundred does not return. -/
theorem wrap_never_returns : gptProfileStart late ⟨0#32, 0#16, 0#32⟩ = .ok lateRunning ∧
    ∀ tick n, busyAfter lateRunning 100#32 tick n ≠ .done := by
  refine ⟨by decide, fun tick n => ?_⟩
  rw [busyAfter_wrap (busyStart_wrap (by decide))]
  exact Busy.noConfusion

end Emlinux.Gpt
