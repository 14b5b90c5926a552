import Emlinux.I2c.Accept

/-!
# The operations of one command

`i2c_rw` starts a command and `i2c_isr` carries it on, one operation for each interrupt. `Sequenced`: with a bus that
acknowledges, a command of at least one byte in one direction puts its script on the bus, an address with a start if the
code has one and then one operation a byte, of which the last one stops the bus if the code says so. The bytes of a read
are stored in order and nowhere else.

* `WriteAt`, `ReadAt`: the command after `k` interrupts.
* `sequenced`: over all commands, controllers and answers.
-/

namespace Emlinux.I2c

/-! ## The script -/

/-- A command in one direction, whose buffer has room for its bytes. -/
def Cmd.OneWay (c : Cmd) : Prop :=
  0 < c.wr.len ∧ c.wr.len ≤ c.wr.buf.length ∧ c.rd.len = 0 ∨ c.wr.len = 0 ∧ 0 < c.rd.len ∧ c.rd.len ≤ c.rd.buf.length

/-- The bytes of a command in one direction. -/
def Cmd.len (c : Cmd) : Nat := c.wr.len + c.rd.len

/-- The direction bit of the operations. -/
def Cmd.dir (c : Cmd) : Word := if c.wr.len = 0 then oprRx else 0#32

/-- The operations before the first byte. -/
def Cmd.first (c : Cmd) : Nat := if c.cmd.hasStart then 1 else 0

/-- The address, with a start. -/
def Master.addrOp (t : Master) (c : Cmd) : Op := ⟨t.flag ||| (oprAddr ||| oprCmdStart ||| c.dir), t.saddr, t.data⟩

/-- Byte `i`, with a stop if it is the last one and the code has an end. -/
def Master.dataOp (t : Master) (c : Cmd) (i : Nat) : Op where
  opr := t.flag ||| c.dir ||| (if c.cmd.hasEnd ∧ i + 1 = c.len then oprCmdEnd else oprCmdCont)
  saddr := t.saddr
  data := if c.wr.len = 0 then t.data else c.wr.buf.getD i 0#8

/-- The operations of a command. -/
def Master.script (t : Master) (c : Cmd) : List Op :=
  (if c.cmd.hasStart then [t.addrOp c] else []) ++ (List.range c.len).map (t.dataOp c)

/-- The controller after `i2c_rw` and `k` interrupts, when operation `j` is answered by `bus j`. -/
def Master.after (t : Master) (c : Cmd) (bus : Nat → Reply) : Nat → Master
  | 0 => t.rw c
  | k + 1 => (t.after c bus k).isr (bus k)

/-- The command is carried out as its script says. -/
structure Sequenced (t : Master) (c : Cmd) (bus : Nat → Reply) : Prop where
  /-- An interrupt before the last one is answered by the next operation. -/
  going : ∀ k < c.first + c.len, (t.after c bus k).comp = false ∧ (t.after c bus k).ops = (t.script c).take (k + 1)
  /-- The last one completes the command, and there are no more operations. -/
  ended : (t.after c bus (c.first + c.len)).comp = true ∧ (t.after c bus (c.first + c.len)).ops = t.script c
  /-- A write puts the bytes of its buffer on the bus. -/
  sent : c.wr.len ≠ 0 → txBytes (t.script c) = c.wr.buf.take c.wr.len
  /-- At any time a read has stored the bytes that came, from the first one on, and nothing else. -/
  stored : c.wr.len = 0 → ∀ k ≤ c.first + c.len, (t.after c bus k).cmd.rd.buf =
    (List.range (k - c.first)).map (fun i => (bus (c.first + i)).dat) ++ c.rd.buf.drop (k - c.first)
  /-- The buffers are otherwise left alone. -/
  kept : ∀ k ≤ c.first + c.len, (t.after c bus k).cmd.wr.buf = c.wr.buf ∧
    (c.wr.len ≠ 0 → (t.after c bus k).cmd.rd.buf = c.rd.buf)
  actual : (if c.wr.len = 0 then (t.after c bus (c.first + c.len)).cmd.rd
    else (t.after c bus (c.first + c.len)).cmd.wr).actual = c.len

variable {t u : Master} {c : Cmd} {bus : Nat → Reply} {r : Reply} {k : Nat}

theorem script_length : (t.script c).length = c.first + c.len := by
  unfold Master.script Cmd.first
  split_ifs <;> simp [Nat.add_comm]

theorem script_take (hf : c.first ≤ k) (hk : k < c.first + c.len) :
    (t.script c).take (k + 1) = (t.script c).take k ++ [t.dataOp c (k - c.first)] := by
  rw [List.take_add_one]
  congr 1
  unfold Master.script
  unfold Cmd.first at hf hk ⊢
  split_ifs at hf hk ⊢
  · obtain ⟨j, rfl⟩ := Nat.exists_eq_add_of_le' hf
    simp [List.getElem?_range (show j < c.len by omega)]
  · simp [List.getElem?_range (show k < c.len by omega)]

theorem after_succ (k : Nat) : t.after c bus (k + 1) = (t.after c bus k).isr (bus k) := rfl

/-! ## Writing -/

/-- A write after `k` interrupts. -/
structure WriteAt (t : Master) (c : Cmd) (k : Nat) (u : Master) : Prop where
  comp : u.comp = false
  ops : u.ops = (t.script c).take (k + 1)
  flag : u.flag = t.flag
  saddr : u.saddr = t.saddr
  cmd : u.cmd.cmd = c.cmd
  wr : u.cmd.wr = { c.wr with actual := (k + 1 : Int) - c.first }
  len : u.cmd.rd.len = 0
  buf : u.cmd.rd.buf = c.rd.buf

/-- `i2c_rw` puts the address or the first byte on the bus. -/
theorem WriteAt.begin (h0 : t.ops = []) (hc : t.comp = false) (hw : 0 < c.wr.len) (hr : c.rd.len = 0) :
    WriteAt t c 0 (t.rw c) := by
  have hlen : c.len = c.wr.len := by simp [Cmd.len, hr]
  unfold Master.rw
  dsimp only
  cases hs : c.cmd.hasStart with
  | true =>
    rw [if_pos rfl, if_pos hw.ne']
    refine ⟨hc, ?_, rfl, rfl, rfl, by simp [Cmd.first, hs, Master.opr], hr, rfl⟩
    simp [Master.opr, h0, Master.script, Master.addrOp, Cmd.dir, hs, hw.ne']
  | false =>
    rw [if_neg (by simp), if_pos hw.ne']
    refine ⟨hc, ?_, rfl, rfl, rfl, by simp [Cmd.first, hs, Master.opr], hr, rfl⟩
    have htake := script_take (t := t) (c := c) (k := 0) (by simp [Cmd.first, hs]) (by omega)
    rw [htake]
    have hhead : c.wr.buf.head?.getD 0#8 = c.wr.buf[0]?.getD 0#8 := by
      rw [List.head?_eq_getElem?]
    have hlast : 1 = c.len ↔ c.wr.len = 1 := by omega
    simp [Master.opr, h0, Master.dataOp, Cmd.dir, hw.ne', hlast, hhead]

/-- The next byte is put on the bus. -/
theorem WriteAt.next (h : WriteAt t c k u) (hq : r.quiet = true) (hr : c.rd.len = 0) (hw : 0 < c.wr.len)
    (hk : k + 1 < c.first + c.len) : WriteAt t c (k + 1) (u.isr r) := by
  have hlen : c.len = c.wr.len := by simp [Cmd.len, hr]
  have hf : c.first ≤ k + 1 := by
    unfold Cmd.first
    split_ifs <;> omega
  have hmore : u.cmd.wr.len ≠ 0 ∧ u.cmd.wr.actual < u.cmd.wr.len := by
    rw [h.wr]
    dsimp only
    omega
  have hact : u.cmd.wr.actual.toNat = k + 1 - c.first := by
    rw [h.wr]
    dsimp only
    omega
  rw [isr_quiet hq, if_pos hmore]
  refine ⟨h.comp, ?_, h.flag, h.saddr, h.cmd, ?_, h.len, h.buf⟩
  · rw [script_take hf hk, ← h.ops]
    show u.ops ++ [(⟨_, _, _⟩ : Op)] = _
    rw [h.flag, h.saddr, hact, h.wr, h.cmd, h.len]
    unfold Master.dataOp Cmd.dir
    rw [if_neg hw.ne', if_neg hw.ne']
    have hlast : ((c.wr.len : Int) - ((k + 1 : Int) - c.first) = 1) ↔ k + 1 - c.first + 1 = c.len := by omega
    simp [hlast, and_comm]
  · show { u.cmd.wr with actual := u.cmd.wr.actual + 1 } = _
    rw [h.wr]
    simp
    omega

/-- The interrupt after the last byte ends the command. -/
theorem WriteAt.last (h : WriteAt t c k u) (hq : r.quiet = true) (hr : c.rd.len = 0) (hk : k + 1 = c.first + c.len) :
    u.isr r = u.done 0#32 := by
  have hlen : c.len = c.wr.len := by simp [Cmd.len, hr]
  have hover : ¬ (u.cmd.wr.len ≠ 0 ∧ u.cmd.wr.actual < u.cmd.wr.len) := by
    rw [h.wr]
    dsimp only
    omega
  rw [isr_quiet hq, if_neg hover, if_neg (by simp [h.len])]

theorem WriteAt.run (h0 : t.ops = []) (hc : t.comp = false) (hw : 0 < c.wr.len) (hr : c.rd.len = 0)
    (hq : ∀ j, (bus j).quiet = true) : ∀ k < c.first + c.len, WriteAt t c k (t.after c bus k) := by
  intro k
  induction k with
  | zero => exact fun _ => WriteAt.begin h0 hc hw hr
  | succ k ih => exact fun hk => (ih (by omega)).next (hq k) hr hw hk

/-! ## Reading -/

/-- The buffer of a read when `n` bytes have come. -/
def Cmd.got (c : Cmd) (bus : Nat → Reply) (n : Nat) : List Byte :=
  (List.range n).map (fun i => (bus (c.first + i)).dat) ++ c.rd.buf.drop n

theorem Cmd.got_succ {n : Nat} (hn : n < c.rd.buf.length) :
    (c.got bus n).set n (bus (c.first + n)).dat = c.got bus (n + 1) := by
  unfold Cmd.got
  rw [List.set_append_right _ _ (by simp), List.length_map, List.length_range, Nat.sub_self, List.drop_eq_getElem_cons hn,
    List.set_cons_zero, List.range_succ, List.map_append]
  simp

/-- The interrupt after `k` operations stores its byte, unless it answers the address. -/
theorem stored_next (hb : c.rd.len ≤ c.rd.buf.length) (hk : k < c.first + c.rd.len) :
    (if 0 ≤ (k : Int) - c.first then (c.got bus (k - c.first)).set ((k : Int) - c.first).toNat (bus k).dat
      else c.got bus (k - c.first)) = c.got bus (k + 1 - c.first) := by
  by_cases hf : c.first ≤ k
  · obtain ⟨n, rfl⟩ := Nat.exists_eq_add_of_le hf
    rw [if_pos (by omega), show ((c.first + n : Nat) : Int) - c.first = n by omega, Int.toNat_natCast,
      Nat.add_sub_cancel_left, Cmd.got_succ (by omega), Nat.add_assoc, Nat.add_sub_cancel_left]
  · have h1 : c.first ≤ 1 := by
      unfold Cmd.first
      split_ifs <;> omega
    rw [if_neg (by omega), show k - c.first = 0 by omega, show k + 1 - c.first = 0 by omega]

/-- A read after `k` interrupts. -/
structure ReadAt (t : Master) (c : Cmd) (bus : Nat → Reply) (k : Nat) (u : Master) : Prop where
  comp : u.comp = false
  ops : u.ops = (t.script c).take (k + 1)
  flag : u.flag = t.flag
  saddr : u.saddr = t.saddr
  data : u.data = t.data
  cmd : u.cmd.cmd = c.cmd
  rd : u.cmd.rd = ⟨c.got bus (k - c.first), c.rd.len, k - c.first⟩
  len : u.cmd.wr.len = 0
  buf : u.cmd.wr.buf = c.wr.buf

/-- `i2c_rw` puts the address on the bus, or asks for the first byte. -/
theorem ReadAt.begin (h0 : t.ops = []) (hc : t.comp = false) (hw : c.wr.len = 0) (hr : 0 < c.rd.len) :
    ReadAt t c bus 0 (t.rw c) := by
  have hlen : c.len = c.rd.len := by simp [Cmd.len, hw]
  unfold Master.rw
  dsimp only
  cases hs : c.cmd.hasStart with
  | true =>
    rw [if_pos rfl, if_neg (not_not.mpr hw)]
    refine ⟨hc, ?_, rfl, rfl, rfl, rfl, by simp [Cmd.first, Cmd.got, hs, Master.opr], hw, rfl⟩
    simp [Master.opr, h0, Master.script, Master.addrOp, Cmd.dir, hs, hw]
  | false =>
    rw [if_neg (by simp), if_neg (not_not.mpr hw)]
    refine ⟨hc, ?_, rfl, rfl, rfl, rfl, by simp [Cmd.first, Cmd.got, hs, Master.opr], hw, rfl⟩
    have htake := script_take (t := t) (c := c) (k := 0) (by simp [Cmd.first, hs]) (by omega)
    rw [htake]
    have hlast : 1 = c.len ↔ c.rd.len = 1 := by omega
    simp [Master.opr, h0, Master.dataOp, Cmd.dir, hw, hlast]

/-- The byte that came, if any, is stored, and the next one asked for. -/
theorem ReadAt.next (h : ReadAt t c bus k u) (hq : (bus k).quiet = true) (hw : c.wr.len = 0)
    (hb : c.rd.len ≤ c.rd.buf.length) (hk : k + 1 < c.first + c.len) : ReadAt t c bus (k + 1) (u.isr (bus k)) := by
  have hlen : c.len = c.rd.len := by simp [Cmd.len, hw]
  have hf : c.first ≤ k + 1 := by
    unfold Cmd.first
    split_ifs <;> omega
  have hmore : u.cmd.rd.len ≠ 0 ∧ u.cmd.rd.actual < u.cmd.rd.len := by
    rw [h.rd]
    dsimp only
    omega
  have hask : ¬ ((u.cmd.rd.len : Int) - u.cmd.rd.actual ≤ 1) := by
    rw [h.rd]
    dsimp only
    omega
  rw [isr_quiet hq, if_neg (by simp [h.len]), if_pos hmore]
  unfold Master.isrRead
  dsimp only
  rw [if_neg hask]
  refine ⟨h.comp, ?_, h.flag, h.saddr, h.data, h.cmd, ?_, h.len, h.buf⟩
  · rw [script_take hf hk, ← h.ops]
    show u.ops ++ [(⟨u.flag ||| _ ||| _, u.saddr, u.data⟩ : Op)] = _
    rw [h.flag, h.saddr, h.data, h.rd, h.cmd]
    unfold Master.dataOp Cmd.dir
    rw [if_pos hw, if_pos hw]
    have hlast : ((c.rd.len : Int) - ((k : Int) - c.first) = 2) ↔ k + 1 - c.first + 1 = c.len := by omega
    simp [hlast]
  · show (⟨if 0 ≤ u.cmd.rd.actual then u.cmd.rd.buf.set u.cmd.rd.actual.toNat (bus k).dat else u.cmd.rd.buf, u.cmd.rd.len,
      u.cmd.rd.actual + 1⟩ : Td) = _
    rw [h.rd]
    dsimp only
    congr 1
    · exact stored_next hb (by omega)
    · push_cast
      omega

/-- The interrupt of the last byte stores it and ends the command. -/
theorem ReadAt.last (h : ReadAt t c bus k u) (hq : (bus k).quiet = true) (hw : c.wr.len = 0) (hr : 0 < c.rd.len)
    (hb : c.rd.len ≤ c.rd.buf.length) (hk : k + 1 = c.first + c.len) :
    ∃ v : Master, u.isr (bus k) = v.done 0#32 ∧ v.ops = u.ops ∧ v.cmd.wr = u.cmd.wr ∧
      v.cmd.rd = ⟨c.got bus c.len, c.rd.len, c.len⟩ := by
  have hlen : c.len = c.rd.len := by simp [Cmd.len, hw]
  have hmore : u.cmd.rd.len ≠ 0 ∧ u.cmd.rd.actual < u.cmd.rd.len := by
    rw [h.rd]
    dsimp only
    omega
  have hend : (u.cmd.rd.len : Int) - u.cmd.rd.actual ≤ 1 := by
    rw [h.rd]
    dsimp only
    omega
  rw [isr_quiet hq, if_neg (by simp [h.len]), if_pos hmore]
  unfold Master.isrRead
  dsimp only
  rw [if_pos hend]
  refine ⟨_, rfl, rfl, rfl, ?_⟩
  show (⟨if 0 ≤ u.cmd.rd.actual then u.cmd.rd.buf.set u.cmd.rd.actual.toNat (bus k).dat else u.cmd.rd.buf, u.cmd.rd.len,
    u.cmd.rd.actual + 1⟩ : Td) = _
  rw [h.rd]
  dsimp only
  congr 1
  · rw [stored_next hb (by omega), hk, Nat.add_sub_cancel_left]
  · omega

theorem ReadAt.run (h0 : t.ops = []) (hc : t.comp = false) (hw : c.wr.len = 0) (hr : 0 < c.rd.len)
    (hb : c.rd.len ≤ c.rd.buf.length) (hq : ∀ j, (bus j).quiet = true) :
    ∀ k < c.first + c.len, ReadAt t c bus k (t.after c bus k) := by
  intro k
  induction k with
  | zero => exact fun _ => ReadAt.begin h0 hc hw hr
  | succ k ih => exact fun hk => (ih (by omega)).next (hq k) hw hb hk

/-! ## The command -/

theorem txBytes_script (hp : Plain t.flag) (hw : 0 < c.wr.len) (hb : c.wr.len ≤ c.wr.buf.length) (hr : c.rd.len = 0) :
    txBytes (t.script c) = c.wr.buf.take c.wr.len := by
  have hlen : c.len = c.wr.len := by simp [Cmd.len, hr]
  have htx (i : Nat) : (t.dataOp c i).isTx = true := by
    have h := hp.tx (c.cmd.hasEnd ∧ i + 1 = c.len) t.saddr (c.wr.buf.getD i 0#8)
    unfold Master.dataOp Cmd.dir
    rwa [if_neg hw.ne', if_neg hw.ne', BitVec.or_zero]
  have haddr : (t.addrOp c).isAddr = true := by
    unfold Master.addrOp Cmd.dir
    rw [if_neg hw.ne']
    rcases hp with hp | hp <;> rw [hp] <;> simp [Op.isAddr, oprAddr, oprCmdStart, oprAck]
  have hdata : txBytes ((List.range c.len).map (t.dataOp c)) = c.wr.buf.take c.wr.len := by
    rw [txBytes_of_tx (by simp [htx]), List.map_map, hlen]
    apply List.ext_getElem (by simp [hb])
    intro i h1 h2
    have hi : i < c.wr.buf.length := by
      rw [List.length_take] at h2
      omega
    simp [Master.dataOp, hw.ne', List.getElem?_eq_getElem hi]
  unfold Master.script
  split_ifs
  · rw [← hdata]
    simp [txBytes, (Op.of_addr haddr).2]
  · rw [← hdata, List.nil_append]

theorem script_all {n : Nat} (hn : c.first + c.len = n + 1) : (t.script c).take (n + 1) = t.script c :=
  List.take_of_length_le (by rw [script_length, hn])

/-- A count of interrupts up to the last one, and the last one itself. -/
theorem upto {P : Nat → Prop} {n : Nat} (hgo : ∀ k < n + 1, P k) (hend : P (n + 1)) (k : Nat) (hk : k ≤ n + 1) : P k :=
  Nat.forall_lt_succ_right.mpr ⟨hgo, hend⟩ k (Nat.lt_succ_of_le hk)

theorem write_sequenced (h0 : t.ops = []) (hc : t.comp = false) (hp : Plain t.flag) (hw : 0 < c.wr.len)
    (hb : c.wr.len ≤ c.wr.buf.length) (hr : c.rd.len = 0) (hq : ∀ j, (bus j).quiet = true) : Sequenced t c bus := by
  have hlen : c.len = c.wr.len := by simp [Cmd.len, hr]
  obtain ⟨n, hn⟩ : ∃ n, c.first + c.len = n + 1 := ⟨c.first + c.len - 1, by omega⟩
  have hrun := WriteAt.run h0 hc hw hr hq
  have hn' := hrun n (by omega)
  have hlast := hn'.last (hq n) hr hn.symm
  refine ⟨fun k hk => ⟨(hrun k hk).comp, (hrun k hk).ops⟩, ?_, fun _ => txBytes_script hp hw hb hr, fun h => absurd h hw.ne',
    ?_, ?_⟩
  · rw [hn, after_succ, hlast]
    exact ⟨rfl, hn'.ops.trans (script_all hn)⟩
  · rw [hn]
    refine upto (fun k hk => ?_) ?_
    · have hk := hrun k (by omega)
      exact ⟨by rw [hk.wr], fun _ => hk.buf⟩
    · rw [after_succ, hlast]
      exact ⟨by simp [Master.done, hn'.wr], fun _ => hn'.buf⟩
  · rw [if_neg hw.ne', hn, after_succ, hlast]
    show (t.after c bus n).cmd.wr.actual = _
    rw [hn'.wr]
    dsimp only
    omega

theorem read_sequenced (h0 : t.ops = []) (hc : t.comp = false) (hw : c.wr.len = 0) (hr : 0 < c.rd.len)
    (hb : c.rd.len ≤ c.rd.buf.length) (hq : ∀ j, (bus j).quiet = true) : Sequenced t c bus := by
  have hlen : c.len = c.rd.len := by simp [Cmd.len, hw]
  obtain ⟨n, hn⟩ : ∃ n, c.first + c.len = n + 1 := ⟨c.first + c.len - 1, by omega⟩
  have hrun : ∀ k < c.first + c.len, ReadAt t c bus k (t.after c bus k) := ReadAt.run h0 hc hw hr hb hq
  have hn' := hrun n (by omega)
  obtain ⟨v, hv, hops, hwr, hrd⟩ := hn'.last (hq n) hw hr hb hn.symm
  refine ⟨fun k hk => ⟨(hrun k hk).comp, (hrun k hk).ops⟩, ?_, fun h => absurd hw h, fun _ => ?_, ?_, ?_⟩
  · rw [hn, after_succ, hv]
    exact ⟨rfl, (hops.trans hn'.ops).trans (script_all hn)⟩
  · rw [hn]
    refine upto (fun k hk => ?_) ?_
    · rw [(hrun k (by omega)).rd]
      rfl
    · rw [after_succ, hv, ← hn, Nat.add_sub_cancel_left]
      show v.cmd.rd.buf = _
      rw [hrd]
      rfl
  · rw [hn]
    refine upto (fun k hk => ⟨(hrun k (by omega)).buf, fun h => absurd hw h⟩) ⟨?_, fun h => absurd hw h⟩
    rw [after_succ, hv]
    show v.cmd.wr.buf = _
    rw [hwr, hn'.buf]
  · rw [if_pos hw, hn, after_succ, hv]
    show v.cmd.rd.actual = _
    rw [hrd]

/-- With a bus that acknowledges, a command in one direction is carried out as its script says. -/
theorem sequenced (t : Master) (c : Cmd) (bus : Nat → Reply) (h0 : t.ops = []) (hc : t.comp = false) (hp : Plain t.flag)
    (hone : c.OneWay) (hq : ∀ j, (bus j).quiet = true) : Sequenced t c bus := by
  rcases hone with ⟨hw, hb, hr⟩ | ⟨hw, hr, hb⟩
  · exact write_sequenced h0 hc hp hw hb hr hq
  · exact read_sequenced h0 hc hw hr hb hq

/-- Two bytes of a buffer of three are read, with an address and a stop. -/
theorem sequenced_read : Sequenced (idle.cfg 0x50#8 true) ⟨⟨[], 0, 0⟩, ⟨[7#8, 8#8, 9#8], 2, 0⟩, .done, 0#32⟩ goodReply :=
  sequenced _ _ _ rfl rfl (Or.inr rfl) (Or.inr ⟨rfl, by decide, by decide⟩)
    (fun _ => by simp [goodReply, Reply.quiet, intRdy, intErr, staNak])

end Emlinux.I2c
