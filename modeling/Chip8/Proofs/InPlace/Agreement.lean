import Chip8.Proofs.InPlace.Drawing
import Chip8.Proofs.Soundness

/-!
# Running in place is running

**A sound machine run in place never crashes, and where it stops at a fault it is as it was**
(`run_execute`, `run_cycle`). What is left to the instruction as a value, namely that a fault
comes without a machine, is here a fact about the order of the work: whatever can fail comes
first, and what follows it cannot (`run_bind_whole`).

An instruction that has been decoded cannot crash on any machine at all, since decoding leaves its
operands in range: it is one of the machine's own instructions in bare numbers. It is the end of a
cycle that needs the machine to be sound: an address that a return has popped must lie low enough
for the counter to be moved past the call (`run_cycle`).
-/

set_option autoImplicit false

namespace Chip8

namespace InPlace

/-- What work in place gives if it does what `r` says: the machine of `r`, or, with the fault of
`r`, the machine it began with. -/
def whole {α : Type} (m : Machine) : Except Fault (α × Machine) → EStateM.Result Stop Machine α
  | .ok (a, m') => .ok a m'
  | .error fault => .error (.fault fault) m

/-- **Work that may fail and then work that may not fails as a whole.** -/
theorem run_bind_whole {α β γ : Type} {p : Work α} {f : α → Work β} {m : Machine}
    {r : Except Fault γ} {h : γ → α × Machine} {g : γ → β × Machine}
    (hp : p.run m = whole m (r.map h))
    (hf : ∀ c, r = .ok c → (f (h c).1).run (h c).2 = .ok (g c).1 (g c).2) :
    (p >>= f).run m = whole m (r.map g) := by
  rw [EStateM.run_bind, hp]
  cases r with
  | error fault => rfl
  | ok c => exact hf c rfl

/-! ## The parts -/

theorem sum_eq {size a b : Nat} (h : a + b < size) : sum size a b = pure (a + b) := if_pos h

theorem product_eq {size a b : Nat} (h : a * b < size) : product size a b = pure (a * b) := if_pos h

theorem demand_eq {p : Prop} [Decidable p] (h : p) : demand p = pure () := if_pos h

@[simp] theorem run_reg (m : Machine) (x : Register) :
    (reg (.ofNat x)).run m = .ok (m.v.get x) m := by
  unfold reg
  rw [EStateM.run_bind, EStateM.run_get]
  simp only [Nibbles.toNat_bare, dif_pos x.isLt]
  rfl

@[simp] theorem run_setReg (m : Machine) (x : Register) (b : UInt8) :
    (setReg (.ofNat x) b).run m = .ok () (m.setReg x b) := by
  unfold setReg
  simp only [Nibbles.toNat_bare, dif_pos x.isLt]
  rfl

@[simp] theorem run_setFlag (m : Machine) (flag : Bool) :
    (setFlag flag).run m = .ok () (m.setFlag flag) :=
  run_setReg m 0xF _

theorem run_accessEnd (m : Machine) {start len : Nat} (h : start + len < UInt64.size) :
    (accessEnd start len).run m =
      if start + len ≤ Memory.size then .ok (start + len) m
      else .error (.fault (Memory.refusal start)) m := by
  unfold accessEnd
  rw [sum_eq h, pure_bind]
  split
  · next hlt =>
    rw [if_neg (Nat.not_le_of_lt hlt)]
    rfl
  · next hlt =>
    rw [if_pos (Nat.le_of_not_lt hlt)]
    rfl

theorem length_of_read {memory : Memory} {start len : Nat} {bytes : List UInt8}
    (h : memory.read start len = .ok bytes) : bytes.length = len := by
  rw [Machine.read_eq_ok h]
  exact memory.length_slice start len

theorem run_read (m : Machine) {start len : Nat} (h : start + len < UInt64.size) :
    (read start len).run m = whole m ((m.memory.read start len).map fun bytes => (bytes, m)) := by
  unfold read Memory.read
  rw [EStateM.run_bind, run_accessEnd m h]
  by_cases hle : start + len ≤ Memory.size
  · have hrange : start ≤ start + len ∧ start + len ≤ Memory.size := ⟨Nat.le_add_right _ _, hle⟩
    simp only [if_pos hle, bytesBetween, demand_eq hrange, pure_bind, Nat.add_sub_cancel_left]
    rfl
  · simp only [if_neg hle]
    rfl

theorem run_copyBetween (m : Machine) {start stop : Nat} {data : List UInt8}
    (hstop : start + data.length = stop) (hsize : stop ≤ Memory.size) :
    (copyBetween start stop data).run m =
      .ok () { m with memory := m.memory.place start data } := by
  have hrange : start ≤ stop ∧ stop ≤ Memory.size :=
    ⟨Nat.le_trans (Nat.le_add_right _ _) (Nat.le_of_eq hstop), hsize⟩
  have hlength : data.length = stop - start := by
    rw [← hstop, Nat.add_sub_cancel_left]
  unfold copyBetween
  rw [demand_eq hrange, pure_bind, demand_eq hlength, pure_bind]
  rfl

theorem run_write (m : Machine) {start : Nat} {data : List UInt8}
    (h : start + data.length < UInt64.size) :
    (write start data).run m = whole m ((m.store start data).map fun m' => ((), m')) := by
  unfold write Machine.store Memory.write
  rw [EStateM.run_bind, run_accessEnd m h]
  by_cases hle : start + data.length ≤ Memory.size
  · simp only [if_pos hle]
    exact run_copyBetween m rfl hle
  · simp only [if_neg hle]
    rfl

theorem run_fetch (m : Machine) : fetch.run m = whole m (m.fetch.map fun w => (w, m)) := by
  have hpc : m.pc.toNat + 2 < UInt64.size :=
    Nat.lt_of_lt_of_le (Nat.add_lt_add_right m.pc.toNat_lt 2) (by decide)
  have hread := run_read m hpc
  unfold fetch Machine.fetch Memory.readWord
  rw [EStateM.run_bind, EStateM.run_get]
  unfold Memory.read at hread
  by_cases hle : m.pc.toNat + 2 ≤ Memory.size
  · -- Two bytes have been read, so both items are there.
    simp only [if_pos hle] at hread ⊢
    rw [EStateM.run_bind, hread]
    rfl
  · simp only [if_neg hle] at hread ⊢
    rw [EStateM.run_bind, hread]
    rfl

theorem run_push (m : Machine) (a : UInt16) :
    (push a).run m = whole m ((m.push a).map fun m' => ((), m')) := by
  unfold push Machine.push CallStack.push?
  rw [EStateM.run_bind, EStateM.run_get]
  by_cases hd : m.stack.depth < 16
  · have hsum : sum UInt8.size m.stack.depth 1 = pure (m.stack.depth + 1) :=
      sum_eq (Nat.lt_of_lt_of_le (Nat.add_lt_add_right hd 1) (by decide))
    have hfree : ¬ CallStack.capacity ≤ m.stack.depth := Nat.not_le_of_lt hd
    have hdepth : m.stack.depth + 1 ≤ 16 := hd
    simp only [hfree, if_false, hsum, pure_bind, setSlot, setDepth, dif_pos hd, dif_pos hdepth]
    rfl
  · have hfull : CallStack.capacity ≤ m.stack.depth := Nat.le_of_not_lt hd
    simp only [hfull, if_true, dif_neg hd]
    rfl

theorem run_pop (m : Machine) : pop.run m = whole m (m.pop.map id) := by
  unfold pop Machine.pop CallStack.pop?
  rw [EStateM.run_bind, EStateM.run_get]
  by_cases hd : 0 < m.stack.depth
  · have hdepth : m.stack.depth - 1 ≤ 16 := Nat.le_trans (Nat.sub_le _ _) m.stack.depth_le
    have hslot : m.stack.depth - 1 < 16 :=
      Nat.lt_of_lt_of_le (Nat.sub_lt hd Nat.one_pos) m.stack.depth_le
    have hdiff : difference m.stack.depth 1 = pure (m.stack.depth - 1) := if_pos hd
    -- The depth is moved before the slot is read; the slot is still there.
    simp only [Nat.ne_of_gt hd, if_false, hdiff, pure_bind, setDepth, slot, dif_pos hdepth,
      dif_pos hd, EStateM.run_bind, EStateM.run_modify, EStateM.run_get, dif_pos hslot]
    rfl
  · have hzero : m.stack.depth = 0 := Nat.eq_zero_of_not_pos hd
    simp only [hzero, if_true, dif_neg (Nat.lt_irrefl 0)]
    rfl

/-! ## Instructions -/

@[simp] theorem run_keyDown (m : Machine) (x : Register) :
    (keyDown (.ofNat x)).run m = .ok (m.keyDown x) m := by
  unfold keyDown
  rw [EStateM.run_bind, run_reg]
  rfl

theorem run_holds (m : Machine) (c : Condition) : (holds c.bare).run m = .ok (m.holds c) m := by
  cases c with
  | byteIs x b | byteIsNot x b =>
    simp only [Condition.bare, holds, EStateM.run_bind, run_reg]
    rfl
  | same x y | differ x y =>
    simp only [Condition.bare, holds, EStateM.run_bind, run_reg]
    rfl
  | keyDown x => exact run_keyDown m x
  | keyUp x =>
    simp only [Condition.bare, holds, EStateM.run_bind, run_keyDown]
    rfl

theorem run_arith (m : Machine) (op : ArithOp) (x y : Register) :
    (arith op (.ofNat x) (.ofNat y)).run m = .ok () (m.arith op x y) := by
  unfold arith Machine.arith
  simp only [EStateM.run_bind, run_reg]
  cases hflag : (op.eval (m.v.get x) (m.v.get y)).2 with
  | none =>
    simp only [run_setReg]
    rfl
  | some flag =>
    simp only [EStateM.run_bind, run_setFlag, run_setReg]
    rfl

/-- Noting the keys and then striking out those let go of leaves the keys held since the wait
began. -/
theorem run_awaitKey (m : Machine) (x : Register) :
    (awaitKey (.ofNat x)).run m = .ok (m.awaitKey x).1 (m.awaitKey x).2 := by
  have hheld : (some (m.heldOnWait.getD m.keys)).map (· ∩ m.keys) = some m.heldSinceWait := rfl
  unfold awaitKey Machine.awaitKey
  simp only [EStateM.run_bind, EStateM.run_modify, EStateM.run_get, hheld, Option.getD_some]
  cases (m.keys \ m.heldSinceWait).lowest? with
  | none => rfl
  | some k =>
    simp only [EStateM.run_bind, run_setReg, EStateM.run_modify]
    rfl

theorem run_draw (m : Machine) (x y : Register) (height : Fin 16) :
    (draw (.ofNat x) (.ofNat y) (.ofNat height)).run m =
      whole m ((m.memory.read m.i.toNat height).map
        fun sprite => (Flow.next, m.drawSprite x y sprite)) := by
  have hheight : height.val ≤ 15 := Nat.le_of_lt_succ height.isLt
  have hi : m.i.toNat + height.val < UInt64.size :=
    Nat.lt_of_lt_of_le (Nat.add_lt_add m.i.toNat_lt height.isLt) (by decide)
  unfold draw
  rw [Nibbles.toNat_bare, demand_eq hheight, pure_bind, EStateM.run_bind, EStateM.run_get]
  refine run_bind_whole (run_read m hi) fun sprite hread => ?_
  have hlength : sprite.length = height := length_of_read hread
  -- As many rows as were asked for, so they fit the buffer.
  have hrows : 0 + sprite.length ≤ 15 := by
    rw [Nat.zero_add, hlength]
    exact hheight
  rw [demand_eq hlength, pure_bind]
  simp only [EStateM.run_bind, run_reg,
    run_drawRows (m.v.get x).toNat_lt (m.v.get y).toNat_lt sprite 0 (false, false) m hrows,
    run_setFlag, EStateM.run_modify, EStateM.run_pure, Bool.false_or, Nat.add_zero]
  rfl

theorem run_pointGlyph (m : Machine) (x : Register) :
    (execute (.pointGlyph (.ofNat x))).run m = whole m ((Instruction.pointGlyph x).execute m) := by
  have hdigit : (m.v.get x).toNat % 16 < 16 := Nat.mod_lt _ (by decide)
  have hoffset : (m.v.get x).toNat % 16 * Font.glyphHeight < 16 * Font.glyphHeight :=
    Nat.mul_lt_mul_of_pos_right hdigit (by decide)
  have hglyph : Font.start + (m.v.get x).toNat % 16 * Font.glyphHeight < UInt16.size :=
    Nat.lt_trans (Nat.add_lt_add_left hoffset Font.start) (by decide)
  have hproduct : (m.v.get x).toNat % 16 * Font.glyphHeight < UInt16.size :=
    Nat.lt_trans hoffset (by decide)
  rw [execute, EStateM.run_bind, run_reg]
  simp only [product_eq hproduct, sum_eq hglyph, pure_bind]
  rfl

theorem run_firstRegs (m : Machine) {count : Nat} (h : count ≤ 16) :
    (firstRegs count).run m = .ok (m.v.toList.take count) m := by
  unfold firstRegs
  rw [demand_eq h, pure_bind]
  rfl

theorem run_setFirstRegs (m : Machine) {count : Nat} {bytes : List UInt8}
    (h : count ≤ 16 ∧ bytes.length = count) :
    (setFirstRegs count bytes).run m = .ok () (m.setRegs bytes) := by
  unfold setFirstRegs
  rw [demand_eq h, pure_bind]
  rfl

/-- Up to sixteen registers are counted without a carry, and reach no further than an index can
name and sixteen bytes more. -/
theorem registers_fit (m : Machine) (x : Register) :
    sum UInt64.size (UInt8.ofNat x).toNat 1 = pure (x.val + 1) ∧
      m.i.toNat + (x.val + 1) < UInt64.size := by
  have hx := x.isLt
  have hi := m.i.toNat_lt
  have hsize : UInt64.size = 18446744073709551616 := rfl
  rw [Nibbles.toNat_bare]
  refine ⟨sum_eq ?_, ?_⟩
  · omega
  · omega

theorem run_storeRegisters (m : Machine) (x : Register) :
    (execute (.storeRegisters (.ofNat x))).run m =
      whole m ((Instruction.storeRegisters x).execute m) := by
  obtain ⟨hcount, hend⟩ := registers_fit m x
  have hstop : m.i.toNat + (m.v.toList.take (x.val + 1)).length = m.i.toNat + (x.val + 1) := by
    rw [m.length_take_v x]
  rw [execute, hcount, pure_bind, EStateM.run_bind, EStateM.run_get, Instruction.execute]
  simp only [EStateM.run_bind, run_accessEnd m hend, Machine.store, Memory.write, hstop]
  by_cases hle : m.i.toNat + (x.val + 1) ≤ Memory.size
  · -- Granted; what is left to do, cutting the registers to length, cannot fail.
    simp only [if_pos hle, run_firstRegs m x.isLt, run_copyBetween m hstop hle]
    rfl
  · simp only [if_neg hle]
    rfl

theorem run_loadRegisters (m : Machine) (x : Register) :
    (execute (.loadRegisters (.ofNat x))).run m =
      whole m ((Instruction.loadRegisters x).execute m) := by
  obtain ⟨hcount, hend⟩ := registers_fit m x
  rw [execute, hcount, pure_bind, EStateM.run_bind, EStateM.run_get]
  refine run_bind_whole (run_read m hend) fun bytes hread => ?_
  have hfirst : x.val + 1 ≤ 16 ∧ bytes.length = x.val + 1 := ⟨x.isLt, length_of_read hread⟩
  rw [EStateM.run_bind, run_setFirstRegs m hfirst]
  rfl

/-- **An instruction run in place is the instruction**, on every machine. The cases that can fail
put what can fail first; the others do not get stuck. -/
theorem run_execute (ins : Instruction) (m : Machine) :
    (execute ins.bare).run m = whole m (ins.execute m) := by
  unfold Instruction.bare
  cases ins with
  | sys _ | clear | jump _ | setIndex _ => rfl
  | ret => exact run_bind_whole (run_pop m) fun _ _ => rfl
  | call a =>
    rw [execute, EStateM.run_bind, EStateM.run_get]
    exact run_bind_whole (run_push m m.pc) fun _ _ => rfl
  | skipIf c =>
    rw [execute, EStateM.run_bind, run_holds]
    rfl
  | setByte x b =>
    rw [execute, EStateM.run_bind, run_setReg]
    rfl
  | addByte x b =>
    rw [execute, EStateM.run_bind, run_reg]
    simp only [EStateM.run_bind, run_setReg]
    rfl
  | arith op x y =>
    rw [execute, EStateM.run_bind, run_arith]
    rfl
  | jumpOffset a =>
    -- A byte and an address together fit the counter.
    have hsum : (m.v.get 0).toNat + a.val < UInt16.size := by
      have hb := (m.v.get 0).toNat_lt
      have ha := a.isLt
      have hsize : UInt16.size = 65536 := rfl
      omega
    rw [execute, EStateM.run_bind, show (reg 0).run m = .ok (m.v.get 0) m from run_reg m 0]
    simp only [Nibbles.toNat_bareAddress, sum_eq hsum, pure_bind]
    rfl
  | random x mask =>
    rw [execute, EStateM.run_bind, EStateM.run_get]
    simp only [EStateM.run_bind, EStateM.run_set, run_setReg]
    rfl
  | draw x y height => exact run_draw m x y height
  | readDelay x =>
    rw [execute, EStateM.run_bind, EStateM.run_get]
    simp only [EStateM.run_bind, run_setReg]
    rfl
  | awaitKey x => exact run_awaitKey m x
  | setDelay x | setSound x | addIndex x =>
    rw [execute, EStateM.run_bind, run_reg]
    rfl
  | pointGlyph x => exact run_pointGlyph m x
  | storeDecimal x =>
    have hi : m.i.toNat + (Machine.decimalDigits (m.v.get x)).length < UInt64.size :=
      Nat.lt_of_lt_of_le (Nat.add_lt_add_right m.i.toNat_lt 3) (by decide)
    rw [execute, EStateM.run_bind, run_reg]
    simp only [EStateM.run_bind, EStateM.run_get]
    exact run_bind_whole (run_write m hi) fun _ _ => rfl
  | storeRegisters x => exact run_storeRegisters m x
  | loadRegisters x => exact run_loadRegisters m x

/-! ## Cycles -/

theorem run_advance (m : Machine) {flow : Flow} (h : m.pc.toNat + flow.distance < 65536) :
    (advance flow).run m = .ok () (m.advance flow) := by
  have hpc : UInt16.ofNat (m.pc.toNat + flow.distance) = flow.advance m.pc := by
    rw [← Flow.toNat_advance h, UInt16.ofNat_toNat]
  unfold advance Machine.advance
  rw [EStateM.run_bind, EStateM.run_get]
  simp only [sum_eq (show m.pc.toNat + flow.distance < UInt16.size from h), pure_bind, ← hpc]
  rfl

theorem run_decode (m : Machine) (w pc : UInt16) :
    (decode w pc).run m = whole m ((Instruction.decode w pc).map fun ins => (ins.bare, m)) := by
  unfold decode
  rw [Instruction.decode_bare]
  cases Instruction.decode w pc with
  | error fault => rfl
  | ok ins => rfl

/-- **A cycle in place is the cycle**, if no address on the stack is so high that the counter
could not be moved past it. -/
theorem run_cycle {m : Machine} (hl : ∀ a ∈ m.stack.live, a.toNat ≤ 0x0FFE) :
    cycle.run m = whole m m.cycle := by
  unfold cycle Machine.cycle Machine.executeWord
  rw [EStateM.run_bind, EStateM.run_get]
  simp only [EStateM.run_bind, run_fetch]
  -- Fetching, decoding and executing each stop with the machine as it was, or go on.
  cases hw : m.fetch with
  | error fault => rfl
  | ok w =>
    simp only [Except.map, whole, run_decode]
    cases hd : Instruction.decode w m.pc with
    | error fault => rfl
    | ok ins =>
      simp only [run_execute]
      cases he : ins.execute m with
      | error fault => rfl
      | ok r =>
        obtain ⟨flow, m'⟩ := r
        have hnext : m.next? = some ins := Machine.next?_of_fetch hw hd
        -- The one place where the machine has to be sound: a popped address may not be too high.
        have hfits : m'.pc.toNat + flow.distance < 65536 :=
          Nat.lt_of_le_of_lt
            ((Machine.executes_of_execute he).pc_add_le (Machine.pc_of_next? hnext) hl) (by decide)
        simp only [whole, run_advance m' hfits, Machine.finishCycle]
        by_cases hwait : flow = .wait
        · simp only [if_pos hwait]
          rfl
        · simp only [if_neg hwait]
          rfl

/-! ## Sessions -/

theorem run_load (m : Machine) (program : List UInt8) :
    (load program).run m = whole m ((m.load program).map fun m' => ((), m')) := by
  unfold load Machine.load Memory.load
  by_cases hle : program.length ≤ Memory.maxProgramSize
  · have hsize : Memory.programStart + program.length ≤ Memory.size :=
      Nat.add_le_add_left hle Memory.programStart
    have hsum : Memory.programStart + program.length < UInt64.size :=
      Nat.lt_of_le_of_lt hsize (by decide)
    simp only [if_pos hle, if_neg (Nat.not_lt_of_le hle), sum_eq hsum, pure_bind,
      run_copyBetween m rfl hsize]
    rfl
  · simp only [if_neg hle, if_pos (Nat.lt_of_not_le hle)]
    rfl

theorem run_tickTimer (m : Machine) (timer : UInt8) :
    (tickTimer timer).run m = .ok (if timer = 0 then 0 else timer - 1) m := by
  unfold tickTimer
  by_cases hzero : timer = 0
  · subst hzero
    rfl
  · have hpos : 0 < timer := UInt8.pos_iff_ne_zero.mpr hzero
    have hone : 1 ≤ timer.toNat := hpos
    have hless : UInt8.ofNat (timer.toNat - 1) = timer - 1 := by
      apply UInt8.toNat_inj.mp
      rw [UInt8.toNat_sub_of_le timer 1 hone, UInt8.toNat_ofNat']
      exact Nat.mod_eq_of_lt (Nat.lt_of_le_of_lt (Nat.sub_le _ _) timer.toNat_lt)
    rw [if_pos hpos, if_neg hzero, show difference timer.toNat 1 = pure (timer.toNat - 1) from
      if_pos hone, pure_bind, hless]
    rfl

theorem run_tick (m : Machine) : tick.run m = .ok () m.tick := by
  unfold tick
  simp only [EStateM.run_bind, EStateM.run_get, run_tickTimer, EStateM.run_modify]
  rfl

theorem run_reset (m : Machine) : reset.run m = .ok () m.reset := by
  have hsum : sum UInt64.size Font.start Font.bytes.length =
      pure (Font.start + Font.bytes.length) := sum_eq (by decide)
  have hsize : Font.start + Font.bytes.length ≤ Memory.size := by decide
  unfold reset
  simp only [EStateM.run_bind, EStateM.run_modify, hsum, EStateM.run_pure,
    run_copyBetween _ rfl hsize]
  rfl

theorem step_eq {s : Session} (hs : s.machine.Sound) : step s = some s.step := by
  unfold step Session.step
  cases hf : s.fault with
  | some fault => rfl
  | none =>
    simp only [run_cycle hs.live_le]
    cases s.machine.cycle with
    | error fault => rfl
    | ok r => rfl

/-- **An operation in place, on a sound machine, is the operation.** -/
theorem perform_eq {s : Session} (hs : s.machine.Sound) (op : Session.Op) :
    perform s op = some (s.perform op) := by
  cases op with
  | load program =>
    simp only [perform, Session.perform, Session.load, run_load]
    cases s.machine.load program with
    | error fault => rfl
    | ok m => rfl
  | step =>
    simp only [perform, step_eq hs]
    rfl
  | tick =>
    simp only [perform, run_tick]
    rfl
  | reset =>
    simp only [perform, run_reset]
    rfl
  | press key => rfl
  | release key => rfl
  | setKeys keys => rfl

theorem runOps_eq {s : Session} (hs : s.machine.Sound) (ops : List Session.Op) :
    runOps s ops = some (s.runOps ops) := by
  induction ops generalizing s with
  | nil => rfl
  | cons op ops ih =>
    have hafter : (s.perform op).after.machine.Sound := Session.sound_perform hs
    have ih := ih hafter
    unfold runOps at ih ⊢
    rw [List.foldlM_cons, perform_eq hs]
    exact ih

/-- **No program can crash the machine.** Whatever an owner does with a fresh machine, what comes of
it is sound; and done in place, on operands that are bare numbers and where an index out of range or
a number out of width would crash, it all goes through to the same end, and so will any operation
after it. -/
theorem never_crashes (random : RandomStream) (ops : List Session.Op) :
    let s := (Session.fresh random).runOps ops
    s.machine.Sound ∧ runOps (Session.fresh random) ops = some s ∧
      ∀ op, perform s op = some (s.perform op) := by
  intro s
  have hs : s.machine.Sound := Session.sound_runOps random ops
  refine ⟨hs, runOps_eq ?_ ops, fun op => perform_eq hs op⟩
  exact Machine.sound_powerOn _ _

end InPlace

end Chip8
