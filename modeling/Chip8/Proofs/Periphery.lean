import Chip8.Proofs.History

/-!
# The periphery

Most instructions work on registers, index, counter, memory and frame. The rest of a machine is
its periphery: the call stack, the timers, what is known of the keys, and the random stream. Only a
few instructions have to do with any of it, each with one part; **all others neither read it nor
write it** (`Instruction.execute_withPeriphery`). And an instruction that has to do with one part
leaves out the others: stack and stream (`execute_mapInner`), timers (`execute_mapTimers`), keys
(`execute_mapKeys`).

So a change of the periphery, be it that it gets another stack or another random stream, can be
made before such an instruction or after it (`Instruction.execute_comm`). The rest of a cycle does
not notice it either, so the same holds of steps (`Session.step_comm`); and of the quiet operations,
if neither timers nor keys are changed (`Session.perform_quiet_comm`).
-/

set_option autoImplicit false

namespace Chip8

/-- The parts of a machine that most instructions have nothing to do with. -/
structure Periphery where
  stack : CallStack
  delay : UInt8
  sound : UInt8
  keys : KeySet
  heldOnWait : Option KeySet
  random : RandomStream

namespace Machine

/-- The periphery of a machine. -/
def periphery (m : Machine) : Periphery :=
  ⟨m.stack, m.delay, m.sound, m.keys, m.heldOnWait, m.random⟩

/-- The machine with another periphery. -/
def withPeriphery (m : Machine) (p : Periphery) : Machine :=
  { m with
    stack := p.stack, delay := p.delay, sound := p.sound
    keys := p.keys, heldOnWait := p.heldOnWait, random := p.random }

/-- The machine with its periphery changed. -/
def mapPeriphery (g : Periphery → Periphery) (m : Machine) : Machine :=
  m.withPeriphery (g m.periphery)

end Machine

/-- Does the instruction leave the periphery out? -/
def Instruction.isCentral : Instruction → Bool
  | ret | call _ | random _ _ | readDelay _ | setDelay _ | setSound _ | awaitKey _ => false
  | skipIf (.keyDown _) | skipIf (.keyUp _) => false
  | _ => true

namespace Machine

section

variable (m : Machine) (p : Periphery)

theorem arith_withPeriphery (op : ArithOp) (x y : Register) :
    (m.withPeriphery p).arith op x y = (m.arith op x y).withPeriphery p := by
  have hv : (m.withPeriphery p).v = m.v := rfl
  unfold arith
  rw [hv]
  cases op.eval m.v[x] m.v[y] with
  | mk result flag =>
    cases flag with
    | none => rfl
    | some flag => rfl

theorem store_withPeriphery (start : Nat) (data : List UInt8) :
    (m.withPeriphery p).store start data = (m.store start data).map (·.withPeriphery p) := by
  have hmemory : (m.withPeriphery p).memory = m.memory := rfl
  unfold store
  rw [hmemory]
  cases m.memory.write start data with
  | error fault => rfl
  | ok memory => rfl

end

end Machine

namespace Instruction

/-- **A central instruction** neither reads the periphery nor writes it. -/
theorem execute_withPeriphery {ins : Instruction} (h : ins.isCentral = true) (m : Machine)
    (p : Periphery) :
    ins.execute (m.withPeriphery p) =
      (ins.execute m).map fun q => (q.1, q.2.withPeriphery p) := by
  have hmemory : (m.withPeriphery p).memory = m.memory := rfl
  have hi : (m.withPeriphery p).i = m.i := rfl
  have hv : (m.withPeriphery p).v = m.v := rfl
  cases ins with
  | ret | call _ | random _ _ | readDelay _ | setDelay _ | setSound _ | awaitKey _ => cases h
  | skipIf c =>
    cases c with
    | keyDown x | keyUp x => cases h
    | byteIs _ _ | byteIsNot _ _ | same _ _ | differ _ _ => rfl
  | arith op x y => simp only [execute, m.arith_withPeriphery p, Except.map]
  | draw x y height =>
    simp only [execute, hmemory, hi]
    cases m.memory.read m.i.toNat height with
    | error fault => rfl
    | ok sprite => rfl
  | loadRegisters x =>
    simp only [execute, hmemory, hi]
    cases m.memory.read m.i.toNat (x + 1) with
    | error fault => rfl
    | ok bytes => rfl
  | storeDecimal x =>
    simp only [execute, m.store_withPeriphery p, hi, hv]
    cases m.store m.i.toNat (Machine.decimalDigits m.v[x]) with
    | error fault => rfl
    | ok m' => rfl
  | storeRegisters x =>
    simp only [execute, m.store_withPeriphery p, hi, hv]
    cases m.store m.i.toNat (m.v.toList.take (x + 1)) with
    | error fault => rfl
    | ok m' => rfl
  | sys _ | clear | jump _ | jumpOffset _ | setByte _ _ | addByte _ _ | setIndex _ | addIndex _
  | pointGlyph _ => rfl

theorem periphery_of_execute {ins : Instruction} (h : ins.isCentral = true) {m : Machine}
    {q : Flow × Machine} (he : ins.execute m = .ok q) : q.2.periphery = m.periphery := by
  -- What the instruction makes of the machine with its own periphery has that periphery.
  have hself := execute_withPeriphery h m m.periphery
  rw [show m.withPeriphery m.periphery = m from rfl, he] at hself
  have hq : q = (q.1, q.2.withPeriphery m.periphery) := Except.ok.inj hself
  exact congrArg (fun q => q.2.periphery) hq

/-- A change of the periphery can be made before a central instruction or after it. -/
theorem execute_comm {ins : Instruction} (h : ins.isCentral = true) (m : Machine)
    (g : Periphery → Periphery) :
    ins.execute (m.mapPeriphery g) = (ins.execute m).map fun q => (q.1, q.2.mapPeriphery g) := by
  rw [Machine.mapPeriphery, execute_withPeriphery h]
  cases he : ins.execute m with
  | error fault => rfl
  | ok q =>
    have hq : q.2.periphery = m.periphery := periphery_of_execute h he
    simp only [Except.map, Machine.mapPeriphery, hq]

end Instruction

/-- A change of all the periphery but what is known of the keys. -/
def Periphery.mapUnkeyed (f : CallStack → CallStack) (g : RandomStream → RandomStream)
    (h : UInt8 → UInt8) (p : Periphery) : Periphery :=
  { p with stack := f p.stack, random := g p.random, delay := h p.delay, sound := h p.sound }

/-- A wait for a key has nothing to do with any of that. -/
theorem Machine.awaitKey_mapUnkeyed (m : Machine) (f : CallStack → CallStack)
    (g : RandomStream → RandomStream) (h : UInt8 → UInt8) (x : Register) :
    (m.mapPeriphery (.mapUnkeyed f g h)).awaitKey x =
      ((m.awaitKey x).1, (m.awaitKey x).2.mapPeriphery (.mapUnkeyed f g h)) := by
  have hkeys : (m.mapPeriphery (.mapUnkeyed f g h)).keys = m.keys := rfl
  have hheld : (m.mapPeriphery (.mapUnkeyed f g h)).heldSinceWait = m.heldSinceWait := rfl
  unfold awaitKey
  rw [hkeys, hheld]
  cases (m.keys \ m.heldSinceWait).lowest? with
  | none => rfl
  | some k => rfl

/-! ## Stack and stream -/

/-- A change of nothing but the call stack and the random stream. -/
def Periphery.mapInner (f : CallStack → CallStack) (g : RandomStream → RandomStream)
    (p : Periphery) : Periphery :=
  { p with stack := f p.stack, random := g p.random }

/-- Does the instruction have to do with the call stack or the random stream? -/
def Instruction.isInner : Instruction → Bool
  | ret | call _ | random _ _ => true
  | _ => false

section

variable (m : Machine) (f : CallStack → CallStack) (g : RandomStream → RandomStream)

theorem Machine.awaitKey_mapInner (x : Register) :
    (m.mapPeriphery (.mapInner f g)).awaitKey x =
      ((m.awaitKey x).1, (m.awaitKey x).2.mapPeriphery (.mapInner f g)) :=
  m.awaitKey_mapUnkeyed f g id x

/-- Where only stack and stream are changed, timers and keys need not be left out. -/
theorem Instruction.execute_mapInner {ins : Instruction} (h : ins.isInner = false) :
    ins.execute (m.mapPeriphery (.mapInner f g)) =
      (ins.execute m).map fun q => (q.1, q.2.mapPeriphery (.mapInner f g)) := by
  by_cases hcentral : ins.isCentral = true
  · exact execute_comm hcentral m (.mapInner f g)
  cases ins with
  | ret | call _ | random _ _ => cases h
  | awaitKey x => simp only [execute, m.awaitKey_mapInner f g, Except.map]
  | readDelay x | setDelay x | setSound x | skipIf c => rfl
  | _ => exact absurd rfl hcentral

end

/-! ## Timers and keys -/

/-- A change of nothing but the timers and what is known of the keys. -/
def Periphery.mapOuter (f : UInt8 → UInt8)
    (g : KeySet × Option KeySet → KeySet × Option KeySet) (p : Periphery) : Periphery :=
  let known := g (p.keys, p.heldOnWait)
  { p with delay := f p.delay, sound := f p.sound, keys := known.1, heldOnWait := known.2 }

/-- A change of nothing but the timers. -/
def Periphery.mapTimers (f : UInt8 → UInt8) : Periphery → Periphery := mapOuter f id

/-- The keys that are down become others, and those not among them are not held any more. -/
def Periphery.mapKeys (f : KeySet → KeySet) : Periphery → Periphery :=
  mapOuter id fun (keys, held) => (f keys, held.map (· ∩ f keys))

/-- Does the instruction have to do with the timers? -/
def Instruction.isTimed : Instruction → Bool
  | readDelay _ | setDelay _ | setSound _ => true
  | _ => false

/-- Does the instruction have to do with the keys? -/
def Instruction.isKeyed : Instruction → Bool
  | awaitKey _ | skipIf (.keyDown _) | skipIf (.keyUp _) => true
  | _ => false

section

variable (m : Machine) (f : UInt8 → UInt8)

theorem Machine.awaitKey_mapTimers (x : Register) :
    (m.mapPeriphery (.mapTimers f)).awaitKey x =
      ((m.awaitKey x).1, (m.awaitKey x).2.mapPeriphery (.mapTimers f)) :=
  m.awaitKey_mapUnkeyed id id f x

/-- What has to do with stack or stream has nothing to do with timers and keys. -/
theorem Instruction.execute_mapOuter {ins : Instruction} (h : ins.isInner = true)
    (g : KeySet × Option KeySet → KeySet × Option KeySet) :
    ins.execute (m.mapPeriphery (.mapOuter f g)) =
      (ins.execute m).map fun q => (q.1, q.2.mapPeriphery (.mapOuter f g)) := by
  have hstack : (m.mapPeriphery (.mapOuter f g)).stack = m.stack := rfl
  have hpc : (m.mapPeriphery (.mapOuter f g)).pc = m.pc := rfl
  cases ins with
  | ret =>
    simp only [execute, Machine.pop, hstack]
    cases m.stack.pop? with
    | none => rfl
    | some popped => rfl
  | call a =>
    simp only [execute, Machine.push, hstack, hpc]
    cases m.stack.push? m.pc with
    | none => rfl
    | some stack => rfl
  | random x mask => rfl
  | _ => cases h

/-- The timers can be changed before an instruction or after it, unless it reads or sets them. -/
theorem Instruction.execute_mapTimers {ins : Instruction} (h : ins.isTimed = false) :
    ins.execute (m.mapPeriphery (.mapTimers f)) =
      (ins.execute m).map fun q => (q.1, q.2.mapPeriphery (.mapTimers f)) := by
  by_cases hcentral : ins.isCentral = true
  · exact execute_comm hcentral m (.mapTimers f)
  by_cases hinner : ins.isInner = true
  · exact execute_mapOuter m f hinner id
  cases ins with
  | readDelay _ | setDelay _ | setSound _ => cases h
  | awaitKey x => simp only [execute, m.awaitKey_mapTimers f, Except.map]
  | skipIf c => rfl
  | ret | call _ | random _ _ => exact absurd rfl hinner
  | _ => exact absurd rfl hcentral

/-- The keys can be changed before an instruction or after it, unless it asks for them. -/
theorem Instruction.execute_mapKeys {ins : Instruction} (h : ins.isKeyed = false)
    (g : KeySet → KeySet) :
    ins.execute (m.mapPeriphery (.mapKeys g)) =
      (ins.execute m).map fun q => (q.1, q.2.mapPeriphery (.mapKeys g)) := by
  by_cases hcentral : ins.isCentral = true
  · exact execute_comm hcentral m (.mapKeys g)
  by_cases hinner : ins.isInner = true
  · exact execute_mapOuter m id hinner _
  cases ins with
  | readDelay x | setDelay x | setSound x => rfl
  | skipIf c =>
    cases c with
    | keyDown _ | keyUp _ => cases h
    | byteIs _ _ | byteIsNot _ _ | same _ _ | differ _ _ => exact absurd rfl hcentral
  | awaitKey _ => cases h
  | ret | call _ | random _ _ => exact absurd rfl hinner
  | _ => exact absurd rfl hcentral

end

/-! ## The rest of a cycle -/

namespace Machine

theorem finishCycle_mapPeriphery (m : Machine) (g : Periphery → Periphery) (flow : Flow) :
    (m.mapPeriphery g).finishCycle flow =
      ((m.finishCycle flow).1, (m.finishCycle flow).2.mapPeriphery g) := by
  unfold finishCycle
  split
  · rfl
  · rfl

theorem cycle_comm {m : Machine} {g : Periphery → Periphery}
    (hexec : ∀ ins, m.next? = some ins →
      ins.execute (m.mapPeriphery g) =
        (ins.execute m).map fun q => (q.1, q.2.mapPeriphery g)) :
    (m.mapPeriphery g).cycle = m.cycle.map fun c => (c.1, c.2.mapPeriphery g) := by
  have hfetch : (m.mapPeriphery g).fetch = m.fetch := rfl
  have hpc : (m.mapPeriphery g).pc = m.pc := rfl
  unfold cycle executeWord
  rw [hfetch, hpc]
  cases hw : m.fetch with
  | error fault => rfl
  | ok w =>
    dsimp only
    cases hd : Instruction.decode w m.pc with
    | error fault => rfl
    | ok ins =>
      dsimp only
      rw [hexec ins (next?_of_fetch hw hd)]
      cases ins.execute m with
      | error fault => rfl
      | ok q => exact congrArg Except.ok (q.2.finishCycle_mapPeriphery g q.1)

end Machine

/-! ## Operations -/

namespace Session

/-- The session with its machine's periphery changed. -/
def mapPeriphery (g : Periphery → Periphery) (s : Session) : Session :=
  { s with machine := s.machine.mapPeriphery g }

/-- What can be done before an instruction or after it can be done before the step that runs it or
after the step. -/
theorem step_comm {s : Session} {g : Periphery → Periphery}
    (hexec : ∀ ins, s.next? = some ins →
      ins.execute (s.machine.mapPeriphery g) =
        (ins.execute s.machine).map fun q => (q.1, q.2.mapPeriphery g)) :
    (s.mapPeriphery g).step = ⟨s.step.result, s.step.after.mapPeriphery g, s.step.log⟩ := by
  cases hfault : s.fault with
  | some fault =>
    have hchanged : (s.mapPeriphery g).fault = some fault := hfault
    rw [step_of_fault hfault, step_of_fault hchanged]
  | none =>
    have hchanged : (s.mapPeriphery g).fault = none := hfault
    have hcycle : (s.mapPeriphery g).machine.cycle =
        s.machine.cycle.map fun c => (c.1, c.2.mapPeriphery g) :=
      Machine.cycle_comm fun ins hn => hexec ins (next?_eq_some.mpr ⟨hfault, hn⟩)
    have hlog : (s.mapPeriphery g).machine.cycleLog = s.machine.cycleLog := rfl
    cases hc : s.machine.cycle with
    | error fault =>
      rw [hc] at hcycle
      rw [step_of_error hfault hc, step_of_error hchanged hcycle, hlog]
      rfl
    | ok r =>
      rw [hc] at hcycle
      rw [step_of_ok hfault hc, step_of_ok hchanged hcycle, hlog]
      rfl

/-- A change of call stack and random stream can be made before a quiet operation or after it. -/
theorem perform_quiet_comm (s : Session) (f : CallStack → CallStack)
    (g : RandomStream → RandomStream) {op : Op} (hq : op.isQuiet = true) :
    (s.mapPeriphery (.mapInner f g)).perform op =
      ⟨(s.perform op).result, (s.perform op).after.mapPeriphery (.mapInner f g),
        (s.perform op).log⟩ := by
  have hkey : ∀ key down, (s.mapPeriphery (.mapInner f g)).setKey key down =
      ⟨(s.setKey key down).result, (s.setKey key down).after.mapPeriphery (.mapInner f g),
        (s.setKey key down).log⟩ := by
    intro key down
    unfold setKey
    split
    · rfl
    · rfl
  cases op with
  | load program =>
    have hload : (s.mapPeriphery (.mapInner f g)).machine.load program =
        (s.machine.load program).map (·.mapPeriphery (.mapInner f g)) := by
      show (s.machine.memory.load program).map _ = _
      unfold Machine.load
      cases s.machine.memory.load program with
      | error fault => rfl
      | ok memory => rfl
    simp only [perform, load, hload]
    cases s.machine.load program with
    | error fault => rfl
    | ok m => rfl
  | press key => simp only [perform, press, hkey, Outcome.map]
  | release key => simp only [perform, release, hkey, Outcome.map]
  | tick | setKeys keys => rfl
  | step | reset => cases hq

end Session

end Chip8
