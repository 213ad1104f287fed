import Chip8.Proofs.BareWords

/-!
# The machine run in place

An instruction gives a whole new machine or a fault (`Instruction.execute`), so nothing half done
is ever seen. Here is the same machine as hardware would have it: one state, changed field by
field in the order in which the work is done, **and kept as it is when the work stops**. A return
moves the depth before it reads the slot; a wait notes its keys before it looks for a new one; a
sprite is drawn pixel by pixel, each collision found as it happens.

Nothing is taken for granted about numbers. Instructions are those of `Chip8.Proofs.BareWords`, in
which a register or a height can be any byte and an address any word; each index is looked up in
range, each sum, difference and product is held against the width it is made at, and where that
does not work out the machine *crashes*, which is neither a result nor a fault. Even the counter,
which is moved on in arithmetic that wraps, may not in fact wrap.

That a sound machine never crashes, and that nothing of this can be told from the outside, is
proved in `Chip8.Proofs.InPlace.Agreement`.
-/

set_option autoImplicit false

namespace Chip8

namespace InPlace

/-- Why work on a machine stops before its end. -/
inductive Stop where
  | fault (fault : Fault)
  /-- An index out of range, or a number that its width cannot hold. -/
  | crash

/-- Work on one machine, which is left as it is where the work stops. -/
abbrev Work (α : Type) := EStateM Stop Machine α

def crash {α : Type} : Work α := throw .crash

def fail {α : Type} (fault : Fault) : Work α := throw (.fault fault)

/-- Crashes unless the condition holds. -/
def demand (p : Prop) [Decidable p] : Work Unit := if p then pure () else crash

/-! ## Numbers -/

def sum (size a b : Nat) : Work Nat := if a + b < size then pure (a + b) else crash

def product (size a b : Nat) : Work Nat := if a * b < size then pure (a * b) else crash

def difference (a b : Nat) : Work Nat := if b ≤ a then pure (a - b) else crash

/-! ## Registers -/

def reg (x : UInt8) : Work UInt8 := do
  let m ← get
  if h : x.toNat < 16 then pure m.v[x.toNat] else crash

def setReg (x b : UInt8) : Work Unit :=
  if h : x.toNat < 16 then modify fun m => { m with v := m.v.set x.toNat b } else crash

def setFlag (flag : Bool) : Work Unit := setReg 0xF (if flag then 1 else 0)

/-- The first `count` registers. -/
def firstRegs (count : Nat) : Work (List UInt8) := do
  demand (count ≤ 16)
  let m ← get
  return m.v.toList.take count

/-- Copies bytes over the first `count` registers. -/
def setFirstRegs (count : Nat) (bytes : List UInt8) : Work Unit := do
  demand (count ≤ 16 ∧ bytes.length = count)
  modify (·.setRegs bytes)

/-! ## Memory -/

/-- The end of an access, granted only within memory. -/
def accessEnd (start len : Nat) : Work Nat := do
  let stop ← sum UInt64.size start len
  if Memory.size < stop then fail (Memory.refusal start) else pure stop

def bytesBetween (start stop : Nat) : Work (List UInt8) := do
  demand (start ≤ stop ∧ stop ≤ Memory.size)
  let m ← get
  return m.memory.slice start (stop - start)

def copyBetween (start stop : Nat) (data : List UInt8) : Work Unit := do
  demand (start ≤ stop ∧ stop ≤ Memory.size)
  demand (data.length = stop - start)
  modify fun m => { m with memory := m.memory.place start data }

def read (start len : Nat) : Work (List UInt8) := do
  let stop ← accessEnd start len
  bytesBetween start stop

def write (start : Nat) (data : List UInt8) : Work Unit := do
  let stop ← accessEnd start data.length
  copyBetween start stop data

/-- Item `k` of what has been read. -/
def item (bytes : List UInt8) (k : Nat) : Work UInt8 :=
  match bytes[k]? with
  | some b => pure b
  | none => crash

def fetch : Work UInt16 := do
  let m ← get
  let bytes ← read m.pc.toNat 2
  let high ← item bytes 0
  let low ← item bytes 1
  return UInt16.ofNat (high.toNat * 256 + low.toNat)

/-! ## The call stack -/

def setSlot (k : Nat) (a : UInt16) : Work Unit :=
  if h : k < 16 then
    modify fun m => { m with stack := { m.stack with slots := m.stack.slots.set k a } }
  else crash

def slot (k : Nat) : Work UInt16 := do
  let m ← get
  if h : k < 16 then pure m.stack.slots[k] else crash

/-- Moves the depth, which may not pass the sixteen slots. -/
def setDepth (depth : Nat) : Work Unit :=
  if h : depth ≤ 16 then
    modify fun m => { m with stack := { m.stack with depth := depth, depth_le := h } }
  else crash

def push (a : UInt16) : Work Unit := do
  let m ← get
  if CallStack.capacity ≤ m.stack.depth then
    fail (.stackOverflow m.pc)
  else
    setSlot m.stack.depth a
    let depth ← sum UInt8.size m.stack.depth 1
    setDepth depth

def pop : Work UInt16 := do
  let m ← get
  if m.stack.depth = 0 then
    fail (.stackUnderflow m.pc)
  else
    let depth ← difference m.stack.depth 1
    setDepth depth
    slot depth

/-! ## Drawing -/

/-- Flips one pixel and says whether it was lit. -/
def flipPixel (x y : Nat) : Work Bool := do
  let m ← get
  if h : x < 64 ∧ y < 32 then
    set { m with frame := m.frame.flipRow y (BitVec.twoPow 64 (63 - x)) }
    return m.frame.pixel ⟨x, h.1⟩ ⟨y, h.2⟩
  else crash

/-- Draws one bit of a sprite's row. `seen` says of the bits before it whether one of them met a
lit pixel, and whether one of them flipped any. -/
def drawBit (left y : Nat) (b : UInt8) (seen : Bool × Bool) (bit : Nat) : Work (Bool × Bool) := do
  let shift ← difference 7 bit
  if b.toBitVec.getLsbD shift then
    let column ← sum UInt64.size left bit
    let lit ← flipPixel (column % Frame.width) y
    return (seen.1 || lit, true)
  else return seen

/-- Draws the rows of a sprite from row number `row` on. -/
def drawRows (left top : Nat) : List UInt8 → Nat → Bool × Bool → Work (Bool × Bool)
  | [], _, seen => return seen
  | b :: rest, row, seen => do
    let y ← sum UInt64.size top row
    let seen ← (List.range 8).foldlM (drawBit left (y % Frame.height) b) seen
    drawRows left top rest (row + 1) seen

/-- Draws a sprite, by way of a buffer of fifteen rows. -/
def draw (x y height : UInt8) : Work Flow := do
  demand (height.toNat ≤ 15)
  let m ← get
  let sprite ← read m.i.toNat height.toNat
  demand (sprite.length = height.toNat)
  let left ← reg x
  let top ← reg y
  let seen ← drawRows left.toNat top.toNat sprite 0 (false, false)
  setFlag seen.1
  modify fun m => { m with dirty := m.dirty || seen.2 }
  return .next

/-! ## Instructions -/

def keyDown (x : UInt8) : Work Bool := do
  let b ← reg x
  let m ← get
  return if h : b.toNat < 16 then m.keys.contains ⟨b.toNat, h⟩ else false

def holds : Bare.Condition → Work Bool
  | .byteIs x b => do return (← reg x) == b
  | .byteIsNot x b => do return (← reg x) != b
  | .same x y => do return (← reg x) == (← reg y)
  | .differ x y => do return (← reg x) != (← reg y)
  | .keyDown x => keyDown x
  | .keyUp x => do return !(← keyDown x)

/-- The flag, where there is one, is written before the result. -/
def arith (op : ArithOp) (x y : UInt8) : Work Unit := do
  let a ← reg x
  let b ← reg y
  let (result, flag) := op.eval a b
  match flag with
  | some flag => setFlag flag
  | none => pure ()
  setReg x result

/-- Waits for a key, noting the keys that are down already if the wait begins here. -/
def awaitKey (x : UInt8) : Work Flow := do
  modify fun m => { m with heldOnWait := some (m.heldOnWait.getD m.keys) }
  modify fun m => { m with heldOnWait := m.heldOnWait.map (· ∩ m.keys) }
  let m ← get
  match (m.keys \ m.heldOnWait.getD ∅).lowest? with
  | some k =>
    setReg x (UInt8.ofNat k)
    modify fun m => { m with heldOnWait := none }
    return .next
  | none => return .wait

def jumpTo (target : UInt16) : Work Flow := do
  modify fun m => { m with pc := target }
  return .jump

/-- Runs one instruction. -/
def execute : Bare.Instruction → Work Flow
  | .sys _ => return .next
  | .clear => do
    modify fun m => { m with frame := .dark }
    modify fun m => { m with dirty := true }
    return .next
  | .ret => do
    let origin ← pop
    modify fun m => { m with pc := origin }
    return .next
  | .jump a => jumpTo a
  | .call a => do
    let m ← get
    push m.pc
    jumpTo a
  | .skipIf c => do return .skipWhen (← holds c)
  | .setByte x b => do
    setReg x b
    return .next
  | .addByte x b => do
    setReg x ((← reg x) + b)
    return .next
  | .arith op x y => do
    arith op x y
    return .next
  | .setIndex a => do
    modify fun m => { m with i := a }
    return .next
  | .jumpOffset a => do
    let target ← sum UInt16.size (← reg 0).toNat a.toNat
    jumpTo (UInt16.ofNat target)
  | .random x mask => do
    let m ← get
    set { m with random := m.random.tail }
    setReg x (m.random.head &&& mask)
    return .next
  | .draw x y height => draw x y height
  | .readDelay x => do
    let m ← get
    setReg x m.delay
    return .next
  | .awaitKey x => awaitKey x
  | .setDelay x => do
    let b ← reg x
    modify fun m => { m with delay := b }
    return .next
  | .setSound x => do
    let b ← reg x
    modify fun m => { m with sound := b }
    return .next
  | .addIndex x => do
    let b ← reg x
    modify fun m => { m with i := m.i + b.toUInt16 }
    return .next
  | .pointGlyph x => do
    let b ← reg x
    let offset ← product UInt16.size (b.toNat % 16) Font.glyphHeight
    let glyph ← sum UInt16.size Font.start offset
    modify fun m => { m with i := UInt16.ofNat glyph }
    return .next
  | .storeDecimal x => do
    let b ← reg x
    let m ← get
    write m.i.toNat (Machine.decimalDigits b)
    return .next
  | .storeRegisters x => do
    let count ← sum UInt64.size x.toNat 1
    let m ← get
    -- The range is granted before the registers are cut to length.
    let stop ← accessEnd m.i.toNat count
    let bytes ← firstRegs count
    copyBetween m.i.toNat stop bytes
    return .next
  | .loadRegisters x => do
    let count ← sum UInt64.size x.toNat 1
    let m ← get
    let bytes ← read m.i.toNat count
    setFirstRegs count bytes
    return .next

/-! ## Cycles -/

def advance (flow : Flow) : Work Unit := do
  let m ← get
  let pc ← sum UInt16.size m.pc.toNat flow.distance
  modify fun m => { m with pc := UInt16.ofNat pc }

def decode (w pc : UInt16) : Work Bare.Instruction :=
  match Bare.decode w pc with
  | .ok ins => pure ins
  | .error fault => fail fault

/-- One cycle. -/
def cycle : Work Cycle := do
  let m ← get
  let w ← fetch
  let ins ← decode w m.pc
  let flow ← execute ins
  advance flow
  if flow = .wait then
    return .awaitingKey
  else
    let m ← get
    modify fun m => { m with dirty := false }
    return .executed m.dirty

/-! ## Sessions -/

def load (program : List UInt8) : Work Unit := do
  if Memory.maxProgramSize < program.length then
    fail (.programTooLarge program.length Memory.maxProgramSize)
  else
    let stop ← sum UInt64.size Memory.programStart program.length
    copyBetween Memory.programStart stop program

/-- A timer, one tick later. -/
def tickTimer (timer : UInt8) : Work UInt8 :=
  if 0 < timer then do
    let less ← difference timer.toNat 1
    return UInt8.ofNat less
  else return timer

def tick : Work Unit := do
  let delay ← tickTimer (← get).delay
  modify fun m => { m with delay }
  let sound ← tickTimer (← get).sound
  modify fun m => { m with sound }

/-- Puts every field to what a machine is switched on with, memory to zero first and then the font
into it. -/
def reset : Work Unit := do
  modify fun m => { Machine.powerOn m.keys m.random with memory := .zero }
  let stop ← sum UInt64.size Font.start Font.bytes.length
  copyBetween Font.start stop Font.bytes

/-- The step of a session whose machine is run in place; none, if it crashes. Where the cycle stops
at a fault, the session goes on with the machine as the cycle has left it. -/
def step (s : Session) : Option (Outcome Session (Except Fault Cycle)) :=
  match s.fault with
  | some fault => some ⟨.error fault, s, []⟩
  | none =>
    match cycle.run s.machine with
    | .ok c m => some ⟨.ok c, ⟨m, none⟩, s.machine.cycleLog⟩
    | .error (.fault fault) m =>
      some ⟨.error fault, ⟨m, some fault⟩, s.machine.cycleLog ++ [.halting fault]⟩
    | .error .crash _ => none

/-- An operation on a session whose machine is run in place; none, if it crashes. -/
def perform (s : Session) : Session.Op → Option (Outcome Session Session.Reply)
  | .load program =>
    match (load program).run s.machine with
    | .ok _ m => some ⟨.loaded (.ok ()), { s with machine := m }, [.programLoaded program.length]⟩
    | .error (.fault fault) m => some ⟨.loaded (.error fault), { s with machine := m }, []⟩
    | .error .crash _ => none
  | .step => (step s).map (·.map .stepped)
  | .tick =>
    match tick.run s.machine with
    | .ok _ m => some ⟨.done, { s with machine := m }, s.machine.tickLog⟩
    | .error _ _ => none
  | .reset =>
    match reset.run s.machine with
    | .ok _ m => some ⟨.done, ⟨m, none⟩, [.machineReset m.pc]⟩
    | .error _ _ => none
  -- Telling of keys has no index and no sum to check.
  | op => some (s.perform op)

/-- The session after some operations; none, if one of them crashes. -/
def runOps (s : Session) (ops : List Session.Op) : Option Session :=
  ops.foldlM (fun s op => (perform s op).map (·.after)) s

end InPlace

end Chip8
