import Chip8.Proofs.RandomBytes

/-!
# What a reset leaves behind

A reset is a fresh start for whoever runs the machine next: **of what has gone before it leaves the
keys that are down and the place in the random stream, and nothing else**
(`Session.reset_leaves_no_residue`). Two sessions that have these two in common are the same after
a reset, whatever was loaded into them, run, and left unfinished; and a session behind a reset is
one just made with its stream, with the bytes drawn that had been drawn, and the keys down.

What is left of the random stream is the bytes to come. Two streams with the same bytes ahead
(`RandomStream.SameAhead`) are told apart by nothing that an owner can do, be they of different
keys (`Session.Alike.perform`).
-/

set_option autoImplicit false

namespace Chip8

namespace RandomStream

/-- Do two streams have the same bytes ahead? -/
def SameAhead (r r' : RandomStream) : Prop :=
  ∀ k, Random.byte r.key (r.drawn + k) = Random.byte r'.key (r'.drawn + k)

theorem SameAhead.refl (r : RandomStream) : r.SameAhead r := fun _ => rfl

theorem SameAhead.head {r r' : RandomStream} (h : r.SameAhead r') : r.head = r'.head := h 0

theorem SameAhead.tail {r r' : RandomStream} (h : r.SameAhead r') : r.tail.SameAhead r'.tail := by
  intro k
  show Random.byte r.key (r.drawn + 1 + k) = Random.byte r'.key (r'.drawn + 1 + k)
  rw [Nat.add_assoc, Nat.add_assoc]
  exact h (1 + k)

end RandomStream

namespace Session

/-! ## The bytes to come -/

/-- Two sessions that differ at most in the random stream, and not in its bytes ahead. -/
def Alike (s t : Session) : Prop :=
  ∃ r, t = s.withRandom r ∧ s.machine.random.SameAhead r

/-- **One operation** gives the same on sessions that are alike, and leaves them alike. -/
theorem Alike.perform {s t : Session} (h : s.Alike t) (op : Op) :
    (t.perform op).result = (s.perform op).result ∧ (t.perform op).log = (s.perform op).log ∧
      (s.perform op).after.Alike (t.perform op).after := by
  obtain ⟨r, rfl, hahead⟩ := h
  obtain ⟨hresult, hlog, hkept⟩ := s.perform_withRandom r op
  refine ⟨hresult, hlog, ?_⟩
  have hrandom := (Deed.mk s op).random_after
  cases hdraws : (Deed.mk s op).draws with
  | false =>
    rw [hdraws] at hrandom
    refine ⟨r, hkept hdraws, ?_⟩
    rw [show (s.perform op).after.machine.random = _ from hrandom]
    exact hahead
  | true =>
    -- Both draw, and draw the same byte.
    rw [hdraws] at hrandom
    obtain ⟨rfl, x, mask, hnext⟩ := Deed.draws_iff.mp hdraws
    have hnext' : (s.withRandom r).next? = some (.random x mask) := hnext
    refine ⟨r.tail, ?_, ?_⟩
    · rw [perform_step_after, perform_step_after, step_eq_of_random hnext,
        step_eq_of_random hnext', hahead.head]
      rfl
    · rw [show (s.perform .step).after.machine.random = _ from hrandom]
      exact hahead.tail

/-- What the owner is told by some operations, and what they log, one after the other. -/
def answers (s : Session) : List Op → List (Reply × List LogEntry)
  | [] => []
  | op :: ops => ((s.perform op).result, (s.perform op).log) :: answers (s.perform op).after ops

/-- **All operations** give the same on sessions that are alike, and leave them alike. -/
theorem Alike.runOps {s t : Session} (h : s.Alike t) (ops : List Op) :
    t.answers ops = s.answers ops ∧ (s.runOps ops).Alike (t.runOps ops) := by
  induction ops generalizing s t with
  | nil => exact ⟨rfl, h⟩
  | cons op ops ih =>
    obtain ⟨hresult, hlog, hafter⟩ := h.perform op
    obtain ⟨hanswers, hrun⟩ := ih hafter
    refine ⟨?_, hrun⟩
    rw [answers, answers, hresult, hlog, hanswers]

/-! ## Resets -/

theorem Alike.reset {s t : Session} (hkeys : s.machine.keys = t.machine.keys)
    (hahead : s.machine.random.SameAhead t.machine.random) :
    s.reset.after.Alike t.reset.after := by
  refine ⟨t.machine.random, ?_, hahead⟩
  show (⟨.powerOn t.machine.keys t.machine.random, none⟩ : Session) =
    ⟨.powerOn s.machine.keys t.machine.random, none⟩
  rw [hkeys]

/-- A session just made, some random bytes later. -/
def drawn (random : RandomStream) (count : Nat) : Session :=
  ⟨Nat.repeat (fun m => m.drawByte.2) count (.fresh random), none⟩

theorem drawn_eq (random : RandomStream) (count : Nat) :
    drawn random count = (fresh random).withRandom (Nat.repeat .tail count random) := by
  induction count with
  | zero => rfl
  | succ count ih =>
    show Session.mk (drawn random count).machine.drawByte.2 none = _
    rw [ih]
    rfl

/-- Behind a reset a session is one just made, as many bytes later as have been drawn, with the keys
that are down. -/
theorem reset_eq_drawn (random : RandomStream) (ops : List Op) :
    let s := (fresh random).runOps ops
    let draws := ((fresh random).deeds ops).filter Deed.draws
    s.reset.after = ((drawn random draws.length).setKeys s.machine.keys).after := by
  intro s draws
  have hrandom : s.machine.random = Nat.repeat .tail draws.length random := random_runOps random ops
  rw [drawn_eq, ← hrandom]
  rfl

/-- **A reset leaves no residue.** Every field is put back to what a machine is switched on with,
but for the keys and the random stream. So two sessions, whatever was done with them, are the same
behind a reset exactly if they agree in these two; and if their streams have the same bytes ahead,
all that can be done next gives the same replies and the same log, and leaves them alike. In
particular a program loaded behind a reset runs as in a session just made with the stream, with as
many bytes drawn as there have been draws, and the same keys down. -/
theorem reset_leaves_no_residue (random random' : RandomStream) (before before' : List Op) :
    let s := (fresh random).runOps before
    let t := (fresh random').runOps before'
    let draws := ((fresh random).deeds before).filter Deed.draws
    let anew := ((drawn random draws.length).setKeys s.machine.keys).after
    s.reset.after =
      ⟨{ s.machine with
          v := Vector.replicate 16 0, i := 0, pc := 0x200, stack := .empty, delay := 0, sound := 0
          memory := .powerOn, frame := .dark, dirty := false, heldOnWait := none }, none⟩ ∧
    (s.reset.after = t.reset.after ↔
      s.machine.keys = t.machine.keys ∧ s.machine.random = t.machine.random) ∧
    (s.machine.keys = t.machine.keys → s.machine.random.SameAhead t.machine.random → ∀ ops,
      t.answers (.reset :: ops) = s.answers (.reset :: ops) ∧
        (s.runOps (.reset :: ops)).Alike (t.runOps (.reset :: ops))) ∧
    s.reset.after = anew ∧
    ∀ program ops,
      s.answers (.reset :: .load program :: ops) =
        (.done, [.machineReset 0x200]) :: anew.answers (.load program :: ops) ∧
      s.runOps (.reset :: .load program :: ops) = anew.runOps (.load program :: ops) := by
  intro s t draws anew
  have hanew : s.reset.after = anew := reset_eq_drawn random before
  refine ⟨rfl, ⟨fun h => ?_, fun h => ?_⟩, fun hkeys hahead ops => ?_, hanew,
    fun program ops => ?_⟩
  · have hmachine : Machine.powerOn s.machine.keys s.machine.random =
        .powerOn t.machine.keys t.machine.random := congrArg Session.machine h
    rw [Machine.powerOn, Machine.powerOn, Machine.mk.injEq] at hmachine
    obtain ⟨-, -, -, -, -, -, -, -, -, hkeys, -, hrandom⟩ := hmachine
    exact ⟨hkeys, hrandom⟩
  · show Session.mk (.powerOn s.machine.keys s.machine.random) none =
      ⟨.powerOn t.machine.keys t.machine.random, none⟩
    rw [h.1, h.2]
  · obtain ⟨hanswers, hrun⟩ := (Alike.reset hkeys hahead).runOps ops
    refine ⟨?_, hrun⟩
    show (Reply.done, [LogEntry.machineReset 0x200]) :: t.reset.after.answers ops =
      (.done, [.machineReset 0x200]) :: s.reset.after.answers ops
    rw [hanswers]
  · rw [← hanew]
    exact ⟨rfl, rfl⟩

/-- One session has failed in a return, the other waits for a key behind a longer program, with a
picture drawn and a call under way; each has drawn one byte. -/
theorem reset_after_fault_and_wait :
    let failed : List Op := [.load [0xC1, 0xFF, 0x00, 0xEE], .step, .step, .press 5]
    let waiting : List Op :=
      [.load [0xC2, 0x0F, 0xD0, 0x05, 0x22, 0x06, 0xF1, 0x0A, 0x12, 0x34], .press 5, .step, .step,
        .step, .step]
    let s := (fresh (.ofSeed 7)).runOps failed
    let t := (fresh (.ofSeed 7)).runOps waiting
    s.fault = some (.stackUnderflow 0x202) ∧ t.machine.heldOnWait = some (KeySet.ofList [5]) ∧
      t.machine.stack.depth = 1 ∧ s.reset.after = t.reset.after ∧
      t.answers [.reset, .load [0xC3, 0xFF], .step] =
        s.answers [.reset, .load [0xC3, 0xFF], .step] := by
  have of_run : ∀ failed waiting : List Op,
      let s := (fresh (.ofSeed 7)).runOps failed
      let t := (fresh (.ofSeed 7)).runOps waiting
      s.machine.keys = t.machine.keys ∧ s.machine.random = t.machine.random ∧
          s.fault = some (.stackUnderflow 0x202) ∧
          t.machine.heldOnWait = some (KeySet.ofList [5]) ∧ t.machine.stack.depth = 1 →
        s.fault = some (.stackUnderflow 0x202) ∧
          t.machine.heldOnWait = some (KeySet.ofList [5]) ∧ t.machine.stack.depth = 1 ∧
          s.reset.after = t.reset.after ∧
          t.answers [.reset, .load [0xC3, 0xFF], .step] =
            s.answers [.reset, .load [0xC3, 0xFF], .step] := by
    rintro failed waiting s t ⟨hkeys, hrandom, hfault, hheld, hdepth⟩
    obtain ⟨-, hsame, hanswers, -⟩ := reset_leaves_no_residue (.ofSeed 7) (.ofSeed 7) failed waiting
    have hahead : s.machine.random.SameAhead t.machine.random := hrandom ▸ .refl _
    exact ⟨hfault, hheld, hdepth, hsame.mpr ⟨hkeys, hrandom⟩,
      (hanswers hkeys hahead [.load [0xC3, 0xFF], .step]).1⟩
  exact of_run _ _ (by decide +kernel)

end Session

end Chip8
