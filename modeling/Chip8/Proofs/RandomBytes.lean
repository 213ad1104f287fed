import Chip8.Proofs.Deeds
import Chip8.Proofs.Periphery

/-!
# Random bytes

The random bytes of a session are one sequence, given by a key. **The draws of a history take
its bytes in order, one each, and nothing else takes any** (`Session.random_bytes_in_order`): no
other instruction, no step that fails, and no reset, which switches everything else off and on.

And nobody looks ahead. Two sessions with different streams cannot be told apart before the first
draw, because an instruction that does not draw neither reads the random stream nor writes it
(`Machine.execute_withRandom`).
-/

set_option autoImplicit false

namespace Chip8

/-- Does the deed draw a random byte? -/
def Deed.draws (d : Deed) : Bool := d.executed?.any Instruction.draws

namespace Deed

/-- A deed takes one byte from the stream if it draws, and none otherwise. -/
theorem random_after (d : Deed) :
    d.after.machine.random =
      if d.draws then d.session.machine.random.tail else d.session.machine.random := by
  obtain ⟨s, op⟩ := d
  by_cases hstep : op = .step
  · subst hstep
    show s.step.after.machine.random = _
    rcases step_cases s with ⟨ins, hexec, heffect⟩ | ⟨hexec, hkept⟩
    · rw [draws, hexec]
      exact heffect.random
    · rw [draws, hexec, hkept]
      rfl
  · rw [draws, executed?_eq_none hstep]
    by_cases hreset : op = .reset
    · subst hreset
      rfl
    · have hq := (Session.Op.quiet_or_step hreset).resolve_right hstep
      exact (s.perform_quiet hq).2.random

end Deed

/-- A draw never fails. It takes the next byte of the stream and leaves it, masked, in its
register. -/
theorem Session.step_eq_of_random {s : Session} {x : Register} {mask : UInt8}
    (h : s.next? = some (.random x mask)) :
    s.step =
      ⟨.ok (.executed s.machine.dirty),
        { s with
          machine :=
            { s.machine.setReg x (s.machine.random.head &&& mask) with
              pc := s.machine.pc + 2, dirty := false, random := s.machine.random.tail } },
        s.machine.cycleLog⟩ := by
  obtain ⟨hf, hn⟩ := next?_eq_some.mp h
  have hcycle : s.machine.cycle = .ok (.executed s.machine.dirty,
      { s.machine.setReg x (s.machine.random.head &&& mask) with
        pc := s.machine.pc + 2, dirty := false, random := s.machine.random.tail }) := by
    rw [Machine.cycle_of_next? hn]
    rfl
  exact step_of_ok hf hcycle

theorem Session.step_of_random {s : Session} {x : Register} {mask : UInt8}
    (h : s.next? = some (.random x mask)) :
    s.step.result = .ok (.executed s.machine.dirty) ∧ s.step.log = s.machine.cycleLog ∧
      s.step.after.machine.v.get x = s.machine.random.head &&& mask := by
  rw [step_eq_of_random h]
  exact ⟨rfl, rfl, Vector.getElem_set_self x.isLt⟩

/-- The draws are the steps at an instruction that draws. -/
theorem Deed.draws_iff {d : Deed} :
    d.draws = true ↔ d.op = .step ∧ ∃ x mask, d.session.next? = some (.random x mask) := by
  obtain ⟨s, op⟩ := d
  constructor
  · intro h
    obtain ⟨ins, hexec, hdraws⟩ := (Option.any_eq_true _ _).mp h
    obtain ⟨hop, hnext⟩ := next?_of_executed? hexec
    cases ins with
    | random x mask => exact ⟨hop, x, mask, hnext⟩
    | _ => cases hdraws
  · rintro ⟨rfl, x, mask, hnext⟩
    have hexec : executed? ⟨s, .step⟩ = some (.random x mask) := by
      simp only [executed?, (Session.step_of_random hnext).1]
      exact hnext
    rw [draws, hexec]
    rfl

/-! ## Another stream -/

namespace Machine

/-- The machine with another random stream. -/
def withRandom (m : Machine) (r : RandomStream) : Machine := { m with random := r }

section

variable (m : Machine) (r : RandomStream)

theorem push_withRandom (a : UInt16) :
    (m.withRandom r).push a = (m.push a).map (·.withRandom r) := by
  have hstack : (m.withRandom r).stack = m.stack := rfl
  unfold push
  rw [hstack]
  cases m.stack.push? a with
  | none => rfl
  | some stack => rfl

theorem pop_withRandom :
    (m.withRandom r).pop = m.pop.map fun q => (q.1, q.2.withRandom r) := by
  have hstack : (m.withRandom r).stack = m.stack := rfl
  unfold pop
  rw [hstack]
  cases m.stack.pop? with
  | none => rfl
  | some popped => rfl

/-- An instruction that does not draw neither reads the random stream nor writes it. -/
theorem execute_withRandom {ins : Instruction} (h : ins.draws = false) :
    ins.execute (m.withRandom r) =
      (ins.execute m).map fun q => (q.1, q.2.withRandom r) := by
  cases ins with
  | random x mask => cases h
  | ret =>
    simp only [Instruction.execute, pop_withRandom]
    cases m.pop with
    | error fault => rfl
    | ok q => rfl
  | call a =>
    have hpc : (m.withRandom r).pc = m.pc := rfl
    simp only [Instruction.execute, push_withRandom, hpc]
    cases m.push m.pc with
    | error fault => rfl
    | ok m' => rfl
  | _ => exact Instruction.execute_mapInner m id (fun _ => r) rfl

end

end Machine

namespace Session

/-- The session with another random stream. -/
def withRandom (s : Session) (r : RandomStream) : Session :=
  { s with machine := s.machine.withRandom r }

/-- Nothing but what is drawn tells one stream from another. -/
theorem perform_withRandom (s : Session) (r : RandomStream) (op : Op) :
    let o := (s.withRandom r).perform op
    o.result = (s.perform op).result ∧ o.log = (s.perform op).log ∧
      ((Deed.mk s op).draws = false → o.after = (s.perform op).after.withRandom r) := by
  by_cases hreset : op = .reset
  · subst hreset
    exact ⟨rfl, rfl, fun _ => rfl⟩
  rcases Op.quiet_or_step hreset with hq | rfl
  · have ho : (s.withRandom r).perform op =
        ⟨(s.perform op).result, (s.perform op).after.withRandom r, (s.perform op).log⟩ :=
      s.perform_quiet_comm id (fun _ => r) hq
    rw [ho]
    exact ⟨rfl, rfl, fun _ => rfl⟩
  cases hdraws : (Deed.mk s .step).draws with
  | true =>
    -- The two draw different bytes, but what they tell of it is the same.
    obtain ⟨-, x, mask, hnext⟩ := Deed.draws_iff.mp hdraws
    have hnext' : (s.withRandom r).next? = some (.random x mask) := hnext
    obtain ⟨hresult, hlog, -⟩ := step_of_random hnext
    obtain ⟨hresult', hlog', -⟩ := step_of_random hnext'
    refine ⟨?_, hlog'.trans hlog.symm, fun h => nomatch h⟩
    show Reply.stepped (s.withRandom r).step.result = Reply.stepped s.step.result
    rw [hresult, hresult']
    rfl
  | false =>
    have hstep : (s.withRandom r).step =
        ⟨s.step.result, s.step.after.withRandom r, s.step.log⟩ := by
      apply step_comm (g := .mapInner id fun _ => r)
      intro ins hnext
      apply Machine.execute_withRandom
      cases ins with
      | random x mask =>
        have hdraw : (Deed.mk s .step).draws = true := Deed.draws_iff.mpr ⟨rfl, x, mask, hnext⟩
        rw [hdraws] at hdraw
        cases hdraw
      | _ => rfl
    simp only [perform, hstep, Outcome.map]
    exact ⟨trivial, trivial, fun _ => trivial⟩

theorem runOps_withRandom (s : Session) (r : RandomStream) {ops : List Op}
    (h : (s.deeds ops).filter Deed.draws = []) :
    (s.withRandom r).runOps ops = (s.runOps ops).withRandom r := by
  induction ops generalizing s with
  | nil => rfl
  | cons op ops ih =>
    rw [deeds, List.filter_cons] at h
    split at h
    · cases h
    · next hdraws =>
      have hafter := (s.perform_withRandom r op).2.2 (Bool.eq_false_iff.mpr hdraws)
      rw [runOps_cons, hafter, ih _ h, runOps_cons]

end Session

/-! ## The bytes in order -/

theorem RandomStream.repeat_tail (r : RandomStream) (n : Nat) :
    Nat.repeat tail n r = ⟨r.key, r.drawn + n⟩ := by
  induction n with
  | zero => rfl
  | succ n ih =>
    show (Nat.repeat tail n r).tail = _
    rw [ih]
    rfl

/-- The start of the sequence of a seed, `n` bytes later. -/
theorem RandomStream.repeat_tail_ofSeed (seed : UInt64) (n : Nat) :
    Nat.repeat tail n (ofSeed seed) = ⟨Random.keyOfSeed seed, n⟩ := by
  rw [repeat_tail]
  exact congrArg (RandomStream.mk _) (Nat.zero_add n)

namespace Session

/-- As many bytes have been taken as there have been draws. -/
theorem random_runOps (random : RandomStream) (ops : List Op) :
    ((fresh random).runOps ops).machine.random =
      Nat.repeat .tail (((fresh random).deeds ops).filter Deed.draws).length random := by
  induction ops using List.reverseRecOn with
  | nil => rfl
  | append_singleton ops op ih =>
    rw [runOps_concat, deeds_concat, List.filter_append, List.length_append, Deed.random_after, ih]
    cases hdraws : (Deed.mk ((fresh random).runOps ops) op).draws with
    | true =>
      rw [List.filter_cons_of_pos hdraws]
      rfl
    | false =>
      rw [List.filter_cons_of_neg (by rw [hdraws]; exact Bool.false_ne_true)]
      rfl

/-- Draw `k` of a history, counted from zero, finds `k` bytes taken. -/
theorem random_of_draw (random : RandomStream) (ops : List Op) {k : Nat} {d : Deed}
    (h : (((fresh random).deeds ops).filter Deed.draws)[k]? = some d) :
    d.session.machine.random = Nat.repeat .tail k random := by
  induction ops using List.reverseRecOn with
  | nil => cases h
  | append_singleton ops op ih =>
    rw [deeds_concat, List.filter_append] at h
    by_cases hk : k < (((fresh random).deeds ops).filter Deed.draws).length
    · rw [List.getElem?_append_left hk] at h
      exact ih h
    -- It is the last deed, then, and finds all the draws before it.
    have hle := Nat.le_of_not_lt hk
    rw [List.getElem?_append_right hle, List.filter_cons, List.filter_nil] at h
    split at h
    · rw [List.getElem?_singleton] at h
      split at h
      · next hlast =>
        cases h
        rw [random_runOps, Nat.le_antisymm hle (Nat.sub_eq_zero_iff_le.mp hlast)]
      · cases h
    · cases h

/-- Without a draw, two streams make the same of the same operations. -/
theorem runOps_fresh_of_no_draw {random : RandomStream} {ops : List Op}
    (h : ((fresh random).deeds ops).filter Deed.draws = []) (random' : RandomStream) :
    (fresh random').runOps ops = ((fresh random).runOps ops).withRandom random' := by
  have hfresh : fresh random' = (fresh random).withRandom random' := rfl
  rw [hfresh, runOps_withRandom _ _ h]

/-- **The draws take the bytes of the sequence in order**, wherever they stand in the history and
whatever they mask. No operation but a step at a drawing instruction takes a byte, and that step
never fails. And before the first draw nothing tells one stream from another: all that was done
with the one has come to the same with the other, and the next operation, be it that draw, gives
the same result and the same log. -/
theorem random_bytes_in_order (seed : UInt64) (ops : List Op) :
    let key := Random.keyOfSeed seed
    let s := (fresh (.ofSeed seed)).runOps ops
    let draws := ((fresh (.ofSeed seed)).deeds ops).filter Deed.draws
    (∀ k, Random.byte key k = (Nat.repeat RandomStream.tail k (.ofSeed seed)).head) ∧
    s.machine.random = ⟨key, draws.length⟩ ∧
    (∀ (k : Nat) d, draws[k]? = some d → ∃ x mask,
      d.op = .step ∧ d.session.next? = some (.random x mask) ∧
        d.after.machine.v.get x = Random.byte key k &&& mask) ∧
    (∀ x mask, s.next? = some (.random x mask) →
      s.step.result = .ok (.executed s.machine.dirty) ∧
        s.step.after.machine.random = ⟨key, draws.length + 1⟩ ∧
        s.step.after.machine.v.get x = Random.byte key draws.length &&& mask) ∧
    (∀ op, (op = .step → ∀ x mask, s.next? ≠ some (.random x mask)) →
      (s.perform op).after.machine.random = s.machine.random) ∧
    (draws = [] → ∀ random',
      let s' := (fresh random').runOps ops
      s' = { s with machine := { s.machine with random := random' } } ∧
      ((fresh random').deeds ops).filter Deed.draws = [] ∧
      ∀ op, (s'.perform op).result = (s.perform op).result ∧
        (s'.perform op).log = (s.perform op).log) := by
  intro key s draws
  have hrandom : s.machine.random = ⟨key, draws.length⟩ :=
    (random_runOps _ ops).trans (RandomStream.repeat_tail_ofSeed seed _)
  refine ⟨fun k => ?_, hrandom, ?_, ?_, ?_, ?_⟩
  · rw [RandomStream.repeat_tail_ofSeed]
    rfl
  · intro k d hd
    have hplace : d.session.machine.random = ⟨key, k⟩ :=
      (random_of_draw _ ops hd).trans (RandomStream.repeat_tail_ofSeed seed k)
    have hdraws : d.draws = true := (List.mem_filter.mp (List.mem_of_getElem? hd)).2
    obtain ⟨hop, x, mask, hnext⟩ := Deed.draws_iff.mp hdraws
    refine ⟨x, mask, hop, hnext, ?_⟩
    rw [Deed.after, hop, perform_step_after, (step_of_random hnext).2.2, hplace]
    rfl
  · intro x mask hnext
    obtain ⟨hresult, -, hregister⟩ := step_of_random hnext
    have hafter := (Deed.mk s .step).random_after
    rw [Deed.draws_iff.mpr ⟨rfl, x, mask, hnext⟩] at hafter
    refine ⟨hresult, ?_, ?_⟩
    · rw [show s.step.after.machine.random = s.machine.random.tail from hafter, hrandom]
      rfl
    · rw [hregister, hrandom]
      rfl
  · intro op hop
    have hdraws : (Deed.mk s op).draws = false := by
      rw [← Bool.not_eq_true, Deed.draws_iff]
      rintro ⟨hstep, x, mask, hnext⟩
      exact hop hstep x mask hnext
    have hafter := (Deed.mk s op).random_after
    rw [hdraws] at hafter
    exact hafter
  · intro hnone random' s'
    have hs' : s' = s.withRandom random' := runOps_fresh_of_no_draw hnone random'
    refine ⟨hs', ?_, ?_⟩
    · -- The stream of the other session is where it began.
      have hrun := random_runOps random' ops
      rw [show (fresh random').runOps ops = s' from rfl, hs', RandomStream.repeat_tail] at hrun
      have hdrawn : random'.drawn = random'.drawn +
          (((fresh random').deeds ops).filter Deed.draws).length :=
        congrArg RandomStream.drawn hrun
      exact List.eq_nil_of_length_eq_zero (by omega)
    · intro op
      obtain ⟨hresult, hlog, -⟩ := s.perform_withRandom random' op
      rw [hs']
      exact ⟨hresult, hlog⟩

/-- A byte is drawn and masked away; a reset, and the next draw takes the next byte. Before the
first draw, seed two is as good as seed one. -/
theorem second_draw_after_reset :
    let program : List UInt8 := [0xC1, 0x00, 0xC1, 0x0F]
    let ops : List Op := [.load program, .step, .reset, .load [0xC2, 0x0F]]
    let key := Random.keyOfSeed 1
    let s := (fresh (.ofSeed 1)).runOps ops
    let drawn := ((fresh (.ofSeed 1)).deeds ops).filter Deed.draws
    (∃ d x mask, drawn[0]? = some d ∧ d.after.machine.v.get x = Random.byte key 0 &&& mask) ∧
      s.step.after.machine.v.get 2 = Random.byte key 1 &&& 0x0F ∧
      (s.perform .tick).after.machine.random = s.machine.random ∧
      (((fresh (.ofSeed 2)).runOps [.load program]).perform .step).log =
        (((fresh (.ofSeed 1)).runOps [.load program]).perform .step).log := by
  have of_run : ∀ seed seed' ops ops', let key := Random.keyOfSeed seed
      let s := (fresh (.ofSeed seed)).runOps ops
      let drawn := ((fresh (.ofSeed seed)).deeds ops).filter Deed.draws
      drawn.length = 1 ∧ s.next? = some (.random 2 0x0F) ∧
        (((fresh (.ofSeed seed)).deeds ops').filter Deed.draws).length = 0 →
      (∃ d x mask, drawn[0]? = some d ∧ d.after.machine.v.get x = Random.byte key 0 &&& mask) ∧
        s.step.after.machine.v.get 2 = Random.byte key 1 &&& 0x0F ∧
        (s.perform .tick).after.machine.random = s.machine.random ∧
        (((fresh (.ofSeed seed')).runOps ops').perform .step).log =
          (((fresh (.ofSeed seed)).runOps ops').perform .step).log := by
    intro seed seed' ops ops' key s drawn h
    obtain ⟨hlength, hnext, hnone⟩ := h
    obtain ⟨-, -, hdrawn, hdraw, hquiet, -⟩ := random_bytes_in_order seed ops
    obtain ⟨-, -, -, -, -, hothers⟩ := random_bytes_in_order seed ops'
    refine ⟨?_, ?_, hquiet .tick nofun, ?_⟩
    · have hfirst : drawn[0]? = some drawn[0] := List.getElem?_eq_getElem (by omega)
      obtain ⟨x, mask, -, -, hregister⟩ := hdrawn 0 _ hfirst
      exact ⟨_, x, mask, hfirst, hregister⟩
    · rw [(hdraw 2 0x0F hnext).2.2, hlength]
    · exact ((hothers (List.eq_nil_of_length_eq_zero hnone) (.ofSeed seed')).2.2 .step).2
  exact of_run _ _ _ _ (by decide +kernel)

end Session

end Chip8
