import Chip8.Proofs.Soundness
import Mathlib.Control.Monad.Basic
import Mathlib.Data.List.Induction

/-!
# Waiting for a key

A machine that waits keeps one set of keys, those held since the wait began, which the waiting
instruction and the keypad both cut down. What it comes to is told here in terms of the history:
**a wait is ended by the lowest key that is down and has been up since the wait began**
(`Session.wait_ends_with_new_key`), where having been up is seen at the beginning and right after
each key operation, and nowhere else.

The invariant is `InWait`: the set that is kept holds exactly the keys that have stayed down. It
needs the program under the wait to stay what it is, so no program may be loaded meanwhile.
-/

set_option autoImplicit false

namespace Chip8

theorem Machine.heldSinceWait_of_sound {m : Machine} (hm : m.Sound) {held : KeySet}
    (h : m.heldOnWait = some held) : m.heldSinceWait = held := by
  unfold Machine.heldSinceWait
  rw [h, Option.getD_some]
  refine KeySet.ext_mem fun k => ?_
  rw [KeySet.mem_inter]
  exact ⟨fun hk => hk.1, fun hk => ⟨hk, hm.held_down held h k hk⟩⟩

namespace Session

/-- The step after these operations begins a wait: it runs a wait for a key, and no wait was going
on. -/
structure BeginsWait (random : RandomStream) (before : List Op) (x : Register) : Prop where
  next : ((fresh random).runOps before).next? = some (.awaitKey x)
  idle : (fresh random).lastStep before ≠ some (.ok .awaitingKey)

/-- The step after `before` has begun a wait that the operations after it have not ended. -/
structure Waiting (random : RandomStream) (before : List Op) (x : Register)
    (between : List Op) : Prop extends BeginsWait random before x where
  unreset : .reset ∉ between
  unresolved : ∀ t ∈ ((fresh random).runOps before).step.after.stepsOf between,
    ∀ redraw, t.step.result ≠ .ok (.executed redraw)

/-- No program is loaded while a wait is going on. -/
def LoadsOutsideWaits (random : RandomStream) (ops : List Op) : Prop :=
  ∀ earlier program later, ops = earlier ++ .load program :: later →
    ∀ before x between, earlier = before ++ .step :: between → ¬ Waiting random before x between

/-- A key that is down after the operations that follow the step in `s`, and that was up in `s` or
right after some key operation since. -/
def NewKey (s : Session) (between : List Op) (k : Key) : Prop :=
  k ∈ (s.step.after.runOps between).machine.keys ∧
    (k ∉ s.machine.keys ∨ ∃ seen ∈ s.step.after.keysAfter between, k ∉ seen)

theorem LoadsOutsideWaits.of_append {random : RandomStream} {ops later : List Op}
    (h : LoadsOutsideWaits random (ops ++ later)) : LoadsOutsideWaits random ops := by
  rintro earlier program rest rfl
  exact h earlier program (rest ++ later) (by rw [List.append_assoc, List.cons_append])

theorem Waiting.of_append {random : RandomStream} {before between later : List Op} {x : Register}
    (h : Waiting random before x (between ++ later)) : Waiting random before x between where
  next := h.next
  idle := h.idle
  unreset := fun hr => h.unreset (List.mem_append_left _ hr)
  unresolved := fun t ht => h.unresolved t (by
    rw [stepsOf_append]
    exact List.mem_append_left _ ht)

/-! ## The invariant of a wait -/

/-- In the middle of a wait for a key in `x` that began in `s₀`: the machine is about to run the
same instruction, and the keys it holds on to are those that have stayed down. -/
structure InWait (s₀ : Session) (x : Register) (between : List Op) (s : Session) : Prop where
  next : s.next? = some (.awaitKey x)
  held : ∃ held, s.machine.heldOnWait = some held ∧ ∀ k, k ∈ held ↔
    k ∈ s₀.machine.keys ∧ ∀ seen ∈ s₀.step.after.keysAfter between, k ∈ seen

/-- A machine with no wait going on holds on to all the keys that are down, so there is no new key
to end the wait at once. -/
theorem inWait_nil {s : Session} {x : Register} (h : s.next? = some (.awaitKey x))
    (hn : s.machine.heldOnWait = none) :
    s.step.result = .ok .awaitingKey ∧ InWait s x [] s.step.after := by
  obtain ⟨hf, hnext⟩ := next?_eq_some.mp h
  have hheld : s.machine.heldSinceWait = s.machine.keys ∩ s.machine.keys := by
    unfold Machine.heldSinceWait
    rw [hn]
    rfl
  have hnone : (s.machine.keys \ s.machine.heldSinceWait).lowest? = none := by
    rw [KeySet.lowest?_eq_none, hheld]
    intro k hk
    obtain ⟨hdown, hup⟩ := KeySet.mem_sdiff.mp hk
    exact hup (KeySet.mem_inter.mpr ⟨hdown, hdown⟩)
  have hstep := step_of_ok hf (Machine.cycle_awaitKey_none hnext hnone)
  rw [hstep]
  refine ⟨rfl, next?_eq_some.mpr ⟨hf, hnext⟩, _, rfl, fun k => ?_⟩
  rw [hheld, KeySet.mem_inter]
  simp [keysAfter]

section

variable {s₀ s : Session} {x : Register} {between : List Op}

theorem inWait_perform_keyOp (h : InWait s₀ x between s)
    (hs : s = s₀.step.after.runOps between) (hm : s.machine.Sound) {op : Op}
    (hop : op.isKeyOp = true) : InWait s₀ x (between ++ [op]) (s.perform op).after := by
  obtain ⟨held, hheld, hmem⟩ := h.held
  have hkeys : s₀.step.after.keysAfter (between ++ [op]) =
      s₀.step.after.keysAfter between ++ [(s.perform op).after.machine.keys] := by
    rw [keysAfter_append, ← hs]
    simp [keysAfter, hop]
  have hnew : ∀ k, (k ∈ s₀.machine.keys ∧
      ∀ seen ∈ s₀.step.after.keysAfter (between ++ [op]), k ∈ seen) ↔
      k ∈ held ∧ k ∈ (s.perform op).after.machine.keys := by
    intro k
    rw [hkeys, hmem]
    simp only [List.forall_mem_append, List.forall_mem_singleton, and_assoc]
  rcases s.perform_keyOp hop with ⟨keys, ha⟩ | ha
  · rw [ha] at hnew ⊢
    refine ⟨h.next, held ∩ keys, ?_, fun k => ?_⟩
    · show s.machine.heldOnWait.map (· ∩ keys) = _
      rw [hheld]
      rfl
    · rw [hnew, KeySet.mem_inter]
      exact Iff.rfl
  · -- A key that the keypad does not have; the keys held are down already.
    rw [ha] at hnew ⊢
    refine ⟨h.next, held, hheld, fun k => ?_⟩
    rw [hnew]
    exact ⟨fun hk => ⟨hk, hm.held_down held hheld k hk⟩, fun hk => hk.1⟩

theorem inWait_of_no_keyOp (h : InWait s₀ x between s) {op : Op} {s' : Session}
    (hop : op.isKeyOp = false) (hnext : s'.next? = some (.awaitKey x))
    (hheld : s'.machine.heldOnWait = s.machine.heldOnWait) : InWait s₀ x (between ++ [op]) s' := by
  obtain ⟨held, hsome, hmem⟩ := h.held
  refine ⟨hnext, held, hheld.trans hsome, fun k => ?_⟩
  rw [hmem, keysAfter_append]
  simp [keysAfter, hop]

/-- The keys that may end a wait are the new ones. -/
theorem mem_newKeys (h : InWait s₀ x between s) (hs : s = s₀.step.after.runOps between)
    (hm : s.machine.Sound) (k : Key) :
    k ∈ s.machine.keys \ s.machine.heldSinceWait ↔ NewKey s₀ between k := by
  obtain ⟨held, hheld, hmem⟩ := h.held
  unfold NewKey
  rw [KeySet.mem_sdiff, Machine.heldSinceWait_of_sound hm hheld, hmem, ← hs]
  refine and_congr_right fun _ => ?_
  constructor
  · intro hnot
    by_cases hk : k ∈ s₀.machine.keys
    · refine Or.inr (Decidable.byContradiction fun hall => hnot ⟨hk, fun seen hseen => ?_⟩)
      exact Decidable.byContradiction fun hup => hall ⟨seen, hseen, hup⟩
    · exact Or.inl hk
  · rintro (hup | ⟨seen, hseen, hup⟩) ⟨hstart, hall⟩
    · exact hup hstart
    · exact hup (hall seen hseen)

/-- A step with no new key goes on waiting, and since the keys held are down already it writes
nothing that was not there. -/
theorem step_of_no_newKey (h : InWait s₀ x between s) (hs : s = s₀.step.after.runOps between)
    (hm : s.machine.Sound) (hk : ∀ k, ¬ NewKey s₀ between k) :
    s.step = ⟨.ok .awaitingKey, s, s.machine.cycleLog⟩ := by
  obtain ⟨hf, hnext⟩ := next?_eq_some.mp h.next
  obtain ⟨held, hheld, -⟩ := h.held
  have hnone : (s.machine.keys \ s.machine.heldSinceWait).lowest? = none := by
    rw [KeySet.lowest?_eq_none]
    exact fun k hmem => hk k ((mem_newKeys h hs hm k).mp hmem)
  rw [step_of_ok hf (Machine.cycle_awaitKey_none hnext hnone),
    Machine.heldSinceWait_of_sound hm hheld, ← hheld]

/-- A step with a new key ends the wait with the lowest of them. -/
theorem step_of_newKey (h : InWait s₀ x between s) (hs : s = s₀.step.after.runOps between)
    (hm : s.machine.Sound) (hk : ∃ k, NewKey s₀ between k) :
    ∃ k, NewKey s₀ between k ∧ (∀ j, NewKey s₀ between j → k ≤ j) ∧
      s.step = ⟨.ok (.executed false),
        { s with machine := { s.machine.setReg x (UInt8.ofNat k) with
          pc := s.machine.pc + 2, heldOnWait := none } },
        s.machine.cycleLog⟩ := by
  obtain ⟨hf, hnext⟩ := next?_eq_some.mp h.next
  cases hlow : (s.machine.keys \ s.machine.heldSinceWait).lowest? with
  | none =>
    obtain ⟨k, hnew⟩ := hk
    exact absurd ((mem_newKeys h hs hm k).mpr hnew) (KeySet.lowest?_eq_none.mp hlow k)
  | some k =>
    obtain ⟨hmem, hleast⟩ := KeySet.lowest?_eq_some hlow
    refine ⟨k, (mem_newKeys h hs hm k).mp hmem, fun j hj => ?_, ?_⟩
    · exact hleast j ((mem_newKeys h hs hm j).mpr hj)
    · -- The mark for the frame is not set, so taking it away does nothing.
      have hclean : (s.machine.setReg x (UInt8.ofNat k)).dirty = false := hm.clean
      rw [step_of_ok hf (Machine.cycle_awaitKey_some hnext hlow), hm.clean, ← hclean]

/-- The operations of a wait, other than the step that ends it: whatever they are, the wait goes
on. Loading is left out, since it may put another instruction under the counter. -/
theorem inWait_perform (h : InWait s₀ x between s) (hs : s = s₀.step.after.runOps between)
    (hm : s.machine.Sound) {op : Op} (hreset : op ≠ .reset) (hload : ∀ program, op ≠ .load program)
    (hstep : op = .step → ∀ redraw, s.step.result ≠ .ok (.executed redraw)) :
    InWait s₀ x (between ++ [op]) (s.perform op).after := by
  cases op with
  | press key => exact inWait_perform_keyOp h hs hm rfl
  | release key => exact inWait_perform_keyOp h hs hm rfl
  | setKeys keys => exact inWait_perform_keyOp h hs hm rfl
  | tick => exact inWait_of_no_keyOp h rfl h.next rfl
  | load program => exact absurd rfl (hload program)
  | reset => exact absurd rfl hreset
  | step =>
    have hnone : ∀ k, ¬ NewKey s₀ between k := by
      intro k hk
      obtain ⟨_, -, -, hend⟩ := step_of_newKey h hs hm ⟨k, hk⟩
      exact hstep rfl false (by rw [hend])
    have hafter : (s.perform .step).after = s := by
      rw [perform_step_after, step_of_no_newKey h hs hm hnone]
    rw [hafter]
    exact inWait_of_no_keyOp h rfl h.next rfl

end

/-! ## Waits in histories -/

/-- Only the instruction that waits begins a wait. -/
theorem step_of_no_wait {s : Session} (hnone : s.machine.heldOnWait = none)
    (h : ∀ x, s.next? ≠ some (.awaitKey x)) :
    s.step.after.machine.heldOnWait = none ∧ s.step.result ≠ .ok .awaitingKey := by
  rcases s.step_cases with ⟨fault, -, hs⟩ | ⟨-, fault, -, hs⟩ | ⟨ins, flow, m', hn, he, hs⟩
  · rw [hs]
    exact ⟨hnone, nofun⟩
  · rw [hs]
    exact ⟨hnone, nofun⟩
  · have hins : ∀ x, ins ≠ .awaitKey x := by
      rintro x rfl
      exact h x hn
    have hflow : flow ≠ .wait := fun hf => by
      obtain ⟨x, hx⟩ := he.awaitKey_of_wait hf
      exact hins x hx
    rw [hs]
    constructor
    · show (m'.finishCycle flow).2.heldOnWait = none
      rw [Machine.finishCycle_snd]
      cases he with
      | ret _ | call _ | jump _ | jumpOffset _ => exact hnone
      | awaitKey x => exact absurd rfl (hins x)
      | straight _ _ same => exact same.heldOnWait.trans hnone
    · unfold Machine.finishCycle
      rw [if_neg hflow]
      nofun

theorem heldOnWait_perform_quiet (s : Session) {op : Op} (hq : op.isQuiet = true) :
    (s.perform op).after.machine.heldOnWait = none ↔ s.machine.heldOnWait = none := by
  obtain ⟨m, ht, ha⟩ := s.perform_touched hq
  rw [ha]
  cases ht with
  | loaded _ | ticked | kept => exact Iff.rfl
  | keyed keys => exact Option.map_eq_none_iff

theorem Waiting.concat {random : RandomStream} {before between : List Op} {x : Register}
    (h : Waiting random before x between) {op : Op} (hreset : op ≠ .reset)
    (hstep : op = .step → ∀ redraw,
      ((((fresh random).runOps before).step.after).runOps between).step.result ≠
        .ok (.executed redraw)) : Waiting random before x (between ++ [op]) where
  next := h.next
  idle := h.idle
  unreset := fun hr => by
    rcases List.mem_append.mp hr with hr | hr
    · exact h.unreset hr
    · exact hreset (List.mem_singleton.mp hr).symm
  unresolved := fun t ht => by
    rw [stepsOf_append] at ht
    rcases List.mem_append.mp ht with ht | ht
    · exact h.unresolved t ht
    · cases op with
      | step =>
        rw [List.mem_singleton.mp ht]
        exact hstep rfl
      | load _ | tick | press _ | release _ | setKeys _ | reset => cases ht

theorem runOps_wait (s : Session) (before between : List Op) :
    s.runOps (before ++ .step :: between) = (s.runOps before).step.after.runOps between := by
  rw [runOps_append, runOps_cons, perform_step_after]

/-- **Where an owner's operations have led.** Either no wait is going on and no keys are held, or
a wait has begun, has not ended, and stands as it should. The last step tells which. -/
theorem wait_cases (random : RandomStream) (ops : List Op) (hload : LoadsOutsideWaits random ops) :
    (((fresh random).runOps ops).machine.heldOnWait = none ∧
      (fresh random).lastStep ops ≠ some (.ok .awaitingKey)) ∨
    ((fresh random).lastStep ops = some (.ok .awaitingKey) ∧
      ∃ before x between, ops = before ++ .step :: between ∧ Waiting random before x between ∧
        InWait ((fresh random).runOps before) x between ((fresh random).runOps ops)) := by
  induction ops using List.reverseRecOn with
  | nil => exact Or.inl ⟨rfl, by simp [lastStep]⟩
  | append_singleton ops op ih =>
    have hrun : (fresh random).runOps (ops ++ [op]) =
        (((fresh random).runOps ops).perform op).after := by
      rw [runOps_append, runOps_cons, runOps_nil]
    rw [hrun]
    rcases ih hload.of_append with ⟨hnone, hlast⟩ | ⟨hlast, before, x, between, rfl, hw, hin⟩
    · by_cases hreset : op = .reset
      · subst hreset
        refine Or.inl ⟨rfl, ?_⟩
        rw [lastStep_concat]
        simp
      rcases Op.quiet_or_step hreset with hq | rfl
      · rw [lastStep_concat_quiet _ _ hq]
        exact Or.inl ⟨(heldOnWait_perform_quiet _ hq).mpr hnone, hlast⟩
      · rw [perform_step_after, lastStep_concat]
        by_cases hx : ∃ x, ((fresh random).runOps ops).next? = some (.awaitKey x)
        · -- Here a wait begins.
          obtain ⟨x, hx⟩ := hx
          obtain ⟨hresult, hin⟩ := inWait_nil hx hnone
          refine Or.inr ⟨congrArg some hresult, ops, x, [], rfl, ?_, hin⟩
          exact ⟨⟨hx, hlast⟩, List.not_mem_nil, fun t ht => absurd ht List.not_mem_nil⟩
        · obtain ⟨hnone', hresult⟩ := step_of_no_wait hnone fun x h => hx ⟨x, h⟩
          exact Or.inl ⟨hnone', fun h => hresult (Option.some.inj h)⟩
    · have hs := runOps_wait (fresh random) before between
      have hm := sound_runOps random (before ++ .step :: between)
      by_cases hend : op = .reset ∨ op = .step ∧
          ∃ k, NewKey ((fresh random).runOps before) between k
      · -- Here the wait ends.
        left
        rcases hend with rfl | ⟨rfl, hk⟩
        · rw [lastStep_concat]
          exact ⟨rfl, by simp⟩
        · obtain ⟨k, -, -, hstep⟩ := step_of_newKey hin hs hm hk
          rw [perform_step_after, lastStep_concat, hstep]
          exact ⟨rfl, by simp⟩
      · -- Here it goes on.
        rw [not_or, not_and] at hend
        obtain ⟨hreset, hkeys⟩ := hend
        have hprogram : ∀ program, op ≠ .load program := by
          rintro program rfl
          exact hload (before ++ .step :: between) program [] rfl before x between rfl hw
        have hstep : op = .step → ((fresh random).runOps (before ++ .step :: between)).step.result =
            .ok .awaitingKey := fun h => by
          rw [step_of_no_newKey hin hs hm fun k hk => hkeys h ⟨k, hk⟩]
        refine Or.inr ⟨?_, before, x, between ++ [op], by simp, hw.concat hreset ?_,
          inWait_perform hin hs hm hreset hprogram ?_⟩
        · rcases Op.quiet_or_step hreset with hq | rfl
          · rw [lastStep_concat_quiet _ _ hq]
            exact hlast
          · rw [lastStep_concat]
            exact congrArg some (hstep rfl)
        · intro h redraw
          rw [← hs, hstep h]
          simp
        · intro h redraw
          rw [hstep h]
          simp

/-- A wait stands as it should from its beginning to its end. -/
theorem Waiting.inWait {random : RandomStream} {before between : List Op} {x : Register}
    (h : Waiting random before x between)
    (hload : LoadsOutsideWaits random (before ++ .step :: between)) :
    InWait ((fresh random).runOps before) x between
      ((fresh random).runOps (before ++ .step :: between)) := by
  induction between using List.reverseRecOn with
  | nil =>
    rcases wait_cases random before hload.of_append with ⟨hnone, -⟩ | ⟨hlast, -⟩
    · rw [runOps_wait]
      exact (inWait_nil h.next hnone).2
    · exact absurd hlast h.idle
  | append_singleton between op ih =>
    have hops : before ++ .step :: (between ++ [op]) = before ++ .step :: between ++ [op] := by
      rw [List.append_assoc, List.cons_append]
    have hin := ih h.of_append (by rw [hops] at hload; exact hload.of_append)
    have hs := runOps_wait (fresh random) before between
    rw [hops, runOps_append, runOps_cons, runOps_nil]
    refine inWait_perform hin hs (sound_runOps random _) ?_ ?_ ?_
    · rintro rfl
      exact h.unreset (List.mem_append_right _ (List.mem_singleton.mpr rfl))
    · rintro program rfl
      exact hload _ program [] hops before x between rfl h.of_append
    · rintro rfl
      refine h.unresolved _ ?_
      rw [stepsOf_append, hs]
      exact List.mem_append_right _ (List.mem_singleton.mpr rfl)

/-- **A wait is ended by the lowest key that has gone down since it began**, whatever else its owner
does meanwhile but load a program. The step that begins it waits, even if keys are down. Every
later step waits and changes nothing as long as no key is down that was up at the beginning or
after some key operation since; if one is, the lowest such key goes to the register, the counter
goes on, the keys held are let go of, and nothing else changes. -/
theorem wait_ends_with_new_key (random : RandomStream) (ops : List Op)
    (hload : LoadsOutsideWaits random ops) :
    (∀ before x later, ops = before ++ .step :: later → BeginsWait random before x →
      ((fresh random).runOps before).step.result = .ok .awaitingKey) ∧
    ∀ before x between later, ops = before ++ .step :: between ++ .step :: later →
      Waiting random before x between →
      let s₀ := (fresh random).runOps before
      let s := (fresh random).runOps (before ++ .step :: between)
      ((∀ k, ¬ NewKey s₀ between k) →
        s.step.result = .ok .awaitingKey ∧ s.step.after.step.after = s.step.after ∧
          ∃ held, s.step.after =
            { s with machine := { s.machine with heldOnWait := held } }) ∧
      ((∃ k, NewKey s₀ between k) →
        ∃ k, NewKey s₀ between k ∧ (∀ j, NewKey s₀ between j → k ≤ j) ∧
          s.step.result = .ok (.executed false) ∧
          s.step.after =
            { s with machine := { s.machine.setReg x (UInt8.ofNat k) with
              pc := s.machine.pc + 2, heldOnWait := none } } ∧
          (s.machine.pc + 2).toNat = s.machine.pc.toNat + 2) := by
  refine ⟨?_, ?_⟩
  · rintro before x later rfl hbegins
    rcases wait_cases random before hload.of_append with ⟨hnone, -⟩ | ⟨hlast, -⟩
    · exact (inWait_nil hbegins.next hnone).1
    · exact absurd hlast hbegins.idle
  · rintro before x between later rfl hw s₀ s
    have hin : InWait s₀ x between s := hw.inWait hload.of_append
    have hs : s = s₀.step.after.runOps between := runOps_wait _ before between
    have hm : s.machine.Sound := sound_runOps random _
    refine ⟨?_, ?_⟩
    · intro hnone
      have hstep := step_of_no_newKey hin hs hm hnone
      have hafter : s.step.after = s := by
        rw [hstep]
      refine ⟨by rw [hstep], by rw [hafter, hafter], s.machine.heldOnWait, hafter⟩
    · intro hk
      obtain ⟨k, hnew, hleast, hstep⟩ := step_of_newKey hin hs hm hk
      have hpc := Machine.toNat_pc_add_two (next?_eq_some.mp hin.next).2
      exact ⟨k, hnew, hleast, by rw [hstep], by rw [hstep], hpc⟩

/-- Key 3 is down when the wait begins, and ends it once it has been let go of and pressed again,
with key 5 pressed after it. -/
theorem wait_ends_with_key_pressed_again :
    let before : List Op := [.load [0xF1, 0x0A], .press 3]
    let between : List Op := [.release 3, .press 3, .press 5]
    let s := (fresh (.ofSeed 0)).runOps (before ++ .step :: between)
    LoadsOutsideWaits (.ofSeed 0) (before ++ .step :: between ++ [.step]) ∧
      ((fresh (.ofSeed 0)).runOps before).step.result = .ok .awaitingKey ∧
      ∃ k, (∀ j, NewKey ((fresh (.ofSeed 0)).runOps before) between j → k ≤ j) ∧
        s.step.result = .ok (.executed false) ∧
        s.step.after.machine.v = (s.machine.setReg 1 (UInt8.ofNat k)).v := by
  intro before between s
  have hload : LoadsOutsideWaits (.ofSeed 0) (before ++ .step :: between ++ [.step]) := by
    rintro (_ | ⟨op, earlier⟩) program later h earlier' x between' hsplit
    · cases earlier' <;> cases hsplit
    · -- The only program is loaded at the beginning.
      have hmem : Op.load program ∈ (before ++ Op.step :: between ++ [Op.step]).tail := by
        rw [h]
        simp
      simp [before, between] at hmem
  obtain ⟨hnext, hidle, hdown, hup⟩ :
      ((fresh (.ofSeed 0)).runOps before).next? = some (.awaitKey 1) ∧
      (fresh (.ofSeed 0)).lastStep before ≠ some (.ok .awaitingKey) ∧
      3 ∈ (((fresh (.ofSeed 0)).runOps before).step.after.runOps between).machine.keys ∧
      ∃ seen ∈ ((fresh (.ofSeed 0)).runOps before).step.after.keysAfter between, 3 ∉ seen := by
    decide +kernel
  have hwaiting : Waiting (.ofSeed 0) before 1 between := ⟨⟨hnext, hidle⟩, by decide, nofun⟩
  obtain ⟨hfirst, hlater⟩ := wait_ends_with_new_key (.ofSeed 0) _ hload
  obtain ⟨k, -, hleast, hresult, hafter, -⟩ :=
    (hlater before 1 between [] rfl hwaiting).2 ⟨3, hdown, Or.inr hup⟩
  exact ⟨hload, hfirst before 1 _ rfl hwaiting.toBeginsWait, k, hleast, hresult, by rw [hafter]⟩

end Session

end Chip8
