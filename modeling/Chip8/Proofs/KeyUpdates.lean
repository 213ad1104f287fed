import Chip8.Proofs.Soundness
import Mathlib.Control.Monad.Basic

/-!
# One key at a time

An owner can tell of all keys at once or of one after the other. A machine that waits takes notice
of every set of keys on the way, because it lets go of the keys that are not in it. So it is not
plain that the two come to the same; that they do rests on one part of soundness, that **a key that
is held is down**. A set told in between then leaves no trace, unless a key that was down before and
will be down after is up in it (`Machine.setKeys_setKeys`).

Single updates never go through such a set, so in whatever order they come, **they end where telling
of all keys at once ends** (`Session.updates_agree`).
-/

set_option autoImplicit false

namespace Chip8

/-- The number of a key, told as a byte. -/
theorem Key.toNat_ofNat (k : Key) : (UInt8.ofNat k.val).toNat = k.val := by
  have hk := k.isLt
  rw [UInt8.toNat_ofNat']
  omega

/-! ## Sets in between -/

/-- The set with one key told to be down or up. -/
def KeySet.put (keys : KeySet) (k : Key) (down : Bool) : KeySet :=
  if down then keys.insert k else keys.erase k

theorem KeySet.mem_put {keys : KeySet} {j k : Key} {down : Bool} :
    j ∈ keys.put k down ↔ if j = k then down = true else j ∈ keys := by
  cases down with
  | true =>
    by_cases h : j = k
    · simp [put, h]
    · simp [put, h]
  | false =>
    by_cases h : j = k
    · simp [put, h]
    · simp [put, h]

namespace Machine

variable {m : Machine}

theorem setKeys_self (hm : m.Sound) : m.setKeys m.keys = m := by
  have hheld : m.heldOnWait.map (· ∩ m.keys) = m.heldOnWait := by
    cases hh : m.heldOnWait with
    | none => rfl
    | some held =>
      refine congrArg some (KeySet.ext_mem fun k => ?_)
      rw [KeySet.mem_inter]
      exact ⟨fun hk => hk.1, fun hk => ⟨hk, hm.held_down held hh k hk⟩⟩
  unfold setKeys
  rw [hheld]

/-- **A set told in between leaves no trace**, if no key is up in it that is down before and
after. -/
theorem setKeys_setKeys (hm : m.Sound) {between last : KeySet}
    (h : ∀ k ∈ m.keys, k ∈ last → k ∈ between) :
    (m.setKeys between).setKeys last = m.setKeys last := by
  have hheld : (m.heldOnWait.map (· ∩ between)).map (· ∩ last) = m.heldOnWait.map (· ∩ last) := by
    cases hh : m.heldOnWait with
    | none => rfl
    | some held =>
      refine congrArg some (KeySet.ext_mem fun k => ?_)
      simp only [KeySet.mem_inter]
      constructor
      · rintro ⟨⟨hk, -⟩, hlast⟩
        exact ⟨hk, hlast⟩
      · rintro ⟨hk, hlast⟩
        exact ⟨⟨hk, h k (hm.held_down held hh k hk) hlast⟩, hlast⟩
  unfold setKeys
  rw [hheld]

end Machine

namespace Session

theorem setKeys_setKeys {s : Session} (hs : s.machine.Sound) {between last : KeySet}
    (h : ∀ k ∈ s.machine.keys, k ∈ last → k ∈ between) :
    ((s.setKeys between).after.setKeys last).after = (s.setKeys last).after := by
  show Session.mk ((s.machine.setKeys between).setKeys last) s.fault = _
  rw [Machine.setKeys_setKeys hs h]
  rfl

theorem setKey_of_lt (s : Session) {key : UInt8} (h : key.toNat < 16) (down : Bool) :
    s.setKey key down = s.setKeys (s.machine.keys.put ⟨key.toNat, h⟩ down) := by
  unfold setKey
  rw [dif_pos h]
  rfl

theorem setKey_ofNat (s : Session) (k : Key) (down : Bool) :
    s.setKey (UInt8.ofNat k) down = s.setKeys (s.machine.keys.put k down) := by
  have hlt : (UInt8.ofNat k.val).toNat < 16 := by
    rw [Key.toNat_ofNat]
    exact k.isLt
  have hkey : (⟨(UInt8.ofNat k.val).toNat, hlt⟩ : Key) = k := Fin.ext k.toNat_ofNat
  rw [s.setKey_of_lt hlt, hkey]

theorem setKey_of_le (s : Session) {key : UInt8} (h : 16 ≤ key.toNat) (down : Bool) :
    (s.setKey key down).after = s := by
  unfold setKey
  rw [dif_neg (Nat.not_lt_of_le h)]

/-! ## Updates -/

/-- Telling of one key what a set says of it. -/
def Op.update (keys : KeySet) (k : Key) : Op :=
  if k ∈ keys then .press (UInt8.ofNat k) else .release (UInt8.ofNat k)

/-- Does the operation tell of a key that the keypad does not have? -/
def Op.isStray : Op → Bool
  | press key | release key => 16 ≤ key.toNat
  | _ => false

end Session

/-- The set with the keys of a list told to be as in another set. -/
def KeySet.patch (keys target : KeySet) (ks : List Key) : KeySet :=
  ks.foldl (fun keys k => keys.put k (decide (k ∈ target))) keys

theorem KeySet.mem_patch {keys target : KeySet} {ks : List Key} {j : Key} :
    j ∈ keys.patch target ks ↔ j ∈ ks ∧ j ∈ target ∨ ¬ j ∈ ks ∧ j ∈ keys := by
  induction ks generalizing keys with
  | nil => simp [patch]
  | cons k ks ih =>
    show j ∈ (keys.put k (decide (k ∈ target))).patch target ks ↔ _
    rw [ih]
    by_cases hks : j ∈ ks
    · simp [hks]
    · by_cases hk : j = k
      · subst hk
        simp [hks, mem_put]
      · simp [hks, hk, mem_put]

theorem KeySet.mem_patch_of_mem {keys target : KeySet} {ks : List Key} {j : Key} (h : j ∈ ks) :
    j ∈ keys.patch target ks ↔ j ∈ target := by
  simp [mem_patch, h]

namespace Session

theorem perform_update (s : Session) (keys : KeySet) (k : Key) :
    (s.perform (.update keys k)).after =
      (s.setKeys (s.machine.keys.put k (decide (k ∈ keys)))).after := by
  unfold Op.update
  by_cases h : k ∈ keys
  · rw [if_pos h, decide_eq_true h]
    show (s.setKey (UInt8.ofNat k) true).after = _
    rw [setKey_ofNat]
  · rw [if_neg h, decide_eq_false h]
    show (s.setKey (UInt8.ofNat k) false).after = _
    rw [setKey_ofNat]

theorem perform_stray (s : Session) {op : Op} (h : op.isStray = true) :
    (s.perform op).after = s := by
  cases op with
  | press key => exact s.setKey_of_le (of_decide_eq_true h) true
  | release key => exact s.setKey_of_le (of_decide_eq_true h) false
  | load _ | step | tick | setKeys _ | reset => cases h

theorem runOps_filter_stray (s : Session) (ops : List Op) :
    s.runOps ops = s.runOps (ops.filter fun op => !op.isStray) := by
  induction ops generalizing s with
  | nil => rfl
  | cons op ops ih =>
    cases hop : op.isStray with
    | true =>
      rw [List.filter_cons_of_neg (by simp [hop]), runOps_cons, s.perform_stray hop]
      exact ih s
    | false =>
      rw [List.filter_cons_of_pos (by simp [hop]), runOps_cons, runOps_cons]
      exact ih _

/-- Updates one after the other come to telling at once of the set that they make up. -/
theorem runOps_updates {s : Session} (hs : s.machine.Sound) (keys : KeySet) (ks : List Key) :
    s.runOps (ks.map (.update keys)) = (s.setKeys (s.machine.keys.patch keys ks)).after := by
  induction ks generalizing s with
  | nil =>
    show s = { s with machine := s.machine.setKeys s.machine.keys }
    rw [Machine.setKeys_self hs]
  | cons k ks ih =>
    have hsound : (s.perform (.update keys k)).after.machine.Sound := sound_perform hs
    rw [List.map_cons, runOps_cons, ih hsound, s.perform_update]
    -- What is left is that the set after the first update leaves no trace.
    refine setKeys_setKeys hs fun j hdown (hlast : j ∈ s.machine.keys.patch keys (k :: ks)) => ?_
    rw [KeySet.mem_put]
    split
    · next hjk =>
      subst hjk
      exact decide_eq_true ((KeySet.mem_patch_of_mem List.mem_cons_self).mp hlast)
    · exact hdown

theorem stepsOf_append_of_quiet (s : Session) {ops : List Op} (h : ∀ op ∈ ops, op.isQuiet = true)
    (later : List Op) : s.stepsOf (ops ++ later) = (s.runOps ops).stepsOf later := by
  induction ops generalizing s with
  | nil => rfl
  | cons op ops ih =>
    obtain ⟨hop, hops⟩ := List.forall_mem_cons.mp h
    rw [List.cons_append, stepsOf_cons_quiet s hop, ih _ hops, runOps_cons]

theorem quiet_of_updates {keys : KeySet} {ks : List Key} {ops : List Op}
    (hops : ops.filter (fun op => !op.isStray) = ks.map (.update keys)) :
    ∀ op ∈ ops, op.isQuiet = true := by
  intro op hmem
  cases hstray : op.isStray with
  | true =>
    cases op with
    | press _ | release _ => rfl
    | load _ | step | tick | setKeys _ | reset => cases hstray
  | false =>
    have hupdate : op ∈ ks.map (.update keys) := by
      rw [← hops]
      exact List.mem_filter.mpr ⟨hmem, by simp [hstray]⟩
    obtain ⟨k, -, rfl⟩ := List.mem_map.mp hupdate
    unfold Op.update
    split
    · rfl
    · rfl

/-! ## The whole statement -/

/-- **Single updates agree with telling of all keys at once.** Let every key be told of, in whatever
order and with whatever is said between of keys that the keypad does not have. The session is then
the same as after telling of the whole set, in the middle of a wait too; so all later operations do
the same, and every later step is taken in the same session. What is said of other keys changes
nothing. -/
theorem updates_agree (random : RandomStream) (before : List Op) (keys : KeySet) (order : List Key)
    (ops : List Op) (hall : ∀ k, k ∈ order)
    (hops : ops.filter (fun op => !op.isStray) = order.map (.update keys)) :
    let s := (fresh random).runOps before
    s.runOps ops = (s.setKeys keys).after ∧
    (∀ later, s.runOps (ops ++ later) = s.runOps (.setKeys keys :: later) ∧
      s.stepsOf (ops ++ later) = s.stepsOf (.setKeys keys :: later)) ∧
    ∀ op, op.isStray = true → (s.perform op).after = s := by
  intro s
  have htarget : s.machine.keys.patch keys order = keys := by
    refine KeySet.ext_mem fun k => ?_
    rw [KeySet.mem_patch_of_mem (hall k)]
  have hend : s.runOps ops = (s.setKeys keys).after := by
    rw [runOps_filter_stray, hops, runOps_updates (sound_runOps random before), htarget]
  refine ⟨hend, fun later => ⟨?_, ?_⟩, fun op => s.perform_stray⟩
  · rw [runOps_append, hend]
    rfl
  · rw [stepsOf_append_of_quiet s (quiet_of_updates hops), hend]
    rfl

/-- Keys 3 and 5 are held when the wait begins. Word of a key that there is not is followed by
updates from the highest key down, of which that of key 14 presses it and that of key 5 lets go of
it. -/
theorem updates_in_a_wait :
    let before : List Op := [.load [0xF1, 0x0A], .press 3, .press 5, .step]
    let keys := KeySet.ofList [3, 14]
    let ops := .press 0x20 :: (List.finRange 16).reverse.map (Op.update keys)
    let s := (fresh (.ofSeed 0)).runOps before
    s.runOps ops = (s.setKeys keys).after ∧
      s.stepsOf (ops ++ [.step, .step]) = s.stepsOf [.setKeys keys, .step, .step] ∧
      (s.runOps ops).machine.heldOnWait = some (KeySet.ofList [3]) ∧
      (s.runOps ops).step.result = .ok (.executed false) := by
  intro before keys ops s
  have hall : ∀ k : Key, k ∈ (List.finRange 16).reverse := by decide
  have hops : ops.filter (fun op => !op.isStray) =
      (List.finRange 16).reverse.map (Op.update keys) := by decide +kernel
  obtain ⟨hend, hlater, -⟩ := updates_agree (.ofSeed 0) before keys _ ops hall hops
  have hrun : (s.setKeys keys).after.machine.heldOnWait = some (KeySet.ofList [3]) ∧
      (s.setKeys keys).after.step.result = .ok (.executed false) := by decide +kernel
  rw [← hend] at hrun
  exact ⟨hend, (hlater [.step, .step]).2, hrun⟩

end Session

end Chip8
