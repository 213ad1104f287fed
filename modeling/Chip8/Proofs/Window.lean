import Chip8.Proofs.Painting
import Chip8.Proofs.Turns
import Mathlib.Control.Monad.Basic

/-!
# What the window shows

The player shows the frame only where a step tells of a change. **The window is nevertheless never
behind** (`Host.window_shows_frame`): at the end of each turn the picture shown last is the frame,
and the pictures shown are the dark one at the beginning and one for each step that paints, in
their order. The one turn that does not get there is one whose picture the host fails to show, and
with it the play is over.

The invariant is `Player.UpToDate`. A poll and the end of a turn keep it because they are upkeep
and touch no frame; a step keeps it because it tells of a change exactly if it paints
(`Session.executed_true_iff`). Nothing resets a session while it is played, so the one change that
nobody is told of does not come up.
-/

set_option autoImplicit false

namespace Chip8

namespace Player

/-- What the window shows: the frame of the picture shown last. -/
def shown? (p : Player) : Option Frame := p.pictures.head?.map (·.frame)

/-- The window shows the frame, and nobody is owed news of it. -/
structure UpToDate (p : Player) : Prop where
  sound : p.session.machine.Sound
  shown : p.shown? = some p.session.machine.frame

theorem Upkeep.upToDate {p q : Player} (h : Upkeep p q) (hp : p.UpToDate) : q.UpToDate := by
  obtain ⟨ops, hquiet, hsession⟩ := h.ops
  constructor
  · rw [hsession]
    exact Session.sound_runOps_of_sound hp.sound ops
  · rw [shown?, h.pictures, hsession, (p.session.runOps_quiet hquiet).2.frame]
    exact hp.shown

/-- A session that has done nothing but load a program, in front of a dark window. -/
theorem upToDate_begin (random : RandomStream) (program : List UInt8)
    (unshown : Nat → Option PictureStage) (log : List LogEntry) :
    (begin ((Session.fresh random).load program).after unshown log).UpToDate := by
  have hload : ((Session.fresh random).load program).after =
      ((Session.fresh random).perform (.load program)).after := rfl
  constructor
  · show ((Session.fresh random).load program).after.machine.Sound
    rw [hload]
    exact Session.sound_runOps random [.load program]
  · show some Frame.dark = some ((Session.fresh random).load program).after.machine.frame
    rw [hload, ((Session.fresh random).perform_quiet rfl).2.frame]
    rfl

/-! ## One turn -/

/-- The picture that a player about to step has to show: the frame behind the step, if it paints. -/
def picture? (p : Player) : Option Picture :=
  if p.session.paints then some ⟨p.polls, p.clock, p.session.step.after.machine.frame⟩ else none

/-- A step that does not paint leaves the window as it is, and right. -/
theorem UpToDate.follow_step {p : Player} (hp : p.UpToDate) (hq : p.session.paints = false) :
    (p.follow p.session.step).UpToDate := by
  constructor
  · exact Session.sound_step hp.sound
  · show p.shown? = some p.session.step.after.machine.frame
    rw [Session.step_of_not_paints hq]
    exact hp.shown

/-- A step tells of a change exactly if it paints. -/
theorem UpToDate.tells_iff {p : Player} {cycle : Cycle} (hp : p.UpToDate)
    (hr : p.session.step.result = .ok cycle) :
    cycle = .executed true ↔ p.session.paints = true := by
  rw [← Session.executed_true_iff hp.sound.clean, hr, Except.ok.injEq]

/-- A turn that is carried through leaves the window right. -/
theorem UpToDate.endTurn {p : Player} {cycle : Cycle} (hp : p.UpToDate)
    (hr : p.session.step.result = .ok cycle) :
    ((p.follow p.session.step).seen cycle).catchUp.rest.UpToDate ∧
      ((p.follow p.session.step).seen cycle).catchUp.rest.pictures =
        p.picture?.toList ++ p.pictures := by
  have htells := hp.tells_iff hr
  unfold Player.seen picture?
  split
  · next hc =>
    rw [if_pos (htells.mp hc)]
    have hshown : (p.follow p.session.step).showing.UpToDate :=
      ⟨Session.sound_step hp.sound, rfl⟩
    have hrest := upkeep_endTurn (p.follow p.session.step).showing
    exact ⟨hrest.upToDate hshown, hrest.pictures⟩
  · next hc =>
    have hquiet : p.session.paints = false := Bool.eq_false_iff.mpr (mt htells.mpr hc)
    rw [if_neg (by simp [hquiet])]
    have hrest := upkeep_endTurn (p.follow p.session.step)
    exact ⟨hrest.upToDate (hp.follow_step hquiet), hrest.pictures⟩

end Player

namespace Turn

/-- The picture that a turn has to show: none, if its poll closes the window. -/
def picture? (t : Turn) : Option Picture := if t.polled.2 then none else t.polled.1.picture?

/-- Does the host show what the turn has to show? -/
def isShown (t : Turn) : Bool :=
  match t.ending? with
  | some (.unshown _) => false
  | _ => true

theorem isShown_of_more {t : Turn} (h : t.ending? = none) : t.isShown = true := by
  rw [isShown, h]

/-- **A turn** leaves the window up to date and shows its picture if it has one, unless the host
fails at the picture; then there is one. -/
theorem upToDate_after {t : Turn} (h : t.player.UpToDate) :
    (t.isShown = true → t.after.UpToDate ∧
      t.after.pictures = t.picture?.toList ++ t.player.pictures) ∧
    (t.isShown = false → t.picture? ≠ none ∧ t.after.pictures = t.player.pictures) := by
  have hpoll : t.player.Upkeep t.polled.1 := t.player.upkeep_poll t.events
  have hpolled := hpoll.upToDate h
  unfold picture? isShown
  rw [← hpoll.pictures]
  rcases t.cases with ⟨hclosed, hafter, hending⟩ | ⟨hopen, fault, hr, hafter, hending⟩ |
    ⟨hopen, stage, hr, -, hafter, hending⟩ | ⟨hopen, cycle, hr, hafter, hending⟩
  · -- The notice of the closing is all that is added.
    rw [hafter, hclosed, hending]
    exact ⟨fun _ => ⟨⟨hpolled.sound, hpolled.shown⟩, rfl⟩, nofun⟩
  · have hquiet := Session.paints_of_error hr
    rw [hafter, hopen, hending, Player.picture?, hquiet]
    exact ⟨fun _ => ⟨hpolled.follow_step hquiet, rfl⟩, nofun⟩
  · have hpaints := (hpolled.tells_iff hr).mp rfl
    rw [hafter, hopen, hending, Player.picture?, hpaints]
    exact ⟨nofun, fun _ => ⟨nofun, rfl⟩⟩
  · rw [hafter, hopen, hending]
    exact ⟨fun _ => hpolled.endTurn hr, nofun⟩

end Turn

/-! ## A whole play -/

/-- The pictures that turns have shown, the first one first. -/
def picturesOf (turns : List Turn) : List Picture :=
  (turns.filter Turn.isShown).filterMap Turn.picture?

theorem picturesOf_cons {t : Turn} (h : t.player.UpToDate) (turns : List Turn) :
    (picturesOf (t :: turns)).reverse ++ t.player.pictures =
      (picturesOf turns).reverse ++ t.after.pictures := by
  obtain ⟨hshown, hunshown⟩ := Turn.upToDate_after h
  unfold picturesOf
  rw [List.filter_cons]
  split
  · next ht =>
    rw [(hshown ht).2, List.filterMap_cons]
    cases t.picture? with
    | none => rfl
    | some picture => simp
  · next ht => rw [(hunshown (Bool.eq_false_iff.mpr ht)).2]

namespace Player

/-- **A play**, turn by turn: each finds the window up to date, and together they show their
pictures. -/
theorem upToDate_turnsOf {p : Player} (hp : p.UpToDate) (script : List (List Event)) :
    (∀ t ∈ p.turnsOf script, t.player.UpToDate) ∧
      (p.play script).1.pictures = (picturesOf (p.turnsOf script)).reverse ++ p.pictures := by
  revert hp
  apply play_induction (P := fun p turns q _ => p.UpToDate →
    (∀ t ∈ turns, t.player.UpToDate) ∧
      q.pictures = (picturesOf turns).reverse ++ p.pictures)
  · intro t ending _ ht
    rw [picturesOf_cons ht]
    exact ⟨List.forall_mem_singleton.mpr ht, rfl⟩
  · intro t turns q ending hmore ih ht
    obtain ⟨hdate, -⟩ := (Turn.upToDate_after ht).1 (Turn.isShown_of_more hmore)
    obtain ⟨hrest, hshown⟩ := ih hdate
    rw [picturesOf_cons ht, ← hshown]
    exact ⟨List.forall_mem_cons.mpr ⟨ht, hrest⟩, rfl⟩

/-- Only the last turn of a play can be one whose picture is not shown, and it ends the play. -/
theorem play_unshown {p : Player} {script : List (List Event)} {t : Turn}
    (ht : t ∈ p.turnsOf script) (h : t.isShown = false) :
    (p.turnsOf script).getLast? = some t ∧ ∃ stage, (p.play script).2 = .unshown stage := by
  obtain ⟨before, last, hturns, hbefore, hending, -⟩ := p.turnsOf_eq_concat script
  rw [hturns] at ht ⊢
  rcases List.mem_append.mp ht with hmem | hmem
  · rw [Turn.isShown_of_more (hbefore t hmem)] at h
    cases h
  · obtain rfl := List.mem_singleton.mp hmem
    refine ⟨List.getLast?_concat, ?_⟩
    rw [Turn.isShown, hending] at h
    cases hplay : (p.play script).2 with
    | windowClosed | halted _ =>
      rw [hplay] at h
      cases h
    | unshown stage => exact ⟨stage, rfl⟩

end Player

namespace Host

/-- **The window is never behind the frame.** If a play reaches its first turn, then at the end of
every turn, the last one included, the picture shown last is the frame; and the pictures shown are
the dark one and, in their order, those of the turns whose step paints. A turn of which this does
not hold had a picture to show at which the host has failed, and that has ended the play. -/
theorem window_shows_frame (host : Host) (options : Options) (rom : Except FileError (List UInt8))
    (h : (host.play options rom).polls ≠ 0) :
    ∃ program, rom = .ok program ∧
      let turns := (host.firstPlayer options program).turnsOf host.script
      let report := host.play options rom
      (∀ t ∈ turns, t.isShown = true →
        t.after.shown? = some t.after.session.machine.frame) ∧
      (∃ last ending, turns.getLast? = some last ∧ last.ending? = some ending ∧
        report = .ofPlayer (.ofScale options.scale) last.after ending ∧
        (last.isShown = true →
          report.pictures.getLast?.map (·.frame) = some last.after.session.machine.frame)) ∧
      report.pictures = ⟨0, 0, .dark⟩ :: (turns.filter Turn.isShown).filterMap Turn.picture? ∧
      ∀ t ∈ turns, t.isShown = false → turns.getLast? = some t ∧ t.picture? ≠ none ∧
        ∃ stage, host.unshown report.pictures.length = some stage ∧
          report.exit = .error (.unshown stage) := by
  obtain ⟨program, hrom, hreport⟩ := play_eq_ofPlayer h
  refine ⟨program, hrom, ?_⟩
  intro turns report
  let first := host.firstPlayer options program
  have hbegin : first.UpToDate := Player.upToDate_begin (host.random options) program _ _
  obtain ⟨hdate, hpictures⟩ := Player.upToDate_turnsOf hbegin host.script
  obtain ⟨last, hlast, hafter, hending⟩ := first.getLast?_turnsOf host.script
  refine ⟨fun t ht hshown => ((Turn.upToDate_after (hdate t ht)).1 hshown).1.shown,
    ⟨last, _, hlast, hending, ?_, fun hshown => ?_⟩, ?_, fun t ht hunshown => ?_⟩
  · rw [hafter]
    exact hreport
  · have hdate := ((Turn.upToDate_after (hdate last (List.mem_of_getLast? hlast))).1 hshown).1
    show (host.play options rom).pictures.getLast?.map (·.frame) = _
    rw [hreport, Report.ofPlayer, List.getLast?_reverse, ← hafter]
    exact hdate.shown
  · show (host.play options rom).pictures = _
    rw [hreport, Report.ofPlayer, hpictures, List.reverse_append, List.reverse_reverse]
    rfl
  · obtain ⟨hlast, stage, hplay⟩ := Player.play_unshown ht hunshown
    refine ⟨hlast, ((Turn.upToDate_after (hdate t ht)).2 hunshown).1, stage, ?_, ?_⟩
    · show host.unshown (host.play options rom).pictures.length = _
      rw [hreport, Report.ofPlayer, List.length_reverse]
      exact Player.unshown_of_play hplay
    · show (host.play options rom).exit = _
      rw [hreport, Report.ofPlayer, hplay]
      rfl

/-- A glyph is drawn, time passes while a byte is set, and the frame is cleared; then the program
runs into a return with nowhere to go. -/
theorem drawn_and_cleared_is_shown :
    let host : Host := .reliable [[], [.lag 40000000], [], [], []] (Vector.replicate 8 0)
    let program : List UInt8 := [0xD0, 0x05, 0x60, 0x01, 0x00, 0xE0, 0x00, 0xEE]
    let options : Options := ⟨"glyph.ch8", 10, some 0⟩
    let report := host.play options (.ok program)
    let turns := (host.firstPlayer options program).turnsOf host.script
    report.polls = 4 ∧ report.exit = .error (.halted (.stackUnderflow 0x206)) ∧
      report.pictures.length = 3 ∧
      report.pictures = ⟨0, 0, .dark⟩ :: (turns.filter Turn.isShown).filterMap Turn.picture? := by
  have of_play : ∀ (host : Host) options program, let report := host.play options (.ok program)
      let turns := (host.firstPlayer options program).turnsOf host.script
      report.polls = 4 ∧ report.exit = .error (.halted (.stackUnderflow 0x206)) ∧
        report.pictures.length = 3 →
      report.polls = 4 ∧ report.exit = .error (.halted (.stackUnderflow 0x206)) ∧
        report.pictures.length = 3 ∧
        report.pictures =
          ⟨0, 0, .dark⟩ :: (turns.filter Turn.isShown).filterMap Turn.picture? := by
    intro host options program report turns h
    obtain ⟨hpolls, hexit, hlength⟩ := h
    have hstarted : (host.play options (.ok program)).polls ≠ 0 := by
      rw [hpolls]
      decide
    obtain ⟨program', hprogram, -, -, hpictures, -⟩ := window_shows_frame host options _ hstarted
    cases hprogram
    exact ⟨hpolls, hexit, hlength, hpictures⟩
  exact of_play _ _ _ (by decide +kernel)

end Host

end Chip8
