import Chip8.Player.Report
import Chip8.Proofs.LatestWrite

/-!
# The turns of a play

A play is a list of turns (`Player.turnsOf`), each begun by one player and ended by another, who
begins the next; the last one ends the play (`Player.getLast?_turnsOf`). A turn has four parts: a
poll, a step, a picture if the step has told of a change, and what is left of it. It can end after
each (`Turn.cases`).

Before its first turn a play can fail in three ways, or be torn down by a product that is too large;
these are all the ways to a report without turns (`Host.play_cases`).

Apart from its step, a turn does nothing to the session but pass on keys and tick the timers. That
is `Player.Upkeep`, and it is all that has to be known of a poll and of the end of a turn by
whoever asks for the frame or the fault.
-/

set_option autoImplicit false

namespace Chip8

/-! ## Events -/

/-- Does the event close the window? -/
def Event.closes : Event → Bool
  | quit => true
  | keyDown key => key = .escape
  | _ => false

namespace Player

/-- What an event does that leaves the window open. -/
def take (p : Player) : Event → Player
  | .keyDown key => p.passKey key true
  | .keyUp key => p.passKey key false
  | .lag nanos => { p with clock := p.clock + nanos }
  | _ => p

/-- The player behind the picture of a cycle, if there is one. -/
def seen (p : Player) (cycle : Cycle) : Player :=
  if cycle = .executed true then p.showing else p

/-- A turn ends well unless there is a picture to show and the host fails at it. -/
theorem finishTurn_cases (p : Player) (cycle : Cycle) :
    (∃ stage, cycle = .executed true ∧ p.unshown p.pictures.length = some stage ∧
      p.finishTurn cycle = .error stage) ∨
    (cycle = .executed true → p.unshown p.pictures.length = none) ∧
      p.finishTurn cycle = .ok (p.seen cycle).catchUp.rest := by
  unfold finishTurn seen
  by_cases htells : cycle = .executed true
  · rw [if_pos htells, if_pos htells]
    unfold present
    cases hnumber : p.unshown p.pictures.length with
    | some stage => exact Or.inl ⟨stage, htells, rfl, rfl⟩
    | none => exact Or.inr ⟨fun _ => rfl, rfl⟩
  · rw [if_neg htells, if_neg htells]
    exact Or.inr ⟨fun h => absurd h htells, rfl⟩

variable (p : Player) {event : Event} (rest : List Event)

theorem deliver_of_closes (h : event.closes = true) : p.deliver (event :: rest) = (p, true) := by
  cases event with
  | quit => rfl
  | keyDown key => rw [deliver, if_pos (of_decide_eq_true h)]
  | keyUp _ | other | lag _ => cases h

/-- The events that leave the window open are taken one after the other. -/
theorem deliver_cons (h : event.closes = false) :
    p.deliver (event :: rest) = (p.take event).deliver rest := by
  cases event with
  | quit => cases h
  | keyDown key =>
    rw [deliver, if_neg (of_decide_eq_false h)]
    rfl
  | keyUp _ | other | lag _ => rfl

end Player

/-! ## Turns -/

/-- A turn of a play: who begins it, and what its poll delivers. -/
structure Turn where
  player : Player
  events : List Event

namespace Turn

/-- The player behind the poll, and whether the poll has closed the window. -/
def polled (t : Turn) : Player × Bool :=
  { t.player with polls := t.player.polls + 1 }.deliver t.events

/-- The player at the end of the turn. -/
def after (t : Turn) : Player := (t.player.turn t.events).1

/-- The ending of the play, if the turn is the last one. -/
def ending? (t : Turn) : Option Ending := (t.player.turn t.events).2

/-- The player behind the step. -/
def stepped (t : Turn) : Player := t.polled.1.follow t.polled.1.session.step

/-- The four ways of a turn: the poll closes the window, the step fails, the picture is not shown,
or the turn is carried through. -/
theorem cases (t : Turn) :
    (t.polled.2 = true ∧ t.after = t.polled.1.note [.windowClosed] ∧
      t.ending? = some .windowClosed) ∨
    (t.polled.2 = false ∧ ∃ fault, t.polled.1.session.step.result = .error fault ∧
      t.after = t.stepped ∧ t.ending? = some (.halted fault)) ∨
    (t.polled.2 = false ∧ ∃ stage, t.polled.1.session.step.result = .ok (.executed true) ∧
      t.stepped.unshown t.stepped.pictures.length = some stage ∧ t.after = t.stepped ∧
      t.ending? = some (.unshown stage)) ∨
    (t.polled.2 = false ∧ ∃ cycle, t.polled.1.session.step.result = .ok cycle ∧
      t.after = (t.stepped.seen cycle).catchUp.rest ∧ t.ending? = none) := by
  unfold after ending? stepped Player.turn
  cases hp : t.polled with
  | mk p closed =>
    unfold polled at hp
    rw [hp]
    cases closed with
    | true => exact Or.inl ⟨rfl, rfl, rfl⟩
    | false =>
      dsimp only
      cases hr : p.session.step.result with
      | error fault => exact Or.inr (Or.inl ⟨rfl, fault, rfl, rfl, rfl⟩)
      | ok cycle =>
        dsimp only
        rcases (p.follow p.session.step).finishTurn_cases cycle with
          ⟨stage, rfl, hnumber, hfinish⟩ | ⟨-, hfinish⟩
        · rw [hfinish]
          exact Or.inr (Or.inr (Or.inl ⟨rfl, stage, rfl, hnumber, rfl, rfl⟩))
        · rw [hfinish]
          exact Or.inr (Or.inr (Or.inr ⟨rfl, cycle, rfl, rfl, rfl⟩))

variable {t : Turn}

theorem of_closed (h : t.ending? = some .windowClosed) :
    t.polled.2 = true ∧ t.after = t.polled.1.note [.windowClosed] := by
  rcases t.cases with ⟨hclosed, hafter, -⟩ | ⟨-, fault, -, -, hending⟩ |
    ⟨-, stage, -, -, -, hending⟩ | ⟨-, cycle, -, -, hending⟩
  · exact ⟨hclosed, hafter⟩
  all_goals cases h.symm.trans hending

theorem of_halted {fault : Fault} (h : t.ending? = some (.halted fault)) :
    t.polled.2 = false ∧ t.polled.1.session.step.result = .error fault ∧ t.after = t.stepped := by
  rcases t.cases with ⟨-, -, hending⟩ | ⟨hopen, other, hr, hafter, hending⟩ |
    ⟨-, stage, -, -, -, hending⟩ | ⟨-, cycle, -, -, hending⟩
  · cases h.symm.trans hending
  · cases h.symm.trans hending
    exact ⟨hopen, hr, hafter⟩
  all_goals cases h.symm.trans hending

theorem of_unshown {stage : PictureStage} (h : t.ending? = some (.unshown stage)) :
    t.polled.2 = false ∧ t.polled.1.session.step.result = .ok (.executed true) ∧
      t.stepped.unshown t.stepped.pictures.length = some stage ∧ t.after = t.stepped := by
  rcases t.cases with ⟨-, -, hending⟩ | ⟨-, fault, -, -, hending⟩ |
    ⟨hopen, other, hr, hnumber, hafter, hending⟩ | ⟨-, cycle, -, -, hending⟩
  · cases h.symm.trans hending
  · cases h.symm.trans hending
  · cases h.symm.trans hending
    exact ⟨hopen, hr, hnumber, hafter⟩
  · cases h.symm.trans hending

theorem of_more (h : t.ending? = none) :
    t.polled.2 = false ∧ ∃ cycle, t.polled.1.session.step.result = .ok cycle ∧
      t.after = (t.stepped.seen cycle).catchUp.rest := by
  rcases t.cases with ⟨-, -, hending⟩ | ⟨-, fault, -, -, hending⟩ |
    ⟨-, stage, -, -, -, hending⟩ | ⟨hopen, cycle, hr, hafter, -⟩
  · cases h.symm.trans hending
  · cases h.symm.trans hending
  · cases h.symm.trans hending
  · exact ⟨hopen, cycle, hr, hafter⟩

end Turn

/-! ## Plays -/

namespace Player

/-- The turns of a play, the first one first. -/
def turnsOf (p : Player) : List (List Event) → List Turn
  | [] => [⟨p, [.quit]⟩]
  | events :: script =>
    match p.turn events with
    | (_, some _) => [⟨p, events⟩]
    | (q, none) => ⟨p, events⟩ :: q.turnsOf script

/-- What holds of each last turn, and of each turn before turns of which it holds, holds of every
play. -/
theorem play_induction {P : Player → List Turn → Player → Ending → Prop}
    (last : ∀ t ending, t.ending? = some ending → P t.player [t] t.after ending)
    (more : ∀ t turns q ending, t.ending? = none → P t.after turns q ending →
      P t.player (t :: turns) q ending)
    (p : Player) (script : List (List Event)) :
    P p (p.turnsOf script) (p.play script).1 (p.play script).2 := by
  induction script generalizing p with
  | nil => exact last ⟨p, [.quit]⟩ .windowClosed rfl
  | cons events script ih =>
    unfold turnsOf play
    cases hturn : p.turn events with
    | mk q ending =>
      have hafter : Turn.after ⟨p, events⟩ = q := congrArg Prod.fst hturn
      have hending : Turn.ending? ⟨p, events⟩ = ending := congrArg Prod.snd hturn
      rw [← hafter]
      cases ending with
      | some ending => exact last ⟨p, events⟩ ending hending
      | none => exact more ⟨p, events⟩ _ _ _ hending (ih _)

/-- Every turn of a play is carried through but the last, which brings the ending. -/
theorem turnsOf_eq_concat (p : Player) (script : List (List Event)) :
    ∃ before last, p.turnsOf script = before ++ [last] ∧ (∀ t ∈ before, t.ending? = none) ∧
      last.ending? = some (p.play script).2 ∧ last.after = (p.play script).1 := by
  apply play_induction (P := fun _ turns q ending => ∃ (before : List Turn) (last : Turn),
    turns = before ++ [last] ∧ (∀ t ∈ before, t.ending? = none) ∧
      last.ending? = some ending ∧ last.after = q)
  · intro t ending hending
    exact ⟨[], t, rfl, List.forall_mem_nil _, hending, rfl⟩
  · intro t turns q ending hmore ih
    obtain ⟨before, last, rfl, hbefore, hlast⟩ := ih
    exact ⟨t :: before, last, rfl, List.forall_mem_cons.mpr ⟨hmore, hbefore⟩, hlast⟩

theorem getLast?_turnsOf (p : Player) (script : List (List Event)) :
    ∃ last, (p.turnsOf script).getLast? = some last ∧ last.after = (p.play script).1 ∧
      last.ending? = some (p.play script).2 := by
  obtain ⟨before, last, hturns, -, hending, hafter⟩ := p.turnsOf_eq_concat script
  exact ⟨last, by rw [hturns, List.getLast?_concat], hafter, hending⟩

end Player

/-! ## The play of a ROM -/

namespace Host

/-- The player who begins the play of a program. -/
def firstPlayer (host : Host) (options : Options) (program : List UInt8) : Player :=
  .begin ((Session.fresh (host.random options)).load program).after host.unshown
    [.romLoaded options.rom program.length]

section

variable (host : Host) (options : Options)

/-- The program is torn down when it comes to the window: the width is a product that 32 bits do not
hold, and that is checked. -/
structure Overflows : Prop where
  checked : host.checked = true
  reached : ∀ stage, host.failing = some stage → stage.beforeWindow = false
  large : 4294967296 ≤ 64 * options.scale.toNat

/-- The setting up fails, at a stage or for the size of the window. -/
def FailsAtSetUp (failure : Failure) : Prop :=
  (∃ stage, host.failing = some stage ∧ failure = .stage stage) ∨
    0x80000000 ≤ 64 * options.scale ∧ failure = .windowTooWide (64 * options.scale) ∨
    0x80000000 ≤ 32 * options.scale ∧ failure = .windowTooHigh (32 * options.scale)

/-- The width is the longer side, so it is the one that does not fit. -/
theorem overflows_iff : host.Overflows options ↔
    host.failing.filter (·.beforeWindow) = none ∧
      (host.checked = true ∧ ¬ Window.Fits options.scale) := by
  have hfits : Window.Fits options.scale ↔ ¬ 4294967296 ≤ 64 * options.scale.toNat := by
    show 64 * options.scale.toNat < 4294967296 ∧ 32 * options.scale.toNat < 4294967296 ↔ _
    omega
  rw [Option.filter_eq_none_iff, hfits, Decidable.not_not]
  constructor
  · rintro ⟨hchecked, hreached, hlarge⟩
    refine ⟨fun stage hstage => ?_, hchecked, hlarge⟩
    rw [hreached stage hstage]
    exact Bool.false_ne_true
  · rintro ⟨hreached, hchecked, hlarge⟩
    exact ⟨hchecked, fun stage hstage => Bool.eq_false_iff.mpr (hreached stage hstage), hlarge⟩

/-- With a program in memory, the program is torn down, or the setting up fails, or the play takes
place. -/
theorem playLoaded_cases (session : Session) (log : List LogEntry) :
    (host.Overflows options ∧
      host.playLoaded options.scale session log = .early .overflow log none []) ∨
    (¬ host.Overflows options ∧ ∃ failure window pictures, host.FailsAtSetUp options failure ∧
      host.playLoaded options.scale session log = .early failure log window pictures) ∨
    ¬ host.Overflows options ∧ host.failing = none ∧
      let played := (Player.begin session host.unshown log).play host.script
      host.playLoaded options.scale session log =
        .ofPlayer (.ofScale options.scale) played.1 played.2 := by
  rw [overflows_iff]
  unfold playLoaded
  cases hbefore : host.failing.filter (·.beforeWindow) with
  | some stage =>
    have hstage : host.failing = some stage := Option.eq_some_of_filter_eq_some hbefore
    exact Or.inr (Or.inl ⟨nofun, _, _, _, Or.inl ⟨stage, hstage, rfl⟩, rfl⟩)
  | none =>
    dsimp only
    split
    · next hlarge => exact Or.inl ⟨⟨rfl, hlarge⟩, rfl⟩
    next hlarge =>
    have hstands : ¬ ((none : Option Stage) = none ∧
        (host.checked = true ∧ ¬ Window.Fits options.scale)) := fun h => hlarge h.2
    refine Or.inr ?_
    split
    · next hwide => exact Or.inl ⟨hstands, _, _, _, Or.inr (Or.inl ⟨hwide, rfl⟩), rfl⟩
    split
    · next hhigh => exact Or.inl ⟨hstands, _, _, _, Or.inr (Or.inr ⟨hhigh, rfl⟩), rfl⟩
    cases hfailing : host.failing with
    | some stage => exact Or.inl ⟨hstands, _, _, _, Or.inl ⟨stage, hfailing, rfl⟩, rfl⟩
    | none => exact Or.inr ⟨hstands, rfl, rfl⟩

/-- **The ways to a report**: the program cannot be read, or not loaded, or it is torn down, or the
setting up fails, or the play takes place. -/
theorem play_cases (rom : Except FileError (List UInt8)) :
    (∃ error, rom = .error error ∧
      host.play options rom = .early (.unreadable options.rom error) [] none []) ∨
    (∃ program, rom = .ok program ∧ ¬ program.length ≤ 3584 ∧
      host.play options rom =
        .early (.unloadable (.programTooLarge program.length 3584)) [] none []) ∨
    (∃ program, rom = .ok program ∧ program.length ≤ 3584 ∧ host.Overflows options ∧
      host.play options rom =
        .early .overflow [.romLoaded options.rom program.length] none []) ∨
    (∃ program, rom = .ok program ∧ program.length ≤ 3584 ∧ ¬ host.Overflows options ∧
      ∃ failure window pictures, host.FailsAtSetUp options failure ∧
        host.play options rom =
          .early failure [.romLoaded options.rom program.length] window pictures) ∨
    (∃ program, rom = .ok program ∧ program.length ≤ 3584 ∧ ¬ host.Overflows options ∧
      host.failing = none ∧
      let played := (host.firstPlayer options program).play host.script
      host.play options rom = .ofPlayer (.ofScale options.scale) played.1 played.2) := by
  cases rom with
  | error error => exact Or.inl ⟨error, rfl, rfl⟩
  | ok program =>
    refine Or.inr ?_
    unfold play
    dsimp only
    by_cases hsize : program.length ≤ 3584
    · have hloaded := (Session.fresh (host.random options)).load_of_le hsize
      refine Or.inr ?_
      rcases host.playLoaded_cases options
        ((Session.fresh (host.random options)).load program).after
        [.romLoaded options.rom program.length] with
        ⟨hover, hreport⟩ | ⟨hstands, failure, window, pictures, hfails, hreport⟩ |
        ⟨hstands, hgoes, hreport⟩
      · refine Or.inl ⟨program, rfl, hsize, hover, ?_⟩
        rw [← hreport, hloaded]
      · refine Or.inr (Or.inl
          ⟨program, rfl, hsize, hstands, failure, window, pictures, hfails, ?_⟩)
        rw [← hreport, hloaded]
      · refine Or.inr (Or.inr ⟨program, rfl, hsize, hstands, hgoes, ?_⟩)
        rw [firstPlayer, ← hreport, hloaded]
    · refine Or.inl ⟨program, rfl, hsize, ?_⟩
      rw [Session.load_of_not_le _ hsize]
      rfl

end

/-- If a poll has begun at all, the ROM has been read and loaded, and the report is that of a
play. -/
theorem play_eq_ofPlayer {host : Host} {options : Options} {rom : Except FileError (List UInt8)}
    (h : (host.play options rom).polls ≠ 0) :
    ∃ program, rom = .ok program ∧
      let played := (host.firstPlayer options program).play host.script
      host.play options rom = .ofPlayer (.ofScale options.scale) played.1 played.2 := by
  rcases host.play_cases options rom with ⟨error, -, hreport⟩ | ⟨program, -, -, hreport⟩ |
    ⟨program, -, -, -, hreport⟩ | ⟨program, -, -, -, failure, window, pictures, -, hreport⟩ |
    ⟨program, hrom, -, -, -, hreport⟩
  · rw [hreport] at h
    exact absurd rfl h
  · rw [hreport] at h
    exact absurd rfl h
  · rw [hreport] at h
    exact absurd rfl h
  · rw [hreport] at h
    exact absurd rfl h
  · exact ⟨program, hrom, hreport⟩

end Host

/-! ## Upkeep -/

namespace Player

/-- A player has done nothing to the session but pass on keys and tick the timers, and has shown
nothing. -/
structure Upkeep (p q : Player) : Prop where
  ops : ∃ ops : List Session.Op, (∀ op ∈ ops, op.isQuiet = true) ∧
    q.session = p.session.runOps ops
  unshown : q.unshown = p.unshown
  pictures : q.pictures = p.pictures

namespace Upkeep

theorem of_session {p q : Player} (hs : q.session = p.session) (hu : q.unshown = p.unshown)
    (hp : q.pictures = p.pictures) : Upkeep p q := by
  refine ⟨⟨[], ?_, hs⟩, hu, hp⟩
  intro op hop
  cases hop

theorem trans {p q r : Player} (h : Upkeep p q) (h' : Upkeep q r) : Upkeep p r := by
  obtain ⟨⟨ops, hops, hs⟩, hu, hp⟩ := h
  obtain ⟨⟨ops', hops', hs'⟩, hu', hp'⟩ := h'
  refine ⟨⟨ops ++ ops', ?_, ?_⟩, hu'.trans hu, hp'.trans hp⟩
  · intro op hop
    rcases List.mem_append.mp hop with h | h
    · exact hops op h
    · exact hops' op h
  · rw [hs', hs, Session.runOps_append]

end Upkeep

theorem upkeep_follow {α : Type} (p : Player) (o : Outcome Session α) (op : Session.Op)
    (h : op.isQuiet = true) (ho : o.after = (p.session.perform op).after) :
    Upkeep p (p.follow o) := by
  refine ⟨⟨[op], ?_, ho⟩, rfl, rfl⟩
  intro op' hop'
  rw [List.mem_singleton.mp hop']
  exact h

theorem upkeep_passKey (p : Player) (key : KeyboardKey) (down : Bool) :
    Upkeep p (p.passKey key down) := by
  unfold passKey
  split
  · next k _ =>
    cases down with
    | true => exact p.upkeep_follow _ (.press (UInt8.ofNat k)) rfl rfl
    | false => exact p.upkeep_follow _ (.release (UInt8.ofNat k)) rfl rfl
  · exact .of_session rfl rfl rfl

theorem upkeep_take (p : Player) (event : Event) : Upkeep p (p.take event) := by
  cases event with
  | keyDown key => exact p.upkeep_passKey key true
  | keyUp key => exact p.upkeep_passKey key false
  | quit | other | lag _ => exact .of_session rfl rfl rfl

theorem upkeep_deliver (p : Player) (events : List Event) : Upkeep p (p.deliver events).1 := by
  induction events generalizing p with
  | nil => exact .of_session rfl rfl rfl
  | cons event rest ih =>
    cases hcloses : event.closes with
    | true =>
      rw [p.deliver_of_closes rest hcloses]
      exact .of_session rfl rfl rfl
    | false =>
      rw [p.deliver_cons rest hcloses]
      exact (p.upkeep_take event).trans (ih _)

theorem upkeep_poll (p : Player) (events : List Event) :
    Upkeep p ({ p with polls := p.polls + 1 }.deliver events).1 := by
  have hbegin : Upkeep p { p with polls := p.polls + 1 } := .of_session rfl rfl rfl
  exact hbegin.trans (upkeep_deliver _ events)

theorem upkeep_catchUp (p : Player) : Upkeep p p.catchUp := by
  fun_induction catchUp p with
  | case1 p _ ih =>
    have hfollow : Upkeep p (p.follow p.session.tick) := p.upkeep_follow _ .tick rfl rfl
    have htick : Upkeep p p.tickOnce := hfollow.trans (.of_session rfl rfl rfl)
    exact htick.trans ih
  | case2 p _ => exact .of_session rfl rfl rfl

theorem upkeep_endTurn (p : Player) : Upkeep p p.catchUp.rest :=
  p.upkeep_catchUp.trans (.of_session rfl rfl rfl)

end Player

/-! ## Pictures that are not shown -/

theorem Turn.unshown_stepped (t : Turn) : t.stepped.unshown = t.player.unshown :=
  (t.player.upkeep_poll t.events).unshown

theorem Turn.unshown_after_of_more {t : Turn} (h : t.ending? = none) :
    t.after.unshown = t.player.unshown := by
  obtain ⟨-, cycle, -, hafter⟩ := of_more h
  have hseen : (t.stepped.seen cycle).unshown = t.stepped.unshown := by
    unfold Player.seen
    split
    · rfl
    · rfl
  rw [hafter, (t.stepped.seen cycle).upkeep_endTurn.unshown, hseen, t.unshown_stepped]

/-- Playing ends with a picture that is not shown only where the host fails at its number. -/
theorem Player.unshown_of_play {p : Player} {script : List (List Event)} {stage : PictureStage}
    (h : (p.play script).2 = .unshown stage) :
    p.unshown (p.play script).1.pictures.length = some stage := by
  revert h
  apply play_induction (P := fun p _ q ending => ending = .unshown stage →
    p.unshown q.pictures.length = some stage)
  · rintro t ending hending rfl
    obtain ⟨-, -, hnumber, hafter⟩ := Turn.of_unshown hending
    rw [hafter, ← t.unshown_stepped, hnumber]
  · intro t turns q ending hmore ih hending
    rw [← Turn.unshown_after_of_more hmore, ih hending]

end Chip8
