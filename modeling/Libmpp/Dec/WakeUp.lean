import Libmpp.Dec.Parser
import Libmpp.Lib.Notices

/-!
# The wake-ups of the parser thread

The parser thread waits for the conditions that its passes found false, and the others send
notices of them. A state is watched with the conditions that had a notice since they were
found false, and with those whose notice `check_task_wait` threw away and that no pass
tested since (`Watched`). Asleep without a signal, the thread has missed nothing
(`NoneMissed`) in the runs in which `check_task_wait` sends it to sleep with no such
condition left; where one is left, it has missed that one (`reachable_noneMissed`). What
comes between a test, the publication of the word and the sleep does no harm, and no reset
or command is missed.
-/

namespace Libmpp.Dec

open Option

variable {s s' : Sync} {since owed flag : Flags}

/-! ## Watching the notices -/

/-- A decoder with the conditions that had a notice since they were found false, and those
    that are owed a test. -/
structure Watched where
  dec : MppDecImpl
  since : Flags
  owed : Flags
  deriving DecidableEq, Repr

/-- What a step notifies. -/
def sent (d : MppDecImpl) : Event → Flags
  | .parser _ => 0
  | .hal spurious => ((halThread d.work spurious).bind Prod.snd).getD 0
  | .putPacket => 0
  | .notify flag => flag
  | .reset => if d.sync.resetter = .flagged then decReset else 0
  | .control => if d.sync.control = .sent then decControl else 0

/-- What a check leaves owed: the notices it throws away are of conditions waited for. -/
def Sync.owedAfter (s : Sync) (since owed : Flags) : Flags :=
  owed ||| (s.parserNotifyFlag &&& ~~~s.keepNotify) &&& s.wait &&& since

/-- The notices after a step of the parser thread. -/
def observe (s : Watched) (o : Outside) : Flags × Flags :=
  match s.dec.sync.pc with
  | .check => (s.since, s.dec.sync.owedAfter s.since s.owed)
  | .resetWait => (s.since, 0)
  | .pass st =>
    match (tryProcDecTask st s.dec.sync.wait s.dec.work o).2.wrote with
    | some (c, b) => (if b then s.since &&& ~~~c.flag else s.since, s.owed &&& ~~~c.flag)
    | none => (s.since, s.owed)
  | _ => (s.since, s.owed)

def watchedStep (s : Watched) (e : Event) : Option Watched :=
  (step s.dec e).map fun dec =>
    match e with
    | .parser o => { dec, since := (observe s o).1, owed := (observe s o).2 }
    | e => { dec, since := s.since ||| sent s.dec e, owed := s.owed }

def watchedInit (tasks : ℕ) (parserFastMode : Bool) : Watched where
  dec := .init tasks parserFastMode
  since := 0
  owed := 0

/-- Asleep without a signal, the parser thread has missed nothing: the notices of a reset and
    of a command that is not handled are still to come, and what it waits for had no notice
    since it was found false. -/
def NoneMissed (s : Watched) : Prop :=
  s.dec.sync.pc = .asleep false →
    (s.dec.sync.resetFlag → s.dec.sync.resetter = .flagged) ∧
      (s.dec.sync.cmdSend ≠ s.dec.sync.cmdRecv → s.dec.sync.control = .sent) ∧
        s.dec.sync.parserWaitFlag &&& s.since = 0

def Event.isParser : Event → Bool
  | .parser _ => true
  | _ => false

/-- A check with a condition that is owed a test finds something else to do. -/
def Heeds (s : Watched) (e : Event) : Prop :=
  e.isParser → s.dec.sync.pc = .check →
    s.owed = 0 ∨ s.dec.sync.resetFlag ∨ s.dec.sync.parserNotifyFlag &&& decControl ≠ 0 ∨
      s.dec.sync.wait &&& s.dec.sync.parserNotifyFlag ≠ 0

instance (s : Watched) (e : Event) : Decidable (Heeds s e) :=
  inferInstanceAs (Decidable (_ → _ → _ ∨ _ ∨ _ ∨ _))

/-! ## The invariant -/

/-- The commands: the one that is not handled holds the parser thread awake, or its notice
    is still to come. -/
structure Commands (s : Sync) : Prop where
  phase : match s.control with
    | .idle => s.cmdSend = s.cmdRecv ∧ s.cmdStart = 0 ∧ s.cmdDone = 0
    | .sent | .notified => s.cmdSend = s.cmdRecv + 1 ∧ s.cmdStart = 0 ∧ s.cmdDone = 0
    | .started => s.cmdSend = s.cmdRecv + 1 ∧ s.cmdStart = 1 ∧ s.cmdDone = 0 ∨
      s.cmdSend = s.cmdRecv ∧ s.cmdStart = 0 ∧ s.cmdDone = 1
  run : s.pc = .cmdRun → s.cmdSend ≠ s.cmdRecv
  noticed : s.cmdSend ≠ s.cmdRecv → s.control ≠ .sent →
    s.parserNotifyFlag &&& decControl ≠ 0 ∨ s.pc = .cmdTest ∨ s.pc = .cmdRun ∨
      s.pc = .asleep true

/-- What holds at each step of the threads. -/
structure Inv (s : Sync) (since owed : Flags) : Prop where
  notices : Notices (bits s.wait) (bits since) (bits s.parserNotifyFlag) (bits owed)
  commands : Commands s
  flagged : s.resetter ≠ .idle → s.resetFlag
  asleep : ∀ b, s.pc = .asleep b → s.parserWaitFlag = s.wait ∧ s.wait ≠ 0 ∧ owed = 0
  unnoticed : s.pc = .asleep false → s.wait &&& s.parserNotifyFlag = 0
  unflagged : s.pc = .asleep false → s.resetFlag → s.resetter = .flagged
  unsent : s.pc = .asleep false → s.cmdSend ≠ s.cmdRecv → s.control = .sent

/-- Awake, the thread needs the notices and the commands only. -/
theorem Inv.of_awake (hpc : ∀ b, s.pc ≠ .asleep b)
    (hn : Notices (bits s.wait) (bits since) (bits s.parserNotifyFlag) (bits owed))
    (hc : Commands s) (hf : s.resetter ≠ .idle → s.resetFlag) : Inv s since owed where
  notices := hn
  commands := hc
  flagged := hf
  asleep b hb := absurd hb (hpc b)
  unnoticed h := absurd h (hpc _)
  unflagged h := absurd h (hpc _)
  unsent h := absurd h (hpc _)

/-! ## A notice -/

/-- A notice signals the thread, or leaves it where it is. -/
theorem mppDecNotifyNormal_eq (s : Sync) (flag : Flags) : ∃ pc,
    mppDecNotifyNormal s flag =
      { s with pc, parserNotifyFlag := s.parserNotifyFlag ||| flag } ∧
    (pc = s.pc ∨ (∃ b, s.pc = .asleep b) ∧ pc = .asleep true) ∧
    (pc = .asleep false → flag ≠ decControl ∧
      (s.parserNotifyFlag = s.parserNotifyFlag ||| flag ∨
        (s.parserNotifyFlag ||| flag) &&& s.parserWaitFlag = 0)) := by
  rw [mppDecNotifyNormal]
  dsimp only
  split_ifs with h
  · rw [Sync.signal]
    rcases hpc : s.pc with _ | b | _ | _ | _ | _ | _ | _ | st
    case asleep => exact ⟨_, rfl, .inr ⟨⟨b, rfl⟩, rfl⟩, fun h => by simp at h⟩
    all_goals exact ⟨_, by simp, .inl rfl, fun h => by simp at h⟩
  · refine ⟨_, rfl, .inl rfl, fun _ => ?_⟩
    push Not at h
    refine ⟨h.1, ?_⟩
    by_cases hold : s.parserNotifyFlag = s.parserNotifyFlag ||| flag
    · exact .inl hold
    · exact .inr (h.2 hold)

/-- A notice of what is waited for, or of a command, signals the thread. -/
theorem Inv.unsignalled (h : Inv s since owed)
    (hpc : (mppDecNotifyNormal s flag).pc = .asleep false) :
    s.pc = .asleep false ∧ flag ≠ decControl ∧ s.wait &&& (s.parserNotifyFlag ||| flag) = 0 := by
  obtain ⟨pc, heq, hmove, hquiet⟩ := mppDecNotifyNormal_eq s flag
  rw [heq] at hpc
  obtain rfl : pc = .asleep false := hpc
  have hs : s.pc = .asleep false := by
    rcases hmove with hmove | ⟨-, hmove⟩
    · exact hmove.symm
    · simp at hmove
  obtain ⟨hwait, -, -⟩ := h.asleep _ hs
  refine ⟨hs, (hquiet rfl).1, ?_⟩
  rcases (hquiet rfl).2 with hold | hnone
  · rw [← hold]
    exact h.unnoticed hs
  · rwa [hwait, BitVec.and_comm] at hnone

theorem flags_or_zero (w : Flags) : w ||| 0 = w := BitVec.or_zero

theorem flags_or_ne_zero {v w : Flags} (h : v &&& w ≠ 0) (flag : Flags) :
    (v ||| flag) &&& w ≠ 0 := by
  contrapose! h
  rw [and_eq_zero, bits_or, Set.disjoint_union_left] at h
  exact and_eq_zero.2 h.1

theorem Commands.notify (h : Commands s) (flag : Flags) :
    Commands (mppDecNotifyNormal s flag) := by
  obtain ⟨pc, heq, hmove, -⟩ := mppDecNotifyNormal_eq s flag
  rw [heq]
  refine ⟨h.phase, fun hpc => ?_, fun hne hcontrol => ?_⟩
  · obtain rfl : pc = .cmdRun := hpc
    rcases hmove with hmove | ⟨-, hmove⟩
    · exact h.run hmove.symm
    · simp at hmove
  · rcases h.noticed hne hcontrol with hn | hpc
    · exact .inl (flags_or_ne_zero hn flag)
    · rcases hmove with hmove | ⟨-, hmove⟩
      · exact .inr (hmove ▸ hpc)
      · exact .inr (.inr (.inr hmove))

theorem Inv.notify (h : Inv s since owed) (flag : Flags) :
    Inv (mppDecNotifyNormal s flag) (since ||| flag) owed := by
  have hcommands := h.commands.notify flag
  have hquiet := @Inv.unsignalled _ _ _ flag h
  obtain ⟨pc, heq, hmove, -⟩ := mppDecNotifyNormal_eq s flag
  rw [heq] at hcommands hquiet ⊢
  refine ⟨?_, hcommands, h.flagged, fun b hb => ?_, fun hpc => (hquiet hpc).2.2,
    fun hpc => h.unflagged (hquiet hpc).1, fun hpc => h.unsent (hquiet hpc).1⟩
  · rw [bits_or, bits_or]
    exact h.notices.send _
  · obtain rfl : pc = .asleep b := hb
    rcases hmove with hmove | ⟨⟨b', hb'⟩, -⟩
    · exact h.asleep b hmove.symm
    · exact h.asleep b' hb'

/-! ## The other parties -/

theorem Inv.silent (h : Inv s since owed) : Inv s (since ||| 0) owed := by
  rwa [flags_or_zero]

theorem Inv.reset (h : Inv s since owed) :
    Inv (mppDecResetNormal s) (since ||| if s.resetter = .flagged then decReset else 0) owed := by
  rw [mppDecResetNormal]
  rcases hr : s.resetter with _ | _ | _
  case idle =>
    rw [if_neg (by simp), flags_or_zero]
    exact ⟨h.notices, ⟨h.commands.phase, h.commands.run, h.commands.noticed⟩, fun _ => rfl,
      h.asleep, h.unnoticed, fun _ _ => rfl, h.unsent⟩
  case flagged =>
    rw [if_pos rfl]
    have hn := h.notify decReset
    have hflag : s.resetFlag := h.flagged (by rw [hr]; simp)
    have hquiet := @Inv.unsignalled _ _ _ decReset h
    -- what wakes up for a reset waits for something
    have hawake : (mppDecNotifyNormal s decReset).pc ≠ .asleep false := by
      intro hpc
      obtain ⟨hs, -, hnone⟩ := hquiet hpc
      refine (h.asleep _ hs).2.1 ?_
      rwa [decReset, show (0xFFFFFFFF : Flags) = BitVec.allOnes 32 from rfl, BitVec.or_allOnes,
        BitVec.and_allOnes] at hnone
    obtain ⟨pc, heq, -, -⟩ := mppDecNotifyNormal_eq s decReset
    rw [heq] at hn hawake ⊢
    exact ⟨hn.notices, ⟨hn.commands.phase, hn.commands.run, hn.commands.noticed⟩,
      fun _ => hflag, hn.asleep, hn.unnoticed, fun hpc => absurd hpc hawake, hn.unsent⟩
  case notified =>
    rw [if_neg (by simp), flags_or_zero]
    refine ⟨h.notices, ⟨h.commands.phase, h.commands.run, h.commands.noticed⟩,
      fun hne => absurd rfl hne, h.asleep, h.unnoticed, fun hpc hflag => ?_, h.unsent⟩
    have := h.unflagged hpc hflag
    rw [hr] at this
    simp at this

theorem Inv.control (h : Inv s since owed) (hs : mppDecControlNormal s = some s') :
    Inv s' (since ||| if s.control = .sent then decControl else 0) owed := by
  have hphase := h.commands.phase
  rw [mppDecControlNormal] at hs
  rcases hc : s.control with _ | _ | _ | _ <;> rw [hc] at hs hphase
  case idle =>
    obtain rfl := some.inj hs
    rw [if_neg (by simp), flags_or_zero]
    obtain ⟨heq, hstart, hdone⟩ := hphase
    refine ⟨h.notices, ⟨⟨by rw [heq], hstart, hdone⟩, fun hpc => ?_, fun _ hne => absurd rfl hne⟩,
      h.flagged, h.asleep, h.unnoticed, h.unflagged, fun _ _ => rfl⟩
    exact absurd heq (h.commands.run hpc)
  case sent =>
    obtain rfl := some.inj hs
    rw [if_pos rfl]
    have hn := h.notify decControl
    have hawake : (mppDecNotifyNormal s decControl).pc ≠ .asleep false :=
      fun hpc => (h.unsignalled hpc).2.1 rfl
    obtain ⟨pc, heq, -, -⟩ := mppDecNotifyNormal_eq s decControl
    rw [heq] at hn hawake ⊢
    refine ⟨hn.notices, ⟨hphase, hn.commands.run, fun _ _ => .inl ?_⟩, hn.flagged, hn.asleep,
      hn.unnoticed, hn.unflagged, fun hpc => absurd hpc hawake⟩
    rw [Ne, and_eq_zero, bits_or, Set.disjoint_union_left]
    exact fun hdis => absurd (and_eq_zero.2 hdis.2) (by decide)
  case notified =>
    obtain rfl := some.inj hs
    rw [if_neg (by simp), flags_or_zero]
    obtain ⟨heq, hstart, hdone⟩ := hphase
    refine ⟨h.notices, ⟨.inl ⟨heq, by rw [hstart], hdone⟩, h.commands.run, fun hne _ => ?_⟩,
      h.flagged, h.asleep, h.unnoticed, h.unflagged, fun hpc hne => ?_⟩
    · exact h.commands.noticed hne (by rw [hc]; simp)
    · have := h.unsent hpc hne
      rw [hc] at this
      simp at this
  case started =>
    rw [if_neg (by simp), flags_or_zero]
    dsimp only at hs
    split_ifs at hs with hdone
    obtain rfl := some.inj hs
    obtain ⟨-, -, hzero⟩ | ⟨heq, hstart, hone⟩ := hphase
    · exact absurd hzero hdone
    · refine ⟨h.notices, ⟨⟨heq, hstart, by rw [hone]⟩, h.commands.run, fun hne => absurd heq hne⟩,
        h.flagged, h.asleep, h.unnoticed, h.unflagged, fun _ hne => absurd heq hne⟩

/-! ## The parser thread -/

theorem hasToWait_iff (s : Sync) : s.hasToWait ↔
    s.resetFlag = false ∧ s.parserNotifyFlag &&& decControl = 0 ∧ s.wait ≠ 0 ∧
      s.wait &&& s.parserNotifyFlag = 0 := by
  simp only [Sync.hasToWait, Bool.not_eq_true', Bool.or_eq_false_iff, bne_eq_false_iff_eq,
    beq_eq_false_iff_ne, ne_eq, and_assoc]

/-- A check throws away what it does not keep. -/
theorem Inv.discard (h : Inv s since owed) :
    Notices (bits s.wait) (bits since) (bits s.keepNotify) (bits (s.owedAfter since owed)) := by
  rw [Sync.owedAfter, bits_or, bits_and, bits_and, bits_and_not]
  exact h.notices.discard _

/-- A thread that has to wait throws away no notice of what it waits for. -/
theorem owedAfter_of_hasToWait (h : s.hasToWait) (since owed : Flags) :
    s.owedAfter since owed = owed := by
  obtain ⟨-, -, -, hnone⟩ := (hasToWait_iff s).1 h
  have hdis := and_eq_zero.1 hnone
  have hzero : (s.parserNotifyFlag &&& ~~~s.keepNotify) &&& s.wait = 0 := by
    rw [and_eq_zero, bits_and_not]
    exact (hdis.mono_right Set.sdiff_subset).symm
  rw [Sync.owedAfter, hzero]
  exact (congrArg (owed ||| ·) BitVec.zero_and).trans (flags_or_zero owed)

theorem Inv.check (h : Inv s since owed) (hpc : s.pc = .check) (ho : s.hasToWait → owed = 0) :
    Inv (checkTaskWait s) since (s.owedAfter since owed) := by
  have hphase := h.commands.phase
  by_cases hwait : s.hasToWait
  · have howed := owedAfter_of_hasToWait hwait since owed
    obtain ⟨hreset, hcontrol, hne, hnone⟩ := (hasToWait_iff s).1 hwait
    -- no notice of a command was there
    have hsent : s.cmdSend ≠ s.cmdRecv → s.control = .sent := by
      intro hcmd
      by_contra hc
      rcases h.commands.noticed hcmd hc with hn | hp | hp | hp
      · exact hn hcontrol
      all_goals simp [hpc] at hp
    have hpc' : (checkTaskWait s).pc = .asleep false := if_pos hwait
    have hkeep : s.keepNotify = 0 := if_neg (by simp [hreset, hcontrol])
    refine ⟨h.discard, ⟨hphase, fun hp => ?_, fun hcmd hc => absurd (hsent hcmd) hc⟩, h.flagged,
      fun _ _ => ⟨rfl, hne, by rw [howed, ho hwait]⟩, fun _ => ?_, fun _ hr => ?_, fun _ => hsent⟩
    · simp [hpc'] at hp
    · exact (congrArg (s.wait &&& ·) hkeep).trans BitVec.and_zero
    · exact absurd hr (by rw [show (checkTaskWait s).resetFlag = false from hreset]; simp)
  · have hpc' : (checkTaskWait s).pc = .cmdTest := if_neg hwait
    refine .of_awake (fun b hb => by simp [hpc'] at hb) h.discard
      ⟨hphase, fun hp => ?_, fun _ _ => .inr (.inl hpc')⟩ h.flagged
    simp [hpc'] at hp

/-- The thread goes on where it looks at no command. -/
theorem Commands.go (h : Commands s) (hpc : ∀ b, s.pc ≠ .asleep b) (htest : s.pc ≠ .cmdTest)
    (hrun : s.pc ≠ .cmdRun) {pc : Pc} (hpc' : pc ≠ .cmdRun) (wait parserWaitFlag : Flags)
    (resetFlag : Bool) : Commands { s with pc, wait, parserWaitFlag, resetFlag } := by
  refine ⟨h.phase, fun hp => absurd hp hpc', fun hcmd hc => .inl ?_⟩
  rcases h.noticed hcmd hc with hn | hp | hp | hp
  · exact hn
  · exact absurd hp htest
  · exact absurd hp hrun
  · exact absurd hp (hpc true)

/-- A move writes at most one condition. -/
theorem Inv.wrote (h : Inv s since owed) (c : Wait) (b : Bool) :
    Notices (bits (setWait s.wait c b)) (bits (if b then since &&& ~~~c.flag else since))
      (bits s.parserNotifyFlag) (bits (owed &&& ~~~c.flag)) := by
  cases b with
  | false =>
    rw [setWait, if_neg Bool.false_ne_true, if_neg Bool.false_ne_true, bits_and_not, bits_and_not]
    exact h.notices.found _
  | true =>
    rw [setWait, if_pos rfl, if_pos rfl, bits_or, bits_and_not, bits_and_not]
    exact h.notices.notFound _

theorem Inv.move (h : Inv s since owed) {st : Stage} (hpc : s.pc = .pass st) (m : Move) :
    let x := match m.wrote with
      | some (c, b) => (if b then since &&& ~~~c.flag else since, owed &&& ~~~c.flag)
      | none => (since, owed)
    Inv (s.move m) x.1 x.2 := by
  have hnext : ∀ b, (s.move m).pc ≠ .asleep b := fun b => by
    rw [Sync.move]
    rcases m.next with _ | st' <;> simp
  have hcommands : Commands (s.move m) := by
    refine h.commands.go (by simp [hpc]) (by simp [hpc]) (by simp [hpc]) ?_ _ s.parserWaitFlag
      s.resetFlag
    rcases m.next with _ | st' <;> simp
  intro x
  refine .of_awake hnext ?_ hcommands h.flagged
  rcases hw : m.wrote with _ | ⟨c, b⟩
  · simpa [x, hw, Sync.move] using h.notices
  · simpa only [x, hw, Sync.move, Option.elim] using h.wrote c b

theorem Inv.parserThread {w : Watched} (h : Inv w.dec.sync w.since w.owed) {o : Outside}
    (hg : w.dec.sync.pc = .check → w.dec.sync.hasToWait → w.owed = 0) {d : MppDecImpl}
    (hs : parserThread w.dec o = some d) : Inv d.sync (observe w o).1 (observe w o).2 := by
  rw [Dec.parserThread] at hs
  rw [observe]
  have hphase := h.commands.phase
  rcases hpc : w.dec.sync.pc with _ | b | _ | _ | _ | _ | _ | _ | st <;> rw [hpc] at hs
  case check =>
    obtain rfl := some.inj hs
    exact h.check hpc (hg hpc)
  case asleep =>
    dsimp only at hs
    split_ifs at hs with hwake
    obtain rfl := some.inj hs
    exact .of_awake (by simp) h.notices ⟨hphase, by simp, fun _ _ => .inr (.inl rfl)⟩ h.flagged
  case cmdTest =>
    obtain rfl := some.inj hs
    by_cases hcmd : w.dec.sync.cmdSend = w.dec.sync.cmdRecv
    · exact .of_awake (by simp [hcmd]) h.notices
        ⟨hphase, by simp [hcmd], fun hne => absurd hcmd hne⟩ h.flagged
    · exact .of_awake (by simp [hcmd]) h.notices
        ⟨hphase, fun _ => hcmd, fun _ _ => .inr (.inr (.inl (by simp [hcmd])))⟩ h.flagged
  case cmdRun =>
    dsimp only at hs
    split_ifs at hs with hstart
    obtain rfl := some.inj hs
    -- a command that was started is handled now
    rcases hc : w.dec.sync.control with _ | _ | _ | _ <;> rw [hc] at hphase
    case started =>
      obtain ⟨heq, hone, hdone⟩ | ⟨-, hzero, -⟩ := hphase
      · refine .of_awake (by simp) h.notices ⟨?_, by simp, fun hne => absurd heq hne⟩ h.flagged
        exact .inr ⟨heq, by rw [hone], by rw [hdone]⟩
      · exact absurd hzero hstart
    all_goals exact absurd hphase.2.1 hstart
  case resetTest =>
    obtain rfl := some.inj hs
    have hnext : ∀ b, (if w.dec.sync.resetFlag then Pc.resetPost else .pass .taskHnd) ≠ .asleep b ∧
        (if w.dec.sync.resetFlag then Pc.resetPost else .pass .taskHnd) ≠ .cmdRun := fun b => by
      split_ifs <;> simp
    exact .of_awake (fun b => (hnext b).1) h.notices
      (h.commands.go (by simp [hpc]) (by simp [hpc]) (by simp [hpc]) (hnext true).2 _ _ _) h.flagged
  case resetPost =>
    obtain rfl := some.inj hs
    exact .of_awake (by simp) h.notices
      (h.commands.go (by simp [hpc]) (by simp [hpc]) (by simp [hpc]) (by simp) _ _ _) h.flagged
  case resetWait =>
    dsimp only at hs
    split_ifs at hs with hzero
    obtain rfl := some.inj hs
    refine .of_awake (by simp) ?_
      (h.commands.go (by simp [hpc]) (by simp [hpc]) (by simp [hpc]) (by simp) _ _ _) h.flagged
    rw [bits_zero]
    exact .none
  case resetDone =>
    dsimp only at hs
    split_ifs at hs with hidle
    obtain rfl := some.inj hs
    exact .of_awake (by simp) h.notices
      (h.commands.go (by simp [hpc]) (by simp [hpc]) (by simp [hpc]) (by simp) _ _ _)
      fun hne => absurd hidle hne
  case pass =>
    obtain rfl := some.inj hs
    exact h.move hpc _

/-! ## Runs -/

theorem Inv.step {w w' : Watched} (h : Inv w.dec.sync w.since w.owed) {e : Event}
    (hg : Heeds w e) (hs : watchedStep w e = some w') : Inv w'.dec.sync w'.since w'.owed := by
  obtain ⟨d, hd, rfl⟩ := map_eq_some_iff.1 hs
  cases e with
  | parser o =>
    refine h.parserThread (fun hpc hwait => ?_) hd
    obtain ⟨hreset, hcontrol, -, hnone⟩ := (hasToWait_iff _).1 hwait
    rcases hg rfl hpc with ho | hr | hn | hn
    · exact ho
    · simp [hreset] at hr
    · exact absurd hcontrol hn
    · exact absurd hnone hn
  | hal spurious =>
    obtain ⟨⟨work, flag⟩, hhal, hd⟩ := bind_eq_some_iff.1 hd
    obtain rfl := some.inj hd
    have hsent : sent w.dec (.hal spurious) = flag.getD 0 := by
      rw [sent, hhal]
      rfl
    rcases flag with _ | flag
    · simp only [hsent]
      exact h.silent
    · simp only [hsent]
      exact h.notify flag
  | putPacket =>
    obtain rfl := some.inj hd
    exact h.silent
  | notify flag =>
    obtain rfl := some.inj hd
    exact h.notify flag
  | reset =>
    obtain rfl := some.inj hd
    exact h.reset
  | control =>
    obtain ⟨s', hs', rfl⟩ := map_eq_some_iff.1 hd
    exact h.control hs'

/-- The decoder with all its parties, watched. -/
def watching (tasks : ℕ) (parserFastMode : Bool) : Machine Watched Event :=
  .ofPartial (watchedInit tasks parserFastMode) watchedStep

theorem inv_init (tasks : ℕ) (parserFastMode : Bool) :
    Inv (watchedInit tasks parserFastMode).dec.sync 0 0 := by
  refine .of_awake (fun b => by simp [watchedInit, MppDecImpl.init]) ?_
    ⟨⟨rfl, rfl, rfl⟩, fun hpc => ?_, fun hne => absurd rfl hne⟩ fun hne => absurd rfl hne
  · have hzero : bits (0 : Flags) = ∅ := bits_zero
    change Notices (bits (0 : Flags)) (bits 0) (bits 0) (bits 0)
    rw [hzero]
    exact .none
  · simp [watchedInit, MppDecImpl.init] at hpc

theorem reachable_inv {tasks : ℕ} {parserFastMode : Bool} {w : Watched}
    (hw : ((watching tasks parserFastMode).guarded fun w e _ => Heeds w e).Reachable w) :
    Inv w.dec.sync w.since w.owed := by
  refine hw.invariant (P := fun w => Inv w.dec.sync w.since w.owed) ?_ ?_
  · rintro w rfl
    exact inv_init tasks parserFastMode
  · exact fun w e w' _ h hs => h.step hs.2 hs.1

theorem Inv.noneMissed {w : Watched} (h : Inv w.dec.sync w.since w.owed) : NoneMissed w := by
  intro hpc
  obtain ⟨hwait, -, howed⟩ := h.asleep _ hpc
  refine ⟨h.unflagged hpc, h.unsent hpc, ?_⟩
  have hn := h.notices
  rw [howed, bits_zero] at hn
  rw [hwait, and_eq_zero]
  exact hn.disjoint (and_eq_zero.1 (h.unnoticed hpc))

/-- A check that sends the thread to sleep with a condition owed a test misses its notice. -/
theorem Inv.missed {w w' : Watched} (h : Inv w.dec.sync w.since w.owed) {e : Event}
    (hg : ¬Heeds w e) (hs : watchedStep w e = some w') : ¬NoneMissed w' := by
  rw [Heeds] at hg
  push Not at hg
  obtain ⟨he, hpc, howed, hreset, hcontrol, hnone⟩ := hg
  cases e with
  | parser o =>
    obtain ⟨d, hd, rfl⟩ := map_eq_some_iff.1 hs
    rw [Dec.step, Dec.parserThread, hpc] at hd
    obtain rfl := some.inj hd
    have hne : (bits w.owed).Nonempty :=
      Set.nonempty_iff_ne_empty.2 fun hempty => howed (bits_eq_empty.1 hempty)
    have hwait : w.dec.sync.wait ≠ 0 := by
      rintro hzero
      have hsub := h.notices.owed_wait
      rw [hzero, bits_zero] at hsub
      exact hne.not_subset_empty hsub
    have hsleep : w.dec.sync.hasToWait :=
      (hasToWait_iff _).2 ⟨by simpa using hreset, hcontrol, hwait, hnone⟩
    intro hmiss
    have hsince : (observe w o).1 = w.since := by rw [observe, hpc]
    obtain ⟨-, -, hnotice⟩ := hmiss (if_pos hsleep)
    refine h.notices.not_disjoint hne (and_eq_zero.1 ?_)
    rw [← hsince]
    exact hnotice
  | _ => exact absurd he (by simp [Event.isParser])

/-- In the runs whose checks with a condition owed a test find something else to do, the
    parser thread misses no wake-up, and the first check that does not misses one. -/
theorem reachable_noneMissed {tasks : ℕ} {parserFastMode : Bool} {w : Watched}
    (hw : ((watching tasks parserFastMode).guarded fun w e _ => Heeds w e).Reachable w) :
    NoneMissed w ∧ ∀ e w', watchedStep w e = some w' → ¬Heeds w e → ¬NoneMissed w' :=
  ⟨(reachable_inv hw).noneMissed, fun _ _ hs hg => (reachable_inv hw).missed hg hs⟩

/-- Some steps of the parser thread. -/
def parserSteps (n : ℕ) : List Event := List.replicate n (.parser {})

/-- The thread sleeps, a packet without a frame is taken, and it sleeps again. -/
def packetTaken : List Event :=
  parserSteps 6 ++ [.putPacket, .notify Wait.decPktIn.flag] ++ parserSteps 12

instance (w : Watched) : Decidable (NoneMissed w) :=
  inferInstanceAs (Decidable (_ → _ ∧ _ ∧ _))

theorem reachable_noneMissed_packet : ∃ w,
    ((watching 2 false).guarded fun w e _ => Heeds w e).Reachable w ∧
      w.dec.sync.pc = .asleep false ∧ w.dec.sync.parserWaitFlag = Wait.decPktIn.flag ∧
        NoneMissed w := by
  have h : ((Machine.run watchedStep (fun w e _ => Heeds w e) (watchedInit 2 false)
      packetTaken).map fun w => decide (w.dec.sync.pc = .asleep false ∧
        w.dec.sync.parserWaitFlag = Wait.decPktIn.flag)) = some true := by decide
  obtain ⟨w, hrun, hw⟩ := map_eq_some_iff.1 h
  have hr := Machine.Reachable.run (.init rfl) hrun
  obtain ⟨hpc, hwait⟩ := of_decide_eq_true hw
  exact ⟨w, hr, hpc, hwait, (reachable_noneMissed hr).1⟩

/-- A packet comes between a pass that found none and the check, which throws its notice
    away; then two commands follow each other. -/
def commandsBetween : List Event :=
  parserSteps 5 ++ [.putPacket, .notify Wait.decPktIn.flag] ++ parserSteps 1 ++
    [.control, .control, .control] ++ parserSteps 2 ++
      [.control, .control, .control, .control] ++ parserSteps 4

/-- The thread sleeps, and the packet that it waits for is there. -/
theorem packet_missed : ∃ w, (watching 2 false).Reachable w ∧
    w.dec.sync.pc = .asleep false ∧ w.dec.sync.parserWaitFlag = Wait.decPktIn.flag ∧
      w.dec.work.inPort = 1 ∧ ¬NoneMissed w := by
  have h : ((Machine.run watchedStep (fun _ _ _ => True) (watchedInit 2 false)
      commandsBetween).map fun w => decide (w.dec.sync.pc = .asleep false ∧
        w.dec.sync.parserWaitFlag = Wait.decPktIn.flag ∧ w.dec.work.inPort = 1 ∧
          ¬NoneMissed w)) = some true := by decide
  obtain ⟨w, hrun, hw⟩ := map_eq_some_iff.1 h
  exact ⟨w, (Machine.Reachable.run (.init rfl) hrun).of_guarded, of_decide_eq_true hw⟩

end Libmpp.Dec
