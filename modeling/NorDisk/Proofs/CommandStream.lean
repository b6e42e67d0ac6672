import NorDisk.Firmware.SpiChip
import NorDisk.Proofs.BusFailure
import NorDisk.Proofs.CommandTraces

/-!
# The commands of a disk on the bus

A controller turns each command into two transactions and each look at the busy flag into one, so
what reaches the bus is a list of polls with pairs in between. It is compared here with the commands
that the controller received, over whole runs: the pairs are those commands, in order, and each pair
comes right after a poll that showed an idle part. The status register may answer as it likes.

* **`Streamed commands log`** — the log of a bus that has carried commands in this way.
* **`Encodes`** — what the two transactions of a command hold, byte by byte.
* **`Disk.command_stream`** — every run on every board.
-/

namespace NorDisk

open Outcome

/-- The transactions of commands in order: polls, and after one that shows an idle part the
transactions of a command. -/
inductive Streamed : List Command → List Exchange → Prop
  | nil : Streamed [] []
  | poll {commands log x} (h : Streamed commands log) (hpoll : x.isPoll) :
    Streamed commands (log ++ [x])
  | command {commands log x issued} (command : Command) (h : Streamed commands (log ++ [x]))
    (hidle : x.showsIdle) (hissued : issued.map (·.ops) = command.transactions) :
    Streamed (commands ++ [command]) (log ++ [x] ++ issued)

/-- The transactions of a log that are not polls. -/
def workOps (log : List Exchange) : List (List SpiOp) := (log.filter (!·.isPoll)).map (·.ops)

/-- What is not a poll in two logs, one after the other. -/
theorem workOps_append (log log' : List Exchange) :
    workOps (log ++ log') = workOps log ++ workOps log' := by
  rw [workOps, List.filter_append, List.map_append]
  rfl

/-- A poll is not counted. -/
theorem workOps_of_poll {x : Exchange} (h : x.isPoll) : workOps [x] = [] := by
  simp [workOps, h]

/-- No transaction of a command is a poll. -/
theorem workOps_of_issued {issued : List Exchange} {command : Command}
    (h : issued.map (·.ops) = command.transactions) : workOps issued = command.transactions := by
  have hnot : ∀ x ∈ issued, (!x.isPoll) = true := by
    intro x hx
    have hops : x.ops ∈ command.transactions := h ▸ List.mem_map_of_mem hx
    simpa [Exchange.isPoll] using Command.ne_statusRead hops
  rw [workOps, List.filter_eq_self.mpr hnot, h]

namespace Streamed

variable {commands early late : List Command} {command : Command} {log : List Exchange}

/-- Without the polls there are the transactions of the commands. -/
theorem workOps_eq (h : Streamed commands log) :
    workOps log = commands.flatMap Command.transactions := by
  induction h with
  | nil => rfl
  | poll h hpoll ih => rw [workOps_append, workOps_of_poll hpoll, List.append_nil, ih]
  | command command h hidle hissued ih =>
    rw [workOps_append, ih, workOps_of_issued hissued, List.flatMap_append]
    simp

/-- Each command follows a poll that shows an idle part, after the transactions of those before. -/
theorem split (h : Streamed commands log) (hsplit : commands = early ++ command :: late) :
    ∃ before poll issued after, log = before ++ poll :: (issued ++ after) ∧
      poll.showsIdle ∧ issued.map (·.ops) = command.transactions ∧
      Streamed early (before ++ [poll]) := by
  induction h generalizing late with
  | nil => exact absurd hsplit (by simp)
  | @poll _ log x h hpoll ih =>
    obtain ⟨before, poll, issued, after, rfl, hrest⟩ := ih hsplit
    exact ⟨before, poll, issued, after ++ [x], by simp, hrest⟩
  | @command commands log x issued new h hidle hissued ih =>
    -- Either the command is the new one, or it was issued before.
    rcases List.eq_nil_or_concat late with rfl | ⟨late, last, rfl⟩
    · obtain ⟨rfl, hlast⟩ := List.append_inj' hsplit rfl
      obtain rfl : new = command := by simpa using hlast
      exact ⟨log, x, issued, [], by simp, hidle, hissued, h⟩
    · rw [List.concat_eq_append, ← List.cons_append, ← List.append_assoc] at hsplit
      obtain ⟨rfl, -⟩ := List.append_inj' hsplit rfl
      obtain ⟨before, poll, issued', after, hlog, hrest⟩ := ih rfl
      exact ⟨before, poll, issued', after ++ issued, by rw [hlog]; simp, hrest⟩

end Streamed

/-! ## The bytes of a command -/

/-- The transactions of a command: writes are enabled, then opcode and offset are sent, most
significant byte first, and the page after them. -/
inductive Encodes : Command → List (List SpiOp) → Prop
  | erase {offset : UInt32} {a2 a1 a0 : UInt8}
    (h : a2.toNat * 65536 + a1.toNat * 256 + a0.toNat = offset.toNat) :
    Encodes (.erase offset) [[.write [0x06]], [.write [0x20, a2, a1, a0]]]
  | program {offset : UInt32} {a2 a1 a0 : UInt8} {data : List UInt8}
    (h : a2.toNat * 65536 + a1.toNat * 256 + a0.toNat = offset.toNat) (hdata : data.length = 256) :
    Encodes (.program offset data) [[.write [0x06]], [.write [0x02, a2, a1, a0], .write data]]

/-- Three bytes are enough for the offsets of a part of at most 16 MiB. -/
theorem Command.Within.encodes {l : Layout} {command : Command} (h : command.Within l)
    (hsize : l.flashBytes.toNat ≤ 0x1000000) : Encodes command command.transactions := by
  cases command with
  | erase offset =>
    obtain ⟨-, -, hend⟩ := h
    exact .erase (Firmware.SpiChip.offsetOf_byte (by omega))
  | program offset data =>
    obtain ⟨-, -, hend, hdata⟩ := h
    exact .program (Firmware.SpiChip.offsetOf_byte (by omega)) hdata

/-- The address bytes tell the blocks of such a part apart. -/
theorem Layout.eq_of_address_eq {l : Layout} (hv : l.Valid)
    (hsize : l.flashBytes.toNat ≤ 0x1000000) {j k : UInt32} (hj : j.toNat < l.blocks)
    (hk : k.toNat < l.blocks)
    (h : (Word.toBE (l.offset j)).drop 1 = (Word.toBE (l.offset k)).drop 1) : j = k := by
  have hjoff := hv.blockOffset_le hj
  have hkoff := hv.blockOffset_le hk
  have hbytes : Firmware.SpiChip.offsetOf (Word.byte (l.offset j) 2) (Word.byte (l.offset j) 1)
      (Word.byte (l.offset j) 0) = Firmware.SpiChip.offsetOf (Word.byte (l.offset k) 2)
      (Word.byte (l.offset k) 1) (Word.byte (l.offset k) 0) := by
    simp only [Word.toBE, List.drop_succ_cons, List.drop_zero, List.cons.injEq, and_true] at h
    rw [h.1, h.2.1, h.2.2]
  rw [← toNat_offset hv hj] at hjoff
  rw [← toNat_offset hv hk] at hkoff
  rw [Firmware.SpiChip.offsetOf_byte (by omega), Firmware.SpiChip.offsetOf_byte (by omega),
    toNat_offset hv hj, toNat_offset hv hk] at hbytes
  unfold blockOffset at hbytes
  exact UInt32.toNat_inj.mp (by omega)

/-- The parts of all boards have offsets of three bytes. -/
theorem Board.flashBytes_le (b : Board) : b.layout.flashBytes.toNat ≤ 0x1000000 := by
  cases b <;> decide

/-! ## Runs -/

instance {σ : Type} [TickSource σ] : TickSource (LossySpi σ) where
  now s :=
    let (now, inner) := TickSource.now s.inner
    (now, { s with inner })

namespace LossyNor

variable {σ : Type}

/-- The world changes the bus as it likes, without a transaction. -/
def world (act : σ → σ) (s : Traced (LossyNor σ)) : Traced (LossyNor σ) :=
  { s with inner.bus.inner := act s.inner.bus.inner }

/-- The commands that a controller received lie in the region and are on its bus. -/
structure Carries (l : Layout) (s : Traced (LossyNor σ)) : Prop where
  within : ∀ command ∈ s.commands, command.Within l
  streamed : Streamed s.commands s.inner.bus.log

/-- The last transaction showed an idle part. -/
def LooksIdle (s : Traced (LossyNor σ)) : Prop :=
  ∃ log x, s.inner.bus.log = log ++ [x] ∧ x.showsIdle

variable {l : Layout} {s s' : Traced (LossyNor σ)}

/-- What leaves the commands and the bus log alone keeps them together. -/
theorem Carries.of_eq (h : Carries l s) (hcommands : s'.commands = s.commands)
    (hlog : s'.inner.bus.log = s.inner.bus.log) : Carries l s' :=
  ⟨hcommands ▸ h.within, hcommands ▸ hlog ▸ h.streamed⟩

variable [SpiDevice σ] [XipWindow σ]

/-- A poll adds one transaction and no command. -/
theorem Carries.poll (h : Carries l s) : Carries l (Controller.isBusy s).2 := by
  have hlog : (Controller.isBusy s).2.inner.bus.log =
      s.inner.bus.log ++ [s.inner.bus.exchange SpiNor.statusRead] := by
    show (SpiNor.isBusy s.inner).2.bus.log = _
    rw [isBusy_eq]
    exact (transact_adds _ _).log_eq
  have hcommands : (Controller.isBusy s).2.commands = s.commands := by
    rw [Traced.commands, Traced.trace_isBusy, List.filterMap_append]
    exact List.append_nil _
  refine ⟨hcommands ▸ h.within, ?_⟩
  rw [hcommands, hlog]
  exact h.streamed.poll rfl

/-- An idle answer is one that was seen on the bus. -/
theorem looksIdle_of_isBusy (h : (Controller.isBusy s).1 = false) :
    LooksIdle (Controller.isBusy s).2 := by
  have hanswer : (!(s.inner.bus.exchange SpiNor.statusRead).showsIdle) = false := by
    have hbusy : (SpiNor.isBusy s.inner).1 = false := h
    rwa [isBusy_eq] at hbusy
  refine ⟨s.inner.bus.log, s.inner.bus.exchange SpiNor.statusRead, ?_, by simpa using hanswer⟩
  show (SpiNor.isBusy s.inner).2.bus.log = _
  rw [isBusy_eq]
  exact (transact_adds _ _).log_eq

/-- A command after an idle answer adds its pair. -/
theorem Carries.issue (h : Carries l s) (hidle : LooksIdle s) {command : Command}
    (hwithin : command.Within l) : Carries l (Controller.issue command s) := by
  obtain ⟨log, x, hlog, hx⟩ := hidle
  obtain ⟨issued, hissued, hadds⟩ := s.inner.issue_adds command
  have hcommands : (Controller.issue command s).commands = s.commands ++ [command] := by
    rw [Traced.commands, Traced.trace_issue, List.filterMap_append]
    rfl
  constructor
  · intro c hc
    rw [hcommands] at hc
    rcases List.mem_append.mp hc with hc | hc
    · exact h.within c hc
    · rwa [List.mem_singleton.mp hc]
  · -- The log before the command ends in the poll that showed the part idle.
    rw [hcommands, Traced.inner_issue, hadds.log_eq, hlog]
    exact .command command (hlog ▸ h.streamed) hx hissued

/-- Every operation of a disk keeps the commands of a controller on its bus. -/
theorem Carries.lockstep [TickSource σ] (l : Layout) (patience : Patience) :
    Lockstep l patience (fun _ => True) fun _ (s t : Traced (LossyNor σ)) =>
      s = t ∧ Carries l s := by
  -- Switching modes and reading the window are neither commands nor transactions.
  have hquiet : ∀ {signal : Signal} {s s' : Traced (LossyNor σ)}, Carries l s →
      signal.command? = none → s'.trace = s.trace ++ [signal] →
      s'.inner.bus.log = s.inner.bus.log → Carries l s' := by
    intro signal s s' h hsignal htrace hlog
    refine h.of_eq ?_ hlog
    rw [Traced.commands, htrace, List.filterMap_append]
    simp [hsignal, Traced.commands]
  refine .ofInvariant (fun h => hquiet h rfl rfl rfl) (fun h => hquiet h rfl rfl rfl) ?_
    (fun h => hquiet h rfl rfl rfl)
  -- A command is issued right after the poll that ends its first wait.
  intro command s hwithin h
  exact execute_keeps (J := fun s => Carries l s ∧ LooksIdle s)
    (fun s hs => hs.of_eq rfl rfl) (fun s hs _ => hs.poll)
    (fun s hs hanswer => ⟨hs.poll, looksIdle_of_isBusy hanswer⟩)
    (fun s hs => hs.1.issue hs.2 hwithin) (fun s hs => hs.1) patience h

end LossyNor

/-- **The command stream.** Whatever is requested, whatever the status register answers, wherever
waits are given up and whichever transactions fail: without the polls the bus has carried the pairs
of the commands that the controller received, in order and whole, each right after a poll that
showed an idle part. On a board the address of a pair is the offset, so that no two blocks share
one. -/
theorem Disk.command_stream {σ : Type} [SpiDevice σ] [XipWindow σ] [TickSource σ] (b : Board)
    (policy : ErasePolicy) (patience : Patience) (bus : σ) (lost : Nat → Bool)
    (events : List (Event Request (σ → σ))) :
    let d := state (runAll serve (world LossyNor.world) events
      (fresh b.layout b.layout_valid policy patience { inner.bus := { inner := bus, lost } }))
    let commands := d.device.commands
    let log := d.device.inner.bus.log
    workOps log = commands.flatMap Command.transactions ∧
      (∀ command ∈ commands, Encodes command command.transactions) ∧
      (∀ early command late, commands = early ++ command :: late →
        ∃ before poll issued after, log = before ++ poll :: (issued ++ after) ∧
          poll.showsIdle ∧ issued.map (·.ops) = command.transactions ∧
          workOps before = early.flatMap Command.transactions) ∧
      ∀ j k : UInt32, j.toNat < b.layout.blocks → k.toNat < b.layout.blocks →
        (Word.toBE (b.layout.offset j)).drop 1 = (Word.toBE (b.layout.offset k)).drop 1 →
        j = k := by
  intro d commands log
  have hstart : LossyNor.Carries b.layout
      ({ inner.bus := { inner := bus, lost } } : Traced (LossyNor σ)) := ⟨nofun, .nil⟩
  have hcarries : LossyNor.Carries b.layout d.device :=
    runAll_keeps b.layout_valid b.windowFits policy (LossyNor.Carries.lockstep b.layout patience)
      LossyNor.world (fun _ _ _ h => h.of_eq rfl rfl) _ hstart events
  refine ⟨hcarries.streamed.workOps_eq,
    fun command hmem => (hcarries.within command hmem).encodes b.flashBytes_le, ?_,
    fun j k hj hk => Layout.eq_of_address_eq b.layout_valid b.flashBytes_le hj hk⟩
  intro early command late hsplit
  obtain ⟨before, poll, issued, after, hlog, hidle, hissued, hearly⟩ :=
    hcarries.streamed.split hsplit
  have hpoll : poll.isPoll := (Bool.and_eq_true _ _ ▸ hidle).1
  refine ⟨before, poll, issued, after, hlog, hidle, hissued, ?_⟩
  rw [← hearly.workOps_eq, workOps_append, workOps_of_poll hpoll, List.append_nil]

/-- Time on a scripted bus passes with its transactions. -/
instance : TickSource ScriptedSpi where
  now s := (UInt32.ofNat s.transactions, s)

/-- A write that is given up before its command, and one that is not. -/
theorem Disk.command_stream_after_timeout :
    let block := List.replicate 256 (0x5A : UInt8)
    let d := state (runAll serve (world LossyNor.world)
      [.call (.write block 1 1), .call (.write block 2 1)]
      (fresh Board.orangeCart.layout Board.orangeCart.layout_valid .onSectorStart { timeout := 2 }
        { inner.bus := { inner := ({ replies := [1, 1, 1, 1] } : ScriptedSpi),
                         lost := fun _ => false } }))
    d.device.commands = [.program 0x80200 block] ∧
      ∃ before poll issued after,
        d.device.inner.bus.log = before ++ poll :: (issued ++ after) ∧ poll.showsIdle ∧
          issued.map (·.ops) = (Command.program 0x80200 block).transactions ∧
          workOps before = [] := by
  intro block d
  have hcommands : d.device.commands = [.program 0x80200 block] := by decide +kernel
  obtain ⟨-, -, hpreceded, -⟩ := Disk.command_stream Board.orangeCart .onSectorStart
    { timeout := 2 } ({ replies := [1, 1, 1, 1] } : ScriptedSpi) (fun _ => false)
    [.call (.write block 1 1), .call (.write block 2 1)]
  obtain ⟨before, poll, issued, after, hlog, hrest⟩ := hpreceded [] _ [] hcommands
  refine ⟨hcommands, before, poll, issued, after, ?_, hrest⟩
  -- The two logs are one; unfolding them would execute the run.
  with_reducible exact hlog

end NorDisk
