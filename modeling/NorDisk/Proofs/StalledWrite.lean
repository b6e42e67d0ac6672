import NorDisk.Proofs.CommandTraces

/-!
# Where a write at once stopped

A write at once that stalls names the offset of the command on which the part stalled. Everything
before that command was done and seen complete, nothing after it was issued. The command itself was
issued or not: each command has a wait before it and a wait after it, and the write may end in
either. So the memory is what the first commands make of it, with or without this one.

* **`Command.InSector`** — the bytes of the sector of a command, which it does not leave.
* **`Disk.StoppedAt`** — a write that stopped at command `k` of its list.
* **`stalled_write_stops`** — every write at once that stalls, on any clock.
-/

namespace NorDisk

open Outcome Memory

namespace Command

/-- Is byte `j` in the sector of the command? -/
def InSector (command : Command) (j : Nat) : Prop := j / 4096 = command.offset.toNat / 4096

/-- A command reaches bytes of its sector only. -/
theorem Touches.inSector {command : Command} {j : Nat} (h : command.Touches j) :
    command.InSector j := by
  cases command with
  | erase offset =>
    have hbase := toNat_sectorBase offset
    obtain ⟨hlow, hhigh⟩ := h
    show j / 4096 = offset.toNat / 4096
    omega
  | program offset data =>
    obtain ⟨hlow, hhigh⟩ := h
    show j / 4096 = offset.toNat / 4096
    omega

/-- Commands leave the bytes outside of their sectors. -/
theorem byteAt_applyAll_of_not_inSector {commands : List Command} {memory : ByteArray} {j : Nat}
    (h : ∀ command ∈ commands, ¬ command.InSector j) :
    byteAt (applyAll commands memory) j = byteAt memory j :=
  byteAt_applyAll_of_not_touches fun command hmem htouches => h command hmem htouches.inSector

end Command

/-- No check refuses a request as stalled. -/
theorem Layout.refusal?_ne_stalled (l : Layout) (lba count : UInt32) (room : Nat)
    (offset : UInt32) : l.refusal? lba count room ≠ some (.stalled offset) := by
  unfold Layout.refusal?
  repeat' split
  all_goals simp

namespace Disk

variable {τ : Type} {d d' : Disk (Traced (Timed τ))} {commands : List Command}

/-- A write stopped at command `k` of its commands; `issued` tells whether it was issued. -/
structure StoppedAt (d : Disk (Traced (Timed τ))) (commands : List Command)
    (k : Fin commands.length) (issued : Bool) (d' : Disk (Traced (Timed τ))) : Prop where
  /-- The commands before it were seen complete; nothing comes after the wait that was given up. -/
  trace_eq : ∃ done last, SeenThrough (commands.take k) done ∧ StalledOn commands[k] issued last ∧
    d'.device.trace = d.device.trace ++ .enterCommand :: (done ++ last)
  memory_eq : d'.memory = Command.applyAll (commands.take (k + issued.toNat)) d.memory
  /-- Bytes outside of the sectors of those commands stay. -/
  elsewhere : ∀ j, (∀ command ∈ commands.take (k + issued.toNat), ¬ command.InSector j) →
    byteAt d'.memory j = byteAt d.memory j

/-- A command on which the part stalled after others has its place in the list after theirs. -/
theorem StoppedAt.of_stopped {sent : List Command} {command : Command} {issued : Bool}
    (hfront : sent ++ [command] <+: commands)
    (h : d'.device.Stopped d.commandStart d.memory sent command issued) :
    ∃ k : Fin commands.length, commands[k] = command ∧ d.StoppedAt commands k issued d' := by
  obtain ⟨rest, rfl⟩ := hfront
  have hlength : sent.length < (sent ++ [command] ++ rest).length := by simp
  have hget : (sent ++ [command] ++ rest)[sent.length] = command := by simp
  have hsent : (sent ++ [command] ++ rest).take sent.length = sent := by simp
  -- The commands that were applied are a front of the list, one longer if the last one was issued.
  have happlied : (sent ++ [command] ++ rest).take (sent.length + issued.toNat) =
      if issued then sent ++ [command] else sent := by
    cases issued with
    | false => exact hsent
    | true => exact List.take_left' (by simp)
  have hmemory : d'.memory = Command.applyAll
      ((sent ++ [command] ++ rest).take (sent.length + issued.toNat)) d.memory := by
    rw [happlied]
    exact h.memory_eq
  obtain ⟨done, last, hdone, hlast, htrace⟩ := h.trace_eq
  refine ⟨⟨sent.length, hlength⟩, hget, ⟨done, last, ?_, ?_, ?_⟩, hmemory, ?_⟩
  · show SeenThrough ((sent ++ [command] ++ rest).take sent.length) done
    rw [hsent]
    exact hdone
  · show StalledOn (sent ++ [command] ++ rest)[sent.length] issued last
    rw [hget]
    exact hlast
  · rw [htrace, commandStart, List.append_assoc]
    rfl
  · intro j hj
    rw [hmemory]
    exact Command.byteAt_applyAll_of_not_inSector hj

end Disk

/-- **A stalled write stops at one of its commands.** The refusal names the offset of that command,
the commands before it were executed, and nothing else was. -/
theorem stalled_write_stops {τ : Type} [TickSource τ] {d d' : Disk (Traced (Timed τ))}
    {source : List UInt8} {lba count offset : UInt32} (hpolicy : d.store.policy = .onSectorStart)
    (hstall : Disk.writeBlocks source lba count d = .error (.refused (.stalled offset)) d') :
    let commands := d.store.layout.requestCommands source lba.toNat count.toNat
    ∃ (k : Fin commands.length) (issued : Bool), offset = commands[k].offset ∧
      d.StoppedAt commands k issued d' := by
  intro commands
  have hcount : count ≠ 0 := by
    rintro rfl
    exact nomatch hstall
  have hserved := Disk.writeBlocks_served hpolicy source lba hcount
  rw [hstall] at hserved
  -- The reason is in the request, or in one of its commands; a stall is no check.
  rcases hserved with ⟨error, herror, hrefusal⟩ | ⟨sent, command, hfront, hhalted⟩
  · obtain rfl : FlashError.stalled offset = error := by simpa using herror
    exact absurd hrefusal (Layout.refusal?_ne_stalled _ _ _ _ _)
  · rcases hhalted with hstuck | ⟨hoffset, issued, hstopped⟩
    · exact nomatch hstuck
    · obtain rfl : offset = command.offset := by simpa using hoffset
      obtain ⟨k, hcommand, hstoppedAt⟩ := Disk.StoppedAt.of_stopped hfront hstopped
      exact ⟨k, issued, by rw [hcommand], hstoppedAt⟩

/-- A clock that shows given readings, and then zero. -/
structure ScriptedClock where
  readings : List UInt32

instance : TickSource ScriptedClock where
  now clock := (clock.readings.headD 0, ⟨clock.readings.tail⟩)

/-- Two blocks across the start of a sector; the clock jumps while the sector is erased. -/
theorem stalled_write_stops_at_erase :
    let start : Disk (Traced (Timed ScriptedClock)) := .fresh Board.orangeCrabR01.layout
      Board.orangeCrabR01.layout_valid .onSectorStart { timeout := 8, polls := 16 }
      { inner := ⟨.blank 0x100000, ⟨[0, 0, 0, 0, 0, 9]⟩⟩ }
    let source : List UInt8 := List.replicate 512 0x5A
    let commands := start.store.layout.requestCommands source 15 2
    ∃ d', start.store.policy = .onSectorStart ∧
      Disk.writeBlocks source 15 2 start = .error (.refused (.stalled 0x81000)) d' ∧
      ∃ (k : Fin commands.length) (issued : Bool), 0x81000 = commands[k].offset ∧
        start.StoppedAt commands k issued d' := by
  intro start source commands
  have hstall : Meets (fun _ _ => False) (fun fault _ => fault = .refused (.stalled 0x81000))
      (Disk.writeBlocks source 15 2 start) := by decide +kernel
  obtain ⟨d', hwrite⟩ := hstall.eq_error
  exact ⟨d', rfl, hwrite, stalled_write_stops rfl hwrite⟩

end NorDisk
