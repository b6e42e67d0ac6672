import NorDisk.Proofs.AnsweredRequests
import NorDisk.Proofs.CommandTraces

/-!
# Writes in two parts

It does not matter whether blocks are written by one request or by two, wherever the cut is. The
requests are cut into other runs, since a second request starts a run where it begins, but both come
to the same blocks one after the other (`writeThrough_eq`, `writeStaged_eq`), and lists of blocks
are appended. All that a second request adds is that the disk switches to commands again, and a part
that serves commands shows that in its log only.

* **`Timed.sameButLog_bisimulation`** — parts that differ in their logs answer alike.
* **`Disk.stageEach_append`**, **`Disk.writeEach_append`** — what the two policies do with a
  list of blocks that is cut in two.
* **`Disk.writeBlocks_split`** — the two ways to write end alike, also when they fail.
* **`split_write_agrees`** — on a part that never stalls both succeed.
-/

namespace NorDisk

open Outcome Signal

/-! ## Parts that differ in their logs -/

namespace NorPart

variable {p q : NorPart}

/-- A log entry is not seen without the log. -/
@[simp] theorem clearLog_record (primitive : Primitive) (p : NorPart) :
    (p.record primitive).clearLog = p.clearLog := by
  unfold record
  split <;> rfl

/-- Whether a part accepts does not depend on its log. -/
theorem accept_clearLog (p : NorPart) :
    p.clearLog.accept = (p.accept.1, p.accept.2.clearLog) := by
  have hmode : p.clearLog.mode = p.mode := rfl
  have hstalled : p.clearLog.stalled = p.stalled := rfl
  have hleft : p.clearLog.busyLeft = p.busyLeft := rfl
  unfold accept
  rw [hmode, hstalled, hleft]
  split
  · rfl
  · split <;> rfl

/-- Whether a part is busy does not depend on its log. -/
theorem isBusy_clearLog (p : NorPart) :
    p.clearLog.isBusy = (p.isBusy.1, p.isBusy.2.clearLog) := by
  rw [isBusy_eq, isBusy_eq]
  rfl

/-- Whether a command is taken, and what it does then, does not depend on the log. -/
theorem clearLog_taken (h : p.clearLog = q.clearLog) (primitive primitive' : Primitive)
    {f : NorPart → NorPart} (hf : ∀ p, (f p).clearLog = (f p.clearLog).clearLog) :
    (match (p.record primitive).accept with
      | (false, p) => p
      | (true, p) => f p).clearLog =
      (match (q.record primitive').accept with
        | (false, p) => p
        | (true, p) => f p).clearLog := by
  have haccept : ((p.record primitive).accept.1, (p.record primitive).accept.2.clearLog) =
      ((q.record primitive').accept.1, (q.record primitive').accept.2.clearLog) := by
    rw [← accept_clearLog, ← accept_clearLog, clearLog_record, clearLog_record, h]
  obtain ⟨hanswer, hpart⟩ := Prod.mk.inj haccept
  -- Both take the command or both ignore it, for their answers are the same.
  match hp : (p.record primitive).accept, hq : (q.record primitive').accept with
  | (false, p'), (false, q') => simpa [hp, hq] using hpart
  | (true, p'), (true, q') =>
    rw [hf p', hf q']
    simpa [hp, hq] using congrArg (fun p => (f p).clearLog) hpart
  | (false, p'), (true, q') => simp [hp, hq] at hanswer
  | (true, p'), (false, q') => simp [hp, hq] at hanswer

/-- A switch of the mode shows in the log only. -/
theorem clearLog_switch (h : p.clearLog = q.clearLog) (primitive : Primitive) (mode : Mode) :
    ({ p.record primitive with mode } : NorPart).clearLog =
      ({ q.record primitive with mode } : NorPart).clearLog := by
  have hrecord : (p.record primitive).clearLog = (q.record primitive).clearLog := by
    rw [clearLog_record, clearLog_record, h]
  exact congrArg (fun p : NorPart => { p with mode }) hrecord

/-- What a command does to a part does not depend on the log. -/
theorem clearLog_issue (h : p.clearLog = q.clearLog) (command : Command) :
    (Controller.issue command p).clearLog = (Controller.issue command q).clearLog := by
  cases command with
  | erase offset => exact clearLog_taken h _ _ fun _ => rfl
  | program offset data => exact clearLog_taken h _ _ fun _ => rfl

/-- The bytes of a read, and what it leaves, do not depend on the log. -/
theorem clearLog_readMapped (h : p.clearLog = q.clearLog) (addr : UInt32) (len : Nat) :
    (readMapped addr len p).1 = (readMapped addr len q).1 ∧
      (readMapped addr len p).2.clearLog = (readMapped addr len q).2.clearLog := by
  have hrecord : (p.record (.read addr len)).clearLog = (q.record (.read addr len)).clearLog := by
    rw [clearLog_record, clearLog_record, h]
  -- The mode decides what is answered, and it is no part of the log.
  have hmode : (p.record (.read addr len)).mode = (q.record (.read addr len)).mode :=
    (congrArg mode hrecord :)
  have hmemory : (p.record (.read addr len)).memory = (q.record (.read addr len)).memory :=
    (congrArg memory hrecord :)
  unfold readMapped
  by_cases hserved : (q.record (.read addr len)).mode = .mapped
  · simp only [hmode, hserved, ne_eq, not_true_eq_false, if_false, hmemory]
    exact ⟨trivial, hrecord⟩
  · rw [if_pos (hmode ▸ hserved), if_pos hserved]
    exact ⟨rfl, congrArg (fun p : NorPart =>
      { p with misuse.readWhileCommand := p.misuse.readWhileCommand + 1 }) hrecord⟩

end NorPart

/-! ## Devices that differ in the logs of their parts -/

namespace Traced

variable {κ : Type} {s : Traced κ}

/-- A command is added to the list of commands. -/
theorem commands_issue [Controller κ] (command : Command) (s : Traced κ) :
    (Controller.issue command s).commands = s.commands ++ [command] := by
  rw [commands, trace_issue, List.filterMap_append]
  rfl

/-- What is no command does not show in the list of commands. -/
theorem commands_other {inner : κ} {signal : Signal} (h : command? signal = none) :
    commands ⟨inner, s.trace ++ [signal]⟩ = s.commands := by
  rw [commands, List.filterMap_append, List.filterMap_cons_none h]
  exact List.append_nil _

/-- What is no command keeps two lists of commands alike. -/
theorem commands_other_eq {κ' : Type} {t : Traced κ'} (h : s.commands = t.commands) {inner : κ}
    {inner' : κ'} {signal signal' : Signal} (hs : command? signal = none)
    (ht : command? signal' = none) :
    commands ⟨inner, s.trace ++ [signal]⟩ = commands ⟨inner', t.trace ++ [signal']⟩ := by
  rw [commands_other hs, commands_other ht, h]

end Traced

/-- Devices that answer alike do so behind traced controllers that received the same commands. -/
theorem Bisimulation.traced {σ τ : Type} [Controller σ] [TickSource σ] [Controller τ]
    [TickSource τ] {R : σ → τ → Prop} (h : Bisimulation R) :
    Bisimulation fun (s : Traced σ) (t : Traced τ) =>
      s.commands = t.commands ∧ R s.inner t.inner where
  enterMapped hst := ⟨Traced.commands_other_eq hst.1 rfl rfl, h.enterMapped hst.2⟩
  enterCommand hst := ⟨Traced.commands_other_eq hst.1 rfl rfl, h.enterCommand hst.2⟩
  issue command s t hst := by
    rw [Traced.commands_issue, Traced.commands_issue, Traced.inner_issue, Traced.inner_issue, hst.1]
    exact ⟨rfl, h.issue command hst.2⟩
  isBusy hst :=
    ⟨(h.isBusy hst.2).1, Traced.commands_other_eq hst.1 rfl rfl, (h.isBusy hst.2).2⟩
  now hst := ⟨(h.now hst.2).1, hst.1, (h.now hst.2).2⟩
  readMapped addr len _ _ hst :=
    ⟨(h.readMapped addr len hst.2).1, Traced.commands_other_eq hst.1 rfl rfl,
      (h.readMapped addr len hst.2).2⟩

variable {τ : Type}

/-- The clocks agree, and the parts in all but their logs: in the memory, the mode, the busy flag
and the counts. -/
structure Timed.SameButLog (s t : Timed τ) : Prop where
  part_eq : s.part.clearLog = t.part.clearLog
  ticks_eq : s.ticks = t.ticks

theorem Timed.sameButLog_bisimulation [TickSource τ] :
    Bisimulation fun s t : Timed τ => s.SameButLog t where
  enterMapped hst :=
    ⟨NorPart.clearLog_switch hst.part_eq .enterMapped .mapped, hst.ticks_eq⟩
  enterCommand hst :=
    ⟨NorPart.clearLog_switch hst.part_eq .enterCommand .command, hst.ticks_eq⟩
  issue command _ _ hst := by
    have hissue := NorPart.clearLog_issue hst.part_eq command
    cases command <;> exact ⟨hissue, hst.ticks_eq⟩
  isBusy := by
    intro s t hst
    have hbusy : s.part.clearLog.isBusy = t.part.clearLog.isBusy := congrArg _ hst.part_eq
    rw [NorPart.isBusy_clearLog, NorPart.isBusy_clearLog] at hbusy
    obtain ⟨hanswer, hpart⟩ := Prod.mk.inj hbusy
    exact ⟨hanswer, hpart, hst.ticks_eq⟩
  now := by
    intro s t hst
    have hnow : TickSource.now s.ticks = TickSource.now t.ticks := congrArg _ hst.ticks_eq
    obtain ⟨hreading, hticks⟩ := Prod.ext_iff.mp hnow
    exact ⟨hreading, hst.part_eq, hticks⟩
  readMapped addr len _ _ hst :=
    ⟨(NorPart.clearLog_readMapped hst.part_eq addr len).1,
      (NorPart.clearLog_readMapped hst.part_eq addr len).2, hst.ticks_eq⟩

/-- A part that serves commands shows in its log only that it is switched to commands. -/
theorem Traced.enterCommand_again {s : Traced (Timed τ)} (h : s.inner.part.mode = .command) :
    s.commands = (Controller.enterCommand s).commands ∧
      s.inner.SameButLog (Controller.enterCommand s).inner := by
  have hmode : { s.inner.part with mode := .command } = s.inner.part := by rw [← h]
  have hswitch : (Controller.enterCommand s).inner.part.clearLog =
      { (s.inner.part.record .enterCommand).clearLog with mode := .command } := rfl
  refine ⟨(commands_other rfl).symm, ?_, rfl⟩
  rw [hswitch, NorPart.clearLog_record]
  exact (congrArg NorPart.clearLog hmode).symm

namespace Disk

/-- The disks sent the same commands, with the same data, know the same (the stage and what is
pending of it included), and can only be told apart by the logs of their parts. -/
structure SameButLog (d e : Disk (Traced (Timed τ))) : Prop where
  store_eq : d.store = e.store
  commands_eq : d.device.commands = e.device.commands
  inner : d.device.inner.SameButLog e.device.inner

/-- A disk can be told apart from itself by nothing. -/
theorem SameButLog.refl (d : Disk (Traced (Timed τ))) : d.SameButLog d := ⟨rfl, rfl, rfl, rfl⟩

end Disk

/-! ## Blocks that are cut in two -/

/-- One request of some blocks is accepted, and so are two, of the first and of the other ones. -/
theorem Layout.refusal?_parts {l : Layout} {lba m n : UInt32} {source : List UInt8}
    (hrange : lba.toNat + (m.toNat + n.toNat) ≤ l.blocks)
    (hsource : 256 * (m.toNat + n.toNat) ≤ source.length) :
    (m + n).toNat = m.toNat + n.toNat ∧
      l.refusal? lba (m + n) source.length = none ∧
      l.refusal? lba m (source.take (256 * m.toNat)).length = none ∧
      l.refusal? (lba + m) n (source.drop (256 * m.toNat)).length = none := by
  have hblocks := blocks_lt l
  have hsum : (m + n).toNat = m.toNat + n.toNat := by
    rw [UInt32.toNat_add]
    omega
  have hnext : (lba + m).toNat = lba.toNat + m.toNat := by
    rw [UInt32.toNat_add]
    omega
  refine ⟨hsum, refusal?_eq_none (by omega) (by omega), refusal?_eq_none (by omega) ?_,
    refusal?_eq_none (by omega) ?_⟩
  · rw [List.length_take]
    omega
  · rw [List.length_drop]
    omega

namespace Disk

variable [TickSource τ] {d : Disk (Traced (Timed τ))} {lba m n : UInt32} {source : List UInt8}

/-- A disk that has switched to commands may do so again before it writes. -/
theorem writeEach_again (hstore : d.store.mode = .command)
    (hpart : d.device.inner.part.mode = .command) (lba : UInt32) (blocks : List (List UInt8)) :
    Agree (fun _ => True) SameButLog (fun _ => SameButLog)
      (onDevice (Controller.executeAll d.store.patience (d.store.layout.writes lba blocks)) d)
      (writeEach lba blocks d) := by
  have hsame : ({ d.store with mode := .command } : Store) = d.store := by rw [← hstore]
  rw [writeEach_eq, hsame]
  have hagree := Timed.sameButLog_bisimulation.traced.executeAll_agree d.store.patience
    (d.store.layout.writes lba blocks) (Traced.enterCommand_again hpart)
  apply Agree.mono (onDevice_agree hagree)
  · rintro - e e' ⟨he, he', hcommands, hinner⟩
    exact ⟨he.trans he'.symm, hcommands, hinner⟩
  · rintro e e' ⟨he, he', hcommands, hinner⟩
    exact ⟨he.trans he'.symm, hcommands, hinner⟩

/-- Writing some blocks at once, and writing the first and then the rest, end alike. -/
theorem writeEach_append (d : Disk (Traced (Timed τ))) (lba : UInt32)
    (blocks blocks' : List (List UInt8)) :
    Agree (fun _ => True) SameButLog (fun _ => SameButLog)
      (writeEach lba (blocks ++ blocks') d)
      ((writeEach lba blocks >>= fun _ =>
        writeEach (lba + UInt32.ofNat blocks.length) blocks') d) := by
  rw [writeEach_eq, Layout.writes_append, Controller.executeAll_append, onDevice_bind,
    Action.bind_apply, Action.bind_apply, writeEach_eq, ← Action.bind_apply, ← Action.bind_apply]
  -- Both sides begin with the commands of the first blocks.
  have hserved : Meets _ _ (Controller.executeAll d.store.patience
      (d.store.layout.writes lba blocks) (Controller.enterCommand d.device)) :=
    Traced.executeAll_served d.entered_served d.store.patience
  apply Action.Agree.bind
    (Agree.mono (onDevice_meets hserved).agree_self (fun _ _ _ h' => h') ?_)
  · -- The second write switches to commands once more, which its part shows in the log only.
    rintro - e _ ⟨rfl, hstore, hserved⟩
    have hagain := writeEach_again (congrArg Store.mode hstore) hserved.serves.1
      (lba + UInt32.ofNat blocks.length) blocks'
    rw [hstore] at hagain
    exact hagain
  · rintro e _ rfl
    exact .refl e

/-- What a policy does to write blocks. -/
def writeBy : ErasePolicy → UInt32 → List (List UInt8) →
    Action FlashError (Disk (Traced (Timed τ))) Unit
  | .onSectorStart => writeEach
  | .staged => stageEach

/-- A write that is not refused is what its policy does with its blocks. -/
theorem writeBlocks_eq_writeBy (hm : m ≠ 0)
    (h : d.store.layout.refusal? lba m source.length = none) :
    writeBlocks source lba m d =
      writeBy d.store.policy lba (Bytes.pieces 256 m.toNat source) d := by
  rw [writeBlocks_of_accepted hm h]
  cases d.store.policy <;> rfl

/-- Under either policy blocks may be written in two parts. -/
theorem writeBy_append (policy : ErasePolicy) (d : Disk (Traced (Timed τ))) (lba : UInt32)
    (blocks blocks' : List (List UInt8)) :
    Agree (fun _ => True) SameButLog (fun _ => SameButLog)
      (writeBy policy lba (blocks ++ blocks') d)
      ((writeBy policy lba blocks >>= fun _ =>
        writeBy policy (lba + UInt32.ofNat blocks.length) blocks') d) := by
  cases policy with
  | onSectorStart => exact writeEach_append d lba blocks blocks'
  | staged =>
    have happend : (writeBy .staged lba (blocks ++ blocks') :
        Action FlashError (Disk (Traced (Timed τ))) Unit) = _ := stageEach_append lba blocks blocks'
    rw [happend]
    exact .refl (fun _ => trivial) SameButLog.refl _

/-- A write reads as much of its source as it has blocks. -/
theorem writeBlocks_take
    (h : d.store.layout.refusal? lba m (source.take (256 * m.toNat)).length = none) :
    writeBlocks (source.take (256 * m.toNat)) lba m d = writeBlocks source lba m d := by
  by_cases hm : m = 0
  · subst hm
    rfl
  · -- The cut source has the bytes of all blocks, so the whole one has.
    obtain ⟨-, hrange, hroom⟩ := Layout.of_refusal?_eq_none hm h
    rw [List.length_take] at hroom
    have hwhole : d.store.layout.refusal? lba m source.length = none :=
      Layout.refusal?_eq_none hrange (by omega)
    rw [writeBlocks_of_accepted hm h, writeBlocks_of_accepted hm hwhole, Bytes.pieces_take]

/-- Two writes of some blocks each follow one policy. -/
theorem writeBlocks_twice (hm : m ≠ 0) (hn : n ≠ 0)
    (hfirst : d.store.layout.refusal? lba m (source.take (256 * m.toNat)).length = none)
    (hsecond : d.store.layout.refusal? (lba + m) n (source.drop (256 * m.toNat)).length = none) :
    (writeBlocks (source.take (256 * m.toNat)) lba m >>= fun _ =>
      writeBlocks (source.drop (256 * m.toNat)) (lba + m) n) d =
    (writeBy d.store.policy lba (Bytes.pieces 256 m.toNat source) >>= fun _ =>
      writeBy d.store.policy (lba + m)
        (Bytes.pieces 256 n.toNat (source.drop (256 * m.toNat)))) d := by
  have hcarried := writeBlocks_carried (Carrier.trivial d.store.patience) True.intro
    (source.take (256 * m.toNat)) lba m
  rw [← Bytes.pieces_take, Action.bind_apply (writeBy _ _ _), ← writeBlocks_eq_writeBy hm hfirst,
    ← Action.bind_apply]
  apply Action.bind_congr_of (hcarried.mono _ fun _ _ h => h)
  -- The second one finds the layout and the policy that the first one did.
  rintro - e ⟨-, he⟩
  rw [← he.continues.layout_eq] at hsecond
  rw [writeBlocks_eq_writeBy hn hsecond, he.continues.policy_eq]

/-- **Writes in two parts.** One write of some blocks, and two of the first and of the remaining
ones, end alike. -/
theorem writeBlocks_split (hrange : lba.toNat + (m.toNat + n.toNat) ≤ d.store.layout.blocks)
    (hsource : 256 * (m.toNat + n.toNat) ≤ source.length) :
    Agree (fun _ => True) SameButLog (fun _ => SameButLog)
      (writeBlocks source lba (m + n) d)
      ((writeBlocks (source.take (256 * m.toNat)) lba m >>= fun _ =>
        writeBlocks (source.drop (256 * m.toNat)) (lba + m) n) d) := by
  obtain ⟨hsum, hwhole, hfirst, hsecond⟩ := Layout.refusal?_parts hrange hsource
  by_cases hm : m = 0
  · subst hm
    have hnothing : writeBlocks (source.take (256 * (0 : UInt32).toNat)) lba 0 =
        (pure () : Action FlashError (Disk (Traced (Timed τ))) Unit) := rfl
    rw [UInt32.zero_add, UInt32.add_zero, hnothing, pure_bind]
    exact .refl (fun _ => trivial) SameButLog.refl _
  by_cases hn : n = 0
  · subst hn
    have hnothing : (fun _ : Unit => writeBlocks (source.drop (256 * m.toNat)) (lba + m) 0) =
        (pure : Unit → Action FlashError (Disk (Traced (Timed τ))) Unit) := rfl
    rw [UInt32.add_zero, hnothing, bind_pure, writeBlocks_take hfirst]
    exact .refl (fun _ => trivial) SameButLog.refl _
  have hzero : (0 : UInt32).toNat = 0 := rfl
  -- Both parts have blocks, and so has the whole.
  have hmn : m + n ≠ 0 := fun h => hm (UInt32.toNat_inj.mp (by rw [h] at hsum; omega))
  have happend := writeBy_append d.store.policy d lba (Bytes.pieces 256 m.toNat source)
    (Bytes.pieces 256 n.toNat (source.drop (256 * m.toNat)))
  rw [Bytes.length_pieces, UInt32.ofNat_toNat] at happend
  rw [writeBlocks_twice hm hn hfirst hsecond, writeBlocks_eq_writeBy hmn hwhole, hsum,
    Bytes.pieces_add]
  exact happend

end Disk

/-- **Splitting a write changes nothing.** On a part that never stalls one write of some blocks, and
two of the first and of the remaining ones, are done, with the same commands and the same memory,
and leave the same store and clock. -/
theorem split_write_agrees {τ : Type} [TickSource τ] {d : Disk (Traced (Timed τ))}
    {source : List UInt8} {lba m n : UInt32} (hwindow : d.store.layout.WindowFits)
    (hfits : d.StageFits) (hstalls : NeverStalls d.store.patience d.device.inner)
    (hrange : lba.toNat + (m.toNat + n.toNat) ≤ d.store.layout.blocks)
    (hsource : 256 * (m.toNat + n.toNat) ≤ source.length) :
    ∃ whole first second, Disk.writeBlocks source lba (m + n) d = .ok () whole ∧
      Disk.writeBlocks (source.take (256 * m.toNat)) lba m d = .ok () first ∧
      Disk.writeBlocks (source.drop (256 * m.toNat)) (lba + m) n first = .ok () second ∧
      whole.SameButLog second := by
  obtain ⟨-, haccepted, hfirst, hsecond⟩ := Layout.refusal?_parts hrange hsource
  obtain ⟨I, hc, hI⟩ := hstalls.traced
  -- On a part that never stalls each of the three writes is answered.
  obtain ⟨whole, hwhole, -⟩ := Disk.writeBlocks_answered hc hI haccepted
    fun _ => ⟨hwindow, hfits⟩
  obtain ⟨first, hfirst, hcarried, hstage⟩ := Disk.writeBlocks_answered hc hI hfirst
    fun _ => ⟨hwindow, hfits⟩
  rw [← hcarried.continues.layout_eq] at hwindow hsecond
  rw [← hcarried.continues.patience_eq] at hc
  obtain ⟨second, hsecond, -⟩ := Disk.writeBlocks_answered hc hcarried.device hsecond
    fun _ => ⟨hwindow, hstage hfits⟩
  have hsplit := Disk.writeBlocks_split hrange hsource
  rw [hwhole, Action.bind_apply, hfirst] at hsplit
  simp only [hsecond] at hsplit
  exact ⟨whole, first, second, hwhole, hfirst, hsecond, hsplit.2⟩

/-- Blocks up to the middle of the next sector, cut in the middle of the first one, into the staged
sector; the clock wraps. -/
theorem split_write_agrees_in_sector :
    let d : Disk (Traced (Timed StepClock)) := .fresh Board.orangeCrabR01.layout
      Board.orangeCrabR01.layout_valid .staged { timeout := 8, polls := 16 }
      { inner := ⟨{ NorPart.blank 0x100000 with busyPolls := 2 }, ⟨0xFFFFFFFF, 1⟩⟩ }
    let source : List UInt8 := List.replicate 5120 0x5A
    d.store.layout.WindowFits ∧ d.StageFits ∧ NeverStalls d.store.patience d.device.inner ∧
      (2 : UInt32).toNat + ((5 : UInt32).toNat + (15 : UInt32).toNat) ≤ d.store.layout.blocks ∧
      256 * ((5 : UInt32).toNat + (15 : UInt32).toNat) ≤ source.length ∧
      ∃ whole first second, Disk.writeBlocks source 2 (5 + 15) d = .ok () whole ∧
        Disk.writeBlocks (source.take (256 * (5 : UInt32).toNat)) 2 5 d = .ok () first ∧
        Disk.writeBlocks (source.drop (256 * (5 : UInt32).toNat)) (2 + 5) 15 first =
          .ok () second ∧
        whole.SameButLog second := by
  intro d source
  have hwindow : d.store.layout.WindowFits := by decide
  have hfits : d.StageFits := Disk.fresh_stageFits _ _ _ _
  have hhealthy : d.device.inner.bench.Healthy d.store.patience 2 :=
    ⟨⟨rfl, by decide, by decide⟩, ⟨by decide, by decide, by decide⟩, by decide⟩
  have hrange : (2 : UInt32).toNat + ((5 : UInt32).toNat + (15 : UInt32).toNat) ≤
      d.store.layout.blocks := by decide
  have hsource : 256 * ((5 : UInt32).toNat + (15 : UInt32).toNat) ≤ source.length := by
    rw [List.length_replicate]
    decide
  exact ⟨hwindow, hfits, hhealthy.neverStalls, hrange, hsource,
    split_write_agrees hwindow hfits hhealthy.neverStalls hrange hsource⟩

end NorDisk
