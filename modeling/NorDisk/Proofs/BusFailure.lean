import Mathlib.Data.List.Forall2
import NorDisk.Proofs.RequestOutcomes
import NorDisk.ScriptedSpi

/-!
# Transactions that fail on the bus

A command is two transactions between polls of the status register: one enables writes, the other
starts the work. A poll that fails counts as busy. The outcome of the other two goes into the
failure count and nowhere else, so a request that is done does not say that its commands reached the
part; the count does.

* **`LossySpi`** — any bus, with a log of its transactions, that loses some of them.
* **`Waited`**, **`Executed`** — the transactions of a wait, and of commands that were seen through.
* **`Disk.serve_executes`** — what a request that is answered did on the bus.
* **`Disk.done_despite_lost_commands`** — the answer is the same whichever commands were lost.
-/

namespace NorDisk

open Outcome

/-- The transaction that reads the status register. -/
def SpiNor.statusRead : List SpiOp := [.write [Opcode.readStatus], .read 1]

/-- The transactions of a command. -/
def Command.transactions : Command → List (List SpiOp)
  | .erase offset =>
    [[.write [Opcode.writeEnable]], [.write (addressCommand Opcode.sectorErase offset)]]
  | .program offset data =>
    [[.write [Opcode.writeEnable]],
      [.write (addressCommand Opcode.pageProgram offset), .write data]]

/-- No transaction of a command reads the status. -/
theorem Command.ne_statusRead {command : Command} {ops : List SpiOp}
    (h : ops ∈ command.transactions) : ops ≠ SpiNor.statusRead := by
  cases command with
  | erase offset =>
    rcases List.mem_pair.mp h with rfl | rfl
    · decide
    · exact fun heq => nomatch heq
  | program offset data =>
    rcases List.mem_pair.mp h with rfl | rfl
    · decide
    · exact fun heq => nomatch heq

/-- A transaction and what it received, which is `none` if it failed. -/
structure Exchange where
  ops : List SpiOp
  received : Option (List (List UInt8))
deriving DecidableEq, Repr

namespace Exchange

/-- Does the transaction read the status register? -/
def isPoll (x : Exchange) : Bool := x.ops == SpiNor.statusRead

def failed (x : Exchange) : Bool := x.received.isNone

/-- Does the transaction show that the part is idle? -/
def showsIdle (x : Exchange) : Bool :=
  x.isPoll && x.received.any fun received => received.flatten.headD 0 &&& 1 = 0

/-- One transaction in two runs; a poll has the same outcome in both. -/
def Alike (x y : Exchange) : Prop := x.ops = y.ops ∧ (x.isPoll → x.received = y.received)

/-- Is the transaction one of a list of commands? -/
def OfCommand (commands : List Command) (x : Exchange) : Prop :=
  ∃ command ∈ commands, x.ops ∈ command.transactions

end Exchange

/-! ## What a wait and a command look like on the bus -/

/-- The transactions of a wait: polls up to the first that shows an idle part. -/
inductive Waited : List Exchange → Prop
  | idle {x} (h : x.showsIdle) : Waited [x]
  | busy {x rest} (hpoll : x.isPoll) (h : ¬ x.showsIdle) (hrest : Waited rest) : Waited (x :: rest)

/-- A wait is made of polls. -/
theorem Waited.isPoll {log : List Exchange} (h : Waited log) {x : Exchange} (hx : x ∈ log) :
    x.isPoll := by
  induction h with
  | idle h =>
    obtain rfl := List.mem_singleton.mp hx
    exact (Bool.and_eq_true _ _ ▸ h).1
  | busy hpoll _ _ ih =>
    rcases List.mem_cons.mp hx with rfl | hx
    · exact hpoll
    · exact ih hx

/-- The transactions of commands that were executed in order. -/
inductive Executed : List Command → List Exchange → Prop
  | nil : Executed [] []
  | cons {command rest before issued after later} (hbefore : Waited before)
      (hissued : issued.map (·.ops) = command.transactions) (hafter : Waited after)
      (hlater : Executed rest later) :
      Executed (command :: rest) (before ++ (issued ++ (after ++ later)))

/-- Commands can be executed one list after another. -/
theorem Executed.append {commands commands' : List Command} {log log' : List Exchange}
    (h : Executed commands log) (h' : Executed commands' log') :
    Executed (commands ++ commands') (log ++ log') := by
  induction h with
  | nil => exact h'
  | cons hbefore hissued hafter _ ih =>
    rw [List.append_assoc, List.append_assoc, List.append_assoc]
    exact .cons hbefore hissued hafter ih

/-- Whatever is not a poll belongs to a command. -/
theorem Executed.ofCommand_iff {commands : List Command} {log : List Exchange}
    (h : Executed commands log) {x : Exchange} (hx : x ∈ log) :
    x.OfCommand commands ↔ ¬ x.isPoll := by
  constructor
  · intro hcommand hpoll
    obtain ⟨command, -, hops⟩ := hcommand
    exact Command.ne_statusRead hops (by simpa [Exchange.isPoll] using hpoll)
  · intro hpoll
    induction h with
    | nil => exact absurd hx List.not_mem_nil
    | @cons command _ _ _ _ _ hbefore hissued hafter _ ih =>
      simp only [List.mem_append] at hx
      -- A transaction is of the wait before, of the command, of the wait after, or of a later
      -- command.
      rcases hx with hx | hx | hx | hx
      · exact absurd (hbefore.isPoll hx) hpoll
      · exact ⟨command, List.mem_cons_self, hissued ▸ List.mem_map_of_mem hx⟩
      · exact absurd (hafter.isPoll hx) hpoll
      · obtain ⟨later, hlater, hops⟩ := ih hx
        exact ⟨later, List.mem_cons_of_mem _ hlater, hops⟩

/-! ## A bus that loses transactions -/

/-- A bus with a log. Some transactions get lost on it, but no status read does. -/
structure LossySpi (σ : Type) where
  inner : σ
  /-- Does the transaction of this number get lost, if it is not a status read? -/
  lost : Nat → Bool
  log : List Exchange := []

namespace LossySpi

variable {σ : Type} [SpiDevice σ]

/-- What a transaction comes to. -/
def exchange (ops : List SpiOp) (s : LossySpi σ) : Exchange where
  ops := ops
  received :=
    if s.lost s.log.length && ops != SpiNor.statusRead then none
    else (SpiDevice.transaction ops s.inner).1

instance : SpiDevice (LossySpi σ) where
  transaction ops s :=
    ((s.exchange ops).received,
      { s with
        inner := (SpiDevice.transaction ops s.inner).2
        log := s.log ++ [s.exchange ops] })

instance [XipWindow σ] : XipWindow (LossySpi σ) where
  setMapped mapped s := { s with inner := XipWindow.setMapped mapped s.inner }
  readWindow addr len s :=
    let (bytes, inner) := XipWindow.readWindow addr len s.inner
    (bytes, { s with inner })
  length_readWindow addr len s := XipWindow.length_readWindow addr len s.inner

end LossySpi

/-- A controller on a lossy bus. -/
abbrev LossyNor (σ : Type) := SpiNor (LossySpi σ)

namespace LossyNor

variable {σ : Type} {c c₁ c₂ : LossyNor σ} {more later : List Exchange}

/-- From `c` to `c'` the bus has run the transactions of `more`, and every failure was counted. -/
structure Adds (c : LossyNor σ) (more : List Exchange) (c' : LossyNor σ) : Prop where
  log_eq : c'.bus.log = c.bus.log ++ more
  busErrors_eq : c'.busErrors = c.busErrors + more.countP (·.failed)
  lost_eq : c'.bus.lost = c.bus.lost
  failed_of_lost : ∀ i x, more[i]? = some x → c.bus.lost (c.bus.log.length + i) → ¬ x.isPoll →
    x.failed

theorem Adds.refl (c : LossyNor σ) : Adds c [] c := ⟨by simp, by simp, rfl, nofun⟩

/-- Stretches of the log can be joined; the numbers of the later ones go on. -/
theorem Adds.trans (h : Adds c more c₁) (h' : Adds c₁ later c₂) : Adds c (more ++ later) c₂ where
  log_eq := by rw [h'.log_eq, h.log_eq, List.append_assoc]
  busErrors_eq := by rw [h'.busErrors_eq, h.busErrors_eq, List.countP_append, Nat.add_assoc]
  lost_eq := h'.lost_eq.trans h.lost_eq
  failed_of_lost := by
    intro i x hx hlost hpoll
    -- Transactions are numbered by their place in the log of the bus, wherever a stretch begins.
    by_cases hi : i < more.length
    · rw [List.getElem?_append_left hi] at hx
      exact h.failed_of_lost i x hx hlost hpoll
    · rw [List.getElem?_append_right (Nat.le_of_not_lt hi)] at hx
      refine h'.failed_of_lost (i - more.length) x hx ?_ hpoll
      rw [h.lost_eq, h.log_eq, List.length_append,
        show c.bus.log.length + more.length + (i - more.length) = c.bus.log.length + i by omega]
      exact hlost

/-- The failure count tells whether any transaction of a command failed. -/
theorem Adds.commands_succeeded_iff (h : Adds c more c₁) {commands : List Command}
    (hexecuted : Executed commands more) :
    (∀ x ∈ more, x.OfCommand commands → ¬ x.failed) ↔
      c₁.busErrors = c.busErrors + more.countP fun x => x.isPoll && x.failed := by
  -- A failure is one of a poll or one of a command.
  have hsplit (log : List Exchange) : log.countP (·.failed) =
      (log.countP fun x => x.isPoll && x.failed) + log.countP fun x => !x.isPoll && x.failed := by
    induction log with
    | nil => rfl
    | cons x rest ih => cases hpoll : x.isPoll <;> simp [List.countP_cons, hpoll, ih] <;> omega
  have hnone : (more.countP fun x => !x.isPoll && x.failed) = 0 ↔
      ∀ x ∈ more, x.OfCommand commands → ¬ x.failed := by
    rw [List.countP_eq_zero]
    apply forall₂_congr
    intro x hx
    rw [hexecuted.ofCommand_iff hx]
    simp
  rw [h.busErrors_eq, hsplit, ← hnone]
  omega

variable [SpiDevice σ]

/-- A transaction adds to the log, and to the count if it failed. -/
theorem transact_eq (ops : List SpiOp) (c : LossyNor σ) :
    c.transact ops = ((c.bus.exchange ops).received.map List.flatten,
      { bus := (SpiDevice.transaction ops c.bus).2
        busErrors := c.busErrors + if (c.bus.exchange ops).failed then 1 else 0 }) := by
  have hreceived : (c.bus.exchange ops).received = (SpiDevice.transaction ops c.bus).1 := rfl
  unfold SpiNor.transact Exchange.failed
  rw [hreceived]
  rcases SpiDevice.transaction ops c.bus with ⟨_ | received, bus⟩ <;> rfl

/-- One transaction is a stretch of the log. -/
theorem transact_adds (ops : List SpiOp) (c : LossyNor σ) :
    Adds c [c.bus.exchange ops] (c.transact ops).2 := by
  rw [transact_eq]
  refine ⟨rfl, by rw [List.countP_singleton], rfl, ?_⟩
  intro i x hx hlost hpoll
  cases i with
  | succ i => exact nomatch hx
  | zero =>
    obtain rfl := Option.some.inj hx
    rw [Nat.add_zero] at hlost
    have hops : (ops != SpiNor.statusRead) = true := by
      simpa [Exchange.isPoll, LossySpi.exchange] using hpoll
    simp [Exchange.failed, LossySpi.exchange, hlost, hops]

/-- A status read is busy unless it shows an idle part. -/
theorem isBusy_eq (c : LossyNor σ) :
    c.isBusy = (!(c.bus.exchange SpiNor.statusRead).showsIdle,
      (c.transact SpiNor.statusRead).2) := by
  unfold SpiNor.isBusy Exchange.showsIdle
  rw [show [.write [Opcode.readStatus], .read 1] = SpiNor.statusRead from rfl, transact_eq]
  cases (c.bus.exchange SpiNor.statusRead).received with
  | none => simp
  | some received => simp [Exchange.isPoll, LossySpi.exchange]

variable [XipWindow σ]

/-- A command runs its two transactions, and does not look at their outcome. -/
theorem issue_adds (command : Command) (c : LossyNor σ) :
    ∃ issued : List Exchange, issued.map (·.ops) = command.transactions ∧
      Adds c issued (Controller.issue command c) := by
  have henabled := transact_adds [.write [Opcode.writeEnable]] c
  cases command with
  | erase offset => exact ⟨_, rfl, henabled.trans (transact_adds _ c.enableWrites)⟩
  | program offset data => exact ⟨_, rfl, henabled.trans (transact_adds _ c.enableWrites)⟩

end LossyNor

/-! ## Commands that are seen through -/

namespace Bench

variable {σ : Type} [SpiDevice σ] [XipWindow σ] {patience : Patience}

/-- Polling that ends with an idle answer is a wait on the bus. Induction on the polls that are
left. -/
theorem pollIdle_waited (timeout offset start : UInt32) (polls : Nat) (b : Bench (LossyNor σ)) :
    Meets (fun _ b' => ∃ more, Waited more ∧ b.part.Adds more b'.part) (fun _ _ => True)
      (Controller.pollIdle timeout offset start polls b) := by
  induction polls generalizing b with
  | zero => trivial
  | succ polls ih =>
    let x := b.part.bus.exchange SpiNor.statusRead
    have hanswer : b.part.isBusy.1 = !x.showsIdle := by rw [LossyNor.isBusy_eq]
    have hadds : b.part.Adds [x] b.part.isBusy.2 := by
      rw [LossyNor.isBusy_eq]
      exact LossyNor.transact_adds _ _
    rw [Controller.pollIdle, Action.ofStep_bind]
    cases hbusy : (Controller.isBusy b).1 with
    | false =>
      have hidle : x.showsIdle := by simpa using hanswer.symm.trans hbusy
      exact ⟨[x], .idle hidle, hadds⟩
    | true =>
      have hwip : ¬ x.showsIdle := by simpa using hanswer.symm.trans hbusy
      rw [if_pos rfl, Action.ofStep_bind, Action.ite_apply]
      split
      · trivial
      · apply (ih _).mono
        · intro _ b' h
          obtain ⟨more, hmore, hlater⟩ := h
          exact ⟨x :: more, .busy rfl hwip hmore, hadds.trans hlater⟩
        · intro _ _ _
          trivial

/-- The start time is read off the clock, without a transaction. -/
theorem waitIdle_waited (patience : Patience) (offset : UInt32) (b : Bench (LossyNor σ)) :
    Meets (fun _ b' => ∃ more, Waited more ∧ b.part.Adds more b'.part) (fun _ _ => True)
      (Controller.waitIdle patience offset b) := by
  rw [Controller.waitIdle, Action.ofStep_bind]
  exact pollIdle_waited _ _ _ _ _

/-- A command that is seen through is executed on the bus. -/
theorem execute_executed (patience : Patience) (command : Command) (b : Bench (LossyNor σ)) :
    Meets (fun _ b' => ∃ more, Executed [command] more ∧ b.part.Adds more b'.part)
      (fun _ _ => True) (Controller.execute patience command b) := by
  apply Action.Meets.bind (waitIdle_waited patience command.offset b)
  intro _ b₁ h₁
  obtain ⟨before, hbefore, h₁⟩ := h₁
  rw [Action.ofUpdate_bind]
  obtain ⟨issued, hissued, h₂⟩ := b₁.part.issue_adds command
  apply (waitIdle_waited patience command.offset _).mono
  · intro _ b₃ h₃
    obtain ⟨after, hafter, h₃⟩ := h₃
    have hexecuted := Executed.cons hbefore hissued hafter .nil
    rw [List.append_nil] at hexecuted
    refine ⟨_, hexecuted, h₁.trans (LossyNor.Adds.trans ?_ h₃)⟩
    cases command <;> exact h₂
  · intro _ _ _
    trivial

/-- Since `b₀` some commands were executed, and nothing else was done on the bus. -/
def Executes (b₀ b : Bench (LossyNor σ)) : Prop :=
  ∃ commands more, Executed commands more ∧ b₀.part.Adds more b.part

omit [SpiDevice σ] [XipWindow σ] in
/-- Neither a switch of the mode nor a read of the window runs transactions. -/
theorem Executes.of_bus {b₀ b b' : Bench (LossyNor σ)} (h : b₀.Executes b)
    (hlog : b'.part.bus.log = b.part.bus.log) (hlost : b'.part.bus.lost = b.part.bus.lost)
    (hcount : b'.part.busErrors = b.part.busErrors) : b₀.Executes b' := by
  obtain ⟨commands, more, hexecuted, hadds⟩ := h
  exact ⟨commands, more, hexecuted, hlog.trans hadds.log_eq, hcount.trans hadds.busErrors_eq,
    hlost.trans hadds.lost_eq, hadds.failed_of_lost⟩

/-- The requests of a disk run no transactions but those of commands. -/
theorem executes_carrier (patience : Patience) (b₀ : Bench (LossyNor σ)) :
    Carrier patience b₀.Executes fun _ => True where
  enterMapped _ h := h.of_bus rfl rfl rfl
  enterCommand _ h := h.of_bus rfl rfl rfl
  readMapped _ _ _ h := h.of_bus rfl rfl rfl
  execute command b h := by
    obtain ⟨commands, more, hexecuted, hadds⟩ := h
    apply (execute_executed patience command b).mono
    · intro _ b' h'
      obtain ⟨later, hlater, hadds'⟩ := h'
      exact ⟨_, _, hexecuted.append hlater, hadds.trans hadds'⟩
    · intro _ _ _
      trivial

end Bench

/-- **What a request did on the bus.** A request that is answered has executed some commands: each
one was issued to a part that was seen idle, and the part was seen idle afterwards. -/
theorem Disk.serve_executes {σ : Type} [SpiDevice σ] [XipWindow σ]
    {d d' : Disk (Bench (LossyNor σ))} {request : Request} {answer : Answer}
    (h : serve request d = .ok answer d') : d.device.Executes d'.device := by
  have hserve := serve_carried (Bench.executes_carrier d.store.patience d.device)
    ⟨[], [], .nil, .refl _⟩ request
  rw [h] at hserve
  exact hserve.2.2.device

/-! ## Two runs that lose different transactions -/

namespace LossyNor

variable {σ : Type} [SpiDevice σ] {c c' : LossyNor σ}

/-- The same controller with other transactions lost from now on. -/
def losing (lost : Nat → Bool) (c : LossyNor σ) : LossyNor σ :=
  { c with bus := { c.bus with lost } }

/-- Two controllers whose buses have run the same transactions, with the same status reads. -/
structure Mirrors (c c' : LossyNor σ) : Prop where
  inner_eq : c.bus.inner = c'.bus.inner
  alike : List.Forall₂ Exchange.Alike c.bus.log c'.bus.log

omit [SpiDevice σ] in
/-- At first nothing has been lost. -/
theorem mirrors_losing (lost : Nat → Bool) (c : LossyNor σ) : c.Mirrors (c.losing lost) :=
  ⟨rfl, List.forall₂_same.mpr fun _ _ => ⟨rfl, fun _ => rfl⟩⟩

/-- Transactions of two mirrored runs differ in what commands receive, at most. -/
theorem Mirrors.exchange (h : c.Mirrors c') (ops : List SpiOp) :
    (c.bus.exchange ops).Alike (c'.bus.exchange ops) := by
  refine ⟨rfl, fun hpoll => ?_⟩
  -- A status read is not lost, so its outcome is that of the bus below.
  have hops : (ops != SpiNor.statusRead) = false := by
    simpa [Exchange.isPoll, LossySpi.exchange] using hpoll
  simp [LossySpi.exchange, hops, h.inner_eq]

/-- The bus below sees a transaction whether it is lost or not, so it stays the same in both runs.
-/
theorem Mirrors.transact (h : c.Mirrors c') (ops : List SpiOp) :
    Mirrors (c.transact ops).2 (c'.transact ops).2 := by
  rw [transact_eq, transact_eq]
  refine ⟨?_, List.rel_append h.alike (.cons (h.exchange ops) .nil)⟩
  show (SpiDevice.transaction ops c.bus.inner).2 = (SpiDevice.transaction ops c'.bus.inner).2
  rw [h.inner_eq]

/-- Both runs see the same busy flag. -/
theorem Mirrors.isBusy (h : c.Mirrors c') :
    c.isBusy.1 = c'.isBusy.1 ∧ Mirrors c.isBusy.2 c'.isBusy.2 := by
  rw [isBusy_eq, isBusy_eq]
  refine ⟨?_, h.transact _⟩
  have hreceived := (h.exchange SpiNor.statusRead).2 rfl
  unfold Exchange.showsIdle
  rw [hreceived]
  rfl

variable [XipWindow σ]

/-- The outcome of a command is not looked at, so both runs go on alike. -/
theorem Mirrors.issue (h : c.Mirrors c') (command : Command) :
    Mirrors (Controller.issue command c) (Controller.issue command c') := by
  have henabled := h.transact [.write [Opcode.writeEnable]]
  cases command with
  | erase offset => exact henabled.transact _
  | program offset data => exact henabled.transact _

end LossyNor

namespace Bench

variable {σ : Type} {b b' : Bench (LossyNor σ)}

def losing (lost : Nat → Bool) (b : Bench (LossyNor σ)) : Bench (LossyNor σ) :=
  { b with part := b.part.losing lost }

/-- Two benches with one time, whose controllers mirror each other. -/
structure Mirrors (b b' : Bench (LossyNor σ)) : Prop where
  clock_eq : b.clock = b'.clock
  part : b.part.Mirrors b'.part

/-- A disk sees no difference between mirrored benches. -/
theorem mirrors_bisimulation [SpiDevice σ] [XipWindow σ] :
    Bisimulation fun b b' : Bench (LossyNor σ) => b.Mirrors b' where
  enterMapped h := ⟨h.clock_eq, congrArg (XipWindow.setMapped true) h.part.inner_eq, h.part.alike⟩
  enterCommand h := ⟨h.clock_eq, congrArg (XipWindow.setMapped false) h.part.inner_eq, h.part.alike⟩
  issue command b b' h := by
    have hissued := h.part.issue command
    cases command <;> exact ⟨h.clock_eq, hissued⟩
  isBusy h := ⟨h.part.isBusy.1, h.clock_eq, h.part.isBusy.2⟩
  now h := ⟨congrArg (fun clock => clock.read.1) h.clock_eq,
    congrArg (fun clock => clock.read.2) h.clock_eq, h.part⟩
  readMapped addr len _ _ h :=
    ⟨congrArg (fun bus => (XipWindow.readWindow addr len bus).1) h.part.inner_eq, h.clock_eq,
      congrArg (fun bus => (XipWindow.readWindow addr len bus).2) h.part.inner_eq, h.part.alike⟩

end Bench

namespace Disk

variable {σ : Type} [SpiDevice σ] [XipWindow σ]

def losing (lost : Nat → Bool) (d : Disk (Bench (LossyNor σ))) : Disk (Bench (LossyNor σ)) :=
  { d with device := d.device.losing lost }

/-- A request was answered by executing commands, and the answer does not tell whether they reached
the part. -/
structure Unconfirmed (request : Request) (answer : Answer) (d d' : Disk (Bench (LossyNor σ)))
    (commands : List Command) (more : List Exchange) : Prop where
  executed : Executed commands more
  adds : d.device.part.Adds more d'.device.part
  /-- The failure count tells. -/
  succeeded_iff : (∀ x ∈ more, x.OfCommand commands → ¬ x.failed) ↔ d'.device.part.busErrors =
    d.device.part.busErrors + more.countP fun x => x.isPoll && x.failed
  /-- Whichever transactions of the commands are lost instead, the answer is the same. -/
  answer_eq : ∀ lost, ∃ e' later, serve request (d.losing lost) = .ok answer e' ∧
    e'.store = d'.store ∧ (d.losing lost).device.part.Adds later e'.device.part ∧
    List.Forall₂ Exchange.Alike more later

/-- **Lost commands do not show.** Wherever a run of a fresh disk has led, on whatever bus, a
request that is answered has executed commands, and would be answered alike if any of them had been
lost. -/
theorem done_despite_lost_commands {ω : Type} {l : Layout} (hv : l.Valid) (hw : l.WindowFits)
    (policy : ErasePolicy) (patience : Patience)
    (act : ω → Bench (LossyNor σ) → Bench (LossyNor σ)) (device : Bench (LossyNor σ))
    (events : List (Event Request ω)) {request : Request} {answer : Answer}
    {d' : Disk (Bench (LossyNor σ))} :
    let d := state (runAll serve (world act) events (fresh l hv policy patience device))
    serve request d = .ok answer d' →
      ∃ commands more, Unconfirmed request answer d d' commands more := by
  intro d hserve
  -- Only that the run has kept its invariants is needed here, so it is paired with itself.
  have hself : Paired l patience (fun _ s t => s = t ∧ True) d d :=
    runAll_paired hv hw policy
      (.ofInvariant (fun h => h) (fun h => h) (fun _ h => h) (fun h => h)) act
      (fun _ _ _ h => h) device trivial events
  obtain ⟨commands, more, hexecuted, hadds⟩ := serve_executes hserve
  refine ⟨commands, more, hexecuted, hadds, hadds.commands_succeeded_iff hexecuted, fun lost => ?_⟩
  have hpaired : Paired l patience (fun _ s t => s.Mirrors t) d (d.losing lost) :=
    ⟨rfl, hself.layout_eq, hself.patience_eq, hself.stage_fits, rfl,
      d.device.part.mirrors_losing lost⟩
  -- The same request once more, with other transactions lost.
  have hagree := serve_agree (Bench.mirrors_bisimulation.lockstep l patience) hw hpaired request
  rw [hserve] at hagree
  match hlosing : serve request (d.losing lost), hagree with
  | .ok answer' e', hagree =>
    obtain ⟨rfl, hpaired'⟩ := hagree
    obtain ⟨-, later, -, hadds'⟩ := serve_executes hlosing
    have halike := hpaired'.device.part.alike
    rw [hadds.log_eq, hadds'.log_eq] at halike
    refine ⟨e', later, rfl, hpaired'.store_eq.symm, hadds', ?_⟩
    -- Both logs start with what was on the bus before the request.
    simpa [losing, Bench.losing, LossyNor.losing] using
      List.forall₂_drop d.device.part.bus.log.length halike

/-- One block is written properly; for the next one the transaction that enables writes is lost. -/
theorem done_despite_lost_enable :
    let layout := Board.orangeCrabR01.layout
    let device : Bench (LossyNor ScriptedSpi) :=
      ⟨{ bus := { inner := {}, lost := (· == 9) } }, ⟨0, 1⟩⟩
    let block := List.replicate 256 (0x5A : UInt8)
    let start := fresh layout Board.orangeCrabR01.layout_valid .onSectorStart {} device
    let d := state (runAll serve (world fun (_ : Unit) b => b) [.call (.write block 0 1)] start)
    layout.WindowFits ∧ ∃ d', serve (.write block 1 1) d = .ok .done d' ∧
      ∃ commands more, Unconfirmed (.write block 1 1) .done d d' commands more := by
  intro layout device block start d
  obtain ⟨d', hserve⟩ : ∃ d', serve (.write block 1 1) d = .ok .done d' := by
    apply Meets.eq_ok
    decide +kernel
  exact ⟨Board.orangeCrabR01.windowFits, d', hserve,
    done_despite_lost_commands Board.orangeCrabR01.layout_valid Board.orangeCrabR01.windowFits
      .onSectorStart {} _ device [.call (.write block 0 1)] hserve⟩

/-- The transaction that enables writes for the one command of a request fails. The request is done,
and the failure was counted. -/
theorem write_done_after_failed_enable :
    let bus : ScriptedSpi := { fails := (· == 1) }
    let start : Disk (Bench (SpiNor ScriptedSpi)) := fresh Board.orangeCrabR01.layout
      Board.orangeCrabR01.layout_valid .onSectorStart {} ⟨{ bus }, ⟨0, 1⟩⟩
    ∃ d', serve (.write (List.replicate 256 0x5A) 1 1) start = .ok .done d' ∧
      BusEvent.transaction [.write [Opcode.writeEnable]] true ∈ d'.device.part.bus.events.toList ∧
      d'.device.part.busErrors = 1 := by
  intro bus start
  obtain ⟨answer, d', hserve, rfl, hfailed⟩ : ∃ answer d',
      serve (.write (List.replicate 256 0x5A) 1 1) start = .ok answer d' ∧ answer = .done ∧
        BusEvent.transaction [.write [Opcode.writeEnable]] true ∈ d'.device.part.bus.events.toList ∧
        d'.device.part.busErrors = 1 := by
    refine Meets.ok (?_ : Meets _ (fun _ _ => False) _) fun _ _ => id
    decide +kernel
  exact ⟨d', hserve, hfailed⟩

end Disk

end NorDisk
