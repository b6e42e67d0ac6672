import NorDisk.Proofs.Execution
import NorDisk.Proofs.Lockstep

/-!
# Mode and busy discipline

A `Traced` controller is any controller that writes down the primitives it receives and the answers
of its busy flag. The busy flag may answer as it likes, and the world may change the controller
between two requests.

* **`Allowed before signal`** — the rule for one primitive after those of `before`: a command needs
  the command mode and an idle answer since the last command, a read needs the window.
* **`Disciplined trace`** — every primitive of the trace was allowed when it was sent.
* **`requests_disciplined`** — whatever is requested, the trace is disciplined and the disk knows
  the mode of its controller; a simulated part counts no misuse.
-/

namespace NorDisk

open Outcome

/-- A primitive as it reaches a controller; polls with their answer. -/
inductive Signal where
  | enterMapped
  | enterCommand
  | command (command : Command)
  | poll (busy : Bool)
  | read (addr : UInt32) (len : Nat)
deriving DecidableEq, Repr

/-- A controller with the primitives that it received, in order. -/
structure Traced (κ : Type) where
  inner : κ
  trace : List Signal := []

namespace Traced

variable {κ : Type}

instance [Controller κ] : Controller (Traced κ) where
  enterMapped s := ⟨Controller.enterMapped s.inner, s.trace ++ [.enterMapped]⟩
  enterCommand s := ⟨Controller.enterCommand s.inner, s.trace ++ [.enterCommand]⟩
  beginErase offset s :=
    ⟨Controller.beginErase offset s.inner, s.trace ++ [.command (.erase offset)]⟩
  beginProgram offset data s :=
    ⟨Controller.beginProgram offset data s.inner, s.trace ++ [.command (.program offset data)]⟩
  isBusy s :=
    let (busy, inner) := Controller.isBusy s.inner
    (busy, ⟨inner, s.trace ++ [.poll busy]⟩)
  readMapped addr len s :=
    let (bytes, inner) := Controller.readMapped addr len s.inner
    (bytes, ⟨inner, s.trace ++ [.read addr len]⟩)
  length_readMapped addr len s := Controller.length_readMapped addr len s.inner

instance [TickSource κ] : TickSource (Traced κ) where
  now s :=
    let (now, inner) := TickSource.now s.inner
    (now, ⟨inner, s.trace⟩)

/-- A traced controller answers as the controller inside. -/
theorem transparent [Controller κ] [TickSource κ] :
    Bisimulation fun (s : Traced κ) (t : κ) => s.inner = t where
  enterMapped h := congrArg Controller.enterMapped h
  enterCommand h := congrArg Controller.enterCommand h
  issue command s t h := by
    cases command <;> exact congrArg _ h
  isBusy := by
    rintro s _ rfl
    exact ⟨rfl, rfl⟩
  now := by
    rintro s _ rfl
    exact ⟨rfl, rfl⟩
  readMapped := by
    rintro addr len s _ rfl
    exact ⟨rfl, rfl⟩

/-- The world changes the controller as it likes, without a primitive. -/
def world (act : κ → κ) (s : Traced κ) : Traced κ := { s with inner := act s.inner }

end Traced

/-! ## The rules -/

/-- The mode after the primitives of a trace; a controller starts with its window. -/
def modeAfter (trace : List Signal) : Mode :=
  trace.foldl (fun mode signal =>
    match signal with
    | .enterMapped => .mapped
    | .enterCommand => .command
    | _ => mode) .mapped

/-- The last poll answered idle, and no command came after it. -/
def SeenIdle (trace : List Signal) : Prop :=
  ∃ early late, trace = early ++ .poll false :: late ∧
    ∀ signal ∈ late, (∀ busy, signal ≠ .poll busy) ∧ ∀ command, signal ≠ .command command

/-- May the primitive be sent after those before it? -/
def Allowed (before : List Signal) : Signal → Prop
  | .command _ => modeAfter before = .command ∧ SeenIdle before
  | .read _ _ => modeAfter before = .mapped
  | _ => True

/-- Every primitive was allowed when it was sent. -/
def Disciplined (trace : List Signal) : Prop :=
  ∀ before signal after, trace = before ++ signal :: after → Allowed before signal

theorem Disciplined.nil : Disciplined [] := by
  intro before signal after h
  exact absurd h (by simp)

/-- A trace grows by primitives that are allowed after it. -/
theorem Disciplined.snoc {trace : List Signal} {signal : Signal} (h : Disciplined trace)
    (hsignal : Allowed trace signal) : Disciplined (trace ++ [signal]) := by
  intro before signal' after heq
  -- Either the primitive is the new one, or it was sent before.
  rcases List.eq_nil_or_concat after with rfl | ⟨after', last, rfl⟩
  · obtain ⟨rfl, hlast⟩ := List.append_inj' heq rfl
    obtain rfl : signal = signal' := by simpa using hlast
    exact hsignal
  · rw [List.concat_eq_append, ← List.cons_append, ← List.append_assoc] at heq
    obtain ⟨rfl, -⟩ := List.append_inj' heq rfl
    exact h before signal' after' rfl

/-- Only a switch changes the mode. -/
theorem modeAfter_snoc (trace : List Signal) (signal : Signal) :
    modeAfter (trace ++ [signal]) =
      match signal with
      | .enterMapped => .mapped
      | .enterCommand => .command
      | _ => modeAfter trace := by
  unfold modeAfter
  rw [List.foldl_append]
  rfl

theorem SeenIdle.of_poll (trace : List Signal) : SeenIdle (trace ++ [.poll false]) :=
  ⟨trace, [], rfl, nofun⟩

/-! ## Executing a command

What the clock and the polls keep, and what an idle answer turns into a license for the next
command, is kept by `execute` as a whole. -/

section Execute

variable {σ : Type} [Controller σ] [TickSource σ] {I J : σ → Prop}

/-- A wait ends with an idle answer or is given up. -/
theorem waitIdle_keeps (hnow : ∀ s, I s → I (TickSource.now s).2)
    (hbusy : ∀ s, I s → (Controller.isBusy s).1 = true → I (Controller.isBusy s).2)
    (hidle : ∀ s, I s → (Controller.isBusy s).1 = false → J (Controller.isBusy s).2)
    (patience : Patience) (offset : UInt32) {s : σ} (hs : I s) :
    Meets (fun _ => J) (fun _ => I) (Controller.waitIdle patience offset s) := by
  rw [Controller.waitIdle, Action.ofStep_bind]
  have hstart := hnow s hs
  apply (Controller.pollIdle_exact _ _ _ _ _).mono
  · rintro - s' ⟨n, hpolls, hlast, rfl⟩
    exact hidle _ (Controller.polled_keeps hnow hbusy hstart fun i hi => (hpolls i hi).1) hlast
  · -- Given up before a poll or after one: all answers so far were busy.
    rintro fault s' (⟨-, hpolls, rfl⟩ | ⟨-, n, hpolls, hlast, -, rfl⟩)
    · exact Controller.polled_keeps hnow hbusy hstart fun i hi => (hpolls i hi).1
    · exact Controller.polled_keeps hnow hbusy hstart
        (Nat.forall_lt_succ_right.mpr ⟨fun i hi => (hpolls i hi).1, hlast⟩)

/-- A command is issued on an idle answer only. -/
theorem execute_keeps (hnow : ∀ s, I s → I (TickSource.now s).2)
    (hbusy : ∀ s, I s → (Controller.isBusy s).1 = true → I (Controller.isBusy s).2)
    (hidle : ∀ s, I s → (Controller.isBusy s).1 = false → J (Controller.isBusy s).2)
    {command : Command} (hissue : ∀ s, J s → I (Controller.issue command s))
    (hweaken : ∀ s, J s → I s) (patience : Patience) {s : σ} (hs : I s) :
    I (state (Controller.execute patience command s)) := by
  apply Meets.state
  unfold Controller.execute
  -- The first wait licenses the command; the second one only has to keep `I`.
  refine Action.Meets.bind (waitIdle_keeps hnow hbusy hidle patience command.offset hs) ?_
  intro _ s₁ hs₁
  rw [Action.ofUpdate_bind]
  exact (waitIdle_keeps hnow hbusy hidle patience command.offset (hissue s₁ hs₁)).mono
    (fun _ s₂ hs₂ => hweaken s₂ hs₂) fun _ _ hs₂ => hs₂

end Execute

/-! ## Every request is disciplined

The invariant of a traced controller is that its trace is disciplined so far; the one of a simulated
part is that its mode is the one that the disk believes in and that nothing was counted. Both
survive the polls, and an idle answer is what issuing a command needs. -/

namespace Traced

variable {κ : Type} {mode : Mode} {s : Traced κ}

/-- The primitives so far were allowed, and they lead to a mode. -/
structure Obeys (mode : Mode) (s : Traced κ) : Prop where
  disciplined : Disciplined s.trace
  modeAfter_eq : modeAfter s.trace = mode

/-- A primitive that is allowed may follow, and switches the mode if it is a switch. -/
theorem Obeys.snoc {s' : Traced κ} {signal : Signal} {mode' : Mode} (h : s.Obeys mode)
    (htrace : s'.trace = s.trace ++ [signal]) (hsignal : Allowed s.trace signal)
    (hmode : modeAfter (s.trace ++ [signal]) = mode') : s'.Obeys mode' :=
  ⟨htrace ▸ h.disciplined.snoc hsignal, htrace ▸ hmode⟩

variable [Controller κ]

/-- A command may follow an idle answer. -/
theorem Obeys.issue (h : s.Obeys .command) (hidle : SeenIdle s.trace) (command : Command) :
    (Controller.issue command s).Obeys .command := by
  have hallowed : Allowed s.trace (.command command) := ⟨h.modeAfter_eq, hidle⟩
  have hmode : modeAfter (s.trace ++ [.command command]) = .command := by
    rw [modeAfter_snoc]
    exact h.modeAfter_eq
  cases command <;> exact h.snoc rfl hallowed hmode

/-- A poll may always follow, whatever its answer. -/
theorem Obeys.poll (h : s.Obeys mode) : (Controller.isBusy s).2.Obeys mode :=
  h.snoc rfl trivial (by rw [modeAfter_snoc]; exact h.modeAfter_eq)

/-- A disk that uses a traced controller keeps to the rules; it is compared with itself, as only the
invariant is of interest. -/
theorem Obeys.lockstep [TickSource κ] (l : Layout) (patience : Patience) :
    Lockstep l patience (fun _ => True) fun mode (s t : Traced κ) => s = t ∧ s.Obeys mode := by
  refine .ofInvariant ?_ ?_ ?_ ?_
  · intro mode s h
    exact h.snoc rfl trivial (modeAfter_snoc _ _)
  · intro mode s h
    exact h.snoc rfl trivial (modeAfter_snoc _ _)
  · intro command s _ h
    refine execute_keeps (I := Obeys .command)
      (J := fun s => s.Obeys .command ∧ SeenIdle s.trace)
      (fun s hs => ⟨hs.disciplined, hs.modeAfter_eq⟩) (fun s hs _ => hs.poll) ?_
      (fun s hs => hs.1.issue hs.2 command) (fun s hs => hs.1) patience h
    -- The idle answer is the last signal when the command is issued.
    intro s hs hanswer
    refine ⟨hs.poll, ?_⟩
    have htrace : (Controller.isBusy s).2.trace = s.trace ++ [.poll (Controller.isBusy s).1] := rfl
    rw [htrace, hanswer]
    exact .of_poll s.trace
  · intro addr len s h
    exact h.snoc rfl h.modeAfter_eq (by rw [modeAfter_snoc]; exact h.modeAfter_eq)

end Traced

/-- A simulated part next to any clock. -/
structure Timed (τ : Type) where
  part : NorPart
  ticks : τ

namespace Timed

variable {τ : Type} {mode : Mode} {s : Timed τ}

instance : Controller (Timed τ) where
  enterMapped s := { s with part := Controller.enterMapped s.part }
  enterCommand s := { s with part := Controller.enterCommand s.part }
  beginErase offset s := { s with part := Controller.beginErase offset s.part }
  beginProgram offset data s := { s with part := Controller.beginProgram offset data s.part }
  isBusy s :=
    let (busy, part) := Controller.isBusy s.part
    (busy, { s with part })
  readMapped addr len s :=
    let (bytes, part) := Controller.readMapped addr len s.part
    (bytes, { s with part })
  length_readMapped addr len s := Controller.length_readMapped addr len s.part

instance [TickSource τ] : TickSource (Timed τ) where
  now s :=
    let (now, ticks) := TickSource.now s.ticks
    (now, { s with ticks })

/-- Hold the busy flag, or release it. -/
def hold (on : Bool) (s : Timed τ) : Timed τ := { s with part := { s.part with stalled := on } }

/-- The part serves a mode and has counted no misuse. -/
structure Clean (mode : Mode) (s : Timed τ) : Prop where
  mode_eq : s.part.mode = mode
  misuse_eq : s.part.misuse = {}

/-- A poll counts no misuse. -/
theorem Clean.poll (h : s.Clean mode) : (Controller.isBusy s).2.Clean mode := by
  show Clean mode { s with part := s.part.isBusy.2 }
  unfold NorPart.isBusy
  split
  · exact h
  · split
    · exact ⟨h.mode_eq, h.misuse_eq⟩
    · exact h

/-- An idle answer means that neither the flag is held nor a command in flight. -/
theorem idle_of_isBusy (h : (Controller.isBusy s).1 = false) :
    (Controller.isBusy s).2 = s ∧ s.part.stalled = false ∧ s.part.busyLeft = 0 := by
  obtain ⟨⟨memory, mode, busyPolls, busyLeft, stalled, log, dropped, misuse, erases, programs⟩,
    ticks⟩ := s
  cases stalled with
  | true => exact nomatch h
  | false =>
    cases busyLeft with
    | succ n => exact nomatch h
    | zero => exact ⟨rfl, rfl, rfl⟩

/-- No misuse is counted for a command to an idle part that serves commands. -/
theorem Clean.issue (h : s.Clean .command) (hstalled : s.part.stalled = false)
    (hleft : s.part.busyLeft = 0) (command : Command) :
    (Controller.issue command s).Clean .command := by
  obtain ⟨-, hmode, -, -, -, hmisuse⟩ := NorPart.issue_of_idle h.mode_eq hstalled hleft command
  cases command <;> exact ⟨hmode, hmisuse.trans h.misuse_eq⟩

/-- A disk that uses a simulated part never has it count a misuse. -/
theorem Clean.lockstep [TickSource τ] (l : Layout) (patience : Patience) :
    Lockstep l patience (fun _ => True) fun mode (s t : Timed τ) => s = t ∧ s.Clean mode := by
  refine .ofInvariant ?_ ?_ ?_ ?_
  · intro mode s h
    exact ⟨rfl, (NorPart.misuse_record _ s.part).trans h.misuse_eq⟩
  · intro mode s h
    exact ⟨rfl, (NorPart.misuse_record _ s.part).trans h.misuse_eq⟩
  · intro command s _ h
    refine execute_keeps (I := Clean .command)
      (J := fun s => s.Clean .command ∧ s.part.stalled = false ∧ s.part.busyLeft = 0)
      (fun s hs => ⟨hs.mode_eq, hs.misuse_eq⟩) (fun s hs _ => hs.poll) ?_
      (fun s hs => hs.1.issue hs.2.1 hs.2.2 command) (fun s hs => hs.1) patience h
    intro s hs hanswer
    obtain ⟨hsame, hstalled, hleft⟩ := idle_of_isBusy hanswer
    rw [hsame]
    exact ⟨hs, hstalled, hleft⟩
  · intro addr len s h
    have hmode : (s.part.record (.read addr len)).mode = .mapped := by
      rw [NorPart.mode_record, h.mode_eq]
    have hread : (Controller.readMapped addr len s).2 =
        { s with part := s.part.record (.read addr len) } := by
      show Timed.mk (NorPart.readMapped addr len s.part).2 s.ticks = _
      rw [NorPart.readMapped, if_neg (not_not_intro hmode)]
    rw [hread]
    exact ⟨hmode, (NorPart.misuse_record _ s.part).trans h.misuse_eq⟩

end Timed

/-- **Mode and busy discipline.** On any controller and any clock, whatever the busy flag answers,
every primitive of a run is allowed when it is sent, and the disk's mode is that of the controller;
a simulated part counts no misuse. The run may end in any way, also within a request. -/
theorem requests_disciplined {κ τ : Type} [Controller κ] [TickSource κ] [TickSource τ] (l : Layout)
    (hv : l.Valid) (hw : l.WindowFits) (policy : ErasePolicy) (patience : Patience) :
    (∀ (controller : κ) (events : List (Event Request (κ → κ))),
      let d := state (runAll Disk.serve (Disk.world Traced.world) events
        (Disk.fresh l hv policy patience { inner := controller }))
      Disciplined d.device.trace ∧ modeAfter d.device.trace = d.store.mode) ∧
    ∀ (memory : ByteArray) (busyPolls : Nat) (ticks : τ) (events : List (Event Request Bool)),
      let d := state (runAll Disk.serve (Disk.world Timed.hold) events
        (Disk.fresh l hv policy patience { part := { memory, busyPolls }, ticks }))
      d.device.part.misuse = {} ∧ d.device.part.mode = d.store.mode := by
  refine ⟨fun controller events => ?_, fun memory busyPolls ticks events => ?_⟩
  · have h := Disk.runAll_keeps hv hw policy (Traced.Obeys.lockstep l patience) Traced.world
      (fun _ _ _ h => ⟨h.disciplined, h.modeAfter_eq⟩) { inner := controller } ⟨.nil, rfl⟩ events
    exact ⟨h.disciplined, h.modeAfter_eq⟩
  · -- Holding the flag changes neither the mode nor the counters.
    have h := Disk.runAll_keeps hv hw policy (Timed.Clean.lockstep l patience) Timed.hold
      (fun _ _ _ h => ⟨h.mode_eq, h.misuse_eq⟩) { part := { memory, busyPolls }, ticks }
      ⟨rfl, rfl⟩ events
    exact ⟨h.misuse_eq, h.mode_eq⟩

/-- A flush that stalls and a read after it, which finds the controller serving commands. -/
theorem requests_disciplined_across_stall :
    let write : Request := .write (List.replicate 256 0x5A) 3 1
    let read : Request := .read (List.replicate 256 0) 3 1
    let traced := state (runAll Disk.serve (Disk.world Traced.world)
      [.call write, .world (Bench.hold true), .call .flush, .world (Bench.hold false), .call read]
      (Disk.fresh Board.orangeCrabR01.layout Board.orangeCrabR01.layout_valid .staged {}
        { inner := Bench.fresh (Memory.blank 0) 2 ⟨0, 1⟩ }))
    let timed := state (runAll Disk.serve (Disk.world Timed.hold)
      [.call write, .world true, .call .flush, .world false, .call read]
      (Disk.fresh Board.orangeCrabR01.layout Board.orangeCrabR01.layout_valid .staged {}
        { part := { memory := Memory.blank 0, busyPolls := 2 }, ticks := StepClock.mk 0 1 }))
    Board.orangeCrabR01.layout.Valid ∧ Board.orangeCrabR01.layout.WindowFits ∧
      (Disciplined traced.device.trace ∧ modeAfter traced.device.trace = traced.store.mode) ∧
      timed.device.part.misuse = {} ∧ timed.device.part.mode = timed.store.mode := by
  have h := @requests_disciplined (Bench NorPart) StepClock _ _ _ Board.orangeCrabR01.layout
    Board.orangeCrabR01.layout_valid Board.orangeCrabR01.windowFits .staged {}
  refine ⟨Board.orangeCrabR01.layout_valid, Board.orangeCrabR01.windowFits, ?_, ?_⟩
  · exact h.1 (Bench.fresh (Memory.blank 0) 2 ⟨0, 1⟩)
      [.call (.write (List.replicate 256 0x5A) 3 1), .world (Bench.hold true), .call .flush,
        .world (Bench.hold false), .call (.read (List.replicate 256 0) 3 1)]
  · exact h.2 (Memory.blank 0) 2 (StepClock.mk 0 1)
      [.call (.write (List.replicate 256 0x5A) 3 1), .world true, .call .flush, .world false,
        .call (.read (List.replicate 256 0) 3 1)]

end NorDisk
