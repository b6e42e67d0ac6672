import NorDisk.Proofs.BenchWaits
import NorDisk.Proofs.LastWrite
import NorDisk.Proofs.RecordOutcomes

/-!
# Runs without a trap

A valid layout has its region on sector boundaries, but nothing in `Layout.Valid` keeps the part
inside the address space: the window begins at `windowBase`, and a large part reaches around the
circle of addresses. That is all that can go wrong. On a simulated part of whatever memory, next to
a clock that moves, every call of every run is answered or refused for a reason that it names if and
only if the part fits above the window's base; otherwise a read of the last block traps.

A call traps where a checked sum, difference or product leaves its word, or a stretch its buffer: in
the addresses of blocks, in the run loops of a write, in the pages of the staged sector, and in the
stretch that it shares with a read. The counter of seen blocks stays in its word, since it is the
population of a bitmap.

* **`Uf2.Call.MayReply`** — the answers that a call may get, with every reason to refuse it.
* **`Intake.serve_replies`** — one call; **`runAll_replies`** — a run.
* **`Layout.mappedOf_last`** — the address of the last block of a part that does not fit.
* **`calls_answered_iff_windowFits`** — the two directions together.
-/

namespace NorDisk

open Outcome

/-- The call of an event, if it is one. -/
def Event.call? {ρ ω : Type} : Event ρ ω → Option ρ
  | .call request => some request
  | .world _ => none

/-- **A run of calls none of which traps.** It comes to its end with one reply for each call.
Induction on the events; `I` is what the calls and the world keep. -/
theorem runAll_replies {σ ε ρ α ω : Type} {serve : ρ → Action ε σ α} {act : ω → σ → σ}
    {I : σ → Prop} {P : ρ → Except ε α → Prop}
    (hserve : ∀ request s, I s →
      Meets (fun answer s' => P request (.ok answer) ∧ I s')
        (fun fault s' => ∃ error, fault = .refused error ∧ P request (.error error) ∧ I s')
        (serve request s))
    (hact : ∀ w s, I s → I (act w s)) (events : List (Event ρ ω)) {s : σ} (hs : I s) :
    ∃ replies s', runAll serve act events s = .ok replies s' ∧
      List.Forall₂ P (events.filterMap Event.call?) replies := by
  induction events generalizing s with
  | nil => exact ⟨[], s, rfl, .nil⟩
  | cons event rest ih =>
    cases event with
    | world w => exact ih (hact w s hs)
    | call request =>
      have hcall := hserve request s hs
      have hattempt : ∃ reply s₁, ((serve request).attempt : Action ε σ _) s = .ok reply s₁ ∧
          P request reply ∧ I s₁ := by
        rw [Action.attempt]
        cases hserved : serve request s with
        | ok answer s₁ =>
          rw [hserved] at hcall
          exact ⟨_, s₁, rfl, hcall⟩
        | error fault s₁ =>
          rw [hserved] at hcall
          obtain ⟨error, rfl, hcall⟩ := hcall
          exact ⟨_, s₁, rfl, hcall⟩
      obtain ⟨reply, s₁, hreply, hP, hI⟩ := hattempt
      obtain ⟨replies, s₂, hrun, hforall⟩ := ih hI
      refine ⟨reply :: replies, s₂, ?_, .cons hP hforall⟩
      rw [runAll, Action.bind_apply, hreply]
      show (runAll serve act rest >>= fun replies => pure (reply :: replies)) s₁ = _
      rw [Action.bind_apply, hrun]
      rfl

/-! ## Answers of a board -/

namespace Uf2

/-- What a board may reply to a call. Each refusal has its reason in the call, but for a part that
stalls. -/
inductive Call.MayReply (l : Layout) : Call → Except Error Reply → Prop
  | answered {request answer} (accepted : request.refusal? l = none)
    (h : request.IsAnswer answer) : MayReply l (.request request) (.ok (.answer answer))
  | refused {request error} (h : request.refusal? l = some error) :
    MayReply l (.request request) (.error (.flash error))
  | stalled {request offset} (accepted : request.refusal? l = none)
    (sends : request.SendsCommands) :
    MayReply l (.request request) (.error (.flash (.stalled offset)))
  | taken {bytes status} : MayReply l (.record bytes) (.ok (.status status))
  | malformed {bytes error} (h : Record.decode bytes = .error error) :
    MayReply l (.record bytes) (.error error)
  | misplaced {bytes r error} (decoded : Record.decode bytes = .ok r)
    (h : placement l r = .error (.refused error)) : MayReply l (.record bytes) (.error error)
  | stalledRecord {bytes offset} : MayReply l (.record bytes) (.error (.flash (.stalled offset)))

namespace Intake

variable {l : Layout} {patience : Patience} {i i' : Intake (Bench NorPart)}

/-- The intake is in lockstep with itself: what it is at all times on a board that fits. -/
abbrev Sound (l : Layout) (patience : Patience) (i : Intake (Bench NorPart)) : Prop :=
  i.Paired l patience (fun _ s t => s = t ∧ Bench.Patient patience s) i

/-- The part of a sound board fails by stalling only. -/
theorem Sound.disk_carrier (h : i.Sound l patience) :
    Carrier i.disk.store.patience (Bench.Patient patience) Fault.IsStall :=
  h.disk.patience_eq ▸ Bench.carrier patience

/-- A request is replied to as its kind has it. -/
theorem mayReply_request (h : i.Sound l patience) (request : Request) :
    Meets (fun answer _ => Call.MayReply l (.request request) (.ok (.answer answer)))
      (fun fault _ => ∀ error, fault = .refused error →
        Call.MayReply l (.request request) (.error (.flash error)))
      (Disk.serve request i.disk) := by
  have hserve := Disk.serve_carried h.disk_carrier h.disk.device.2 request
  rw [h.disk.layout_eq] at hserve
  apply hserve.mono
  · intro answer _ h'
    exact .answered h'.1 h'.2.1
  · intro fault _ h' error hfault
    subst hfault
    cases h'.2 with
    | refused hrefusal => exact .refused hrefusal
    | command accepted sends hstall =>
      obtain ⟨offset, heq⟩ := hstall
      obtain rfl : error = .stalled offset := by simpa using heq
      exact .stalled accepted sends

/-- A record is refused for its bytes, for its place, or because the part stalled. -/
theorem mayReply_record (hw : l.WindowFits) (h : i.Sound l patience) {bytes : List UInt8}
    {error : Error} (hrefused : receive bytes i = .error (.refused error) i') :
    Call.MayReply l (.record bytes) (.error error) := by
  have hlayout := h.disk.layout_eq
  cases refuses_of_receive hrefused with
  | malformed hdecode => exact .malformed hdecode
  | misplaced hdecode hplace => exact .misplaced hdecode (hlayout ▸ hplace)
  | @write r lba e disk _ hstored hwrite =>
    -- A record with a place has a whole block for it, so its write is not refused.
    obtain ⟨hlba, hlength, -⟩ := of_placement h.disk.valid hw (hlayout ▸ hstored.placed)
    have hmeets := Disk.writeBlocks_carried h.disk_carrier h.disk.device.2 r.payload lba 1
    rw [hwrite, hlayout] at hmeets
    cases hmeets.2 with
    | refused hrefusal =>
      exact absurd ((Layout.refusal?_block hlba hlength).symm.trans hrefusal) (by simp)
    | command _ _ hstall =>
      obtain ⟨offset, heq⟩ := hstall
      obtain rfl : e = .stalled offset := by simpa using heq
      exact .stalledRecord
  | @flush c e disk hcounted _ hflush =>
    have hcarried := carried_of_counted? h.disk_carrier h.disk.device.2 hcounted
    have hmeets := Disk.flush_carried h.disk_carrier hcarried
    rw [hflush] at hmeets
    obtain ⟨offset, heq⟩ | ⟨cause, heq⟩ := hmeets.cause
    · obtain rfl : e = .stalled offset := by simpa using heq
      exact .stalledRecord
    · exact nomatch heq

/-- The reply to a call, unless it traps, is one that the call may get. -/
theorem serve_mayReply (hw : l.WindowFits) (h : i.Sound l patience) (call : Call) :
    Meets (fun reply _ => call.MayReply l (.ok reply))
      (fun fault _ => ∀ error, fault = .refused error → call.MayReply l (.error error))
      (serve call i) := by
  cases call with
  | record bytes =>
    rw [serve, Action.bind_apply]
    cases hreceive : receive bytes i with
    | ok status i' => exact .taken
    | error fault i' =>
      rintro error rfl
      exact mayReply_record hw h hreceive
  | request request =>
    have hmeets := mayReply_request h request
    rw [serve, Action.bind_apply, onDisk_eq]
    cases hanswer : Disk.serve request i.disk with
    | ok answer disk =>
      rw [hanswer] at hmeets
      exact hmeets
    | error fault disk =>
      rw [hanswer] at hmeets
      cases fault with
      | trap cause => rintro error ⟨⟩
      | refused e =>
        rintro error heq
        obtain rfl : Error.flash e = error := by simpa using heq
        exact hmeets e rfl

/-- **One call** is replied to, and leaves a board that is sound. -/
theorem serve_replies (hw : l.WindowFits) (h : i.Sound l patience) (call : Call) :
    Meets (fun reply i' => call.MayReply l (.ok reply) ∧ Sound l patience i')
      (fun fault i' => ∃ error, fault = .refused error ∧ call.MayReply l (.error error) ∧
        Sound l patience i')
      (serve call i) := by
  have hagree := serve_agree (Bench.lockstep l patience) hw h call
  have hreply := serve_mayReply hw h call
  -- The lockstep leaves no trap, so the outcome is an answer or a refusal.
  match serve call i, hagree, hreply with
  | .error (.trap cause) i', hagree, _ => exact absurd hagree.2.1 id
  | .ok reply i', hagree, hreply => exact ⟨hreply, hagree.2⟩
  | .error (.refused error) i', hagree, hreply =>
    exact ⟨error, rfl, hreply error rfl, hagree.2.2⟩

/-- A fresh board is sound. -/
theorem sound_fresh (transfer : Transfer) (hv : l.Valid) (policy : ErasePolicy)
    {timeout : UInt32} (busyPolls : Nat) {clock : StepClock} (memory : ByteArray)
    (h : ({ timeout } : Patience).Ample clock.step) :
    (fresh transfer l hv policy timeout busyPolls clock memory).Sound l { timeout } :=
  ⟨rfl, rfl, rfl, rfl, nofun, rfl, h⟩

/-- Holding the part leaves a board sound. -/
theorem Sound.hold (h : i.Sound l patience) (on : Bool) :
    (world Bench.hold on i).Sound l patience :=
  ⟨rfl, rfl, h.disk.layout_eq, h.disk.patience_eq, h.disk.stage_fits, rfl, h.disk.device.2⟩

end Intake

end Uf2

/-! ## A part that does not fit -/

namespace Layout

variable {l : Layout}

/-- Number of the last block. -/
def lastBlock (l : Layout) : UInt32 := UInt32.ofNat (l.blocks - 1)

/-- A region is not empty, so it has a last block. -/
theorem Valid.toNat_lastBlock (hv : l.Valid) : l.lastBlock.toNat + 1 = l.blocks := by
  have hlt := hv.regionBase_lt
  have hend := hv.blockOffset_blocks
  have hcount := l.blocks_lt
  have htoNat : l.lastBlock.toNat = l.blocks - 1 :=
    UInt32.toNat_ofNat_of_lt' (show l.blocks - 1 < 2 ^ 32 by omega)
  unfold blockOffset at hend
  omega

/-- The last block of a part that does not fit has its address past the end of the address space. -/
theorem mappedOf_last (hv : l.Valid) (hw : ¬ l.WindowFits) :
    l.mappedOf l.lastBlock = .error .overflow := by
  have hlast := hv.toNat_lastBlock
  have hend := hv.blockOffset_blocks
  have hcount := l.blocks_lt
  have hflash := hv.flashBytes_mod
  have hwindow : windowBase.toNat = 0x20000000 := rfl
  have hmul : Checked.mul l.lastBlock blockBytes = .ok (l.lastBlock * blockBytes) :=
    Checked.mul_eq_ok (by rw [show blockBytes.toNat = 256 from rfl]; omega)
  have hproduct : (l.lastBlock * blockBytes).toNat = 256 * l.lastBlock.toNat :=
    toNat_mul_blockBytes (l := l) (by omega)
  unfold WindowFits at hw
  unfold blockOffset at hend
  by_cases hbase : windowBase.toNat + l.regionBase.toNat < 0x100000000
  · -- The region begins inside the address space, so the sum that traps is that of the last block.
    have hsum : (windowBase + l.regionBase).toNat = windowBase.toNat + l.regionBase.toNat := by
      rw [UInt32.toNat_add]
      omega
    rw [mappedOf, mappedBase, Checked.add_eq_ok hbase, hmul]
    exact if_neg (by omega)
  · -- The region begins past the address space already.
    rw [mappedOf, mappedBase, Checked.add, if_neg hbase]
    rfl

end Layout

/-- On a part that does not fit, reading the last block traps. -/
theorem Disk.readBlocks_last {σ : Type} [Controller σ] [TickSource σ] {l : Layout} {d : Disk σ}
    (hl : d.store.layout = l) (hw : ¬ l.WindowFits) {buffer : List UInt8}
    (hlength : buffer.length = 256) :
    ∃ d', readBlocks buffer l.lastBlock 1 d = .error (.trap .overflow) d' := by
  have hv : l.Valid := hl ▸ d.store.layout_valid
  have hlast := hv.toNat_lastBlock
  have hmapped := ensureMapped_carried (Carrier.trivial d.store.patience) (d := d)
    ⟨.refl _, True.intro⟩
  obtain ⟨_, d₁, hd₁, h₁⟩ := hmapped.ok fun _ _ => id
  rw [readBlocks, if_neg (by decide), Action.bind_apply, checkRequest_eq_refusal hl (by decide),
    Layout.refusal?_block (by omega) hlength]
  show ∃ d', (ensureMapped >>= _) d = _
  rw [Action.bind_apply, hd₁]
  show ∃ d', (ask (·.layout) >>= _) d₁ = _
  rw [ask_bind, h₁.continues.layout_eq, hl, Layout.mappedOf_last hv hw]
  exact ⟨d₁, rfl⟩

/-! ## The two together -/

namespace Uf2.Intake

/-- **When every call is replied to.** Take a valid layout, one of the policies, a simulated part
with any memory and any busy time, and a clock that moves. All runs come to their end with one reply
for each call, which is its answer or a refusal with its reason, exactly if the part fits above the
base of the window. -/
theorem calls_answered_iff_windowFits (transfer : Transfer) {l : Layout}
    (hvalid : l.validate = .ok ()) (policy : ErasePolicy) {timeout : UInt32} (busyPolls : Nat)
    {clock : StepClock} (memory : ByteArray) (hstep : 1 ≤ clock.step.toNat)
    (hsum : timeout.toNat + clock.step.toNat < 0x100000000) :
    (∀ events : List (Event Call Bool), ∃ replies i',
        runAll serve (world Bench.hold) events (fresh transfer l
          ((Layout.validate_eq_ok_iff l).mp hvalid) policy timeout busyPolls clock memory) =
            .ok replies i' ∧
        List.Forall₂ (Call.MayReply l) (events.filterMap Event.call?) replies) ↔
      l.WindowFits := by
  have hv := (Layout.validate_eq_ok_iff l).mp hvalid
  constructor
  · intro hall
    by_contra hw
    let last : Call := .request (.read (List.replicate 256 0) l.lastBlock 1)
    obtain ⟨replies, i', hrun, -⟩ := hall [.call last]
    obtain ⟨d', hread⟩ := Disk.readBlocks_last (l := l)
      (d := (fresh transfer l hv policy timeout busyPolls clock memory).disk) rfl hw
      (List.length_replicate (n := 256) (a := (0 : UInt8)))
    rw [runAll, Action.bind_apply, Action.attempt, serve, Action.bind_apply, onDisk_eq, Disk.serve,
      Action.bind_apply, hread] at hrun
    cases hrun
  · intro hw events
    exact runAll_replies (fun call i h => serve_replies hw h call) (fun on i h => h.hold on) events
      (sound_fresh transfer hv policy busyPolls memory (.ofTimeout hstep hsum))

/-- The largest part that fits. -/
theorem calls_answered_on_largest_part :
    let l : Layout :=
      { name := "largest", flashBytes := 0xE0000000, regionBase := 0, clockHz := 12000000
        family := boardFamily, bootImage := 0 }
    ∃ hvalid : l.validate = .ok (),
      (1 ≤ (1 : UInt32).toNat ∧ busyTimeout.toNat + (1 : UInt32).toNat < 0x100000000) ∧
      ∀ events : List (Event Call Bool), ∃ replies i',
        runAll serve (world Bench.hold) events (fresh { family := boardFamily } l
          ((Layout.validate_eq_ok_iff l).mp hvalid) .staged busyTimeout 1 ⟨0, 1⟩
          (Memory.blank 256)) = .ok replies i' ∧
        List.Forall₂ (Call.MayReply l) (events.filterMap Event.call?) replies := by
  intro l
  have hvalid : l.validate = .ok () := by decide
  refine ⟨hvalid, by decide, ?_⟩
  exact (calls_answered_iff_windowFits { family := boardFamily } hvalid .staged 1
    (Memory.blank 256) (by decide) (by decide)).mpr (by decide)

/-- A part of 3840 MiB with its region in the last 256 MiB passes the check, and the first read of
a board that was never used traps. -/
theorem read_traps_on_checked_layout :
    let l : Layout :=
      { name := "", flashBytes := 0xF0000000, regionBase := 0xE0000000, clockHz := 12000000
        family := boardFamily, bootImage := 0 }
    ∃ hvalid : l.validate = .ok (),
      Meets (fun _ _ => False) (fun fault _ => fault = .trap .overflow)
        (runAll serve (world Bench.hold)
          [.call (.request (.read (List.replicate 256 0) 0 1))]
          (fresh { family := boardFamily } l ((Layout.validate_eq_ok_iff l).mp hvalid)
            .onSectorStart busyTimeout 1 ⟨0, 1⟩ (Memory.blank 256))) := by
  intro l
  refine ⟨by decide, ?_⟩
  decide +kernel

end Uf2.Intake

end NorDisk
