import NorDisk.Clock

/-!
# Link state and indicator

The USB link is unmounted, mounted or suspended. The indicator blinks an RGB light between dark and
cyan; the pace tells the state of the link, or that a transfer is being written. A blink moves the
start of the interval by the interval and not to the time of the poll, so the pace does not drift.
-/

namespace NorDisk

/-- The state of the USB link. -/
inductive Link where
  | unmounted
  | mounted
  | suspended
deriving DecidableEq, Repr

/-- What the USB stack reports. -/
inductive LinkEvent where
  | mount
  | unmount
  | suspend (remoteWakeup : Bool)
  | resume
deriving DecidableEq, Repr

namespace Link

/-- The state after an event. -/
def after (_ : Link) : LinkEvent → Link
  | .mount => mounted
  | .unmount => unmounted
  | .suspend _ => suspended
  | .resume => mounted

/-- Milliseconds between two blinks. -/
def interval : Link → UInt32
  | unmounted => 250
  | mounted => 1000
  | suspended => 2500

end Link

/-- Milliseconds between two blinks while a transfer is being written. -/
def writingInterval : UInt32 := 100

/-- One colour of the light. -/
inductive Channel where
  | red
  | green
  | blue
deriving DecidableEq, Repr

/-- Three output pins, one a colour. -/
class RgbPins (σ : Type) where
  /-- Set a pin high or low; the answer tells whether the pin obeyed. -/
  drive : Channel → Bool → σ → Bool × σ

/-- The blinking light: what it reports, since when, and whether it is lit. -/
structure Indicator where
  link : Link := .unmounted
  writing : Bool := false
  start : UInt32 := 0
  lit : Bool := false
deriving DecidableEq, Repr

namespace Indicator

/-- The interval in force. -/
def interval (i : Indicator) : UInt32 := if i.writing then writingInterval else i.link.interval

/-- Report another state of the link. -/
def setLink (link : Link) (i : Indicator) : Indicator := { i with link }

/-- Report whether a transfer is being written. -/
def setWriting (writing : Bool) (i : Indicator) : Indicator := { i with writing }

/-- Report the state of the link after an event. -/
def handle (event : LinkEvent) (i : Indicator) : Indicator := { i with link := i.link.after event }

variable {σ : Type} [RgbPins σ]

/-- Show cyan or dark. A pin that fails does not keep the others from being set. -/
def display (lit : Bool) (pins : σ) : σ :=
  let pins := (RgbPins.drive .red false pins).2
  let pins := (RgbPins.drive .green lit pins).2
  (RgbPins.drive .blue lit pins).2

/-- Blink if an interval has passed; the first part of the answer tells whether it did. -/
def poll (now : UInt32) (i : Indicator) (pins : σ) : Bool × Indicator × σ :=
  if elapsed i.start now < i.interval then (false, i, pins)
  else
    let lit := !i.lit
    (true, { i with start := i.start + i.interval, lit }, display lit pins)

end Indicator

/-- Pins that record each call with whether it was obeyed. -/
structure PinRecorder where
  /-- The pins that fail. -/
  failing : List Channel := []
  /-- Pin, level and success of each call, in order. -/
  calls : Array (Channel × Bool × Bool) := #[]

instance : RgbPins PinRecorder where
  drive channel high pins :=
    let ok := !pins.failing.contains channel
    (ok, { pins with calls := pins.calls.push (channel, high, ok) })

end NorDisk
