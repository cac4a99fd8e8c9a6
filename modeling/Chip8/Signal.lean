import Chip8.Machine.Execute

/-!
# Signals

What the display and the speaker of a console are told.

* `Signal` : one call of one of them.
* `Effect.signals` : what a step tells the display.
-/

namespace Chip8

/-- A call of the display or of the speaker. -/
inductive Signal where
  | clearDisplay
  | display (screen : Screen)
  | startSound
  | stopSound
  deriving DecidableEq

/-- What the display is told after a step that left `screen` behind. -/
def Effect.signals (screen : Screen) : Effect → List Signal
  | cleared => [.clearDisplay]
  | drawn => [.display screen]
  | none | unsupported _ | ignored _ => []

/-- The signal in words: the display is told how many pixels are on. -/
def Signal.text : Signal → String
  | clearDisplay => "clear"
  | display screen => "display " ++ toString screen.lit
  | startSound => "start"
  | stopSound => "stop"

end Chip8
