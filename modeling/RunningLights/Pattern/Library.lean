import RunningLights.Pattern.Basic

/-!
# The stock patterns
-/

namespace RunningLights.Pattern

/-- A stock pattern without slots. -/
def stock (category : PatternCategory) (id name description text : String) : Pattern :=
  ⟨id, name, description, text, category, []⟩

/-- A slot for a number within bounds. -/
def numberSlot (name : String) (default min max : Float) : PatternSlot :=
  ⟨name, .number, .number default, some min, some max⟩

/-- The stock patterns in the order of the picker. -/
def library : List Pattern := [
  stock .basic "all_on" "All Channels ON" "Turn on all available channels" "true",
  stock .basic "all_off" "All Channels OFF" "Turn off all channels" "false",
  stock .basic "first_half" "First Half" "Turn on first half of channels" "i < totalChannels / 2",
  stock .basic "second_half" "Second Half" "Turn on second half of channels" "i >= totalChannels / 2",
  stock .mathematical "even_channels" "Even Channels" "Turn on even numbered channels (0,2,4...)" "i % 2 === 0",
  stock .mathematical "odd_channels" "Odd Channels" "Turn on odd numbered channels (1,3,5...)" "i % 2 === 1",
  stock .mathematical "every_third" "Every 3rd Channel" "Turn on every 3rd channel (0,3,6,9...)" "i % 3 === 0",
  stock .mathematical "every_fourth" "Every 4th Channel" "Turn on every 4th channel (0,4,8,12...)" "i % 4 === 0",
  stock .sequential "first_quarter" "First Quarter" "Turn on first 25% of channels" "i < totalChannels / 4",
  stock .sequential "last_quarter" "Last Quarter" "Turn on last 25% of channels" "i >= (totalChannels * 3) / 4",
  stock .sequential "middle_range" "Middle Range" "Turn on middle 50% of channels"
    "i >= totalChannels / 4 && i < (totalChannels * 3) / 4",
  stock .sequential "edges" "Edge Channels" "Turn on first and last channels only"
    "i < 2 || i >= totalChannels - 2",
  { stock .custom "custom_modulo" "Custom Modulo" "Turn on channels based on custom divisor and offset"
      "i % $\x7bdivisor\x7d === $\x7boffset\x7d" with
    slots := [numberSlot "divisor" 3 2 32, numberSlot "offset" 0 0 31] },
  { stock .custom "custom_range" "Custom Range" "Turn on channels within custom start and end range"
      "i >= $\x7bstart\x7d && i < $\x7bend\x7d" with
    slots := [numberSlot "start" 0 0 63, numberSlot "end" 12 1 64] }]

/-- The stock pattern with the id. -/
def find? (id : String) : Option Pattern := library.find? fun p => p.id == id

end RunningLights.Pattern
