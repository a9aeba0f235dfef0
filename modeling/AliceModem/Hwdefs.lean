import Mathlib.Tactic.Ring

/-! Constants of `bcm_hwdefs.h`, `bcmTag.h`, `board.h` and the flash drivers. -/

namespace AliceModem.Hwdefs

abbrev imageBase : Int := 3217031168
abbrev onek : Int := 1024
abbrev flashLengthBootRom : Int := 65536
abbrev flashReservedAtEnd : Int := 131072
abbrev maxSectors : Nat := 1024

abbrev nvramDataOffset : Int := 1408
abbrev nvramLength : Int := 1024
abbrev defaultPsiSize : Int := 24

abbrev tagLen : Int := 256

abbrev spMaxLen : Int := 8192

end AliceModem.Hwdefs
