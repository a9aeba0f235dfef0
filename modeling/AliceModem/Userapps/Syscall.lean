import AliceModem.Lib.CString
import Mathlib.Data.List.DropRight
import Mathlib.Data.List.Infix

namespace AliceModem.Syscall

open CString

def bcmConvertStrToShellStr : List UInt8 → List UInt8
  | [] => []
  | c :: str =>
      if c ≠ 39 then 39 :: c :: 39 :: bcmConvertStrToShellStr str
      else 34 :: c :: 34 :: bcmConvertStrToShellStr str

section Encoding

end Encoding

section Masked

end Masked

section Command

variable (options : List UInt8)

variable {options}

end Command

end AliceModem.Syscall
