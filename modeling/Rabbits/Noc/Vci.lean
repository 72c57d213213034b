/-
  File:      Rabbits/Noc/Vci.lean
  Subject:   The messages of the interconnect (abstract_noc.h) and the machine words of the
             32-bit build.

  `unsigned long`, `unsigned int` and every pointer are 32 bits wide in this build, so an address
  is a `BitVec 32` and its sums wrap modulo 2^32. The fields of `vci_request` and `vci_response`
  that no component reads or writes (contig, cons, wrap, cfixed, clen, pktid, rpktid) are left out.
-/
import Mathlib.Data.BitVec

namespace Rabbits

/-- `unsigned long` of the 32-bit build. -/
abbrev ULong := BitVec 32

/-- `unsigned char`. -/
abbrev Byte := BitVec 8

/-- `class vci_request`. -/
structure VciRequest where
  address : ULong
  be : Byte
  cmd : Byte
  wdata : Fin 8 → Byte
  eop : Bool
  plen : Byte
  srcid : BitVec 16
  trdid : Byte
  initialAddress : ULong
  slaveId : Int
  deriving DecidableEq, Inhabited

/-- `class vci_response`. -/
structure VciResponse where
  rdata : Fin 8 → Byte
  reop : Bool
  rerror : Bool
  rsrcid : BitVec 16
  rtrdid : Byte
  rbe : Byte
  deriving DecidableEq, Inhabited

/-! ## The command codes of abstract_noc.h -/

def CMD_NOP : Byte := 0
def CMD_READ : Byte := 1
def CMD_WRITE : Byte := 2

end Rabbits
