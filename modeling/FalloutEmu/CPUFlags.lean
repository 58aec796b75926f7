import FalloutEmu.Host
import FalloutEmu.X86

/-! # The guest's flags and the host instructions that compute them -/
namespace FalloutEmu
open X86 (StatusFlags BinaryInstruction UnaryInstruction)

theorem ofBool_eq_one (b : Bool) : BitVec.ofBool b=1 ↔ b=true := by cases b <;> decide

structure FECPUFlags where
  CF : BitVec 1
  PF : BitVec 1
  AF : BitVec 1
  ZF : BitVec 1
  SF : BitVec 1
  TF : BitVec 1
  IF : BitVec 1
  DF : BitVec 1
  OF : BitVec 1
  deriving DecidableEq,Repr,Inhabited

namespace FECPUFlags

def cpuflags16 (cpuRegister : FECPUFlags) : U16 :=
  cpuRegister.CF.setWidth 16|||cpuRegister.PF.setWidth 16<<<2|||cpuRegister.AF.setWidth 16<<<4
    |||cpuRegister.ZF.setWidth 16<<<6|||cpuRegister.SF.setWidth 16<<<7
    |||cpuRegister.DF.setWidth 16<<<10|||cpuRegister.OF.setWidth 16<<<11

def fillFrom16it (cpuRegister : FECPUFlags) (vector : U16) : FECPUFlags :=
  { cpuRegister with
    CF := (vector&&&1).setWidth 1
    PF := (vector>>>2&&&1).setWidth 1
    AF := (vector>>>4&&&1).setWidth 1
    ZF := (vector>>>6&&&1).setWidth 1
    SF := (vector>>>7&&&1).setWidth 1
    DF := (vector>>>10&&&1).setWidth 1
    OF := (vector>>>11&&&1).setWidth 1 }

def fillParityFromByte (cpuRegister : FECPUFlags) (byte : U8) : FECPUFlags :=
  let setBits : U8 := (byte&&&1)+(1&&&byte>>>1)+(1&&&byte>>>2)+(1&&&byte>>>3)+(1&&&byte>>>4)
    +(1&&&byte>>>5)+(1&&&byte>>>6)+(1&&&byte>>>7)
  { cpuRegister with PF := if setBits%2=0 then 1 else 0 }

end FECPUFlags

def hostStatus (vector : U16) : StatusFlags :=
  ⟨vector.getLsbD 0,vector.getLsbD 2,vector.getLsbD 4,vector.getLsbD 6,vector.getLsbD 7,
    vector.getLsbD 11⟩

/-- The host flags word after an instruction that leaves the given status flags. -/
def withHostStatus (vector : U16) (status : StatusFlags) : U16 :=
  let bit (b : Bool) (i : ℕ) : U16 := (BitVec.ofBool b).setWidth 16<<<i
  vector&&&0xf72a|||bit status.CF 0|||bit status.PF 2|||bit status.AF 4|||bit status.ZF 6
    |||bit status.SF 7|||bit status.OF 11

namespace FECPUFlags

def status (flags : FECPUFlags) : StatusFlags :=
  ⟨flags.CF.getLsbD 0,flags.PF.getLsbD 0,flags.AF.getLsbD 0,flags.ZF.getLsbD 0,flags.SF.getLsbD 0,
    flags.OF.getLsbD 0⟩

theorem hostStatus_cpuflags16 (flags : FECPUFlags) : hostStatus flags.cpuflags16=flags.status := by
  simp [hostStatus,cpuflags16,status]

theorem status_fillFrom16it (flags : FECPUFlags) (vector : U16) :
    (flags.fillFrom16it vector).status=hostStatus vector := by
  simp [hostStatus,fillFrom16it,status]

end FECPUFlags

theorem hostStatus_withHostStatus (vector : U16) (status : StatusFlags) :
    hostStatus (withHostStatus vector status)=status := by
  obtain ⟨CF,PF,AF,ZF,SF,OF⟩ := status
  simp [hostStatus,withHostStatus]

/-- A status instruction leaves the flags that are not status flags. -/
theorem FECPUFlags.fillFrom16it_withHostStatus (flags : FECPUFlags) (status : StatusFlags) :
    flags.fillFrom16it (withHostStatus flags.cpuflags16 status)=
      { flags with
        CF := .ofBool status.CF
        PF := .ofBool status.PF
        AF := .ofBool status.AF
        ZF := .ofBool status.ZF
        SF := .ofBool status.SF
        OF := .ofBool status.OF } := by
  simp only [fillFrom16it,withHostStatus,cpuflags16,mk.injEq,true_and]
  refine ⟨?_,?_,?_,?_,?_,?_,?_⟩
  all_goals
    ext i hi
    have hbit : i=0 := by omega
    subst hbit
    simp

end FalloutEmu
