import BranchPrediction.Library.ForwardCode

/-! The TCG operations that the translator emits for branches, and their
documented meaning. -/
namespace BranchPrediction.Translator

open ForwardCode

abbrev U32 := BitVec 32
abbrev U64 := BitVec 64

/-- A TCG variable: `cpu_pc`, an element of `cpu_X`, or a temporary. -/
inductive Var where
  | cpuPc
  | cpuX (i : Nat)
  | temp (i : Nat)
deriving DecidableEq, Repr

inductive TcgCond where
  | eq
  | ne
deriving DecidableEq, Repr

/-- The operations. `testCc` stands for the operations of `arm_gen_test_cc`, and
`exitTb` has the jump slot that is added to the address of the block, if any. -/
inductive TcgOp where
  | moviI32 (ret : Var) (arg : U32)
  | moviI64 (ret : Var) (arg : U64)
  | movI64 (ret arg : Var)
  | ext32uI64 (ret arg : Var)
  | andiI64 (ret arg1 : Var) (arg2 : U64)
  | brcondiI64 (cond : TcgCond) (arg1 : Var) (arg2 : U64) (label : Nat)
  | testCc (cc : Nat) (label : Nat)
  | gotoTb (n : Nat)
  | exitTb (slot : Option Nat)
  | helperPrinter (pc addr tNt : Var)
  | helperClearPstateSs
  | helperExceptionInternal (excp : Var)
  | helperExceptionWithSyndrome (excp syndrome targetEl : Var)
  | helperExceptionReturn
deriving DecidableEq, Repr

abbrev Code := List (Item TcgOp Nat)

structure Flags where
  n : Bool
  z : Bool
  c : Bool
  v : Bool
deriving DecidableEq, Repr

/-- The guest state that branches read and write. -/
structure Cpu where
  pc : U64
  X : Nat → U64
  flags : Flags
  pstateSs : Bool

/-- The arguments of a call of `printer`. -/
structure PrinterCall where
  pc : U64
  addr : U64
  tNt : U64
deriving DecidableEq, Repr

/-- The guest, the temporaries that are alive, and the calls of `printer` so far. -/
structure Exec where
  cpu : Cpu
  temp : Nat → Option U64
  printed : List PrinterCall

/-- How the execution of a block ends: in the block that a jump slot is linked
to, in the main loop, in an exception, or in a use of a dead temporary. -/
inductive TbExit where
  | chained (n : Nat)
  | mainLoop (slot : Option Nat)
  | exception (excp syndrome targetEl : U32)
  | exceptionInternal (excp : U32)
  | deadTemp
deriving DecidableEq, Repr

/-- What surrounds the block: the address of the block that each jump slot is
linked to, the condition codes, and the effect of an exception return. -/
structure Host where
  linked : Nat → Option U64
  testCc : Nat → Flags → Bool
  exceptionReturn : Cpu → Cpu

namespace Exec

/-- The value of a variable; `none` for a dead temporary. -/
def read (s : Exec) : Var → Option U64
  | .cpuPc => some s.cpu.pc
  | .cpuX i => some (s.cpu.X i)
  | .temp i => s.temp i

def write (s : Exec) (ret : Var) (value : U64) : Exec :=
  match ret with
  | .cpuPc => { s with cpu := { s.cpu with pc := value } }
  | .cpuX i => { s with cpu := { s.cpu with X := Function.update s.cpu.X i value } }
  | .temp i => { s with temp := Function.update s.temp i (some value) }

/-- Temporaries do not survive the end of a basic block. -/
def endBlock (s : Exec) : Exec := { s with temp := fun _ => none }

/-- Go on with the value of a variable. -/
def withValue (s : Exec) (arg : Var) (k : U64 → Effect Nat Exec TbExit) :
    Effect Nat Exec TbExit :=
  match s.read arg with
  | some value => k value
  | none => .leave .deadTemp s

end Exec

def TcgCond.holds (cond : TcgCond) (a b : U64) : Bool :=
  match cond with
  | .eq => a = b
  | .ne => a ≠ b

def stepOp (host : Host) (op : TcgOp) (s : Exec) : Effect Nat Exec TbExit :=
  match op with
  | .moviI32 ret arg => .next (s.write ret (arg.setWidth 64))
  | .moviI64 ret arg => .next (s.write ret arg)
  | .movI64 ret arg => s.withValue arg fun value => .next (s.write ret value)
  | .ext32uI64 ret arg =>
      s.withValue arg fun value => .next (s.write ret ((value.setWidth 32).setWidth 64))
  | .andiI64 ret arg1 arg2 => s.withValue arg1 fun value => .next (s.write ret (value &&& arg2))
  | .brcondiI64 cond arg1 arg2 label =>
      s.withValue arg1 fun value =>
        if cond.holds value arg2 then .jump label s.endBlock else .next s.endBlock
  | .testCc cc label =>
      if host.testCc cc s.cpu.flags then .jump label s.endBlock else .next s.endBlock
  -- the guest goes on at the address of the linked block
  | .gotoTb n =>
      match host.linked n with
      | some dest => .leave (.chained n) (s.write .cpuPc dest)
      | none => .next s.endBlock
  | .exitTb slot => .leave (.mainLoop slot) s
  | .helperPrinter pc addr tNt =>
      s.withValue pc fun pc => s.withValue addr fun addr => s.withValue tNt fun tNt =>
        .next { s with printed := s.printed ++ [⟨pc, addr, tNt⟩] }
  | .helperClearPstateSs => .next { s with cpu := { s.cpu with pstateSs := false } }
  | .helperExceptionInternal excp =>
      s.withValue excp fun excp => .leave (.exceptionInternal (excp.setWidth 32)) s
  | .helperExceptionWithSyndrome excp syndrome targetEl =>
      s.withValue excp fun excp => s.withValue syndrome fun syndrome =>
        s.withValue targetEl fun targetEl =>
          .leave (.exception (excp.setWidth 32) (syndrome.setWidth 32) (targetEl.setWidth 32)) s
  | .helperExceptionReturn => .next { s with cpu := host.exceptionReturn s.cpu }

/-- A block is entered and left with no temporary alive. -/
def tcg (host : Host) : Machine TcgOp Nat Exec TbExit where
  step := stepOp host
  enter := Exec.endBlock

/-- Run the code of a block from its start. -/
def execute (host : Host) (code : Code) (cpu : Cpu) : Outcome Nat Exec TbExit :=
  run (tcg host) code none { cpu := cpu, temp := fun _ => none, printed := [] }

end BranchPrediction.Translator
