import Libnetwork.Support.BigEndian

/-!
# Classic BPF

The classic BPF machine of Go's `golang.org/x/net/bpf`: raw instructions, the
instructions they stand for, the assembler and disassembler between the two,
and the virtual machine that runs a program on a packet of bytes.  The
machine has an accumulator `A` and an index register `X`; a jump skips
instructions forward; a load past the end of the packet ends the run with
verdict 0, as the operating system's machine does.

The instructions here are the packet loads (absolute, indirect and the
header-length load `LoadMemShift`), the operations of `A` with a constant,
the conditional jumps on a constant and the two returns.  Any other raw
instruction disassembles to itself, `Raw`, which the machine does not run.
-/

namespace ClassicBpf

structure RawInstruction where
  Op : UInt16
  Jt : UInt8
  Jf : UInt8
  K : UInt32
  deriving DecidableEq, Repr

/-- `ALUOp`, without the negation, which is an instruction of its own. -/
inductive ALUOp
  | Add
  | Sub
  | Mul
  | Div
  | Or
  | And
  | ShiftLeft
  | ShiftRight
  | Mod
  | Xor
  deriving DecidableEq, Repr

/-- The operator bits of an `ALUOp`. -/
def ALUOp.code : ALUOp → UInt16
  | .Add => 0x00
  | .Sub => 0x10
  | .Mul => 0x20
  | .Div => 0x30
  | .Or => 0x40
  | .And => 0x50
  | .ShiftLeft => 0x60
  | .ShiftRight => 0x70
  | .Mod => 0x90
  | .Xor => 0xa0

/-- The `ALUOp` of operator bits, `none` for the negation and the bits of
no operation. -/
def ALUOp.ofCode (op : UInt16) : Option ALUOp :=
  [ALUOp.Add, .Sub, .Mul, .Div, .Or, .And, .ShiftLeft, .ShiftRight, .Mod, .Xor].find?
    (·.code == op)

inductive JumpTest
  | JumpEqual
  | JumpNotEqual
  | JumpGreaterThan
  | JumpLessThan
  | JumpGreaterOrEqual
  | JumpLessOrEqual
  | JumpBitsSet
  | JumpBitsNotSet
  deriving DecidableEq, Repr

/-- `Instruction`: the instructions of the package that the machine here
runs, and `Raw` for a raw instruction that disassembles to itself. -/
inductive Instruction
  | LoadAbsolute (Off : UInt32) (Size : ℕ)
  | LoadIndirect (Off : UInt32) (Size : ℕ)
  | LoadMemShift (Off : UInt32)
  | ALUOpConstant (Op : ALUOp) (Val : UInt32)
  | JumpIf (Cond : JumpTest) (Val : UInt32) (SkipTrue SkipFalse : UInt8)
  | RetA
  | RetConstant (Val : UInt32)
  | Raw (ri : RawInstruction)
  deriving DecidableEq, Repr

/-! ## Assembling -/

/-- `opClsLoadA`, `opClsLoadX`, `opClsALU`, `opClsJump`, `opClsReturn`. -/
def opClsLoadA : UInt16 := 0
def opClsLoadX : UInt16 := 1
def opClsALU : UInt16 := 4
def opClsJump : UInt16 := 5
def opClsReturn : UInt16 := 6

/-- `opAddrModeAbsolute`, `opAddrModeIndirect`, `opAddrModeMemShift`. -/
def opAddrModeAbsolute : UInt16 := 0x20
def opAddrModeIndirect : UInt16 := 0x40
def opAddrModeMemShift : UInt16 := 0xa0

/-- `opJumpEqual`, `opJumpGT`, `opJumpGE`, `opJumpSet`. -/
def opJumpEqual : UInt16 := 0x10
def opJumpGT : UInt16 := 0x20
def opJumpGE : UInt16 := 0x30
def opJumpSet : UInt16 := 0x40

/-- `opRetSrcConstant`, `opRetSrcA`. -/
def opRetSrcConstant : UInt16 := 0x00
def opRetSrcA : UInt16 := 0x10

/-- `assembleLoad` into register `A` (`x = false`) or `X`. -/
def assembleLoad (x : Bool) (loadSize : ℕ) (mode : UInt16) (k : UInt32) :
    Except String RawInstruction :=
  let cls := if x then opClsLoadX else opClsLoadA
  match loadSize with
  | 1 => .ok ⟨cls ||| 0x10 ||| mode, 0, 0, k⟩
  | 2 => .ok ⟨cls ||| 0x08 ||| mode, 0, 0, k⟩
  | 4 => .ok ⟨cls ||| 0x00 ||| mode, 0, 0, k⟩
  | _ => .error "invalid load byte length"

/-- `jumpToRaw` with a constant operand: the tests without an opcode of their
own are their negation with the two skips swapped. -/
def jumpToRaw (test : JumpTest) (k : UInt32) (skipTrue skipFalse : UInt8) : RawInstruction :=
  let (cond, flip) : UInt16 × Bool :=
    match test with
    | .JumpEqual => (opJumpEqual, false)
    | .JumpNotEqual => (opJumpEqual, true)
    | .JumpGreaterThan => (opJumpGT, false)
    | .JumpLessThan => (opJumpGE, true)
    | .JumpGreaterOrEqual => (opJumpGE, false)
    | .JumpLessOrEqual => (opJumpGT, true)
    | .JumpBitsSet => (opJumpSet, false)
    | .JumpBitsNotSet => (opJumpSet, true)
  let (jt, jf) := if flip then (skipFalse, skipTrue) else (skipTrue, skipFalse)
  ⟨opClsJump ||| cond, jt, jf, k⟩

def Instruction.Assemble : Instruction → Except String RawInstruction
  | .LoadAbsolute off size => assembleLoad false size opAddrModeAbsolute off
  | .LoadIndirect off size => assembleLoad false size opAddrModeIndirect off
  | .LoadMemShift off => assembleLoad true 1 opAddrModeMemShift off
  | .ALUOpConstant op val => .ok ⟨opClsALU ||| op.code, 0, 0, val⟩
  | .JumpIf cond val skipTrue skipFalse => .ok (jumpToRaw cond val skipTrue skipFalse)
  | .RetA => .ok ⟨opClsReturn ||| opRetSrcA, 0, 0, 0⟩
  | .RetConstant val => .ok ⟨opClsReturn ||| opRetSrcConstant, 0, 0, val⟩
  | .Raw ri => .ok ri

/-- `Assemble`: the raw program, or the error of the first instruction that
does not assemble. -/
def Assemble (insts : List Instruction) : Except String (List RawInstruction) :=
  go 1 insts
where
  go : ℕ → List Instruction → Except String (List RawInstruction)
    | _, [] => .ok []
    | i, inst :: rest =>
        match inst.Assemble with
        | .error e => .error ("assembling instruction " ++ toString i ++ ": " ++ e)
        | .ok ri => (go (i + 1) rest).map (ri :: ·)

/-! ## Disassembling -/

/-- `jumpOpToTest`: a jump that skips nothing when true is read as the
negated test. -/
def jumpOpToTest (op : UInt16) (skipTrue skipFalse : UInt8) : JumpTest × UInt8 × UInt8 :=
  if skipTrue == 0 then
    (if op == opJumpEqual then .JumpNotEqual
      else if op == opJumpGT then .JumpLessOrEqual
      else if op == opJumpGE then .JumpLessThan
      else .JumpBitsNotSet, skipFalse, 0)
  else
    (if op == opJumpEqual then .JumpEqual
      else if op == opJumpGT then .JumpGreaterThan
      else if op == opJumpGE then .JumpGreaterOrEqual
      else .JumpBitsSet, skipTrue, skipFalse)

/-- The load width bits as a size. -/
def loadWidth (op : UInt16) : Option ℕ :=
  if op &&& 0x18 == 0x00 then some 4
  else if op &&& 0x18 == 0x08 then some 2
  else if op &&& 0x18 == 0x10 then some 1
  else none

/-- `RawInstruction.Disassemble`, for the instructions here. -/
def RawInstruction.Disassemble (ri : RawInstruction) : Instruction :=
  let cls := ri.Op &&& 0x7
  if cls == opClsLoadA || cls == opClsLoadX then
    match loadWidth ri.Op with
    | none => .Raw ri
    | some sz =>
        let mode := ri.Op &&& 0xe0
        -- the absolute loads above the extension offset are extensions
        if mode == opAddrModeAbsolute then
          if ri.K > 0xffffefff then .Raw ri else .LoadAbsolute ri.K sz
        else if mode == opAddrModeIndirect then .LoadIndirect ri.K sz
        else if mode == opAddrModeMemShift then .LoadMemShift ri.K
        else .Raw ri
  else if cls == opClsALU then
    match ALUOp.ofCode (ri.Op &&& 0xf0) with
    | some op => if ri.Op &&& 0x08 == 0 then .ALUOpConstant op ri.K else .Raw ri
    | none => .Raw ri
  else if cls == opClsJump then
    let op := ri.Op &&& 0xf0
    if op == opJumpEqual || op == opJumpGT || op == opJumpGE || op == opJumpSet then
      let (cond, skipTrue, skipFalse) := jumpOpToTest op ri.Jt ri.Jf
      if ri.Op &&& 0x08 == 0 then .JumpIf cond ri.K skipTrue skipFalse else .Raw ri
    else .Raw ri
  else if cls == opClsReturn then
    if ri.Op == opClsReturn ||| opRetSrcA then .RetA
    else if ri.Op == opClsReturn ||| opRetSrcConstant then .RetConstant ri.K
    else .Raw ri
  else .Raw ri

/-! ## The machine -/

/-- What `VM.Run` returns: the verdict, the error of an instruction it does
not know, or a panic. -/
inductive Result
  | ok (n : ℕ)
  | error (msg : String)
  | panic (msg : String)
  deriving DecidableEq, Repr

def aluOpCommon (op : ALUOp) (regA value : UInt32) : UInt32 :=
  match op with
  | .Add => regA + value
  | .Sub => regA - value
  | .Mul => regA * value
  | .Div => regA / value
  | .Or => regA ||| value
  | .And => regA &&& value
  | .ShiftLeft => regA <<< value
  | .ShiftRight => regA >>> value
  | .Mod => regA % value
  | .Xor => regA ^^^ value

/-- `jumpIfCommon`: how many instructions to skip. -/
def jumpIfCommon (cond : JumpTest) (skipTrue skipFalse : UInt8) (regA value : UInt32) : ℕ :=
  let ok := match cond with
    | .JumpEqual => regA == value
    | .JumpNotEqual => regA != value
    | .JumpGreaterThan => regA > value
    | .JumpLessThan => regA < value
    | .JumpGreaterOrEqual => regA ≥ value
    | .JumpLessOrEqual => regA ≤ value
    | .JumpBitsSet => regA &&& value != 0
    | .JumpBitsNotSet => regA &&& value == 0
  if ok then skipTrue.toNat else skipFalse.toNat

/-- `loadCommon`: the big-endian value of `size` bytes at `offset`, `none`
past the end of the packet; a size other than 1, 2 and 4 panics. -/
def loadCommon (pkt : List UInt8) (offset size : ℕ) : Option (Option UInt32) :=
  if offset + size > pkt.length then some none
  else if size = 1 ∨ size = 2 ∨ size = 4 then
    some (some (UInt32.ofNat (BigEndian.ofBytes ((pkt.drop offset).take size))))
  else none

/-- `loadMemShift`: four times the low four bits of the byte at `offset`. -/
def loadMemShift (pkt : List UInt8) (offset : ℕ) : Option UInt32 :=
  if offset + 1 > pkt.length then none
  else some ((pkt.getD offset 0 &&& 0x0f).toUInt32 * 4)

/-- The loop of `VM.Run` from instruction `i`, with `fuel` turns left: each
turn runs one instruction and moves at least one on. -/
def runLoop (filter : List Instruction) (pkt : List UInt8) :
    ℕ → ℕ → UInt32 → UInt32 → Result
  | 0, _, _, _ => .ok 0
  | fuel + 1, i, regA, regX =>
      match filter[i]? with
      -- past the last instruction
      | none => .ok 0
      | some ins =>
          match ins with
          | .ALUOpConstant op val => runLoop filter pkt fuel (i + 1) (aluOpCommon op regA val) regX
          | .JumpIf cond val skipTrue skipFalse =>
              runLoop filter pkt fuel (i + jumpIfCommon cond skipTrue skipFalse regA val + 1)
                regA regX
          | .LoadAbsolute off size =>
              match loadCommon pkt off.toNat size with
              | none => .panic "invalid load size"
              | some none => .ok 0
              | some (some regA) => runLoop filter pkt fuel (i + 1) regA regX
          | .LoadIndirect off size =>
              match loadCommon pkt (off.toNat + regX.toNat) size with
              | none => .panic "invalid load size"
              | some none => .ok 0
              | some (some regA) => runLoop filter pkt fuel (i + 1) regA regX
          | .LoadMemShift off =>
              match loadMemShift pkt off.toNat with
              | none => .ok 0
              | some regX => runLoop filter pkt fuel (i + 1) regA regX
          | .RetA => .ok regA.toNat
          | .RetConstant val => .ok val.toNat
          | .Raw _ => .error ("unknown Instruction at index " ++ toString i)

section Steps

/-! One turn of the machine at an instruction of each kind. -/

variable {filter : List Instruction} {pkt : List UInt8} {fuel i : ℕ} {regA regX : UInt32}

theorem runLoop_ALUOpConstant {op : ALUOp} {val : UInt32}
    (h : filter[i]? = some (.ALUOpConstant op val)) :
    runLoop filter pkt (fuel + 1) i regA regX =
      runLoop filter pkt fuel (i + 1) (aluOpCommon op regA val) regX := by
  rw [runLoop, h]

theorem runLoop_JumpIf {cond : JumpTest} {val : UInt32} {skipTrue skipFalse : UInt8}
    (h : filter[i]? = some (.JumpIf cond val skipTrue skipFalse)) :
    runLoop filter pkt (fuel + 1) i regA regX =
      runLoop filter pkt fuel (i + jumpIfCommon cond skipTrue skipFalse regA val + 1) regA regX := by
  rw [runLoop, h]

theorem runLoop_LoadIndirect {off : UInt32} {size : ℕ}
    (h : filter[i]? = some (.LoadIndirect off size)) :
    runLoop filter pkt (fuel + 1) i regA regX =
      match loadCommon pkt (off.toNat + regX.toNat) size with
      | none => .panic "invalid load size"
      | some none => .ok 0
      | some (some regA) => runLoop filter pkt fuel (i + 1) regA regX := by
  rw [runLoop, h]

theorem runLoop_LoadMemShift {off : UInt32} (h : filter[i]? = some (.LoadMemShift off)) :
    runLoop filter pkt (fuel + 1) i regA regX =
      match loadMemShift pkt off.toNat with
      | none => .ok 0
      | some regX => runLoop filter pkt fuel (i + 1) regA regX := by
  rw [runLoop, h]

theorem runLoop_RetConstant {val : UInt32} (h : filter[i]? = some (.RetConstant val)) :
    runLoop filter pkt (fuel + 1) i regA regX = .ok val.toNat := by
  rw [runLoop, h]

end Steps

theorem loadCommon_four {pkt : List UInt8} {offset : ℕ} (h : offset + 4 ≤ pkt.length) :
    loadCommon pkt offset 4 =
      some (some (UInt32.ofNat (BigEndian.ofBytes ((pkt.drop offset).take 4)))) := by
  simp [loadCommon, Nat.not_lt.mpr h]

theorem loadCommon_four_out {pkt : List UInt8} {offset : ℕ} (h : pkt.length < offset + 4) :
    loadCommon pkt offset 4 = some none := by
  simp [loadCommon, h]

/-- `VM.Run`: the verdict of the program on the packet. -/
def run (filter : List Instruction) (pkt : List UInt8) : Result :=
  runLoop filter pkt filter.length 0 0 0

/-- The raw program accepts the packet: the machine runs its disassembly to a
verdict other than 0, as the `bpf` match of `iptables` tests it. -/
def Accepts (prog : List RawInstruction) (pkt : List UInt8) : Bool :=
  match run (prog.map RawInstruction.Disassemble) pkt with
  | .ok n => n != 0
  | _ => false

end ClassicBpf
