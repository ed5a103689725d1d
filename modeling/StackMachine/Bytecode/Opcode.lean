/-!
# Opcodes

The operations of the bytecode.  An opcode's tag is its place in the list of all opcodes; it is what
compiled code passes to a runtime call.
-/

namespace StackMachine

/-- The operations of the bytecode, in tag order. -/
inductive Opcode where
  | loadIntLit | loadCharLit | loadFloatLit | loadIntVar | loadLoclIntVar | loadClsInstIntVar
  | loadFloatVar | loadFuncVar | loadClsMem | loadInstMem | storIntVar | storLoclIntVar
  | storClsInstIntVar | storFloatVar | storFuncVar | copyIntVar | copyLoclIntVar
  | copyClsInstIntVar | copyFloatVar | loadByteAryElm | loadCharAryElm | loadIntAryElm
  | loadFloatAryElm | storByteAryElm | storCharAryElm | storIntAryElm | storFloatAryElm
  | loadArySize | eqlInt | neqlInt | lesInt | gtrInt | lesEqlInt | gtrEqlInt | eqlFloat
  | neqlFloat | lesFloat | gtrFloat | lesEqlFloat | gtrEqlFloat | andInt | orInt | addInt
  | subInt | mulInt | divInt | modInt | bitAndInt | bitOrInt | bitXorInt | bitNotInt | shlInt
  | shrInt | addFloat | subFloat | mulFloat | divFloat | florFloat | ceilFloat | sinFloat
  | cosFloat | tanFloat | asinFloat | acosFloat | atanFloat | atan2Float | modFloat | logFloat
  | powFloat | sqrtFloat | randFloat | i2f | f2i | s2i | s2f | i2s | f2s | mthdCall | dynMthdCall
  | jmp | lbl | rtrn | newByteAry | newCharAry | newIntAry | newFloatAry | newObjInst
  | newFuncInst | cpyByteAry | cpyCharAry | cpyIntAry | cpyFloatAry | zeroByteAry | zeroCharAry
  | zeroIntAry | zeroFloatAry | objInstCast | objTypeOf | trap | trapRtrn | swapInt | popInt
  | popFloat | asyncMthdCall | threadJoin | threadSleep | threadMutex | criticalStart
  | criticalEnd
  deriving DecidableEq, Repr

namespace Opcode

/-- Every opcode, in tag order. -/
def all : Array Opcode :=
  #[
    .loadIntLit, .loadCharLit, .loadFloatLit, .loadIntVar, .loadLoclIntVar, .loadClsInstIntVar,
    .loadFloatVar, .loadFuncVar, .loadClsMem, .loadInstMem, .storIntVar, .storLoclIntVar,
    .storClsInstIntVar, .storFloatVar, .storFuncVar, .copyIntVar, .copyLoclIntVar,
    .copyClsInstIntVar, .copyFloatVar, .loadByteAryElm, .loadCharAryElm, .loadIntAryElm,
    .loadFloatAryElm, .storByteAryElm, .storCharAryElm, .storIntAryElm, .storFloatAryElm,
    .loadArySize, .eqlInt, .neqlInt, .lesInt, .gtrInt, .lesEqlInt, .gtrEqlInt, .eqlFloat,
    .neqlFloat, .lesFloat, .gtrFloat, .lesEqlFloat, .gtrEqlFloat, .andInt, .orInt, .addInt,
    .subInt, .mulInt, .divInt, .modInt, .bitAndInt, .bitOrInt, .bitXorInt, .bitNotInt, .shlInt,
    .shrInt, .addFloat, .subFloat, .mulFloat, .divFloat, .florFloat, .ceilFloat, .sinFloat,
    .cosFloat, .tanFloat, .asinFloat, .acosFloat, .atanFloat, .atan2Float, .modFloat, .logFloat,
    .powFloat, .sqrtFloat, .randFloat, .i2f, .f2i, .s2i, .s2f, .i2s, .f2s, .mthdCall,
    .dynMthdCall, .jmp, .lbl, .rtrn, .newByteAry, .newCharAry, .newIntAry, .newFloatAry,
    .newObjInst, .newFuncInst, .cpyByteAry, .cpyCharAry, .cpyIntAry, .cpyFloatAry, .zeroByteAry,
    .zeroCharAry, .zeroIntAry, .zeroFloatAry, .objInstCast, .objTypeOf, .trap, .trapRtrn,
    .swapInt, .popInt, .popFloat, .asyncMthdCall, .threadJoin, .threadSleep, .threadMutex,
    .criticalStart, .criticalEnd]

def name : Opcode → String
  | .loadIntLit => "LoadIntLit"
  | .loadCharLit => "LoadCharLit"
  | .loadFloatLit => "LoadFloatLit"
  | .loadIntVar => "LoadIntVar"
  | .loadLoclIntVar => "LoadLoclIntVar"
  | .loadClsInstIntVar => "LoadClsInstIntVar"
  | .loadFloatVar => "LoadFloatVar"
  | .loadFuncVar => "LoadFuncVar"
  | .loadClsMem => "LoadClsMem"
  | .loadInstMem => "LoadInstMem"
  | .storIntVar => "StorIntVar"
  | .storLoclIntVar => "StorLoclIntVar"
  | .storClsInstIntVar => "StorClsInstIntVar"
  | .storFloatVar => "StorFloatVar"
  | .storFuncVar => "StorFuncVar"
  | .copyIntVar => "CopyIntVar"
  | .copyLoclIntVar => "CopyLoclIntVar"
  | .copyClsInstIntVar => "CopyClsInstIntVar"
  | .copyFloatVar => "CopyFloatVar"
  | .loadByteAryElm => "LoadByteAryElm"
  | .loadCharAryElm => "LoadCharAryElm"
  | .loadIntAryElm => "LoadIntAryElm"
  | .loadFloatAryElm => "LoadFloatAryElm"
  | .storByteAryElm => "StorByteAryElm"
  | .storCharAryElm => "StorCharAryElm"
  | .storIntAryElm => "StorIntAryElm"
  | .storFloatAryElm => "StorFloatAryElm"
  | .loadArySize => "LoadArySize"
  | .eqlInt => "EqlInt"
  | .neqlInt => "NeqlInt"
  | .lesInt => "LesInt"
  | .gtrInt => "GtrInt"
  | .lesEqlInt => "LesEqlInt"
  | .gtrEqlInt => "GtrEqlInt"
  | .eqlFloat => "EqlFloat"
  | .neqlFloat => "NeqlFloat"
  | .lesFloat => "LesFloat"
  | .gtrFloat => "GtrFloat"
  | .lesEqlFloat => "LesEqlFloat"
  | .gtrEqlFloat => "GtrEqlFloat"
  | .andInt => "AndInt"
  | .orInt => "OrInt"
  | .addInt => "AddInt"
  | .subInt => "SubInt"
  | .mulInt => "MulInt"
  | .divInt => "DivInt"
  | .modInt => "ModInt"
  | .bitAndInt => "BitAndInt"
  | .bitOrInt => "BitOrInt"
  | .bitXorInt => "BitXorInt"
  | .bitNotInt => "BitNotInt"
  | .shlInt => "ShlInt"
  | .shrInt => "ShrInt"
  | .addFloat => "AddFloat"
  | .subFloat => "SubFloat"
  | .mulFloat => "MulFloat"
  | .divFloat => "DivFloat"
  | .florFloat => "FlorFloat"
  | .ceilFloat => "CeilFloat"
  | .sinFloat => "SinFloat"
  | .cosFloat => "CosFloat"
  | .tanFloat => "TanFloat"
  | .asinFloat => "AsinFloat"
  | .acosFloat => "AcosFloat"
  | .atanFloat => "AtanFloat"
  | .atan2Float => "Atan2Float"
  | .modFloat => "ModFloat"
  | .logFloat => "LogFloat"
  | .powFloat => "PowFloat"
  | .sqrtFloat => "SqrtFloat"
  | .randFloat => "RandFloat"
  | .i2f => "I2F"
  | .f2i => "F2I"
  | .s2i => "S2I"
  | .s2f => "S2F"
  | .i2s => "I2S"
  | .f2s => "F2S"
  | .mthdCall => "MthdCall"
  | .dynMthdCall => "DynMthdCall"
  | .jmp => "Jmp"
  | .lbl => "Lbl"
  | .rtrn => "Rtrn"
  | .newByteAry => "NewByteAry"
  | .newCharAry => "NewCharAry"
  | .newIntAry => "NewIntAry"
  | .newFloatAry => "NewFloatAry"
  | .newObjInst => "NewObjInst"
  | .newFuncInst => "NewFuncInst"
  | .cpyByteAry => "CpyByteAry"
  | .cpyCharAry => "CpyCharAry"
  | .cpyIntAry => "CpyIntAry"
  | .cpyFloatAry => "CpyFloatAry"
  | .zeroByteAry => "ZeroByteAry"
  | .zeroCharAry => "ZeroCharAry"
  | .zeroIntAry => "ZeroIntAry"
  | .zeroFloatAry => "ZeroFloatAry"
  | .objInstCast => "ObjInstCast"
  | .objTypeOf => "ObjTypeOf"
  | .trap => "Trap"
  | .trapRtrn => "TrapRtrn"
  | .swapInt => "SwapInt"
  | .popInt => "PopInt"
  | .popFloat => "PopFloat"
  | .asyncMthdCall => "AsyncMthdCall"
  | .threadJoin => "ThreadJoin"
  | .threadSleep => "ThreadSleep"
  | .threadMutex => "ThreadMutex"
  | .criticalStart => "CriticalStart"
  | .criticalEnd => "CriticalEnd"

/-- The number of an opcode. -/
def tag (op : Opcode) : Nat := op.ctorIdx

/-- The opcode of a number. -/
def ofTag? (tag : Nat) : Option Opcode := all[tag]?

@[simp]
theorem ofTag?_tag (op : Opcode) : ofTag? op.tag = some op := by cases op <;> rfl

def ofName? (name : String) : Option Opcode := all.find? fun op => op.name == name

def isIntCompare : Opcode → Bool
  | .eqlInt | .neqlInt | .lesInt | .gtrInt | .lesEqlInt | .gtrEqlInt => true
  | _ => false

def isFloatCompare : Opcode → Bool
  | .eqlFloat | .neqlFloat | .lesFloat | .gtrFloat | .lesEqlFloat | .gtrEqlFloat => true
  | _ => false

end Opcode

end StackMachine
