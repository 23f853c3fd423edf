import Fuchsia.Bind.Compiler
import Fuchsia.Lib.Bytes

/-! The encoder of the new bytecode: a section of symbols, and a section of instructions whose
jumps are patched with relative offsets once all labels are known. -/
namespace Fuchsia.Bind

open Effect Bytes

def bindMagicNum : ℕ := 0x42494E44

def symbMagicNum : ℕ := 0x53594E42

def instructionMagicNum : ℕ := 0x494E5354

def compositeMagicNum : ℕ := 0x434F4D50

def bytecodeVersion : ℕ := 2

def maxStringLength : ℕ := 255

def symbTblStartKey : UInt32 := 1

inductive RawOp
  | equalCondition | inequalCondition | unconditionalJump | jumpIfEqual | jumpIfNotEqual | jumpLandPad | abort
  deriving DecidableEq

def RawOp.toU8 : RawOp → UInt8
  | .equalCondition => 0x01
  | .inequalCondition => 0x02
  | .unconditionalJump => 0x10
  | .jumpIfEqual => 0x11
  | .jumpIfNotEqual => 0x12
  | .jumpLandPad => 0x20
  | .abort => 0x30

inductive RawValueType
  | key | numberValue | stringValue | boolValue | enumValue
  deriving DecidableEq

def RawValueType.toU8 : RawValueType → UInt8
  | .key => 0
  | .numberValue => 1
  | .stringValue => 2
  | .boolValue => 3
  | .enumValue => 4

inductive RawNodeType
  | primary | additional
  deriving DecidableEq

def RawNodeType.toU8 : RawNodeType → UInt8
  | .primary => 0x50
  | .additional => 0x51

inductive BindRulesEncodeError
  | invalidStringLength (value : String)
  | unsupportedSymbol
  | integerOutOfRange
  | mismatchValueTypes (lhs rhs : BindLibrary.ValueType)
  | incorrectTypesInValueComparison
  | duplicateLabel (label : UInt32)
  | missingLabel (label : UInt32)
  | invalidGotoLocation (label : UInt32)
  | jumpOffsetOutOfRange (label : UInt32)
  | matchNotSupported
  | missingCompositeDeviceName
  | missingCompositeNodeName
  | duplicateCompositeNodeName (name : String)

/-- The bytes of a string. -/
def utf8 (s : String) : List UInt8 := s.toByteArray.data.toList

structure SymbolTableEncoder where
  encodedSymbols : AList fun _ : String => UInt32
  uniqueKey : UInt32
  bytecode : List UInt8

namespace SymbolTableEncoder

def new : SymbolTableEncoder := ⟨∅,symbTblStartKey,[]⟩

def addSymbol (value : String) : Effect SymbolTableEncoder BindRulesEncodeError UInt32 :=
  if (utf8 value).length > maxStringLength then throw (.invalidStringLength value)
  else do
    let e ← get
    modify fun e => {
      encodedSymbols := e.encodedSymbols.insert value e.uniqueKey
      uniqueKey := e.uniqueKey+1
      bytecode := e.bytecode++leBytes 4 e.uniqueKey.toNat++utf8 value++[0]}
    pure e.uniqueKey

def getKey (value : String) : Effect SymbolTableEncoder BindRulesEncodeError UInt32 := do
  let e ← get
  match e.encodedSymbols.lookup value with
  | some key => pure key
  | none => addSymbol value

end SymbolTableEncoder

/-- The condition of an instruction. -/
inductive InstructionCondition
  | always
  | equal (lhs rhs : Symbol)
  | notEqual (lhs rhs : Symbol)

inductive Instruction
  | abort (condition : InstructionCondition)
  | matches (condition : InstructionCondition)
  | goto (condition : InstructionCondition) (label : UInt32)
  | label (label : UInt32)

def SymbolicInstruction.toInstruction : SymbolicInstruction → Instruction
  | .abortIfEqual lhs rhs => .abort (.equal lhs rhs)
  | .abortIfNotEqual lhs rhs => .abort (.notEqual lhs rhs)
  | .label l => .label l
  | .unconditionalJump l => .goto .always l
  | .jumpIfEqual lhs rhs l => .goto (.equal lhs rhs) l
  | .jumpIfNotEqual lhs rhs l => .goto (.notEqual lhs rhs) l
  | .unconditionalAbort => .abort .always
  | .unconditionalBind => .matches .always

structure JumpInstructionOffsetInfo where
  index : ℕ
  instOffset : ℕ

structure LabelInfo where
  index : Option ℕ
  jumpInstructions : List JumpInstructionOffsetInfo

structure InstructionEncoder where
  labelMap : AList fun _ : UInt32 => LabelInfo
  bytecode : List UInt8
  symbols : SymbolTableEncoder

/-- An order in which the labels of the hash map are visited. -/
structure LabelOrder where
  list : List (Sigma fun _ : UInt32 => LabelInfo) → List (Sigma fun _ : UInt32 => LabelInfo)
  perm : ∀ l,(list l).Perm l

def isSymbolKey : Symbol → Bool
  | .deprecatedKey _ => true
  | .key _ _ => true
  | _ => false

namespace InstructionEncoder

abbrev Encoding (A : Type) : Type := Effect InstructionEncoder BindRulesEncodeError A

def append (bytes : List UInt8) : Encoding Unit := modify fun e => {e with bytecode := e.bytecode++bytes}

def getKey (value : String) : Encoding UInt32 :=
  focus InstructionEncoder.symbols (fun e symbols => {e with symbols}) (SymbolTableEncoder.getKey value)

/-- A number is cut to its low 32 bits. -/
def appendValue (symbol : Symbol) : Encoding Unit := do
  let (valueType,value) ← show Encoding (RawValueType×UInt32) from
    match symbol with
    | .numberValue value => pure (.numberValue,value.toUInt32)
    | .boolValue value => pure (.boolValue,if value then 1 else 0)
    | .stringValue value => do
      let key ← getKey value
      pure (.stringValue,key)
    | .key name _ => do
      let key ← getKey name
      pure (.key,key)
    | .deprecatedKey key => pure (.numberValue,key)
    | .enumValue value => do
      let key ← getKey value
      pure (.enumValue,key)
  append (valueType.toU8::leBytes 4 value.toNat)

def valueTypeOf : Symbol → Option BindLibrary.ValueType
  | .numberValue _ => some .number
  | .stringValue _ => some .str
  | .boolValue _ => some .bool
  | .enumValue _ => some .enum
  | _ => none

def appendValueComparison (lhs rhs : Symbol) : Encoding Unit :=
  if !isSymbolKey lhs then throw .incorrectTypesInValueComparison
  else
    match valueTypeOf rhs,lhs with
    | none,_ => throw .incorrectTypesInValueComparison
    | some rhsType,.key _ lhsType =>
      if lhsType ≠ rhsType then throw (.mismatchValueTypes lhsType rhsType)
      else do
        appendValue lhs
        appendValue rhs
    | some _,_ => do
      appendValue lhs
      appendValue rhs

def appendAbortInstruction : InstructionCondition → Encoding Unit
  | .always => append [RawOp.abort.toU8]
  | .equal lhs rhs => do
    append [RawOp.inequalCondition.toU8]
    appendValueComparison lhs rhs
  | .notEqual lhs rhs => do
    append [RawOp.equalCondition.toU8]
    appendValueComparison lhs rhs

def appendJmpStatement (condition : InstructionCondition) (label : UInt32) : Encoding Unit := do
  let e ← get
  let offsetIndex := e.bytecode.length+1
  match condition with
  | .always => append (RawOp.unconditionalJump.toU8::leBytes 4 0)
  | .equal lhs rhs => do
    append (RawOp.jumpIfEqual.toU8::leBytes 4 0)
    appendValueComparison lhs rhs
  | .notEqual lhs rhs => do
    append (RawOp.jumpIfNotEqual.toU8::leBytes 4 0)
    appendValueComparison lhs rhs
  let e ← get
  let info := (e.labelMap.lookup label).getD ⟨none,[]⟩
  if info.index.isSome then throw (.invalidGotoLocation label)
  else modify fun e => {e with labelMap := e.labelMap.insert label {info with
    jumpInstructions := info.jumpInstructions++[⟨offsetIndex,e.bytecode.length-offsetIndex⟩]}}

def appendAndUpdateLabel (label : UInt32) : Encoding Unit := do
  let e ← get
  let info := (e.labelMap.lookup label).getD ⟨none,[]⟩
  if info.index.isSome then throw (.duplicateLabel label)
  else do
    modify fun e => {e with labelMap := e.labelMap.insert label {info with index := some e.bytecode.length}}
    append [RawOp.jumpLandPad.toU8]

def appendInstruction : Instruction → Encoding Unit
  | .abort condition => appendAbortInstruction condition
  | .goto condition label => appendJmpStatement condition label
  | .label label => appendAndUpdateLabel label
  | .matches _ => throw .matchNotSupported

def overwrite (bytes : List UInt8) (index : ℕ) (data : List UInt8) : List UInt8 :=
  bytes.take index++data++bytes.drop (index+data.length)

def patchJump (label : UInt32) (labelIndex : ℕ) (usage : JumpInstructionOffsetInfo) : Encoding Unit :=
  if labelIndex < usage.index+usage.instOffset then panicked
  else if 2^32 ≤ labelIndex-usage.index-usage.instOffset then throw (.jumpOffsetOutOfRange label)
  else do
    let e ← get
    if e.bytecode.length < usage.index+4 then panicked
    else modify fun e => {e with
      bytecode := overwrite e.bytecode usage.index (leBytes 4 (labelIndex-usage.index-usage.instOffset))}

def patchLabel (entry : Sigma fun _ : UInt32 => LabelInfo) : Encoding Unit :=
  match entry.2.index with
  | none => throw (.missingLabel entry.1)
  | some labelIndex => entry.2.jumpInstructions.forM (patchJump entry.1 labelIndex)

def encode (order : LabelOrder) (instructions : List SymbolicInstructionInfo) : Encoding Unit := do
  instructions.forM fun i => appendInstruction i.instruction.toInstruction
  let e ← get
  (order.list e.labelMap.entries).forM patchLabel

end InstructionEncoder

def encodeInstructions (order : LabelOrder) (instructions : List SymbolicInstructionInfo) :
    Effect SymbolTableEncoder BindRulesEncodeError (List UInt8) := fun symbols =>
  match InstructionEncoder.encode order instructions ⟨∅,[],symbols⟩ with
  | .ok _ e => .ok e.bytecode e.symbols
  | .fail error e => .fail error e.symbols
  | .panic => .panic

structure BindRules where
  symbolTable : SymbolTable
  instructions : List SymbolicInstructionInfo
  useNewBytecode : Bool

structure CompositeNode where
  name : String
  instructions : List SymbolicInstructionInfo

structure CompositeBindRules where
  deviceName : String
  symbolTable : SymbolTable
  primaryNode : CompositeNode
  additionalNodes : List CompositeNode

def sections (symbols : List UInt8) (magicNum : ℕ) (instructions : List UInt8) : List UInt8 :=
  beBytes 4 bindMagicNum++leBytes 4 bytecodeVersion++
    (beBytes 4 symbMagicNum++leBytes 4 (symbols.length%2^32)++symbols)++
    (beBytes 4 magicNum++leBytes 4 (instructions.length%2^32)++instructions)

def encodeToBytecodeV2 (order : LabelOrder) (bindRules : BindRules) :
    Effect Unit BindRulesEncodeError (List UInt8) :=
  isolate (do
    let instructionBytecode ← encodeInstructions order bindRules.instructions
    let e ← get
    pure (sections e.bytecode instructionMagicNum instructionBytecode)) SymbolTableEncoder.new id

def appendCompositeNode (order : LabelOrder) (node : CompositeNode) (isPrimary : Bool) :
    Effect SymbolTableEncoder BindRulesEncodeError (List UInt8) :=
  if node.name.isEmpty then throw .missingCompositeNodeName
  else do
    let nodeType := if isPrimary then RawNodeType.primary else RawNodeType.additional
    let nameId ← SymbolTableEncoder.getKey node.name
    let bytecode ← encodeInstructions order node.instructions
    pure (nodeType.toU8::leBytes 4 nameId.toNat++leBytes 4 (bytecode.length%2^32)++bytecode)

def appendAdditionalNodes (order : LabelOrder) :
    List String → List CompositeNode → Effect SymbolTableEncoder BindRulesEncodeError (List UInt8)
  | _,[] => pure []
  | names,node::nodes =>
    if node.name ∈ names then throw (.duplicateCompositeNodeName node.name)
    else do
      let first ← appendCompositeNode order node false
      let rest ← appendAdditionalNodes order (node.name::names) nodes
      pure (first++rest)

def encodeCompositeToBytecode (order : LabelOrder) (bindRules : CompositeBindRules) :
    Effect Unit BindRulesEncodeError (List UInt8) :=
  if bindRules.deviceName.isEmpty then throw .missingCompositeDeviceName
  else isolate (do
    let deviceNameId ← SymbolTableEncoder.getKey bindRules.deviceName
    let primary ← appendCompositeNode order bindRules.primaryNode true
    let additional ← appendAdditionalNodes order [bindRules.primaryNode.name] bindRules.additionalNodes
    let e ← get
    pure (sections e.bytecode compositeMagicNum (leBytes 4 deviceNameId.toNat++primary++additional)))
    SymbolTableEncoder.new id

end Fuchsia.Bind
