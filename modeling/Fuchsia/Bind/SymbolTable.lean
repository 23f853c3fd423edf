import Fuchsia.Bind.DependencyGraph

/-! The syntax of bind libraries: compound identifiers, includes and declarations. Reserved words
of Lean are replaced: the namespace of an identifier is its `scope`, the `using` list of a library
is its `includes`, and a declaration that extends a key is `extending`. -/
namespace Fuchsia.Bind

structure CompoundIdentifier where
  scope : List String
  name : String
  deriving DecidableEq

namespace CompoundIdentifier

def toString (id : CompoundIdentifier) : String :=
  if id.scope.isEmpty then id.name else String.intercalate "." id.scope++"."++id.name

def nest (id : CompoundIdentifier) (name : String) : CompoundIdentifier := ⟨id.scope++[id.name],name⟩

def parent (id : CompoundIdentifier) : Option CompoundIdentifier :=
  match id.scope.getLast? with
  | none => none
  | some name => some ⟨id.scope.dropLast,name⟩

end CompoundIdentifier

structure Include where
  name : CompoundIdentifier
  aliased : Option String
  deriving DecidableEq

namespace BindLibrary

inductive ValueType
  | number | str | bool | enum
  deriving DecidableEq

inductive Value
  | number (identifier : String) (value : UInt64)
  | str (identifier : String) (value : String)
  | bool (identifier : String) (value : Bool)
  | enum (identifier : String)
  deriving DecidableEq

def Value.identifier : Value → String
  | .number identifier _ => identifier
  | .str identifier _ => identifier
  | .bool identifier _ => identifier
  | .enum identifier => identifier

structure Declaration where
  identifier : CompoundIdentifier
  valueType : ValueType
  extending : Bool
  values : List Value
  deriving DecidableEq

structure Ast where
  name : CompoundIdentifier
  includes : List Include
  declarations : List Declaration
  deriving DecidableEq

end BindLibrary

/-! The symbol table of the bind compiler. Libraries come as text, so their parser is a
parameter. -/

open Effect DependencyGraph

inductive Symbol
  | deprecatedKey (key : UInt32)
  | key (name : String) (valueType : BindLibrary.ValueType)
  | numberValue (value : UInt64)
  | stringValue (value : String)
  | boolValue (value : Bool)
  | enumValue (value : String)
  deriving DecidableEq

def Symbol.kind : Symbol → ℕ
  | .deprecatedKey _ => 0
  | .key _ _ => 1
  | .numberValue _ => 2
  | .stringValue _ => 3
  | .boolValue _ => 4
  | .enumValue _ => 5

abbrev SymbolTable : Type := AList fun _ : CompoundIdentifier => Symbol

inductive LinterError
  | libraryNameMustNotContainUnderscores (name : CompoundIdentifier)

def lintLibrary (library : BindLibrary.Ast) : Except LinterError Unit :=
  if '_' ∈ library.name.name.toList then .error (.libraryNameMustNotContainUnderscores library.name)
  else .ok ()

/-- The errors of the compiler; `P` are those of the parser. -/
inductive CompilerError (P : Type)
  | bindParserError (e : P)
  | dependencyError (e : DependencyError CompoundIdentifier)
  | linterError (e : LinterError)
  | duplicateIdentifier (id : CompoundIdentifier)
  | typeMismatch (id : CompoundIdentifier)
  | unresolvedQualification (id : CompoundIdentifier)
  | undeclaredKey (id : CompoundIdentifier)
  | missingExtendsKeyword (id : CompoundIdentifier)
  | invalidExtendsKeyword (id : CompoundIdentifier)
  | unknownKey (id : CompoundIdentifier)
  | ifStatementMustBeTerminal
  | trueStatementMustBeIsolated
  | falseStatementMustBeIsolated

variable {P : Type}

def resolveDependencies (order : Traversal) (includes : List Include) (libraries : List BindLibrary.Ast) :
    Effect Unit (CompilerError P) (List BindLibrary.Ast) :=
  isolate (do
    libraries.forM fun library => insertNode library.name library
    includes.forM fun i => insertEdgeFromRoot i.name
    libraries.forM fun library =>
      library.includes.forM fun i => insertEdge library.name i.name
    resolve order) new .dependencyError

def fuchsia : CompoundIdentifier := ⟨[],"fuchsia"⟩

def findQualifiedIdentifier (declaration : BindLibrary.Declaration) (includes : List Include)
    (localQualified : CompoundIdentifier) : Except (CompilerError P) CompoundIdentifier :=
  match declaration.identifier.parent with
  | some scope =>
    if !declaration.extending then .error (.missingExtendsKeyword declaration.identifier)
    else if scope = fuchsia then .ok declaration.identifier
    else
      match includes.find? fun i => decide (scope = i.name ∨ some scope.toString = i.aliased) with
      | none => .error (.unresolvedQualification declaration.identifier)
      | some i => .ok (i.name.nest declaration.identifier.name)
  | none =>
    if declaration.extending then .error (.invalidExtendsKeyword localQualified)
    else .ok localQualified

def declareKey (table : SymbolTable) (declaration : BindLibrary.Declaration)
    (qualified : CompoundIdentifier) : Except (CompilerError P) SymbolTable :=
  match table.lookup qualified with
  | some (.key _ valueType) =>
    if !declaration.extending then .error (.duplicateIdentifier qualified)
    else if declaration.valueType ≠ valueType then .error (.typeMismatch qualified)
    else .ok table
  | some (.deprecatedKey _) => .ok table
  | some _ => .error (.typeMismatch qualified)
  | none =>
    if declaration.extending then .error (.undeclaredKey qualified)
    else .ok (table.insert qualified (.key qualified.toString declaration.valueType))

def valueSymbol (qualified : CompoundIdentifier) : BindLibrary.Value → Symbol
  | .number _ value => .numberValue value
  | .str _ value => .stringValue value
  | .bool _ value => .boolValue value
  | .enum _ => .enumValue qualified.toString

def declareValue (localQualified : CompoundIdentifier) (table : SymbolTable) (value : BindLibrary.Value) :
    Except (CompilerError P) SymbolTable :=
  let qualified := localQualified.nest value.identifier
  if qualified ∈ table then .error (.duplicateIdentifier qualified)
  else .ok (table.insert qualified (valueSymbol qualified value))

def declare (library : BindLibrary.Ast) (table : SymbolTable) (declaration : BindLibrary.Declaration) :
    Except (CompilerError P) SymbolTable := do
  let localQualified := library.name.nest declaration.identifier.name
  let qualified ← findQualifiedIdentifier declaration library.includes localQualified
  let table ← declareKey table declaration qualified
  declaration.values.foldlM (declareValue localQualified) table

def deprecatedKeys : List (String×UInt32) :=
  [("BIND_PROTOCOL",0x0001),("BIND_AUTOBIND",0x0002),("BIND_COMPOSITE",0x0003),
   ("BIND_FIDL_PROTOCOL",0x0004),("BIND_PLATFORM_DEV_VID",0x0300),("BIND_PCI_VID",0x0100),
   ("BIND_PCI_DID",0x0101),("BIND_PCI_CLASS",0x0102),("BIND_PCI_SUBCLASS",0x0103),
   ("BIND_PCI_INTERFACE",0x0104),("BIND_PCI_REVISION",0x0105),("BIND_PCI_COMPONENT",0x0106),
   ("BIND_PCI_TOPO",0x0107),("BIND_USB_VID",0x0200),("BIND_USB_PID",0x0201),
   ("BIND_USB_CLASS",0x0202),("BIND_USB_SUBCLASS",0x0203),("BIND_USB_PROTOCOL",0x0204),
   ("BIND_USB_INTERFACE_NUMBER",0x0205),("BIND_PLATFORM_DEV_VID",0x0300),
   ("BIND_PLATFORM_DEV_PID",0x0301),("BIND_PLATFORM_DEV_DID",0x0302),
   ("BIND_PLATFORM_PROTO",0x0303),("BIND_PLATFORM_DEV_INSTANCE_ID",0x0304),
   ("BIND_ACPI_BUS_TYPE",0x0400),("BIND_IHDA_CODEC_VID",0x0500),("BIND_IHDA_CODEC_DID",0x0501),
   ("BIND_IHDA_CODEC_MAJOR_REV",0x0502),("BIND_IHDA_CODEC_MINOR_REV",0x0503),
   ("BIND_IHDA_CODEC_VENDOR_REV",0x0504),("BIND_IHDA_CODEC_VENDOR_STEP",0x0505),
   ("BIND_SERIAL_CLASS",0x0600),("BIND_SERIAL_VID",0x0601),("BIND_SERIAL_PID",0x0602),
   ("BIND_NAND_CLASS",0x0700),("BIND_BT_GATT_SVC_UUID16",0x0800),
   ("BIND_BT_GATT_SVC_UUID128_1",0x0801),("BIND_BT_GATT_SVC_UUID128_2",0x0802),
   ("BIND_BT_GATT_SVC_UUID128_3",0x0803),("BIND_BT_GATT_SVC_UUID128_4",0x0804),
   ("BIND_SDIO_VID",0x0900),("BIND_SDIO_PID",0x0901),("BIND_SDIO_FUNCTION",0x0902),
   ("BIND_I2C_CLASS",0x0A00),("BIND_I2C_BUS_ID",0x0A01),("BIND_I2C_ADDRESS",0x0A02),
   ("BIND_GPIO_PIN",0x0A10),("BIND_POWER_DOMAIN",0x0A20),("BIND_POWER_DOMAIN_COMPOSITE",0x0A21),
   ("BIND_CLOCK_ID",0x0A30),("BIND_SPI_CLASS",0x0A40),("BIND_SPI_BUS_ID",0x0A41),
   ("BIND_SPI_CHIP_SELECT",0x0A42),("BIND_PWM_ID",0x0A50),("BIND_INIT_STEP",0x0A60),
   ("BIND_CODEC_INSTANCE",0x0A70),("BIND_REGISTER_ID",0x0A80),("BIND_POWER_SENSOR_DOMAIN",0x0A90)]

def getDeprecatedSymbols : SymbolTable :=
  deprecatedKeys.foldl (fun table e => table.insert (fuchsia.nest e.1) (.deprecatedKey e.2)) ∅

def constructSymbolTable (libraries : List BindLibrary.Ast) : Except (CompilerError P) SymbolTable :=
  libraries.foldlM (fun table library => library.declarations.foldlM (declare library) table)
    getDeprecatedSymbols

def parseLibrary (parse : String → Except P BindLibrary.Ast) (lint : Bool) (text : String) :
    Except (CompilerError P) BindLibrary.Ast := do
  let ast ← (parse text).mapError .bindParserError
  if lint then (lintLibrary ast).mapError .linterError
  pure ast

def getSymbolTableFromLibraries (parse : String → Except P BindLibrary.Ast) (order : Traversal)
    (includes : List Include) (libraries : List String) (lint : Bool) :
    Effect Unit (CompilerError P) SymbolTable := do
  let asts ← ofExcept (libraries.mapM (parseLibrary parse lint))
  let dependencies ← resolveDependencies order includes asts
  ofExcept (constructSymbolTable dependencies)

/-! Bind rules, and what they say of the properties of a device. -/

structure Span where
  offset : ℕ
  line : UInt32
  fragment : String
  deriving DecidableEq

inductive Value
  | numericLiteral (value : UInt64)
  | stringLiteral (value : String)
  | boolLiteral (value : Bool)
  | identifier (id : CompoundIdentifier)
  deriving DecidableEq

inductive ConditionOp
  | equals | notEquals
  deriving DecidableEq

structure Condition where
  span : Span
  lhs : CompoundIdentifier
  op : ConditionOp
  rhs : Value
  deriving DecidableEq

inductive Statement
  | conditionStatement (span : Span) (condition : Condition)
  | accept (span : Span) (identifier : CompoundIdentifier) (values : List Value)
  | ifElse (span : Span) (blocks : List (Condition×List Statement)) (elseBlock : List Statement)
  | falseStatement (span : Span)
  | trueStatement (span : Span)

lemma Statement.induct {S : Statement → Prop} {B : List Statement → Prop} {R : List (Condition×List Statement) → Prop}
    (condition : ∀ span c,S (.conditionStatement span c)) (accept : ∀ span id values,S (.accept span id values))
    (ifElse : ∀ span blocks elseBlock,R blocks → B elseBlock → S (.ifElse span blocks elseBlock))
    (falseStatement : ∀ span,S (.falseStatement span)) (trueStatement : ∀ span,S (.trueStatement span)) (nil : B [])
    (cons : ∀ s ss,S s → B ss → B (s::ss)) (noBranch : R []) (branch : ∀ c b rest,B b → R rest → R ((c,b)::rest)) :
    (∀ s,S s) ∧ (∀ b,B b) ∧ ∀ bs,R bs := by
  have hs : ∀ s,S s := by
    intro s
    refine @Statement.rec S R B (fun e => B e.2)
      condition accept (fun span blocks elseBlock h h' => ifElse span blocks elseBlock h h')
      falseStatement trueStatement noBranch ?_ nil ?_ ?_ s
    · rintro ⟨c,b⟩ rest hb hrest
      exact branch c b rest hb hrest
    · exact fun s ss h h' => cons s ss h h'
    · exact fun c b hb => hb
  have hb : ∀ b,B b := by
    intro b
    induction b with
    | nil => exact nil
    | cons s ss ih => exact cons s ss (hs s) ih
  refine ⟨hs,hb,fun bs => ?_⟩
  induction bs with
  | nil => exact noBranch
  | cons e rest ih => exact branch e.1 e.2 rest (hb e.2) ih

inductive PropertyKey
  | numberKey (key : UInt64)
  | stringKey (key : String)
  deriving DecidableEq

abbrev DeviceProperties : Type := AList fun _ : PropertyKey => Symbol

def Symbol.propertyKey : Symbol → Option PropertyKey
  | .deprecatedKey k => some (.numberKey k.toUInt64)
  | .key name _ => some (.stringKey name)
  | _ => none

def Value.symbol (table : SymbolTable) : Value → Option Symbol
  | .numericLiteral value => some (.numberValue value)
  | .stringLiteral value => some (.stringValue value)
  | .boolLiteral value => some (.boolValue value)
  | .identifier id => table.lookup id

def propertyEquals (table : SymbolTable) (properties : DeviceProperties) (key : CompoundIdentifier)
    (value : Value) : Bool :=
  match (table.lookup key).bind Symbol.propertyKey,value.symbol table with
  | some k,some v => decide (properties.lookup k = some v)
  | _,_ => false

section Meaning

variable (equals : CompoundIdentifier → Value → Bool)

def Condition.holds (c : Condition) : Bool :=
  match c.op with
  | .equals => equals c.lhs c.rhs
  | .notEquals => !equals c.lhs c.rhs

mutual

def Statement.holds : Statement → Bool
  | .conditionStatement _ c => c.holds equals
  | .accept _ key values => values.any (equals key)
  | .ifElse _ blocks elseBlock => branchesHold (blockHolds elseBlock) blocks
  | .falseStatement _ => false
  | .trueStatement _ => true

def blockHolds : List Statement → Bool
  | [] => true
  | s::ss => s.holds && blockHolds ss

def branchesHold (otherwise : Bool) : List (Condition×List Statement) → Bool
  | [] => otherwise
  | (c,b)::rest => if c.holds equals then blockHolds b else branchesHold otherwise rest

end

end Meaning

mutual

def Statement.comparisons : Statement → List (CompoundIdentifier×Value)
  | .conditionStatement _ c => [(c.lhs,c.rhs)]
  | .accept _ key values => values.map fun v => (key,v)
  | .ifElse _ blocks elseBlock => branchComparisons blocks++blockComparisons elseBlock
  | .falseStatement _ => []
  | .trueStatement _ => []

def blockComparisons : List Statement → List (CompoundIdentifier×Value)
  | [] => []
  | s::ss => s.comparisons++blockComparisons ss

def branchComparisons : List (Condition×List Statement) → List (CompoundIdentifier×Value)
  | [] => []
  | (c,b)::rest => (c.lhs,c.rhs)::(blockComparisons b++branchComparisons rest)

end

end Fuchsia.Bind
