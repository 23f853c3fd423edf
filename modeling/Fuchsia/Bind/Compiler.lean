import Fuchsia.Bind.SymbolTable

/-! The bind compiler: from statements to symbolic instructions with labels. -/
namespace Fuchsia.Bind

open Effect

inductive SymbolicInstruction
  | abortIfEqual (lhs rhs : Symbol)
  | abortIfNotEqual (lhs rhs : Symbol)
  | label (label : UInt32)
  | unconditionalJump (label : UInt32)
  | jumpIfEqual (lhs rhs : Symbol) (label : UInt32)
  | jumpIfNotEqual (lhs rhs : Symbol) (label : UInt32)
  | unconditionalAbort
  | unconditionalBind
  deriving DecidableEq

inductive AstLocation
  | conditionStatement (statement : Statement)
  | acceptStatementValue (identifier : CompoundIdentifier) (value : Value) (span : Span)
  | acceptStatementFailure (identifier : CompoundIdentifier) (symbol : Symbol) (span : Span)
  | ifCondition (condition : Condition)
  | falseStatement (statement : Statement)

structure SymbolicInstructionInfo where
  location : Option AstLocation
  instruction : SymbolicInstruction

structure Compiler where
  instructions : List SymbolicInstructionInfo
  nextLabelId : UInt32

namespace Compiler

variable {P : Type}

abbrev Compilation (P A : Type) : Type := Effect Compiler (CompilerError P) A

def new : Compiler := ⟨[],0⟩

def push (location : Option AstLocation) (instruction : SymbolicInstruction) : Compilation P Unit :=
  modify fun c => {c with instructions := c.instructions++[⟨location,instruction⟩]}

def getUniqueLabel : Compilation P UInt32 := do
  let c ← get
  modify fun c => {c with nextLabelId := c.nextLabelId+1}
  pure c.nextLabelId

variable (table : SymbolTable)

def lookupIdentifier (identifier : CompoundIdentifier) : Compilation P Symbol :=
  match table.lookup identifier with
  | none => throw (.unknownKey identifier)
  | some symbol => pure symbol

def lookupValue : Value → Compilation P Symbol
  | .numericLiteral n => pure (.numberValue n)
  | .stringLiteral s => pure (.stringValue s)
  | .boolLiteral b => pure (.boolValue b)
  | .identifier identifier =>
    match table.lookup identifier with
    | none => throw (.unknownKey identifier)
    | some symbol => pure symbol

def compileAcceptValues (span : Span) (identifier : CompoundIdentifier) (lhs : Symbol) (label : UInt32) :
    List Value → Compilation P Unit
  | [] => pure ()
  | value::values => do
    let rhs ← lookupValue table value
    push (some (.acceptStatementValue identifier value span)) (.jumpIfEqual lhs rhs label)
    compileAcceptValues span identifier lhs label values

mutual

/-- One statement of a block of `count` statements, which is `last` if none follows it. -/
def compileStatement (count : ℕ) (last : Bool) : Statement → Compilation P Unit
  | .conditionStatement span condition => do
    let lhs ← lookupIdentifier table condition.lhs
    let rhs ← lookupValue table condition.rhs
    push (some (.conditionStatement (.conditionStatement span condition)))
      (match condition.op with
      | .equals => .abortIfNotEqual lhs rhs
      | .notEquals => .abortIfEqual lhs rhs)
  | .accept span identifier values => do
    let lhs ← lookupIdentifier table identifier
    let label ← getUniqueLabel
    compileAcceptValues table span identifier lhs label values
    push (some (.acceptStatementFailure identifier lhs span)) .unconditionalAbort
    push none (.label label)
  | .ifElse _ blocks elseBlock =>
    if !last then throw .ifStatementMustBeTerminal
    else do
      let finalLabel ← getUniqueLabel
      compileBranches finalLabel blocks
      compileStatementsFrom elseBlock.length elseBlock
      push none (.label finalLabel)
  | .falseStatement span =>
    if count ≠ 1 then throw .falseStatementMustBeIsolated
    else push (some (.falseStatement (.falseStatement span))) .unconditionalAbort
  | .trueStatement _ =>
    if count ≠ 1 then throw .trueStatementMustBeIsolated else pure ()

def compileStatementsFrom (count : ℕ) : List Statement → Compilation P Unit
  | [] => pure ()
  | s::ss => do
    compileStatement count ss.isEmpty s
    compileStatementsFrom count ss

def compileBranches (finalLabel : UInt32) : List (Condition×List Statement) → Compilation P Unit
  | [] => pure ()
  | (condition,block)::rest => do
    let lhs ← lookupIdentifier table condition.lhs
    let rhs ← lookupValue table condition.rhs
    let label ← getUniqueLabel
    push (some (.ifCondition condition))
      (match condition.op with
      | .equals => .jumpIfNotEqual lhs rhs label
      | .notEquals => .jumpIfEqual lhs rhs label)
    compileStatementsFrom block.length block
    push none (.unconditionalJump finalLabel)
    push none (.label label)
    compileBranches finalLabel rest

end

def compileBlock (statements : List Statement) : Compilation P Unit :=
  compileStatementsFrom table statements.length statements

def compileStatements (statements : List Statement) (useNewBytecode : Bool) : Compilation P Unit := do
  compileBlock table statements
  if useNewBytecode then pure () else push none .unconditionalBind

end Compiler

def compileStatements {P : Type} (statements : List Statement) (table : SymbolTable) (useNewBytecode : Bool) :
    Effect Unit (CompilerError P) (List SymbolicInstructionInfo) :=
  isolate (do
    Compiler.compileStatements table statements useNewBytecode
    let c ← get
    pure c.instructions) Compiler.new id

/-! The shape of the code that the bind compiler generates, and what it does on an abstract machine
that skips forward to labels. -/

open List Result

inductive Fault
  | mismatch
  | missingLabel
  deriving DecidableEq

def readsEqual (properties : DeviceProperties) (lhs rhs : Symbol) : Except Fault Bool :=
  match lhs.propertyKey with
  | none => .ok false
  | some k =>
    match properties.lookup k with
    | none => .ok false
    | some v => if v.kind = rhs.kind then .ok (decide (v = rhs)) else .error .mismatch

/-- The run of symbolic instructions on a machine that compares as `reads` says, in which a jump skips to
the next place of its label. -/
def exec (reads : Symbol → Symbol → Except Fault Bool) : Option UInt32 → List SymbolicInstruction → Except Fault Bool
  | none,[] => .ok true
  | some _,[] => .error .missingLabel
  | some label,i::rest =>
    if i = .label label then exec reads none rest else exec reads (some label) rest
  | none,i::rest =>
    match i with
    | .abortIfEqual lhs rhs => do
      if ← reads lhs rhs then .ok false else exec reads none rest
    | .abortIfNotEqual lhs rhs => do
      if ← reads lhs rhs then exec reads none rest else .ok false
    | .label _ => exec reads none rest
    | .unconditionalJump label => exec reads (some label) rest
    | .jumpIfEqual lhs rhs label => do
      if ← reads lhs rhs then exec reads (some label) rest
      else exec reads none rest
    | .jumpIfNotEqual lhs rhs label => do
      if ← reads lhs rhs then exec reads none rest
      else exec reads (some label) rest
    | .unconditionalAbort => .ok false
    | .unconditionalBind => .ok true

section Shape

variable (table : SymbolTable)

def conditionCode (c : Condition) (lhs rhs : Symbol) : SymbolicInstruction :=
  match c.op with
  | .equals => .abortIfNotEqual lhs rhs
  | .notEquals => .abortIfEqual lhs rhs

def branchCode (c : Condition) (lhs rhs : Symbol) (label : UInt32) : SymbolicInstruction :=
  match c.op with
  | .equals => .jumpIfNotEqual lhs rhs label
  | .notEquals => .jumpIfEqual lhs rhs label

def acceptCode (span : Span) (key : CompoundIdentifier) (lhs : Symbol) (label : UInt32)
    (values : List (Value×Symbol)) : List SymbolicInstructionInfo :=
  values.map fun e => ⟨some (.acceptStatementValue key e.1 span),.jumpIfEqual lhs e.2 label⟩

mutual

def StatementCode : Statement → List SymbolicInstructionInfo → Prop
  | .conditionStatement span c,code => ∃ lhs rhs,
    table.lookup c.lhs = some lhs ∧ c.rhs.symbol table = some rhs ∧
      code = [⟨some (.conditionStatement (.conditionStatement span c)),conditionCode c lhs rhs⟩]
  | .accept span key values,code => ∃ lhs label pairs,
    table.lookup key = some lhs ∧ pairs.map Prod.fst = values ∧
      (∀ e ∈ pairs,e.1.symbol table = some e.2) ∧
      code = acceptCode span key lhs label pairs++
        [⟨some (.acceptStatementFailure key lhs span),.unconditionalAbort⟩,⟨none,.label label⟩]
  | .ifElse _ blocks elseBlock,code => ∃ label first second,
    BranchesCode label blocks first ∧ BlockCode elseBlock second ∧
      code = first++second++[⟨none,.label label⟩]
  | .falseStatement span,code =>
    code = [⟨some (.falseStatement (.falseStatement span)),.unconditionalAbort⟩]
  | .trueStatement _,code => code = []

def BlockCode : List Statement → List SymbolicInstructionInfo → Prop
  | [],code => code = []
  | s::ss,code => ∃ first second,StatementCode s first ∧ BlockCode ss second ∧ code = first++second

def BranchesCode (finalLabel : UInt32) :
    List (Condition×List Statement) → List SymbolicInstructionInfo → Prop
  | [],code => code = []
  | (c,b)::rest,code => ∃ lhs rhs label body others,
    table.lookup c.lhs = some lhs ∧ c.rhs.symbol table = some rhs ∧ BlockCode b body ∧
      BranchesCode finalLabel rest others ∧
      code = ⟨some (.ifCondition c),branchCode c lhs rhs label⟩::body++
        [⟨none,.unconditionalJump finalLabel⟩,⟨none,.label label⟩]++others

end

end Shape

variable {P : Type} {table : SymbolTable} {c c' : Compiler}

namespace Compiler

variable {key : CompoundIdentifier} {A : Type}

variable {f : Symbol → Compilation P A}

lemma lookupIdentifier_bind {a : A} (h : (lookupIdentifier table key >>= f) c = .ok a c') :
    ∃ s,table.lookup key = some s ∧ f s c = .ok a c' := by
  unfold lookupIdentifier at h
  cases hl : table.lookup key with
  | none =>
    rw [hl] at h
    cases h
  | some s => exact ⟨s,rfl,by simpa [hl] using h⟩

lemma lookupValue_bind {value : Value} {a : A} (h : (lookupValue table value >>= f) c = .ok a c') :
    ∃ s,value.symbol table = some s ∧ f s c = .ok a c' := by
  cases value with
  | identifier id => exact lookupIdentifier_bind h
  | _ => exact ⟨_,rfl,h⟩

lemma getUniqueLabel_ok {label : UInt32} (h : getUniqueLabel (P := P) c = .ok label c') :
    c'.instructions = c.instructions := by
  simp only [getUniqueLabel,get_bind,modify_bind,pure_apply,ok.injEq] at h
  rw [← h.2]

lemma push_ok {location : Option AstLocation} {instruction : SymbolicInstruction}
    (h : push (P := P) location instruction c = .ok () c') :
    c'.instructions = c.instructions++[⟨location,instruction⟩] := by
  simp only [push,modify_apply,ok.injEq,true_and] at h
  rw [← h]

lemma compileAcceptValues_ok {span : Span} {lhs : Symbol} {label : UInt32} {values : List Value}
    (h : compileAcceptValues (P := P) table span key lhs label values c = .ok () c') :
    ∃ pairs : List (Value×Symbol),pairs.map Prod.fst = values ∧ (∀ e ∈ pairs,e.1.symbol table = some e.2) ∧
      c'.instructions = c.instructions++acceptCode span key lhs label pairs := by
  induction values generalizing c with
  | nil =>
    simp only [compileAcceptValues,pure_apply,ok.injEq,true_and] at h
    exact ⟨[],rfl,by simp,by simp [acceptCode,h]⟩
  | cons value values ih =>
    rw [compileAcceptValues] at h
    obtain ⟨rhs,hsymbol,h⟩ := lookupValue_bind h
    obtain ⟨⟨⟩,c2,hpush,h⟩ := bind_eq_ok.mp h
    obtain ⟨pairs,hvalues,hpairs,hcode⟩ := ih h
    refine ⟨(value,rhs)::pairs,by simp [hvalues],?_,?_⟩
    · exact forall_mem_cons.mpr ⟨hsymbol,hpairs⟩
    · rw [hcode,push_ok hpush]
      simp [acceptCode]

lemma compile_code : (∀ s count last (c c' : Compiler),compileStatement (P := P) table count last s c = .ok () c' →
      ∃ code,StatementCode table s code ∧ c'.instructions = c.instructions++code) ∧
    (∀ ss count (c c' : Compiler),compileStatementsFrom (P := P) table count ss c = .ok () c' →
      ∃ code,BlockCode table ss code ∧ c'.instructions = c.instructions++code) ∧
    ∀ bs label (c c' : Compiler),compileBranches (P := P) table label bs c = .ok () c' →
      ∃ code,BranchesCode table label bs code ∧ c'.instructions = c.instructions++code := by
  apply Statement.induct
  case condition =>
    intro span condition count last c c' h
    rw [compileStatement] at h
    obtain ⟨lhs,hl,h⟩ := lookupIdentifier_bind h
    obtain ⟨rhs,hr,h⟩ := lookupValue_bind h
    refine ⟨_,?_,push_ok h⟩
    rw [StatementCode]
    exact ⟨lhs,rhs,hl,hr,rfl⟩
  case accept =>
    intro span key values count last c c' h
    rw [compileStatement] at h
    obtain ⟨lhs,hl,h⟩ := lookupIdentifier_bind h
    obtain ⟨label,c2,hlabel,h⟩ := bind_eq_ok.mp h
    obtain ⟨⟨⟩,c3,hvalues,h⟩ := bind_eq_ok.mp h
    obtain ⟨⟨⟩,c4,hpush,h⟩ := bind_eq_ok.mp h
    obtain ⟨pairs,hfst,hpairs,hcode⟩ := compileAcceptValues_ok hvalues
    refine ⟨acceptCode span key lhs label pairs++
      [⟨some (.acceptStatementFailure key lhs span),.unconditionalAbort⟩,⟨none,.label label⟩],?_,?_⟩
    · rw [StatementCode]
      exact ⟨lhs,label,pairs,hl,hfst,hpairs,rfl⟩
    · rw [push_ok h,push_ok hpush,hcode,getUniqueLabel_ok hlabel]
      simp
  case ifElse =>
    intro span blocks elseBlock hblocks helse count last c c' h
    rw [compileStatement] at h
    split_ifs at h
    · cases h
    · obtain ⟨label,c1,hlabel,h⟩ := bind_eq_ok.mp h
      obtain ⟨⟨⟩,c2,hbranches,h⟩ := bind_eq_ok.mp h
      obtain ⟨⟨⟩,c3,hbody,h⟩ := bind_eq_ok.mp h
      obtain ⟨first,hfirst,hcode1⟩ := hblocks label c1 c2 hbranches
      obtain ⟨second,hsecond,hcode2⟩ := helse _ c2 c3 hbody
      refine ⟨first++second++[⟨none,.label label⟩],?_,?_⟩
      · rw [StatementCode]
        exact ⟨label,first,second,hfirst,hsecond,rfl⟩
      · rw [push_ok h,hcode2,hcode1,getUniqueLabel_ok hlabel]
        simp
  case falseStatement =>
    intro span count last c c' h
    rw [compileStatement] at h
    split_ifs at h
    · cases h
    · exact ⟨_,by rw [StatementCode],push_ok h⟩
  case trueStatement =>
    intro span count last c c' h
    rw [compileStatement] at h
    split_ifs at h
    · cases h
    · simp only [pure_apply,ok.injEq,true_and] at h
      exact ⟨[],by rw [StatementCode],by simp [h]⟩
  case nil =>
    intro count c c' h
    simp only [compileStatementsFrom,pure_apply,ok.injEq,true_and] at h
    exact ⟨[],by rw [BlockCode],by simp [h]⟩
  case cons =>
    intro s ss hs hss count c c' h
    rw [compileStatementsFrom] at h
    obtain ⟨⟨⟩,c1,hfirst,h⟩ := bind_eq_ok.mp h
    obtain ⟨first,hcode1,h1⟩ := hs _ _ c c1 hfirst
    obtain ⟨second,hcode2,h2⟩ := hss _ c1 c' h
    refine ⟨first++second,?_,?_⟩
    · rw [BlockCode]
      exact ⟨first,second,hcode1,hcode2,rfl⟩
    · rw [h2,h1,append_assoc]
  case noBranch =>
    intro label c c' h
    simp only [compileBranches,pure_apply,ok.injEq,true_and] at h
    exact ⟨[],by rw [BranchesCode],by simp [h]⟩
  case branch =>
    intro condition b rest hb hrest finalLabel c c' h
    rw [compileBranches] at h
    obtain ⟨lhs,hl,h⟩ := lookupIdentifier_bind h
    obtain ⟨rhs,hr,h⟩ := lookupValue_bind h
    obtain ⟨label,c3,hlabel,h⟩ := bind_eq_ok.mp h
    obtain ⟨⟨⟩,c4,hif,h⟩ := bind_eq_ok.mp h
    obtain ⟨⟨⟩,c5,hbody,h⟩ := bind_eq_ok.mp h
    obtain ⟨⟨⟩,c6,hjump,h⟩ := bind_eq_ok.mp h
    obtain ⟨⟨⟩,c7,hpad,h⟩ := bind_eq_ok.mp h
    obtain ⟨body,hbodyCode,h5⟩ := hb _ c4 c5 hbody
    obtain ⟨others,hothers,h8⟩ := hrest finalLabel c7 c' h
    refine ⟨⟨some (.ifCondition condition),branchCode condition lhs rhs label⟩::body++
      [⟨none,.unconditionalJump finalLabel⟩,⟨none,.label label⟩]++others,?_,?_⟩
    · rw [BranchesCode]
      exact ⟨lhs,rhs,label,body,others,hl,hr,hbodyCode,hothers,rfl⟩
    · have hif' : c4.instructions = c3.instructions++
          [⟨some (.ifCondition condition),branchCode condition lhs rhs label⟩] := push_ok hif
      rw [h8,push_ok hpad,push_ok hjump,h5,hif',getUniqueLabel_ok hlabel]
      simp

end Compiler

end Fuchsia.Bind
