import Fuchsia.Bind.Matching

/-! Bind rules from the source to their match: the bytecode of plain and of composite rules says of a
device what the rules say, up to the numbers and names that it cannot represent. -/
namespace Fuchsia.Bind

open Effect Bytes InstructionEncoder Statement List List.Forall₂ DecodedCompositeBindRules

structure RulesNode where
  name : String
  statements : List Statement

structure CompositeRules where
  name : String
  primaryNode : RulesNode
  nodes : List RulesNode

section Compile

variable {P : Type} (table : SymbolTable) (useNewBytecode : Bool)

def compileNode (node : RulesNode) : Effect Unit (CompilerError P) CompositeNode := do
  let instructions ← compileStatements node.statements table useNewBytecode
  pure ⟨node.name,instructions⟩

def compileNodes : List RulesNode → Effect Unit (CompilerError P) (List CompositeNode)
  | [] => pure []
  | node::nodes => do
    let first ← compileNode table useNewBytecode node
    let rest ← compileNodes nodes
    pure (first::rest)

def compileBindComposite (rules : CompositeRules) : Effect Unit (CompilerError P) CompositeBindRules := do
  let primaryNode ← compileNode table useNewBytecode rules.primaryNode
  let additionalNodes ← compileNodes table useNewBytecode rules.nodes
  pure ⟨rules.name,table,primaryNode,additionalNodes⟩

end Compile

/-- Rules as the compiler gets them. -/
inductive Program
  | bind (statements : List Statement)
  | composite (rules : CompositeRules)

namespace Program

def blocks : Program → List (List Statement)
  | .bind statements => [statements]
  | .composite rules => (rules.primaryNode::rules.nodes).map RulesNode.statements

def names : Program → List String
  | .bind _ => []
  | .composite rules => rules.name::(rules.primaryNode::rules.nodes).map RulesNode.name

/-- The program compiles and encodes to the bytes. -/
def Encoded (P : Type) (order : LabelOrder) (table : SymbolTable) (bytes : List UInt8) : Program → Prop
  | .bind statements => ∃ instructions,
    compileStatements (P := P) statements table true () = .ok instructions () ∧
      encodeToBytecodeV2 order ⟨table,instructions,true⟩ () = .ok bytes ()
  | .composite rules => ∃ compiled,compileBindComposite (P := P) table true rules () = .ok compiled () ∧
    encodeCompositeToBytecode order compiled () = .ok bytes ()

end Program

def Mismatched (table : SymbolTable) (properties : DeviceProperties) (e : CompoundIdentifier×Value) : Prop :=
  ∃ lhs rhs k v,table.lookup e.1 = some lhs ∧ e.2.symbol table = some rhs ∧ lhs.propertyKey = some k ∧
    properties.lookup k = some v ∧ v.kind ≠ rhs.kind

/-- The result of a match is what the statements say; it may be an error only if a property is of another
kind than a value that it is compared with. -/
def Right (table : SymbolTable) (properties : DeviceProperties) (statements : List Statement) :
    Result Unit BytecodeError Bool → Prop
  | .ok b _ => b = blockHolds (propertyEquals table properties) statements
  | .fail e _ => e = .mismatchValueTypes ∧ ∃ c ∈ blockComparisons statements,Mismatched table properties c
  | .panic => False

def NodeRight (table : SymbolTable) (properties : DeviceProperties) (decoded : DecodedSymbols) (node : RulesNode)
    (result : DecodedNode) : Prop :=
  decoded.lookup result.nameId = some node.name ∧
    Right table properties node.statements (matchBind decoded result.instructions properties ())

/-- The bytes say of the device what the program says. -/
def Program.Right (table : SymbolTable) (properties : DeviceProperties) (bytes : List UInt8) : Program → Prop
  | .bind statements => Bind.Right table properties statements (matchBytecode bytes properties ())
  | .composite rules => ∃ decoded,fromBytecode bytes () = .ok decoded () ∧
    decoded.symbolTable.lookup decoded.deviceNameId = some rules.name ∧
    NodeRight table properties decoded.symbolTable rules.primaryNode decoded.primaryNode ∧
    List.Forall₂ (NodeRight table properties decoded.symbolTable) rules.nodes decoded.additionalNodes

section Sizes

mutual

/-- The bytes of the code of a statement. -/
def Statement.size : Statement → ℕ
  | .conditionStatement _ _ => 11
  | .accept _ _ values => 15*values.length+2
  | .ifElse _ blocks elseBlock => branchesSize blocks+blockSize elseBlock+1
  | .falseStatement _ => 1
  | .trueStatement _ => 0

def blockSize : List Statement → ℕ
  | [] => 0
  | s::ss => s.size+blockSize ss

def branchesSize : List (Condition×List Statement) → ℕ
  | [] => 0
  | (_,b)::rest => 21+blockSize b+branchesSize rest

end

end Sizes

def Program.size : Program → ℕ
  | .bind statements => blockSize statements
  | .composite rules => 4+((rules.primaryNode::rules.nodes).map fun n => 9+blockSize n.statements).sum

def comparisonStrings (table : SymbolTable) (e : CompoundIdentifier×Value) : List String :=
  ((table.lookup e.1).toList++(e.2.symbol table).toList).flatMap Symbol.strings

def Program.strings (table : SymbolTable) (program : Program) : List String :=
  program.names++program.blocks.flatMap fun b => (blockComparisons b).flatMap (comparisonStrings table)

def storedEquals (table : SymbolTable) (properties : DeviceProperties) (key : CompoundIdentifier)
    (value : Value) : Bool :=
  match (table.lookup key).bind Symbol.propertyKey,value.symbol table with
  | some k,some v => decide (properties.lookup k = some v.stored)
  | _,_ => false

/-- Cutting the numbers to 32 bits does not change what the statements say of the device, or they are not
read to their end because a property is of another kind than a value. -/
def Unaffected (table : SymbolTable) (properties : DeviceProperties) (statements : List Statement) : Prop :=
  blockEval (compareEval table (readsStored properties)) statements = .error .mismatch ∨
    blockHolds (storedEquals table properties) statements = blockHolds (propertyEquals table properties) statements

def operandPair (i : SymbolicInstruction) : Option (Symbol×Symbol) :=
  match operands i with
  | [lhs,rhs] => some (lhs,rhs)
  | _ => none

def Stands (table : SymbolTable) (e : CompoundIdentifier×Value) (p : Symbol×Symbol) : Prop :=
  table.lookup e.1 = some p.1 ∧ e.2.symbol table = some p.2

variable {table : SymbolTable} {properties : DeviceProperties} {names : List String} {decoded : DecodedSymbols}

structure Counted (table : SymbolTable) (comparisons : List (CompoundIdentifier×Value)) (size : ℕ)
    (code : List SymbolicInstructionInfo) : Prop where
  size : codeSize (instructionsOf code) = size
  operands : List.Forall₂ (Stands table) comparisons ((instructionsOf code).filterMap operandPair)

variable {size : ℕ} {code : List SymbolicInstructionInfo}

variable {comparisons : List (CompoundIdentifier×Value)}

lemma Counted.append {comparisons' : List (CompoundIdentifier×Value)} {size' : ℕ} {code' : List SymbolicInstructionInfo}
    (h : Counted table comparisons size code) (h' : Counted table comparisons' size' code') :
    Counted table (comparisons++comparisons') (size+size') (code++code') where
  size := by
    rw [instructionsOf_append,codeSize,map_append,sum_append]
    exact congrArg₂ (·+·) h.size h'.size
  operands := by
    rw [instructionsOf_append,filterMap_append]
    exact rel_append h.operands h'.operands

variable {lhs : Symbol}

variable {rhs : Symbol}

lemma counted_comparison {e : CompoundIdentifier×Value} {i : SymbolicInstructionInfo} (hl : table.lookup e.1 = some lhs)
    (hr : e.2.symbol table = some rhs) (hi : operands i.instruction = [lhs,rhs])
    (hsize : byteSize i.instruction = size) : Counted table [e] size [i] where
  size := by simpa [instructionsOf,codeSize] using hsize
  operands := by
    have hpair : operandPair i.instruction = some (lhs,rhs) := by rw [operandPair,hi]
    simp [instructionsOf,hpair,Stands,hl,hr]

variable {key : CompoundIdentifier}

lemma counted_acceptCode (span : Span) (label : UInt32) {pairs : List (Value×Symbol)}
    (hl : table.lookup key = some lhs) (hpairs : ∀ e ∈ pairs,e.1.symbol table = some e.2) :
    Counted table ((pairs.map Prod.fst).map fun v => (key,v)) (15*(pairs.map Prod.fst).length)
      (acceptCode span key lhs label pairs) := by
  induction pairs with
  | nil => exact ⟨rfl,nil⟩
  | cons e pairs ih =>
    have hfirst : Counted table [(key,e.1)] 15 (acceptCode span key lhs label [e]) :=
      counted_comparison hl (hpairs e mem_cons_self) rfl rfl
    have hrest := hfirst.append (ih (forall_mem_cons.mp hpairs).2)
    have hsize : 15+15*(pairs.map Prod.fst).length = 15*((e::pairs).map Prod.fst).length := by
      simp only [length_map,length_cons]
      omega
    rw [hsize] at hrest
    exact hrest

lemma code_counted : (∀ s code,StatementCode table s code → Counted table s.comparisons s.size code) ∧
    (∀ ss code,BlockCode table ss code → Counted table (blockComparisons ss) (blockSize ss) code) ∧
    ∀ bs label code,BranchesCode table label bs code → Counted table (branchComparisons bs) (branchesSize bs) code := by
  apply induct
  case condition =>
    intro span c code hcode
    rw [StatementCode] at hcode
    obtain ⟨lhs,rhs,hl,hr,rfl⟩ := hcode
    rw [comparisons,size]
    apply counted_comparison hl hr
    all_goals
      rw [conditionCode]
      cases c.op <;> rfl
  case accept =>
    intro span key values code hcode
    rw [StatementCode] at hcode
    obtain ⟨lhs,label,pairs,hl,rfl,hpairs,rfl⟩ := hcode
    rw [comparisons,size]
    have hend : Counted table [] 2
        [⟨some (.acceptStatementFailure key lhs span),.unconditionalAbort⟩,⟨none,.label label⟩] :=
      ⟨rfl,nil⟩
    have h := (counted_acceptCode span label hl hpairs).append hend
    rwa [append_nil] at h
  case ifElse =>
    intro span blocks elseBlock hblocks helse code hcode
    rw [StatementCode] at hcode
    obtain ⟨label,first,second,hfirst,hsecond,rfl⟩ := hcode
    rw [comparisons,size]
    have hend : Counted table [] 1 [⟨none,.label label⟩] := ⟨rfl,nil⟩
    have h := ((hblocks label first hfirst).append (helse second hsecond)).append hend
    rwa [append_nil] at h
  case falseStatement | trueStatement =>
    intro span code hcode
    rw [StatementCode] at hcode
    rw [hcode,comparisons,size]
    exact ⟨rfl,nil⟩
  case nil =>
    intro code hcode
    rw [BlockCode] at hcode
    rw [hcode,blockComparisons,blockSize]
    exact ⟨rfl,nil⟩
  case cons =>
    intro s ss hs hss code hcode
    rw [BlockCode] at hcode
    obtain ⟨first,second,hfirst,hsecond,rfl⟩ := hcode
    rw [blockComparisons,blockSize]
    exact (hs first hfirst).append (hss second hsecond)
  case noBranch =>
    intro label code hcode
    rw [BranchesCode] at hcode
    rw [hcode,branchComparisons,branchesSize]
    exact ⟨rfl,nil⟩
  case branch =>
    intro c b others hb hothers finalLabel code hcode
    rw [BranchesCode] at hcode
    obtain ⟨lhs,rhs,label,body,more,hl,hr,hbody,hmore,rfl⟩ := hcode
    have hfirst : Counted table [(c.lhs,c.rhs)] 15 [⟨some (.ifCondition c),branchCode c lhs rhs label⟩] := by
      apply counted_comparison hl hr
      all_goals
        rw [branchCode]
        cases c.op <;> rfl
    have hend : Counted table [] 6 [⟨none,.unconditionalJump finalLabel⟩,⟨none,.label label⟩] := ⟨rfl,nil⟩
    have h := (((hfirst.append (hb body hbody)).append hend).append (hothers finalLabel more hmore))
    rw [branchComparisons,branchesSize,show 21+blockSize b+branchesSize others =
      15+blockSize b+6+branchesSize others by omega]
    rwa [append_nil] at h

lemma stringsOf_eq (code : List SymbolicInstruction) :
    stringsOf code = (code.filterMap operandPair).flatMap fun p => p.1.strings++p.2.strings := by
  induction code with
  | nil => rfl
  | cons i code ih =>
    rw [stringsOf,flatMap_cons,← stringsOf,ih,filterMap_cons]
    cases i <;> simp [operands,operandPair]

variable {es : List (CompoundIdentifier×Value)} {ps : List (Symbol×Symbol)}

lemma stands_strings (h : List.Forall₂ (Stands table) es ps) :
    (ps.flatMap fun p => p.1.strings++p.2.strings) = es.flatMap (comparisonStrings table) := by
  induction h with
  | nil => rfl
  | cons hstands _ ih =>
    rw [flatMap_cons,flatMap_cons,ih,comparisonStrings,hstands.1,hstands.2]
    simp

lemma stands_mem (h : List.Forall₂ (Stands table) es ps) {e : CompoundIdentifier×Value}
    (he : e ∈ es) : ∃ p ∈ ps,Stands table e p := by
  induction h with
  | nil => cases he
  | cons hstands _ ih =>
    obtain rfl | he := mem_cons.mp he
    · exact ⟨_,mem_cons_self,hstands⟩
    · exact exists_mem_cons_of_exists (ih he)

lemma Counted.strings (h : Counted table comparisons size code) :
    stringsOf (instructionsOf code) = comparisons.flatMap (comparisonStrings table) := by
  rw [stringsOf_eq,stands_strings h.operands]

lemma kind_stored (h : Comparable lhs rhs) : rhs.stored.kind = rhs.kind := by
  obtain ⟨-,t,ht,-⟩ := h
  cases rhs <;> first | rfl | cases ht

lemma compareEval_stored {value : Value} {b : Bool} (h : compareEval table (readsStored properties) key value = .ok b) :
    storedEquals table properties key value = b := by
  unfold compareEval at h
  unfold storedEquals
  cases hl : table.lookup key with
  | none => simpa [hl] using h
  | some lhs =>
    cases hr : value.symbol table with
    | none => cases hk : lhs.propertyKey <;> simpa [hl,hr,hk] using h
    | some rhs =>
      simp only [hl,hr,readsStored,readsEqual] at h
      cases hk : lhs.propertyKey with
      | none => simpa [hk] using h
      | some k =>
        cases hp : properties.lookup k with
        | none => simpa [hk,hp] using h
        | some v =>
          simp only [hk,hp] at h
          split_ifs at h
          simpa [hk,hp] using h

lemma compareEval_mismatched {e : CompoundIdentifier×Value} {f : Fault}
    (hl : table.lookup e.1 = some lhs) (hr : e.2.symbol table = some rhs) (hc : Comparable lhs rhs)
    (h : compareEval table (readsStored properties) e.1 e.2 = .error f) :
    f = .mismatch ∧ Mismatched table properties e := by
  rw [compareEval_eq hl hr,readsStored,readsEqual] at h
  cases hk : lhs.propertyKey with
  | none => simp [hk] at h
  | some k =>
    cases hp : properties.lookup k with
    | none => simp [hk,hp] at h
    | some v =>
      simp only [hk,hp,kind_stored hc] at h
      split_ifs at h with hkind
      exact ⟨(Except.error.inj h).symm,lhs,rhs,k,v,hl,hr,hk,hp,hkind⟩

variable {statements : List Statement}

lemma matchBind_right (hcode : BlockCode table statements code) (hready : Ready names (instructionsOf code))
    (hnodup : (labelsOf (instructionsOf code)).Nodup) (hdecoded : Names decoded names) :
    Right table properties statements (matchBind decoded (emit names (instructionsOf code)) properties ()) ↔
      Unaffected table properties statements := by
  have hexec := (code_exec (readsStored properties)).2.1 statements code hcode hnodup []
  rw [append_nil] at hexec
  rw [matchBind_emit properties hdecoded hready,hexec,Unaffected]
  cases heval : blockEval (compareEval table (readsStored properties)) statements with
  | error f =>
    obtain ⟨e,he,herror⟩ := (eval_error (Q := fun f e => compareEval table (readsStored properties) e.1 e.2 = .error f)
      (fun _ _ _ h => h)).2.1 statements f heval
    obtain ⟨p,hp,hl,hr⟩ := stands_mem ((code_counted).2.1 statements code hcode).operands he
    obtain ⟨i,hi,hpair⟩ := mem_filterMap.mp hp
    have hc : Comparable p.1 p.2 := (hready.typed i hi).2 p.1 p.2 (by
      cases i <;> first | cases hpair; rfl | cases hpair)
    obtain ⟨rfl,hm⟩ := compareEval_mismatched hl hr hc herror
    exact iff_of_true ⟨rfl,e,he,hm⟩ (.inl rfl)
  | ok b =>
    have hholds := (eval_ok fun _ _ _ => compareEval_stored).2.1 statements b heval
    rw [hholds]
    have hreturned : returned (Except.ok b >>= thenRun (readsStored properties) []) = .ok b () := by
      cases b <;> rfl
    rw [hreturned]
    simp [Right]

variable {P : Type}

lemma compileStatements_ok {infos : List SymbolicInstructionInfo}
    (h : compileStatements (P := P) statements table true () = .ok infos ()) : BlockCode table statements infos := by
  rw [compileStatements,isolate_eq_ok] at h
  obtain ⟨⟨c,h⟩,-⟩ := h
  obtain ⟨⟨⟩,c1,hblock,h⟩ := bind_eq_ok.mp h
  obtain ⟨⟨⟩,c2,hblock,hbind⟩ := bind_eq_ok.mp hblock
  cases hbind
  cases h
  obtain ⟨code,hcode,hinstructions⟩ := Compiler.compile_code.2.1 statements _ _ _ hblock
  rw [hinstructions]
  exact hcode

structure Accepted (names : List String) (code : List SymbolicInstruction) : Prop where
  ready : Ready names code
  nodup : (labelsOf code).Nodup

variable {bytes : List UInt8}

variable {names' : List String}

lemma Assembled.accepted {code : List SymbolicInstruction}
    (h : Assembled names names' code bytes) : Accepted names' code :=
  ⟨⟨h.typed,h.grows.covers,h.linked⟩,h.nodup⟩

lemma Accepted.of_more {code : List SymbolicInstruction} (h : Accepted names code)
    (hp : names <+: names') : Accepted names' code :=
  ⟨⟨h.ready.typed,fun s hs => hp.subset (h.ready.strings s hs),h.ready.linked⟩,h.nodup⟩

variable {order : LabelOrder} {e e' : SymbolTableEncoder}

lemma appendCompositeNode_ok (h : Encodes e names) {node : CompositeNode} {isPrimary : Bool}
    (hr : appendCompositeNode order node isPrimary e = .ok bytes e') :
    ∃ names',Encodes e' names' ∧ Grows names names' (node.name::stringsOf (instructionsOf node.instructions)) ∧
      Accepted names' (instructionsOf node.instructions) ∧
      bytes = nodeBytes names' (if isPrimary then .primary else .additional) node.name
        (instructionsOf node.instructions) := by
  rw [appendCompositeNode] at hr
  by_cases hname : node.name.isEmpty = true
  · rw [if_pos hname] at hr
    cases hr
  · rw [if_neg hname] at hr
    obtain ⟨key,e1,hkey,hr⟩ := bind_eq_ok.mp hr
    obtain ⟨bytecode,e2,hencode,hr⟩ := bind_eq_ok.mp hr
    cases hr
    obtain ⟨names1,hencodes1,hp,hmem,rfl,honly⟩ := h.getKey hkey
    obtain ⟨names2,hencodes2,hassembled⟩ := encodeInstructions_ok hencodes1 hencode
    have hgrows : Grows names names1 [node.name] := ⟨hp,by simpa using hmem,by simpa using honly⟩
    refine ⟨names2,hencodes2,hgrows.trans hassembled.grows,hassembled.accepted,?_⟩
    rw [nodeBytes,keyIn_more hassembled.grows.initial hmem,hassembled.bytes,length_emit]
    simp

def codeOf (nodes : List CompositeNode) : List (String×List SymbolicInstruction) :=
  nodes.map fun n => (n.name,instructionsOf n.instructions)

def nodeStrings (n : String×List SymbolicInstruction) : List String := n.1::stringsOf n.2

lemma appendAdditionalNodes_ok (h : Encodes e names) {nodes : List CompositeNode} {seen : List String}
    (hr : appendAdditionalNodes order seen nodes e = .ok bytes e') :
    ∃ names',Encodes e' names' ∧ Grows names names' ((codeOf nodes).flatMap nodeStrings) ∧
      (∀ n ∈ codeOf nodes,Accepted names' n.2) ∧
      bytes = (codeOf nodes).flatMap fun n => nodeBytes names' .additional n.1 n.2 := by
  induction nodes generalizing e names seen bytes with
  | nil =>
    cases hr
    exact ⟨names,h,Grows.refl names,by simp [codeOf],rfl⟩
  | cons node nodes ih =>
    rw [appendAdditionalNodes] at hr
    split_ifs at hr with hseen
    · cases hr
    · obtain ⟨first,e1,hfirst,hr⟩ := bind_eq_ok.mp hr
      obtain ⟨rest,e2,hrest,hr⟩ := bind_eq_ok.mp hr
      cases hr
      obtain ⟨names1,hencodes1,hgrows1,haccepted,rfl⟩ := appendCompositeNode_ok h hfirst
      obtain ⟨names2,hencodes2,hgrows2,hothers,rfl⟩ := ih hencodes1 hrest
      refine ⟨names2,hencodes2,hgrows1.trans hgrows2,?_,?_⟩
      · exact forall_mem_cons.mpr ⟨haccepted.of_more hgrows2.initial,hothers⟩
      · have hcode : codeOf (node::nodes) = (node.name,instructionsOf node.instructions)::codeOf nodes := rfl
        rw [hcode,flatMap_cons,nodeBytes_more hgrows2.initial .additional
          (hgrows1.covers _ mem_cons_self) (forall_mem_cons.mp hgrows1.covers).2]
        rfl

lemma encodeToBytecodeV2_ok {rules : BindRules} (hr : encodeToBytecodeV2 order rules () = .ok bytes ()) :
    ∃ e names,Encodes e names ∧ Grows [] names (stringsOf (instructionsOf rules.instructions)) ∧
      Accepted names (instructionsOf rules.instructions) ∧
      bytes = sections (entriesFrom 1 names) instructionMagicNum (emit names (instructionsOf rules.instructions)) := by
  rw [encodeToBytecodeV2,isolate_eq_ok] at hr
  obtain ⟨⟨e,hr⟩,-⟩ := hr
  obtain ⟨bytecode,e1,hencode,hr⟩ := bind_eq_ok.mp hr
  cases hr
  obtain ⟨names,hencodes,hassembled⟩ := encodeInstructions_ok encodes_new hencode
  exact ⟨e,names,hencodes,hassembled.grows,hassembled.accepted,by rw [hencodes.bytecode,hassembled.bytes]⟩

lemma encodeCompositeToBytecode_ok {rules : CompositeBindRules}
    (hr : encodeCompositeToBytecode order rules () = .ok bytes ()) : ∃ e names,Encodes e names ∧ Grows [] names
        (rules.deviceName::(codeOf (rules.primaryNode::rules.additionalNodes)).flatMap nodeStrings) ∧
      (∀ n ∈ codeOf (rules.primaryNode::rules.additionalNodes),Accepted names n.2) ∧
      bytes = sections (entriesFrom 1 names) compositeMagicNum (compositeBytes names rules.deviceName
        (rules.primaryNode.name,instructionsOf rules.primaryNode.instructions) (codeOf rules.additionalNodes)) := by
  rw [encodeCompositeToBytecode] at hr
  split_ifs at hr with hname
  · cases hr
  · rw [isolate_eq_ok] at hr
    obtain ⟨⟨e,hr⟩,-⟩ := hr
    obtain ⟨key,e1,hkey,hr⟩ := bind_eq_ok.mp hr
    obtain ⟨primary,e2,hprimary,hr⟩ := bind_eq_ok.mp hr
    obtain ⟨additional,e3,hadditional,hr⟩ := bind_eq_ok.mp hr
    cases hr
    obtain ⟨names1,hencodes1,hp,hmem,rfl,honly⟩ := encodes_new.getKey hkey
    obtain ⟨names2,hencodes2,hgrows2,haccepted,rfl⟩ := appendCompositeNode_ok hencodes1 hprimary
    obtain ⟨names3,hencodes3,hgrows3,hothers,rfl⟩ := appendAdditionalNodes_ok hencodes2 hadditional
    have hgrows1 : Grows [] names1 [rules.deviceName] := ⟨hp,by simpa using hmem,by simpa using honly⟩
    refine ⟨e,names3,hencodes3,hgrows1.trans (hgrows2.trans hgrows3),?_,?_⟩
    · exact forall_mem_cons.mpr ⟨haccepted.of_more hgrows3.initial,hothers⟩
    · rw [hencodes3.bytecode,compositeBytes,keyIn_more (hgrows2.trans hgrows3).initial hmem,
        nodeBytes_more hgrows3.initial .primary (hgrows2.covers _ mem_cons_self) (forall_mem_cons.mp hgrows2.covers).2]
      simp

variable {strings : List String}

lemma entriesSize_eq (h : Encodes e names) (hgrows : Grows [] names strings) :
    entriesSize names = entriesSize strings.dedup := by
  have hperm : names.Perm strings.dedup := by
    rw [perm_ext_iff_of_nodup h.nodup (nodup_dedup strings)]
    intro s
    rw [mem_dedup]
    constructor
    · intro hs
      exact (hgrows.only s hs).resolve_left (by simp)
    · exact hgrows.covers s
  exact (hperm.map _).sum_eq

lemma readable_or_empty (hgrows : Grows [] names strings) (hzero : ∀ s ∈ strings,0 ∉ utf8 s) :
    (∀ s ∈ names,0 ∉ utf8 s) ∧ ((∀ s ∈ strings,s ≠ "") ↔ ∀ s ∈ names,Readable s) ∧
      ((∀ s ∈ strings,s ≠ "") ↔ ¬ ∃ s ∈ names,utf8 s = []) := by
  have hmem : ∀ s,s ∈ names ↔ s ∈ strings := fun s =>
    ⟨fun hs => (hgrows.only s hs).resolve_left (by simp),hgrows.covers s⟩
  refine ⟨fun s hs => hzero s ((hmem s).mp hs),?_,?_⟩
  · constructor
    · intro h s hs
      have hs' := (hmem s).mp hs
      exact ⟨fun hnil => h s hs' (utf8_eq_nil.mp hnil),hzero s hs'⟩
    · intro h s hs hempty
      exact (h s ((hmem s).mpr hs)).1 (utf8_eq_nil.mpr hempty)
  · constructor
    · rintro h ⟨s,hs,hnil⟩
      exact h s ((hmem s).mp hs) (utf8_eq_nil.mp hnil)
    · intro h s hs hempty
      exact h ⟨s,(hmem s).mpr hs,utf8_eq_nil.mpr hempty⟩

lemma bind_right_iff (properties : DeviceProperties) (hencoded : (Program.bind statements).Encoded P order table bytes)
    (hsize : (Program.bind statements).size < 2^32)
    (hstrings : entriesSize ((Program.bind statements).strings table).dedup < 2^32)
    (hzero : ∀ s ∈ (Program.bind statements).strings table,0 ∉ utf8 s) :
    (Program.bind statements).Right table properties bytes ↔
      (∀ s ∈ (Program.bind statements).strings table,s ≠ "") ∧ Unaffected table properties statements := by
  obtain ⟨infos,hcompile,hencode⟩ := hencoded
  have hcode := compileStatements_ok hcompile
  have hcounted := code_counted.2.1 statements infos hcode
  obtain ⟨e,names,hencodes,hgrows,haccepted,rfl⟩ := encodeToBytecodeV2_ok hencode
  have hall : (Program.bind statements).strings table = stringsOf (instructionsOf infos) := by
    rw [hcounted.strings]
    simp [Program.strings,Program.names,Program.blocks]
  rw [hall] at hstrings hzero ⊢
  rw [← entriesSize_eq hencodes hgrows] at hstrings
  obtain ⟨hzero',hreadable,hempty⟩ := readable_or_empty hgrows hzero
  by_cases h : ∀ s ∈ stringsOf (instructionsOf infos),s ≠ ""
  · have hinstructions : (emit names (instructionsOf infos)).length < 2^32 := by
      rw [length_emit,hcounted.size]
      exact hsize
    obtain ⟨decoded,hdecode,hnames⟩ := fromBytecode_sections (hreadable.mp h) hencodes.short hstrings hinstructions
    rw [Program.Right,matchBytecode,bind_of_ok hdecode,matchBind_right hcode haccepted.ready haccepted.nodup hnames]
    exact (and_iff_right h).symm
  · have htable := getSymbolTable_empty (emit names (instructionsOf infos)) instructionMagicNum hzero'
      hencodes.short (not_not.mp (mt hempty.mpr h)) hstrings
    have hfail : matchBytecode (sections (entriesFrom 1 names) instructionMagicNum
        (emit names (instructionsOf infos))) properties () = .fail .emptyString () := by
      rw [matchBytecode,DecodedBindRules.fromBytecode,bind_of_fail (bind_of_fail htable)]
    rw [Program.Right,hfail]
    apply iff_of_false
    · rintro ⟨hne,-⟩
      cases hne
    · exact fun h' => h h'.1

def NodeCode (table : SymbolTable) (node : RulesNode) (compiled : CompositeNode) : Prop :=
  compiled.name = node.name ∧ BlockCode table node.statements compiled.instructions

lemma compileNode_ok {node : RulesNode} {compiled : CompositeNode}
    (h : compileNode (P := P) table true node () = .ok compiled ()) : NodeCode table node compiled := by
  obtain ⟨infos,⟨⟩,hcompile,h⟩ := bind_eq_ok.mp h
  cases h
  exact ⟨rfl,compileStatements_ok hcompile⟩

variable {nodes : List RulesNode} {compiled : List CompositeNode}

lemma compileNodes_ok (h : compileNodes (P := P) table true nodes () = .ok compiled ()) :
    List.Forall₂ (NodeCode table) nodes compiled := by
  induction nodes generalizing compiled with
  | nil =>
    cases h
    exact nil
  | cons node nodes ih =>
    rw [compileNodes] at h
    obtain ⟨first,⟨⟩,hfirst,h⟩ := bind_eq_ok.mp h
    obtain ⟨rest,⟨⟩,hrest,h⟩ := bind_eq_ok.mp h
    cases h
    exact cons (compileNode_ok hfirst) (ih hrest)

variable {rules : CompositeRules}

lemma compileBindComposite_ok {compiled : CompositeBindRules}
    (h : compileBindComposite (P := P) table true rules () = .ok compiled ()) :
    compiled.deviceName = rules.name ∧ List.Forall₂ (NodeCode table) (rules.primaryNode::rules.nodes)
      (compiled.primaryNode::compiled.additionalNodes) := by
  obtain ⟨primary,⟨⟩,hprimary,h⟩ := bind_eq_ok.mp h
  obtain ⟨additional,⟨⟩,hadditional,h⟩ := bind_eq_ok.mp h
  cases h
  exact ⟨rfl,cons (compileNode_ok hprimary) (compileNodes_ok hadditional)⟩

lemma nodes_size (h : List.Forall₂ (NodeCode table) nodes compiled) :
    ((codeOf compiled).map fun n => 9+codeSize n.2) = nodes.map fun n => 9+blockSize n.statements := by
  induction h with
  | nil => rfl
  | cons hnode _ ih =>
    have hsize := (code_counted.2.1 _ _ hnode.2).size
    simp only [codeOf,map_cons] at ih ⊢
    rw [ih,hsize]

lemma nodes_strings (h : List.Forall₂ (NodeCode table) nodes compiled) (s : String) :
    s ∈ (codeOf compiled).flatMap nodeStrings ↔ s ∈ nodes.map RulesNode.name ∨
      s ∈ (nodes.map RulesNode.statements).flatMap fun b => (blockComparisons b).flatMap (comparisonStrings table) := by
  induction h with
  | nil => simp [codeOf]
  | @cons node c nodes compiled hnode _ ih =>
    have hstrings := (code_counted.2.1 _ _ hnode.2).strings
    have hcode : codeOf (c::compiled) = (c.name,instructionsOf c.instructions)::codeOf compiled := rfl
    rw [hcode,flatMap_cons,mem_append,ih,nodeStrings,hstrings,hnode.1]
    simp only [map_cons,flatMap_cons,mem_append,mem_cons]
    tauto

lemma nodes_right (properties : DeviceProperties) (h : List.Forall₂ (NodeCode table) nodes compiled)
    (hdecoded : Names decoded names) (hnames : ∀ n ∈ codeOf compiled,n.1 ∈ names)
    (haccepted : ∀ n ∈ codeOf compiled,Accepted names n.2) : List.Forall₂ (NodeRight table properties decoded) nodes
      ((codeOf compiled).map fun n => ⟨keyIn names n.1,emit names n.2⟩) ↔
      ∀ b ∈ nodes.map RulesNode.statements,Unaffected table properties b := by
  induction h with
  | nil => simp [codeOf]
  | @cons node c nodes compiled hnode _ ih =>
    have hcode : codeOf (c::compiled) = (c.name,instructionsOf c.instructions)::codeOf compiled := rfl
    rw [hcode] at hnames haccepted ⊢
    have haccept := haccepted _ mem_cons_self
    have hlookup := hdecoded c.name (hnames _ mem_cons_self)
    have hrest := ih (forall_mem_cons.mp hnames).2 (forall_mem_cons.mp haccepted).2
    rw [map_cons,forall₂_cons,hrest,map_cons,forall_mem_cons,NodeRight,hlookup,hnode.1,
      matchBind_right hnode.2 haccept.ready haccept.nodup hdecoded]
    simp

lemma Grows.congr {strings' : List String} (h : Grows [] names strings)
    (heq : ∀ s,s ∈ strings ↔ s ∈ strings') : Grows [] names strings' :=
  ⟨h.initial,fun s hs => h.covers s ((heq s).mpr hs),fun s hs => (h.only s hs).imp_right (heq s).mp⟩

lemma composite_right_iff (properties : DeviceProperties)
    (hencoded : (Program.composite rules).Encoded P order table bytes) (hsize : (Program.composite rules).size < 2^32)
    (hstrings : entriesSize ((Program.composite rules).strings table).dedup < 2^32)
    (hzero : ∀ s ∈ (Program.composite rules).strings table,0 ∉ utf8 s) :
    (Program.composite rules).Right table properties bytes ↔
      (∀ s ∈ (Program.composite rules).strings table,s ≠ "") ∧
        ∀ b ∈ (rules.primaryNode::rules.nodes).map RulesNode.statements,Unaffected table properties b := by
  obtain ⟨compiled,hcompile,hencode⟩ := hencoded
  obtain ⟨hdevice,hnodes⟩ := compileBindComposite_ok hcompile
  obtain ⟨e,names,hencodes,hgrows,haccepted,rfl⟩ := encodeCompositeToBytecode_ok hencode
  have hsame : ∀ s,s ∈ compiled.deviceName::(codeOf (compiled.primaryNode::compiled.additionalNodes)).flatMap
      nodeStrings ↔ s ∈ (Program.composite rules).strings table := by
    intro s
    rw [mem_cons,nodes_strings hnodes,hdevice]
    simp only [Program.strings,Program.names,Program.blocks,mem_append,mem_cons]
    tauto
  have hgrows := hgrows.congr hsame
  rw [← entriesSize_eq hencodes hgrows] at hstrings
  obtain ⟨hzero',hreadable,hempty⟩ := readable_or_empty hgrows hzero
  by_cases h : ∀ s ∈ (Program.composite rules).strings table,s ≠ ""
  · have hmem : compiled.deviceName ∈ names := hgrows.covers _ ((hsame _).mp mem_cons_self)
    have hmems : ∀ n ∈ codeOf (compiled.primaryNode::compiled.additionalNodes),n.1 ∈ names := by
      intro n hn
      apply hgrows.covers _ ((hsame _).mp (mem_cons_of_mem _ (mem_flatMap.mpr ⟨n,hn,?_⟩)))
      exact mem_cons_self
    have hcode : compositeSize ((codeOf (compiled.primaryNode::compiled.additionalNodes)).map Prod.snd) < 2^32 := by
      rw [compositeSize,map_map]
      change 4+((codeOf (compiled.primaryNode::compiled.additionalNodes)).map fun n => 9+codeSize n.2).sum < 2^32
      rw [nodes_size hnodes]
      exact hsize
    obtain ⟨decoded,hdecode,hnames⟩ := fromBytecode_composite (hreadable.mp h) hencodes.short hstrings hmem hmems hcode
    have hlookup := hnames _ hmem
    rw [hdevice] at hlookup
    rw [← nodes_right properties hnodes hnames hmems haccepted,and_iff_right h]
    refine .trans ?_ forall₂_cons.symm
    constructor
    · rintro ⟨result,hresult,-,hprimary,hothers⟩
      cases hdecode.symm.trans hresult
      exact ⟨hprimary,hothers⟩
    · rintro ⟨hprimary,hothers⟩
      refine ⟨_,hdecode,?_,hprimary,hothers⟩
      rw [hdevice]
      exact hlookup
  · have htable := getSymbolTable_empty (compositeBytes names compiled.deviceName
      (compiled.primaryNode.name,instructionsOf compiled.primaryNode.instructions) (codeOf compiled.additionalNodes))
      compositeMagicNum hzero' hencodes.short (not_not.mp (mt hempty.mpr h)) hstrings
    apply iff_of_false
    · rintro ⟨result,hresult,-⟩
      rw [fromBytecode,bind_of_fail htable] at hresult
      cases hresult
    · exact fun h' => h h'.1

/-- The bytecode of rules says of a device what the rules say, if and only if no name in them is empty and
cutting the numbers to 32 bits changes nothing; for rules whose names have no zero byte and whose
sections are below 4 GiB. -/
theorem encoded_right_iff {P : Type} (order : LabelOrder) (table : SymbolTable) (properties : DeviceProperties)
    (program : Program) (bytes : List UInt8) (hencoded : program.Encoded P order table bytes)
    (hsize : program.size < 2^32) (hstrings : entriesSize (program.strings table).dedup < 2^32)
    (hzero : ∀ s ∈ program.strings table,0 ∉ utf8 s) :
    program.Right table properties bytes ↔
      (∀ s ∈ program.strings table,s ≠ "") ∧ ∀ b ∈ program.blocks,Unaffected table properties b := by
  cases program with
  | bind statements =>
    rw [bind_right_iff properties hencoded hsize hstrings hzero]
    simp [Program.blocks]
  | composite rules => exact composite_right_iff properties hencoded hsize hstrings hzero

section Samples

def sampleSpan : Span := ⟨0,1,""⟩

def sampleId : CompoundIdentifier := ⟨["fuchsia"],"BIND_PROTOCOL"⟩

def sampleBus : CompoundIdentifier := ⟨["fuchsia"],"BUS"⟩

def sampleTable : SymbolTable :=
  ((∅ : SymbolTable).insert sampleId (.deprecatedKey 1)).insert sampleBus (.key "fuchsia.BUS" .str)

def sampleOrder : LabelOrder := ⟨id,fun l => List.Perm.refl l⟩

def sampleCondition (value : UInt64) : Condition := ⟨sampleSpan,sampleId,.equals,.numericLiteral value⟩

def sampleStatements (value : UInt64) : List Statement :=
  [.ifElse sampleSpan [(sampleCondition value,[.accept sampleSpan sampleBus [.stringLiteral "usb",.stringLiteral "pci"]])]
    [.falseStatement sampleSpan]]

def sampleRules (value : UInt64) : Program := .bind (sampleStatements value)

def sampleBytes (value : UInt64) : Option (List UInt8) :=
  match compileStatements (P := Unit) (sampleStatements value) sampleTable true () with
  | .ok instructions _ =>
    match encodeToBytecodeV2 sampleOrder ⟨sampleTable,instructions,true⟩ () with
    | .ok bytes _ => some bytes
    | _ => none
  | _ => none

lemma sampleBytes_encoded {value : UInt64} (h : (sampleBytes value).isSome = true) :
    ∃ bytes,(sampleRules value).Encoded Unit sampleOrder sampleTable bytes := by
  obtain ⟨bytes,hbytes⟩ := Option.isSome_iff_exists.mp h
  unfold sampleBytes at hbytes
  split at hbytes
  · next hcompile =>
    split at hbytes
    · next hencode => exact ⟨_,_,hcompile,hencode⟩
    · cases hbytes
  · cases hbytes

def sampleDevice (value : UInt64) : DeviceProperties :=
  ((∅ : DeviceProperties).insert (.numberKey 1) (.numberValue value)).insert (.stringKey "fuchsia.BUS") (.stringValue "pci")

theorem encoded_right_sample : ∃ bytes,(sampleRules 5).Encoded Unit sampleOrder sampleTable bytes ∧
    (sampleRules 5).Right sampleTable (sampleDevice 5) bytes := by
  obtain ⟨bytes,hencoded⟩ := @sampleBytes_encoded 5 (by decide +kernel)
  refine ⟨bytes,hencoded,(encoded_right_iff sampleOrder sampleTable (sampleDevice 5) (sampleRules 5) bytes hencoded
    (by decide) (by decide) (by decide +kernel)).mpr ⟨by decide,?_⟩⟩
  intro b hb
  rw [mem_singleton.mp hb]
  exact .inr (by decide)

/-- The number is cut to 1: the device with it is not accepted, and the one with 1 is. -/
theorem encoded_right_cut : ∃ bytes,(sampleRules 4294967297).Encoded Unit sampleOrder sampleTable bytes ∧
    ¬ (sampleRules 4294967297).Right sampleTable (sampleDevice 4294967297) bytes ∧
    ¬ (sampleRules 4294967297).Right sampleTable (sampleDevice 1) bytes := by
  obtain ⟨bytes,hencoded⟩ := @sampleBytes_encoded 4294967297 (by decide +kernel)
  have hright : ∀ properties,(sampleRules 4294967297).Right sampleTable properties bytes → Unaffected sampleTable properties
      (sampleStatements 4294967297) := fun properties h =>
    ((bind_right_iff properties hencoded (by decide) (by decide) (by decide +kernel)).mp h).2
  refine ⟨bytes,hencoded,fun h => ?_,fun h => ?_⟩
  all_goals
    obtain hmismatch | hholds := hright _ h
    · exact absurd hmismatch (by decide)
    · exact absurd hholds (by decide)

end Samples

end Fuchsia.Bind
