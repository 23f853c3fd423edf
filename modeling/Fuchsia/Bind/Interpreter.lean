import Fuchsia.Bind.Encoder

/-! The decoder of bytecode sections, and the interpreter that matches the instructions with the
properties of a device. An iterator over bytes is the list of bytes that it has left. -/
namespace Fuchsia.Bind

open Effect Bytes

inductive BytecodeError
  | unexpectedEnd
  | invalidHeader (expected parsed : ℕ)
  | invalidVersion (version : ℕ)
  | invalidStringLength
  | emptyString
  | utf8ConversionFailure
  | invalidSymbolTableKey (key : UInt32)
  | incorrectSectionSize
  | invalidOp (byte : UInt8)
  | invalidValueType (byte : UInt8)
  | invalidBoolValue (value : UInt32)
  | missingEntryInSymbolTable (key : UInt32)
  | mismatchValueTypes
  | invalidJumpLocation
  | invalidKeyType
  | invalidPrimaryNode
  | multiplePrimaryNodes
  | invalidNodeType (byte : UInt8)
  | incorrectNodeSectionSize
  | missingDeviceNameInSymbolTable
  | missingNodeIdInSymbolTable
  deriving DecidableEq

abbrev Reading (A : Type) : Type := Effect (List UInt8) BytecodeError A

abbrev DecodedSymbols : Type := AList fun _ : UInt32 => String

def nextU8 : Reading UInt8 := do
  match ← get with
  | [] => throw .unexpectedEnd
  | byte::rest =>
    modify fun _ => rest
    pure byte

def nextU32 : Reading UInt32 := do
  let b₀ ← nextU8
  let b₁ ← nextU8
  let b₂ ← nextU8
  let b₃ ← nextU8
  pure (UInt32.ofNat (leNat [b₀,b₁,b₂,b₃]))

def tryNextU32 : Reading (Option UInt32) := do
  match ← get with
  | [] => pure none
  | _ =>
    let b₀ ← nextU8
    let b₁ ← nextU8
    let b₂ ← nextU8
    let b₃ ← nextU8
    pure (some (UInt32.ofNat (leNat [b₀,b₁,b₂,b₃])))

def RawOp.fromU8 (byte : UInt8) : Option RawOp := if byte = 0x01 then some .equalCondition
  else if byte = 0x02 then some .inequalCondition
  else if byte = 0x10 then some .unconditionalJump
  else if byte = 0x11 then some .jumpIfEqual
  else if byte = 0x12 then some .jumpIfNotEqual
  else if byte = 0x20 then some .jumpLandPad
  else if byte = 0x30 then some .abort
  else none

def RawValueType.fromU8 (byte : UInt8) : Option RawValueType := if byte = 0 then some .key
  else if byte = 1 then some .numberValue
  else if byte = 2 then some .stringValue
  else if byte = 3 then some .boolValue
  else if byte = 4 then some .enumValue
  else none

def RawNodeType.fromU8 (byte : UInt8) : Option RawNodeType := if byte = 0x50 then some .primary
  else if byte = 0x51 then some .additional
  else none

inductive MatchCondition
  | unconditional | equal | inequal
  deriving DecidableEq

namespace DeviceMatcher

variable (symbolTable : DecodedSymbols) (properties : DeviceProperties)

def lookupSymbolTable (key : UInt32) : Reading String :=
  match symbolTable.lookup key with
  | none => throw (.missingEntryInSymbolTable key)
  | some s => pure s

def readNextValue : Reading Symbol := do
  let byte ← nextU8
  match RawValueType.fromU8 byte with
  | none => throw (.invalidValueType byte)
  | some valueType =>
    let value ← nextU32
    match valueType with
    | .numberValue => pure (.numberValue value.toUInt64)
    | .key => do
      let name ← lookupSymbolTable symbolTable value
      pure (.key name .str)
    | .stringValue => do
      let s ← lookupSymbolTable symbolTable value
      pure (.stringValue s)
    | .boolValue =>
      if value = 0 then pure (.boolValue false)
      else if value = 1 then pure (.boolValue true)
      else throw (.invalidBoolValue value)
    | .enumValue => do
      let s ← lookupSymbolTable symbolTable value
      pure (.enumValue s)

def compareSymbols (condition : MatchCondition) (lhs rhs : Symbol) : Reading Bool :=
  if lhs.kind ≠ rhs.kind then throw .mismatchValueTypes
  else
    match condition with
    | .equal => pure (decide (lhs = rhs))
    | .inequal => pure (decide (lhs ≠ rhs))
    | .unconditional => panicked

def readAndEvaluateValues (condition : MatchCondition) : Reading Bool := do
  let propertyKey ← show Reading PropertyKey from do
    match ← readNextValue symbolTable with
    | .numberValue key => pure (.numberKey key)
    | .stringValue key => pure (.stringKey key)
    | .key key _ => pure (.stringKey key)
    | _ => throw .invalidKeyType
  let bindValue ← readNextValue symbolTable
  match properties.lookup propertyKey with
  | none => pure (decide (condition = .inequal))
  | some deviceValue => compareSymbols condition deviceValue bindValue

def skipBytes : ℕ → Reading Unit
  | 0 => pure ()
  | n+1 => do
    let _ ← nextU8
    skipBytes n

def evaluateJumpInst (condition : MatchCondition) : Reading Unit := do
  let offset ← nextU32
  let taken ← if condition = .unconditional then pure true
    else readAndEvaluateValues symbolTable properties condition
  if !taken then pure ()
  else do
    skipBytes offset.toNat
    let byte ← nextU8
    if byte ≠ RawOp.jumpLandPad.toU8 then throw .invalidJumpLocation else pure ()

/-- The loop over the instructions, for at most `fuel` of them. -/
def matchLoop : ℕ → Reading Bool
  | 0 => panicked
  | fuel+1 => do
    match ← get with
    | [] => pure true
    | _ =>
      let byte ← nextU8
      match RawOp.fromU8 byte with
      | none => throw (.invalidOp byte)
      | some .equalCondition => do
        if ← readAndEvaluateValues symbolTable properties .equal then matchLoop fuel else pure false
      | some .inequalCondition => do
        if ← readAndEvaluateValues symbolTable properties .inequal then matchLoop fuel else pure false
      | some .abort => pure false
      | some .unconditionalJump => do
        evaluateJumpInst symbolTable properties .unconditional
        matchLoop fuel
      | some .jumpIfEqual => do
        evaluateJumpInst symbolTable properties .equal
        matchLoop fuel
      | some .jumpIfNotEqual => do
        evaluateJumpInst symbolTable properties .inequal
        matchLoop fuel
      | some .jumpLandPad => matchLoop fuel

end DeviceMatcher

/-- The run of the matcher over some instructions; an instruction has at least one byte. -/
def matchBind (symbolTable : DecodedSymbols) (instructions : List UInt8) (properties : DeviceProperties) :
    Effect Unit BytecodeError Bool :=
  isolate (DeviceMatcher.matchLoop symbolTable properties (instructions.length+1)) instructions id

def headerSz : ℕ := 8

def nodeTypeHeaderSz : ℕ := 9

def minimumBytecodeSz : ℕ := headerSz*3

def getU32Bytes (bytecode : List UInt8) (idx : ℕ) : Except BytecodeError (List UInt8) :=
  if bytecode.length < idx+4 then .error .unexpectedEnd else .ok ((bytecode.drop idx).take 4)

def readAndRemoveHeader (bytecode : List UInt8) (magicNum : ℕ) : Except BytecodeError (ℕ×List UInt8) := do
  let magic ← getU32Bytes bytecode 0
  if beNat magic ≠ magicNum then .error (.invalidHeader magicNum (beNat magic))
  else do
    let val ← getU32Bytes bytecode 4
    .ok (leNat val,bytecode.drop headerSz)

/-- The loop of `read_string`, with the bytes read so far. -/
def readStringBytes (read : List UInt8) : Reading (List UInt8)
  | [] => .fail .unexpectedEnd []
  | byte::rest =>
    if byte = 0 then .ok read rest
    else if maxStringLength < read.length+1 then .fail .invalidStringLength rest
    else readStringBytes (read++[byte]) rest

def readString : Reading String := do
  let bytes ← readStringBytes []
  if bytes.isEmpty then throw .emptyString
  else
    match String.fromUTF8? bytes.toByteArray with
    | none => throw .utf8ConversionFailure
    | some s => pure s

/-- The loop of `read_symbol_table`, for at most `fuel` entries. -/
def readSymbols : ℕ → DecodedSymbols → UInt32 → Reading DecodedSymbols
  | 0,_,_ => panicked
  | fuel+1,symbolTable,expectedKey => do
    match ← tryNextU32 with
    | none => pure symbolTable
    | some key =>
      if key ≠ expectedKey then throw (.invalidSymbolTableKey key)
      else do
        let s ← readString
        readSymbols fuel (symbolTable.insert key s) (expectedKey+1)

def readSymbolTable (bytecode : List UInt8) : Effect Unit BytecodeError DecodedSymbols :=
  isolate (readSymbols (bytecode.length+1) ∅ symbTblStartKey) bytecode id

def getSymbolTableAndInstructionBytecode (bytecode : List UInt8) :
    Effect Unit BytecodeError (DecodedSymbols×List UInt8) :=
  if bytecode.length < minimumBytecodeSz then throw .unexpectedEnd
  else do
    let (version,bytecode) ← ofExcept (readAndRemoveHeader bytecode bindMagicNum)
    if version ≠ bytecodeVersion then throw (.invalidVersion version)
    else do
      let (symbolTableSz,bytecode) ← ofExcept (readAndRemoveHeader bytecode symbMagicNum)
      if bytecode.length < symbolTableSz+headerSz then throw .incorrectSectionSize
      else do
        let symbolTable ← readSymbolTable (bytecode.take symbolTableSz)
        pure (symbolTable,bytecode.drop symbolTableSz)

structure DecodedBindRules where
  symbolTable : DecodedSymbols
  instructions : List UInt8

def DecodedBindRules.new (symbolTable : DecodedSymbols) (bytecode : List UInt8) :
    Except BytecodeError DecodedBindRules := do
  let (instSz,bytecode) ← readAndRemoveHeader bytecode instructionMagicNum
  if bytecode.length ≠ instSz then .error .incorrectSectionSize else .ok ⟨symbolTable,bytecode⟩

def DecodedBindRules.fromBytecode (bytecode : List UInt8) : Effect Unit BytecodeError DecodedBindRules := do
  let (symbolTable,bytecode) ← getSymbolTableAndInstructionBytecode bytecode
  ofExcept (DecodedBindRules.new symbolTable bytecode)

structure DecodedNode where
  nameId : UInt32
  instructions : List UInt8

structure DecodedCompositeBindRules where
  symbolTable : DecodedSymbols
  deviceNameId : UInt32
  primaryNode : DecodedNode
  additionalNodes : List DecodedNode

def verifyAndReadNodeHeader (bytecode : List UInt8) (expected : RawNodeType) :
    Except BytecodeError (UInt32×ℕ) :=
  if bytecode.length < nodeTypeHeaderSz then .error .unexpectedEnd
  else do
    match RawNodeType.fromU8 (bytecode.headD 0),expected with
    | some .primary,.additional => .error .multiplePrimaryNodes
    | some .additional,.primary => .error .invalidPrimaryNode
    | none,_ => .error (.invalidNodeType (bytecode.headD 0))
    | _,_ => do
      let nodeId ← getU32Bytes bytecode 1
      let instSz ← getU32Bytes bytecode 5
      .ok (UInt32.ofNat (leNat nodeId),leNat instSz)

def splitOffNode (bytecode : List UInt8) (nodeType : RawNodeType) (symbolTable : DecodedSymbols) :
    Except BytecodeError (DecodedNode×List UInt8) := do
  let (nodeId,nodeInstSz) ← verifyAndReadNodeHeader bytecode nodeType
  if bytecode.length < nodeTypeHeaderSz+nodeInstSz then .error .incorrectNodeSectionSize
  else if nodeId ∉ symbolTable then .error .missingNodeIdInSymbolTable
  else
    let rest := bytecode.drop nodeTypeHeaderSz
    .ok (⟨nodeId,rest.take nodeInstSz⟩,rest.drop nodeInstSz)

def splitOffNodes (symbolTable : DecodedSymbols) : ℕ → List UInt8 → Except BytecodeError (List DecodedNode)
  | _,[] => .ok []
  | 0,_ => .error .unexpectedEnd
  | fuel+1,bytecode => do
    let (node,remaining) ← splitOffNode bytecode .additional symbolTable
    let nodes ← splitOffNodes symbolTable fuel remaining
    .ok (node::nodes)

def DecodedCompositeBindRules.new (symbolTable : DecodedSymbols) (bytecode : List UInt8) :
    Except BytecodeError DecodedCompositeBindRules := do
  let (sz,bytecode) ← readAndRemoveHeader bytecode compositeMagicNum
  if bytecode.length ≠ sz then .error .incorrectSectionSize
  else do
    let deviceName ← getU32Bytes bytecode 0
    let deviceNameId := UInt32.ofNat (leNat deviceName)
    if deviceNameId ∉ symbolTable then .error .missingDeviceNameInSymbolTable
    else do
      let (primaryNode,bytecode) ← splitOffNode (bytecode.drop 4) .primary symbolTable
      let additionalNodes ← splitOffNodes symbolTable bytecode.length bytecode
      .ok ⟨symbolTable,deviceNameId,primaryNode,additionalNodes⟩

def DecodedCompositeBindRules.fromBytecode (bytecode : List UInt8) :
    Effect Unit BytecodeError DecodedCompositeBindRules := do
  let (symbolTable,bytecode) ← getSymbolTableAndInstructionBytecode bytecode
  ofExcept (DecodedCompositeBindRules.new symbolTable bytecode)

def matchBytecode (bytecode : List UInt8) (properties : DeviceProperties) : Effect Unit BytecodeError Bool := do
  let decoded ← DecodedBindRules.fromBytecode bytecode
  matchBind decoded.symbolTable decoded.instructions properties

/-! The section of symbols: the names in the order of their first use, numbered from one. What the
encoder writes is read back where the names are not empty and contain no zero byte. -/

open List UInt32 SymbolTableEncoder Nat

def keyIn (names : List String) (s : String) : UInt32 := UInt32.ofNat (names.idxOf s+1)

/-- The entries of the names, the first of which has the number `start`. -/
def entriesFrom (start : ℕ) : List String → List UInt8
  | [] => []
  | s::names => leBytes 4 (UInt32.ofNat start).toNat++utf8 s++[0]++entriesFrom (start+1) names

lemma entriesFrom_append (start : ℕ) (names more : List String) :
    entriesFrom start (names++more) = entriesFrom start names++entriesFrom (start+names.length) more := by
  induction names generalizing start with
  | nil => rfl
  | cons s names ih =>
    simp only [cons_append,entriesFrom,ih,length_cons,append_assoc]
    rw [add_right_comm,add_assoc]

/-- The number of bytes of the entries. -/
def entriesSize (names : List String) : ℕ := (names.map fun s => (utf8 s).length+5).sum

lemma length_entriesFrom (start : ℕ) (names : List String) : (entriesFrom start names).length = entriesSize names := by
  induction names generalizing start with
  | nil => rfl
  | cons s names ih =>
    simp only [entriesFrom,length_append,length_leBytes,ih,entriesSize,map_cons,sum_cons,length_singleton]
    omega

structure Encodes (e : SymbolTableEncoder) (names : List String) : Prop where
  nodup : names.Nodup
  short : ∀ s ∈ names,(utf8 s).length ≤ maxStringLength
  lookup : ∀ s,e.encodedSymbols.lookup s = if s ∈ names then some (keyIn names s) else none
  uniqueKey : e.uniqueKey = UInt32.ofNat (names.length+1)
  bytecode : e.bytecode = entriesFrom 1 names

variable {e e' : SymbolTableEncoder} {names more : List String} {s : String} {k : UInt32}

lemma encodes_new : Encodes new [] where
  nodup := nodup_nil
  short := by simp
  lookup s := by simp [new]
  uniqueKey := rfl
  bytecode := rfl

lemma keyIn_append (h : s ∈ names) : keyIn (names++more) s = keyIn names s := by
  rw [keyIn,keyIn,idxOf_append_of_mem h]

lemma keyIn_more (hp : names <+: more) (h : s ∈ names) : keyIn more s = keyIn names s := by
  obtain ⟨rest,rfl⟩ := hp
  exact keyIn_append h

lemma Encodes.getKey (h : Encodes e names) (hk : SymbolTableEncoder.getKey s e = .ok k e') :
    ∃ names',Encodes e' names' ∧ names <+: names' ∧ s ∈ names' ∧ k = keyIn names' s ∧
      ∀ t ∈ names',t ∈ names ∨ t = s := by
  rw [SymbolTableEncoder.getKey,get_bind,h.lookup] at hk
  by_cases hs : s ∈ names
  · rw [if_pos hs] at hk
    simp only [pure_apply,Result.ok.injEq] at hk
    obtain ⟨rfl,rfl⟩ := hk
    exact ⟨names,h,prefix_refl _,hs,rfl,fun t ht => .inl ht⟩
  · rw [if_neg hs] at hk
    simp only [addSymbol] at hk
    split_ifs at hk with hlen
    · cases hk
    · simp only [get_bind,modify_bind,pure_apply,Result.ok.injEq] at hk
      obtain ⟨rfl,rfl⟩ := hk
      have hkey : keyIn (names++[s]) s = e.uniqueKey := by
        rw [keyIn,h.uniqueKey,idxOf_append_of_notMem hs]
        simp
      refine ⟨names++[s],?_,prefix_append _ _,by simp,hkey.symm,by simp⟩
      constructor
      · rw [nodup_append]
        refine ⟨h.nodup,nodup_singleton s,?_⟩
        rintro a ha b hb rfl
        exact hs (mem_singleton.mp hb ▸ ha)
      · intro t ht
        obtain ht | ht := mem_append.mp ht
        · exact h.short t ht
        · rw [mem_singleton.mp ht]
          exact Nat.le_of_not_lt hlen
      · intro t
        by_cases hts : t = s
        · subst hts
          simp [AList.lookup_insert,hkey]
        · rw [AList.lookup_insert_ne hts,h.lookup]
          by_cases ht : t ∈ names
          · simp [ht,keyIn_append ht]
          · simp [ht,hts]
      · rw [h.uniqueKey,length_append,length_singleton]
        exact (ofNat_add (names.length+1) 1).symm
      · rw [h.bytecode,entriesFrom_append,h.uniqueKey]
        simp [entriesFrom,add_comm]

def Readable (s : String) : Prop := utf8 s ≠ [] ∧ 0 ∉ utf8 s

variable {rest : List UInt8}

lemma readStringBytes_eq {bytes read : List UInt8} (hzero : 0 ∉ bytes)
    (hlen : read.length+bytes.length ≤ maxStringLength) :
    readStringBytes read (bytes++0::rest) = .ok (read++bytes) rest := by
  induction bytes generalizing read with
  | nil => simp [readStringBytes]
  | cons b bytes ih =>
    have hb : b ≠ 0 := fun h => hzero (h ▸ mem_cons_self)
    rw [length_cons] at hlen
    rw [cons_append,readStringBytes,if_neg hb,if_neg (by omega),
      ih (fun h => hzero (mem_cons_of_mem _ h)) (by rw [length_append,length_singleton]; omega)]
    simp

lemma fromUTF8_utf8 (s : String) : String.fromUTF8? (utf8 s).toByteArray = some s := by
  have hbytes : (utf8 s).toByteArray = s.toByteArray := by
    ext1
    simp [utf8]
  rw [hbytes,String.fromUTF8?,dif_pos s.isValidUTF8]
  rfl

lemma readString_eq (hs : Readable s) (hlen : (utf8 s).length ≤ maxStringLength) (rest : List UInt8) :
    readString (utf8 s++0::rest) = .ok s rest := by
  have hbytes : readStringBytes [] (utf8 s++0::rest) = .ok (utf8 s) rest :=
    readStringBytes_eq hs.2 (by simpa using hlen)
  rw [readString,bind_of_ok hbytes]
  have hempty : (utf8 s).isEmpty = false := by
    rw [isEmpty_eq_false_iff]
    exact hs.1
  simp [hempty,fromUTF8_utf8]

variable (x : ℕ)

lemma ofNat_leNat_leBytes : UInt32.ofNat (leNat (leBytes 4 x)) = UInt32.ofNat x := by
  rw [leNat_leBytes]
  apply UInt32.toNat_inj.mp
  simp

lemma nextU32_leBytes : nextU32 (leBytes 4 x++rest) = .ok (UInt32.ofNat x) rest := by
  rw [← ofNat_leNat_leBytes x]
  rfl

lemma tryNextU32_leBytes : tryNextU32 (leBytes 4 x++rest) = .ok (some (UInt32.ofNat x)) rest := by
  rw [← ofNat_leNat_leBytes x]
  rfl

/-- The table of the names, numbered from `start`. -/
def insertFrom (start : ℕ) (table : DecodedSymbols) : List String → DecodedSymbols
  | [] => table
  | s::names => insertFrom (start+1) (table.insert (UInt32.ofNat start) s) names

lemma tryNextU32_entriesFrom (start : ℕ) (s : String) (names : List String) : tryNextU32 (entriesFrom start (s::names)) =
      .ok (some (UInt32.ofNat start)) (utf8 s++0::entriesFrom (start+1) names) := by
  rw [entriesFrom,append_assoc,append_assoc,tryNextU32_leBytes,UInt32.ofNat_toNat]
  simp

variable (fuel start : ℕ)

lemma readSymbols_cons (table : DecodedSymbols) (hs : Readable s) (hshort : (utf8 s).length ≤ maxStringLength)
    (names : List String) : readSymbols (fuel+1) table (UInt32.ofNat start) (entriesFrom start (s::names)) =
      readSymbols fuel (table.insert (UInt32.ofNat start) s) (UInt32.ofNat (start+1)) (entriesFrom (start+1) names) := by
  have hnext : UInt32.ofNat start+1 = UInt32.ofNat (start+1) := (ofNat_add start 1).symm
  rw [readSymbols,bind_of_ok (tryNextU32_entriesFrom start s names)]
  simp only [ne_eq,not_true_eq_false,if_false,bind_of_ok (readString_eq hs hshort _),hnext]

lemma readSymbols_eq (table : DecodedSymbols) (hnames : ∀ s ∈ names,Readable s)
    (hshort : ∀ s ∈ names,(utf8 s).length ≤ maxStringLength) (hfuel : names.length < fuel) :
    readSymbols fuel table (UInt32.ofNat start) (entriesFrom start names) = .ok (insertFrom start table names) [] := by
  induction names generalizing fuel start table with
  | nil =>
    obtain ⟨fuel,rfl⟩ := exists_eq_succ_of_ne_zero (ne_of_gt hfuel)
    rfl
  | cons s names ih =>
    obtain ⟨fuel,rfl⟩ := exists_eq_succ_of_ne_zero (ne_of_gt (zero_lt_of_lt hfuel))
    rw [succ_eq_add_one,readSymbols_cons fuel start table (hnames s mem_cons_self) (hshort s mem_cons_self)]
    apply ih
    · exact (forall_mem_cons.mp hnames).2
    · exact (forall_mem_cons.mp hshort).2
    · simpa using hfuel

lemma readSymbols_empty (table : DecodedSymbols) (hzero : ∀ s ∈ names,0 ∉ utf8 s)
    (hshort : ∀ s ∈ names,(utf8 s).length ≤ maxStringLength) (hempty : ∃ s ∈ names,utf8 s = [])
    (hfuel : names.length < fuel) :
    ∃ left,readSymbols fuel table (UInt32.ofNat start) (entriesFrom start names) = .fail .emptyString left := by
  induction names generalizing fuel start table with
  | nil => simp at hempty
  | cons s names ih =>
    obtain ⟨fuel,rfl⟩ := exists_eq_succ_of_ne_zero (ne_of_gt (zero_lt_of_lt hfuel))
    by_cases hs : utf8 s = []
    · have hstring : readString (utf8 s++0::entriesFrom (start+1) names) =
          .fail .emptyString (entriesFrom (start+1) names) := by
        rw [hs]
        rfl
      rw [succ_eq_add_one,readSymbols,bind_of_ok (tryNextU32_entriesFrom start s names)]
      simp only [ne_eq,not_true_eq_false,if_false,bind_of_fail hstring]
      exact ⟨_,rfl⟩
    · rw [succ_eq_add_one,readSymbols_cons fuel start table ⟨hs,hzero s mem_cons_self⟩ (hshort s mem_cons_self)]
      apply ih
      · exact (forall_mem_cons.mp hzero).2
      · exact (forall_mem_cons.mp hshort).2
      · exact ((exists_mem_cons_iff _ _ _).mp hempty).resolve_left hs
      · simpa using hfuel

lemma ofNat_inj {a b : ℕ} (ha : a < 2^32) (hb : b < 2^32) (h : UInt32.ofNat a = UInt32.ofNat b) : a = b := by
  have h' := congrArg toNat h
  simp only [toNat_ofNat'] at h'
  rwa [mod_eq_of_lt ha,mod_eq_of_lt hb] at h'

variable {table : DecodedSymbols}

lemma lookup_insertFrom_of_lt {start n : ℕ} (hn : n < start) (hlen : start+names.length ≤ 2^32) :
    (insertFrom start table names).lookup (UInt32.ofNat n) = table.lookup (UInt32.ofNat n) := by
  induction names generalizing start table with
  | nil => rfl
  | cons s names ih =>
    rw [length_cons] at hlen
    have hne : UInt32.ofNat n ≠ UInt32.ofNat start := by
      intro h
      have := ofNat_inj (by omega) (by omega) h
      omega
    rw [insertFrom,ih (by omega) (by omega),AList.lookup_insert_ne hne]

lemma lookup_insertFrom {start n : ℕ} (hn : names[n]? = some s) (hlen : start+names.length ≤ 2^32) :
    (insertFrom start table names).lookup (UInt32.ofNat (start+n)) = some s := by
  induction names generalizing start n table with
  | nil => simp at hn
  | cons t names ih =>
    rw [length_cons] at hlen
    cases n with
    | zero =>
      rw [insertFrom,add_zero,lookup_insertFrom_of_lt (lt_succ_self start) (by omega),AList.lookup_insert]
      simpa using hn
    | succ n =>
      rw [insertFrom,show start+(n+1) = start+1+n by omega]
      exact ih (by simpa using hn) (by omega)

def Names (table : DecodedSymbols) (names : List String) : Prop :=
  ∀ s ∈ names,table.lookup (keyIn names s) = some s

lemma length_le_entriesSize (names : List String) : 5*names.length ≤ entriesSize names := by
  induction names with
  | nil => rfl
  | cons s names ih =>
    simp only [entriesSize,map_cons,sum_cons,length_cons] at ih ⊢
    omega

lemma readSymbolTable_eq (hnames : ∀ s ∈ names,Readable s)
    (hshort : ∀ s ∈ names,(utf8 s).length ≤ maxStringLength) (hsize : entriesSize names < 2^32) :
    ∃ table,readSymbolTable (entriesFrom 1 names) () = .ok table () ∧ Names table names := by
  have hlen := length_le_entriesSize names
  have hread := readSymbols_eq ((entriesFrom 1 names).length+1) 1 ∅ hnames hshort (by rw [length_entriesFrom]; omega)
  refine ⟨insertFrom 1 ∅ names,isolate_eq_ok.mpr ⟨⟨[],hread⟩,rfl⟩,?_⟩
  intro s hs
  have hidx : names[names.idxOf s]? = some s := by
    rw [getElem?_eq_getElem (idxOf_lt_length_of_mem hs),getElem_idxOf]
  rw [keyIn,add_comm]
  exact lookup_insertFrom hidx (by omega)

end Fuchsia.Bind
