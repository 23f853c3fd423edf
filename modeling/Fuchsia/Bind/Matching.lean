import Fuchsia.Bind.EncoderCorrect

/-! The matcher on the bytes of instructions: it does what the abstract machine does, with each number cut
to its low 32 bits. -/
namespace Fuchsia.Bind

open Effect Bytes DeviceMatcher InstructionEncoder List

/-- What is read back of a symbol. -/
def Symbol.stored : Symbol → Symbol
  | .numberValue value => .numberValue value.toUInt32.toUInt64
  | .deprecatedKey k => .numberValue k.toUInt64
  | .key name _ => .key name .str
  | symbol => symbol

def readsStored (properties : DeviceProperties) (lhs rhs : Symbol) : Except Fault Bool :=
  readsEqual properties lhs rhs.stored

variable {decoded : DecodedSymbols} {properties : DeviceProperties} {names : List String} {symbol lhs rhs : Symbol}
  {rest : List UInt8} {condition : MatchCondition} {label : UInt32} {i : SymbolicInstruction}
  {code : List SymbolicInstruction}

lemma nextU8_cons (byte : UInt8) : nextU8 (byte::rest) = .ok byte rest := rfl

lemma RawValueType.fromU8_toU8 (t : RawValueType) : RawValueType.fromU8 t.toU8 = some t := by cases t <;> rfl

lemma readNextValue_valueBytes (h : Names decoded names) (hs : ∀ s ∈ symbol.strings,s ∈ names) (rest : List UInt8) :
    readNextValue decoded (valueBytes names symbol++rest) = .ok symbol.stored rest := by
  have hread : ∀ (v : UInt32) (f : UInt32 → Reading Symbol) (r : Symbol),
      f v rest = .ok r rest → (nextU32 >>= f) (leBytes 4 v.toNat++rest) = .ok r rest := by
    intro v f r hf
    rw [bind_of_ok (nextU32_leBytes v.toNat),UInt32.ofNat_toNat]
    exact hf
  have hstring : ∀ (s : String) (f : String → Reading Symbol) (r : Symbol),s ∈ names → f s rest = .ok r rest →
      (lookupSymbolTable decoded (keyIn names s) >>= f) rest = .ok r rest := by
    intro s f r hs hf
    rw [lookupSymbolTable,h s hs]
    exact hf
  unfold readNextValue
  cases symbol <;> rw [valueBytes,cons_append,bind_of_ok (nextU8_cons _),RawValueType.fromU8_toU8] <;>
    apply hread
  case numberValue | deprecatedKey => rfl
  case boolValue b => cases b <;> rfl
  case stringValue s | enumValue s | key s t => exact hstring s _ _ (hs s mem_cons_self) rfl

def reported {A : Type} (bytes : List UInt8) : Except Fault A → Result (List UInt8) BytecodeError A
  | .ok a => .ok a bytes
  | .error _ => .fail .mismatchValueTypes bytes

def MatchCondition.decides : MatchCondition → Bool → Bool
  | .inequal,b => !b
  | _,b => b

lemma readAndEvaluateValues_eq (h : Names decoded names) (hc : Comparable lhs rhs)
    (hs : ∀ s ∈ lhs.strings++rhs.strings,s ∈ names) (hcondition : condition ≠ .unconditional)
    (properties : DeviceProperties) (rest : List UInt8) :
    readAndEvaluateValues decoded properties condition (comparisonBytes names lhs rhs++rest) =
      reported rest ((readsStored properties lhs rhs).map condition.decides) := by
  have hlhs := readNextValue_valueBytes h (forall_mem_append.mp hs).1 (valueBytes names rhs++rest)
  have hrhs := readNextValue_valueBytes h (forall_mem_append.mp hs).2 rest
  have hnone : (pure (decide (condition = .inequal)) : Reading Bool) rest =
      reported rest ((.ok false : Except Fault Bool).map condition.decides) := by cases condition <;> rfl
  have hsome : ∀ v,compareSymbols condition v rhs.stored rest =
      reported rest ((if v.kind = rhs.stored.kind then .ok (decide (v = rhs.stored))
        else .error .mismatch : Except Fault Bool).map condition.decides) := by
    intro v
    simp only [compareSymbols]
    by_cases hkind : v.kind = rhs.stored.kind
    · rw [if_neg (not_not.mpr hkind),if_pos hkind]
      cases condition with
      | unconditional => exact absurd rfl hcondition
      | equal => rfl
      | inequal => by_cases hv : v = rhs.stored <;> simp [hv,reported,Except.map,MatchCondition.decides]
    · rw [if_pos hkind,if_neg hkind]
      rfl
  simp only [comparisonBytes,append_assoc,readAndEvaluateValues,readsStored,readsEqual]
  cases lhs with
  | deprecatedKey k =>
    refine (bind_of_ok (a := .numberKey k.toUInt64) ?_).trans ((bind_of_ok hrhs).trans ?_)
    · exact bind_of_ok hlhs
    · simp only [Symbol.propertyKey]
      cases properties.lookup (.numberKey k.toUInt64) with
      | none => exact hnone
      | some v => exact hsome v
  | key name t =>
    refine (bind_of_ok (a := .stringKey name) ?_).trans ((bind_of_ok hrhs).trans ?_)
    · exact bind_of_ok hlhs
    · simp only [Symbol.propertyKey]
      cases properties.lookup (.stringKey name) with
      | none => exact hnone
      | some v => exact hsome v
  | _ => cases hc.1

variable (first : List UInt8)

lemma skipBytes_eq : skipBytes first.length (first++rest) = .ok () rest := by
  induction first with
  | nil => rfl
  | cons byte first ih =>
    rw [length_cons,skipBytes,cons_append,bind_of_ok (nextU8_cons byte)]
    exact ih

def landing (label : UInt32) : List SymbolicInstruction → List SymbolicInstruction
  | [] => []
  | i::rest => if i = .label label then rest else landing label rest

lemma emit_landing (names : List String) (h : .label label ∈ code) : ∃ skipped,skipped.length = distance label code ∧
      emit names code = skipped++RawOp.jumpLandPad.toU8::emit names (landing label code) := by
  induction code with
  | nil => cases h
  | cons i code ih =>
    rw [distance,landing]
    split_ifs with hi
    · subst hi
      exact ⟨[],rfl,rfl⟩
    · have hmem := (mem_cons.mp h).resolve_left (Ne.symm hi)
      obtain ⟨skipped,hlen,hemit⟩ := ih hmem
      refine ⟨opBytes names (offsetOf i code) i++skipped,?_,?_⟩
      · rw [length_append,length_opBytes,hlen]
      · rw [emit,hemit,append_assoc]

lemma exec_landing {reads : Symbol → Symbol → Except Fault Bool} (h : .label label ∈ code) :
    exec reads (some label) code = exec reads none (landing label code) := by
  induction code with
  | nil => cases h
  | cons i code ih =>
    rw [exec,landing]
    split_ifs with hi
    · rfl
    · exact ih ((mem_cons.mp h).resolve_left (Ne.symm hi))

lemma landing_suffix (label : UInt32) (code : List SymbolicInstruction) : landing label code <:+ code := by
  induction code with
  | nil => exact suffix_refl []
  | cons i code ih =>
    rw [landing]
    split_ifs
    · exact suffix_cons i code
    · exact ih.trans (suffix_cons i code)

structure Ready (names : List String) (code : List SymbolicInstruction) : Prop where
  typed : ∀ i ∈ code,WellTyped i
  strings : ∀ s ∈ stringsOf code,s ∈ names
  linked : Linked code

variable {code' : List SymbolicInstruction}

lemma Linked.of_suffix (h : Linked code) (hs : code' <:+ code) : Linked code' := by
  obtain ⟨first,rfl⟩ := hs
  induction first with
  | nil => exact h
  | cons i first ih => exact ih h.2

lemma Ready.of_suffix (h : Ready names code) (hs : code' <:+ code) : Ready names code' where
  typed i hi := h.typed i (hs.subset hi)
  strings s hmem := by
    obtain ⟨i,hi,hmem⟩ := mem_flatMap.mp hmem
    exact h.strings s (mem_flatMap.mpr ⟨i,hs.subset hi,hmem⟩)
  linked := h.linked.of_suffix hs

lemma Ready.comparison (h : Ready names (i::code)) (hi : operands i = [lhs,rhs]) :
    Comparable lhs rhs ∧ ∀ s ∈ lhs.strings++rhs.strings,s ∈ names := by
  refine ⟨(h.typed i mem_cons_self).2 lhs rhs hi,?_⟩
  intro s hs
  apply h.strings
  rw [stringsOf,flatMap_cons,hi]
  exact mem_append_left _ (by simpa using hs)

lemma jump_lands (h : .label label ∈ code) (hrange : distance label code < 2^32) : (do
      skipBytes (UInt32.ofNat (distance label code)).toNat
      let byte ← nextU8
      if byte ≠ RawOp.jumpLandPad.toU8 then throw .invalidJumpLocation else pure () : Reading Unit)
      (emit names code) = .ok () (emit names (landing label code)) := by
  obtain ⟨skipped,hlen,hemit⟩ := emit_landing names h
  rw [UInt32.toNat_ofNat_of_lt' hrange,← hlen,hemit,bind_of_ok (skipBytes_eq skipped),bind_of_ok (nextU8_cons _)]
  rfl

def continuation (label : UInt32) (code : List SymbolicInstruction) (taken : Bool) : List SymbolicInstruction :=
  if taken then landing label code else code

section Comparison

variable (properties) (h : Names decoded names) (hc : Comparable lhs rhs)
  (hs : ∀ s ∈ lhs.strings++rhs.strings,s ∈ names) (hcondition : condition ≠ .unconditional)
include h hc hs hcondition

lemma evaluateJumpInst_eq (hlabel : .label label ∈ code) (hrange : distance label code < 2^32) :
    evaluateJumpInst decoded properties condition
      (leBytes 4 (distance label code)++(comparisonBytes names lhs rhs++emit names code)) =
      match (readsStored properties lhs rhs).map condition.decides with
      | .ok taken => .ok () (emit names (continuation label code taken))
      | .error _ => .fail .mismatchValueTypes (emit names code) := by
  have hvalues := readAndEvaluateValues_eq h hc hs hcondition properties (emit names code)
  unfold evaluateJumpInst
  rw [bind_of_ok (nextU32_leBytes _)]
  simp only [if_neg hcondition]
  cases hr : (readsStored properties lhs rhs).map condition.decides with
  | error f =>
    rw [hr] at hvalues
    exact bind_of_fail hvalues
  | ok taken =>
    rw [hr] at hvalues
    rw [bind_of_ok hvalues]
    cases taken with
    | false => rfl
    | true => exact jump_lands hlabel hrange

variable {next : Reading Bool}

lemma matchLoop_condition {r : Except Fault Bool} {left : List UInt8}
    (hnext : next (emit names code) = reported left r) : ∃ left',(do
      if ← readAndEvaluateValues decoded properties condition then next else pure false : Reading Bool)
      (comparisonBytes names lhs rhs++emit names code) =
      reported left' (do
        if condition.decides (← readsStored properties lhs rhs) then r else .ok false) := by
  have hvalues := readAndEvaluateValues_eq h hc hs hcondition properties (emit names code)
  cases hr : readsStored properties lhs rhs with
  | error f =>
    rw [hr] at hvalues
    exact ⟨_,bind_of_fail hvalues⟩
  | ok b =>
    rw [hr] at hvalues
    rw [bind_of_ok hvalues]
    change ∃ left',(if condition.decides b then next else pure false) _ =
      reported left' (if condition.decides b then r else .ok false)
    cases condition.decides b with
    | false => exact ⟨_,rfl⟩
    | true => exact ⟨left,hnext⟩

lemma matchLoop_jump {r : Bool → Except Fault Bool} {left : Bool → List UInt8}
    (hlabel : .label label ∈ code) (hrange : distance label code < 2^32)
    (hnext : ∀ taken,next (emit names (continuation label code taken)) = reported (left taken) (r taken)) : ∃ left',(do
      evaluateJumpInst decoded properties condition
      next : Reading Bool)
      (leBytes 4 (distance label code)++(comparisonBytes names lhs rhs++emit names code)) =
      reported left' (do r (condition.decides (← readsStored properties lhs rhs))) := by
  have hjump := evaluateJumpInst_eq properties h hc hs hcondition hlabel hrange
  cases hr : readsStored properties lhs rhs with
  | error f =>
    rw [hr] at hjump
    exact ⟨_,bind_of_fail hjump⟩
  | ok b =>
    rw [hr] at hjump
    rw [bind_of_ok hjump]
    exact ⟨_,hnext _⟩

end Comparison

lemma matchLoop_emit (properties : DeviceProperties) (h : Names decoded names) (hcode : Ready names code) {fuel : ℕ} (hfuel : code.length < fuel) :
    ∃ left,matchLoop decoded properties fuel (emit names code) =
      reported left (exec (readsStored properties) none code) := by
  induction fuel generalizing code with
  | zero => omega
  | succ fuel ih =>
    cases code with
    | nil => exact ⟨[],rfl⟩
    | cons i rest =>
      have hrest : Ready names rest := hcode.of_suffix (suffix_cons i rest)
      have hlen : rest.length < fuel := by simpa using hfuel
      obtain ⟨left,hleft⟩ := ih hrest hlen
      have hlanding : ∀ label,∃ left,matchLoop decoded properties fuel (emit names (landing label rest)) =
          reported left (exec (readsStored properties) none (landing label rest)) := by
        intro label
        have hsuffix := landing_suffix label rest
        exact ih (hrest.of_suffix hsuffix) (lt_of_le_of_lt hsuffix.length_le hlen)
      have hcontinuation : ∀ label,∃ left : Bool → List UInt8,∀ taken,
          matchLoop decoded properties fuel (emit names (continuation label rest taken)) =
          reported (left taken) (exec (readsStored properties) none (continuation label rest taken)) := by
        intro label
        obtain ⟨left',hleft'⟩ := hlanding label
        refine ⟨fun taken => if taken then left' else left,fun taken => ?_⟩
        cases taken with
        | false => exact hleft
        | true => exact hleft'
      cases i with
      | abortIfEqual lhs rhs | abortIfNotEqual lhs rhs =>
        obtain ⟨hc,hs⟩ := hcode.comparison rfl
        refine Exists.imp (fun left' hr => hr.trans (congrArg (reported left') ?_))
          (matchLoop_condition properties h hc hs (by decide) hleft)
        rw [exec]
        cases readsStored properties lhs rhs with
        | error f => rfl
        | ok b => cases b <;> rfl
      | label l => exact ⟨left,hleft⟩
      | unconditionalAbort => exact ⟨_,rfl⟩
      | unconditionalBind => exact absurd rfl (hcode.typed _ mem_cons_self).1
      | unconditionalJump l =>
        obtain ⟨hmem,hrange⟩ := hcode.linked.1 l rfl
        obtain ⟨left',hleft'⟩ := hlanding l
        have hjump : evaluateJumpInst decoded properties .unconditional
            (leBytes 4 (distance l rest)++emit names rest) = _ :=
          (bind_of_ok (nextU32_leBytes _)).trans (jump_lands (mem_labelsOf.mp hmem) hrange)
        refine ⟨left',(bind_of_ok hjump).trans (hleft'.trans ?_)⟩
        rw [exec,exec_landing (mem_labelsOf.mp hmem)]
      | jumpIfEqual lhs rhs l | jumpIfNotEqual lhs rhs l =>
        obtain ⟨hc,hs⟩ := hcode.comparison rfl
        obtain ⟨hmem,hrange⟩ := hcode.linked.1 l rfl
        obtain ⟨left',hleft'⟩ := hcontinuation l
        refine Exists.imp (fun left'' hr => hr.trans (congrArg (reported left'') ?_))
          (matchLoop_jump properties h hc hs (by decide) (mem_labelsOf.mp hmem) hrange hleft')
        rw [exec,exec_landing (mem_labelsOf.mp hmem)]
        cases readsStored properties lhs rhs with
        | error f => rfl
        | ok b => cases b <;> rfl

lemma length_le_codeSize (h : ∀ i ∈ code,WellTyped i) : code.length ≤ codeSize code := by
  induction code with
  | nil => exact Nat.le_refl 0
  | cons i code ih =>
    have hrest := ih (forall_mem_cons.mp h).2
    have hi := (h i mem_cons_self).1
    have hsize : 1 ≤ byteSize i := by cases i <;> first | exact absurd rfl hi | simp [byteSize]
    simp only [codeSize,map_cons,sum_cons,length_cons] at hrest ⊢
    omega

def returned : Except Fault Bool → Result Unit BytecodeError Bool
  | .ok b => .ok b ()
  | .error _ => .fail .mismatchValueTypes ()

lemma matchBind_emit (properties : DeviceProperties) (h : Names decoded names) (hcode : Ready names code) :
    matchBind decoded (emit names code) properties () = returned (exec (readsStored properties) none code) := by
  have hfuel : code.length < (emit names code).length+1 := by
    have hle := length_le_codeSize hcode.typed
    rw [length_emit]
    omega
  obtain ⟨left,hr⟩ := matchLoop_emit properties h hcode hfuel
  rw [matchBind,isolate,hr]
  cases exec (readsStored properties) none code <;> rfl

/-! The sections of the bytecode, as the encoder puts them together and the decoder takes them apart: the
symbols, the instructions of plain rules, and the nodes of composite rules. -/

open Fallible DecodedCompositeBindRules RawNodeType Nat

variable {names names' : List String} {s : String}

lemma utf8_eq_nil : utf8 s = [] ↔ s = "" := by
  constructor
  · intro h
    have hs := fromUTF8_utf8 s
    rw [h] at hs
    exact (Option.some.inj (hs.symm.trans (fromUTF8_utf8 ""))).trans rfl
  · rintro rfl
    rfl

lemma getU32Bytes_append (x : ℕ) (rest : List UInt8) :
    getU32Bytes (first++(leBytes 4 x++rest)) first.length = .ok (leBytes 4 x) := by
  rw [getU32Bytes,if_neg (by simp),drop_left,take_left' (by simp)]

lemma leNat_leBytes_four {x : ℕ} (hx : x < 2^32) : leNat (leBytes 4 x) = x := by
  rw [leNat_leBytes]
  exact mod_eq_of_lt hx

lemma readAndRemoveHeader_eq {magicNum x : ℕ} (hmagic : magicNum < 2^32) (hx : x < 2^32) :
    readAndRemoveHeader (beBytes 4 magicNum++leBytes 4 x++rest) magicNum = .ok (x,rest) := by
  have hnum : getU32Bytes (beBytes 4 magicNum++leBytes 4 x++rest) 0 = .ok (beBytes 4 magicNum) := by
    rw [getU32Bytes,if_neg (by simp [beBytes]),drop_zero,append_assoc,take_left' (by simp [beBytes])]
  have hval : getU32Bytes (beBytes 4 magicNum++leBytes 4 x++rest) 4 = .ok (leBytes 4 x) := by
    have h := getU32Bytes_append (beBytes 4 magicNum) x rest
    simpa [beBytes] using h
  have hbe : beNat (beBytes 4 magicNum) = magicNum := by
    rw [beNat,beBytes,reverse_reverse,leNat_leBytes_four hmagic]
  have hdrop : (beBytes 4 magicNum++leBytes 4 x++rest).drop headerSz = rest :=
    drop_left' (by simp [beBytes,headerSz])
  rw [readAndRemoveHeader,hnum,ok_bind,hbe,if_neg (by simp),hval,ok_bind,leNat_leBytes_four hx,hdrop]

lemma getSymbolTable_sections {symbols : List UInt8} (instructions : List UInt8) (magicNum : ℕ)
    (hsymbols : symbols.length < 2^32) :
    getSymbolTableAndInstructionBytecode (sections symbols magicNum instructions) () =
      (readSymbolTable symbols >>= fun table =>
        pure (table,beBytes 4 magicNum++leBytes 4 (instructions.length%2^32)++instructions)) () := by
  set tail := beBytes 4 magicNum++leBytes 4 (instructions.length%2^32)++instructions with htail
  have hlen : tail.length = 8+instructions.length := by
    simp [htail,beBytes]
    omega
  have hsections : sections symbols magicNum instructions = beBytes 4 bindMagicNum++leBytes 4 bytecodeVersion++
      (beBytes 4 symbMagicNum++leBytes 4 symbols.length++(symbols++tail)) := by
    rw [sections,mod_eq_of_lt hsymbols,htail]
    simp
  have hsize : ¬ (sections symbols magicNum instructions).length < minimumBytecodeSz := by
    rw [hsections]
    simp [beBytes,minimumBytecodeSz,headerSz,hlen]
    omega
  rw [getSymbolTableAndInstructionBytecode,if_neg hsize,hsections,readAndRemoveHeader_eq (by decide) (by decide)]
  simp only [ofExcept_ok_bind,ne_eq,not_true_eq_false,if_false,readAndRemoveHeader_eq (by decide : symbMagicNum < 2^32) hsymbols]
  rw [if_neg (by simp [hlen,headerSz]),take_left,drop_left]

lemma fromBytecode_sections {instructions : List UInt8} (hnames : ∀ s ∈ names,Readable s)
    (hshort : ∀ s ∈ names,(utf8 s).length ≤ maxStringLength) (hsize : entriesSize names < 2^32)
    (hinstructions : instructions.length < 2^32) :
    ∃ decoded,DecodedBindRules.fromBytecode (sections (entriesFrom 1 names) instructionMagicNum instructions) () =
      .ok ⟨decoded,instructions⟩ () ∧ Names decoded names := by
  obtain ⟨decoded,hread,hdecoded⟩ := readSymbolTable_eq hnames hshort hsize
  refine ⟨decoded,?_,hdecoded⟩
  have htable := getSymbolTable_sections instructions instructionMagicNum
    (by rwa [length_entriesFrom 1 names] : (entriesFrom 1 names).length < 2^32)
  rw [bind_of_ok hread,pure_apply] at htable
  rw [DecodedBindRules.fromBytecode,bind_of_ok htable,mod_eq_of_lt hinstructions]
  simp only [DecodedBindRules.new,readAndRemoveHeader_eq (by decide : instructionMagicNum < 2^32) hinstructions,
    ok_bind,ne_eq,not_true_eq_false,if_false]
  rfl

lemma getSymbolTable_empty (instructions : List UInt8) (magicNum : ℕ) (hzero : ∀ s ∈ names,0 ∉ utf8 s)
    (hshort : ∀ s ∈ names,(utf8 s).length ≤ maxStringLength) (hempty : ∃ s ∈ names,utf8 s = [])
    (hsize : entriesSize names < 2^32) :
    getSymbolTableAndInstructionBytecode (sections (entriesFrom 1 names) magicNum instructions) () =
      .fail .emptyString () := by
  have hlen := length_le_entriesSize names
  obtain ⟨left,hread⟩ := readSymbols_empty ((entriesFrom 1 names).length+1) 1 ∅ hzero hshort hempty
    (by rw [length_entriesFrom]; omega)
  have htable : readSymbolTable (entriesFrom 1 names) () = .fail .emptyString () := by
    change isolate _ _ _ _ = _
    rw [isolate,show readSymbols _ ∅ symbTblStartKey _ = _ from hread]
    rfl
  rw [getSymbolTable_sections instructions magicNum (by rwa [length_entriesFrom]),bind_of_fail htable]

def nodeBytes (names : List String) (t : RawNodeType) (name : String) (code : List SymbolicInstruction) : List UInt8 :=
  t.toU8::(leBytes 4 (keyIn names name).toNat++(leBytes 4 (codeSize code%2^32)++emit names code))

variable {name : String}

lemma nodeBytes_more (hp : names <+: names') (t : RawNodeType) (hname : name ∈ names)
    (h : ∀ s ∈ stringsOf code,s ∈ names) : nodeBytes names' t name code = nodeBytes names t name code := by
  rw [nodeBytes,nodeBytes,keyIn_more hp hname,emit_more hp h]

lemma length_nodeBytes (names : List String) (t : RawNodeType) (name : String) (code : List SymbolicInstruction) :
    (nodeBytes names t name code).length = 9+codeSize code := by
  simp [nodeBytes,length_emit]
  omega

variable (t : RawNodeType)

lemma RawNodeType.fromU8_toU8 : fromU8 t.toU8 = some t := by cases t <;> rfl

lemma verifyAndReadNodeHeader_eq (key : UInt32) {size : ℕ} (hsize : size < 2^32) (bytes : List UInt8) :
    verifyAndReadNodeHeader (t.toU8::(leBytes 4 key.toNat++(leBytes 4 size++bytes))) t = .ok (key,size) := by
  have hid : getU32Bytes (t.toU8::(leBytes 4 key.toNat++(leBytes 4 size++bytes))) 1 = .ok (leBytes 4 key.toNat) :=
    getU32Bytes_append [t.toU8] key.toNat (leBytes 4 size++bytes)
  have hsz : getU32Bytes (t.toU8::(leBytes 4 key.toNat++(leBytes 4 size++bytes))) 5 = .ok (leBytes 4 size) :=
    getU32Bytes_append (t.toU8::leBytes 4 key.toNat) size bytes
  have hkey : UInt32.ofNat (leNat (leBytes 4 key.toNat)) = key := by rw [ofNat_leNat_leBytes,UInt32.ofNat_toNat]
  have hlen : ¬ (t.toU8::(leBytes 4 key.toNat++(leBytes 4 size++bytes))).length < nodeTypeHeaderSz := by
    simp only [length_cons,length_append,length_leBytes,nodeTypeHeaderSz]
    omega
  unfold verifyAndReadNodeHeader
  rw [if_neg hlen,headD_cons,fromU8_toU8]
  cases t <;> simp only [hid,hsz,ok_bind,hkey,leNat_leBytes_four hsize]

lemma splitOffNode_eq (hname : name ∈ names) (h : Names decoded names) (hsize : codeSize code < 2^32)
    (rest : List UInt8) : splitOffNode (nodeBytes names t name code++rest) t decoded =
      .ok (⟨keyIn names name,emit names code⟩,rest) := by
  have hbytes : nodeBytes names t name code++rest =
      t.toU8::(leBytes 4 (keyIn names name).toNat++(leBytes 4 (codeSize code)++(emit names code++rest))) := by
    rw [nodeBytes,mod_eq_of_lt hsize]
    simp
  have hlen : ¬ (nodeBytes names t name code++rest).length < nodeTypeHeaderSz+codeSize code := by
    rw [length_append,length_nodeBytes,nodeTypeHeaderSz]
    omega
  have hmem : ¬ keyIn names name ∉ decoded := by
    rw [not_not,← AList.lookup_isSome,h name hname]
    rfl
  have hdrop : (nodeBytes names t name code++rest).drop nodeTypeHeaderSz = emit names code++rest := by
    rw [hbytes]
    rfl
  rw [splitOffNode,hbytes,verifyAndReadNodeHeader_eq t _ hsize,← hbytes,ok_bind]
  simp only [if_neg hlen,if_neg hmem,hdrop]
  rw [take_left' (length_emit names code),drop_left' (length_emit names code)]

lemma splitOffNodes_eq {nodes : List (String×List SymbolicInstruction)} (h : Names decoded names)
    (hnames : ∀ n ∈ nodes,n.1 ∈ names) (hsize : ∀ n ∈ nodes,codeSize n.2 < 2^32) {fuel : ℕ}
    (hfuel : nodes.length ≤ fuel) :
    splitOffNodes decoded fuel (nodes.flatMap fun n => nodeBytes names .additional n.1 n.2) =
      .ok (nodes.map fun n => ⟨keyIn names n.1,emit names n.2⟩) := by
  induction nodes generalizing fuel with
  | nil => cases fuel <;> rfl
  | cons n nodes ih =>
    rw [length_cons] at hfuel
    obtain ⟨fuel,rfl⟩ := exists_eq_succ_of_ne_zero (by omega : fuel ≠ 0)
    have hrest := ih (forall_mem_cons.mp hnames).2 (forall_mem_cons.mp hsize).2 (by omega : nodes.length ≤ fuel)
    have hnode := splitOffNode_eq .additional (hnames n mem_cons_self) h (hsize n mem_cons_self)
      (nodes.flatMap fun n => nodeBytes names .additional n.1 n.2)
    rw [flatMap_cons]
    obtain ⟨b,bytes,hcons⟩ : ∃ b bytes,nodeBytes names .additional n.1 n.2++
        (nodes.flatMap fun n => nodeBytes names .additional n.1 n.2) = b::bytes := ⟨_,_,rfl⟩
    rw [hcons,splitOffNodes,← hcons,hnode,ok_bind]
    · simp only [hrest,ok_bind,map_cons]
    · exact cons_ne_nil _ _

def compositeBytes (names : List String) (deviceName : String) (primary : String×List SymbolicInstruction)
    (additional : List (String×List SymbolicInstruction)) : List UInt8 :=
  leBytes 4 (keyIn names deviceName).toNat++(nodeBytes names .primary primary.1 primary.2++
    additional.flatMap fun n => nodeBytes names .additional n.1 n.2)

def compositeSize (nodes : List (List SymbolicInstruction)) : ℕ := 4+(nodes.map fun n => 9+codeSize n).sum

lemma length_le_flatMap (names : List String) (nodes : List (String×List SymbolicInstruction)) :
    nodes.length ≤ (nodes.flatMap fun n => nodeBytes names .additional n.1 n.2).length := by
  induction nodes with
  | nil => exact le_refl 0
  | cons n nodes ih =>
    rw [flatMap_cons,length_append,length_nodeBytes,length_cons]
    omega

lemma fromBytecode_composite {deviceName : String} {primary : String×List SymbolicInstruction}
    {additional : List (String×List SymbolicInstruction)} (hnames : ∀ s ∈ names,Readable s)
    (hshort : ∀ s ∈ names,(utf8 s).length ≤ maxStringLength) (hsize : entriesSize names < 2^32)
    (hdevice : deviceName ∈ names) (hnodes : ∀ n ∈ primary::additional,n.1 ∈ names)
    (hcode : compositeSize ((primary::additional).map Prod.snd) < 2^32) :
    ∃ decoded,fromBytecode (sections (entriesFrom 1 names) compositeMagicNum
        (compositeBytes names deviceName primary additional)) () =
      .ok ⟨decoded,keyIn names deviceName,⟨keyIn names primary.1,emit names primary.2⟩,
        additional.map fun n => ⟨keyIn names n.1,emit names n.2⟩⟩ () ∧ Names decoded names := by
  obtain ⟨decoded,hread,hdecoded⟩ := readSymbolTable_eq hnames hshort hsize
  refine ⟨decoded,?_,hdecoded⟩
  set bytes := compositeBytes names deviceName primary additional with hbytes
  have hsize : bytes.length = compositeSize ((primary::additional).map Prod.snd) := by
    simp [hbytes,compositeBytes,compositeSize,length_nodeBytes,Function.comp_def,length_flatMap]
  have hlen : bytes.length < 2^32 := by rwa [hsize]
  have htable := getSymbolTable_sections bytes compositeMagicNum
    (by rwa [length_entriesFrom 1 names] : (entriesFrom 1 names).length < 2^32)
  rw [bind_of_ok hread,pure_apply,mod_eq_of_lt hlen] at htable
  have hnodeSize : ∀ n ∈ primary::additional,codeSize n.2 < 2^32 := by
    intro n hn
    have hle := single_le_sum (by simp) _
      (mem_map_of_mem (f := fun n => 9+codeSize n) (mem_map_of_mem (f := Prod.snd) hn))
    simp only [compositeSize] at hcode
    omega
  have hid : getU32Bytes bytes 0 = .ok (leBytes 4 (keyIn names deviceName).toNat) := getU32Bytes_append [] _ _
  have hkey : UInt32.ofNat (leNat (leBytes 4 (keyIn names deviceName).toNat)) = keyIn names deviceName := by
    rw [ofNat_leNat_leBytes,UInt32.ofNat_toNat]
  have hmem : ¬ keyIn names deviceName ∉ decoded := by
    rw [not_not,← AList.lookup_isSome,hdecoded deviceName hdevice]
    rfl
  have hprimary := splitOffNode_eq .primary (hnodes primary mem_cons_self) hdecoded
    (hnodeSize primary mem_cons_self) (additional.flatMap fun n => nodeBytes names .additional n.1 n.2)
  have hadditional := splitOffNodes_eq hdecoded (forall_mem_cons.mp hnodes).2
    (forall_mem_cons.mp hnodeSize).2 (length_le_flatMap names additional)
  rw [fromBytecode,bind_of_ok htable]
  simp only [new,readAndRemoveHeader_eq (by decide : compositeMagicNum < 2^32) hlen,
    ok_bind,ne_eq,not_true_eq_false,if_false,hid,hkey,if_neg hmem]
  have hdrop : bytes.drop 4 = nodeBytes names .primary primary.1 primary.2++
      additional.flatMap fun n => nodeBytes names .additional n.1 n.2 := rfl
  rw [hdrop,hprimary]
  simp only [ok_bind,hadditional]
  rfl

end Fuchsia.Bind
