import Fuchsia.Lib.Fallible
import Fuchsia.Bind.Interpreter

/-! The code of a block of rules does on the abstract machine what the rules say. -/
namespace Fuchsia.Bind

open Effect Statement Fallible List

def compareEval (table : SymbolTable) (reads : Symbol → Symbol → Except Fault Bool) (key : CompoundIdentifier)
    (value : Value) : Except Fault Bool :=
  match table.lookup key,value.symbol table with
  | some lhs,some rhs => reads lhs rhs
  | _,_ => .ok false

section Evaluation

variable (compare : CompoundIdentifier → Value → Except Fault Bool)

def Condition.eval (c : Condition) : Except Fault Bool := do
  let b ← compare c.lhs c.rhs
  match c.op with
  | .equals => .ok b
  | .notEquals => .ok (!b)

def acceptEval (key : CompoundIdentifier) : List Value → Except Fault Bool
  | [] => .ok false
  | v::vs => do if ← compare key v then .ok true else acceptEval key vs

mutual

/-- The rules read in the order of the code, up to the first property of another kind. -/
def Statement.eval : Statement → Except Fault Bool
  | .conditionStatement _ c => c.eval compare
  | .accept _ key values => acceptEval compare key values
  | .ifElse _ blocks elseBlock => do
    match ← branchesEval blocks with
    | some b => .ok b
    | none => blockEval elseBlock
  | .falseStatement _ => .ok false
  | .trueStatement _ => .ok true

def blockEval : List Statement → Except Fault Bool
  | [] => .ok true
  | s::ss => do if ← s.eval then blockEval ss else .ok false

def branchesEval : List (Condition×List Statement) → Except Fault (Option Bool)
  | [] => .ok none
  | (c,b)::rest => do
    if ← c.eval compare then (do let r ← blockEval b; .ok (some r))
    else branchesEval rest

end

end Evaluation

def labelOf : SymbolicInstruction → Option UInt32
  | .label label => some label
  | _ => none

def labelsOf (code : List SymbolicInstruction) : List UInt32 := code.filterMap labelOf

def instructionsOf (code : List SymbolicInstructionInfo) : List SymbolicInstruction :=
  code.map SymbolicInstructionInfo.instruction

variable {table : SymbolTable} {reads : Symbol → Symbol → Except Fault Bool} {label : UInt32}
  {code rest : List SymbolicInstruction}

@[simp] lemma labelsOf_append (code rest : List SymbolicInstruction) :
    labelsOf (code++rest) = labelsOf code++labelsOf rest := filterMap_append

@[simp] lemma instructionsOf_append (code rest : List SymbolicInstructionInfo) :
    instructionsOf (code++rest) = instructionsOf code++instructionsOf rest := map_append

lemma labelOf_eq_some {i : SymbolicInstruction} : labelOf i = some label ↔ i = .label label := by
  cases i <;> simp [labelOf]

lemma mem_labelsOf : label ∈ labelsOf code ↔ .label label ∈ code := by simp [labelsOf,labelOf_eq_some]

lemma exec_skip (h : label ∉ labelsOf code) (reads : Symbol → Symbol → Except Fault Bool)
    (rest : List SymbolicInstruction) : exec reads (some label) (code++rest) = exec reads (some label) rest := by
  induction code with
  | nil => rfl
  | cons i code ih =>
    simp only [mem_labelsOf,mem_cons,not_or] at h ih
    rw [cons_append,exec,if_neg (Ne.symm h.1)]
    exact ih h.2

lemma exec_land : exec reads (some label) (.label label::rest) = exec reads none rest := by rw [exec,if_pos rfl]

lemma labelsOf_acceptCode (span : Span) (key : CompoundIdentifier) (lhs : Symbol) (label : UInt32)
    (pairs : List (Value×Symbol)) : labelsOf (instructionsOf (acceptCode span key lhs label pairs)) = [] := by
  induction pairs with
  | nil => rfl
  | cons e pairs ih =>
    simp only [acceptCode,instructionsOf,labelsOf,map_cons,filterMap_cons,labelOf] at ih ⊢
    exact ih

variable {key : CompoundIdentifier} {lhs rhs : Symbol}

lemma compareEval_eq {value : Value} (hl : table.lookup key = some lhs) (hr : value.symbol table = some rhs)
    (reads : Symbol → Symbol → Except Fault Bool) : compareEval table reads key value = reads lhs rhs := by
  simp only [compareEval,hl,hr]

def thenRun (reads : Symbol → Symbol → Except Fault Bool) (rest : List SymbolicInstruction) (b : Bool) : Except Fault Bool :=
  if b then exec reads none rest else .ok false

lemma accept_exec {span : Span} {pairs : List (Value×Symbol)} (hl : table.lookup key = some lhs)
    (hpairs : ∀ e ∈ pairs,e.1.symbol table = some e.2) :
    exec reads none (instructionsOf (acceptCode span key lhs label pairs)++ (.unconditionalAbort::.label label::rest)) =
      acceptEval (compareEval table reads) key (pairs.map Prod.fst) >>= thenRun reads rest := by
  induction pairs with
  | nil => rfl
  | cons e pairs ih =>
    have hcompare := compareEval_eq hl (hpairs e mem_cons_self) reads
    have hrest := ih (forall_mem_cons.mp hpairs).2
    have hskip : exec reads (some label) (instructionsOf (acceptCode span key lhs label pairs)++
        (.unconditionalAbort::.label label::rest)) = exec reads none rest := by
      have hlabel : label ∉ labelsOf (instructionsOf (acceptCode span key lhs label pairs)++ [.unconditionalAbort]) := by
        rw [labelsOf_append,labelsOf_acceptCode]
        simp [labelsOf,labelOf]
      have h := exec_skip hlabel reads (.label label::rest)
      rw [exec_land] at h
      simpa using h
    change exec reads none (.jumpIfEqual lhs e.2 label::(instructionsOf (acceptCode span key lhs label pairs)++_)) = _
    rw [exec,hskip,hrest,map_cons,acceptEval,hcompare]
    cases reads lhs e.2 with
    | error f => rfl
    | ok b => cases b <;> rfl

variable {c : Condition}

lemma condition_exec (hl : table.lookup c.lhs = some lhs) (hr : c.rhs.symbol table = some rhs) :
    exec reads none (conditionCode c lhs rhs::rest) = c.eval (compareEval table reads) >>= thenRun reads rest := by
  rw [Condition.eval,compareEval_eq hl hr,conditionCode]
  cases c.op with
  | equals | notEquals =>
    simp only [exec]
    cases reads lhs rhs with
    | error f => rfl
    | ok b => cases b <;> rfl

lemma branch_exec (hl : table.lookup c.lhs = some lhs) (hr : c.rhs.symbol table = some rhs) :
    exec reads none (branchCode c lhs rhs label::rest) = c.eval (compareEval table reads) >>= fun b =>
      if b then exec reads none rest else exec reads (some label) rest := by
  rw [Condition.eval,compareEval_eq hl hr,branchCode]
  cases c.op with
  | equals | notEquals =>
    simp only [exec]
    cases reads lhs rhs with
    | error f => rfl
    | ok b => cases b <;> rfl

def afterBranches (reads : Symbol → Symbol → Except Fault Bool) (finalLabel : UInt32) (rest : List SymbolicInstruction) :
    Option Bool → Except Fault Bool
  | none => exec reads none rest
  | some true => exec reads (some finalLabel) rest
  | some false => .ok false

lemma labelsOf_branch {finalLabel : UInt32} {body others : List SymbolicInstruction} :
    labelsOf (branchCode c lhs rhs label::(body++(.unconditionalJump finalLabel::.label label::others))) =
      labelsOf body++label::labelsOf others := by
  have hnone : labelOf (branchCode c lhs rhs label) = none := by
    rw [branchCode]
    cases c.op <;> rfl
  rw [labelsOf,filterMap_cons_none hnone,filterMap_append]
  rfl

lemma code_exec (reads : Symbol → Symbol → Except Fault Bool) :
    (∀ s code,StatementCode table s code → (labelsOf (instructionsOf code)).Nodup → ∀ rest,
      exec reads none (instructionsOf code++rest) = s.eval (compareEval table reads) >>= thenRun reads rest) ∧
    (∀ ss code,BlockCode table ss code → (labelsOf (instructionsOf code)).Nodup → ∀ rest,
      exec reads none (instructionsOf code++rest) = blockEval (compareEval table reads) ss >>= thenRun reads rest) ∧
    ∀ bs finalLabel code,BranchesCode table finalLabel bs code →
      (labelsOf (instructionsOf code)).Nodup → finalLabel ∉ labelsOf (instructionsOf code) → ∀ rest,
      exec reads none (instructionsOf code++rest) =
        branchesEval (compareEval table reads) bs >>= afterBranches reads finalLabel rest := by
  apply induct
  case condition =>
    intro span c code hcode _ rest
    rw [StatementCode] at hcode
    obtain ⟨lhs,rhs,hl,hr,rfl⟩ := hcode
    rw [eval]
    exact condition_exec hl hr
  case accept =>
    intro span key values code hcode _ rest
    rw [StatementCode] at hcode
    obtain ⟨lhs,label,pairs,hl,rfl,hpairs,rfl⟩ := hcode
    rw [eval,← accept_exec hl hpairs,instructionsOf_append,append_assoc]
    rfl
  case ifElse =>
    intro span blocks elseBlock hblocks helse code hcode hnodup rest
    rw [StatementCode] at hcode
    obtain ⟨label,first,second,hfirst,hsecond,rfl⟩ := hcode
    have hlabels : labelsOf (instructionsOf (first++second++[⟨none,.label label⟩])) =
        labelsOf (instructionsOf first)++(labelsOf (instructionsOf second)++[label]) := by
      rw [instructionsOf_append,instructionsOf_append,labelsOf_append,labelsOf_append,append_assoc]
      rfl
    rw [hlabels,nodup_append] at hnodup
    obtain ⟨hn1,hn2,hdisjoint⟩ := hnodup
    rw [nodup_append] at hn2
    have hlabel1 : label ∉ labelsOf (instructionsOf first) := by
      intro hmem
      exact hdisjoint label hmem label (mem_append_right _ mem_cons_self) rfl
    have hlabel2 : label ∉ labelsOf (instructionsOf second) := by
      intro hmem
      exact hn2.2.2 label hmem label mem_cons_self rfl
    have hcode : instructionsOf (first++second++[⟨none,.label label⟩])++rest =
        instructionsOf first++(instructionsOf second++(.label label::rest)) := by
      rw [instructionsOf_append,instructionsOf_append,append_assoc,append_assoc]
      rfl
    rw [hcode,hblocks label first hfirst hn1 hlabel1,eval]
    cases branchesEval (compareEval table reads) blocks with
    | error f => rfl
    | ok r =>
      cases r with
      | none =>
        change exec reads none (instructionsOf second++(.label label::rest)) =
          blockEval (compareEval table reads) elseBlock >>= thenRun reads rest
        rw [helse second hsecond hn2.1]
        rfl
      | some b =>
        cases b with
        | false => rfl
        | true =>
          change exec reads (some label) (instructionsOf second++(.label label::rest)) = exec reads none rest
          rw [exec_skip hlabel2,exec_land]
  case falseStatement | trueStatement =>
    intro span code hcode _ rest
    rw [StatementCode] at hcode
    rw [hcode,eval]
    rfl
  case nil =>
    intro code hcode _ rest
    rw [BlockCode] at hcode
    rw [hcode,blockEval]
    rfl
  case cons =>
    intro s ss hs hss code hcode hnodup rest
    rw [BlockCode] at hcode
    obtain ⟨first,second,hfirst,hsecond,rfl⟩ := hcode
    rw [instructionsOf_append,labelsOf_append,nodup_append] at hnodup
    rw [instructionsOf_append,append_assoc,hs first hfirst hnodup.1,blockEval]
    cases s.eval (compareEval table reads) with
    | error f => rfl
    | ok b =>
      cases b with
      | false => rfl
      | true => exact hss second hsecond hnodup.2.1 rest
  case noBranch =>
    intro finalLabel code hcode _ _ rest
    rw [BranchesCode] at hcode
    rw [hcode,branchesEval]
    rfl
  case branch =>
    intro c b others hb hothers finalLabel code hcode hnodup hfinal rest
    rw [BranchesCode] at hcode
    obtain ⟨lhs,rhs,label,body,more,hl,hr,hbody,hmore,rfl⟩ := hcode
    have hcode : instructionsOf (⟨some (.ifCondition c),branchCode c lhs rhs label⟩::body++
        [⟨none,.unconditionalJump finalLabel⟩,⟨none,.label label⟩]++more) =
        branchCode c lhs rhs label::(instructionsOf body++
          (.unconditionalJump finalLabel::.label label::instructionsOf more)) := by simp [instructionsOf]
    rw [hcode,labelsOf_branch] at hnodup hfinal
    rw [nodup_append,nodup_cons] at hnodup
    obtain ⟨hn1,⟨hlabel,hn2⟩,hdisjoint⟩ := hnodup
    have hlabel1 : label ∉ labelsOf (instructionsOf body++[.unconditionalJump finalLabel]) := by
      intro hmem
      have hmem' : label ∈ labelsOf (instructionsOf body) := by simpa [labelsOf,labelOf] using hmem
      exact hdisjoint label hmem' label mem_cons_self rfl
    have hfinal2 : finalLabel ∉ labelsOf (.label label::instructionsOf more) := by
      intro hmem
      exact hfinal (mem_append_right _ (by simpa [labelsOf,labelOf] using hmem))
    have hfinal3 : finalLabel ∉ labelsOf (instructionsOf more) := by
      intro hmem
      exact hfinal (mem_append_right _ (mem_cons_of_mem _ hmem))
    rw [hcode,cons_append,branch_exec hl hr,branchesEval]
    cases c.eval (compareEval table reads) with
    | error f => rfl
    | ok taken =>
      cases taken with
      | true =>
        change exec reads none (instructionsOf body++
          (.unconditionalJump finalLabel::.label label::instructionsOf more)++rest) =
          (blockEval (compareEval table reads) b >>= fun r => .ok (some r)) >>= afterBranches reads finalLabel rest
        rw [append_assoc,hb body hbody hn1]
        cases blockEval (compareEval table reads) b with
        | error f => rfl
        | ok r =>
          cases r with
          | false => rfl
          | true => exact exec_skip hfinal2 reads rest
      | false =>
        change exec reads (some label) (instructionsOf body++
          (.unconditionalJump finalLabel::.label label::instructionsOf more)++rest) =
          branchesEval (compareEval table reads) others >>= afterBranches reads finalLabel rest
        have hskip := exec_skip hlabel1 reads (.label label::(instructionsOf more++rest))
        rw [exec_land,hothers finalLabel more hmore hn2 hfinal3] at hskip
        rw [← hskip]
        simp

section Outcome

variable {compare : CompoundIdentifier → Value → Except Fault Bool} {equals : CompoundIdentifier → Value → Bool}

section

variable (hok : ∀ key value b,compare key value = .ok b → equals key value = b)
include hok

lemma Condition.eval_ok {b : Bool} (h : c.eval compare = .ok b) : c.holds equals = b := by
  rw [Condition.eval] at h
  obtain ⟨r,hr,h⟩ := bind_eq_ok.mp h
  rw [Condition.holds,hok _ _ _ hr]
  cases hop : c.op <;> simpa [hop] using h

lemma acceptEval_ok {values : List Value} {b : Bool}
    (h : acceptEval compare key values = .ok b) : values.any (equals key) = b := by
  induction values with
  | nil => simpa [acceptEval] using h
  | cons v vs ih =>
    rw [acceptEval] at h
    obtain ⟨r,hr,h⟩ := bind_eq_ok.mp h
    rw [any_cons,hok _ _ _ hr]
    cases r with
    | true => simpa using h
    | false => simpa using ih h

lemma eval_ok : (∀ (s : Statement) b,s.eval compare = .ok b → s.holds equals = b) ∧
    (∀ ss b,blockEval compare ss = .ok b → blockHolds equals ss = b) ∧
    ∀ bs r,branchesEval compare bs = .ok r → ∀ otherwise,branchesHold equals otherwise bs = r.getD otherwise := by
  apply induct
  case condition =>
    intro span c b h
    rw [eval] at h
    rw [holds]
    exact c.eval_ok hok h
  case accept =>
    intro span key values b h
    rw [eval] at h
    rw [holds]
    exact acceptEval_ok hok h
  case ifElse =>
    intro span blocks elseBlock hblocks helse b h
    rw [eval] at h
    obtain ⟨r,hr,h⟩ := bind_eq_ok.mp h
    rw [holds,hblocks r hr]
    cases r with
    | none => exact helse b h
    | some b' => simpa using h
  case falseStatement | trueStatement =>
    intro span b h
    rw [eval] at h
    rw [holds]
    exact Except.ok.inj h
  case nil =>
    intro b h
    rw [blockEval] at h
    rw [blockHolds]
    exact Except.ok.inj h
  case cons =>
    intro s ss hs hss b h
    rw [blockEval] at h
    obtain ⟨r,hr,h⟩ := bind_eq_ok.mp h
    rw [blockHolds,hs r hr]
    cases r with
    | true => simpa using hss b h
    | false => simpa using h
  case noBranch =>
    intro r h otherwise
    rw [branchesEval] at h
    rw [branchesHold,← Except.ok.inj h]
    rfl
  case branch =>
    intro c b rest hb hrest r h otherwise
    rw [branchesEval] at h
    obtain ⟨taken,htaken,h⟩ := bind_eq_ok.mp h
    rw [branchesHold,c.eval_ok hok htaken]
    cases taken with
    | true =>
      obtain ⟨r',hr',h⟩ := bind_eq_ok.mp h
      rw [if_pos rfl,hb r' hr',← Except.ok.inj h]
      rfl
    | false => simpa using hrest r h otherwise

end

variable {Q : Fault → CompoundIdentifier×Value → Prop}
  (herror : ∀ key value f,compare key value = .error f → Q f (key,value))
include herror

lemma Condition.eval_error {f : Fault} (h : c.eval compare = .error f) : Q f (c.lhs,c.rhs) := by
  rw [Condition.eval] at h
  obtain h | ⟨r,-,h⟩ := bind_eq_error.mp h
  · exact herror _ _ _ h
  · cases hop : c.op <;> simp [hop] at h

lemma acceptEval_error {values : List Value} {f : Fault}
    (h : acceptEval compare key values = .error f) : ∃ v ∈ values,Q f (key,v) := by
  induction values with
  | nil => simp [acceptEval] at h
  | cons v vs ih =>
    rw [acceptEval] at h
    obtain h | ⟨r,-,h⟩ := bind_eq_error.mp h
    · exact ⟨v,mem_cons_self,herror _ _ _ h⟩
    · cases r with
      | true => simp at h
      | false => exact exists_mem_cons_of_exists (ih h)

omit herror in
lemma exists_mem_append {A : Type} {p : A → Prop} {xs ys : List A} :
    (∃ x ∈ xs++ys,p x) ↔ (∃ x ∈ xs,p x) ∨ ∃ x ∈ ys,p x := by
  simp only [mem_append,or_and_right,exists_or]

lemma eval_error : (∀ (s : Statement) f,s.eval compare = .error f → ∃ e ∈ s.comparisons,Q f e) ∧
    (∀ ss f,blockEval compare ss = .error f → ∃ e ∈ blockComparisons ss,Q f e) ∧
    ∀ bs f,branchesEval compare bs = .error f → ∃ e ∈ branchComparisons bs,Q f e := by
  apply induct
  case condition =>
    intro span c f h
    rw [eval] at h
    exact ⟨_,by rw [comparisons]; exact mem_cons_self,c.eval_error herror h⟩
  case accept =>
    intro span key values f h
    rw [eval] at h
    obtain ⟨v,hv,hm⟩ := acceptEval_error herror h
    refine ⟨(key,v),?_,hm⟩
    rw [comparisons]
    exact mem_map.mpr ⟨v,hv,rfl⟩
  case ifElse =>
    intro span blocks elseBlock hblocks helse f h
    rw [eval] at h
    rw [comparisons,exists_mem_append]
    obtain h | ⟨r,-,h⟩ := bind_eq_error.mp h
    · exact .inl (hblocks f h)
    · cases r with
      | some b => simp at h
      | none => exact .inr (helse f h)
  case falseStatement | trueStatement =>
    intro span f h
    simp [eval] at h
  case nil =>
    intro f h
    simp [blockEval] at h
  case cons =>
    intro s ss hs hss f h
    rw [blockEval] at h
    rw [blockComparisons,exists_mem_append]
    obtain h | ⟨r,-,h⟩ := bind_eq_error.mp h
    · exact .inl (hs f h)
    · cases r with
      | false => simp at h
      | true => exact .inr (hss f h)
  case noBranch =>
    intro f h
    simp [branchesEval] at h
  case branch =>
    intro c b rest hb hrest f h
    rw [branchesEval] at h
    rw [branchComparisons,exists_mem_cons_iff,exists_mem_append]
    obtain h | ⟨taken,-,h⟩ := bind_eq_error.mp h
    · exact .inl (c.eval_error herror h)
    · cases taken with
      | true =>
        obtain h | ⟨r,-,h⟩ := bind_eq_error.mp h
        · exact .inr (.inl (hb f h))
        · simp at h
      | false => exact .inr (.inr (hrest f h))

end Outcome

/-! The bytes of symbolic instructions: each jump carries the number of bytes between its end and its
label. -/

open Bytes InstructionEncoder Function RawOp

def jumpTarget : SymbolicInstruction → Option UInt32
  | .unconditionalJump label => some label
  | .jumpIfEqual _ _ label => some label
  | .jumpIfNotEqual _ _ label => some label
  | _ => none

def byteSize : SymbolicInstruction → ℕ
  | .abortIfEqual _ _ => 11
  | .abortIfNotEqual _ _ => 11
  | .label _ => 1
  | .unconditionalJump _ => 5
  | .jumpIfEqual _ _ _ => 15
  | .jumpIfNotEqual _ _ _ => 15
  | .unconditionalAbort => 1
  | .unconditionalBind => 0

def codeSize (code : List SymbolicInstruction) : ℕ := (code.map byteSize).sum

/-- The names that a symbol refers to. -/
def Symbol.strings : Symbol → List String
  | .key name _ => [name]
  | .stringValue value => [value]
  | .enumValue value => [value]
  | _ => []

def operands : SymbolicInstruction → List Symbol
  | .abortIfEqual lhs rhs => [lhs,rhs]
  | .abortIfNotEqual lhs rhs => [lhs,rhs]
  | .jumpIfEqual lhs rhs _ => [lhs,rhs]
  | .jumpIfNotEqual lhs rhs _ => [lhs,rhs]
  | _ => []

def stringsOf (code : List SymbolicInstruction) : List String :=
  code.flatMap fun i => (operands i).flatMap Symbol.strings

def valueBytes (names : List String) : Symbol → List UInt8
  | .numberValue value => RawValueType.numberValue.toU8::leBytes 4 value.toUInt32.toNat
  | .boolValue value => RawValueType.boolValue.toU8::leBytes 4 (if value then 1 else 0 : UInt32).toNat
  | .stringValue value => RawValueType.stringValue.toU8::leBytes 4 (keyIn names value).toNat
  | .key name _ => RawValueType.key.toU8::leBytes 4 (keyIn names name).toNat
  | .deprecatedKey key => RawValueType.numberValue.toU8::leBytes 4 key.toNat
  | .enumValue value => RawValueType.enumValue.toU8::leBytes 4 (keyIn names value).toNat

def comparisonBytes (names : List String) (lhs rhs : Symbol) : List UInt8 :=
  valueBytes names lhs++valueBytes names rhs

/-- The bytes of an instruction; `offset` is used by jumps only. -/
def opBytes (names : List String) (offset : ℕ) : SymbolicInstruction → List UInt8
  | .abortIfEqual lhs rhs => inequalCondition.toU8::comparisonBytes names lhs rhs
  | .abortIfNotEqual lhs rhs => equalCondition.toU8::comparisonBytes names lhs rhs
  | .label _ => [jumpLandPad.toU8]
  | .unconditionalJump _ => unconditionalJump.toU8::leBytes 4 offset
  | .jumpIfEqual lhs rhs _ => jumpIfEqual.toU8::leBytes 4 offset++comparisonBytes names lhs rhs
  | .jumpIfNotEqual lhs rhs _ => jumpIfNotEqual.toU8::leBytes 4 offset++comparisonBytes names lhs rhs
  | .unconditionalAbort => [abort.toU8]
  | .unconditionalBind => []

def distance (label : UInt32) : List SymbolicInstruction → ℕ
  | [] => 0
  | i::rest => if i = .label label then 0 else byteSize i+distance label rest

def offsetOf (i : SymbolicInstruction) (rest : List SymbolicInstruction) : ℕ :=
  match jumpTarget i with
  | some label => distance label rest
  | none => 0

def emit (names : List String) : List SymbolicInstruction → List UInt8
  | [] => []
  | i::rest => opBytes names (offsetOf i rest) i++emit names rest

variable {names names' : List String} {i : SymbolicInstruction} {code rest : List SymbolicInstruction}
  {symbol : Symbol} {label : UInt32} {start : ℕ} {off : ℕ → ℕ}

@[simp] lemma length_valueBytes (names : List String) (symbol : Symbol) : (valueBytes names symbol).length = 5 := by
  cases symbol <;> simp [valueBytes]

@[simp] lemma length_opBytes (names : List String) (offset : ℕ) (i : SymbolicInstruction) :
    (opBytes names offset i).length = byteSize i := by cases i <;> simp [opBytes,byteSize,comparisonBytes]

lemma valueBytes_more (hp : names <+: names') (h : ∀ s ∈ symbol.strings,s ∈ names) :
    valueBytes names' symbol = valueBytes names symbol := by
  cases symbol <;> simp_all [valueBytes,Symbol.strings,keyIn_more hp]

lemma opBytes_more (hp : names <+: names') {offset : ℕ} (h : ∀ s ∈ (operands i).flatMap Symbol.strings,s ∈ names) :
    opBytes names' offset i = opBytes names offset i := by
  have hvalue : ∀ symbol ∈ operands i,valueBytes names' symbol = valueBytes names symbol := by
    intro symbol hsymbol
    apply valueBytes_more hp
    intro s hs
    exact h s (mem_flatMap.mpr ⟨symbol,hsymbol,hs⟩)
  cases i <;> simp_all [opBytes,comparisonBytes,operands]

lemma emit_more (hp : names <+: names') (h : ∀ s ∈ stringsOf code,s ∈ names) : emit names' code = emit names code := by
  induction code with
  | nil => rfl
  | cons i rest ih =>
    rw [stringsOf,flatMap_cons] at h
    rw [emit,emit,opBytes_more hp (forall_mem_append.mp h).1,ih (forall_mem_append.mp h).2]

lemma length_emit (names : List String) (code : List SymbolicInstruction) :
    (emit names code).length = codeSize code := by
  induction code with
  | nil => rfl
  | cons i rest ih => simp [emit,codeSize] at ih ⊢; exact ih

/-- The bytes of instructions from the position `start` on, where the offset field at a position
holds what `off` says. -/
def place (names : List String) (off : ℕ → ℕ) (start : ℕ) : List SymbolicInstruction → List UInt8
  | [] => []
  | i::rest => opBytes names (off (start+1)) i++place names off (start+byteSize i) rest

def fields (start : ℕ) : List SymbolicInstruction → List ℕ
  | [] => []
  | i::rest => (if (jumpTarget i).isSome then [start+1] else [])++fields (start+byteSize i) rest

lemma place_append (names : List String) (off : ℕ → ℕ) (start : ℕ) (code rest : List SymbolicInstruction) :
    place names off start (code++rest) = place names off start code++place names off (start+codeSize code) rest := by
  induction code generalizing start with
  | nil => rfl
  | cons i code ih =>
    simp only [cons_append,place,ih,append_assoc,codeSize,map_cons,sum_cons]
    rw [Nat.add_assoc]

@[simp] lemma length_place (names : List String) (off : ℕ → ℕ) (start : ℕ) (code : List SymbolicInstruction) :
    (place names off start code).length = codeSize code := by
  induction code generalizing start with
  | nil => rfl
  | cons i rest ih => simp [place,ih,codeSize]

lemma place_more (hp : names <+: names') (h : ∀ s ∈ stringsOf code,s ∈ names) :
    place names' off start code = place names off start code := by
  induction code generalizing start with
  | nil => rfl
  | cons i rest ih =>
    rw [stringsOf,flatMap_cons] at h
    rw [place,place,opBytes_more hp (forall_mem_append.mp h).1,ih (forall_mem_append.mp h).2]

lemma opBytes_offset {o o' : ℕ} (h : jumpTarget i = none) : opBytes names o i = opBytes names o' i := by
  cases i <;> first | rfl | cases h

lemma place_congr {off' : ℕ → ℕ} (h : ∀ x ∈ fields start code,off x = off' x) :
    place names off start code = place names off' start code := by
  induction code generalizing start with
  | nil => rfl
  | cons i rest ih =>
    have hrest := ih (forall_mem_append.mp h).2
    rw [place,place,hrest]
    congr 1
    cases ht : jumpTarget i with
    | none => exact opBytes_offset ht
    | some label =>
      rw [h (start+1)]
      simp [fields,ht]

variable {x : ℕ}

lemma lt_of_mem_fields (h : x ∈ fields start code) : start < x := by
  induction code generalizing start with
  | nil => simp [fields] at h
  | cons i rest ih =>
    obtain h | h := mem_append.mp h
    · rw [mem_singleton.mp (mem_ite_nil_right.mp h).2]
      exact Nat.lt_succ_self start
    · have := ih h
      omega

lemma overwrite_append_right (a b d : List UInt8) (k : ℕ) : overwrite (a++b) (a.length+k) d = a++overwrite b k d := by
  rw [overwrite,overwrite,take_length_add_append,Nat.add_assoc,drop_length_add_append]
  simp

lemma overwrite_append_left {a d : List UInt8} {k : ℕ} (h : k+d.length ≤ a.length) (b : List UInt8) :
    overwrite (a++b) k d = overwrite a k d++b := by
  rw [overwrite,overwrite,take_append_of_le_length (by omega),drop_append_of_le_length h]
  simp

lemma overwrite_opBytes {o v : ℕ} (h : (jumpTarget i).isSome = true) :
    overwrite (opBytes names o i) 1 (leBytes 4 v) = opBytes names v i := by cases i <;> first | rfl | cases h

lemma byteSize_of_jump (h : (jumpTarget i).isSome = true) : 5 ≤ byteSize i := by
  cases i with
  | unconditionalJump | jumpIfEqual | jumpIfNotEqual => simp [byteSize]
  | _ => cases h

lemma overwrite_place (names : List String) (off : ℕ → ℕ) (v : ℕ) (hx : x ∈ fields start code) :
    overwrite (place names off start code) (x-start) (leBytes 4 v) = place names (update off x v) start code := by
  induction code generalizing start with
  | nil => simp [fields] at hx
  | cons i rest ih =>
    rw [place,place]
    obtain hx | hx := mem_append.mp hx
    · obtain ⟨ht,hx⟩ := mem_ite_nil_right.mp hx
      obtain rfl := mem_singleton.mp hx
      have hsize := byteSize_of_jump ht
      have hrest : place names (update off (start+1) v) (start+byteSize i) rest =
          place names off (start+byteSize i) rest := by
        apply place_congr
        intro y hy
        have := lt_of_mem_fields hy
        exact update_of_ne (by omega) _ _
      rw [hrest,update_self,Nat.add_sub_cancel_left,overwrite_append_left (by simpa using hsize),overwrite_opBytes ht]
    · have hlt := lt_of_mem_fields hx
      have hsplit : x-start = (opBytes names (off (start+1)) i).length+(x-(start+byteSize i)) := by
        rw [length_opBytes]
        omega
      have hhead : opBytes names (update off x v (start+1)) i = opBytes names (off (start+1)) i := by
        cases ht : jumpTarget i with
        | none => exact opBytes_offset ht
        | some label =>
          have hsize := byteSize_of_jump (i := i) (by rw [ht]; rfl)
          rw [update_of_ne (by omega)]
      rw [hsplit,overwrite_append_right,ih hx,hhead]

def fieldValue (start : ℕ) : List SymbolicInstruction → ℕ → ℕ
  | [],_ => 0
  | i::rest,x =>
    if (jumpTarget i).isSome ∧ x = start+1 then offsetOf i rest else fieldValue (start+byteSize i) rest x

lemma fieldValue_tail (h : x ∈ fields (start+byteSize i) rest) :
    fieldValue start (i::rest) x = fieldValue (start+byteSize i) rest x := by
  rw [fieldValue,if_neg]
  rintro ⟨ht,hx⟩
  have hlt := lt_of_mem_fields h
  have hsize := byteSize_of_jump ht
  omega

lemma place_fieldValue (names : List String) (start : ℕ) (code : List SymbolicInstruction) :
    place names (fieldValue start code) start code = emit names code := by
  induction code generalizing start with
  | nil => rfl
  | cons i rest ih =>
    have hrest : place names (fieldValue start (i::rest)) (start+byteSize i) rest =
        place names (fieldValue (start+byteSize i) rest) (start+byteSize i) rest := by
      apply place_congr
      intro x hx
      exact fieldValue_tail hx
    rw [place,emit,hrest,ih]
    congr 1
    cases ht : jumpTarget i with
    | none => exact opBytes_offset ht
    | some label => rw [fieldValue,if_pos ⟨by rw [ht]; rfl,rfl⟩]

def labelIndex (label : UInt32) (start : ℕ) : List SymbolicInstruction → Option ℕ
  | [] => none
  | i::rest => if i = .label label then some start else labelIndex label (start+byteSize i) rest

def jumpsTo (label : UInt32) (start : ℕ) : List SymbolicInstruction → List JumpInstructionOffsetInfo
  | [] => []
  | i::rest =>
    (if jumpTarget i = some label then [⟨start+1,byteSize i-1⟩] else [])++
      jumpsTo label (start+byteSize i) rest

lemma labelIndex_append (label : UInt32) (start : ℕ) (code rest : List SymbolicInstruction) :
    labelIndex label start (code++rest) =
      (labelIndex label start code).or (labelIndex label (start+codeSize code) rest) := by
  induction code generalizing start with
  | nil => rfl
  | cons i code ih =>
    simp only [cons_append,labelIndex]
    split_ifs
    · rfl
    · have hsize : start+byteSize i+codeSize code = start+codeSize (i::code) := by
        simp only [codeSize,map_cons,sum_cons]
        omega
      rw [ih,hsize]

lemma jumpsTo_append (label : UInt32) (start : ℕ) (code rest : List SymbolicInstruction) :
    jumpsTo label start (code++rest) = jumpsTo label start code++jumpsTo label (start+codeSize code) rest := by
  induction code generalizing start with
  | nil => rfl
  | cons i code ih =>
    simp only [cons_append,jumpsTo,ih,codeSize,map_cons,sum_cons,append_assoc]
    rw [Nat.add_assoc]

lemma labelIndex_eq_none : labelIndex label start code = none ↔ label ∉ labelsOf code := by
  rw [mem_labelsOf]
  induction code generalizing start with
  | nil => simp [labelIndex]
  | cons i rest ih =>
    rw [labelIndex,mem_cons,not_or]
    split_ifs with hi
    · simp [hi]
    · rw [ih]
      exact (and_iff_right (Ne.symm hi)).symm

lemma labelIndex_eq {p : ℕ} (h : labelIndex label start code = some p) : p = start+distance label code := by
  induction code generalizing start with
  | nil => cases h
  | cons i rest ih =>
    rw [labelIndex] at h
    rw [distance]
    split_ifs at h ⊢ with hi
    · exact (Option.some.inj h).symm
    · rw [ih h]
      omega

def Forward (code : List SymbolicInstruction) : Prop :=
  code.Pairwise fun i j => ∀ label,i = .label label → jumpTarget j ≠ some label

variable {usage : JumpInstructionOffsetInfo}

lemma exists_of_mem_jumpsTo (h : usage ∈ jumpsTo label start code) : ∃ i ∈ code,jumpTarget i = some label := by
  induction code generalizing start with
  | nil => simp [jumpsTo] at h
  | cons i rest ih =>
    obtain h | h := mem_append.mp h
    · exact ⟨i,mem_cons_self,(mem_ite_nil_right.mp h).1⟩
    · exact exists_mem_cons_of_exists (ih h)

lemma exists_mem_jumpsTo (h : i ∈ code) (ht : jumpTarget i = some label) (start : ℕ) :
    ∃ usage,usage ∈ jumpsTo label start code := by
  induction code generalizing start with
  | nil => cases h
  | cons j rest ih =>
    obtain rfl | h := mem_cons.mp h
    · exact ⟨⟨start+1,byteSize i-1⟩,by simp [jumpsTo,ht]⟩
    · obtain ⟨usage,hu⟩ := ih h (start+byteSize j)
      exact ⟨usage,mem_append_right _ hu⟩

lemma exists_of_mem_fields (h : x ∈ fields start code) : ∃ label,∃ usage ∈ jumpsTo label start code,usage.index = x := by
  induction code generalizing start with
  | nil => simp [fields] at h
  | cons i rest ih =>
    obtain h | h := mem_append.mp h
    · obtain ⟨ht,h⟩ := mem_ite_nil_right.mp h
      obtain ⟨label,hlabel⟩ := Option.isSome_iff_exists.mp ht
      refine ⟨label,⟨start+1,byteSize i-1⟩,?_,(mem_singleton.mp h).symm⟩
      simp [jumpsTo,hlabel]
    · obtain ⟨label,usage,hu,hx⟩ := ih h
      exact ⟨label,usage,mem_append_right _ hu,hx⟩

lemma Forward.jumpsTo_value (h : Forward code) (hu : usage ∈ jumpsTo label start code) {p : ℕ}
    (hp : labelIndex label start code = some p) :
    usage.index ∈ fields start code ∧ p-usage.index-usage.instOffset = fieldValue start code usage.index := by
  induction code generalizing start with
  | nil => simp [jumpsTo] at hu
  | cons i rest ih =>
    obtain ⟨hhead,htail⟩ := pairwise_cons.mp h
    obtain hu' | hu' := mem_append.mp hu
    · obtain ⟨ht,hu'⟩ := mem_ite_nil_right.mp hu'
      rw [mem_singleton.mp hu']
      have hsize := byteSize_of_jump (i := i) (by rw [ht]; rfl)
      have hi : i ≠ .label label := by
        rintro rfl
        cases ht
      rw [labelIndex,if_neg hi] at hp
      have hdistance := labelIndex_eq hp
      refine ⟨by simp [fields,ht],?_⟩
      rw [fieldValue,if_pos ⟨by rw [ht]; rfl,rfl⟩,offsetOf,ht]
      simp only
      omega
    · have hi : i ≠ .label label := by
        intro hi
        obtain ⟨j,hj,ht⟩ := exists_of_mem_jumpsTo hu'
        exact hhead j hj label hi ht
      rw [labelIndex,if_neg hi] at hp
      obtain ⟨hfield,hvalue⟩ := ih htail hu' hp
      exact ⟨mem_append_right _ hfield,by rw [hvalue,fieldValue_tail hfield]⟩

def Linked : List SymbolicInstruction → Prop
  | [] => True
  | i::rest =>
    (∀ label,jumpTarget i = some label → label ∈ labelsOf rest ∧ distance label rest < 2^32) ∧ Linked rest

lemma Forward.linked (h : Forward code) (start : ℕ) (hfields : ∀ x ∈ fields start code,fieldValue start code x < 2^32)
    (hlabels : ∀ i ∈ code,∀ label,jumpTarget i = some label → label ∈ labelsOf code) : Linked code := by
  induction code generalizing start with
  | nil => trivial
  | cons i rest ih =>
    obtain ⟨hhead,htail⟩ := pairwise_cons.mp h
    constructor
    · intro label ht
      have hmem := hlabels i mem_cons_self label ht
      rw [labelsOf,filterMap_cons_none (by cases i <;> first | rfl | cases ht)] at hmem
      have hsome : (jumpTarget i).isSome = true := by rw [ht]; rfl
      have hvalue := hfields (start+1) (mem_append_left _ (by simp [hsome]))
      rw [fieldValue,if_pos ⟨hsome,rfl⟩,offsetOf,ht] at hvalue
      exact ⟨hmem,hvalue⟩
    · apply ih htail (start+byteSize i)
      · intro x hx
        rw [← fieldValue_tail hx]
        exact hfields x (mem_append_right _ hx)
      · intro j hj label ht
        have hmem := mem_labelsOf.mp (hlabels j (mem_cons_of_mem _ hj) label ht)
        obtain hi | hmem := mem_cons.mp hmem
        · -- The label would be before the jump.
          exact absurd ht (hhead j hj label hi.symm)
        · exact mem_labelsOf.mpr hmem

end Fuchsia.Bind
