import Fuchsia.Bind.CompilerCorrect

/-! The encoder of instructions: a first pass writes the bytes with offsets of zero and notes the labels
and the jumps, a second one sets the offsets. -/
namespace Fuchsia.Bind

open Effect Bytes InstructionEncoder List Fuchsia.Bind.Symbol JumpInstructionOffsetInfo RawOp

variable {names names' : List String} {i : SymbolicInstruction} {code : List SymbolicInstruction}
  {symbol : Symbol} {label : UInt32}

structure Grows (names names' strings : List String) : Prop where
  initial : names <+: names'
  covers : ∀ s ∈ strings,s ∈ names'
  only : ∀ s ∈ names',s ∈ names ∨ s ∈ strings

lemma Grows.refl (names : List String) : Grows names names [] := ⟨prefix_refl _,by simp,fun _ => .inl⟩

lemma Grows.trans {names'' strings strings' : List String} (h : Grows names names' strings)
    (h' : Grows names' names'' strings') : Grows names names'' (strings++strings') where
  initial := h.initial.trans h'.initial
  covers := forall_mem_append.mpr ⟨fun s hs => h'.initial.subset (h.covers s hs),h'.covers⟩
  only s hs := by
    obtain hs | hs := h'.only s hs
    · exact (h.only s hs).imp_right (mem_append_left _)
    · exact .inr (mem_append_right _ hs)

structure Appended (e : InstructionEncoder) (names : List String) (e' : InstructionEncoder) (names' : List String)
    (strings : List String) (bytes : List UInt8) : Prop where
  encodes : Encodes e'.symbols names'
  grows : Grows names names' strings
  bytecode : e'.bytecode = e.bytecode++bytes
  labelMap : e'.labelMap = e.labelMap

variable {e e' : InstructionEncoder} {lhs rhs : Symbol}

lemma getKey_ok (h : Encodes e.symbols names) {s : String} {k : UInt32} (hr : getKey s e = .ok k e') :
    ∃ names',Appended e names e' names' [s] [] ∧ k = keyIn names' s := by
  rw [getKey,focus] at hr
  cases hk : SymbolTableEncoder.getKey s e.symbols <;> rw [hk] at hr <;> cases hr
  obtain ⟨names',hencodes,hp,hmem,hkey,honly⟩ := h.getKey hk
  refine ⟨names',⟨hencodes,⟨hp,?_,?_⟩,(append_nil _).symm,rfl⟩,hkey⟩
  · intro t ht
    rwa [mem_singleton.mp ht]
  · intro t ht
    exact (honly t ht).imp_right mem_singleton.mpr

lemma appendValue_ok (h : Encodes e.symbols names) (hr : appendValue symbol e = .ok () e') :
    ∃ names',Appended e names e' names' symbol.strings (valueBytes names' symbol) := by
  unfold appendValue at hr
  obtain ⟨⟨valueType,value⟩,e1,hvalue,hr⟩ := bind_eq_ok.mp hr
  simp only [append,modify_apply,Result.ok.injEq,true_and] at hr
  -- The value is a number,or the key of a string.
  have hstring : ∀ (s : String) (t : RawValueType),(getKey s >>= fun key => pure (t,key)) e = .ok (valueType,value) e1 →
      ∃ names',Appended e names e' names' [s] (t.toU8::leBytes 4 (keyIn names' s).toNat) := by
    intro s t hs
    obtain ⟨k,e2,hk,hs⟩ := bind_eq_ok.mp hs
    simp only [pure_apply,Result.ok.injEq,Prod.mk.injEq] at hs
    obtain ⟨⟨rfl,rfl⟩,rfl⟩ := hs
    obtain ⟨names',⟨hencodes,hgrows,hbytes,hlabels⟩,rfl⟩ := getKey_ok h hk
    subst hr
    exact ⟨names',hencodes,hgrows,by simp [hbytes],hlabels⟩
  have hnumber : ∀ (t : RawValueType) (v : UInt32),
      (pure (t,v) : Encoding (RawValueType×UInt32)) e = .ok (valueType,value) e1 →
      Appended e names e' names [] (t.toU8::leBytes 4 v.toNat) := by
    intro t v hv
    simp only [pure_apply,Result.ok.injEq,Prod.mk.injEq] at hv
    obtain ⟨⟨rfl,rfl⟩,rfl⟩ := hv
    subst hr
    exact ⟨h,Grows.refl names,rfl,rfl⟩
  cases symbol with
  | numberValue v | boolValue v | deprecatedKey k => exact ⟨names,hnumber _ _ hvalue⟩
  | stringValue s | enumValue s | key s t => exact hstring s _ hvalue

def Comparable (lhs rhs : Symbol) : Prop :=
  isSymbolKey lhs = true ∧ ∃ t,valueTypeOf rhs = some t ∧ ∀ name t',lhs = .key name t' → t' = t

lemma appendValueComparison_ok (h : Encodes e.symbols names) (hr : appendValueComparison lhs rhs e = .ok () e') :
    Comparable lhs rhs ∧
      ∃ names',Appended e names e' names' (lhs.strings++rhs.strings) (comparisonBytes names' lhs rhs) := by
  have happend : (appendValue lhs >>= fun _ => appendValue rhs) e = .ok () e' →
      ∃ names',Appended e names e' names' (lhs.strings++rhs.strings) (comparisonBytes names' lhs rhs) := by
    intro hr
    obtain ⟨⟨⟩,e1,hl,hr⟩ := bind_eq_ok.mp hr
    obtain ⟨names1,h1⟩ := appendValue_ok h hl
    obtain ⟨names2,h2⟩ := appendValue_ok h1.encodes hr
    refine ⟨names2,h2.encodes,h1.grows.trans h2.grows,?_,h2.labelMap.trans h1.labelMap⟩
    rw [h2.bytecode,h1.bytecode,comparisonBytes,valueBytes_more h2.grows.initial h1.grows.covers,append_assoc]
  unfold appendValueComparison at hr
  cases hkey : isSymbolKey lhs with
  | false =>
    rw [hkey] at hr
    cases hr
  | true =>
    rw [hkey] at hr
    cases ht : valueTypeOf rhs with
    | none =>
      rw [ht] at hr
      cases hr
    | some t =>
      rw [ht] at hr
      cases lhs with
      | key name t' =>
        simp only [Bool.not_true,Bool.false_eq_true,if_false] at hr
        split_ifs at hr with htype
        · cases hr
        · refine ⟨⟨hkey,t,ht,?_⟩,happend hr⟩
          rintro _ _ ⟨⟩
          simpa using htype
      | deprecatedKey k => exact ⟨⟨hkey,t,ht,by simp⟩,happend hr⟩
      | _ => cases hkey

def InstructionEncoder.info (e : InstructionEncoder) (label : UInt32) : LabelInfo :=
  (e.labelMap.lookup label).getD ⟨none,[]⟩

lemma info_insert (e : InstructionEncoder) (label l : UInt32) (i : LabelInfo) :
    ({e with labelMap := e.labelMap.insert label i} : InstructionEncoder).info l =
      if l = label then i else e.info l := by
  unfold info
  split_ifs with h
  · subst h
    simp
  · simp [AList.lookup_insert_ne h]

def WellTyped (i : SymbolicInstruction) : Prop :=
  i ≠ .unconditionalBind ∧ ∀ lhs rhs,operands i = [lhs,rhs] → Comparable lhs rhs

structure Step (e : InstructionEncoder) (names : List String) (e' : InstructionEncoder) (names' : List String)
    (i : SymbolicInstruction) : Prop where
  encodes : Encodes e'.symbols names'
  grows : Grows names names' ((operands i).flatMap strings)
  bytecode : e'.bytecode = e.bytecode++opBytes names' 0 i
  info : ∀ l,e'.info l = ⟨(e.info l).index.or (labelIndex l e.bytecode.length [i]),
    (e.info l).jumpInstructions++jumpsTo l e.bytecode.length [i]⟩
  typed : WellTyped i
  fresh : ∀ l,jumpTarget i = some l ∨ i = .label l → (e.info l).index = none

lemma Appended.step (h : Appended e names e' names' ((operands i).flatMap strings) (opBytes names' 0 i))
    (hi : WellTyped i) (hjump : jumpTarget i = none) (hlabel : labelOf i = none) : Step e names e' names' i where
  encodes := h.encodes
  grows := h.grows
  bytecode := h.bytecode
  info l := by
    have hne : i ≠ .label l := by
      rintro rfl
      cases hlabel
    simp [info,h.labelMap,labelIndex,jumpsTo,hne,hjump]
  typed := hi
  fresh l hl := by
    obtain hl | rfl := hl
    · rw [hjump] at hl
      cases hl
    · cases hlabel

lemma Appended.step_jump {e1 : InstructionEncoder} {label : UInt32}
    (h : Appended e names e1 names' ((operands i).flatMap strings) (opBytes names' 0 i))
    (hi : WellTyped i) (hjump : jumpTarget i = some label) (hr : (do
      let e1 ← get
      let info := (e1.labelMap.lookup label).getD ⟨none,[]⟩
      if info.index.isSome then throw (.invalidGotoLocation label)
      else modify fun e1 => {e1 with labelMap := e1.labelMap.insert label {info with
        jumpInstructions := info.jumpInstructions++
          [⟨e.bytecode.length+1,e1.bytecode.length-(e.bytecode.length+1)⟩]}} : Encoding Unit) e1 = .ok () e') :
    Step e names e' names' i := by
  have hinfo : ∀ l,e1.info l = e.info l := by
    intro l
    rw [info,h.labelMap]
    rfl
  change (if (e1.info label).index.isSome then throw (.invalidGotoLocation label) else _ : Encoding Unit) e1 = _ at hr
  rw [hinfo] at hr
  cases hindex : (e.info label).index with
  | some p =>
    rw [hindex] at hr
    cases hr
  | none =>
    rw [hindex] at hr
    simp only [Option.isSome_none,Bool.false_eq_true,if_false,modify_apply,Result.ok.injEq,true_and] at hr
    subst hr
    refine ⟨h.encodes,h.grows,h.bytecode,?_,hi,?_⟩
    · intro l
      have hne : i ≠ .label l := by
        rintro rfl
        cases hjump
      rw [info_insert,hinfo]
      split_ifs with hl
      · subst hl
        have hlen := congrArg length h.bytecode
        rw [length_append,length_opBytes] at hlen
        have hsize : e1.bytecode.length-(e.bytecode.length+1) = byteSize i-1 := by omega
        change LabelInfo.mk (e1.info l).index _ = _
        rw [hinfo]
        simp only [labelIndex,jumpsTo,hne,hjump,hsize,if_true,if_false,Option.or_none,append_nil]
        have := hinfo l
        rw [← this]
        rfl
      · have hne' : label ≠ l := fun heq => hl heq.symm
        simp [labelIndex,jumpsTo,hne,hjump,hne']
    · intro l hl
      obtain hl | rfl := hl
      · rw [hjump] at hl
        rw [← Option.some.inj hl]
        exact hindex
      · cases hjump

lemma appendInstruction_ok (h : Encodes e.symbols names) (hr : appendInstruction i.toInstruction e = .ok () e') :
    ∃ names',Step e names e' names' i := by
  -- One byte,and then a comparison.
  have hcompare : ∀ (bytes : List UInt8) (lhs rhs : Symbol) (e1 : InstructionEncoder),
      appendValueComparison lhs rhs {e with bytecode := e.bytecode++bytes} = .ok () e1 →
      Comparable lhs rhs ∧ ∃ names',Appended e names e1 names' (lhs.strings++rhs.strings)
        (bytes++comparisonBytes names' lhs rhs) := by
    intro bytes lhs rhs e1 hr
    obtain ⟨hc,names',h'⟩ := appendValueComparison_ok (e := {e with bytecode := e.bytecode++bytes}) h hr
    exact ⟨hc,names',h'.encodes,h'.grows,by rw [h'.bytecode,append_assoc],h'.labelMap⟩
  cases i with
  | abortIfEqual lhs rhs | abortIfNotEqual lhs rhs =>
    obtain ⟨hc,names',h'⟩ := hcompare [_] lhs rhs e' hr
    refine ⟨names',Appended.step (by simpa [operands,opBytes] using h') ⟨by simp,?_⟩ rfl rfl⟩
    rintro _ _ ⟨⟩
    exact hc
  | unconditionalAbort =>
    cases hr
    exact ⟨names,Appended.step ⟨h,Grows.refl names,rfl,rfl⟩ ⟨by simp,by simp [operands]⟩ rfl rfl⟩
  | unconditionalBind => cases hr
  | unconditionalJump label =>
    have happended : Appended e names {e with bytecode := e.bytecode++(unconditionalJump.toU8::leBytes 4 0)} names []
        (opBytes names 0 (.unconditionalJump label)) := ⟨h,Grows.refl names,rfl,rfl⟩
    exact ⟨names,happended.step_jump ⟨by simp,by simp [operands]⟩ rfl hr⟩
  | jumpIfEqual lhs rhs label | jumpIfNotEqual lhs rhs label =>
    change ((append (_::leBytes 4 0) >>= fun _ => appendValueComparison lhs rhs) >>= _) e = _ at hr
    obtain ⟨⟨⟩,e1,hvalues,hr⟩ := bind_eq_ok.mp hr
    obtain ⟨hc,names',h'⟩ := hcompare _ lhs rhs e1 hvalues
    refine ⟨names',Appended.step_jump (by simpa [operands,opBytes] using h') ⟨by simp,?_⟩ rfl hr⟩
    rintro _ _ ⟨⟩
    exact hc
  | label label =>
    change (if (e.info label).index.isSome then throw (.duplicateLabel label) else _ : Encoding Unit) e = _ at hr
    cases hindex : (e.info label).index with
    | some p =>
      rw [hindex] at hr
      cases hr
    | none =>
      rw [hindex] at hr
      simp only [Option.isSome_none,Bool.false_eq_true,if_false,append,modify_bind,modify_apply,Result.ok.injEq,
        true_and] at hr
      subst hr
      refine ⟨names,h,Grows.refl names,rfl,?_,⟨by simp,by simp [operands]⟩,?_⟩
      · intro l
        refine Eq.trans (info_insert e label l {e.info label with index := some e.bytecode.length}) ?_
        by_cases hl : l = label
        · subst hl
          simp [labelIndex,jumpsTo,jumpTarget,hindex]
        · have hne : label ≠ l := fun heq => hl heq.symm
          simp [hl,hne,labelIndex,jumpsTo,jumpTarget]
      · rintro l (hl | hl)
        · cases hl
        · cases hl
          exact hindex

structure FirstPass (names : List String) (code : List SymbolicInstruction) (e : InstructionEncoder)
    (names' : List String) : Prop where
  encodes : Encodes e.symbols names'
  grows : Grows names names' (stringsOf code)
  bytecode : e.bytecode = place names' (fun _ => 0) 0 code
  info : ∀ l,e.info l = ⟨labelIndex l 0 code,jumpsTo l 0 code⟩
  typed : ∀ i ∈ code,WellTyped i
  nodup : (labelsOf code).Nodup
  forward : Forward code

lemma FirstPass.step (h : FirstPass names code e names') (hr : appendInstruction i.toInstruction e = .ok () e') :
    ∃ names'',FirstPass names (code++[i]) e' names'' := by
  obtain ⟨names'',hstep⟩ := appendInstruction_ok h.encodes hr
  have hlen : e.bytecode.length = codeSize code := by rw [h.bytecode,length_place]
  have hfresh : ∀ l,jumpTarget i = some l ∨ i = .label l → l ∉ labelsOf code := by
    intro l hl
    have hnone := hstep.fresh l hl
    rw [h.info] at hnone
    exact labelIndex_eq_none.mp hnone
  refine ⟨names'',hstep.encodes,?_,?_,?_,?_,?_,?_⟩
  · have hgrows := h.grows.trans hstep.grows
    rwa [stringsOf,flatMap_append,flatMap_singleton]
  · rw [hstep.bytecode,h.bytecode,place_append,place_more hstep.grows.initial h.grows.covers]
    simp [place]
  · intro l
    rw [hstep.info,h.info,hlen,labelIndex_append,jumpsTo_append,Nat.zero_add]
  · intro j hj
    obtain hj | hj := mem_append.mp hj
    · exact h.typed j hj
    · rw [mem_singleton.mp hj]
      exact hstep.typed
  · rw [labelsOf_append,nodup_append]
    refine ⟨h.nodup,?_,?_⟩
    · cases hl : labelOf i <;> simp [labelsOf,hl]
    · rintro l hl l' hl' rfl
      apply hfresh l (.inr ?_) hl
      exact (mem_singleton.mp (mem_labelsOf.mp hl')).symm
  · rw [Forward,pairwise_append]
    refine ⟨h.forward,pairwise_singleton _ _,?_⟩
    rintro a ha b hb l rfl hjump
    rw [mem_singleton.mp hb] at hjump
    exact hfresh l (.inl hjump) (mem_labelsOf.mpr ha)

variable {infos : List SymbolicInstructionInfo}

lemma FirstPass.run (h : FirstPass names code e names')
    (hr : infos.forM (fun i => appendInstruction i.instruction.toInstruction) e = .ok () e') :
    ∃ names'',FirstPass names (code++instructionsOf infos) e' names'' := by
  induction infos generalizing code e names' with
  | nil =>
    cases hr
    exact ⟨names',by simpa [instructionsOf] using h⟩
  | cons i infos ih =>
    obtain ⟨e1,hi,hr⟩ := forM_cons_eq_ok.mp hr
    obtain ⟨names1,h1⟩ := h.step hi
    obtain ⟨names2,h2⟩ := ih h1 hr
    exact ⟨names2,by simpa [instructionsOf] using h2⟩

structure Patched (names : List String) (code : List SymbolicInstruction) (e e' : InstructionEncoder)
    (xs : List ℕ) : Prop where
  symbols : e'.symbols = e.symbols
  range : ∀ x ∈ xs,fieldValue 0 code x < 2^32
  bytecode : ∀ off,e.bytecode = place names off 0 code →
    e'.bytecode = place names (fun x => if x ∈ xs then fieldValue 0 code x else off x) 0 code

lemma Patched.refl (names : List String) (code : List SymbolicInstruction) (e : InstructionEncoder) :
    Patched names code e e [] := ⟨rfl,by simp,fun off h => by simpa using h⟩

lemma Patched.trans {e'' : InstructionEncoder} {xs ys : List ℕ} (h : Patched names code e e' xs)
    (h' : Patched names code e' e'' ys) : Patched names code e e'' (xs++ys) where
  symbols := h'.symbols.trans h.symbols
  range x hx := (mem_append.mp hx).elim (h.range x) (h'.range x)
  bytecode off hoff := by
    rw [h'.bytecode _ (h.bytecode off hoff)]
    congr 1
    funext x
    by_cases hx : x ∈ xs <;> by_cases hy : x ∈ ys <;> simp [hx,hy]

lemma patched_forM {A : Type} {l : List A} {f : A → Encoding Unit} (xs : A → List ℕ)
    (hf : ∀ a ∈ l,∀ e e',f a e = .ok () e' → Patched names code e e' (xs a)) (hr : l.forM f e = .ok () e') :
    Patched names code e e' (l.flatMap xs) := by
  induction l generalizing e with
  | nil =>
    cases hr
    exact Patched.refl names code _
  | cons a l ih =>
    obtain ⟨e1,ha,hr⟩ := forM_cons_eq_ok.mp hr
    exact (hf a mem_cons_self _ e1 ha).trans (ih (forall_mem_cons.mp hf).2 hr)

lemma patchJump_ok (names : List String) (hforward : Forward code) {usage : JumpInstructionOffsetInfo} {p : ℕ}
    (hu : usage ∈ jumpsTo label 0 code) (hp : labelIndex label 0 code = some p)
    (hr : patchJump label p usage e = .ok () e') : Patched names code e e' [usage.index] := by
  obtain ⟨hfield,hvalue⟩ := hforward.jumpsTo_value hu hp
  rw [patchJump,hvalue] at hr
  split_ifs at hr with hpast hrange
  · cases hr
  · cases hr
  · rw [get_bind] at hr
    split_ifs at hr with hlen
    · cases hr
    · cases hr
      refine ⟨rfl,by simpa using hrange,?_⟩
      intro off hoff
      have hwrite := overwrite_place names off (fieldValue 0 code usage.index) hfield
      rw [Nat.sub_zero] at hwrite
      simp only
      rw [hoff,hwrite]
      congr 1
      funext x
      by_cases hx : x = usage.index <;> simp [hx]

lemma patchLabel_ok (names : List String) (hforward : Forward code) {entry : Sigma fun _ : UInt32 => LabelInfo}
    (hentry : entry.2 = ⟨labelIndex entry.1 0 code,jumpsTo entry.1 0 code⟩) (hr : patchLabel entry e = .ok () e') :
    entry.1 ∈ labelsOf code ∧ Patched names code e e' ((jumpsTo entry.1 0 code).map index) := by
  rw [patchLabel,hentry] at hr
  cases hp : labelIndex entry.1 0 code with
  | none =>
    simp only [hp] at hr
    cases hr
  | some p =>
    simp only [hp] at hr
    constructor
    · by_contra hmem
      rw [labelIndex_eq_none.mpr hmem] at hp
      cases hp
    · have hpatched := patched_forM (fun usage : JumpInstructionOffsetInfo => [usage.index])
        (fun usage hu e e' hr => patchJump_ok names hforward hu hp hr) hr
      rwa [← map_eq_flatMap] at hpatched

structure Assembled (names names' : List String) (code : List SymbolicInstruction) (bytes : List UInt8) : Prop where
  grows : Grows names names' (stringsOf code)
  bytes : bytes = emit names' code
  typed : ∀ i ∈ code,WellTyped i
  nodup : (labelsOf code).Nodup
  linked : Linked code

lemma encodeInstructions_ok {order : LabelOrder} {bytes : List UInt8} {symbols symbols' : SymbolTableEncoder}
    (h : Encodes symbols names) (hr : encodeInstructions order infos symbols = .ok bytes symbols') :
    ∃ names',Encodes symbols' names' ∧ Assembled names names' (instructionsOf infos) bytes := by
  unfold encodeInstructions at hr
  cases hencode : encode order infos ⟨∅,[],symbols⟩ with
  | fail error e | panic =>
    rw [hencode] at hr
    cases hr
  | ok u e =>
    rw [hencode] at hr
    cases hr
    rw [encode] at hencode
    obtain ⟨⟨⟩,e1,hfirst,hencode⟩ := bind_eq_ok.mp hencode
    rw [get_bind] at hencode
    have hstart : FirstPass names [] ⟨∅,[],symbols⟩ names :=
      ⟨h,Grows.refl names,rfl,fun l => by simp [info,labelIndex,jumpsTo],by simp,nodup_nil,List.Pairwise.nil⟩
    obtain ⟨names',hpass⟩ := hstart.run hfirst
    rw [nil_append] at hpass
    have hentry : ∀ entry ∈ order.list e1.labelMap.entries,entry.2 =
        ⟨labelIndex entry.1 0 (instructionsOf infos),jumpsTo entry.1 0 (instructionsOf infos)⟩ := by
      intro entry hmem
      have hlookup : entry.2 ∈ e1.labelMap.lookup entry.1 :=
        AList.mem_lookup_iff.mpr ((order.perm _).mem_iff.mp hmem)
      rw [← hpass.info,info,Option.mem_def.mp hlookup]
      rfl
    have hpatched := patched_forM _
      (fun entry hmem e e' hr => (patchLabel_ok names' hpass.forward (hentry entry hmem) hr).2) hencode
    have hjumps : ∀ label,∀ usage ∈ jumpsTo label 0 (instructionsOf infos),
        ∃ entry ∈ order.list e1.labelMap.entries,entry.1 = label := by
      intro label usage hu
      cases hlookup : e1.labelMap.lookup label with
      | none =>
        have hinfo := hpass.info label
        rw [info,hlookup] at hinfo
        rw [← (LabelInfo.mk.inj hinfo).2] at hu
        simp at hu
      | some info => exact ⟨⟨label,info⟩,(order.perm _).mem_iff.mpr (AList.mem_lookup_iff.mp hlookup),rfl⟩
    have hcovered : ∀ x ∈ fields 0 (instructionsOf infos),x ∈ (order.list e1.labelMap.entries).flatMap
        fun entry => (jumpsTo entry.1 0 (instructionsOf infos)).map index := by
      intro x hx
      obtain ⟨label,usage,hu,rfl⟩ := exists_of_mem_fields hx
      obtain ⟨entry,hmem,rfl⟩ := hjumps label usage hu
      exact mem_flatMap.mpr ⟨entry,hmem,mem_map_of_mem hu⟩
    refine ⟨names',hpatched.symbols ▸ hpass.encodes,hpass.grows,?_,hpass.typed,hpass.nodup,?_⟩
    · rw [hpatched.bytecode _ hpass.bytecode,← place_fieldValue names' 0]
      apply place_congr
      intro x hx
      exact if_pos (hcovered x hx)
    · apply hpass.forward.linked 0
      · exact fun x hx => hpatched.range x (hcovered x hx)
      · intro i hi label ht
        obtain ⟨usage,hu⟩ := exists_mem_jumpsTo hi ht 0
        obtain ⟨entry,hmem,rfl⟩ := hjumps label usage hu
        obtain ⟨s,t,hr⟩ := forM_eq_ok_of_mem hencode hmem
        exact (patchLabel_ok names' hpass.forward (hentry entry hmem) hr).1

end Fuchsia.Bind
