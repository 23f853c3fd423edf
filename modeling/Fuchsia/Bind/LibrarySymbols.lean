import Fuchsia.Bind.LibraryGraph
import Fuchsia.Lib.Fallible

/-! The symbols that libraries declare, and when the compiler puts exactly those of the reachable
libraries into its table. -/
namespace Fuchsia.Bind

open Effect Relation BindLibrary Fallible List AList Ast

variable {P : Type}

namespace BindLibrary

def Ast.qualify (a : Ast) (d : Declaration) : CompoundIdentifier := a.name.nest d.identifier.name

def Ast.symbolsOf (a : Ast) (d : Declaration) : List (CompoundIdentifier×Symbol) :=
  (if d.extending then [] else [(a.qualify d,.key (a.qualify d).toString d.valueType)])++
    d.values.map fun v => ((a.qualify d).nest v.identifier,valueSymbol ((a.qualify d).nest v.identifier) v)

def Ast.symbols (a : Ast) : List (CompoundIdentifier×Symbol) := a.declarations.flatMap a.symbolsOf

def Ast.identifiers (a : Ast) : List CompoundIdentifier := a.symbols.map Prod.fst

def Ast.resolves (a : Ast) (d : Declaration) (id : CompoundIdentifier) : Prop :=
  findQualifiedIdentifier (P := Empty) d a.includes (a.qualify d) = .ok id

end BindLibrary

variable {a b : Ast} {d : Declaration} {table table' : SymbolTable} {id : CompoundIdentifier}

def Adds (table table' : SymbolTable) (symbols : List (CompoundIdentifier×Symbol)) : Prop :=
  ∀ id s,table'.lookup id = some s ↔ table.lookup id = some s ∨ (id,s) ∈ symbols

lemma mem_table : id ∈ table ↔ ∃ s,table.lookup id = some s := by rw [← lookup_isSome,Option.isSome_iff_exists]

lemma Adds.mem {symbols : List (CompoundIdentifier×Symbol)} (h : Adds table table' symbols) :
    id ∈ table' ↔ id ∈ table ∨ id ∈ symbols.map Prod.fst := by simp [mem_table,h id,exists_or]

variable {l m : List (CompoundIdentifier×Symbol)}

lemma Adds.trans {table'' : SymbolTable}
    (h : Adds table table' l) (h' : Adds table' table'' m) : Adds table table'' (l++m) := by
  intro id s
  rw [h' id s,h id s,mem_append,or_assoc]

lemma adds_insert {s : Symbol} (h : id ∉ table) : Adds table (table.insert id s) [(id,s)] := by
  intro id' s'
  rw [mem_singleton,Prod.mk.injEq]
  by_cases hid : id' = id
  · subst hid
    rw [lookup_insert,lookup_eq_none.mpr h]
    simp [eq_comm]
  · rw [lookup_insert_ne hid]
    simp [hid]

variable {q : CompoundIdentifier}

lemma findQualifiedIdentifier_congr {Q : Type} {includes : List Include} :
    findQualifiedIdentifier (P := P) d includes q = .ok id ↔ findQualifiedIdentifier (P := Q) d includes q = .ok id := by
  unfold findQualifiedIdentifier
  cases d.identifier.parent with
  | none => cases d.extending <;> simp
  | some scope =>
    cases d.extending with
    | false => simp
    | true =>
      simp only [Bool.not_true,Bool.false_eq_true,if_false]
      split_ifs
      · simp
      · cases includes.find? fun i => decide (scope = i.name ∨ some scope.toString = i.aliased) <;> simp

lemma declareValues_adds {values : List BindLibrary.Value} (hnodup : (values.map fun v => q.nest v.identifier).Nodup)
    (hnew : ∀ v ∈ values,q.nest v.identifier ∉ table) :
    ∃ table',values.foldlM (declareValue (P := P) q) table = .ok table' ∧
      Adds table table' (values.map fun v => (q.nest v.identifier,valueSymbol (q.nest v.identifier) v)) := by
  induction values generalizing table with
  | nil => exact ⟨table,rfl,fun id s => by simp⟩
  | cons v values ih =>
    obtain ⟨hv,hnodup⟩ := nodup_cons.mp hnodup
    have hfirst := hnew v mem_cons_self
    have hadds := adds_insert (s := valueSymbol (q.nest v.identifier) v) hfirst
    have hrest : ∀ w ∈ values,
        q.nest w.identifier ∉ table.insert (q.nest v.identifier) (valueSymbol (q.nest v.identifier) v) := by
      intro w hw hmem
      obtain hmem | hmem := hadds.mem.mp hmem
      · exact hnew w (mem_cons_of_mem _ hw) hmem
      · rw [map_singleton,mem_singleton] at hmem
        exact hv (mem_map.mpr ⟨w,hw,hmem⟩)
    obtain ⟨table',hok,hadds'⟩ := ih hnodup hrest
    refine ⟨table',?_,hadds.trans hadds'⟩
    rw [foldlM_cons,declareValue,if_neg hfirst]
    exact hok

lemma findQualifiedIdentifier_plain {includes : List Include} (hd : d.extending = false) :
    findQualifiedIdentifier (P := P) d includes q = .ok id ↔ d.identifier.parent = none ∧ q = id := by
  unfold findQualifiedIdentifier
  cases d.identifier.parent <;> simp [hd]

lemma declareKey_plain (hd : d.extending = false) (hid : id ∉ table) :
    declareKey (P := P) table d id = .ok (table.insert id (.key id.toString d.valueType)) := by
  simp [declareKey,lookup_eq_none.mpr hid,hd]

lemma declareKey_extending (hd : d.extending = true) (h : declareKey (P := P) table d id = .ok table') :
    table' = table ∧ id ∈ table := by
  unfold declareKey at h
  cases hl : table.lookup id with
  | none => simp [hl,hd] at h
  | some s =>
    refine ⟨?_,mem_table.mpr ⟨s,hl⟩⟩
    rw [hl] at h
    cases s <;> simp [hd] at h <;> grind

structure Fresh (table : SymbolTable) (symbols : List (CompoundIdentifier×Symbol)) : Prop where
  nodup : (symbols.map Prod.fst).Nodup
  new : ∀ id ∈ symbols.map Prod.fst,id ∉ table

section

variable (h : Fresh table (a.symbolsOf d))
include h

lemma Fresh.values : (d.values.map fun v => (a.qualify d).nest v.identifier).Nodup ∧
      ∀ v ∈ d.values,(a.qualify d).nest v.identifier ∉ table := by
  have hsub : (d.values.map fun v => (a.qualify d).nest v.identifier) <:+ (a.symbolsOf d).map Prod.fst := by
    rw [Ast.symbolsOf,List.map_append,List.map_map]
    exact suffix_append _ _
  refine ⟨hsub.sublist.nodup h.nodup,fun v hv => ?_⟩
  exact h.new _ (hsub.subset (mem_map.mpr ⟨v,hv,rfl⟩))

lemma Fresh.key (hd : d.extending = false) : a.qualify d ∉ table := by
  apply h.new
  simp [Ast.symbolsOf,hd]

lemma Fresh.key_notMem (hd : d.extending = false) {v : BindLibrary.Value}
    (hv : v ∈ d.values) : (a.qualify d).nest v.identifier ≠ a.qualify d := by
  intro heq
  have hnodup := h.nodup
  rw [Ast.symbolsOf,hd,if_neg Bool.false_ne_true,singleton_append,map_cons,nodup_cons] at hnodup
  exact hnodup.1 (mem_map.mpr ⟨_,mem_map.mpr ⟨v,hv,rfl⟩,heq⟩)

lemma declare_of_key {table1 : SymbolTable} (hid : a.resolves d id)
    (hkey : declareKey (P := P) table d id = .ok table1) :
    ∃ table',declare (P := P) a table d = .ok table' ∧ Adds table table' (a.symbolsOf d) := by
  obtain ⟨hnodup,hnew⟩ := h.values
  have hfind := (findQualifiedIdentifier_congr (Q := P)).mp hid
  have hadds : Adds table table1
      (if d.extending then [] else [(a.qualify d,.key (a.qualify d).toString d.valueType)]) := by
    cases hd : d.extending with
    | true =>
      rw [(declareKey_extending hd hkey).1]
      intro id s
      simp
    | false =>
      obtain ⟨-,rfl⟩ := (findQualifiedIdentifier_plain hd).mp hid
      rw [declareKey_plain hd (h.key hd)] at hkey
      rw [← Except.ok.inj hkey]
      exact adds_insert (h.key hd)
  have hnew1 : ∀ v ∈ d.values,(a.qualify d).nest v.identifier ∉ table1 := by
    intro v hv hmem
    obtain hmem | hmem := hadds.mem.mp hmem
    · exact hnew v hv hmem
    · cases hd : d.extending with
      | true => simp [hd] at hmem
      | false => exact h.key_notMem hd hv (by simpa [hd] using hmem)
  obtain ⟨table',hok,hadds'⟩ := declareValues_adds (P := P) hnodup hnew1
  refine ⟨table',?_,hadds.trans hadds'⟩
  change (findQualifiedIdentifier d a.includes (a.qualify d) >>= fun id => declareKey table d id >>= fun t =>
    d.values.foldlM (declareValue (a.qualify d)) t) = _
  rw [hfind,ok_bind,hkey,ok_bind,hok]

lemma declare_inv (hok : declare (P := P) a table d = .ok table') : (d.extending = false → d.identifier.parent = none) ∧
      (d.extending = true → ∃ id,a.resolves d id ∧ id ∈ table) ∧ Adds table table' (a.symbolsOf d) := by
  obtain ⟨id,hfind,hrest⟩ := bind_eq_ok.mp hok
  obtain ⟨table1,hkey,-⟩ := bind_eq_ok.mp hrest
  have hid : a.resolves d id := findQualifiedIdentifier_congr.mp hfind
  obtain ⟨table2,hok2,hadds⟩ := declare_of_key h hid hkey
  rw [hok] at hok2
  rw [← Except.ok.inj hok2] at hadds
  refine ⟨fun hd => ?_,fun hd => ?_,hadds⟩
  · exact ((findQualifiedIdentifier_plain hd).mp hid).1
  · exact ⟨id,hid,(declareKey_extending hd hkey).2⟩

end

def declarationsOf (libraries : List Ast) : List (Ast×Declaration) :=
  libraries.flatMap fun a => a.declarations.map fun d => (a,d)

def symbolsOf (steps : List (Ast×Declaration)) : List (CompoundIdentifier×Symbol) :=
  steps.flatMap fun e => e.1.symbolsOf e.2

lemma mem_declarationsOf {libraries : List Ast} {e : Ast×Declaration} :
    e ∈ declarationsOf libraries ↔ e.1 ∈ libraries ∧ e.2 ∈ e.1.declarations := by
  obtain ⟨a,d⟩ := e
  simp only [declarationsOf,mem_flatMap,mem_map,Prod.mk.injEq]
  constructor
  · rintro ⟨b,hb,c,hc,rfl,rfl⟩
    exact ⟨hb,hc⟩
  · rintro ⟨ha,hd⟩
    exact ⟨a,ha,d,hd,rfl,rfl⟩

lemma mem_identifiers (hd : d ∈ a.declarations) (hid : id ∈ (a.symbolsOf d).map Prod.fst) : id ∈ a.identifiers := by
  rw [identifiers,symbols,map_flatMap,mem_flatMap]
  exact ⟨d,hd,hid⟩

lemma symbolsOf_declarationsOf (libraries : List Ast) :
    symbolsOf (declarationsOf libraries) = libraries.flatMap symbols := by
  simp only [symbolsOf,declarationsOf,flatMap_assoc,flatMap_map]
  rfl

lemma foldlM_declarationsOf (libraries : List Ast) (table : SymbolTable) :
    libraries.foldlM (fun t a => a.declarations.foldlM (declare (P := P) a) t) table =
      (declarationsOf libraries).foldlM (fun t e => declare e.1 t e.2) table := by
  induction libraries generalizing table with
  | nil => rfl
  | cons a libraries ih =>
    rw [declarationsOf,flatMap_cons,foldlM_append,foldlM_cons,foldlM_map]
    congr 1
    funext t
    exact ih t

variable {steps : List (Ast×Declaration)}

lemma Fresh.append (h : Fresh table (l++m)) : Fresh table l ∧ ∀ table',Adds table table' l → Fresh table' m := by
  obtain ⟨hnodup,hnew⟩ := h
  rw [List.map_append] at hnodup hnew
  obtain ⟨hl,hm,hlm⟩ := nodup_append.mp hnodup
  refine ⟨⟨hl,(forall_mem_append.mp hnew).1⟩,fun table' h' => ⟨hm,?_⟩⟩
  intro id hid hmem
  obtain hmem | hmem := h'.mem.mp hmem
  · exact hnew id (mem_append_right _ hid) hmem
  · exact hlm id hmem id hid rfl

lemma declareAll_adds (h : Fresh table (symbolsOf steps))
    (hplain : ∀ e ∈ steps,e.2.extending = false → e.2.identifier.parent = none)
    (hextending : ∀ e ∈ steps,e.2.extending = true → ∃ id k,e.1.resolves e.2 id ∧ table.lookup id = some (.deprecatedKey k)) :
    ∃ table',steps.foldlM (fun t e => declare (P := P) e.1 t e.2) table = .ok table' ∧
      Adds table table' (symbolsOf steps) := by
  induction steps generalizing table with
  | nil => exact ⟨table,rfl,fun id s => by simp [symbolsOf]⟩
  | cons e steps ih =>
    obtain ⟨hfirst,hrest⟩ := h.append
    obtain ⟨table1,hok1,hadds1⟩ : ∃ t,declare (P := P) e.1 table e.2 = .ok t ∧ Adds table t (e.1.symbolsOf e.2) := by
      cases hd : e.2.extending with
      | true =>
        obtain ⟨id,k,hid,hl⟩ := hextending e mem_cons_self hd
        have hkey : declareKey (P := P) table e.2 id = .ok table := by simp [declareKey,hl]
        exact declare_of_key hfirst hid hkey
      | false =>
        have hid : e.1.resolves e.2 (e.1.qualify e.2) :=
          (findQualifiedIdentifier_plain hd).mpr ⟨hplain e mem_cons_self hd,rfl⟩
        exact declare_of_key hfirst hid (declareKey_plain hd (hfirst.key hd))
    have hkept : ∀ f ∈ steps,f.2.extending = true →
        ∃ id k,f.1.resolves f.2 id ∧ table1.lookup id = some (.deprecatedKey k) := by
      intro f hf hd
      obtain ⟨id,k,hid,hl⟩ := hextending f (mem_cons_of_mem _ hf) hd
      exact ⟨id,k,hid,(hadds1 id _).mpr (.inl hl)⟩
    obtain ⟨table',hok,hadds⟩ := ih (hrest table1 hadds1) (forall_mem_cons.mp hplain).2 hkept
    refine ⟨table',?_,hadds1.trans hadds⟩
    rw [foldlM_cons,hok1,ok_bind,hok]

lemma declareAll_inv (h : Fresh table (symbolsOf steps))
    (hok : steps.foldlM (fun t e => declare (P := P) e.1 t e.2) table = .ok table') :
    ∀ l e m,steps = l++e::m → (e.2.extending = false → e.2.identifier.parent = none) ∧ (e.2.extending = true →
        ∃ id,e.1.resolves e.2 id ∧ (id ∈ table ∨ id ∈ (symbolsOf l).map Prod.fst)) := by
  induction steps generalizing table with
  | nil =>
    intro l e m heq
    simp at heq
  | cons f steps ih =>
    obtain ⟨hfirst,hrest⟩ := h.append
    rw [foldlM_cons] at hok
    obtain ⟨table1,hok1,hok⟩ := bind_eq_ok.mp hok
    obtain ⟨hplain,hextending,hadds⟩ := declare_inv hfirst hok1
    intro l e m heq
    cases l with
    | nil =>
      obtain ⟨rfl,-⟩ := cons.inj heq
      refine ⟨hplain,fun hd => ?_⟩
      obtain ⟨id,hid,hmem⟩ := hextending hd
      exact ⟨id,hid,.inl hmem⟩
    | cons f' l =>
      obtain ⟨rfl,hrest'⟩ := cons.inj heq
      obtain ⟨hplain',hextending'⟩ := ih (hrest table1 hadds) hok l e m hrest'
      refine ⟨hplain',fun hd => ?_⟩
      obtain ⟨id,hid,hmem⟩ := hextending' hd
      refine ⟨id,hid,?_⟩
      rw [show symbolsOf (f::l) = f.1.symbolsOf f.2++symbolsOf l from rfl,List.map_append,mem_append]
      rwa [hadds.mem,or_assoc] at hmem

lemma lookup_deprecated {s : Symbol} (h : getDeprecatedSymbols.lookup id = some s) : ∃ k,s = .deprecatedKey k := by
  refine foldlRecOn (motive := fun t : SymbolTable => ∀ id s,t.lookup id = some s →
    ∃ k,s = .deprecatedKey k) deprecatedKeys _ (by simp) ?_ id s h
  intro t ht e _ id s hl
  by_cases hid : id = fuchsia.nest e.1
  · subst hid
    rw [lookup_insert] at hl
    exact ⟨e.2,(Option.some.inj hl).symm⟩
  · rw [lookup_insert_ne hid] at hl
    exact ht id s hl

/-- Libraries as they may be given: their names differ, no library uses itself through others, no
identifier is declared twice, and an extended key is a deprecated one or a key of the same type
of a library that is used. -/
structure WellFormed (libraries : List Ast) : Prop where
  names : (libraries.map name).Nodup
  acyclic : ∀ a ∈ libraries,¬TransGen (Uses libraries) a a
  once : ∀ a ∈ libraries,a.identifiers.Nodup
  apart : ∀ a ∈ libraries,∀ b ∈ libraries,a ≠ b → ∀ id ∈ a.identifiers,id ∉ b.identifiers
  deprecated : ∀ a ∈ libraries,∀ id ∈ a.identifiers,id ∉ getDeprecatedSymbols
  extended : ∀ b ∈ libraries,∀ d ∈ b.declarations,d.extending = true →
    ∃ id,b.resolves d id ∧ (id ∈ getDeprecatedSymbols ∨ ∃ a,Uses libraries b a ∧ ∃ e ∈ a.declarations,
        e.extending = false ∧ e.valueType = d.valueType ∧ a.qualify e = id)

/-- The table has the deprecated symbols and those of the libraries that the rules can reach. -/
def Tabulates (table : SymbolTable) (includes : List Include) (libraries : List Ast) : Prop :=
  ∀ id s,table.lookup id = some s ↔
    getDeprecatedSymbols.lookup id = some s ∨ ∃ a,Reachable includes libraries a ∧ (id,s) ∈ a.symbols

/-- Every library that is used is given, and a reachable library extends deprecated keys only and
qualifies no key that it does not extend. -/
structure Extendable (includes : List Include) (libraries : List Ast) : Prop where
  closed : Closed includes libraries
  plain : ∀ b,Reachable includes libraries b → ∀ d ∈ b.declarations,
    d.extending = false → d.identifier.parent = none
  deprecated : ∀ b,Reachable includes libraries b → ∀ d ∈ b.declarations,
    d.extending = true → ∃ id,b.resolves d id ∧ id ∈ getDeprecatedSymbols

variable {includes : List Include} {libraries dependencies : List Ast}

section

variable (h : Ordered includes libraries dependencies)
include h

lemma Ordered.fresh (hw : WellFormed libraries) :
    Fresh getDeprecatedSymbols (symbolsOf (declarationsOf dependencies)) := by
  have hmem : ∀ a ∈ dependencies,a ∈ libraries := fun a ha => ((h.mem a).mp ha).mem
  rw [symbolsOf_declarationsOf]
  constructor
  · rw [map_flatMap,nodup_flatMap]
    refine ⟨fun a ha => hw.once a (hmem a ha),?_⟩
    refine h.nodup.imp_of_mem fun ha hb hne => ?_
    intro id hid hid'
    exact hw.apart _ (hmem _ ha) _ (hmem _ hb) hne id hid hid'
  · intro id hid
    rw [map_flatMap] at hid
    obtain ⟨a,ha,hid⟩ := mem_flatMap.mp hid
    exact hw.deprecated a (hmem a ha) id hid

lemma Ordered.deprecated_of_ok (hw : WellFormed libraries)
    (hok : constructSymbolTable (P := P) dependencies = .ok table) (hb : Reachable includes libraries b)
    (hd : d ∈ b.declarations) : (d.extending = false → d.identifier.parent = none) ∧
      (d.extending = true → ∃ id,b.resolves d id ∧ id ∈ getDeprecatedSymbols) := by
  rw [constructSymbolTable,foldlM_declarationsOf] at hok
  obtain ⟨before,after,hsplit⟩ := append_of_mem ((h.mem b).mpr hb)
  obtain ⟨l,m,hd'⟩ := append_of_mem hd
  have hsteps : declarationsOf dependencies =
      (declarationsOf before++l.map fun d => (b,d))++(b,d)::((m.map fun d => (b,d))++declarationsOf after) := by
    simp [hsplit,declarationsOf,hd']
  obtain ⟨hplain,hextending⟩ := declareAll_inv (h.fresh hw) hok _ _ _ hsteps
  refine ⟨hplain,fun hext => ?_⟩
  obtain ⟨id,hid,hmem⟩ := hextending hext
  obtain ⟨id',hid',hdeclared⟩ := hw.extended b hb.mem d hd hext
  have hsame : id' = id := Except.ok.inj (hid'.symm.trans hid)
  subst hsame
  obtain hdep | ⟨a,huses,e,he,heplain,-,hqualify⟩ := hdeclared
  · exact ⟨id',hid,hdep⟩
  · obtain hdep | hmem := hmem
    · exact ⟨id',hid,hdep⟩
    · exfalso
      rw [symbolsOf,map_flatMap,mem_flatMap] at hmem
      obtain ⟨f,hf,hfid⟩ := hmem
      have hcid : id' ∈ f.1.identifiers ∧ (f.1 ∈ before ∨ f.1 = b) := by
        obtain hf | hf := mem_append.mp hf
        · obtain ⟨hbefore,hdecl⟩ := mem_declarationsOf.mp hf
          exact ⟨mem_identifiers hdecl hfid,.inl hbefore⟩
        · obtain ⟨d',hd'l,rfl⟩ := mem_map.mp hf
          refine ⟨mem_identifiers ?_ hfid,.inr rfl⟩
          rw [hd']
          exact mem_append_left _ hd'l
      have haid : id' ∈ a.identifiers := by
        refine mem_identifiers he ?_
        simp [Ast.symbolsOf,heplain,hqualify]
      have hlib : f.1 ∈ libraries := by
        obtain hbefore | heq := hcid.2
        · exact ((h.mem f.1).mp (hsplit ▸ mem_append_left _ hbefore)).mem
        · exact heq ▸ hb.mem
      have hfa : f.1 = a := by
        by_contra hne
        exact hw.apart f.1 hlib a huses.1 hne id' hcid.1 haid
      rw [hfa] at hcid
      obtain hbefore | rfl := hcid.2
      · have horder := h.order
        rw [hsplit,pairwise_append] at horder
        exact horder.2.2 a hbefore b mem_cons_self huses
      · exact hw.acyclic a hb.mem (.single huses)

lemma Ordered.construct_iff (hw : WellFormed libraries) (hclosed : Closed includes libraries) :
    (∃ table,constructSymbolTable (P := P) dependencies = .ok table ∧ Tabulates table includes libraries) ↔
      Extendable includes libraries := by
  constructor
  · rintro ⟨table,hok,-⟩
    refine ⟨hclosed,fun b hb d hd => ?_,fun b hb d hd => ?_⟩
    · exact (h.deprecated_of_ok hw hok hb hd).1
    · exact (h.deprecated_of_ok hw hok hb hd).2
  · intro hx
    have hreach : ∀ e ∈ declarationsOf dependencies,Reachable includes libraries e.1 ∧ e.2 ∈ e.1.declarations := by
      intro e he
      obtain ⟨ha,hd⟩ := mem_declarationsOf.mp he
      exact ⟨(h.mem e.1).mp ha,hd⟩
    have hdeprecated : ∀ e ∈ declarationsOf dependencies,e.2.extending = true →
        ∃ id k,e.1.resolves e.2 id ∧ getDeprecatedSymbols.lookup id = some (.deprecatedKey k) := by
      intro e he hd
      obtain ⟨id,hid,hmem⟩ := hx.deprecated e.1 (hreach e he).1 e.2 (hreach e he).2 hd
      obtain ⟨s,hs⟩ := mem_table.mp hmem
      obtain ⟨k,rfl⟩ := lookup_deprecated hs
      exact ⟨id,k,hid,hs⟩
    obtain ⟨table,hok,hadds⟩ := declareAll_adds (P := P) (h.fresh hw)
      (fun e he => hx.plain e.1 (hreach e he).1 e.2 (hreach e he).2) hdeprecated
    simp only [Adds,symbolsOf_declarationsOf,mem_flatMap,h.mem] at hadds
    refine ⟨table,?_,hadds⟩
    rw [constructSymbolTable,foldlM_declarationsOf,hok]

end


section Listing

variable {listed : List Ast}

lemma uses_congr (h : listed.Perm libraries) : Uses listed = Uses libraries := by
  funext a b
  rw [Uses,Uses,h.mem_iff]

lemma reachable_congr (h : listed.Perm libraries) (ha : Reachable includes listed a) :
    Reachable includes libraries a := by
  induction ha with
  | direct hi ha hname => exact .direct hi (h.mem_iff.mp ha) hname
  | through _ huses ih => exact .through ih (uses_congr h ▸ huses)

lemma reachable_perm (h : listed.Perm libraries) : Reachable includes listed = Reachable includes libraries := by
  funext a
  exact propext ⟨reachable_congr h,reachable_congr h.symm⟩

lemma WellFormed.perm (hw : WellFormed libraries) (h : listed.Perm libraries) : WellFormed listed where
  names := ((h.map name).nodup_iff).mpr hw.names
  acyclic a ha := uses_congr h ▸ hw.acyclic a (h.mem_iff.mp ha)
  once a ha := hw.once a (h.mem_iff.mp ha)
  apart a ha b hb := hw.apart a (h.mem_iff.mp ha) b (h.mem_iff.mp hb)
  deprecated a ha := hw.deprecated a (h.mem_iff.mp ha)
  extended b hb := uses_congr h ▸ hw.extended b (h.mem_iff.mp hb)

lemma Extendable.perm (hx : Extendable includes libraries) (h : listed.Perm libraries) : Extendable includes listed where
  closed := by
    unfold Closed
    simp only [h.mem_iff]
    exact hx.closed
  plain := reachable_perm h ▸ hx.plain
  deprecated := reachable_perm h ▸ hx.deprecated

end Listing

/-- For well-formed libraries, in whatever order they are listed and the hash sets are traversed, the
compiler builds the table of the reachable ones if and only if these extend deprecated keys only. -/
theorem getSymbolTableFromLibraries_iff (parse : String → Except P Ast) (order : Traversal)
    (includes : List Include) (lint : Bool) {texts listed : List String} (hlisted : listed.Perm texts)
    (hparse : texts.mapM (parseLibrary parse lint) = .ok libraries) (hw : WellFormed libraries) :
    (∃ table,getSymbolTableFromLibraries parse order includes listed lint () = .ok table () ∧
      Tabulates table includes libraries) ↔ Extendable includes libraries := by
  obtain ⟨asts,hasts,hperm⟩ := mapM_perm hlisted.symm hparse
  have hw' := hw.perm hperm.symm
  have hends := resolveDependencies_ends (P := P) order includes hw'.names hw'.acyclic
  have hparsed : (ofExcept (listed.mapM (parseLibrary parse lint)) :
      Effect Unit (CompilerError P) (List Ast)) () = .ok asts () := ofExcept_eq_ok.mpr ⟨hasts,rfl⟩
  have hsame : ∀ table,Tabulates table includes libraries ↔ Tabulates table includes asts := by
    intro table
    rw [Tabulates,Tabulates,reachable_perm hperm]
  simp only [hsame]
  rw [getSymbolTableFromLibraries,bind_of_ok hparsed]
  constructor
  · rintro ⟨table,hok,htable⟩
    obtain ⟨dependencies,⟨⟩,hdeps,hok⟩ := bind_eq_ok.mp hok
    obtain ⟨hclosed,hordered⟩ := hends.of_ok hdeps
    have hconstruct := (ofExcept_eq_ok.mp hok).1
    exact ((hordered.construct_iff hw' hclosed).mp ⟨table,hconstruct,htable⟩).perm hperm
  · intro hx
    have hx' := hx.perm hperm.symm
    cases hdeps : resolveDependencies (P := P) order includes asts () with
    | ok dependencies u =>
      obtain ⟨hclosed,hordered⟩ := hends.of_ok hdeps
      obtain ⟨table,hok,htable⟩ := (hordered.construct_iff (P := P) hw' hclosed).mpr hx'
      refine ⟨table,?_,htable⟩
      rw [bind_of_ok hdeps]
      exact ofExcept_eq_ok.mpr ⟨hok,rfl⟩
    | fail e u => exact absurd hx'.closed (hends.of_fail hdeps)
    | panic => exact absurd hdeps hends.ne_panic

/-- What `library base; uint key {one = 1};` declares. -/
def baseLibrary : Ast where
  name := ⟨[],"base"⟩
  includes := []
  declarations := [⟨⟨[],"key"⟩,.number,false,[.number "one" 1]⟩]

/-- What `library derived; using base; extend uint base.key {two = 2};` declares. -/
def derivedLibrary : Ast where
  name := ⟨[],"derived"⟩
  includes := [⟨⟨[],"base"⟩,none⟩]
  declarations := [⟨⟨["base"],"key"⟩,.number,true,[.number "two" 2]⟩]

def sampleTexts : List String :=
  ["library base; uint key {one = 1};","library derived; using base; extend uint base.key {two = 2};"]

def sampleParse (text : String) : Except Unit Ast :=
  if text = "library base; uint key {one = 1};" then .ok baseLibrary
  else if text = "library derived; using base; extend uint base.key {two = 2};" then .ok derivedLibrary
  else .error ()

lemma sample_uses (h : Uses [baseLibrary,derivedLibrary] a b) (ha : a ∈ [baseLibrary,derivedLibrary]) :
    a = derivedLibrary ∧ b = baseLibrary := by
  obtain ⟨hb,i,hi,hname⟩ := h
  simp only [mem_cons,not_mem_nil,or_false] at ha hb
  obtain rfl | rfl := ha
  · simp [baseLibrary] at hi
  · refine ⟨rfl,?_⟩
    obtain rfl | rfl := hb
    · rfl
    · simp only [derivedLibrary,mem_singleton] at hi
      subst hi
      simp [derivedLibrary] at hname

lemma sample_wellFormed : WellFormed [baseLibrary,derivedLibrary] where
  names := by decide +kernel
  acyclic a ha hcycle := by
    obtain ⟨b,hab,hba⟩ := TransGen.head'_iff.mp hcycle
    obtain ⟨rfl,rfl⟩ := sample_uses hab ha
    obtain heq | ⟨c,⟨-,i,hi,-⟩,-⟩ := hba.cases_head
    · exact absurd heq (by decide)
    · simp [baseLibrary] at hi
  once := by decide +kernel
  apart := by decide +kernel
  deprecated := by decide +kernel
  extended b hb d hd hext := by
    simp only [mem_cons,not_mem_nil,or_false] at hb
    obtain rfl | rfl := hb
    · simp only [baseLibrary,mem_singleton] at hd
      subst hd
      cases hext
    · simp only [derivedLibrary,mem_singleton] at hd
      subst hd
      refine ⟨⟨["base"],"key"⟩,rfl,.inr ⟨baseLibrary,⟨by simp,?_⟩,?_⟩⟩
      · exact ⟨⟨⟨[],"base"⟩,none⟩,by simp [derivedLibrary],rfl⟩
      · exact ⟨⟨⟨[],"key"⟩,.number,false,[.number "one" 1]⟩,by simp [baseLibrary],rfl,rfl,rfl⟩

lemma sample_parse : sampleTexts.mapM (parseLibrary sampleParse false) = .ok [baseLibrary,derivedLibrary] := rfl

theorem getSymbolTableFromLibraries_sample :
    ∃ table,getSymbolTableFromLibraries sampleParse .ascending [⟨⟨[],"base"⟩,none⟩] sampleTexts false () =
      .ok table () ∧ Tabulates table [⟨⟨[],"base"⟩,none⟩] [baseLibrary,derivedLibrary] := by
  refine (getSymbolTableFromLibraries_iff sampleParse .ascending _ false (.refl sampleTexts) sample_parse
    sample_wellFormed).mpr ?_
  have hreach : ∀ a,Reachable [⟨⟨[],"base"⟩,none⟩] [baseLibrary,derivedLibrary] a → a = baseLibrary := by
    intro a ha
    induction ha with
    | @direct i a hi ha hname =>
      rw [mem_singleton.mp hi] at hname
      simp only [mem_cons,not_mem_nil,or_false] at ha
      obtain rfl | rfl := ha
      · rfl
      · simp [derivedLibrary] at hname
    | through ha huses _ => exact (sample_uses huses ha.mem).2
  constructor
  case closed => exact ⟨by decide,by decide⟩
  case plain =>
    intro b hb d hd _
    rw [hreach b hb,baseLibrary,mem_singleton] at hd
    rw [hd]
    rfl
  case deprecated =>
    intro b hb d hd hext
    rw [hreach b hb,baseLibrary,mem_singleton] at hd
    rw [hd] at hext
    cases hext

/-- The extension of a key of another library is handled before that key. -/
theorem getSymbolTableFromLibraries_undeclared :
    WellFormed [baseLibrary,derivedLibrary] ∧
      sampleTexts.mapM (parseLibrary sampleParse false) = .ok [baseLibrary,derivedLibrary] ∧
      Closed [⟨⟨[],"derived"⟩,none⟩] [baseLibrary,derivedLibrary] ∧
      getSymbolTableFromLibraries sampleParse .ascending [⟨⟨[],"derived"⟩,none⟩] sampleTexts false () =
        .fail (.undeclaredKey ⟨["base"],"key"⟩) () :=
  ⟨sample_wellFormed,sample_parse,⟨by decide,by decide⟩,rfl⟩

end Fuchsia.Bind
