import Mathlib.Tactic

/-! `DiagnosticsHierarchy::sort` (`diagnostics/hierarchy/rust/src/lib.rs`). Names are given by their bytes, in
whose order strings are compared. -/
namespace Fuchsia.Diagnostics

open List

abbrev Name := List UInt8

def parseDigits : ℕ → Name → Option ℕ
  | n,[] => some n
  | n,c::rest =>
    if 48 ≤ c ∧ c ≤ 57 ∧ n*10+(c.toNat-48) < 2^64 then parseDigits (n*10+(c.toNat-48)) rest else none

/-- `parse::<u64>`: digits, with a plus sign or without. -/
def parseU64 : Name → Option ℕ
  | [] => none
  | [43] => none
  | 43::digits => parseDigits 0 digits
  | digits => parseDigits 0 digits

def namePartialCmp (a b : Name) : Ordering :=
  match parseU64 a,parseU64 b with
  | some n,some m => compare n m
  | _,_ => compare a b

inductive Hierarchy (P M : Type)
  | node (name : Name) (properties : List P) (children : List (Hierarchy P M)) (missing : List M)

variable {P M α : Type}

def Hierarchy.name : Hierarchy P M → Name
  | .node name _ _ _ => name

/-- `sort_by` is a stable merge sort. -/
def byName (name : α → Name) (l : List α) : List α :=
  l.mergeSort fun a b => (namePartialCmp (name a) (name b)).isLE

lemma perm_byName (name : α → Name) (l : List α) : byName name l ~ l := mergeSort_perm l _

variable (propertyName : P → Name)

def Hierarchy.sort : Hierarchy P M → Hierarchy P M
  | .node name properties children missing =>
    .node name (byName propertyName properties)
      ((byName Hierarchy.name children).attach.map fun child => child.1.sort) missing
termination_by h => sizeOf h
decreasing_by
  have hmem := (perm_byName _ children).subset child.2
  have hlt := List.sizeOf_lt_of_mem hmem
  simp only [Hierarchy.node.sizeOf_spec]
  omega

/-- The comparison is transitive on these names. -/
def Ordered (names : List Name) : Prop := ∀ a ∈ names,∀ b ∈ names,∀ c ∈ names,
  (namePartialCmp a b).isLE → (namePartialCmp b c).isLE → (namePartialCmp a c).isLE

/-- No name that is not a number lies, as a string, between two numbers of the other order. -/
def Apart (names : List Name) : Prop := ∀ a ∈ names,∀ b ∈ names,∀ c ∈ names,
  ∀ n ∈ parseU64 a,∀ m ∈ parseU64 b,n ≤ m → parseU64 c = none → (compare c a).isLE → (compare c b).isLE

instance (names : List Name) : Decidable (Apart names) := by
  unfold Apart
  infer_instance

def Sorted (names : List Name) : Prop := names.Pairwise fun a b => (namePartialCmp a b).isLE

def Distinct (names : List Name) : Prop := names.Pairwise fun a b => namePartialCmp a b ≠ .eq

instance (names : List Name) : Decidable (Distinct names) :=
  inferInstanceAs (Decidable (names.Pairwise fun a b => namePartialCmp a b ≠ .eq))

/-- The names of properties and of children have the property at each level. -/
inductive Levels (Q : List Name → Prop) : Hierarchy P M → Prop
  | node {name properties children missing} (hp : Q (properties.map propertyName))
      (hc : Q (children.map Hierarchy.name)) (hd : ∀ child ∈ children,Levels Q child) :
      Levels Q (.node name properties children missing)

inductive Permuted : Hierarchy P M → Hierarchy P M → Prop
  | refl (h) : Permuted h h
  | trans {h h' h''} (hl : Permuted h h') (hr : Permuted h' h'') : Permuted h h''
  | properties {name p p' c m} (hd : Distinct (p.map propertyName)) (hp : p ~ p') :
      Permuted (.node name p c m) (.node name p' c m)
  | children {name p c c' m} (hd : Distinct (c.map Hierarchy.name)) (hc : c ~ c') :
      Permuted (.node name p c m) (.node name p c' m)
  | child {name p l d d' r m} (h : Permuted d d') :
      Permuted (.node name p (l++d::r) m) (.node name p (l++d'::r) m)

lemma namePartialCmp_swap (a b : Name) : namePartialCmp a b = (namePartialCmp b a).swap := by
  unfold namePartialCmp
  cases parseU64 a <;> cases parseU64 b <;> exact Std.OrientedOrd.eq_swap

lemma compare_eq_of_isLE {a b : Name} (hab : (compare a b).isLE) (hba : (compare b a).isLE) : a = b :=
  Std.LawfulEqCmp.eq_of_compare (Std.OrientedCmp.isLE_antisymm hab hba)

lemma ordered_iff_apart {names : List Name} : Ordered names ↔ Apart names := by
  constructor
  · intro h a ha b hb c hc n hn m hm hle hnone hca
    have hab : (namePartialCmp a b).isLE := by
      simp only [namePartialCmp,Option.mem_def.mp hn,Option.mem_def.mp hm]
      exact Nat.isLE_compare.mpr hle
    have hcb := h c hc a ha b hb (by simpa only [namePartialCmp,hnone] using hca) hab
    simpa only [namePartialCmp,hnone] using hcb
  · intro h a ha b hb c hc
    have htrans : ∀ {x y z : Name},(compare x y).isLE → (compare y z).isLE → (compare x z).isLE :=
      Std.TransCmp.isLE_trans
    cases hpa : parseU64 a with
    | none =>
      cases hpb : parseU64 b with
      | none => simpa only [namePartialCmp,hpa,hpb] using htrans
      | some n =>
        cases hpc : parseU64 c with
        | none => simpa only [namePartialCmp,hpa,hpb,hpc] using htrans
        | some m =>
          simp only [namePartialCmp,hpa,hpb,hpc]
          exact fun hab hbc => h b hb c hc a ha n hpb m hpc (Nat.isLE_compare.mp hbc) hpa hab
    | some n =>
      cases hpb : parseU64 b with
      | none =>
        cases hpc : parseU64 c with
        | none => simpa only [namePartialCmp,hpa,hpb,hpc] using htrans
        | some m =>
          simp only [namePartialCmp,hpa,hpb,hpc]
          intro hab hbc
          by_contra hlt
          have hle : m ≤ n := (lt_of_not_ge fun hle => hlt (Nat.isLE_compare.mpr hle)).le
          have hba := h c hc a ha b hb m hpc n hpa hle hpb hbc
          rw [compare_eq_of_isLE hab hba,hpb] at hpa
          cases hpa
      | some m =>
        cases hpc : parseU64 c with
        | some k => simpa only [namePartialCmp,hpa,hpb,hpc] using Std.TransCmp.isLE_trans
        | none =>
          simp only [namePartialCmp,hpa,hpb,hpc]
          intro hab hbc
          by_contra hlt
          have hca : (compare c a).isLE := by
            rw [Std.OrientedOrd.eq_swap (a := c)]
            cases hac : compare a c <;> simp_all
          have hcb := h a ha b hb c hc n hpa m hpb (Nat.isLE_compare.mp hab) hpc hca
          rw [compare_eq_of_isLE hbc hcb,hpc] at hpb
          cases hpb

lemma ordered_of_sorted {names : List Name} (hs : Sorted names) (hd : Distinct names) : Ordered names := by
  have hle : ∀ i j (hi : i < names.length) (hj : j < names.length),
      (namePartialCmp names[i] names[j]).isLE → i ≤ j := by
    intro i j hi hj hij
    by_contra hlt
    have hji := pairwise_iff_getElem.mp hs j i hj hi (not_le.mp hlt)
    have hne := pairwise_iff_getElem.mp hd j i hj hi (not_le.mp hlt)
    rw [namePartialCmp_swap] at hij
    cases h : namePartialCmp names[j] names[i] <;> simp_all
  intro a ha b hb c hc hab hbc
  obtain ⟨i,hi,rfl⟩ := mem_iff_getElem.mp ha
  obtain ⟨j,hj,rfl⟩ := mem_iff_getElem.mp hb
  obtain ⟨k,hk,rfl⟩ := mem_iff_getElem.mp hc
  obtain hik | rfl := ((hle i j hi hj hab).trans (hle j k hj hk hbc)).lt_or_eq
  · exact pairwise_iff_getElem.mp hs i k hi hk hik
  · have hself := namePartialCmp_swap names[i] names[i]
    cases h : namePartialCmp names[i] names[i] <;> simp_all

lemma Ordered.perm {names names' : List Name} (h : Ordered names) (hp : names ~ names') : Ordered names' :=
  fun a ha b hb c hc => h a (hp.symm.subset ha) b (hp.symm.subset hb) c (hp.symm.subset hc)

lemma Distinct.perm {names names' : List Name} (h : Distinct names) (hp : names ~ names') : Distinct names' := by
  refine (hp.pairwise_iff fun hne heq => hne ?_).mp h
  rw [namePartialCmp_swap,heq]
  rfl

section ByName

variable {name : α → Name} {l l' : List α}

lemma byName_sorted (h : Ordered (l.map name)) : Sorted ((byName name l).map name) := by
  rw [byName,map_mergeSort (f := name) (s := fun a b => (namePartialCmp a b).isLE) fun _ _ _ _ => rfl,
    ← attach_map_subtype_val (l.map name),← map_mergeSort
      (r := fun a b : { x // x ∈ l.map name } => (namePartialCmp a.1 b.1).isLE) fun _ _ _ _ => rfl]
  refine pairwise_map.mpr (pairwise_mergeSort (fun a b c => h a.1 a.2 b.1 b.2 c.1 c.2) (fun a b => ?_) _)
  rw [namePartialCmp_swap]
  cases namePartialCmp b.1 a.1 <;> rfl

lemma Distinct.eq (h : Distinct (l.map name)) {a b : α} (ha : a ∈ l) (hb : b ∈ l)
    (heq : namePartialCmp (name a) (name b) = .eq) : a = b := by
  have : Std.Symm fun a b : α => namePartialCmp (name a) (name b) ≠ .eq :=
    ⟨fun x y hne heq => hne (by rw [namePartialCmp_swap,heq]; rfl)⟩
  by_contra hne
  exact (pairwise_map.mp h).forall ha hb hne heq

lemma byName_perm (ho : Ordered (l.map name)) (hd : Distinct (l.map name)) (hp : l ~ l') :
    byName name l' = byName name l := by
  have ho' := ho.perm (hp.map name)
  refine Perm.eq_of_pairwise (fun a b ha hb hab hba => ?_) (pairwise_map.mp (byName_sorted ho'))
    (pairwise_map.mp (byName_sorted ho)) ((perm_byName _ l').trans (hp.symm.trans (perm_byName _ l).symm))
  refine hd.eq (hp.symm.subset ((perm_byName _ l').subset ha)) ((perm_byName _ l).subset hb) ?_
  rw [namePartialCmp_swap] at hba
  cases h : namePartialCmp (name a) (name b) <;> simp_all

end ByName

variable {propertyName} {h h' : Hierarchy P M}

lemma sort_name (h : Hierarchy P M) : (h.sort propertyName).name = h.name := by
  cases h
  rw [Hierarchy.sort]
  rfl

lemma sort_node (name : Name) (p : List P) (c : List (Hierarchy P M)) (m : List M) :
    (Hierarchy.node name p c m).sort propertyName = .node name (byName propertyName p)
        (byName Hierarchy.name (c.map fun d => d.sort propertyName)) m := by
  rw [Hierarchy.sort]
  congr 1
  rw [attach_map_val (l := byName Hierarchy.name c) (f := fun d => d.sort propertyName)]
  exact map_mergeSort fun a _ b _ => by rw [sort_name,sort_name]

lemma map_sort_name (c : List (Hierarchy P M)) :
    (c.map fun d => d.sort propertyName).map Hierarchy.name = c.map Hierarchy.name := by simp [sort_name]

lemma Levels.sorted (h : Levels propertyName Ordered h') : Levels propertyName Sorted (h'.sort propertyName) := by
  induction h with
  | node hp hc _ ih =>
    rw [sort_node]
    refine .node (byName_sorted hp) (byName_sorted (by rwa [map_sort_name])) fun child hmem => ?_
    obtain ⟨d,hd,rfl⟩ := mem_map.mp ((perm_byName _ _).subset hmem)
    exact ih d hd

lemma Permuted.name_eq (hperm : Permuted propertyName h h') : h'.name = h.name := by
  induction hperm with
  | trans _ _ ihl ihr => exact ihr.trans ihl
  | _ => rfl

lemma Permuted.sort_eq (hperm : Permuted propertyName h h') (ho : Levels propertyName Ordered h) :
    Levels propertyName Ordered h' ∧ h'.sort propertyName = h.sort propertyName := by
  induction hperm with
  | refl => exact ⟨ho,rfl⟩
  | trans _ _ ihl ihr =>
    obtain ⟨ho',heq⟩ := ihl ho
    obtain ⟨ho'',heq'⟩ := ihr ho'
    exact ⟨ho'',heq'.trans heq⟩
  | properties hd hperm =>
    obtain ⟨hp,hc,hl⟩ := ho
    refine ⟨.node (hp.perm (hperm.map _)) hc hl,?_⟩
    rw [sort_node,sort_node,byName_perm hp hd hperm]
  | @children name p c c' m hd hperm =>
    obtain ⟨hp,hc,hl⟩ := ho
    refine ⟨.node hp (hc.perm (hperm.map _)) fun child hmem => hl child (hperm.symm.subset hmem),?_⟩
    rw [sort_node,sort_node,byName_perm (by rwa [map_sort_name]) (by rwa [map_sort_name]) (hperm.map _)]
  | @child name p l d d' r m hperm ih =>
    obtain ⟨hp,hc,hl⟩ := ho
    obtain ⟨hd,heq⟩ := ih (hl d (by simp))
    refine ⟨.node hp (by simpa [hperm.name_eq] using hc) fun child hmem => ?_,?_⟩
    · simp only [mem_append,mem_cons] at hmem hl
      obtain hmem | rfl | hmem := hmem
      · exact hl child (.inl hmem)
      · exact hd
      · exact hl child (.inr (.inr hmem))
    · simp only [sort_node,map_append,map_cons,heq]

lemma Levels.mono {Q Q' : List Name → Prop} (h : Levels propertyName Q h') (hQ : ∀ names,Q names → Q' names) :
    Levels propertyName Q' h' := by
  induction h with
  | node hp hc _ ih => exact .node (hQ _ hp) (hQ _ hc) ih

lemma Levels.ordered (hd : Levels propertyName Distinct h) (hs : Levels propertyName Sorted (h.sort propertyName)) :
    Levels propertyName Ordered h := by
  induction hd with
  | @node name p c m hp hc _ ih =>
    rw [sort_node] at hs
    obtain ⟨hsp,hsc,hsd⟩ := hs
    have hperm := (perm_byName propertyName p).map propertyName
    have hpermc := (perm_byName Hierarchy.name (c.map fun d => d.sort propertyName)).map Hierarchy.name
    rw [map_sort_name] at hpermc
    refine .node ((ordered_of_sorted hsp (hp.perm hperm.symm)).perm hperm)
      ((ordered_of_sorted hsc (hc.perm hpermc.symm)).perm hpermc) fun child hmem => ih child hmem ?_
    exact hsd _ ((perm_byName _ _).symm.subset (mem_map_of_mem hmem))

/-- The result is sorted, and the same for every order of siblings with distinct names. -/
def Canonical (propertyName : P → Name) (h : Hierarchy P M) : Prop :=
  Levels propertyName Sorted (h.sort propertyName) ∧
    ∀ h',Permuted propertyName h h' → h'.sort propertyName = h.sort propertyName

/-- Where no name comes between two numbers of the other order, sorting is canonical; where siblings have
distinct names, only there. -/
theorem sort_canonical (propertyName : P → Name) (h : Hierarchy P M) :
    (Levels propertyName Apart h → Canonical propertyName h) ∧
    (Levels propertyName Distinct h → (Canonical propertyName h ↔ Levels propertyName Apart h)) := by
  have hcanonical : Levels propertyName Apart h → Canonical propertyName h := fun ha =>
    have ho := ha.mono fun _ => ordered_iff_apart.mpr
    ⟨ho.sorted,fun _ hperm => (hperm.sort_eq ho).2⟩
  exact ⟨hcanonical,fun hd =>
    ⟨fun hc => (hd.ordered hc.1).mono fun _ => ordered_iff_apart.mp,hcanonical⟩⟩

/-- A node with properties of these names. -/
def properties (names : List Name) (children : List (Hierarchy Name Unit)) : Hierarchy Name Unit :=
  .node [] names children []

def sampleHierarchy : Hierarchy Name Unit :=
  properties [[49,48],[57],[97]] [.node [50] [[49]] [] [],.node [98] [] [] []]

theorem sort_canonical_sample : Levels id Apart sampleHierarchy ∧ Levels id Distinct sampleHierarchy ∧
    Canonical id sampleHierarchy := by
  have hc : Canonical id sampleHierarchy := by
    refine (sort_canonical id sampleHierarchy).1 (.node (by decide) (by decide) ?_)
    simp only [mem_cons,not_mem_nil,or_false,forall_eq_or_imp,forall_eq]
    exact ⟨.node (by decide) (by decide) nofun,.node (by decide) (by decide) nofun⟩
  have hd : Levels id Distinct sampleHierarchy := by
    refine .node (by decide) (by decide) ?_
    simp only [mem_cons,not_mem_nil,or_false,forall_eq_or_imp,forall_eq]
    exact ⟨.node (by decide) (by decide) nofun,.node (by decide) (by decide) nofun⟩
  exact ⟨((sort_canonical id sampleHierarchy).2 hd).mp hc,hd,hc⟩

def cycle : List Name := [[50],[49,48],[49,97]]

lemma cycle_unsorted {names : List Name} (hperm : names ~ cycle) : ¬Sorted names := by
  intro hs
  have hless : ∀ x ∈ cycle,∃ y ∈ cycle,y ≠ x ∧ ¬(namePartialCmp x y).isLE := by decide
  cases names with
  | nil => cases hperm.nil_eq
  | cons x rest =>
    obtain ⟨y,hy,hne,hgt⟩ := hless x (hperm.subset mem_cons_self)
    exact hgt ((pairwise_cons.mp hs).1 y ((mem_cons.mp (hperm.symm.subset hy)).resolve_left hne))

theorem sort_cycle : ¬Levels id Sorted ((properties cycle []).sort id) := by
  rw [properties,sort_node]
  rintro ⟨hp,-,-⟩
  exact cycle_unsorted (by simpa using perm_byName id cycle) hp

end Fuchsia.Diagnostics
